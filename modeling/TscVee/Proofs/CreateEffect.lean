import TscVee.Proofs.CallEffect
import TscVee.Proofs.WordBytes

/-!
# `TscVee.Proofs.CreateEffect`: the message of a creation, and its effect on stack and gas

`CreateInstr.core_eq` splits `CREATE` and `CREATE2` into phases: `checks` of memory and gas,
`admission` for depth and balance, `message` for the message, the call of the host, and `settle` for
the gas and the address. `CreateInstr.Effect` says what is to happen behind the checks.

The pushed salt is the word that stays in the result slot: 0 in `CREATE`, the salt in `CREATE2`. The
address goes one slot above. In `CREATE` the pushed 0 is at the slot of the init code size, so no
init code goes into the message. `createEffect_iff` says where that makes no difference.
-/

set_option autoImplicit false

namespace TscVee

open TscVee.Core Lib

/-- The creation instructions. -/
inductive CreateInstr
  | create | create2
  deriving DecidableEq, Repr

namespace CreateInstr

/-- The slot of the lowest operand, where the result is to be. -/
def slot (i : CreateInstr) (top : StackTop) : Slot :=
  match i with
  | .create => top - 2
  | .create2 => top - 3

/-- The kind of the message. -/
def kind : CreateInstr → CallKind
  | .create => .create
  | .create2 => .create2

section
variable [Env] (i : CreateInstr) (top : StackTop)

/-- The implementation. -/
def core : StackTop → Core Unit :=
  match i with
  | .create => TscVee.create
  | .create2 => TscVee.create2

/-! ### The phases -/

/-- The charge for hashing the init code, with the salt. -/
def takeSalt : Core Uint256 := do
  let salt ← load (top - 3)
  let saltCost := numWords (← load (top - 2)).low * 6
  setGas (toInt64 ((← read (·.gasLeft)) - saltCost))
  if (← read (·.gasLeft)) < 0 then ret .outOfGas
  return salt

/-- Static mode, the memory and the gas, with the salt. -/
def checks : Core Uint256 := do
  refuseStatic
  requireMemoryU256 (← load (top - 1)) (← load (top - 2))
  match i with
  | .create => return .zero
  | .create2 => takeSalt top

/-- The push of the salt, depth and balance, with the message of the run and the endowment. -/
def admission (salt : Uint256) : Core (Option (Message × Uint256)) := do
  store (i.slot top) salt
  modify fun s => { s with returnData := none }
  let stateMsg ← read (·.msg)
  if stateMsg.depth ≥ 1024 then return none
  let b ← ask (.getBalance stateMsg.recipient)
  let value ← load top
  if !zero256 value && gt256 value (readu256BE (bytesAt b)) then return none
  else return some (stateMsg, value)

/-- The gas that a creation hands over. -/
def handedGas (rev : Revision) (gas : Int) : Int :=
  if rev ≥ .tangerineWhistle then gas - gas.tdiv 64 else gas

/-- The message to the host. -/
def message (salt : Uint256) (stateMsg : Message) (value : Uint256) : Core Message := do
  let gas ← read (·.gasLeft)
  let gas := handedGas (← read (·.rev)) gas
  let msg ← initCodeMessage (top - 1) (top - 2) (Env.localMessage (← nextFresh))
  return { msg with
    kind := i.kind, gas := gas, sender := stateMsg.recipient,
    depth := toInt32 (stateMsg.depth + 1), create2Salt := u256ToU8_32 salt,
    value := u256ToU8_32 value }

/-- The gas that the callee used, and the address. -/
def settle (gas : Int) (result : Result) : Core Unit := do
  let gasUsed ← int64 (gas - result.gasLeft)
  subGas gasUsed
  takeCreateResult (i.slot top) result

/-- The shared part of the implementations, from the push of the salt on. -/
theorem createMessage_eq (salt : Uint256) (stack : StackTop) (hslot : stack + 1 = i.slot top) :
    createMessage i.kind top (top - 1) (top - 2) salt stack = (do
        match ← i.admission top salt with
        | none => return ()
        | some (stateMsg, value) =>
          let msg ← i.message top salt stateMsg value
          let result ← ask (.call msg)
          i.settle top msg.gas result) := by
  unfold createMessage admission StackTop.push
  simp only [bind_assoc, pure_bind, hslot]
  refine bind_congr fun _ => bind_congr fun _ => bind_congr fun stateMsg => ?_
  by_cases hdepth : stateMsg.depth ≥ 1024
  · simp [hdepth]
  · simp only [hdepth, if_false, bind_assoc]
    refine bind_congr fun b => bind_congr fun value => ?_
    cases !zero256 value && gt256 value (readu256BE (bytesAt b))
    · simp [message, settle, handedGas]
    · simp

/-- The phases of a creation. -/
theorem core_eq : i.core top = (do
    let salt ← i.checks top
    match ← i.admission top salt with
    | none => return ()
    | some (stateMsg, value) =>
      let msg ← i.message top salt stateMsg value
      let result ← ask (.call msg)
      i.settle top msg.gas result) := by
  cases i with
  | create =>
      unfold core checks TscVee.create
      simp only [StackTop.pop, bind_assoc, pure_bind, CallInstr.slots_eq]
      refine bind_congr fun _ => bind_congr fun _ => bind_congr fun _ => bind_congr fun _ => ?_
      have hslot : ∀ p : Int, p - 3 + 1 = p - 2 := fun p => by omega
      exact createMessage_eq .create top .zero (top - 3) (hslot top)
  | create2 =>
      unfold core checks TscVee.create2 takeSalt
      simp only [StackTop.pop, bind_assoc, CallInstr.slots_eq]
      refine bind_congr fun _ => bind_congr fun _ => bind_congr fun _ => bind_congr fun _ => ?_
      refine bind_congr fun salt => bind_congr fun _ => bind_congr fun _ => bind_congr fun _ => ?_
      have hrest := createMessage_eq .create2 top salt (top - 3 - 1) (Int.sub_add_cancel _ 1)
      refine bind_congr fun gas => ?_
      split <;> simp [← hrest, kind]

end

/-! ### What is to happen -/

section
variable (i : CreateInstr) (top : StackTop) (s : ExecutionState)

/-- The operand with the offset of the init code. -/
def initCodeOffset : Nat := (s.stackSpace (top - 1)).toNat

/-- The operand with the size of the init code. -/
def initCodeSize : Nat := (s.stackSpace (top - 2)).toNat

/-- The message carries the bytes of `memory` that the operands name. -/
structure HasInitCode (memory : Memory) (msg : Message) : Prop where
  size : msg.inputSize = initCodeSize top s
  bytes : initCodeSize top s ≠ 0 →
    initCodeOffset top s + initCodeSize top s ≤ memory.mSize ∧
    ∃ data, memory.mData = some data ∧ msg.inputData.take (initCodeSize top s) =
      (List.range (initCodeSize top s)).map fun j => data (initCodeOffset top s + j)

/-- What the message is to say, when `memory` is the memory behind the checks. -/
structure Carries (memory : Memory) (msg : Message) : Prop where
  initCode : HasInitCode top s memory msg
  kind : msg.kind = i.kind
  endowment : msg.value = u256ToU8_32 (s.stackSpace top)
  sender : msg.sender = s.msg.recipient
  depth : msg.depth = s.msg.depth + 1
  salt : i = .create2 → msg.create2Salt = u256ToU8_32 (s.stackSpace (top - 3))

/-- The operands are replaced by one word with the value `n`. -/
structure Replaced (n : Nat) (s' : ExecutionState) : Prop where
  word : (s'.stackSpace (i.slot top)).toNat = n
  below : ∀ p < i.slot top, s'.stackSpace p = s.stackSpace p

/-- The word that stands for the result: the address of the new account, or 0. -/
def resultWord (result : Result) : Nat :=
  if result.statusCode = .success then beNat (bytesAt result.createAddress) 20 else 0

/-- What memory and hashing cost when `memory` is the memory behind the checks. -/
def checksCost (memory : Memory) : Int :=
  memoryPrice (memory.mSize / 32) - memoryPrice (s.memory.mSize / 32) +
    match i with
    | .create => 0
    | .create2 => ((initCodeSize top s + 31) / 32 * 6 : Nat)

/-- What is to happen behind checks that end in the state `s₁`, when `admission` ends with
`admitted` in `s₂`. -/
structure Effect [Env] (salt : Uint256) (admitted : Option (Message × Uint256))
    (s₁ s₂ : ExecutionState) : Prop where
  gas : s₂.gasLeft = s.gasLeft - i.checksCost top s s₁.memory
  kept : ∀ data, s.memory.mData = some data → ∃ data₁, s₁.memory.mData = some data₁ ∧
    ∀ j, j < s₁.memory.mSize → data₁ j = if j < s.memory.mSize then data j else 0
  refused : admitted = none → i.Replaced top s 0 s₂
  called : ∀ stateMsg value, admitted = some (stateMsg, value) →
    Sat (i.message top salt stateMsg value) s₂
      (fun msg s₃ => i.Carries top s s₁.memory msg ∧
        ∀ result s₄, ask (.call msg) s₃ = .ok result s₄ →
          Sat (i.settle top msg.gas result) s₄
            (fun _ s₅ => i.Replaced top s (resultWord result) s₅ ∧
              s₅.gasLeft = s₂.gasLeft - (msg.gas - result.gasLeft))
            fun _ _ => False)
      fun _ _ => False

end

/-! ### When it happens -/

/-- The gas that the callee returns lets the differences fit in `int64_t`. -/
def GasFits (s₂ : ExecutionState) : Prop :=
  let gas := handedGas s₂.rev s₂.gasLeft
  isInt64 (gas - s₂.hostCtx.callResult.gasLeft) ∧
    isInt64 (s₂.gasLeft - (gas - s₂.hostCtx.callResult.gasLeft))

instance (s₂ : ExecutionState) : Decidable (GasFits s₂) :=
  inferInstanceAs (Decidable (isInt64 _ ∧ isInt64 _))

section
variable [Env] (i : CreateInstr) (top : StackTop) (s : ExecutionState)

/-- The init code gets into the message: in `CREATE` only when the uninitialised message happens to
carry it, in `CREATE2` when no sum wraps and the uninitialised pointer is writable. -/
def InitCodeArrives (s₂ : ExecutionState) : Prop :=
  match i with
  | .create => HasInitCode top s s₂.memory (Env.localMessage s₂.fresh)
  | .create2 =>
    if initCodeSize top s = 0 then (Env.localMessage s₂.fresh).inputSize = 0
    else initCodeOffset top s + initCodeSize top s < 2 ^ 64 ∧
      Env.wildPointerWritable (s₂.fresh + 1) = true

/-- The word that the pushed salt leaves in the result slot. -/
def leftWord : Nat :=
  match i with
  | .create => 0
  | .create2 => (s.stackSpace (top - 3)).toNat

/-- Where the code does what it is to do, when `admission` ends with `admitted` in `s₂`. -/
def Works (admitted : Option (Message × Uint256)) (s₂ : ExecutionState) : Prop :=
  if admitted = none then
    i.leftWord top s = 0 ∧ (i = .create2 → initCodeSize top s + 31 < 2 ^ 64)
  else
    i.InitCodeArrives top s s₂ ∧ s₂.hostCtx.callResult.outputSize = 0 ∧
      i.leftWord top s = resultWord s₂.hostCtx.callResult ∧ GasFits s₂

end

/-! ### What the phases do -/

/-- The checks have succeeded. -/
structure Checked (i : CreateInstr) (top : StackTop) (s : ExecutionState) (salt : Uint256)
    (s₁ : ExecutionState) : Prop where
  salt_eq : salt = match i with
    | .create => .zero
    | .create2 => s.stackSpace (top - 3)
  slot_in : inStackSpace (i.slot top)
  size_in : inStackSpace (top - 2)
  offset_in : inStackSpace (top - 1)
  same : s₁.stackSpace = s.stackSpace ∧ s₁.msg = s.msg ∧ s₁.hostCtx = s.hostCtx
  sound : s₁.memory.Sound
  data : ∀ data, s.memory.mData = some data → ∃ data₁, s₁.memory.mData = some data₁ ∧
    ∀ j, j < s₁.memory.mSize → data₁ j = if j < s.memory.mSize then data j else 0
  gas : s₁.gasLeft = s.gasLeft - (memoryPrice (s₁.memory.mSize / 32) -
    memoryPrice (s.memory.mSize / 32) + match i with
      | .create => 0
      | .create2 => (numWords (s.stackSpace (top - 2)).low * 6 : Nat))
  checked : initCodeSize top s ≠ 0 → (s.stackSpace (top - 1)).low = initCodeOffset top s ∧
    (initCodeOffset top s + (s.stackSpace (top - 2)).low) % 2 ^ 64 ≤ s₁.memory.mSize

section
variable [Env] {i : CreateInstr} {top : StackTop} {s : ExecutionState}

omit [Env] in
/-- A word cost taken from a gas counter that is not negative. -/
theorem toInt64_charge {gas : Int} (hgas : 0 ≤ gas) (hgas' : gas < 2 ^ 63) (n : Nat) :
    toInt64 (gas - (numWords n * 6 : Nat)) = gas - (numWords n * 6 : Nat) := by
  have hwords : numWords n ≤ 2 ^ 59 := by
    unfold numWords
    omega
  unfold toInt64
  rw [Int.bmod_eq_of_le] <;> omega

/-- What the checks leave: the salt, the paid hash and a memory that covers the init code. -/
theorem sat_checks (i : CreateInstr) (hsound : s.memory.Sound) (hgas : 0 ≤ s.gasLeft)
    (hint : isInt64 s.gasLeft) :
    Sat (i.checks top) s (fun salt s₁ => i.Checked top s salt s₁) fun _ _ => True := by
  unfold checks
  rw [sat_bind, sat_refuseStatic]
  split
  · trivial
  rw [sat_bind, sat_load]
  split
  case isFalse => trivial
  case isTrue hoffset =>
  rw [sat_bind, sat_load]
  split
  case isFalse => trivial
  case isTrue hsize =>
  rw [sat_bind]
  refine (((sat_requireMemoryU256 _ _).and (sat_requireMemoryU256_sound hsound _ _)).and
    (sat_requireMemoryU256_paid _ _ _)).mono (fun _ s' ⟨⟨hcheck, hsound'⟩, hpaid, _⟩ => ?_)
    fun _ _ _ => trivial
  have hsame := hpaid.same
  have hstack : s'.stackSpace = s.stackSpace := by rw [hsame]
  -- What is left of the gas has 64 bits, so that `create2` can subtract its charge.
  have hrange : 0 ≤ s'.gasLeft ∧ s'.gasLeft < 2 ^ 63 := by
    rcases hcheck with ⟨-, rfl⟩ | ⟨-, hchecked, -⟩
    · exact ⟨hgas, hint.2⟩
    · obtain ⟨cost, hcost, heq⟩ := hchecked.cost
      have hlt := hint.2
      exact ⟨hchecked.gas hgas, by omega⟩
  -- The range of the init code, as far as the check has seen it: by its low limbs.
  have hcover : initCodeSize top s ≠ 0 → (s.stackSpace (top - 1)).low = initCodeOffset top s ∧
      (initCodeOffset top s + (s.stackSpace (top - 2)).low) % 2 ^ 64 ≤ s'.memory.mSize := by
    intro hne
    rcases hcheck with ⟨hzero, -⟩ | ⟨-, -, hlarge, hcover⟩
    · exact absurd ((zero256_iff _).1 hzero) hne
    · have hlow := (offsetTooLarge_eq_false hlarge).1
      exact ⟨hlow, by rwa [hlow] at hcover⟩
  cases i with
  | create =>
      exact ⟨rfl, hsize, hsize, hoffset, ⟨hstack, by rw [hsame], by rw [hsame]⟩, hsound', hpaid.data,
        by rw [hpaid.gas, add_zero], hcover⟩
  | create2 =>
      -- `create2` takes the salt and charges for the words of the init code.
      unfold takeSalt
      simp only [sat_bind, sat_load]
      split
      case isFalse => trivial
      case isTrue hsalt =>
      simp only [sat_read, sat_setGas, sat_ite, sat_pure]
      refine ⟨fun _ => trivial, fun _ => ?_⟩
      rw [hstack]
      refine ⟨rfl, hsalt, hsize, hoffset, ⟨rfl, by rw [hsame], by rw [hsame]⟩, hsound', hpaid.data,
        ?_, hcover⟩
      rw [toInt64_charge hrange.1 hrange.2, hpaid.gas, Int.sub_sub]

/-- What `admission` leaves. -/
structure Admitted (i : CreateInstr) (top : StackTop) (s : ExecutionState) (salt : Uint256)
    (admitted : Option (Message × Uint256)) (s' : ExecutionState) : Prop where
  stack : s'.stackSpace = (s.setSlot (i.slot top) salt).stackSpace
  memory : s'.memory = s.memory
  gas : s'.gasLeft = s.gasLeft
  result : s'.hostCtx.callResult = s.hostCtx.callResult
  some_eq : ∀ stateMsg value, admitted = some (stateMsg, value) →
    stateMsg = s.msg ∧ s.msg.depth < 1024 ∧ value = s'.stackSpace top

omit [Env] in
/-- A creation is admitted below the depth limit and with enough balance. The size slot is
overwritten in either case. -/
theorem sat_admission (i : CreateInstr) (salt : Uint256) :
    Sat (i.admission top salt) s (fun admitted s' => i.Admitted top s salt admitted s')
      fun _ _ => True := by
  unfold admission
  rw [sat_bind, sat_store]
  split
  case isFalse => trivial
  simp only [sat_bind, sat_modify, sat_read, sat_ite, sat_pure]
  refine ⟨fun _ => ⟨rfl, rfl, rfl, rfl, nofun⟩, fun hdepth => ?_⟩
  rw [sat_ask]
  refine (serve_callResult _ _).mono (fun b host hresult => ?_) fun _ _ _ => trivial
  rw [sat_load]
  split
  case isFalse => trivial
  refine ⟨fun _ => ⟨rfl, rfl, rfl, hresult, nofun⟩, fun _ => ⟨rfl, rfl, rfl, hresult, ?_⟩⟩
  intro stateMsg value heq
  cases heq
  exact ⟨rfl, Int.lt_of_not_ge hdepth, rfl⟩

/-- The range of the init code can be read, and the uninitialised pointer written. -/
def Copyable (memory : Memory) (k offset size : Nat) (data : Nat → Byte) : Prop :=
  memory.mData = some data ∧ offset + size ≤ memory.mSize ∧ Env.wildPointerWritable k = true

/-- The init code is read from the memory, with the offset and the size that the slots hold. -/
theorem sat_initCodeMessage {p q : Slot} (hp : inStackSpace p) (hq : inStackSpace q) (msg : Message) :
    Sat (initCodeMessage p q msg) s
      (fun msg' s' => s'.stackSpace = s.stackSpace ∧ s'.memory = s.memory ∧ s'.gasLeft = s.gasLeft ∧
        s'.hostCtx = s.hostCtx ∧
        if (s.stackSpace q).low = 0 then msg' = msg
        else ∃ data, Copyable s.memory s.fresh (s.stackSpace p).low (s.stackSpace q).low data ∧ msg' =
          { msg with
            inputSize := (s.stackSpace q).low
            inputData := (List.range (s.stackSpace q).low).map fun j =>
              data ((s.stackSpace p).low + j) })
      fun _ _ => (s.stackSpace q).low ≠ 0 ∧
        ∀ data, ¬ Copyable s.memory s.fresh (s.stackSpace p).low (s.stackSpace q).low data := by
  unfold initCodeMessage
  simp only [sat_bind, sat_load, hp, hq, if_true, sat_ite, sat_pure]
  refine ⟨fun hpos => ?_, fun hzero => ⟨trivial, trivial, trivial, trivial, ?_⟩⟩
  -- The bytes are read first, and then written through the pointer.
  · have hne : (s.stackSpace q).low ≠ 0 := Nat.ne_of_gt hpos
    simp only [sat_readMemory, hne, if_false, sat_access]
    cases hdata : s.memory.mData with
    | none => exact ⟨hne, fun data h => by simp [h.1] at hdata⟩
    | some data =>
        simp only
        split
        case isFalse hout =>
          exact ⟨hne, fun data' h => hout h.2.1⟩
        case isTrue hin =>
        simp only [sat_nextFresh, sat_fault]
        refine ⟨fun hwild => ⟨hne, fun data' h => ?_⟩, fun hwild => ⟨rfl, rfl, rfl, rfl, data,
          ⟨hdata, hin, ?_⟩, rfl⟩⟩
        · have hwritable : Env.wildPointerWritable (s.logAccess (s.stackSpace p).low
              (s.stackSpace q).low).fresh = true := h.2.2
          rw [hwritable] at hwild
          exact absurd hwild (by decide)
        · simpa [ExecutionState.logAccess] using hwild
  · rw [if_pos (Nat.eq_zero_of_not_pos hzero)]
    trivial

/-- The message, as the code makes it in the state `s`. -/
structure Made (i : CreateInstr) (top : StackTop) (s : ExecutionState) (salt : Uint256)
    (stateMsg : Message) (value : Uint256) (msg : Message) (s' : ExecutionState) : Prop where
  stack : s'.stackSpace = s.stackSpace
  memory : s'.memory = s.memory
  gasLeft : s'.gasLeft = s.gasLeft
  host : s'.hostCtx = s.hostCtx
  kind : msg.kind = i.kind
  gas : msg.gas = handedGas s.rev s.gasLeft
  sender : msg.sender = stateMsg.recipient
  depth : msg.depth = toInt32 (stateMsg.depth + 1)
  salt_eq : msg.create2Salt = u256ToU8_32 salt
  value_eq : msg.value = u256ToU8_32 value
  noInput : (s.stackSpace (top - 2)).low = 0 →
    msg.inputSize = (Env.localMessage s.fresh).inputSize ∧
      msg.inputData = (Env.localMessage s.fresh).inputData
  input : (s.stackSpace (top - 2)).low ≠ 0 → ∃ data,
    Copyable s.memory (s.fresh + 1) (s.stackSpace (top - 1)).low (s.stackSpace (top - 2)).low data ∧
      msg.inputSize = (s.stackSpace (top - 2)).low ∧
      msg.inputData = (List.range (s.stackSpace (top - 2)).low).map fun j =>
        data ((s.stackSpace (top - 1)).low + j)

/-- The message of the creation, and the state it is sent from. -/
theorem sat_message (i : CreateInstr) (hoffset : inStackSpace (top - 1))
    (hsize : inStackSpace (top - 2)) (salt : Uint256) (stateMsg : Message) (value : Uint256) :
    Sat (i.message top salt stateMsg value) s
      (fun msg s' => i.Made top s salt stateMsg value msg s')
      fun _ _ => (s.stackSpace (top - 2)).low ≠ 0 ∧ ∀ data, ¬ Copyable s.memory (s.fresh + 1)
        (s.stackSpace (top - 1)).low (s.stackSpace (top - 2)).low data := by
  unfold message
  simp only [sat_bind, sat_read, sat_nextFresh]
  refine (sat_initCodeMessage hoffset hsize _).mono ?_ fun _ _ h => h
  rintro msg s' ⟨hstack, hmemory, hgas, hhost, hinput⟩
  refine ⟨hstack, hmemory, hgas, hhost, rfl, rfl, rfl, rfl, rfl, rfl, fun hzero => ?_,
    fun hne => ?_⟩
  · simp only [hzero, if_true] at hinput
    subst hinput
    exact ⟨rfl, rfl⟩
  · simp only [hne, if_false] at hinput
    obtain ⟨data, hcopy, rfl⟩ := hinput
    exact ⟨data, hcopy, rfl, rfl⟩

omit [Env] in
/-- The host answers a call with a readable input with its call result, and nothing else that
matters changes. -/
theorem sat_askCreate {msg : Message} (hinput : msg.inputSize ≤ msg.inputData.length) :
    Sat (ask (.call msg)) s (fun result s' => result = s.hostCtx.callResult ∧
        s'.stackSpace = s.stackSpace ∧ s'.gasLeft = s.gasLeft) fun _ _ => False := by
  have hcall := CallInstr.sat_askCall (s := s) hinput
  rw [sat_ask] at hcall ⊢
  exact hcall.mono (fun _ _ h => ⟨h.1, rfl, rfl⟩) fun _ _ h => h

/-- Gas and address behind the call. -/
theorem sat_settle (i : CreateInstr) (gas : Int) (result : Result) :
    Sat (i.settle top gas result) s
      (fun _ s' => isInt64 (gas - result.gasLeft) ∧ isInt64 (s.gasLeft - (gas - result.gasLeft)) ∧
        result.outputSize = 0 ∧ s'.gasLeft = s.gasLeft - (gas - result.gasLeft) ∧
        ∀ p ≤ i.slot top, s'.stackSpace p = s.stackSpace p)
      fun _ _ => ¬ (isInt64 (gas - result.gasLeft) ∧
        isInt64 (s.gasLeft - (gas - result.gasLeft)) ∧ result.outputSize = 0 ∧
        (result.statusCode = .success → inStackSpace (i.slot top + 1))) := by
  unfold settle takeCreateResult
  simp only [sat_bind, sat_int64, sat_subGas', sat_ite, sat_fault, sat_nextFresh, sat_pure]
  split
  -- Two subtractions that may overflow an `int64_t`.
  case isFalse hfits => exact fun h => hfits h.1
  case isTrue hfits =>
  split
  case isFalse hfits' => exact fun h => hfits' h.2.1
  case isTrue hfits' =>
  -- An output makes the source dereference `return_data`, so it must be empty.
  refine ⟨fun hpos h => absurd h.2.2.1 (Nat.ne_of_gt hpos), fun hempty => ⟨fun hok => ?_, fun _ =>
    ⟨hfits, hfits', Nat.eq_zero_of_not_pos hempty, trivial, fun _ _ => trivial⟩⟩⟩
  simp only [StackTop.push, sat_bind, sat_store]
  split
  case isFalse hslot => exact fun h => hslot (h.2.2.2 hok)
  -- The push is above the slot of the result, and keeps all below it.
  case isTrue hslot =>
  refine ⟨hfits, hfits', Nat.eq_zero_of_not_pos hempty, rfl, fun p hp => ?_⟩
  exact if_neg (Int.ne_of_lt (Int.lt_add_one_of_le hp))

/-! ### The effect -/

omit [Env] in
/-- The number of words is the right one for a size below `2 ^ 64 - 31`. -/
theorem numWords_low_iff (x : Uint256) :
    numWords x.low = (x.toNat + 31) / 32 ↔ x.toNat + 31 < 2 ^ 64 := by
  constructor
  · intro h
    unfold numWords at h
    omega
  · intro h
    rw [low_eq_toNat (by omega), numWords_eq h]

variable {salt : Uint256} {admitted : Option (Message × Uint256)} {s₁ s₂ : ExecutionState}

omit [Env] in
/-- The gas that the checks take is the right one, but for sizes of `CREATE2` that wrap. -/
theorem Checked.gas_iff (h : i.Checked top s salt s₁) :
    s₁.gasLeft = s.gasLeft - i.checksCost top s s₁.memory ↔
      (i = .create2 → initCodeSize top s + 31 < 2 ^ 64) := by
  have hgas := h.gas
  unfold checksCost
  cases i with
  | create => exact iff_of_true hgas nofun
  | create2 =>
      have hwords := numWords_low_iff (s.stackSpace (top - 2))
      have hsize : initCodeSize top s = (s.stackSpace (top - 2)).toNat := rfl
      rw [← hsize] at hwords
      simp only at hgas ⊢
      rw [hgas]
      constructor
      · intro heq _
        exact hwords.1 (by omega)
      · intro hlt
        rw [hwords.2 (hlt trivial)]

/-- The stack that `admission` leaves. -/
structure Stacked (i : CreateInstr) (top : StackTop) (s s₂ : ExecutionState) : Prop where
  word : (s₂.stackSpace (i.slot top)).toNat = i.leftWord top s
  above : ∀ p, p ≠ i.slot top → s₂.stackSpace p = s.stackSpace p

omit [Env] in
/-- The stack at the creation. -/
theorem Admitted.stacked (h₁ : i.Checked top s salt s₁) (h₂ : i.Admitted top s₁ salt admitted s₂) :
    i.Stacked top s s₂ := by
  refine ⟨?_, fun p hp => ?_⟩
  · have hword : s₂.stackSpace (i.slot top) = salt := by
      rw [h₂.stack]
      exact if_pos rfl
    rw [hword, h₁.salt_eq]
    cases i with
    | create => exact (by decide : Uint256.zero.toNat = 0)
    | create2 => rfl
  · have hother : s₂.stackSpace p = s₁.stackSpace p := by
      rw [h₂.stack]
      exact if_neg hp
    rw [hother, h₁.same.1]

omit [Env] in
/-- The result replaces the operands exactly when the word that is left there is the one that is to
be. -/
theorem Stacked.replaced (h : i.Stacked top s s₂) {s' : ExecutionState}
    (hsame : ∀ p ≤ i.slot top, s'.stackSpace p = s₂.stackSpace p) (n : Nat) :
    i.Replaced top s n s' ↔ i.leftWord top s = n := by
  constructor
  · intro hr
    rw [← h.word, ← hsame _ (Int.le_refl _), hr.word]
  · intro hn
    refine ⟨by rw [hsame _ (Int.le_refl _), h.word, hn], fun p hp => ?_⟩
    rw [hsame p (Int.le_of_lt hp), h.above p (Int.ne_of_lt hp)]

omit [Env] in
/-- The slots of the operands are different. -/
theorem slots_lt (p : Int) : p - 2 ≠ p - 3 ∧ p - 1 ≠ p - 3 ∧ p ≠ p - 3 ∧ p - 1 ≠ p - 2 ∧
    p ≠ p - 2 := by
  omega

omit [Env] in
/-- The init code is a matter of the input only. -/
theorem hasInitCode_congr {memory : Memory} {msg msg' : Message}
    (hsize : msg'.inputSize = msg.inputSize) (hdata : msg'.inputData = msg.inputData) :
    HasInitCode top s memory msg' ↔ HasInitCode top s memory msg :=
  ⟨fun h => ⟨hsize ▸ h.size, hdata ▸ h.bytes⟩, fun h => ⟨hsize.symm ▸ h.size, hdata.symm ▸ h.bytes⟩⟩

omit [Env] in
/-- The pointer of the message reaches as far as its size. -/
theorem HasInitCode.readable {memory : Memory} {msg : Message}
    (h : HasInitCode top s memory msg) : msg.inputSize ≤ msg.inputData.length := by
  rw [h.size]
  by_cases hzero : initCodeSize top s = 0
  · omega
  · obtain ⟨-, data, -, hbytes⟩ := h.bytes hzero
    have hlength := congrArg List.length hbytes
    rw [List.length_take, List.length_map, List.length_range] at hlength
    omega

omit [Env] in
/-- Without init code the message has the size that it happens to have. -/
theorem hasInitCode_empty {memory : Memory} {msg wild : Message}
    (hzero : initCodeSize top s = 0)
    (hnoInput : (s.stackSpace (top - 2)).low = 0 →
      msg.inputSize = wild.inputSize ∧ msg.inputData = wild.inputData) :
    HasInitCode top s memory msg ↔ wild.inputSize = 0 := by
  have hnat : (s.stackSpace (top - 2)).toNat = 0 := hzero
  have hlow : (s.stackSpace (top - 2)).low = 0 := by rw [low_eq_toNat (by omega), hnat]
  rw [← (hnoInput hlow).1]
  exact ⟨fun hcode => hcode.size.trans hzero, fun hsize => ⟨hsize.trans hzero.symm, absurd hzero⟩⟩

/-- Init code that the checks let pass is copied when no sum has wrapped. -/
theorem Checked.hasInitCode_copied (h : i.Checked top s salt s₁) {msg : Message} {k : Nat}
    (hne : initCodeSize top s ≠ 0)
    (hinput : (s.stackSpace (top - 2)).low ≠ 0 → ∃ data,
      Copyable s₁.memory k (s.stackSpace (top - 1)).low (s.stackSpace (top - 2)).low data ∧
        msg.inputSize = (s.stackSpace (top - 2)).low ∧
        msg.inputData = (List.range (s.stackSpace (top - 2)).low).map fun j =>
          data ((s.stackSpace (top - 1)).low + j)) :
    HasInitCode top s s₁.memory msg ↔ initCodeOffset top s + initCodeSize top s < 2 ^ 64 ∧
      Env.wildPointerWritable k = true := by
  have hsizeNat : initCodeSize top s = (s.stackSpace (top - 2)).toNat := rfl
  constructor
  · intro hcode
    have hrange := (hcode.bytes hne).1
    have hbound := h.sound.bound
    -- The memory check bounds the size, so its low limb is all of it.
    have hlow : (s.stackSpace (top - 2)).low = initCodeSize top s := low_eq_toNat (by omega)
    obtain ⟨data, hcopy, -⟩ := hinput (by omega)
    exact ⟨by omega, hcopy.2.2⟩
  · rintro ⟨hrange, -⟩
    have hlow : (s.stackSpace (top - 2)).low = initCodeSize top s := low_eq_toNat (by omega)
    -- The sum does not wrap, so the range was checked as it stands.
    obtain ⟨hoffset, hchecked⟩ := h.checked hne
    rw [hlow, Nat.mod_eq_of_lt hrange] at hchecked
    obtain ⟨data, hcopy, hsize, hdata⟩ := hinput (by omega)
    rw [hlow] at hsize hdata
    refine ⟨hsize, fun _ => ⟨hchecked, data, hcopy.1, ?_⟩⟩
    rw [hdata, hoffset, ← List.map_take, List.take_range, min_self]

/-- The message carries the init code where it arrives. -/
theorem Made.hasInitCode_iff {stateMsg msg : Message} {value : Uint256} {s₃ : ExecutionState}
    (h₁ : i.Checked top s salt s₁) (h₂ : i.Admitted top s₁ salt admitted s₂)
    (h₃ : i.Made top s₂ salt stateMsg value msg s₃) :
    HasInitCode top s s₁.memory msg ↔ i.InitCodeArrives top s s₂ := by
  have hstack := h₂.stacked h₁
  have hmemory := h₂.memory
  cases i with
  | create =>
      -- The salt, which is 0 here, was pushed to the slot of the size. So nothing is
      -- copied.
      have hzero : (s₂.stackSpace (top - 2)).low = 0 := by
        have hword : (s₂.stackSpace (top - 2)).toNat = 0 := hstack.word
        exact (low_eq_toNat (by rw [hword]; decide)).trans hword
      obtain ⟨hsize, hdata⟩ := h₃.noInput hzero
      rw [hasInitCode_congr hsize hdata, ← hmemory]
      rfl
  | create2 =>
      -- The salt is pushed to its own slot, and the operands are still there.
      have hsizeWord : s₂.stackSpace (top - 2) = s.stackSpace (top - 2) :=
        hstack.above _ (slots_lt top).1
      have hoffsetWord : s₂.stackSpace (top - 1) = s.stackSpace (top - 1) :=
        hstack.above _ (slots_lt top).2.1
      have hnoInput := h₃.noInput
      have hinput := h₃.input
      rw [hsizeWord] at hnoInput hinput
      rw [hoffsetWord] at hinput
      rw [hmemory] at hinput
      have harrives : CreateInstr.create2.InitCodeArrives top s s₂ ↔
          if initCodeSize top s = 0 then (Env.localMessage s₂.fresh).inputSize = 0
          else initCodeOffset top s + initCodeSize top s < 2 ^ 64 ∧
            Env.wildPointerWritable (s₂.fresh + 1) = true := Iff.rfl
      rw [harrives]
      split
      case isTrue hzero => exact hasInitCode_empty hzero hnoInput
      case isFalse hne => exact h₁.hasInitCode_copied hne hinput

/-- The sizes that the code lets through to the message do not wrap the word cost. -/
theorem Checked.size_lt (h : i.Checked top s salt s₁) (harrives : i.InitCodeArrives top s s₂) :
    i = .create2 → initCodeSize top s + 31 < 2 ^ 64 := by
  rintro rfl
  have hif : if initCodeSize top s = 0 then (Env.localMessage s₂.fresh).inputSize = 0
      else initCodeOffset top s + initCodeSize top s < 2 ^ 64 ∧
        Env.wildPointerWritable (s₂.fresh + 1) = true := harrives
  split at hif
  case isTrue hzero => omega
  case isFalse hne =>
  have hlow : (s.stackSpace (top - 2)).low = initCodeSize top s :=
    low_eq_toNat (show (s.stackSpace (top - 2)).toNat < 2 ^ 64 from by
      have : initCodeSize top s = (s.stackSpace (top - 2)).toNat := rfl
      omega)
  have hchecked := (h.checked hne).2
  rw [hlow, Nat.mod_eq_of_lt hif.1] at hchecked
  have hbound := h.sound.bound
  omega

/-- A message whose init code arrives is made without a fault. -/
theorem Checked.copyable (h₁ : i.Checked top s salt s₁) (h₂ : i.Admitted top s₁ salt admitted s₂)
    (harrives : i.InitCodeArrives top s s₂) (hne : (s₂.stackSpace (top - 2)).low ≠ 0) :
    ∃ data, Copyable s₂.memory (s₂.fresh + 1) (s₂.stackSpace (top - 1)).low
      (s₂.stackSpace (top - 2)).low data := by
  have hstack := h₂.stacked h₁
  cases i with
  -- CREATE reads its size from a slot that holds 0 by then: nothing is copied.
  | create =>
      have hword : (s₂.stackSpace (top - 2)).toNat = 0 := hstack.word
      exact absurd ((low_eq_toNat (by rw [hword]; decide)).trans hword) hne
  -- CREATE2 reads the operands themselves.
  | create2 =>
      have hsizeWord : s₂.stackSpace (top - 2) = s.stackSpace (top - 2) :=
        hstack.above _ (slots_lt top).1
      have hoffsetWord : s₂.stackSpace (top - 1) = s.stackSpace (top - 1) :=
        hstack.above _ (slots_lt top).2.1
      have hsizeNat : initCodeSize top s = (s.stackSpace (top - 2)).toNat := rfl
      have hif : if initCodeSize top s = 0 then (Env.localMessage s₂.fresh).inputSize = 0
          else initCodeOffset top s + initCodeSize top s < 2 ^ 64 ∧
            Env.wildPointerWritable (s₂.fresh + 1) = true := harrives
      rw [hsizeWord] at hne ⊢
      rw [hoffsetWord, h₂.memory]
      have hsize : initCodeSize top s ≠ 0 := fun hzero => hne (by
        rw [low_eq_toNat (by omega)]
        omega)
      rw [if_neg hsize] at hif
      have hlow : (s.stackSpace (top - 2)).low = initCodeSize top s := low_eq_toNat (by omega)
      obtain ⟨hoffset, hchecked⟩ := h₁.checked hsize
      rw [hlow, Nat.mod_eq_of_lt hif.1] at hchecked
      obtain ⟨data, hdata⟩ := Option.ne_none_iff_exists'.1 (h₁.sound.data (by omega))
      exact ⟨data, hdata, by rw [hoffset, hlow]; exact hchecked, hif.2⟩

/-- What the message says when the init code arrives. -/
theorem Made.carries (h₁ : i.Checked top s salt s₁) (hdepth : -2 ^ 31 ≤ s.msg.depth)
    {stateMsg msg : Message} {value : Uint256} {s₃ : ExecutionState}
    (h₂ : i.Admitted top s₁ salt (some (stateMsg, value)) s₂)
    (h₃ : i.Made top s₂ salt stateMsg value msg s₃)
    (harrives : i.InitCodeArrives top s s₂) : i.Carries top s s₁.memory msg := by
  have hstack := h₂.stacked h₁
  obtain ⟨hmsg, hshallow, hvalue⟩ := h₂.some_eq stateMsg value rfl
  have htop : s₂.stackSpace top = s.stackSpace top := by
    refine hstack.above top ?_
    cases i with
    | create => exact (slots_lt top).2.2.2.2
    | create2 => exact (slots_lt top).2.2.1
  rw [h₁.same.2.1] at hmsg hshallow
  refine ⟨(h₃.hasInitCode_iff h₁ h₂).2 harrives, h₃.kind, ?_, ?_, ?_, ?_⟩
  · rw [h₃.value_eq, hvalue, htop]
  · rw [h₃.sender, hmsg]
  · rw [h₃.depth, hmsg, toInt32_eq (by omega) (by omega)]
  · rintro rfl
    rw [h₃.salt_eq, h₁.salt_eq]

omit [Env] in
/-- The slot of the address is inside of the stack space. -/
theorem Checked.address_in (h : i.Checked top s salt s₁) : inStackSpace (i.slot top + 1) := by
  have hslots : ∀ p : Int, p - 2 + 1 = p - 1 ∧ p - 3 + 1 = p - 2 := fun p => by omega
  cases i with
  | create => exact (hslots top).1 ▸ h.offset_in
  | create2 => exact (hslots top).2 ▸ h.size_in

end

/-- The instruction does what it is to do exactly where `Works` holds. -/
theorem createEffect_iff [Env] (i : CreateInstr) {top : StackTop} {s s₁ s₂ : ExecutionState}
    {salt : Uint256} {admitted : Option (Message × Uint256)} (hsound : s.memory.Sound)
    (hgas : 0 ≤ s.gasLeft) (hint : isInt64 s.gasLeft) (hdepth : -2 ^ 31 ≤ s.msg.depth)
    (hchecks : i.checks top s = .ok salt s₁)
    (hadmission : i.admission top salt s₁ = .ok admitted s₂) :
    i.Effect top s salt admitted s₁ s₂ ↔ i.Works top s admitted s₂ := by
  have h₁ := (sat_checks i hsound hgas hint).of_ok hchecks
  have h₂ := (sat_admission i salt).of_ok hadmission
  have hstack := h₂.stacked h₁
  have hcost : s₂.gasLeft = s.gasLeft - i.checksCost top s s₁.memory ↔
      (i = .create2 → initCodeSize top s + 31 < 2 ^ 64) := by rw [h₂.gas, h₁.gas_iff]
  have hleft : i.Replaced top s 0 s₂ ↔ i.leftWord top s = 0 := hstack.replaced (fun _ _ => rfl) 0
  cases admitted with
  | none =>
      -- The creation was refused: the pushed salt is the result.
      have hworks : i.Works top s none s₂ ↔
          i.leftWord top s = 0 ∧ (i = .create2 → initCodeSize top s + 31 < 2 ^ 64) := Iff.rfl
      rw [hworks]
      constructor
      · intro heffect
        exact ⟨hleft.1 (heffect.refused rfl), hcost.1 heffect.gas⟩
      · rintro ⟨hword, hsize⟩
        exact ⟨hcost.2 hsize, h₁.data, fun _ => hleft.2 hword, by simp⟩
  | some made =>
      -- The creation was admitted, and the message is made, sent and settled.
      obtain ⟨stateMsg, value⟩ := made
      have hworks : i.Works top s (some (stateMsg, value)) s₂ ↔
          i.InitCodeArrives top s s₂ ∧ s₂.hostCtx.callResult.outputSize = 0 ∧
            i.leftWord top s = resultWord s₂.hostCtx.callResult ∧ GasFits s₂ := Iff.rfl
      rw [hworks]
      have hmessage := sat_message i (s := s₂) h₁.offset_in h₁.size_in salt stateMsg value
      constructor
      · intro heffect
        -- The phases behind the admission have all ended, and each of them gives one
        -- condition.
        obtain ⟨msg, s₃, hrun, hcarries, hrest⟩ := (heffect.called stateMsg value rfl).exists_ok
        have hmade := hmessage.of_ok hrun
        have hask := sat_askCreate (s := s₃) hcarries.initCode.readable
        obtain ⟨result, s₄, hcall, rfl, hstack₄, hgas₄⟩ := hask.exists_ok
        obtain ⟨_, s₅, hsettle, hreplaced, -⟩ := (hrest _ s₄ hcall).exists_ok
        obtain ⟨hused, hleftGas, houtput, -, hstack₅⟩ := (sat_settle i msg.gas _).of_ok hsettle
        rw [hmade.host] at houtput hused hleftGas hreplaced
        rw [hmade.gas] at hused hleftGas
        rw [hgas₄, hmade.gasLeft] at hleftGas
        refine ⟨(hmade.hasInitCode_iff h₁ h₂).1 hcarries.initCode, houtput, ?_, hused, hleftGas⟩
        refine (hstack.replaced (fun p hp => ?_) _).1 hreplaced
        rw [hstack₅ p hp, hstack₄, hmade.stack]
      · rintro ⟨harrives, houtput, hword, hused, hleftGas⟩
        -- Conversely, the conditions let each phase end. A fault of the message or of
        -- the settlement contradicts one of them.
        refine ⟨hcost.2 (h₁.size_lt harrives), h₁.data, by simp, ?_⟩
        rintro _ _ ⟨⟩
        refine hmessage.mono (fun msg s₃ hmade => ?_) fun _ _ ⟨hne, hnot⟩ => ?_
        · have hcarries := hmade.carries h₁ hdepth h₂ harrives
          refine ⟨hcarries, fun result s₄ hcall => ?_⟩
          obtain ⟨rfl, hstack₄, hgas₄⟩ := (sat_askCreate hcarries.initCode.readable).of_ok hcall
          rw [hmade.host]
          rw [← hmade.gas] at hused hleftGas
          rw [← hmade.gasLeft, ← hgas₄] at hleftGas
          refine (sat_settle i msg.gas _).mono ?_ fun _ _ hnot => ?_
          · rintro _ s₅ ⟨-, -, -, hgas₅, hstack₅⟩
            refine ⟨(hstack.replaced (fun p hp => ?_) _).2 hword, ?_⟩
            · rw [hstack₅ p hp, hstack₄, hmade.stack]
            · rw [hgas₅, hgas₄, hmade.gasLeft]
          · exact hnot ⟨hused, hleftGas, houtput, fun _ => h₁.address_in⟩
        · obtain ⟨data, hcopy⟩ := h₁.copyable h₂ harrives hne
          exact hnot data hcopy

end CreateInstr

/-- A state at a `CREATE` of the value 0 with the init code `[0, size)`. -/
def createState [Env] (size : U64) : ExecutionState :=
  let s := executionStateInitV { (default : Message) with gas := 100000 } .spuriousDragon
    (mockedHostInit default) []
  { s with stackSpace := fun p => if p = 0 then .ofU64 size else .zero }

/-- The checks and the admission. -/
def createAdmission [Env] : Core (Option (Message × Uint256)) := do
  let salt ← CreateInstr.create.checks 2
  CreateInstr.create.admission 2 salt

/-- The creation is admitted, by evaluation. -/
theorem createState_admitted [Env] (size : U64)
    (hadmitted : endsWith Option.isSome createAdmission (createState size) = true) :
    ∃ salt admitted s₁ s₂, CreateInstr.create.checks 2 (createState size) = .ok salt s₁ ∧
      CreateInstr.create.admission 2 salt s₁ = .ok (some admitted) s₂ := by
  obtain ⟨o, s₂, hrun, hsome⟩ := exists_of_endsWith hadmitted
  obtain ⟨salt, s₁, hchecks, hadmission⟩ := exists_of_bind hrun
  obtain ⟨admitted, rfl⟩ := Option.isSome_iff_exists.1 hsome
  exact ⟨salt, admitted, s₁, s₂, hchecks, hadmission⟩

/-- The memory of the state is that of a fresh machine. -/
theorem createState_sound [Env] (size : U64) : (createState size).memory.Sound :=
  ⟨rfl, show 0 < 2 ^ 37 by decide, fun h => absurd rfl h⟩

/-- A state at a `CREATE2` of the value 0 with the init code `[0, 32)` and the salt 10, on a host
that gives the new account the address 10. -/
def create2State [Env] : ExecutionState :=
  let result := { evmcResultInit with createAddress := u64ToAddr 10, gasLeft := 500 }
  let s := executionStateInitV { (default : Message) with gas := 100000 } .london
    { mockedHostInit default with callResult := result } []
  { s with stackSpace := fun p => if p = 1 then .ofU64 32 else if p = 0 then .ofU64 10 else .zero }

/-- A `CREATE2` leaves its salt as the result, which is right where the salt is the word of the new
address. Its init code of 32 bytes arrives in the message. -/
theorem createEffect_iff_create2 :
    let _ : Env := Env.zeroed
    ∃ salt admitted s₁ s₂, CreateInstr.create2.checks 3 create2State = .ok salt s₁ ∧
      CreateInstr.create2.admission 3 salt s₁ = .ok (some admitted) s₂ ∧
      CreateInstr.create2.Effect 3 create2State salt (some admitted) s₁ s₂ := by
  intro _
  have hend : endsWith (fun p : Option (Message × Uint256) × ExecutionState =>
        p.1.isSome && decide (Env.wildPointerWritable (p.2.fresh + 1) = true ∧
          p.2.hostCtx.callResult.outputSize = 0 ∧
          10 = CreateInstr.resultWord p.2.hostCtx.callResult ∧ CreateInstr.GasFits p.2))
      (do
        let salt ← CreateInstr.create2.checks 3
        let admitted ← CreateInstr.create2.admission 3 salt
        return (admitted, ← get)) create2State = true := by
    with_unfolding_all decide
  obtain ⟨⟨o, s⟩, s', hrun, htest⟩ := exists_of_endsWith hend
  obtain ⟨salt, s₁, hchecks, hrest⟩ := exists_of_bind hrun
  obtain ⟨admitted, s₂, hadmission, hget⟩ := exists_of_bind hrest
  obtain ⟨hpair, -⟩ := EStateM.Result.ok.inj hget
  obtain ⟨rfl, rfl⟩ := Prod.mk.inj hpair
  rw [Bool.and_eq_true, decide_eq_true_iff] at htest
  obtain ⟨hsome, hwritable, hrest⟩ := htest
  obtain ⟨admitted, rfl⟩ := Option.isSome_iff_exists.1 hsome
  have hsize : CreateInstr.initCodeSize 3 create2State = 32 := by with_unfolding_all decide
  have harrives : CreateInstr.create2.InitCodeArrives 3 create2State s₂ := by
    simp only [CreateInstr.InitCodeArrives, hsize]
    exact ⟨by with_unfolding_all decide, hwritable⟩
  have hword : CreateInstr.create2.leftWord 3 create2State = 10 := by with_unfolding_all decide
  have hworks : CreateInstr.create2.Works 3 create2State (some admitted) s₂ := by
    unfold CreateInstr.Works
    rw [if_neg (Option.some_ne_none _), hword]
    exact ⟨harrives, hrest⟩
  have hsound : create2State.memory.Sound := ⟨rfl, show 0 < 2 ^ 37 by decide, fun h => absurd rfl h⟩
  exact ⟨salt, admitted, s₁, s₂, hchecks, hadmission, (CreateInstr.createEffect_iff .create2 hsound
    (by decide) (by with_unfolding_all decide) (by decide) hchecks hadmission).2 hworks⟩

/-- An init code of 32 bytes does not get into the message. -/
theorem createEffect_iff_initCode :
    let _ : Env := Env.zeroed
    ∃ salt admitted s₁ s₂, CreateInstr.create.checks 2 (createState 32) = .ok salt s₁ ∧
      CreateInstr.create.admission 2 salt s₁ = .ok (some admitted) s₂ ∧
      ¬ CreateInstr.create.Effect 2 (createState 32) salt (some admitted) s₁ s₂ := by
  intro _
  obtain ⟨salt, ⟨stateMsg, value⟩, s₁, s₂, hchecks, hadmission⟩ :=
    createState_admitted 32 (by with_unfolding_all decide)
  refine ⟨salt, (stateMsg, value), s₁, s₂, hchecks, hadmission, fun heffect => ?_⟩
  have h₁ := (CreateInstr.sat_checks .create (createState_sound 32) (by decide)
    (by with_unfolding_all decide)).of_ok hchecks
  have h₂ := (CreateInstr.sat_admission .create salt).of_ok hadmission
  obtain ⟨msg, s₃, hrun, hcarries, -⟩ := (heffect.called stateMsg value rfl).exists_ok
  have hmade := (CreateInstr.sat_message .create h₁.offset_in h₁.size_in salt stateMsg value).of_ok
    hrun
  have harrives : CreateInstr.HasInitCode 2 (createState 32) s₂.memory (Env.localMessage s₂.fresh) :=
    (hmade.hasInitCode_iff h₁ h₂).1 hcarries.initCode
  have hsize : (0 : Nat) = CreateInstr.initCodeSize 2 (createState 32) := harrives.size
  exact absurd hsize (by decide)

end TscVee
