import TscVee.Proofs.CallPhases
import TscVee.Proofs.MemorySound

/-!
# `TscVee.Proofs.CallEffect`: the message of a call, and its effect on stack and memory

`CallInstr.Effect` says what is to happen where a call instruction calls the host: the state
determines the message, the memory covers the output range, and afterwards the operands are replaced
by one word and the output is in the memory.

The pushed 0 overwrites the operand with the output size, so the memory is not expanded for the
output. The fields of the input are left as they are when there is no input, and the output of the
callee is first copied to `NULL`. `callEffect_iff` says for which operands and hosts all of that
makes no difference.

* `Calm`: what the phases other than the memory check leave as it is.
* `sat_toHost`: the message and the state in which the host is called.
-/

set_option autoImplicit false

namespace TscVee

open TscVee.Core Lib

/-! ### What is to happen -/

namespace CallInstr

section
variable (i : CallInstr) (top : StackTop) (s : ExecutionState)

/-- The operand with the offset of the input. -/
def inputOffset : Uint256 := s.stackSpace (i.base top)

/-- The operand with the size of the input. -/
def inputSize : Uint256 := s.stackSpace (i.base top - 1)

/-- The operand with the offset of the output. -/
def outputOffset : Uint256 := s.stackSpace (i.base top - 2)

/-- The operand with the size of the output. -/
def outputSize : Uint256 := s.stackSpace (i.base top - 3)

/-- The kind of the message. A STATICCALL is a call whose message has the static flag. -/
def kind : CallKind :=
  match i with
  | .call | .staticcall => .call
  | .callcode => .callcode
  | .delegatecall => .delegatecall

/-- The parties and the value of the message. -/
structure Addressed (msg : Message) : Prop where
  kind : msg.kind = i.kind
  recipient : msg.recipient = if i = .call ∨ i = .staticcall then dst top s else s.msg.recipient
  sender : msg.sender = if i = .delegatecall then s.msg.sender else s.msg.recipient
  codeAddress : msg.codeAddress = dst top s
  value : msg.value = if i = .delegatecall then s.msg.value else u256ToU8_32 (i.value top s)

/-- The input of the message is the range of `memory` that the operands name. -/
structure InputIs (memory : Memory) (msg : Message) : Prop where
  size : msg.inputSize = (i.inputSize top s).toNat
  bytes : (i.inputSize top s).toNat ≠ 0 →
    (i.inputOffset top s).toNat + (i.inputSize top s).toNat ≤ memory.mSize ∧
    ∃ data, memory.mData = some data ∧ msg.inputData.take msg.inputSize =
      (List.range msg.inputSize).map fun j => data ((i.inputOffset top s).toNat + j)

/-- The words below the operands stay, the operands are replaced by the status of `result`, and of
the bytes of `memory` just the start of the output range is replaced, by the output of `result`. -/
structure Returned (result : Result) (memory : Memory) (s' : ExecutionState) : Prop where
  status : s'.stackSpace (i.base top - 3) = boolWord (result.statusCode = .success)
  below : ∀ p < i.base top - 3, s'.stackSpace p = s.stackSpace p
  size : s'.memory.mSize = memory.mSize
  bytes : ∀ data, memory.mData = some data → ∃ data', s'.memory.mData = some data' ∧ ∀ j, data' j =
    if (i.outputOffset top s).toNat ≤ j ∧
        j < (i.outputOffset top s).toNat + min (i.outputSize top s).toNat result.outputSize then
      result.outputData.getD (j - (i.outputOffset top s).toNat) 0
    else data j

/-- What is to happen where the instruction hands `msg` to the host in the state `s₁`. -/
structure Effect (msg : Message) (s₁ : ExecutionState) : Prop where
  addressed : i.Addressed top s msg
  depth : msg.depth = s.msg.depth + 1
  input : i.InputIs top s s₁.memory msg
  expanded : (i.outputSize top s).toNat ≠ 0 →
    (i.outputOffset top s).toNat + (i.outputSize top s).toNat ≤ s₁.memory.mSize
  kept : ∀ data, s.memory.mData = some data → ∃ data₁, s₁.memory.mData = some data₁ ∧
    ∀ j, j < s₁.memory.mSize → data₁ j = if j < s.memory.mSize then data j else 0
  returned : ∀ result s₂, ask (.call msg) s₁ = .ok result s₂ →
    Sat (takeCallResult (i.base top - 3) (i.base top - 2) (i.base top - 3) result) s₂
      (fun _ s₃ => i.Returned top s result s₁.memory s₃) fun _ _ => False

/-! ### When it happens -/

/-- The size of the memory after the check of the input. -/
def sizeForInput : Nat :=
  if (i.inputSize top s).toNat = 0 then s.memory.mSize
  else max s.memory.mSize
    (32 * (((i.inputOffset top s).toNat + (i.inputSize top s).toNat + 31) / 32))

variable [Env]

/-- The input of the message does not come from an uninitialised field, and is not cut to its low
limb or wrapped around. -/
def InputDetermined : Prop :=
  if (i.inputSize top s).toNat = 0 then (Env.localMessage s.fresh).inputSize = 0
  else (i.inputOffset top s).toNat + (i.inputSize top s).toNat < 2 ^ 64

/-- The output range lies in the memory as the input check leaves it. -/
def OutputCovered : Prop :=
  (i.outputSize top s).toNat ≠ 0 →
    (i.outputOffset top s).toNat + (i.outputSize top s).toNat ≤ i.sizeForInput top s

end

end CallInstr

/-! ### What the phases leave as it is -/

/-- The memory, the stack, the message and the call result of the host stay. -/
structure Calm (s s' : ExecutionState) : Prop where
  memory : s'.memory = s.memory
  stack : s'.stackSpace = s.stackSpace
  msg : s'.msg = s.msg
  fresh : s'.fresh = s.fresh
  result : s'.hostCtx.callResult = s.hostCtx.callResult

/-- The contract of a phase that leaves all of that as it is. -/
def calmContract : Contract Halt ExecutionState where
  inv _ := True
  rel := Calm
  err _ _ _ := True
  refl _ := ⟨rfl, rfl, rfl, rfl, rfl⟩
  trans h h' := ⟨h'.memory.trans h.memory, h'.stack.trans h.stack, h'.msg.trans h.msg,
    h'.fresh.trans h.fresh, h'.result.trans h.result⟩
  err_of_rel _ _ := trivial

section
variable {α : Type}

/-- The program is calm. -/
abbrev IsCalm (x : Core α) : Prop := calmContract.Holds x fun _ => True

/-- A program is calm when it is so from every state. -/
theorem calm_of_sat {x : Core α} (h : ∀ s, Sat x s (fun _ s' => Calm s s') fun _ _ => True) :
    IsCalm x := fun s _ => (h s).mono (fun _ _ h => ⟨trivial, trivial, h⟩) fun _ _ _ => trivial

/-- Two calm programs, one after the other. -/
theorem IsCalm.bind {β : Type} {x : Core β} {f : β → Core α} (hx : IsCalm x)
    (hf : ∀ b, IsCalm (f b)) : IsCalm (x >>= f) := Contract.Holds.bind hx fun b _ => hf b

/-- A value is calm. -/
theorem IsCalm.pure (a : α) : IsCalm (pure a : Core α) := Contract.Holds.pure trivial

/-- A branch is calm when both sides are. -/
theorem IsCalm.ite {c : Prop} [Decidable c] {x y : Core α} (hx : IsCalm x) (hy : IsCalm y) :
    IsCalm (if c then x else y) := by
  split
  · exact hx
  · exact hy

/-- Reading a field of the state is calm. -/
theorem calm_read (f : ExecutionState → α) : IsCalm (Core.read f) :=
  calm_of_sat fun s => calmContract.refl s

/-- Reading the whole state is calm. -/
theorem calm_get : IsCalm (get : Core ExecutionState) := calm_of_sat fun s => calmContract.refl s

/-- An early return is calm, since it leaves no state to go on from. -/
theorem calm_ret (status : StatusCode) : IsCalm (Core.ret status : Core α) :=
  calm_of_sat fun _ => trivial

/-- Loading a word is calm. -/
theorem calm_load (p : Slot) : IsCalm (load p) := by
  refine calm_of_sat fun s => ?_
  rw [sat_load]
  split
  · exact calmContract.refl s
  · trivial

/-- The test of the range of an `int64_t` is calm. -/
theorem calm_int64 (x : Int) : IsCalm (int64 x) := by
  refine calm_of_sat fun s => ?_
  rw [sat_int64]
  split
  · exact calmContract.refl s
  · trivial

/-- Taking gas is calm. -/
theorem calm_subGas (cost : Int) : IsCalm (Core.subGas cost) := by
  refine calm_of_sat fun s => ?_
  rw [sat_subGas']
  split
  · exact ⟨rfl, rfl, rfl, rfl, rfl⟩
  · trivial

/-- A charge is calm. -/
theorem calm_chargeGas (cost : Int) : IsCalm (chargeGas cost) :=
  .bind (calm_subGas cost) fun _ => .bind (calm_read _) fun _ => .ite (calm_ret _) (.pure _)

/-- A request to the host is calm, since no request changes the call result of the host. -/
theorem calm_ask (op : HostOp) : IsCalm (ask op) := by
  refine calm_of_sat fun s => ?_
  rw [sat_ask]
  exact (serve_callResult op s.hostCtx).mono (fun _ _ h => ⟨rfl, rfl, rfl, rfl, h⟩)
    fun _ _ _ => trivial

/-- The return data are not among what is to stay. -/
theorem calm_dropReturnData :
    IsCalm (modify fun s => { s with returnData := none } : Core PUnit) :=
  calm_of_sat fun _ => ⟨rfl, rfl, rfl, rfl, rfl⟩

/-- The charge for a cold account is calm. -/
theorem calm_chargeColdAccount (addr : Address) (cost : Int) :
    IsCalm (chargeColdAccount addr cost) :=
  .bind (calm_read _) fun _ => .ite
    (.bind (calm_ask _) fun _ => .ite (calm_chargeGas _) (.pure _)) (.pure _)

end

namespace CallInstr

variable (i : CallInstr)

/-- The charges of a call with a value, and for a new account, are calm. -/
theorem calm_charge (dst : Address) (value : Uint256) : IsCalm (i.charge dst value) := by
  refine .bind ?_ fun _ => calm_chargeGas _
  cases i with
  | callcode | delegatecall | staticcall => exact .pure _
  | call =>
      have hrest : IsCalm (do
          if zero256 value ∨ ¬ (← Core.read (·.rev)) ≥ .spuriousDragon then
            if !(← ask (.accountExists dst)) then return 25000
          return 0 : Core Int) :=
        .bind (calm_read _) fun _ => .ite
          (.bind (calm_ask _) fun _ => .ite (.pure _) (.pure _)) (.pure _)
      exact .bind calm_get fun _ => .ite (.bind (calm_ret _) fun _ => hrest) hrest

/-- The 2300 gas of a call with a value are calm. -/
theorem calm_gift (top : StackTop) (value : Uint256) : IsCalm (gift top value) := by
  have hgas : IsCalm (callGas top) := by
    unfold callGas
    refine .bind (calm_load _) fun _ => .bind (calm_read _) fun _ => .bind (calm_read _) fun _ => ?_
    split
    · exact .pure _
    · split
      · exact calm_ret _
      · exact .pure _
  refine .bind hgas fun msgGas => ?_
  unfold addStipend
  exact .ite (.bind (calm_int64 _) fun _ => .bind (calm_subGas _) fun _ => .pure _) (.pure _)

/-- The admission of a call is calm. -/
theorem calm_admitCall (hasValue : Bool) (value : Uint256) : IsCalm (admitCall hasValue value) :=
  .bind calm_dropReturnData fun _ => .bind (calm_read _) fun _ => .ite (.pure _)
    (.bind (calm_ask _) fun _ => .pure _)

/-! ### Where the host is called -/

/-- The message and the state in which the host is called, as the code makes them. -/
structure Ready [Env] (top : StackTop) (s : ExecutionState) (msg : Message)
    (s₁ : ExecutionState) : Prop where
  addressed : i.Addressed top s msg
  depth : msg.depth = toInt32 (s.msg.depth + 1)
  slot : inStackSpace (i.base top - 3)
  stack : s₁.stackSpace = (s.setSlot (i.base top - 3) .zero).stackSpace
  msg_eq : s₁.msg = s.msg
  result : s₁.hostCtx.callResult = s.hostCtx.callResult
  noInput : (i.inputSize top s).toNat = 0 →
    s₁.memory = s.memory ∧ msg.inputSize = (Env.localMessage s.fresh).inputSize
  sound : s₁.memory.Sound
  offset : (i.inputSize top s).toNat ≠ 0 →
    (i.inputOffset top s).low = (i.inputOffset top s).toNat ∧ (i.inputOffset top s).toNat < 2 ^ 32
  checked : (i.inputSize top s).toNat ≠ 0 →
    ((i.inputOffset top s).low + (i.inputSize top s).low) % 2 ^ 64 ≤ s₁.memory.mSize
  input : (i.inputSize top s).low ≠ 0 → msg.inputSize = (i.inputSize top s).low ∧
    ∀ data, s₁.memory.mData = some data → msg.inputData =
      (List.range (s₁.memory.mSize - (i.inputOffset top s).low)).map fun j =>
        data ((i.inputOffset top s).low + j)
  expanded : (i.inputSize top s).toNat ≠ 0 → (i.inputSize top s).low < 2 ^ 63 →
    ∃ s₀ s', s₀.memory = s.memory ∧ s₁.memory = s'.memory ∧
      Expanded s₀ s' ((i.inputOffset top s).toNat + (i.inputSize top s).low)

variable {i} [Env] {top : StackTop} {s : ExecutionState}

/-- What is ready stays so through a calm phase, and whatever the gas of the message is. -/
theorem Ready.calm {msg : Message} {s₁ s₂ : ExecutionState} (h : i.Ready top s msg s₁)
    (hcalm : Calm s₁ s₂) (gas : Int) : i.Ready top s { msg with gas := gas } s₂ where
  addressed := ⟨h.addressed.kind, h.addressed.recipient, h.addressed.sender,
    h.addressed.codeAddress, h.addressed.value⟩
  depth := h.depth
  slot := h.slot
  stack := hcalm.stack.trans h.stack
  msg_eq := hcalm.msg.trans h.msg_eq
  result := hcalm.result.trans h.result
  noInput hzero := ⟨hcalm.memory.trans (h.noInput hzero).1, (h.noInput hzero).2⟩
  sound := hcalm.memory ▸ h.sound
  offset := h.offset
  checked hsize := hcalm.memory ▸ h.checked hsize
  input hlow := hcalm.memory ▸ h.input hlow
  expanded hsize hlow := hcalm.memory ▸ h.expanded hsize hlow

/-- Nothing is checked for a size that reads as 0. -/
theorem sat_requireMemoryU256_zero {offset size : Uint256} (hzero : size.toNat = 0)
    {Q : Unit → ExecutionState → Prop} {E : Halt → ExecutionState → Prop} (h : Q () s) :
    Sat (requireMemoryU256 offset size) s Q E := by
  unfold requireMemoryU256 checkMemoryU256
  simp only [sat_bind, sat_ite, sat_pure, zero256_iff]
  exact ⟨fun _ => ⟨fun hfalse => absurd hfalse (by decide), fun _ => h⟩, fun hne => absurd hzero hne⟩

omit [Env] in
variable (top) in
/-- The parties and the value, as each instruction writes them into the message. -/
theorem addressed_message (i : CallInstr) {s s₁ : ExecutionState} (hmsg : s₁.msg = s.msg)
    (msg : Message) : i.Addressed top s (i.message s₁ (dst top s) (i.value top s) msg) := by
  cases i <;> exact ⟨rfl, by simp [message, hmsg], by simp [message, hmsg], rfl,
    by simp [message, hmsg]⟩

omit [Env] in
/-- The slot of the pushed 0 is that of the output size only. -/
theorem slot_ne (p : Int) : p ≠ p - 3 ∧ p - 1 ≠ p - 3 ∧ p - 2 ≠ p - 3 := by omega

/-- What the check of the input leaves, in every case and where the size lets no sum wrap. -/
structure InputChecked (offset size : Uint256) (s s' : ExecutionState) : Prop where
  same : s'.stackSpace = s.stackSpace ∧ s'.msg = s.msg ∧ s'.hostCtx = s.hostCtx
  sound : s'.memory.Sound
  noInput : size.toNat = 0 → s' = s
  small : size.toNat ≠ 0 → offset.low = offset.toNat ∧ offset.toNat < 2 ^ 32
  checked : size.toNat ≠ 0 → (offset.low + size.low) % 2 ^ 64 ≤ s'.memory.mSize
  expanded : size.toNat ≠ 0 → size.low < 2 ^ 63 → Expanded s s' (offset.toNat + size.low)

/-- What the check of the input range leaves, from a sound memory. -/
theorem sat_requireInput (hsound : s.memory.Sound) (offset size : Uint256) :
    Sat (requireMemoryU256 offset size) s (fun _ s' => InputChecked offset size s s')
      fun _ _ => True := by
  -- What an exact check says holds for the sizes below 2 ^ 63 only; the other facts hold for
  -- all.
  have hexact : Sat (requireMemoryU256 offset size) s
      (fun _ s' => size.toNat ≠ 0 → size.low < 2 ^ 63 → Expanded s s' (offset.toNat + size.low))
      fun _ _ => True := by
    by_cases hlow : size.low < 2 ^ 63
    · refine (sat_requireMemoryU256_exact offset size hlow hsound.words).mono (fun _ s' h => ?_)
        fun _ _ _ => trivial
      intro hsize _
      rcases h with ⟨hzero, -⟩ | ⟨-, -, hpass⟩
      · exact absurd hzero hsize
      · exact hpass.expanded
    · exact (sat_trivial _ _).mono (fun _ _ _ _ h => absurd h hlow) fun _ _ h => h
  refine (((sat_requireMemoryU256 offset size).and
    (sat_requireMemoryU256_sound hsound offset size)).and
    hexact).mono (fun _ s' ⟨⟨hcheck, hsound'⟩, hexpanded⟩ => ?_) fun _ _ _ => trivial
  rcases hcheck with ⟨hzero, rfl⟩ | ⟨hsize, hchecked, hlarge, hcover⟩
  -- Nothing is checked for the size 0.
  · have hzero' := (zero256_iff size).1 hzero
    exact ⟨⟨rfl, rfl, rfl⟩, hsound', fun _ => rfl, fun h => absurd hzero' h, fun h => absurd hzero' h,
      hexpanded⟩
  -- The check has passed for another size.
  · have hne : size.toNat ≠ 0 := by
      rw [ne_eq, ← zero256_iff, hsize]
      decide
    refine ⟨?_, hsound', fun h => absurd h hne, fun _ => offsetTooLarge_eq_false hlarge,
      fun _ => hcover, hexpanded⟩
    rw [hchecked.same]
    exact ⟨rfl, rfl, rfl⟩

/-- The message with its input, in a state whose memory has been checked. -/
theorem sat_callMessage (i : CallInstr) {s₁ : ExecutionState} (hmsg : s₁.msg = s.msg)
    (hoffset : s₁.stackSpace (i.base top) = i.inputOffset top s)
    (hsize : s₁.stackSpace (i.base top - 1) = i.inputSize top s) :
    Sat (callMessage i.variant (dst top s) (i.value top s) (i.base top) (i.base top - 1)) s₁
      (fun msg s₂ => i.Addressed top s msg ∧ msg.depth = toInt32 (s.msg.depth + 1) ∧
        ((i.inputSize top s).low = 0 → msg.inputSize = (Env.localMessage s₁.fresh).inputSize) ∧
        ((i.inputSize top s).low ≠ 0 → msg.inputSize = (i.inputSize top s).low ∧
          ∀ data, s₁.memory.mData = some data → msg.inputData =
            (List.range (s₁.memory.mSize - (i.inputOffset top s).low)).map fun j =>
              data ((i.inputOffset top s).low + j)) ∧
        s₂.stackSpace = s₁.stackSpace ∧ s₂.msg = s₁.msg ∧ s₂.hostCtx = s₁.hostCtx ∧
        s₂.memory = s₁.memory) fun _ _ => True := by
  have haddressed := addressed_message top i hmsg (Env.localMessage s₁.fresh)
  have hkeeps : ∀ msg, (i.message s₁ (dst top s) (i.value top s) msg).inputSize = msg.inputSize := by
    intro msg
    cases i <;> rfl
  unfold callMessage
  simp only [sat_bind, sat_get, sat_nextFresh, sat_load, hsize, variant]
  split
  case isFalse => trivial
  simp only [sat_ite, sat_bind, sat_load, hoffset, sat_pure]
  refine ⟨fun hpos => ?_, fun hnot => ?_⟩
  -- The low limb of the size is not 0: the input is a pointer into the memory.
  · split
    case isFalse => trivial
    rw [sat_memoryPtr]
    refine ⟨⟨haddressed.kind, haddressed.recipient, haddressed.sender, haddressed.codeAddress,
      haddressed.value⟩, by rw [hmsg], fun h => by omega, fun _ => ⟨trivial, fun data hdata => ?_⟩,
      rfl, rfl, rfl, rfl⟩
    simp only [hdata]
  -- It is 0: the fields of the input keep what the uninitialised message holds.
  · refine ⟨⟨haddressed.kind, haddressed.recipient, haddressed.sender, haddressed.codeAddress,
      haddressed.value⟩, by rw [hmsg], fun _ => hkeeps _, fun h => absurd (Nat.pos_of_ne_zero h) hnot,
      trivial, trivial, trivial, trivial⟩

variable (top) in
/-- The message is prepared from any state with a sound memory. -/
theorem sat_messageAt (i : CallInstr) (hsound : s.memory.Sound) :
    Sat (i.messageAt (dst top s) (i.value top s) (i.base top)) s (fun msg s₁ => i.Ready top s msg s₁)
      fun _ _ => True := by
  unfold messageAt
  rw [sat_bind, sat_store]
  split
  case isFalse => trivial
  case isTrue hslot =>
  rw [sat_bind]
  refine (calm_chargeColdAccount _ _ _ trivial).mono (fun _ s₂ ⟨_, _, hcalm⟩ => ?_)
    fun _ _ _ => trivial
  -- The status 0 has been stored in the slot of the output size, and nothing else on the
  -- stack has changed. So the size of the output is read as 0 from here on.
  have hstack : ∀ p, p ≠ i.base top - 3 → s₂.stackSpace p = s.stackSpace p := by
    intro p hp
    rw [hcalm.stack]
    exact if_neg hp
  have hzero : s₂.stackSpace (i.base top - 3) = .zero := by
    rw [hcalm.stack]
    exact if_pos rfl
  have hoffset : s₂.stackSpace (i.base top) = i.inputOffset top s := hstack _ (slot_ne _).1
  have hsize : s₂.stackSpace (i.base top - 1) = i.inputSize top s := hstack _ (slot_ne _).2.1
  have hmemory : s₂.memory = s.memory := hcalm.memory
  have hfresh : s₂.fresh = s.fresh := hcalm.fresh
  have hsound₂ : s₂.memory.Sound := hmemory ▸ hsound
  simp only [sat_bind, sat_load, hoffset, hsize]
  split
  case isFalse => trivial
  split
  case isFalse => trivial
  -- The check of the input, and behind it that of the output, for the size 0.
  refine (sat_requireInput hsound₂ _ _).mono (fun _ s₃ hchecked => ?_) fun _ _ _ => trivial
  obtain ⟨hstack₃, hmsg₃, hhost₃⟩ := hchecked.same
  split
  case isFalse => trivial
  rw [hstack₃, hzero]
  have hzeroNat : (Uint256.zero).toNat = 0 := by decide
  have hmsg : s₃.msg = s.msg := hmsg₃.trans hcalm.msg
  have hoffset₃ : s₃.stackSpace (i.base top) = i.inputOffset top s := by rw [hstack₃, hoffset]
  have hsize₃ : s₃.stackSpace (i.base top - 1) = i.inputSize top s := by rw [hstack₃, hsize]
  have hcall := sat_callMessage i hmsg hoffset₃ hsize₃
  refine sat_requireMemoryU256_zero hzeroNat (hcall.mono ?_ fun _ _ _ => trivial)
  rintro msg s₄ ⟨haddressed, hdepth, hnone, hsome, hstack₄, hmsg₄, hhost₄, hmemory₄⟩
  have hlow : (i.inputSize top s).toNat = 0 → (i.inputSize top s).low = 0 := fun h => by
    rw [low_eq_toNat (by omega), h]
  -- The phases are done; each field is what one of them says.
  exact {
    addressed := haddressed
    depth := hdepth
    slot := hslot
    stack := by rw [hstack₄, hstack₃, hcalm.stack]
    msg_eq := by rw [hmsg₄, hmsg₃, hcalm.msg]; rfl
    result := by rw [hhost₄, hhost₃, hcalm.result]; rfl
    noInput := fun h => by
      have hs₃ := hchecked.noInput h
      rw [hmemory₄, hnone (hlow h), hs₃, hmemory, hfresh]
      exact ⟨rfl, rfl⟩
    sound := by rw [hmemory₄]; exact hchecked.sound
    offset := hchecked.small
    checked := fun h => by rw [hmemory₄]; exact hchecked.checked h
    input := fun h => by rw [hmemory₄]; exact hsome h
    expanded := fun h h' => ⟨s₂, s₃, hmemory, hmemory₄, hchecked.expanded h h'⟩ }

/-- The phase up to the message: the callee, the value and the message that the operands describe,
in a state where the ranges have been checked. -/
theorem sat_prepare (i : CallInstr) (hsound : s.memory.Sound) :
    Sat (i.prepare top) s
      (fun r s₁ => r.1 = dst top s ∧ r.2.1 = i.value top s ∧ i.Ready top s r.2.2 s₁)
      fun _ _ => True := by
  have hmessage := sat_messageAt top i hsound
  unfold prepare
  rw [sat_bind, sat_load]
  split
  case isFalse => trivial
  -- DELEGATECALL and STATICCALL take no value from the stack.
  have hvalue : Sat (i.loadValue top) s (fun v s' => v = i.value top s ∧ s' = s)
      fun _ _ => True := by
    unfold loadValue value
    split
    · rw [sat_load]
      split
      · exact ⟨rfl, rfl⟩
      · trivial
    · exact ⟨rfl, rfl⟩
  rw [sat_bind]
  refine hvalue.mono ?_ fun _ _ h => h
  rintro v s' ⟨rfl, rfl⟩
  rw [sat_bind]
  exact hmessage.mono (fun _ _ h => ⟨rfl, rfl, h⟩) fun _ _ h => h

omit [Env] in
/-- A call that is admitted was made above the limit of the depth. -/
theorem sat_admitCall (hasValue : Bool) (value : Uint256) :
    Sat (admitCall hasValue value) s (fun b _ => b = true → s.msg.depth < 1024) fun _ _ => True := by
  unfold admitCall
  simp only [sat_bind, sat_modify, sat_read, sat_ite, sat_pure]
  refine ⟨fun _ h => absurd h (by decide), fun hdepth => ?_⟩
  exact (sat_trivial _ _).mono (fun _ _ _ _ => by omega) fun _ _ h => h

/-- Where the instruction calls the host, the message is ready. -/
theorem sat_toHost (i : CallInstr) (hsound : s.memory.Sound) :
    Sat (i.toHost top) s
      (fun o s₁ => ∀ msg, o = some msg → i.Ready top s msg s₁ ∧ s.msg.depth < 1024)
      fun _ _ => True := by
  unfold toHost
  rw [sat_bind]
  refine (sat_prepare i hsound).mono ?_ fun _ _ h => h
  -- The charge, the stipend and the admission leave alone what the message was made of.
  rintro ⟨dst, value, msg⟩ s₁ ⟨-, -, hready⟩
  rw [sat_bind]
  refine (calm_charge i dst value s₁ trivial).mono (fun _ s₂ ⟨_, _, h₂⟩ => ?_) fun _ _ _ => trivial
  rw [sat_bind]
  refine (calm_gift top value s₂ trivial).mono (fun gas s₃ ⟨_, _, h₃⟩ => ?_) fun _ _ _ => trivial
  rw [sat_bind]
  refine ((calm_admitCall _ value s₃ trivial).and (sat_admitCall _ value)).mono ?_
    fun _ _ _ => trivial
  rintro admitted s₄ ⟨⟨-, -, h₄⟩, hdepth⟩ msg' hmsg'
  cases admitted with
  -- Refused: nothing goes to the host.
  | false => cases hmsg'
  | true =>
      cases hmsg'
      have hmsg : s₃.msg = s.msg := h₃.msg.trans (h₂.msg.trans hready.msg_eq)
      have hcalm := calmContract.trans (calmContract.trans h₂ h₃) h₄
      exact ⟨hready.calm hcalm gas, hmsg ▸ hdepth rfl⟩

/-! ### The call and its result -/

omit [Env] in
/-- The host answers a call with a readable input with its call result. -/
theorem sat_askCall {msg : Message} (hinput : msg.inputSize ≤ msg.inputData.length) :
    Sat (ask (.call msg)) s (fun result s' => result = s.hostCtx.callResult ∧ Calm s s')
      fun _ _ => False := by
  have hcall : Sat (MockedHost.call msg) s.hostCtx (fun result _ => result = s.hostCtx.callResult)
      fun _ _ => False := by
    unfold MockedHost.call
    simp only [sat_bind, sat_recordAccountAccess, sat_modify, sat_get, sat_ite, sat_readPtr, sat_set,
      sat_pure, hinput]
    have hresult : (s.hostCtx.recorded msg.recipient).callResult = s.hostCtx.callResult := rfl
    cases (s.hostCtx.recorded msg.recipient).recordedCalls.empty <;> simp [hresult]
  rw [sat_ask]
  have hkeeps := serve_callResult (.call msg) s.hostCtx
  exact (hcall.and hkeeps).mono (fun _ _ h => ⟨h.1, rfl, rfl, rfl, rfl, h.2⟩) fun _ _ h => h.1

omit [Env] in
/-- The result of a callee without output becomes the word on the stack. -/
theorem sat_takeCallResult_empty {result : Result} {top offset : Slot}
    (hempty : result.outputSize = 0)
    (hslot : inStackSpace top) :
    Sat (takeCallResult top offset top result) s
      (fun _ s' => s' = s.setSlot top (boolWord (result.statusCode = .success)))
      fun _ _ => False := by
  unfold takeCallResult
  simp only [sat_bind, sat_ite, sat_fault, sat_store, sat_load, StackTop.top, hslot, if_true,
    sat_pure, hempty]
  simp

omit [Env] in
/-- The output of a callee is copied to `NULL`. -/
theorem sat_takeCallResult_output {result : Result} {top offset size : Slot}
    (houtput : result.outputSize ≠ 0) {Q : Unit → ExecutionState → Prop} :
    ¬ Sat (takeCallResult top offset size result) s Q fun _ _ => False := by
  unfold takeCallResult
  rw [if_pos (Nat.pos_of_ne_zero houtput)]
  exact id

/-! ### When the effect is as it is to be -/

section
variable {msg : Message} {s₁ : ExecutionState}

/-- The size operand fits in its low limb, and the range ends below `2 ^ 64`. -/
theorem Ready.range (h : i.Ready top s msg s₁) (hdet : i.InputDetermined top s)
    (hsize : (i.inputSize top s).toNat ≠ 0) :
    (i.inputSize top s).low = (i.inputSize top s).toNat ∧
      (i.inputOffset top s).toNat + (i.inputSize top s).toNat ≤ s₁.memory.mSize := by
  unfold InputDetermined at hdet
  rw [if_neg hsize] at hdet
  have hlow : (i.inputSize top s).low = (i.inputSize top s).toNat := low_eq_toNat (by omega)
  have hchecked := h.checked hsize
  rw [(h.offset hsize).1, hlow, Nat.mod_eq_of_lt hdet] at hchecked
  exact ⟨hlow, hchecked⟩

/-- The check of the input sets the size of the memory. -/
theorem Ready.size_eq (h : i.Ready top s msg s₁) (hdet : i.InputDetermined top s) :
    s₁.memory.mSize = i.sizeForInput top s := by
  unfold sizeForInput
  split
  case isTrue hzero => rw [(h.noInput hzero).1]
  case isFalse hsize =>
  obtain ⟨hlow, hrange⟩ := h.range hdet hsize
  have hbound := h.sound.bound
  obtain ⟨s₀, s', hs₀, hs', hexpanded⟩ := h.expanded hsize (by omega)
  rw [hs', hexpanded.size, hs₀, hlow, numWords_eq (by omega)]

/-- The input can be read. -/
theorem Ready.input_readable (h : i.Ready top s msg s₁) (hdet : i.InputDetermined top s) :
    msg.inputSize ≤ msg.inputData.length := by
  by_cases hsize : (i.inputSize top s).toNat = 0
  · rw [(h.noInput hsize).2]
    unfold InputDetermined at hdet
    rw [if_pos hsize] at hdet
    omega
  · obtain ⟨hlow, hrange⟩ := h.range hdet hsize
    obtain ⟨hinputSize, hinput⟩ := h.input (by omega)
    obtain ⟨data, hdata⟩ := Option.ne_none_iff_exists'.1 (h.sound.data (by omega))
    rw [hinput data hdata, hinputSize, List.length_map, List.length_range, (h.offset hsize).1]
    omega

/-- A determined input is that of the operands, as it is in the memory at the call. -/
theorem Ready.inputIs (h : i.Ready top s msg s₁) (hdet : i.InputDetermined top s) :
    i.InputIs top s s₁.memory msg := by
  by_cases hsize : (i.inputSize top s).toNat = 0
  · refine ⟨?_, fun hne => absurd hsize hne⟩
    unfold InputDetermined at hdet
    rw [if_pos hsize] at hdet
    rw [(h.noInput hsize).2, hdet, hsize]
  · obtain ⟨hlow, hrange⟩ := h.range hdet hsize
    obtain ⟨hinputSize, hinput⟩ := h.input (by omega)
    obtain ⟨data, hdata⟩ := Option.ne_none_iff_exists'.1 (h.sound.data (by omega))
    refine ⟨by rw [hinputSize, hlow], fun _ => ⟨hrange, data, hdata, ?_⟩⟩
    rw [hinput data hdata, (h.offset hsize).1, ← List.map_take, List.take_range,
      min_eq_left (by omega)]

/-- The checks of the ranges have kept the bytes and appended zeros. -/
theorem Ready.kept (h : i.Ready top s msg s₁) (hdet : i.InputDetermined top s) {data : Nat → Byte}
    (hdata : s.memory.mData = some data) : ∃ data₁, s₁.memory.mData = some data₁ ∧
      ∀ j, j < s₁.memory.mSize → data₁ j = if j < s.memory.mSize then data j else 0 := by
  by_cases hsize : (i.inputSize top s).toNat = 0
  · rw [(h.noInput hsize).1]
    exact ⟨data, hdata, fun j hj => (if_pos hj).symm⟩
  · obtain ⟨hlow, hrange⟩ := h.range hdet hsize
    have hbound := h.sound.bound
    obtain ⟨s₀, s', hs₀, hs', hexpanded⟩ := h.expanded hsize (by omega)
    rw [hs', ← hs₀]
    exact hexpanded.data data (by rw [hs₀, hdata])

/-- A callee without output leaves the status on the stack and nothing in the memory. -/
theorem Ready.returned (h : i.Ready top s msg s₁) (hdet : i.InputDetermined top s)
    (hempty : s.hostCtx.callResult.outputSize = 0) {result : Result} {s₂ : ExecutionState}
    (hcall : ask (.call msg) s₁ = .ok result s₂) :
    Sat (takeCallResult (i.base top - 3) (i.base top - 2) (i.base top - 3) result) s₂
      (fun _ s₃ => i.Returned top s result s₁.memory s₃) fun _ _ => False := by
  obtain ⟨hresult, hcalm⟩ := (sat_askCall (h.input_readable hdet)).of_ok hcall
  have hout : result.outputSize = 0 := by rw [hresult, h.result, hempty]
  refine (sat_takeCallResult_empty hout h.slot).mono ?_ fun _ _ h => h
  rintro _ s₃ rfl
  refine ⟨if_pos rfl, fun p hp => ?_, by simp [ExecutionState.setSlot, hcalm.memory],
    fun data hdata => ⟨data, by simp [ExecutionState.setSlot, hcalm.memory, hdata], fun j => ?_⟩⟩
  · have hne : p ≠ i.base top - 3 := Int.ne_of_lt hp
    simp [ExecutionState.setSlot, hne, hcalm.stack, h.stack]
  · rw [hout, Nat.min_zero, Nat.add_zero, if_neg (by omega)]

/-- When the memory has been expanded as it is to be, the output range is covered by the size that
was checked for the input. -/
theorem Ready.covered (h : i.Ready top s msg s₁) (hdet : i.InputDetermined top s)
    (heffect : i.Effect top s msg s₁) : i.OutputCovered top s := by
  intro hsize
  rw [← h.size_eq hdet]
  exact heffect.expanded hsize

/-- The message, the expansion, the stack and the memory are as they are to be exactly when the
input is determined, the output range is covered and the callee returns no output. -/
theorem callEffect_iff (i : CallInstr) (hsound : s.memory.Sound) (hdepth : -2 ^ 31 ≤ s.msg.depth)
    (hcall : i.toHost top s = .ok (some msg) s₁) :
    i.Effect top s msg s₁ ↔ i.InputDetermined top s ∧ i.OutputCovered top s ∧
      s.hostCtx.callResult.outputSize = 0 := by
  obtain ⟨h, hshallow⟩ := (sat_toHost i hsound).of_ok hcall msg rfl
  constructor
  · intro heffect
    -- The input of the message says whether it was determined.
    have hdet : i.InputDetermined top s := by
      unfold InputDetermined
      split
      case isTrue hzero => rw [← (h.noInput hzero).2, heffect.input.size, hzero]
      case isFalse hsize =>
        have hrange := (heffect.input.bytes hsize).1
        have hbound := h.sound.bound
        omega
    refine ⟨hdet, h.covered hdet heffect, ?_⟩
    -- A callee with an output makes the instruction copy it through `NULL`, so that no
    -- state satisfies `Returned`.
    by_contra houtput
    have hask := sat_askCall (s := s₁) (h.input_readable hdet)
    cases hrun : ask (.call msg) s₁ with
    | error e s₂ => exact hask.of_error hrun
    | ok result s₂ =>
        have hout : result.outputSize ≠ 0 := by rwa [(hask.of_ok hrun).1, h.result]
        exact sat_takeCallResult_output hout (heffect.returned result s₂ hrun)
  · rintro ⟨hdet, hcovered, hempty⟩
    refine ⟨h.addressed, ?_, h.inputIs hdet, fun hsize => ?_, fun data hdata => h.kept hdet hdata,
      fun result s₂ hrun => h.returned hdet hempty hrun⟩
    · rw [h.depth, toInt32_eq (by omega) (by omega)]
    · rw [h.size_eq hdet]
      exact hcovered hsize

end

end CallInstr

/-- A state at a `CALL` of the value 1 without input, with the output range `[0, size)`. -/
def callState [Env] (size : U64) : ExecutionState :=
  let s := executionStateInitV { (default : Message) with gas := 100000 } .spuriousDragon
    (mockedHostInit default) []
  { s with stackSpace := fun p => if p = 4 then .one else if p = 0 then .ofU64 size else .zero }

/-- The call gets as far as the host, by evaluation. -/
theorem callState_toHost [Env] (size : U64)
    (hcalls : endsWith Option.isSome (CallInstr.call.toHost 6) (callState size) = true) :
    ∃ msg s₁, CallInstr.call.toHost 6 (callState size) = .ok (some msg) s₁ := by
  obtain ⟨o, s₁, hrun, hsome⟩ := exists_of_endsWith hcalls
  obtain ⟨msg, rfl⟩ := Option.isSome_iff_exists.1 hsome
  exact ⟨msg, s₁, hrun⟩

/-- The memory of the state is that of a fresh machine. -/
theorem callState_sound [Env] (size : U64) : (callState size).memory.Sound :=
  ⟨rfl, show 0 < 2 ^ 37 by decide, fun h => absurd rfl h⟩

/-- A state at a `CALL` of the value 1 with the input range `[8, 40)` of a memory of the bytes 0 to
31, and with the output range `[0, 64)`. -/
def rangesState [Env] : ExecutionState :=
  let s := callState 64
  { s with
    memory := { s.memory with
      mData := some fun i => if i < 32 then BitVec.ofNat 8 i else 0
      mSize := 32 }
    stackSpace := fun p => if p = 3 then .ofU64 8 else if p = 2 then .ofU64 32 else s.stackSpace p }

/-- A call with an input and with an output range that the input check covers. The input are the
bytes 8 to 31 of the memory and eight bytes of the second word. -/
theorem callEffect_iff_ranges :
    let _ : Env := Env.zeroed
    ∃ msg s₁, CallInstr.call.toHost 6 rangesState = .ok (some msg) s₁ ∧
      msg.inputData.take msg.inputSize =
        (List.range' 8 24).map (BitVec.ofNat 8) ++ List.replicate 8 0 ∧
      CallInstr.call.Effect 6 rangesState msg s₁ := by
  intro _
  have hend : endsWith (fun o : Option Message => o.any fun msg =>
        decide (msg.inputData.take msg.inputSize =
          (List.range' 8 24).map (BitVec.ofNat 8) ++ List.replicate 8 0))
      (CallInstr.call.toHost 6) rangesState = true := by
    with_unfolding_all decide
  obtain ⟨o, s₁, hrun, htest⟩ := exists_of_endsWith hend
  obtain ⟨msg, rfl, hinput⟩ := (Option.any_eq_true _ _).1 htest
  have hsound : rangesState.memory.Sound := ⟨by decide, by decide, fun _ => nofun⟩
  refine ⟨msg, s₁, hrun, of_decide_eq_true hinput,
    (CallInstr.callEffect_iff .call hsound (by decide) hrun).2 ⟨?_, ?_, rfl⟩⟩
  · show ite _ _ _
    decide
  · unfold CallInstr.OutputCovered
    decide

/-- The memory is not expanded for an output of 32 bytes. -/
theorem callEffect_iff_output :
    let _ : Env := Env.zeroed
    ∃ msg s₁, CallInstr.call.toHost 6 (callState 32) = .ok (some msg) s₁ ∧
      ¬ CallInstr.call.Effect 6 (callState 32) msg s₁ := by
  intro _
  obtain ⟨msg, s₁, hrun⟩ := callState_toHost 32 (by with_unfolding_all decide)
  refine ⟨msg, s₁, hrun, fun heffect => ?_⟩
  have hready := ((CallInstr.sat_toHost .call (callState_sound 32)).of_ok hrun msg rfl).1
  refine absurd (hready.covered ?_ heffect) ?_
  · show ite _ _ _
    decide
  · unfold CallInstr.OutputCovered
    decide

end TscVee
