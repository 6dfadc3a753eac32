import TscVee.Proofs.Division
import TscVee.Proofs.Effects
import TscVee.Proofs.Shape
import TscVee.Proofs.Words

/-!
# `TscVee.Proofs.CoreEffects`: the effects of each instruction implementation

One theorem for each instruction implementation, or for each family of them: with the stack top
`top`, and any effects that cover the slots it uses and allow the requests it sends, the
implementation is put together from the parts listed in `Prim`.
-/

set_option autoImplicit false

namespace TscVee

open TscVee.Core Lib

section
variable [Env] {e : Effects} {top : Int}

/-- The effects cover the top `n` items of the stack and `m` slots above them. -/
structure Effects.Covers (e : Effects) (top : Int) (n m : Nat) : Prop where
  lo : e.lo + n ≤ top + 1
  hi : top + m ≤ e.hi

/-- A request that every mode allows, and that neither touches the storage nor calls. -/
def HostOp.Mild : HostOp → Prop
  | .getStorage .. | .setStorage .. | .accessStorage .. | .selfdestruct .. | .call _
  | .emitLog .. => False
  | _ => True

/-- The effects allow the mild requests. -/
def Effects.Mild (e : Effects) : Prop := ∀ op : HostOp, op.Mild → e.host op

/-! ### Parts that several implementations share -/

/-- A mild request is allowed by mild effects. -/
theorem Has.ask (he : e.Mild) (op : HostOp) (hop : op.Mild) :
    Has e (ask op) fun _ => True := .prim (.ask op (he op hop))

/-- A field other than the gas counter and the stack space. -/
theorem Has.read {α : Type} (f : ExecutionState → α)
    (h : ∀ s gas, f { s with gasLeft := gas } = f s)
    (hspace : ∀ s stackSpace, f { s with stackSpace := stackSpace } = f s) :
    Has e (Core.read f) fun _ => True :=
  Built.weaken (.prim (.read f (Or.inr h) hspace)) fun _ _ => trivial

/-- The gas counter may be looked at where the effects say so. No other field depends on it. -/
theorem Has.readGas (h : e.readsGas) : Has e (Core.read (·.gasLeft)) fun _ => True :=
  Built.weaken (.prim (.read _ (Or.inl h) fun _ _ => rfl)) fun _ _ => trivial

/-- The revision can be read without any effect. -/
theorem Has.readRev : Has e (Core.read (·.rev)) fun _ => True :=
  Has.read _ (fun _ _ => rfl) fun _ _ => rfl

/-- So can the message, which is that of the effects: a test of the static flag is one of the
message of the run. -/
theorem Has.readMsg : Has e (Core.read (·.msg)) fun _ => True :=
  Has.read _ (fun _ _ => rfl) fun _ _ => rfl

/-- The code does not change either. -/
theorem Has.readCode : Has e (Core.read (·.code)) fun _ => True :=
  Has.read _ (fun _ _ => rfl) fun _ _ => rfl

/-- The output of the last call, which the implementations read through a pointer. -/
theorem Has.readReturnData : Has e (Core.read (·.returnData)) fun _ => True :=
  Has.read _ (fun _ _ => rfl) fun _ _ => rfl

/-- The memory as a field, for its size. -/
theorem Has.readMemoryField : Has e (Core.read (·.memory)) fun _ => True :=
  Has.read _ (fun _ _ => rfl) fun _ _ => rfl

/-- A load of a slot in the range of the effects. -/
theorem Has.load (p : Int) (h : e.lo ≤ p ∧ p ≤ e.hi) : Has e (load p) fun _ => True :=
  .prim (.load p h)

/-- A store to a slot in the range. -/
theorem Has.store (p : Int) (value : Uint256) (h : e.lo ≤ p ∧ p ≤ e.hi) :
    Has e (store p value) fun _ => True := .prim (.store p value h)

/-- An early return, or a fault, is followed by nothing. -/
theorem Has.ret {α : Type} {Q : α → Prop} (status : StatusCode) (h : status.Early) :
    Has e (Core.ret status : Core α) Q := Built.weaken (.prim (.ret status h)) nofun

/-- A fault of the implementations. That a slot is out of bounds is a fault of loads and stores, and
that a loop does not end is one of divisions and of the host. -/
theorem Has.fault {α : Type} {Q : α → Prop} (f : Fault)
    (h : f ≠ .stackOutOfBounds ∧ f ≠ .diverges) : Has e (Core.fault f : Core α) Q :=
  Built.weaken (.prim (.fault f h)) nofun

/-- A charge that is not negative does not raise the gas counter. -/
theorem Has.chargeGas {cost : Int} (h : 0 ≤ cost) : Has e (chargeGas cost) fun _ => True :=
  .prim (.chargeGas cost (Or.inl h))

/-- A push writes the slot above the top, and returns the new top. -/
theorem Has.push (value : Uint256) (h : e.lo ≤ top + 1 ∧ top + 1 ≤ e.hi) :
    Has e (StackTop.push top value) fun st => st = top + 1 :=
  .bind (Has.store _ _ h) fun _ _ => .pure rfl

/-- The charge for a cold account asks the host from Berlin on, and is a mild request and a charge.
-/
theorem has_chargeColdAccount (he : e.Mild) (addr : Address) {cost : Int} (hcost : 0 ≤ cost) :
    Has e (chargeColdAccount addr cost) fun _ => True := by
  unfold chargeColdAccount
  refine .bind Has.readRev fun rev _ => ?_
  refine Built.ite (fun _ => ?_) fun _ => .pure trivial
  refine .bind (Has.ask he _ trivial) fun status _ => ?_
  exact Built.ite (fun _ => Has.chargeGas hcost) fun _ => .pure trivial

/-! ### Arithmetic and logic -/

/-- One operand, replaced in its slot. -/
theorem has_unary (f : Uint256 → Uint256) (h : e.Covers top 1 0) :
    Has e (unary f top) fun _ => True := by
  obtain ⟨hlo, hhi⟩ := h
  unfold unary StackTop.top
  exact .bind (Has.load _ (by omega)) fun _ _ => Has.store _ _ (by omega)

/-- The result of an operation that ends. -/
theorem Has.storeResult {p : Int} (h : e.lo ≤ p ∧ p ≤ e.hi) {result : Option Uint256}
    (hresult : result.isSome = true) : Has e (storeResult p result) fun _ => True := by
  obtain ⟨target, rfl⟩ := Option.isSome_iff_exists.1 hresult
  exact Has.store p target h

/-- Two operands, the lower one replaced. The operation must end on every pair of words. -/
theorem has_binary {f : Uint256 → Uint256 → Option Uint256} (hf : ∀ x y, (f x y).isSome = true)
    (h : e.Covers top 2 0) : Has e (binary f top) fun _ => True := by
  obtain ⟨hlo, hhi⟩ := h
  unfold binary StackTop.get
  exact .bind (Has.load _ (by omega)) fun x _ => .bind (Has.load _ (by omega)) fun y _ =>
    Has.storeResult (by omega) (hf x y)

/-- Three operands, the lowest one replaced. -/
theorem has_ternary {f : Uint256 → Uint256 → Uint256 → Option Uint256}
    (hf : ∀ x y m, (f x y m).isSome = true) (h : e.Covers top 3 0) :
    Has e (ternary f top) fun _ => True := by
  obtain ⟨hlo, hhi⟩ := h
  unfold ternary StackTop.get
  exact .bind (Has.load _ (by omega)) fun x _ => .bind (Has.load _ (by omega)) fun y _ =>
    .bind (Has.load _ (by omega)) fun m _ => Has.storeResult (by omega) (hf x y m)

omit [Env] in
/-- The division of words ends: its loop has fuel for the shifts that it makes. -/
theorem divWord_isSome (x y : Uint256) : (divWord x y).isSome = true := by
  unfold divWord
  split
  case isTrue h => simp [divmod256_isSome x (r := y) (by simpa using h)]
  case isFalse => rfl

omit [Env] in
/-- So does the remainder, which is computed by the same loop. -/
theorem modWord_isSome (x y : Uint256) : (modWord x y).isSome = true := by
  unfold modWord
  split
  case isTrue h => simp [divmod256_isSome x (r := y) (by simpa using h)]
  case isFalse => rfl

/-- `exp` charges for the bytes of the exponent, and cannot raise the gas counter, since their
number is not negative. -/
theorem has_exp (h : e.Covers top 2 0) : Has e (exp top) fun _ => True := by
  obtain ⟨hlo, hhi⟩ := h
  unfold exp
  dsimp only [StackTop.pop, StackTop.top]
  refine .bind Has.readRev fun rev _ => .bind (Has.load _ (by omega)) fun x _ =>
    .bind (Has.chargeGas ?_) fun _ _ => .bind (Has.load _ (by omega)) fun times _ => ?_
  · split <;> omega
  · refine Built.ite (fun _ => Has.store _ _ (by omega)) fun _ => ?_
    exact .bind (Has.load _ (by omega)) fun base _ =>
      Has.storeResult (by omega) (by rw [expLoop_eq _ _ _ _ (Nat.lt_succ_self _)]; rfl)

/-- `keccak256` checks its range, charges for its words and reads the bytes. -/
theorem has_keccak256 (h : e.Covers top 2 0) : Has e (keccak256 top) fun _ => True := by
  obtain ⟨hlo, hhi⟩ := h
  unfold keccak256
  dsimp only [StackTop.pop, StackTop.top]
  refine .bind (Has.load _ (by omega)) fun index _ => .bind (Has.load _ (by omega)) fun size _ =>
    .bind (.prim (.requireMemoryU256 _ _)) fun _ _ => .bind (Has.load _ (by omega)) fun i _ =>
    .bind (Has.load _ (by omega)) fun s _ => .bind (Has.chargeGas (by omega)) fun _ _ => ?_
  refine Built.ite (fun _ => ?_) fun _ => Has.store _ _ (by omega)
  exact .bind (.prim (.readMemory _ _)) fun data _ => Has.store _ _ (by omega)

/-! ### The environment -/

/-- An instruction that pushes a value. The value may be read from anywhere, the host included. -/
theorem has_pushValue {value : Core Uint256} (hvalue : Has e value fun _ => True)
    (h : e.Covers top 0 1) : Has e (pushValue value top) fun _ => True := by
  obtain ⟨hlo, hhi⟩ := h
  unfold pushValue
  exact .bind hvalue fun target _ => .bind (Has.push target (by omega)) fun _ _ => .pure trivial

/-- `address` takes the recipient from the message. -/
theorem has_address (h : e.Covers top 0 1) : Has e (address top) fun _ => True := by
  refine has_pushValue ?_ h
  refine .bind (.prim .nextFresh) fun k _ => ?_
  refine Built.ite (fun _ => Has.fault _ (by decide)) fun _ => ?_
  exact .bind (.prim .nextFresh) fun _ _ => .bind (Has.read _ (fun _ _ => rfl) fun _ _ => rfl)
    fun _ _ => .pure trivial

/-- `balance` may charge for a cold account before it asks for the balance. -/
theorem has_balance (he : e.Mild) (h : e.Covers top 1 0) :
    Has e (balance top) fun _ => True := by
  obtain ⟨hlo, hhi⟩ := h
  unfold balance
  dsimp only [StackTop.top]
  exact .bind (Has.load _ (by omega)) fun x _ =>
    .bind (has_chargeColdAccount he _ (by decide)) fun _ _ =>
    .bind (Has.ask he _ trivial) fun res _ => Has.store _ _ (by omega)

/-- The part of the transaction context that an instruction pushes. -/
theorem has_pushTx (he : e.Mild) (f : TxContext → Uint256) (h : e.Covers top 0 1) :
    Has e (pushValue (do return f (← ask .getTxContext)) top) fun _ => True :=
  has_pushValue (.bind (Has.ask he _ trivial) fun _ _ => .pure trivial) h

/-- A field of the state that an instruction pushes. -/
theorem has_pushRead (f : ExecutionState → Uint256)
    (hf : ∀ s gas, f { s with gasLeft := gas } = f s)
    (hspace : ∀ s stackSpace, f { s with stackSpace := stackSpace } = f s) (h : e.Covers top 0 1) :
    Has e (pushValue (Core.read f) top) fun _ => True := has_pushValue (Has.read f hf hspace) h

/-- `origin` asks for the transaction. -/
theorem has_origin (he : e.Mild) (h : e.Covers top 0 1) :
    Has e (origin top) fun _ => True :=
  has_pushValue (.bind (Has.ask he _ trivial) fun _ _ =>
    .bind (.prim .nextFresh) fun _ _ => .pure trivial) h

/-- `coinbase` does, too. -/
theorem has_coinbase (he : e.Mild) (h : e.Covers top 0 1) :
    Has e (coinbase top) fun _ => True :=
  has_pushValue (.bind (Has.ask he _ trivial) fun _ _ =>
    .bind (.prim .nextFresh) fun _ _ => .pure trivial) h

/-- The bytes of the input are read through a pointer that ends somewhere. -/
theorem has_readInput (start n : Nat) : Has e (readInput start n) fun _ => True := by
  unfold readInput
  refine .bind Has.readMsg fun msg _ => ?_
  refine Built.ite (fun _ => .pure trivial) fun _ => ?_
  exact Built.ite (fun _ => .pure trivial) fun _ => Has.fault _ (by decide)

/-- `calldataload` copies up to 32 bytes of the input to a word. -/
theorem has_calldataload (h : e.Covers top 1 0) : Has e (calldataload top) fun _ => True := by
  obtain ⟨hlo, hhi⟩ := h
  unfold calldataload
  dsimp only [StackTop.top]
  refine .bind Has.readMsg fun msg _ => .bind (Has.load _ (by omega)) fun word _ => ?_
  refine Built.ite (fun _ => Has.store _ _ (by omega)) fun _ => ?_
  exact .bind (has_readInput _ _) fun data _ => Has.store _ _ (by omega)

/-- `calldatacopy` charges for the words, and then writes the copied bytes and the zeros behind
them. -/
theorem has_calldatacopy (h : e.Covers top 3 0) : Has e (calldatacopy top) fun _ => True := by
  obtain ⟨hlo, hhi⟩ := h
  unfold calldatacopy
  dsimp only [StackTop.pop]
  exact .bind (Has.load _ (by omega)) fun _ _ => .bind (Has.load _ (by omega)) fun _ _ =>
    .bind (.prim (.requireMemoryU256 _ _)) fun _ _ =>
      .bind (Has.read _ (fun _ _ => rfl) fun _ _ => rfl) fun _ _ =>
    .bind (Has.load _ (by omega)) fun _ _ => .bind (Has.load _ (by omega)) fun _ _ =>
    .bind (Has.load _ (by omega)) fun _ _ => .bind (Has.chargeGas (by omega)) fun _ _ =>
    .bind (has_readInput _ _) fun data _ => .bind (.prim (.writeMemory _ _)) fun _ _ =>
    .prim (.clearMemory _ _)

/-- The bytes of the code are read through a pointer as well. -/
theorem has_readCode (start n : Nat) : Has e (readCode start n) fun _ => True := by
  unfold readCode
  refine .bind Has.readCode fun code _ => ?_
  refine Built.ite (fun _ => .pure trivial) fun _ => ?_
  exact Built.ite (fun _ => .pure trivial) fun _ => Has.fault _ (by decide)

/-- `codecopy` does with the code what `calldatacopy` does with the input. -/
theorem has_codecopy (h : e.Covers top 3 0) : Has e (codecopy top) fun _ => True := by
  obtain ⟨hlo, hhi⟩ := h
  unfold codecopy
  dsimp only [StackTop.pop]
  exact .bind (Has.load _ (by omega)) fun _ _ => .bind (Has.load _ (by omega)) fun _ _ =>
    .bind (.prim (.requireMemoryU64 _ _)) fun _ _ =>
      .bind (Has.read _ (fun _ _ => rfl) fun _ _ => rfl) fun _ _ =>
    .bind (Has.load _ (by omega)) fun _ _ => .bind (Has.load _ (by omega)) fun _ _ =>
    .bind (Has.load _ (by omega)) fun _ _ => .bind (Has.chargeGas (by omega)) fun _ _ =>
    .bind (has_readCode _ _) fun data _ => .bind (.prim (.writeMemory _ _)) fun _ _ =>
    .prim (.clearMemory _ _)

/-- `extcodesize` is a request behind the charge for a cold account. -/
theorem has_extcodesize (he : e.Mild) (h : e.Covers top 1 0) :
    Has e (extcodesize top) fun _ => True := by
  obtain ⟨hlo, hhi⟩ := h
  unfold extcodesize
  dsimp only [StackTop.top]
  exact .bind (Has.load _ (by omega)) fun x _ =>
    .bind (has_chargeColdAccount he _ (by decide)) fun _ _ =>
    .bind (Has.ask he _ trivial) fun res _ => Has.store _ _ (by omega)

/-- The search for a zero byte in the memory either finds one, or runs off its end. -/
theorem has_scanString (offset : Nat) : Has e (scanString offset) fun _ => True := by
  unfold scanString
  refine .bind Has.readMemoryField fun memory _ => ?_
  cases memory.mData with
  | none => exact Has.fault _ (by decide)
  | some data =>
      simp only
      split
      · exact .prim (.logAccess _ _ _)
      · refine .bind (.prim (.logAccess _ _ _)) fun _ _ => .bind (.prim .nextFresh) fun k _ => ?_
        exact Built.ite (fun _ => Has.fault _ (by decide)) fun _ => .pure trivial

/-- `extcodecopy` measures the memory with `strlen`, in place of the code of the account, and asks
the host to copy. -/
theorem has_extcodecopy (he : e.Mild) (h : e.Covers top 4 0) :
    Has e (extcodecopy top) fun _ => True := by
  obtain ⟨hlo, hhi⟩ := h
  unfold extcodecopy
  dsimp only [StackTop.pop]
  refine .bind (Has.load _ (by omega)) fun _ _ => .bind (Has.load _ (by omega)) fun _ _ =>
    .bind (Has.load _ (by omega)) fun _ _ => .bind (.prim (.requireMemoryU256 _ _)) fun _ _ =>
    .bind (Has.load _ (by omega)) fun s _ => .bind (Has.chargeGas (by omega)) fun _ _ =>
    .bind (has_chargeColdAccount he _ (by decide)) fun _ _ => ?_
  refine Built.ite (fun _ => ?_) fun _ => .pure trivial
  refine .bind (Has.load _ (by omega)) fun _ _ => .bind (Has.load _ (by omega)) fun dst _ =>
    .bind (Has.ask he _ trivial) fun copied _ => ?_
  refine Built.ite (fun _ => ?_) fun _ => .prim (.clearMemory _ _)
  exact .bind (has_scanString _) fun _ _ => .prim (.clearMemory _ _)

/-- The length of the output of the last call is the one of a C string. -/
theorem has_returnDataLength : Has e returnDataLength fun _ => True := by
  unfold returnDataLength
  refine .bind Has.readReturnData fun data _ => ?_
  cases data with
  | none => exact Has.fault _ (by decide)
  | some data => exact .pure trivial

/-- `returndatacopy` returns early for a range behind the output of the last call. -/
theorem has_returndatacopy (h : e.Covers top 3 0) : Has e (returndatacopy top) fun _ => True := by
  obtain ⟨hlo, hhi⟩ := h
  unfold returndatacopy
  dsimp only [StackTop.pop]
  refine .bind (Has.load _ (by omega)) fun _ _ => .bind (Has.load _ (by omega)) fun _ _ =>
    .bind (.prim (.requireMemoryU256 _ _)) fun _ _ => .bind (Has.load _ (by omega)) fun _ _ =>
    .bind (Has.load _ (by omega)) fun s _ => .bind has_returnDataLength fun length _ =>
    .bind (Has.load _ (by omega)) fun _ _ => ?_
  refine Built.ite (fun _ => Has.ret _ (by decide)) fun _ => ?_
  refine Built.ite (fun _ => Has.ret _ (by decide)) fun _ => ?_
  refine .bind (Has.chargeGas (by omega)) fun _ _ => .bind Has.readReturnData fun data _ => ?_
  exact Built.ite (fun _ => Has.fault _ (by decide)) fun _ => .prim (.writeMemory _ _)

/-- `extcodehash` is a request like `extcodesize`. -/
theorem has_extcodehash (he : e.Mild) (h : e.Covers top 1 0) :
    Has e (extcodehash top) fun _ => True := by
  obtain ⟨hlo, hhi⟩ := h
  unfold extcodehash
  dsimp only [StackTop.top]
  exact .bind (Has.load _ (by omega)) fun x _ =>
    .bind (has_chargeColdAccount he _ (by decide)) fun _ _ =>
    .bind (Has.ask he _ trivial) fun res _ => Has.store _ _ (by omega)

/-- `blockhash` asks for the transaction, and for the hash where the number passes its tests. -/
theorem has_blockhash (he : e.Mild) (h : e.Covers top 1 0) :
    Has e (blockhash top) fun _ => True := by
  obtain ⟨hlo, hhi⟩ := h
  unfold blockhash
  dsimp only [StackTop.top]
  refine .bind (Has.ask he _ trivial) fun tx _ => .bind (.prim (.int64 _)) fun d _ =>
    .bind (Has.load _ (by omega)) fun word _ => ?_
  refine Built.ite (fun _ => ?_) fun _ => Has.store _ _ (by omega)
  exact .bind (Has.ask he _ trivial) fun header _ => Has.store _ _ (by omega)

/-- `selfbalance` asks for the balance of the recipient of the message. -/
theorem has_selfbalance (he : e.Mild) (h : e.Covers top 0 1) :
    Has e (selfbalance top) fun _ => True :=
  has_pushValue (.bind (Has.read _ (fun _ _ => rfl) fun _ _ => rfl) fun _ _ =>
    .bind (Has.ask he _ trivial) fun _ _ => .pure trivial) h

/-! ### Memory and storage -/

/-- `mload` checks 32 bytes and reads them. -/
theorem has_mload (h : e.Covers top 1 0) : Has e (mload top) fun _ => True := by
  obtain ⟨hlo, hhi⟩ := h
  unfold mload
  dsimp only [StackTop.top]
  exact .bind (Has.load _ (by omega)) fun _ _ => .bind (.prim (.requireMemoryU64 _ _)) fun _ _ =>
    .bind (Has.load _ (by omega)) fun _ _ => .bind (.prim (.readMemory _ _)) fun data _ =>
    Has.store _ _ (by omega)

/-- `mstore` checks 32 bytes and writes them. -/
theorem has_mstore (h : e.Covers top 2 0) : Has e (mstore top) fun _ => True := by
  obtain ⟨hlo, hhi⟩ := h
  unfold mstore
  dsimp only [StackTop.pop]
  exact .bind (Has.load _ (by omega)) fun _ _ => .bind (.prim (.requireMemoryU64 _ _)) fun _ _ =>
    .bind (Has.load _ (by omega)) fun _ _ => .bind (Has.load _ (by omega)) fun _ _ =>
    .prim (.writeMemory _ _)

/-- `mstore8` checks 32 bytes and writes eight. No byte of a code is analysed to it, but it has
effects like the others. -/
theorem has_mstore8 (h : e.Covers top 2 0) : Has e (mstore8 top) fun _ => True := by
  obtain ⟨hlo, hhi⟩ := h
  unfold mstore8
  dsimp only [StackTop.pop]
  exact .bind (Has.load _ (by omega)) fun _ _ => .bind (.prim (.requireMemoryU64 _ _)) fun _ _ =>
    .bind (Has.load _ (by omega)) fun _ _ => .bind (Has.load _ (by omega)) fun _ _ =>
    .prim (.writeMemory _ _)

/-- `sload` asks for the access status first, from Berlin on, and then for the value. -/
theorem has_sload (haccess : ∀ addr key, e.host (.accessStorage addr key))
    (hget : ∀ addr key, e.host (.getStorage addr key)) (h : e.Covers top 1 0) :
    Has e (sload top) fun _ => True := by
  obtain ⟨hlo, hhi⟩ := h
  have hrest : ∀ recipient key, Has e (do
      let data ← ask (.getStorage recipient key)
      store top (readu256BE (bytesAt data))) fun _ => True := fun _ _ =>
    .bind (.prim (.ask _ (hget _ _))) fun _ _ => Has.store _ _ (by omega)
  unfold sload
  dsimp only [StackTop.top]
  refine .bind (Has.load _ (by omega)) fun x _ => .bind Has.readMsg fun msg _ =>
    .bind Has.readRev fun rev _ => ?_
  refine Built.ite (fun _ => ?_) fun _ => hrest _ _
  refine .bind (.prim (.ask _ (haccess _ _))) fun status _ => ?_
  exact Built.ite (fun _ => .bind (Has.chargeGas (by decide)) fun _ _ => hrest _ _)
    fun _ => hrest _ _

omit [Env] in
/-- What `sstore` charges for a status is not negative, at any revision. -/
theorem sstoreCost_nonneg (rev : Revision) (status : StorageStatus) {cost : Int} (hcost : 0 ≤ cost) :
    0 ≤ sstoreCost rev status cost := by
  have h1 : warmStorageReadCost = 100 := rfl
  have h2 : coldSloadCost = 2100 := rfl
  unfold sstoreCost
  cases status <;> simp only <;> (try split_ifs) <;> omega

/-- `sstore` is refused in static mode, and only behind this test may it write. It looks at the gas
counter for the stipend. -/
theorem has_sstore (haccess : ∀ addr key, e.host (.accessStorage addr key)) (hgas : e.readsGas)
    (hstore : ¬ e.msg.Static → ∀ addr key value, e.host (.setStorage addr key value))
    (h : e.Covers top 2 0) : Has e (sstore top) fun _ => True := by
  obtain ⟨hlo, hhi⟩ := h
  unfold sstore
  dsimp only [StackTop.pop]
  refine .bind (.prim .refuseStatic) fun _ hstatic => .bind Has.readRev fun rev _ =>
    .bind (Has.readGas hgas) fun gas _ => ?_
  refine Built.ite (fun _ => Has.ret _ (by decide)) fun _ => ?_
  refine .bind (Has.load _ (by omega)) fun key _ => .bind (Has.load _ (by omega)) fun value _ =>
    .bind Has.readRev fun rev _ => .bind Has.readMsg fun msg _ => ?_
  have hrest : ∀ {cost : Int}, 0 ≤ cost → Has e (do
      let status ← ask (.setStorage msg.recipient (storageWord key) (storageWord value))
      chargeGas (sstoreCost rev status cost)) fun _ => True := fun hcost =>
    .bind (.prim (.ask _ (hstore hstatic _ _ _))) fun status _ =>
      Has.chargeGas (sstoreCost_nonneg rev status hcost)
  refine Built.ite (fun _ => ?_) fun _ => hrest (le_refl 0)
  refine .bind (.prim (.ask _ (haccess _ _))) fun access _ => hrest ?_
  split <;> decide

/-! ### Stack operations and logs -/

/-- `dup` copies the item `n` to the slot above the top. The items are counted from 1. -/
theorem has_dup (n : Nat) (hn : 1 ≤ n) (h : e.Covers top n 1) : Has e (dup n top) fun _ => True := by
  obtain ⟨hlo, hhi⟩ := h
  unfold dup StackTop.get
  exact .bind (Has.load _ (by omega)) fun tmp _ => .bind (Has.push tmp (by omega)) fun _ _ =>
    .pure trivial

/-- `swap` exchanges two slots. -/
theorem has_swap (n : Nat) (h : e.Covers top (n + 1) 0) : Has e (swap n top) fun _ => True := by
  obtain ⟨hlo, hhi⟩ := h
  unfold swap StackTop.get StackTop.top
  exact .bind (Has.load _ (by omega)) fun tmp _ => .bind (Has.load _ (by omega)) fun other _ =>
    .bind (Has.store _ _ (by omega)) fun _ _ => Has.store _ _ (by omega)

/-- The topics are read one below the other. -/
theorem has_popTopics (n : Nat) (h : e.Covers top n 0) : Has e (popTopics n top) fun _ => True := by
  induction n generalizing top with
  | zero => exact .pure trivial
  | succ n ih =>
      obtain ⟨hlo, hhi⟩ := h
      unfold popTopics
      dsimp only [StackTop.pop]
      exact .bind (Has.load _ (by omega)) fun topic _ =>
        .bind (ih ⟨by omega, by omega⟩) fun topics _ => .pure trivial

/-- `log0` charges for the low limb of its size as an `int64_t`, which may be negative. So it can
raise the gas counter. -/
theorem has_log0 (hraise : e.raisesGas)
    (hlog : ¬ e.msg.Static → ∀ addr data topics empty, e.host (.emitLog addr data topics empty))
    (h : e.Covers top 2 0) : Has e (log0 top) fun _ => True := by
  obtain ⟨hlo, hhi⟩ := h
  unfold log0
  dsimp only [StackTop.pop]
  exact .bind (.prim .refuseStatic) fun _ hstatic => .bind (Has.load _ (by omega)) fun _ _ =>
    .bind (Has.load _ (by omega)) fun _ _ => .bind (.prim (.requireMemoryU256 _ _)) fun _ _ =>
    .bind (Has.load _ (by omega)) fun _ _ => .bind (Has.load _ (by omega)) fun _ _ =>
    .bind (.prim (.int64 _)) fun cost _ => .bind (.prim (.chargeGas cost (Or.inr hraise))) fun _ _ =>
    .bind (.prim (.readMemory _ _)) fun data _ => .bind (.prim .nextFresh) fun k _ =>
    .bind Has.readMsg fun msg _ => .prim (.ask _ (hlog hstatic _ _ _ _))

/-- The other four pop their topics into a vector that is not initialised. -/
theorem has_logTopics (n : Nat) (hraise : e.raisesGas)
    (hlog : ¬ e.msg.Static → ∀ addr data topics empty, e.host (.emitLog addr data topics empty))
    (h : e.Covers top (n + 2) 0) : Has e (logTopics n top) fun _ => True := by
  obtain ⟨hlo, hhi⟩ := h
  unfold logTopics
  dsimp only [StackTop.pop]
  refine .bind (.prim (.read _ (Or.inr fun _ _ => rfl) fun _ _ => rfl)) fun msg hmsg => ?_
  refine Built.ite (fun _ => Has.ret _ (by decide)) fun hflags => ?_
  have hstatic : ¬ e.msg.Static := by
    obtain ⟨s, hs, rfl⟩ := hmsg
    rw [← hs]
    exact hflags
  refine .bind (Has.load _ (by omega)) fun _ _ => .bind (Has.load _ (by omega)) fun _ _ =>
    .bind (.prim (.requireMemoryU64 _ _)) fun _ _ => .bind (Has.load _ (by omega)) fun _ _ =>
    .bind (Has.load _ (by omega)) fun _ _ => .bind (.prim (.int64 _)) fun cost _ =>
    .bind (.prim (.chargeGas cost (Or.inr hraise))) fun _ _ =>
    .bind (has_popTopics n ⟨by omega, by omega⟩) fun topics _ => .bind (.prim .nextFresh)
      fun _ _ => ?_
  refine Built.ite (fun _ => Has.fault _ (by decide)) fun _ => ?_
  exact .bind (.prim (.readMemory _ _)) fun data _ => .bind (.prim .nextFresh) fun k _ =>
    .bind Has.readMsg fun msg _ => .prim (.ask _ (hlog hstatic _ _ _ _))

/-! ### Instructions that end the run -/

/-- The output range is checked, and its size and its offset are set. No other part sets the size of
the output. -/
theorem has_publishOutput (hset : e.setsOutput) (h : e.Covers top 2 0) :
    Has e (publishOutput top) fun _ => True := by
  obtain ⟨hlo, hhi⟩ := h
  unfold publishOutput StackTop.get
  refine .bind (Has.load _ (by omega)) fun _ _ => .bind (Has.load _ (by omega)) fun _ _ =>
    .bind (.prim (.requireMemoryU256 _ _)) fun _ _ => .bind (Has.load _ (by omega)) fun size _ =>
    .bind (.prim (.setOutputSize _ hset)) fun _ _ => ?_
  refine Built.ite (fun _ => ?_) fun _ => .pure trivial
  exact .bind (Has.load _ (by omega)) fun offset _ => .bind (.prim (.setOutputOffset _)) fun _ _ =>
    .bind Has.readMemoryField fun memory _ => .prim (.logAccess _ _ _)

/-- `return_` ends with `EVMC_SUCCESS`. -/
theorem has_return (hset : e.setsOutput) (h : e.Covers top 2 0) :
    Has e (return_ top) (· = .success) :=
  .bind (has_publishOutput hset h) fun _ _ => .pure rfl

/-- `revert` ends with `EVMC_REVERT`. -/
theorem has_revert (hset : e.setsOutput) (h : e.Covers top 2 0) :
    Has e (revert top) (· = .revert) :=
  .bind (has_publishOutput hset h) fun _ _ => .pure rfl

/-- `selfdestruct` charges without looking whether there is enough, and returns `EVMC_SUCCESS` in
any case. -/
theorem has_selfdestruct (he : e.Mild) (hraise : e.raisesGas)
    (hself : ¬ e.msg.Static → ∀ addr beneficiary, e.host (.selfdestruct addr beneficiary))
    (h : e.Covers top 1 0) : Has e (selfdestruct top) (· = .success) := by
  obtain ⟨hlo, hhi⟩ := h
  unfold selfdestruct StackTop.get
  refine .bind (.prim .refuseStatic) fun _ hstatic => .bind (Has.load _ (by omega)) fun x _ =>
    .bind (has_chargeColdAccount he _ (by decide)) fun _ _ =>
    .bind Has.readRev fun rev _ => .bind Has.readMsg fun msg _ => ?_
  have hend : ∀ beneficiary, Has e (do
      ask (.selfdestruct msg.recipient beneficiary)
      return StatusCode.success) (· = .success) := fun _ =>
    .bind (.prim (.ask _ (hself hstatic _ _))) fun _ _ => .pure rfl
  refine Built.ite (fun _ => ?_) fun _ => hend _
  refine .bind (Has.ask he _ trivial) fun b _ => ?_
  refine Built.ite (fun _ => ?_) fun _ => hend _
  refine .bind (Has.ask he _ trivial) fun accountExists _ => ?_
  exact Built.ite (fun _ => .bind (.prim (.subGas _ hraise)) fun _ _ => hend _) fun _ => hend _

/-! ### Calls -/

/-- The effects allow each message to the host that `v` can make. -/
def Effects.Calls (e : Effects) (v : CallVariant) : Prop := ∀ state dst value msg,
  state.msg = e.msg → ∀ m : Message, m.kind = (v.message state dst value msg).kind →
    m.flags = (v.message state dst value msg).flags → e.host (.call m)

/-- The message of the variant is not made from the stack space. -/
def CallVariant.Spaceless (v : CallVariant) : Prop := ∀ state stackSpace dst value msg,
  v.message { state with stackSpace := stackSpace } dst value msg = v.message state dst value msg

/-- The fields that do not come from the memory, made from those of a local variable. -/
def callMessageFields (v : CallVariant) (dst : Address) (value : Uint256) (state : ExecutionState)
    (msg : Message) : Message :=
  { v.message state dst value msg with depth := toInt32 (state.msg.depth + 1) }

/-- The state is read once, for the fields of the message. -/
theorem callMessage_eq (v : CallVariant) (dst : Address) (value : Uint256)
    (inputOffset inputSize : Slot) :
    callMessage v dst value inputOffset inputSize = do
      let fields ← Core.read (callMessageFields v dst value)
      let msg := fields (Env.localMessage (← nextFresh))
      let inputSize_ := (← load inputSize).low
      if inputSize_ > 0 then
        let inputData ← memoryPtr (← load inputOffset).low inputSize_
        return { msg with inputData := inputData, inputSize := inputSize_ }
      else return msg := rfl

/-- The kind and the flags of the message are those that the variant gives it. -/
theorem has_callMessage_fields (v : CallVariant) (hread : e.readsGas) (hspace : v.Spaceless)
    (dst : Address) (value : Uint256) {inputOffset inputSize : Int}
    (ho : e.lo ≤ inputOffset ∧ inputOffset ≤ e.hi) (hs : e.lo ≤ inputSize ∧ inputSize ≤ e.hi) :
    Has e (callMessage v dst value inputOffset inputSize)
      fun m => ∃ state msg, state.msg = e.msg ∧ m.kind = (v.message state dst value msg).kind ∧
        m.flags = (v.message state dst value msg).flags := by
  rw [callMessage_eq]
  have hfields : ∀ s stackSpace, callMessageFields v dst value { s with stackSpace := stackSpace } =
      callMessageFields v dst value s := fun s stackSpace => by
    funext msg
    unfold callMessageFields
    rw [hspace]
  refine .bind (.prim (.read _ (Or.inl hread) hfields)) fun fields hstate =>
    .bind (.prim .nextFresh) fun k _ => .bind (Has.load _ hs) fun size _ => ?_
  obtain ⟨state, hstate, rfl⟩ := hstate
  refine Built.ite (fun _ => ?_) fun _ => .pure ⟨state, Env.localMessage k, hstate, rfl, rfl⟩
  exact .bind (Has.load _ ho) fun _ _ => .bind (.prim (.memoryPtr _ _)) fun data _ =>
    .pure ⟨state, Env.localMessage k, hstate, rfl, rfl⟩

/-- The message of a call is put together from the operands, and its kind and its flags from the
variant. -/
theorem has_callMessage (v : CallVariant) (hread : e.readsGas) (hspace : v.Spaceless)
    (hcall : e.Calls v) (dst : Address) (value : Uint256) {inputOffset inputSize : Int}
    (ho : e.lo ≤ inputOffset ∧ inputOffset ≤ e.hi) (hs : e.lo ≤ inputSize ∧ inputSize ≤ e.hi) :
    Has e (callMessage v dst value inputOffset inputSize)
      fun m => ∀ gas, e.host (.call { m with gas := gas }) :=
  Built.weaken (has_callMessage_fields v hread hspace dst value ho hs) fun m h gas => by
    obtain ⟨state, msg, hstate, hkind, hflags⟩ := h
    exact hcall state dst value msg hstate _ hkind hflags

/-- The gas that a call asks for is its operand as an `int64_t`, and from Tangerine Whistle on at
most what the 64th part leaves. -/
theorem has_callGas (hread : e.readsGas) {gas : Int} (h : e.lo ≤ gas ∧ gas ≤ e.hi) :
    Has e (callGas gas) fun _ => True := by
  unfold callGas
  refine .bind (Has.load _ h) fun _ _ =>
    .bind (Has.readGas hread) fun gasLeft _ =>
    .bind (Has.read (·.rev) (fun _ _ => rfl) fun _ _ => rfl) fun rev _ => ?_
  refine Built.ite (fun _ => .pure trivial) fun _ => ?_
  exact Built.ite (fun _ => Has.ret _ (by decide)) fun _ => .pure trivial

/-- The stipend is added to the gas counter, which it raises. -/
theorem has_addStipend (hraise : e.raisesGas) (hasValue : Bool) (msgGas : Int) :
    Has e (addStipend hasValue msgGas) fun _ => True := by
  unfold addStipend
  refine Built.ite (fun _ => ?_) fun _ => .pure trivial
  exact .bind (.prim (.int64 _)) fun _ _ => .bind (.prim (.subGas _ hraise)) fun _ _ => .pure trivial

/-- The status and the output of the callee are stored. The operands of the output are read from
their slots again, one of which holds the status by then. -/
theorem has_takeCallResult {outputOffset outputSize : Int} (result : Result)
    (htop : e.lo ≤ top ∧ top ≤ e.hi) (ho : e.lo ≤ outputOffset ∧ outputOffset ≤ e.hi)
    (hs : e.lo ≤ outputSize ∧ outputSize ≤ e.hi) :
    Has e (takeCallResult top outputOffset outputSize result) fun _ => True := by
  unfold takeCallResult StackTop.top
  have hcopy : ∀ n, Has e (do
      let offset ← load outputOffset
      writeMemory offset.low (result.outputData.take n)) fun _ => True := fun n =>
    .bind (Has.load _ ho) fun _ _ => .prim (.writeMemory _ _)
  refine Built.ite (fun _ => Has.fault _ (by decide)) fun _ => ?_
  refine .bind (Has.store _ _ htop) fun _ _ => .bind (Has.load _ hs) fun _ _ => ?_
  refine Built.ite (fun _ => ?_) fun _ => .pure trivial
  exact Built.ite (fun _ => Has.fault _ (by decide)) fun _ => hcopy _

/-- The request is made unless the call is too deep or the balance too low. -/
theorem has_callHost (he : e.Mild) (hraise : e.raisesGas) (hasValue : Bool) (value : Uint256)
    {msg : Message} (hmsg : e.host (.call msg)) {outputOffset outputSize : Int}
    (htop : e.lo ≤ top ∧ top ≤ e.hi) (ho : e.lo ≤ outputOffset ∧ outputOffset ≤ e.hi)
    (hs : e.lo ≤ outputSize ∧ outputSize ≤ e.hi) :
    Has e (callHost hasValue value msg top outputOffset outputSize) fun _ => True := by
  unfold callHost
  refine .bind (.prim .dropReturnData) fun _ _ => .bind Has.readMsg fun stateMsg _ => ?_
  refine Built.ite (fun _ => .pure trivial) fun _ => ?_
  refine .bind (Has.ask he _ trivial) fun b _ => ?_
  refine Built.ite (fun _ => .pure trivial) fun _ => ?_
  exact .bind (.prim (.ask _ hmsg)) fun result _ =>
    .bind (has_takeCallResult result htop ho hs) fun _ _ => .bind (.prim (.int64 _)) fun used _ =>
    .prim (.subGas _ hraise)

/-- What the variants share, from the charge on. -/
theorem has_callWith (v : CallVariant) (he : e.Mild) (hread : e.readsGas)
    (hraise : e.raisesGas) (hspace : v.Spaceless) (hcall : e.Calls v)
    (hextra : ∀ hasValue dst, Has e (v.extraCost hasValue dst) (0 ≤ ·)) {gas : Int}
    (dst : Address) (value : Uint256) (hgas : e.lo ≤ gas ∧ gas ≤ e.hi) (h : e.Covers top 4 0) :
    Has e (callWith v gas dst value top) fun _ => True := by
  obtain ⟨hlo, hhi⟩ := h
  unfold callWith
  dsimp only [StackTop.pop]
  refine .bind (Has.push _ (by omega)) fun st hst => ?_
  subst hst
  refine .bind (has_chargeColdAccount he _ (by decide)) fun _ _ =>
    .bind (Has.load _ (by omega)) fun _ _ => .bind (Has.load _ (by omega)) fun _ _ =>
    .bind (.prim (.requireMemoryU256 _ _)) fun _ _ => .bind (Has.load _ (by omega)) fun _ _ =>
    .bind (Has.load _ (by omega)) fun _ _ => .bind (.prim (.requireMemoryU256 _ _)) fun _ _ =>
    .bind (has_callMessage v hread hspace hcall dst value (by omega) (by omega)) fun msg hmsg =>
    .bind (hextra _ _) fun extra hextra => .bind (Has.chargeGas ?_) fun _ _ =>
    .bind (has_callGas hread hgas) fun msgGas _ => .bind (has_addStipend hraise _ _) fun msgGas _ =>
    has_callHost he hraise _ _ (hmsg _) (by omega) (by omega) (by omega)
  split <;> omega

/-- A call, from its operands on: the charges, the message and the request. -/
theorem has_callVariant (v : CallVariant) (he : e.Mild) (hread : e.readsGas)
    (hraise : e.raisesGas) (hspace : v.Spaceless) (hcall : e.Calls v)
    (hextra : ∀ hasValue dst, Has e (v.extraCost hasValue dst) (0 ≤ ·))
    (h : e.Covers top (if v.hasValueOperand then 7 else 6) 0) :
    Has e (callVariant v top) fun _ => True := by
  obtain ⟨hlo, hhi⟩ := h
  have hsix : 6 ≤ if v.hasValueOperand then 7 else 6 := by split <;> decide
  unfold callVariant
  dsimp only [StackTop.pop]
  refine .bind (Has.load _ (by omega)) fun tmp _ => ?_
  refine Built.ite (fun hvalue => ?_) fun hvalue => ?_
  · rw [if_pos hvalue] at hlo
    exact .bind (Has.load _ (by omega)) fun value _ =>
      has_callWith v he hread hraise hspace hcall hextra _ _ (by omega) ⟨by omega, by omega⟩
  · rw [if_neg hvalue] at hlo
    exact has_callWith v he hread hraise hspace hcall hextra _ _ (by omega) ⟨by omega, by omega⟩

/-- The init code of a creation is put into the message, if the size is not zero. -/
theorem has_initCodeMessage (msg : Message) {initCodeOffset initCodeSize : Int}
    (ho : e.lo ≤ initCodeOffset ∧ initCodeOffset ≤ e.hi)
    (hs : e.lo ≤ initCodeSize ∧ initCodeSize ≤ e.hi) :
    Has e (initCodeMessage initCodeOffset initCodeSize msg) fun _ => True := by
  unfold initCodeMessage
  refine .bind (Has.load _ hs) fun _ _ => ?_
  refine Built.ite (fun _ => ?_) fun _ => .pure trivial
  refine .bind (Has.load _ ho) fun _ _ => .bind (.prim (.readMemory _ _)) fun code _ =>
    .bind (.prim .nextFresh) fun k _ => ?_
  exact Built.ite (fun _ => Has.fault _ (by decide)) fun _ => .pure trivial

/-- The address of the new account is stored in the slot above the top. -/
theorem has_takeCreateResult (result : Result) (h : e.lo ≤ top + 1 ∧ top + 1 ≤ e.hi) :
    Has e (takeCreateResult top result) fun _ => True := by
  unfold takeCreateResult
  refine Built.ite (fun _ => Has.fault _ (by decide)) fun _ => ?_
  refine Built.ite (fun _ => ?_) fun _ => .pure trivial
  exact .bind (.prim .nextFresh) fun k _ => .bind (Has.push _ h) fun _ _ => .pure trivial

/-- What the creations share, behind their checks. -/
theorem has_createMessage (kind : CallKind) (he : e.Mild) (hread : e.readsGas)
    (hraise : e.raisesGas) (hcall : ∀ m : Message, m.kind = kind → e.host (.call m))
    {endowment initCodeOffset initCodeSize : Int} (salt : Uint256)
    (hv : e.lo ≤ endowment ∧ endowment ≤ e.hi)
    (ho : e.lo ≤ initCodeOffset ∧ initCodeOffset ≤ e.hi)
    (hs : e.lo ≤ initCodeSize ∧ initCodeSize ≤ e.hi) (h : e.Covers top 0 2) :
    Has e (createMessage kind endowment initCodeOffset initCodeSize salt top) fun _ => True := by
  obtain ⟨hlo, hhi⟩ := h
  unfold createMessage
  refine .bind (Has.push _ (by omega)) fun st hst => ?_
  subst hst
  refine .bind (.prim .dropReturnData) fun _ _ => .bind Has.readMsg fun stateMsg _ => ?_
  refine Built.ite (fun _ => .pure trivial) fun _ => ?_
  refine .bind (Has.ask he _ trivial) fun b _ => .bind (Has.load _ hv) fun value _ => ?_
  refine Built.ite (fun _ => .pure trivial) fun _ => ?_
  exact .bind (Has.readGas hread) fun gas _ =>
    .bind Has.readRev fun rev _ => .bind (.prim .nextFresh) fun k _ =>
    .bind (has_initCodeMessage _ ho hs) fun msg _ => .bind (.prim (.ask _ (hcall _ rfl)))
      fun result _ =>
    .bind (.prim (.int64 _)) fun used _ => .bind (.prim (.subGas _ hraise)) fun _ _ =>
    has_takeCreateResult result (by omega)

/-- `create` is refused in static mode. -/
theorem has_create (he : e.Mild) (hread : e.readsGas) (hraise : e.raisesGas)
    (hcall : ¬ e.msg.Static → ∀ m : Message, m.kind = .create → e.host (.call m))
    (h : e.Covers top 3 0) : Has e (create top) fun _ => True := by
  obtain ⟨hlo, hhi⟩ := h
  unfold create
  dsimp only [StackTop.pop]
  exact .bind (.prim .refuseStatic) fun _ hstatic => .bind (Has.load _ (by omega)) fun _ _ =>
    .bind (Has.load _ (by omega)) fun _ _ => .bind (.prim (.requireMemoryU256 _ _)) fun _ _ =>
    has_createMessage .create he hread hraise (hcall hstatic) _ (by omega) (by omega) (by omega)
      ⟨by omega, by omega⟩

/-- So is `create2`, which charges for the hash of the init code as well. -/
theorem has_create2 (he : e.Mild) (hread : e.readsGas) (hraise : e.raisesGas)
    (hcall : ¬ e.msg.Static → ∀ m : Message, m.kind = .create2 → e.host (.call m))
    (h : e.Covers top 4 0) : Has e (create2 top) fun _ => True := by
  obtain ⟨hlo, hhi⟩ := h
  unfold create2
  dsimp only [StackTop.pop]
  have hgas := Has.readGas hread
  refine .bind (.prim .refuseStatic) fun _ hstatic => .bind (Has.load _ (by omega)) fun _ _ =>
    .bind (Has.load _ (by omega)) fun _ _ => .bind (.prim (.requireMemoryU256 _ _)) fun _ _ =>
    .bind (Has.load _ (by omega)) fun salt _ => .bind (Has.load _ (by omega)) fun size _ =>
    .bind hgas fun gas _ => .bind (.prim (.setGas _ ⟨hraise, hread⟩)) fun _ _ =>
    .bind hgas fun gas _ => ?_
  refine Built.ite (fun _ => Has.ret _ (by decide)) fun _ => ?_
  exact has_createMessage .create2 he hread hraise (hcall hstatic) _ (by omega) (by omega) (by omega)
    ⟨by omega, by omega⟩

/-- The check and the cost that `CALL` has alone. The state is read for the test of static mode. -/
theorem has_callExtraCost (he : e.Mild) (hasValue : Bool) (dst : Address) :
    Has e (do
      let isStatic ← Core.read executionStateInStaticMode
      if hasValue ∧ isStatic then ret .staticModeViolation
      if hasValue ∨ ¬ (← Core.read (·.rev)) ≥ .spuriousDragon then
        if !(← ask (.accountExists dst)) then return 25000
      return 0) ((0 : Int) ≤ ·) := by
  refine .bind (Has.read _ (fun _ _ => rfl) fun _ _ => rfl) fun isStatic _ => ?_
  refine Built.ite (fun _ => Has.ret _ (by decide)) fun _ => ?_
  refine .bind Has.readRev fun rev _ => ?_
  refine Built.ite (fun _ => ?_) fun _ => .pure (by decide)
  refine .bind (Has.ask he _ trivial) fun accountExists _ => ?_
  exact Built.ite (fun _ => .pure (by decide)) fun _ => .pure (by decide)

/-- `call` passes the flags of the message on, so that a static call stays static. -/
theorem has_call (he : e.Mild) (hread : e.readsGas) (hraise : e.raisesGas)
    (hcall : ∀ m : Message, m.kind = .call → m.flags = e.msg.flags → e.host (.call m))
    (h : e.Covers top 7 0) : Has e (call_ top) fun _ => True := by
  refine has_callVariant _ he hread hraise (fun _ _ _ _ _ => rfl)
    (fun state dst value msg hmsg m hkind hflags => ?_)
    (fun hasValue dst => ?_) h
  · exact hcall m hkind (by rw [hflags, ← hmsg])
  exact has_callExtraCost he hasValue dst

/-- `staticcall` sets the static flag itself. -/
theorem has_staticcall (he : e.Mild) (hread : e.readsGas) (hraise : e.raisesGas)
    (hcall : ∀ m : Message, m.kind = .call → m.flags = evmcStatic → e.host (.call m))
    (h : e.Covers top 6 0) : Has e (staticcall top) fun _ => True :=
  has_callVariant _ he hread hraise (fun _ _ _ _ _ => rfl)
    (fun _ _ _ _ _ m hkind hflags => hcall m hkind hflags)
    (fun _ _ => .pure (by decide)) h

/-- `delegatecall` keeps the sender, the value and the flags of the message. -/
theorem has_delegatecall (he : e.Mild) (hread : e.readsGas) (hraise : e.raisesGas)
    (hcall : ∀ m : Message, m.kind = .delegatecall → m.flags = e.msg.flags → e.host (.call m))
    (h : e.Covers top 6 0) : Has e (delegatecall top) fun _ => True :=
  has_callVariant _ he hread hraise (fun _ _ _ _ _ => rfl)
    (fun _ _ _ _ hmsg m hkind hflags => hcall m hkind (by rw [hflags, ← hmsg]))
    (fun _ _ => .pure (by decide)) h

/-- `callcode` runs the code of another account for the recipient of the message. -/
theorem has_callcode (he : e.Mild) (hread : e.readsGas) (hraise : e.raisesGas)
    (hcall : ∀ m : Message, m.kind = .callcode → m.flags = e.msg.flags → e.host (.call m))
    (h : e.Covers top 7 0) : Has e (callcode top) fun _ => True :=
  has_callVariant _ he hread hraise (fun _ _ _ _ _ => rfl)
    (fun _ _ _ _ hmsg m hkind hflags => hcall m hkind (by rw [hflags, ← hmsg]))
    (fun _ _ => .pure (by decide)) h

/-! ### The effects of each instruction function -/

/-- How many items of the stack the implementation of the function uses, and how many slots above
them. -/
def InstrFn.footprint : InstrFn → Nat × Nat
  | .opAdd | .opMul | .opSub | .opDiv | .opSdiv | .opMod | .opSmod | .opExp | .opSignextend | .opLt
  | .opGt | .opSlt | .opSgt | .opEq | .opAnd | .opOr | .opXor | .opByte | .opShl | .opShr | .opSar
  | .opKeccak256 | .opMstore | .opMstore8 | .opSstore | .opLog0 | .opReturn | .opRevert => (2, 0)
  | .opAddmod | .opMulmod | .opCalldatacopy | .opCodecopy | .opReturndatacopy | .opLog1
  | .opCreate => (3, 0)
  | .opIszero | .opNot | .opBalance | .opCalldataload | .opExtcodesize | .opExtcodehash
  | .opBlockhash | .opMload | .opSload | .opSelfdestruct => (1, 0)
  | .opAddress | .opOrigin | .opCaller | .opCallvalue | .opCalldatasize | .opCodesize | .opGasprice
  | .opReturndatasize | .opCoinbase | .opTimestamp | .opNumber | .opGaslimit | .opChainid
  | .opSelfbalance | .opBasefee | .opMsize | .opPush0 => (0, 1)
  | .opExtcodecopy | .opLog2 | .opCreate2 => (4, 0)
  | .opLog3 => (5, 0)
  | .opLog4 | .opDelegatecall | .opStaticcall => (6, 0)
  | .opCall | .opCallcode => (7, 0)
  | .opDup n => (n, 1)
  | .opSwap n => (n + 1, 0)
  | _ => (0, 0)

/-- The implementation of the function depends on the gas counter. -/
def InstrFn.readsGas : InstrFn → Prop
  | .opSstore | .opCreate | .opCall | .opCallcode | .opDelegatecall | .opCreate2 | .opStaticcall =>
    True
  | _ => False

/-- The implementation of the function can raise the gas counter. -/
def InstrFn.raisesGas : InstrFn → Prop
  | .opLog0 | .opLog1 | .opLog2 | .opLog3 | .opLog4 | .opSelfdestruct | .opCreate | .opCall
  | .opCallcode | .opDelegatecall | .opCreate2 | .opStaticcall => True
  | _ => False

/-- The implementation of the function sets the size of the output. -/
def InstrFn.setsOutput (fn : InstrFn) : Prop := fn = .opReturn ∨ fn = .opRevert

/-- The effects of the implementation of the function, from the stack top `top` on. -/
def InstrFn.effects (fn : InstrFn) (msg : Message) (top : Int) : Effects where
  lo := top + 1 - fn.footprint.1
  hi := top + fn.footprint.2
  msg := msg
  host := HostOp.AllowedIn msg
  readsGas := fn.readsGas
  raisesGas := fn.raisesGas
  setsOutput := fn.setsOutput

/-- The core implementation of a function of the shape has the effects `e`. -/
def Shape.Has (e : Effects) (top : Int) : Shape → Prop
  | .core _ body => TscVee.Has e (body top) fun _ => True
  | .corrected _ body => TscVee.Has e (body top) fun _ => True
  | .terminate body => TscVee.Has e (body top) fun _ => True
  | _ => True

omit [Env] in
/-- The range of the effects is the footprint of the function. -/
theorem InstrFn.effects_covers (fn : InstrFn) (msg : Message) (top : Int) :
    (fn.effects msg top).Covers top fn.footprint.1 fn.footprint.2 :=
  ⟨by simp only [effects]; omega, by simp only [effects]; omega⟩

/-- The requests that the implementation of the function may send. -/
def InstrFn.MayAsk (fn : InstrFn) : HostOp → Prop
  | .getStorage .. => fn = .opSload
  | .accessStorage .. => fn = .opSload ∨ fn = .opSstore
  | .setStorage .. => fn = .opSstore
  | .selfdestruct .. => fn = .opSelfdestruct
  | .emitLog .. => fn ∈ [.opLog0, .opLog1, .opLog2, .opLog3, .opLog4]
  | .call _ => fn ∈ [.opCall, .opCallcode, .opDelegatecall, .opStaticcall, .opCreate, .opCreate2]
  | _ => True

/-- Each implementation has every effects that cover the footprint of its function and allow its
requests. -/
theorem InstrFn.has_of (fn : InstrFn) (hdup : fn ≠ .opDup 0)
    (hcover : e.Covers top fn.footprint.1 fn.footprint.2) (hread : fn.readsGas → e.readsGas)
    (hraise : fn.raisesGas → e.raisesGas) (hset : fn.setsOutput → e.setsOutput)
    (hhost : ∀ op : HostOp, fn.MayAsk op → op.AllowedIn e.msg → e.host op) :
    fn.shape.Has e top := by
  -- The requests that every instruction may make.
  have he : e.Mild := by
    intro op hop
    cases op <;> first | exact hop.elim | exact hhost _ trivial trivial
  -- A call message is of another kind than the creations, and static when its caller is.
  have hcall : ∀ m : Message, fn.MayAsk (.call m) → m.kind ≠ .create → m.kind ≠ .create2 →
      (e.msg.Static → m.Static) → e.host (.call m) := fun m hask h1 h2 h3 =>
    hhost _ hask fun hs => ⟨h3 hs, h1, h2⟩
  -- One group for each shape of a body; the others have a lemma of their own.
  cases fn with
  | opAdd | opMul | opSub | opSignextend | opLt | opGt | opSlt | opSgt | opEq | opAnd | opOr | opXor
  | opByte | opShl | opShr | opSar => exact has_binary (fun _ _ => rfl) hcover
  | opDiv | opSdiv => exact has_binary divWord_isSome hcover
  | opMod | opSmod => exact has_binary modWord_isSome hcover
  | opAddmod | opMulmod => exact has_ternary (fun _ _ _ => divWord_isSome _ _) hcover
  | opExp => exact has_exp hcover
  | opIszero | opNot => exact has_unary _ hcover
  | opKeccak256 => exact has_keccak256 hcover
  | opAddress => exact has_address hcover
  | opBalance => exact has_balance he hcover
  | opOrigin => exact has_origin he hcover
  | opCoinbase => exact has_coinbase he hcover
  | opCaller | opCallvalue | opCalldatasize | opCodesize | opMsize =>
      exact has_pushRead _ (fun _ _ => rfl) (fun _ _ => rfl) hcover
  | opCalldataload => exact has_calldataload hcover
  | opCalldatacopy => exact has_calldatacopy hcover
  | opCodecopy => exact has_codecopy hcover
  | opGasprice | opTimestamp | opNumber | opGaslimit | opChainid | opBasefee =>
      exact has_pushTx he _ hcover
  | opExtcodesize => exact has_extcodesize he hcover
  | opExtcodecopy => exact has_extcodecopy he hcover
  | opReturndatasize =>
      exact has_pushValue (.bind has_returnDataLength fun _ _ => .pure trivial) hcover
  | opReturndatacopy => exact has_returndatacopy hcover
  | opExtcodehash => exact has_extcodehash he hcover
  | opBlockhash => exact has_blockhash he hcover
  | opSelfbalance => exact has_selfbalance he hcover
  | opPush0 => exact has_pushValue (.pure trivial) hcover
  | opDifficulty | opPop | opStop | opInvalid => exact .pure trivial
  | opMload => exact has_mload hcover
  | opMstore => exact has_mstore hcover
  | opMstore8 => exact has_mstore8 hcover
  -- The storage is read only, also in static mode.
  | opSload =>
      exact has_sload (fun _ _ => hhost _ (Or.inl rfl) trivial)
        (fun _ _ => hhost _ rfl trivial) hcover
  | opSstore =>
      exact has_sstore (fun _ _ => hhost _ (Or.inr rfl) trivial) (hread trivial)
        (fun h _ _ _ => hhost _ rfl h) hcover
  | opLog0 => exact has_log0 (hraise trivial) (fun h _ _ _ _ => hhost _ (by simp [MayAsk]) h) hcover
  | opLog1 | opLog2 | opLog3 | opLog4 =>
      exact has_logTopics _ (hraise trivial) (fun h _ _ _ _ => hhost _ (by simp [MayAsk]) h) hcover
  | opDup n =>
      cases n with
      | zero => exact absurd rfl hdup
      | succ n => exact has_dup _ (by omega) hcover
  | opSwap n => exact has_swap n hcover
  | opReturn => exact Built.weaken (has_return (hset (.inl rfl)) hcover) fun _ _ => trivial
  | opRevert => exact Built.weaken (has_revert (hset (.inr rfl)) hcover) fun _ _ => trivial
  | opSelfdestruct =>
      exact Built.weaken (has_selfdestruct he (hraise trivial) (fun h _ _ => hhost _ rfl h) hcover)
        fun _ _ => trivial
  | opCall =>
      refine has_call he (hread trivial) (hraise trivial) (fun m hkind hflags => ?_) hcover
      refine hcall m (by simp [MayAsk]) (by rw [hkind]; decide) (by rw [hkind]; decide) fun h => ?_
      rwa [Message.Static, hflags]
  | opCallcode =>
      refine has_callcode he (hread trivial) (hraise trivial) (fun m hkind hflags => ?_) hcover
      refine hcall m (by simp [MayAsk]) (by rw [hkind]; decide) (by rw [hkind]; decide) fun h => ?_
      rwa [Message.Static, hflags]
  | opDelegatecall =>
      refine has_delegatecall he (hread trivial) (hraise trivial) (fun m hkind hflags => ?_) hcover
      refine hcall m (by simp [MayAsk]) (by rw [hkind]; decide) (by rw [hkind]; decide) fun h => ?_
      rwa [Message.Static, hflags]
  -- The message has the static flag whatever the flags of the caller are.
  | opStaticcall =>
      refine has_staticcall he (hread trivial) (hraise trivial) (fun m hkind hflags => ?_) hcover
      refine hcall m (by simp [MayAsk]) (by rw [hkind]; decide) (by rw [hkind]; decide) fun _ => ?_
      rw [Message.Static, hflags]
      decide
  | opCreate =>
      exact has_create he (hread trivial) (hraise trivial)
        (fun h m _ => hhost _ (by simp [MayAsk]) fun hs => absurd hs h) hcover
  | opCreate2 =>
      exact has_create2 he (hread trivial) (hraise trivial)
        (fun h m _ => hhost _ (by simp [MayAsk]) fun hs => absurd hs h) hcover
  | opUndefined | opJump | opJumpi | opPc | opGas | opPushSmall | opPushFull | opxBeginblock =>
      trivial

/-- Each implementation has the effects of its function. -/
theorem InstrFn.has (fn : InstrFn) (hdup : fn ≠ .opDup 0) (msg : Message) (top : Int) :
    fn.shape.Has (fn.effects msg top) top :=
  fn.has_of hdup (fn.effects_covers msg top) id id id fun _ _ hop => hop

/-- What the parts of the implementations keep, those of all functions keep. -/
theorem Has.frame {α : Type} {x : Core α} {Q : α → Prop} (h : Has e x Q) :
    (frameContract e).Holds x Q := Built.holds (fun _ _ _ hp => prim_frame hp) h

end

end TscVee
