import TscVee.Execution
import TscVee.Proofs.MemoryGrowth

/-!
# `TscVee.Proofs.MemoryUse`: how much memory an instruction takes and what it pays

* `MemInstr`: the instructions that use EVM memory through one memory check, with the range that
  each is to use (`offset`, `len`) and what it costs besides the memory (`otherCost`).
* `quiet`: the contract of everything behind the check, which touches neither the size of the
  memory nor, but for one charge, the gas.
* `Takes`: the check makes the memory reach up to `checked`, and `otherCost` is charged.
  `sat_core` says so of each instruction.
* `memoryRule_iff`: for which operands that is what `MemoryRule` asks for.
-/

set_option autoImplicit false

namespace TscVee

open TscVee.Core Lib

/-- The instructions that use EVM memory through one memory check. -/
inductive MemInstr
  | mload | mstore | mstore8 | keccak256 | calldatacopy | codecopy | extcodecopy | returndatacopy
  | log0 | log1 | log2 | log3 | log4 | return_ | revert
  deriving DecidableEq, Repr

/-- The implementation. -/
def MemInstr.core [Env] : MemInstr → StackTop → Core Unit
  | .mload => TscVee.mload
  | .mstore => TscVee.mstore
  | .mstore8 => TscVee.mstore8
  | .keccak256 => TscVee.keccak256
  | .calldatacopy => TscVee.calldatacopy
  | .codecopy => TscVee.codecopy
  | .extcodecopy => TscVee.extcodecopy
  | .returndatacopy => TscVee.returndatacopy
  | .log0 => TscVee.log0
  | .log1 => TscVee.log1
  | .log2 => TscVee.log2
  | .log3 => TscVee.log3
  | .log4 => TscVee.log4
  | .return_ => fun top => do let _ ← TscVee.return_ top
  | .revert => fun top => do let _ ← TscVee.revert top

section
variable (i : MemInstr) (top : StackTop) (s : ExecutionState)

/-- The offset operand. -/
def MemInstr.offset : Nat :=
  (s.stackSpace (if i = .extcodecopy then top - 1 else top)).toNat

/-- The word with the size operand. -/
def MemInstr.sizeWord : Uint256 :=
  match i with
  | .calldatacopy | .codecopy | .returndatacopy => s.stackSpace (top - 2)
  | .extcodecopy => s.stackSpace (top - 3)
  | _ => s.stackSpace (top - 1)

/-- The number of bytes that the instruction is to use. -/
def MemInstr.len : Nat :=
  match i with
  | .mload | .mstore => 32
  | .mstore8 => 1
  | _ => (i.sizeWord top s).toNat

/-- The charge for a cold account, from Berlin on. -/
def coldCost (addr : Address) : Int :=
  if s.rev ≥ .berlin then
    match MockedHost.accessAccount addr s.hostCtx with
    | .ok .cold _ => additionalColdAccountAccessCost
    | _ => 0
  else 0

/-- What the instruction costs besides its base cost and the memory. -/
def MemInstr.otherCost : Int :=
  match i with
  | .keccak256 => 6 * ((i.len top s + 31) / 32)
  | .calldatacopy | .codecopy | .returndatacopy => 3 * ((i.len top s + 31) / 32)
  | .extcodecopy => 3 * ((i.len top s + 31) / 32) + coldCost s (u256ToU8_20 (s.stackSpace top))
  | .log0 | .log1 | .log2 | .log3 | .log4 => 8 * i.len top s
  | _ => 0

/-- The rule for the memory of an instruction: it grows just enough for the bytes that the
instruction uses, and not at all when these are none; the words are paid for; and `MSTORE8` changes
no other byte. -/
structure MemoryRule (s' : ExecutionState) : Prop where
  size : 0 < i.len top s → s'.memory.mSize =
    max s.memory.mSize (32 * ((i.offset top s + i.len top s + 31) / 32))
  empty : i.len top s = 0 → s'.memory.mSize = s.memory.mSize
  gas : s.gasLeft - s'.gasLeft = memoryPrice (s'.memory.mSize / 32) -
    memoryPrice (s.memory.mSize / 32) + i.otherCost top s
  byte : i = .mstore8 → ∀ data, s.memory.mData = some data → ∃ data',
    s'.memory.mData = some data' ∧ ∀ j, j < s'.memory.mSize → j ≠ i.offset top s →
      data' j = if j < s.memory.mSize then data j else 0

/-- The operands for which the instruction keeps the rule. -/
def MemInstr.Regular : Prop :=
  match i with
  | .mstore8 =>
    (i.offset top s % 32 = 0 ∨ i.offset top s + 32 ≤ s.memory.mSize) ∧
      ∀ data, s.memory.mData = some data → ∀ j, 1 ≤ j → j < 8 →
        u256Byte (s.stackSpace (top - 1)) (24 + j) =
          if i.offset top s + j < s.memory.mSize then data (i.offset top s + j) else 0
  | .codecopy | .log1 | .log2 | .log3 | .log4 =>
    i.len top s = 0 → i.offset top s ≤ s.memory.mSize
  | _ => True

/-- The size up to which the instruction checks the memory. -/
def MemInstr.checked : Nat :=
  match i with
  | .mload | .mstore | .mstore8 => i.offset top s + 32
  | .codecopy | .log1 | .log2 | .log3 | .log4 => i.offset top s + i.len top s
  | _ => if i.len top s = 0 then 0 else i.offset top s + i.len top s

end

/-! ### What follows a memory check -/

/-- The size of the memory and the gas are kept. -/
def Quiet (s s' : ExecutionState) : Prop :=
  s'.memory.mSize = s.memory.mSize ∧ s'.gasLeft = s.gasLeft

/-- A program that keeps the size of the memory and the gas, unless it ends the instruction. -/
def quiet : Contract Halt ExecutionState where
  inv _ := True
  rel := Quiet
  err _ _ _ := True
  refl _ := ⟨rfl, rfl⟩
  trans h h' := ⟨h'.1.trans h.1, h'.2.trans h.2⟩
  err_of_rel _ _ := trivial

/-- A program without a condition on its value. -/
abbrev IsQuiet {α : Type} (x : Core α) : Prop := quiet.Holds x fun _ => True

section
variable {α β : Type} {x : Core α} {f : α → Core β}

/-- Two quiet programs, one after the other. -/
theorem IsQuiet.bind (hx : IsQuiet x) (hf : ∀ a, IsQuiet (f a)) : IsQuiet (x >>= f) :=
  Contract.Holds.bind hx fun a _ => hf a

/-- A value is quiet. -/
theorem IsQuiet.pure (a : α) : IsQuiet (Pure.pure a : Core α) := Contract.Holds.pure trivial

/-- A branch is quiet when both sides are. -/
theorem IsQuiet.ite {c : Prop} [Decidable c] {y : Core α} (hx : IsQuiet x) (hy : IsQuiet y) :
    IsQuiet (if c then x else y) := by
  split
  · exact hx
  · exact hy

/-- A fault ends the instruction, and nothing is asked of the state after it. -/
theorem quiet_fault (f : Fault) : IsQuiet (Core.fault f : Core α) := fun _ _ => trivial

/-- Reading a field of the state is quiet. -/
theorem quiet_read (f : ExecutionState → α) : IsQuiet (Core.read f) :=
  fun _ _ => ⟨trivial, trivial, rfl, rfl⟩

/-- An update is quiet when it keeps the size of the memory and the gas. -/
theorem quiet_modify (f : ExecutionState → ExecutionState) (hf : ∀ s, Quiet s (f s)) :
    IsQuiet (modify f : Core PUnit) := fun s _ => ⟨trivial, trivial, hf s⟩

/-- Recording an event is quiet. -/
theorem quiet_log (e : Event) : IsQuiet (Core.log e) := fun _ _ => ⟨trivial, trivial, rfl, rfl⟩

/-- Taking an address for a new object is quiet. -/
theorem quiet_nextFresh : IsQuiet nextFresh := fun _ _ => ⟨trivial, trivial, rfl, rfl⟩

/-- Loading a word is quiet. -/
theorem quiet_load (p : Slot) : IsQuiet (load p) := by
  intro s _
  rw [sat_load]
  split
  · exact ⟨trivial, trivial, rfl, rfl⟩
  · trivial

/-- Storing a word is quiet, since the stack space is not the memory. -/
theorem quiet_store (p : Slot) (value : Uint256) : IsQuiet (store p value) := by
  intro s _
  rw [sat_store]
  split
  · exact ⟨trivial, trivial, rfl, rfl⟩
  · trivial

/-- A request to the host is quiet: the answer may change the host and never the gas of the caller.
-/
theorem quiet_ask (op : HostOp) : IsQuiet (ask op) := by
  intro s _
  rw [sat_ask]
  exact (sat_trivial _ _).mono (fun _ _ _ => ⟨trivial, trivial, rfl, rfl⟩) fun _ _ _ => trivial

/-- Recording a range is quiet, and a range that is not inside ends the instruction. -/
theorem quiet_access (offset len : Nat) : IsQuiet (access offset len) := by
  intro s _
  rw [sat_access]
  split
  · trivial
  · split
    · exact ⟨trivial, trivial, rfl, rfl⟩
    · trivial

/-- Reading EVM memory is quiet. -/
theorem quiet_readMemory (offset len : Nat) : IsQuiet (readMemory offset len) := by
  unfold readMemory
  exact .ite (.pure _) (.bind (quiet_access _ _) fun _ => .pure _)

/-- Writing EVM memory changes its bytes and not its size. -/
theorem quiet_writeMemory (offset : Nat) (bytes : List Byte) :
    IsQuiet (writeMemory offset bytes) := by
  unfold writeMemory
  exact .ite (.pure _) (.bind (quiet_access _ _) fun _ => quiet_modify _ fun _ => ⟨rfl, rfl⟩)

/-- Clearing EVM memory changes its bytes and not its size. -/
theorem quiet_clearMemory (offset len : Nat) : IsQuiet (clearMemory offset len) := by
  unfold clearMemory
  exact .ite (.pure _) (.bind (quiet_access _ _) fun _ => quiet_modify _ fun _ => ⟨rfl, rfl⟩)

/-- Reading the input is quiet. -/
theorem quiet_readInput (start n : Nat) : IsQuiet (readInput start n) := by
  unfold readInput
  exact .bind (quiet_read _) fun _ => .ite (.pure _) (.ite (.pure _) (quiet_fault _))

/-- Reading the code is quiet. -/
theorem quiet_readCode (start n : Nat) : IsQuiet (readCode start n) := by
  unfold readCode
  exact .bind (quiet_read _) fun _ => .ite (.pure _) (.ite (.pure _) (quiet_fault _))

/-- The length of the return data is read quietly, where it can be read at all. -/
theorem quiet_returnDataLength : IsQuiet returnDataLength := by
  unfold returnDataLength
  refine .bind (quiet_read _) fun returnData => ?_
  cases returnData with
  | none => exact quiet_fault _
  | some data => exact .pure _

/-- The topics are loaded quietly, by induction on their number. -/
theorem quiet_popTopics (n : Nat) (stack : StackTop) : IsQuiet (popTopics n stack) := by
  induction n generalizing stack with
  | zero => exact .pure _
  | succ n ih => exact .bind (quiet_load _) fun _ => .bind (ih _) fun _ => .pure _

/-- The scan for the end of a string reads the memory only. -/
theorem quiet_scanString [Env] (offset : Nat) : IsQuiet (scanString offset) := by
  unfold scanString
  refine .bind (quiet_read _) fun memory => ?_
  split
  · exact quiet_fault _
  · split
    · exact quiet_log _
    · exact .bind (quiet_log _) fun _ => .bind quiet_nextFresh fun _ =>
        .ite (quiet_fault _) (.pure _)

end

/-! ### The check and what follows it -/

section
variable {α : Type} {s : ExecutionState} {checked : Nat} {cost : Int}

/-- A program that ends normally keeps the size of the memory and takes `cost` from the gas. -/
def Spends (x : Core α) (s : ExecutionState) (cost : Int) : Prop :=
  Sat x s (fun _ s' => s'.memory.mSize = s.memory.mSize ∧ s'.gasLeft = s.gasLeft - cost)
    fun _ _ => True

/-- A program that ends normally makes the memory reach up to `checked`, pays for it, and takes
`cost` from the gas besides. -/
def Takes (x : Core α) (s : ExecutionState) (checked : Nat) (cost : Int) : Prop :=
  Sat x s (fun _ s' => checked + 31 < 2 ^ 64 ∧ ∃ s₂, Expanded s s₂ checked ∧
    s'.memory.mSize = s₂.memory.mSize ∧ s'.gasLeft = s₂.gasLeft - cost) fun _ _ => True

/-- A quiet program takes no gas. -/
theorem IsQuiet.spends {x : Core α} (hx : IsQuiet x) : Spends x s 0 :=
  (hx s trivial).mono (fun _ _ ⟨_, _, hsize, hgas⟩ => ⟨hsize, by rw [hgas, sub_zero]⟩)
    fun _ _ _ => trivial

/-- Something quiet in front. -/
theorem Spends.bind_quiet {β : Type} {x : Core β} {f : β → Core α} (hx : IsQuiet x)
    (hf : ∀ b s', Spends (f b) s' cost) : Spends (x >>= f) s cost := by
  rw [Spends, sat_bind]
  refine (hx s trivial).mono (fun b s' ⟨_, _, hsize, hgas⟩ => ?_) fun _ _ _ => trivial
  rw [← hsize, ← hgas]
  exact hf b s'

/-- A charge in front. -/
theorem Spends.bind_charge {f : Unit → Core α} (c : Int)
    (hf : ∀ s', s' = { s with gasLeft := s.gasLeft - c } → Spends (f ()) s' cost) :
    Spends (chargeGas c >>= f) s (c + cost) := by
  rw [Spends, sat_bind, sat_chargeGas]
  split
  · split
    · trivial
    · refine (hf _ rfl).mono (fun _ s' ⟨hsize, hgas⟩ => ⟨hsize, ?_⟩) fun _ _ _ => trivial
      rw [hgas]
      exact Int.sub_sub ..
  · trivial

/-- A loaded word is that of the slot. -/
theorem Spends.bind_load {p : Slot} {f : Uint256 → Core α}
    (hf : Spends (f (s.stackSpace p)) s cost) : Spends (load p >>= f) s cost := by
  rw [Spends, sat_bind, sat_load]
  split
  · exact hf
  · trivial

/-- A field that is read. -/
theorem Spends.bind_read {β : Type} {g : ExecutionState → β} {f : β → Core α}
    (hf : Spends (f (g s)) s cost) : Spends (Core.read g >>= f) s cost := hf

/-- Nothing follows an early return. -/
theorem Spends.bind_ret {β : Type} (status : StatusCode) {f : β → Core α} :
    Spends (Core.ret status >>= f) s cost := trivial

/-- A branch takes the same amount on both sides. -/
theorem Spends.ite {c : Prop} [Decidable c] {x y : Core α} (hx : Spends x s cost)
    (hy : Spends y s cost) : Spends (if c then x else y) s cost := by
  split
  · exact hx
  · exact hy

/-- A loaded word is that of the slot. -/
theorem Takes.bind_load {p : Slot} {f : Uint256 → Core α}
    (hf : Takes (f (s.stackSpace p)) s checked cost) : Takes (load p >>= f) s checked cost := by
  rw [Takes, sat_bind, sat_load]
  split
  · exact hf
  · trivial

variable [Env]

/-- The check of a fixed size in front of a program that spends `cost`. It makes the memory reach to
the end of the range, and the price of the growth is in `Expanded`. -/
theorem Takes.bind_requireU64 {offset : Uint256} {size : Nat} {f : Unit → Core α}
    (hsize : size < 2 ^ 63) (h32 : s.memory.mSize % 32 = 0)
    (hf : ∀ s₂, SameButMemory s s₂ → Spends (f ()) s₂ cost) :
    Takes (requireMemoryU64 offset size >>= f) s (offset.toNat + size) cost := by
  rw [Takes, sat_bind]
  refine (sat_requireMemoryU64_exact offset hsize h32).mono (fun _ s₂ ⟨hlt, hpass⟩ => ?_)
    fun _ _ _ => trivial
  exact (hf s₂ hpass.expanded.same).mono (fun _ s' h => ⟨by omega, s₂, hpass.expanded, h⟩)
    fun _ _ _ => trivial

/-- The check of a size in a word in front of a program that spends `cost`. An empty range is not
checked at all, so that the offset does not matter then. -/
theorem Takes.bind_requireU256 {offset size : Uint256} {f : Unit → Core α}
    (hsize : size.toNat < 2 ^ 63) (h32 : s.memory.mSize % 32 = 0)
    (hf : ∀ s₂, SameButMemory s s₂ → Spends (f ()) s₂ cost) :
    Takes (requireMemoryU256 offset size >>= f) s
      (if size.toNat = 0 then 0 else offset.toNat + size.toNat) cost := by
  have hlow : size.low = size.toNat := low_eq_toNat (by omega)
  rw [Takes, sat_bind]
  refine (sat_requireMemoryU256_exact offset size (by omega) h32).mono (fun _ s₂ h => ?_)
    fun _ _ _ => trivial
  rcases h with ⟨hzero, rfl⟩ | ⟨hzero, hlt, hpass⟩
  · rw [if_pos hzero]
    exact (hf s₂ rfl).mono (fun _ s' h => ⟨by decide, s₂,
      Expanded.of_le (Nat.zero_le _) (by decide) h32, h⟩) fun _ _ _ => trivial
  · rw [if_neg hzero, ← hlow]
    exact (hf s₂ hpass.expanded.same).mono (fun _ s' h => ⟨by omega, s₂, hpass.expanded, h⟩)
      fun _ _ _ => trivial

omit [Env] in
variable (cost) in
/-- The size and the cost may be replaced by equal ones. -/
theorem Takes.congr {x : Core α} {checked' : Nat} {cost' : Int} (h : Takes x s checked cost)
    (hchecked : checked = checked') (hcost : cost = cost') : Takes x s checked' cost' := by
  rwa [← hchecked, ← hcost]

/-! ### The instructions -/

variable {top : StackTop}

/-- MLOAD checks the 32 bytes from its offset. -/
theorem takes_mload (h32 : s.memory.mSize % 32 = 0) :
    Takes (mload top) s ((s.stackSpace top).toNat + 32) 0 := by
  unfold mload
  dsimp only [StackTop.top]
  refine .bind_load (.bind_requireU64 (by decide) h32 fun s₂ _ => ?_)
  exact .bind_quiet (quiet_load _) fun _ _ => .bind_quiet (quiet_readMemory _ _) fun _ _ =>
    (quiet_store _ _).spends

omit [Env] in
/-- Bytes are written at an offset that is loaded. -/
theorem quiet_writeAt (p : Slot) (bytes : List Byte) :
    IsQuiet (do writeMemory (← load p).low bytes) :=
  .bind (quiet_load _) fun _ => quiet_writeMemory _ _

/-- MSTORE checks the 32 bytes from its offset. -/
theorem takes_mstore (h32 : s.memory.mSize % 32 = 0) :
    Takes (mstore top) s ((s.stackSpace top).toNat + 32) 0 := by
  unfold mstore
  dsimp only [StackTop.pop]
  refine .bind_load (.bind_requireU64 (by decide) h32 fun s₂ _ => ?_)
  exact .bind_quiet (quiet_load _) fun value s₃ => (quiet_writeAt top _).spends

/-- MSTORE8 checks 32 bytes from its offset, as MSTORE does, although it stores one byte. -/
theorem takes_mstore8 (h32 : s.memory.mSize % 32 = 0) :
    Takes (mstore8 top) s ((s.stackSpace top).toNat + 32) 0 := by
  unfold mstore8
  dsimp only [StackTop.pop]
  refine .bind_load (.bind_requireU64 (by decide) h32 fun s₂ _ => ?_)
  exact .bind_quiet (quiet_load _) fun value s₃ => (quiet_writeAt top _).spends

omit [Env] in
/-- The words of a size that is a 32-bit number. -/
theorem words_of_size {x : Uint256} (h : x.toNat < 2 ^ 32) :
    x.low = x.toNat ∧ numWords x.low = (x.toNat + 31) / 32 := by
  have hlow := low_eq_toNat (x := x) (by omega)
  exact ⟨hlow, by rw [hlow, numWords_eq (by omega)]⟩

/-- KECCAK256 checks its range when it is not empty, and takes 6 for each word of it. -/
theorem takes_keccak256 (h32 : s.memory.mSize % 32 = 0)
    (hlen : (s.stackSpace (top - 1)).toNat < 2 ^ 32) :
    Takes (keccak256 top) s
      (if (s.stackSpace (top - 1)).toNat = 0 then 0
        else (s.stackSpace top).toNat + (s.stackSpace (top - 1)).toNat)
      (6 * (((s.stackSpace (top - 1)).toNat + 31) / 32)) := by
  unfold keccak256
  dsimp only [StackTop.pop, StackTop.top]
  refine .bind_load (.bind_load (.congr
    ((numWords (s.stackSpace (top - 1)).low * 6 : Nat) + 0)
    (.bind_requireU256 (by omega) h32 fun s₂ hs₂ => ?_) rfl ?_))
  -- Behind the check, the stack is the one before it.
  · have hstack : s₂.stackSpace = s.stackSpace := by rw [hs₂]
    refine .bind_load (.bind_load ?_)
    rw [hstack]
    refine .bind_charge _ fun s₃ _ => ?_
    have hstore : ∀ data, IsQuiet (store (top - 1)
        (readu256BE (sha3Finalize (sha3Update sha3Init256 data)))) := fun _ => quiet_store _ _
    -- The read and the write of the digest cost nothing.
    refine IsQuiet.spends (.ite ?_ ?_)
    · exact .bind (quiet_readMemory _ _) hstore
    · exact .bind (.pure _) hstore
  · rw [(words_of_size hlen).2]
    omega

omit [Env] in
/-- The third operand, as a pointer that is moved down twice. -/
theorem sub_one_sub_one (t : Int) : t - 1 - 1 = t - 2 := by omega

omit [Env] in
/-- The copy of some bytes, and the zeros behind them. -/
theorem quiet_copy {x : Core (List Byte)} (hx : IsQuiet x) (dst zeros len : Nat) :
    IsQuiet (do let data ← x; writeMemory dst data; clearMemory zeros len) :=
  .bind hx fun _ => .bind (quiet_writeMemory _ _) fun _ => quiet_clearMemory _ _

/-- CALLDATACOPY checks its range when it is not empty, and takes 3 for each word of it. -/
theorem takes_calldatacopy (h32 : s.memory.mSize % 32 = 0)
    (hlen : (s.stackSpace (top - 2)).toNat < 2 ^ 32) :
    Takes (calldatacopy top) s
      (if (s.stackSpace (top - 2)).toNat = 0 then 0
        else (s.stackSpace top).toNat + (s.stackSpace (top - 2)).toNat)
      (3 * (((s.stackSpace (top - 2)).toNat + 31) / 32)) := by
  unfold calldatacopy
  dsimp only [StackTop.pop]
  rw [sub_one_sub_one]
  refine .bind_load (.bind_load (.congr
    ((numWords (s.stackSpace (top - 2)).low * 3 : Nat) + 0)
    (.bind_requireU256 (by omega) h32 fun s₂ hs₂ => ?_) rfl ?_))
  · have hstack : s₂.stackSpace = s.stackSpace := by rw [hs₂]
    refine .bind_read (.bind_load (.bind_load (.bind_load ?_)))
    rw [hstack]
    exact .bind_charge _ fun s₃ _ => (quiet_copy (quiet_readInput _ _) _ _ _).spends
  · rw [(words_of_size hlen).2]
    omega

/-- CODECOPY checks its range, also the empty one, and takes 3 for each word of it. -/
theorem takes_codecopy (h32 : s.memory.mSize % 32 = 0)
    (hlen : (s.stackSpace (top - 2)).toNat < 2 ^ 32) :
    Takes (codecopy top) s ((s.stackSpace top).toNat + (s.stackSpace (top - 2)).toNat)
      (3 * (((s.stackSpace (top - 2)).toNat + 31) / 32)) := by
  unfold codecopy
  dsimp only [StackTop.pop]
  rw [sub_one_sub_one]
  refine .bind_load (.bind_load (.congr
    ((numWords (s.stackSpace (top - 2)).low * 3 : Nat) + 0)
    (.bind_requireU64 (by rw [(words_of_size hlen).1]; omega) h32 fun s₂ hs₂ => ?_)
    (by rw [(words_of_size hlen).1]) ?_))
  · have hstack : s₂.stackSpace = s.stackSpace := by rw [hs₂]
    refine .bind_read (.bind_load (.bind_load (.bind_load ?_)))
    rw [hstack]
    exact .bind_charge _ fun s₃ _ => (quiet_copy (quiet_readCode _ _) _ _ _).spends
  · rw [(words_of_size hlen).2]
    omega

/-- RETURNDATACOPY checks its range when it is not empty, and takes 3 for each word of it. -/
theorem takes_returndatacopy (h32 : s.memory.mSize % 32 = 0)
    (hlen : (s.stackSpace (top - 2)).toNat < 2 ^ 32) :
    Takes (returndatacopy top) s
      (if (s.stackSpace (top - 2)).toNat = 0 then 0
        else (s.stackSpace top).toNat + (s.stackSpace (top - 2)).toNat)
      (3 * (((s.stackSpace (top - 2)).toNat + 31) / 32)) := by
  unfold returndatacopy
  dsimp only [StackTop.pop]
  rw [sub_one_sub_one]
  refine .bind_load (.bind_load (.congr
    ((numWords (s.stackSpace (top - 2)).low * 3 : Nat) + 0)
    (.bind_requireU256 (by omega) h32 fun s₂ hs₂ => ?_) rfl ?_))
  -- Behind the check, the stack is the one before it.
  · have hstack : s₂.stackSpace = s.stackSpace := by rw [hs₂]
    refine .bind_load (.bind_load ?_)
    rw [hstack]
    refine .bind_quiet quiet_returnDataLength fun length s₃ => .bind_quiet (quiet_load _)
      fun x s₄ => ?_
    -- The two comparisons with the length end the run or cost nothing.
    refine .ite (.bind_ret _) (.ite (.bind_ret _) (.bind_charge _ fun s₅ _ => IsQuiet.spends ?_))
    refine .bind (quiet_read _) fun data => .ite (.bind (quiet_fault _) fun _ => ?_) ?_
    all_goals exact quiet_writeMemory _ _
  · rw [(words_of_size hlen).2]
    omega

omit [Env] in
/-- The charge for a cold account depends on the revision and the host only. -/
theorem coldCost_congr {s' : ExecutionState} (addr : Address) (hrev : s'.rev = s.rev)
    (hhost : s'.hostCtx = s.hostCtx) : coldCost s' addr = coldCost s addr := by
  rw [coldCost, coldCost, hrev, hhost]

omit [Env] in
/-- The charge for a cold account. -/
theorem Spends.bind_cold {addr : Address} {f : Unit → Core α}
    (hf : ∀ s', Spends (f ()) s' cost) :
    Spends (chargeColdAccount addr additionalColdAccountAccessCost >>= f) s
      (coldCost s addr + cost) := by
  unfold chargeColdAccount coldCost
  rw [Spends, sat_bind, sat_bind, sat_read, sat_ite]
  refine ⟨fun hberlin => ?_, fun hberlin => ?_⟩
  · rw [if_pos hberlin, sat_bind, sat_ask]
    simp only [HostOp.serve, sat_ite, sat_pure]
    unfold Sat
    cases MockedHost.accessAccount addr s.hostCtx with
    | error f host => trivial
    -- Cold or warm, as the host answers.
    | ok status host =>
        refine ⟨fun hcold => ?_, fun hwarm => ?_⟩
        · subst hcold
          have hcharge := Spends.bind_charge (f := f)
            (s := { s with hostCtx := host, trace := s.trace ++ [.host (.accessAccount addr)] })
            additionalColdAccountAccessCost fun s' _ => hf s'
          rwa [Spends, sat_bind] at hcharge
        · cases status with
          | cold => exact absurd rfl hwarm
          | warm =>
              have hrest := hf { s with
                hostCtx := host, trace := s.trace ++ [.host (.accessAccount addr)] }
              rw [zero_add]
              exact hrest
  -- Before Berlin nothing is charged.
  · rw [if_neg hberlin, zero_add]
    exact hf s

/-- EXTCODECOPY checks its range when it is not empty, takes 3 for each word of it, and the charge
for a cold account. -/
theorem takes_extcodecopy (h32 : s.memory.mSize % 32 = 0)
    (hlen : (s.stackSpace (top - 3)).toNat < 2 ^ 32) :
    Takes (extcodecopy top) s
      (if (s.stackSpace (top - 3)).toNat = 0 then 0
        else (s.stackSpace (top - 1)).toNat + (s.stackSpace (top - 3)).toNat)
      (3 * (((s.stackSpace (top - 3)).toNat + 31) / 32) +
        coldCost s (u256ToU8_20 (s.stackSpace top))) := by
  unfold extcodecopy
  dsimp only [StackTop.pop]
  rw [show ∀ t : Int, t - 1 - 1 - 1 = t - 3 by omega, sub_one_sub_one]
  refine .bind_load (.bind_load (.bind_load (.congr
    ((numWords (s.stackSpace (top - 3)).low * 3 : Nat) +
      (coldCost s (u256ToU8_20 (s.stackSpace top)) + 0))
    (.bind_requireU256 (by omega) h32 fun s₂ hs₂ => ?_) rfl ?_)))
  · have hstack : s₂.stackSpace = s.stackSpace := by rw [hs₂]
    refine .bind_load ?_
    rw [hstack]
    refine .bind_charge _ fun s₃ hs₃ => ?_
    -- The host is the same at the charge as at the start.
    have hcold : coldCost s (u256ToU8_20 (s.stackSpace top)) =
        coldCost s₃ (u256ToU8_20 (s.stackSpace top)) :=
      (coldCost_congr _ (by rw [hs₃, hs₂]) (by rw [hs₃, hs₂])).symm
    rw [hcold]
    refine .bind_cold fun s₄ => IsQuiet.spends (.ite ?_ (.pure _))
    refine .bind (quiet_load _) fun _ => .bind (quiet_load _) fun _ => .bind (quiet_ask _) fun _ => ?_
    exact .ite (.bind (quiet_scanString _) fun _ => quiet_clearMemory _ _) (quiet_clearMemory _ _)
  · rw [(words_of_size hlen).2]
    omega

omit [Env] in
/-- The charge for the bytes of a log. -/
theorem Spends.bind_logCharge {size : Uint256} {f : Unit → Core α} (hlen : size.toNat < 2 ^ 32)
    (hf : ∀ s', Spends (f ()) s' cost) :
    Spends (int64 (toInt64 size.low * 8) >>= fun c => chargeGas c >>= f) s
      (8 * size.toNat + cost) := by
  have hsize : toInt64 size.low = size.toNat := by
    rw [(words_of_size hlen).1, toInt64, Int.bmod_eq_of_le] <;> omega
  rw [hsize, Spends, sat_bind, sat_int64]
  split
  · rw [Int.mul_comm 8]
    exact Spends.bind_charge _ fun s' _ => hf s'
  · trivial

/-- The request to log the bytes. -/
theorem quiet_emitLog (o len : Nat) (topics : List Bytes32) :
    IsQuiet (do
      let data ← readMemory o len
      let vectorEmpty := Env.wildVectorEmpty (← nextFresh)
      ask (.emitLog (← Core.read (·.msg)).recipient data topics vectorEmpty)) :=
  .bind (quiet_readMemory _ _) fun _ => .bind quiet_nextFresh fun _ => .bind (quiet_read _) fun _ =>
    quiet_ask _

/-- LOG0 checks its range when it is not empty, and takes 8 for each byte of it. -/
theorem takes_log0 (h32 : s.memory.mSize % 32 = 0)
    (hlen : (s.stackSpace (top - 1)).toNat < 2 ^ 32) :
    Takes (log0 top) s
      (if (s.stackSpace (top - 1)).toNat = 0 then 0
        else (s.stackSpace top).toNat + (s.stackSpace (top - 1)).toNat)
      (8 * (s.stackSpace (top - 1)).toNat) := by
  unfold log0
  dsimp only [StackTop.pop]
  rw [Takes, sat_bind, sat_refuseStatic]
  split
  · trivial
  refine Takes.bind_load (.bind_load (.congr (8 * (s.stackSpace (top - 1)).toNat + 0)
    (.bind_requireU256 (by omega) h32 fun s₂ hs₂ => ?_) rfl (add_zero _)))
  have hstack : s₂.stackSpace = s.stackSpace := by rw [hs₂]
  refine .bind_load (.bind_load ?_)
  rw [hstack]
  exact .bind_logCharge hlen fun s₃ => (quiet_emitLog _ _ _).spends

/-- The logs with topics check their range, also the empty one, and take 8 for each byte of it. -/
theorem takes_logTopics (n : Nat) (h32 : s.memory.mSize % 32 = 0)
    (hlen : (s.stackSpace (top - 1)).toNat < 2 ^ 32) :
    Takes (logTopics n top) s ((s.stackSpace top).toNat + (s.stackSpace (top - 1)).toNat)
      (8 * (s.stackSpace (top - 1)).toNat) := by
  unfold logTopics
  dsimp only [StackTop.pop]
  rw [Takes, sat_bind, sat_read, sat_ite]
  refine ⟨fun _ => trivial, fun _ => ?_⟩
  refine Takes.bind_load (.bind_load (.congr (8 * (s.stackSpace (top - 1)).toNat + 0)
    (.bind_requireU64 (by rw [(words_of_size hlen).1]; omega) h32 fun s₂ hs₂ => ?_)
    (by rw [(words_of_size hlen).1]) (add_zero _)))
  have hstack : s₂.stackSpace = s.stackSpace := by rw [hs₂]
  refine .bind_load (.bind_load ?_)
  rw [hstack]
  refine .bind_logCharge hlen fun s₃ => IsQuiet.spends ?_
  refine .bind (quiet_popTopics _ _) fun _ => .bind quiet_nextFresh fun _ => ?_
  exact .ite (.bind (quiet_fault _) fun _ => quiet_emitLog _ _ _) (quiet_emitLog _ _ _)

/-- RETURN and REVERT check the range of the output when it is not empty. -/
theorem takes_publishOutput (h32 : s.memory.mSize % 32 = 0)
    (hlen : (s.stackSpace (top - 1)).toNat < 2 ^ 32) :
    Takes (publishOutput top) s
      (if (s.stackSpace (top - 1)).toNat = 0 then 0
        else (s.stackSpace top).toNat + (s.stackSpace (top - 1)).toNat) 0 := by
  unfold publishOutput
  dsimp only [StackTop.get]
  rw [sub_zero]
  refine .bind_load (.bind_load (.bind_requireU256 (by omega) h32 fun s₂ _ => ?_))
  refine .bind_quiet (quiet_load _) fun size s₃ => IsQuiet.spends ?_
  refine .bind (quiet_modify _ fun _ => ⟨rfl, rfl⟩) fun _ => .ite ?_ (.pure _)
  refine .bind (quiet_load _) fun _ => .bind (quiet_modify _ fun _ => ⟨rfl, rfl⟩) fun _ => ?_
  exact .bind (quiet_read _) fun _ => quiet_log _

omit [Env] in
/-- `return_` and `revert` end with a status. -/
theorem Takes.bind_pure {β : Type} {x : Core α} (h : Takes x s checked cost) (f : α → β) :
    Takes (x >>= fun a => pure (f a)) s checked cost := by
  rw [Takes, sat_bind]
  exact h

/-- Each instruction takes the memory that it checks, and pays for it and for the rest. -/
theorem takes_core (i : MemInstr) (h32 : s.memory.mSize % 32 = 0)
    (hlen : i.len top s < 2 ^ 32) :
    Takes (i.core top) s (i.checked top s) (i.otherCost top s) := by
  cases i with
  | mload => exact takes_mload h32
  | mstore => exact takes_mstore h32
  | mstore8 => exact takes_mstore8 h32
  | keccak256 => exact takes_keccak256 h32 hlen
  | calldatacopy => exact takes_calldatacopy h32 hlen
  | codecopy => exact takes_codecopy h32 hlen
  | extcodecopy => exact takes_extcodecopy h32 hlen
  | returndatacopy => exact takes_returndatacopy h32 hlen
  | log0 => exact takes_log0 h32 hlen
  | log1 => exact takes_logTopics 1 h32 hlen
  | log2 => exact takes_logTopics 2 h32 hlen
  | log3 => exact takes_logTopics 3 h32 hlen
  | log4 => exact takes_logTopics 4 h32 hlen
  | return_ =>
      exact ((takes_publishOutput h32 hlen).bind_pure fun _ => StatusCode.success).bind_pure
        fun _ => ()
  | revert =>
      exact ((takes_publishOutput h32 hlen).bind_pure fun _ => StatusCode.revert).bind_pure
        fun _ => ()

/-! ### The rule -/

/-- The size and the gas after an instruction that succeeds. -/
theorem core_ok {i : MemInstr} {s' : ExecutionState} (h32 : s.memory.mSize % 32 = 0)
    (hlen : i.len top s < 2 ^ 32) (h : i.core top s = .ok () s') :
    s'.memory.mSize = max s.memory.mSize (32 * ((i.checked top s + 31) / 32)) ∧
      s.gasLeft - s'.gasLeft = memoryPrice (s'.memory.mSize / 32) -
        memoryPrice (s.memory.mSize / 32) + i.otherCost top s := by
  obtain ⟨hwrap, s₂, hexp, hsize, hgas⟩ := (takes_core i h32 hlen).of_ok h
  have hsize₂ := hexp.size
  have hgas₂ := hexp.gas
  rw [numWords_eq hwrap] at hsize₂
  rw [hsize]
  exact ⟨hsize₂, by omega⟩

/-- The bytes after an `MSTORE8`: eight of them are those of the low limb of the value. -/
theorem mstore8_ok {s' : ExecutionState} (h32 : s.memory.mSize % 32 = 0)
    (h : mstore8 top s = .ok () s') :
    (s.stackSpace top).toNat + 8 ≤ s'.memory.mSize ∧
      ∀ data, s.memory.mData = some data → ∃ data', s'.memory.mData = some data' ∧
        ∀ j, j < s'.memory.mSize → data' j =
          if (s.stackSpace top).toNat ≤ j ∧ j < (s.stackSpace top).toNat + 8 then
            u256Byte (s.stackSpace (top - 1)) (24 + (j - (s.stackSpace top).toNat))
          else if j < s.memory.mSize then data j else 0 := by
  -- Stated of every normal end, so that the rules of the steps apply.
  suffices hsat : Sat (mstore8 top) s (fun _ s' => (s.stackSpace top).toNat + 8 ≤ s'.memory.mSize ∧
      ∀ data, s.memory.mData = some data → ∃ data', s'.memory.mData = some data' ∧
        ∀ j, j < s'.memory.mSize → data' j =
          if (s.stackSpace top).toNat ≤ j ∧ j < (s.stackSpace top).toNat + 8 then
            u256Byte (s.stackSpace (top - 1)) (24 + (j - (s.stackSpace top).toNat))
          else if j < s.memory.mSize then data j else 0) fun _ _ => True from hsat.of_ok h
  -- The eight bytes are the low ones of the word.
  have hget : ∀ (x : Uint256) i, i < 8 → (u256ToU8_8 x).toList.getD i 0 = u256Byte x (24 + i) := by
    intro x i hi
    rw [List.getD_eq_getElem?_getD, Vector.getElem?_toList, u256ToU8_8, Vector.getElem?_ofFn,
      dif_pos hi, Option.getD_some, Nat.add_comm]
  have hlength : ∀ x : Uint256, (u256ToU8_8 x).toList.length = 8 := fun _ => Vector.length_toList
  unfold mstore8
  simp only [sat_bind, sat_load, StackTop.pop]
  split
  case isFalse => trivial
  -- The check is for 32 bytes, of which eight are written.
  refine (sat_requireMemoryU64_exact _ (by decide) h32).mono (fun _ s₂ ⟨hlt, hpass⟩ => ?_)
    fun _ _ _ => trivial
  have hexp := hpass.expanded
  have hstack : s₂.stackSpace = s.stackSpace := by rw [hexp.same]
  have hsize := hexp.size
  have hcover := le_numWords (n := (s.stackSpace top).toNat + 32) (by omega)
  rw [hstack, low_eq_toNat (x := s.stackSpace top) (by omega)]
  have hget := hget (s.stackSpace (top - 1))
  have hlength := hlength (s.stackSpace (top - 1))
  generalize (u256ToU8_8 (s.stackSpace (top - 1))).toList = bytes at hget hlength ⊢
  split
  case isFalse => trivial
  have hne : ¬ bytes.isEmpty = true := by
    rw [List.isEmpty_iff_length_eq_zero, hlength]
    decide
  rw [sat_writeMemory, if_neg hne, sat_access, hlength]
  split
  case h_1 => trivial
  case h_2 data₂ hdata₂ =>
  split
  case isFalse => trivial
  case isTrue hin =>
  -- Inside of the range are the bytes of the word, outside those from before or zeros.
  refine ⟨hin, fun data hdata => ⟨_, rfl, fun j hj => ?_⟩⟩
  obtain ⟨data', hdata', hkeep⟩ := hexp.data data hdata
  rw [hdata₂] at hdata'
  obtain rfl := Option.some.inj hdata'
  split
  case isTrue hrange => exact hget _ (by omega)
  case isFalse => exact hkeep j hj

/-- An instruction other than `MSTORE8` that checks just the bytes it uses keeps the rule. -/
theorem memoryRule_of_checked {i : MemInstr} {s' : ExecutionState} (h32 : s.memory.mSize % 32 = 0)
    (hlen : i.len top s < 2 ^ 32) (hne : i ≠ .mstore8)
    (hchecked : i.checked top s = if i.len top s = 0 then 0 else i.offset top s + i.len top s)
    (h : i.core top s = .ok () s') : MemoryRule i top s s' := by
  obtain ⟨hsize, hgas⟩ := core_ok h32 hlen h
  refine ⟨fun hpos => ?_, fun hzero => ?_, hgas, fun heq => absurd heq hne⟩
  · rw [hsize, hchecked, if_neg (by omega)]
  · rw [hsize, hchecked, if_pos hzero]
    omega

/-- An instruction that checks its bytes also when there are none keeps the rule exactly when it has
some, or its offset lies in the memory. -/
theorem memoryRule_iff_of_checked {i : MemInstr} {s' : ExecutionState}
    (h32 : s.memory.mSize % 32 = 0) (hlen : i.len top s < 2 ^ 32) (hne : i ≠ .mstore8)
    (hchecked : i.checked top s = i.offset top s + i.len top s)
    (h : i.core top s = .ok () s') :
    MemoryRule i top s s' ↔ (i.len top s = 0 → i.offset top s ≤ s.memory.mSize) := by
  obtain ⟨hsize, hgas⟩ := core_ok h32 hlen h
  constructor
  · intro hrule hzero
    have hempty := hrule.empty hzero
    rw [hsize, hchecked, hzero] at hempty
    omega
  · intro hfits
    refine ⟨fun hpos => ?_, fun hzero => ?_, hgas, fun heq => absurd heq hne⟩
    · rw [hsize, hchecked]
    · have hle := hfits hzero
      rw [hsize, hchecked, hzero]
      omega

/-- `MSTORE8` checks 32 bytes and writes eight. -/
theorem memoryRule_mstore8 {s' : ExecutionState} (h32 : s.memory.mSize % 32 = 0)
    (h : mstore8 top s = .ok () s') :
    MemoryRule .mstore8 top s s' ↔ MemInstr.mstore8.Regular top s := by
  obtain ⟨hsize, hgas⟩ := core_ok (i := .mstore8) h32 (show (1 : Nat) < 2 ^ 32 by decide) h
  obtain ⟨hin, hbytes⟩ := mstore8_ok h32 h
  have hoffset : MemInstr.mstore8.offset top s = (s.stackSpace top).toNat := rfl
  have hchecked : MemInstr.mstore8.checked top s = (s.stackSpace top).toNat + 32 := rfl
  have hlen : MemInstr.mstore8.len top s = 1 := rfl
  rw [hchecked] at hsize
  unfold MemInstr.Regular
  rw [hoffset]
  constructor
  -- The rule asks for one byte; what is written and checked beyond it must not show.
  · intro hrule
    have hrulesize := hrule.size (by rw [hlen]; decide)
    rw [hoffset, hlen, hsize] at hrulesize
    refine ⟨by omega, fun data hdata j hj hj8 => ?_⟩
    obtain ⟨data₁, hdata₁, hsame⟩ := hrule.byte rfl data hdata
    obtain ⟨data₂, hdata₂, hwritten⟩ := hbytes data hdata
    rw [hdata₁] at hdata₂
    obtain rfl := Option.some.inj hdata₂
    have h₁ := hsame ((s.stackSpace top).toNat + j) (by omega) (by rw [hoffset]; omega)
    have h₂ := hwritten ((s.stackSpace top).toNat + j) (by omega)
    rw [if_pos (by omega), Nat.add_sub_cancel_left] at h₂
    exact h₂.symm.trans h₁
  -- An aligned word is checked either way, and the seven bytes behind are written with what is
  -- there.
  · rintro ⟨haligned, hneighbours⟩
    refine ⟨fun _ => ?_, fun hzero => absurd hzero (by rw [hlen]; decide), hgas,
      fun _ data hdata => ?_⟩
    · rw [hoffset, hlen, hsize]
      omega
    · obtain ⟨data', hdata', hwritten⟩ := hbytes data hdata
      refine ⟨data', hdata', fun j hj hne => ?_⟩
      rw [hwritten j hj]
      split
      case isTrue hrange =>
        rw [hoffset] at hne
        have hneighbour := hneighbours data hdata (j - (s.stackSpace top).toNat) (by omega) (by omega)
        rw [Nat.add_sub_cancel' hrange.1] at hneighbour
        exact hneighbour
      case isFalse => rfl

/-- Where an instruction with a size below `2 ^ 32` succeeds, it keeps the rule exactly for the
regular operands. -/
theorem memoryRule_iff (i : MemInstr) {s' : ExecutionState} (h32 : s.memory.mSize % 32 = 0)
    (hlen : i.len top s < 2 ^ 32) (h : i.core top s = .ok () s') :
    MemoryRule i top s s' ↔ i.Regular top s := by
  cases i with
  | mstore8 => exact memoryRule_mstore8 h32 h
  | codecopy | log1 | log2 | log3 | log4 =>
      exact memoryRule_iff_of_checked h32 hlen (by decide) rfl h
  | mload | mstore =>
      exact iff_of_true (memoryRule_of_checked h32 hlen (by decide) rfl h) trivial
  | keccak256 | calldatacopy | extcodecopy | returndatacopy | log0 | return_ | revert =>
      exact iff_of_true (memoryRule_of_checked h32 hlen (by decide) rfl h) trivial

end

/-- A state with 32 zero bytes of memory and the given two top items in the slots 1 and 0. -/
def wordState [Env] (offset value : U64) : ExecutionState :=
  let s := executionStateInitV { (default : Message) with gas := 100 } .london
    (mockedHostInit default) []
  { s with
    memory := { s.memory with mData := some fun _ => 0, mSize := 32 }
    stackSpace := fun p => if p = 1 then .ofU64 offset else if p = 0 then .ofU64 value else .zero }

/-- The output of `RETURN` is the first word of the memory. -/
theorem memoryRule_iff_return :
    let _ : Env := Env.zeroed
    ∃ s', MemInstr.return_.core 1 (wordState 0 32) = .ok () s' ∧
      (MemoryRule .return_ 1 (wordState 0 32) s' ↔ MemInstr.return_.Regular 1 (wordState 0 32)) := by
  intro _
  obtain ⟨⟨⟩, s', h⟩ := exists_of_endsOk (x := MemInstr.return_.core 1) (s := wordState 0 32)
    (by decide)
  exact ⟨s', h, memoryRule_iff .return_ (by decide) (by decide) h⟩

/-- `PUSH1 0 PUSH1 0 PUSH1 64 CODECOPY`: no byte of the code is copied to the offset 64. -/
def copyNothingCode : List Byte := [0x60, 0, 0x60, 0, 0x60, 64, 0x39]

/-- The run of `copyNothingCode` behind its `BEGINBLOCK` and the three pushes, with 100 gas. -/
def copyNothingRun [Env] : Config :=
  iterate (stepInstr (analyzeCode .london copyNothingCode)) 4
    (initialConfig .london (mockedHostInit default) { (default : Message) with gas := 100 }
      copyNothingCode)

/-- A `CODECOPY` of nothing to an offset behind the memory grows it. -/
theorem codecopy_empty {s : ExecutionState} [Env] {top : StackTop} (h32 : s.memory.mSize % 32 = 0)
    (hends : endsOk (codecopy top) s = true) (hlen : MemInstr.codecopy.len top s = 0)
    (hpast : s.memory.mSize < MemInstr.codecopy.offset top s) :
    ∃ s', MemInstr.codecopy.core top s = .ok () s' ∧
      MemInstr.codecopy.offset top s ≤ s'.memory.mSize ∧ ¬ MemoryRule .codecopy top s s' := by
  obtain ⟨⟨⟩, s', h⟩ := exists_of_endsOk hends
  have hgrown := (core_ok (i := .codecopy) h32 (by rw [hlen]; decide) h).1
  have hchecked : MemInstr.codecopy.checked top s = MemInstr.codecopy.offset top s := by
    show MemInstr.codecopy.offset top s + MemInstr.codecopy.len top s = _
    rw [hlen, Nat.add_zero]
  rw [hchecked] at hgrown
  refine ⟨s', h, by omega, fun hrule => ?_⟩
  have hempty := hrule.empty hlen
  omega

/-- The `CODECOPY` that is to run there copies nothing, and grows the memory to its offset. -/
theorem memoryRule_iff_codecopy :
    let _ : Env := Env.zeroed
    (copyNothingRun.pc = .at 4 ∧ copyNothingRun.astate.topItem = 2 ∧
      ((analyzeCode .london copyNothingCode).instrs[4]?).bind (·.fn) = some .opCodecopy) ∧
      (MemInstr.codecopy.offset 2 copyNothingRun.astate.estate = 64 ∧
        MemInstr.codecopy.len 2 copyNothingRun.astate.estate = 0 ∧
        copyNothingRun.astate.estate.memory.mSize = 0) ∧
      ∃ s', MemInstr.codecopy.core 2 copyNothingRun.astate.estate = .ok () s' ∧
        MemInstr.codecopy.offset 2 copyNothingRun.astate.estate ≤ s'.memory.mSize ∧
        ¬ MemoryRule .codecopy 2 copyNothingRun.astate.estate s' := by
  intro _
  have hplace : copyNothingRun.pc = .at 4 ∧ copyNothingRun.astate.topItem = 2 ∧
      ((analyzeCode .london copyNothingCode).instrs[4]?).bind (·.fn) = some .opCodecopy := by
    with_unfolding_all decide
  have hoperands : MemInstr.codecopy.offset 2 copyNothingRun.astate.estate = 64 ∧
      MemInstr.codecopy.len 2 copyNothingRun.astate.estate = 0 ∧
      copyNothingRun.astate.estate.memory.mSize = 0 := by with_unfolding_all decide
  have hends : endsOk (codecopy 2) copyNothingRun.astate.estate = true := by with_unfolding_all decide
  refine ⟨hplace, hoperands, ?_⟩
  obtain ⟨hoffset, hlen, hsize⟩ := hoperands
  exact codecopy_empty (by rw [hsize]) hends hlen (by rw [hoffset, hsize]; decide)

end TscVee
