import TscVee.Proofs.CreateEffect
import TscVee.Proofs.HostAnswers
import TscVee.Proofs.MemoryTrace
import TscVee.Proofs.MemoryUse

/-!
# `TscVee.Proofs.MemorySafety`: which operands keep an instruction inside of EVM memory

A memory check computes the end of the range in 64 bits, and looks at the low limb of the size
only. So a range whose end wraps passes the check for another one, an end behind the last word wraps
when it is rounded, and the price of a large range does not fit into `int64_t`. `CheckFits` collects
the operands of each instruction for which its check does not wrap, and `Fits` those for which the
uses of the memory stay inside of it. `KECCAK256` reads as many bytes as the range has words, and
`EXTCODECOPY` scans the memory for a zero byte; both have conditions of their own.

* `judged_memInstr`, `judged_call`, `judged_create`: the instructions, by kind.
* `memorySafe_iff`: all of them.
-/

set_option autoImplicit false

namespace TscVee

open TscVee.Core Lib

section
variable (i : MemInstr) (top : StackTop) (s : ExecutionState)

/-- The word with the offset operand. -/
def MemInstr.offsetWord : Uint256 := s.stackSpace (if i = .extcodecopy then top - 1 else top)

/-- The end of the range does not wrap. -/
def MemInstr.NoWrap : Prop := (i.offsetWord top s).low + (i.sizeWord top s).low < 2 ^ 64

/-- The number of bytes of code that `EXTCODECOPY` gets from the host. -/
def copiedBytes : Nat :=
  match MockedHost.copyCode (u256ToU8_20 (s.stackSpace top))
    (min (2 ^ 32 - 1) (s.stackSpace (top - 2)).low) (s.stackSpace (top - 3)).low s.hostCtx with
  | .ok n _ => n
  | .error _ _ => 0

/-- There is a zero byte behind the offset of `EXTCODECOPY`, in the memory that the check leaves. -/
def ScanStops : Prop :=
  ∃ j, (s.stackSpace (top - 1)).low ≤ j ∧
    j < sizeBehind s (s.stackSpace (top - 1)) (s.stackSpace (top - 3)) ∧
    (j < s.memory.mSize → ∀ data, s.memory.mData = some data → data j = 0)

/-- The number of bytes that the memory check of the instruction looks at. -/
def MemInstr.checkedBytes : Nat :=
  match i with
  | .mload | .mstore | .mstore8 => 32
  | _ => (i.sizeWord top s).low

/-- The memory check of the instruction does not wrap. -/
def MemInstr.CheckFits : Prop :=
  RangeFits s.gasLeft s.memory.mSize (i.offsetWord top s).low (i.checkedBytes top s)

/-- The operands with which the instruction uses no byte outside of the memory. -/
def MemInstr.Fits : Prop :=
  match i with
  | .mload | .mstore | .mstore8 => True
  | .keccak256 => i.NoWrap top s ∨
      (i.offsetWord top s).low + numWords (i.sizeWord top s).low ≤ s.memory.mSize
  | .extcodecopy => (0 < copiedBytes top s → ScanStops top s) ∧
      (copiedBytes top s < (i.sizeWord top s).low → i.NoWrap top s)
  | _ => i.NoWrap top s

end

/-- The memory check of a call, behind the charge for a cold account, does not wrap. The output is
never checked, since its size is overwritten with 0. -/
def CallInstr.CheckFits (i : CallInstr) (top : StackTop) (s : ExecutionState) : Prop :=
  RangeFits (s.gasLeft - coldCost s (u256ToU8_20 (s.stackSpace (top - 1)))) s.memory.mSize
    (i.inputOffset top s).low (i.inputSize top s).low

/-- The operands with which a call uses no byte outside of the memory. -/
def CallInstr.Fits (i : CallInstr) (top : StackTop) (s : ExecutionState) : Prop :=
  (i.inputOffset top s).low + (i.inputSize top s).low < 2 ^ 64

/-- The memory check of a creation does not wrap. -/
def createCheckFits (top : StackTop) (s : ExecutionState) : Prop :=
  RangeFits s.gasLeft s.memory.mSize (s.stackSpace (top - 1)).low (s.stackSpace (top - 2)).low

/-- The operands with which a creation uses no byte outside of the memory. `CREATE` uses none. -/
def CreateInstr.Fits (i : CreateInstr) (top : StackTop) (s : ExecutionState) : Prop :=
  match i with
  | .create => True
  | .create2 => (s.stackSpace (top - 1)).low + (s.stackSpace (top - 2)).low < 2 ^ 64

section
variable [Env] {top : StackTop} {s : ExecutionState}

/-- MLOAD reads the 32 bytes that it has checked. -/
theorem judged_mload (hs : s.memory.Valid) :
    Judged (mload top) s (MemInstr.mload.CheckFits top s) True := by
  unfold mload
  dsimp only [StackTop.top]
  refine .bind_load (.bind_requireMemoryU64 hs fun s₁ h => .bind_load ?_)
  rw [h.stack]
  refine .bind_ends (uses_readMemory fun _ => ?_) fun _ => ends_store _ _
  rw [h.inside_iff (by decide) (by decide)]
  have hoffset := (h.covers (by decide)).1
  exact iff_of_true (by omega) trivial

/-- At most 32 bytes are written at an offset that is checked for 32 bytes. -/
theorem judged_store (bytes : Uint256 → List Byte) (hbytes : ∀ x, (bytes x).length ≤ 32)
    (hs : s.memory.Valid) :
    Judged (do
      requireMemoryU64 (← load top) 32
      let value ← load (top - 1)
      writeMemory (← load top).low (bytes value)) s
      (RangeFits s.gasLeft s.memory.mSize (s.stackSpace top).low 32) True := by
  refine .bind_load (.bind_requireMemoryU64 hs fun s₁ h => .bind_load (.bind_load ?_))
  rw [h.stack]
  refine uses_writeMemory fun _ => iff_of_true ?_ trivial
  have hlen := hbytes (s.stackSpace (top - 1))
  have hoffset := (h.covers (by decide)).1
  have hin := (h.inside_iff (by decide) (by decide)).2 (by omega)
  omega

/-- KECCAK256 reads its range, once it has checked it. -/
theorem judged_keccak256 (hs : s.memory.Valid) :
    Judged (keccak256 top) s (MemInstr.keccak256.CheckFits top s) (MemInstr.keccak256.Fits top s) := by
  unfold keccak256
  dsimp only [StackTop.pop, StackTop.top]
  refine .bind_load (.bind_load (.bind_requireMemoryU256 hs fun s₁ h _ _ =>
    .bind_load (.bind_load ?_)))
  rw [h.stack]
  refine .bind_idle (idle_chargeGas _) fun _ s₂ _ hmemory _ => ?_
  -- The digest goes to the stack, so only the read can be out of range.
  have hstore : ∀ data, Ends (store (top - 1)
      (readu256BE (sha3Finalize (sha3Update sha3Init256 data)))) := fun _ => ends_store _ _
  refine .ite (fun hsize => .bind_ends (uses_readMemory fun hwords => ?_) hstore) fun _ =>
    Ends.uses (.bind (ends_pure _) hstore)
  rw [hmemory]
  have hlow := low_lt (s.stackSpace (top - 1))
  have hiff := h.inside_iff hlow hsize
  -- The input is `num_words` bytes long in the source, so a range that wraps may still be inside.
  have hfits : MemInstr.keccak256.Fits top s ↔
      (s.stackSpace top).low + (s.stackSpace (top - 1)).low < 2 ^ 64 ∨
        (s.stackSpace top).low + numWords (s.stackSpace (top - 1)).low ≤ s.memory.mSize := Iff.rfl
  have hoffset := (h.covers hsize).1
  have hgrown := h.size
  rw [hfits]
  unfold numWords at hwords ⊢
  omega

omit [Env] in
/-- The part that the copy instructions share: the bytes that there are, and zeros behind them. -/
theorem uses_copyBehind {s₁ s₂ : ExecutionState} {offset : Uint256} {size n : Nat}
    {x : Core (List Byte)} (hx : idleContract.Holds x fun data => data.length = n)
    (hcheck : CheckPassed offset size s s₁) (hlt : size < 2 ^ 64) (hmemory : s₂.memory = s₁.memory)
    (hn : n ≤ size) :
    Uses (do
      let data ← x
      writeMemory offset.low data
      clearMemory (offset.low + n) (size - n)) s₂ (offset.low + size < 2 ^ 64) := by
  refine .bind_idle hx fun data s₃ hdata hmemory' _ => uses_copy hdata hn ?_ fun hne => ?_
  · rw [hmemory', hmemory]
    exact hcheck.valid.data
  · rw [hmemory', hmemory]
    exact hcheck.inside_iff hlt hne

/-- CALLDATACOPY writes and clears inside of the range that it has checked. -/
theorem judged_calldatacopy (hs : s.memory.Valid) :
    Judged (calldatacopy top) s (MemInstr.calldatacopy.CheckFits top s) (MemInstr.calldatacopy.Fits top s) := by
  unfold calldatacopy
  dsimp only [StackTop.pop]
  rw [sub_one_sub_one]
  refine .bind_load (.bind_load (.bind_requireMemoryU256 hs fun s₁ h _ _ => ?_))
  refine .bind_idle (idle_read _) fun msg s₂ _ hmemory hstack => ?_
  refine .bind_load (.bind_load (.bind_load ?_))
  rw [hstack, h.stack]
  refine .bind_idle (idle_chargeGas _) fun _ s₃ _ hmemory' _ => ?_
  exact uses_copyBehind (idle_readInput _ _) h (low_lt _) (hmemory'.trans hmemory)
    (Nat.min_le_left _ _)

/-- CODECOPY writes and clears inside of the range that it has checked. -/
theorem judged_codecopy (hs : s.memory.Valid) :
    Judged (codecopy top) s (MemInstr.codecopy.CheckFits top s) (MemInstr.codecopy.Fits top s) := by
  unfold codecopy
  dsimp only [StackTop.pop]
  rw [sub_one_sub_one]
  refine .bind_load (.bind_load (.bind_requireMemoryU64 hs fun s₁ h => ?_))
  refine .bind_idle (idle_read _) fun msg s₂ _ hmemory hstack => ?_
  refine .bind_load (.bind_load (.bind_load ?_))
  rw [hstack, h.stack]
  refine .bind_idle (idle_chargeGas _) fun _ s₃ _ hmemory' _ => ?_
  exact uses_copyBehind (idle_readCode _ _) h (low_lt _) (hmemory'.trans hmemory)
    (Nat.min_le_left _ _)

/-- RETURNDATACOPY writes to the range that it has checked. -/
theorem judged_returndatacopy (hs : s.memory.Valid) :
    Judged (returndatacopy top) s (MemInstr.returndatacopy.CheckFits top s) (MemInstr.returndatacopy.Fits top s) := by
  unfold returndatacopy
  dsimp only [StackTop.pop]
  rw [sub_one_sub_one]
  refine .bind_load (.bind_load (.bind_requireMemoryU256 hs fun s₁ h _ _ =>
    .bind_load (.bind_load ?_)))
  rw [h.stack]
  refine .bind_idle idle_returnDataLength fun length s₂ _ hmemory hstack => .bind_load ?_
  refine .ite (fun _ => .bind_stop (idle_ret _)) fun _ => ?_
  refine .ite (fun _ => .bind_stop (idle_ret _)) fun _ => ?_
  refine .bind_idle (idle_chargeGas _) fun _ s₃ _ hmemory' _ => ?_
  refine .bind_idle (idle_read _) fun data s₄ _ hmemory'' _ => ?_
  refine .ite (fun _ => .bind_stop (idle_fault _)) fun hlength => uses_writeMemory ?_
  rw [List.length_take, min_eq_left (Nat.le_of_not_lt hlength), hmemory'', hmemory', hmemory]
  exact h.inside_iff (low_lt _)

/-! ### `EXTCODECOPY` -/

omit [Env] in
/-- The number of bytes that the host copies is that of the code found at the address. -/
theorem copiedBytes_eq :
    copiedBytes top s = codeBytes (min (2 ^ 32 - 1) (s.stackSpace (top - 2)).low)
      (s.stackSpace (top - 3)).low
      ((s.hostCtx.accounts.find (u256ToU8_20 (s.stackSpace top))).elim none id) := by
  -- What the host answers, absent account included.
  have hanswer : Sat (MockedHost.copyCode (u256ToU8_20 (s.stackSpace top))
      (min (2 ^ 32 - 1) (s.stackSpace (top - 2)).low) (s.stackSpace (top - 3)).low) s.hostCtx
      (fun n _ => n = codeBytes (min (2 ^ 32 - 1) (s.stackSpace (top - 2)).low)
        (s.stackSpace (top - 3)).low
        ((s.hostCtx.accounts.find (u256ToU8_20 (s.stackSpace top))).elim none id))
      fun _ _ => 0 = codeBytes (min (2 ^ 32 - 1) (s.stackSpace (top - 2)).low)
        (s.stackSpace (top - 3)).low
        ((s.hostCtx.accounts.find (u256ToU8_20 (s.stackSpace top))).elim none id) := by
    rw [sat_copyCode]
    cases s.hostCtx.accounts.find (u256ToU8_20 (s.stackSpace top)) <;> rfl
  unfold Sat at hanswer
  unfold copiedBytes
  -- The definition takes the answer of the host, or 0 where it gives none.
  cases hrun : MockedHost.copyCode (u256ToU8_20 (s.stackSpace top))
    (min (2 ^ 32 - 1) (s.stackSpace (top - 2)).low) (s.stackSpace (top - 3)).low s.hostCtx with
  | ok n host =>
      rw [hrun] at hanswer
      exact hanswer
  | error f host =>
      rw [hrun] at hanswer
      exact hanswer

omit [Env] in
/-- The bytes of code that the host gives, which a record of an access does not change. -/
theorem idle_copyCode {s₁ : ExecutionState} (h : s₁.hostCtx.accounts = s.hostCtx.accounts) :
    Sat (ask (.copyCode (u256ToU8_20 (s.stackSpace top))
        (min (2 ^ 32 - 1) (s.stackSpace (top - 2)).low) (s.stackSpace (top - 3)).low)) s₁
      (fun n s₂ => (n = copiedBytes top s ∧ n ≤ (s.stackSpace (top - 3)).low) ∧ Idle s₁ s₂)
      fun _ s₂ => NoUse s₁ s₂ := by
  have hidle := idle_ask (.copyCode (u256ToU8_20 (s.stackSpace top))
    (min (2 ^ 32 - 1) (s.stackSpace (top - 2)).low) (s.stackSpace (top - 3)).low) s₁ trivial
  have hanswer : Sat (ask (.copyCode (u256ToU8_20 (s.stackSpace top))
        (min (2 ^ 32 - 1) (s.stackSpace (top - 2)).low) (s.stackSpace (top - 3)).low)) s₁
      (fun n _ => n = copiedBytes top s ∧ n ≤ (s.stackSpace (top - 3)).low) fun _ _ => True := by
    rw [sat_ask]
    refine (sat_copyCode _ _ _).2 ?_
    rw [h, copiedBytes_eq]
    cases s.hostCtx.accounts.find (u256ToU8_20 (s.stackSpace top)) with
    | none => trivial
    | some o => exact ⟨rfl, codeBytes_le _ _ o⟩
  exact (hanswer.and hidle).mono (fun n s₂ h => ⟨h.1, h.2.2.2⟩) fun _ _ h => h.2

omit [Env] in
/-- The charge for a cold account leaves memory, stack space and accounts alone. -/
theorem sat_coldAccount (addr : Address) (cost : Int) :
    Sat (chargeColdAccount addr cost) s
      (fun _ s' => Idle s s' ∧ s'.hostCtx.accounts = s.hostCtx.accounts) fun _ s' => NoUse s s' := by
  have haccounts : Sat (chargeColdAccount addr cost) s
      (fun _ s' => s'.hostCtx.accounts = s.hostCtx.accounts) fun _ _ => True := by
    unfold chargeColdAccount
    simp only [sat_bind, sat_read, sat_ite, sat_pure]
    refine ⟨fun _ => ?_, fun _ => trivial⟩
    rw [sat_ask]
    refine (accessAccount_accounts addr s.hostCtx).mono
      (fun status host h => ⟨fun _ => ?_, fun _ => h⟩)
      fun _ _ h => h
    rw [sat_chargeGas]
    split
    · split
      · trivial
      · exact h
    · trivial
  exact ((idle_chargeColdAccount addr cost s trivial).and haccounts).mono
    (fun _ _ h => ⟨h.1.2.2, h.2⟩) fun _ _ h => h.1

/-- There is a zero byte from the offset on. -/
def HasZeroByte (memory : Memory) (offset : Nat) : Prop :=
  ∃ j, offset ≤ j ∧ j < memory.mSize ∧ ∀ data, memory.mData = some data → data j = 0

/-- The scan stays inside of the memory when it finds a zero byte there. -/
theorem uses_scanString (offset : Nat) {s₁ : ExecutionState} :
    Sat (scanString offset) s₁
      (fun _ s₂ => s₂.memory = s₁.memory ∧ UsedIff (HasZeroByte s₁.memory offset) s₁ s₂)
      fun _ s₂ => NoUse s₁ s₂ ∨ ¬ HasZeroByte s₁.memory offset ∧ UsedIff False s₁ s₂ := by
  unfold scanString
  simp only [sat_bind, sat_read]
  cases hdata : s₁.memory.mData with
  | none => exact Or.inl (.refl _)
  | some data =>
      simp only
      split
      -- A zero byte at distance `n`: the scan reads up to it.
      case h_1 n hn =>
        obtain ⟨hlt, hzero, -⟩ := List.findIdx?_eq_some_iff_getElem.1 hn
        rw [List.length_range] at hlt
        simp only [List.getElem_range, beq_iff_eq] at hzero
        have hused : UsedIff (offset + (n + 1) ≤ s₁.memory.mSize) s₁
            (s₁.logAccess offset (n + 1)) := .of_access (Nat.succ_ne_zero n) rfl rfl
        have hfound : HasZeroByte s₁.memory offset :=
          ⟨offset + n, by omega, by omega, fun data' h => by
            obtain rfl := Option.some.inj (hdata.symm.trans h)
            exact hzero⟩
        exact ⟨rfl, hused.congr (iff_of_true (by omega) hfound)⟩
      -- None: the scan reads past the end of the memory.
      case h_2 hn =>
        rw [List.findIdx?_eq_none_iff] at hn
        have hnone : ¬ HasZeroByte s₁.memory offset := by
          rintro ⟨j, hle, hlt, hzero⟩
          have hj := hn (j - offset) (List.mem_range.2 (by omega))
          rw [Nat.add_sub_cancel' hle, hzero data hdata] at hj
          simp at hj
        have hused : ∀ fresh, UsedIff False s₁
            { s₁.logAccess offset (s₁.memory.mSize - offset + 1) with fresh := fresh } := fun fresh =>
          UsedIff.congr (.of_access (Nat.succ_ne_zero (s₁.memory.mSize - offset)) rfl rfl)
            (iff_of_false (show ¬ offset + (s₁.memory.mSize - offset + 1) ≤ _ by omega) id)
        simp only [sat_bind, sat_log, sat_nextFresh, sat_ite, sat_fault, sat_pure]
        exact ⟨fun _ => Or.inr ⟨hnone, hused _⟩,
          fun _ => ⟨trivial, (hused _).congr (iff_of_false id hnone)⟩⟩

omit [Env] in
/-- The memory behind the check has a zero byte to stop at exactly when `ScanStops` holds. -/
theorem scanStops_iff {s₁ : ExecutionState} (hs : s.memory.Valid) (hpaid : Paid s s₁)
    (hsize : s₁.memory.mSize = sizeBehind s (s.stackSpace (top - 1)) (s.stackSpace (top - 3))) :
    HasZeroByte s₁.memory (s.stackSpace (top - 1)).low ↔ ScanStops top s := by
  constructor
  · rintro ⟨j, hle, hlt, hzero⟩
    refine ⟨j, hle, hsize ▸ hlt, fun hold data hdata => ?_⟩
    obtain ⟨data₁, hdata₁, hkeep⟩ := hpaid.data data hdata
    rw [← hzero data₁ hdata₁, hkeep j hlt, if_pos hold]
  · rintro ⟨j, hle, hlt, hzero⟩
    rw [← hsize] at hlt
    refine ⟨j, hle, hlt, fun data₁ hdata₁ => ?_⟩
    by_cases hold : j < s.memory.mSize
    · obtain ⟨data, hdata⟩ := Option.ne_none_iff_exists'.1 (hs.data (by omega))
      obtain ⟨data', hdata', hkeep⟩ := hpaid.data data hdata
      obtain rfl := Option.some.inj (hdata₁.symm.trans hdata')
      rw [hkeep j hlt, if_pos hold, hzero hold data hdata]
    · exact hpaid.zero data₁ hdata₁ j (Nat.le_of_not_lt hold) hlt

/-- The scan, and the zeros behind the bytes that are said to be copied. -/
theorem uses_scanAndClear {s₁ : ExecutionState} {dst size n : Nat} {P : Prop} (hn : n ≤ size)
    (hP : ((0 < n → HasZeroByte s₁.memory dst) ∧ (n < size → dst + size ≤ s₁.memory.mSize)) ↔ P) :
    Uses (do
      if n > 0 then scanString dst
      clearMemory (dst + n) (size - n)) s₁ P := by
  have hend : n < size → dst + n + (size - n) = dst + size := fun h => by omega
  refine .ite (fun hpos => ?_) fun hzero => uses_clearMemory fun hne => ?_
  · simp only [hpos, true_imp_iff] at hP
    rw [Uses, sat_bind]
    refine (uses_scanString dst).mono (fun _ s₂ h => ?_) fun _ s₂ hscan => ?_
    · obtain ⟨hmemory, hscan⟩ := h
      rw [sat_clearMemory]
      split
      -- Nothing to clear: the scan alone decides.
      case isTrue hnone =>
        exact Or.inr (hscan.congr (by
          rw [← hP]
          exact (and_iff_left fun h => by omega).symm))
      -- Otherwise the clearing must be inside as well.
      case isFalse hsome =>
        have hlt : n < size := by omega
        have hafter : ∀ s₃, UsedIff (dst + n + (size - n) ≤ s₂.memory.mSize) s₂ s₃ →
            Outcome P s₁ s₃ := fun s₃ h => Or.inr ((hscan.trans h).congr (by
          rw [← hP, hend hlt, hmemory]
          simp only [hlt, true_imp_iff]))
        refine (uses_access hsome).mono (fun _ s' h => ?_) fun _ s' h => hafter _ h
        refine hafter _ ?_
        apply h <;> rfl
    · -- The scan has ended the instruction, so it has not found a zero byte.
      exact hscan.imp_right fun h => h.2.congr (iff_of_false id fun hP' => h.1 (hP.2 hP').1)
  -- Nothing was copied: only the clearing is left.
  · rw [hend (by omega), ← hP]
    simp only [show ¬ 0 < n from hzero, show n < size by omega, false_imp_iff, true_imp_iff, true_and]

/-- EXTCODECOPY lets the host write to the checked range and clears the rest of it. -/
theorem judged_extcodecopy (hs : s.memory.Valid) :
    Judged (extcodecopy top) s (MemInstr.extcodecopy.CheckFits top s) (MemInstr.extcodecopy.Fits top s) := by
  unfold extcodecopy
  dsimp only [StackTop.pop]
  rw [show ∀ t : Int, t - 1 - 1 - 1 = t - 3 by omega, sub_one_sub_one]
  refine .bind_load (.bind_load (.bind_load (.bind_requireMemoryU256 hs fun s₁ h hpaid hsize =>
    .bind_load ?_)))
  rw [h.stack]
  -- The two charges leave the memory, and the account that the code is copied from.
  have hcharge : Sat (chargeGas (numWords (s.stackSpace (top - 3)).low * 3)) s₁
      (fun _ s₂ => Idle s₁ s₂ ∧ s₂.hostCtx = s₁.hostCtx) fun _ s₂ => NoUse s₁ s₂ := by
    have hhost : Sat (chargeGas (numWords (s.stackSpace (top - 3)).low * 3)) s₁
        (fun _ s₂ => s₂.hostCtx = s₁.hostCtx) fun _ _ => True := by
      rw [sat_chargeGas]
      split
      · split
        · trivial
        · rfl
      · trivial
    exact ((idle_chargeGas _ s₁ trivial).and hhost).mono (fun _ _ h => ⟨h.1.2.2, h.2⟩)
      fun _ _ h => h.1
  refine .bind_noUse (hcharge.mono (fun _ s₂ ⟨h₂, hhost₂⟩ => ⟨h₂.noUse, ?_⟩) fun _ _ h => h)
  refine .bind_noUse ((sat_coldAccount _ _).mono (fun _ s₃ ⟨h₃, haccounts⟩ => ⟨h₃.noUse, ?_⟩)
    fun _ _ h => h)
  have hmemory : s₃.memory = s₁.memory := h₃.memory.trans h₂.memory
  have hstack : s₃.stackSpace = s.stackSpace := h₃.stack.trans (h₂.stack.trans h.stack)
  refine .ite (fun hpos => .bind_load (.bind_load ?_)) fun _ => Ends.uses (ends_pure _)
  rw [hstack]
  have hhost : s₃.hostCtx.accounts = s.hostCtx.accounts := by
    rw [haccounts, hhost₂, hpaid.same]
  refine .bind_noUse ((idle_copyCode hhost).mono (fun n s₄ ⟨⟨hn, hle⟩, h₄⟩ => ⟨h₄.noUse, ?_⟩)
    fun _ _ h => h)
  -- From here on the scan and the clearing are in the checked memory.
  subst hn
  have hmemory₄ : s₄.memory = s₁.memory := h₄.memory.trans hmemory
  have hstops := scanStops_iff hs hpaid hsize
  have hinside := h.inside_iff (low_lt (s.stackSpace (top - 3))) (Nat.ne_of_gt hpos)
  have hfits : MemInstr.extcodecopy.Fits top s ↔
      (0 < copiedBytes top s → ScanStops top s) ∧
        (copiedBytes top s < (s.stackSpace (top - 3)).low →
          (s.stackSpace (top - 1)).low + (s.stackSpace (top - 3)).low < 2 ^ 64) := Iff.rfl
  refine uses_scanAndClear hle ?_
  rw [hfits, hmemory₄, hstops, hinside]

/-! ### Logs and outputs -/

/-- The request to log the bytes. -/
theorem uses_emitLog {s₁ : ExecutionState} {o len : Nat} (topics : List Bytes32) {P : Prop}
    (hP : len ≠ 0 → (o + len ≤ s₁.memory.mSize ↔ P)) :
    Uses (do
      let data ← readMemory o len
      let vectorEmpty := Env.wildVectorEmpty (← nextFresh)
      ask (.emitLog (← Core.read (·.msg)).recipient data topics vectorEmpty)) s₁ P := by
  refine .bind_ends (uses_readMemory hP) fun data => ends_of_idle (Q := fun _ => True) ?_
  exact idle_nextFresh.bind fun _ _ => (idle_read _).bind fun _ _ => idle_ask _

/-- LOG0 reads the range that it has checked. -/
theorem judged_log0 (hs : s.memory.Valid) :
    Judged (log0 top) s (MemInstr.log0.CheckFits top s) (MemInstr.log0.Fits top s) := by
  unfold log0
  dsimp only [StackTop.pop]
  refine .bind_refuseStatic (.bind_load (.bind_load (.bind_requireMemoryU256 hs fun s₁ h _ _ =>
    .bind_load (.bind_load ?_))))
  rw [h.stack]
  refine .bind_idle (idle_int64 _) fun _ s₂ _ hmemory₂ _ => ?_
  refine .bind_idle (idle_chargeGas _) fun _ s₃ _ hmemory₃ _ => uses_emitLog _ ?_
  rw [hmemory₃, hmemory₂]
  exact h.inside_iff (low_lt _)

/-- The logs with topics read the range that they have checked. -/
theorem judged_logTopics (n : Nat) (hs : s.memory.Valid) :
    Judged (logTopics n top) s
      (RangeFits s.gasLeft s.memory.mSize (s.stackSpace top).low (s.stackSpace (top - 1)).low)
      ((s.stackSpace top).low + (s.stackSpace (top - 1)).low < 2 ^ 64) := by
  unfold logTopics
  dsimp only [StackTop.pop]
  refine .bind_read (.ite (fun _ => Uses.judged (.bind_stop (idle_ret _))) fun _ => ?_)
  refine .bind_load (.bind_load (.bind_requireMemoryU64 hs fun s₁ h =>
    .bind_load (.bind_load ?_)))
  rw [h.stack]
  refine .bind_idle (idle_int64 _) fun _ s₂ _ hmemory₂ _ => ?_
  refine .bind_idle (idle_chargeGas _) fun _ s₃ _ hmemory₃ _ => ?_
  refine .bind_idle (idle_popTopics _ _) fun topics s₄ _ hmemory₄ _ => ?_
  refine .bind_idle idle_nextFresh fun _ s₅ _ hmemory₅ _ => ?_
  refine .ite (fun _ => .bind_stop (idle_fault _)) fun _ => uses_emitLog _ ?_
  rw [hmemory₅, hmemory₄, hmemory₃, hmemory₂]
  exact h.inside_iff (low_lt _)

/-- RETURN and REVERT check the range of the output, which is read behind the loop. -/
theorem judged_publishOutput (hs : s.memory.Valid) :
    Judged (publishOutput top) s
      (RangeFits s.gasLeft s.memory.mSize (s.stackSpace top).low (s.stackSpace (top - 1)).low)
      ((s.stackSpace top).low + (s.stackSpace (top - 1)).low < 2 ^ 64) := by
  unfold publishOutput
  dsimp only [StackTop.get]
  rw [sub_zero]
  refine .bind_load (.bind_load (.bind_requireMemoryU256 hs fun s₁ h _ _ => .bind_load ?_))
  rw [h.stack]
  refine .bind_idle (idle_modify _ fun _ => ⟨rfl, rfl, rfl⟩) fun _ s₂ _ hmemory₂ hstack₂ => ?_
  refine .ite (fun hsize => .bind_load ?_) fun _ => Ends.uses (ends_pure _)
  rw [hstack₂, h.stack]
  refine .bind_idle (idle_modify _ fun _ => ⟨rfl, rfl, rfl⟩) fun _ s₃ _ hmemory₃ _ => ?_
  have hused : UsedIff ((s.stackSpace top).low + (s.stackSpace (top - 1)).low ≤ s₃.memory.mSize) s₃
      (s₃.logAccess (s.stackSpace top).low (s.stackSpace (top - 1)).low) :=
    .of_access hsize rfl rfl
  refine Or.inr (hused.congr ?_)
  rw [hmemory₃, hmemory₂]
  exact h.inside_iff (low_lt _) hsize

/-- An instruction with one memory check makes one that wraps exactly when it does not fit, and uses
EVM memory inside of it exactly when its operands fit. -/
theorem judged_memInstr (i : MemInstr) (hs : s.memory.Valid) :
    Judged (i.core top) s (i.CheckFits top s) (i.Fits top s) := by
  cases i with
  | mload => exact judged_mload hs
  | mstore => exact judged_store (fun x => (u256ToU8_32 x).toList) (by simp) hs
  | mstore8 => exact judged_store (fun x => (u256ToU8_8 x).toList) (by simp) hs
  | keccak256 => exact judged_keccak256 hs
  | calldatacopy => exact judged_calldatacopy hs
  | codecopy => exact judged_codecopy hs
  | extcodecopy => exact judged_extcodecopy hs
  | returndatacopy => exact judged_returndatacopy hs
  | log0 => exact judged_log0 hs
  | log1 => exact judged_logTopics 1 hs
  | log2 => exact judged_logTopics 2 hs
  | log3 => exact judged_logTopics 3 hs
  | log4 => exact judged_logTopics 4 hs
  | return_ | revert =>
      exact ((judged_publishOutput hs).bind_ends fun _ => ends_pure _).bind_ends fun _ => ends_pure _

/-! ### Calls -/

variable (i : CallInstr)

/-- The message reads its input from EVM memory. -/
theorem uses_callMessage {v : CallVariant} {dst : Address} {value : Uint256} {p q : Slot}
    {s₁ : ExecutionState} {P : Prop}
    (hP : (s₁.stackSpace q).low ≠ 0 →
      ((s₁.stackSpace p).low + (s₁.stackSpace q).low ≤ s₁.memory.mSize ↔ P)) :
    Uses (callMessage v dst value p q) s₁ P := by
  unfold callMessage
  refine .bind_idle idle_get fun state s₂ _ hmemory₂ hstack₂ => ?_
  refine .bind_idle idle_nextFresh fun _ s₃ _ hmemory₃ hstack₃ => .bind_load ?_
  refine .ite (fun hpos => .bind_load (.bind_ends ?_ fun _ => ends_pure _)) fun _ =>
    Ends.uses (ends_pure _)
  have hstack : s₃.stackSpace = s₁.stackSpace := hstack₃.trans hstack₂
  have hmemory : s₃.memory = s₁.memory := hmemory₃.trans hmemory₂
  rw [hstack] at hpos ⊢
  rw [Uses, sat_memoryPtr]
  have hused : UsedIff ((s₁.stackSpace p).low + (s₁.stackSpace q).low ≤ s₃.memory.mSize) s₃
      (s₃.logAccess (s₁.stackSpace p).low (s₁.stackSpace q).low) :=
    .of_access (Nat.ne_of_gt hpos) rfl rfl
  rw [hmemory] at hused
  exact Or.inr (hused.congr (hP (Nat.ne_of_gt hpos)))

omit [Env] in
/-- The charge for a cold account leaves memory and stack space alone, and is `coldCost`. -/
theorem sat_chargeCold_noUse (addr : Address) :
    Sat (chargeColdAccount addr additionalColdAccountAccessCost) s
      (fun _ s' => Idle s s' ∧ s'.gasLeft = s.gasLeft - coldCost s addr) fun _ s' => NoUse s s' := by
  have hgas : Sat (chargeColdAccount addr additionalColdAccountAccessCost) s
      (fun _ s' => s'.gasLeft = s.gasLeft - coldCost s addr) fun _ _ => True := by
    unfold chargeColdAccount coldCost
    rw [sat_bind, sat_read, sat_ite]
    refine ⟨fun hberlin => ?_, fun hberlin => ?_⟩
    · rw [if_pos hberlin, sat_bind, sat_ask]
      simp only [HostOp.serve, sat_ite, sat_pure]
      unfold Sat
      cases MockedHost.accessAccount addr s.hostCtx with
      | error f host => trivial
      | ok status host =>
          refine ⟨fun hcold => ?_, fun hwarm => ?_⟩
          · subst hcold
            refine (sat_chargeGas _).2 ?_
            split
            · split
              · trivial
              · rfl
            · trivial
          · cases status with
            | cold => exact absurd rfl hwarm
            | warm => exact (sub_zero _).symm
    · rw [if_neg hberlin]
      exact (sub_zero _).symm
  exact ((idle_chargeColdAccount addr _ s trivial).and hgas).mono
    (fun _ _ h => ⟨h.1.2.2, h.2⟩) fun _ _ h => h.1

/-- The message of a call. The slot with the size of the output holds 0 by then, so nothing is checked
for the output. -/
theorem judged_messageAt (dst : Address) (value : Uint256) (hs : s.memory.Valid) :
    Judged (i.messageAt dst value (i.base top)) s
      (RangeFits (s.gasLeft - coldCost s dst) s.memory.mSize (i.inputOffset top s).low
        (i.inputSize top s).low) (i.Fits top s) := by
  unfold CallInstr.messageAt
  refine .bind_noUse ?_
  rw [sat_store]
  split
  case isFalse => exact .refl s
  case isTrue =>
  refine ⟨.of_same rfl rfl, ?_⟩
  -- The write of the zero keeps the operands of the input and the frame of the rest.
  have hoffset : (s.setSlot (i.base top - 3) .zero).stackSpace (i.base top) = i.inputOffset top s :=
    if_neg (CallInstr.slot_ne _).1
  have hsize : (s.setSlot (i.base top - 3) .zero).stackSpace (i.base top - 1) = i.inputSize top s :=
    if_neg (CallInstr.slot_ne _).2.1
  have hzero : (s.setSlot (i.base top - 3) .zero).stackSpace (i.base top - 3) = .zero := if_pos rfl
  have hs₀ : (s.setSlot (i.base top - 3) .zero).memory.Valid := hs
  have hcold : coldCost (s.setSlot (i.base top - 3) .zero) dst = coldCost s dst := rfl
  have hgas : (s.setSlot (i.base top - 3) .zero).gasLeft = s.gasLeft := rfl
  have hmSize : (s.setSlot (i.base top - 3) .zero).memory = s.memory := rfl
  rw [← hcold, ← hgas, ← hmSize]
  generalize s.setSlot (i.base top - 3) .zero = s₀ at hoffset hsize hzero hs₀
  refine .bind_noUse ((sat_chargeCold_noUse dst).mono (fun _ s₁ ⟨h₁, hgas₁⟩ => ⟨h₁.noUse, ?_⟩)
    fun _ _ h => h)
  refine .bind_load (.bind_load ?_)
  rw [h₁.stack, hoffset, hsize, ← hgas₁, ← h₁.memory]
  refine .bind_requireMemoryU256 (h₁.memory ▸ hs₀) fun s₂ h _ _ => .bind_load (.bind_load ?_)
  -- The size of the output is read from the slot just zeroed, so its check passes.
  rw [h.stack, h₁.stack, hzero, requireMemoryU256_zero (by decide), pure_bind]
  refine uses_callMessage ?_
  rw [h.stack, h₁.stack, hoffset, hsize]
  exact fun hne => h.inside_iff (low_lt _) hne

omit [Env] in
/-- A callee without output writes nothing to the memory. -/
theorem ends_takeCallResult (stack p q : Slot) (result : Result) :
    Ends (takeCallResult stack p q result) := by
  unfold takeCallResult
  by_cases h : result.outputSize > 0
  · rw [if_pos h]
    exact fun s => NoUse.refl s
  · have hempty : result.outputSize = 0 := Nat.eq_zero_of_not_pos h
    simp only [hempty, Nat.min_zero, gt_iff_lt, Nat.lt_irrefl, if_false]
    exact .bind (ends_store _ _) fun _ => .bind (ends_load q) fun _ => ends_pure _

omit [Env] in
/-- The call itself uses no EVM memory. An output would be copied to it, but the instruction does not
get past the `NULL` pointer of the return data before. -/
theorem ends_callHost (hasValue : Bool) (value : Uint256) (msg : Message) (stack : StackTop)
    (p q : Slot) : Ends (callHost hasValue value msg stack p q) := by
  unfold callHost
  refine .bind (ends_of_idle (idle_modify _ fun _ => ⟨rfl, rfl, rfl⟩)) fun _ => .bind (ends_read _)
    fun _ => ?_
  refine .ite (fun _ => ends_pure _) fun _ => .bind (ends_ask _) fun _ => ?_
  refine .ite (fun _ => ends_pure _) fun _ => .bind (ends_ask _) fun _ => ?_
  refine .bind (ends_takeCallResult _ _ _ _) fun _ => ?_
  exact .bind (ends_int64 _) fun _ => ends_subGas _

omit [Env] in
/-- The charges of a call use no EVM memory. -/
theorem ends_charge (dst : Address) (value : Uint256) : Ends (i.charge dst value) := by
  have hextra : Ends (i.extraCost (zero256 value) dst) := by
    cases i with
    | callcode | delegatecall | staticcall => exact ends_pure _
    | call =>
        refine .bind (ends_of_idle idle_get) fun _ => ?_
        have hrest : Ends (do
            if zero256 value ∨ ¬ (← Core.read (·.rev)) ≥ .spuriousDragon then
              if !(← ask (.accountExists dst)) then return (25000 : Int)
            return 0) := by
          refine .bind (ends_read _) fun _ => .ite (fun _ => ?_) fun _ => ends_pure _
          exact .bind (ends_ask _) fun _ => .ite (fun _ => ends_pure _) fun _ => ends_pure _
        exact .ite (fun _ => .bind (ends_ret _) fun _ => hrest)
          fun _ => hrest
  exact .bind hextra fun _ => ends_chargeGas _

omit [Env] in
/-- The gas of a call with a value is no use of EVM memory. -/
theorem ends_gift (value : Uint256) : Ends (CallInstr.gift top value) := by
  have hstipend : ∀ gas, Ends (addStipend (zero256 value) gas) := fun gas => by
    unfold addStipend
    refine .ite (fun _ => .bind (ends_int64 _) fun _ => ?_) fun _ => ends_pure _
    exact .bind (ends_subGas _) fun _ => ends_pure _
  have hgas : Ends (callGas top) := by
    unfold callGas
    refine .bind (ends_load _) fun _ => .bind (ends_read _) fun _ => .bind (ends_read _) fun _ => ?_
    split
    · exact ends_pure _
    · split
      · exact ends_ret _
      · exact ends_pure _
  exact .bind hgas hstipend

/-- A call checks both of its ranges and reads its input. -/
theorem judged_call (hs : s.memory.Valid) :
    Judged (i.core top) s (i.CheckFits top s) (i.Fits top s) := by
  rw [CallInstr.core_eq]
  refine .bind_ends ?_ fun prepared => .bind (ends_charge i _ _) fun _ => .bind (ends_gift _) fun _ =>
    ends_callHost _ _ _ _ _ _
  unfold CallInstr.prepare
  refine .bind_load ?_
  unfold CallInstr.loadValue
  split
  · exact .bind_load (.bind_ends (judged_messageAt i _ _ hs) fun _ => ends_pure _)
  · rw [pure_bind]
    exact .bind_ends (judged_messageAt i _ _ hs) fun _ => ends_pure _

/-! ### Creations -/

/-- What follows the creation uses no EVM memory. -/
theorem ends_settle (j : CreateInstr) (gas : Int) (result : Result) :
    Ends (j.settle top gas result) := by
  unfold CreateInstr.settle takeCreateResult
  refine .bind (ends_int64 _) fun _ => .bind (ends_subGas _) fun _ => ?_
  have hpush : Ends (do
      if result.statusCode = .success then
        let pad := Env.localBytes (← nextFresh)
        let _ ← StackTop.push (j.slot top) (addressWord pad result.createAddress)) := by
    refine .ite (fun _ => .bind (ends_of_idle idle_nextFresh) fun _ => ?_) fun _ => ends_pure _
    exact .bind (.bind (ends_store _ _) fun _ => ends_pure _) fun _ => ends_pure _
  exact .ite (fun _ => .bind (ends_fault _) fun _ => hpush) fun _ => hpush

omit [Env] in
/-- The admission of a creation uses no EVM memory. -/
theorem ends_admission (j : CreateInstr) (salt : Uint256) : Ends (j.admission top salt) := by
  unfold CreateInstr.admission
  refine .bind (ends_store _ _) fun _ => ?_
  refine .bind (ends_of_idle (idle_modify _ fun _ => ⟨rfl, rfl, rfl⟩)) fun _ => ?_
  refine .bind (ends_read _) fun _ => .ite (fun _ => ends_pure _) fun _ => ?_
  refine .bind (ends_ask _) fun _ => .bind (ends_load _) fun _ => ?_
  exact .ite (fun _ => ends_pure _) fun _ => ends_pure _

/-- The init code goes into the message by way of the words that the slots hold by then. -/
theorem uses_message (j : CreateInstr) (salt : Uint256) (stateMsg : Message) (value : Uint256)
    {s₁ : ExecutionState} {P : Prop} (hP : (s₁.stackSpace (top - 2)).low ≠ 0 →
      ((s₁.stackSpace (top - 1)).low + (s₁.stackSpace (top - 2)).low ≤ s₁.memory.mSize ↔ P)) :
    Uses (j.message top salt stateMsg value) s₁ P := by
  unfold CreateInstr.message
  refine .bind_idle (idle_read _) fun _ s₂ _ hmemory₂ hstack₂ => ?_
  refine .bind_idle (idle_read _) fun _ s₃ _ hmemory₃ hstack₃ => ?_
  refine .bind_idle idle_nextFresh fun _ s₄ _ hmemory₄ hstack₄ => ?_
  have hstack : s₄.stackSpace = s₁.stackSpace := hstack₄.trans (hstack₃.trans hstack₂)
  have hmemory : s₄.memory = s₁.memory := hmemory₄.trans (hmemory₃.trans hmemory₂)
  refine .bind_ends ?_ fun _ => ends_pure _
  unfold initCodeMessage
  refine .bind_load (.ite (fun hpos => .bind_load ?_) fun _ => Ends.uses (ends_pure _))
  rw [hstack] at hpos ⊢
  refine .bind_ends (uses_readMemory fun hne => hmemory ▸ hP hne) fun _ => ?_
  refine .bind (ends_of_idle idle_nextFresh) fun _ => ?_
  exact .ite (fun _ => .bind (ends_fault _) fun _ => ends_pure _) fun _ => ends_pure _

/-- Behind the checks, which have left the state `s₁`. -/
theorem uses_behindChecks (j : CreateInstr) (salt : Uint256) {s₁ : ExecutionState} {P : Prop}
    (hP : ∀ s₂ : ExecutionState, s₂.stackSpace = (s₁.setSlot (j.slot top) salt).stackSpace →
      s₂.memory = s₁.memory → (s₂.stackSpace (top - 2)).low ≠ 0 →
      ((s₂.stackSpace (top - 1)).low + (s₂.stackSpace (top - 2)).low ≤ s₂.memory.mSize ↔ P)) :
    Uses (do
      match ← j.admission top salt with
      | none => return ()
      | some (stateMsg, value) =>
        let msg ← j.message top salt stateMsg value
        let result ← ask (.call msg)
        j.settle top msg.gas result) s₁ P := by
  refine .bind_noUse (((ends_admission j salt s₁).and (CreateInstr.sat_admission j salt)).mono
    (fun admitted s₂ ⟨hnoUse, h₂⟩ => ⟨hnoUse, ?_⟩) fun _ _ h => h.1)
  cases admitted with
  | none => exact Ends.uses (ends_pure _)
  | some made =>
      refine .bind_ends (uses_message j salt _ _ (hP s₂ h₂.stack h₂.memory)) fun msg => ?_
      exact .bind (ends_ask _) fun result => ends_settle j _ result

/-- A creation checks the range of its init code. CREATE2 reads that range; CREATE has overwritten
the size with 0. -/
theorem judged_create (j : CreateInstr) (hs : s.memory.Valid) :
    Judged (j.core top) s (createCheckFits top s) (j.Fits top s) := by
  rw [CreateInstr.core_eq]
  unfold CreateInstr.checks
  simp only [bind_assoc]
  refine .bind_refuseStatic (.bind_load (.bind_load (.bind_requireMemoryU256 hs fun s₁ h _ _ => ?_)))
  have hstack₁ := h.stack
  cases j with
  | create =>
      -- The size is overwritten with the salt 0.
      rw [pure_bind]
      refine uses_behindChecks .create _ fun s₂ hstack hmemory hne => absurd ?_ hne
      have hzero : s₂.stackSpace (top - 2) = .zero := by
        rw [hstack]
        exact if_pos rfl
      rw [hzero]
      decide
  | create2 =>
      have hidle : idleContract.Holds (CreateInstr.takeSalt top) fun _ => True := by
        unfold CreateInstr.takeSalt
        refine (idle_load _).bind fun _ _ => (idle_load _).bind fun _ _ => (idle_read _).bind
          fun _ _ => ?_
        refine (idle_setGas _).bind fun _ _ => (idle_read _).bind fun _ _ => ?_
        split
        · exact (idle_ret (Q := fun _ => False) _).bind fun _ h => h.elim
        · exact .pure trivial
      refine .bind_idle hidle fun salt s₂ _ hmemory₂ hstack₂ => ?_
      refine uses_behindChecks .create2 salt fun s₃ hstack hmemory => ?_
      have hsize : s₃.stackSpace (top - 2) = s.stackSpace (top - 2) := by
        rw [hstack, ← hstack₁, ← hstack₂]
        exact if_neg (CreateInstr.slots_lt top).1
      have hoffset : s₃.stackSpace (top - 1) = s.stackSpace (top - 1) := by
        rw [hstack, ← hstack₁, ← hstack₂]
        exact if_neg (CreateInstr.slots_lt top).2.1
      rw [hsize, hoffset, hmemory, hmemory₂]
      exact h.inside_iff (low_lt _)

end

/-! ### All instructions -/

/-- The instructions that use EVM memory. -/
inductive MemoryUser
  | mem (i : MemInstr)
  | call (i : CallInstr)
  | create (i : CreateInstr)
  deriving DecidableEq, Repr

/-- The implementation. -/
def MemoryUser.core [Env] : MemoryUser → StackTop → Core Unit
  | .mem i => i.core
  | .call i => i.core
  | .create i => i.core

/-- The memory check of the instruction does not wrap. -/
def MemoryUser.CheckFits (i : MemoryUser) (top : StackTop) (s : ExecutionState) : Prop :=
  match i with
  | .mem i => i.CheckFits top s
  | .call i => i.CheckFits top s
  | .create _ => createCheckFits top s

/-- The operands with which the instruction uses no byte outside of the memory. -/
def MemoryUser.Fits (i : MemoryUser) (top : StackTop) (s : ExecutionState) : Prop :=
  match i with
  | .mem i => i.Fits top s
  | .call i => i.Fits top s
  | .create i => i.Fits top s

/-- Whatever its outcome, an instruction stays inside of EVM memory, with a memory check that does not
wrap, exactly when its check fits or is not reached, and its operands fit or it ends before it uses
the memory. -/
theorem memorySafe_iff [Env] (i : MemoryUser) (top : StackTop) {s : ExecutionState}
    (hs : s.memory.Valid) :
    Sat (i.core top) s
      (fun _ s' => Safe none s s' ↔
        (ChecksMemory s s' → i.CheckFits top s) ∧ (UsesMemory s s' → i.Fits top s))
      fun h s' => Safe (some h) s s' ↔
        (ChecksMemory s s' → i.CheckFits top s) ∧ (UsesMemory s s' → i.Fits top s) := by
  have hjudged : Judged (i.core top) s (i.CheckFits top s) (i.Fits top s) := by
    cases i with
    | mem i => exact judged_memInstr i hs
    | call i => exact judged_call i hs
    | create i => exact judged_create i hs
  exact Sat.mono hjudged (fun _ _ h => (h none).safe_iff) fun _ _ => Verdict.safe_iff

/-- `RETURN` of 64 bytes behind the first word: the memory grows to three words, and the output lies
inside of it. -/
theorem memorySafe_iff_return :
    let _ : Env := Env.zeroed
    ∃ s', (MemoryUser.mem .return_).core 1 (wordState 32 64) = .ok () s' ∧
      s'.trace = [.memRange 32 64, .memCheck 6 32 96, .memAccess 32 64 96] ∧
      Safe none (wordState 32 64) s' := by
  intro _
  have hend : endsWith (fun trace : List Event =>
      decide (trace = [.memRange 32 64, .memCheck 6 32 96, .memAccess 32 64 96]))
      (do MemInstr.return_.core 1; Core.read (·.trace)) (wordState 32 64) = true := by
    with_unfolding_all decide
  obtain ⟨trace, s', hrun, htrace⟩ := exists_of_endsWith hend
  obtain ⟨⟨⟩, s₁, hcore, hread⟩ := exists_of_bind hrun
  have hlist : s₁.trace = [.memRange 32 64, .memCheck 6 32 96, .memAccess 32 64 96] := by
    cases hread
    exact of_decide_eq_true htrace
  have hsafe := (memorySafe_iff (.mem .return_) 1 (s := wordState 32 64)
    ⟨by decide, by decide, fun _ => by simp [wordState]⟩).of_ok hcore
  have hcheck : (MemoryUser.mem .return_).CheckFits 1 (wordState 32 64) :=
    show RangeFits 100 32 32 64 by with_unfolding_all decide
  have huse : (MemoryUser.mem .return_).Fits 1 (wordState 32 64) :=
    show 32 + 64 < 2 ^ 64 by decide
  exact ⟨s₁, hcore, hlist, hsafe.2 ⟨fun _ => hcheck, fun _ => huse⟩⟩

/-- The ways in which the check of a `RETURN` wraps. The sum of offset and size wraps, and an output
outside of the memory is published; the number of words wraps, and the price raises the gas counter
from 100 to 103; the square of the number of words does not fit into `int64_t`. -/
theorem memorySafe_iff_wrap :
    let _ : Env := Env.zeroed
    (∃ s', (MemoryUser.mem .return_).core 1 (wordState 32 (BitVec.ofNat 64 (2 ^ 64 - 32))) =
        .ok () s' ∧ ¬ Safe none (wordState 32 (BitVec.ofNat 64 (2 ^ 64 - 32))) s') ∧
    (∃ s', (MemoryUser.mem .return_).core 1 (wordState 0 (BitVec.ofNat 64 (2 ^ 64 - 1))) =
        .error (.fault .assertFailed) s' ∧ s'.gasLeft = 103 ∧
        ¬ Safe (some (.fault .assertFailed)) (wordState 0 (BitVec.ofNat 64 (2 ^ 64 - 1))) s') ∧
    ∃ s', (MemoryUser.mem .return_).core 1 (wordState 0 97184016000) =
        .error (.fault .signedOverflow) s' ∧
        ¬ Safe (some (.fault .signedOverflow)) (wordState 0 97184016000) s' := by
  intro _
  -- What the three runs do, by evaluation.
  have hsum : endsWith (fun trace : List Event => decide (trace =
      [.memRange 32 (2 ^ 64 - 32), .memCheck 0 32 32, .memAccess 32 (2 ^ 64 - 32) 32]))
      (do MemInstr.return_.core 1; Core.read (·.trace))
      (wordState 32 (BitVec.ofNat 64 (2 ^ 64 - 32))) = true := by with_unfolding_all decide
  have hwords : failsWith (fun h (s' : ExecutionState) => decide (h = .fault .assertFailed ∧
      s'.gasLeft = 103 ∧ s'.trace = [.memRange 0 (2 ^ 64 - 1)])) (MemInstr.return_.core 1)
      (wordState 0 (BitVec.ofNat 64 (2 ^ 64 - 1))) = true := by with_unfolding_all decide
  have hsquare : failsWith (fun h (s' : ExecutionState) => decide (h = .fault .signedOverflow ∧
      s'.trace = [.memRange 0 97184016000])) (MemInstr.return_.core 1)
      (wordState 0 97184016000) = true := by with_unfolding_all decide
  refine ⟨?_, ?_, ?_⟩
  -- The published range is an access outside of the memory.
  · obtain ⟨trace, s', hrun, htrace⟩ := exists_of_endsWith hsum
    obtain ⟨⟨⟩, s₁, hcore, hread⟩ := exists_of_bind hrun
    have hlist : s₁.trace =
        [.memRange 32 (2 ^ 64 - 32), .memCheck 0 32 32, .memAccess 32 (2 ^ 64 - 32) 32] := by
      cases hread
      exact of_decide_eq_true htrace
    refine ⟨s₁, hcore, fun hsafe => ?_⟩
    obtain ⟨events, hevents, hinside, -⟩ := hsafe.events
    have hempty : (wordState 32 (BitVec.ofNat 64 (2 ^ 64 - 32))).trace = [] := rfl
    rw [hempty, List.nil_append, hlist] at hevents
    have h := hinside (.memAccess 32 (2 ^ 64 - 32) 32) (by rw [← hevents]; simp)
    exact absurd (h (by decide)) (by decide)
  -- The check is the last event of both failing runs, and no refusal for lack of gas.
  · obtain ⟨h, s', hcore, htest⟩ := exists_of_failsWith hwords
    obtain ⟨rfl, hgas, htrace⟩ := of_decide_eq_true htest
    exact ⟨s', hcore, hgas, not_safe_of_range htrace (by decide) (by decide)⟩
  · obtain ⟨h, s', hcore, htest⟩ := exists_of_failsWith hsquare
    obtain ⟨rfl, htrace⟩ := of_decide_eq_true htest
    exact ⟨s', hcore, not_safe_of_range htrace (by decide) (by decide)⟩

end TscVee
