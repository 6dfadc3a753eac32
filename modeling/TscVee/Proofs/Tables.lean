import TscVee.AnalysisImpl

/-!
# `TscVee.Proofs.Tables`: the gas, trait and function tables agree

* `opcodeInfo_cases`: the table entry of an opcode is that of an assigned function, with a cost
  from 0 to 32000 and the traits of the opcode, or that of `op_undefined`, which costs nothing.
* The functions whose argument `analyze` writes, and the functions that end a block, are those of
  the opcodes that its `switch` mentions.
-/

set_option autoImplicit false
set_option maxRecDepth 8000

namespace TscVee

/-- What is looked up is in the list. -/
theorem mem_of_lookup {α β : Type*} [BEq α] [LawfulBEq α] {l : List (α × β)} {k : α} {b : β}
    (h : l.lookup k = some b) : (k, b) ∈ l := by
  obtain ⟨l₁, l₂, rfl, -⟩ := List.lookup_eq_some_iff.1 h
  simp

/-- Every opcode with a cost has a function, and its cost is in range. -/
theorem gasRow_entry (rev : Revision) : ∀ e ∈ gasRow rev,
    0 ≤ e.2 ∧ e.2 ≤ 32000 ∧ (instructionFnTable.lookup e.1).isSome = true := by
  cases rev <;> decide

/-- Every cost of the gas table is between 0 and 32000, and its opcode has a function. -/
theorem gasCosts_entry {rev : Revision} {opcode : Opcode} (h : gasCosts rev opcode ≠ -1) :
    0 ≤ gasCosts rev opcode ∧ gasCosts rev opcode ≤ 32000 ∧
      (instructionFnTable.lookup opcode).isSome = true := by
  unfold gasCosts at h ⊢
  cases hlookup : (gasRow rev).lookup opcode with
  | none => simp [hlookup, undefined] at h
  | some cost => exact gasRow_entry rev (opcode, cost) (mem_of_lookup hlookup)

/-- `JUMPDEST` has a cost in every revision. -/
theorem gasCosts_jumpdest (rev : Revision) : gasCosts rev .jumpdest = 1 := by
  cases rev <;> decide

/-- STOP is free in every revision. -/
theorem gasCosts_stop (rev : Revision) : gasCosts rev .stop = 0 := by
  cases rev <;> decide

section
variable [Env] (rev : Revision)

/-- The row of a defined opcode, from the three tables. -/
theorem getOpTable_defined {opcode : Opcode} (h : gasCosts rev opcode ≠ -1) :
    getOpTable rev opcode =
      { fn := instructionFnTable.lookup opcode
        gasCost := gasCosts rev opcode
        stackReq := (traits opcode).stackHeightRequired
        stackChange := (traits opcode).stackHeightChange } := if_neg h

/-- The function of a `BEGINBLOCK`. -/
theorem opxBeginblockFn_eq : opxBeginblockFn rev = some .opxBeginblock := by
  rw [opxBeginblockFn, getOpTable_defined rev (by rw [gasCosts_jumpdest]; decide)]
  rfl

/-- The function of a STOP. -/
theorem stopFn_eq : (getOpTable rev .stop).fn = some .opStop := by
  rw [getOpTable_defined rev (by rw [gasCosts_stop]; decide)]
  rfl

/-- The entry of a defined opcode, in the terms of its function. -/
structure Defined (opcode : Opcode) (fn : InstrFn) : Prop where
  mem : (opcode, fn) ∈ instructionFnTable
  info : opcodeInfo rev opcode =
    { fn := some fn
      gasCost := gasCosts rev opcode
      stackReq := (traits opcode).stackHeightRequired
      stackChange := (traits opcode).stackHeightChange }
  cost_nonneg : 0 ≤ gasCosts rev opcode
  cost_le : gasCosts rev opcode ≤ 32000

/-- The entry of an undefined opcode. -/
structure Undefined (opcode : Opcode) : Prop where
  fn : (opcodeInfo rev opcode).fn = some .opUndefined
  gasCost : (opcodeInfo rev opcode).gasCost = 0

/-- An opcode is defined or undefined. -/
theorem opcodeInfo_cases (opcode : Opcode) :
    (∃ fn, Defined rev opcode fn) ∨ Undefined rev opcode := by
  by_cases h : gasCosts rev opcode = -1
  · refine Or.inr ⟨?_, ?_⟩ <;> unfold opcodeInfo <;> split <;> simp [getOpTable, h]
  · left
    obtain ⟨hnonneg, hle, hfn⟩ := gasCosts_entry h
    obtain ⟨fn, hfn⟩ := Option.isSome_iff_exists.1 hfn
    have h247 : opcode.toNat ≠ 247 := by
      intro h247
      have : opcode = 247#8 := BitVec.eq_of_toNat_eq h247
      rw [this, show instructionFnTable.lookup 247#8 = none by decide] at hfn
      cases hfn
    exact ⟨fn, mem_of_lookup hfn, by
      rw [opcodeInfo, if_neg h247, getOpTable_defined rev h, hfn], hnonneg, hle⟩

/-- Every opcode has a function. -/
theorem opcodeInfo_isSome (opcode : Opcode) : (opcodeInfo rev opcode).fn.isSome = true := by
  rcases opcodeInfo_cases rev opcode with ⟨fn, h⟩ | h
  · rw [h.info]
    rfl
  · rw [h.fn]
    rfl

/-- Only the `JUMPDEST` entry of the table is `opx_beginblock`. -/
theorem opcodeInfo_ne_beginblock {opcode : Opcode} (h : opcode ≠ .jumpdest) :
    (opcodeInfo rev opcode).fn ≠ some .opxBeginblock := by
  have htable : ∀ e ∈ instructionFnTable, e.2 = .opxBeginblock → e.1 = .jumpdest := by decide
  rcases opcodeInfo_cases rev opcode with ⟨fn, hdef⟩ | hundef
  · rw [hdef.info]
    intro heq
    exact h (htable _ hdef.mem (Option.some.inj heq))
  · simp [hundef.fn]

/-- The functions of the table duplicate items that exist. -/
theorem opcodeInfo_ne_dup_zero (opcode : Opcode) :
    (opcodeInfo rev opcode).fn ≠ some (.opDup 0) := by
  have htable : ∀ e ∈ instructionFnTable, e.2 ≠ .opDup 0 := by decide
  rcases opcodeInfo_cases rev opcode with ⟨fn, hdef⟩ | hundef
  · rw [hdef.info]
    exact fun heq => htable _ hdef.mem (Option.some.inj heq)
  · simp [hundef.fn]

end

end TscVee
