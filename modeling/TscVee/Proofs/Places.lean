import TscVee.Proofs.InstrTable
import TscVee.Proofs.RunRules
import TscVee.Proofs.Summary

/-!
# `TscVee.Proofs.Places`: where an instruction stands in the code

The run of a code goes through its basic blocks. An index of the instruction table is the boundary
of two blocks (`Boundary`), where the next block starts or the appended `STOP` stands, or it stands
behind some operations of a block whose `BEGINBLOCK` has run (`Behind`).

* `Boundary.enter`: behind the `BEGINBLOCK` of a block, with its `JUMPDEST` counted as done.
* `Behind.succ`, `Behind.boundary`: behind the next operation, and at the end of the block.
* `Behind.instr`, `Behind.entry`: the instruction and the entry of the table for the next operation.
-/

set_option autoImplicit false

namespace TscVee

open Lib

variable {code : List Byte}

/-- The index at which `block` starts, between the blocks `before` and `after` of the code. -/
structure StartsBlock (code : List Byte) (before : List (List Op)) (block : List Op)
    (after : List (List Op)) (i : Nat) : Prop where
  blocks : blocks (decode code) = before ++ block :: after
  index : i = layoutSize before

/-- A block starts at the index, or the appended `STOP` stands there. -/
def Boundary (code : List Byte) (i : Nat) : Prop :=
  (∃ before block after, StartsBlock code before block after i) ∨
    i = layoutSize (blocks (decode code))

/-- The index behind the operations `done` of a block, and in front of `rest`. -/
structure Behind (code : List Byte) (before : List (List Op)) (done rest : List Op)
    (after : List (List Op)) (i : Nat) : Prop where
  blocks : blocks (decode code) = before ++ (done ++ rest) :: after
  index : i = layoutSize before + blockSize done
  rest : ∀ op ∈ rest, op.isJumpdest = false

/-- The size of two lists of blocks. -/
theorem layoutSize_append (bs bs' : List (List Op)) :
    layoutSize (bs ++ bs') = layoutSize bs + layoutSize bs' := by
  simp [layoutSize]

/-- The size of one block. -/
theorem layoutSize_singleton (block : List Op) : layoutSize [block] = blockSize block := by
  simp [layoutSize]

/-- The size of a block with more operations, none of them a `JUMPDEST`. -/
theorem blockSize_append (xs ys : List Op) (h : ∀ op ∈ ys, op.isJumpdest = false) :
    blockSize (xs ++ ys) = blockSize xs + ys.length := by
  have hys : (ys.countP fun op => !op.isJumpdest) = ys.length :=
    List.countP_eq_length.2 fun op hop => by simp [h op hop]
  rw [blockSize, blockSize, List.countP_append, hys, Nat.add_assoc]

section
variable {before after : List (List Op)} {done rest : List Op} {op : Op} {i : Nat}

/-- The operations in front of the first one with an instruction of its own. -/
theorem StartsBlock.enter {block : List Op} (h : StartsBlock code before block after i) :
    ∃ done rest, block = done ++ rest ∧ (∀ op ∈ done, op.isJumpdest = true) ∧
      Behind code before done rest after (i + 1) := by
  have hmem : block ∈ TscVee.blocks (decode code) := by
    rw [h.blocks]
    simp
  have htail := blocks_tail hmem
  have hindex : ∀ done : List Op, (∀ op ∈ done, op.isJumpdest = true) →
      i + 1 = layoutSize before + blockSize done := fun done hdone => by
    have hzero : (done.countP fun op => !op.isJumpdest) = 0 :=
      List.countP_eq_zero.2 fun op hop => by simp [hdone op hop]
    rw [h.index, blockSize, hzero]
  have hnil : ∀ b : Bool, ∀ op ∈ ([] : List Op), op.isJumpdest = b := by simp
  -- A JUMPDEST can only be the first operation, and has no instruction of its own.
  cases block with
  | nil => exact ⟨[], [], rfl, hnil true, h.blocks, hindex [] (hnil true), hnil false⟩
  | cons op rest =>
      by_cases hop : op.isJumpdest
      · have hone : ∀ x ∈ [op], x.isJumpdest = true := by simpa using hop
        exact ⟨[op], rest, rfl, hone, h.blocks, hindex _ hone, htail⟩
      · refine ⟨[], op :: rest, rfl, hnil true, h.blocks, hindex [] (hnil true), ?_⟩
        rw [List.forall_mem_cons]
        exact ⟨by simpa using hop, htail⟩

/-- One operation further in the block. -/
theorem Behind.succ (h : Behind code before done (op :: rest) after i) :
    Behind code before (done ++ [op]) rest after (i + 1) := by
  obtain ⟨hblocks, hindex, hrest⟩ := h
  rw [List.forall_mem_cons] at hrest
  refine ⟨by rw [hblocks, List.append_assoc, List.singleton_append], ?_, hrest.2⟩
  rw [blockSize_append _ _ (by simpa using hrest.1), hindex, List.length_singleton, Nat.add_assoc]

/-- Behind the last operation of a block, the next block starts. -/
theorem Behind.boundary (h : Behind code before done [] after i) : Boundary code i := by
  obtain ⟨hblocks, hindex, -⟩ := h
  rw [List.append_nil] at hblocks
  have hsize : i = layoutSize (before ++ [done]) := by
    rw [layoutSize_append, layoutSize_singleton, hindex]
  cases after with
  | nil => exact Or.inr (by rw [hsize, hblocks])
  | cons next after =>
      exact Or.inl ⟨before ++ [done], next, after, by rw [hblocks]; simp, hsize⟩

end

section
variable [Env] (rev : Revision) {before after : List (List Op)} {done rest : List Op} {op : Op}
  {i : Nat}

/-- The instruction at the start of a block. -/
theorem StartsBlock.instr {block : List Op} (h : StartsBlock code before block after i) :
    (analyzeCode rev code).instrs[i]? =
      some ⟨some .opxBeginblock, .block (summary rev 0 block).close⟩ := by
  rw [h.index]
  exact analyzeCode_instrs_beginblock rev h.blocks

/-- The instruction for the next operation. -/
theorem Behind.instr (h : Behind code before done (op :: rest) after i) :
    (analyzeCode rev code).instrs[i]? =
      some (op.instr rev (summary rev 0 (done ++ [op])).gasCost) := by
  obtain ⟨hblocks, hindex, hrest⟩ := h
  have hop : op.isJumpdest = false := hrest op List.mem_cons_self
  have hlength : (blockInstrs rev (blockAnalysisInitV 0) done).length + 1 = blockSize done := by
    rw [blockInstrs_length, blockSize, Nat.add_comm]
  rw [hindex, ← List.getElem?_drop, analyzeCode_instrs_drop rev hblocks, layoutBlock, ← hlength,
    List.cons_append, List.getElem?_cons_succ, blockInstrs_append, List.append_assoc,
    List.getElem?_append_right (le_refl _), Nat.sub_self, blockInstrs, if_neg (by simp [hop]),
    summary_concat]
  rfl

/-- The appended `STOP`. -/
theorem stop_instr :
    (analyzeCode rev code).instrs[layoutSize (blocks (decode code))]? =
      some ⟨some .opStop, .uninit⟩ := by
  rw [analyzeCode_instrs, ← layout_length rev, List.getElem?_append_right (le_refl _), Nat.sub_self,
    stopFn_eq]
  rfl

end

/-! ### The entries of the table -/

/-- The entries of a block: one for its start, and one for each operation but a `JUMPDEST`. -/
def blockEntries (block : List Op) : List Entry :=
  .beginblock :: (block.filter fun op => !op.isJumpdest).map .op

/-- A block has as many entries as instructions. -/
theorem blockEntries_length (block : List Op) : (blockEntries block).length = blockSize block := by
  rw [blockEntries, List.length_cons, List.length_map, blockSize, List.countP_eq_length_filter,
    Nat.add_comm]

/-- So have all the blocks. -/
theorem flatMap_blockEntries_length (bs : List (List Op)) :
    (bs.flatMap blockEntries).length = layoutSize bs := by
  rw [List.length_flatMap, layoutSize]
  exact congrArg List.sum (List.map_congr_left fun block _ => blockEntries_length block)

/-- The table has the entries of the blocks and a last STOP. -/
theorem tableOf_eq (code : List Byte) :
    tableOf code = (blocks (decode code)).flatMap blockEntries ++ [.stop] := entries_eq (decode code)

/-- The entries from a block on. -/
theorem tableOf_drop {before after : List (List Op)} {block : List Op}
    (h : blocks (decode code) = before ++ block :: after) :
    (tableOf code).drop (layoutSize before) =
      blockEntries block ++ (after.flatMap blockEntries ++ [.stop]) := by
  rw [tableOf_eq, h, List.flatMap_append, List.flatMap_cons, ← flatMap_blockEntries_length,
    List.append_assoc, List.drop_left, List.append_assoc]

/-- The entry for the next operation. -/
theorem Behind.entry {before after : List (List Op)} {done rest : List Op} {op : Op} {i : Nat}
    (h : Behind code before done (op :: rest) after i) : (tableOf code)[i]? = some (.op op) := by
  obtain ⟨hblocks, hindex, hrest⟩ := h
  have hop : op.isJumpdest = false := hrest op List.mem_cons_self
  have hsplit : blockEntries (done ++ op :: rest) =
      blockEntries done ++ .op op :: (rest.filter fun op => !op.isJumpdest).map .op := by
    rw [blockEntries, List.filter_append, List.filter_cons_of_pos (by simp [hop]), List.map_append]
    rfl
  rw [hindex, ← List.getElem?_drop, tableOf_drop hblocks, hsplit, ← blockEntries_length,
    List.append_assoc, List.getElem?_append_right (le_refl _), Nat.sub_self]
  rfl

/-- At a boundary no operation is to run. -/
theorem Boundary.entry {i : Nat} (h : Boundary code i) (op : Op) :
    (tableOf code)[i]? ≠ some (.op op) := by
  rcases h with ⟨before, block, after, hblocks, rfl⟩ | rfl
  · rw [← Nat.add_zero (layoutSize before), ← List.getElem?_drop, tableOf_drop hblocks]
    simp [blockEntries]
  · rw [tableOf_eq, ← flatMap_blockEntries_length, List.getElem?_append_right (le_refl _),
      Nat.sub_self]
    simp

end TscVee
