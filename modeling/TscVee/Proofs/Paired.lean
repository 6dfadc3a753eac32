import TscVee.Proofs.NaiveCall
import TscVee.Proofs.Termination

/-!
# `TscVee.Proofs.Paired`: the two interpreters side by side

The interpreter of the source stands at an index of the instruction table, in the state `s`. The
naive one stands at the position of the code with the same operations in front of it, and its gas
counter is larger by what the rest of the current block costs, because only the source has paid for
that.

* `SummariesFit`: the figures of each block fit into `struct BlockInfo`.
* `PairedAt`: the two interpreters are at the same place, at a boundary of two blocks or inside one.
* `Behind.paired`: the place behind some operations of a block.
* `opxBeginblock_ok_iff`: which states enter a block, and how.
-/

set_option autoImplicit false

namespace TscVee

open TscVee.Core Exec Lib

variable {code : List Byte}

/-- The boundary of two blocks, at an index of the table and at a position of the code. -/
inductive BoundaryAt (code : List Byte) (i p : Nat) : Prop
  | start (before : List (List Op)) (block : List Op) (after : List (List Op))
      (h : StartsBlock code before block after i) (hfaces : Faces code p (block ++ after.flatten))
  | stop (h : i = layoutSize (blocks (decode code))) (hfaces : Faces code p [])

section
variable [Env] (rev : Revision)

/-- No figure of a block is cut off in `struct BlockInfo`. -/
def SummariesFit (code : List Byte) : Prop :=
  ∀ block ∈ blocks (decode code), totalCost (contributions rev block) < 2 ^ 32 ∧
    (summary rev 0 block).stackReq ≤ 2 ^ 15 - 1 ∧ (summary rev 0 block).stackMaxGrowth ≤ 2 ^ 15 - 1

/-- The place behind the operations `done` of a block that was entered with a stack of `start`
items. -/
structure Inside (code : List Byte) (before : List (List Op)) (done rest : List Op)
    (after : List (List Op)) (start : Int) (i p : Nat) (s : AdvancedExecutionState) : Prop where
  behind : Behind code before done rest after i
  faces : Faces code p (rest ++ after.flatten)
  cost : (s.currentBlockCost : Int) = totalCost (contributions rev (done ++ rest))
  defined : ∀ op ∈ done, gasCosts rev op.opcode ≠ -1
  checked : Checked rev (done ++ rest) start
  start_le : 0 ≤ start ∧ start ≤ 1024
  height : s.stackSize = start + netChange (contributions rev done)

/-- The source at the index `i`, in the state `s`, and the naive interpreter at the position `p`, in
the state `n`. -/
inductive PairedAt (code : List Byte) (i p : Nat) (s n : AdvancedExecutionState) : Prop
  | boundary (h : BoundaryAt code i p) (hn : n = s.moved 0 0)
  | inside (before : List (List Op)) (done : List Op) (op : Op) (rest : List Op)
      (after : List (List Op)) (start : Int)
      (h : Inside rev code before done (op :: rest) after start i p s)
      (hn : n = s.moved 0 (totalCost (contributions rev (op :: rest))))

variable {rev} {before after : List (List Op)} {done rest : List Op} {op : Op} {start : Int}
  {i p : Nat} {s n : AdvancedExecutionState}

omit [Env] in
/-- The cost of the first operation and of the rest. -/
theorem totalCost_cons (op : Op) (rest : List Op) :
    totalCost (contributions rev (op :: rest)) =
      (contribution rev op.opcode).cost + totalCost (contributions rev rest) := by
  simp [contributions, totalCost]

/-- Behind the last operation of a block is the boundary to the next one. -/
theorem Inside.boundaryAt (h : Inside rev code before done [] after start i p s) :
    BoundaryAt code i p := by
  have hfaces := h.faces
  obtain ⟨hblocks, hindex, -⟩ := h.behind
  rw [List.append_nil] at hblocks
  have hsize : i = layoutSize (before ++ [done]) := by
    rw [layoutSize_append, layoutSize_singleton, hindex]
  cases after with
  | nil => exact .stop (by rw [hsize, hblocks]) hfaces
  | cons next after =>
      exact .start (before ++ [done]) next after ⟨by rw [hblocks]; simp, hsize⟩
        (by simpa using hfaces)

/-- The two interpreters behind some operations of a block. -/
theorem Inside.paired (h : Inside rev code before done rest after start i p s)
    (hn : n = s.moved 0 (totalCost (contributions rev rest))) : PairedAt rev code i p s n := by
  cases rest with
  | nil => exact .boundary h.boundaryAt hn
  | cons op rest => exact .inside before done op rest after start h hn

/-- Behind the next operation. -/
theorem Inside.next (h : Inside rev code before done (op :: rest) after start i p s)
    (hop : gasCosts rev op.opcode ≠ -1) {s' : AdvancedExecutionState}
    (hcost : s'.currentBlockCost = s.currentBlockCost)
    (hheight : s'.stackSize = s.stackSize + (traits op.opcode).stackHeightChange) :
    Inside rev code before (done ++ [op]) rest after start (i + 1) (p + 1 + immSize op.opcode)
      s' := by
  have hsplit : done ++ op :: rest = done ++ [op] ++ rest := by simp
  have hchange : netChange (contributions rev (done ++ [op])) =
      netChange (contributions rev done) + (traits op.opcode).stackHeightChange := by
    have hcs : contributions rev (done ++ [op]) =
        contributions rev done ++ [contribution rev op.opcode] := List.map_append
    rw [hcs, netChange_concat, contribution, if_neg hop]
  refine ⟨h.behind.succ, h.faces.next, ?_, fun x hx => ?_, hsplit ▸ h.checked, h.start_le, ?_⟩
  · rw [hcost, h.cost, hsplit]
  · rcases List.mem_append.1 hx with hx | hx
    · exact h.defined x hx
    · rw [List.mem_singleton.1 hx]
      exact hop
  · rw [hheight, h.height, hchange, Int.add_assoc]

/-- What the next operation of a block that was entered finds on the stack. -/
theorem Inside.room (h : Inside rev code before done (op :: rest) after start i p s)
    (hop : gasCosts rev op.opcode ≠ -1) :
    (traits op.opcode).stackHeightRequired ≤ s.stackSize ∧
      s.stackSize + (traits op.opcode).stackHeightChange ≤ 1024 := by
  rw [h.height]
  refine h.checked.next h.start_le fun x hx => ?_
  rcases List.mem_append.1 hx with hx | hx
  · exact h.defined x hx
  · rw [List.mem_singleton.1 hx]
    exact hop

/-! ### The start of a block -/

omit [Env] in
/-- A block is entered by the states that pass its check, with its cost charged. -/
theorem opxBeginblock_ok_iff {instr j : Nat} {block : BlockInfo} {s' : AdvancedExecutionState} :
    opxBeginblock instr (.block block) s = .ok (some j) s' ↔
      isInt64 (s.estate.gasLeft - block.gasCost) ∧ 0 ≤ s.estate.gasLeft - block.gasCost ∧
      block.stackReq ≤ s.stackSize ∧ s.stackSize + block.stackMaxGrowth ≤ 1024 ∧ j = instr + 1 ∧
      s' = { s.charged block.gasCost with currentBlockCost := block.gasCost } := by
  unfold opxBeginblock
  simp only
  constructor
  · intro h
    obtain ⟨_, t, hsub, h⟩ := exists_of_bind h
    obtain ⟨hfits, rfl⟩ := subGas_charged_iff.1 hsub
    obtain ⟨t, _, hget, h⟩ := exists_of_bind h
    cases hget
    split at h
    · cases h
    split at h
    · cases h
    split at h
    · cases h
    -- All three checks have passed.
    case isFalse hgas hitems hroom =>
      cases h
      exact ⟨hfits, not_lt.1 hgas, not_lt.1 hitems, not_lt.1 hroom, rfl, rfl⟩
  · rintro ⟨hfits, hgas, hitems, hroom, rfl, rfl⟩
    refine ok_bind (subGas_charged_iff.2 ⟨hfits, rfl⟩) (ok_bind rfl ?_)
    have hgas : ¬ (s.charged block.gasCost).estate.gasLeft < 0 := not_lt.2 hgas
    have hitems : ¬ (s.charged block.gasCost).stackSize < block.stackReq := not_lt.2 hitems
    have hroom : ¬ (s.charged block.gasCost).stackSize + block.stackMaxGrowth > 1024 :=
      not_lt.2 hroom
    simp only [if_neg hgas, if_neg hitems, if_neg hroom]
    rfl

omit [Env] in
/-- A block has at most one `JUMPDEST`, at its start. -/
theorem done_of_jumpdests (hblock : done ++ rest ∈ blocks (decode code))
    (hdone : ∀ op ∈ done, op.isJumpdest = true) : done = [] ∨ ∃ op, done = [op] := by
  cases done with
  | nil => exact .inl rfl
  | cons op done =>
      cases done with
      | nil => exact .inr ⟨op, rfl⟩
      | cons next done =>
          have hnext := blocks_tail hblock next (by simp)
          rw [hdone next (by simp)] at hnext
          cases hnext

omit [Env] in
/-- A small number is stored exactly. -/
theorem narrows_of_le {x : Int} (h : x ≤ 2 ^ 15 - 1) : Narrows x := by
  unfold Narrows
  rw [toInt16_eq]
  omega

/-- A state that enters a block is behind its `JUMPDEST`. -/
theorem StartsBlock.inside (hfit : SummariesFit rev code) {block : List Op}
    (h : StartsBlock code before block after i) (hfaces : Faces code p (block ++ after.flatten))
    (hs : StackIn s) {j : Nat} {s' : AdvancedExecutionState}
    (hok : opxBeginblock i (.block (summary rev 0 block).close) s = .ok (some j) s') :
    j = i + 1 ∧ totalCost (contributions rev block) ≤ s.estate.gasLeft ∧
      s' = { s.charged (totalCost (contributions rev block)) with
        currentBlockCost := (summary rev 0 block).close.gasCost } ∧
      ∃ done rest, block = done ++ rest ∧ (∀ op ∈ done, op.isJumpdest = true) ∧
        (done = [] ∨ ∃ op, done = [op]) ∧
        Inside rev code before done rest after s.stackSize (i + 1) (p + done.length) s' := by
  have hmem : block ∈ TscVee.blocks (TscVee.decode code) := by
    rw [h.blocks]
    simp
  -- The figures of the block fit, so the summary says what the instructions need.
  obtain ⟨hcost, hreq, hgrowth⟩ := hfit block hmem
  have hclose := summary_close_gasCost rev hcost
  obtain ⟨-, hgas, hitems, hroom, rfl, rfl⟩ := opxBeginblock_ok_iff.1 hok
  rw [hclose] at hgas ⊢
  obtain ⟨done, rest, rfl, hdone, hbehind⟩ := h.enter
  have hshort := done_of_jumpdests hmem hdone
  refine ⟨rfl, by omega, rfl, done, rest, rfl, hdone, hshort, hbehind, ?_, hclose, ?_, ?_,
    ⟨hs.nonneg, hs.le⟩, ?_⟩
  · -- The `JUMPDEST` has no immediate bytes.
    rcases hshort with rfl | ⟨op, rfl⟩
    · exact hfaces
    · have hnext := hfaces.next
      rwa [eq_of_beq (hdone op List.mem_cons_self), immSize_jumpdest] at hnext
  · intro op hop
    rw [eq_of_beq (hdone op hop), gasCosts_jumpdest]
    decide
  -- The two tests of `BEGINBLOCK` are those of the instructions.
  · exact checked_of_narrows ⟨hs.nonneg, hs.le⟩ (narrows_of_le hreq) (narrows_of_le hgrowth) hitems
      hroom
  · have hzero : netChange (contributions rev done) = 0 := by
      rcases hshort with rfl | ⟨op, rfl⟩
      · rfl
      · rw [contributions, List.map_singleton, eq_of_beq (hdone op List.mem_cons_self),
          contribution, gasCosts_jumpdest]
        rfl
    rw [hzero, Int.add_zero]
    rfl

end

end TscVee
