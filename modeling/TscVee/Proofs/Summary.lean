import Mathlib.Algebra.Order.BigOperators.Group.List
import Mathlib.Data.List.Induction
import TscVee.Proofs.Jumpdest
import TscVee.Proofs.Tables
import TscVee.Proofs.Words
import TscVee.Spec.Needs

/-!
# `TscVee.Proofs.Summary`: the figures of a basic block

* `contribution`: what an opcode is to add to its block, and `Contributes`: the op table says so.
  `contributes_iff` tells for which opcodes it does.
* `Tracks`: how the `int` figures of `BlockAnalysis` follow the true ones. They are equal until one
  of them passes `2 ^ 31`, and stay next to that limit from then on.
* `countOps_exact`: the figures decide underflow and overflow for every entry height.
* `summaries_iff`: which blocks get their true summary, cut off at the limits of the narrow types.
-/

set_option autoImplicit false
set_option maxRecDepth 8000

namespace TscVee

/-! ### What an opcode contributes -/

/-- What an opcode is to add to the summary of its block. An undefined one adds nothing. -/
def contribution (rev : Revision) (opcode : Opcode) : Contribution :=
  if gasCosts rev opcode = -1 then ⟨0, 0, 0⟩
  else
    { cost := gasCosts rev opcode
      req := (traits opcode).stackHeightRequired
      change := (traits opcode).stackHeightChange }

/-- What the operations of a block are to add, in their order. -/
def contributions (rev : Revision) (ops : List Op) : List Contribution :=
  ops.map fun op => contribution rev op.opcode

/-- Every row of the traits table changes the height by at most one upwards, and by at most what it
requires downwards. -/
theorem contribution_sound (rev : Revision) (opcode : Opcode) : (contribution rev opcode).Sound := by
  have htable : ∀ e ∈ traitsTable, 0 ≤ e.2.stackHeightRequired ∧ e.2.stackHeightRequired ≤ 17 ∧
      -e.2.stackHeightChange ≤ e.2.stackHeightRequired ∧ e.2.stackHeightChange ≤ 1 := by decide
  unfold contribution traits
  split
  · exact ⟨by decide, by decide, by decide, by decide⟩
  · cases h : traitsTable.lookup opcode with
    | none => exact ⟨le_refl 0, Int.natCast_nonneg 17, le_refl 0, Int.natCast_nonneg 1⟩
    | some t =>
        obtain ⟨h1, h2, h3, h4⟩ := htable _ (mem_of_lookup h)
        exact ⟨h1, h2, h3, h4⟩

/-- So do all the operations of a block. -/
theorem contributions_sound (rev : Revision) (ops : List Op) :
    ∀ c ∈ contributions rev ops, c.Sound := by
  intro c hc
  obtain ⟨op, -, rfl⟩ := List.mem_map.1 hc
  exact contribution_sound rev op.opcode

section
variable [Env] (rev : Revision)

/-- The op table holds what the opcode is to contribute. -/
def Contributes (opcode : Opcode) : Prop :=
  (opcodeInfo rev opcode).gasCost = (contribution rev opcode).cost ∧
    (opcodeInfo rev opcode).stackReq = (contribution rev opcode).req ∧
    (opcodeInfo rev opcode).stackChange = (contribution rev opcode).change

/-- The fields of an undefined opcode that `get_op_table` does not write happen to be zero, or the
opcode is 247, for which `analyze` clears them. -/
def ReadsZero (opcode : Opcode) : Prop := opcode = 247 ∨ Env.opTableEntry opcode = (0, 0)

variable {rev} in
/-- An opcode with a cost is in the op table as it is to be. -/
theorem contributes_of_defined {opcode : Opcode} (h : gasCosts rev opcode ≠ -1) :
    Contributes rev opcode := by
  rcases opcodeInfo_cases rev opcode with ⟨fn, hdef⟩ | hundef
  · rw [Contributes, contribution, if_neg h, hdef.info]
    exact ⟨rfl, rfl, rfl⟩
  · -- The entry of a defined opcode holds its own function.
    have h247 : opcode.toNat ≠ 247 := by
      intro h247
      have heq : opcode = 247#8 := BitVec.eq_of_toNat_eq h247
      have := (gasCosts_entry h).2.2
      rw [heq, show instructionFnTable.lookup 247#8 = none by decide] at this
      cases this
    rw [Contributes, contribution, if_neg h, opcodeInfo, if_neg h247, getOpTable_defined rev h]
    exact ⟨rfl, rfl, rfl⟩

/-- The cost of an opcode is always written. -/
theorem opcodeInfo_gasCost_eq (opcode : Opcode) :
    (opcodeInfo rev opcode).gasCost = (contribution rev opcode).cost := by
  by_cases h : gasCosts rev opcode = -1
  · simp only [contribution, h, if_true, opcodeInfo]
    split
    · rfl
    · simp only [getOpTable, h, if_true]
  · exact (contributes_of_defined h).1

/-- An undefined opcode contributes nothing exactly when its entry, which is not written, reads
zero. -/
theorem contributes_iff (opcode : Opcode) :
    Contributes rev opcode ↔ (gasCosts rev opcode = -1 → ReadsZero opcode) := by
  by_cases h : gasCosts rev opcode = -1
  case neg => exact iff_of_true (contributes_of_defined h) fun heq => absurd heq h
  have hzero : ∀ x : BitVec 8, x.toInt = 0 ↔ x = 0 := fun x => by
    rw [← BitVec.toInt_inj]
    rfl
  simp only [Contributes, contribution, ReadsZero, h, if_true, true_implies, opcodeInfo]
  split
  case isTrue h247 =>
    have : opcode = 247 := BitVec.eq_of_toNat_eq h247
    simp [this]
  case isFalse h247 =>
    have hne : opcode ≠ 247 := fun heq => h247 (by rw [heq]; rfl)
    simp only [getOpTable, h, if_true, hne, false_or, true_and, hzero, Prod.ext_iff]

/-! ### The figures of a block -/

/-- The figures of the analyser for a block are the true ones. -/
structure Exact (block : BlockAnalysis) (cs : List Contribution) : Prop where
  stackReq : block.stackReq = required cs
  stackChange : block.stackChange = netChange cs
  stackMaxGrowth : block.stackMaxGrowth = growth cs
  req_lt : required cs < 2 ^ 31
  growth_lt : growth cs < 2 ^ 31

/-- How the figures of the analyser follow the true ones. -/
structure Tracks (block : BlockAnalysis) (cs : List Contribution) : Prop where
  gasCost : block.gasCost = totalCost cs
  req_lt : block.stackReq < 2 ^ 31
  growth_lt : block.stackMaxGrowth < 2 ^ 31
  /-- Equal, or one of them has passed the largest `int`. -/
  figures : Exact block cs ∨
    (2 ^ 31 - 17 ≤ block.stackReq ∧ 2 ^ 31 ≤ required cs) ∨
    (2 ^ 31 - 1 ≤ block.stackMaxGrowth ∧ 2 ^ 31 ≤ growth cs)

omit [Env] in
/-- One more opcode. -/
theorem Tracks.count {block : BlockAnalysis} {cs : List Contribution} (h : Tracks block cs)
    (hs : ∀ c ∈ cs, c.Sound) {c : Contribution} (hc : c.Sound) {info : OpTableEntry}
    (hcost : info.gasCost = c.cost) (hreq : info.stackReq = c.req)
    (hchange : info.stackChange = c.change) : Tracks (block.count info) (cs ++ [c]) := by
  have hreqlt := toInt32_lt (info.stackReq - block.stackChange)
  have hchangelt := toInt32_lt (block.stackChange + info.stackChange)
  have hreq' := required_concat hs hc
  have hgrowth' := growth_concat cs c
  have hneg := neg_netChange_le_required hs
  have hpos := netChange_le_growth cs
  refine ⟨?_, ?_, ?_, ?_⟩
  · rw [BlockAnalysis.count, totalCost_concat, h.gasCost, hcost]
  · have := h.req_lt
    simp only [BlockAnalysis.count]
    omega
  · have := h.growth_lt
    simp only [BlockAnalysis.count]
    omega
  -- The figures are exact, or one of them has passed the largest `int` before.
  rcases h.figures with ⟨h1, h2, h3, h4, h5⟩ | ⟨h1, h2⟩ | ⟨h1, h2⟩
  · obtain ⟨hc1, hc2, hc3, hc4⟩ := hc
    by_cases hwrapreq : 2 ^ 31 ≤ c.req - netChange cs
    · -- The requirement passes the limit, and the one so far is at least the items removed.
      refine Or.inr (Or.inl ⟨?_, by omega⟩)
      simp only [BlockAnalysis.count]
      omega
    by_cases hwrapgrowth : 2 ^ 31 ≤ netChange cs + c.change
    · -- The height grows by at most one, so it has just passed the largest `int`.
      refine Or.inr (Or.inr ⟨?_, by omega⟩)
      simp only [BlockAnalysis.count]
      omega
    -- Nothing wraps: the three figures follow the sums.
    have heq1 : toInt32 (info.stackReq - block.stackChange) = c.req - netChange cs := by
      rw [hreq, h2, toInt32_eq] <;> omega
    have heq2 : toInt32 (block.stackChange + info.stackChange) = netChange cs + c.change := by
      rw [hchange, h2, toInt32_eq] <;> omega
    refine Or.inl ⟨?_, ?_, ?_, by omega, by omega⟩
    · simp only [BlockAnalysis.count, heq1, h1, hreq']
    · simp only [BlockAnalysis.count, heq2, netChange_concat]
    · simp only [BlockAnalysis.count, heq2, h3, hgrowth']
  -- A figure that is too large stays so.
  · refine Or.inr (Or.inl ⟨?_, by omega⟩)
    simp only [BlockAnalysis.count]
    omega
  · refine Or.inr (Or.inr ⟨?_, by omega⟩)
    simp only [BlockAnalysis.count]
    omega

/-- One more operation is counted last. -/
theorem countOps_concat (block : BlockAnalysis) (ops : List Op) (op : Op) :
    countOps rev block (ops ++ [op]) = countOp rev (countOps rev block ops) op := by
  simp [countOps]

/-- The figures of a block of opcodes that contribute what they are to. -/
theorem countOps_tracks (index : Nat) {ops : List Op} (h : ∀ op ∈ ops, Contributes rev op.opcode) :
    Tracks (countOps rev (blockAnalysisInitV index) ops) (contributions rev ops) := by
  induction ops using List.reverseRecOn with
  | nil =>
      have hzero : (0 : Int) < 2 ^ 31 := by decide
      exact ⟨rfl, hzero, hzero, Or.inl ⟨rfl, rfl, rfl, hzero, hzero⟩⟩
  | append_singleton ops op ih =>
      rw [contributions, List.map_append, List.map_singleton, countOps_concat]
      obtain ⟨h1, h2, h3⟩ := h op (by simp)
      exact (ih fun op hop => h op (by simp [hop])).count (contributions_sound rev ops)
        (contribution_sound rev _) h1 h2 h3

/-- The gas of a block is the sum of the costs, whatever the unwritten fields of its undefined
opcodes hold. -/
theorem countOps_gasCost (index : Nat) (ops : List Op) :
    (countOps rev (blockAnalysisInitV index) ops).gasCost = totalCost (contributions rev ops) := by
  induction ops using List.reverseRecOn with
  | nil => rfl
  | append_singleton ops op ih =>
      rw [contributions, List.map_append, List.map_singleton, totalCost_concat, countOps_concat,
        countOp, BlockAnalysis.count, ih, opcodeInfo_gasCost_eq]
      rfl

/-- The figures of a block of defined opcodes are exact: the gas is the sum of the costs, and for
every height at the start, the opcodes run one by one meet one with too few items exactly when the
height is below `stack_req`, and when they do not, exceed 1024 items exactly when the height and
`stack_max_growth` do. The height over the block has to stay an `int`. -/
theorem countOps_exact (_hrev : rev.hasRow) (index : Nat) {ops : List Op}
    (hdefined : ∀ op ∈ ops, gasCosts rev op.opcode ≠ -1)
    (hgrowth : growth (contributions rev ops) < 2 ^ 31) :
    let block := countOps rev (blockAnalysisInitV index) ops
    block.gasCost = (ops.map fun op => gasCosts rev op.opcode).sum ∧
      ∀ h : Int, 0 ≤ h → h ≤ 1024 →
        (Underflows (contributions rev ops) h ↔ h < block.stackReq) ∧
        (¬ Underflows (contributions rev ops) h →
          (Overflows (contributions rev ops) h ↔ h + block.stackMaxGrowth > 1024)) := by
  have htracks := countOps_tracks rev index fun op hop => contributes_of_defined (hdefined op hop)
  refine ⟨?_, fun h hnonneg hle => ?_⟩
  · rw [htracks.gasCost, totalCost, contributions, List.map_map]
    refine congrArg List.sum (List.map_congr_left fun op hop => ?_)
    rw [Function.comp, contribution, if_neg (hdefined op hop)]
  -- The figures are exact, or one of them has reached the range of an `int`.
  · rw [underflows_iff (contributions_sound rev ops) hnonneg, overflows_iff hle]
    rcases htracks.figures with hexact | ⟨hreq, hreq'⟩ | ⟨-, hgrowth'⟩
    · rw [hexact.stackReq, hexact.stackMaxGrowth]
      exact ⟨Iff.rfl, fun _ => Iff.rfl⟩
    · -- Both requirements are far above 1024.
      exact ⟨by omega, fun hfits => by omega⟩
    · omega

end

/-- ADDRESS and POP in one block, which needs no item and grows by one. -/
theorem countOps_exact_addresses :
    let _ : Env := Env.zeroed
    let ops : List Op := [⟨0, .address, []⟩, ⟨1, .pop, []⟩]
    let block := countOps .london (blockAnalysisInitV 0) ops
    block.gasCost = (ops.map fun op => gasCosts .london op.opcode).sum ∧
      ∀ h : Int, 0 ≤ h → h ≤ 1024 →
        (Underflows (contributions .london ops) h ↔ h < block.stackReq) ∧
        (¬ Underflows (contributions .london ops) h →
          (Overflows (contributions .london ops) h ↔ h + block.stackMaxGrowth > 1024)) :=
  @countOps_exact Env.zeroed .london (by decide) 0 [⟨0, .address, []⟩, ⟨1, .pop, []⟩] (by decide)
    (by decide)

/-! ### A block whose height leaves `int`

After `2 ^ 31 + 1` pushes the change of the height has wrapped to `-2 ^ 31 + 1`, so one more opcode
seems to need `2 ^ 31 - 1` items. -/

section
variable [Env] {rev : Revision}

variable (rev) in
/-- The change of the height after `n` opcodes that push one item. -/
theorem countOps_replicate_change (op : Op) (hchange : (opcodeInfo rev op.opcode).stackChange = 1)
    (index n : Nat) :
    (countOps rev (blockAnalysisInitV index) (List.replicate n op)).stackChange = toInt32 n := by
  induction n with
  | zero => rfl
  | succ n ih =>
      rw [List.replicate_succ', countOps_concat, countOp, BlockAnalysis.count, ih, hchange]
      unfold toInt32
      rw [Int.bmod_add_bmod, Int.natCast_succ]

omit [Env] in
/-- Pushes require no item. -/
theorem required_replicate_push (cost : Int) (n : Nat) :
    required (List.replicate n ⟨cost, 0, 1⟩) = 0 := by
  induction n with
  | zero => rfl
  | succ n ih =>
      rw [List.replicate_succ, required, ih]
      rfl

end

/-- `2 ^ 31 + 2` opcodes that push one item never underflow, and the analyser says that they need
`2 ^ 31 - 1` items. -/
theorem countOps_exact_long :
    let _ : Env := Env.zeroed
    let ops : List Op := List.replicate (2 ^ 31 + 2) ⟨0, .address, []⟩
    (∀ op ∈ ops, gasCosts .london op.opcode ≠ -1) ∧
      ¬ ∀ h : Int, 0 ≤ h → h ≤ 1024 →
        (Underflows (contributions .london ops) h ↔
          h < (countOps .london (blockAnalysisInitV 0) ops).stackReq) := by
  let _ : Env := Env.zeroed
  generalize hn : 2 ^ 31 + 1 = n
  rw [show 2 ^ 31 + 2 = n + 1 by omega]
  refine ⟨fun op hop => ?_, fun h => ?_⟩
  · rw [List.eq_of_mem_replicate hop]
    decide
  -- At height 0 nothing underflows, so the requirement would have to be 0.
  have hlow := (h 0 (le_refl 0) (by decide)).2
  rw [underflows_iff (contributions_sound _ _) (le_refl 0), contributions, List.map_replicate] at hlow
  have hzero := required_replicate_push 2 (n + 1)
  have hcontribution : contribution .london .address = ⟨2, 0, 1⟩ := by decide
  simp only [hcontribution, hzero] at hlow
  have hchange := countOps_replicate_change .london ⟨0, .address, []⟩ (by decide) 0 n
  have hreq : (opcodeInfo .london .address).stackReq = 0 := by decide
  rw [List.replicate_succ', countOps_concat, countOp, BlockAnalysis.count] at hlow
  simp only [hchange, hreq] at hlow
  -- The growth has wrapped to a negative number before the last operation.
  have hwrap : toInt32 (0 - toInt32 n) = 2 ^ 31 - 1 := by
    rw [← hn]
    decide
  rw [hwrap] at hlow
  omega

/-! ### The stored summaries -/

/-- The true summary of a block, cut off at the largest values of the narrow types. -/
def trueSummary (rev : Revision) (ops : List Op) : BlockInfo :=
  { gasCost := (min (totalCost (contributions rev ops)) (2 ^ 32 - 1)).toNat
    stackReq := min (required (contributions rev ops)) 32767
    stackMaxGrowth := min (growth (contributions rev ops)) 32767 }

/-- The figures of the block fit into the narrow types, or are cut to their largest values. -/
structure FitsSummary (rev : Revision) (ops : List Op) : Prop where
  gasCost : totalCost (contributions rev ops) < 2 ^ 32 ∨
    totalCost (contributions rev ops) % 2 ^ 32 = 2 ^ 32 - 1
  stackReq : required (contributions rev ops) ≤ 32767 ∨
    required (contributions rev ops) < 2 ^ 31 ∧ required (contributions rev ops) % 2 ^ 16 = 32767
  stackMaxGrowth : growth (contributions rev ops) ≤ 32767 ∨
    growth (contributions rev ops) < 2 ^ 31 ∧ growth (contributions rev ops) % 2 ^ 16 = 32767

section
variable [Env] (rev : Revision)

/-- Each `BEGINBLOCK` stores the true summary of its block, and an undefined opcode contributes
nothing to it. -/
structure Summarised (code : List Byte) (analysis : CodeAnalysis) : Prop where
  stored : ∀ before block after, blocks (decode code) = before ++ block :: after →
    analysis.instrs[layoutSize before]? =
      some ⟨some .opxBeginblock, .block (trueSummary rev block)⟩
  undefined : ∀ op ∈ decode code, gasCosts rev op.opcode = -1 →
    (opcodeInfo rev op.opcode).gasCost = 0 ∧ (opcodeInfo rev op.opcode).stackReq = 0 ∧
      (opcodeInfo rev op.opcode).stackChange = 0

omit [Env] in
/-- The value of an `int16_t`. -/
theorem toInt16_eq (x : Int) :
    toInt16 x = if x % 65536 < 32768 then x % 65536 else x % 65536 - 65536 := rfl

omit [Env] in
/-- A number that is stored as `int16_t` is its minimum with the largest one when it is small, or
when what is left of it is the largest one. -/
theorem toInt16_eq_min {x : Int} (hnonneg : 0 ≤ x) :
    toInt16 x = min x 32767 ↔ x ≤ 32767 ∨ x % 2 ^ 16 = 32767 := by
  rw [toInt16_eq]
  omega

omit [Env] in
/-- The same for a number that is stored as `uint32_t`. -/
theorem toUint32_eq_min {x : Int} (hnonneg : 0 ≤ x) :
    toUint32 x = (min x (2 ^ 32 - 1)).toNat ↔ x < 2 ^ 32 ∨ x % 2 ^ 32 = 2 ^ 32 - 1 := by
  unfold toUint32
  omega

omit [Env] in
/-- The narrowed figures are in range, so the comparisons of `BlockAnalysis_close` do nothing. -/
theorem BlockAnalysis.close_eq (block : BlockAnalysis) :
    block.close = ⟨toUint32 block.gasCost, toInt16 block.stackReq, toInt16 block.stackMaxGrowth⟩ := by
  have h16 : ∀ x : Int, toInt16 x ≤ 2 ^ 15 - 1 := fun x => by
    rw [toInt16_eq]
    omega
  have h32 : ∀ x : Int, toUint32 x ≤ 2 ^ 32 - 1 := fun x => by
    unfold toUint32
    omega
  rw [close, if_pos (h32 _), if_pos (h16 _), if_pos (h16 _)]

omit [Env] in
/-- No operation has a negative cost. -/
theorem totalCost_nonneg (ops : List Op) : 0 ≤ totalCost (contributions rev ops) := by
  refine List.sum_nonneg fun x hx => ?_
  obtain ⟨c, hc, rfl⟩ := List.mem_map.1 hx
  obtain ⟨op, -, rfl⟩ := List.mem_map.1 hc
  simp only [contribution]
  split
  · exact le_refl 0
  case isFalse h => exact (gasCosts_entry h).1

omit [Env] in
/-- No operation requires a negative number of items. -/
theorem required_nonneg (ops : List Op) : 0 ≤ required (contributions rev ops) := by
  cases h : contributions rev ops with
  | nil => exact le_refl 0
  | cons c cs =>
      have := (contributions_sound rev ops c (h ▸ List.mem_cons_self)).nonneg
      rw [required]
      omega

/-- A block of opcodes that contribute what they are to gets its true summary exactly when its
figures fit. -/
theorem close_eq_trueSummary {ops : List Op} (h : ∀ op ∈ ops, Contributes rev op.opcode) :
    (summary rev 0 ops).close = trueSummary rev ops ↔ FitsSummary rev ops := by
  have htracks := countOps_tracks rev 0 h
  have hreq0 := required_nonneg rev ops
  have hgrowth0 := growth_nonneg (contributions rev ops)
  have hgas := toUint32_eq_min (totalCost_nonneg rev ops)
  have hreq := toInt16_eq_min hreq0
  have hgrowth := toInt16_eq_min hgrowth0
  rw [BlockAnalysis.close_eq, trueSummary, BlockInfo.mk.injEq]
  unfold summary
  rw [htracks.gasCost, hgas]
  -- The figures are exact, or one of them has wrapped.
  rcases htracks.figures with hexact | hwrapped | hwrapped
  · have h1 := hexact.req_lt
    have h2 := hexact.growth_lt
    rw [hexact.stackReq, hexact.stackMaxGrowth, hreq, hgrowth]
    exact ⟨fun ⟨a, b, c⟩ => ⟨a, by omega, by omega⟩, fun ⟨a, b, c⟩ => ⟨a, by omega, by omega⟩⟩
  · -- A figure next to `2 ^ 31` is negative as an `int16_t`.
    have hlt := htracks.req_lt
    refine iff_of_false (fun ⟨_, h, _⟩ => ?_) fun h => ?_
    · rw [toInt16_eq] at h
      omega
    · have := h.stackReq
      omega
  · have hlt := htracks.growth_lt
    refine iff_of_false (fun ⟨_, _, h⟩ => ?_) fun h => ?_
    · rw [toInt16_eq] at h
      omega
    · have := h.stackMaxGrowth
      omega

/-- The instruction at the start of a block. -/
theorem analyzeCode_instrs_beginblock {code : List Byte} {before after : List (List Op)}
    {block : List Op} (h : blocks (decode code) = before ++ block :: after) :
    (analyzeCode rev code).instrs[layoutSize before]? =
      some ⟨some .opxBeginblock, .block (summary rev 0 block).close⟩ := by
  rw [← Nat.add_zero (layoutSize before), ← List.getElem?_drop, analyzeCode_instrs_drop rev h,
    layoutBlock, opxBeginblockFn_eq]
  rfl

/-- The analysis stores the true summaries exactly when the unwritten fields of its undefined
opcodes happen to be zero and the figures of its blocks fit. -/
theorem summaries_iff (_hrev : rev.hasRow) {code : List Byte} {analysis : CodeAnalysis}
    (hanalysis : analyze rev code = .ok analysis) :
    Summarised rev code analysis ↔
      (∀ op ∈ decode code, gasCosts rev op.opcode = -1 → ReadsZero op.opcode) ∧
        ∀ block ∈ blocks (decode code), FitsSummary rev block := by
  have heq := analyze_ok hanalysis
  subst heq
  -- An opcode with a cost contributes as it is to be, in every case.
  have hundefined : ∀ op : Op, (gasCosts rev op.opcode = -1 →
      (opcodeInfo rev op.opcode).gasCost = 0 ∧ (opcodeInfo rev op.opcode).stackReq = 0 ∧
        (opcodeInfo rev op.opcode).stackChange = 0) ↔ Contributes rev op.opcode := by
    intro op
    refine ⟨fun h => ?_, fun h heq => ?_⟩
    · by_cases heq : gasCosts rev op.opcode = -1
      · rw [Contributes, contribution, if_pos heq]
        exact h heq
      · exact contributes_of_defined heq
    · rw [Contributes, contribution, if_pos heq] at h
      exact h
  -- With all contributions right, a block is summarised exactly when its sums fit.
  have hsplit : (∀ op ∈ decode code, Contributes rev op.opcode) →
      ((∀ before block after, blocks (decode code) = before ++ block :: after →
        (analyzeCode rev code).instrs[layoutSize before]? =
          some ⟨some .opxBeginblock, .block (trueSummary rev block)⟩) ↔
        ∀ block ∈ blocks (decode code), FitsSummary rev block) := by
    intro hall
    have hblock : ∀ block ∈ blocks (decode code), ∀ op ∈ block, Contributes rev op.opcode :=
      fun block hblock op hop => hall op (by
        rw [← blocks_flatten (decode code)]
        exact List.mem_flatten.2 ⟨block, hblock, hop⟩)
    refine ⟨fun h block hmem => ?_, fun h before block after heq => ?_⟩
    · obtain ⟨before, after, heq⟩ := List.append_of_mem hmem
      have hstored := (analyzeCode_instrs_beginblock rev heq).symm.trans (h before block after heq)
      rw [Option.some.injEq, Instruction.mk.injEq, InstructionArgument.block.injEq] at hstored
      exact (close_eq_trueSummary rev (hblock block hmem)).1 hstored.2
    · have hmem : block ∈ blocks (decode code) := by
        rw [heq]
        simp
      rw [analyzeCode_instrs_beginblock rev heq,
        (close_eq_trueSummary rev (hblock block hmem)).2 (h block hmem)]
  constructor
  · rintro ⟨hstored, hundef⟩
    have hall := fun op hop => (hundefined op).1 (hundef op hop)
    exact ⟨fun op hop => (contributes_iff rev _).1 (hall op hop), (hsplit hall).1 hstored⟩
  · rintro ⟨hzero, hfits⟩
    have hall := fun op hop => (contributes_iff rev _).2 (hzero op hop)
    exact ⟨(hsplit hall).2 hfits, fun op hop => (hundefined op).2 (hall op hop)⟩

end

/-- ADD and an undefined opcode, in one block. -/
theorem summaries_iff_add :
    ∃ analysis, @analyze Env.zeroed .london [0x01, 0x0c] = .ok analysis ∧
      (@Summarised Env.zeroed .london [0x01, 0x0c] analysis ↔
        (∀ op ∈ decode [0x01, 0x0c], gasCosts .london op.opcode = -1 →
          @ReadsZero Env.zeroed op.opcode) ∧
          ∀ block ∈ blocks (decode [0x01, 0x0c]), FitsSummary .london block) :=
  have hanalyze := @analyze_eq Env.zeroed .london [0x01, 0x0c] (by decide)
  ⟨_, hanalyze, @summaries_iff Env.zeroed .london (by decide) _ _ hanalyze⟩

/-! ### A block that needs more than 32767 items -/

/-- Without terminators and `JUMPDEST`s there is one block. -/
theorem blocks_single {ops : List Op}
    (h : ∀ op ∈ ops, isTerminator op.opcode = false ∧ op.isJumpdest = false) :
    blocks ops = [ops] := by
  induction ops with
  | nil => rfl
  | cons op ops ih =>
      rw [List.forall_mem_cons] at h
      have hnext : startsWithJumpdest ops = false := by
        cases ops with
        | nil => rfl
        | cons next ops => simpa [startsWithJumpdest] using (h.2 next List.mem_cons_self).2
      rw [blocks, if_neg (by simp [h.1.1, hnext]), ih h.2]
      rfl

/-- The decoding of `n` equal opcodes without immediate bytes. -/
theorem decodeFrom_replicate {opcode : Opcode} (himm : immSize opcode = 0) (n pos : Nat) :
    (decodeFrom n pos (List.replicate n opcode)).map Op.opcode = List.replicate n opcode := by
  induction n generalizing pos with
  | zero => rfl
  | succ n ih =>
      rw [List.replicate_succ, decodeFrom, himm, List.take_zero, List.drop_zero, List.map_cons, ih]

/-- Opcodes without immediate bytes are decoded one by one. -/
theorem decode_replicate {opcode : Opcode} (himm : immSize opcode = 0) (n : Nat) :
    (decode (List.replicate n opcode)).map Op.opcode = List.replicate n opcode := by
  rw [decode, List.length_replicate]
  exact decodeFrom_replicate himm n 0

/-- The code of `n` equal opcodes is one block, when the opcode ends and starts none. -/
theorem blocks_replicate {opcode : Opcode} (himm : immSize opcode = 0)
    (hterminator : isTerminator opcode = false) (hjumpdest : opcode ≠ .jumpdest) (n : Nat) :
    blocks (decode (List.replicate n opcode)) = [decode (List.replicate n opcode)] := by
  refine blocks_single fun op hop => ?_
  have heq : op.opcode = opcode :=
    List.eq_of_mem_replicate (decode_replicate himm n ▸ List.mem_map_of_mem hop)
  refine ⟨by rw [heq]; exact hterminator, ?_⟩
  rw [Op.isJumpdest, heq]
  exact beq_eq_false_iff_ne.2 hjumpdest

/-- The contributions of one opcode, over and over. -/
theorem contributions_replicate (rev : Revision) {opcode : Opcode} (himm : immSize opcode = 0)
    (n : Nat) :
    contributions rev (decode (List.replicate n opcode)) =
      List.replicate n (contribution rev opcode) := by
  rw [contributions, ← Function.comp_def (contribution rev), ← List.map_map, decode_replicate himm,
    List.map_replicate]

/-- Every POP requires one more item. -/
theorem required_replicate_pop (cost : Int) (n : Nat) :
    required (List.replicate n ⟨cost, 1, -1⟩) = n := by
  induction n with
  | zero => rfl
  | succ n ih =>
      rw [List.replicate_succ, required, ih]
      simp only
      omega

/-- POP has a cost. -/
theorem contributes_pops [Env] (n : Nat) :
    ∀ op ∈ decode (List.replicate n Opcode.pop), Contributes .london op.opcode := by
  intro op hop
  have himm : immSize Opcode.pop = 0 := by decide
  have heq : op.opcode = Opcode.pop :=
    List.eq_of_mem_replicate (decode_replicate himm n ▸ List.mem_map_of_mem hop)
  rw [heq]
  exact contributes_of_defined (by decide)

/-- The block of 32768 `POP`s needs 32768 items, and the analysis stores -32768. -/
theorem summaries_iff_pops :
    ∃ analysis, @analyze Env.zeroed .london (List.replicate 32768 Opcode.pop) = .ok analysis ∧
      ¬ @Summarised Env.zeroed .london (List.replicate 32768 Opcode.pop) analysis := by
  let _ : Env := Env.zeroed
  have hcap : ((32768 : Nat) : Int) % 2 ^ 16 = 32768 := by decide
  have hlength : (32768 : Nat) < 2 ^ 31 - 1 := by decide
  -- the number of bytes as a variable, so that no tactic writes the list out
  generalize 32768 = n at hcap hlength ⊢
  have hshort : (List.replicate n Opcode.pop).length < 2 ^ 31 - 1 := by
    rw [List.length_replicate]
    exact hlength
  have hanalyze := analyze_eq .london hshort
  refine ⟨_, hanalyze, fun h => ?_⟩
  have himm : immSize Opcode.pop = 0 := by decide
  have hblocks := blocks_replicate himm (by decide) (by decide) n
  have hcontributes := contributes_pops n
  have hstored := (analyzeCode_instrs_beginblock .london hblocks).symm.trans
    (h.stored [] _ [] hblocks)
  rw [Option.some.injEq, Instruction.mk.injEq, InstructionArgument.block.injEq] at hstored
  have hfits := ((close_eq_trueSummary .london hcontributes).1 hstored.2).stackReq
  have hcontribution : contribution .london Opcode.pop = ⟨2, 1, -1⟩ := by decide
  rw [contributions_replicate .london himm, hcontribution, required_replicate_pop] at hfits
  omega

end TscVee
