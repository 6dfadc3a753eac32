import TscVee.AnalysisImpl
import TscVee.Spec.Decode

/-!
# `TscVee.Proofs.Layout`: what the analyser makes of a bytecode

* `blocks ops`: the basic blocks of the decoded operations. A block ends behind a terminator and
  in front of a `JUMPDEST`, and the last block is open.
* `layoutBlock`: the instructions of one block, a `BEGINBLOCK` with the summary of the block and
  an instruction for each operation but `JUMPDEST`.
* `analyzeLoop_analysed`: the loop of `analyze` keeps the invariant `Analysed`, which says how the
  state of the loop comes from the blocks that are done and the operations of the current block.
* `analyzeCode_instrs`, `analyzeCode_pushValues`, `analyzeCode_jumpdestOffsets`,
  `analyzeCode_jumpdestTargets`: the analysis as a function of the blocks.
* `analyze_eq`: the assertion of `analyze` holds for every code of fewer than `2 ^ 31 - 1` bytes.
-/

set_option autoImplicit false

namespace TscVee

/-! ### Basic blocks -/

/-- A list of blocks whose first block is continued in front. -/
def prependBlock (ops : List Op) : List (List Op) → List (List Op)
  | [] => [ops]
  | block :: rest => (ops ++ block) :: rest

/-- The basic blocks of a list of operations. -/
def blocks : List Op → List (List Op)
  | [] => [[]]
  | op :: ops =>
    if isTerminator op.opcode ∨ startsWithJumpdest ops then [op] :: blocks ops
    else prependBlock [op] (blocks ops)

/-- There is at least one block, for the empty list as well. -/
theorem blocks_ne_nil (ops : List Op) : blocks ops ≠ [] := by
  cases ops with
  | nil => simp [blocks]
  | cons op ops =>
      unfold blocks
      split
      · simp
      · unfold prependBlock
        split <;> simp

/-- Nothing in front of the first block. -/
theorem prependBlock_nil {bs : List (List Op)} (h : bs ≠ []) : prependBlock [] bs = bs := by
  cases bs with
  | nil => exact absurd rfl h
  | cons b rest => rfl

/-- Operations may be put in front in two parts. -/
theorem prependBlock_append (xs ys : List Op) (bs : List (List Op)) :
    prependBlock xs (prependBlock ys bs) = prependBlock (xs ++ ys) bs := by
  cases bs <;> simp [prependBlock]

/-- The operations come in front of those of all blocks. -/
theorem prependBlock_flatten (ops : List Op) (bs : List (List Op)) :
    (prependBlock ops bs).flatten = ops ++ bs.flatten := by
  cases bs <;> simp [prependBlock]

/-- The blocks cut the list and reorder nothing. -/
theorem blocks_flatten (ops : List Op) : (blocks ops).flatten = ops := by
  induction ops with
  | nil => rfl
  | cons op ops ih =>
      unfold blocks
      split
      · simp [ih]
      · rw [prependBlock_flatten, ih, List.singleton_append]

/-! ### The instructions of a block -/

/-- The values that large pushes of the operations put into the table of push values. -/
def Op.pushValue (op : Op) : Uint256 := readu256BE (largePushBuffer (pushSize op.opcode) op.imm)

/-- The values in the table of push values, in the order of the operations. -/
def pushedValues (ops : List Op) : List Uint256 :=
  (ops.filter fun op => anyLargePush op.opcode).map Op.pushValue

/-- The offsets that the analyser stores for the `JUMPDEST`s. -/
def jumpdestOffsetsOf (ops : List Op) : List Int :=
  (ops.filter Op.isJumpdest).map fun op => toInt32 op.pos

/-- The offsets of two lists of operations. -/
theorem jumpdestOffsetsOf_append (xs ys : List Op) :
    jumpdestOffsetsOf (xs ++ ys) = jumpdestOffsetsOf xs ++ jumpdestOffsetsOf ys := by
  simp [jumpdestOffsetsOf]

/-- The push values of two lists of operations. -/
theorem pushedValues_append (xs ys : List Op) :
    pushedValues (xs ++ ys) = pushedValues xs ++ pushedValues ys := by
  simp [pushedValues]

/-- The argument of the instruction for `op`, when the block has come to cost `gasCost`. -/
def Op.arg (op : Op) (gasCost : Int) : InstructionArgument :=
  if anySmallPush op.opcode then
    .smallPushValue (smallPushValue op.imm ((pushSize op.opcode - 1) * 8) 0)
  else if anyLargePush op.opcode then .pushValue op.pushValue
  else if storesGasCost op.opcode then .number gasCost
  else if op.opcode = .pc then .number op.pos
  else .uninit

/-- The number of instructions of a block. -/
def blockSize (ops : List Op) : Nat := 1 + ops.countP fun op => !op.isJumpdest

/-- The targets that the analyser stores for the `JUMPDEST`s, when the first `BEGINBLOCK` has
index `base`. -/
def jumpTargets (base : Nat) : List (List Op) → List Int
  | [] => []
  | ops :: rest =>
    (if startsWithJumpdest ops then [toInt32 base] else []) ++ jumpTargets (base + blockSize ops) rest

/-! ### The `switch` on the opcode -/

/-- The pushes of up to eight bytes, whose value is in the instruction. -/
theorem anySmallPush_iff {opcode : Opcode} :
    anySmallPush opcode = true ↔ 0x60 ≤ opcode.toNat ∧ opcode.toNat ≤ 0x67 := by
  simp [anySmallPush, BitVec.le_def]

/-- The pushes of nine bytes or more, whose value is in the table of push values. -/
theorem anyLargePush_iff {opcode : Opcode} :
    anyLargePush opcode = true ↔ 0x68 ≤ opcode.toNat ∧ opcode.toNat ≤ 0x7f := by
  simp [anyLargePush, BitVec.le_def]

/-- A small or large push takes `pushSize` bytes, and no other opcode takes any. -/
theorem immSize_eq (opcode : Opcode) :
    immSize opcode =
      if anySmallPush opcode = true ∨ anyLargePush opcode = true then pushSize opcode else 0 := by
  simp only [anySmallPush_iff, anyLargePush_iff, immSize, pushSize, BitVec.le_def]
  show (if 0x60 ≤ opcode.toNat ∧ opcode.toNat ≤ 0x7f then _ else _) = _
  split <;> split <;> first | rfl | omega

/-- An update at the position right behind a list. -/
theorem modify_append_cons {α : Type*} (pre post : List α) (a : α) (f : α → α) :
    (pre ++ a :: post).modify pre.length f = pre ++ f a :: post := by
  induction pre with
  | nil => rfl
  | cons b pre ih => rw [List.cons_append, List.length_cons, List.modify_succ_cons, ih,
      List.cons_append]

/-- The argument is set for the instruction that was appended last. -/
theorem setLastArg_append (instrs : List Instruction) (fn : Option InstrFn)
    (arg : InstructionArgument) :
    setLastArg (instrs ++ [instructionInitV fn]) arg = instrs ++ [⟨fn, arg⟩] := by
  unfold setLastArg
  rw [List.length_append, List.length_singleton, Nat.add_sub_cancel, modify_append_cons]
  rfl

/-- The `switch` on the opcode of `op`, once its instruction is appended. -/
theorem analyzeSwitch_instr (op : Op) (gasCost : Int) (rest : List Byte)
    (himm : op.imm = rest.take (immSize op.opcode)) (fn : Option InstrFn)
    (analysis : CodeAnalysis) :
    analyzeSwitch op.opcode gasCost (op.pos + 1) rest
        { analysis with instrs := analysis.instrs ++ [instructionInitV fn] } =
      ({ analysis with
          instrs := analysis.instrs ++ [⟨fn, op.arg gasCost⟩]
          pushValues := analysis.pushValues ++ pushedValues [op] }, op.imm.length) := by
  have hsize := immSize_eq op.opcode
  unfold analyzeSwitch Op.arg pushedValues
  -- A small push, a large one, an instruction with the cost as its argument, PC, and the rest.
  by_cases hsmall : anySmallPush op.opcode = true
  · have hlarge : anyLargePush op.opcode = false := by
      rw [Bool.eq_false_iff]
      intro h
      rw [anySmallPush_iff] at hsmall
      rw [anyLargePush_iff] at h
      omega
    rw [if_pos (Or.inl hsmall)] at hsize
    simp [hsmall, hlarge, setLastArg_append, himm, hsize]
  · by_cases hlarge : anyLargePush op.opcode = true
    · rw [if_pos (Or.inr hlarge)] at hsize
      simp [hsmall, hlarge, setLastArg_append, himm, hsize, Op.pushValue]
    · rw [if_neg (by simp [hsmall, hlarge])] at hsize
      rw [hsize, List.take_zero] at himm
      by_cases hgas : storesGasCost op.opcode = true
      · simp [hsmall, hlarge, hgas, setLastArg_append, himm]
      · by_cases hpc : op.opcode = .pc
        · simp [hpc, setLastArg_append, himm, anySmallPush, anyLargePush, storesGasCost]
        · simp only [hsmall, hlarge, hgas, hpc, himm, if_false]
          simp [Bool.eq_false_iff.2 hlarge, instructionInitV]

/-- The `switch` does nothing at a `JUMPDEST`. -/
theorem analyzeSwitch_jumpdest (gasCost : Int) (codePos : Nat) (rest : List Byte)
    (analysis : CodeAnalysis) :
    analyzeSwitch .jumpdest gasCost codePos rest analysis = (analysis, 0) := rfl

section
variable [Env] (rev : Revision)

/-- The figures of a block after `op`. -/
def countOp (block : BlockAnalysis) (op : Op) : BlockAnalysis :=
  block.count (opcodeInfo rev op.opcode)

/-- The figures of a block after `ops`. -/
def countOps (block : BlockAnalysis) (ops : List Op) : BlockAnalysis := ops.foldl (countOp rev) block

/-- The figures of the block `ops` whose `BEGINBLOCK` has index `index`. -/
def summary (index : Nat) (ops : List Op) : BlockAnalysis :=
  countOps rev (blockAnalysisInitV index) ops

/-- The instruction for `op`. -/
def Op.instr (op : Op) (gasCost : Int) : Instruction :=
  ⟨(opcodeInfo rev op.opcode).fn, op.arg gasCost⟩

/-- The instructions for `ops` in a block that has come to the figures `block`. -/
def blockInstrs : BlockAnalysis → List Op → List Instruction
  | _, [] => []
  | block, op :: ops =>
    (if op.isJumpdest then [] else [op.instr rev (countOp rev block op).gasCost]) ++
      blockInstrs (countOp rev block op) ops

/-- The instructions of a block, with its `BEGINBLOCK`. -/
def layoutBlock (ops : List Op) : List Instruction :=
  ⟨opxBeginblockFn rev, .block (summary rev 0 ops).close⟩ ::
    blockInstrs rev (blockAnalysisInitV 0) ops

/-- The instructions of blocks, one after the other. -/
def layout (bs : List (List Op)) : List Instruction := bs.flatMap (layoutBlock rev)

/-! ### Lemmas on the figures and the instructions -/

variable {rev}

/-- The index is carried along and decides nothing. -/
theorem countOps_index (block : BlockAnalysis) (index : Nat) (ops : List Op) :
    countOps rev { block with beginBlockIndex := index } ops =
      { countOps rev block ops with beginBlockIndex := index } := by
  induction ops generalizing block with
  | nil => rfl
  | cons op ops ih => exact ih (countOp rev block op)

/-- The index of the block has no part in its summary. -/
theorem summary_index (index : Nat) (ops : List Op) :
    summary rev index ops = { summary rev 0 ops with beginBlockIndex := index } :=
  countOps_index (blockAnalysisInitV 0) index ops

/-- Closing a block reads its costs and heights only. -/
theorem summary_close (index : Nat) (ops : List Op) :
    (summary rev index ops).close = (summary rev 0 ops).close := by
  rw [summary_index]
  rfl

/-- The summary of a block counts its operations one after the other. -/
theorem summary_append (index : Nat) (xs ys : List Op) :
    summary rev index (xs ++ ys) = countOps rev (summary rev index xs) ys := List.foldl_append

/-- The instructions of two parts of a block, the second one from what the first one has come to
cost. -/
theorem blockInstrs_append (block : BlockAnalysis) (xs ys : List Op) :
    blockInstrs rev block (xs ++ ys) =
      blockInstrs rev block xs ++ blockInstrs rev (countOps rev block xs) ys := by
  induction xs generalizing block with
  | nil => rfl
  | cons op xs ih =>
      simp only [List.cons_append, blockInstrs, ih, List.append_assoc, countOps, List.foldl_cons]

/-- A `JUMPDEST` gets no instruction of its own. -/
theorem blockInstrs_length (block : BlockAnalysis) (ops : List Op) :
    (blockInstrs rev block ops).length = ops.countP fun op => !op.isJumpdest := by
  induction ops generalizing block with
  | nil => rfl
  | cons op ops ih =>
      simp only [blockInstrs, List.length_append, ih, List.countP_cons]
      cases op.isJumpdest <;> simp [Nat.add_comm]

variable (rev) in
/-- The `BEGINBLOCK` and the instructions of a block. -/
theorem layoutBlock_length (ops : List Op) : (layoutBlock rev ops).length = blockSize ops := by
  simp [layoutBlock, blockSize, blockInstrs_length, Nat.add_comm]

/-- The layout of two lists of blocks. -/
theorem layout_append (bs bs' : List (List Op)) :
    layout rev (bs ++ bs') = layout rev bs ++ layout rev bs' := List.flatMap_append

/-- The layout of the first block and of the others. -/
theorem layout_cons (ops : List Op) (bs : List (List Op)) :
    layout rev (ops :: bs) = layoutBlock rev ops ++ layout rev bs := List.flatMap_cons

variable (rev) in
/-- The targets of two lists of blocks: those of the second are moved by the size of the first. -/
theorem jumpTargets_append (base : Nat) (bs bs' : List (List Op)) :
    jumpTargets base (bs ++ bs') =
      jumpTargets base bs ++ jumpTargets (base + (layout rev bs).length) bs' := by
  induction bs generalizing base with
  | nil => rfl
  | cons ops bs ih =>
      simp only [List.cons_append, jumpTargets, ih, List.append_assoc, layout_cons,
        List.length_append, layoutBlock_length, Nat.add_assoc]

/-! ### The loop -/

variable (rev) in
/-- The state of the loop, when the blocks `done` are finished and the operations `cur` of the
current block are read. -/
structure Analysed (st : AnalyzeState) (done : List (List Op)) (cur : List Op) : Prop where
  instrs : st.analysis.instrs =
    layout rev done ++ instructionInitV (opxBeginblockFn rev) ::
      blockInstrs rev (blockAnalysisInitV 0) cur
  block : st.block = summary rev (layout rev done).length cur
  pushValues : st.analysis.pushValues = pushedValues (done.flatten ++ cur)
  offsets : st.analysis.jumpdestOffsets = jumpdestOffsetsOf (done.flatten ++ cur)
  targets : st.analysis.jumpdestTargets = jumpTargets 0 (done ++ [cur])
  /-- A `JUMPDEST` finds a fresh block. -/
  fresh : st.rest.head? = some Opcode.jumpdest → cur = []

/-- The current block is saved into its `BEGINBLOCK`. -/
theorem saveBlock_layout (done : List (List Op)) (cur : List Op) :
    saveBlock (layout rev done ++ instructionInitV (opxBeginblockFn rev) ::
        blockInstrs rev (blockAnalysisInitV 0) cur)
      (summary rev (layout rev done).length cur) = layout rev (done ++ [cur]) := by
  have hindex : (summary rev (layout rev done).length cur).beginBlockIndex =
      (layout rev done).length := by rw [summary_index]
  rw [saveBlock, hindex, modify_append_cons, summary_close, layout_append, layout_cons]
  simp [layoutBlock, layout, instructionInitV]

variable (rev) in
/-- The analysis after an operation, before the end of the block is looked for. -/
def afterOp (st : AnalyzeState) (op : Op) : CodeAnalysis :=
  { instrs := st.analysis.instrs ++
      if op.isJumpdest then [] else [op.instr rev (countOp rev st.block op).gasCost]
    pushValues := st.analysis.pushValues ++ pushedValues [op]
    jumpdestOffsets := st.analysis.jumpdestOffsets ++ jumpdestOffsetsOf [op]
    jumpdestTargets := st.analysis.jumpdestTargets ++
      if op.isJumpdest then [toInt32 ((st.analysis.instrs.length : Int) - 1)] else [] }

variable (rev) in
/-- One round of the loop, in terms of the operation that it reads. -/
theorem analyzeStep_eq (st : AnalyzeState) (op : Op) (rest : List Byte)
    (hpos : op.pos = st.codePos) (himm : op.imm = rest.take (immSize op.opcode)) :
    analyzeStep rev st op.opcode rest =
      let rest := rest.drop (immSize op.opcode)
      let codePos := op.pos + 1 + op.imm.length
      let analysis := afterOp rev st op
      let block := countOp rev st.block op
      if isTerminator op.opcode ∨ rest.head? = some Opcode.jumpdest then
        let instrs := saveBlock analysis.instrs block ++ [instructionInitV (opxBeginblockFn rev)]
        { analysis := { analysis with instrs := instrs }
          block := blockAnalysisInitV (instrs.length - 1)
          codePos := codePos
          rest := rest }
      else { analysis := analysis, block := block, codePos := codePos, rest := rest } := by
  have hdrop : rest.drop op.imm.length = rest.drop (immSize op.opcode) := by
    by_cases h : immSize op.opcode ≤ rest.length
    · rw [himm, List.length_take, min_eq_left h]
    · rw [himm, List.length_take, min_eq_right (by omega), List.drop_length,
        List.drop_eq_nil_of_le (by omega)]
  by_cases hjumpdest : op.opcode = .jumpdest
  -- A `JUMPDEST` writes no instruction, but its offset and its target.
  · obtain ⟨pos, opcode, imm⟩ := op
    subst hjumpdest
    subst hpos
    rw [immSize_jumpdest, List.take_zero] at himm
    subst himm
    have hpushed : pushedValues [⟨st.codePos, .jumpdest, []⟩] = [] := rfl
    have hoffsets : jumpdestOffsetsOf [⟨st.codePos, .jumpdest, []⟩] = [toInt32 st.codePos] := rfl
    have hjump : Op.isJumpdest ⟨st.codePos, .jumpdest, []⟩ = true := rfl
    have hcodePos : ((st.codePos + 1 : Nat) : Int) - 1 = st.codePos := by omega
    simp only [analyzeStep, if_true, analyzeSwitch_jumpdest, afterOp, hpushed, hoffsets, hjump,
      hcodePos, immSize_jumpdest, List.append_nil, List.length_nil, Nat.add_zero, countOp,
      List.drop_zero]
  -- Every other opcode writes its instruction.
  · have hop : op.isJumpdest = false := beq_eq_false_iff_ne.2 hjumpdest
    simp only [analyzeStep, hjumpdest, if_false]
    rw [← hpos, analyzeSwitch_instr op _ rest himm]
    simp only [hdrop]
    simp [afterOp, hop, jumpdestOffsetsOf, Op.instr, countOp]

/-- One more operation in the summary. -/
theorem summary_concat (index : Nat) (ops : List Op) (op : Op) :
    summary rev index (ops ++ [op]) = countOp rev (summary rev index ops) op :=
  summary_append index ops [op]

/-- One more operation in the block. Its cost is that of the block up to it. -/
theorem blockInstrs_concat (ops : List Op) (op : Op) :
    blockInstrs rev (blockAnalysisInitV 0) (ops ++ [op]) =
      blockInstrs rev (blockAnalysisInitV 0) ops ++
        if op.isJumpdest then [] else [op.instr rev (summary rev 0 (ops ++ [op])).gasCost] := by
  rw [blockInstrs_append, summary_concat]
  simp [blockInstrs, summary]

variable (rev) in
/-- A `JUMPDEST` adds the target of its block, and any other operation leaves the targets. -/
theorem jumpTargets_concat (done : List (List Op)) (cur : List Op) (op : Op)
    (hfresh : op.isJumpdest = true → cur = []) :
    jumpTargets 0 (done ++ [cur ++ [op]]) = jumpTargets 0 (done ++ [cur]) ++
      if op.isJumpdest then [toInt32 (layout rev done).length] else [] := by
  rw [jumpTargets_append rev, jumpTargets_append rev, List.append_assoc]
  congr 1
  cases hop : op.isJumpdest with
  | true => simp [hfresh hop, jumpTargets, startsWithJumpdest, hop]
  | false => cases cur <;> simp [jumpTargets, startsWithJumpdest, hop]

/-- The analysis after an operation is that of the blocks with the operation behind them. -/
theorem Analysed.afterOp {st : AnalyzeState} {done : List (List Op)} {cur : List Op}
    (h : Analysed rev st done cur) (op : Op) (hfresh : op.isJumpdest = true → cur = []) :
    (TscVee.afterOp rev st op).instrs =
        layout rev done ++ instructionInitV (opxBeginblockFn rev) ::
          blockInstrs rev (blockAnalysisInitV 0) (cur ++ [op]) ∧
      countOp rev st.block op = summary rev (layout rev done).length (cur ++ [op]) ∧
      (TscVee.afterOp rev st op).pushValues = pushedValues (done.flatten ++ (cur ++ [op])) ∧
      (TscVee.afterOp rev st op).jumpdestOffsets =
        jumpdestOffsetsOf (done.flatten ++ (cur ++ [op])) ∧
      (TscVee.afterOp rev st op).jumpdestTargets = jumpTargets 0 (done ++ [cur ++ [op]]) := by
  have hblock : countOp rev st.block op = summary rev (layout rev done).length (cur ++ [op]) := by
    rw [h.block, summary_concat]
  -- The instructions, the summary, the values, the offsets and the targets, each extended by one.
  refine ⟨?_, hblock, ?_, ?_, ?_⟩
  · rw [TscVee.afterOp, hblock, h.instrs, blockInstrs_concat, summary_index]
    simp
  · rw [← List.append_assoc, pushedValues_append, ← h.pushValues]
    rfl
  · rw [← List.append_assoc, jumpdestOffsetsOf_append, ← h.offsets]
    rfl
  · rw [TscVee.afterOp, h.targets, jumpTargets_concat rev done cur op hfresh, h.instrs]
    cases hop : op.isJumpdest with
    | true => simp [hfresh hop, blockInstrs]
    | false => simp

/-- One round of the loop takes the operation to the current block, and closes the block where it
ends. -/
theorem Analysed.step {st : AnalyzeState} {done : List (List Op)} {cur : List Op}
    (h : Analysed rev st done cur) {opcode : Opcode} {rest : List Byte}
    (hrest : st.rest = opcode :: rest) :
    let op : Op := ⟨st.codePos, opcode, rest.take (immSize opcode)⟩
    if isTerminator opcode ∨ (rest.drop (immSize opcode)).head? = some Opcode.jumpdest then
      Analysed rev (analyzeStep rev st opcode rest) (done ++ [cur ++ [op]]) []
    else Analysed rev (analyzeStep rev st opcode rest) done (cur ++ [op]) := by
  intro op
  -- A `JUMPDEST` is met at the start of a block only.
  have hfresh : op.isJumpdest = true → cur = [] := fun hop => h.fresh (by
    rw [hrest, List.head?_cons, ← eq_of_beq hop])
  obtain ⟨hinstrs, hblock, hpush, hoffsets, htargets⟩ := h.afterOp op hfresh
  have hstep := analyzeStep_eq rev st op rest rfl rfl
  split
  -- The block ends here, and the next one begins.
  case isTrue hend =>
    rw [show op.opcode = opcode from rfl] at hstep
    rw [if_pos hend, hinstrs, hblock, saveBlock_layout] at hstep
    rw [hstep]
    exact
      { instrs := rfl
        block := by simp [summary, countOps]
        pushValues := by simp [hpush]
        offsets := by simp [hoffsets]
        targets := by
          rw [jumpTargets_append rev]
          simp [htargets, jumpTargets, startsWithJumpdest]
        fresh := fun _ => rfl }
  case isFalse hend =>
    rw [show op.opcode = opcode from rfl] at hstep
    rw [if_neg hend] at hstep
    rw [hstep]
    exact
      { instrs := hinstrs
        block := hblock
        pushValues := hpush
        offsets := hoffsets
        targets := htargets
        fresh := fun hjumpdest => absurd (Or.inr hjumpdest) hend }

/-- The whole loop. The operations left to decode are cut into blocks, the first of which continues
the current one. -/
theorem Analysed.loop (fuel : Nat) {st : AnalyzeState} {done : List (List Op)} {cur : List Op}
    (h : Analysed rev st done cur) (hfuel : st.rest.length ≤ fuel) :
    ∃ done' cur', Analysed rev (analyzeLoop rev fuel st) done' cur' ∧
      done' ++ [cur'] = done ++ prependBlock cur (blocks (decodeFrom fuel st.codePos st.rest)) := by
  induction fuel generalizing st done cur with
  | zero =>
      rw [analyzeLoop, decodeFrom]
      exact ⟨done, cur, h, by simp [blocks, prependBlock]⟩
  | succ fuel ih =>
      cases hrest : st.rest with
      | nil =>
          rw [analyzeLoop, hrest, decodeFrom]
          exact ⟨done, cur, h, by simp [blocks, prependBlock]⟩
      | cons opcode rest =>
          have hstep := h.step hrest
          have hlen : (rest.drop (immSize opcode)).length ≤ fuel := by
            rw [hrest, List.length_cons] at hfuel
            rw [List.length_drop]
            omega
          have hst := analyzeStep_eq rev st
            ⟨st.codePos, opcode, rest.take (immSize opcode)⟩ rest rfl rfl
          rw [analyzeLoop, hrest, decodeFrom, blocks]
          simp only at hstep hst ⊢
          -- The next operation is a `JUMPDEST` exactly where the next byte is one.
          have hnext : startsWithJumpdest (decodeFrom fuel
              (st.codePos + 1 + (rest.take (immSize opcode)).length)
              (rest.drop (immSize opcode))) = true ↔
              (rest.drop (immSize opcode)).head? = some Opcode.jumpdest := by
            cases hd : rest.drop (immSize opcode) with
            | nil => cases fuel <;> simp [decodeFrom, startsWithJumpdest]
            | cons b bytes =>
                rw [hd] at hlen
                obtain ⟨fuel, rfl⟩ : ∃ n, fuel = n + 1 := ⟨fuel - 1, by simp at hlen; omega⟩
                simp [decodeFrom, startsWithJumpdest, Op.isJumpdest]
          by_cases hend : isTerminator opcode = true ∨
              (rest.drop (immSize opcode)).head? = some Opcode.jumpdest
          · rw [if_pos hend] at hstep hst
            rw [if_pos (hend.imp_right hnext.2)]
            obtain ⟨done', cur', h', heq⟩ := ih hstep (by rw [hst]; exact hlen)
            refine ⟨done', cur', h', heq.trans ?_⟩
            rw [hst, prependBlock_nil (blocks_ne_nil _)]
            simp [prependBlock]
          · rw [if_neg hend] at hstep hst
            rw [if_neg (mt (Or.imp_right hnext.1) hend)]
            obtain ⟨done', cur', h', heq⟩ := ih hstep (by rw [hst]; exact hlen)
            refine ⟨done', cur', h', heq.trans ?_⟩
            rw [hst, prependBlock_append]

/-! ### The analysis -/

variable (rev) in
/-- The analyser starts with no block behind it and none begun. -/
theorem analysed_init (code : List Byte) : Analysed rev (analyzeInit rev code) [] [] :=
  { instrs := rfl, block := rfl, pushValues := rfl, offsets := rfl, targets := rfl
    fresh := fun _ => rfl }

variable (rev) in
/-- The end of the loop of `analyze`. -/
theorem analyzeLoop_analysed (code : List Byte) :
    ∃ done cur, Analysed rev (analyzeLoop rev code.length (analyzeInit rev code)) done cur ∧
      blocks (decode code) = done ++ [cur] := by
  obtain ⟨done, cur, h, heq⟩ := (analysed_init rev code).loop code.length (le_refl _)
  refine ⟨done, cur, h, ?_⟩
  rw [heq, List.nil_append, prependBlock_nil (blocks_ne_nil _)]
  rfl

variable (rev) in
/-- The instructions of the analysis: the blocks one after the other, and a `STOP` behind them. -/
theorem analyzeCode_instrs (code : List Byte) :
    (analyzeCode rev code).instrs =
      layout rev (blocks (decode code)) ++ [instructionInitV (getOpTable rev .stop).fn] := by
  obtain ⟨done, cur, h, heq⟩ := analyzeLoop_analysed rev code
  rw [heq, ← saveBlock_layout, ← h.instrs, ← h.block]
  rfl

variable (rev) in
/-- The table of push values holds those of the decoded code. -/
theorem analyzeCode_pushValues (code : List Byte) :
    (analyzeCode rev code).pushValues = pushedValues (decode code) := by
  obtain ⟨done, cur, h, heq⟩ := analyzeLoop_analysed rev code
  rw [← blocks_flatten (decode code), heq, List.flatten_append, List.flatten_singleton,
    ← h.pushValues]
  rfl

variable (rev) in
/-- The analyser stores the offsets of the `JUMPDEST`s of the decoded code. -/
theorem analyzeCode_jumpdestOffsets (code : List Byte) :
    (analyzeCode rev code).jumpdestOffsets = jumpdestOffsetsOf (decode code) := by
  obtain ⟨done, cur, h, heq⟩ := analyzeLoop_analysed rev code
  rw [← blocks_flatten (decode code), heq, List.flatten_append, List.flatten_singleton,
    ← h.offsets]
  rfl

variable (rev) in
/-- The analyser stores the targets of the blocks that start with a `JUMPDEST`. -/
theorem analyzeCode_jumpdestTargets (code : List Byte) :
    (analyzeCode rev code).jumpdestTargets = jumpTargets 0 (blocks (decode code)) := by
  obtain ⟨done, cur, h, heq⟩ := analyzeLoop_analysed rev code
  rw [heq, ← h.targets]
  rfl

omit [Env] in
/-- Every operation takes at least the byte of its opcode. -/
theorem decodeFrom_length (fuel pos : Nat) (rest : List Byte) :
    (decodeFrom fuel pos rest).length ≤ rest.length := by
  induction fuel generalizing pos rest with
  | zero => simp [decodeFrom]
  | succ fuel ih =>
      cases rest with
      | nil => simp [decodeFrom]
      | cons opcode rest =>
          have h := ih (pos + 1 + (rest.take (immSize opcode)).length) (rest.drop (immSize opcode))
          rw [List.length_drop] at h
          simp only [decodeFrom, List.length_cons]
          omega

omit [Env] in
/-- A code has at most as many operations as bytes. -/
theorem decode_length (code : List Byte) : (decode code).length ≤ code.length :=
  decodeFrom_length _ _ _

omit [Env] in
/-- A small number is its value as `int32_t`. -/
theorem toInt32_of_lt {n : Nat} (h : n < 2 ^ 31) : toInt32 n = n := by
  unfold toInt32
  rw [Int.bmod_eq_of_le] <;> omega

/-- A result of `analyze` is the analysis of the code. -/
theorem analyze_ok {code : List Byte} {analysis : CodeAnalysis}
    (h : analyze rev code = .ok analysis) : analysis = analyzeCode rev code := by
  unfold analyze at h
  simp only at h
  split at h
  · exact (Except.ok.inj h).symm
  · cases h

omit [Env] in
/-- The capacity that the analyser reserves, when the sum is an `int`. -/
theorem maxArgsStorageSize_eq {code : List Byte} (hlen : code.length < 2 ^ 31 - 1) :
    maxArgsStorageSize code = code.length + 1 := by
  unfold maxArgsStorageSize
  rw [show ((code.length : Int) + 1) = ((code.length + 1 : Nat) : Int) from rfl,
    toInt32_of_lt (by omega)]
  omega

variable (rev) in
/-- The assertion at the end of `analyze` holds. -/
theorem analyze_eq {code : List Byte} (hlen : code.length < 2 ^ 31 - 1) :
    analyze rev code = .ok (analyzeCode rev code) := by
  have hpush : (analyzeCode rev code).pushValues.length ≤ code.length := by
    rw [analyzeCode_pushValues, pushedValues, List.length_map]
    exact (List.length_filter_le _ _).trans (decode_length code)
  unfold analyze
  rw [maxArgsStorageSize_eq hlen, if_pos (by omega)]

end

end TscVee
