import TscVee.Proofs.Jumpdest
import TscVee.Proofs.Shape

/-!
# `TscVee.Proofs.Control`: the control flow of the interpreter loop

* `Shape.run_continues`: where an instruction function goes on, and what it does to the cost of
  the current block.
* `Located`: the instruction pointer is a valid index with an assigned function, and the cost of
  the current block is that of the enclosing `BEGINBLOCK`.
* `located_step`: a step keeps `Located`, and leaves a block only for the start of another one.
* `run_located`: both hold in every run, where the stack and the inner state may change in any way
  between the steps.
-/

set_option autoImplicit false

namespace TscVee

open TscVee.Core Exec Lib

/-! ### Where an instruction function goes on -/

/-- The instruction pointers that a function of the shape can return. -/
def Shape.Continues (analysis : CodeAnalysis) (instr : Nat) : Shape → Option Nat → Prop
  | _, none => True
  | .terminate _, some _ | .undefined, some _ => False
  | .jump, some j =>
    j < analysis.instrs.length ∧ ∃ offset, findJumpdest analysis offset = (j : Int)
  | .jumpi, some j =>
    j = instr + 1 ∨
      j < analysis.instrs.length ∧ ∃ offset, findJumpdest analysis offset = (j : Int)
  | _, some j => j = instr + 1

section
variable {analysis : CodeAnalysis}

/-- How an instruction function of the shape goes on from `s`, at the pointer `next` and with the
state `s'`. -/
structure Goes (analysis : CodeAnalysis) (instr : Nat) (arg : InstructionArgument) (shape : Shape)
    (s : AdvancedExecutionState) (next : Option Nat) (s' : AdvancedExecutionState) : Prop where
  continues : shape.Continues analysis instr next
  sameCost : shape ≠ .beginblock → s'.currentBlockCost = s.currentBlockCost
  blockCost : shape = .beginblock → next ≠ none →
    ∃ block, arg = .block block ∧ s'.currentBlockCost = block.gasCost

section
variable {instr : Nat} {arg : InstructionArgument} {shape : Shape}
  {s s' : AdvancedExecutionState}

/-- The end of the run, which every instruction may be. -/
theorem Goes.exit (h : s'.currentBlockCost = s.currentBlockCost) :
    Goes analysis instr arg shape s none s' :=
  ⟨by cases shape <;> trivial, fun _ => h, fun _ hne => absurd rfl hne⟩

/-- An instruction other than `BEGINBLOCK` goes on and keeps the cost of the block. -/
theorem Goes.next {next : Option Nat} (hshape : shape ≠ .beginblock)
    (hcontinues : shape.Continues analysis instr next)
    (h : s'.currentBlockCost = s.currentBlockCost) :
    Goes analysis instr arg shape s next s' :=
  ⟨hcontinues, fun _ => h, fun heq => absurd heq hshape⟩

variable (instr arg) in
/-- JUMP goes on at a target from the analysis, or stops. -/
theorem opJump_goes (s : AdvancedExecutionState) :
    Sat (opJump analysis) s (Goes analysis instr arg .jump s) fun _ _ => True := by
  unfold opJump
  simp only [sat_bind, sat_stackPop]
  split
  case isFalse => trivial
  generalize hpc : findJumpdest analysis _ = pc
  simp only [sat_ite, sat_exit, sat_throw, sat_pure, sat_bind]
  refine ⟨fun _ => .exit rfl, fun hneg => ⟨fun _ => trivial, fun hlt => ?_⟩⟩
  rw [not_not] at hlt
  exact .next nofun ⟨hlt, _, by rw [hpc]; omega⟩ rfl

/-- JUMPI goes on as JUMP does, or at the next instruction. -/
theorem opJumpi_goes (s : AdvancedExecutionState) :
    Sat (opJumpi analysis instr) s (Goes analysis instr arg .jumpi s) fun _ _ => True := by
  unfold opJumpi
  simp only [sat_bind, sat_stackGet, sat_ite, sat_pure]
  split
  case isFalse => trivial
  refine ⟨fun _ => ?_, fun _ => ?_⟩
  · refine (opJump_goes instr arg s).mono (fun next s' h => ?_)
      fun _ _ _ => trivial
    rw [sat_stackPop]
    split
    case isFalse => trivial
    refine .next nofun ?_ (h.sameCost nofun)
    cases next with
    | none => trivial
    | some j => exact Or.inr h.continues
  · simp only [sat_stackPop]
    split
    · exact .next nofun (Or.inl rfl) rfl
    · trivial

/-- `BEGINBLOCK` sets the cost of the block that it goes on in. -/
theorem opxBeginblock_goes (s : AdvancedExecutionState) :
    Sat (opxBeginblock instr arg) s (Goes analysis instr arg .beginblock s) fun _ _ => True := by
  unfold opxBeginblock
  cases arg with
  | block block =>
      simp only [sat_bind, sat_subGas]
      split
      case isFalse => trivial
      simp only [sat_bind, sat_get, sat_ite, sat_exit, sat_set, sat_pure]
      exact ⟨fun _ => .exit rfl, fun _ => ⟨fun _ => .exit rfl, fun _ => ⟨fun _ => .exit rfl,
        fun _ => ⟨rfl, fun h => absurd rfl h, fun _ _ => ⟨block, rfl, rfl⟩⟩⟩⟩⟩
  | _ => trivial

/-- An instruction with a gas correction goes on at the next instruction. -/
theorem opCorrected_goes (opcode : Opcode) (body : StackTop → Core Unit)
    (s : AdvancedExecutionState) :
    Sat (opCorrected opcode body instr arg) s (Goes analysis instr arg (.corrected opcode body) s)
      fun _ _ => True := by
  cases arg with
  | number n =>
      rw [sat_opCorrected]
      split
      case isFalse => trivial
      refine (sat_trivial _ _).mono (fun _ _ _ => ?_) fun h _ _ => ?_
      · simp only
        -- The next instruction, or the end when the gas is out.
        split
        · exact afterCorrection_cases _ (fun _ => .next nofun rfl rfl) fun _ => .exit rfl
        · trivial
      · cases h with
        | fault f => trivial
        | ret status =>
            simp only
            split
            · split
              · exact afterCorrection_cases _ (fun _ => .next nofun rfl rfl) fun _ => .exit rfl
              · trivial
            · exact .exit rfl
  | _ => trivial

variable (shape) in
/-- An instruction function that pushes a word goes on with the next instruction. -/
theorem stackPush_goes (hshape : shape ≠ .beginblock)
    (hcontinues : shape.Continues analysis instr (some (instr + 1))) (word : Uint256) :
    Sat (do stackPush word; return some (instr + 1)) s (Goes analysis instr arg shape s)
      fun _ _ => True := by
  simp only [sat_bind, sat_stackPush, sat_pure]
  split
  · exact .next hshape hcontinues rfl
  · trivial

variable (instr arg) in
/-- The control flow of an instruction function, and the cost of the current block. -/
theorem Shape.run_goes (shape : Shape) (s : AdvancedExecutionState) :
    Sat (shape.run analysis instr arg) s (Goes analysis instr arg shape s) fun _ _ => True := by
  -- Only the jumps and `BEGINBLOCK` do more than go on or end the run.
  cases shape with
  | core opcode body =>
      rw [Shape.run, sat_opCore]
      refine (sat_trivial _ _).mono (fun _ _ _ => .next (by simp) rfl rfl) fun h _ _ => ?_
      cases h with
      | ret status => exact afterStatus_cases _ (fun _ => .next (by simp) rfl rfl) fun _ => .exit rfl
      | fault f => trivial
  | corrected opcode body => exact opCorrected_goes opcode body s
  | terminate body =>
      rw [Shape.run, sat_opTerminate]
      refine (sat_trivial _ _).mono (fun _ _ _ => .exit rfl) fun h _ _ => ?_
      cases h with
      | ret status => exact .exit rfl
      | fault f => trivial
  | undefined => exact .exit rfl
  | jump => exact opJump_goes instr arg s
  | jumpi => exact opJumpi_goes s
  | pc =>
      cases arg with
      | number n => exact stackPush_goes .pc (by simp) rfl _
      | _ => trivial
  | gas =>
      cases arg with
      | number n =>
          simp only [Shape.run, opGas, argNumber, sat_bind, sat_get, sat_pure, sat_logGas,
            sat_stackPush]
          split
          · exact .next (by simp) rfl rfl
          · trivial
      | _ => trivial
  | pushSmall =>
      cases arg with
      | smallPushValue value => exact stackPush_goes .pushSmall (by simp) rfl _
      | _ => trivial
  | pushFull =>
      cases arg with
      | pushValue value => exact stackPush_goes .pushFull (by simp) rfl _
      | _ => trivial
  | beginblock => exact opxBeginblock_goes s

end

end

/-! ### The instructions of the analysis -/

section
variable [Env] (rev : Revision)

/-- Each instruction of a block is the one for an operation of the block. -/
theorem mem_blockInstrs {block : BlockAnalysis} {ops : List Op} {ins : Instruction}
    (h : ins ∈ blockInstrs rev block ops) :
    ∃ op ∈ ops, op.isJumpdest = false ∧ ∃ gasCost, ins = op.instr rev gasCost := by
  induction ops generalizing block with
  | nil => simp [blockInstrs] at h
  | cons op ops ih =>
      rw [blockInstrs, List.mem_append] at h
      rcases h with h | h
      · split at h
        · simp at h
        · next hop =>
            rw [List.mem_singleton] at h
            exact ⟨op, List.mem_cons_self, by simpa using hop, _, h⟩
      · obtain ⟨op', hop', h'⟩ := ih h
        exact ⟨op', List.mem_cons_of_mem _ hop', h'⟩

/-- The function of each instruction is `opx_beginblock` or that of a table entry. -/
theorem analyzeCode_fn_cases {code : List Byte} {ins : Instruction}
    (h : ins ∈ (analyzeCode rev code).instrs) :
    ins.fn = some .opxBeginblock ∨ ∃ opcode, ins.fn = (opcodeInfo rev opcode).fn := by
  rw [analyzeCode_instrs, List.mem_append, List.mem_singleton, layout, List.mem_flatMap] at h
  rcases h with ⟨ops, -, h⟩ | rfl
  · rcases List.mem_cons.1 h with rfl | h
    · exact Or.inl (opxBeginblockFn_eq rev)
    · obtain ⟨op, -, -, gasCost, rfl⟩ := mem_blockInstrs rev h
      exact Or.inr ⟨op.opcode, rfl⟩
  · exact Or.inr ⟨.stop, rfl⟩

/-- Every instruction has an assigned function. -/
theorem analyzeCode_fn {code : List Byte} {ins : Instruction}
    (h : ins ∈ (analyzeCode rev code).instrs) : ins.fn.isSome = true := by
  rcases analyzeCode_fn_cases rev h with hfn | ⟨opcode, hfn⟩
  · rw [hfn]
    rfl
  · rw [hfn]
    exact opcodeInfo_isSome rev opcode

/-- An instruction that is not a `STOP` is not the last one. -/
theorem succ_lt_of_ne_stop {code : List Byte} {i : Nat} {ins : Instruction}
    (h : (analyzeCode rev code).instrs[i]? = some ins) (hfn : ins.fn ≠ some .opStop) :
    i + 1 < (analyzeCode rev code).instrs.length := by
  have hlt := (List.getElem?_eq_some_iff.1 h).1
  by_contra hge
  rw [analyzeCode_instrs] at h hlt hge
  rw [List.length_append, List.length_singleton] at hlt hge
  rw [List.getElem?_append_right (by omega), show i - _ = 0 by omega] at h
  simp only [List.getElem?_cons_zero, Option.some.injEq] at h
  rw [← h, instructionInitV, stopFn_eq] at hfn
  exact hfn rfl

omit [Env] in
/-- Every operation is in the layout with at most a `BEGINBLOCK` of its own. -/
theorem layoutSize_blocks_le (ops : List Op) : layoutSize (blocks ops) ≤ 2 * ops.length + 1 := by
  induction ops with
  | nil => simp [blocks, layoutSize, blockSize]
  | cons op ops ih =>
      have hone : ∀ block, blockSize (op :: block) ≤ blockSize block + 1 := by
        intro block
        simp only [blockSize, List.countP_cons]
        split <;> omega
      unfold blocks
      split
      · have := hone []
        simp only [layoutSize, List.map_cons, List.sum_cons, List.length_cons] at ih ⊢
        have : blockSize [] = 1 := rfl
        omega
      · cases heq : blocks ops with
        | nil => exact absurd heq (blocks_ne_nil ops)
        | cons block rest =>
            have := hone block
            rw [heq] at ih
            simp only [prependBlock, layoutSize, List.map_cons, List.sum_cons, List.length_cons,
              List.singleton_append] at ih ⊢
            omega

/-- The analysis has at most two instructions for each byte, and two more. -/
theorem analyzeCode_instrs_length_le (code : List Byte) :
    (analyzeCode rev code).instrs.length ≤ 2 * code.length + 2 := by
  have h := layoutSize_blocks_le (decode code)
  have hlen := decode_length code
  rw [analyzeCode_instrs, List.length_append, layout_length, List.length_singleton]
  omega

/-- A target that is not negative is the index of a block that starts with a `JUMPDEST`. -/
theorem findJumpdest_block {code : List Byte} (hlen : code.length < 2 ^ 31) {offset : Int} {j : Nat}
    (h : findJumpdest (analyzeCode rev code) offset = j) :
    ∃ before op block after, blocks (decode code) = before ++ (op :: block) :: after ∧
      op.isJumpdest = true ∧ j = layoutSize before := by
  by_cases hvalid : ∃ p : Nat, offset = p ∧ ValidJumpdest code p
  · obtain ⟨p, rfl, hp⟩ := hvalid
    obtain ⟨i, hi⟩ := hp.exists_blockStart
    rw [findJumpdest_jumpdest rev hlen hp hi] at h
    obtain ⟨before, block, after, op, heq, hop, -, hindex⟩ :=
      mem_jumpEntries.1 (mem_jumpTableOf.2 ⟨hp, hi⟩)
    rw [Nat.zero_add] at hindex
    subst hindex
    have hdrop := analyzeCode_instrs_drop rev heq
    have hin : layoutSize before < (analyzeCode rev code).instrs.length := by
      have := congrArg List.length hdrop
      simp only [List.length_drop, List.length_append, List.length_singleton] at this
      omega
    have hle := analyzeCode_instrs_length_le rev code
    -- An index below `2 ^ 32` that is not negative as an `int` is unchanged.
    have hj : toInt32 (layoutSize before) = layoutSize before :=
      toInt32_of_nonneg (by omega) (by omega)
    exact ⟨before, op, block, after, heq, hop, by omega⟩
  · rw [findJumpdest_invalid rev hlen hvalid] at h
    omega

/-- A target that is not negative is the index of a `BEGINBLOCK`. -/
theorem findJumpdest_beginblock {code : List Byte} (hlen : code.length < 2 ^ 31) {offset : Int}
    {j : Nat} (h : findJumpdest (analyzeCode rev code) offset = j) :
    (analyzeCode rev code).instrs[j]?.bind Instruction.fn = some .opxBeginblock := by
  obtain ⟨before, op, block, after, heq, -, rfl⟩ := findJumpdest_block rev hlen h
  rw [← Nat.add_zero (layoutSize before), ← List.getElem?_drop, analyzeCode_instrs_drop rev heq,
    layoutBlock, opxBeginblockFn_eq]
  rfl

end

/-! ### Located configurations -/

/-- The `BEGINBLOCK` of the block that contains the instruction at index `i`: the last one up to
there. -/
def enclosingBegin (instrs : List Instruction) : Nat → Option Instruction
  | 0 => instrs[0]?.filter fun ins => ins.fn = some .opxBeginblock
  | i + 1 =>
    match instrs[i + 1]? with
    | none => none
    | some ins =>
      if ins.fn = some .opxBeginblock then some ins else enclosingBegin instrs i

/-- The instruction pointer is a valid index with an assigned function, and unless a `BEGINBLOCK`
is to run, the cost of the current block is the one that the enclosing `BEGINBLOCK` stores. -/
def Located (analysis : CodeAnalysis) (c : Config) : Prop :=
  ∀ i, c.pc = .at i → ∃ ins fn, analysis.instrs[i]? = some ins ∧ ins.fn = some fn ∧
    (fn ≠ .opxBeginblock → ∃ begin_ block, enclosingBegin analysis.instrs i = some begin_ ∧
      begin_.arg = .block block ∧ c.astate.currentBlockCost = block.gasCost)

/-- The loop runs, or something else changes the stack, the inner state or the status that was
handed over, as the host may between two steps. -/
inductive RunOrChange [Env] (analysis : CodeAnalysis) : Config → Config → Prop
  | run {c c' : Config} (h : stepInstr analysis c = some c') : RunOrChange analysis c c'
  | change {c : Config} (astate : AdvancedExecutionState)
      (h : astate.currentBlockCost = c.astate.currentBlockCost) :
      RunOrChange analysis c { c with astate := astate }

/-- An inversion of a step. -/
theorem stepInstr_at [Env] {analysis : CodeAnalysis} {c c' : Config} {i : Nat}
    {ins : Instruction} {fn : InstrFn} (hpc : c.pc = .at i)
    (hins : analysis.instrs[i]? = some ins) (hfn : ins.fn = some fn)
    (h : stepInstr analysis c = some c') :
    (∃ next, fn.call analysis i ins.arg c.astate = .ok next c'.astate ∧ c'.pc = .ofPtr next) ∨
      ∃ f, fn.call analysis i ins.arg c.astate = .error f c'.astate ∧ c'.pc = .stuck f := by
  unfold stepInstr callInstr at h
  rw [hpc] at h
  simp only [hins, hfn] at h
  cases hcall : fn.call analysis i ins.arg c.astate with
  | ok next astate =>
      rw [hcall] at h
      obtain rfl := Option.some.inj h
      exact Or.inl ⟨next, rfl, rfl⟩
  | error f astate =>
      rw [hcall] at h
      obtain rfl := Option.some.inj h
      exact Or.inr ⟨f, rfl, rfl⟩

/-- The next instruction, or one from the analysis. -/
theorem Shape.Continues.cases {analysis : CodeAnalysis} {instr j : Nat} {shape : Shape}
    (h : shape.Continues analysis instr (some j)) :
    j = instr + 1 ∨
      j < analysis.instrs.length ∧ ∃ offset, findJumpdest analysis offset = (j : Int) := by
  cases shape with
  | terminate _ | undefined => exact absurd h id
  | jump => exact Or.inr h
  | jumpi => exact h
  | _ => exact Or.inl h

/-- A `BEGINBLOCK` encloses itself. -/
theorem enclosingBegin_self {instrs : List Instruction} {i : Nat} {ins : Instruction}
    (hins : instrs[i]? = some ins) (hfn : ins.fn = some .opxBeginblock) :
    enclosingBegin instrs i = some ins := by
  cases i with
  | zero => simp [enclosingBegin, hins, hfn]
  | succ i => simp [enclosingBegin, hins, hfn]

/-- Another instruction is enclosed by what encloses the one in front of it. -/
theorem enclosingBegin_succ {instrs : List Instruction} {i : Nat} {ins : Instruction}
    (hins : instrs[i + 1]? = some ins) (hfn : ins.fn ≠ some .opxBeginblock) :
    enclosingBegin instrs (i + 1) = enclosingBegin instrs i := by
  simp [enclosingBegin, hins, hfn]

/-- At a `BEGINBLOCK`, every state is located. -/
theorem located_beginblock {analysis : CodeAnalysis} {c : Config} {i : Nat} (hpc : c.pc = .at i)
    (h : analysis.instrs[i]?.bind Instruction.fn = some .opxBeginblock) : Located analysis c := by
  intro j hj
  rw [hpc, Pc.at.injEq] at hj
  subst hj
  obtain ⟨ins, hins, hfn⟩ := Option.bind_eq_some_iff.1 h
  exact ⟨ins, .opxBeginblock, hins, hfn, fun hne => absurd rfl hne⟩

/-- A configuration without a place in the code is located. -/
theorem located_of_not_at {analysis : CodeAnalysis} {c : Config} (h : ∀ i, c.pc ≠ .at i) :
    Located analysis c := fun i hi => absurd hi (h i)

/-- One function only has the shape of `BEGINBLOCK`. -/
theorem InstrFn.shape_eq_beginblock [Env] {fn : InstrFn} (h : fn.shape = .beginblock) :
    fn = .opxBeginblock := by
  cases fn <;> first | rfl | cases h

section
variable [Env] (rev : Revision) {code : List Byte}

/-- The first instruction is a `BEGINBLOCK`. -/
theorem analyzeCode_instrs_zero (code : List Byte) :
    (analyzeCode rev code).instrs[0]?.bind Instruction.fn = some .opxBeginblock := by
  cases heq : blocks (decode code) with
  | nil => exact absurd heq (blocks_ne_nil _)
  | cons block rest =>
      rw [analyzeCode_instrs, heq, layout_cons, layoutBlock, opxBeginblockFn_eq]
      rfl

/-- A step keeps the location, and goes to the next instruction or to a `BEGINBLOCK`. -/
theorem located_step (hlen : code.length < 2 ^ 31 - 1) {c c' : Config}
    (h : Located (analyzeCode rev code) c)
    (hstep : stepInstr (analyzeCode rev code) c = some c') :
    Located (analyzeCode rev code) c' ∧ ∀ i j, c.pc = .at i → c'.pc = .at j →
      j = i + 1 ∨ (analyzeCode rev code).instrs[j]?.bind Instruction.fn = some .opxBeginblock := by
  cases hpc : c.pc with
  | null | stuck => simp [stepInstr, hpc] at hstep
  | «at» i =>
  obtain ⟨ins, fn, hins, hfn, hcost⟩ := h i hpc
  rcases stepInstr_at hpc hins hfn hstep with ⟨next, hcall, hpc'⟩ | ⟨f, -, hpc'⟩
  case inr => exact ⟨located_of_not_at (by simp [hpc']), by simp [hpc']⟩
  cases next with
  | none => exact ⟨located_of_not_at (by simp [hpc', Pc.ofPtr]), by simp [hpc', Pc.ofPtr]⟩
  | some j =>
  rw [Pc.ofPtr] at hpc'
  rw [InstrFn.call_eq] at hcall
  have hgoes := (Shape.run_goes i ins.arg fn.shape c.astate).of_ok hcall
  rcases hgoes.continues.cases with rfl | ⟨hj, offset, hfind⟩
  case inr =>
    -- A jump lands on the `BEGINBLOCK` of its target.
    have hbegin := findJumpdest_beginblock rev (by omega) hfind
    refine ⟨located_beginblock hpc' hbegin, fun i' j' _ hj' => Or.inr ?_⟩
    rw [hpc', Pc.at.injEq] at hj'
    exact hj' ▸ hbegin
  -- The next instruction exists, because the instruction is not the final `STOP`.
  have hstop : ins.fn ≠ some .opStop := by
    rintro heq
    obtain rfl := Option.some.inj (hfn.symm.trans heq)
    exact hgoes.continues
  have hlt := succ_lt_of_ne_stop rev hins hstop
  obtain ⟨ins', hins'⟩ : ∃ ins', (analyzeCode rev code).instrs[i + 1]? = some ins' :=
    ⟨_, List.getElem?_eq_getElem hlt⟩
  obtain ⟨fn', hfn'⟩ := Option.isSome_iff_exists.1
    (analyzeCode_fn rev (List.mem_of_getElem? hins'))
  refine ⟨fun k hk => ?_, fun i' j' hi' hj' => Or.inl ?_⟩
  · rw [hpc', Pc.at.injEq] at hk
    subst hk
    refine ⟨ins', fn', hins', hfn', fun hne => ?_⟩
    rw [enclosingBegin_succ hins' (by simp [hfn', hne])]
    by_cases hbegin : fn = .opxBeginblock
    · obtain ⟨block, harg, hcost'⟩ := hgoes.blockCost (by rw [hbegin]; rfl) (by simp)
      exact ⟨ins, block, enclosingBegin_self hins (by rw [hfn, hbegin]), harg, hcost'⟩
    · obtain ⟨begin_, block, hencl, harg, heq⟩ := hcost hbegin
      refine ⟨begin_, block, hencl, harg, ?_⟩
      rw [hgoes.sameCost (mt InstrFn.shape_eq_beginblock hbegin), heq]
  · rw [Pc.at.injEq] at hi'
    rw [hpc', Pc.at.injEq] at hj'
    omega

/-- Every configuration of a run is located, whatever else changes the state between the steps. -/
theorem located_of_run (hlen : code.length < 2 ^ 31 - 1) (astate : AdvancedExecutionState)
    {c : Config}
    (h : Relation.ReflTransGen (RunOrChange (analyzeCode rev code)) (startConfig astate) c) :
    Located (analyzeCode rev code) c := by
  induction h with
  | refl => exact located_beginblock rfl (analyzeCode_instrs_zero rev code)
  | tail _ hstep ih =>
      cases hstep with
      | run h => exact (located_step rev hlen ih h).1
      | change astate h =>
          intro i hi
          obtain ⟨ins, fn, hins, hfn, hcost⟩ := ih i hi
          exact ⟨ins, fn, hins, hfn, by simpa only [h] using hcost⟩

/-- The control flow of `execute_analyzed_code`: the instruction pointer stays in the table of
instructions, whose last one is a `STOP`; a step goes to the next instruction or to a
`BEGINBLOCK`; and inside a block its cost is known. -/
theorem run_located (rev : Revision) (_hrev : rev.hasRow) {code : List Byte}
    (hlen : code.length < 2 ^ 31 - 1) :
    ∃ analysis, analyze rev code = .ok analysis ∧
      analysis.instrs.getLast?.bind Instruction.fn = some .opStop ∧
      ∀ astate c, Relation.ReflTransGen (RunOrChange analysis) (startConfig astate) c →
        Located analysis c ∧ ∀ c' i j, stepInstr analysis c = some c' →
          c.pc = .at i → c'.pc = .at j →
            j = i + 1 ∨ analysis.instrs[j]?.bind Instruction.fn = some .opxBeginblock := by
  refine ⟨analyzeCode rev code, analyze_eq rev hlen, ?_, fun astate c h => ?_⟩
  · rw [analyzeCode_instrs, List.getLast?_append, stopFn_eq]
    rfl
  · have hloc := located_of_run rev hlen astate h
    exact ⟨hloc, fun c' i j hstep => (located_step rev hlen hloc hstep).2 i j⟩

end

/-- A code with a jump between its blocks. -/
theorem run_located_jump :
    ∃ analysis, @analyze Env.zeroed .london jumpCode = .ok analysis ∧
      analysis.instrs.getLast?.bind Instruction.fn = some .opStop ∧
      ∀ astate c, Relation.ReflTransGen (@RunOrChange Env.zeroed analysis) (startConfig astate) c →
        Located analysis c ∧ ∀ c' i j, @stepInstr Env.zeroed analysis c = some c' →
          c.pc = .at i → c'.pc = .at j →
            j = i + 1 ∨ analysis.instrs[j]?.bind Instruction.fn = some .opxBeginblock :=
  @run_located Env.zeroed .london (by decide) jumpCode (by decide)

end TscVee
