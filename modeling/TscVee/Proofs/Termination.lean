import TscVee.Proofs.ExitStatus
import TscVee.Proofs.Places
import TscVee.Proofs.StepsEnd

/-!
# `TscVee.Proofs.Termination`: the interpreter loop ends

Each way around a cycle of the control flow enters a block that starts with a `JUMPDEST`, which costs
at least 1, and no instruction raises the gas counter. So the pair of the gas counter and of the
instructions that are left falls at each step (`Config.measure`, `measure_step`).

Three things get in the way, and `Config.Bounded` excludes them: a gas operand above `2 ^ 63`, which a
call reads as a negative number; a block whose cost does not fit into its 32 bits; and a map of the
host that cannot grow.

* `Fueled`, `fueled_step`: what holds along a run, and how a step keeps it.
* `runs_end`: every run whose configurations are bounded is finite.
* `runs_terminates`: it ends at `NULL` if C defines its steps.
-/

set_option autoImplicit false

namespace TscVee

open TscVee.Core Exec Lib

section
variable [Env] (rev : Revision) {code : List Byte}

/-! ### The cost of a block -/

omit [Env] in
/-- The cost of two parts of a block. -/
theorem totalCost_append (xs ys : List Op) :
    totalCost (contributions rev (xs ++ ys)) =
      totalCost (contributions rev xs) + totalCost (contributions rev ys) := by
  simp [contributions, totalCost]

omit [Env] in
/-- A part of a block costs no more than the block, since no cost is negative. -/
theorem totalCost_le_append (xs ys : List Op) :
    totalCost (contributions rev xs) ≤ totalCost (contributions rev (xs ++ ys)) := by
  have hnonneg := totalCost_nonneg rev ys
  rw [totalCost_append]
  omega

omit [Env] in
/-- A block that starts with a `JUMPDEST` is not free. -/
theorem totalCost_jumpdest_pos {op : Op} (hop : op.isJumpdest = true) (ops : List Op) :
    0 < totalCost (contributions rev (op :: ops)) := by
  have hfirst : totalCost (contributions rev [op]) = 1 := by
    rw [contributions, List.map_singleton, eq_of_beq hop, contribution, gasCosts_jumpdest]
    rfl
  have hle := totalCost_le_append rev [op] ops
  rw [hfirst, List.singleton_append] at hle
  omega

/-- A cost that fits into 32 bits is stored as it is. -/
theorem summary_close_gasCost {block : List Op}
    (h : totalCost (contributions rev block) < 2 ^ 32) :
    ((summary rev 0 block).close.gasCost : Int) = totalCost (contributions rev block) := by
  have hnonneg := totalCost_nonneg rev block
  rw [BlockAnalysis.close_eq, summary, countOps_gasCost]
  show ((toUint32 _ : Nat) : Int) = _
  unfold toUint32
  omega

/-- The argument of an instruction other than `PC` is the cost of the block so far, if it is a
number. -/
theorem op_arg_number {op : Op} {gasCost n : Int} {fn : InstrFn}
    (hfn : (op.instr rev gasCost).fn = some fn) (harg : (op.instr rev gasCost).arg = .number n)
    (hpc : fn ≠ .opPc) : n = gasCost := by
  have hopcode : op.opcode ≠ .pc := by
    intro heq
    have hpcfn : (opcodeInfo rev .pc).fn = some .opPc := by cases rev <;> rfl
    rw [Op.instr, heq, hpcfn] at hfn
    exact hpc (Option.some.inj hfn).symm
  simp only [Op.instr, Op.arg, hopcode, if_false] at harg
  split at harg
  · cases harg
  · split at harg
    · cases harg
    · split at harg
      · exact (InstructionArgument.number.inj harg).symm
      · cases harg

/-! ### Where the run is -/

/-- The place of an index of the table, and the cost of the current block there: the run is inside a
block whose cost is known, or at a boundary. -/
inductive CostAt (code : List Byte) (cost : Nat) (i : Nat) : Prop
  | start (before : List (List Op)) (block : List Op) (after : List (List Op))
      (h : StartsBlock code before block after i)
  | stop (h : i = layoutSize (blocks (decode code)))
  | inside (before : List (List Op)) (done : List Op) (op : Op) (rest : List Op)
      (after : List (List Op)) (h : Behind code before done (op :: rest) after i)
      (hcost : (cost : Int) = totalCost (contributions rev (done ++ op :: rest)))

variable {rev}

omit [Env] in
/-- The cost of a block does not matter at its start. -/
theorem Boundary.costAt {cost i : Nat} (h : Boundary code i) : CostAt rev code cost i := by
  rcases h with ⟨before, block, after, hstart⟩ | hstop
  · exact .start before block after hstart
  · exact .stop hstop

omit [Env] in
/-- Behind some operations of a block. -/
theorem Behind.costAt {before after : List (List Op)} {done rest : List Op} {cost i : Nat}
    (h : Behind code before done rest after i)
    (hcost : (cost : Int) = totalCost (contributions rev (done ++ rest))) :
    CostAt rev code cost i := by
  cases rest with
  | nil => exact h.boundary.costAt
  | cons op rest => exact .inside before done op rest after h hcost

section
variable {s s' : AdvancedExecutionState} {i j : Nat} {ins : Instruction} {fn : InstrFn}
  (hins : (analyzeCode rev code).instrs[i]? = some ins) (hfn : ins.fn = some fn)

include hins hfn

/-- The counter that an instruction sees is not below the one that is left. -/
theorem CostAt.seen_le {cost : Nat} (h : CostAt rev code cost i) {n : Int}
    (harg : ins.arg = .number n) (hpc : fn ≠ .opPc) : n ≤ cost := by
  cases h with
  | start before block after hstart =>
      rw [hstart.instr rev, Option.some.injEq] at hins
      rw [← hins] at harg
      cases harg
  | stop hstop =>
      rw [hstop, stop_instr rev, Option.some.injEq] at hins
      rw [← hins] at harg
      cases harg
  | inside before done op rest after hbehind hcost =>
      rw [hbehind.instr rev, Option.some.injEq] at hins
      subst hins
      have hn := op_arg_number rev hfn harg hpc
      rw [summary, countOps_gasCost] at hn
      have hle := totalCost_le_append rev (done ++ [op]) rest
      rw [List.append_assoc, List.singleton_append] at hle
      omega

/-- The place behind an instruction. -/
theorem CostAt.next (hlen : code.length < 2 ^ 31) (h : CostAt rev code s.currentBlockCost i)
    (hblock : ∀ before block after, StartsBlock code before block after i →
      totalCost (contributions rev block) < 2 ^ 32)
    (hgoes : Goes (analyzeCode rev code) i ins.arg fn.shape s (some j) s') :
    CostAt rev code s'.currentBlockCost j := by
  rcases hgoes.continues.cases with rfl | ⟨-, offset, hfind⟩
  -- A jump leads to the start of a block, where the cost does not matter.
  case inr =>
    obtain ⟨before, op, block, after, hblocks, -, rfl⟩ := findJumpdest_block rev hlen hfind
    exact .start before (op :: block) after ⟨hblocks, rfl⟩
  cases h with
  -- `BEGINBLOCK` stores the cost of its block.
  | start before block after hstart =>
      have hinstr := hins
      rw [hstart.instr rev, Option.some.injEq] at hinstr
      subst hinstr
      obtain rfl : InstrFn.opxBeginblock = fn := Option.some.inj hfn
      obtain ⟨info, harg, hcost⟩ := hgoes.blockCost rfl nofun
      obtain rfl := InstructionArgument.block.inj harg
      obtain ⟨done, rest, rfl, -, hbehind⟩ := hstart.enter
      refine hbehind.costAt ?_
      rw [hcost]
      exact summary_close_gasCost rev (hblock _ _ _ hstart)
  -- Nothing comes behind the last STOP.
  | stop hstop =>
      rw [hstop, stop_instr rev, Option.some.injEq] at hins
      subst hins
      obtain rfl : InstrFn.opStop = fn := Option.some.inj hfn
      exact absurd hgoes.continues id
  -- Another instruction of the block keeps the cost.
  | inside before done op rest after hbehind hcost =>
      rw [hbehind.instr rev, Option.some.injEq] at hins
      subst hins
      have hjumpdest : op.opcode ≠ .jumpdest := by
        have hop := hbehind.rest op List.mem_cons_self
        rintro heq
        rw [Op.isJumpdest, heq] at hop
        cases hop
      have hshape : fn.shape ≠ .beginblock := fun heq =>
        opcodeInfo_ne_beginblock rev hjumpdest (InstrFn.shape_eq_beginblock heq ▸ hfn)
      refine hbehind.succ.costAt ?_
      rw [hgoes.sameCost hshape, hcost, List.append_assoc, List.singleton_append]

end

/-! ### A step -/

variable (rev code) in
/-- What a configuration needs for the run to end. -/
structure Config.Bounded (c : Config) : Prop where
  /-- The gas operand of a call is not read as a negative number. -/
  operand : ∀ fn, c.fn? (analyzeCode rev code) = some fn → fn.takesGas = true →
    (c.astate.estate.stackSpace c.astate.topItem).low < 2 ^ 63
  /-- The cost of a block that is entered fits into 32 bits. -/
  block : ∀ i before block after, c.pc = .at i → StartsBlock code before block after i →
    totalCost (contributions rev block) < 2 ^ 32
  /-- The maps of the host can grow. -/
  host : c.astate.estate.hostCtx.Roomy

variable (rev code) in
/-- What holds where the run goes on. -/
structure FueledAt (s : AdvancedExecutionState) (i : Nat) : Prop where
  place : CostAt rev code s.currentBlockCost i
  nonneg : 0 ≤ s.estate.gasLeft
  size : s.estate.memory.mSize < 2 ^ 63
  result : s.estate.hostCtx.callResult.gasLeft = 0
  sparse : s.estate.hostCtx.Sparse

/-- The cost that the instruction charges when it is a `BEGINBLOCK`. -/
def Instruction.blockCost (ins : Instruction) : Nat :=
  match ins.arg with
  | .block block => block.gasCost
  | _ => 0

/-- The cost that a `BEGINBLOCK` at the index is to charge. -/
def CodeAnalysis.dueAt (analysis : CodeAnalysis) (i : Nat) : Nat :=
  (analysis.instrs[i]?.map Instruction.blockCost).getD 0

variable (rev code) in
/-- How the run goes on from the index `i` to the index `j`. -/
structure Burns (i : Nat) (s : AdvancedExecutionState) (j : Nat) (s' : AdvancedExecutionState) :
    Prop where
  fueled : FueledAt rev code s' j
  charge : s'.estate.gasLeft + (analyzeCode rev code).dueAt i ≤ s.estate.gasLeft
  goes : j = i + 1 ∨ (analyzeCode rev code).dueAt i = 0 ∧
    ∃ before op block after, StartsBlock code before (op :: block) after j ∧ op.isJumpdest = true

variable (rev) in
/-- What is due at the start of a block is the cost of the whole block. -/
theorem StartsBlock.dueAt {before after : List (List Op)} {block : List Op} {i : Nat}
    (h : StartsBlock code before block after i) :
    (analyzeCode rev code).dueAt i = (summary rev 0 block).close.gasCost := by
  rw [CodeAnalysis.dueAt, h.instr rev]
  rfl

/-- Only a `BEGINBLOCK` has a block for its argument. -/
theorem op_blockCost (op : Op) (gasCost : Int) : (op.instr rev gasCost).blockCost = 0 := by
  unfold Instruction.blockCost Op.instr Op.arg
  split_ifs <;> rfl

omit [Env] in
/-- `BEGINBLOCK` charges the cost of its block. -/
theorem opxBeginblock_charges (s : AdvancedExecutionState) (instr : Nat) (block : BlockInfo) :
    Sat (opxBeginblock instr (.block block)) s
      (fun next s' => next ≠ none → s'.estate.gasLeft + block.gasCost ≤ s.estate.gasLeft)
      fun _ _ => True := by
  unfold opxBeginblock
  simp only [sat_bind, sat_subGas]
  split
  case isFalse => trivial
  simp only [sat_bind, sat_get, sat_ite, sat_exit, sat_set, sat_pure]
  refine ⟨fun _ h => absurd rfl h, fun _ => ⟨fun _ h => absurd rfl h, fun _ =>
    ⟨fun _ h => absurd rfl h, fun _ _ => ?_⟩⟩⟩
  show s.estate.gasLeft - block.gasCost + block.gasCost ≤ s.estate.gasLeft
  omega

section
variable {s : AdvancedExecutionState} {i : Nat} {ins : Instruction} {fn : InstrFn}

/-- What the instruction at the index charges for its block, and where it goes on. -/
theorem CostAt.goes {s' : AdvancedExecutionState} {j : Nat} (hlen : code.length < 2 ^ 31)
    (h : CostAt rev code s.currentBlockCost i)
    (hins : (analyzeCode rev code).instrs[i]? = some ins) (hfn : ins.fn = some fn)
    (hgoes : Goes (analyzeCode rev code) i ins.arg fn.shape s (some j) s') :
    j = i + 1 ∨ (analyzeCode rev code).dueAt i = 0 ∧
      ∃ before op block after, StartsBlock code before (op :: block) after j ∧
        op.isJumpdest = true := by
  -- Either the next instruction, or the target of a jump.
  rcases hgoes.continues.cases with rfl | ⟨-, offset, hfind⟩
  · exact Or.inl rfl
  cases h with
  -- `opx_beginblock` and STOP do not jump.
  | start before block after hstart =>
      rw [hstart.instr rev, Option.some.injEq] at hins
      subst hins
      obtain rfl : InstrFn.opxBeginblock = fn := Option.some.inj hfn
      exact Or.inl hgoes.continues
  | stop hstop =>
      rw [hstop, stop_instr rev, Option.some.injEq] at hins
      subst hins
      obtain rfl : InstrFn.opStop = fn := Option.some.inj hfn
      exact absurd hgoes.continues id
  -- A jump goes to a JUMPDEST, which begins a block.
  | inside before done op rest after hbehind hcost =>
      refine Or.inr ⟨?_, ?_⟩
      · rw [CodeAnalysis.dueAt, hbehind.instr rev]
        exact op_blockCost op _
      · obtain ⟨before, op, block, after, hblocks, hop, rfl⟩ := findJumpdest_block rev hlen hfind
        exact ⟨before, op, block, after, ⟨hblocks, rfl⟩, hop⟩

/-- Only `BEGINBLOCK` has something to charge. -/
theorem CostAt.dueAt (h : CostAt rev code s.currentBlockCost i)
    (hins : (analyzeCode rev code).instrs[i]? = some ins) (hfn : ins.fn = some fn) :
    (analyzeCode rev code).dueAt i = 0 ∨
      fn = .opxBeginblock ∧ ∃ block, ins.arg = .block block ∧
        (analyzeCode rev code).dueAt i = block.gasCost := by
  cases h with
  | start before block after hstart =>
      have hdue := hstart.dueAt rev
      rw [hstart.instr rev, Option.some.injEq] at hins
      subst hins
      exact Or.inr ⟨(Option.some.inj hfn).symm, _, rfl, hdue⟩
  | stop hstop =>
      refine Or.inl ?_
      rw [CodeAnalysis.dueAt, hstop, stop_instr rev]
      rfl
  | inside before done op rest after hbehind hcost =>
      refine Or.inl ?_
      rw [CodeAnalysis.dueAt, hbehind.instr rev]
      exact op_blockCost op _

/-- The call of an instruction function in a bounded configuration. -/
theorem call_burns (hlen : code.length < 2 ^ 31) (h : FueledAt rev code s i)
    (hins : (analyzeCode rev code).instrs[i]? = some ins) (hfn : ins.fn = some fn)
    (hoperand : fn.takesGas = true → (s.estate.stackSpace s.topItem).low < 2 ^ 63)
    (hblock : ∀ before block after, StartsBlock code before block after i →
      totalCost (contributions rev block) < 2 ^ 32)
    (hroom : s.estate.hostCtx.Roomy) :
    Sat (fn.call (analyzeCode rev code) i ins.arg) s
      (fun next s' => ∀ j, next = some j → Burns rev code i s j s') fun f _ => f ≠ .diverges := by
  have hdup : fn ≠ .opDup 0 := by
    rintro rfl
    exact analyzeCode_fn_ne_dup_zero (List.mem_of_getElem? hins) hfn
  have hgoes : Sat (fn.call (analyzeCode rev code) i ins.arg) s
      (Goes (analyzeCode rev code) i ins.arg fn.shape s) fun _ _ => True := by
    rw [InstrFn.call_eq]
    exact Shape.run_goes i ins.arg fn.shape s
  -- What is known of the call, from four sides: it ends, it goes on to a place, it takes gas, and a
  -- block is charged.
  have hends := (call_ends hdup h.sparse hroom (analyzeCode rev code) i ins.arg).and hgoes
  -- SELFDESTRUCT does not go on.
  by_cases hselfdestruct : fn = .opSelfdestruct
  · refine hends.mono (fun next s' hs j hj => ?_) fun _ _ h => h.1
    subst hselfdestruct hj
    exact absurd hs.2.continues id
  -- The gas that a correction shows is not negative, since the block has been paid.
  have hseen : ∀ n, ins.arg = .number n → fn ≠ .opPc →
      0 ≤ s.estate.gasLeft + (s.currentBlockCost - n) := fun n harg hpc => by
    have hle := h.place.seen_le hins hfn harg hpc
    have hnonneg := h.nonneg
    omega
  have hgas : Sat (fn.call (analyzeCode rev code) i ins.arg) s
      (GasStep (fn.SendsFrom s ins.arg) s.estate) fun _ _ => True :=
    call_gasStep h.nonneg hdup h.size (fun heq => absurd heq hselfdestruct) fun n heq harg =>
      hseen n harg (by rw [heq]; nofun)
  -- Only `BEGINBLOCK` takes what is due.
  have hcharge : Sat (fn.call (analyzeCode rev code) i ins.arg) s
      (fun next s' => ∀ block, fn = .opxBeginblock → ins.arg = .block block → next ≠ none →
        s'.estate.gasLeft + block.gasCost ≤ s.estate.gasLeft) fun _ _ => True := by
    by_cases hbegin : fn = .opxBeginblock ∧ ∃ block, ins.arg = .block block
    · obtain ⟨rfl, block, harg⟩ := hbegin
      rw [harg]
      refine (opxBeginblock_charges s i block).mono (fun next s' h info _ hinfo => ?_) fun _ _ h => h
      rwa [← InstructionArgument.block.inj hinfo]
    · exact (sat_trivial _ _).mono
        (fun _ _ _ block heq harg => absurd ⟨heq, block, harg⟩ hbegin) fun _ _ h => h
  refine (hends.and (hgas.and hcharge)).mono (fun next s' hs j hj => ?_) fun _ _ h => h.1.1
  subst hj
  obtain ⟨⟨hsparse, hgoes⟩, hstep, hcharge⟩ := hs
  have hlasts : Lasts (some j) s' := Or.inl nofun
  have hfalls := hstep.falls hlasts
  -- The callee gave nothing back that it did not get, since the call result of the host has no gas.
  have hle : s'.estate.gasLeft ≤ s.estate.gasLeft := by
    refine hfalls.gas.resolve_right ?_
    rintro ⟨m, ⟨n, harg, hpc, hsends⟩, -, hlt⟩
    rw [hfalls.kept.result, h.result] at hlt
    exact absurd (hsends (hseen n harg hpc) hoperand) (not_le.2 hlt)
  have hfueled : FueledAt rev code s' j :=
    ⟨h.place.next hins hfn hlen hblock hgoes, hstep.nonneg hlasts, hfalls.kept.size h.size,
      by rw [hfalls.kept.result, h.result], hsparse⟩
  refine ⟨hfueled, ?_, h.place.goes hlen hins hfn hgoes⟩
  rcases h.place.dueAt hins hfn with hdue | ⟨hbegin, block, harg, hdue⟩
  · rw [hdue]
    omega
  · rw [hdue]
    exact hcharge block hbegin harg nofun

end

/-! ### The run -/

/-- At each place stands an instruction with an assigned function. -/
theorem CostAt.exists_instr {cost i : Nat} (h : CostAt rev code cost i) :
    ∃ ins fn, (analyzeCode rev code).instrs[i]? = some ins ∧ ins.fn = some fn := by
  have hsome : ∀ {ins}, (analyzeCode rev code).instrs[i]? = some ins →
      ∃ ins fn, (analyzeCode rev code).instrs[i]? = some ins ∧ ins.fn = some fn := by
    intro ins hins
    obtain ⟨fn, hfn⟩ := Option.isSome_iff_exists.1 (analyzeCode_fn rev (List.mem_of_getElem? hins))
    exact ⟨ins, fn, hins, hfn⟩
  cases h with
  | start before block after hstart => exact hsome (hstart.instr rev)
  | stop hstop => exact hsome (hstop ▸ stop_instr rev)
  | inside before done op rest after hbehind hcost => exact hsome (hbehind.instr rev)

variable (rev code) in
/-- What holds along a run. -/
structure Fueled (c : Config) : Prop where
  running : ∀ i, c.pc = .at i → FueledAt rev code c.astate i
  ends : c.pc ≠ .stuck .diverges

section
variable {c c' : Config} {i : Nat}

/-- Where a step of a bounded configuration goes. -/
theorem stepInstr_burns (hlen : code.length < 2 ^ 31) (h : FueledAt rev code c.astate i)
    (hbounded : c.Bounded rev code) (hpc : c.pc = .at i)
    (hstep : stepInstr (analyzeCode rev code) c = some c') :
    (∃ j, c'.pc = .at j ∧ Burns rev code i c.astate j c'.astate) ∨
      c'.pc = .null ∨ ∃ f, c'.pc = .stuck f ∧ f ≠ .diverges := by
  obtain ⟨ins, fn, hins, hfn⟩ := h.place.exists_instr
  have hcurrent : c.fn? (analyzeCode rev code) = some fn := by
    rw [Config.fn?, hpc]
    exact Option.bind_eq_some_iff.2 ⟨ins, hins, hfn⟩
  have hcall := call_burns hlen h hins hfn (hbounded.operand fn hcurrent)
    (fun before block after => hbounded.block i before block after hpc) hbounded.host
  rcases stepInstr_at hpc hins hfn hstep with ⟨next, hok, hpc'⟩ | ⟨f, herr, hpc'⟩
  · cases next with
    | none => exact Or.inr (Or.inl hpc')
    | some j => exact Or.inl ⟨j, hpc', hcall.of_ok hok j rfl⟩
  · exact Or.inr (Or.inr ⟨f, hpc', hcall.of_error herr⟩)

/-- A step leaves the configuration fueled: inside of a block with what the block has to pay, and at
the start of one with what is due. -/
theorem fueled_step (hlen : code.length < 2 ^ 31) (h : Fueled rev code c)
    (hbounded : c.Bounded rev code) (hstep : stepInstr (analyzeCode rev code) c = some c') :
    Fueled rev code c' := by
  cases hpc : c.pc with
  | null | stuck => simp [stepInstr, hpc] at hstep
  | «at» i =>
  rcases stepInstr_burns hlen (h.running i hpc) hbounded hpc hstep with
    ⟨j, hj, hburns⟩ | hnull | ⟨f, hstuck, hne⟩
  · refine ⟨fun k hk => ?_, by simp [hj]⟩
    rw [hj, Pc.at.injEq] at hk
    exact hk ▸ hburns.fueled
  · exact ⟨by simp [hnull], by simp [hnull]⟩
  · exact ⟨by simp [hstuck], by simp [hstuck, hne]⟩

/-- The gas counter, which counts for one more where no cost is due, and the instructions that are
left. -/
def Config.measure (analysis : CodeAnalysis) (c : Config) : Nat × Nat :=
  match c.pc with
  | .at i =>
    (c.astate.estate.gasLeft.toNat + if analysis.dueAt i = 0 then 1 else 0,
      analysis.instrs.length - i)
  | _ => (0, 0)

/-- The measure falls at each step. -/
theorem measure_step (hlen : code.length < 2 ^ 31) (h : Fueled rev code c)
    (hbounded : c.Bounded rev code) (hbounded' : c'.Bounded rev code)
    (hstep : stepInstr (analyzeCode rev code) c = some c') :
    Prod.Lex (· < ·) (· < ·) (c'.measure (analyzeCode rev code))
      (c.measure (analyzeCode rev code)) := by
  cases hpc : c.pc with
  | null | stuck => simp [stepInstr, hpc] at hstep
  | «at» i =>
  have hfueled := h.running i hpc
  have hnonneg := hfueled.nonneg
  obtain ⟨ins, fn, hins, -⟩ := hfueled.place.exists_instr
  have hlt : i < (analyzeCode rev code).instrs.length := (List.getElem?_eq_some_iff.1 hins).1
  -- The measure of the end is the least one.
  have hend : c'.measure (analyzeCode rev code) = (0, 0) →
      Prod.Lex (· < ·) (· < ·) (c'.measure (analyzeCode rev code))
        (c.measure (analyzeCode rev code)) := by
    intro h0
    rw [h0, Config.measure, hpc, Prod.lex_def]
    simp only
    omega
  rcases stepInstr_burns hlen hfueled hbounded hpc hstep with
    ⟨j, hj, hburns⟩ | hnull | ⟨f, hstuck, -⟩
  · have hcharge := hburns.charge
    have hnonneg' := hburns.fueled.nonneg
    rw [Config.measure, Config.measure, hj, hpc, Prod.lex_def]
    simp only
    rcases hburns.goes with rfl | ⟨hfree, before, op, block, after, hstart, hop⟩
    · -- The next instruction: one less is left.
      split <;> split <;> omega
    · -- A jump: the target is not free.
      have hpos := totalCost_jumpdest_pos rev hop block
      have hdue := hstart.dueAt rev
      have hcost := summary_close_gasCost rev (hbounded'.block j _ _ _ hj hstart)
      rw [if_pos hfree, if_neg (by omega)]
      omega
  · exact hend (by rw [Config.measure, hnull])
  · exact hend (by rw [Config.measure, hstuck])

end

variable {hostCtx : MockedHost} {msg : Message}

/-- The first configuration is at the start of a block. -/
theorem fueled_init (hgas : 0 ≤ msg.gas) (hhost : hostCtx.Sparse)
    (hresult : hostCtx.callResult.gasLeft = 0) :
    Fueled rev code (initialConfig rev hostCtx msg code) := by
  refine ⟨fun i hi => ?_, nofun⟩
  obtain ⟨block, after, hblocks⟩ := List.exists_cons_of_ne_nil (blocks_ne_nil (decode code))
  have hzero : i = 0 := (Pc.at.inj hi).symm
  exact ⟨.start [] block after ⟨hblocks, hzero⟩, hgas, Nat.two_pow_pos 63, hresult, hhost⟩

/-- The loop goes on as long as it stands at an instruction. -/
theorem not_final_at {analysis : CodeAnalysis} {c : Config} {i : Nat} (h : c.pc = .at i) :
    ¬ Final (stepInstr analysis) c := by
  intro hfinal
  unfold Final stepInstr at hfinal
  rw [h] at hfinal
  dsimp only at hfinal
  split at hfinal <;> cases hfinal

/-- A run whose configurations are bounded is finite: it reaches `NULL`, or a step that C does not
define, and no search in a map of the host goes on forever. -/
theorem runs_end (hlen : code.length < 2 ^ 31 - 1) (hgas : 0 ≤ msg.gas) (hhost : hostCtx.Sparse)
    (hresult : hostCtx.callResult.gasLeft = 0)
    (hbounded : ∀ analysis c, Runs rev hostCtx msg code analysis c → c.Bounded rev code) :
    Terminates (stepInstr (analyzeCode rev code)) (initialConfig rev hostCtx msg code) ∧
      ∃ c, Runs rev hostCtx msg code (analyzeCode rev code) c ∧
        (c.pc = .null ∨ ∃ f, c.pc = .stuck f ∧ f ≠ .diverges) := by
  have hlen' : code.length < 2 ^ 31 := by omega
  have hanalyze := analyze_eq rev hlen
  have hfueled : ∀ c, Reaches (stepInstr (analyzeCode rev code))
      (initialConfig rev hostCtx msg code) c → Fueled rev code c := fun c hrun =>
    hrun.invariant_of (fun a b ha hb hab => fueled_step hlen' ha hb hab)
      (fun a ha => hbounded _ a ⟨hanalyze, ha⟩) (fueled_init hgas hhost hresult)
  -- Lexicographic: the gas falls, or stays while the index grows.
  have hends : Terminates (stepInstr (analyzeCode rev code))
      (initialConfig rev hostCtx msg code) :=
    .of_measure (WellFounded.prod_lex Nat.lt_wfRel.wf Nat.lt_wfRel.wf)
      (Config.measure (analyzeCode rev code)) fun a b ha hab =>
        measure_step hlen' (hfueled a ha) (hbounded _ a ⟨hanalyze, ha⟩)
          (hbounded _ b ⟨hanalyze, ha.tail hab⟩) hab
  obtain ⟨c, hrun, hfinal⟩ := hends.reaches_final
  refine ⟨hends, c, ⟨hanalyze, hrun⟩, ?_⟩
  cases hpc : c.pc with
  | null => exact Or.inl rfl
  -- The code probes no map forever, since the maps of the host stay sparse.
  | stuck f =>
      refine Or.inr ⟨f, rfl, ?_⟩
      rintro rfl
      exact (hfueled c hrun).ends hpc
  | «at» i => exact absurd hfinal (not_final_at hpc)

/-- The steps so far are defined in C: none of them went through `NULL`, left an array or overflowed
an `int64_t`. A search that does not end is no such step. -/
def Config.Defined (c : Config) : Prop := ∀ f, c.pc = .stuck f → f = .diverges

/-- A run whose configurations are bounded, and whose steps C defines, is finite, and the loop
reaches `NULL`. -/
theorem runs_terminates (_hrev : rev.hasRow) (hlen : code.length < 2 ^ 31 - 1) (hgas : 0 ≤ msg.gas)
    (hhost : hostCtx.Sparse) (hresult : hostCtx.callResult.gasLeft = 0)
    (hbounded : ∀ analysis c, Runs rev hostCtx msg code analysis c → c.Bounded rev code)
    (hdefined : ∀ analysis c, Runs rev hostCtx msg code analysis c → c.Defined) :
    ∃ analysis, analyze rev code = .ok analysis ∧
      Terminates (stepInstr analysis) (initialConfig rev hostCtx msg code) ∧
      ∃ c, Runs rev hostCtx msg code analysis c ∧ c.pc = .null := by
  obtain ⟨hends, c, hruns, hlast⟩ := runs_end hlen hgas hhost hresult hbounded
  refine ⟨_, analyze_eq rev hlen, hends, c, hruns, ?_⟩
  rcases hlast with hnull | ⟨f, hstuck, hne⟩
  · exact hnull
  · exact absurd (hdefined _ c hruns f hstuck) hne

end

/-- A loop that pays 12 for each round. -/
def roundCode : List Byte := [0x5b, 0x60, 0, 0x56]

/-- A message that can pay for two rounds. -/
def roundMessage : Message := { (default : Message) with gas := 30 }

/-- The loop behind `n` steps. -/
def roundRun [Env] (n : Nat) : Config :=
  iterate (stepInstr (analyzeCode .london roundCode)) n
    (initialConfig .london (mockedHostInit default) roundMessage roundCode)

/-- Two rounds are paid for, and the third is refused. Nothing asks the host. -/
theorem roundRun_states :
    let _ : Env := Env.zeroed
    (List.range 8).map (fun n => ((roundRun n).pc, (roundRun n).astate.estate.gasLeft,
        (roundRun n).astate.estate.trace)) =
      [(.at 0, 30, []), (.at 1, 18, []), (.at 2, 18, []), (.at 0, 18, []), (.at 1, 6, []),
        (.at 2, 6, []), (.at 0, 6, []), (.null, -6, [])] := by
  with_unfolding_all decide

/-- The run goes around three instructions and ends in its third round. -/
theorem roundRun_pc :
    let _ : Env := Env.zeroed
    ∀ n ≤ 7, (roundRun n).pc = if n = 7 then .null else .at (n % 3) := by
  intro _ n hn
  have hstate := congrArg (fun states => (states[n]?).map (·.1)) roundRun_states
  obtain rfl | rfl | rfl | rfl | rfl | rfl | rfl | rfl :
      n = 0 ∨ n = 1 ∨ n = 2 ∨ n = 3 ∨ n = 4 ∨ n = 5 ∨ n = 6 ∨ n = 7 := by omega
  all_goals simpa using hstate

/-- Nothing is recorded on the way. -/
theorem roundRun_trace :
    let _ : Env := Env.zeroed
    ∀ n ≤ 7, (roundRun n).astate.estate.trace = [] := by
  intro _ n hn
  have hstate := congrArg (fun states => (states[n]?).map (·.2.2)) roundRun_states
  obtain rfl | rfl | rfl | rfl | rfl | rfl | rfl | rfl :
      n = 0 ∨ n = 1 ∨ n = 2 ∨ n = 3 ∨ n = 4 ∨ n = 5 ∨ n = 6 ∨ n = 7 := by omega
  all_goals simpa using hstate

/-- The run has eight configurations. -/
theorem roundRun_reached :
    let _ : Env := Env.zeroed
    ∀ c, Reaches (stepInstr (analyzeCode .london roundCode))
      (initialConfig .london (mockedHostInit default) roundMessage roundCode) c →
      ∃ n ≤ 7, c = roundRun n := by
  intro _ c hrun
  have hnull : (roundRun 7).pc = .null := roundRun_pc 7 (le_refl 7)
  have hfinal : Final (stepInstr (analyzeCode .london roundCode)) (roundRun 7) := by
    unfold Final stepInstr
    rw [hnull]
  exact hrun.eq_iterate hfinal

/-- What keeps the host may be followed through the bookkeeping of a step. -/
theorem hostCtx_bookkept : Bookkept fun s s' => s'.hostCtx = s.hostCtx where
  refl _ := rfl
  trans h h' := h'.trans h
  gas _ _ := rfl
  see _ _ := rfl
  slot _ _ := rfl

/-- The loop without requests to the host ends. -/
theorem runs_terminates_round :
    let _ : Env := Env.zeroed
    ∃ analysis, analyze .london roundCode = .ok analysis ∧
      Terminates (stepInstr analysis)
        (initialConfig .london (mockedHostInit default) roundMessage roundCode) ∧
      ∃ c, Runs .london (mockedHostInit default) roundMessage roundCode analysis c ∧
        c.pc = .null := by
  intro _
  have hsparse : (mockedHostInit default).Sparse := ⟨CMap.sparse_init, CMap.each_init _⟩
  refine runs_terminates (by decide) (by decide) (by decide) hsparse rfl
    (fun analysis c hruns => ?_) fun analysis c hruns => ?_
  all_goals
    obtain ⟨hanalyze, hrun⟩ := hruns
    obtain rfl := analyze_ok hanalyze
  -- The code has four functions, none of which asks the host or takes gas from an operand.
  · have hfns : ∀ ins ∈ (analyzeCode .london roundCode).instrs,
        ins.fn = some .opxBeginblock ∨ ins.fn = some .opPushSmall ∨ ins.fn = some .opJump ∨
          ins.fn = some .opStop := by with_unfolding_all decide
    have hfn : ∀ {c : Config} {fn : InstrFn}, c.fn? (analyzeCode .london roundCode) = some fn →
        fn = .opxBeginblock ∨ fn = .opPushSmall ∨ fn = .opJump ∨ fn = .opStop := by
      intro c fn h
      unfold Config.fn? at h
      split at h
      · obtain ⟨ins, hins, hinsfn⟩ := Option.bind_eq_some_iff.1 h
        simpa [hinsfn] using hfns ins (List.mem_of_getElem? hins)
      · cases h
    -- So the host stays the first one on the way.
    have hhost : c.astate.estate.hostCtx = mockedHostInit default := by
      refine hrun.invariant (I := fun c => c.astate.estate.hostCtx = mockedHostInit default)
        (fun a b ha hab => ?_) rfl
      cases hcurrent : a.fn? (analyzeCode .london roundCode) with
      | none => rwa [stepInstr_none hcurrent hab]
      | some fn =>
          refine (stepInstr_moves hostCtx_bookkept hcurrent ?_ hab).trans ha
          rcases hfn hcurrent with rfl | rfl | rfl | rfl
          · trivial
          · trivial
          · trivial
          · exact fun _ _ => rfl
    refine ⟨fun fn hcurrent htakes => ?_, fun i before block after _ hstart => ?_, ?_⟩
    · rcases hfn hcurrent with rfl | rfl | rfl | rfl <;> cases htakes
    -- The blocks are cheap.
    · have hcosts : ∀ block ∈ blocks (decode roundCode),
          totalCost (contributions .london block) < 2 ^ 32 := by with_unfolding_all decide
      exact hcosts block (by rw [hstart.blocks]; simp)
    · rw [hhost]
      exact ⟨CMap.roomy_init, CMap.each_init _⟩
  -- None of the eight configurations is stuck.
  · obtain ⟨n, hn, rfl⟩ := roundRun_reached c hrun
    intro f hstuck
    rw [roundRun_pc n hn] at hstuck
    split at hstuck <;> cases hstuck

/-! ### A run that goes on forever

A `DELEGATECALL` without value is charged 9000, and hands a negative gas operand to its callee. What
the callee did not get comes back to the gas counter. -/

/-- A host without accounts, with its initial call result. -/
structure MockedHost.Unused (host : MockedHost) : Prop where
  accounts : host.accounts = CMap.init
  result : host.callResult = evmcResultInit

/-- The record of an account access is no account. -/
theorem MockedHost.Unused.recorded {host : MockedHost} (h : host.Unused) (addr : Address) :
    (host.recorded addr).Unused := ⟨h.accounts, h.result⟩

/-- Every address is looked up in an empty map. -/
theorem MockedHost.Unused.locates {host : MockedHost} (h : host.Unused) (addr : Address) :
    host.Locates addr := by
  refine locates_of_empty ?_ addr
  rw [h.accounts]
  rfl

/-- A call without input. -/
theorem MockedHost.Unused.call {host : MockedHost} (h : host.Unused) {m : Message}
    (hinput : m.inputSize = 0) :
    Sat (MockedHost.call m) host (fun result host' => result = evmcResultInit ∧ host'.Unused)
      fun _ _ => False := by
  obtain ⟨haccounts, hresult⟩ := h.recorded m.recipient
  have hkeeps : Sat (MockedHost.call m) host (fun result host' => result = evmcResultInit ∧
      host'.accounts = CMap.init ∧ host'.callResult = evmcResultInit) fun _ _ => False := by
    unfold MockedHost.call
    simp only [sat_bind, sat_recordAccountAccess, sat_modify, sat_get, sat_ite, sat_set, sat_pure,
      hinput, Nat.lt_irrefl, false_implies, true_and]
    cases (host.recorded m.recipient).recordedCalls.empty <;> simp [haccounts, hresult]
  exact hkeeps.mono (fun _ _ h => ⟨h.1, h.2.1, h.2.2⟩) fun _ _ h => h

section
variable [Env] {s : ExecutionState}

/-- The state at a `DELEGATECALL` whose gas operand, on five zeros, is read as `g`. -/
structure AtDelegatecall (g : Int) (s : ExecutionState) : Prop where
  zeros : ∀ p : Int, 0 ≤ p → p ≤ 4 → s.stackSpace p = .zero
  operand : toInt64 (s.stackSpace 5).low = g
  rev : s.rev = .homestead
  depth : s.msg.depth = 0
  host : s.hostCtx.Unused
  gas : 9000 ≤ s.gasLeft ∧ s.gasLeft < 2 ^ 62

omit [Env] in
/-- A word that is known is loaded. -/
theorem sat_load_of {p : Slot} {w : Uint256} {Q : Uint256 → ExecutionState → Prop}
    {E : Halt → ExecutionState → Prop} (hp : inStackSpace p) (hw : s.stackSpace p = w)
    (hQ : Q w s) : Sat (load p) s Q E := by
  rw [sat_load, if_pos hp, hw]
  exact hQ

/-- What the message of the cycle leaves. -/
structure Prepared (s s' : ExecutionState) : Prop where
  operand : s'.stackSpace 5 = s.stackSpace 5
  gas : s'.gasLeft = s.gasLeft
  rev : s'.rev = s.rev
  msg : s'.msg = s.msg
  host : s'.hostCtx = s.hostCtx

/-- Without input the memory is not checked, and the message is filled in for free. -/
theorem messageAt_prepared (henv : ∀ k, (Env.localMessage k).inputSize = 0) (hrev : ¬ s.rev ≥ .berlin)
    (hzeros : ∀ p : Int, 0 ≤ p → p ≤ 4 → s.stackSpace p = .zero) (dst : Address) :
    Sat (CallInstr.delegatecall.messageAt dst .zero 3) s
      (fun m s' => m.inputSize = 0 ∧ Prepared s s') fun _ _ => False := by
  have hslots : ∀ p : Int, 0 ≤ p → p ≤ 5 → inStackSpace p := fun p h1 h2 =>
    ⟨h1, lt_of_le_of_lt h2 (by decide)⟩
  have hzero : (Uint256.zero).toNat = 0 := by decide
  -- The slot written is one of the zeros.
  have hstored : ∀ p : Int, 0 ≤ p → p ≤ 4 → (s.setSlot (3 - 3) .zero).stackSpace p = .zero := by
    intro p h1 h2
    by_cases hp : p = 3 - 3
    · exact if_pos hp
    · exact (if_neg hp).trans (hzeros p h1 h2)
  have hother : (s.setSlot (3 - 3) .zero).stackSpace 5 = s.stackSpace 5 := rfl
  have hprepared : ∀ fresh, Prepared s { s.setSlot (3 - 3) .zero with fresh := fresh } :=
    fun fresh => ⟨hother, rfl, rfl, rfl, rfl⟩
  unfold CallInstr.messageAt
  rw [sat_bind, sat_store, if_pos (hslots (3 - 3) (by decide) (by decide))]
  generalize s.setSlot (3 - 3) .zero = s₁ at hstored hprepared ⊢
  -- Before Berlin there is no charge for a cold account.
  have hold : ¬ s₁.rev ≥ .berlin := (hprepared 0).rev ▸ hrev
  unfold chargeColdAccount
  simp only [sat_bind, sat_read, if_neg hold, sat_pure]
  have hload : ∀ {p : Int} {Q : Uint256 → ExecutionState → Prop}
      {E : Halt → ExecutionState → Prop}, 0 ≤ p → p ≤ 4 → Q .zero s₁ → Sat (load p) s₁ Q E :=
    fun h1 h2 hQ => sat_load_of (hslots _ h1 (h2.trans (by decide))) (hstored _ h1 h2) hQ
  -- The sizes are 0, so the memory is neither checked nor read.
  refine hload (by decide) (by decide) (hload (by decide) (by decide) ?_)
  refine CallInstr.sat_requireMemoryU256_zero hzero ?_
  refine hload (by decide) (by decide) (hload (by decide) (by decide) ?_)
  refine CallInstr.sat_requireMemoryU256_zero hzero ?_
  unfold callMessage
  simp only [sat_bind, sat_get, sat_nextFresh]
  refine sat_load_of (hslots _ (by decide) (by decide)) (hstored _ (by decide) (by decide)) ?_
  simp only [sat_ite, sat_pure]
  refine ⟨fun h => absurd h (by decide), fun _ => ⟨henv _, hprepared _⟩⟩

omit [Env] in
/-- A negative gas operand goes into the message, with the stipend. -/
theorem gift_negative {g : Int} (hg : -2 ^ 62 ≤ g ∧ g < 0)
    (hoperand : toInt64 (s.stackSpace 5).low = g) (hrev : ¬ s.rev ≥ .tangerineWhistle)
    (hgas : 0 ≤ s.gasLeft ∧ s.gasLeft < 2 ^ 62) :
    Sat (CallInstr.gift 5 .zero) s
      (fun msgGas s' => msgGas = g + 2300 ∧ s' = { s with gasLeft := s.gasLeft + 2300 })
      fun _ _ => False := by
  have hvalue : min g (2 ^ 63 - 1) = g := min_eq_left (by omega)
  have hzero : zero256 .zero = true := by decide
  unfold CallInstr.gift callGas addStipend
  rw [sat_bind, sat_bind]
  refine sat_load_of (by decide) rfl ?_
  simp only [sat_bind, sat_read, if_neg hrev, hoperand, hvalue]
  rw [if_neg (by omega), sat_pure, hzero, if_pos rfl, sat_bind, sat_int64,
    if_pos (by unfold isInt64; omega), sat_bind, sat_subGas', if_pos (by unfold isInt64; omega)]
  exact ⟨rfl, rfl⟩

omit [Env] in
/-- A call without value is admitted. -/
theorem admitCall_zero (hdepth : s.msg.depth = 0) (hhost : s.hostCtx.Unused) :
    Sat (CallInstr.admitCall true .zero) s (fun b s' => b = true ∧ s'.hostCtx.Unused ∧
      s'.gasLeft = s.gasLeft ∧ s'.rev = s.rev ∧ s'.msg = s.msg) fun _ _ => False := by
  have hgt : ∀ b, gt256 .zero b = false := fun b => by
    rw [← Bool.not_eq_true, gt256_iff]
    exact Nat.not_lt_zero _
  unfold CallInstr.admitCall
  simp only [sat_bind, sat_modify, sat_read, hdepth]
  rw [if_neg (by decide), sat_bind]
  refine (sat_askBalance (s := { s with returnData := none }) (hhost.locates _)).2 ?_
  rw [sat_pure, hgt]
  exact ⟨rfl, hhost.recorded _, rfl, rfl, rfl⟩

/-- What the callee of a negative gas operand did not get comes back to the gas counter. -/
theorem delegatecall_refunds {g : Int} (henv : ∀ k, (Env.localMessage k).inputSize = 0)
    (hg : -2 ^ 62 ≤ g ∧ g < 0) (h : AtDelegatecall g s) :
    Sat (delegatecall 5) s (fun _ s' => s'.gasLeft = s.gasLeft - 9000 - g ∧ s'.rev = s.rev ∧
      s'.msg = s.msg ∧ s'.hostCtx.Unused) fun _ _ => False := by
  obtain ⟨hzeros, hoperand, hrev, hdepth, hhost, hgas⟩ := h
  have hbase : CallInstr.delegatecall.base 5 = 3 := rfl
  have hvalue : zero256 .zero = true := by decide
  show Sat (CallInstr.delegatecall.core 5) s _ _
  -- The phases of the call, in their order, each with a known end.
  rw [CallInstr.core_eq_toHost]
  unfold CallInstr.toHost CallInstr.prepare CallInstr.loadValue
  simp only [bind_assoc, hbase]
  rw [sat_bind]
  refine sat_load_of (by decide) (hzeros _ (by decide) (by decide)) ?_
  simp only [CallInstr.hasValueOperand, Bool.false_eq_true, if_false, pure_bind]
  rw [sat_bind]
  refine (messageAt_prepared henv (by rw [hrev]; decide) hzeros _).mono (fun m s₁ hm => ?_)
    fun _ _ h => h
  obtain ⟨hinput, hprepared⟩ := hm
  have hgas₁ := hprepared.gas
  unfold CallInstr.charge
  simp only [CallInstr.extraCost, pure_bind, hvalue, if_true]
  rw [sat_bind, sat_chargeGas, hgas₁, if_pos (by unfold isInt64; omega), if_neg (by omega), sat_bind]
  -- Before Tangerine Whistle the whole operand is handed on, here a negative one.
  have hrev₁ : ¬ s₁.rev ≥ .tangerineWhistle := by rw [hprepared.rev, hrev]; decide
  refine (gift_negative (s := { s₁ with gasLeft := s.gasLeft - (9000 + 0) })
    hg (hprepared.operand ▸ hoperand) hrev₁ (by simp only; omega)).mono ?_ fun _ _ h => h
  rintro msgGas s₂ ⟨rfl, rfl⟩
  rw [sat_bind]
  refine (admitCall_zero (s := { s₁ with gasLeft := s.gasLeft - (9000 + 0) + 2300 })
    (hprepared.msg ▸ hdepth) (hprepared.host ▸ hhost)).mono ?_ fun _ _ h => h
  rintro admitted s₃ ⟨rfl, hunused₃, hgas₃, hrev₃, hmsg₃⟩
  simp only [if_true]
  -- The callee runs without input and hands no gas back.
  rw [sat_bind, sat_ask]
  refine Sat.mono (hunused₃.call (m := { m with gas := g + 2300 }) hinput) ?_ fun _ _ h => h
  rintro result host ⟨rfl, hunused⟩
  rw [sat_bind]
  refine (CallInstr.sat_takeCallResult_empty rfl (by decide)).mono ?_ fun _ _ h => h
  rintro - s₄ rfl
  have hgas₄ : s₃.gasLeft = s.gasLeft - 6700 := by
    rw [hgas₃]
    show s.gasLeft - (9000 + 0) + 2300 = _
    omega
  -- So the gas used is negative, and subtracting it is a refund.
  have hused : g + 2300 - evmcResultInit.gasLeft = g + 2300 := Int.sub_zero _
  rw [sat_bind, hused, sat_int64, if_pos (by unfold isInt64; omega), sat_subGas']
  simp only [ExecutionState.setSlot, hgas₄]
  rw [if_pos (by unfold isInt64; omega)]
  exact ⟨by omega, hrev₃.trans hprepared.rev, hmsg₃.trans hprepared.msg, hunused⟩

/-! ### The cycle -/

/-- The stack, from its bottom, and the gas on the way around the cycle. -/
structure Cycling (words : List Uint256) (gas : Int) (cost : Nat) (s : AdvancedExecutionState) :
    Prop where
  bottom : s.bottom = stackSpaceBottom
  top : s.topItem = (words.length : Int) - 1
  slots : ∀ (k : Nat) w, words[k]? = some w → s.estate.stackSpace k = w
  gas : s.estate.gasLeft = gas
  cost : s.currentBlockCost = cost
  rev : s.estate.rev = .homestead
  depth : s.estate.msg.depth = 0
  host : s.estate.hostCtx.Unused

variable {analysis : CodeAnalysis} {a : AdvancedExecutionState} {words : List Uint256} {gas : Int}
  {cost i j : Nat}

/-- A step that is defined. -/
theorem stepInstr_of_sat {ins : Instruction} {fn : InstrFn} {P : AdvancedExecutionState → Prop}
    (hins : analysis.instrs[i]? = some ins) (hfn : ins.fn = some fn)
    (hcall : Sat (fn.call analysis i ins.arg) a (fun next s' => next = some j ∧ P s')
      fun _ _ => False) : ∃ s', stepInstr analysis ⟨.at i, a⟩ = some ⟨.at j, s'⟩ ∧ P s' := by
  obtain ⟨next, s', hok, rfl, hP⟩ := hcall.exists_ok
  refine ⟨s', ?_, hP⟩
  unfold stepInstr callInstr
  simp only [hins, hfn, hok]
  rfl

omit [Env] in
/-- A push puts one more word on the stack. -/
theorem Cycling.push (h : Cycling words gas cost a) (hlen : words.length < 1024) (value : U64) :
    Sat (opPushSmall i (.smallPushValue value)) a
      (fun next s' => next = some (i + 1) ∧ Cycling (words ++ [.ofU64 value]) gas cost s')
      fun _ _ => False := by
  have htop : a.topItem + 1 = (words.length : Int) := by
    rw [h.top]
    exact Int.sub_add_cancel _ _
  have hin : inStackSpace (words.length : Int) := ⟨Int.natCast_nonneg _, Int.ofNat_lt.2 hlen⟩
  unfold opPushSmall
  simp only [sat_bind, sat_stackPush, sat_pure]
  rw [htop, if_pos hin]
  refine ⟨trivial, ⟨h.bottom, ?_, fun k w hk => ?_, h.gas, h.cost, h.rev, h.depth, h.host⟩⟩
  · show (words.length : Int) = ((words ++ [Uint256.ofU64 value]).length : Int) - 1
    rw [List.length_append, List.length_singleton, Int.natCast_succ]
    omega
  · show (if (k : Int) = words.length then Uint256.ofU64 value else a.estate.stackSpace k) = w
    -- A word from before, or the new one.
    by_cases hlast : k < words.length
    · rw [if_neg (by omega)]
      rw [List.getElem?_append_left hlast] at hk
      exact h.slots k w hk
    · have hk' := hk
      rw [List.getElem?_append_right (by omega)] at hk'
      have hlt := (List.getElem?_eq_some_iff.1 hk).1
      rw [List.length_append, List.length_singleton] at hlt
      have heq : k = words.length := by omega
      subst heq
      rw [if_pos rfl]
      simpa using hk'

omit [Env] in
/-- The result of the call is popped. -/
theorem Cycling.pop {word : Uint256} (h : Cycling [word] gas cost a) :
    Sat (opPop i) a (fun next s' => next = some (i + 1) ∧ Cycling [] gas cost s')
      fun _ _ => False := by
  unfold opPop
  rw [sat_opCore]
  refine ⟨rfl, ⟨h.bottom, ?_, nofun, h.gas, h.cost, h.rev, h.depth, h.host⟩⟩
  show a.topItem + (traits .pop).stackHeightChange = _
  rw [h.top]
  rfl

omit [Env] in
/-- The jump goes back to the first instruction. -/
theorem Cycling.jump (h : Cycling [.ofU64 0] gas cost a) (hfind : findJumpdest analysis 0 = 0)
    (hlen : 0 < analysis.instrs.length) :
    Sat (TscVee.opJump analysis) a (fun next s' => next = some 0 ∧ Cycling [] gas cost s')
      fun _ _ => False := by
  have htop : a.topItem = 0 := by
    rw [h.top]
    rfl
  have hslot : a.estate.stackSpace 0 = .ofU64 0 := h.slots 0 _ rfl
  unfold TscVee.opJump
  simp only [sat_bind, sat_stackPop, htop, hslot]
  rw [if_pos (by decide)]
  have hdst : toInt32 (Uint256.ofU64 0).low = 0 := by decide
  rw [hdst, hfind]
  simp only [sat_ite, sat_exit, sat_throw, sat_pure, sat_bind]
  refine ⟨fun hneg => absurd hneg (by decide), fun _ => ⟨fun hge => absurd hlen hge, fun _ => ?_⟩⟩
  exact ⟨rfl, ⟨h.bottom, rfl, nofun, h.gas, h.cost, h.rev, h.depth, h.host⟩⟩

omit [Env] in
/-- The block is charged 72. -/
theorem Cycling.beginblock (h : Cycling [] 10000 cost a) :
    Sat (opxBeginblock i (.block ⟨72, 0, 6⟩)) a
      (fun next s' => next = some (i + 1) ∧ Cycling [] 9928 72 s') fun _ _ => False := by
  have hsize : ∀ gas, ({ a with estate := { a.estate with gasLeft := gas } } :
      AdvancedExecutionState).stackSize = 0 := fun gas => by
    show a.topItem - a.bottom = 0
    rw [h.top, h.bottom]
    rfl
  unfold opxBeginblock
  simp only [sat_bind, sat_subGas, h.gas]
  rw [if_pos (by unfold isInt64; omega)]
  simp only [sat_bind, sat_get, sat_ite, sat_exit, sat_set, sat_pure, hsize]
  refine ⟨fun hneg => absurd hneg (by decide), fun _ => ⟨fun hneg => absurd hneg (by decide),
    fun _ => ⟨fun hneg => absurd hneg (by decide), fun _ => ?_⟩⟩⟩
  exact ⟨trivial, ⟨h.bottom, h.top, nofun, rfl, rfl, h.rev, h.depth, h.host⟩⟩

/-- The call refunds what the block was charged, and leaves its status on the stack. -/
theorem Cycling.delegatecall (henv : ∀ k, (Env.localMessage k).inputSize = 0)
    (h : Cycling (List.replicate 5 (.ofU64 0) ++ [.ofU64 0xffffffffffffdc90]) 9928 72 a) :
    Sat (opDelegatecall i (.number 59)) a
      (fun next s' => next = some (i + 1) ∧ ∃ word, Cycling [word] 10000 72 s')
      fun _ _ => False := by
  have htop : a.topItem = 5 := by
    rw [h.top]
    rfl
  have hat : AtDelegatecall (-9072) (a.estate.seeGas 9941) := by
    have hzeros : ∀ k < 5, a.estate.stackSpace (k : Nat) = .zero := by
      intro k hk
      refine h.slots k _ ?_
      rw [List.getElem?_append_left (by simpa using hk), List.getElem?_replicate_of_lt hk]
      rfl
    have hoperand : toInt64 (Uint256.ofU64 0xffffffffffffdc90).low = -9072 := by with_unfolding_all decide
    refine ⟨fun p h0 h4 => ?_, ?_, h.rev, h.depth, h.host,
      show (9000 : Int) ≤ 9941 ∧ (9941 : Int) < 2 ^ 62 by decide⟩
    · have hslot := hzeros p.toNat (by omega)
      rwa [Int.toNat_of_nonneg h0] at hslot
    · rw [← hoperand, ← h.slots 5 _ rfl]
      rfl
  -- The correction gives the body what the block has charged for the rest.
  have hseen : a.estate.gasLeft + (a.currentBlockCost - 59) = 9941 := by
    rw [h.gas, h.cost]
    rfl
  unfold opDelegatecall
  rw [sat_opCorrected, hseen, if_pos (by unfold isInt64; omega), htop]
  refine (delegatecall_refunds henv (by decide) hat).mono (fun _ s' h' => ?_) fun _ _ h => h.elim
  obtain ⟨hgas, hrev, hmsg, hhost⟩ := h'
  -- The call has given back as much as the whole round costs.
  have hleft : s'.gasLeft - (a.currentBlockCost - 59) = 10000 := by
    rw [hgas, h.cost]
    rfl
  simp only [hleft]
  rw [if_pos (by unfold isInt64; omega)]
  refine afterCorrection_cases
    (P := fun next s' => next = some (i + 1) ∧ ∃ word, Cycling [word] 10000 72 s') _
    (fun _ => ⟨rfl, s'.stackSpace 0, ⟨h.bottom, rfl, fun k w hk => ?_, hleft, h.cost,
      hrev.trans h.rev, hmsg ▸ h.depth, hhost⟩⟩) fun hneg => ?_
  · have hlt := (List.getElem?_eq_some_iff.1 hk).1
    rw [List.length_singleton] at hlt
    obtain rfl : k = 0 := by omega
    exact Option.some.inj hk
  · exact absurd hneg (by simp only [hleft]; decide)

/-! ### Around the cycle -/

/-- The cycle leads from its first instruction back to it, with the same gas. -/
theorem loop_step (henv : ∀ k, (Env.localMessage k).inputSize = 0)
    (hinstrs : analysis.instrs.take 11 =
      ⟨some .opxBeginblock, .block ⟨72, 0, 6⟩⟩ ::
        List.replicate 5 ⟨some .opPushSmall, .smallPushValue 0⟩ ++
        [⟨some .opPushSmall, .smallPushValue 0xffffffffffffdc90⟩,
          ⟨some .opDelegatecall, .number 59⟩, ⟨some .opPop, .uninit⟩,
          ⟨some .opPushSmall, .smallPushValue 0⟩, ⟨some .opJump, .uninit⟩])
    (hfind : findJumpdest analysis 0 = 0) (h : Cycling [] 10000 cost a) :
    ∃ d b, stepInstr analysis ⟨.at 0, a⟩ = some d ∧ Reaches (stepInstr analysis) d b ∧
      ∃ a' cost', b = ⟨.at 0, a'⟩ ∧ Cycling [] 10000 cost' a' := by
  have hins : ∀ k ins, k < 11 → (analysis.instrs.take 11)[k]? = some ins →
      analysis.instrs[k]? = some ins := by
    intro k ins hk htake
    rwa [List.getElem?_take_of_lt hk] at htake
  rw [hinstrs] at hins
  have hlen : 0 < analysis.instrs.length := (List.getElem?_eq_some_iff.1 (hins 0 _ (by decide) rfl)).1
  -- The block is entered, seven words are pushed, the call is made, its result is dropped, and the
  -- jump goes back to the start.
  obtain ⟨s₁, h₁, hc₁⟩ := stepInstr_of_sat (hins 0 _ (by decide) rfl) rfl h.beginblock
  obtain ⟨s₂, h₂, hc₂⟩ := stepInstr_of_sat (hins 1 _ (by decide) rfl) rfl (hc₁.push (by decide) 0)
  obtain ⟨s₃, h₃, hc₃⟩ := stepInstr_of_sat (hins 2 _ (by decide) rfl) rfl (hc₂.push (by decide) 0)
  obtain ⟨s₄, h₄, hc₄⟩ := stepInstr_of_sat (hins 3 _ (by decide) rfl) rfl (hc₃.push (by decide) 0)
  obtain ⟨s₅, h₅, hc₅⟩ := stepInstr_of_sat (hins 4 _ (by decide) rfl) rfl (hc₄.push (by decide) 0)
  obtain ⟨s₆, h₆, hc₆⟩ := stepInstr_of_sat (hins 5 _ (by decide) rfl) rfl (hc₅.push (by decide) 0)
  obtain ⟨s₇, h₇, hc₇⟩ := stepInstr_of_sat (hins 6 _ (by decide) rfl) rfl (hc₆.push (by decide) _)
  obtain ⟨s₈, h₈, word, hc₈⟩ :=
    stepInstr_of_sat (hins 7 _ (by decide) rfl) rfl (hc₇.delegatecall henv)
  obtain ⟨s₉, h₉, hc₉⟩ := stepInstr_of_sat (hins 8 _ (by decide) rfl) rfl hc₈.pop
  obtain ⟨s₁₀, h₁₀, hc₁₀⟩ := stepInstr_of_sat (hins 9 _ (by decide) rfl) rfl (hc₉.push (by decide) 0)
  obtain ⟨s₁₁, h₁₁, hc₁₁⟩ := stepInstr_of_sat (hins 10 _ (by decide) rfl) rfl (hc₁₀.jump hfind hlen)
  refine ⟨_, _, h₁, ?_, s₁₁, 72, rfl, hc₁₁⟩
  exact ((((((((((Reaches.refl _).tail h₂).tail h₃).tail h₄).tail h₅).tail h₆).tail h₇).tail h₈).tail
    h₉).tail h₁₀).tail h₁₁

end

/-- A cycle around a `DELEGATECALL` with the gas operand `2 ^ 64 - 9072`. -/
def cycleCode : List Byte :=
  [0x5b, 0x60, 0, 0x60, 0, 0x60, 0, 0x60, 0, 0x60, 0,
    0x67, 0xff, 0xff, 0xff, 0xff, 0xff, 0xff, 0xdc, 0x90, 0xf4, 0x50, 0x60, 0, 0x56]

/-- A message that can pay for the cycle once. -/
def cycleMessage : Message := { (default : Message) with gas := 10000 }

/-- The gas counter is the same each time around the cycle. -/
theorem runs_terminates_delegatecall :
    let _ : Env := Env.zeroed
    Revision.homestead.hasRow ∧ (mockedHostInit default).Sparse ∧
      (mockedHostInit default).callResult = evmcResultInit ∧
      ∃ analysis, analyze .homestead cycleCode = .ok analysis ∧
        ¬ Terminates (stepInstr analysis)
          (initialConfig .homestead (mockedHostInit default) cycleMessage cycleCode) := by
  intro _
  have hfind : findJumpdest (analyzeCode .homestead cycleCode) 0 = 0 := by with_unfolding_all decide
  have hinstrs : (analyzeCode .homestead cycleCode).instrs.take 11 =
      ⟨some .opxBeginblock, .block ⟨72, 0, 6⟩⟩ ::
        List.replicate 5 ⟨some .opPushSmall, .smallPushValue 0⟩ ++
        [⟨some .opPushSmall, .smallPushValue 0xffffffffffffdc90⟩,
          ⟨some .opDelegatecall, .number 59⟩, ⟨some .opPop, .uninit⟩,
          ⟨some .opPushSmall, .smallPushValue 0⟩, ⟨some .opJump, .uninit⟩] := by decide +kernel
  have hstart : Cycling [] 10000 0
      (initialConfig .homestead (mockedHostInit default) cycleMessage cycleCode).astate :=
    ⟨rfl, rfl, nofun, rfl, rfl, rfl, rfl, rfl, rfl⟩
  refine ⟨by decide, ⟨CMap.sparse_init, CMap.each_init _⟩, rfl, _,
    analyze_eq .homestead (by decide), ?_⟩
  refine Terminates.not_of_progress (I := fun c => ∃ a cost, c = ⟨.at 0, a⟩ ∧ Cycling [] 10000 cost a)
    ?_ ⟨_, 0, rfl, hstart⟩
  rintro c ⟨a, cost, rfl, h⟩
  exact loop_step (fun _ => rfl) hinstrs hfind h

end TscVee
