import TscVee.Proofs.Paired

/-!
# `TscVee.Proofs.BlockSound`: what the source computes, the naive interpreter computes

The source checks the gas and the stack once for a whole block. A run of it that ends with its gas
is a run of the naive interpreter, which charges and checks each operation on its own: the same
instruction functions run on the same states, up to the gas that the source has paid in advance.

* `Inside.op_sound`, `StartsBlock.sound`: an operation, and the `BEGINBLOCK` of a block.
* `Follows`, `follows_step`: the relation along the run, and one step of it.
* `naiveRuns_of_runs`: the run.
-/

set_option autoImplicit false
set_option maxRecDepth 8000

namespace TscVee

open TscVee.Core Exec Lib

variable {code : List Byte}

/-! ### Facts about the table of functions -/

/-- The functions that look at the cost of the block are those whose argument is stored. -/
theorem storesGasCost_of_mem : ∀ e ∈ instructionFnTable, storesGasCost e.1 = e.2.seesCost := by
  decide

/-- The jumps end their block, and have no immediate bytes. -/
theorem jump_of_mem : ∀ e ∈ instructionFnTable, (e.2 = .opJump ∨ e.2 = .opJumpi) →
    isTerminator e.1 = true ∧ immSize e.1 = 0 := by decide

/-- A function that ends the run with its gas ends its block. -/
theorem endsRun_of_mem : ∀ e ∈ instructionFnTable,
    (e.2 = .opStop ∨ e.2 = .opReturn ∨ e.2 = .opRevert ∨ e.2 = .opSelfdestruct) →
    isTerminator e.1 = true := by decide

/-- The start of the block of a `JUMPDEST` is a boundary. -/
theorem BlockStart.boundaryAt {i p : Nat} (h : BlockStart code p i) : BoundaryAt code i p := by
  obtain ⟨before, block, after, op, heq, hpos, hindex⟩ := h
  refine .start before (op :: block) after ⟨heq, hindex⟩ ⟨⟨before.flatten, ?_⟩, ?_, nofun⟩
  · rw [← blocks_flatten (decode code), heq]
    simp
  · intro x rest hx
    rw [← (List.cons.inj hx).1]
    exact hpos

section
variable [Env] {rev : Revision} {before after : List (List Op)} {done rest : List Op} {op : Op}
  {start : Int} {i j p : Nat} {s s' n : AdvancedExecutionState} {fn : InstrFn}

/-- Behind a terminator its block has no more operations. -/
theorem Inside.rest_of_terminator
    (h : Inside rev code before done (op :: rest) after start i p s)
    (hop : isTerminator op.opcode = true) : rest = [] := by
  have hmem : done ++ op :: rest ∈ blocks (decode code) := by
    rw [h.behind.blocks]
    simp
  exact blocks_terminator hmem rfl hop

/-- The argument of an operation and the one in the naive interpreter, with the correction that
belongs to each. -/
theorem Inside.args (h : Inside rev code before done (op :: rest) after start i p s)
    (hdef : Defined rev op.opcode fn) (gasCost : Int)
    (hcost : gasCost = totalCost (contributions rev (done ++ [op]))) :
    (fn.seesCost = false → naiveArg code op = op.arg gasCost) ∧
      (fn.seesCost = true → op.arg gasCost = .number gasCost ∧ naiveArg code op = .number 0 ∧
        s.currentBlockCost - gasCost = totalCost (contributions rev rest)) := by
  have hstores := storesGasCost_of_mem (op.opcode, fn) hdef.mem
  simp only at hstores
  refine ⟨fun hsees => ?_, fun hsees => ?_⟩
  · exact naiveArg_eq h.faces.mem (hstores.trans hsees) gasCost
  · obtain ⟨harg, harg'⟩ := naiveArg_stores code (hstores.trans hsees) gasCost
    have hsplit : done ++ op :: rest = done ++ [op] ++ rest := by simp
    have hblock := h.cost
    rw [hsplit, totalCost_append] at hblock
    exact ⟨harg, harg', by omega⟩

/-- The cost of the block up to an operation, as the analyser stores it. -/
theorem summary_gasCost (ops : List Op) :
    (summary rev 0 ops).gasCost = totalCost (contributions rev ops) := countOps_gasCost rev 0 ops

/-- The naive interpreter can pay for the next operation, and has paid for the rest of the block no
more than the source then. -/
theorem Inside.passes (h : Inside rev code before done (op :: rest) after start i p s)
    (hs : Healthy s)
    (hhigh : s.estate.gasLeft + totalCost (contributions rev (op :: rest)) < 2 ^ 63)
    (hdef : Defined rev op.opcode fn) :
    Passes (opcodeInfo rev op.opcode) (s.moved 0 (totalCost (contributions rev (op :: rest)))) ∧
      (s.moved 0 (totalCost (contributions rev (op :: rest)))).charged
        (opcodeInfo rev op.opcode).gasCost = s.moved 0 (totalCost (contributions rev rest)) := by
  obtain ⟨hreq, hgrow⟩ := h.room hdef.gasCosts_ne
  have hcost : (contribution rev op.opcode).cost = gasCosts rev op.opcode := by
    rw [contribution, if_neg hdef.gasCosts_ne]
  have hrest := totalCost_nonneg rev rest
  have hopcost := hdef.cost_nonneg
  have hnow := hs.nonneg
  rw [totalCost_cons, hcost] at hhigh ⊢
  -- The cost of the rest of the block is given back, so the operation pays its own part.
  have hgas : s.estate.gasLeft + (gasCosts rev op.opcode + totalCost (contributions rev rest)) -
      gasCosts rev op.opcode = s.estate.gasLeft + totalCost (contributions rev rest) := by omega
  rw [hdef.info]
  refine ⟨⟨?_, ?_, hreq, hgrow⟩, ?_⟩
  · show isInt64 (s.estate.gasLeft + _ - gasCosts rev op.opcode)
    rw [hgas]
    unfold isInt64
    omega
  · show 0 ≤ s.estate.gasLeft + _ - gasCosts rev op.opcode
    omega
  · simp only [AdvancedExecutionState.moved, AdvancedExecutionState.charged, gasBudget, hgas]

/-- An operation of a block: the naive interpreter charges it, and calls its function on the same
state. -/
theorem Inside.op_sound (hlen : code.length < 2 ^ 31)
    (h : Inside rev code before done (op :: rest) after start i p s) (hs : Healthy s)
    (hhigh : s.estate.gasLeft + totalCost (contributions rev (op :: rest)) < 2 ^ 63)
    (hdef : Defined rev op.opcode fn)
    (hcall : fn.call (analyzeCode rev code) i (op.arg (summary rev 0 (done ++ [op])).gasCost) s =
      .ok (some j) s') :
    ∃ p' n', naiveCall rev code p (s.moved 0 (totalCost (contributions rev (op :: rest)))) =
        .ok (some p') n' ∧
      PairedAt rev code j p' s' n' ∧ Healthy s' ∧ n'.estate.gasLeft < 2 ^ 63 := by
  have hjumpdest : op.isJumpdest = false := h.behind.rest op List.mem_cons_self
  have hbegin : fn ≠ .opxBeginblock := hdef.ne_beginblock fun heq => by
    rw [Op.isJumpdest, heq] at hjumpdest
    cases hjumpdest
  obtain ⟨hpasses, hcharged⟩ := h.passes hs hhigh hdef
  obtain ⟨hsame, hstored⟩ := h.args hdef _ (summary_gasCost _)
  obtain ⟨hreq, hgrow⟩ := h.room hdef.gasCosts_ne
  have hnonneg := totalCost_nonneg rev rest
  have hle : totalCost (contributions rev rest) ≤ totalCost (contributions rev (op :: rest)) := by
    have hopcost := hdef.cost_nonneg
    rw [totalCost_cons, contribution, if_neg hdef.gasCosts_ne]
    exact le_add_of_nonneg_left hopcost
  obtain ⟨hgoes, -⟩ := hdef.goesOn hbegin hs hreq hgrow (fun n hfn harg => by
    subst hfn
    obtain ⟨hnumber, -, hleft⟩ := hstored rfl
    rw [hnumber] at harg
    cases harg
    omega) hcall
  -- The naive interpreter has not paid for the rest of the block.
  have hend := hgoes.healthy.nonneg
  obtain ⟨hlt, p', hcall', hplace⟩ :
      s'.estate.gasLeft + totalCost (contributions rev rest) < 2 ^ 63 ∧ ∃ p',
      fn.call (naiveAnalysis code) op.pos (naiveArg code op)
        (s.moved 0 (totalCost (contributions rev rest))) =
        .ok (some p') (s'.moved 0 (totalCost (contributions rev rest))) ∧
      (j = i + 1 ∧ p' = op.pos + 1 ∨
        (fn = .opJump ∨ fn = .opJumpi) ∧ ValidJumpdest code p' ∧ BlockStart code p' j) := by
    refine InstrFn.call_moved hdef.ne_dup_zero hbegin (looks_naive rev hlen) hsame
      (fun hsees => ?_) hs.size hcall (by omega) (by omega)
    obtain ⟨harg, harg', hleft⟩ := hstored hsees
    exact ⟨_, 0, harg, harg', by simpa using hleft, le_refl _⟩
  have hpos : op.pos = p := h.faces.head op _ rfl
  have hgood : GoodEnd (some (p' + immSize op.opcode))
      (s'.moved 0 (totalCost (contributions rev rest))) := .inl (Option.some_ne_none _)
  have hnaive := (naiveCall_op h.faces.opAt hjumpdest hdef hgood).2
    ⟨hpasses, some p', hcharged ▸ hcall', rfl⟩
  refine ⟨_, _, hnaive, ?_, hgoes.healthy, hlt⟩
  rcases hplace with ⟨rfl, rfl⟩ | ⟨hjump, -, hblock⟩
  · rw [hpos]
    exact (h.next hdef.gasCosts_ne hgoes.cost hgoes.height).paired rfl
  · -- A jump is the last operation of its block, so all of the block is paid for.
    obtain ⟨hterminator, himm⟩ := jump_of_mem (op.opcode, fn) hdef.mem hjump
    obtain rfl := h.rest_of_terminator hterminator
    rw [himm]
    exact .boundary hblock.boundaryAt rfl

/-- An operation that ends the run with its gas. -/
theorem Inside.end_sound (h : Inside rev code before done (op :: rest) after start i p s)
    (hs : Healthy s)
    (hhigh : s.estate.gasLeft + totalCost (contributions rev (op :: rest)) < 2 ^ 63)
    (hdef : Defined rev op.opcode fn)
    (hcall : fn.call (analyzeCode rev code) i (op.arg (summary rev 0 (done ++ [op])).gasCost) s =
      .ok none s') (hends : EndsWell none s') :
    naiveCall rev code p (s.moved 0 (totalCost (contributions rev (op :: rest)))) =
      .ok none (s'.moved 0 0) := by
  have hjumpdest : op.isJumpdest = false := h.behind.rest op List.mem_cons_self
  obtain ⟨hpasses, hcharged⟩ := h.passes hs hhigh hdef
  obtain ⟨hfn, hcall'⟩ : fn.endsRun ∧ fn.call (naiveAnalysis code) op.pos (naiveArg code op)
      (s.moved 0 0) = .ok none (s'.moved 0 0) :=
    InstrFn.call_endsWell hdef.ne_dup_zero hcall hends
  obtain rfl := h.rest_of_terminator (endsRun_of_mem (op.opcode, fn) hdef.mem hfn)
  have hgood : GoodEnd none (s'.moved 0 0) := .inr hends
  exact (naiveCall_op h.faces.opAt hjumpdest hdef hgood).2 ⟨hpasses, none, hcharged ▸ hcall', rfl⟩

/-- Behind the `BEGINBLOCK` of a block the naive interpreter is at the same place, with all of the
block in front of it, or it comes there over a `JUMPDEST`. -/
theorem StartsBlock.entered (hfit : SummariesFit rev code) {block : List Op}
    (h : StartsBlock code before block after i) (hfaces : Faces code p (block ++ after.flatten))
    (hs : Healthy s) (hint : s.estate.gasLeft < 2 ^ 63)
    (hok : opxBeginblock i (.block (summary rev 0 block).close) s = .ok (some j) s') :
    j = i + 1 ∧ Healthy s' ∧ ((Inside rev code before [] block after s.stackSize j p s' ∧
        s.moved 0 0 = s'.moved 0 (totalCost (contributions rev block))) ∨
      ∃ p' n', naiveCall rev code p (s.moved 0 0) = .ok (some p') n' ∧
        PairedAt rev code j p' s' n' ∧ n'.estate.gasLeft < 2 ^ 63) := by
  obtain ⟨rfl, hgas, hs', done, rest, rfl, hdone, hshort, hinside⟩ :=
    h.inside hfit hfaces hs.stack hok
  have hhealthy : Healthy s' := by
    subst hs'
    refine ⟨hs.stack.same rfl rfl, ?_, hs.size⟩
    show 0 ≤ s.estate.gasLeft - _
    omega
  have hrest := totalCost_nonneg rev rest
  have hsum := totalCost_append rev done rest
  -- The naive interpreter has charged the `JUMPDEST` only.
  have hmoved : s'.moved 0 (totalCost (contributions rev rest)) =
      (s.moved 0 0).charged (totalCost (contributions rev done)) := by
    have hleft : s.estate.gasLeft - totalCost (contributions rev (done ++ rest)) +
        totalCost (contributions rev rest) =
        s.estate.gasLeft + 0 - totalCost (contributions rev done) := by omega
    simp only [hs', AdvancedExecutionState.moved, AdvancedExecutionState.charged, gasBudget, hleft]
  refine ⟨rfl, hhealthy, ?_⟩
  rcases hshort with rfl | ⟨op, rfl⟩
  · have hzero : (s.moved 0 0).charged (totalCost (contributions rev [])) = s.moved 0 0 := by
      simp [AdvancedExecutionState.charged, contributions, totalCost]
    rw [hzero] at hmoved
    exact .inl ⟨hinside, hmoved.symm⟩
  · have hop := hdone op List.mem_cons_self
    have hcost : totalCost (contributions rev [op]) = 1 := by
      rw [totalCost_cons, eq_of_beq hop, contribution, gasCosts_jumpdest]
      rfl
    have hinfo : opcodeInfo rev op.opcode = ⟨some .opxBeginblock, 1, 0, 0⟩ := by
      rw [eq_of_beq hop, opcodeInfo_jumpdest]
    have hpos : op.pos = p := hfaces.head op _ rfl
    have hpasses : Passes (opcodeInfo rev op.opcode) (s.moved 0 0) := by
      have hnonneg := hs.nonneg
      have hroom := hs.stack.le
      rw [hinfo]
      refine ⟨?_, ?_, hs.stack.nonneg, ?_⟩
      · show isInt64 (s.estate.gasLeft + 0 - 1)
        unfold isInt64
        omega
      · show 0 ≤ s.estate.gasLeft + 0 - 1
        omega
      · show s.stackSize + 0 ≤ 1024
        omega
    have hcall := (naiveCall_jumpdest hfaces.opAt hop (.inl (Option.some_ne_none _))).2
      ⟨hpasses, rfl, rfl⟩
    rw [hinfo, hpos] at hcall
    rw [hcost] at hmoved
    refine .inr ⟨p + 1, _, hcall, hinside.paired hmoved.symm, ?_⟩
    show s.estate.gasLeft + 0 - 1 < 2 ^ 63
    omega

/-- The `BEGINBLOCK` of a block: the naive interpreter steps over the `JUMPDEST`, if there is
one. -/
theorem StartsBlock.sound (hfit : SummariesFit rev code) {block : List Op}
    (h : StartsBlock code before block after i) (hfaces : Faces code p (block ++ after.flatten))
    (hs : Healthy s) (hint : s.estate.gasLeft < 2 ^ 63)
    (hok : opxBeginblock i (.block (summary rev 0 block).close) s = .ok (some j) s') :
    ∃ p' n', Reaches (naiveStep rev code) ⟨.at p, s.moved 0 0⟩ ⟨.at p', n'⟩ ∧
      PairedAt rev code j p' s' n' ∧ Healthy s' ∧ n'.estate.gasLeft < 2 ^ 63 := by
  obtain ⟨-, hhealthy, hplace⟩ := h.entered hfit hfaces hs hint hok
  rcases hplace with ⟨hinside, hn⟩ | ⟨p', n', hcall, hpaired, hint'⟩
  · refine ⟨p, _, .refl _, hinside.paired hn, hhealthy, ?_⟩
    show s.estate.gasLeft + 0 < 2 ^ 63
    omega
  · exact ⟨p', n', .single (naiveStep_of_call hcall), hpaired, hhealthy, hint'⟩

/-! ### The run -/

/-- The naive interpreter is where the source is, and has ended as it has, if it has kept its
gas. -/
structure Follows (rev : Revision) (code : List Byte) (c n : Config) : Prop where
  running : ∀ i, c.pc = .at i → ∃ p, n.pc = .at p ∧ PairedAt rev code i p c.astate n.astate ∧
    Healthy c.astate ∧ n.astate.estate.gasLeft < 2 ^ 63
  ended : c.pc = .null → EndsWell none c.astate → n.pc = .null ∧ n.astate = c.astate.moved 0 0

variable {c c' n : Config}

/-- A step that fails is followed by nothing. -/
theorem Follows.fail {n : Config} (hpc : ∀ i, c.pc ≠ .at i)
    (hends : c.pc = .null → ¬ EndsWell none c.astate) : Follows rev code c n :=
  ⟨fun i hi => absurd hi (hpc i), fun hnull hwell => absurd hwell (hends hnull)⟩

/-- Two paired states at matching places. -/
theorem Follows.next {p : Nat} {n : AdvancedExecutionState} (hpc : c.pc = .at i)
    (hpaired : PairedAt rev code i p c.astate n) (hhealthy : Healthy c.astate)
    (hint : n.estate.gasLeft < 2 ^ 63) : Follows rev code c ⟨.at p, n⟩ := by
  refine ⟨fun k hk => ?_, fun hnull => ?_⟩
  · rw [hpc] at hk
    cases hk
    exact ⟨p, rfl, hpaired, hhealthy, hint⟩
  · rw [hpc] at hnull
    cases hnull

/-- A step of the run is followed by steps of the interpreter that charges each instruction. -/
theorem follows_step (hlen : code.length < 2 ^ 31) (hfit : SummariesFit rev code)
    (h : Follows rev code c n) (hstep : stepInstr (analyzeCode rev code) c = some c') :
    ∃ n', Reaches (naiveStep rev code) n n' ∧ Follows rev code c' n' := by
  obtain ⟨i, hpc⟩ : ∃ i, c.pc = .at i := by
    unfold stepInstr at hstep
    cases hc : c.pc with
    | «at» i => exact ⟨i, rfl⟩
    | null | stuck f =>
        rw [hc] at hstep
        cases hstep
  obtain ⟨p, hnpc, hpaired, hhealthy, hint⟩ := h.running i hpc
  obtain ⟨npc, n⟩ := n
  subst hnpc
  -- A call that does not end well needs no answer.
  have hfail : ∀ (ins : Instruction) (fn : InstrFn),
      (analyzeCode rev code).instrs[i]? = some ins → ins.fn = some fn →
      (∀ next s', fn.call (analyzeCode rev code) i ins.arg c.astate = .ok next s' →
        GoodEnd next s' → ∃ n', Reaches (naiveStep rev code) ⟨.at p, n⟩ n' ∧
          Follows rev code ⟨.ofPtr next, s'⟩ n') →
      ∃ n', Reaches (naiveStep rev code) ⟨.at p, n⟩ n' ∧ Follows rev code c' n' := by
    intro ins fn hins hfn hgood
    obtain ⟨pc', s'⟩ := c'
    rcases stepInstr_at hpc hins hfn hstep with ⟨next, hcall, hpc'⟩ | ⟨f, -, hpc'⟩
    · simp only at hpc' hcall
      subst hpc'
      by_cases hwell : GoodEnd next s'
      · exact hgood next s' hcall hwell
      · cases next with
        | some j => exact absurd (.inl (Option.some_ne_none _)) hwell
        | none => exact ⟨_, .refl _, .fail nofun fun _ hends => hwell (.inr hends)⟩
    · simp only at hpc'
      subst hpc'
      exact ⟨_, .refl _, .fail nofun nofun⟩
  cases hpaired with
  | boundary hplace hn =>
      simp only at hn
      subst hn
      cases hplace with
      | start before block after hstart hfaces =>
          refine hfail _ .opxBeginblock (hstart.instr rev) rfl fun next s' hcall hgood => ?_
          cases next with
          | none =>
              have hbegin : opxBeginblock i (.block (summary rev 0 block).close) c.astate =
                  .ok none s' := hcall
              have hbad := (opxBeginblock_endsBadly _ c.astate).of_ok hbegin
              rcases hgood with hne | hends
              · exact absurd rfl hne
              · exact absurd hends hbad
          | some j =>
              have hgas : c.astate.estate.gasLeft + 0 < 2 ^ 63 := hint
              obtain ⟨p', n', hreach, hpaired, hhealthy, hint⟩ :=
                hstart.sound hfit hfaces hhealthy (by omega) hcall
              exact ⟨_, hreach, .next rfl hpaired hhealthy hint⟩
      | stop hindex hfaces =>
          subst hindex
          refine hfail _ .opStop (stop_instr rev) rfl fun next s' hcall hgood => ?_
          obtain rfl : next = none := (opTerminate_none (fun _ => stop) c.astate).of_ok hcall
          have hends : EndsWell none s' := hgood.resolve_left fun hne => hne rfl
          obtain ⟨-, hstop⟩ : InstrFn.opStop.endsRun ∧ InstrFn.opStop.call (naiveAnalysis code) 0
              .uninit (c.astate.moved 0 0) = .ok none (s'.moved 0 0) :=
            InstrFn.call_endsWell (fun heq => by cases heq) hcall hends
          have hnaive : naiveCall rev code p (c.astate.moved 0 0) = .ok none (s'.moved 0 0) := by
            unfold naiveCall
            rw [hfaces.opAt_nil]
            exact hstop
          exact ⟨_, .single (naiveStep_of_call hnaive), nofun, fun _ _ => ⟨rfl, rfl⟩⟩
  | inside before done op rest after start hinside hn =>
      simp only at hn
      subst hn
      have hgas : c.astate.estate.gasLeft + totalCost (contributions rev (op :: rest)) < 2 ^ 63 :=
        hint
      rcases opcodeInfo_cases rev op.opcode with ⟨fn, hdef⟩ | hundef
      · have hfn : (op.instr rev (summary rev 0 (done ++ [op])).gasCost).fn = some fn := by
          rw [Op.instr, hdef.info]
        refine hfail _ fn (hinside.behind.instr rev) hfn fun next s' hcall hgood => ?_
        cases next with
        | some j =>
            obtain ⟨p', n', hnaive, hpaired, hhealthy, hint⟩ :=
              hinside.op_sound hlen hhealthy hgas hdef hcall
            exact ⟨_, .single (naiveStep_of_call hnaive), .next rfl hpaired hhealthy hint⟩
        | none =>
            have hends : EndsWell none s' := hgood.resolve_left fun hne => hne rfl
            have hnaive := hinside.end_sound hhealthy hgas hdef hcall hends
            exact ⟨_, .single (naiveStep_of_call hnaive), nofun, fun _ _ => ⟨rfl, rfl⟩⟩
      · refine hfail _ .opUndefined (hinside.behind.instr rev) hundef.fn fun next s' hcall hgood => ?_
        cases hcall
        rcases hgood with hne | hends
        · exact absurd rfl hne
        · exact absurd hends (not_endsWell_exit .undefinedInstruction (by decide) rfl)

variable {hostCtx : MockedHost} {msg : Message} {analysis : CodeAnalysis}

/-- The first states are paired, with nothing charged. -/
theorem paired_init : PairedAt rev code 0 0 (initialState rev hostCtx msg code)
    ((initialState rev hostCtx msg code).moved 0 0) := by
  obtain ⟨block, after, hblocks⟩ := List.exists_cons_of_ne_nil (blocks_ne_nil (decode code))
  refine .boundary (.start [] block after ⟨hblocks, rfl⟩ ?_) rfl
  have hflatten := blocks_flatten (decode code)
  rw [hblocks, List.flatten_cons] at hflatten
  rw [hflatten]
  exact .start code

/-- Nothing is moved by zero. -/
theorem moved_init : (initialState rev hostCtx msg code).moved 0 0 =
    initialState rev hostCtx msg code := by
  simp [AdvancedExecutionState.moved, gasBudget, initialState, advancedExecutionStateInitV]

/-- The first configurations are the same. -/
theorem follows_init (hgas : 0 ≤ msg.gas) (hint : isInt64 msg.gas) :
    Follows rev code (initialConfig rev hostCtx msg code)
      (initialConfig rev hostCtx msg code) := by
  have hpaired : PairedAt rev code 0 0 (initialState rev hostCtx msg code)
      ((initialState rev hostCtx msg code).moved 0 0) := paired_init
  rw [moved_init] at hpaired
  have hsize : (initialConfig rev hostCtx msg code).astate.stackSize = 0 := rfl
  have hmemory : (initialConfig rev hostCtx msg code).astate.estate.memory.mSize = 0 := rfl
  exact .next rfl hpaired ⟨⟨rfl, by omega, by omega⟩, hgas, by omega⟩ hint.2

/-- A run that ends with `EVMC_SUCCESS` or `EVMC_REVERT` is a run of the naive interpreter, which
ends with the same status, gas counter, stack, memory, output, host and trace. -/
theorem naiveRuns_of_runs (hlen : code.length < 2 ^ 31) (hfit : SummariesFit rev code)
    (hgas : 0 ≤ msg.gas) (hint : isInt64 msg.gas) {c : Config}
    (h : Runs rev hostCtx msg code analysis c) (hnull : c.pc = .null)
    (hends : ∃ status, c.astate.handed = some status ∧ (status = .success ∨ status = .revert)) :
    ∃ n, NaiveRuns rev hostCtx msg code n ∧ n.pc = .null ∧
      n.astate = { c.astate with currentBlockCost := 0 } := by
  obtain ⟨hanalyze, hrun⟩ := h
  obtain rfl := analyze_ok hanalyze
  obtain ⟨n, hnaive, hfollows⟩ := hrun.simulate (C := fun _ => True)
    (fun a b x hx _ hab => follows_step hlen hfit hx hab) (fun _ _ => trivial)
    (follows_init hgas hint)
  obtain ⟨hpc, hastate⟩ := hfollows.ended hnull ⟨rfl, hends⟩
  refine ⟨n, hnaive, hpc, ?_⟩
  rw [hastate]
  simp [AdvancedExecutionState.moved, gasBudget]

end

/-- `JUMPDEST GAS POP STOP`: `GAS` runs when the source has paid for `POP` already. -/
theorem naiveRuns_of_runs_gas :
    let _ : Env := Env.zeroed
    ∃ n, NaiveRuns .london (mockedHostInit default) gasMessage [0x5b, 0x5a, 0x50, 0x00] n ∧
      n.pc = .null ∧
      n.astate = { (shortRun [0x5b, 0x5a, 0x50, 0x00]).astate with currentBlockCost := 0 } := by
  intro _
  have hfit : SummariesFit .london [0x5b, 0x5a, 0x50, 0x00] := by
    unfold SummariesFit
    with_unfolding_all decide
  exact naiveRuns_of_runs (by decide) hfit (by decide)
    (show isInt64 1000 by unfold isInt64; omega) (shortRun_runs (by decide)) (by with_unfolding_all decide)
    ⟨.success, by with_unfolding_all decide, .inl rfl⟩

end TscVee
