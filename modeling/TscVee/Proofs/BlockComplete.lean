import TscVee.Proofs.Doomed

/-!
# `TscVee.Proofs.BlockComplete`: what the naive interpreter computes, the source computes

The converse of `naiveRuns_of_runs`. A run of the naive interpreter that ends with its gas is
followed by the source: the check of a block does not refuse what the operations of the block would
have let through. A callee that gives back more gas than it got could still pay for a block that was
entered without the means, so the callees have to be fair.

* `TargetsFit`: the destinations of the jumps fit into the table of the source.
* `Inside.complete`, `PairedAt.complete`: one operation of the naive interpreter.
* `followed_step`, `runs_of_naiveRuns`: the run.
-/

set_option autoImplicit false
set_option maxRecDepth 8000

namespace TscVee

open TscVee.Core Exec Lib

variable {code : List Byte}

variable (code) in
/-- The index of each jump destination is an `int`. -/
def TargetsFit : Prop := ∀ p i, ValidJumpdest code p → BlockStart code p i → i < 2 ^ 31

section
variable [Env] {rev : Revision} {before after : List (List Op)} {done rest : List Op} {op : Op}
  {start : Int} {i j p : Nat} {s n n' : AdvancedExecutionState} {next : Option Nat}

variable (rev) in
/-- The source has done what the naive interpreter did. -/
inductive Answers (code : List Byte) (c : Config) (next : Option Nat)
    (n' : AdvancedExecutionState) : Prop
  | goes (i p' : Nat) (hpc : c.pc = .at i) (hnext : next = some p')
      (hpaired : PairedAt rev code i p' c.astate n') (hhealthy : Healthy c.astate)
      (hint : n'.estate.gasLeft < 2 ^ 63)
  | ends (hpc : c.pc = .null) (hnext : next = none) (hn : n' = c.astate.moved 0 0)

variable (rev) in
/-- The source comes to an answer, or the naive interpreter has come to a doomed place. -/
def Matched (code : List Byte) (i : Nat) (s : AdvancedExecutionState) (next : Option Nat)
    (n' : AdvancedExecutionState) : Prop :=
  (∃ c, Reaches (stepInstr (analyzeCode rev code)) ⟨.at i, s⟩ c ∧ Answers rev code c next n') ∨
    ∃ p', next = some p' ∧ Doomed rev code p' n'

omit [Env] in
/-- More gas keeps a state healthy. -/
theorem Healthy.moved (hs : Healthy s) {cost : Nat} {d : Int} (hd : 0 ≤ d) :
    Healthy (s.moved cost d) := by
  have hnonneg := hs.nonneg
  refine ⟨hs.stack.same rfl rfl, ?_, hs.size⟩
  show 0 ≤ s.estate.gasLeft + d
  omega

omit [Env] in
/-- Back to the gas counter and the cost of the block that the source has. -/
theorem moved_back (cost : Nat) (d : Int) : (s.moved cost d).moved s.currentBlockCost (-d) = s := by
  simp [AdvancedExecutionState.moved, gasBudget]

/-- A call that ends is a step. -/
theorem stepInstr_of_call {analysis : CodeAnalysis} {ins : Instruction} {fn : InstrFn}
    {s' : AdvancedExecutionState} (hins : analysis.instrs[i]? = some ins) (hfn : ins.fn = some fn)
    (h : fn.call analysis i ins.arg s = .ok next s') :
    stepInstr analysis ⟨.at i, s⟩ = some ⟨.ofPtr next, s'⟩ := by
  simp only [stepInstr, callInstr, hins, hfn, h]

/-- An operation of a block that the source has entered. -/
theorem Inside.complete (hlen : code.length < 2 ^ 31) (htargets : TargetsFit code)
    (h : Inside rev code before done (op :: rest) after start i p s) (hs : Healthy s)
    (hhigh : s.estate.gasLeft + totalCost (contributions rev (op :: rest)) < 2 ^ 63)
    (hcall : naiveCall rev code p (s.moved 0 (totalCost (contributions rev (op :: rest)))) =
      .ok next n') (hgood : GoodEnd next n') :
    Matched rev code i s next n' := by
  have hjumpdest : op.isJumpdest = false := h.behind.rest op List.mem_cons_self
  rcases opcodeInfo_cases rev op.opcode with ⟨fn, hdef⟩ | hundef
  case inr => exact absurd hcall (not_naiveCall_undefined h.faces.opAt hjumpdest hundef hgood)
  obtain ⟨-, next', hcall', hnext⟩ := (naiveCall_op h.faces.opAt hjumpdest hdef hgood).1 hcall
  obtain ⟨-, hcharged⟩ := h.passes hs hhigh hdef
  rw [hcharged] at hcall'
  have hinstr := h.behind.instr rev
  have hfn : (op.instr rev (summary rev 0 (done ++ [op])).gasCost).fn = some fn := by
    rw [Op.instr, hdef.info]
  have hbegin : fn ≠ .opxBeginblock := hdef.ne_beginblock fun heq => by
    rw [Op.isJumpdest, heq] at hjumpdest
    cases hjumpdest
  cases next with
  | none =>
      obtain rfl : next' = none := by
        cases next' with
        | none => rfl
        | some j => cases hnext
      have hends : EndsWell none n' := hgood.resolve_left fun hne => hne rfl
      -- The stored gas counter moves by nothing, because nothing is left of the block.
      have hback : (s.moved 0 0).moved s.currentBlockCost 0 = s := moved_back 0 0
      obtain ⟨hlast, hsource⟩ : fn.endsRun ∧ fn.call (analyzeCode rev code) i
          (op.arg (summary rev 0 (done ++ [op])).gasCost)
          ((s.moved 0 (totalCost (contributions rev rest))).moved s.currentBlockCost 0) =
          .ok none (n'.moved s.currentBlockCost 0) :=
        InstrFn.call_endsWell hdef.ne_dup_zero hcall' hends
      obtain rfl := h.rest_of_terminator (endsRun_of_mem (op.opcode, fn) hdef.mem hlast)
      rw [show totalCost (contributions rev []) = 0 from rfl, hback] at hsource
      -- The naive interpreter would follow the source to the same state.
      have hnaive := h.end_sound hs hhigh hdef hsource hends
      rw [hcall] at hnaive
      exact .inl ⟨_, .single (stepInstr_of_call hinstr hfn hsource),
        .ends rfl rfl (EStateM.Result.ok.inj hnaive).2⟩
  | some p' =>
      obtain ⟨j, rfl⟩ : ∃ j, next' = some j := by
        cases next' with
        | none => cases hnext
        | some j => exact ⟨j, rfl⟩
      have hrest := totalCost_nonneg rev rest
      have hall := totalCost_nonneg rev (op :: rest)
      have hgoes := naiveCall_goes h.faces.opAt (hs.moved hall) hcall
      by_cases hlow : totalCost (contributions rev rest) ≤ n'.estate.gasLeft
      case neg =>
        -- The gas does not last to the end of the block.
        refine .inr ⟨p', rfl, before, done ++ [op], rest, after, ?_, ?_, .inl (not_le.1 hlow)⟩
        · rw [h.behind.blocks]
          simp
        · have hpos : op.pos = p := h.faces.head op _ rfl
          rcases hgoes.place with hp' | hterminator
          · rw [hp', hpos]
            exact h.faces.next
          · obtain rfl := h.rest_of_terminator hterminator
            exact absurd hgoes.healthy.nonneg hlow
      obtain ⟨hsame, hstored⟩ := h.args hdef _ (summary_gasCost _)
      obtain ⟨-, i', hsource, -⟩ : _ ∧ ∃ i', fn.call (analyzeCode rev code) i
          (op.arg (summary rev 0 (done ++ [op])).gasCost)
          ((s.moved 0 (totalCost (contributions rev rest))).moved s.currentBlockCost
            (-totalCost (contributions rev rest))) =
          .ok (some i') (n'.moved s.currentBlockCost (-totalCost (contributions rev rest))) ∧ _ := by
        refine InstrFn.call_moved hdef.ne_dup_zero hbegin (naive_looks rev hlen htargets)
          (fun hsees => (hsame hsees).symm) (fun hsees => ?_) hs.size hcall' (by omega) ?_
        · obtain ⟨harg, harg', hleft⟩ := hstored hsees
          refine ⟨0, _, harg', harg, ?_, by omega⟩
          show ((0 : Nat) : Int) - 0 = _
          omega
        · show s.estate.gasLeft + totalCost (contributions rev rest) + _ < 2 ^ 63
          omega
      rw [moved_back] at hsource
      obtain ⟨p₂, n₂, hnaive, hpaired, hhealthy, hint⟩ :=
        h.op_sound hlen hs hhigh hdef hsource
      rw [hcall] at hnaive
      obtain ⟨hp₂, hn₂⟩ := EStateM.Result.ok.inj hnaive
      rw [← hn₂] at hpaired hint
      exact .inl ⟨_, .single (stepInstr_of_call hinstr hfn hsource),
        .goes i' p₂ rfl hp₂ hpaired hhealthy hint⟩

omit [Env] in
/-- The instruction of a block lies in front of the appended `STOP`. -/
theorem StartsBlock.lt_layoutSize {block : List Op} (h : StartsBlock code before block after i) :
    i < layoutSize (TscVee.blocks (TscVee.decode code)) := by
  have hpos : 0 < blockSize block := by
    unfold blockSize
    omega
  rw [h.blocks, h.index, ← List.singleton_append, layoutSize_append, layoutSize_append,
    layoutSize_singleton]
  omega

/-- One operation of the naive interpreter, at the place where the source is. -/
theorem PairedAt.complete (hlen : code.length < 2 ^ 31) (hfit : SummariesFit rev code)
    (htargets : TargetsFit code) (h : PairedAt rev code i p s n) (hs : Healthy s)
    (hint : n.estate.gasLeft < 2 ^ 63) (hcall : naiveCall rev code p n = .ok next n')
    (hgood : GoodEnd next n') (hfair : FairCalls n'.estate) : Matched rev code i s next n' := by
  -- The source may enter empty blocks first, so the induction is on what is left of its table.
  induction hleft : layoutSize (blocks (decode code)) - i using Nat.strong_induction_on
    generalizing i s with
  | _ left ih =>
    cases h with
    | boundary hplace hn =>
        subst hn
        have hgas : s.estate.gasLeft < 2 ^ 63 := by
          have hgas : s.estate.gasLeft + 0 < 2 ^ 63 := hint
          omega
        cases hplace with
        | start before block after hstart hfaces =>
            by_cases hok : ∃ j s', opxBeginblock i (.block (summary rev 0 block).close) s =
                .ok (some j) s'
            case neg =>
              have hopeless : Hopeless rev block (s.estate.gasLeft + 0) s.stackSize := by
                rw [Int.add_zero]
                refine hopeless_of_refused hfit ?_ hs hgas fun j s' h => hok ⟨j, s', h⟩
                rw [hstart.blocks]
                simp
              have hdoomed : Doomed rev code p (s.moved 0 0) :=
                ⟨before, [], block, after, hstart.blocks, hfaces, hopeless⟩
              have hhealthy : Healthy (s.moved 0 0) := hs.moved (le_refl 0)
              cases next with
              | none =>
                  exact absurd (hgood.resolve_left fun hne => hne rfl)
                    (hdoomed.not_ends hhealthy hcall)
              | some p' => exact .inr ⟨p', rfl, hdoomed.step hhealthy hcall hfair⟩
            obtain ⟨j, s', hok⟩ := hok
            obtain ⟨rfl, hhealthy, hplace⟩ := hstart.entered hfit hfaces hs hgas hok
            have hstep : stepInstr (analyzeCode rev code) ⟨.at i, s⟩ = some ⟨.at (i + 1), s'⟩ :=
              stepInstr_of_call (hstart.instr rev) rfl hok
            rcases hplace with ⟨hinside, hn⟩ | ⟨p', n₂, hnaive, hpaired, hint₂⟩
            · have hlt := hstart.lt_layoutSize
              rcases ih _ (by omega) (hinside.paired hn) hhealthy rfl with ⟨c, hreach, hans⟩ | hdoomed
              · exact .inl ⟨c, .head hstep hreach, hans⟩
              · exact .inr hdoomed
            · rw [hcall] at hnaive
              cases hnaive
              exact .inl ⟨_, .single hstep, .goes (i + 1) p' rfl rfl hpaired hhealthy hint₂⟩
        | stop hindex hfaces =>
            subst hindex
            rw [naiveCall_stop hfaces.opAt_nil] at hcall
            cases hcall
            exact .inl ⟨⟨.null, { s with handed := some .success }⟩,
              .single (stepInstr_of_call (stop_instr rev) rfl rfl), .ends rfl rfl rfl⟩
    | inside before done op rest after start hinside hn =>
        subst hn
        exact hinside.complete hlen htargets hs hint hcall hgood

/-! ### The run -/

variable {c₀ m m' : Config}

variable (rev) in
/-- The source has followed a run of the naive interpreter, as long as the callees are fair. -/
structure Followed (code : List Byte) (c₀ m : Config) : Prop where
  healthy : ∀ p, m.pc = .at p → Healthy m.astate
  running : ∀ p, m.pc = .at p → FairCalls m.astate.estate →
    (∃ i c, Reaches (stepInstr (analyzeCode rev code)) c₀ c ∧ c.pc = .at i ∧
      PairedAt rev code i p c.astate m.astate ∧ Healthy c.astate ∧
      m.astate.estate.gasLeft < 2 ^ 63) ∨
    Doomed rev code p m.astate
  ended : m.pc = .null → EndsWell none m.astate → FairCalls m.astate.estate →
    ∃ c, Reaches (stepInstr (analyzeCode rev code)) c₀ c ∧ c.pc = .null ∧
      m.astate = c.astate.moved 0 0

/-- What a call that does not fail comes to. -/
theorem Followed.call {next : Option Nat} (hlen : code.length < 2 ^ 31)
    (hfit : SummariesFit rev code) (htargets : TargetsFit code)
    (h : Followed rev code c₀ ⟨.at p, n⟩) (hcall : naiveCall rev code p n = .ok next n')
    (hgood : GoodEnd next n') (hfair : FairCalls n'.estate) :
    (∃ c, Reaches (stepInstr (analyzeCode rev code)) c₀ c ∧ Answers rev code c next n') ∨
      ∃ p', next = some p' ∧ Doomed rev code p' n' := by
  have hhealthy : Healthy n := h.healthy p rfl
  -- The call keeps what the callees gave back, so they were fair before it.
  have hbefore := (naiveCall_kept hhealthy hcall hgood).fairCalls hfair
  rcases h.running p rfl hbefore with ⟨i, ⟨pc, s⟩, hreach, rfl, hpaired, hs, hint⟩ | hdoomed
  · rcases hpaired.complete hlen hfit htargets hs hint hcall hgood hfair with
      ⟨c, hreach', hans⟩ | hdoomed
    · exact .inl ⟨c, hreach.trans hreach', hans⟩
    · exact .inr hdoomed
  · cases next with
    | none =>
        exact absurd (hgood.resolve_left fun hne => hne rfl) (hdoomed.not_ends hhealthy hcall)
    | some p' => exact .inr ⟨p', rfl, hdoomed.step hhealthy hcall hfair⟩

/-- Every operation that goes on leaves a healthy state. -/
theorem naiveCall_healthy {p' : Nat} (hs : Healthy n)
    (h : naiveCall rev code p n = .ok (some p') n') : Healthy n' := by
  cases hat : opAt code p with
  | none =>
      rw [naiveCall_stop hat] at h
      cases h
  | some op => exact (naiveCall_goes hat hs h).healthy

/-- A step of the interpreter that charges each instruction is followed by the run, until that one
stops. -/
theorem followed_step (hlen : code.length < 2 ^ 31) (hfit : SummariesFit rev code)
    (htargets : TargetsFit code) (h : Followed rev code c₀ m)
    (hstep : naiveStep rev code m = some m') : Followed rev code c₀ m' := by
  obtain ⟨pc, n⟩ := m
  cases pc with
  | null | stuck f => cases hstep
  | «at» p =>
  simp only [naiveStep] at hstep
  cases hcall : naiveCall rev code p n with
  -- A run that is stuck is not followed.
  | error f n' =>
      rw [hcall] at hstep
      cases hstep
      exact ⟨fun _ hpc => (by cases hpc), fun _ hpc => (by cases hpc), fun hpc => (by cases hpc)⟩
  | ok next n' =>
      rw [hcall] at hstep
      cases hstep
      -- The run does the same, or it has stopped because the block could not be paid or would not
      -- fit.
      have hmatched := h.call hlen hfit htargets hcall
      cases next with
      | none =>
          refine ⟨fun _ hpc => (by cases hpc), fun _ hpc => (by cases hpc), fun _ hends hfair => ?_⟩
          rcases hmatched (.inr hends) hfair with ⟨c, hreach, hans⟩ | ⟨p', hnext, -⟩
          · cases hans with
            | goes i p' hpc hnext => cases hnext
            | ends hpc hnext hn => exact ⟨c, hreach, hpc, hn⟩
          · cases hnext
      | some p' =>
          have hgood : GoodEnd (some p') n' := .inl (Option.some_ne_none _)
          refine ⟨fun _ _ => naiveCall_healthy (h.healthy p rfl) hcall, fun q hq hfair => ?_,
            fun hpc => (by cases hpc)⟩
          cases hq
          rcases hmatched hgood hfair with ⟨c, hreach, hans⟩ | ⟨p'', hnext, hdoomed⟩
          · cases hans with
            | goes i p'' hpc hnext hpaired hs hint =>
                cases hnext
                exact .inl ⟨i, c, hreach, hpc, hpaired, hs, hint⟩
            | ends hpc hnext hn => cases hnext
          · cases hnext
            exact .inr hdoomed

variable {hostCtx : MockedHost} {msg : Message} {analysis : CodeAnalysis}

/-- The first configurations are the same. -/
theorem followed_init (hgas : 0 ≤ msg.gas) (hint : isInt64 msg.gas) :
    Followed rev code (initialConfig rev hostCtx msg code)
      (initialConfig rev hostCtx msg code) := by
  have hfollows : Follows rev code (initialConfig rev hostCtx msg code)
      (initialConfig rev hostCtx msg code) := follows_init hgas hint
  obtain ⟨p, hpc, hpaired, hhealthy, hlt⟩ := hfollows.running 0 rfl
  cases hpc
  refine ⟨fun _ _ => hhealthy, fun q hq _ => ?_, nofun⟩
  cases hq
  exact .inl ⟨0, _, .refl _, rfl, hpaired, hhealthy, hlt⟩

/-- A run of the naive interpreter that ends with `EVMC_SUCCESS` or `EVMC_REVERT`, and in which no
callee gave back more gas than its message gave it, is a run of the source, which ends with the same
status, gas counter, stack, memory, output, host and trace. -/
theorem runs_of_naiveRuns (hlen : code.length < 2 ^ 31 - 1) (hfit : SummariesFit rev code)
    (htargets : TargetsFit code) (hgas : 0 ≤ msg.gas)
    (hint : isInt64 msg.gas) {n : Config} (h : NaiveRuns rev hostCtx msg code n)
    (hnull : n.pc = .null)
    (hends : ∃ status, n.astate.handed = some status ∧ (status = .success ∨ status = .revert))
    (hfair : FairCalls n.astate.estate) :
    ∃ analysis c, Runs rev hostCtx msg code analysis c ∧ c.pc = .null ∧
      n.astate = { c.astate with currentBlockCost := 0 } := by
  have hlen' : code.length < 2 ^ 31 := by omega
  have hfollowed : Followed rev code (initialConfig rev hostCtx msg code) n :=
    Reaches.invariant (fun a b ha hab => followed_step hlen' hfit htargets ha hab) h
      (followed_init hgas hint)
  obtain ⟨c, hreach, hpc, hn⟩ := hfollowed.ended hnull ⟨rfl, hends⟩ hfair
  refine ⟨analyzeCode rev code, c, ⟨?_, hreach⟩, hpc, ?_⟩
  · exact analyze_eq rev hlen
  · rw [hn]
    simp [AdvancedExecutionState.moved, gasBudget]

end

/-- The table of a code below `2 ^ 30` bytes has `int` indices. -/
theorem targetsFit_of_length (hlen : code.length < 2 ^ 30) : TargetsFit code := by
  rintro p i - ⟨before, block, after, op, heq, -, hindex⟩
  have hlt := StartsBlock.lt_layoutSize ⟨heq, hindex⟩
  have hall := layoutSize_blocks_le (decode code)
  have hdecode := decode_length code
  omega

/-- `JUMPDEST GAS POP STOP`: the naive interpreter has not paid for `POP` when `GAS` runs. -/
theorem runs_of_naiveRuns_gas :
    let _ : Env := Env.zeroed
    let n := iterate (naiveStep .london [0x5b, 0x5a, 0x50, 0x00]) 4
      (initialConfig .london (mockedHostInit default) gasMessage [0x5b, 0x5a, 0x50, 0x00])
    ∃ analysis c, Runs .london (mockedHostInit default) gasMessage [0x5b, 0x5a, 0x50, 0x00]
        analysis c ∧ c.pc = .null ∧ n.astate = { c.astate with currentBlockCost := 0 } := by
  intro _ n
  have hfit : SummariesFit .london [0x5b, 0x5a, 0x50, 0x00] := by
    unfold SummariesFit
    with_unfolding_all decide
  have hnull : n.pc = .null := by with_unfolding_all decide
  have hhanded : n.astate.handed = some .success := by with_unfolding_all decide
  have htrace : n.astate.estate.trace = [.gasSeen 997] := by with_unfolding_all decide
  have hfair : FairCalls n.astate.estate := by
    intro m hm
    rw [htrace] at hm
    cases hm with
    | tail _ hm => cases hm
  exact runs_of_naiveRuns (by decide) hfit (targetsFit_of_length (by decide))
    (by decide) (show isInt64 1000 by unfold isInt64; omega) (reaches_iterate _ 4 _) hnull
    ⟨.success, hhanded, .inl rfl⟩ hfair

end TscVee
