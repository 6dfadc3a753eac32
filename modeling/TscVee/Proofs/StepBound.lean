import TscVee.Proofs.BlockComplete

/-!
# `TscVee.Proofs.StepBound`: the gas of the message bounds the number of steps

Each operation that the run goes on behind lowers the gas counter of the naive interpreter. The base
cost of most opcodes is positive; that of `SSTORE` is not, but it charges for the store. The source
makes one step more for each block, in front of its first operation.

* `sat_sstore_charges`: what `SSTORE` charges at least.
* `naiveCall_pays`: an operation of the naive interpreter costs at least one unit of gas.
* `blocks_empty`: only the last block can be empty.
* `steps_le`: a run makes at most `2 * gas + 2` steps.
-/

set_option autoImplicit false
set_option maxRecDepth 8000

namespace TscVee

open TscVee.Core Exec Lib

variable {code : List Byte}

/-! ### What an operation costs -/

/-- The opcodes without a base cost. -/
theorem gasRow_zero (rev : Revision) : ∀ e ∈ gasRow rev, e.2 = 0 →
    e.1 ∈ [.stop, .sstore, .return_, .revert, .invalid, .selfdestruct] := by
  cases rev <;> decide

/-- All of them end the run, but for `SSTORE`. -/
theorem freeFn_of_mem : ∀ e ∈ instructionFnTable,
    e.1 ∈ [.stop, .sstore, .return_, .revert, .invalid, .selfdestruct] →
    e.2 = .opSstore ∨
      e.2 ∈ [.opStop, .opReturn, .opRevert, .opInvalid, .opSelfdestruct] := by decide

/-- The opcodes without a cost end the run, but for SSTORE. -/
theorem free_of_gasCosts {rev : Revision} {opcode : Opcode} (h : gasCosts rev opcode = 0) :
    opcode ∈ [.stop, .sstore, .return_, .revert, .invalid, .selfdestruct] := by
  unfold gasCosts at h
  cases hlookup : (gasRow rev).lookup opcode with
  | none =>
      rw [hlookup] at h
      cases h
  | some cost =>
      rw [hlookup] at h
      exact gasRow_zero rev (opcode, cost) (mem_of_lookup hlookup) h

section
variable [Env] {s s' : ExecutionState} {top : StackTop}

omit [Env] in
/-- A request takes no gas. -/
theorem sat_ask_gas (op : HostOp) :
    Sat (ask op) s (fun _ s' => s'.gasLeft = s.gasLeft) fun _ _ => True := by
  rw [sat_ask]
  exact (sat_trivial _ _).mono (fun _ _ _ => rfl) fun _ _ _ => trivial

omit [Env] in
/-- SSTORE is charged in its body. -/
theorem sstoreCost_pos (rev : Revision) (status : StorageStatus) {cost : Int} (hcost : 0 ≤ cost) :
    1 ≤ sstoreCost rev status cost := by
  unfold sstoreCost warmStorageReadCost coldSloadCost
  split <;> (repeat' split) <;> omega

omit [Env] in
/-- `SSTORE` has no base cost, and charges for the store. -/
theorem sat_sstore_charges :
    Sat (sstore top) s (fun _ s' => s'.gasLeft + 1 ≤ s.gasLeft) fun _ _ => True := by
  -- The last charge is at least 1, whatever the status is.
  have hlast : ∀ key value cost s₁, 0 ≤ cost → s₁.gasLeft = s.gasLeft → Sat (do
      let status ← ask (.setStorage s.msg.recipient key value)
      chargeGas (sstoreCost s.rev status cost)) s₁ (fun _ s' => s'.gasLeft + 1 ≤ s.gasLeft)
      fun _ _ => True := by
    intro key value cost s₁ hcost hgas
    rw [sat_bind]
    refine (sat_ask_gas _).mono (fun status s₂ hs₂ => ?_) fun _ _ _ => trivial
    have hpos := sstoreCost_pos s.rev status hcost
    rw [sat_chargeGas]
    split
    · split
      · trivial
      · show s₂.gasLeft - sstoreCost s.rev status cost + 1 ≤ s.gasLeft
        omega
    · trivial
  unfold sstore
  dsimp only [StackTop.pop]
  rw [sat_bind, sat_refuseStatic]
  split
  · trivial
  rw [sat_bind, sat_read, sat_bind, sat_read, sat_ite]
  refine ⟨fun _ => trivial, fun _ => ?_⟩
  rw [sat_bind, sat_load]
  split
  case isFalse => trivial
  rw [sat_bind, sat_load]
  split
  case isFalse => trivial
  rw [sat_bind, sat_read, sat_bind, sat_read, sat_ite]
  -- From Berlin on, the slot is accessed first.
  refine ⟨fun _ => ?_, fun _ => hlast _ _ 0 s (le_refl 0) rfl⟩
  rw [sat_bind]
  refine (sat_ask_gas _).mono (fun access s₁ hs₁ => ?_) fun _ _ _ => trivial
  refine hlast _ _ _ s₁ ?_ hs₁
  split <;> decide

end

section
variable [Env] {rev : Revision} {op : Op} {p p' : Nat} {n n' : AdvancedExecutionState}

/-- The operation that the run goes on behind costs at least one unit of gas. -/
theorem naiveCall_pays (hat : opAt code p = some op) (hs : Healthy n)
    (h : naiveCall rev code p n = .ok (some p') n') (hfair : FairCalls n'.estate) :
    n'.estate.gasLeft + 1 ≤ n.estate.gasLeft := by
  have hgoes := naiveCall_goes hat hs h
  have hfalls := hgoes.falls hfair
  have hgood : GoodEnd (some p') n' := .inl (Option.some_ne_none _)
  rw [opcodeInfo_gasCost_eq, contribution, if_neg hgoes.defined] at hfalls
  -- An opcode with a cost is paid for in front of its body.
  by_cases hcost : gasCosts rev op.opcode = 0
  case neg =>
    have hnonneg := (gasCosts_entry hgoes.defined).1
    simp only at hfalls
    omega
  cases hop : op.isJumpdest with
  | true =>
      rw [show op.opcode = .jumpdest from eq_of_beq hop, gasCosts_jumpdest] at hcost
      cases hcost
  | false =>
      rcases opcodeInfo_cases rev op.opcode with ⟨fn, hdef⟩ | hundef
      case inr => exact absurd h (not_naiveCall_undefined hat hop hundef hgood)
      obtain ⟨hpasses, next, hcall, hnext⟩ := (naiveCall_op hat hop hdef hgood).1 h
      rcases freeFn_of_mem (op.opcode, fn) hdef.mem (free_of_gasCosts hcost) with hfn | hfn
      · -- `SSTORE` runs with the same gas counter, because no block has been paid in advance.
        obtain rfl : fn = .opSstore := hfn
        obtain ⟨j, rfl⟩ : ∃ j, next = some j := by
          cases next with
          | none => cases hnext
          | some j => exact ⟨j, rfl⟩
        have harg := (naiveArg_stores code (storesGasCost_of_mem (op.opcode, .opSstore) hdef.mem) 0).2
        rw [harg] at hcall
        obtain ⟨-, estate, hbody, -, -, -, rfl⟩ := (opCorrected_ok_iff fun estate =>
          InstrFn.early hdef.ne_dup_zero (.inr rfl) _ estate).1 hcall
        have hcharges : estate.gasLeft + 1 ≤ n.estate.gasLeft -
            (opcodeInfo rev op.opcode).gasCost + (n.currentBlockCost - 0) :=
          sat_sstore_charges.of_ok hbody
        rw [opcodeInfo_gasCost_eq, contribution, if_neg hgoes.defined] at hcharges
        simp only at hcharges
        show estate.gasLeft - (n.currentBlockCost - 0) + 1 ≤ n.estate.gasLeft
        omega
      · -- The other functions end the run.
        obtain ⟨body, hshape⟩ : ∃ body, fn.shape = .terminate body := by
          simp only [List.mem_cons, List.not_mem_nil, or_false] at hfn
          rcases hfn with rfl | rfl | rfl | rfl | rfl <;> exact ⟨_, rfl⟩
        rw [InstrFn.call_eq, hshape] at hcall
        obtain rfl : next = none := (opTerminate_none body _).of_ok hcall
        cases hnext

/-! ### The run -/

omit [Env] in
/-- Only the last block can be empty. -/
theorem blocks_empty {ops : List Op} {before after : List (List Op)}
    (h : blocks ops = before ++ [] :: after) : after = [] := by
  -- On the operations: an empty block stands at the end only.
  induction ops generalizing before with
  | nil =>
      rw [blocks] at h
      cases before with
      | nil => exact (List.cons.inj h).2.symm
      | cons b before => simp at h
  | cons op ops ih =>
      unfold blocks at h
      split at h
      · cases before with
        | nil => cases (List.cons.inj h).1
        | cons b before => exact ih (List.cons.inj h).2
      · cases hops : blocks ops with
        | nil => exact absurd hops (blocks_ne_nil ops)
        | cons block rest =>
            rw [hops] at h
            cases before with
            | nil => cases (List.cons.inj h).1
            | cons b before =>
                have hrest : rest = before ++ [] :: after := (List.cons.inj h).2
                have hsplit : blocks ops = (block :: before) ++ [] :: after := by
                  rw [hops, hrest]
                  rfl
                exact ih hsplit

variable {before after : List (List Op)} {done rest : List Op} {start : Int} {i k : Nat}
  {c c' : Config} {gas : Int} {s : AdvancedExecutionState}

omit [Env] in
/-- No block starts behind an empty one. -/
theorem StartsBlock.empty (h : StartsBlock code before [] after i) :
    ¬ ∃ before block after, StartsBlock code before block after (i + 1) := by
  rintro ⟨before', block', after', hnext⟩
  have hlt := hnext.lt_layoutSize
  obtain rfl := blocks_empty h.blocks
  rw [h.blocks, layoutSize_append, layoutSize_singleton, ← h.index] at hlt
  exact absurd hlt (lt_irrefl _)

/-- No block starts at an operation. -/
theorem Behind.not_start (h : Behind code before done (op :: rest) after i) :
    ¬ ∃ before block after, StartsBlock code before block after i := by
  rintro ⟨before', block', after', hstart⟩
  have hop : op.isJumpdest = false := h.rest op List.mem_cons_self
  have hne : op.opcode ≠ .jumpdest := fun heq => by
    rw [Op.isJumpdest, heq] at hop
    cases hop
  have hinstr := (h.instr .frontier).symm.trans (hstart.instr .frontier)
  have hfn : (opcodeInfo .frontier op.opcode).fn = some .opxBeginblock :=
    congrArg Instruction.fn (Option.some.inj hinstr)
  exact opcodeInfo_ne_beginblock .frontier hne hfn

/-- The paired states have the same callees. -/
theorem PairedAt.fairCalls (h : PairedAt rev code i p s n) (hfair : FairCalls s.estate) :
    FairCalls n.estate := by
  cases h with
  | boundary hplace hn => exact hn ▸ hfair
  | inside before done op rest after start hinside hn => exact hn ▸ hfair

/-- Each unit of gas that the naive interpreter has spent pays for two steps. One more has been made
inside a block. -/
structure CountedAt (rev : Revision) (code : List Byte) (gas : Int) (k i : Nat)
    (s : AdvancedExecutionState) : Prop where
  healthy : Healthy s
  paired : ∃ p n, PairedAt rev code i p s n ∧ n.estate.gasLeft < 2 ^ 63 ∧
    k + 2 * n.estate.gasLeft ≤ 2 * gas + 1 ∧
    ((∃ before block after, StartsBlock code before block after i) →
      k + 2 * n.estate.gasLeft ≤ 2 * gas)

/-- A run of `k` steps. -/
structure Counted (rev : Revision) (code : List Byte) (gas : Int) (k : Nat) (c : Config) :
    Prop where
  running : ∀ i, c.pc = .at i → CountedAt rev code gas k i c.astate
  ended : k ≤ 2 * gas + 2

/-- The paired state has gas left that is not negative. -/
theorem PairedAt.nonneg (h : PairedAt rev code i p s n) (hs : Healthy s) :
    0 ≤ n.estate.gasLeft := by
  have hnonneg := hs.nonneg
  cases h with
  | boundary hplace hn =>
      subst hn
      show 0 ≤ s.estate.gasLeft + 0
      omega
  | inside before done op rest after start hinside hn =>
      subst hn
      have htotal := totalCost_nonneg rev (op :: rest)
      show 0 ≤ s.estate.gasLeft + totalCost (contributions rev (op :: rest))
      omega

/-- A count at an index is one of the configuration there. -/
theorem CountedAt.counted (h : CountedAt rev code gas k i s) : Counted rev code gas k ⟨.at i, s⟩ := by
  refine ⟨fun j hj => ?_, ?_⟩
  · cases hj
    exact h
  · obtain ⟨p, n, hpaired, -, hk, -⟩ := h.paired
    have hnonneg := hpaired.nonneg h.healthy
    omega

/-- A step that ends the run. -/
theorem Counted.last (h : CountedAt rev code gas k i s) (hpc : ∀ j, c'.pc ≠ .at j) :
    Counted rev code gas (k + 1) c' := by
  obtain ⟨p, n, hpaired, -, hk, -⟩ := h.paired
  have hnonneg := hpaired.nonneg h.healthy
  refine ⟨fun j hj => absurd hj (hpc j), ?_⟩
  push_cast
  omega

/-- An operation on the way is paid for. -/
theorem CountedAt.paid {p : Nat} {op : Op} {n : AdvancedExecutionState}
    (hat : opAt code p = some op) (hn : Healthy n)
    (hk : k + 2 * n.estate.gasLeft ≤ 2 * gas + 1) {j p' : Nat} {s' n' : AdvancedExecutionState}
    (hs' : Healthy s') (hcall : naiveCall rev code p n = .ok (some p') n')
    (hpaired : PairedAt rev code j p' s' n') (hint : n'.estate.gasLeft < 2 ^ 63)
    (hfair : FairCalls s'.estate) : CountedAt rev code gas (k + 1) j s' := by
  have hpays := naiveCall_pays hat hn hcall (hpaired.fairCalls hfair)
  refine ⟨hs', p', n', hpaired, hint, ?_, fun _ => ?_⟩ <;> push_cast <;> omega

/-- The naive interpreter goes on behind an operation of the code only. -/
theorem opAt_of_goes {p p' : Nat} {n n' : AdvancedExecutionState}
    (h : naiveCall rev code p n = .ok (some p') n') : ∃ op, opAt code p = some op := by
  cases hop : opAt code p with
  | some op => exact ⟨op, rfl⟩
  | none =>
      unfold naiveCall at h
      rw [hop] at h
      have hnone := (opTerminate_none (fun _ => stop) n).of_ok h
      cases hnone

/-- One more step has been paid for, or it was the last one. -/
theorem counted_step (hlen : code.length < 2 ^ 31) (hfit : SummariesFit rev code)
    (h : Counted rev code gas k c) (hfair : FairCalls c'.astate.estate)
    (hstep : stepInstr (analyzeCode rev code) c = some c') : Counted rev code gas (k + 1) c' := by
  obtain ⟨pc, s⟩ := c
  cases pc with
  | null | stuck f => cases hstep
  | «at» i =>
  have hat := h.running i rfl
  cases hpc' : c'.pc with
  | null | stuck f => exact .last hat fun j hj => by rw [hpc'] at hj; cases hj
  | «at» j =>
  obtain ⟨p, n, hpaired, hint, hk, hstart⟩ := hat.paired
  obtain ⟨pc', s'⟩ := c'
  subst hpc'
  suffices hcounted : CountedAt rev code gas (k + 1) j s' from hcounted.counted
  -- The function of the instruction has gone on to `j`.
  have hcall : ∀ (ins : Instruction) (fn : InstrFn),
      (analyzeCode rev code).instrs[i]? = some ins → ins.fn = some fn →
      fn.call (analyzeCode rev code) i ins.arg s = .ok (some j) s' := by
    intro ins fn hins hfn
    rcases stepInstr_at rfl hins hfn hstep with ⟨next, hcall, hnext⟩ | ⟨f, -, hstuck⟩
    · cases next with
      | none => cases hnext
      | some j' =>
          cases hnext
          exact hcall
    · cases hstuck
  cases hpaired with
  | boundary hplace hn =>
      subst hn
      have hgas : (s.moved 0 0).estate.gasLeft = s.estate.gasLeft := Int.add_zero _
      rw [hgas] at hint
      cases hplace with
      | start before block after hstarts hfaces =>
          have hbegin := hcall _ .opxBeginblock (hstarts.instr rev) rfl
          have hfree : k + 2 * s.estate.gasLeft ≤ 2 * gas := by
            rw [← hgas]
            exact hstart ⟨before, block, after, hstarts⟩
          obtain ⟨rfl, hs', hplace⟩ := hstarts.entered hfit hfaces hat.healthy hint hbegin
          rcases hplace with ⟨hinside, hn⟩ | ⟨p', n', hnaive, hpaired, hint'⟩
          · -- The step costs the naive interpreter nothing, and no block starts behind it.
            refine ⟨hs', p, _, hinside.paired hn, (by rwa [hgas]), ?_, fun hnext => ?_⟩
            · rw [hgas]
              push_cast
              omega
            · cases block with
              | nil => exact absurd hnext hstarts.empty
              | cons op rest => exact absurd hnext hinside.behind.not_start
          · obtain ⟨op, hop⟩ := opAt_of_goes hnaive
            exact .paid hop (hat.healthy.moved (le_refl 0)) hk hs' hnaive hpaired hint' hfair
      | stop hindex hfaces =>
          subst hindex
          have hstop := hcall _ .opStop (stop_instr rev) rfl
          have hnone := (opTerminate_none (fun _ => stop) s).of_ok hstop
          cases hnone
  | inside before done op rest after start hinside hn =>
      subst hn
      have hgas : s.estate.gasLeft + totalCost (contributions rev (op :: rest)) < 2 ^ 63 := hint
      rcases opcodeInfo_cases rev op.opcode with ⟨fn, hdef⟩ | hundef
      · have hfn : (op.instr rev (summary rev 0 (done ++ [op])).gasCost).fn = some fn := by
          rw [Op.instr, hdef.info]
        obtain ⟨p', n', hnaive, hpaired, hs', hint'⟩ :=
          hinside.op_sound hlen hat.healthy hgas hdef (hcall _ fn (hinside.behind.instr rev) hfn)
        exact .paid hinside.faces.opAt (hat.healthy.moved (totalCost_nonneg rev _)) hk hs' hnaive
          hpaired hint' hfair
      · have hexit := hcall _ .opUndefined (hinside.behind.instr rev) hundef.fn
        cases hexit

variable {hostCtx : MockedHost} {msg : Message} {analysis : CodeAnalysis}

/-- No step has been taken. -/
theorem counted_init (hgas : 0 ≤ msg.gas) (hint : isInt64 msg.gas) :
    Counted rev code msg.gas 0 (initialConfig rev hostCtx msg code) := by
  have hfollows : Follows rev code (initialConfig rev hostCtx msg code)
      (initialConfig rev hostCtx msg code) := follows_init hgas hint
  obtain ⟨p, hp, hpaired, hhealthy, hhigh⟩ := hfollows.running 0 rfl
  have hstart : (initialConfig rev hostCtx msg code).astate.estate.gasLeft = msg.gas := rfl
  refine CountedAt.counted ⟨hhealthy, p, _, hpaired, hhigh, ?_, fun _ => ?_⟩ <;> omega

/-- A run makes at most two steps for each unit of gas of its message, and two more. -/
theorem steps_le (hlen : code.length < 2 ^ 31) (hfit : SummariesFit rev code)
    (hgas : 0 ≤ msg.gas) (hint : isInt64 msg.gas) (hanalyze : analyze rev code = .ok analysis)
    (h : ReachesIn (stepInstr analysis) k (initialConfig rev hostCtx msg code) c)
    (hfair : ∀ a, Reaches (stepInstr analysis) (initialConfig rev hostCtx msg code) a →
      FairCalls a.astate.estate) : k ≤ 2 * msg.gas + 2 := by
  obtain rfl := analyze_ok hanalyze
  have hcounted : Counted rev code msg.gas k c :=
    h.invariant_of (C := fun a => ∀ b, stepInstr (analyzeCode rev code) a = some b →
        FairCalls b.astate.estate)
      (fun k a b ha hb hab => counted_step hlen hfit ha (hb b hab) hab)
      (fun a ha b hab => hfair b (ha.tail hab)) (counted_init hgas hint)
  exact hcounted.ended

end

/-- The loop of 12 gas a round, with 30 gas: two rounds are run and the third is refused, which takes
seven calls. -/
theorem steps_le_round :
    let _ : Env := Env.zeroed
    ReachesIn (stepInstr (analyzeCode .london roundCode)) 7
        (initialConfig .london (mockedHostInit default) roundMessage roundCode) (roundRun 7) ∧
      (roundRun 7).pc = .null ∧ (roundRun 6).astate.estate.gasLeft = roundMessage.gas - 24 ∧
      ((7 : Nat) : Int) ≤ 2 * roundMessage.gas + 2 := by
  intro _
  have hrun : ReachesIn (stepInstr (analyzeCode .london roundCode)) 7
      (initialConfig .london (mockedHostInit default) roundMessage roundCode) (roundRun 7) := by
    refine reachesIn_iterate fun m hm => not_final_at (i := m % 3) ?_
    exact (roundRun_pc m hm.le).trans (if_neg hm.ne)
  have hgas : (roundRun 6).astate.estate.gasLeft = 6 := by
    have hstate := congrArg (fun states => (states[6]?).map (·.2.1)) roundRun_states
    simpa using hstate
  have hfair : ∀ a, Reaches (stepInstr (analyzeCode .london roundCode))
      (initialConfig .london (mockedHostInit default) roundMessage roundCode) a →
      FairCalls a.astate.estate := by
    intro a ha m hm
    obtain ⟨n, hn, rfl⟩ := roundRun_reached a ha
    rw [roundRun_trace n hn] at hm
    cases hm
  have hfit : SummariesFit .london roundCode := by
    unfold SummariesFit
    with_unfolding_all decide
  refine ⟨hrun, roundRun_pc 7 (le_refl 7), hgas, ?_⟩
  exact steps_le (by decide) hfit (by decide) (show isInt64 30 by unfold isInt64; omega)
    (analyze_eq .london (by decide)) hrun hfair

end TscVee
