import TscVee.Proofs.GasFalls
import TscVee.Proofs.OutOfMemory

/-!
# `TscVee.Proofs.ExitStatus`: the status and the gas of a result

`AdvancedExecutionState_exit` writes the status into a copy of the state, so the result has the
status that the state was initialised with, which is `EVMC_SUCCESS`. So a run that ends with any
other status is reported as a success, with whatever is left in the gas counter.

* `call_gasStep`: what a step does to the gas counter.
* `Runs.solvent`: while the loop runs, the gas counter is between 0 and the gas of the message.
* `executes_exitRule_iff`: a result is right exactly when the run was handed `EVMC_SUCCESS`.
-/

set_option autoImplicit false

namespace TscVee

open TscVee.Core Exec Lib

/-- What the result of a run should say: the status that was handed to
`AdvancedExecutionState_exit`, no gas unless it is `EVMC_SUCCESS` or `EVMC_REVERT`, and no more gas
than the message had. -/
structure ExitRule (msg : Message) (r : Result) (s : AdvancedExecutionState) : Prop where
  status : s.handed = some r.statusCode
  spent : s.handed ≠ some .success → s.handed ≠ some .revert → r.gasLeft = 0
  nonneg : 0 ≤ r.gasLeft
  le : r.gasLeft ≤ msg.gas

section
variable [Env]

/-- What the last step of a run needs: a buffer for its output, gas for what `SELFDESTRUCT` charges,
and for `CREATE2` a gas counter that the correction does not make negative. -/
structure Config.Provided (analysis : CodeAnalysis) (c : Config) : Prop where
  output : c.pc = .null → c.astate.estate.outputSize ≠ 0 →
    Env.allocates c.astate.estate.fresh c.astate.estate.outputSize = true
  selfdestruct : c.fn? analysis = some .opSelfdestruct →
    selfdestructCost c.astate.estate c.astate.topItem ≤ c.astate.estate.gasLeft
  create2 : ∀ i ins n, c.pc = .at i → analysis.instrs[i]? = some ins → ins.fn = some .opCreate2 →
    ins.arg = .number n → 0 ≤ c.astate.estate.gasLeft + (c.astate.currentBlockCost - n)

/-! ### A step -/

/-- The run goes on at `next`, or ends with `EVMC_SUCCESS`. -/
def Lasts (next : Option Nat) (s : AdvancedExecutionState) : Prop :=
  next ≠ none ∨ s.handed = some .success

/-- What a step that sends messages in `P` does to the gas counter, as long as the run does not
fail. -/
structure GasStep (P : Message → Prop) (s : ExecutionState) (next : Option Nat)
    (s' : AdvancedExecutionState) : Prop where
  falls : Lasts next s' → GasFalls P s s'.estate
  nonneg : Lasts next s' → 0 ≤ s'.estate.gasLeft
  handed : next = none → s'.handed ≠ none

/-- The messages that the function sends, with the gas counter that it sees. The number of `PC` is
no cost. -/
def InstrFn.SendsFrom (fn : InstrFn) (s : AdvancedExecutionState) (arg : InstructionArgument)
    (m : Message) : Prop :=
  ∃ n, arg = .number n ∧ fn ≠ .opPc ∧
    fn.Sends (s.estate.seeGas (s.estate.gasLeft + (s.currentBlockCost - n))) s.topItem m

omit [Env] in
/-- A failed step. -/
theorem GasStep.fail {P : Message → Prop} {s : ExecutionState} {s' : AdvancedExecutionState}
    {status : StatusCode} (h : s'.handed = some status) (hne : status ≠ .success) :
    GasStep P s none s' := by
  have hnot : ¬ Lasts none s' := by
    rintro (h' | h')
    · exact h' rfl
    · exact hne (Option.some.inj (h.symm.trans h'))
  exact ⟨fun h => absurd h hnot, fun h => absurd h hnot, fun _ => by simp [h]⟩

omit [Env] in
/-- A step that touches neither the memory nor the gas counter. -/
theorem GasStep.next {P : Message → Prop} {s : ExecutionState} {s' : AdvancedExecutionState}
    {i : Nat} (hgas : 0 ≤ s.gasLeft) (hkept : Kept s s'.estate)
    (hleft : s'.estate.gasLeft = s.gasLeft) : GasStep P s (some i) s' :=
  ⟨fun _ => ⟨hkept, Or.inl hleft.le⟩, fun _ => hleft ▸ hgas, nofun⟩

variable {analysis : CodeAnalysis} {instr : Nat} {arg : InstructionArgument}
  {s : AdvancedExecutionState} {P : Message → Prop}

section
variable (hgas : 0 ≤ s.estate.gasLeft)

include hgas

omit [Env] in
/-- A push is free inside of its block. -/
theorem stackPush_gasStep (word : Uint256) :
    Sat (do stackPush word; return some (instr + 1)) s (GasStep P s.estate) fun _ _ => True := by
  simp only [sat_bind, sat_stackPush, sat_pure]
  split
  · exact .next hgas (.of_eq [] rfl (List.append_nil _).symm rfl rfl) rfl
  · trivial

omit [Env] in
/-- A jump is free inside of its block. -/
theorem opJump_gasStep : Sat (opJump analysis) s (GasStep P s.estate) fun _ _ => True := by
  unfold opJump
  simp only [sat_bind, sat_stackPop]
  split
  case isFalse => trivial
  simp only [sat_ite, sat_exit, sat_throw, sat_pure, sat_bind]
  exact ⟨fun _ => .fail rfl (by decide), fun _ => ⟨fun _ => trivial, fun _ =>
    .next hgas (.refl _) rfl⟩⟩

omit [Env] in
/-- A conditional jump is free inside of its block. -/
theorem opJumpi_gasStep : Sat (opJumpi analysis instr) s (GasStep P s.estate) fun _ _ => True := by
  unfold opJumpi
  simp only [sat_bind, sat_stackGet, sat_ite, sat_pure]
  split
  case isFalse => trivial
  refine ⟨fun _ => ?_, fun _ => ?_⟩
  · refine (opJump_gasStep (P := P) hgas).mono (fun next s' h => ?_) fun _ _ _ => trivial
    rw [sat_stackPop]
    split
    · exact ⟨h.falls, h.nonneg, h.handed⟩
    · trivial
  · simp only [sat_stackPop]
    split
    · exact .next hgas (.refl _) rfl
    · trivial

omit [Env] in
/-- GAS reads the counter. -/
theorem opGas_gasStep : Sat (opGas instr arg) s (GasStep P s.estate) fun _ _ => True := by
  unfold opGas argNumber
  cases arg with
  | number n =>
      simp only [sat_bind, sat_get, sat_pure, sat_logGas, sat_stackPush]
      split
      · exact .next hgas (.of_eq [_] rfl rfl rfl rfl) rfl
      · trivial
  | _ => trivial

omit [Env] hgas in
/-- `BEGINBLOCK` charges its block, or ends the run for lack of gas. -/
theorem opxBeginblock_gasStep :
    Sat (opxBeginblock instr arg) s (GasStep P s.estate) fun _ _ => True := by
  unfold opxBeginblock
  cases arg with
  | block block =>
      simp only [sat_bind, sat_subGas]
      split
      case isFalse => trivial
      simp only [sat_bind, sat_get, sat_ite, sat_exit, sat_set, sat_pure]
      refine ⟨fun _ => .fail rfl (by decide), fun hpaid => ⟨fun _ => .fail rfl (by decide),
        fun _ => ⟨fun _ => .fail rfl (by decide), fun _ => ?_⟩⟩⟩
      refine ⟨fun _ => ⟨Kept.gas s.estate _, Or.inl ?_⟩, fun _ => not_lt.1 hpaid, nofun⟩
      show s.estate.gasLeft - block.gasCost ≤ s.estate.gasLeft
      omega
  | _ => trivial

variable {fn : InstrFn} (hdup : fn ≠ .opDup 0)

include hdup

/-- A core takes gas, or returns a status early. -/
theorem opCore_gasStep {opcode : Opcode} {body : StackTop → Core Unit}
    (hshape : fn.shape = .core opcode body) (hsize : s.estate.memory.mSize < 2 ^ 63) :
    Sat (opCore opcode body instr) s (GasStep P s.estate) fun _ _ => True := by
  rw [sat_opCore]
  refine Sat.mono (fn.lowers hdup hshape hsize) (fun _ estate h => ?_) fun h estate hearly => ?_
  · exact ⟨fun _ => h.gasFalls, fun _ => h.nonneg hgas, nofun⟩
  · cases h with
    | fault f => trivial
    | ret status =>
        exact afterStatus_cases status (fun heq => absurd heq (hearly status rfl).1)
          fun hne => .fail rfl hne

/-- An instruction that ends the run takes gas, when it can pay for what it asks. -/
theorem opTerminate_gasStep {body : StackTop → Core StatusCode}
    (hshape : fn.shape = .terminate body)
    (hpays : fn = .opSelfdestruct → selfdestructCost s.estate s.topItem ≤ s.estate.gasLeft) :
    Sat (opTerminate body) s (GasStep P s.estate) fun _ _ => True := by
  rw [sat_opTerminate]
  refine Sat.mono (fn.terminates hdup hshape) (fun status estate h => ?_) fun h estate hearly => ?_
  · exact ⟨fun _ => ⟨h.1, Or.inl h.2.1⟩, fun _ => h.2.2 hpays hgas, fun _ => nofun⟩
  · cases h with
    | fault f => trivial
    | ret status => exact .fail rfl (hearly status rfl).1

omit hgas in
/-- The correction around the core is taken back behind it. -/
theorem opCorrected_gasStep {opcode : Opcode} {body : StackTop → Core Unit}
    (hshape : fn.shape = .corrected opcode body)
    (hcreate2 : ∀ n, fn = .opCreate2 → arg = .number n →
      0 ≤ s.estate.gasLeft + (s.currentBlockCost - n)) :
    Sat (opCorrected opcode body instr arg) s (GasStep (fn.SendsFrom s arg) s.estate)
      fun _ _ => True := by
  cases arg with
  | number n =>
      rw [sat_opCorrected]
      split
      case isFalse => trivial
      case isTrue hint =>
      -- The core starts with the gas that it is shown.
      have hsee : Kept s.estate (s.estate.seeGas (s.estate.gasLeft + (s.currentBlockCost - n))) :=
        .of_eq [_] rfl rfl rfl rfl
      generalize hseen : s.estate.seeGas (s.estate.gasLeft + (s.currentBlockCost - n)) = seen
      have hfalls : RunsTo (GasFalls (fn.Sends seen s.topItem) seen) (body s.topItem) seen := by
        refine fn.gasFalls hdup hshape fun heq => ?_
        rw [← hseen]
        exact ⟨hcreate2 n heq rfl, hint.2⟩
      rw [← hseen] at hfalls ⊢
      refine Sat.mono hfalls (fun _ estate h => ?_) fun h estate hearly => ?_
      -- Behind the core the correction is taken back, which leaves what the core took.
      · dsimp only
        split
        case isFalse => trivial
        refine afterCorrection_cases _ (fun hpaid => ?_) fun _ => .fail rfl (by decide)
        refine ⟨fun _ => ⟨hsee.trans (h.kept.trans (Kept.gas estate _)), ?_⟩, fun _ => hpaid, nofun⟩
        have hpc : fn ≠ .opPc := by
          rintro rfl
          cases hshape
        refine h.gas.imp (fun hle => ?_) fun ⟨m, hm, hover⟩ => ⟨m, ⟨n, rfl, hpc, hm⟩, hover⟩
        simp only [ExecutionState.seeGas] at hle
        show estate.gasLeft - (s.currentBlockCost - n) ≤ s.estate.gasLeft
        omega
      · cases h with
        | fault f => trivial
        | ret status =>
            dsimp only
            rw [if_neg (hearly status rfl).1]
            exact .fail rfl (hearly status rfl).1
  | _ => trivial

/-- What the call of an instruction function does to the gas counter. -/
theorem call_gasStep (hsize : s.estate.memory.mSize < 2 ^ 63)
    (hpays : fn = .opSelfdestruct → selfdestructCost s.estate s.topItem ≤ s.estate.gasLeft)
    (hcreate2 : ∀ n, fn = .opCreate2 → arg = .number n →
      0 ≤ s.estate.gasLeft + (s.currentBlockCost - n)) :
    Sat (fn.call analysis instr arg) s (GasStep (fn.SendsFrom s arg) s.estate)
      fun _ _ => True := by
  rw [InstrFn.call_eq]
  -- The gas of each shape of function; the pushes keep it.
  cases hshape : fn.shape with
  | core opcode body => exact opCore_gasStep hgas hdup hshape hsize
  | corrected opcode body => exact opCorrected_gasStep hdup hshape hcreate2
  | terminate body => exact opTerminate_gasStep hgas hdup hshape hpays
  | undefined => exact .fail rfl (by decide)
  | jump => exact opJump_gasStep hgas
  | jumpi => exact opJumpi_gasStep hgas
  | pc =>
      cases arg with
      | number n => exact stackPush_gasStep hgas _
      | _ => trivial
  | gas => exact opGas_gasStep hgas
  | pushSmall =>
      cases arg with
      | smallPushValue value => exact stackPush_gasStep hgas _
      | _ => trivial
  | pushFull =>
      cases arg with
      | pushValue value => exact stackPush_gasStep hgas _
      | _ => trivial
  | beginblock => exact opxBeginblock_gasStep

end

/-! ### The run -/

variable {rev : Revision} {hostCtx : MockedHost} {msg : Message} {code : List Byte} {c : Config}

/-- The loop runs on, or has ended with `EVMC_SUCCESS`. -/
def Config.Lasts (c : Config) : Prop :=
  (∃ i, c.pc = .at i) ∨ c.pc = .null ∧ c.astate.handed = some .success

/-- The gas counter is between 0 and the gas of the message, if the callees are fair. -/
structure Solvent (msg : Message) (c : Config) : Prop where
  handed : c.pc = .null → c.astate.handed ≠ none
  size : c.Lasts → c.astate.estate.memory.mSize < 2 ^ 63
  gas : c.Lasts → FairCalls c.astate.estate → c.astate.estate.gasLeft ≤ msg.gas
  nonneg : c.Lasts → 0 ≤ c.astate.estate.gasLeft

/-- A step without an instruction function gets stuck. -/
theorem stepInstr_none_stuck {analysis : CodeAnalysis} {c' : Config} {i : Nat} (hpc : c.pc = .at i)
    (hfn : c.fn? analysis = none) (h : stepInstr analysis c = some c') :
    ∃ f, c'.pc = .stuck f := by
  rw [Config.fn?, hpc] at hfn
  unfold stepInstr callInstr at h
  rw [hpc] at h
  cases hins : analysis.instrs[i]? with
  | none =>
      simp only [hins] at h
      exact ⟨_, (congrArg Config.pc (Option.some.inj h)).symm⟩
  | some ins =>
      simp only [hins, Option.bind_some] at h hfn
      simp only [hfn] at h
      exact ⟨_, (congrArg Config.pc (Option.some.inj h)).symm⟩

/-- A step keeps a gas counter that is not negative, or ends the run. -/
theorem solvent_step {c' : Config} (h : Solvent msg c) (hprovided : c.Provided (analyzeCode rev code))
    (hstep : stepInstr (analyzeCode rev code) c = some c') : Solvent msg c' := by
  -- A configuration that is stuck has nothing to show.
  have hstuck : ∀ {f}, c'.pc = .stuck f → Solvent msg c' := fun hpc => by
    have hnot : ¬ c'.Lasts := by
      rintro (⟨i, hi⟩ | ⟨hnull, -⟩)
      · simp [hpc] at hi
      · simp [hpc] at hnull
    exact ⟨fun h => by simp [hpc] at h, fun h => absurd h hnot, fun h => absurd h hnot,
      fun h => absurd h hnot⟩
  cases hpc : c.pc with
  | null | stuck => simp [stepInstr, hpc] at hstep
  | «at» i =>
  have hlasts : c.Lasts := Or.inl ⟨i, hpc⟩
  cases hfn : c.fn? (analyzeCode rev code) with
  | none =>
      obtain ⟨f, hf⟩ := stepInstr_none_stuck hpc hfn hstep
      exact hstuck hf
  | some fn =>
      have hbind := hfn
      rw [Config.fn?, hpc] at hbind
      obtain ⟨ins, hins, hinsfn⟩ := Option.bind_eq_some_iff.1 hbind
      -- The step takes gas, by what the configuration provides for the two instructions that might
      -- not.
      have hgas : Sat (fn.call (analyzeCode rev code) i ins.arg) c.astate
          (GasStep (fn.SendsFrom c.astate ins.arg) c.astate.estate) fun _ _ => True :=
        call_gasStep (h.nonneg hlasts) (fn?_ne_dup_zero hfn) (h.size hlasts)
          (fun heq => hprovided.selfdestruct (heq ▸ hfn))
          fun n heq harg => hprovided.create2 i ins n hpc hins (heq ▸ hinsfn) harg
      rcases stepInstr_at hpc hins hinsfn hstep with ⟨next, hcall, hpc'⟩ | ⟨f, hcall, hpc'⟩
      case inr => exact hstuck hpc'
      have hout := hgas.of_ok hcall
      -- A configuration that lasts is one behind a call that lasts.
      have hnext : c'.Lasts → TscVee.Lasts next c'.astate := by
        rintro (⟨j, hj⟩ | ⟨-, hsuccess⟩)
        · refine Or.inl ?_
          rintro rfl
          rw [hj] at hpc'
          cases hpc'
        · exact Or.inr hsuccess
      refine ⟨fun hnull => hout.handed ?_,
        fun hl => (hout.falls (hnext hl)).kept.size (h.size hlasts),
        fun hl hfair => ?_, fun hl => hout.nonneg (hnext hl)⟩
      · cases next with
        | none => rfl
        | some j =>
            rw [hnull] at hpc'
            cases hpc'
      · have hfalls := hout.falls (hnext hl)
        exact (hfalls.gas.resolve_right hfair.not_overpaid).trans
          (h.gas hlasts (hfalls.kept.fairCalls hfair))

/-- While the loop runs, and when it ends with `EVMC_SUCCESS`, the gas counter is not negative, and
not above the gas of the message. -/
theorem Runs.solvent {analysis : CodeAnalysis} (hgas : 0 ≤ msg.gas)
    (h : Runs rev hostCtx msg code analysis c)
    (hprovided : ∀ c', Runs rev hostCtx msg code analysis c' → c'.Provided analysis) :
    Solvent msg c := by
  obtain ⟨hanalyze, hrun⟩ := h
  have hanalysis := analyze_ok hanalyze
  subst hanalysis
  refine hrun.invariant_of (fun a b ha hprov hab => solvent_step ha hprov hab)
    (fun a ha => hprovided a ⟨hanalyze, ha⟩) ⟨nofun, fun _ => ?_, fun _ _ => le_refl _, fun _ => hgas⟩
  show 0 < 2 ^ 63
  decide

/-! ### The result -/

/-- The result of a state whose status is still the initial one, when its output gets a buffer. -/
theorem sat_makeResult_status {s : ExecutionState} (hstatus : s.status = .success)
    (houtput : s.outputSize ≠ 0 → Env.allocates s.fresh s.outputSize = true) :
    Sat makeResult s (fun r s' => r.statusCode = .success ∧ r.gasLeft = s.gasLeft ∧ Kept s s')
      fun _ _ => True := by
  have hread : ∀ s₁ : ExecutionState, Kept s s₁ →
      Sat (readMemory s.outputOffset s.outputSize) s₁ (fun _ s' => Kept s s') fun _ _ => True := by
    intro s₁ h₁
    rw [sat_readMemory]
    split
    · exact h₁
    · exact (lowers_access _ _).mono (fun _ _ h => h₁.trans h.1.kept) fun _ _ h => h
  unfold makeResult evmcMakeResult
  simp only [sat_bind, sat_get, sat_ite, sat_fault, sat_pure, sat_nextFresh, hstatus, true_or,
    if_true]
  refine ⟨fun _ => trivial, fun _ => ⟨fun hout => ⟨fun hrefused => ?_, fun _ => ?_⟩, fun _ => ?_⟩⟩
  · simp [houtput hout] at hrefused
  · refine (hread _ ?_).mono (fun _ _ h => ⟨trivial, trivial, h⟩) fun _ _ h => h
    exact .of_eq [] rfl (List.append_nil _).symm rfl rfl
  · exact (hread s (.refl s)).mono (fun _ _ h => ⟨trivial, trivial, h⟩) fun _ _ h => h

/-- The result of a run is right exactly when the terminating instruction handed over
`EVMC_SUCCESS`. -/
theorem executes_exitRule_iff (_hrev : rev.hasRow) (hgas : 0 ≤ msg.gas) {r : Result}
    {s : AdvancedExecutionState} (h : Executes rev hostCtx msg code r s)
    (hprovided : ∀ analysis c, Runs rev hostCtx msg code analysis c → c.Provided analysis)
    (hfair : FairCalls s.estate) : ExitRule msg r s ↔ s.handed = some .success := by
  obtain ⟨analysis, c, estate, hruns, hnull, hresult, rfl⟩ := h
  have hsolvent := hruns.solvent hgas (hprovided analysis)
  have hprov := hprovided analysis c hruns
  obtain ⟨hstatus, hleft, hkept⟩ := (sat_makeResult_status (hruns.status (by simp [hnull]))
    (hprov.output hnull)).of_ok hresult
  constructor
  · intro hrule
    rw [← hstatus]
    exact hrule.status
  · intro hsuccess
    have hlasts : c.Lasts := Or.inr ⟨hnull, hsuccess⟩
    refine ⟨by rw [hstatus]; exact hsuccess, fun hne => absurd hsuccess hne, ?_, ?_⟩
    · rw [hleft]
      exact hsolvent.nonneg hlasts
    · rw [hleft]
      exact hsolvent.gas hlasts (hkept.fairCalls hfair)

end

/-- The message of a run with 1000 gas. -/
def gasMessage : Message := { (default : Message) with gas := 1000 }

/-- The end of a run of the loop on `code`, if it takes at most five rounds. -/
def shortRun [Env] (code : List Byte) : Config :=
  iterate (stepInstr (analyzeCode .london code)) 5
    (initialConfig .london (mockedHostInit default) gasMessage code)

/-- The short run is a run of its code. -/
theorem shortRun_runs [Env] {code : List Byte} (hlen : code.length < 2 ^ 31 - 1) :
    Runs .london (mockedHostInit default) gasMessage code (analyzeCode .london code)
      (shortRun code) :=
  ⟨analyze_eq .london hlen, reaches_iterate _ _ _⟩

/-- A code that stores the word 1 at offset 0 and returns it. -/
def returnOneCode : List Byte := [0x60, 0x01, 0x60, 0x00, 0x52, 0x60, 0x20, 0x60, 0x00, 0xf3]

/-- The end of the run of the loop on it: a `BEGINBLOCK` and six instructions. -/
def returnOneRun [Env] : Config :=
  iterate (stepInstr (analyzeCode .london returnOneCode)) 7
    (initialConfig .london (mockedHostInit default) gasMessage returnOneCode)

/-- The result of a run that returns the word 1 is right: it has the 32 bytes of the word, and what
is left of the gas of the message after five instructions and one word of memory. -/
theorem executes_exitRule_iff_return :
    let _ : Env := Env.zeroed
    ∃ r s, Executes .london (mockedHostInit default) gasMessage returnOneCode r s ∧
      r.outputData = List.replicate 31 0 ++ [1] ∧ r.gasLeft = 982 ∧ ExitRule gasMessage r s := by
  intro _
  -- The trace has the checks and the accesses of `MSTORE` and `RETURN`, and no request to the host.
  have hend : endsWith (fun p : Result × List Event =>
        decide (p.1.outputData = List.replicate 31 0 ++ [1]) && decide (p.1.gasLeft = 982) &&
          decide (p.2 = [.memRange 0 32, .memCheck 3 0 32, .memAccess 0 32 32, .memRange 0 32,
            .memCheck 0 32 32, .memAccess 0 32 32, .memAccess 0 32 32]))
      (do return (← makeResult, ← Core.read (·.trace))) returnOneRun.astate.estate = true := by
    with_unfolding_all decide
  obtain ⟨⟨r, trace⟩, s', hrun, htest⟩ := exists_of_endsWith hend
  rw [Bool.and_eq_true, Bool.and_eq_true, decide_eq_true_iff, decide_eq_true_iff,
    decide_eq_true_iff] at htest
  obtain ⟨⟨houtput, hleft⟩, htrace⟩ := htest
  obtain ⟨r, s₂, hresult, hread⟩ := exists_of_bind hrun
  cases hread
  have hruns : Runs .london (mockedHostInit default) gasMessage returnOneCode
      (analyzeCode .london returnOneCode) returnOneRun :=
    ⟨analyze_eq .london (by decide), reaches_iterate _ _ _⟩
  have hnull : returnOneRun.pc = .null := by with_unfolding_all decide
  have hhanded : returnOneRun.astate.handed = some .success := by with_unfolding_all decide
  generalize returnOneRun = c at hruns hnull hhanded hresult
  have hexec : Executes .london (mockedHostInit default) gasMessage returnOneCode r
      { c.astate with estate := s' } := ⟨_, c, s', hruns, hnull, hresult, rfl⟩
  refine ⟨r, _, hexec, houtput, hleft,
    (executes_exitRule_iff (by decide) (by decide) hexec ?_ ?_).2 hhanded⟩
  · -- No instruction of the code is a `SELFDESTRUCT` or a `CREATE2`, and every allocation succeeds.
    rintro analysis c ⟨hanalyze, -⟩
    obtain rfl := analyze_ok hanalyze
    have hfns : ∀ ins ∈ (analyzeCode .london returnOneCode).instrs,
        ins.fn ≠ some .opSelfdestruct ∧ ins.fn ≠ some .opCreate2 := by with_unfolding_all decide
    refine ⟨fun _ _ => rfl, fun hfn => ?_, fun i ins n _ hins hfn _ => ?_⟩
    · unfold Config.fn? at hfn
      split at hfn
      · obtain ⟨ins, hins, hfn⟩ := Option.bind_eq_some_iff.1 hfn
        exact absurd hfn (hfns ins (List.mem_of_getElem? hins)).1
      · cases hfn
    · exact absurd hfn (hfns ins (List.mem_of_getElem? hins)).2
  · intro m hm
    have htrace : s'.trace = _ := htrace
    have hm : Event.host (.call m) ∈ s'.trace := hm
    rw [htrace] at hm
    simp at hm

/-- The result of an `INVALID` says `EVMC_SUCCESS`. -/
theorem executes_exitRule_iff_invalid :
    let _ : Env := Env.zeroed
    ∃ r s, Executes .london (mockedHostInit default) gasMessage [0xfe] r s ∧
      ¬ ExitRule gasMessage r s := by
  intro _
  have hend : endsWith (fun r : Result => decide (r.statusCode = .success)) makeResult
      (shortRun [0xfe]).astate.estate = true := by with_unfolding_all decide
  obtain ⟨r, s₁, hresult, hstatus⟩ := exists_of_endsWith hend
  refine ⟨r, _, ⟨_, shortRun [0xfe], s₁, shortRun_runs (by decide), by with_unfolding_all decide, hresult, rfl⟩,
    fun hrule => ?_⟩
  have hhanded : (shortRun [0xfe]).astate.handed = some .invalidInstruction := by with_unfolding_all decide
  have hsame : some StatusCode.invalidInstruction = some r.statusCode :=
    hhanded.symm.trans hrule.status
  rw [of_decide_eq_true hstatus] at hsame
  cases hsame

end TscVee
