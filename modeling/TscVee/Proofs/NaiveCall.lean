import TscVee.Proofs.NaivePlaces
import TscVee.Proofs.StackSafety

/-!
# `TscVee.Proofs.NaiveCall`: one operation of the naive interpreter

* `Defined.goesOn`: what the call of the function of an opcode keeps, when the run goes on.
* `naiveCharge_iff`: the checks in front of an operation, for a run that does not fail there.
* `naiveCall_jumpdest`, `naiveCall_op`, `naiveCall_undefined`: the operation behind them.
-/

set_option autoImplicit false

namespace TscVee

open TscVee.Core Exec Lib

/-! ### What a call keeps -/

/-- A state that an instruction of the code can run in. -/
structure Healthy (s : AdvancedExecutionState) : Prop where
  stack : StackIn s
  nonneg : 0 ≤ s.estate.gasLeft
  size : s.estate.memory.mSize < 2 ^ 63

/-- What the call of a function keeps, when the run goes on behind it. -/
structure GoesOn (opcode : Opcode) (s s' : AdvancedExecutionState) : Prop where
  healthy : Healthy s'
  height : s'.stackSize = s.stackSize + (traits opcode).stackHeightChange
  kept : Kept s.estate s'.estate
  falls : FairCalls s'.estate → s'.estate.gasLeft ≤ s.estate.gasLeft
  cost : s'.currentBlockCost = s.currentBlockCost

section
variable [Env] {rev : Revision} {analysis : CodeAnalysis} {instr j : Nat}
  {arg : InstructionArgument} {s s' : AdvancedExecutionState} {opcode : Opcode} {fn : InstrFn}

/-- A defined opcode has a cost. -/
theorem Defined.gasCosts_ne (hdef : Defined rev opcode fn) : gasCosts rev opcode ≠ -1 := by
  have := hdef.cost_nonneg
  omega

/-- The functions of the table are those of the DUPs from 1 on. -/
theorem Defined.ne_dup_zero (hdef : Defined rev opcode fn) : fn ≠ .opDup 0 := by
  intro heq
  have hfn := opcodeInfo_ne_dup_zero rev opcode
  rw [hdef.info] at hfn
  exact hfn (congrArg some heq)

/-- Only a `JUMPDEST` has the function of `BEGINBLOCK`. -/
theorem Defined.ne_beginblock (hdef : Defined rev opcode fn) (h : opcode ≠ .jumpdest) :
    fn ≠ .opxBeginblock := by
  intro heq
  have hfn := opcodeInfo_ne_beginblock rev h
  rw [hdef.info] at hfn
  exact hfn (congrArg some heq)

/-- Only `opSelfdestruct` has to be able to pay for its work at its end, and it does not go on. -/
theorem InstrFn.ne_selfdestruct_of_next (h : fn.call analysis instr arg s = .ok (some j) s') :
    fn ≠ .opSelfdestruct := by
  rintro rfl
  exact absurd ((opTerminate_none selfdestruct s).of_ok h) nofun

/-- With its items, an opcode runs to a healthy state or ends the run. -/
theorem Defined.goesOn (hdef : Defined rev opcode fn) (hbegin : fn ≠ .opxBeginblock)
    (hs : Healthy s) (hreq : (traits opcode).stackHeightRequired ≤ s.stackSize)
    (hgrow : s.stackSize + (traits opcode).stackHeightChange ≤ 1024)
    (hcreate2 : ∀ n, fn = .opCreate2 → arg = .number n → n ≤ s.currentBlockCost)
    (h : fn.call analysis instr arg s = .ok (some j) s') :
    GoesOn opcode s s' ∧ fn.shape.Continues analysis instr (some j) := by
  have hmoved := (InstrFn.call_keepsStack hdef.mem hs.stack hreq hgrow).of_ok h
  have hself := InstrFn.ne_selfdestruct_of_next h
  have hcreated : ∀ n, fn = .opCreate2 → arg = .number n →
      0 ≤ s.estate.gasLeft + (s.currentBlockCost - n) := fun n hfn harg => by
    have := hcreate2 n hfn harg
    have := hs.nonneg
    omega
  have hgas : Sat (fn.call analysis instr arg) s (GasStep (fn.SendsFrom s arg) s.estate)
      fun _ _ => True :=
    call_gasStep hs.nonneg hdef.ne_dup_zero hs.size (fun heq => absurd heq hself) hcreated
  -- What the instruction does to the gas, then to the place and the cost of the block.
  have hstep := hgas.of_ok h
  have hlasts : Lasts (some j) s' := .inl nofun
  have hfalls := hstep.falls hlasts
  have hgoes : Sat (fn.call analysis instr arg) s (Goes analysis instr arg fn.shape s)
      fun _ _ => True := by
    rw [InstrFn.call_eq]
    exact Shape.run_goes instr arg fn.shape s
  have hcost := (hgoes.of_ok h).sameCost fun heq => hbegin (by cases fn <;> first | rfl | cases heq)
  refine ⟨⟨⟨hmoved.stack, hstep.nonneg hlasts, hfalls.kept.size hs.size⟩, hmoved.size nofun,
    hfalls.kept, fun hfair => ?_, hcost⟩, (hgoes.of_ok h).continues⟩
  exact hfalls.gas.resolve_right hfair.not_overpaid

/-! ### The checks in front of an operation -/

/-- The gas counter without `cost`. -/
def AdvancedExecutionState.charged (s : AdvancedExecutionState) (cost : Int) :
    AdvancedExecutionState :=
  { s with estate := { s.estate with gasLeft := s.estate.gasLeft - cost } }

omit [Env] in
/-- Gas is taken exactly when the difference is an `int64_t`. -/
theorem subGas_charged_iff {cost : Int} :
    Exec.subGas cost s = .ok () s' ↔ isInt64 (s.estate.gasLeft - cost) ∧ s' = s.charged cost := by
  rw [← sat_eq_iff, sat_subGas]
  split
  case isTrue hfits => exact ⟨fun h => ⟨hfits, h.2.symm⟩, fun h => ⟨rfl, h.2.symm⟩⟩
  case isFalse hfits => exact ⟨nofun, fun h => absurd h.1 hfits⟩

/-- The state passes the checks in front of an operation. -/
structure Passes (info : OpTableEntry) (s : AdvancedExecutionState) : Prop where
  fits : isInt64 (s.estate.gasLeft - info.gasCost)
  gas : 0 ≤ s.estate.gasLeft - info.gasCost
  items : info.stackReq ≤ s.stackSize
  room : s.stackSize + info.stackChange ≤ 1024

/-- The run goes on, or ends with its gas. -/
def GoodEnd (next : Option Nat) (s : AdvancedExecutionState) : Prop :=
  next ≠ none ∨ EndsWell next s

variable {next : Option Nat} {info : OpTableEntry} {k : Exec (Option Nat)}

omit [Env] in
/-- A good end passes the three checks, and goes on with the charged state. -/
theorem naiveCharge_iff (hgood : GoodEnd next s') :
    naiveCharge info k s = .ok next s' ↔
      Passes info s ∧ k (s.charged info.gasCost) = .ok next s' := by
  -- A check that fails ends the run, and not well.
  have hfail : ∀ (status : StatusCode) (t : AdvancedExecutionState), ¬ status.KeepsGas →
      ¬ (exit status) t = .ok next s' := by
    intro status t hstatus hexit
    cases hexit
    rcases hgood with hne | hends
    · exact hne rfl
    · exact not_endsWell_exit status hstatus rfl hends
  unfold naiveCharge
  constructor
  · intro h
    obtain ⟨_, t, hsub, h⟩ := exists_of_bind h
    obtain ⟨hfits, rfl⟩ := subGas_charged_iff.1 hsub
    obtain ⟨t, _, hget, h⟩ := exists_of_bind h
    cases hget
    split at h
    · exact absurd h (hfail .outOfGas _ (by decide))
    split at h
    · exact absurd h (hfail .stackUnderflow _ (by decide))
    split at h
    · exact absurd h (hfail .stackOverflow _ (by decide))
    case isFalse hgas hitems hroom =>
      exact ⟨⟨hfits, not_lt.1 hgas, not_lt.1 hitems, not_lt.1 hroom⟩, h⟩
  · rintro ⟨hpasses, hk⟩
    refine ok_bind (subGas_charged_iff.2 ⟨hpasses.fits, rfl⟩) (ok_bind rfl ?_)
    have hgas : ¬ (s.charged info.gasCost).estate.gasLeft < 0 := not_lt.2 hpasses.gas
    have hitems : ¬ (s.charged info.gasCost).stackSize < info.stackReq := not_lt.2 hpasses.items
    have hroom : ¬ (s.charged info.gasCost).stackSize + info.stackChange > 1024 :=
      not_lt.2 hpasses.room
    simp only [if_neg hgas, if_neg hitems, if_neg hroom]
    exact hk

variable {code : List Byte} {p : Nat} {op : Op}

/-- A call that ends is a step. -/
theorem naiveStep_of_call {n n' : AdvancedExecutionState} (h : naiveCall rev code p n = .ok next n') :
    naiveStep rev code ⟨.at p, n⟩ = some ⟨.ofPtr next, n'⟩ := by
  simp only [naiveStep, h]

variable (rev) in
/-- A `JUMPDEST` costs 1, and leaves the stack. -/
theorem opcodeInfo_jumpdest : opcodeInfo rev .jumpdest = ⟨some .opxBeginblock, 1, 0, 0⟩ := by
  have hcost := gasCosts_jumpdest rev
  have hfn : instructionFnTable.lookup .jumpdest = some .opxBeginblock := rfl
  rw [opcodeInfo, if_neg (by decide), getOpTable_defined rev (by rw [hcost]; decide), hcost, hfn]
  rfl

/-- A `JUMPDEST` is charged, and does nothing else. -/
theorem naiveCall_jumpdest (hat : opAt code p = some op) (hop : op.isJumpdest = true)
    (hgood : GoodEnd next s') :
    naiveCall rev code p s = .ok next s' ↔
      Passes (opcodeInfo rev op.opcode) s ∧ next = some (op.pos + 1) ∧
        s' = s.charged (opcodeInfo rev op.opcode).gasCost := by
  unfold naiveCall
  simp only [hat]
  rw [naiveCharge_iff hgood, naiveRun, if_pos hop]
  refine and_congr_right fun _ => ⟨fun h => ?_, fun ⟨hnext, hs⟩ => by rw [hnext, hs]; rfl⟩
  cases h
  exact ⟨rfl, rfl⟩

/-- Another operation is charged, and then its function is called. -/
theorem naiveCall_op (hat : opAt code p = some op) (hop : op.isJumpdest = false)
    (hdef : Defined rev op.opcode fn) (hgood : GoodEnd next s') :
    naiveCall rev code p s = .ok next s' ↔
      Passes (opcodeInfo rev op.opcode) s ∧ ∃ next',
        fn.call (naiveAnalysis code) op.pos (naiveArg code op)
          (s.charged (opcodeInfo rev op.opcode).gasCost) = .ok next' s' ∧
        next = next'.map fun pc => pc + immSize op.opcode := by
  unfold naiveCall
  simp only [hat]
  rw [naiveCharge_iff hgood, naiveRun, if_neg (by simp [hop])]
  have hfn : (opcodeInfo rev op.opcode).fn = some fn := by rw [hdef.info]
  simp only [hfn]
  refine and_congr_right fun _ => ⟨fun h => ?_, fun ⟨next', hcall, hnext⟩ => ?_⟩
  · obtain ⟨next', t, hcall, h⟩ := exists_of_bind h
    cases h
    exact ⟨next', hcall, rfl⟩
  · exact ok_bind hcall (by rw [hnext]; rfl)

/-- An undefined opcode ends the run with a failure. -/
theorem not_naiveCall_undefined (hat : opAt code p = some op) (hop : op.isJumpdest = false)
    (hundef : Undefined rev op.opcode) (hgood : GoodEnd next s') :
    naiveCall rev code p s ≠ .ok next s' := by
  unfold naiveCall
  simp only [hat]
  rw [Ne, naiveCharge_iff hgood, naiveRun, if_neg (by simp [hop])]
  simp only [hundef.fn]
  rintro ⟨-, h⟩
  obtain ⟨next', t, hcall, h⟩ := exists_of_bind h
  cases hcall
  cases h
  rcases hgood with hne | hends
  · exact hne rfl
  · exact not_endsWell_exit .undefinedInstruction (by decide) rfl hends

end

end TscVee
