import TscVee.Proofs.ExitStatus
import TscVee.Proofs.KeepsInt64

/-!
# `TscVee.Proofs.CallMoved`: an instruction function with another gas counter

An instruction function that works with a corrected counter sees the sum of the gas counter and of
the correction. So it runs the same from a state whose counter is moved by `d` and whose correction
is moved by `-d`, and the functions that look at no counter run the same from every counter that
covers their charges.

* `AdvancedExecutionState.moved`: another cost of the current block, and another counter.
* `Looks`: two jump tables that answer each lookup with corresponding places.
* `InstrFn.call_moved`: a call that goes on, from the moved state and with the other jump table.
* `EndsWell`, `InstrFn.call_endsWell`: a call that ends the run with its gas.
-/

set_option autoImplicit false

namespace TscVee

open TscVee.Core Exec Lib

/-! ### Calls that go on -/

/-- Another cost of the current block, and the gas counter moved by `d`. -/
def AdvancedExecutionState.moved (s : AdvancedExecutionState) (cost : Nat) (d : Int) :
    AdvancedExecutionState :=
  { s with currentBlockCost := cost, estate := gasBudget.add d s.estate }

/-- Where the first jump table finds a destination, the second one finds one that corresponds to
it. -/
def Looks (analysis analysis' : CodeAnalysis) (J : Nat → Nat → Prop) : Prop :=
  ∀ offset, 0 ≤ findJumpdest analysis offset →
    0 ≤ findJumpdest analysis' offset ∧
      (findJumpdest analysis' offset).toNat < analysis'.instrs.length ∧
      J (findJumpdest analysis offset).toNat (findJumpdest analysis' offset).toNat

/-- The functions that work with the cost of the current block. -/
def InstrFn.seesCost : InstrFn → Bool
  | .opGas | .opSstore | .opCreate | .opCall | .opCallcode | .opDelegatecall | .opCreate2
  | .opStaticcall => true
  | _ => false

section
variable [Env] {analysis analysis' : CodeAnalysis} {J : Nat → Nat → Prop} {instr instr' : Nat}
  {s s' : AdvancedExecutionState} {cost : Nat} {d : Int} {next : Option Nat} {i : Nat}

/-- An implementation that ends early does so with a failure. -/
theorem InstrFn.early {fn : InstrFn} (hdup : fn ≠ .opDup 0) {opcode : Opcode}
    {body : StackTop → Core Unit}
    (hshape : fn.shape = .core opcode body ∨ fn.shape = .corrected opcode body)
    (top : StackTop) (estate : ExecutionState) :
    Sat (body top) estate (fun _ _ => True) fun h _ => ∀ status, h = .ret status → status.Early := by
  have hhas := fn.has hdup estate.msg top
  rcases hshape with hshape | hshape <;> rw [hshape] at hhas
  all_goals exact (Has.kept hhas rfl).mono (fun _ _ _ => trivial) fun _ _ h => h

omit [Env] in
/-- How a core implementation goes on. -/
theorem opCore_ok_iff {opcode : Opcode} {body : StackTop → Core Unit}
    (hearly : Sat (body s.topItem) s.estate (fun _ _ => True)
      fun h _ => ∀ status, h = .ret status → status.Early) :
    opCore opcode body instr s = .ok (some i) s' ↔
      ∃ estate, body s.topItem s.estate = .ok () estate ∧ i = instr + 1 ∧
        s' = { s with
          estate := estate
          topItem := s.topItem + (traits opcode).stackHeightChange } := by
  rw [← sat_eq_iff, sat_opCore]
  unfold Sat at hearly ⊢
  cases hbody : body s.topItem s.estate with
  | ok a estate =>
      simp only [Option.some.injEq, EStateM.Result.ok.injEq, true_and, exists_eq_left']
      exact ⟨fun ⟨hi, hs⟩ => ⟨hi.symm, hs.symm⟩, fun ⟨hi, hs⟩ => ⟨hi.symm, hs.symm⟩⟩
  | error h estate =>
      simp only [reduceCtorEq, false_and, exists_false, iff_false]
      cases h with
      | fault f => exact id
      | ret status =>
          rw [hbody] at hearly
          have hne := (hearly status rfl).1
          simp [afterStatus, hne]

omit [Env] in
/-- How a corrected implementation goes on: the correction is still there at its end. -/
theorem opCorrected_ok_iff {opcode : Opcode} {body : StackTop → Core Unit} {n : Int}
    (hearly : ∀ estate, Sat (body s.topItem) estate (fun _ _ => True)
      fun h _ => ∀ status, h = .ret status → status.Early) :
    opCorrected opcode body instr (.number n) s = .ok (some i) s' ↔
      isInt64 (s.estate.gasLeft + (s.currentBlockCost - n)) ∧
      ∃ estate, body s.topItem (s.estate.seeGas (s.estate.gasLeft + (s.currentBlockCost - n))) =
          .ok () estate ∧
        isInt64 (estate.gasLeft - (s.currentBlockCost - n)) ∧
        0 ≤ estate.gasLeft - (s.currentBlockCost - n) ∧ i = instr + 1 ∧
        s' = { s with
          estate := { estate with gasLeft := estate.gasLeft - (s.currentBlockCost - n) }
          topItem := s.topItem + (traits opcode).stackHeightChange } := by
  rw [← sat_eq_iff, sat_opCorrected]
  generalize hc : (s.currentBlockCost : Int) - n = c
  -- The correction, the body, the correction taken back, and the test of the gas.
  by_cases hint : isInt64 (s.estate.gasLeft + c)
  case neg => simp [hint]
  rw [if_pos hint]
  have hearly := hearly (s.estate.seeGas (s.estate.gasLeft + c))
  unfold Sat at hearly ⊢
  cases hbody : body s.topItem (s.estate.seeGas (s.estate.gasLeft + c)) with
  | ok a estate =>
      simp only [EStateM.Result.ok.injEq, true_and, exists_eq_left']
      by_cases hfits : isInt64 (estate.gasLeft - c)
      case neg => simp [hfits]
      by_cases hpos : estate.gasLeft - c < 0
      · have hneg : ¬ c ≤ estate.gasLeft := by omega
        simp [hfits, afterCorrection, hpos, hneg]
      · have hnonneg : 0 ≤ estate.gasLeft - c := by omega
        rw [if_pos hfits]
        simp only [afterCorrection, if_neg hpos, Option.some.injEq]
        exact ⟨fun ⟨hi, hs⟩ => ⟨hint, hfits, hnonneg, hi.symm, hs.symm⟩,
          fun ⟨_, _, _, hi, hs⟩ => ⟨hi.symm, hs.symm⟩⟩
  -- A body that ends early never ends with success, so it does not go on.
  | error h estate =>
      cases h with
      | fault f => simp
      | ret status =>
          rw [hbody] at hearly
          have hne := (hearly status rfl).1
          simp [hne]

/-- A core implementation goes on from every counter that covers its charges. -/
theorem InstrFn.opCore_moved {fn : InstrFn} (hdup : fn ≠ .opDup 0) {opcode : Opcode}
    {body : StackTop → Core Unit} (hshape : fn.shape = .core opcode body)
    (hsize : s.estate.memory.mSize < 2 ^ 63)
    (h : opCore opcode body instr s = .ok (some i) s') (hlow : 0 ≤ s'.estate.gasLeft + d)
    (hhigh : s.estate.gasLeft + d < 2 ^ 63) :
    i = instr + 1 ∧ s'.estate.gasLeft + d < 2 ^ 63 ∧
      opCore opcode body instr' (s.moved cost d) = .ok (some (instr' + 1)) (s'.moved cost d) := by
  have hearly := fn.early hdup (.inl hshape)
  rw [opCore_ok_iff (hearly _ _)] at h
  obtain ⟨estate, hbody, hi, rfl⟩ := h
  have hdraws : DrawsGas (body s.topItem) s.estate := fn.draws hdup hshape hsize
  have hle : estate.gasLeft ≤ s.estate.gasLeft := hdraws.le hbody trivial
  refine ⟨hi, show estate.gasLeft + d < 2 ^ 63 by omega, ?_⟩
  refine (opCore_ok_iff (hearly _ _)).2 ⟨gasBudget.add d estate, ?_, rfl, rfl⟩
  exact hdraws.shift hbody trivial hlow hhigh

/-- A corrected implementation sees the sum of the counter and of the correction only. -/
theorem InstrFn.opCorrected_moved {fn : InstrFn} (hdup : fn ≠ .opDup 0) {opcode : Opcode}
    {body : StackTop → Core Unit} (hshape : fn.shape = .corrected opcode body) {n n' : Int}
    (hn : s.currentBlockCost - n = d + (cost - n')) (hcost : n' ≤ cost)
    (h : opCorrected opcode body instr (.number n) s = .ok (some i) s')
    (hlow : 0 ≤ s'.estate.gasLeft + d) :
    i = instr + 1 ∧ s'.estate.gasLeft + d < 2 ^ 63 ∧
      opCorrected opcode body instr' (.number n') (s.moved cost d) =
        .ok (some (instr' + 1)) (s'.moved cost d) := by
  have hearly := fn.early hdup (.inr hshape)
  rw [opCorrected_ok_iff fun _ => hearly _ _] at h
  obtain ⟨hint, estate, hbody, hfits, hpos, hi, rfl⟩ := h
  -- Both runs start with the same sum, and the sum stays an `int64_t`.
  have hsum : s.estate.gasLeft + (s.currentBlockCost - n) =
      (s.moved cost d).estate.gasLeft + ((s.moved cost d).currentBlockCost - n') := by
    show _ = s.estate.gasLeft + d + (cost - n')
    omega
  have hend : isInt64 estate.gasLeft := fn.keepsInt64 hshape _ _ _ _ hint hbody
  have hleft : estate.gasLeft - (s.currentBlockCost - n) + d = estate.gasLeft - (cost - n') := by
    omega
  have hlow : 0 ≤ estate.gasLeft - (s.currentBlockCost - n) + d := hlow
  refine ⟨hi, ?_, (opCorrected_ok_iff fun _ => hearly _ _).2 ?_⟩
  · show estate.gasLeft - (s.currentBlockCost - n) + d < 2 ^ 63
    unfold isInt64 at hend
    omega
  rw [← hsum]
  refine ⟨hint, estate, hbody, ?_, ?_, rfl, ?_⟩
  · show isInt64 (estate.gasLeft - (cost - n'))
    unfold isInt64 at hend ⊢
    omega
  · show 0 ≤ estate.gasLeft - (cost - n')
    omega
  · show AdvancedExecutionState.moved _ cost d = _
    unfold AdvancedExecutionState.moved
    simp only [gasBudget, hleft]

/-! The stack of the moved state is the same. -/

omit [Env] in
/-- Reading an item commutes with more gas. -/
theorem stackGet_moved {index : Int} {a : Uint256} (h : stackGet index s = .ok a s') :
    stackGet index (s.moved cost d) = .ok a (s'.moved cost d) := by
  obtain ⟨hin, hitem, rfl⟩ := stackGet_ok h
  refine sat_eq_iff.1 ((sat_stackGet index).2 ?_)
  rw [if_pos (show inStackSpace ((s.moved cost d).topItem - index) from hin)]
  exact ⟨hitem, rfl⟩

omit [Env] in
/-- Popping an item commutes with more gas. -/
theorem stackPop_moved {a : Uint256} (h : stackPop s = .ok a s') :
    stackPop (s.moved cost d) = .ok a (s'.moved cost d) := by
  obtain ⟨hin, hitem, rfl⟩ := stackPop_ok h
  refine sat_eq_iff.1 (sat_stackPop.2 ?_)
  rw [if_pos (show inStackSpace (s.moved cost d).topItem from hin)]
  exact ⟨hitem, rfl⟩

omit [Env] in
/-- Pushing an item commutes with more gas. -/
theorem stackPush_moved {word : Uint256} (h : stackPush word s = .ok () s') :
    stackPush word (s.moved cost d) = .ok () (s'.moved cost d) := by
  rw [← sat_eq_iff, sat_stackPush] at h ⊢
  split at h
  case isTrue hin =>
    rw [if_pos (show inStackSpace ((s.moved cost d).topItem + 1) from hin), ← h.2]
    exact ⟨rfl, rfl⟩
  case isFalse => exact h.elim

omit [Env] in
/-- A pushed word, and the next instruction. -/
theorem pushNext_moved {word : Uint256}
    (h : (do stackPush word; return some (instr + 1) : Exec (Option Nat)) s = .ok (some i) s') :
    i = instr + 1 ∧ s'.estate.gasLeft = s.estate.gasLeft ∧
      (do stackPush word; return some (instr' + 1) : Exec (Option Nat)) (s.moved cost d) =
        .ok (some (instr' + 1)) (s'.moved cost d) := by
  obtain ⟨_, t, hpush, h⟩ := exists_of_bind h
  obtain ⟨rfl, rfl⟩ : instr + 1 = i ∧ t = s' := by
    cases h
    exact ⟨rfl, rfl⟩
  have hgas : Sat (stackPush word) s (fun _ t => t.estate.gasLeft = s.estate.gasLeft)
      fun _ _ => True := by
    rw [sat_stackPush]
    split
    · exact rfl
    · trivial
  exact ⟨rfl, hgas.of_ok hpush, ok_bind (stackPush_moved hpush) rfl⟩

omit [Env] in
/-- A jump goes on at the corresponding place. -/
theorem opJump_moved (hlooks : Looks analysis analysis' J)
    (h : opJump analysis s = .ok (some i) s') :
    s'.estate.gasLeft = s.estate.gasLeft ∧
      ∃ i', opJump analysis' (s.moved cost d) = .ok (some i') (s'.moved cost d) ∧ J i i' := by
  unfold opJump at h ⊢
  obtain ⟨dst, t, hpop, h⟩ := exists_of_bind h
  -- The jump has succeeded, so the target is found, and in the other code too.
  have hfound : 0 ≤ findJumpdest analysis (toInt32 dst.low) := by
    by_contra hneg
    rw [if_pos (by omega)] at h
    cases h
  obtain ⟨hfound', hlen, hplaces⟩ := hlooks _ hfound
  rw [if_neg (by omega)] at h
  obtain ⟨hi, hs'⟩ : (findJumpdest analysis (toInt32 dst.low)).toNat = i ∧ t = s' := by
    split at h
    · cases h
    · cases h
      exact ⟨rfl, rfl⟩
  have hgas : t.estate.gasLeft = s.estate.gasLeft := by
    rw [← (stackPop_ok hpop).2.2]
  refine ⟨hs' ▸ hgas, _, ok_bind (stackPop_moved hpop) ?_, hi ▸ hplaces⟩
  rw [if_neg (by omega), if_neg (by simpa using hlen), hs']
  rfl

omit [Env] in
/-- A conditional jump goes on behind itself, or at the corresponding place. -/
theorem opJumpi_moved (hlooks : Looks analysis analysis' J)
    (h : opJumpi analysis instr s = .ok (some i) s') :
    s'.estate.gasLeft = s.estate.gasLeft ∧
      ∃ i', opJumpi analysis' instr' (s.moved cost d) = .ok (some i') (s'.moved cost d) ∧
        (i = instr + 1 ∧ i' = instr' + 1 ∨ J i i') := by
  unfold opJumpi at h ⊢
  obtain ⟨tmp, t, hget, h⟩ := exists_of_bind h
  have hgas : ∀ {a : Uint256} {t t' : AdvancedExecutionState}, stackPop t = .ok a t' →
      t'.estate.gasLeft = t.estate.gasLeft := fun hpop => by
    rw [← (stackPop_ok hpop).2.2]
  have hstart : t.estate.gasLeft = s.estate.gasLeft := by
    rw [(stackGet_ok hget).2.2]
  -- Both branches end with the pop of the condition.
  have hlast : ∀ {next : Option Nat} {t : AdvancedExecutionState},
      (do let _ ← stackPop; return next : Exec (Option Nat)) t = .ok (some i) s' →
      next = some i ∧ s'.estate.gasLeft = t.estate.gasLeft ∧
        ∀ i', (do let _ ← stackPop; return some i' : Exec (Option Nat))
          (t.moved cost d) = .ok (some i') (s'.moved cost d) := by
    intro next t h
    obtain ⟨_, t', hpop, h⟩ := exists_of_bind h
    obtain ⟨rfl, rfl⟩ : next = some i ∧ t' = s' := by
      cases h
      exact ⟨rfl, rfl⟩
    exact ⟨rfl, hgas hpop, fun i' => ok_bind (stackPop_moved hpop) rfl⟩
  have hget' : stackGet 1 (s.moved cost d) = .ok tmp (t.moved cost d) := stackGet_moved hget
  by_cases hcond : (!zero256 tmp) = true
  · simp only [if_pos hcond] at h
    obtain ⟨next, t₁, hjump, h⟩ := exists_of_bind h
    obtain ⟨rfl, hend, hpop⟩ := hlast h
    obtain ⟨hleft, i', hjump', hplaces⟩ := opJump_moved hlooks hjump
    refine ⟨hend.trans (hleft.trans hstart), i', ok_bind hget' ?_, .inr hplaces⟩
    simp only [if_pos hcond]
    exact ok_bind hjump' (hpop i')
  · simp only [if_neg hcond] at h
    obtain ⟨_, t₁, hfirst, h⟩ := exists_of_bind h
    obtain ⟨hi, hend, hpop⟩ := hlast h
    refine ⟨hend.trans ((hgas hfirst).trans hstart), instr' + 1, ok_bind hget' ?_, ?_⟩
    case refine_2 => exact .inl ⟨(Option.some.inj hi).symm, rfl⟩
    simp only [if_neg hcond]
    exact ok_bind (stackPop_moved hfirst) (hpop (instr' + 1))

omit [Env] in
/-- `GAS` pushes the sum of the counter and of the correction. -/
theorem opGas_moved {n n' : Int} (hn : s.currentBlockCost - n = d + (cost - n'))
    (h : opGas instr (.number n) s = .ok (some i) s') :
    i = instr + 1 ∧ s'.estate.gasLeft = s.estate.gasLeft ∧
      opGas instr' (.number n') (s.moved cost d) = .ok (some (instr' + 1)) (s'.moved cost d) := by
  have hsum : s.estate.gasLeft + (s.currentBlockCost - n) =
      (s.moved cost d).estate.gasLeft + ((s.moved cost d).currentBlockCost - n') := by
    show _ = s.estate.gasLeft + d + (cost - n')
    omega
  -- The logged sum is the pushed one.
  have hsee : ∀ (t : AdvancedExecutionState) (m : Int) (k : Nat), opGas k (.number m) t =
      (do
        stackPush (int64Word (t.estate.gasLeft + (t.currentBlockCost - m)))
        return some (k + 1) : Exec (Option Nat))
      { t with estate := { t.estate with
        trace := t.estate.trace ++ [.gasSeen (t.estate.gasLeft + (t.currentBlockCost - m))] } } :=
    fun _ _ _ => rfl
  rw [hsee] at h
  rw [hsee, ← hsum]
  exact pushNext_moved h

omit [Env] in
/-- No call of the shape `opTerminate` goes on. -/
theorem opTerminate_none (body : StackTop → Core StatusCode) (s : AdvancedExecutionState) :
    Sat (opTerminate body) s (fun next _ => next = none) fun _ _ => True := by
  rw [sat_opTerminate]
  refine Sat.mono (sat_trivial _ _) (fun _ _ _ => rfl) fun e _ _ => ?_
  cases e with
  | ret status => exact rfl
  | fault f => trivial

/-- A call that goes on does so from the moved state as well, with the other jump table, when the
moved counter covers the charges. -/
theorem InstrFn.call_moved {fn : InstrFn} (hdup : fn ≠ .opDup 0) (hbegin : fn ≠ .opxBeginblock)
    {arg arg' : InstructionArgument} (hlooks : Looks analysis analysis' J)
    (hsame : fn.seesCost = false → arg' = arg)
    (hcost : fn.seesCost = true → ∃ n n', arg = .number n ∧ arg' = .number n' ∧
      s.currentBlockCost - n = d + (cost - n') ∧ n' ≤ cost)
    (hsize : s.estate.memory.mSize < 2 ^ 63)
    (h : fn.call analysis instr arg s = .ok (some i) s') (hlow : 0 ≤ s'.estate.gasLeft + d)
    (hhigh : s.estate.gasLeft + d < 2 ^ 63) :
    s'.estate.gasLeft + d < 2 ^ 63 ∧
      ∃ i', fn.call analysis' instr' arg' (s.moved cost d) = .ok (some i') (s'.moved cost d) ∧
        (i = instr + 1 ∧ i' = instr' + 1 ∨ (fn = .opJump ∨ fn = .opJumpi) ∧ J i i') := by
  -- Most functions go on to the next instruction, whatever the code is.
  have hnext : ∀ {x : Exec (Option Nat)},
      i = instr + 1 ∧ s'.estate.gasLeft + d < 2 ^ 63 ∧
        x (s.moved cost d) = .ok (some (instr' + 1)) (s'.moved cost d) →
      s'.estate.gasLeft + d < 2 ^ 63 ∧ ∃ i', x (s.moved cost d) = .ok (some i') (s'.moved cost d) ∧
        (i = instr + 1 ∧ i' = instr' + 1 ∨ (fn = .opJump ∨ fn = .opJumpi) ∧ J i i') :=
    fun ⟨hi, hlt, hx⟩ => ⟨hlt, _, hx, .inl ⟨hi, rfl⟩⟩
  -- A push keeps the gas besides.
  have hpush : ∀ {x : Exec (Option Nat)},
      i = instr + 1 ∧ s'.estate.gasLeft = s.estate.gasLeft ∧
        x (s.moved cost d) = .ok (some (instr' + 1)) (s'.moved cost d) →
      s'.estate.gasLeft + d < 2 ^ 63 ∧ ∃ i', x (s.moved cost d) = .ok (some i') (s'.moved cost d) ∧
        (i = instr + 1 ∧ i' = instr' + 1 ∨ (fn = .opJump ∨ fn = .opJumpi) ∧ J i i') :=
    fun ⟨hi, hgas, hx⟩ => hnext ⟨hi, hgas ▸ hhigh, hx⟩
  have hsameGas : s'.estate.gasLeft = s.estate.gasLeft → s'.estate.gasLeft + d < 2 ^ 63 :=
    fun hgas => hgas ▸ hhigh
  rw [InstrFn.call_eq] at h ⊢
  cases hshape : fn.shape with
  | core opcode body =>
      rw [hshape] at h
      exact hnext (fn.opCore_moved hdup hshape hsize h hlow hhigh)
  -- The argument is the cost of the block up to here, which differs between the codes.
  | corrected opcode body =>
      obtain ⟨n, n', rfl, rfl, hn, hle⟩ := hcost (by cases fn <;> first | rfl | cases hshape)
      rw [hshape] at h
      exact hnext (fn.opCorrected_moved hdup hshape hn hle h hlow)
  | terminate body =>
      rw [hshape] at h
      exact absurd ((opTerminate_none body s).of_ok h) nofun
  | undefined =>
      rw [hshape] at h
      cases h
  -- A jump goes to corresponding places.
  | jump =>
      rw [hshape] at h
      obtain ⟨hgas, i', hi', hplaces⟩ := opJump_moved hlooks h
      have hfn : fn = .opJump := by cases fn <;> first | rfl | cases hshape
      exact ⟨hsameGas hgas, i', hi', .inr ⟨.inl hfn, hplaces⟩⟩
  | jumpi =>
      rw [hshape] at h
      obtain ⟨hgas, i', hi', hplaces⟩ := opJumpi_moved hlooks h
      have hfn : fn = .opJumpi := by cases fn <;> first | rfl | cases hshape
      exact ⟨hsameGas hgas, i', hi', hplaces.imp_right fun hJ => ⟨.inr hfn, hJ⟩⟩
  -- The argument does not depend on the cost of the block, so it is the same in both codes.
  | pc =>
      obtain rfl := hsame (by cases fn <;> first | rfl | cases hshape)
      rw [hshape] at h
      cases arg' with
      | number n => exact hpush (pushNext_moved h)
      | _ => cases h
  | gas =>
      obtain ⟨n, n', rfl, rfl, hn, hle⟩ := hcost (by cases fn <;> first | rfl | cases hshape)
      rw [hshape] at h
      exact hpush (opGas_moved hn h)
  | pushSmall =>
      obtain rfl := hsame (by cases fn <;> first | rfl | cases hshape)
      rw [hshape] at h
      cases arg' with
      | smallPushValue value => exact hpush (pushNext_moved h)
      | _ => cases h
  | pushFull =>
      obtain rfl := hsame (by cases fn <;> first | rfl | cases hshape)
      rw [hshape] at h
      cases arg' with
      | pushValue value => exact hpush (pushNext_moved h)
      | _ => cases h
  | beginblock => exact absurd (by cases fn <;> first | rfl | cases hshape) hbegin

/-! ### Calls that end the run -/

/-- The status of a run that keeps its gas. -/
def StatusCode.KeepsGas (status : StatusCode) : Prop := status = .success ∨ status = .revert

/-- The functions of the terminators but `JUMP` and `JUMPI`. -/
def InstrFn.endsRun (fn : InstrFn) : Prop :=
  fn = .opStop ∨ fn = .opReturn ∨ fn = .opRevert ∨ fn = .opSelfdestruct

/-- The call ends the run with a status that keeps the gas. -/
def EndsWell (next : Option Nat) (s : AdvancedExecutionState) : Prop :=
  next = none ∧ ∃ status, s.handed = some status ∧ status.KeepsGas

omit [Env] in
/-- A run that goes on has not ended well. -/
theorem not_endsWell_some (i : Nat) (s : AdvancedExecutionState) : ¬ EndsWell (some i) s := nofun

omit [Env] in
/-- A status without the remaining gas is no good end. -/
theorem not_endsWell_exit (status : StatusCode) (h : ¬ status.KeepsGas) {next : Option Nat}
    {s : AdvancedExecutionState} (hs : s.handed = some status) : ¬ EndsWell next s := by
  rintro ⟨-, status', hstatus', hkeeps⟩
  rw [hs] at hstatus'
  exact h (Option.some.inj hstatus' ▸ hkeeps)

omit [Env] in
/-- The statuses of an early return do not keep the gas. -/
theorem StatusCode.Early.not_keepsGas {status : StatusCode} (h : status.Early) :
    ¬ status.KeepsGas := by
  rintro (hsuccess | hrevert)
  · exact h.1 hsuccess
  · exact h.2 hrevert

instance (status : StatusCode) : Decidable status.KeepsGas := inferInstanceAs (Decidable (_ ∨ _))

omit [Env] in
/-- The end of a corrected instruction is a failure, if it is an end. -/
theorem not_endsWell_afterCorrection (correction : Int) :
    ¬ EndsWell (afterCorrection correction (some i) s).1
      (afterCorrection correction (some i) s).2 :=
  afterCorrection_cases (P := fun next s => ¬ EndsWell next s) correction
    (fun _ => not_endsWell_some _ _)
    fun _ => not_endsWell_exit .outOfGas (by decide) rfl

omit [Env] in
/-- JUMP ends the run at a bad destination only. -/
theorem opJump_endsBadly (s : AdvancedExecutionState) :
    Sat (opJump analysis) s (fun next s' => ¬ EndsWell next s') fun _ _ => True := by
  unfold opJump
  simp only [sat_bind, sat_stackPop]
  split
  case isFalse => trivial
  simp only [sat_ite, sat_exit, sat_throw, sat_pure, sat_bind]
  exact ⟨fun _ => not_endsWell_exit .badJumpDestination (by decide) rfl,
    fun _ => ⟨fun _ => trivial, fun _ => not_endsWell_some _ _⟩⟩

omit [Env] in
/-- JUMPI ends the run at a bad destination only. -/
theorem opJumpi_endsBadly (s : AdvancedExecutionState) :
    Sat (opJumpi analysis instr) s (fun next s' => ¬ EndsWell next s') fun _ _ => True := by
  unfold opJumpi
  simp only [sat_bind, sat_stackGet, sat_ite, sat_pure]
  split
  case isFalse => trivial
  refine ⟨fun _ => ?_, fun _ => ?_⟩
  · refine (opJump_endsBadly s).mono (fun next s' h => ?_) fun _ _ _ => trivial
    rw [sat_stackPop]
    split
    · exact h
    · trivial
  · simp only [sat_stackPop]
    split
    · exact not_endsWell_some _ _
    · trivial

omit [Env] in
/-- `BEGINBLOCK` ends the run for lack of gas or of items, or for too many of them. -/
theorem opxBeginblock_endsBadly (arg : InstructionArgument) (s : AdvancedExecutionState) :
    Sat (opxBeginblock instr arg) s (fun next s' => ¬ EndsWell next s') fun _ _ => True := by
  unfold opxBeginblock
  cases arg with
  | block block =>
      simp only [sat_bind, sat_subGas]
      split
      case isFalse => trivial
      simp only [sat_bind, sat_get, sat_ite, sat_exit, sat_set, sat_pure]
      exact ⟨fun _ => not_endsWell_exit .outOfGas (by decide) rfl,
        fun _ => ⟨fun _ => not_endsWell_exit .stackUnderflow (by decide) rfl,
        fun _ => ⟨fun _ => not_endsWell_exit .stackOverflow (by decide) rfl,
        fun _ => not_endsWell_some _ _⟩⟩⟩
  | _ => trivial

omit [Env] in
/-- Only the functions of the shape `opTerminate` end a run with its gas. -/
theorem Shape.run_endsBadly (shape : Shape) (hterminate : ∀ body, shape ≠ .terminate body)
    (hearly : ∀ opcode body, shape = .core opcode body ∨ shape = .corrected opcode body →
      ∀ top estate, Sat (body top) estate (fun _ _ => True)
        fun h _ => ∀ status, h = .ret status → status.Early)
    (arg : InstructionArgument) (s : AdvancedExecutionState) :
    Sat (shape.run analysis instr arg) s (fun next s' => ¬ EndsWell next s') fun _ _ => True := by
  have hpush : ∀ (word : Uint256) (s : AdvancedExecutionState),
      Sat (do stackPush word; return some (instr + 1)) s (fun next s' => ¬ EndsWell next s')
        fun _ _ => True := by
    intro word s
    simp only [sat_bind, sat_stackPush, sat_pure]
    split
    · exact not_endsWell_some _ _
    · trivial
  -- A shape goes on, faults, or hands a status over that does not keep the gas.
  cases shape with
  | core opcode body =>
      rw [Shape.run, sat_opCore]
      refine (hearly _ _ (.inl rfl) _ _).mono (fun _ _ _ => not_endsWell_some _ _)
        fun h _ hearly => ?_
      cases h with
      | fault f => trivial
      | ret status =>
          exact afterStatus_cases (P := fun next s => ¬ EndsWell next s) status
            (fun _ => not_endsWell_some _ _)
            fun _ => not_endsWell_exit status (hearly status rfl).not_keepsGas rfl
  -- The correction in front of and behind the core changes no status.
  | corrected opcode body =>
      cases arg with
      | number n =>
          rw [Shape.run, sat_opCorrected]
          split
          case isFalse => trivial
          refine (hearly _ _ (.inr rfl) _ _).mono (fun _ _ _ => ?_) fun h _ hearly => ?_
          · simp only
            split
            · exact not_endsWell_afterCorrection _
            · trivial
          · cases h with
            | fault f => trivial
            | ret status =>
                simp only
                rw [if_neg (hearly status rfl).1]
                exact not_endsWell_exit status (hearly status rfl).not_keepsGas rfl
      | _ => trivial
  | terminate body => exact absurd rfl (hterminate body)
  | undefined => exact not_endsWell_exit .undefinedInstruction (by decide) rfl
  | jump => exact opJump_endsBadly s
  | jumpi => exact opJumpi_endsBadly s
  | pc =>
      cases arg with
      | number n => exact hpush _ s
      | _ => trivial
  | gas =>
      cases arg with
      | number n => exact hpush _ _
      | _ => trivial
  | pushSmall =>
      cases arg with
      | smallPushValue value => exact hpush _ s
      | _ => trivial
  | pushFull =>
      cases arg with
      | pushValue value => exact hpush _ s
      | _ => trivial
  | beginblock => exact opxBeginblock_endsBadly arg s

/-- A call that ends the run with its gas belongs to one of four functions, and it ends the run as
well from a state with another cost of the current block. -/
theorem InstrFn.call_endsWell {fn : InstrFn} (hdup : fn ≠ .opDup 0) {arg arg' : InstructionArgument}
    (h : fn.call analysis instr arg s = .ok next s') (hends : EndsWell next s') :
    fn.endsRun ∧
      fn.call analysis' instr' arg' (s.moved cost 0) = .ok next (s'.moved cost 0) := by
  have hzero : ∀ s : AdvancedExecutionState, s.moved cost 0 = { s with currentBlockCost := cost } :=
    fun s => by simp [AdvancedExecutionState.moved, gasBudget]
  rw [InstrFn.call_eq] at h ⊢
  by_cases hterminate : ∃ body, fn.shape = .terminate body
  -- Only the ending functions leave with a status that ends well.
  case neg =>
    exact absurd hends ((Shape.run_endsBadly _ (fun body hbody => hterminate ⟨body, hbody⟩)
      (fun opcode body hshape => fn.early hdup hshape) arg s).of_ok h)
  obtain ⟨body, hshape⟩ := hterminate
  rw [hshape] at h ⊢
  refine ⟨?_, ?_⟩
  · cases fn with
    | opStop => exact .inl rfl
    | opReturn => exact .inr (.inl rfl)
    | opRevert => exact .inr (.inr (.inl rfl))
    | opSelfdestruct => exact .inr (.inr (.inr rfl))
    -- INVALID ends, but not well.
    | opInvalid =>
        cases hshape
        have hinvalid : ¬ EndsWell next s' := by
          cases h
          exact not_endsWell_exit .invalidInstruction (by decide) rfl
        exact absurd hends hinvalid
    | _ => cases hshape
  · -- The cost of the current block is copied from the start to the end.
    rw [hzero, hzero]
    rw [← sat_eq_iff, Shape.run, sat_opTerminate] at h ⊢
    refine h.mono (fun status estate hend => ⟨hend.1, by rw [← hend.2]⟩) fun e estate hend => ?_
    cases e with
    | ret status => exact ⟨hend.1, by rw [← hend.2]⟩
    | fault f => exact hend

end

end TscVee
