import TscVee.Proofs.MemorySound
import TscVee.Proofs.RunRules

/-!
# `TscVee.Proofs.OutOfMemory`: runs behind a failed allocation of EVM memory

A failed reallocation leaves the data pointer `NULL` behind, and `Memory_handle_out_of_memory` only
writes a message. `StopsOutOfMemory` says how the run is to go on: EVM memory is left alone, and the
result is `EVMC_OUT_OF_MEMORY`.

No instruction tests the pointer, and none hands over that status. So the status can only come from
`evmc_make_result`, which allocates a buffer for the output: `run_outOfMemory_iff`.
-/

set_option autoImplicit false

namespace TscVee

open TscVee.Core Lib

section
variable [Env]

/-! ### How it is to go on -/

/-- From the configuration on, EVM memory is neither read nor written, and the loop ends with the
result `EVMC_OUT_OF_MEMORY`. Through a `NULL` pointer, a read and a write are faults; and
`Memory_grow` fills what it adds. -/
def StopsOutOfMemory (analysis : CodeAnalysis) (c : Config) : Prop :=
  (∀ c', Reaches (stepInstr analysis) c c' →
    (∀ f, c'.pc ≠ .stuck f) ∧ c'.astate.estate.memory = c.astate.estate.memory) ∧
  ∃ c' r s, Reaches (stepInstr analysis) c c' ∧ c'.pc = .null ∧
    makeResult c'.astate.estate = .ok r s ∧ r.statusCode = .outOfMemory

/-- The operands of a `RETURN` or a `REVERT` pass its memory check although there is no memory: the
size is not 0, and the sum of offset and size is `2 ^ 64`, which wraps to 0. There is no buffer for
an output of this size. -/
structure OutputWraps (s : ExecutionState) (top : StackTop) : Prop where
  offset : offsetTooLarge (s.stackSpace top) = false
  size : (s.stackSpace (top - 1)).low ≠ 0
  sum : (s.stackSpace top).low + (s.stackSpace (top - 1)).low = 2 ^ 64
  refused : Env.allocates s.fresh (s.stackSpace (top - 1)).low = false

/-- No step from the configuration on grows the memory, and the last step of the run is a `RETURN`
or a `REVERT` of an output that wraps. -/
def OutputRefused (rev : Revision) (hostCtx : MockedHost) (msg : Message) (code : List Byte)
    (analysis : CodeAnalysis) (c : Config) : Prop :=
  (∀ a b, Reaches (stepInstr analysis) c a → stepInstr analysis a = some b →
    b.astate.estate.memory.mSize = a.astate.estate.memory.mSize) ∧
  ∃ d c', Runs rev hostCtx msg code analysis d ∧ stepInstr analysis d = some c' ∧ c'.pc = .null ∧
    (d.fn? analysis = some .opReturn ∨ d.fn? analysis = some .opRevert) ∧
    OutputWraps d.astate.estate d.astate.topItem

/-- The loop ends with a memory that has not grown and with an output for which there is no
buffer. -/
def EndsRefused (analysis : CodeAnalysis) (c : Config) : Prop :=
  ∃ c', Reaches (stepInstr analysis) c c' ∧ c'.pc = .null ∧
    c'.astate.estate.memory.mSize = c.astate.estate.memory.mSize ∧
    c'.astate.estate.outputSize ≠ 0 ∧
    Env.allocates c'.astate.estate.fresh c'.astate.estate.outputSize = false

/-! ### The memory without a data pointer -/

/-- Without a data pointer, the memory stays as it is or grows. -/
structure LeftOrGrown (s s' : ExecutionState) : Prop where
  size : s.memory.mSize ≤ s'.memory.mSize
  left : s.memory.mData = none → s'.memory.mSize = s.memory.mSize → s'.memory = s.memory

omit [Env] in
/-- A step that leaves the memory. -/
theorem LeftOrGrown.of_eq {s s' : ExecutionState} (h : s'.memory = s.memory) : LeftOrGrown s s' :=
  ⟨by rw [h], fun _ _ => h⟩

omit [Env] in
/-- Two steps. A memory that is as large as at the start has not grown in between. -/
theorem LeftOrGrown.trans {s s' s'' : ExecutionState} (h : LeftOrGrown s s')
    (h' : LeftOrGrown s' s'') : LeftOrGrown s s'' := by
  refine ⟨h.size.trans h'.size, fun hnone hsize => ?_⟩
  have hle := h.size
  have hle' := h'.size
  have hleft := h.left hnone (by omega)
  rw [← hleft] at hnone ⊢
  exact h'.left hnone (by omega)

/-- The contract of a memory that stays as it is or grows. -/
def leftOrGrown : Contract Halt ExecutionState where
  inv _ := True
  rel := LeftOrGrown
  err h s s' := ∀ status, h = .ret status → LeftOrGrown s s'
  refl _ := .of_eq rfl
  trans := LeftOrGrown.trans
  err_of_rel h h' status hstatus := h.trans (h' status hstatus)

omit [Env] in
/-- Nothing is asked of a fault. -/
theorem leftOrGrown_fault (f : Fault) (s s' : ExecutionState) :
    leftOrGrown.err (.fault f) s s' := fun _ h => Halt.noConfusion h

/-- A growth that ends makes the memory larger, or leaves it. -/
theorem leftOrGrown_growMemory (newSize : Nat) :
    leftOrGrown.Holds (growMemory newSize) fun _ => True := by
  intro s _
  unfold growMemory
  simp only [sat_bind, sat_read, sat_memoryCost, sat_subGas', sat_ite, sat_pure]
  split
  case isFalse => exact leftOrGrown_fault _ _ _
  split
  case isFalse => exact leftOrGrown_fault _ _ _
  split
  case isFalse => exact leftOrGrown_fault _ _ _
  refine ⟨fun _ => ⟨trivial, trivial, .of_eq rfl⟩, fun _ => ?_⟩
  refine (sat_memoryGrow _).mono (fun _ s' hgrown => ?_) fun h s' hfault => ?_
  · obtain ⟨-, hlarger, hsize, -⟩ := hgrown
    rw [sat_log]
    simp only at hlarger
    exact ⟨trivial, trivial, by simp only; omega, fun _ heq => by simp only at heq; omega⟩
  · rcases hfault.1 with rfl | rfl <;> exact leftOrGrown_fault _ _ _

/-- The parts of the implementations leave the memory as it is or let it grow. -/
theorem prim_leftOrGrown {α : Type} {e : Effects} {x : Core α} {Q : α → Prop} (h : Prim e α x Q) :
    leftOrGrown.Holds x fun _ => True := by
  refine prim_ofMemory (fun hsame s _ => ?_) leftOrGrown_growMemory (fun offset len s _ => ?_) h
  · exact (hsame s).mono (fun _ _ heq => ⟨trivial, trivial, .of_eq heq⟩)
      fun _ _ heq status hstatus => .of_eq (heq status hstatus)
  · -- A write through `NULL` is a fault.
    rw [sat_access]
    cases hdata : s.memory.mData with
    | none => exact leftOrGrown_fault _ _ _
    | some data =>
        simp only
        split
        · refine fun _ => ⟨trivial, le_refl _, fun hnone => ?_⟩
          rw [hdata] at hnone
          cases hnone
        · exact leftOrGrown_fault _ _ _

omit [Env] in
/-- The bookkeeping of a step is not about the memory. -/
theorem leftOrGrown_bookkept : Bookkept leftOrGrown.Along where
  refl _ _ := ⟨trivial, .of_eq rfl⟩
  trans h h' _ := ⟨trivial, (h trivial).2.trans (h' trivial).2⟩
  gas _ _ _ := ⟨trivial, .of_eq rfl⟩
  see _ _ _ := ⟨trivial, .of_eq rfl⟩
  slot _ _ _ := ⟨trivial, .of_eq rfl⟩

/-- Every function of the table leaves the memory or makes it larger. -/
theorem InstrFn.leftOrGrown (fn : InstrFn) (hdup : fn ≠ .opDup 0) :
    fn.shape.CoreMovesOr leftOrGrown.Along fun _ _ => True :=
  coreMovesOr (fun _ _ _ _ => prim_leftOrGrown) (fun status _ _ h => ⟨trivial, h status rfl⟩) hdup

/-! ### The result -/

/-- A successful run is reported as out of memory when it has an output and no buffer for it. -/
theorem sat_makeResult {s : ExecutionState} (hstatus : s.status = .success) :
    Sat makeResult s
      (fun r _ => r.statusCode = .outOfMemory ↔
        s.outputSize ≠ 0 ∧ Env.allocates s.fresh s.outputSize = false)
      fun _ _ => ¬ (s.outputSize ≠ 0 ∧ Env.allocates s.fresh s.outputSize = false) := by
  have hother : StatusCode.success = .outOfMemory ↔ False := iff_of_false (by decide) id
  unfold makeResult evmcMakeResult
  simp only [sat_bind, sat_get, sat_ite, sat_fault, sat_pure, sat_nextFresh, hstatus, hother]
  refine ⟨fun hassert hrefused => hassert (Or.inl hrefused.1), fun _ => ⟨fun hout =>
    ⟨fun hrefused => ?_, fun hallocates => ?_⟩, fun hout => ?_⟩⟩
  · simpa [hout] using hrefused
  · have hnot : ¬ (s.outputSize ≠ 0 ∧ Env.allocates s.fresh s.outputSize = false) := by
      simpa [hout] using hallocates
    exact (sat_trivial _ _).mono (fun _ _ _ => ⟨False.elim, hnot⟩) fun _ _ _ => hnot
  · have hnot : ¬ (s.outputSize ≠ 0 ∧ Env.allocates s.fresh s.outputSize = false) := by
      simp [not_not.1 hout]
    exact (sat_trivial _ _).mono (fun _ _ _ => ⟨False.elim, hnot⟩) fun _ _ _ => hnot

variable {rev : Revision} {hostCtx : MockedHost} {msg : Message} {code : List Byte}
  {analysis : CodeAnalysis} {c : Config}

/-- No instruction sets the status of the state. -/
theorem Runs.status (h : Runs rev hostCtx msg code analysis c) (hstuck : ∀ f, c.pc ≠ .stuck f) :
    c.astate.estate.status = .success := by
  obtain ⟨hanalyze, hrun⟩ := h
  have hanalysis := analyze_ok hanalyze
  subst hanalysis
  have hbookkept : Bookkept fun s s' : ExecutionState => s'.status = s.status :=
    ⟨fun _ => rfl, fun h h' => h'.trans h, fun _ _ => rfl, fun _ _ => rfl, fun _ _ => rfl⟩
  exact run_relation hbookkept (fun fn hdup => (InstrFn.coreMoves_of_frame
    (fun _ _ _ _ h => h.status) hdup).or fun _ _ _ => trivial) hrun hstuck

/-- A run may go on. -/
theorem Runs.trans {c' : Config} (h : Runs rev hostCtx msg code analysis c)
    (h' : Reaches (stepInstr analysis) c c') : Runs rev hostCtx msg code analysis c' :=
  ⟨h.1, h.2.trans h'⟩

/-- A run ends with `EVMC_OUT_OF_MEMORY` only when the buffer of its output is refused. -/
theorem StopsOutOfMemory.endsRefused (h : Runs rev hostCtx msg code analysis c)
    (hstops : StopsOutOfMemory analysis c) : EndsRefused analysis c := by
  obtain ⟨hleft, c', r, s, hreach, hnull, hresult, hstatus⟩ := hstops
  obtain ⟨hstuck, hmemory⟩ := hleft c' hreach
  have hrefused := ((sat_makeResult ((h.trans hreach).status hstuck)).of_ok hresult).1 hstatus
  exact ⟨c', hreach, hnull, by rw [hmemory], hrefused⟩

/-- Without a data pointer, a memory that does not grow up to the end of the loop is left alone on
the way. -/
theorem EndsRefused.stops (h : Runs rev hostCtx msg code analysis c)
    (hfailed : c.astate.estate.memory.mData = none) (hrefused : EndsRefused analysis c) :
    StopsOutOfMemory analysis c := by
  obtain ⟨c', hreach, hnull, hsize, hout⟩ := hrefused
  have hanalysis := analyze_ok h.1
  subst hanalysis
  have hfinal : Final (stepInstr (analyzeCode rev code)) c' := by
    unfold Final stepInstr
    rw [hnull]
  have hmove : ∀ {a b : Config}, Reaches (stepInstr (analyzeCode rev code)) a b →
      (∀ f, b.pc ≠ .stuck f) → LeftOrGrown a.astate.estate b.astate.estate := fun hab hb =>
    (run_relation leftOrGrown_bookkept InstrFn.leftOrGrown hab hb trivial).2
  -- The memory is nowhere larger, so it is nowhere allocated on the way.
  refine ⟨fun d hd => ?_, ?_⟩
  · have hdc : Reaches (stepInstr (analyzeCode rev code)) d c' := by
      rcases hreach.total hd with hcd | hdc
      · rw [hcd.eq_of_final hfinal]
        exact Reaches.refl _
      · exact hdc
    have hstuck : ∀ f, d.pc ≠ .stuck f := fun f hf => by
      have hd : Final (stepInstr (analyzeCode rev code)) d := by
        unfold Final stepInstr
        rw [hf]
      rw [hdc.eq_of_final hd, hf] at hnull
      cases hnull
    have hbefore := hmove hd hstuck
    have hafter := hmove hdc fun f => by simp [hnull]
    have hle := hbefore.size
    have hle' := hafter.size
    exact ⟨hstuck, hbefore.left hfailed (by omega)⟩
  -- The copy of the output is refused, and the result says so.
  · have hresult := sat_makeResult ((h.trans hreach).status fun f => by simp [hnull])
    cases hrun : makeResult c'.astate.estate with
    | ok r s => exact ⟨c', r, s, hreach, hnull, hrun, (hresult.of_ok hrun).2 hout⟩
    | error e s => exact absurd hout (hresult.of_error hrun)

/-! ### The step to the output -/

omit [Env] in
/-- The bookkeeping of a step keeps a sound memory. -/
theorem soundContract_bookkept : Bookkept soundContract.Along where
  refl _ hs := ⟨hs, trivial⟩
  trans h h' hs := ⟨(h' (h hs).1).1, trivial⟩
  gas _ _ hs := ⟨hs, trivial⟩
  see _ _ hs := ⟨hs, trivial⟩
  slot _ _ hs := ⟨hs, trivial⟩

/-- A run that is not stuck has a sound memory. -/
theorem Runs.memorySound (h : Runs rev hostCtx msg code analysis c) (hstuck : ∀ f, c.pc ≠ .stuck f) :
    c.astate.estate.memory.Sound := by
  obtain ⟨hanalyze, hrun⟩ := h
  have hanalysis := analyze_ok hanalyze
  subst hanalysis
  have hcore : ∀ fn : InstrFn, fn ≠ .opDup 0 →
      fn.shape.CoreMovesOr soundContract.Along fun _ _ => True := fun fn hdup =>
    InstrFn.coreMovesOr (fun _ _ _ _ => prim_sound) (fun status _ _ h => ⟨h status rfl, trivial⟩) hdup
  refine (run_relation soundContract_bookkept hcore hrun hstuck ⟨rfl, ?_, fun h => absurd rfl h⟩).1
  show 0 < 2 ^ 37
  decide

/-- Without a data pointer, a run that is not stuck has no memory. -/
theorem Runs.mSize_eq_zero (h : Runs rev hostCtx msg code analysis c)
    (hstuck : ∀ f, c.pc ≠ .stuck f) (hfailed : c.astate.estate.memory.mData = none) :
    c.astate.estate.memory.mSize = 0 := by
  by_contra hsize
  exact (h.memorySound hstuck).data hsize hfailed

/-- The check of a range of the memory passes, and does not have to grow it. -/
def RangePasses (s : ExecutionState) (offset size : Uint256) : Prop :=
  offsetTooLarge offset = false ∧ (offset.low + size.low) % 2 ^ 64 ≤ s.memory.mSize

omit [Env] in
/-- The low limb of the size 0. -/
theorem low_of_zero256 {x : Uint256} (h : zero256 x = true) : x.low = 0 := by
  unfold zero256 zero128 at h
  simp only [Bool.and_eq_true, beq_iff_eq] at h
  rw [Uint256.low, h.1.1]
  rfl

/-- A check that does not grow the memory leaves the stack alone. One that fails leaves the output
alone, and would have had to grow the memory. -/
theorem sat_checkMemoryU256_left {s : ExecutionState} (offset size : Uint256) :
    Sat (checkMemoryU256 offset size) s
      (fun ok s' => match ok with
        | true => s.memory.mSize < s'.memory.mSize ∨
            (size.low = 0 ∨ RangePasses s offset size) ∧ s'.fresh = s.fresh ∧
              s'.stackSpace = s.stackSpace
        | false => s'.outputSize = s.outputSize ∧ ¬ RangePasses s offset size)
      fun h _ => ∀ status, h ≠ .ret status := by
  have hlarge : offsetTooLarge offset = true → ¬ RangePasses s offset size := fun h hfits => by
    rw [hfits.1] at h
    cases h
  unfold checkMemoryU256 checkMemoryU64
  simp only [sat_ite, sat_pure, sat_bind, sat_read, sat_log]
  -- A size of 0, a large offset, a large size, a range past the end, a range inside.
  refine ⟨fun hzero => Or.inr ⟨Or.inl (low_of_zero256 hzero), trivial, trivial⟩, fun _ =>
    ⟨fun h => ⟨trivial, hlarge h⟩, fun hoffset => ⟨fun h => ⟨trivial, hlarge h⟩, fun _ =>
      ⟨fun hgrow => ?_, fun hfits => ?_⟩⟩⟩⟩
  · have hgrow' : s.memory.mSize < (offset.low + size.low) % 2 ^ 64 := hgrow
    have hgrow : ({ s with trace := s.trace ++ [.memRange offset.low size.low] } :
        ExecutionState).memory.mSize < (offset.low + size.low) % 2 ^ 64 := hgrow
    -- Either the memory grows, or the gas does not suffice.
    refine (sat_growMemory hgrow (Nat.mod_lt _ (by decide))).mono (fun ok s' h => ?_)
      fun h s' hf => ?_
    · cases ok with
      | true => exact Or.inl (lt_of_lt_of_le hgrow' h.2)
      | false =>
          have hsame := h.1.same
          unfold SameButMemory at hsame
          exact ⟨by rw [hsame], fun hfits => absurd hfits.2 (Nat.not_le.2 hgrow')⟩
    · rcases hf.2 with rfl | rfl | rfl <;> exact nofun
  · exact Or.inr ⟨Or.inr ⟨Bool.eq_false_iff.2 hoffset, Nat.le_of_not_lt hfits⟩, trivial, trivial⟩

/-- The step to the output either grows the memory, or publishes the size, or fails in a check that
would have had to grow the memory. -/
theorem sat_publishOutput_left {s : ExecutionState} (top : StackTop) :
    Sat (publishOutput top) s
      (fun _ s' => s.memory.mSize < s'.memory.mSize ∨
        s'.outputSize = (s.stackSpace (top - 1)).low ∧ s'.fresh = s.fresh ∧
          ((s.stackSpace (top - 1)).low = 0 ∨
            RangePasses s (s.stackSpace top) (s.stackSpace (top - 1))))
      fun h s' => ∀ status, h = .ret status → s'.outputSize = s.outputSize ∧
        ¬ RangePasses s (s.stackSpace top) (s.stackSpace (top - 1)) := by
  have hzero : top - 0 = top := Int.sub_zero top
  unfold publishOutput StackTop.get requireMemoryU256
  rw [hzero]
  simp only [sat_bind, sat_load]
  by_cases htop : inStackSpace top
  case neg =>
    rw [if_neg htop]
    exact nofun
  simp only [if_pos htop]
  split
  case isFalse => exact nofun
  refine (sat_checkMemoryU256_left _ _).mono (fun ok s₁ h => ?_) fun _ _ h status heq =>
    absurd heq (h status)
  -- A check that fails ends the run; one that passes publishes the range.
  cases ok with
  | false => exact fun _ _ => h
  | true =>
      simp only [Bool.not_true, Bool.false_eq_true, if_false, sat_pure, sat_load, sat_modify, sat_ite,
        sat_bind, sat_read, sat_log, if_pos htop]
      have hgoal : s.memory.mSize < s₁.memory.mSize ∨
          (s₁.stackSpace (top - 1)).low = (s.stackSpace (top - 1)).low ∧ s₁.fresh = s.fresh ∧
            ((s.stackSpace (top - 1)).low = 0 ∨
              RangePasses s (s.stackSpace top) (s.stackSpace (top - 1))) :=
        h.imp_right fun ⟨hfits, hfresh, hstack⟩ => ⟨by rw [hstack], hfresh, hfits⟩
      exact ⟨fun _ => hgoal, fun _ => hgoal⟩

/-- A step to the output has grown the memory, or has published the size of a range that fits, or has
failed for a range that does not fit. -/
def Published (s : ExecutionState) (top : StackTop) (s' : ExecutionState) : Prop :=
  s.memory.mSize < s'.memory.mSize ∨
    (s'.outputSize = (s.stackSpace (top - 1)).low ∧ s'.fresh = s.fresh ∧
      ((s.stackSpace (top - 1)).low = 0 ∨
        RangePasses s (s.stackSpace top) (s.stackSpace (top - 1)))) ∨
    s'.outputSize = s.outputSize ∧ ¬ RangePasses s (s.stackSpace top) (s.stackSpace (top - 1))

/-- `RETURN` and `REVERT` end the run, whether their check passes or not. -/
theorem InstrFn.sat_published {fn : InstrFn} (hset : fn.setsOutput) (analysis : CodeAnalysis)
    (instr : Nat) (arg : InstructionArgument) (s : AdvancedExecutionState) :
    Sat (fn.call analysis instr arg) s
      (fun next s' => next = none ∧ Published s.estate s.topItem s'.estate) fun _ _ => True := by
  have hbody : ∀ status, Sat (opTerminate fun top => do publishOutput top; return status) s
      (fun next s' => next = none ∧ Published s.estate s.topItem s'.estate) fun _ _ => True := by
    intro status
    rw [sat_opTerminate, sat_bind]
    refine (sat_publishOutput_left s.topItem).mono (fun _ _ h => ⟨rfl, h.imp_right Or.inl⟩)
      fun h s' hfails => ?_
    cases h with
    | ret status => exact ⟨rfl, Or.inr (Or.inr (hfails status rfl))⟩
    | fault f => trivial
  rcases hset with rfl | rfl
  · exact hbody .success
  · exact hbody .revert

/-- So a step of them is stuck or the last one. -/
theorem step_published {fn : InstrFn} (hset : fn.setsOutput) (hfn : c.fn? analysis = some fn)
    {c' : Config} (h : stepInstr analysis c = some c') :
    (∃ f, c'.pc = .stuck f) ∨
      c'.pc = .null ∧ Published c.astate.estate c.astate.topItem c'.astate.estate := by
  unfold Config.fn? at hfn
  cases hpc : c.pc with
  | null | stuck => simp [hpc] at hfn
  | «at» i =>
      rw [hpc] at hfn
      obtain ⟨ins, hins, hfn⟩ := Option.bind_eq_some_iff.1 hfn
      rcases stepInstr_at hpc hins hfn h with ⟨next, hcall, hnext⟩ | ⟨f, -, hstuck⟩
      · obtain ⟨rfl, hpublished⟩ := (InstrFn.sat_published hset analysis i ins.arg c.astate).of_ok hcall
        exact Or.inr ⟨hnext, hpublished⟩
      · exact Or.inl ⟨f, hstuck⟩

/-- The step that ends the run has set the output. -/
theorem published_of_null {fn : InstrFn} (hset : fn.setsOutput) (hfn : c.fn? analysis = some fn)
    {c' : Config} (h : stepInstr analysis c = some c') (hnull : c'.pc = .null) :
    Published c.astate.estate c.astate.topItem c'.astate.estate := by
  rcases step_published hset hfn h with ⟨f, hf⟩ | ⟨-, hpublished⟩
  · rw [hf] at hnull
    cases hnull
  · exact hpublished

/-- The other functions leave the size of the output as it is. -/
theorem step_outputSize {c' : Config} (h : stepInstr (analyzeCode rev code) c = some c')
    (hnot : ∀ fn, c.fn? (analyzeCode rev code) = some fn → ¬ fn.setsOutput) :
    c'.astate.estate.outputSize = c.astate.estate.outputSize := by
  have hbookkept : Bookkept fun s s' : ExecutionState => s'.outputSize = s.outputSize :=
    ⟨fun _ => rfl, fun h h' => h'.trans h, fun _ _ => rfl, fun _ _ => rfl, fun _ _ => rfl⟩
  cases hfn : c.fn? (analyzeCode rev code) with
  | none => rw [stepInstr_none hfn h]
  | some fn =>
      exact stepInstr_moves hbookkept hfn (InstrFn.coreMoves_of_frame
        (fun _ _ _ _ hframe => hframe.output (hnot fn hfn)) (fn?_ne_dup_zero hfn)) h

/-- While the run goes on, there is no output. -/
theorem Runs.outputSize_eq_zero (h : Runs rev hostCtx msg code analysis c) {i : Nat}
    (hpc : c.pc = .at i) : c.astate.estate.outputSize = 0 := by
  obtain ⟨hanalyze, hrun⟩ := h
  have hanalysis := analyze_ok hanalyze
  subst hanalysis
  refine hrun.invariant (I := fun c => ∀ i, c.pc = .at i → c.astate.estate.outputSize = 0)
    (fun a b ha hab i hb => ?_) (fun _ _ => rfl) i hpc
  have hzero : a.astate.estate.outputSize = 0 := by
    cases hpca : a.pc with
    | «at» k => exact ha k hpca
    | null | stuck => simp [stepInstr, hpca] at hab
  rw [step_outputSize hab fun fn hfn hset => ?_, hzero]
  rcases step_published hset hfn hab with ⟨f, hf⟩ | ⟨hnull, -⟩
  · rw [hf] at hb
    cases hb
  · rw [hnull] at hb
    cases hb

/-- A run that ends with an output has a last step, which is a `RETURN` or a `REVERT`. -/
theorem Runs.exists_last (h : Runs rev hostCtx msg code analysis c) (hnull : c.pc = .null)
    (hout : c.astate.estate.outputSize ≠ 0) : ∃ d fn, Runs rev hostCtx msg code analysis d ∧
      stepInstr analysis d = some c ∧ d.fn? analysis = some fn ∧ fn.setsOutput ∧
      d.astate.estate.outputSize = 0 := by
  have hanalysis := analyze_ok h.1
  subst hanalysis
  rcases Relation.ReflTransGen.cases_tail h.2 with heq | ⟨d, hd, hstep⟩
  · rw [heq] at hnull
    cases hnull
  · have hstep : stepInstr (analyzeCode rev code) d = some c := hstep
    have hd : Runs rev hostCtx msg code (analyzeCode rev code) d := ⟨h.1, hd⟩
    have hzero : d.astate.estate.outputSize = 0 := by
      cases hpc : d.pc with
      | «at» k => exact hd.outputSize_eq_zero hpc
      | null | stuck => simp [stepInstr, hpc] at hstep
    by_contra hnone
    refine hout ((step_outputSize hstep fun fn hfn hset => hnone ?_).trans hzero)
    exact ⟨d, fn, hd, hstep, hfn, hset, hzero⟩

/-! ### When it goes on so -/

/-- The memory does not shrink. -/
theorem step_mSize {c' : Config} (h : stepInstr (analyzeCode rev code) c = some c')
    (hstuck : ∀ f, c'.pc ≠ .stuck f) :
    c.astate.estate.memory.mSize ≤ c'.astate.estate.memory.mSize := by
  have hrel := (step_relation leftOrGrown_bookkept InstrFn.leftOrGrown h).resolve_right fun ⟨f, hf⟩ =>
    hstuck f hf
  exact (hrel trivial).2.size

/-- A last step without memory that leaves an output has operands that wrap. -/
theorem Published.wraps {s s' : ExecutionState} {top : StackTop} (h : Published s top s')
    (hsize : s.memory.mSize = 0) (hsize' : s'.memory.mSize = 0) (hzero : s.outputSize = 0)
    (hout : s'.outputSize ≠ 0) (hrefused : Env.allocates s'.fresh s'.outputSize = false) :
    OutputWraps s top := by
  rcases h with hgrown | ⟨hpublished, hfresh, hfits⟩ | ⟨hsame, -⟩
  · omega
  · rw [hpublished] at hout hrefused
    rw [hfresh] at hrefused
    obtain ⟨hoffset, hle⟩ := hfits.resolve_left hout
    have hlow : (s.stackSpace top).low < 2 ^ 64 := (s.stackSpace top).lower.lower.isLt
    have hlow' : (s.stackSpace (top - 1)).low < 2 ^ 64 := (s.stackSpace (top - 1)).lower.lower.isLt
    exact ⟨hoffset, hout, by omega, hrefused⟩
  · exact absurd (hsame.trans hzero) hout

/-- A last step whose operands wrap leaves its output. -/
theorem OutputWraps.published {s s' : ExecutionState} {top : StackTop} (h : OutputWraps s top)
    (hstep : Published s top s') (hsize : s'.memory.mSize = 0) :
    s'.outputSize = (s.stackSpace (top - 1)).low ∧ s'.fresh = s.fresh := by
  have hfits : RangePasses s (s.stackSpace top) (s.stackSpace (top - 1)) := by
    refine ⟨h.offset, ?_⟩
    rw [h.sum, Nat.mod_self]
    exact Nat.zero_le _
  rcases hstep with hgrown | ⟨hpublished, hfresh, -⟩ | ⟨-, hnot⟩
  · omega
  · exact ⟨hpublished, hfresh⟩
  · exact absurd hfits hnot

/-- A run that stops out of memory does so through its output. -/
theorem StopsOutOfMemory.outputRefused (h : Runs rev hostCtx msg code analysis c)
    (hfailed : c.astate.estate.memory.mData = none) (hstops : StopsOutOfMemory analysis c) :
    OutputRefused rev hostCtx msg code analysis c := by
  have hanalysis := analyze_ok h.1
  subst hanalysis
  refine ⟨fun a b ha hab => ?_, ?_⟩
  · rw [(hstops.1 b (ha.tail hab)).2, (hstops.1 a ha).2]
  · obtain ⟨c', hreach, hnull, hsize, hout, hrefused⟩ := hstops.endsRefused h
    obtain ⟨d, fn, hd, hstep, hfn, hset, hzero⟩ := (h.trans hreach).exists_last hnull hout
    have hempty := h.mSize_eq_zero (hstops.1 c (Reaches.refl c)).1 hfailed
    have hle := step_mSize hstep fun f => by simp [hnull]
    have hwraps := (published_of_null hset hfn hstep hnull).wraps (by omega) (by omega) hzero hout
      hrefused
    refine ⟨d, c', hd, hstep, hnull, ?_, hwraps⟩
    rcases hset with rfl | rfl
    · exact Or.inl hfn
    · exact Or.inr hfn

/-- Steps that do not grow the memory leave its size as it is. -/
theorem mSize_eq_of_reaches {c' : Config} (hleft : ∀ a b, Reaches (stepInstr analysis) c a →
      stepInstr analysis a = some b →
      b.astate.estate.memory.mSize = a.astate.estate.memory.mSize)
    (h : Reaches (stepInstr analysis) c c') :
    c'.astate.estate.memory.mSize = c.astate.estate.memory.mSize := by
  induction h with
  | refl => rfl
  | tail hab hbd ih => exact (hleft _ _ hab hbd).trans ih

/-- An output that wraps has its buffer refused at the end of the loop. -/
theorem OutputRefused.endsRefused (h : Runs rev hostCtx msg code analysis c)
    (hfailed : c.astate.estate.memory.mData = none)
    (hrefused : OutputRefused rev hostCtx msg code analysis c) : EndsRefused analysis c := by
  have hanalysis := analyze_ok h.1
  subst hanalysis
  obtain ⟨hleft, d, c', hd, hstep, hnull, hfn, hwraps⟩ := hrefused
  have hfinal : Final (stepInstr (analyzeCode rev code)) c' := by
    unfold Final stepInstr
    rw [hnull]
  -- The run through `c` and the run through `d` are parts of each other, and the second one ends.
  have hreach : Reaches (stepInstr (analyzeCode rev code)) c c' := by
    rcases h.2.total (hd.2.tail hstep) with hreach | hreach
    · exact hreach
    · rw [hreach.eq_of_final hfinal]
      exact Reaches.refl _
  have hstuck : ∀ f, c.pc ≠ .stuck f := fun f hf => by
    have hc : Final (stepInstr (analyzeCode rev code)) c := by
      unfold Final stepInstr
      rw [hf]
    rw [hreach.eq_of_final hc, hf] at hnull
    cases hnull
  have hsize := mSize_eq_of_reaches hleft hreach
  have hempty := h.mSize_eq_zero hstuck hfailed
  obtain ⟨fn, hset, hfn⟩ : ∃ fn : InstrFn, fn.setsOutput ∧ d.fn? (analyzeCode rev code) = some fn :=
    hfn.elim (fun hfn => ⟨_, Or.inl rfl, hfn⟩) fun hfn => ⟨_, Or.inr rfl, hfn⟩
  obtain ⟨hout, hfresh⟩ :=
    hwraps.published (published_of_null hset hfn hstep hnull) (by omega)
  exact ⟨c', hreach, hnull, hsize, by rw [hout]; exact hwraps.size,
    by rw [hout, hfresh]; exact hwraps.refused⟩

/-- Behind a failed allocation, the run stops with `EVMC_OUT_OF_MEMORY` exactly when no step grows
the memory and the last one is a `RETURN` or a `REVERT` whose operands wrap, so that the memory check
passes without memory, and whose own buffer is refused. -/
theorem run_outOfMemory_iff (h : Runs rev hostCtx msg code analysis c)
    (hfailed : c.astate.estate.memory.mData = none) :
    StopsOutOfMemory analysis c ↔ OutputRefused rev hostCtx msg code analysis c :=
  ⟨fun hstops => hstops.outputRefused h hfailed, fun hrefused =>
    (hrefused.endsRefused h hfailed).stops h hfailed⟩

end

/-- Every allocation of EVM memory and of an output fails. -/
@[reducible] def Env.noMemory : Env := { Env.zeroed with allocates := fun _ _ => false }

/-- A `RETURN` of `2 ^ 64 - 32` bytes from the offset 32 on. -/
def wrapCode : List Byte := [0x67, 0xff, 0xff, 0xff, 0xff, 0xff, 0xff, 0xff, 0xe0, 0x60, 0x20, 0xf3]

/-- The start of the run on it. -/
def wrapStart [Env] : Config :=
  initialConfig .london (mockedHostInit default) { (default : Message) with gas := 1000 } wrapCode

/-- The allocation fails at the start, the memory check of the `RETURN` passes for the sum 0, and the
run stops with `EVMC_OUT_OF_MEMORY`, for lack of a buffer of `2 ^ 64 - 32` bytes. -/
theorem run_outOfMemory_iff_wraps :
    let _ : Env := Env.noMemory
    StopsOutOfMemory (analyzeCode .london wrapCode) wrapStart ∧
      OutputRefused .london (mockedHostInit default) { (default : Message) with gas := 1000 } wrapCode
        (analyzeCode .london wrapCode) wrapStart := by
  intro _
  have hruns : Runs .london (mockedHostInit default) { (default : Message) with gas := 1000 } wrapCode
      (analyzeCode .london wrapCode) wrapStart := ⟨analyze_eq .london (by decide), Reaches.refl _⟩
  have hfailed : wrapStart.astate.estate.memory.mData = none := rfl
  have hends : EndsRefused (analyzeCode .london wrapCode) wrapStart :=
    ⟨_, reaches_iterate _ 4 _, by with_unfolding_all decide, by with_unfolding_all decide,
      by with_unfolding_all decide, rfl⟩
  have hrefused := (hends.stops hruns hfailed).outputRefused hruns hfailed
  exact ⟨(run_outOfMemory_iff hruns hfailed).2 hrefused, hrefused⟩

/-- An `MSTORE`. -/
def mstoreCode : List Byte := [0x60, 0, 0x60, 0, 0x52]

/-- The `MSTORE` fills memory at `NULL`. -/
theorem run_outOfMemory_iff_mstore :
    let _ : Env := Env.noMemory
    ¬ StopsOutOfMemory (analyzeCode .london mstoreCode)
      (initialConfig .london (mockedHostInit default) { (default : Message) with gas := 1000 }
        mstoreCode) := by
  intro _ hstops
  exact (hstops.1 _ (reaches_iterate _ 4 _)).1 .nullPointer (by with_unfolding_all decide)

end TscVee
