import TscVee.Proofs.MemoryContents
import TscVee.Proofs.RunRules
import TscVee.Proofs.WordRules

/-!
# `TscVee.Proofs.ReturnData`: the buffer of the returned data

`return_data` is a pointer without a buffer. It is `NULL` at the start, and the instructions that
reach the host set it to `NULL` again and then write to it. So it never points to a byte, and
`strlen` of it is not defined.

* `SizeRule`, `CopyRule`: what the two readers should do with the data that a call has returned.
* `Runs.returnData`: the pointer is `NULL` in every state of a run.
* `returnData_iff`: so `RETURNDATASIZE` never follows its rule, and `RETURNDATACOPY` does where its
  memory check refuses it.
-/

set_option autoImplicit false

namespace TscVee

open TscVee.Core Lib

/-- `RETURNDATASIZE` pushes the length of the buffer. -/
def SizeRule (buffer : List Byte) (top : StackTop) (s : ExecutionState) : Prop :=
  Sat (returndatasize top) s
    (fun _ s' => s'.stackSpace (top + 1) = .ofU64 (BitVec.ofNat 64 buffer.length)) fun _ _ => False

section
variable [Env]

/-- `RETURNDATACOPY` copies a range of the buffer, and refuses another range. It may run out of
gas. -/
def CopyRule (buffer : List Byte) (top : StackTop) (s : ExecutionState) : Prop :=
  let dest := (s.stackSpace top).toNat
  let index := (s.stackSpace (top - 1)).toNat
  let size := (s.stackSpace (top - 2)).toNat
  Sat (returndatacopy top) s
    (fun _ s' => index + size ≤ buffer.length ∧ s'.memory.contents =
      s.memory.contents.overwrite dest size fun j => buffer.getD (index + j) 0)
    fun h _ => h = .ret .outOfGas ∨ h = .ret .invalidMemoryAccess ∧ buffer.length < index + size

/-- The memory check of `RETURNDATACOPY` runs out of gas. -/
def CopyRefused (top : StackTop) (s : ExecutionState) : Prop :=
  ∃ s', requireMemoryU256 (s.stackSpace top) (s.stackSpace (top - 2)) s = .error (.ret .outOfGas) s'

/-! ### The pointer -/

/-- The contract of a pointer that is `NULL`. -/
def noReturnData : Contract Halt ExecutionState :=
  .keeps (fun s => s.returnData = none) fun h s' => ∀ status, h = .ret status → s'.returnData = none

variable {α : Type} {s s' : ExecutionState} {top : StackTop}

omit [Env] in
/-- A program whose ends have the pointer of its start. -/
theorem noReturnData_of_same {x : Core α}
    (h : ∀ s, Sat x s (fun _ s' => s'.returnData = s.returnData) fun h s' =>
      ∀ status, h = .ret status → s'.returnData = s.returnData) :
    noReturnData.Holds x fun _ => True := by
  intro s hs
  refine (h s).mono (fun _ s' heq => ⟨trivial, ?_, trivial⟩) fun e s' heq status hstatus => ?_
  · exact heq.trans hs
  · exact (heq status hstatus).trans hs

omit [Env] in
/-- An access to EVM memory leaves the return data. -/
theorem sat_access_returnData (offset len : Nat) :
    Sat (access offset len) s (fun _ s' => s'.returnData = s.returnData) fun h s' =>
      ∀ status, h = .ret status → s'.returnData = s.returnData := by
  rw [sat_access]
  split
  · exact fun _ _ => rfl
  · split
    · rfl
    · exact fun _ _ => rfl

omit [Env] in
/-- A memory check leaves the pointer. -/
theorem SameButMemory.returnData (h : SameButMemory s s') : s'.returnData = s.returnData := by
  rw [h]

/-- No part of an implementation sets the pointer to a buffer. -/
theorem prim_noReturnData {e : Effects} {x : Core α} {Q : α → Prop} (h : Prim e α x Q) :
    noReturnData.Holds x fun _ => True := by
  -- Only the drop writes the pointer, and it writes NULL.
  cases h with
  | dropReturnData => exact fun s _ => ⟨trivial, rfl, trivial⟩
  | read | ret | nextFresh | setOutputSize | setOutputOffset | logAccess =>
      exact noReturnData_of_same fun s => by first | rfl | exact fun _ _ => rfl
  | fault f => exact noReturnData_of_same fun s _ _ => rfl
  | load p | store p =>
      refine noReturnData_of_same fun s => ?_
      simp only [sat_load, sat_store]
      split <;> simp [ExecutionState.setSlot]
  | ask op =>
      refine noReturnData_of_same fun s => ?_
      rw [sat_ask]
      exact (sat_trivial _ _).mono (fun _ _ _ => rfl) fun _ _ _ _ _ => rfl
  | refuseStatic =>
      refine noReturnData_of_same fun s => ?_
      rw [sat_refuseStatic]
      split <;> simp
  | int64 | chargeGas | subGas | setGas =>
      refine noReturnData_of_same fun s => ?_
      simp only [sat_int64, sat_chargeGas, sat_subGas', sat_setGas]
      repeat' split
      all_goals simp
  | requireMemoryU64 offset size =>
      refine noReturnData_of_same fun s => ?_
      exact (sat_requireMemoryU64 offset size).mono (fun _ _ h => h.1.same.returnData)
        fun _ _ h _ _ => h.1.same.returnData
  | requireMemoryU256 offset size =>
      refine noReturnData_of_same fun s => ?_
      refine (sat_requireMemoryU256 offset size).mono (fun _ s' h => ?_)
        fun _ _ h _ _ => h.1.same.returnData
      rcases h with ⟨-, rfl⟩ | ⟨-, hchecked, -⟩
      · rfl
      · exact hchecked.same.returnData
  | memoryPtr offset len =>
      refine noReturnData_of_same fun s => ?_
      rw [sat_memoryPtr]
      rfl
  | readMemory offset len =>
      refine noReturnData_of_same fun s => ?_
      rw [sat_readMemory]
      split
      · rfl
      · exact sat_access_returnData offset len
  | writeMemory offset bytes =>
      refine noReturnData_of_same fun s => ?_
      rw [sat_writeMemory]
      split
      · rfl
      · exact (sat_access_returnData offset _).mono (fun _ _ h => h) fun _ _ h => h
  | clearMemory offset len =>
      refine noReturnData_of_same fun s => ?_
      rw [sat_clearMemory]
      split
      · rfl
      · exact (sat_access_returnData offset _).mono (fun _ _ h => h) fun _ _ h => h

omit [Env] in
/-- The bookkeeping of a step leaves the return data. -/
theorem noReturnData_bookkept : Bookkept noReturnData.Along where
  refl _ h := ⟨h, trivial⟩
  trans h h' hs := h' (h hs).1
  gas _ _ h := ⟨h, trivial⟩
  see _ _ h := ⟨h, trivial⟩
  slot _ _ h := ⟨h, trivial⟩

/-- No function of the table sets the return data. -/
theorem InstrFn.noReturnData (fn : InstrFn) (hdup : fn ≠ .opDup 0) :
    fn.shape.CoreMovesOr noReturnData.Along fun _ _ => True :=
  coreMovesOr (fun _ _ _ _ => prim_noReturnData) (fun status _ _ h => ⟨h status rfl, trivial⟩) hdup

/-- The pointer is `NULL` in every state of a run. -/
theorem Runs.returnData {rev : Revision} {hostCtx : MockedHost} {msg : Message} {code : List Byte}
    {analysis : CodeAnalysis} {c : Config} (h : Runs rev hostCtx msg code analysis c)
    (hstuck : ∀ f, c.pc ≠ .stuck f) : c.astate.estate.returnData = none := by
  obtain ⟨hanalyze, hrun⟩ := h
  have hanalysis := analyze_ok hanalyze
  subst hanalysis
  exact (run_relation noReturnData_bookkept InstrFn.noReturnData hrun hstuck rfl).1

/-! ### The readers -/

omit [Env] in
/-- `strlen` of `NULL`. -/
theorem not_sizeRule (hnone : s.returnData = none) (buffer : List Byte) :
    ¬ SizeRule buffer top s := by
  unfold SizeRule returndatasize pushValue returnDataLength
  simp only [sat_bind, sat_read, hnone, sat_fault, not_false_eq_true]

/-- The check passes and the length is not defined, or it is the check that ends the instruction. -/
theorem copyRule_iff (hnone : s.returnData = none) (htop : StackHolds top 3) (buffer : List Byte) :
    CopyRule buffer top s ↔ CopyRefused top s := by
  have hdest := htop.top (by decide)
  have hsize := htop.slot (i := 2) (by decide) (by decide)
  have htwo : top - 1 - 1 = top - 2 := by ring
  have hcheck := sat_requireMemoryU256 (s := s) (s.stackSpace top) (s.stackSpace (top - 2))
  unfold CopyRule CopyRefused returndatacopy returnDataLength
  dsimp only [StackTop.pop]
  rw [htwo]
  simp only [sat_bind, sat_load, if_pos hdest, if_pos hsize]
  constructor
  · intro hrule
    cases hrun : requireMemoryU256 (s.stackSpace top) (s.stackSpace (top - 2)) s with
    | ok a s₁ =>
        have hrest := hrule.of_ok hrun
        have hnone₁ : s₁.returnData = none := by
          rcases hcheck.of_ok hrun with ⟨-, rfl⟩ | ⟨-, hchecked, -⟩
          · exact hnone
          · exact hchecked.same.returnData.trans hnone
        -- The pointer is NULL, so the length is a fault.
        simp only [sat_read, hnone₁, sat_fault, reduceCtorEq, false_and, or_self] at hrest
    | error h s₁ =>
        rcases hrule.of_error hrun with rfl | ⟨hinvalid, -⟩
        · exact ⟨s₁, rfl⟩
        · -- The check itself does not end so.
          rcases (hcheck.of_error hrun).2 with ⟨hgas, -⟩ | ⟨f, hfault, -⟩
          · exact absurd (hinvalid.symm.trans hgas) (by decide)
          · exact absurd (hinvalid.symm.trans hfault) (by simp)
  · rintro ⟨s', hrun⟩
    unfold Sat
    rw [hrun]
    exact .inl rfl

/-- Whatever the buffer should hold, `RETURNDATASIZE` does not push its length in any state of a
run, and `RETURNDATACOPY` follows its rule just where its memory check refuses it. -/
theorem returnData_iff {rev : Revision} {hostCtx : MockedHost} {msg : Message} {code : List Byte}
    {analysis : CodeAnalysis} {c : Config} (h : Runs rev hostCtx msg code analysis c)
    (hstuck : ∀ f, c.pc ≠ .stuck f) (buffer : List Byte) :
    ¬ SizeRule buffer c.astate.topItem c.astate.estate ∧
      (StackHolds c.astate.topItem 3 →
        (CopyRule buffer c.astate.topItem c.astate.estate ↔
          CopyRefused c.astate.topItem c.astate.estate)) :=
  ⟨not_sizeRule (h.returnData hstuck) buffer, fun htop =>
    copyRule_iff (h.returnData hstuck) htop buffer⟩

end

/-- The code `PUSH1 0, PUSH1 0, PUSH1 0, RETURNDATACOPY`. -/
def returnDataCopyCode : List Byte := [0x60, 0, 0x60, 0, 0x60, 0, 0x3e]

/-- No byte of the empty buffer is copied. -/
theorem returnData_iff_copy :
    let _ : Env := Env.zeroed
    let c := iterate (stepInstr (analyzeCode .london returnDataCopyCode)) 4
      (initialConfig .london (mockedHostInit default) { (default : Message) with gas := 1000 }
        returnDataCopyCode)
    c.fn? (analyzeCode .london returnDataCopyCode) = some .opReturndatacopy ∧
      ¬ CopyRule [] c.astate.topItem c.astate.estate := by
  intro _ c
  have hpc : c.pc = .at 4 := by with_unfolding_all decide
  have hiff := (@returnData_iff Env.zeroed .london (mockedHostInit default)
    { (default : Message) with gas := 1000 } returnDataCopyCode _ c
    ⟨@analyze_eq Env.zeroed .london _ (by decide), reaches_iterate _ 4 _⟩
    (fun f hf => Pc.noConfusion (hpc.symm.trans hf)) []).2 (by with_unfolding_all decide)
  refine ⟨by with_unfolding_all decide, fun hrule => ?_⟩
  obtain ⟨s', hrefused⟩ := hiff.1 hrule
  have hpasses : endsOk (requireMemoryU256 (c.astate.estate.stackSpace c.astate.topItem)
      (c.astate.estate.stackSpace (c.astate.topItem - 2))) c.astate.estate = true := by
    with_unfolding_all decide
  obtain ⟨_, _, hok⟩ := exists_of_endsOk hpasses
  cases hok.symm.trans hrefused

/-- Before any call, `RETURNDATASIZE` does not push 0. -/
theorem returnData_iff_start :
    let _ : Env := Env.zeroed
    let c := iterate (stepInstr (analyzeCode .london [0x3d])) 1
      (initialConfig .london (mockedHostInit default) { (default : Message) with gas := 1000 } [0x3d])
    c.fn? (analyzeCode .london [0x3d]) = some .opReturndatasize ∧
      ¬ SizeRule [] c.astate.topItem c.astate.estate :=
  ⟨by with_unfolding_all decide, @not_sizeRule _ _ (by with_unfolding_all decide) []⟩

end TscVee
