import TscVee.Proofs.Control
import TscVee.Proofs.CoreEffects

/-!
# `TscVee.Proofs.RunRules`: from the parts of the implementations to whole runs

* `stepInstr_movesOr`: a step moves the inner state along a relation that the bookkeeping keeps and
  the core implementation moves along, unless it gets stuck.
* `InstrFn.coreMovesOr`: a contract that the parts of the implementations meet, the implementation
  of each instruction function meets.
* `run_relation`: so does every run that is not stuck.
-/

set_option autoImplicit false

namespace TscVee

open TscVee.Core Lib

section
variable [Env] {rev : Revision} {code : List Byte}

/-- The functions of the analysis duplicate items that exist. -/
theorem analyzeCode_fn_ne_dup_zero {ins : Instruction}
    (h : ins ∈ (analyzeCode rev code).instrs) : ins.fn ≠ some (.opDup 0) := by
  rcases analyzeCode_fn_cases rev h with hfn | ⟨opcode, hfn⟩
  · simp [hfn]
  · rw [hfn]
    exact opcodeInfo_ne_dup_zero rev opcode

/-- The instruction function that a configuration runs next. -/
def Config.fn? (analysis : CodeAnalysis) (c : Config) : Option InstrFn :=
  match c.pc with
  | .at instr => analysis.instrs[instr]?.bind Instruction.fn
  | _ => none

/-- A step without an instruction function is stuck. -/
theorem stepInstr_none {analysis : CodeAnalysis} {c c' : Config} (hfn : c.fn? analysis = none)
    (h : stepInstr analysis c = some c') : c'.astate = c.astate := by
  unfold stepInstr callInstr at h
  cases hpc : c.pc with
  | null | stuck => simp [hpc] at h
  | «at» instr =>
      rw [Config.fn?, hpc] at hfn
      rw [hpc] at h
      cases hins : analysis.instrs[instr]? with
      | none =>
          simp only [hins] at h
          exact (congrArg Config.astate (Option.some.inj h)).symm
      | some ins =>
          simp only [hins, Option.bind_some] at h hfn
          simp only [hfn] at h
          exact (congrArg Config.astate (Option.some.inj h)).symm

/-- A step of the function `fn` moves the inner state along a relation that the bookkeeping keeps
and the core implementation moves along, or it gets stuck. -/
theorem stepInstr_movesOr {R F : ExecutionState → ExecutionState → Prop} (hR : Bookkept R)
    (hF : FaultOf R F) {analysis : CodeAnalysis} {c c' : Config} {fn : InstrFn}
    (hfn : c.fn? analysis = some fn) (hcore : fn.shape.CoreMovesOr R F)
    (h : stepInstr analysis c = some c') :
    R c.astate.estate c'.astate.estate ∨
      (∃ f, c'.pc = .stuck f) ∧ F c.astate.estate c'.astate.estate := by
  unfold Config.fn? at hfn
  cases hpc : c.pc with
  | null | stuck => simp [hpc] at hfn
  | «at» instr =>
      rw [hpc] at hfn
      obtain ⟨ins, hins, hfn⟩ := Option.bind_eq_some_iff.1 hfn
      have hrun := Shape.run_movesOr hR hF hcore analysis instr ins.arg c.astate
      rw [← InstrFn.call_eq] at hrun
      rcases stepInstr_at hpc hins hfn h with ⟨next, hcall, -⟩ | ⟨f, hcall, hstuck⟩
      · exact Or.inl (hrun.of_ok hcall)
      · exact Or.inr ⟨⟨f, hstuck⟩, hrun.of_error hcall⟩

/-- A relation without an exception for faults. -/
theorem stepInstr_moves {R : ExecutionState → ExecutionState → Prop} (hR : Bookkept R)
    {analysis : CodeAnalysis} {c c' : Config} {fn : InstrFn} (hfn : c.fn? analysis = some fn)
    (hcore : fn.shape.CoreMoves R) (h : stepInstr analysis c = some c') :
    R c.astate.estate c'.astate.estate :=
  (stepInstr_movesOr hR ⟨id, hR.trans⟩ hfn (hcore.or fun _ _ h => h) h).elim id And.right

/-- No instruction of an analysed code has the function of a DUP of item 0. -/
theorem fn?_ne_dup_zero {c : Config} {fn : InstrFn}
    (hfn : c.fn? (analyzeCode rev code) = some fn) : fn ≠ .opDup 0 := by
  rintro rfl
  unfold Config.fn? at hfn
  split at hfn
  · obtain ⟨ins, hins, hfn⟩ := Option.bind_eq_some_iff.1 hfn
    exact analyzeCode_fn_ne_dup_zero (List.mem_of_getElem? hins) hfn
  · cases hfn

/-- A contract of the parts of the implementations is one of the implementation of each function. -/
theorem InstrFn.coreMovesOr {C : Contract Halt ExecutionState}
    (hprim : ∀ e α x Q, Prim e α x Q → C.Holds x fun _ => True)
    (hret : ∀ status s s', C.err (.ret status) s s' → C.inv s' ∧ C.rel s s') {fn : InstrFn}
    (hdup : fn ≠ .opDup 0) : fn.shape.CoreMovesOr C.Along fun _ _ => True := by
  have hcore : ∀ {α : Type} {x : Core α} {e : ExecutionState → Effects} {Q : α → Prop},
      (∀ s, Has (e s) x Q ∧ s.msg = (e s).msg) → MovesOr C.Along (fun _ _ => True) x := by
    intro α x e Q h s
    by_cases hs : C.inv s
    case neg =>
      refine (sat_trivial x s).mono (fun _ _ _ h => absurd h hs) fun e _ _ => ?_
      cases e with
      | ret => exact fun h => absurd h hs
      | fault => trivial
    obtain ⟨hhas, hmsg⟩ := h s
    -- The frame of the effects and the contract hold together along the body.
    have hboth := Built.holds (C := (frameContract (e s)).both C)
      (fun _ _ _ h => (prim_frame h).both (hprim _ _ _ _ h)) hhas
    refine (hboth s ⟨hmsg, hs⟩).mono (fun _ s' h _ => ⟨h.2.1.2, h.2.2.2⟩) fun e s' h => ?_
    cases e with
    | ret status => exact fun _ => hret status s s' h.2
    | fault f => trivial
  have hhas := fun msg top => InstrFn.has fn hdup msg top
  cases hshape : fn.shape with
  | core _ body | corrected _ body | terminate body =>
      intro top
      rw [hshape] at hhas
      exact hcore fun s => ⟨hhas s.msg top, rfl⟩
  | _ => trivial

/-- What the frame implies, the implementation of the function keeps. -/
theorem InstrFn.coreMoves_of_frame {R : ExecutionState → ExecutionState → Prop} {fn : InstrFn}
    (hR : ∀ msg top s s', Frame (fn.effects msg top) s s' → R s s') (hdup : fn ≠ .opDup 0) :
    fn.shape.CoreMoves R := by
  have hhas := fun msg top => InstrFn.has fn hdup msg top
  cases hshape : fn.shape with
  | core _ body | corrected _ body | terminate body =>
      intro top s
      rw [hshape] at hhas
      exact ((hhas s.msg top).frame s rfl).mono (fun _ s' h => hR _ _ s s' h.2.2)
        fun _ s' h => hR _ _ s s' h.1
  | _ => trivial

variable {R : ExecutionState → ExecutionState → Prop} (hR : Bookkept R)
  (hcore : ∀ fn : InstrFn, fn ≠ .opDup 0 → fn.shape.CoreMovesOr R fun _ _ => True)

include hR hcore

/-- A step moves the inner state along the relation, or it gets stuck. -/
theorem step_relation {c c' : Config} (h : stepInstr (analyzeCode rev code) c = some c') :
    R c.astate.estate c'.astate.estate ∨ ∃ f, c'.pc = .stuck f := by
  cases hfn : c.fn? (analyzeCode rev code) with
  | none =>
      rw [stepInstr_none hfn h]
      exact Or.inl (hR.refl _)
  | some fn =>
      refine (stepInstr_movesOr hR (F := fun _ _ => True) ⟨fun _ => trivial, fun _ _ => trivial⟩ hfn
        (hcore fn (fn?_ne_dup_zero hfn)) h).imp_right And.left

/-- A run that is not stuck moves the inner state along the relation. -/
theorem run_relation {c c' : Config} (h : Reaches (stepInstr (analyzeCode rev code)) c c')
    (hstuck : ∀ f, c'.pc ≠ .stuck f) : R c.astate.estate c'.astate.estate := by
  induction h with
  | refl => exact hR.refl _
  | @tail b d _ hbd ih =>
      have hb : ∀ f, b.pc ≠ .stuck f := fun f hf => by
        have hnone : stepInstr (analyzeCode rev code) b = none := by
          unfold stepInstr
          rw [hf]
        exact absurd (hnone.symm.trans hbd) (by simp)
      rcases step_relation hR hcore hbd with hrel | ⟨f, hf⟩
      · exact hR.trans (ih hb) hrel
      · exact absurd hf (hstuck f)

end

end TscVee
