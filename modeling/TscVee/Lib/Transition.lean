import Mathlib.Algebra.Order.Ring.Int
import Mathlib.Logic.Relation

/-!
# `TscVee.Lib.Transition`: deterministic machines and their runs

A machine is a partial step function on a type of configurations; a configuration without a
successor is final. `Reaches` is the reachability in any number of steps.

* `Reaches.invariant`: what each step keeps holds along the whole run, and
  `Reaches.invariant_of` allows a step to rely on a condition that the run meets.
* `Reaches.relation`: a reflexive and transitive relation that holds over each step holds
  between the ends of a run.
* `Terminates`: only finitely many steps follow; `Terminates.of_measure` shows it by a measure
  into a well-founded order, and `Terminates.reaches_final` gives the final configuration.
* `Reaches.simulate`: a simulation in which each step is answered by a run.
* `ReachesIn`: the runs of a number of steps.
* `iterate`, `reaches_iterate`: the executable run on fuel.
-/

set_option autoImplicit false

namespace TscVee.Lib

variable {σ τ : Type*}

/-- The configuration `c'` follows `c`. -/
def Next (step : σ → Option σ) (c c' : σ) : Prop := step c = some c'

/-- The configuration `c'` is reached from `c` in any number of steps. -/
def Reaches (step : σ → Option σ) : σ → σ → Prop := Relation.ReflTransGen (Next step)

/-- No step leaves the configuration. -/
def Final (step : σ → Option σ) (c : σ) : Prop := step c = none

namespace Reaches

variable {step : σ → Option σ} {c c' c'' : σ}

/-- A run of no steps. -/
theorem refl (c : σ) : Reaches step c c := Relation.ReflTransGen.refl

/-- A run that is continued by another one. -/
theorem trans (h : Reaches step c c') (h' : Reaches step c' c'') : Reaches step c c'' :=
  Relation.ReflTransGen.trans h h'

/-- One more step at the end. -/
theorem tail (h : Reaches step c c') (h' : step c' = some c'') : Reaches step c c'' :=
  Relation.ReflTransGen.tail h h'

/-- One more step at the start. -/
theorem head (h : step c = some c') (h' : Reaches step c' c'') : Reaches step c c'' :=
  Relation.ReflTransGen.head h h'

/-- A run of one step. -/
theorem single (h : step c = some c') : Reaches step c c' := Relation.ReflTransGen.single h

/-- An invariant of the steps, where a step may rely on a condition `C` of its start that holds
at every configuration of the run. -/
theorem invariant_of {I C : σ → Prop} (hstep : ∀ a b, I a → C a → step a = some b → I b)
    (h : Reaches step c c') (hC : ∀ a, Reaches step c a → C a) (hc : I c) : I c' := by
  induction h with
  | refl => exact hc
  | tail hab hbc ih => exact hstep _ _ ih (hC _ hab) hbc

/-- An invariant of the steps holds along the run. -/
theorem invariant {I : σ → Prop} (hstep : ∀ a b, I a → step a = some b → I b)
    (h : Reaches step c c') (hc : I c) : I c' :=
  invariant_of (C := fun _ => True) (fun a b ha _ => hstep a b ha) h (fun _ _ => trivial) hc

/-- A preorder that holds over each step holds between the ends of a run. -/
theorem relation {R : σ → σ → Prop} (hrefl : ∀ a, R a a)
    (htrans : ∀ a b d, R a b → R b d → R a d) (hstep : ∀ a b, step a = some b → R a b)
    (h : Reaches step c c') : R c c' := by
  induction h with
  | refl => exact hrefl _
  | tail _ hbc ih => exact htrans _ _ _ ih (hstep _ _ hbc)

/-- A run that has reached a final configuration goes nowhere else. -/
theorem eq_of_final (h : Reaches step c c') (hc : Final step c) : c' = c := by
  induction h with
  | refl => rfl
  | tail _ hbc ih =>
      subst ih
      exact absurd (hc.symm.trans hbc) (by simp)

/-- Runs from one configuration are parts of each other. -/
theorem total (h : Reaches step c c') (h' : Reaches step c c'') :
    Reaches step c' c'' ∨ Reaches step c'' c' := by
  induction h with
  | refl => exact Or.inl h'
  | tail hab hbd ih =>
      rcases ih with hb | hb
      · rcases hb.cases_head with rfl | ⟨e, hbe, he⟩
        · exact Or.inr (single hbd)
        · rw [Option.some.inj (hbd.symm.trans hbe)]
          exact Or.inl he
      · exact Or.inr (hb.tail hbd)

/-- A simulation: related configurations stay related when each step of the first machine is
answered by a run of the second, as long as the condition `C` holds on the way. -/
theorem simulate {step' : τ → Option τ} {R : σ → τ → Prop} {C : σ → Prop}
    (hstep : ∀ a b x, R a x → C a → step a = some b → ∃ y, Reaches step' x y ∧ R b y)
    (h : Reaches step c c') (hC : ∀ a, Reaches step c a → C a) {x : τ} (hx : R c x) :
    ∃ y, Reaches step' x y ∧ R c' y := by
  induction h with
  | refl => exact ⟨x, refl x, hx⟩
  | tail hab hbd ih =>
      obtain ⟨y, hxy, hy⟩ := ih
      obtain ⟨z, hyz, hz⟩ := hstep _ _ y hy (hC _ hab) hbd
      exact ⟨z, hxy.trans hyz, hz⟩

end Reaches

/-! ### Termination -/

/-- Every run from the configuration is finite. -/
def Terminates (step : σ → Option σ) (c : σ) : Prop :=
  Acc (fun b a => step a = some b) c

namespace Terminates

variable {step : σ → Option σ}

/-- A measure that decreases at each step of the run shows that the run is finite. -/
theorem of_measure {α : Type*} {r : α → α → Prop} (hwf : WellFounded r) (μ : σ → α) {c : σ}
    (hdec : ∀ a b, Reaches step c a → step a = some b → r (μ b) (μ a)) : Terminates step c := by
  have key : ∀ m, ∀ a, Reaches step c a → μ a = m → Acc (fun b a => step a = some b) a := by
    intro m
    induction m using hwf.induction with
    | _ m ih =>
        intro a ha hm
        subst hm
        exact Acc.intro a fun b hb => ih (μ b) (hdec a b ha hb) b (ha.tail hb) rfl
  exact key (μ c) c (Reaches.refl c) rfl

/-- A finite run ends in a final configuration. -/
theorem reaches_final {c : σ} (h : Terminates step c) :
    ∃ c', Reaches step c c' ∧ Final step c' := by
  induction h with
  | intro c _ ih =>
      cases hc : step c with
      | none => exact ⟨c, Reaches.refl c, hc⟩
      | some b =>
          obtain ⟨c', hb, hf⟩ := ih b hc
          exact ⟨c', hb.head hc, hf⟩

/-- A run that always gets on to another configuration of the same kind goes on forever. -/
theorem not_of_progress {I : σ → Prop}
    (h : ∀ a, I a → ∃ d b, step a = some d ∧ Reaches step d b ∧ I b) {c : σ} (hc : I c) :
    ¬ Terminates step c := by
  intro hacc
  have htrans : Acc (Relation.TransGen fun b a => step a = some b) c := Acc.transGen hacc
  induction htrans with
  | intro a _ ih =>
      obtain ⟨d, b, had, hdb, hb⟩ := h a hc
      have hab : Relation.TransGen (Next step) a b := .head' had hdb
      exact ih b hab.swap hb (hacc.inv_of_transGen hab.swap)

end Terminates

/-! ### Counted runs -/

/-- A run of `n` steps. -/
def ReachesIn (step : σ → Option σ) : Nat → σ → σ → Prop
  | 0, c, c' => c' = c
  | n + 1, c, c' => ∃ b, ReachesIn step n c b ∧ step b = some c'

namespace ReachesIn

variable {step : σ → Option σ} {n : Nat} {c c' : σ}

/-- A run of `n` steps is a run. -/
theorem reaches (h : ReachesIn step n c c') : Reaches step c c' := by
  induction n generalizing c' with
  | zero =>
      rw [show c' = c from h]
      exact Reaches.refl c
  | succ n ih =>
      obtain ⟨b, hb, hstep⟩ := h
      exact (ih hb).tail hstep

/-- One more step at the start of a run of `n` steps. -/
theorem head {b : σ} (h : step c = some b) (h' : ReachesIn step n b c') :
    ReachesIn step (n + 1) c c' := by
  induction n generalizing c' with
  | zero =>
      obtain rfl : c' = b := h'
      exact ⟨c, rfl, h⟩
  | succ n ih =>
      obtain ⟨d, hd, hstep⟩ := h'
      exact ⟨d, ih hd, hstep⟩

/-- A property of the count and the configuration, which each step keeps in the configurations that
satisfy `C`. -/
theorem invariant_of {I : Nat → σ → Prop} {C : σ → Prop}
    (hstep : ∀ n a b, I n a → C a → step a = some b → I (n + 1) b) (h : ReachesIn step n c c')
    (hC : ∀ a, Reaches step c a → C a) (hc : I 0 c) : I n c' := by
  induction n generalizing c' with
  | zero =>
      rw [show c' = c from h]
      exact hc
  | succ n ih =>
      obtain ⟨b, hb, hbc⟩ := h
      exact hstep n b c' (ih hb) (hC b hb.reaches) hbc

end ReachesIn

/-! ### Execution on fuel -/

/-- At most `n` steps. -/
def iterate (step : σ → Option σ) : Nat → σ → σ
  | 0, c => c
  | n + 1, c =>
    match step c with
    | none => c
    | some c' => iterate step n c'

/-- The iteration follows the steps, and stays at a final state. -/
theorem reaches_iterate (step : σ → Option σ) (n : Nat) (c : σ) :
    Reaches step c (iterate step n c) := by
  induction n generalizing c with
  | zero => exact Reaches.refl c
  | succ n ih =>
      unfold iterate
      cases hc : step c with
      | none => exact Reaches.refl c
      | some c' => exact (ih c').head hc

/-- The first step of an iteration. -/
theorem iterate_succ {step : σ → Option σ} {c b : σ} (h : step c = some b) (n : Nat) :
    iterate step (n + 1) c = iterate step n b := by
  rw [iterate, h]

/-- As many steps as the fuel, if none of the configurations on the way is final. -/
theorem reachesIn_iterate {step : σ → Option σ} {n : Nat} {c : σ}
    (h : ∀ m < n, ¬ Final step (iterate step m c)) : ReachesIn step n c (iterate step n c) := by
  induction n generalizing c with
  | zero => rfl
  | succ n ih =>
      cases hc : step c with
      | none => exact absurd hc (h 0 (Nat.succ_pos n))
      | some b =>
          rw [iterate_succ hc]
          refine .head hc (ih fun m hm => ?_)
          rw [← iterate_succ hc]
          exact h (m + 1) (Nat.succ_lt_succ hm)

/-- Where the fuel is enough, there are no other configurations. -/
theorem Reaches.eq_iterate {step : σ → Option σ} {n : Nat} {c c' : σ} (h : Reaches step c c')
    (hfinal : Final step (iterate step n c)) : ∃ m ≤ n, c' = iterate step m c := by
  induction n generalizing c with
  | zero => exact ⟨0, le_refl 0, h.eq_of_final hfinal⟩
  | succ n ih =>
      rcases h.cases_head with rfl | ⟨b, hb, hbc'⟩
      · exact ⟨0, Nat.zero_le _, rfl⟩
      · have hstep : step c = some b := hb
        rw [iterate_succ hstep] at hfinal
        obtain ⟨m, hm, rfl⟩ := ih hbc' hfinal
        exact ⟨m + 1, Nat.succ_le_succ hm, (iterate_succ hstep m).symm⟩

end TscVee.Lib
