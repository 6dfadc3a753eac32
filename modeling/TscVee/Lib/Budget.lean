import Mathlib.Algebra.Order.Ring.Int
import TscVee.Lib.Program

/-!
# `TscVee.Lib.Budget`: programs that draw on a counter without looking at it

A `Budget` is a counter in the state of a program, with an operation that moves it. The counter may
not fall below zero, and stays below a limit.

* `Ignores x`: the program neither reads nor moves the counter. It runs the same from every
  setting of it, and leaves the counter as it is.
* `Draws T x s`: from the state `s`, each normal run that ends with a value in `T` leaves no more in
  the counter, and the same run goes through from every other setting that is large enough for it
  and below the limit. What was added to the counter at the start is there at the end.

`Ignores` is closed under the operations of the monad, and so is `Draws`, where a part may rely on
the state that the parts in front of it leave (`Draws.bind`). A part that never ends in `T` draws
nothing (`Draws.never`), which settles the branches that are not taken.
-/

set_option autoImplicit false

namespace TscVee.Lib

/-- A counter in a state, and how it is moved. -/
structure Budget (σ : Type) where
  left : σ → Int
  add : Int → σ → σ
  left_add : ∀ d s, left (add d s) = left s + d
  /-- The counter stays below this. -/
  limit : Int

namespace Budget

variable {ε σ α β : Type} (B : Budget σ)

/-- The program neither reads nor moves the counter. -/
def Ignores (x : EStateM ε σ α) : Prop :=
  ∀ s a s', x s = .ok a s' → B.left s' = B.left s ∧ ∀ d, x (B.add d s) = .ok a (B.add d s')

/-- From the state `s`, a run that ends with a value in `T` draws on the counter only. -/
def Draws (T : α → Prop) (x : EStateM ε σ α) (s : σ) : Prop :=
  ∀ a s', x s = .ok a s' → T a → B.left s' ≤ B.left s ∧
    ∀ d, 0 ≤ B.left s' + d → B.left s + d < B.limit → x (B.add d s) = .ok a (B.add d s')

variable {B}

/-! ### Programs that ignore the counter -/

namespace Ignores

/-- A value does not read the budget. -/
theorem pure (a : α) : B.Ignores (pure a : EStateM ε σ α) := by
  intro s b s' h
  cases h
  exact ⟨rfl, fun _ => rfl⟩

/-- An error does not read the budget. -/
theorem throw (e : ε) : B.Ignores (throw e : EStateM ε σ α) := by
  intro s a s' h
  cases h

/-- A value that is read from the state, if it does not depend on the counter. -/
theorem read {f : σ → α} (hf : ∀ d s, f (B.add d s) = f s) :
    B.Ignores (do return f (← get) : EStateM ε σ α) := by
  intro s a s' h
  obtain ⟨rfl, rfl⟩ : f s = a ∧ s = s' := by
    cases h
    exact ⟨rfl, rfl⟩
  exact ⟨rfl, fun d => congrArg (EStateM.Result.ok · _) (hf d s)⟩

/-- A change of the state that leaves the counter alone. -/
theorem modify {g : σ → σ} (hleft : ∀ s, B.left (g s) = B.left s)
    (hg : ∀ d s, g (B.add d s) = B.add d (g s)) : B.Ignores (modify g : EStateM ε σ PUnit) := by
  intro s a s' h
  obtain ⟨⟨⟩, rfl⟩ : a = ⟨⟩ ∧ g s = s' := by
    cases h
    exact ⟨rfl, rfl⟩
  exact ⟨hleft s, fun d => congrArg (EStateM.Result.ok PUnit.unit) (hg d s)⟩

/-- Two programs that do not read the budget, one after the other. -/
theorem bind {x : EStateM ε σ β} {f : β → EStateM ε σ α} (hx : B.Ignores x)
    (hf : ∀ b, B.Ignores (f b)) : B.Ignores (x >>= f) := by
  intro s a s'' h
  obtain ⟨b, s', hxs, hfs⟩ := exists_of_bind h
  obtain ⟨hleft, hadd⟩ := hx s b s' hxs
  obtain ⟨hleft', hadd'⟩ := hf b s' a s'' hfs
  exact ⟨hleft'.trans hleft, fun d => ok_bind (hadd d) (hadd' d)⟩

/-- A branch on a condition that does not depend on the budget. -/
theorem ite {c : Prop} [Decidable c] {x y : EStateM ε σ α} (hx : c → B.Ignores x)
    (hy : ¬ c → B.Ignores y) : B.Ignores (if c then x else y) := by
  split
  case isTrue h => exact hx h
  case isFalse h => exact hy h

/-- In particular such a program draws on nothing. -/
theorem draws {T : α → Prop} {x : EStateM ε σ α} (hx : B.Ignores x) (s : σ) : B.Draws T x s := by
  intro a s' h _
  obtain ⟨hleft, hadd⟩ := hx s a s' h
  exact ⟨hleft.le, fun d _ _ => hadd d⟩

end Ignores

/-! ### Programs that draw on the counter -/

namespace Draws

variable {T : α → Prop} {s : σ}

/-- A program that never ends in `T`. -/
theorem never {x : EStateM ε σ α} (h : ∀ a s', x s = .ok a s' → ¬ T a) : B.Draws T x s :=
  fun a s' hx ha => absurd ha (h a s' hx)

/-- A branch draws what its side draws. -/
theorem ite {c : Prop} [Decidable c] {x y : EStateM ε σ α} (hx : c → B.Draws T x s)
    (hy : ¬ c → B.Draws T y s) : B.Draws T (if c then x else y) s := by
  split
  case isTrue h => exact hx h
  case isFalse h => exact hy h

/-- The second part starts where a run of the first has ended. -/
theorem bind {R : β → Prop} {x : EStateM ε σ β} {f : β → EStateM ε σ α} (hx : B.Draws R x s)
    (hf : ∀ b s', x s = .ok b s' → B.Draws T (f b) s' ∧
      (R b ∨ ∀ a s'', f b s' = .ok a s'' → ¬ T a)) :
    B.Draws T (x >>= f) s := by
  intro a s'' h ha
  obtain ⟨b, s', hxs, hfs⟩ := exists_of_bind h
  obtain ⟨hdraws, hR⟩ := hf b s' hxs
  obtain ⟨hle', hadd'⟩ := hdraws a s'' hfs ha
  -- The value of the first part is in `R`, because otherwise the run could not end in `T`.
  obtain ⟨hle, hadd⟩ := hx b s' hxs (hR.resolve_right fun hnever => hnever a s'' hfs ha)
  refine ⟨hle'.trans hle, fun d hlow hhigh => ?_⟩
  -- The counter falls from part to part, so the middle lies between the two ends.
  exact ok_bind (hadd d (by omega) hhigh) (hadd' d hlow (by omega))

/-- Two parts of which the first may end with any value. -/
theorem seq {x : EStateM ε σ β} {f : β → EStateM ε σ α} (hx : B.Draws (fun _ => True) x s)
    (hf : ∀ b s', x s = .ok b s' → B.Draws T (f b) s') : B.Draws T (x >>= f) s :=
  .bind hx fun b s' h => ⟨hf b s' h, Or.inl trivial⟩

/-- With a larger counter, a run has the same value, and what was added is left over. -/
theorem shift {x : EStateM ε σ α} (hx : B.Draws T x s) {a : α} {s' : σ} (h : x s = .ok a s')
    (ha : T a) {d : Int} (hlow : 0 ≤ B.left s' + d) (hhigh : B.left s + d < B.limit) :
    x (B.add d s) = .ok a (B.add d s') := (hx a s' h ha).2 d hlow hhigh

/-- A program that draws does not add to the budget. -/
theorem le {x : EStateM ε σ α} (hx : B.Draws T x s) {a : α} {s' : σ} (h : x s = .ok a s')
    (ha : T a) : B.left s' ≤ B.left s := (hx a s' h ha).1

end Draws

end Budget

end TscVee.Lib
