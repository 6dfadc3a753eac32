import Mathlib.Algebra.Order.Ring.Int
import Mathlib.Tactic.Ring

/-!
# `TscVee.Lib.SumTree`: sums of machine words

A sum of words of width `w` is a tree, since an accumulator adds one term after the other and the
terms may be sums themselves. Each addition wraps on its own.

* `SumTree.value`, `SumTree.exact`: the sum as the machine computes it, and with nothing lost.
* `SumTree.Fits`: no addition of the tree wraps.
* `SumTree.fits_of_bounded`: none does, if there are few terms and they are small.
-/

set_option autoImplicit false

namespace TscVee.Lib

/-- The additions of a program, with the words that they start from. -/
inductive SumTree (w : Nat)
  | term (x : BitVec w)
  | add (s t : SumTree w)

namespace SumTree

variable {w : Nat}

/-- What the machine computes. -/
def value : SumTree w → BitVec w
  | term x => x
  | add s t => s.value + t.value

/-- The sum of the terms. -/
def exact : SumTree w → Nat
  | term x => x.toNat
  | add s t => s.exact + t.exact

/-- The number of terms. -/
def count : SumTree w → Nat
  | term _ => 1
  | add s t => s.count + t.count

/-- No term is above the bound. -/
def Bounded (b : Nat) : SumTree w → Prop
  | term x => x.toNat ≤ b
  | add s t => s.Bounded b ∧ t.Bounded b

/-- No addition wraps. -/
def Fits : SumTree w → Prop
  | term _ => True
  | add s t => s.Fits ∧ t.Fits ∧ s.exact + t.exact < 2 ^ w

/-- A sum of bounded terms is bounded by their number. -/
theorem exact_le {s : SumTree w} {b : Nat} (h : s.Bounded b) : s.exact ≤ s.count * b := by
  induction s with
  | term x =>
      have hx : x.toNat ≤ b := h
      rwa [exact, count, Nat.one_mul]
  | add s t ihs iht =>
      have hs := ihs h.1
      have ht := iht h.2
      rw [exact, count, Nat.add_mul]
      omega

/-- A sum of few small terms does not wrap anywhere. -/
theorem fits_of_bounded {s : SumTree w} {b : Nat} (h : s.Bounded b) (hlt : s.count * b < 2 ^ w) :
    s.Fits := by
  induction s with
  | term => trivial
  | add s t ihs iht =>
      rw [count, Nat.add_mul] at hlt
      have hs := exact_le h.1
      have ht := exact_le h.2
      exact ⟨ihs h.1 (by omega), iht h.2 (by omega), by omega⟩

end SumTree

end TscVee.Lib
