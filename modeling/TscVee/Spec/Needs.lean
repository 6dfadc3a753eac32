import Mathlib.Algebra.Order.Ring.Int
import Mathlib.Algebra.Order.Group.Int
import Mathlib.Algebra.BigOperators.Group.List.Basic

/-!
# `TscVee.Spec.Needs`: what a sequence of opcodes needs of the stack

A `Contribution` is what one opcode costs, how many items it needs and how it changes the height.

* `Underflows cs h`, `Overflows cs h`: the opcodes, run one by one from the height `h`, meet one
  with too few items, or exceed 1024 items after one.
* `required cs`, `growth cs`: the height that the sequence needs at its start, and the largest
  height above it that it comes to. `underflows_iff` and `overflows_iff` say that these two numbers
  decide both questions for every height.
* `required_concat`, `growth_concat`: the two numbers of a longer sequence, for an analysis that
  reads the opcodes from the left.
-/

set_option autoImplicit false

namespace TscVee

/-- What an opcode adds to the summary of its block. -/
structure Contribution where
  cost : Int
  req : Int
  change : Int
  deriving DecidableEq, Repr

/-- An opcode needs the items that it removes, and at most 17 of them, and adds at most one. -/
structure Contribution.Sound (c : Contribution) : Prop where
  nonneg : 0 ≤ c.req
  le : c.req ≤ 17
  removes : -c.change ≤ c.req
  adds : c.change ≤ 1

/-- The change of the height over a sequence. -/
def netChange (cs : List Contribution) : Int := (cs.map Contribution.change).sum

/-- The cost of a sequence. -/
def totalCost (cs : List Contribution) : Int := (cs.map Contribution.cost).sum

/-- Run one by one from the height `h`, the opcodes meet one that has too few items. -/
def Underflows : List Contribution → Int → Prop
  | [], _ => False
  | c :: cs, h => h < c.req ∨ Underflows cs (h + c.change)

/-- Run one by one from the height `h`, the opcodes exceed the height 1024 after one of them. -/
def Overflows : List Contribution → Int → Prop
  | [], _ => False
  | c :: cs, h => h + c.change > 1024 ∨ Overflows cs (h + c.change)

/-- The height that the sequence needs at its start. -/
def required : List Contribution → Int
  | [] => 0
  | c :: cs => max c.req (required cs - c.change)

/-- The largest net growth over the prefixes of the sequence. -/
def growth : List Contribution → Int
  | [] => 0
  | c :: cs => max 0 (c.change + growth cs)

section
variable {cs : List Contribution} {c : Contribution}

/-- The growth is that over the start, so it is not negative. -/
theorem growth_nonneg (cs : List Contribution) : 0 ≤ growth cs := by
  cases cs <;> simp [growth]

/-- A block underflows exactly below what it requires. -/
theorem underflows_iff (hs : ∀ c ∈ cs, c.Sound) {h : Int} (hh : 0 ≤ h) :
    Underflows cs h ↔ h < required cs := by
  induction cs generalizing h with
  | nil =>
      simp only [Underflows, required, false_iff]
      omega
  | cons c cs ih =>
      rw [List.forall_mem_cons] at hs
      simp only [Underflows, required]
      by_cases hreq : h < c.req
      · simp only [hreq, true_or, true_iff]
        omega
      · -- The opcode removes no more than it needs, so the height stays a height.
        have := hs.1.removes
        rw [ih hs.2 (h := h + c.change) (by omega)]
        omega

/-- A block overflows exactly when its growth does not fit above the height. -/
theorem overflows_iff {h : Int} (hh : h ≤ 1024) : Overflows cs h ↔ h + growth cs > 1024 := by
  induction cs generalizing h with
  | nil =>
      simp only [Overflows, growth, false_iff]
      omega
  | cons c cs ih =>
      have hrest := growth_nonneg cs
      simp only [Overflows, growth]
      by_cases hover : h + c.change > 1024
      · simp only [hover, true_or, true_iff]
        omega
      · rw [ih (h := h + c.change) (by omega)]
        omega

/-- The change by one more operation. -/
theorem netChange_concat (cs : List Contribution) (c : Contribution) :
    netChange (cs ++ [c]) = netChange cs + c.change := by
  simp [netChange]

/-- The cost of one more operation. -/
theorem totalCost_concat (cs : List Contribution) (c : Contribution) :
    totalCost (cs ++ [c]) = totalCost cs + c.cost := by
  simp [totalCost]

/-- One more operation requires its items on top of the height it is met at. -/
theorem required_concat (hs : ∀ x ∈ cs, x.Sound) (hc : c.Sound) :
    required (cs ++ [c]) = max (required cs) (c.req - netChange cs) := by
  induction cs with
  | nil =>
      have := hc.nonneg
      have := hc.removes
      simp only [List.nil_append, required, netChange, List.map_nil, List.sum_nil]
      omega
  | cons b cs ih =>
      rw [List.forall_mem_cons] at hs
      rw [List.cons_append, required, required, ih hs.2]
      simp only [netChange, List.map_cons, List.sum_cons]
      omega

/-- One more operation may grow the stack over the maximum so far. -/
theorem growth_concat (cs : List Contribution) (c : Contribution) :
    growth (cs ++ [c]) = max (growth cs) (netChange cs + c.change) := by
  induction cs with
  | nil => simp [growth, netChange]
  | cons b cs ih =>
      rw [List.cons_append, growth, growth, ih]
      simp only [netChange, List.map_cons, List.sum_cons]
      omega

/-- The sequence removes no more than it needs. -/
theorem neg_netChange_le_required (hs : ∀ c ∈ cs, c.Sound) : -netChange cs ≤ required cs := by
  induction cs with
  | nil => simp [netChange, required]
  | cons c cs ih =>
      rw [List.forall_mem_cons] at hs
      have := ih hs.2
      simp only [netChange, required, List.map_cons, List.sum_cons] at this ⊢
      omega

/-- The last height is one of those that the growth is over. -/
theorem netChange_le_growth (cs : List Contribution) : netChange cs ≤ growth cs := by
  induction cs with
  | nil => simp [netChange, growth]
  | cons c cs ih =>
      simp only [netChange, growth, List.map_cons, List.sum_cons] at ih ⊢
      omega

end

end TscVee
