import Mathlib.Algebra.Order.Ring.Int
import Mathlib.Tactic.Ring

/-!
# `TscVee.Lib.Signed`: numbers in two's complement

A number below `2 * H` is read as an integer from `-H` up to `H - 1`, and an integer is written as
the number below `2 * H` that it is congruent to.

* `signed_lt_iff`: the order of the integers is that of the numbers just where the signs agree.
* `tdiv_negative`: the quotient of two negative integers.
* `unsigned_ops_iff`: where division and comparison of the numbers are those of the integers.
* `unsigned_shift_natural`, `unsigned_shift_negative`: an integer divided by a power of two, rounded
  down.
-/

set_option autoImplicit false

namespace TscVee.Lib

variable {H a b : Nat}

/-- The number `a` in two's complement. -/
def signed (H a : Nat) : Int := if a < H then a else (a : Int) - 2 * H

/-- The number that stands for the integer `z`. -/
def unsigned (H : Nat) (z : Int) : Nat := (z % (2 * H : Nat)).toNat

/-- A number below the half is itself. -/
theorem signed_of_lt (h : a < H) : signed H a = a := if_pos h

/-- A number from the half on is negative. -/
theorem signed_of_le (h : H ≤ a) : signed H a = (a : Int) - 2 * H := if_neg (Nat.not_lt.2 h)

/-- A number that is small enough stands for itself. -/
theorem unsigned_natCast (ha : a < 2 * H) : unsigned H a = a := by
  unfold unsigned
  rw [Int.emod_eq_of_lt (Int.natCast_nonneg a) (Int.ofNat_lt.2 ha)]
  rfl

/-- The integers are in the order of the numbers where the signs agree, and in the other order where
they do not. -/
theorem signed_lt_iff (ha : a < 2 * H) (hb : b < 2 * H) :
    (signed H a < signed H b ↔ a < b) ↔ (a < H ↔ b < H) := by
  unfold signed
  split <;> split <;> omega

/-- The quotient of two negative integers is that of their absolute values. -/
theorem tdiv_negative (ha : H ≤ a) (ha' : a < 2 * H) (hb : H ≤ b) (hb' : b < 2 * H) :
    (signed H a).tdiv (signed H b) = ((2 * H - a) / (2 * H - b) : Nat) := by
  have hneg : ∀ {n : Nat}, H ≤ n → n < 2 * H → signed H n = -((2 * H - n : Nat) : Int) := by
    intro n hn hn'
    rw [signed_of_le hn]
    omega
  rw [hneg ha ha', hneg hb hb', Int.tdiv_neg, Int.neg_tdiv, Int.neg_neg, ← Int.ofNat_tdiv]

/-- Division and comparison of the numbers agree with those of the integers. -/
structure UnsignedOps (H a b : Nat) : Prop where
  div : a / b = if b = 0 then 0 else unsigned H ((signed H a).tdiv (signed H b))
  mod : (if b = 0 then 0 else a % b) =
    if b = 0 then 0 else unsigned H ((signed H a).tmod (signed H b))
  lt : a < b ↔ signed H a < signed H b
  gt : b < a ↔ signed H b < signed H a

/-- Below the half, the operations on numbers are those on integers. -/
theorem UnsignedOps.of_lt (ha : a < H) (hb : b < H) : UnsignedOps H a b where
  div := by
    rw [signed_of_lt ha, signed_of_lt hb, ← Int.ofNat_tdiv,
      unsigned_natCast ((Nat.div_le_self a b).trans_lt (by omega))]
    split
    case isTrue h => rw [h, Nat.div_zero]
    case isFalse => rfl
  mod := by
    rw [signed_of_lt ha, signed_of_lt hb, ← Int.ofNat_tmod,
      unsigned_natCast ((Nat.mod_le a b).trans_lt (by omega))]
  lt := ((signed_lt_iff (by omega) (by omega)).2 (by omega)).symm
  gt := ((signed_lt_iff (by omega) (by omega)).2 (by omega)).symm

/-- With equal operands the sign does not matter to the quotient. -/
theorem UnsignedOps.same (hH : 0 < H) (ha : a < 2 * H) : UnsignedOps H a a where
  div := by
    split
    case isTrue h => rw [h, Nat.div_zero]
    case isFalse h =>
      have hne : signed H a ≠ 0 := by
        unfold signed
        split <;> omega
      have hone : unsigned H ((1 : Nat) : Int) = 1 := unsigned_natCast (by omega)
      rw [Int.tdiv_self hne, Nat.div_self (Nat.pos_of_ne_zero h)]
      exact hone.symm
  mod := by
    have hzero : unsigned H ((0 : Nat) : Int) = 0 := unsigned_natCast (by omega)
    rw [Int.tmod_self, Nat.mod_self]
    split
    · rfl
    · exact hzero.symm
  lt := by simp
  gt := by simp

/-- Two different negative numbers have a quotient of 0 or 1, and so have their absolute values, but
not the same. -/
theorem UnsignedOps.eq_of_negative (h : UnsignedOps H a b) (ha : H ≤ a) (ha' : a < 2 * H)
    (hb : H ≤ b) (hb' : b < 2 * H) : a = b := by
  have hquot : (2 * H - a) / (2 * H - b) < 2 * H :=
    (Nat.div_le_self _ _).trans_lt (by omega)
  have hdiv := h.div
  rw [if_neg (by omega), tdiv_negative ha ha' hb hb', unsigned_natCast hquot] at hdiv
  rcases Nat.lt_trichotomy a b with hlt | heq | hgt
  · rw [Nat.div_eq_of_lt hlt, eq_comm, Nat.div_eq_zero_iff_lt (by omega)] at hdiv
    omega
  · exact heq
  · rw [Nat.div_eq_of_lt (a := 2 * H - a) (by omega), Nat.div_eq_zero_iff_lt (by omega)] at hdiv
    omega

/-- The operations agree just where both numbers stand for themselves, or are the same. -/
theorem unsigned_ops_iff (hH : 0 < H) (ha : a < 2 * H) (hb : b < 2 * H) :
    UnsignedOps H a b ↔ (a < H ∧ b < H) ∨ a = b := by
  constructor
  · intro h
    have hsigns : a < H ↔ b < H := (signed_lt_iff ha hb).1 h.lt.symm
    by_cases haH : a < H
    · exact .inl ⟨haH, hsigns.1 haH⟩
    · exact .inr (h.eq_of_negative (Nat.not_lt.1 haH) ha
        (Nat.not_lt.1 fun hbH => haH (hsigns.2 hbH)) hb)
  · rintro (⟨ha', hb'⟩ | rfl)
    · exact .of_lt ha' hb'
    · exact .same hH ha

/-! ### Shifts to the right -/

/-- Below the half, the shift of the integer is that of the number. -/
theorem unsigned_shift_natural (ha : a < H) (c : Nat) :
    unsigned H (signed H a / 2 ^ c) = a / 2 ^ c := by
  have hcast : (a : Int) / 2 ^ c = (a / 2 ^ c : Nat) := by push_cast; rfl
  rw [signed_of_lt ha, hcast, unsigned_natCast ((Nat.div_le_self _ _).trans_lt (by omega))]

/-- The sign fills the `c` upper places. With a count of all places or more, -1 is left. -/
theorem unsigned_shift_negative {n : Nat} (hn : 2 * H = 2 ^ n) (ha : H ≤ a) (ha' : a < 2 * H)
    (c : Nat) :
    unsigned H (signed H a / 2 ^ c) =
      if c ≤ n then a / 2 ^ c + 2 ^ n - 2 ^ (n - c) else 2 ^ n - 1 := by
  have hsigned : signed H a = (a : Int) - (2 ^ n : Nat) := by
    rw [signed_of_le ha, ← hn]
    push_cast
    rfl
  have hpos : (0 : Int) < 2 ^ c := Int.pow_pos (by decide)
  unfold unsigned
  rw [hsigned, hn]
  split
  -- The sign bit fills the upper bits of the quotient.
  case isTrue hc =>
    have hpow : (2 : Nat) ^ n = 2 ^ (n - c) * 2 ^ c := by rw [← Nat.pow_add, Nat.sub_add_cancel hc]
    have hdiv : ((a : Int) - (2 ^ n : Nat)) / 2 ^ c = (a / 2 ^ c : Nat) - (2 ^ (n - c) : Nat) := by
      rw [hpow]
      push_cast
      rw [Int.sub_eq_add_neg, ← Int.neg_mul, Int.add_mul_ediv_right _ _ (ne_of_gt hpos)]
      rfl
    have hlt : a / 2 ^ c < 2 ^ (n - c) := Nat.div_lt_of_lt_mul (by rw [Nat.mul_comm, ← hpow]; omega)
    have hle : (2 : Nat) ^ (n - c) ≤ 2 ^ n := Nat.pow_le_pow_right (by decide) (Nat.sub_le n c)
    rw [hdiv]
    generalize a / 2 ^ c = q at *
    generalize 2 ^ (n - c) = p at *
    rw [← Int.add_emod_right, Int.emod_eq_of_lt] <;> omega
  -- Past the width, the quotient is -1.
  case isFalse hc =>
    have hle : (2 : Nat) ^ n ≤ 2 ^ c := Nat.pow_le_pow_right (by decide) (by omega)
    have hcast : ((2 ^ c : Nat) : Int) = 2 ^ c := by push_cast; rfl
    have hdiv : ((a : Int) - (2 ^ n : Nat)) / 2 ^ c = -1 := by
      rw [← hcast, Int.ediv_eq_iff_of_pos (by omega)]
      omega
    rw [hdiv, ← Int.add_emod_right, Int.emod_eq_of_lt] <;> omega

end TscVee.Lib
