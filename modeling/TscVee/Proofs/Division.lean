import TscVee.Lib.Division
import TscVee.Proofs.Words

/-!
# `TscVee.Proofs.Division`: the division of `uint256.c`

`divmod256` shifts the divisor to the left until both numbers have the same number of bits, and
subtracts it wherever it fits on the way back. `Lib.ShiftSubtract` is the invariant of its loop.

* `divmodLoop_eq`: the loop ends with the quotient and the remainder.
* `divmod256_eq`: so does the division by a number other than zero.
* `divmodLoop_zero`: with the divisor zero the loop does not end.
-/

set_option autoImplicit false

namespace TscVee

open Lib

/-- A number that is `n` times a power of two, shifted to the right by one. -/
theorem shiftr256_half {x : Uint256} {n k : Nat} (h : x.toNat = n * 2 ^ (k + 1)) :
    (shiftr256 x 1).toNat = n * 2 ^ k := by
  rw [shiftr256_toNat, h, Nat.pow_one, Nat.pow_succ, ← Nat.mul_assoc,
    Nat.mul_div_cancel _ (by decide)]

/-- The rest after a subtraction of the shifted divisor, and the quotient with its bit. -/
theorem shiftSubtract_round {x j : Nat} {r copyd adder resDiv resMod : Uint256}
    (h : ShiftSubtract x r.toNat (j + 1) resDiv.toNat resMod.toNat)
    (hcopyd : copyd.toNat = r.toNat * 2 ^ j) (hadder : adder.toNat = 2 ^ j)
    (hfits : copyd.toNat ≤ resMod.toNat) :
    ShiftSubtract x r.toNat j (or256 resDiv adder).toNat (minus256 resMod copyd).toNat := by
  rw [or256_toNat, minus256_toNat_of_le hfits, hadder, hcopyd, h.or_bit]
  exact h.subtract (hcopyd ▸ hfits)

/-- The shifted divisor is the divisor times `2 ^ k`, and `k + 1` bits of the quotient are to be
found. The induction is on `k`. -/
theorem divmodLoop_eq {x : Nat} {r : Uint256} (fuel k : Nat) (copyd adder resDiv resMod : Uint256)
    (h : ShiftSubtract x r.toNat (k + 1) resDiv.toNat resMod.toNat)
    (hcopyd : copyd.toNat = r.toNat * 2 ^ k) (hadder : adder.toNat = 2 ^ k)
    (hfuel : k + 2 ≤ fuel) :
    ∃ q m, divmodLoop fuel r copyd adder resDiv resMod = some (q, m) ∧
      q.toNat = x / r.toNat ∧ m.toNat = x % r.toNat := by
  -- On the number of bits that the divisor is still shifted by.
  induction k generalizing fuel copyd adder resDiv resMod with
  | zero =>
      obtain ⟨fuel, rfl⟩ : ∃ n, fuel = n + 2 := ⟨fuel - 2, by omega⟩
      unfold divmodLoop
      split
      case isFalse hge =>
        rw [gte256_iff, Nat.not_le] at hge
        exact ⟨resDiv, resMod, rfl, h.result hge⟩
      case isTrue hge =>
      rw [gte256_iff] at hge
      -- In the last round the divisor is not shifted, and fits.
      have hfits : copyd.toNat ≤ resMod.toNat := by
        rw [hcopyd, Nat.pow_zero, Nat.mul_one]
        exact hge
      have hround := shiftSubtract_round h hcopyd hadder hfits
      have hlt : (minus256 resMod copyd).toNat < r.toNat := by
        have hrest := hround.rest
        rwa [Nat.pow_zero, Nat.mul_one] at hrest
      rw [if_pos (gte256_iff _ _ |>.2 hfits)]
      unfold divmodLoop
      rw [if_neg (by rw [gte256_iff]; exact Nat.not_le.2 hlt)]
      exact ⟨_, _, rfl, hround.result hlt⟩
  | succ k ih =>
      obtain ⟨fuel, rfl⟩ : ∃ n, fuel = n + 1 := ⟨fuel - 1, by omega⟩
      -- Both shifts by one are exact halves.
      have hhalf := shiftr256_half hcopyd
      have hhalf' : (shiftr256 adder 1).toNat = 2 ^ k := by
        rw [shiftr256_half (n := 1) (by rw [hadder, Nat.one_mul]), Nat.one_mul]
      unfold divmodLoop
      split
      case isFalse hge =>
        rw [gte256_iff, Nat.not_le] at hge
        exact ⟨resDiv, resMod, rfl, h.result hge⟩
      case isTrue hge =>
      split
      -- The shifted divisor is subtracted, or skipped.
      case isTrue hfits =>
        rw [gte256_iff] at hfits
        exact ih fuel _ _ _ _ (shiftSubtract_round h hcopyd hadder hfits) hhalf hhalf' (by omega)
      case isFalse hfits =>
        rw [gte256_iff, Nat.not_le, hcopyd] at hfits
        exact ih fuel _ _ _ _ (h.skip hfits) hhalf hhalf' (by omega)

/-- The shift that gives the divisor as many bits as the dividend has. -/
theorem shifted_divisor {x y d : Nat} (hy : 0 < y) (hsize : x.size = y.size + d) (hx : x < 2 ^ 256) :
    y * 2 ^ d < 2 ^ 256 ∧ x < y * 2 ^ (d + 1) ∧ d < 256 := by
  have hsizey : 0 < y.size := Nat.size_pos.2 hy
  have hsizex : x.size ≤ 256 := Nat.size_le.2 hx
  refine ⟨?_, ?_, by omega⟩
  · calc y * 2 ^ d < 2 ^ y.size * 2 ^ d :=
          Nat.mul_lt_mul_of_pos_right (Nat.lt_size_self _) (Nat.two_pow_pos d)
      _ = 2 ^ x.size := by rw [hsize, Nat.pow_add]
      _ ≤ 2 ^ 256 := Nat.pow_le_pow_right (by decide) hsizex
  · have hlow : 2 ^ (y.size - 1) ≤ y := Nat.lt_size.1 (Nat.sub_lt hsizey (by decide))
    calc x < 2 ^ x.size := Nat.lt_size_self _
      _ = 2 ^ (y.size - 1) * 2 ^ (d + 1) := by
        rw [← Nat.pow_add, hsize]
        congr 1
        omega
      _ ≤ y * 2 ^ (d + 1) := Nat.mul_le_mul_right _ hlow

/-- The division by a number other than zero gives the quotient and the remainder. -/
theorem divmod256_eq (l : Uint256) {r : Uint256} (hr : r.toNat ≠ 0) :
    ∃ q m, divmod256 l r = some (q, m) ∧ q.toNat = l.toNat / r.toNat ∧
      m.toNat = l.toNat % r.toNat := by
  have hpos : 0 < r.toNat := Nat.pos_of_ne_zero hr
  have hzero : Uint256.zero.toNat = 0 := rfl
  have hone : Uint256.one.toNat = 1 := rfl
  unfold divmod256
  simp only
  split
  case isTrue hlt =>
    rw [gt256_iff] at hlt
    exact ⟨_, _, rfl, by rw [hzero, Nat.div_eq_of_lt hlt], (Nat.mod_eq_of_lt hlt).symm⟩
  case isFalse hle =>
  rw [gt256_iff, Nat.not_lt] at hle
  have hbits : r.toNat.size ≤ l.toNat.size := Nat.size_le_size hle
  have hbitsl : l.toNat.size ≤ 256 := Nat.size_le.2 l.toNat_lt
  have hdiff : (bits256 l + 2 ^ 32 - bits256 r) % 2 ^ 32 = l.toNat.size - r.toNat.size := by
    rw [bits256_eq, bits256_eq]
    omega
  rw [hdiff]
  generalize hd : l.toNat.size - r.toNat.size = d
  obtain ⟨hlt, hrest, hd256⟩ := shifted_divisor (d := d) hpos (by omega) l.toNat_lt
  have hcopyd : (shiftl256 r d).toNat = r.toNat * 2 ^ d := by
    rw [shiftl256_toNat, Nat.mod_eq_of_lt hlt]
  have hadder : (shiftl256 .one d).toNat = 2 ^ d := by
    rw [shiftl256_toNat, hone, Nat.one_mul,
      Nat.mod_eq_of_lt (Nat.pow_lt_pow_right (by decide) hd256)]
  split
  case isTrue hgt =>
    rw [gt256_iff, hcopyd] at hgt
    -- The divisor is not larger than `l`, so the shift is not by zero.
    obtain ⟨k, rfl⟩ : ∃ k, d = k + 1 := by
      cases d with
      | zero => rw [Nat.pow_zero, Nat.mul_one] at hgt; omega
      | succ k => exact ⟨k, rfl⟩
    exact divmodLoop_eq 257 k _ _ _ _ (.start hgt) (shiftr256_half hcopyd)
      (by rw [shiftr256_half (n := 1) (by rw [hadder, Nat.one_mul]), Nat.one_mul]) (by omega)
  case isFalse =>
    exact divmodLoop_eq 257 d _ _ _ _ (.start hrest) hcopyd hadder (by omega)

/-- The division by a number other than zero ends. -/
theorem divmod256_isSome (l : Uint256) {r : Uint256} (hr : zero256 r = false) :
    (divmod256 l r).isSome = true := by
  have hne : r.toNat ≠ 0 := by
    rw [Ne, ← zero256_iff, hr]
    decide
  obtain ⟨q, m, heq, -⟩ := divmod256_eq l hne
  rw [heq]
  rfl

/-- With the divisor zero the loop does not end: the rest is never less than the divisor. -/
theorem divmodLoop_zero {r : Uint256} (hr : r.toNat = 0) (fuel : Nat)
    (copyd adder resDiv resMod : Uint256) : divmodLoop fuel r copyd adder resDiv resMod = none := by
  induction fuel generalizing copyd adder resDiv resMod with
  | zero => rfl
  | succ fuel ih =>
      have hge : gte256 resMod r = true := by
        rw [gte256_iff, hr]
        exact Nat.zero_le _
      unfold divmodLoop
      rw [if_pos hge]
      split <;> exact ih _ _ _ _

end TscVee
