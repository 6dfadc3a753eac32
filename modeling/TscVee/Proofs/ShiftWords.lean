import TscVee.Proofs.SignedWords

/-!
# `TscVee.Proofs.ShiftWords`: `SHL`, `SHR` and `SAR`

The shift count is narrowed to 32 bits before it is used.

* `shift_iff`: `SHL` and `SHR` leave what they should just where the count is below `2 ^ 32`, or the
  narrowed count happens to shift every bit out as well.
* `sar_iff`: so does `SAR` for a word that is not negative. A negative word needs the count 128, for
  the sign mask is shifted by the count, and not by what it leaves of the 256 bits.
-/

set_option autoImplicit false

namespace TscVee

open TscVee.Core Lib

variable {s : ExecutionState} {top : StackTop}

/-- The narrowed count. -/
theorem lowUint32_eq (x : Uint256) : lowUint32 x = x.toNat % 2 ^ 32 := by
  unfold lowUint32 Uint256.low Uint256.toNat
  omega

/-- A count from 256 on leaves nothing of a word. -/
theorem word_div_large (x : Uint256) {v : Nat} (hv : 256 ≤ v) : x.toNat / 2 ^ v = 0 :=
  Nat.div_eq_of_lt (x.toNat_lt.trans_le (Nat.pow_le_pow_right (by decide) hv))

/-- A shift to the left by 256 or more leaves 0. -/
theorem mul_pow_mod_large (n : Nat) {v : Nat} (hv : 256 ≤ v) : n * 2 ^ v % 2 ^ 256 = 0 :=
  Nat.mod_eq_zero_of_dvd ((Nat.pow_dvd_pow 2 hv).mul_left n)

/-- A count below `2 ^ 32` is not changed by the narrowing. The others are all 256 or more. -/
theorem count_cases (c : Nat) : c % 2 ^ 32 = c ∨ 256 ≤ c ∧ 2 ^ 32 ≤ c := by
  omega

/-! ### `SHL` and `SHR` -/

/-- What `SHL` and `SHR` should leave. -/
structure ShiftRule (s : ExecutionState) (top : StackTop) : Prop where
  shl : Leaves (shl top) s (top - 1)
    ((s.stackSpace (top - 1)).toNat * 2 ^ (s.stackSpace top).toNat % 2 ^ 256)
  shr : Leaves (shr top) s (top - 1)
    ((s.stackSpace (top - 1)).toNat / 2 ^ (s.stackSpace top).toNat)
  /-- Every bit is shifted out. -/
  large : 256 ≤ (s.stackSpace top).toNat →
    Leaves (TscVee.shl top) s (top - 1) 0 ∧ Leaves (TscVee.shr top) s (top - 1) 0

/-- What SHL leaves, for the count as `uint32_t`. -/
theorem leaves_shl {n : Nat} (h : StackHolds top 2) :
    Leaves (shl top) s (top - 1) n ↔
      (s.stackSpace (top - 1)).toNat * 2 ^ ((s.stackSpace top).toNat % 2 ^ 32) % 2 ^ 256 = n := by
  rw [← lowUint32_eq, ← shiftl256_toNat]
  exact leaves_binary h rfl

/-- What SHR leaves, for the count as `uint32_t`. -/
theorem leaves_shr {n : Nat} (h : StackHolds top 2) :
    Leaves (shr top) s (top - 1) n ↔
      (s.stackSpace (top - 1)).toNat / 2 ^ ((s.stackSpace top).toNat % 2 ^ 32) = n := by
  rw [← lowUint32_eq, ← shiftr256_toNat]
  exact leaves_binary h rfl

/-- All bits of a word are shifted out to the left, if the bits that stay are zero. -/
theorem mul_pow_mod_eq_zero_iff (n v : Nat) :
    n * 2 ^ v % 2 ^ 256 = 0 ↔ 2 ^ (256 - v) ∣ n := by
  rw [← Nat.dvd_iff_mod_eq_zero]
  rcases Nat.le_total v 256 with hv | hv
  · have hpow : (2 : Nat) ^ 256 = 2 ^ (256 - v) * 2 ^ v := by
      rw [← Nat.pow_add, Nat.sub_add_cancel hv]
    rw [hpow]
    exact Nat.mul_dvd_mul_iff_right (Nat.two_pow_pos v)
  · rw [Nat.sub_eq_zero_of_le hv, Nat.pow_zero]
    exact ⟨fun _ => Nat.one_dvd n, fun _ => (Nat.pow_dvd_pow 2 hv).mul_left n⟩

/-- A shift to the right leaves 0 exactly when all bits are shifted out. -/
theorem div_pow_eq_zero_iff (n v : Nat) : n / 2 ^ v = 0 ↔ n < 2 ^ v :=
  Nat.div_eq_zero_iff_lt (Nat.two_pow_pos v)

/-- `SHL` and `SHR` leave what they should just where the count is below `2 ^ 32`, or the narrowed
count shifts out every bit of the word in both directions. -/
theorem shift_iff (h : StackHolds top 2) :
    let c := (s.stackSpace top).toNat
    let y := (s.stackSpace (top - 1)).toNat
    ShiftRule s top ↔ c < 2 ^ 32 ∨ (2 ^ (256 - c % 2 ^ 32) ∣ y ∧ y < 2 ^ (c % 2 ^ 32)) := by
  intro c y
  rw [← mul_pow_mod_eq_zero_iff, ← div_pow_eq_zero_iff y (c % 2 ^ 32)]
  constructor
  · intro hrule
    -- A count the narrowing keeps, or one it does not: then both results must be 0.
    rcases Nat.lt_or_ge c (2 ^ 32) with hc | hc
    · exact .inl hc
    · have hlarge := hrule.large ((by decide : 256 ≤ 2 ^ 32).trans hc)
      exact .inr ⟨(leaves_shl h).1 hlarge.1, (leaves_shr h).1 hlarge.2⟩
  -- A narrowed count shifts as the whole one does, or both shift everything out.
  · intro hcond
    have hshl : y * 2 ^ (c % 2 ^ 32) % 2 ^ 256 = y * 2 ^ c % 2 ^ 256 := by
      rcases hcond with hc | ⟨hzero, -⟩
      · rw [Nat.mod_eq_of_lt hc]
      · rcases count_cases c with hc | ⟨hc, -⟩
        · rw [hc]
        · rw [hzero, mul_pow_mod_large y hc]
    have hshr : y / 2 ^ (c % 2 ^ 32) = y / 2 ^ c := by
      rcases hcond with hc | ⟨-, hzero⟩
      · rw [Nat.mod_eq_of_lt hc]
      · rcases count_cases c with hc | ⟨hc, -⟩
        · rw [hc]
        · rw [hzero, word_div_large _ hc]
    exact ⟨(leaves_shl h).2 hshl, (leaves_shr h).2 hshr, fun hc =>
      ⟨(leaves_shl h).2 (hshl.trans (mul_pow_mod_large y hc)),
        (leaves_shr h).2 (hshr.trans (word_div_large _ hc))⟩⟩

/-- Shifts by 4. -/
theorem shift_iff_four : ShiftRule (wordsState [.ofU64 5, .ofU64 4]) 1 :=
  (shift_iff (s := wordsState [.ofU64 5, .ofU64 4]) (by decide : StackHolds 1 2)).2 (.inl (by decide))

/-- Shifts by `2 ^ 32`. -/
theorem shift_iff_narrowed : ¬ ShiftRule (wordsState [.one, .ofU64 0x100000000]) 1 := by
  intro hrule
  have hlarge := (hrule.large (by decide)).2
  have hshr := (leaves_shr (s := wordsState [.one, .ofU64 0x100000000])
    (by decide : StackHolds 1 2)).1 hlarge
  revert hshr
  decide

/-! ### `SAR` -/

/-- What `SAR` should leave: the quotient of the signed number, rounded down. -/
structure SarRule (s : ExecutionState) (top : StackTop) : Prop where
  sar : Leaves (sar top) s (top - 1)
    (unsigned (2 ^ 255) ((s.stackSpace (top - 1)).toInt / 2 ^ (s.stackSpace top).toNat))
  /-- Every bit is shifted out. -/
  large : 256 ≤ (s.stackSpace top).toNat → Leaves (TscVee.sar top) s (top - 1)
    (if (s.stackSpace (top - 1)).toInt < 0 then 2 ^ 256 - 1 else 0)

/-- A word is negative from `2 ^ 255` on. -/
theorem toInt_neg_iff (x : Uint256) : x.toInt < 0 ↔ 2 ^ 255 ≤ x.toNat := by
  have := x.toNat_lt
  unfold Uint256.toInt signed
  split <;> omega

/-- The test of the uppermost limb. -/
theorem u256Index_neg_iff (x : Uint256) : (u256Index x 3).toInt < 0 ↔ 2 ^ 255 ≤ x.toNat := by
  have hindex : u256Index x 3 = x.upper.upper := rfl
  have hupper := x.upper.upper.isLt
  have hlower := x.upper.lower.isLt
  have hrest := x.lower.toNat_lt
  rw [hindex, BitVec.toInt_neg_iff, x.toNat_eq, Uint128.toNat]
  omega

/-- The sign mask, shifted by the count `v`. -/
theorem signMask_shifted (v : Nat) :
    (2 ^ 256 - 1) * 2 ^ v % 2 ^ 256 = if v < 256 then 2 ^ 256 - 2 ^ v else 0 := by
  split
  case isTrue hv =>
    have hlt : (2 : Nat) ^ v < 2 ^ 256 := Nat.pow_lt_pow_right (by decide) hv
    have hpos : (0 : Nat) < 2 ^ v := Nat.two_pow_pos v
    generalize 2 ^ v = p at *
    have hsplit : (2 ^ 256 - 1) * p = 2 ^ 256 - p + 2 ^ 256 * (p - 1) := by omega
    rw [hsplit, Nat.add_mul_mod_self_left, Nat.mod_eq_of_lt (by omega)]
  case isFalse hv => exact mul_pow_mod_large _ (Nat.not_lt.1 hv)

/-- The word that `SAR` computes, with the narrowed count `v`. -/
theorem sarWord_toNat (y x : Uint256) :
    (sarWord y x).toNat =
      if 2 ^ 255 ≤ x.toNat then
        (x.toNat / 2 ^ (y.toNat % 2 ^ 32) +
          if y.toNat % 2 ^ 32 < 256 then 2 ^ 256 - 2 ^ (y.toNat % 2 ^ 32) else 0) % 2 ^ 256
      else x.toNat / 2 ^ (y.toNat % 2 ^ 32) := by
  have hones : (not256 .zero).toNat = 2 ^ 256 - 1 := by decide
  have hzero : Uint256.zero.toNat = 0 := rfl
  unfold sarWord
  simp only [add256_toNat, shiftr256_toNat, shiftl256_toNat, lowUint32_eq, u256Index_neg_iff]
  split
  case isTrue h => rw [hones, signMask_shifted]
  case isFalse h =>
    rw [hzero, Nat.zero_mul, Nat.zero_mod, Nat.add_zero, Nat.mod_eq_of_lt]
    exact (Nat.div_le_self _ _).trans_lt x.toNat_lt

/-- What SAR leaves. -/
theorem leaves_sar {n : Nat} (h : StackHolds top 2) :
    Leaves (sar top) s (top - 1) n ↔
      (sarWord (s.stackSpace top) (s.stackSpace (top - 1))).toNat = n :=
  leaves_binary h rfl

/-! Where the sign mask is right. In the following `x` is a negative word, `q` is what is left of it
behind a shift by `v`, and the mask is shifted by `v` instead of `256 - v`. -/

/-- The quotient of a negative word has its highest bit at `255 - v`. -/
theorem negative_quotient {x v : Nat} (hv : v < 256) (hx : 2 ^ 255 ≤ x) (hx' : x < 2 ^ 256) :
    2 ^ (255 - v) ≤ x / 2 ^ v ∧ x / 2 ^ v < 2 ^ (256 - v) := by
  constructor
  · rw [Nat.le_div_iff_mul_le (Nat.two_pow_pos v), ← Nat.pow_add, Nat.sub_add_cancel (by omega)]
    exact hx
  · refine Nat.div_lt_of_lt_mul ?_
    rw [← Nat.pow_add, Nat.add_sub_cancel' (by omega)]
    exact hx'

/-- A count below 256: the mask is right just for the count 128. -/
theorem mask_small_iff {v q : Nat} (hv : v < 256) (hq : q < 2 ^ (256 - v)) :
    (q + (2 ^ 256 - 2 ^ v)) % 2 ^ 256 = q + 2 ^ 256 - 2 ^ (256 - v) ↔ v = 128 := by
  have hlt : (2 : Nat) ^ v < 2 ^ 256 := Nat.pow_lt_pow_right (by decide) hv
  have hle : (2 : Nat) ^ (256 - v) ≤ 2 ^ 256 := Nat.pow_le_pow_right (by decide) (Nat.sub_le _ _)
  have hpos : (0 : Nat) < 2 ^ v := Nat.two_pow_pos v
  have hinj : (2 : Nat) ^ v = 2 ^ (256 - v) ↔ v = 128 := by
    rw [Nat.pow_right_inj (le_refl 2)]
    omega
  rw [← hinj]
  generalize 2 ^ v = p at *
  generalize 2 ^ (256 - v) = r at *
  clear hinj
  omega

/-- A narrowed count below 256, where all ones are due: the quotient has to fill the lower
places. -/
theorem mask_large_iff {v x : Nat} (hv : v < 256) (hx : 2 ^ 255 ≤ x) (hx' : x < 2 ^ 256) :
    (x / 2 ^ v + (2 ^ 256 - 2 ^ v)) % 2 ^ 256 = 2 ^ 256 - 1 ↔
      v = 128 ∧ x / 2 ^ 128 = 2 ^ 128 - 1 := by
  obtain ⟨hlow, hhigh⟩ := negative_quotient hv hx hx'
  have hlt : (2 : Nat) ^ v < 2 ^ 256 := Nat.pow_lt_pow_right (by decide) hv
  have hle : (2 : Nat) ^ (256 - v) ≤ 2 ^ 256 := Nat.pow_le_pow_right (by decide) (Nat.sub_le _ _)
  have hpos : (0 : Nat) < 2 ^ v := Nat.two_pow_pos v
  -- The sum is all ones exactly when the quotient is the complement of the mask.
  have hfill : (x / 2 ^ v + (2 ^ 256 - 2 ^ v)) % 2 ^ 256 = 2 ^ 256 - 1 ↔ x / 2 ^ v + 1 = 2 ^ v := by
    clear hlow hx hx'
    generalize x / 2 ^ v = q at *
    generalize 2 ^ (256 - v) = r at *
    generalize 2 ^ v = p at *
    omega
  rw [hfill]
  constructor
  · intro hq
    -- The quotient of a negative word lies between two powers, which leaves one count.
    have hge : 255 - v < v :=
      (Nat.pow_lt_pow_iff_right (by decide)).1 (show 2 ^ (255 - v) < 2 ^ v by omega)
    have hle' : v ≤ 256 - v :=
      (Nat.pow_le_pow_iff_right (by decide)).1 (show 2 ^ v ≤ 2 ^ (256 - v) by omega)
    obtain rfl : v = 128 := by omega
    exact ⟨rfl, by omega⟩
  · rintro ⟨rfl, hq⟩
    rw [hq]
    exact Nat.sub_add_cancel hpos

/-- The number that is due. -/
theorem sar_due (x : Uint256) (c : Nat) :
    unsigned (2 ^ 255) (x.toInt / 2 ^ c) =
      if 2 ^ 255 ≤ x.toNat then
        if c ≤ 256 then x.toNat / 2 ^ c + 2 ^ 256 - 2 ^ (256 - c) else 2 ^ 256 - 1
      else x.toNat / 2 ^ c := by
  unfold Uint256.toInt
  split
  case isTrue h => exact unsigned_shift_negative (n := 256) (by decide) h x.toNat_lt_two c
  case isFalse h => exact unsigned_shift_natural (Nat.not_le.1 h) c

/-- From 256 on, all ones or 0 are due. -/
theorem sar_due_large (x : Uint256) {c : Nat} (hc : 256 ≤ c) :
    unsigned (2 ^ 255) (x.toInt / 2 ^ c) = if x.toInt < 0 then 2 ^ 256 - 1 else 0 := by
  rw [sar_due]
  simp only [toInt_neg_iff, word_div_large x hc]
  split
  case isFalse => rfl
  case isTrue =>
  split
  case isFalse => rfl
  case isTrue hle =>
    rw [Nat.sub_eq_zero_of_le hc, Nat.zero_add, Nat.pow_zero]

/-- `SAR` of a negative word. -/
theorem sarWord_negative_iff {y x : Uint256} (hx : 2 ^ 255 ≤ x.toNat) :
    (sarWord y x).toNat = unsigned (2 ^ 255) (x.toInt / 2 ^ y.toNat) ↔
      y.toNat = 128 ∨ (y.toNat % 2 ^ 32 = 128 ∧ x.toNat / 2 ^ 128 = 2 ^ 128 - 1) := by
  rw [sarWord_toNat, if_pos hx]
  rcases Nat.lt_or_ge y.toNat 256 with hc | hc
  · have hnarrow : y.toNat % 2 ^ 32 = y.toNat := Nat.mod_eq_of_lt (hc.trans (by decide))
    rw [hnarrow, if_pos hc, sar_due, if_pos hx, if_pos hc.le,
      mask_small_iff hc (negative_quotient hc hx x.toNat_lt).2]
    exact ⟨.inl, fun h => h.elim id And.left⟩
  · rw [sar_due_large x hc, if_pos ((toInt_neg_iff x).2 hx)]
    have hne : y.toNat ≠ 128 := by omega
    simp only [hne, false_or]
    split
    case isTrue hv => exact mask_large_iff hv hx x.toNat_lt
    case isFalse hv =>
      rw [word_div_large x (Nat.not_lt.1 hv)]
      constructor
      · intro h
        exact absurd h (by decide)
      · rintro ⟨h, -⟩
        omega

/-- `SAR` of a word that is not negative. -/
theorem sarWord_natural_iff {y x : Uint256} (hx : x.toNat < 2 ^ 255) :
    (sarWord y x).toNat = unsigned (2 ^ 255) (x.toInt / 2 ^ y.toNat) ↔
      y.toNat < 2 ^ 32 ∨ x.toNat < 2 ^ (y.toNat % 2 ^ 32) := by
  rw [sarWord_toNat, if_neg (Nat.not_le.2 hx), sar_due, if_neg (Nat.not_le.2 hx)]
  rcases Nat.lt_or_ge y.toNat (2 ^ 32) with hc | hc
  · rw [Nat.mod_eq_of_lt hc]
    exact ⟨fun _ => .inl hc, fun _ => rfl⟩
  · rw [word_div_large x ((by decide : 256 ≤ 2 ^ 32).trans hc), div_pow_eq_zero_iff]
    exact ⟨.inr, fun h => h.resolve_left (Nat.not_lt.2 hc)⟩

/-- `SAR` leaves what it should just in these cases. The word is not negative, and the count is
below `2 ^ 32` or the narrowed count shifts out every bit as well. Or the word is negative, and the
count is 128, or it is 128 once it is narrowed and the upper half of the word is all ones. -/
theorem sar_iff (h : StackHolds top 2) :
    let c := (s.stackSpace top).toNat
    let x := (s.stackSpace (top - 1)).toNat
    SarRule s top ↔ (x < 2 ^ 255 ∧ (c < 2 ^ 32 ∨ x < 2 ^ (c % 2 ^ 32))) ∨
      (2 ^ 255 ≤ x ∧ (c = 128 ∨ (c % 2 ^ 32 = 128 ∧ x / 2 ^ 128 = 2 ^ 128 - 1))) := by
  intro c x
  have hrule : SarRule s top ↔ (sarWord (s.stackSpace top) (s.stackSpace (top - 1))).toNat =
      unsigned (2 ^ 255) ((s.stackSpace (top - 1)).toInt / 2 ^ c) := by
    refine ⟨fun hsar => (leaves_sar h).1 hsar.sar, fun heq => ⟨(leaves_sar h).2 heq, fun hc => ?_⟩⟩
    exact (leaves_sar h).2 (heq.trans (sar_due_large _ hc))
  rw [hrule]
  rcases Nat.lt_or_ge x (2 ^ 255) with hx | hx
  · rw [sarWord_natural_iff hx]
    exact ⟨fun hcond => .inl ⟨hx, hcond⟩,
      fun hcond => hcond.elim And.right fun hneg => absurd hneg.1 (Nat.not_le.2 hx)⟩
  · rw [sarWord_negative_iff hx]
    exact ⟨fun hcond => .inr ⟨hx, hcond⟩,
      fun hcond => hcond.elim (fun hnat => absurd hnat.1 (Nat.not_lt.2 hx)) And.right⟩

/-- 80 shifted by 4. -/
theorem sar_iff_four : SarRule (wordsState [.ofU64 80, .ofU64 4]) 1 :=
  (sar_iff (s := wordsState [.ofU64 80, .ofU64 4]) (by decide : StackHolds 1 2)).2
    (.inl ⟨by decide, .inl (by decide)⟩)

/-- -1 shifted by 1. -/
theorem sar_iff_negative : ¬ SarRule (wordsState [not256 .zero, .one]) 1 := by
  intro hrule
  have hsar := (leaves_sar (s := wordsState [not256 .zero, .one])
    (by decide : StackHolds 1 2)).1 hrule.sar
  revert hsar
  decide

end TscVee
