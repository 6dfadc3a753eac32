import Mathlib.Data.Nat.Digits.Lemmas
import Mathlib.Data.Nat.Factorization.Basic
import TscVee.Proofs.WordRules

/-!
# `TscVee.Proofs.Exponent`: `EXP`

The loop of `exp_` counts the exponent down in its stack slot and multiplies in a local variable,
which is not stored. `csb256`, which measures the exponent for the gas charge, reads 32 bits of each
of the upper three limbs and never reads the lowest.

* `sat_exp`: what `EXP` does, as a whole.
* `exp_iff`: where the power is left.
* `countSignificantBytes_eq`: the number of bytes of one limb.
* `expGas_iff`: the gas is right for the exponent 0 only.
-/

set_option autoImplicit false

namespace TscVee

open TscVee.Core Lib

variable {s : ExecutionState} {top : StackTop}

/-! ### What the code does -/

/-- The gas for each byte of the exponent. -/
def expByteCost (rev : Revision) : Int := if rev ≥ .spuriousDragon then 50 else 10

/-- The gas that the code charges. -/
def expCharge (s : ExecutionState) (top : StackTop) : Int :=
  csb256 (s.stackSpace (top - 1)) * expByteCost s.rev

/-- The word that the code leaves: 1 for the exponent 0, and else the exponent that has run out. -/
def expLeft (exponent : Uint256) : Uint256 := if zero256 exponent then .one else .zero

/-- The body behind the charge. -/
theorem exp_result (h : StackHolds top 2) {Q : Unit → ExecutionState → Prop}
    {E : Halt → ExecutionState → Prop} :
    Sat (if zero256 (s.stackSpace (top - 1)) then store (top - 1) .one
      else do
        let base ← load top
        storeResult (top - 1)
          (expLoop ((s.stackSpace (top - 1)).toNat + 1) base base (s.stackSpace (top - 1)))) s Q E ↔
      Q () (s.setSlot (top - 1) (expLeft (s.stackSpace (top - 1)))) := by
  have hslot := h.slot (i := 1) (by decide) (by decide)
  unfold expLeft
  split
  case isTrue => rw [sat_store, if_pos hslot]
  case isFalse =>
    rw [sat_bind, sat_load, if_pos (h.top (by decide)), expLoop_eq _ _ _ _ (Nat.lt_succ_self _)]
    unfold storeResult
    rw [sat_store, if_pos hslot]

/-- EXP charges first, and leaves in the exponent slot what its loop does. -/
theorem sat_exp (h : StackHolds top 2) {Q : Unit → ExecutionState → Prop}
    {E : Halt → ExecutionState → Prop} :
    Sat (exp top) s Q E ↔
      if isInt64 (s.gasLeft - expCharge s top) then
        if s.gasLeft - expCharge s top < 0 then
          E (.ret .outOfGas) { s with gasLeft := s.gasLeft - expCharge s top }
        else Q () ({ s with gasLeft := s.gasLeft - expCharge s top }.setSlot (top - 1)
          (expLeft (s.stackSpace (top - 1))))
      else E (.fault .signedOverflow) s := by
  have hslot := h.slot (i := 1) (by decide) (by decide)
  unfold exp
  dsimp only [StackTop.pop, StackTop.top]
  simp only [sat_bind, sat_read, sat_load, sat_chargeGas, if_pos hslot]
  show (if isInt64 (s.gasLeft - expCharge s top) then
    if s.gasLeft - expCharge s top < 0 then _ else Sat _ _ Q E else _) ↔ _
  -- The charge, the test of the gas behind it, then the result.
  by_cases hint : isInt64 (s.gasLeft - expCharge s top)
  · rw [if_pos hint, if_pos hint]
    by_cases hgas : s.gasLeft - expCharge s top < 0
    · rw [if_pos hgas, if_pos hgas]
      rfl
    · rw [if_neg hgas, if_neg hgas]
      exact exp_result (s := { s with gasLeft := s.gasLeft - expCharge s top }) h
  · rw [if_neg hint, if_neg hint]

/-! ### The power -/

/-- A power of two divides a power just if the base has enough factors two. -/
theorem two_pow_dvd_pow_iff {n b e : Nat} (he : e ≠ 0) :
    2 ^ n ∣ b ^ e ↔ ∃ k, 2 ^ k ∣ b ∧ n ≤ k * e := by
  constructor
  · intro hdvd
    rcases Nat.eq_zero_or_pos b with rfl | hb
    · exact ⟨n, Nat.dvd_zero _, Nat.le_mul_of_pos_right n (Nat.pos_of_ne_zero he)⟩
    · refine ⟨b.factorization 2, Nat.ordProj_dvd b 2, ?_⟩
      rw [Nat.prime_two.pow_dvd_iff_le_factorization (pow_ne_zero e hb.ne'),
        Nat.factorization_pow] at hdvd
      rw [Nat.mul_comm]
      exact hdvd
  · rintro ⟨k, hk, hn⟩
    calc 2 ^ n ∣ 2 ^ (k * e) := Nat.pow_dvd_pow 2 hn
      _ = (2 ^ k) ^ e := Nat.pow_mul 2 k e
      _ ∣ b ^ e := pow_dvd_pow_of_dvd hk e

/-- `EXP` ends normally. It has put the power in the slot of the exponent, and the other items are
as they were. -/
def ExpRule (s : ExecutionState) (top : StackTop) : Prop :=
  Sat (exp top) s
    (fun _ s' => (s'.stackSpace (top - 1)).toNat =
        (s.stackSpace top).toNat ^ (s.stackSpace (top - 1)).toNat % 2 ^ 256 ∧
      ∀ p, p ≠ top - 1 → s'.stackSpace p = s.stackSpace p)
    fun _ _ => False

/-- The charge is not negative. -/
theorem expCharge_nonneg (s : ExecutionState) (top : StackTop) : 0 ≤ expCharge s top := by
  refine Int.mul_nonneg (Int.natCast_nonneg _) ?_
  unfold expByteCost
  split <;> decide

/-- The exponent 0 leaves 1. -/
theorem expLeft_zero {e : Uint256} (he : e.toNat = 0) : (expLeft e).toNat = 1 := by
  unfold expLeft
  rw [if_pos ((zero256_iff e).2 he)]
  rfl

/-- Every other exponent is counted down to 0. -/
theorem expLeft_ne_zero {e : Uint256} (he : e.toNat ≠ 0) : (expLeft e).toNat = 0 := by
  unfold expLeft
  rw [if_neg (by rwa [zero256_iff])]
  rfl

/-- With enough gas, `EXP` leaves the power just for the exponent 0, and where the power is a
multiple of `2 ^ 256`: the base is a multiple of `2 ^ k`, for a `k` that makes 256 factors two with
the exponent. -/
theorem exp_iff (h : StackHolds top 2) (hint : isInt64 s.gasLeft)
    (hgas : expCharge s top ≤ s.gasLeft) :
    ExpRule s top ↔ (s.stackSpace (top - 1)).toNat = 0 ∨
      ∃ k, 2 ^ k ∣ (s.stackSpace top).toNat ∧ 256 ≤ k * (s.stackSpace (top - 1)).toNat := by
  have hcharge := expCharge_nonneg s top
  have hrest : isInt64 (s.gasLeft - expCharge s top) := by
    unfold isInt64 at *
    omega
  have hother : ∀ p, p ≠ top - 1 →
      (({ s with gasLeft := s.gasLeft - expCharge s top } : ExecutionState).setSlot (top - 1)
        (expLeft (s.stackSpace (top - 1)))).stackSpace p = s.stackSpace p :=
    fun p hp => if_neg hp
  unfold ExpRule
  rw [sat_exp h, if_pos hrest, if_neg (by omega), ExecutionState.setSlot_self]
  -- The loop leaves 1 for the exponent 0, and 0 for every other one.
  by_cases he : (s.stackSpace (top - 1)).toNat = 0
  · rw [expLeft_zero he, he, Nat.pow_zero]
    exact ⟨fun _ => .inl rfl, fun _ => ⟨by decide, hother⟩⟩
  · rw [expLeft_ne_zero he, ← two_pow_dvd_pow_iff he]
    constructor
    · rintro ⟨hpow, -⟩
      exact .inr (Nat.dvd_of_mod_eq_zero hpow.symm)
    · rintro (hzero | hdvd)
      · exact absurd hzero he
      · exact ⟨(Nat.mod_eq_zero_of_dvd hdvd).symm, hother⟩

/-- 16 to the power of 64, which is `2 ^ 256`. -/
theorem exp_iff_sixteen : ExpRule (wordsState [.ofU64 64, .ofU64 16]) 1 :=
  (exp_iff (s := wordsState [.ofU64 64, .ofU64 16]) (by decide : StackHolds 1 2)
    (by with_unfolding_all decide) (by with_unfolding_all decide)).2
    (.inr ⟨4, by with_unfolding_all decide, by with_unfolding_all decide⟩)

/-- 3 to the power of 2. -/
theorem exp_iff_two : ¬ ExpRule (wordsState [.ofU64 2, .ofU64 3]) 1 := by
  intro hrule
  have hsat := (sat_exp (s := wordsState [.ofU64 2, .ofU64 3]) (by decide : StackHolds 1 2)).1 hrule
  rw [if_pos (by with_unfolding_all decide), if_neg (by decide)] at hsat
  exact absurd hsat.1 (by decide)

/-! ### The number of bytes -/

/-- One round of `clz` moves a shift from the number to the count. -/
theorem clzStep_eq {nx : Nat × U64} {i : Nat} (hx : nx.2.toNat < 2 ^ 2 ^ (i + 1))
    (hn : nx.2.toNat.size ≤ nx.1) :
    (clzStep nx i).2.toNat < 2 ^ 2 ^ i ∧ (clzStep nx i).2.toNat.size ≤ (clzStep nx i).1 ∧
      (clzStep nx i).2.toNat.size + nx.1 = nx.2.toNat.size + (clzStep nx i).1 := by
  have hshift : (nx.2 >>> (1 <<< i)).toNat = nx.2.toNat / 2 ^ 2 ^ i := by
    rw [BitVec.toNat_ushiftRight, Nat.shiftRight_eq_div_pow, Nat.one_shiftLeft]
  have hpow : 2 ^ (2 : Nat) ^ (i + 1) = 2 ^ 2 ^ i * 2 ^ 2 ^ i := by
    rw [← Nat.pow_add, Nat.pow_succ, Nat.mul_two]
  unfold clzStep
  simp only [Nat.one_shiftLeft] at *
  split
  case isTrue hne =>
    have hne' : nx.2.toNat / 2 ^ 2 ^ i ≠ 0 := by
      rw [← hshift]
      exact fun h => hne (BitVec.eq_of_toNat_eq h)
    have hsplit : nx.2.toNat.size = 2 ^ i + (nx.2.toNat / 2 ^ 2 ^ i).size := by
      conv_lhs => rw [← Nat.div_add_mod nx.2.toNat (2 ^ 2 ^ i), Nat.mul_comm]
      exact size_limbs hne' (Nat.mod_lt _ (Nat.two_pow_pos _))
    rw [hshift]
    refine ⟨Nat.div_lt_of_lt_mul (by rwa [← hpow]), ?_, ?_⟩ <;> omega
  case isFalse hzero =>
    have hlt : nx.2.toNat / 2 ^ 2 ^ i = 0 := by
      rw [← hshift, Classical.not_not.1 hzero]
      rfl
    exact ⟨(Nat.div_eq_zero_iff_lt (Nat.two_pow_pos _)).1 hlt, hn, rfl⟩

/-- The rounds for `k - 1` down to 0 leave a bit. -/
theorem clzLoop_eq (k : Nat) {nx : Nat × U64} (hx : nx.2.toNat < 2 ^ 2 ^ k)
    (hn : nx.2.toNat.size ≤ nx.1) :
    let last := (List.range k).reverse.foldl clzStep nx
    last.2.toNat < 2 ∧ last.2.toNat.size ≤ last.1 ∧
      last.2.toNat.size + nx.1 = nx.2.toNat.size + last.1 := by
  induction k generalizing nx with
  | zero => exact ⟨by simpa using hx, hn, rfl⟩
  | succ k ih =>
      obtain ⟨hlt, hle, hsum⟩ := clzStep_eq hx hn
      obtain ⟨hlt', hle', hsum'⟩ := ih hlt hle
      have hrange : (List.range (k + 1)).reverse = k :: (List.range k).reverse := by
        rw [List.range_succ, List.reverse_append]
        rfl
      rw [hrange, List.foldl_cons]
      exact ⟨hlt', hle', by omega⟩

/-- The binary search finds the highest bit. -/
theorem clz_eq (x : U64) : clz x = 64 - x.toNat.size := by
  have hsize : x.toNat.size ≤ 64 := Nat.size_le.2 x.isLt
  have hlist : [5, 4, 3, 2, 1, 0] = (List.range 6).reverse := by decide
  obtain ⟨hlt, hle, hsum⟩ := clzLoop_eq 6 (show (64, x).2.toNat < 2 ^ 2 ^ 6 from x.isLt) hsize
  unfold clz
  rw [hlist]
  generalize (List.range 6).reverse.foldl clzStep (64, x) = nx at *
  have hbit : nx.2.toNat.size = nx.2.toNat := by
    obtain hzero | hone : nx.2.toNat = 0 ∨ nx.2.toNat = 1 := by omega
    · rw [hzero]
      exact Nat.size_zero
    · rw [hone]
      exact Nat.size_one
  have hcount : nx.2.toNat.size + 64 = x.toNat.size + nx.1 := hsum
  show nx.1 - nx.2.toNat = _
  omega

/-- The number of bytes of a limb. -/
theorem countSignificantBytes_eq (x : U64) :
    countSignificantBytes x = (x.toNat.size + 7) / 8 := by
  have hsize : x.toNat.size ≤ 64 := Nat.size_le.2 x.isLt
  unfold countSignificantBytes
  rw [clz_eq]
  omega

/-- The number of bytes of the shortest big-endian representation. -/
def significantBytes (n : Nat) : Nat := (Nat.digits 256 n).length

/-- A number that needs more than `k` bytes. -/
theorem le_significantBytes {n k : Nat} (h : 256 ^ k ≤ n) : k < significantBytes n :=
  (Nat.lt_digits_length_iff (by decide) _).2 h

/-- A limb that is cut to 32 bits has at most four bytes. -/
theorem countSignificantBytes_toUnsigned (x : U64) : countSignificantBytes (toUnsigned x) ≤ 4 := by
  have hlt : (toUnsigned x).toNat < 2 ^ 32 := by
    unfold toUnsigned
    rw [BitVec.toNat_setWidth]
    exact (Nat.mod_le _ _).trans_lt (BitVec.isLt _)
  have hsize : (toUnsigned x).toNat.size ≤ 32 := Nat.size_le.2 hlt
  rw [countSignificantBytes_eq]
  omega

/-- A limb whose low half is not zero. -/
theorem toUnsigned_ne_zero {x : U64} (h : toUnsigned x ≠ 0) : x.toNat ≠ 0 := by
  intro hzero
  have hx : x = 0 := BitVec.eq_of_toNat_eq hzero
  rw [hx] at h
  exact h rfl

/-- A limb above the lowest one has more bytes below it than the code counts in all. -/
theorem limb_lt_significantBytes {limb : U64} {n k : Nat} (hlimb : toUnsigned limb ≠ 0) (hk : 1 ≤ k)
    (h : limb.toNat * 256 ^ (8 * k) ≤ n) :
    countSignificantBytes (toUnsigned limb) + k < significantBytes n := by
  have hpos : 1 ≤ limb.toNat := Nat.pos_of_ne_zero (toUnsigned_ne_zero hlimb)
  have hbytes : 256 ^ (8 * k) ≤ n := (Nat.le_mul_of_pos_left _ hpos).trans h
  have := le_significantBytes hbytes
  have := countSignificantBytes_toUnsigned limb
  omega

/-- The code counts too few bytes for every exponent but 0: at most four for the limb that it stops
at, and one for each limb below. -/
theorem csb256_lt {x : Uint256} (hx : x.toNat ≠ 0) : csb256 x < significantBytes x.toNat := by
  have hr64 : countSignificantBytes 64 = 1 := by decide
  have hlimbs : x.toNat = ((x.upper.upper.toNat * 2 ^ 64 + x.upper.lower.toNat) * 2 ^ 64 +
    x.lower.upper.toNat) * 2 ^ 64 + x.lower.lower.toNat := rfl
  unfold csb256
  simp only [hr64]
  split
  case isTrue h => exact limb_lt_significantBytes h (by decide) (by omega)
  split
  case isTrue h => exact limb_lt_significantBytes h (by decide) (by omega)
  split
  case isTrue h => exact limb_lt_significantBytes h (by decide) (by omega)
  case isFalse h =>
    -- The third limb is read again, in the place of the lowest one.
    have hzero : toUnsigned x.lower.upper = 0 := Classical.not_not.1 h
    have hbytes : 256 ^ 0 ≤ x.toNat := Nat.pos_of_ne_zero hx
    have hlt := le_significantBytes hbytes
    rw [hzero, countSignificantBytes_eq]
    simpa using hlt

/-! ### The gas -/

/-- What `EXP` should charge. -/
def expCost (s : ExecutionState) (top : StackTop) : Int :=
  significantBytes (s.stackSpace (top - 1)).toNat * expByteCost s.rev

/-- `EXP` charges `expCost`, and runs out of gas just where this is more than `gas_left`. -/
def ExpGasRule (s : ExecutionState) (top : StackTop) : Prop :=
  Sat (exp top) s (fun _ s' => expCost s top ≤ s.gasLeft ∧ s'.gasLeft = s.gasLeft - expCost s top)
    fun halt s' => halt = .ret .outOfGas ∧ s.gasLeft < expCost s top ∧
      s'.gasLeft = s.gasLeft - expCost s top

/-- The gas of `EXP` is right just for the exponent 0. -/
theorem expGas_iff (h : StackHolds top 2) (hint : isInt64 s.gasLeft) :
    ExpGasRule s top ↔ (s.stackSpace (top - 1)).toNat = 0 := by
  unfold ExpGasRule
  rw [sat_exp h]
  constructor
  · intro hrule
    by_contra hne
    -- The source counts too few bytes for every exponent but 0.
    have hcost : expCharge s top < expCost s top := by
      refine Int.mul_lt_mul_of_pos_right (Int.ofNat_lt.2 (csb256_lt hne)) ?_
      unfold expByteCost
      split <;> decide
    split at hrule
    case isTrue =>
      split at hrule
      case isTrue =>
        have hgas : s.gasLeft - expCharge s top = s.gasLeft - expCost s top := hrule.2.2
        omega
      case isFalse =>
        have hgas : s.gasLeft - expCharge s top = s.gasLeft - expCost s top := hrule.2
        omega
    case isFalse => exact absurd hrule.1 (by decide)
  · intro hzero
    -- For the exponent 0 neither counts a byte.
    have hword : s.stackSpace (top - 1) = .zero := Uint256.toNat_inj hzero
    have hcharge : expCharge s top = 0 := by
      have hcount : csb256 .zero = 0 := by decide
      unfold expCharge
      rw [hword, hcount]
      exact Int.zero_mul _
    have hcost : expCost s top = 0 := by
      have hcount : significantBytes 0 = 0 := rfl
      unfold expCost
      rw [hzero, hcount]
      exact Int.zero_mul _
    rw [hcharge, hcost, Int.sub_zero, if_pos hint]
    split
    case isTrue hneg => exact ⟨rfl, hneg, rfl⟩
    case isFalse hnonneg => exact ⟨Int.not_lt.1 hnonneg, rfl⟩

/-- The exponent 0. -/
theorem expGas_iff_zero : ExpGasRule (wordsState [.zero, .ofU64 3]) 1 :=
  (expGas_iff (s := wordsState [.zero, .ofU64 3]) (by decide : StackHolds 1 2) (by with_unfolding_all decide)).2
    (by decide)

/-- The exponent 2, which is charged nothing. -/
theorem expGas_iff_two : ¬ ExpGasRule (wordsState [.ofU64 2, .ofU64 3]) 1 := by
  intro hrule
  have hsat := (sat_exp (s := wordsState [.ofU64 2, .ofU64 3]) (by decide : StackHolds 1 2)).1 hrule
  rw [if_pos (by with_unfolding_all decide), if_neg (by decide)] at hsat
  have hcost : expCost (wordsState [.ofU64 2, .ofU64 3]) 1 = 50 := by with_unfolding_all decide
  have hgas : (100000 : Int) - 0 = 100000 - expCost (wordsState [.ofU64 2, .ofU64 3]) 1 := hsat.2
  rw [hcost] at hgas
  exact absurd hgas (by decide)

end TscVee
