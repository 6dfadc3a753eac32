import Mathlib.Data.Nat.ModEq
import TscVee.Proofs.StorageMap

/-!
# `TscVee.Proofs.MapSearch`: where a search of a map ends

The probe loop of a `cmap` goes round the buckets, from the start of the key on, until a bucket is
free or holds the key.

* `loadLimit_le`, `le_bucketsFor`: the load factor in `float` leaves a bucket free, and a new table
  has more buckets than entries.
* `Stops`: a bucket where the search for a key stops. `bucket_eq_some_iff`: a search ends at the
  first of them.
* `exists_bucket`: with a free bucket, every search ends.
-/

set_option autoImplicit false

namespace TscVee

open Lib

/-! ### The load factor -/

/-- The rounded quotient is not below the quotient. -/
theorem div_le_roundDiv (n d : Nat) : n / d ≤ roundDiv n d := by
  unfold roundDiv
  dsimp only
  split
  · exact le_refl _
  · split <;> omega

/-- The rounded quotient is at most one above the quotient. -/
theorem roundDiv_le (n d : Nat) : roundDiv n d ≤ n / d + 1 := by
  unfold roundDiv
  dsimp only
  split
  · omega
  · split <;> omega

/-- The conversion to `float` is off by less than one part in `2 ^ 23`. -/
theorem toF32_bounds (n : Nat) :
    2 ^ 23 * toF32 n ≤ (2 ^ 23 + 1) * n ∧ (2 ^ 23 - 1) * n ≤ 2 ^ 23 * toF32 n := by
  unfold toF32
  split
  · omega
  -- From 2^24 on, the number is rounded to a multiple of the power `d`.
  case isFalse hn =>
    have hlog : 24 ≤ n.log2 := (Nat.le_log2 (by omega)).2 (by omega)
    have hpow : 2 ^ n.log2 ≤ n := Nat.log2_self_le (by omega)
    have hsplit : 2 ^ n.log2 = 2 ^ 23 * 2 ^ (n.log2 - 23) := by
      rw [← Nat.pow_add]
      congr 1
      omega
    have hpos : 0 < 2 ^ (n.log2 - 23) := Nat.two_pow_pos _
    generalize 2 ^ (n.log2 - 23) = d at hsplit hpos ⊢
    have hlow := Nat.mul_le_mul_right d (div_le_roundDiv n d)
    have hhigh := Nat.mul_le_mul_right d (roundDiv_le n d)
    have hdiv := Nat.div_add_mod' n d
    have hmod : n % d < d := Nat.mod_lt _ hpos
    rw [Nat.add_mul, Nat.one_mul] at hhigh
    generalize roundDiv n d * d = r at hlow hhigh ⊢
    generalize n / d * d = q at hlow hhigh hdiv
    omega

/-- A table that is not too full has a free bucket. -/
theorem loadLimit_le (n : Nat) : loadLimit n ≤ n := by
  have h := (toF32_bounds n).1
  have h' := (toF32_bounds (toF32 n * loadFactorNum)).1
  unfold loadLimit
  unfold loadFactorNum at *
  omega

/-- A new table has at least as many buckets as asked for, and less than twice as many. -/
theorem le_bucketsFor (n : Nat) :
    n ≤ bucketsFor n ∧ bucketsFor n ≤ n + n / 2 + n / 4 + 3 := by
  obtain ⟨h1, h2⟩ := toF32_bounds n
  unfold bucketsFor
  dsimp only
  generalize hm : toF32 n * 2 ^ 24 = m
  have hq : n + n / 8 ≤ m / loadFactorNum ∧ m / loadFactorNum ≤ n + n / 2 + 1 := by
    unfold loadFactorNum
    omega
  split
  -- A small quotient has bits behind the point, which rounding down drops.
  case isTrue hl =>
    have hd : 0 < 2 ^ (23 - (m / loadFactorNum).log2) := Nat.two_pow_pos _
    generalize 2 ^ (23 - (m / loadFactorNum).log2) = d at hd ⊢
    have hquot : m * d / loadFactorNum / d = m / loadFactorNum := by
      rw [Nat.div_div_eq_div_mul, Nat.mul_div_mul_right _ _ hd]
    have hlow := Nat.div_le_div_right (c := d) (div_le_roundDiv (m * d) loadFactorNum)
    have hhigh := Nat.div_le_div_right (c := d) (roundDiv_le (m * d) loadFactorNum)
    have hsucc : (m * d / loadFactorNum + 1) / d ≤ m * d / loadFactorNum / d + 1 :=
      (Nat.div_le_div_right (by omega)).trans_eq (Nat.add_div_right _ hd)
    omega
  -- A large one loses its lowest bits.
  case isFalse hl =>
    have hlog : 2 ^ (m / loadFactorNum).log2 ≤ m / loadFactorNum := Nat.log2_self_le fun h => by
      rw [h] at hl
      exact hl (by decide)
    have hsplit : 2 ^ (m / loadFactorNum).log2 = 2 ^ 23 * 2 ^ ((m / loadFactorNum).log2 - 23) := by
      rw [← Nat.pow_add]
      congr 1
      omega
    have hd : 0 < 2 ^ ((m / loadFactorNum).log2 - 23) := Nat.two_pow_pos _
    generalize 2 ^ ((m / loadFactorNum).log2 - 23) = d at hsplit hd ⊢
    have hlow := Nat.mul_le_mul_right d (div_le_roundDiv m (loadFactorNum * d))
    have hhigh := Nat.mul_le_mul_right d (roundDiv_le m (loadFactorNum * d))
    rw [← Nat.div_div_eq_div_mul, Nat.add_mul, Nat.one_mul] at hhigh
    rw [← Nat.div_div_eq_div_mul] at hlow
    have hdiv := Nat.div_add_mod' (m / loadFactorNum) d
    have hmod : m / loadFactorNum % d < d := Nat.mod_lt _ hd
    omega

/-! ### Searches -/

namespace CMap

variable {κ ν : Type} {buckets : List (Option (Bucket κ ν))}

/-- The number of buckets in use. -/
def occupied (buckets : List (Option (Bucket κ ν))) : Nat := buckets.countP Option.isSome

/-- An array that is not full has a free place. -/
theorem exists_free (h : occupied buckets < buckets.length) :
    ∃ j < buckets.length, buckets.getD j none = none := by
  by_contra hfull
  refine absurd ?_ (Nat.ne_of_lt h)
  refine List.countP_eq_length.2 fun o ho => ?_
  obtain ⟨j, hj, rfl⟩ := List.getElem_of_mem ho
  have hne : buckets.getD j none ≠ none := fun hnone => hfull ⟨j, hj, hnone⟩
  rw [List.getD_eq_getElem?_getD, List.getElem?_eq_getElem hj, Option.getD_some] at hne
  exact Option.isSome_iff_ne_none.2 hne

/-- The next bucket, behind the last one the first. -/
theorem next_eq {n idx : Nat} (h : idx < n) :
    (if idx + 1 = n then 0 else idx + 1) = (idx + 1) % n := by
  split
  case isTrue heq => rw [heq, Nat.mod_self]
  case isFalse hne => rw [Nat.mod_eq_of_lt (by omega)]

variable [MapKey κ] {rkey : κ} {fuel idx i : Nat}

/-- The search for the key stops at the bucket. -/
def Stops (buckets : List (Option (Bucket κ ν))) (rkey : κ) (i : Nat) : Prop :=
  ∀ b, buckets.getD i none = some b → Bucket.holds b rkey = true

/-- The search stops at a free place. -/
theorem stops_of_free (h : buckets.getD i none = none) : Stops buckets rkey i := fun b hb => by
  rw [h] at hb
  cases hb

/-- The search ends where it stops. -/
theorem probe_of_stops (h : Stops buckets rkey idx) :
    probe buckets rkey (fuel + 1) idx = some idx := by
  unfold probe
  cases hb : buckets.getD idx none with
  | none => rfl
  | some b => exact if_pos (h b hb)

/-- Else it goes on at the next place, around the end of the array. -/
theorem probe_of_not_stops (h : ¬ Stops buckets rkey idx) (hidx : idx < buckets.length) :
    probe buckets rkey (fuel + 1) idx = probe buckets rkey fuel ((idx + 1) % buckets.length) := by
  rw [← next_eq hidx]
  conv_lhs => unfold probe
  cases hb : buckets.getD idx none with
  | none => exact absurd (stops_of_free hb) h
  | some b =>
      refine if_neg fun hholds => h fun b' hb' => ?_
      obtain rfl := Option.some.inj (hb.symm.trans hb')
      exact hholds

/-- A probe goes on to the first bucket where it stops. -/
theorem probe_eq_some_iff (hidx : idx < buckets.length) :
    probe buckets rkey fuel idx = some i ↔ ∃ d < fuel, (idx + d) % buckets.length = i ∧
      Stops buckets rkey i ∧ ∀ j < d, ¬ Stops buckets rkey ((idx + j) % buckets.length) := by
  -- On the fuel. The first place is looked at, or skipped and the search shifted by one.
  induction fuel generalizing idx with
  | zero =>
      refine iff_of_false (fun h => by cases h) ?_
      rintro ⟨d, hd, -⟩
      exact absurd hd (Nat.not_lt_zero d)
  | succ fuel ih =>
      have hfirst : (idx + 0) % buckets.length = idx := Nat.mod_eq_of_lt hidx
      by_cases hstops : Stops buckets rkey idx
      · rw [probe_of_stops hstops]
        constructor
        · rintro ⟨⟩
          exact ⟨0, Nat.succ_pos _, hfirst, hstops, fun j hj => absurd hj (Nat.not_lt_zero j)⟩
        · rintro ⟨d, -, rfl, -, hbefore⟩
          cases d with
          | zero => rw [hfirst]
          | succ d =>
              have hnot := hbefore 0 (Nat.succ_pos d)
              rw [hfirst] at hnot
              exact absurd hstops hnot
      · have hshift : ∀ j, ((idx + 1) % buckets.length + j) % buckets.length =
            (idx + (j + 1)) % buckets.length := fun j => by
          rw [Nat.mod_add_mod, Nat.add_assoc, Nat.add_comm 1 j]
        rw [probe_of_not_stops hstops hidx, ih (Nat.mod_lt _ (by omega))]
        simp only [hshift]
        constructor
        · rintro ⟨d, hd, hi, hstop, hbefore⟩
          refine ⟨d + 1, by omega, hi, hstop, fun j hj => ?_⟩
          cases j with
          | zero => rwa [hfirst]
          | succ j => exact hbefore j (by omega)
        · rintro ⟨d, hd, hi, hstop, hbefore⟩
          cases d with
          | zero =>
              rw [hfirst] at hi
              exact absurd (hi ▸ hstop) hstops
          | succ d => exact ⟨d, by omega, hi, hstop, fun j hj => hbefore (j + 1) (by omega)⟩

/-- The search starts in the array. -/
theorem startIdx_lt {n : Nat} (h : 0 < n) (rkey : κ) : startIdx n rkey < n := by
  unfold startIdx
  have hhash := (MapKey.hash rkey).isLt
  exact Nat.div_lt_of_lt_mul (Nat.mul_lt_mul_of_pos_right hhash h)

/-- The bucket `d` steps behind the start of the key. -/
def fromStart (n : Nat) (rkey : κ) (d : Nat) : Nat := (startIdx n rkey + d) % n

/-- The search ends at the first place, from its start on, at which it stops. -/
theorem bucket_eq_some_iff :
    bucket buckets rkey = some i ↔ ∃ d < buckets.length, fromStart buckets.length rkey d = i ∧
      Stops buckets rkey i ∧ ∀ j < d, ¬ Stops buckets rkey (fromStart buckets.length rkey j) := by
  unfold bucket
  rcases Nat.eq_zero_or_pos buckets.length with hzero | hpos
  · rw [hzero]
    refine iff_of_false (fun h => by cases h) ?_
    rintro ⟨d, hd, -⟩
    exact absurd hd (Nat.not_lt_zero d)
  · exact probe_eq_some_iff (startIdx_lt hpos rkey)

/-- Each bucket is some steps behind the start. -/
theorem exists_fromStart {n : Nat} (hi : i < n) (rkey : κ) : ∃ d < n, fromStart n rkey d = i := by
  have hstart := startIdx_lt (Nat.zero_lt_of_lt hi) rkey
  refine ⟨(i + n - startIdx n rkey) % n, Nat.mod_lt _ (by omega), ?_⟩
  have hround : startIdx n rkey + (i + n - startIdx n rkey) = i + n := by omega
  unfold fromStart
  rw [Nat.add_mod_mod, hround, Nat.add_mod_right, Nat.mod_eq_of_lt hi]

/-- The steps of one round lead to different buckets. -/
theorem fromStart_inj {n d d' : Nat} (hd : d < n) (hd' : d' < n)
    (h : fromStart n rkey d = fromStart n rkey d') : d = d' := by
  have hmod : d % n = d' % n := Nat.ModEq.add_left_cancel' (startIdx n rkey) h
  rwa [Nat.mod_eq_of_lt hd, Nat.mod_eq_of_lt hd'] at hmod

/-- A search ends if it can stop somewhere. -/
theorem exists_bucket_of_stops (hi : i < buckets.length) (h : Stops buckets rkey i) :
    ∃ idx < buckets.length, bucket buckets rkey = some idx ∧ Stops buckets rkey idx := by
  classical
  obtain ⟨d, hd, rfl⟩ := exists_fromStart hi rkey
  have hexists : ∃ d, Stops buckets rkey (fromStart buckets.length rkey d) := ⟨d, h⟩
  have hfirst := Nat.find_spec hexists
  refine ⟨_, Nat.mod_lt _ (by omega), bucket_eq_some_iff.2 ⟨Nat.find hexists, ?_, rfl, hfirst, ?_⟩,
    hfirst⟩
  · exact (Nat.find_min' hexists h).trans_lt hd
  · exact fun j hj => Nat.find_min hexists hj

/-- With a free bucket, the search for a key ends. -/
theorem exists_bucket (h : occupied buckets < buckets.length) (rkey : κ) :
    ∃ idx < buckets.length, bucket buckets rkey = some idx ∧ Stops buckets rkey idx := by
  obtain ⟨j, hj, hfree⟩ := exists_free h
  exact exists_bucket_of_stops hj (stops_of_free hfree)

end CMap

end TscVee
