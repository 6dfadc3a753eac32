import TscVee.Proofs.WordRules

/-!
# `TscVee.Proofs.SignExtend`: `SIGNEXTEND`

The loop over the limbs above the sign word writes the sign word in every round, and the word with
the extended sign is dropped. So the instruction replaces the sign word by eight bits of the sign,
moved down, and leaves the other limbs alone.

* `signextendWord_testBit`: the bits of the result.
* `signextend_iff`: where they are those of the extended word.
-/

set_option autoImplicit false

namespace TscVee

open TscVee.Core Lib

variable {s : ExecutionState} {top : StackTop}

/-! ### The bits of a word -/

/-- A bit of the lower limb. -/
theorem testBit_limb_low {hi lo n i : Nat} (hlo : lo < 2 ^ n) (hi' : i < n) :
    (hi * 2 ^ n + lo).testBit i = lo.testBit i := by
  rw [Nat.mul_comm, Nat.testBit_two_pow_mul_add _ hlo, if_pos hi']

/-- A bit of the upper limb. -/
theorem testBit_limb_high {hi lo n i : Nat} (hlo : lo < 2 ^ n) :
    (hi * 2 ^ n + lo).testBit (n + i) = hi.testBit i := by
  rw [Nat.mul_comm, Nat.testBit_two_pow_mul_add _ hlo, if_neg (by omega), Nat.add_sub_cancel_left]

/-- Bit `64 * k + j` is bit `j` of the limb `k`. -/
theorem Uint256.testBit_limb (x : Uint256) {k j : Nat} (hk : k < 4) (hj : j < 64) :
    x.toNat.testBit (64 * k + j) = (u256Index x k).getLsbD j := by
  have h0 := x.lower.lower.isLt
  have h1 := x.lower.upper.isLt
  have h2 := x.upper.lower.isLt
  unfold Uint256.toNat
  obtain rfl | rfl | rfl | rfl : k = 0 ∨ k = 1 ∨ k = 2 ∨ k = 3 := by omega
  · rw [Nat.mul_zero, Nat.zero_add, testBit_limb_low h0 hj]
    rfl
  · rw [Nat.mul_one, testBit_limb_high h0, testBit_limb_low h1 hj]
    rfl
  · have hsum : 64 * 2 + j = 64 + (64 + j) := by omega
    rw [hsum, testBit_limb_high h0, testBit_limb_high h1, testBit_limb_low h2 hj]
    rfl
  · have hsum : 64 * 3 + j = 64 + (64 + (64 + j)) := by omega
    rw [hsum, testBit_limb_high h0, testBit_limb_high h1, testBit_limb_high h2]
    rfl

/-- A bit of a word is one of its limbs. -/
theorem Uint256.testBit (x : Uint256) {i : Nat} (hi : i < 256) :
    x.toNat.testBit i = (u256Index x (i / 64)).getLsbD (i % 64) := by
  rw [← x.testBit_limb (by omega) (Nat.mod_lt i (by decide)), Nat.div_add_mod]

/-- Two words with the same bits are the same. -/
theorem Uint256.ext_testBit {x y : Uint256}
    (h : ∀ i, i < 256 → x.toNat.testBit i = y.toNat.testBit i) : x = y := by
  refine Uint256.toNat_inj (Nat.eq_of_testBit_eq fun i => ?_)
  rcases Nat.lt_or_ge i 256 with hi | hi
  · exact h i hi
  · have hpow : (2 : Nat) ^ 256 ≤ 2 ^ i := Nat.pow_le_pow_right (by decide) hi
    rw [Nat.testBit_lt_two_pow (x.toNat_lt.trans_le hpow),
      Nat.testBit_lt_two_pow (y.toNat_lt.trans_le hpow)]

/-- The limb that is set, and the others. -/
theorem u256Index_set {x : Uint256} {k j : Nat} {v : U64} (hk : k < 4) (hj : j < 4) :
    u256Index (setU256Index x k v) j = if j = k then v else u256Index x j := by
  obtain rfl | rfl | rfl | rfl : k = 0 ∨ k = 1 ∨ k = 2 ∨ k = 3 := by omega
  all_goals
    obtain rfl | rfl | rfl | rfl : j = 0 ∨ j = 1 ∨ j = 2 ∨ j = 3 := by omega
    all_goals rfl

/-! ### What the code leaves -/

/-- The bits that the code fills the sign word with: those of the sign, but for the upper eight. -/
theorem signEx_getLsbD (w : U64) {k j : Nat} (hj : j < 64) :
    (((w >>> (k * 8)).setWidth 8 : Byte).signExtend 64 >>> 8).getLsbD j =
      (decide (j < 56) && w.getLsbD (8 * k + 7)) := by
  have hmsb : ((w >>> (k * 8)).setWidth 8 : Byte).msb = w.getLsbD (8 * k + 7) := by
    rw [BitVec.msb_setWidth]
    simp [Nat.mul_comm]
  rw [BitVec.getLsbD_ushiftRight, BitVec.getLsbD_signExtend, hmsb]
  by_cases h : j < 56
  · simp [h, show ¬ 8 + j < 8 by omega, show 8 + j < 64 by omega]
  · simp [h, show ¬ 8 + j < 64 by omega]

/-- A sign byte above the lower three limbs, or no sign byte. -/
theorem signextendWord_high {ext x : Uint256} (h : 24 ≤ ext.toNat) : signextendWord ext x = x := by
  unfold signextendWord
  split
  case isFalse => rfl
  case isTrue hsmall =>
    have hlow : ext.low = ext.toNat :=
      low_eq_toNat (((belowSmall_iff (by decide)).1 hsmall).trans (by decide))
    simp only [hlow]
    rw [if_neg (by omega)]

/-- A sign byte in one of the lower three limbs. -/
theorem signextendWord_testBit {ext x : Uint256} (h : ext.toNat < 24) {i : Nat} (hi : i < 256) :
    (signextendWord ext x).toNat.testBit i =
      if i / 64 = ext.toNat / 8 then decide (i % 64 < 56) && x.toNat.testBit (8 * ext.toNat + 7)
      else x.toNat.testBit i := by
  have hsmall : belowSmall ext 31 = true := (belowSmall_iff (by decide)).2 (by omega)
  have hlow : ext.low = ext.toNat := low_eq_toNat (h.trans (by decide))
  have hsign : x.toNat.testBit (8 * ext.toNat + 7) =
      (u256Index x (ext.toNat / 8)).getLsbD (8 * (ext.toNat % 8) + 7) := by
    rw [← x.testBit_limb (by omega) (by omega)]
    congr 1
    omega
  unfold signextendWord
  rw [if_pos hsmall]
  simp only [hlow]
  rw [if_pos (by omega), Uint256.testBit _ hi, u256Index_set (by omega) (by omega)]
  split
  case isTrue heq =>
    rw [signEx_getLsbD _ (Nat.mod_lt i (by decide)), hsign]
  case isFalse hne => rw [x.testBit hi]

/-! ### Where this is right -/

/-- What `SIGNEXTEND` should do. -/
structure SignExtendRule (s : ExecutionState) (top : StackTop) : Prop where
  unchanged : 31 ≤ (s.stackSpace top).toNat →
    Leaves (signextend top) s (top - 1) (s.stackSpace (top - 1)).toNat
  /-- The bits up to the sign are those of the word, and those above are the sign. -/
  extended : (s.stackSpace top).toNat < 31 → ∃ n, Leaves (signextend top) s (top - 1) n ∧
    ∀ i, i < 256 → n.testBit i =
      if i ≤ 8 * (s.stackSpace top).toNat + 7 then (s.stackSpace (top - 1)).toNat.testBit i
      else (s.stackSpace (top - 1)).toNat.testBit (8 * (s.stackSpace top).toNat + 7)
  /-- A second run changes nothing. -/
  idempotent : ∃ s', signextend top s = .ok () s' ∧ signextend top s' = .ok () s'

/-- The word has its sign in the uppermost limb, and is extended already. Or its sign is in a lower
limb, and this limb up to the sign, and the limbs above, are zero. -/
def SignExtendFits (b x : Nat) : Prop :=
  31 ≤ b ∨
  (24 ≤ b ∧ ∀ i, i < 256 → 8 * b + 7 < i → x.testBit i = x.testBit (8 * b + 7)) ∨
  (b < 24 ∧ ∀ i, i < 256 →
    (64 * (b / 8) ≤ i ∧ i ≤ 8 * b + 7) ∨ 64 * (b / 8) + 64 ≤ i → x.testBit i = false)

/-- What SIGNEXTEND leaves. -/
theorem leaves_signextend {n : Nat} (h : StackHolds top 2) :
    Leaves (signextend top) s (top - 1) n ↔
      (signextendWord (s.stackSpace top) (s.stackSpace (top - 1))).toNat = n :=
  leaves_binary h rfl

/-- The result where the sign is in one of the lower three limbs: it is right only if the sign is
zero, because the uppermost byte of the sign word is always cleared. -/
theorem extended_low_iff {ext x : Uint256} (h : ext.toNat < 24) :
    (∀ i, i < 256 → (signextendWord ext x).toNat.testBit i =
      if i ≤ 8 * ext.toNat + 7 then x.toNat.testBit i else x.toNat.testBit (8 * ext.toNat + 7)) ↔
    ∀ i, i < 256 → (64 * (ext.toNat / 8) ≤ i ∧ i ≤ 8 * ext.toNat + 7) ∨
      64 * (ext.toNat / 8) + 64 ≤ i → x.toNat.testBit i = false := by
  constructor
  · intro hbits
    -- The sign limb gets the shifted sign byte, whose top bit shows that the sign is not set.
    have hsign : x.toNat.testBit (8 * ext.toNat + 7) = false := by
      have htop := hbits (64 * (ext.toNat / 8) + 63) (by omega)
      rw [signextendWord_testBit h (by omega), if_pos (by omega),
        decide_eq_false (by omega), Bool.false_and] at htop
      split at htop
      case isTrue hle =>
        rw [htop]
        congr 1
        omega
      case isFalse => exact htop.symm
    intro i hi hrange
    have hbit := hbits i hi
    rw [signextendWord_testBit h hi, hsign, Bool.and_false] at hbit
    rcases hrange with ⟨hlow, hhigh⟩ | hhigh
    · rw [if_pos (by omega), if_pos hhigh] at hbit
      exact hbit.symm
    · rw [if_neg (by omega), if_neg (by omega)] at hbit
      exact hbit
  · intro hzero i hi
    have hsign : x.toNat.testBit (8 * ext.toNat + 7) = false := hzero _ (by omega) (.inl (by omega))
    rw [signextendWord_testBit h hi, hsign, Bool.and_false]
    split
    case isTrue hword =>
      split
      case isTrue hle => exact (hzero i hi (.inl (by omega))).symm
      case isFalse => rfl
    case isFalse hword =>
      split
      case isTrue => rfl
      case isFalse hgt => exact hzero i hi (.inr (by omega))

/-- The word that is left where the sign is zero is left alone by a second run. -/
theorem signextendWord_twice {ext x : Uint256} (h : ext.toNat < 24)
    (hsign : x.toNat.testBit (8 * ext.toNat + 7) = false) :
    signextendWord ext (signextendWord ext x) = signextendWord ext x := by
  refine Uint256.ext_testBit fun i hi => ?_
  have hsign' : (signextendWord ext x).toNat.testBit (8 * ext.toNat + 7) = false := by
    rw [signextendWord_testBit h (by omega), if_pos (by omega), hsign, Bool.and_false]
  rw [signextendWord_testBit h hi, hsign', Bool.and_false]
  split
  case isTrue hword => rw [signextendWord_testBit h hi, if_pos hword, hsign, Bool.and_false]
  case isFalse => rfl

/-- The last word in a slot counts. -/
theorem ExecutionState.setSlot_setSlot (s : ExecutionState) (p : Slot) (v w : Uint256) :
    (s.setSlot p v).setSlot p w = s.setSlot p w := by
  unfold ExecutionState.setSlot
  congr 1
  funext q
  split
  case isTrue => rfl
  case isFalse hne => exact if_neg hne

/-- A second run works on the word that the first one has left. -/
theorem signextend_idempotent (h : StackHolds top 2)
    (htwice : signextendWord (s.stackSpace top)
        (signextendWord (s.stackSpace top) (s.stackSpace (top - 1))) =
      signextendWord (s.stackSpace top) (s.stackSpace (top - 1))) :
    ∃ s', signextend top s = .ok () s' ∧ signextend top s' = .ok () s' := by
  have hslot : ∀ p : Int, p ≠ p - 1 := fun p => by omega
  have hfirst := binary_eq (s := s) (f := fun ext x => some (signextendWord ext x)) h rfl
  refine ⟨_, hfirst, ?_⟩
  generalize hw : signextendWord (s.stackSpace top) (s.stackSpace (top - 1)) = w at *
  have htop : (s.setSlot (top - 1) w).stackSpace top = s.stackSpace top := if_neg (hslot top)
  have hword : signextendWord ((s.setSlot (top - 1) w).stackSpace top)
      ((s.setSlot (top - 1) w).stackSpace (top - 1)) = w := by
    rw [htop, ExecutionState.setSlot_self, htwice]
  have hsecond := binary_eq (s := s.setSlot (top - 1) w)
    (f := fun ext x => some (signextendWord ext x)) h (congrArg some hword)
  rw [ExecutionState.setSlot_setSlot] at hsecond
  exact hsecond

/-- `SIGNEXTEND` does what it should just where the word is as `SignExtendFits` says. -/
theorem signextend_iff (h : StackHolds top 2) :
    SignExtendRule s top ↔
      SignExtendFits (s.stackSpace top).toNat (s.stackSpace (top - 1)).toNat := by
  unfold SignExtendFits
  constructor
  · intro hrule
    -- The sign byte is in one of the three lower limbs, in the highest one, or there is none.
    rcases Nat.lt_or_ge (s.stackSpace top).toNat 31 with hb | hb
    · obtain ⟨n, hleaves, hbits⟩ := hrule.extended hb
      obtain rfl := (leaves_signextend h).1 hleaves
      rcases Nat.lt_or_ge (s.stackSpace top).toNat 24 with hb' | hb'
      · exact .inr (.inr ⟨hb', (extended_low_iff hb').1 hbits⟩)
      · refine .inr (.inl ⟨hb', fun i hi hgt => ?_⟩)
        have hbit := hbits i hi
        rwa [signextendWord_high hb', if_neg (Nat.not_le.2 hgt)] at hbit
    · exact .inl hb
  · intro hfits
    -- In the highest limb the source leaves the word as it is.
    have hhigh : 24 ≤ (s.stackSpace top).toNat →
        signextendWord (s.stackSpace top) (s.stackSpace (top - 1)) = s.stackSpace (top - 1) :=
      signextendWord_high
    refine ⟨fun hb => ?_, fun hb => ⟨_, (leaves_signextend h).2 rfl, ?_⟩,
      signextend_idempotent h ?_⟩
    · rw [leaves_signextend h, hhigh ((by decide : 24 ≤ 31).trans hb)]
    · rcases hfits with hb' | ⟨hb', hext⟩ | ⟨hb', hzero⟩
      · omega
      · intro i hi
        rw [hhigh hb']
        split
        case isTrue => rfl
        case isFalse hgt => exact hext i hi (Nat.not_le.1 hgt)
      · exact (extended_low_iff hb').2 hzero
    · rcases Nat.lt_or_ge (s.stackSpace top).toNat 24 with hb' | hb'
      · refine signextendWord_twice hb' ?_
        rcases hfits with hb'' | ⟨hb'', -⟩ | ⟨-, hzero⟩
        · omega
        · omega
        · exact hzero _ (by omega) (.inl (by omega))
      · rw [hhigh hb', hhigh hb']

/-- The byte 25 of a negative number, whose bytes above it are ones already. -/
theorem signextend_iff_negative :
    SignExtendRule (wordsState [⟨⟨-1, 5⟩, ⟨7, 9⟩⟩, .ofU64 25]) 1 := by
  refine (signextend_iff (s := wordsState [⟨⟨-1, 5⟩, ⟨7, 9⟩⟩, .ofU64 25])
    (by decide : StackHolds 1 2)).2 (.inr (.inl ⟨by decide, fun i hi hgt => ?_⟩))
  have hones : ∀ j, j < 49 → (⟨⟨-1, 5⟩, ⟨7, 9⟩⟩ : Uint256).toNat.testBit (207 + j) = true := by
    with_unfolding_all decide
  have hlow : 8 * (Uint256.ofU64 25).toNat + 7 = 207 := by decide
  replace hgt : 207 < i := by rw [← hlow]; exact hgt
  obtain ⟨j, rfl⟩ := Nat.exists_eq_add_of_lt hgt
  exact (hones (j + 1) (by omega)).trans (hones 0 (by decide)).symm

/-- The byte 0 of the word 1, which is a positive number already. -/
theorem signextend_iff_one : ¬ SignExtendRule (wordsState [.one, .zero]) 1 := by
  intro hrule
  obtain ⟨n, hleaves, hbits⟩ := hrule.extended (by decide)
  have hword := (leaves_signextend (s := wordsState [.one, .zero])
    (by decide : StackHolds 1 2)).1 hleaves
  have hbit := hbits 0 (by decide)
  rw [← hword] at hbit
  revert hbit
  decide

end TscVee
