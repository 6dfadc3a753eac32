import TscVee.Lib.Signed
import TscVee.Proofs.Arithmetic

/-!
# `TscVee.Proofs.SignedWords`: signed division and comparison

`SDIV`, `SMOD`, `SLT` and `SGT` have the bodies of `DIV`, `MOD`, `LT` and `GT`.

* `signed_iff`: the four leave what they should, read as signed numbers, just where both words are
  not negative, or the words are the same.
-/

set_option autoImplicit false

namespace TscVee

open TscVee.Core Lib

variable {s : ExecutionState} {top : StackTop}

/-- A word in two's complement. -/
def Uint256.toInt (x : Uint256) : Int := signed (2 ^ 255) x.toNat

/-- A word is below twice the half. -/
theorem Uint256.toNat_lt_two (x : Uint256) : x.toNat < 2 * 2 ^ 255 := x.toNat_lt

/-- What the signed instructions should leave. -/
structure SignedRule (s : ExecutionState) (top : StackTop) : Prop where
  /-- The quotient, truncated toward zero. -/
  sdiv : Leaves (sdiv top) s (top - 1)
    (if (s.stackSpace (top - 1)).toNat = 0 then 0
      else unsigned (2 ^ 255) ((s.stackSpace top).toInt.tdiv (s.stackSpace (top - 1)).toInt))
  /-- The remainder, with the sign of the dividend. -/
  smod : Leaves (smod top) s (top - 1)
    (if (s.stackSpace (top - 1)).toNat = 0 then 0
      else unsigned (2 ^ 255) ((s.stackSpace top).toInt.tmod (s.stackSpace (top - 1)).toInt))
  /-- The quotient and the remainder make the dividend. -/
  sum : (s.stackSpace (top - 1)).toNat ≠ 0 → ∃ q r, Leaves (TscVee.sdiv top) s (top - 1) q ∧
    Leaves (TscVee.smod top) s (top - 1) r ∧
    ((s.stackSpace (top - 1)).toNat * q + r) % 2 ^ 256 = (s.stackSpace top).toNat
  slt : Leaves (slt top) s (top - 1)
    (if (s.stackSpace top).toInt < (s.stackSpace (top - 1)).toInt then 1 else 0)
  sgt : Leaves (sgt top) s (top - 1)
    (if (s.stackSpace (top - 1)).toInt < (s.stackSpace top).toInt then 1 else 0)

/-! ### What the code leaves -/

/-- The quotient of the words. -/
theorem leaves_div {n : Nat} (h : StackHolds top 2) :
    Leaves (sdiv top) s (top - 1) n ↔
      (s.stackSpace top).toNat / (s.stackSpace (top - 1)).toNat = n := by
  obtain ⟨q, hdiv, hq⟩ := divWord_toNat (s.stackSpace top) (s.stackSpace (top - 1))
  rw [← hq]
  exact leaves_binary h hdiv

/-- The remainder of the words, with 0 for a zero divisor. -/
theorem leaves_mod {n : Nat} (h : StackHolds top 2) :
    Leaves (smod top) s (top - 1) n ↔
      (if (s.stackSpace (top - 1)).toNat = 0 then 0
        else (s.stackSpace top).toNat % (s.stackSpace (top - 1)).toNat) = n := by
  split
  case isTrue hy =>
    have hzero : Uint256.zero.toNat = 0 := rfl
    rw [← hzero]
    exact leaves_binary h (modWord_zero hy)
  case isFalse hy =>
    obtain ⟨m, hmod, hm⟩ := modWord_eq (x := s.stackSpace top) hy
    rw [← hm]
    exact leaves_binary h hmod

/-- What SLT leaves: the comparison of the unsigned words. -/
theorem leaves_slt {n : Nat} (h : StackHolds top 2) :
    Leaves (slt top) s (top - 1) n ↔
      (if (s.stackSpace top).toNat < (s.stackSpace (top - 1)).toNat then 1 else 0) = n := by
  have hleaves := leaves_binary (s := s) (n := n) (f := fun x y => some (boolWord (gt256 y x))) h rfl
  rw [boolWord_toNat] at hleaves
  simp only [gt256_iff] at hleaves
  exact hleaves

/-- What SGT leaves: the comparison of the unsigned words. -/
theorem leaves_sgt {n : Nat} (h : StackHolds top 2) :
    Leaves (sgt top) s (top - 1) n ↔
      (if (s.stackSpace (top - 1)).toNat < (s.stackSpace top).toNat then 1 else 0) = n := by
  have hleaves := leaves_binary (s := s) (n := n) (f := fun x y => some (boolWord (gt256 x y))) h rfl
  rw [boolWord_toNat] at hleaves
  simp only [gt256_iff] at hleaves
  exact hleaves

/-! ### Where this is right -/

/-- The unsigned quotient and remainder make the dividend in every case. -/
theorem quotient_sum (h : StackHolds top 2) (hy : (s.stackSpace (top - 1)).toNat ≠ 0) :
    ∃ q r, Leaves (sdiv top) s (top - 1) q ∧ Leaves (smod top) s (top - 1) r ∧
      ((s.stackSpace (top - 1)).toNat * q + r) % 2 ^ 256 = (s.stackSpace top).toNat := by
  refine ⟨_, _, (leaves_div h).2 rfl, (leaves_mod h).2 (if_neg hy), ?_⟩
  rw [Nat.div_add_mod]
  exact Nat.mod_eq_of_lt (s.stackSpace top).toNat_lt

/-- Two flags are equal exactly when their conditions are equivalent. -/
theorem ite_one_zero_iff {p q : Prop} [Decidable p] [Decidable q] :
    (if p then 1 else 0) = (if q then 1 else 0 : Nat) ↔ (p ↔ q) := by
  by_cases hp : p <;> by_cases hq : q <;> simp [hp, hq]

/-- The rule holds exactly when the unsigned operations are the signed ones. -/
theorem signedRule_iff_ops (h : StackHolds top 2) :
    SignedRule s top ↔
      UnsignedOps (2 ^ 255) (s.stackSpace top).toNat (s.stackSpace (top - 1)).toNat := by
  constructor
  · intro hrule
    exact ⟨(leaves_div h).1 hrule.sdiv, (leaves_mod h).1 hrule.smod,
      ite_one_zero_iff.1 ((leaves_slt h).1 hrule.slt),
      ite_one_zero_iff.1 ((leaves_sgt h).1 hrule.sgt)⟩
  · intro hops
    exact ⟨(leaves_div h).2 hops.div, (leaves_mod h).2 hops.mod, quotient_sum h,
      (leaves_slt h).2 (ite_one_zero_iff.2 hops.lt), (leaves_sgt h).2 (ite_one_zero_iff.2 hops.gt)⟩

/-- The signed instructions leave what they should just where both words are not negative, or are
the same. -/
theorem signed_iff (h : StackHolds top 2) :
    SignedRule s top ↔
      ((s.stackSpace top).toNat < 2 ^ 255 ∧ (s.stackSpace (top - 1)).toNat < 2 ^ 255) ∨
        s.stackSpace top = s.stackSpace (top - 1) := by
  rw [signedRule_iff_ops h, unsigned_ops_iff (Nat.two_pow_pos 255) (Uint256.toNat_lt_two _)
    (Uint256.toNat_lt_two _)]
  exact or_congr_right ⟨Uint256.toNat_inj, congrArg _⟩

/-- 17 and 5. -/
theorem signed_iff_five : SignedRule (wordsState [.ofU64 5, .ofU64 17]) 1 :=
  (signed_iff (s := wordsState [.ofU64 5, .ofU64 17]) (by decide : StackHolds 1 2)).2
    (.inl (by decide))

/-- The comparison of 0 with -1. -/
theorem signed_iff_negative : ¬ SignedRule (wordsState [not256 .zero, .zero]) 1 := by
  intro hrule
  have hslt := (leaves_slt (s := wordsState [not256 .zero, .zero])
    (by decide : StackHolds 1 2)).1 hrule.slt
  revert hslt
  decide

end TscVee
