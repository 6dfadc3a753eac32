import Mathlib.Data.Nat.ModEq
import Mathlib.Tactic.IntervalCases
import TscVee.Proofs.Division
import TscVee.Proofs.Product
import TscVee.Proofs.WordRules

/-!
# `TscVee.Proofs.Arithmetic`: unsigned arithmetic

* `add_sub_compare`: `ADD`, `SUB` and the comparisons agree with the integers, limb by limb.
* `div_mod_integers`: `DIV` and `MOD` are the division of integers.
* `mul_iff`: `MUL` is the product modulo `2 ^ 256` where the three middle terms do not overflow.
* `addmod_mulmod_iff`: `ADDMOD` and `MULMOD` leave the quotient. `QuotientFits` says when it is the
  number that they should leave.
-/

set_option autoImplicit false

namespace TscVee

open TscVee.Core Lib

variable {s : ExecutionState} {top : StackTop}

/-! ### `ADD`, `SUB` and the comparisons -/

/-- The carry into limb `i` of the sum: what the limbs below it have too much. -/
def carryInto (x y : Uint256) (i : Nat) : Nat :=
  (x.toNat % 2 ^ (64 * i) + y.toNat % 2 ^ (64 * i)) / 2 ^ (64 * i)

/-- The borrow from limb `i` of the difference: 1 when the limbs below it do not suffice. -/
def borrowFrom (x y : Uint256) (i : Nat) : Nat :=
  if x.toNat % 2 ^ (64 * i) < y.toNat % 2 ^ (64 * i) then 1 else 0

/-- A limb is the digit of the number in base `2 ^ 64`. -/
theorem u256Index_toNat (x : Uint256) {i : Nat} (hi : i < 4) :
    (u256Index x i).toNat = x.toNat / 2 ^ (64 * i) % 2 ^ 64 := by
  have h0 := x.lower.lower.isLt
  have h1 := x.lower.upper.isLt
  have h2 := x.upper.lower.isLt
  have h3 := x.upper.upper.isLt
  unfold u256Index Uint256.toNat
  interval_cases i <;> simp <;> omega

/-- Each limb of the sum is the sum of the limbs and of the carry from below. -/
theorem add256_limb (x y : Uint256) {i : Nat} (hi : i < 4) :
    (u256Index (add256 x y) i).toNat =
      ((u256Index x i).toNat + (u256Index y i).toNat + carryInto x y i) % 2 ^ 64 := by
  rw [u256Index_toNat _ hi, u256Index_toNat _ hi, u256Index_toNat _ hi, add256_toNat]
  unfold carryInto
  generalize x.toNat = m
  generalize y.toNat = n
  interval_cases i <;> simp only [Nat.mul_zero, Nat.reduceMul, Nat.reducePow] <;> omega

/-- Each limb of the difference is the difference of the limbs, less the borrow from below. -/
theorem minus256_limb (x y : Uint256) {i : Nat} (hi : i < 4) :
    (u256Index (minus256 x y) i).toNat =
      ((u256Index x i).toNat + 2 ^ 64 - (u256Index y i).toNat - borrowFrom x y i) % 2 ^ 64 := by
  rw [u256Index_toNat _ hi, u256Index_toNat _ hi, u256Index_toNat _ hi, minus256_toNat]
  have hx := x.toNat_lt
  have hy := y.toNat_lt
  unfold borrowFrom
  generalize x.toNat = m at *
  generalize y.toNat = n at *
  interval_cases i <;> simp only [Nat.mul_zero, Nat.reduceMul, Nat.reducePow] at * <;> split <;>
    omega

/-- The word of a condition. -/
theorem boolWord_toNat (b : Bool) : (boolWord b).toNat = if b then 1 else 0 := by
  cases b <;> rfl

/-- The sum of the integers modulo `2 ^ 256`, and the difference, are what `ADD` and `SUB` leave.
The comparisons leave 1 or 0. -/
structure SumRule (s : ExecutionState) (top : StackTop) (x y : Uint256) : Prop where
  add : Leaves (add top) s (top - 1) ((x.toNat + y.toNat) % 2 ^ 256)
  sub : Leaves (sub top) s (top - 1) (((x.toNat : Int) - y.toNat) % 2 ^ 256).toNat
  lt : Leaves (lt top) s (top - 1) (if x.toNat < y.toNat then 1 else 0)
  gt : Leaves (gt top) s (top - 1) (if x.toNat > y.toNat then 1 else 0)
  eq : Leaves (eq top) s (top - 1) (if x.toNat = y.toNat then 1 else 0)
  iszero : Leaves (iszero top) s top (if x.toNat = 0 then 1 else 0)

/-- The sum and the difference are those of the words, modulo `2 ^ 256`. -/
theorem sumRule (h : StackHolds top 2) :
    SumRule s top (s.stackSpace top) (s.stackSpace (top - 1)) where
  add := (leaves_binary h rfl).2 (add256_toNat _ _)
  sub := by
    refine (leaves_binary h rfl).2 ?_
    rw [minus256_toNat]
    have hy := (s.stackSpace (top - 1)).toNat_lt
    omega
  lt := by
    refine (leaves_binary h rfl).2 ?_
    rw [boolWord_toNat]
    simp only [gt256_iff]
  gt := by
    refine (leaves_binary h rfl).2 ?_
    rw [boolWord_toNat]
    simp only [gt256_iff, gt_iff_lt]
  eq := by
    refine (leaves_binary h rfl).2 ?_
    rw [boolWord_toNat]
    simp only [equal256_iff]
  iszero := by
    have hone : StackHolds top 1 := ⟨by have := h.1; omega, h.2⟩
    refine (leaves_unary hone).2 ?_
    rw [boolWord_toNat]
    simp only [zero256_iff]

/-- A difference takes back the sum. -/
theorem minus256_add256 (x y : Uint256) : minus256 (add256 x y) y = x := by
  refine Uint256.toNat_inj ?_
  rw [minus256_toNat, add256_toNat]
  have hx := x.toNat_lt
  have hy := y.toNat_lt
  omega

/-- `ADD`, `SUB` and the comparisons agree with the integers: `SumRule` for the two topmost items,
with the carries and borrows of all four limbs. Hence exactly one comparison of three leaves 1, and
`SUB` of the word that `ADD` has left and `y`, on whatever stack, leaves `x`. -/
theorem add_sub_compare (h : StackHolds top 2) :
    let x := s.stackSpace top
    let y := s.stackSpace (top - 1)
    SumRule s top x y ∧
    (∀ i < 4,
      (u256Index (add256 x y) i).toNat =
        ((u256Index x i).toNat + (u256Index y i).toNat + carryInto x y i) % 2 ^ 64 ∧
      (u256Index (minus256 x y) i).toNat =
        ((u256Index x i).toNat + 2 ^ 64 - (u256Index y i).toNat - borrowFrom x y i) % 2 ^ 64) ∧
    (∃ less equal greater, Leaves (lt top) s (top - 1) less ∧ Leaves (eq top) s (top - 1) equal ∧
      Leaves (gt top) s (top - 1) greater ∧ less + equal + greater = 1) ∧
    (∀ s₁, add top s = .ok () s₁ → ∀ s₂ top₂, StackHolds top₂ 2 →
      s₂.stackSpace top₂ = s₁.stackSpace (top - 1) → s₂.stackSpace (top₂ - 1) = y →
        Leaves (sub top₂) s₂ (top₂ - 1) x.toNat) := by
  intro x y
  have hrule : SumRule s top x y := sumRule h
  refine ⟨hrule, fun i hi => ⟨add256_limb x y hi, minus256_limb x y hi⟩, ?_, ?_⟩
  · refine ⟨_, _, _, hrule.lt, hrule.eq, hrule.gt, ?_⟩
    split <;> split <;> split <;> omega
  · intro s₁ hadd s₂ top₂ h₂ hsum hy
    -- The word that `ADD` has left is the sum of words, so its difference with `y` is `x`.
    have hleft : s₁.stackSpace (top - 1) = add256 x y := by
      have heq := hadd.symm.trans (binary_eq h rfl)
      obtain ⟨-, rfl⟩ := EStateM.Result.ok.inj heq
      exact s.setSlot_self (top - 1) _
    refine (leaves_binary h₂ rfl).2 ?_
    rw [hsum, hy, hleft, minus256_add256]

/-- A carry through all limbs: `2 ^ 256 - 1` and 1. -/
theorem add_sub_compare_carry :
    Leaves (add 1) (wordsState [.one, ⟨⟨-1, -1⟩, ⟨-1, -1⟩⟩]) 0 0 ∧
      Leaves (gt 1) (wordsState [.one, ⟨⟨-1, -1⟩, ⟨-1, -1⟩⟩]) 0 1 := by
  have hrule := (add_sub_compare (s := wordsState [.one, ⟨⟨-1, -1⟩, ⟨-1, -1⟩⟩])
    (by decide : StackHolds 1 2)).1
  have hadd := hrule.add
  have hgt := hrule.gt
  rw [show (wordsState [.one, ⟨⟨-1, -1⟩, ⟨-1, -1⟩⟩]).stackSpace 1 = ⟨⟨-1, -1⟩, ⟨-1, -1⟩⟩ from rfl,
    show (wordsState [.one, ⟨⟨-1, -1⟩, ⟨-1, -1⟩⟩]).stackSpace (1 - 1) = .one from rfl] at hadd hgt
  rw [show (_ : Nat) % 2 ^ 256 = 0 by with_unfolding_all decide] at hadd
  rw [if_pos (by with_unfolding_all decide)] at hgt
  exact ⟨hadd, hgt⟩

/-! ### `DIV` and `MOD` -/

/-- A division by zero gives zero. -/
theorem divWord_zero {x y : Uint256} (hy : y.toNat = 0) : divWord x y = some .zero := by
  unfold divWord
  rw [if_neg (by rw [(zero256_iff y).2 hy]; decide)]

/-- A remainder by zero is zero. -/
theorem modWord_zero {x y : Uint256} (hy : y.toNat = 0) : modWord x y = some .zero := by
  unfold modWord
  rw [if_neg (by rw [(zero256_iff y).2 hy]; decide)]

/-- The loop ends, with the quotient. -/
theorem divWord_eq {x y : Uint256} (hy : y.toNat ≠ 0) :
    ∃ q, divWord x y = some q ∧ q.toNat = x.toNat / y.toNat := by
  obtain ⟨q, m, heq, hq, -⟩ := divmod256_eq x hy
  have hne : zero256 y = false := by rwa [Ne, ← zero256_iff, Bool.not_eq_true] at hy
  refine ⟨q, ?_, hq⟩
  unfold divWord
  rw [hne, heq]
  rfl

/-- The loop ends, with the remainder. -/
theorem modWord_eq {x y : Uint256} (hy : y.toNat ≠ 0) :
    ∃ m, modWord x y = some m ∧ m.toNat = x.toNat % y.toNat := by
  obtain ⟨q, m, heq, -, hm⟩ := divmod256_eq x hy
  have hne : zero256 y = false := by rwa [Ne, ← zero256_iff, Bool.not_eq_true] at hy
  refine ⟨m, ?_, hm⟩
  unfold modWord
  rw [hne, heq]
  rfl

/-- The quotient of words, with 0 for a zero divisor. -/
theorem divWord_toNat (x y : Uint256) :
    ∃ q, divWord x y = some q ∧ q.toNat = x.toNat / y.toNat := by
  by_cases hy : y.toNat = 0
  · exact ⟨.zero, divWord_zero hy, by rw [hy, Nat.div_zero]; rfl⟩
  · exact divWord_eq hy

/-- The division instructions agree with the integers. With a divisor other than zero, the loop ends
with the quotient and the remainder. With the divisor zero it would not end, and is not entered. -/
theorem div_mod_integers (h : StackHolds top 2) :
    ((s.stackSpace (top - 1)).toNat ≠ 0 →
      (∃ q r, divmod256 (s.stackSpace top) (s.stackSpace (top - 1)) = some (q, r) ∧
        (s.stackSpace top).toNat = q.toNat * (s.stackSpace (top - 1)).toNat + r.toNat ∧
        r.toNat < (s.stackSpace (top - 1)).toNat) ∧
      Leaves (div top) s (top - 1)
        ((s.stackSpace top).toNat / (s.stackSpace (top - 1)).toNat) ∧
      Leaves (mod top) s (top - 1)
        ((s.stackSpace top).toNat % (s.stackSpace (top - 1)).toNat)) ∧
    ((s.stackSpace (top - 1)).toNat = 0 →
      (∀ fuel copyd adder resDiv resMod,
        divmodLoop fuel (s.stackSpace (top - 1)) copyd adder resDiv resMod = none) ∧
      Leaves (div top) s (top - 1) 0 ∧ Leaves (mod top) s (top - 1) 0) := by
  have hzero : Uint256.zero.toNat = 0 := rfl
  constructor
  -- A divisor that is not 0: the loop ends with the quotient and the remainder.
  · intro hy
    obtain ⟨q, r, hdivmod, hq, hr⟩ := divmod256_eq (s.stackSpace top) hy
    obtain ⟨w, hdiv, hw⟩ := divWord_eq (x := s.stackSpace top) hy
    obtain ⟨v, hmod, hv⟩ := modWord_eq (x := s.stackSpace top) hy
    refine ⟨⟨q, r, hdivmod, ?_, ?_⟩, (leaves_binary h hdiv).2 hw, (leaves_binary h hmod).2 hv⟩
    · rw [hq, hr, Nat.mul_comm, Nat.div_add_mod]
    · rw [hr]
      exact Nat.mod_lt _ (Nat.pos_of_ne_zero hy)
  -- The divisor 0: the loop does not end, and the instructions do not enter it.
  · intro hy
    exact ⟨divmodLoop_zero hy, (leaves_binary h (divWord_zero hy)).2 hzero,
      (leaves_binary h (modWord_zero hy)).2 hzero⟩

/-- 17 divided by 5. -/
theorem div_mod_integers_five :
    Leaves (div 1) (wordsState [.ofU64 5, .ofU64 17]) 0 3 ∧
      Leaves (mod 1) (wordsState [.ofU64 5, .ofU64 17]) 0 2 :=
  ((div_mod_integers (s := wordsState [.ofU64 5, .ofU64 17]) (by decide : StackHolds 1 2)).1
    (by decide)).2

/-! ### `MUL` -/

/-- What a carry of 1 or 2 adds is no multiple of `2 ^ 256`. -/
theorem carry_mod_iff {n c : Nat} (hc : c < 3) :
    (n + c * (2 ^ 192 - 2 ^ 128)) % 2 ^ 256 = n % 2 ^ 256 ↔ c = 0 := by
  constructor
  · intro heq
    have hmod : Nat.ModEq (2 ^ 256) (c * (2 ^ 192 - 2 ^ 128)) 0 :=
      Nat.ModEq.add_left_cancel' n heq
    interval_cases c
    · rfl
    · simp [Nat.ModEq] at hmod
    · simp [Nat.ModEq] at hmod
  · rintro rfl
    rw [Nat.zero_mul, Nat.add_zero]

/-- The product is right only without the carry. -/
theorem mul256_exact_iff (x y : Uint256) :
    (mul256 x y).toNat = x.toNat * y.toNat % 2 ^ 256 ↔ middleCarry x y = 0 := by
  rw [mul256_toNat]
  exact carry_mod_iff (middleCarry_lt x y)

/-- The middle column carries nothing exactly when its three terms fit in a limb. -/
theorem middleCarry_eq_zero_iff (x y : Uint256) :
    middleCarry x y = 0 ↔
      x.lower.lower.toNat * y.lower.upper.toNat % 2 ^ 64 +
        x.lower.lower.toNat * y.lower.lower.toNat / 2 ^ 64 +
        x.lower.upper.toNat * y.lower.lower.toNat % 2 ^ 64 < 2 ^ 64 := by
  unfold middleCarry
  rw [Nat.div_eq_zero_iff_lt (by decide)]

/-- `MUL` leaves the product modulo `2 ^ 256` just where the three terms of the second column stay
below `2 ^ 64`: the lower halves of the two mixed products of the lowest two limbs, and the upper
half of the product of the lowest limbs. -/
theorem mul_iff (h : StackHolds top 2) :
    let x := s.stackSpace top
    let y := s.stackSpace (top - 1)
    Leaves (mul top) s (top - 1) (x.toNat * y.toNat % 2 ^ 256) ↔
      x.lower.lower.toNat * y.lower.upper.toNat % 2 ^ 64 +
        x.lower.lower.toNat * y.lower.lower.toNat / 2 ^ 64 +
        x.lower.upper.toNat * y.lower.lower.toNat % 2 ^ 64 < 2 ^ 64 := by
  intro x y
  rw [← middleCarry_eq_zero_iff, ← mul256_exact_iff]
  exact leaves_binary h rfl

/-- The product of 6 and 7. -/
theorem mul_iff_six :
    Leaves (mul 1) (wordsState [.ofU64 7, .ofU64 6]) 0 (6 * 7 % 2 ^ 256) ↔
      6 * 0 % 2 ^ 64 + 6 * 7 / 2 ^ 64 + 0 * 7 % 2 ^ 64 < 2 ^ 64 :=
  mul_iff (s := wordsState [.ofU64 7, .ofU64 6]) (by decide : StackHolds 1 2)

/-- The product of `2 ^ 64 - 1` and `2 ^ 64 + 2`. -/
theorem mul_iff_carry :
    ¬ Leaves (mul 1) (wordsState [⟨⟨0, 0⟩, ⟨1, 2⟩⟩, .ofU64 (-1)]) 0
      ((2 ^ 64 - 1) * (2 ^ 64 + 2) % 2 ^ 256) := by
  intro hleaves
  have hword := (leaves_binary (s := wordsState [⟨⟨0, 0⟩, ⟨1, 2⟩⟩, .ofU64 (-1)])
    (f := fun x y => some (mul256 x y)) (by decide : StackHolds 1 2) rfl).1 hleaves
  revert hword
  with_unfolding_all decide

/-! ### `ADDMOD` and `MULMOD` -/

/-- The number `t`, which is divided by `m`, has the quotient that `n` has as remainder. Where `t`
is `n` itself, its two digits in base `m` are the same, so that `n` is a multiple of `m + 1`.
Elsewhere the leading digit of `t` is congruent to `n`. -/
def QuotientFits (t n m : Nat) : Prop :=
  (t = n → m + 1 ∣ n ∧ n < m * (m + 1)) ∧
  (t ≠ n → ∃ q r, q < m ∧ r < m ∧ t = q * m + r ∧ Nat.ModEq m n q)

/-- A number is divided into equal digits. -/
theorem div_eq_mod_iff {n m : Nat} (hm : 0 < m) :
    n / m = n % m ↔ m + 1 ∣ n ∧ n < m * (m + 1) := by
  constructor
  · intro heq
    have hlt : n % m < m := Nat.mod_lt n hm
    have hn : n = (m + 1) * (n % m) := by
      calc n = m * (n / m) + n % m := (Nat.div_add_mod n m).symm
        _ = (m + 1) * (n % m) := by rw [heq]; ring
    refine ⟨⟨n % m, hn⟩, ?_⟩
    calc n = (m + 1) * (n % m) := hn
      _ < (m + 1) * m := Nat.mul_lt_mul_of_pos_left hlt (Nat.succ_pos m)
      _ = m * (m + 1) := Nat.mul_comm _ _
  · rintro ⟨⟨q, rfl⟩, hlt⟩
    have hq : q < m := by
      rw [Nat.mul_comm m] at hlt
      exact Nat.lt_of_mul_lt_mul_left hlt
    have hsplit : (m + 1) * q = q + m * q := by ring
    rw [hsplit, Nat.add_mul_div_left _ _ hm, Nat.add_mul_mod_self_left, Nat.div_eq_of_lt hq,
      Nat.mod_eq_of_lt hq, Nat.zero_add]

/-- The quotient passes for the remainder exactly in the cases of the condition. -/
theorem quotientFits_iff {t n m : Nat} (hm : 0 < m) : t / m = n % m ↔ QuotientFits t n m := by
  unfold QuotientFits
  by_cases heq : t = n
  · subst heq
    simp [div_eq_mod_iff hm]
  · refine ⟨fun hdiv => ⟨fun h => absurd h heq, fun _ => ?_⟩, fun h => ?_⟩
    · refine ⟨n % m, t % m, Nat.mod_lt n hm, Nat.mod_lt t hm, ?_, (Nat.mod_modEq n m).symm⟩
      rw [← hdiv, Nat.mul_comm, Nat.div_add_mod]
    · obtain ⟨q, r, hq, hr, rfl, hmod⟩ := h.2 heq
      rw [Nat.mul_comm, Nat.mul_add_div hm, Nat.div_eq_of_lt hr, Nat.add_zero]
      exact (Nat.mod_eq_of_lt hq).symm.trans hmod.symm

/-- What `ADDMOD` and `MULMOD` should leave: the remainders of the sum and of the product, which are
not reduced before. -/
structure ModRule (s : ExecutionState) (top : StackTop) : Prop where
  addmod : Leaves (addmod top) s (top - 2)
    (if (s.stackSpace (top - 2)).toNat = 0 then 0
      else ((s.stackSpace top).toNat + (s.stackSpace (top - 1)).toNat) %
        (s.stackSpace (top - 2)).toNat)
  mulmod : Leaves (mulmod top) s (top - 2)
    (if (s.stackSpace (top - 2)).toNat = 0 then 0
      else (s.stackSpace top).toNat * (s.stackSpace (top - 1)).toNat %
        (s.stackSpace (top - 2)).toNat)

/-- The quotient of `t` by the word `m`, in the place of the remainder of `n`. -/
theorem leaves_quotient {f : Uint256 → Uint256 → Uint256} {n : Nat} (h : StackHolds top 3) :
    let m := (s.stackSpace (top - 2)).toNat
    Leaves (ternary (fun x y m => divWord (f x y) m) top) s (top - 2)
        (if m = 0 then 0 else n % m) ↔
      m = 0 ∨ QuotientFits (f (s.stackSpace top) (s.stackSpace (top - 1))).toNat n m := by
  intro m
  obtain ⟨q, hdiv, hq⟩ :=
    divWord_toNat (f (s.stackSpace top) (s.stackSpace (top - 1))) (s.stackSpace (top - 2))
  rw [leaves_ternary h hdiv, hq]
  by_cases hm : m = 0
  · have hzero : (s.stackSpace (top - 2)).toNat = 0 := hm
    rw [hzero, Nat.div_zero, if_pos hm]
    exact ⟨fun _ => .inl hm, fun _ => rfl⟩
  · simp only [hm, if_false, false_or]
    exact quotientFits_iff (Nat.pos_of_ne_zero hm)

/-- `ADDMOD` and `MULMOD` leave what they should just where the modulus is zero, or the quotients of
the truncated sum and of the truncated product happen to be the remainders. -/
theorem addmod_mulmod_iff (h : StackHolds top 3) :
    let x := s.stackSpace top
    let y := s.stackSpace (top - 1)
    let m := (s.stackSpace (top - 2)).toNat
    ModRule s top ↔ m = 0 ∨
      (QuotientFits ((x.toNat + y.toNat) % 2 ^ 256) (x.toNat + y.toNat) m ∧
        QuotientFits ((x.toNat * y.toNat + middleCarry x y * (2 ^ 192 - 2 ^ 128)) % 2 ^ 256)
          (x.toNat * y.toNat) m) := by
  intro x y m
  have hadd := leaves_quotient (s := s) (f := add256) (n := x.toNat + y.toNat) h
  have hmul := leaves_quotient (s := s) (f := mul256) (n := x.toNat * y.toNat) h
  rw [add256_toNat] at hadd
  rw [mul256_toNat] at hmul
  rw [or_and_left]
  exact ⟨fun hrule => ⟨hadd.1 hrule.addmod, hmul.1 hrule.mulmod⟩,
    fun hfits => ⟨hadd.2 hfits.1, hmul.2 hfits.2⟩⟩

/-- The words 0 and 8 modulo 3: the sum 8 has the quotient 2 and the remainder 2, and the product
is 0. -/
theorem addmod_mulmod_iff_eight : ModRule (wordsState [.ofU64 3, .ofU64 8, .zero]) 2 := by
  refine (addmod_mulmod_iff (s := wordsState [.ofU64 3, .ofU64 8, .zero])
    (by decide : StackHolds 2 3)).2 (.inr ⟨⟨fun _ => ?_, fun hne => absurd ?_ hne⟩,
      ⟨fun _ => ?_, fun hne => absurd ?_ hne⟩⟩)
  all_goals with_unfolding_all decide

/-- The sum of 5 and 5 modulo 3. -/
theorem addmod_mulmod_iff_five : ¬ ModRule (wordsState [.ofU64 3, .ofU64 5, .ofU64 5]) 2 := by
  intro hrule
  have hword := (leaves_ternary (s := wordsState [.ofU64 3, .ofU64 5, .ofU64 5])
    (f := fun x y m => divWord (add256 x y) m) (w := .ofU64 3) (by decide : StackHolds 2 3)
    (by with_unfolding_all decide)).1 hrule.addmod
  revert hword
  decide

end TscVee
