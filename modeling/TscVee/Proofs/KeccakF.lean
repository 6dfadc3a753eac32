import Mathlib.Data.List.GetD
import TscVee.Sha3
import TscVee.Spec.Keccak

/-!
# `TscVee.Proofs.KeccakF`: `keccakf` computes Keccak-f[1600]

The source keeps the 25 lanes in one array and permutes them in place. The Rho and Pi steps move one
word along the table `keccakf_piln`, with the overwritten word in a variable, where the definition
builds a new square from the old one.

* `lanes`: the array as a square.
* `lanes_theta`, `lanes_rhoPi`, `lanes_chi`, `lanes_iota`: the steps of a round.
* `rhoPi_moved`: a word that moves along any table without repetitions.
* `lanes_keccakf`: the permutation.
-/

set_option autoImplicit false
set_option maxRecDepth 4000

namespace TscVee

open Keccak

/-- The array of the source as a square of lanes. -/
def lanes (s : List U64) : Lanes := fun x y => word s (5 * y.val + x.val)

/-- The lane in column `x` and row `y` is one of the 25 words of the list. -/
theorem lane_lt (x y : Fin 5) : 5 * y.val + x.val < 25 := by omega

/-! ### Reading and writing words -/

section
variable {s : List U64} {k : Nat} {w : U64}

/-- The words of a list that is computed index by index. -/
theorem word_mapIdx (f : Nat → U64 → U64) (h : k < s.length) :
    word (s.mapIdx f) k = f k (word s k) := by
  simp [word, List.getD_eq_getElem?_getD, h]

/-- A word that was written. -/
theorem word_set_self (h : k < s.length) : word (s.set k w) k = w := by
  simp [word, List.getD_eq_getElem?_getD, h]

/-- The words beside one that was written. -/
theorem word_set_ne {j : Nat} (h : k ≠ j) : word (s.set k w) j = word s j := by
  simp [word, List.getD_eq_getElem?_getD, List.getElem?_set_ne h]

end

/-! ### The steps -/

section
variable {s : List U64} (hs : s.length = 25)

/-- The parity of a column, as the loop over `i` computes it from the list, is the sum of the five
lanes. -/
theorem columnParity_eq (s : List U64) (x : Fin 5) : columnParity s x.val = parity (lanes s) x := by
  show word s x.val ^^^ word s (x.val + 5) ^^^ word s (x.val + 10) ^^^ word s (x.val + 15) ^^^
    word s (x.val + 20) = word s (0 + x.val) ^^^ word s (5 + x.val) ^^^ word s (10 + x.val) ^^^
    word s (15 + x.val) ^^^ word s (20 + x.val)
  rw [Nat.zero_add, Nat.add_comm 5, Nat.add_comm 10, Nat.add_comm 15, Nat.add_comm 20]

/-- The neighbours of a column, as the source computes them. -/
theorem column_neighbours : ∀ x : Fin 5, (x.val + 4) % 5 = (x - 1).val ∧
    (x.val + 1) % 5 = (x + 1).val ∧ (x.val + 2) % 5 = (x + 2).val := by decide

/-- The macro `ROTL64` for a count below 64. The counts of the table are reduced modulo 64 in the
standard. -/
theorem rotl64_eq (x : U64) (n : Nat) : x.rotateLeft n = rotl64 x (n % 64) := rfl

include hs

/-- The first loop of a round adds the parities of two neighbouring columns to each lane, which is
theta. -/
theorem lanes_theta : lanes (TscVee.theta s) = Keccak.theta (lanes s) := by
  funext x y
  obtain ⟨hleft, hright, -⟩ := column_neighbours x
  have hcolumn : (5 * y.val + x.val) % 5 = x.val := by omega
  show word (TscVee.theta s) (5 * y.val + x.val) = _
  rw [TscVee.theta, word_mapIdx _ (by have := lane_lt x y; omega), hcolumn, hleft, hright,
    columnParity_eq, columnParity_eq]
  rfl

/-- The last loop of a round combines each lane with the next two of its row. It reads the row from
a copy, as chi needs. -/
theorem lanes_chi : lanes (TscVee.chi s) = Keccak.chi (lanes s) := by
  funext x y
  obtain ⟨-, hright, hnext⟩ := column_neighbours x
  have hcolumn : (5 * y.val + x.val) % 5 = x.val := by omega
  have hrow : 5 * y.val + x.val - x.val = 5 * y.val := Nat.add_sub_cancel _ _
  show word (TscVee.chi s) (5 * y.val + x.val) = _
  rw [TscVee.chi, word_mapIdx _ (by have := lane_lt x y; omega), hcolumn, hrow, hright, hnext]
  rfl

/-- The round constant is added to the lane at the origin. -/
theorem lanes_iota (rc : U64) : lanes (s.set 0 (word s 0 ^^^ rc)) = iota rc (lanes s) := by
  funext x y
  show word (s.set 0 _) (5 * y.val + x.val) = _
  unfold iota
  split
  case isTrue hzero =>
    obtain ⟨rfl, rfl⟩ := hzero
    exact word_set_self (by omega)
  case isFalse hne =>
    have hk : 0 ≠ 5 * y.val + x.val := fun hk =>
      hne ⟨Fin.ext (by simp; omega), Fin.ext (by simp; omega)⟩
    exact word_set_ne hk

end

/-! ### The word that moves around the lanes -/

/-- A word that moves along a table without repetitions leaves each place with the word of the place
before it, turned, and the other places as they were. -/
theorem rhoPi_moved {steps : List (Nat × Nat)} {t : U64} {s : List U64}
    (hnodup : (steps.map Prod.snd).Nodup) (hlt : ∀ e ∈ steps, e.2 < s.length) :
    (∀ k, k ∉ steps.map Prod.snd → word (rhoPi steps t s) k = word s k) ∧
    ∀ (i : Nat) (e : Nat × Nat), steps[i]? = some e → word (rhoPi steps t s) e.2 =
      rotl64 (match i with
        | 0 => t
        | i + 1 => word s ((steps.map Prod.snd).getD i 0)) e.1 := by
  induction steps generalizing t s with
  | nil => exact ⟨fun _ _ => rfl, fun i e h => by cases h⟩
  | cons first steps ih =>
      obtain ⟨rot, j⟩ := first
      rw [List.map_cons, List.nodup_cons] at hnodup
      obtain ⟨hfresh, hnodup⟩ := hnodup
      have hj : j < s.length := hlt (rot, j) List.mem_cons_self
      obtain ⟨hother, hmoved⟩ := ih (t := word s j) (s := s.set j (rotl64 t rot)) hnodup
        fun e he => by
          rw [List.length_set]
          exact hlt e (List.mem_cons_of_mem _ he)
      have hkept : ∀ k, k ∈ steps.map Prod.snd → word (s.set j (rotl64 t rot)) k = word s k :=
        fun k hk => word_set_ne fun heq => hfresh (heq ▸ hk)
      refine ⟨fun k hk => ?_, fun i e he => ?_⟩
      · rw [List.map_cons, List.mem_cons, not_or] at hk
        rw [rhoPi, hother k hk.2, word_set_ne fun heq => hk.1 heq.symm]
      · cases i with
        | zero =>
            cases he
            show word (rhoPi steps _ _) j = _
            rw [hother j hfresh, word_set_self hj]
        | succ i =>
            have hstep : steps[i]? = some e := he
            show word (rhoPi steps _ _) e.2 = _
            rw [hmoved i e hstep]
            cases i with
            | zero => rfl
            | succ i =>
                -- The place before is one of the table, so it still has its word.
                have hlen : i < (steps.map Prod.snd).length := by
                  rw [List.length_map]
                  have := (List.getElem?_eq_some_iff.1 hstep).1
                  omega
                have hmem : (steps.map Prod.snd).getD i 0 ∈ steps.map Prod.snd := by
                  rw [List.getD_eq_getElem _ _ hlen]
                  exact List.getElem_mem hlen
                show rotl64 (word (s.set j _) ((steps.map Prod.snd).getD i 0)) e.1 = _
                rw [hkept _ hmem]
                rfl

/-- The table of the source follows the walk over the lanes: each lane but the first comes from the
one that `pi` and `rho` name. -/
theorem keccakfRotcPiln_walks : ∀ x y : Fin 5, (x, y) ≠ (0, 0) → ∃ i : Fin 24,
    keccakfRotcPiln[i.val]? = some (offset (x + 3 * y) x % 64, 5 * y.val + x.val) ∧
      (match i.val with
        | 0 => 1
        | i + 1 => (keccakfRotcPiln.map Prod.snd).getD i 0) = 5 * x.val + (x + 3 * y).val := by
  with_unfolding_all decide

/-- The middle loop follows one cycle of lanes with a single temporary: each step moves the lane
that the last one has replaced, rotated. After 24 steps it has done rho and pi together. -/
theorem lanes_rhoPi {s : List U64} (hs : s.length = 25) :
    lanes (rhoPi keccakfRotcPiln (word s 1) s) = Keccak.pi (rho (lanes s)) := by
  have hnodup : (keccakfRotcPiln.map Prod.snd).Nodup := by decide
  have hlt : ∀ e ∈ keccakfRotcPiln, e.2 < s.length := by
    rw [hs]
    decide
  obtain ⟨hother, hmoved⟩ := rhoPi_moved (t := word s 1) hnodup hlt
  funext x y
  show word (rhoPi keccakfRotcPiln (word s 1) s) (5 * y.val + x.val) =
    (word s (5 * x.val + (x + 3 * y).val)).rotateLeft (offset (x + 3 * y) x)
  by_cases hzero : (x, y) = (0, 0)
  · -- The first lane stays.
    obtain ⟨rfl, rfl⟩ := Prod.mk.inj hzero
    rw [hother _ (by decide), show offset (0 + 3 * 0) 0 = 0 by decide, rotl64_eq]
    show word s 0 = word s 0 <<< 0 ||| word s 0 >>> 64
    rw [BitVec.shiftLeft_zero, BitVec.ushiftRight_eq_zero (le_refl 64), BitVec.or_zero]
  -- The others move along the table, which visits each place once.
  · obtain ⟨⟨i, hi⟩, hentry, hfrom⟩ := keccakfRotcPiln_walks x y hzero
    rw [hmoved i _ hentry, rotl64_eq, ← hfrom]
    cases i with
    | zero => rfl
    | succ i => rfl

/-! ### The rounds -/

/-- The middle loop writes words in place, so that their number stays. -/
theorem rhoPi_length (steps : List (Nat × Nat)) (t : U64) (s : List U64) :
    (rhoPi steps t s).length = s.length := by
  induction steps generalizing t s with
  | nil => rfl
  | cons step steps ih => rw [rhoPi, ih, List.length_set]

/-- Theta keeps the number of words. -/
theorem theta_length (s : List U64) : (TscVee.theta s).length = s.length := List.length_mapIdx

/-- Chi keeps the number of words. -/
theorem chi_length (s : List U64) : (TscVee.chi s).length = s.length := List.length_mapIdx

/-- So a round keeps it, and the next round starts with 25 words again. -/
theorem keccakRound_length (s : List U64) (rc : U64) : (keccakRound s rc).length = s.length := by
  simp only [keccakRound, List.length_set, chi_length, rhoPi_length, theta_length]

/-- One round on the list is one round on the lanes. The steps are those of the standard, in its
order. -/
theorem lanes_keccakRound {s : List U64} (hs : s.length = 25) (ir : Nat) :
    lanes (keccakRound s (roundConstant ir)) = Keccak.round (lanes s) ir := by
  have htheta : (TscVee.theta s).length = 25 := (theta_length s).trans hs
  have hmoved : (rhoPi keccakfRotcPiln (word (TscVee.theta s) 1) (TscVee.theta s)).length = 25 :=
    (rhoPi_length _ _ _).trans htheta
  rw [keccakRound, lanes_iota ((chi_length _).trans hmoved), lanes_chi hmoved, lanes_rhoPi htheta,
    lanes_theta hs]
  rfl

/-- The table of the source holds the constants of the rounds. -/
theorem keccakfRndc_eq : keccakfRndc = (List.range 24).map roundConstant := by with_unfolding_all decide

/-- `keccakf` computes Keccak-f[1600]. -/
theorem lanes_keccakf {s : List U64} (hs : s.length = 25) :
    (keccakf s).length = 25 ∧ lanes (keccakf s) = permutation (lanes s) := by
  rw [keccakf, keccakfRndc_eq, permutation, List.foldl_map]
  generalize List.range 24 = rounds
  induction rounds generalizing s with
  | nil => exact ⟨hs, rfl⟩
  | cons ir rounds ih =>
      have hround : (keccakRound s (roundConstant ir)).length = 25 :=
        (keccakRound_length _ _).trans hs
      rw [List.foldl_cons, List.foldl_cons, ← lanes_keccakRound hs]
      exact ih hround

end TscVee
