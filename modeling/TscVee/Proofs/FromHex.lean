import TscVee.HexHelpers

/-!
# `TscVee.Proofs.FromHex`: which strings `from_hex` converts safely

`from_hex` omits the prefix `0x` if there is one, and both of its callers allocate a buffer for a
string that has it.

* `sat_fromHexLoop`: the passes of the loop, the places that they write and the bytes.
* `fromHexEnds_iff`: when the conversion ends normally, and what it leaves.
* `fromHex_safe_iff`: it is safe for the strings with the prefix, and for those of one character.
-/

set_option autoImplicit false

namespace TscVee

open Lib

/-! ### The loop of `from_hex` -/

section
variable {hex : CString} {size i : Nat} {res : HexBuffer} {E : HexFault → HexBuffer → Prop}

/-- A character of the string, or the byte 0 behind the last one. -/
theorem sat_readTerminated {Q : Byte → HexBuffer → Prop} :
    Sat (hex.read i) res Q E ↔
      if i < hex.strlen then Q (hex.chars.getD i 0) res
      else if i = hex.strlen then Q 0 res
      else E .readOutside res := by
  unfold CString.read
  split
  · exact sat_pure _
  · split
    · exact sat_pure _
    · exact sat_throw _

/-- A character of the string. -/
theorem sat_readChar {Q : Byte → HexBuffer → Prop} (hi : i < hex.strlen) :
    Sat (hex.read i) res Q E ↔ Q (hex.chars.getD i 0) res := by
  rw [sat_readTerminated, if_pos hi]

/-- A byte is written inside of the buffer only. -/
theorem sat_writeBuffer (value : Byte) {Q : Unit → HexBuffer → Prop} :
    Sat (writeBuffer size i value) res Q E ↔
      if i < size then Q () fun j => if j = i then some value else res j
      else E .writeOutside res := by
  unfold writeBuffer
  split
  · exact sat_modify _
  · exact sat_throw _

end

/-- The pass `j` of the loop takes place. -/
def CString.HasPair (hex : CString) (j : Nat) : Prop := hex.hexBegin + 2 * j + 1 < hex.strlen

instance (hex : CString) (j : Nat) : Decidable (hex.HasPair j) :=
  inferInstanceAs (Decidable (_ < _))

/-- The byte that it writes. -/
def CString.pair (hex : CString) (j : Nat) : Byte :=
  hexByte (hex.chars.getD (hex.hexBegin + 2 * j) 0) (hex.chars.getD (hex.hexBegin + 2 * j + 1) 0)

/-- The loop from the pass `k` on. It ends normally if all passes write inside of the buffer. -/
theorem sat_fromHexLoop {hex : CString} (hlen : 0 < hex.strlen) (size fuel k : Nat)
    (res : HexBuffer) :
    Sat (fromHexLoop hex size fuel (hex.hexBegin + 2 * k)) res
      (fun _ res' => (∀ j ≥ k, hex.HasPair j → j < size) ∧
        ∀ j, res' j = if k ≤ j ∧ hex.HasPair j then some (hex.pair j) else res j)
      fun e _ => (e = .writeOutside ∧ ∃ j ≥ k, hex.HasPair j ∧ size ≤ j) ∨
        (e = .running ∧ (fuel = 0 ∨ hex.hexBegin + 2 * (k + fuel) ≤ hex.strlen)) := by
  have hfits := hex.fits
  have hlast : sizeT ((hex.strlen : Int) - 1) = hex.strlen - 1 := by
    unfold CString.strlen at *
    unfold sizeT
    omega
  -- On the fuel, for every pair `k` that the loop has come to.
  induction fuel generalizing k res with
  | zero => exact .inr ⟨rfl, .inl rfl⟩
  | succ fuel ih =>
      rw [fromHexLoop, hlast]
      -- The next pair is read, and its byte written.
      by_cases hpass : hex.hexBegin + 2 * k + 1 < hex.strlen
      · have hnext : sizeT ((hex.hexBegin + 2 * k : Nat) + 1) = hex.hexBegin + 2 * k + 1 := by
          unfold CString.strlen at *
          unfold sizeT
          omega
        have hindex : sizeT ((hex.hexBegin + 2 * k : Nat) - (hex.hexBegin : Nat)) / 2 = k := by
          unfold CString.strlen at *
          unfold sizeT
          omega
        have hstep : sizeT ((hex.hexBegin + 2 * k : Nat) + 2) = hex.hexBegin + 2 * (k + 1) := by
          unfold CString.strlen at *
          unfold sizeT
          omega
        rw [if_pos (by omega), hnext, hindex, hstep, sat_bind, sat_readChar (by omega), sat_bind,
          sat_readChar hpass, sat_bind, sat_writeBuffer]
        split
        case isTrue hk =>
          refine (ih (k + 1) _).mono
            (fun _ res' ⟨hin, hres⟩ => ⟨fun j hj hpair => ?_, fun j => ?_⟩) fun e _ herr => ?_
          · rcases Nat.eq_or_lt_of_le hj with rfl | hlt
            · exact hk
            · exact hin j hlt hpair
          · rw [hres]
            by_cases hj : j = k
            · rw [hj, if_neg (by omega), if_pos rfl, if_pos ⟨le_refl k, hpass⟩]
              rfl
            · have hle : k + 1 ≤ j ↔ k ≤ j := by omega
              simp only [hle, if_neg hj]
          · rcases herr with ⟨he, j, hj, hpair, hout⟩ | ⟨he, hfuel⟩
            · exact .inl ⟨he, j, by omega, hpair, hout⟩
            · exact .inr ⟨he, .inr (by omega)⟩
        -- There is no room for it.
        case isFalse hk => exact .inl ⟨rfl, k, le_refl k, hpass, Nat.not_lt.1 hk⟩
      · -- No pass from here on.
        have hnone : ∀ j ≥ k, ¬ hex.HasPair j := by
          intro j hj hpair
          unfold CString.HasPair at hpair
          omega
        rw [if_neg (by omega), sat_pure]
        exact ⟨fun j hj hpair => absurd hpair (hnone j hj), fun j =>
          (if_neg fun h => hnone j h.1 h.2).symm⟩

/-! ### The buffer that the callers allocate -/

/-- The empty buffer. -/
def HexBuffer.empty : HexBuffer := fun _ => none

/-- `from_hex` ends without a read or a write outside, and leaves `res`. -/
def FromHexEnds (hex : CString) (size : Nat) (res : HexBuffer) : Prop :=
  ∃ fuel, fromHex hex size fuel .empty = .ok () res

/-- A string that is not empty: the passes are inside of the buffer, and write their bytes. -/
theorem fromHexEnds_iff {hex : CString} (hlen : 0 < hex.strlen) (size : Nat) (res : HexBuffer) :
    FromHexEnds hex size res ↔ (∀ j, hex.HasPair j → j < size) ∧
      ∀ j, res j = if hex.HasPair j then some (hex.pair j) else none := by
  have hloop := fun fuel => sat_fromHexLoop hlen size fuel 0 .empty
  simp only [Nat.zero_le, true_and, ge_iff_le, forall_const, Nat.mul_zero, Nat.add_zero,
    Nat.zero_add] at hloop
  constructor
  · rintro ⟨fuel, hrun⟩
    obtain ⟨hin, hres⟩ := (hloop fuel).of_ok hrun
    exact ⟨hin, hres⟩
  · rintro ⟨hin, hres⟩
    -- As many passes as there are characters are enough.
    have hok : Sat (fromHexLoop hex size hex.strlen hex.hexBegin) .empty
        (fun _ res' => res' = res) fun _ _ => False := by
      refine (hloop hex.strlen).mono (fun _ res' ⟨_, hres'⟩ => ?_) fun e _ herr => ?_
      · funext j
        rw [hres', hres]
        rfl
      · rcases herr with ⟨_, j, hpair, hout⟩ | ⟨_, hfuel⟩
        · exact absurd (hin j hpair) (Nat.not_lt.2 hout)
        · omega
    obtain ⟨_, _, hrun, rfl⟩ := hok.exists_ok
    exact ⟨hex.strlen, hrun⟩

/-! ### Which strings are safe -/

/-- With the prefix, the digits start behind it. -/
theorem hexBegin_prefixed {hex : CString} (h : hex.hasPrefix = true) :
    hex.hexBegin = 2 ∧ 2 ≤ hex.strlen := by
  constructor
  · unfold CString.hexBegin
    rw [if_pos h]
  · have htake : hex.chars.take 2 = [0x30, 0x78] := by simpa [CString.hasPrefix] using h
    have hlength := congrArg List.length htake
    rw [List.length_take] at hlength
    unfold CString.strlen
    simp only [List.length_cons, List.length_nil] at hlength
    omega

/-- Without the prefix, the digits start at once. -/
theorem hexBegin_unprefixed {hex : CString} (h : hex.hasPrefix = false) : hex.hexBegin = 0 := by
  unfold CString.hexBegin
  rw [h]
  rfl

/-- An empty string is read behind its terminator. -/
theorem not_fromHexEnds_empty {hex : CString} (hlen : hex.strlen = 0) (size : Nat)
    (res : HexBuffer) : ¬ FromHexEnds hex size res := by
  rintro ⟨fuel, hrun⟩
  have hbegin : hex.hexBegin = 0 := by
    refine hexBegin_unprefixed (Bool.eq_false_iff.2 fun h => ?_)
    have := (hexBegin_prefixed h).2
    omega
  unfold fromHex at hrun
  rw [hbegin] at hrun
  cases fuel with
  | zero => cases hrun
  | succ fuel =>
      -- `length - 1` wraps, and the first pass reads two characters.
      have herror : Sat (fromHexLoop hex size (fuel + 1) 0) .empty (fun _ _ => False)
          fun _ _ => True := by
        rw [fromHexLoop, hlen, if_pos (by decide), sat_bind, sat_readTerminated, hlen,
          if_neg (by decide), if_pos rfl, sat_bind, sat_readTerminated, hlen, if_neg (by decide),
          if_neg (by decide)]
        trivial
      exact herror.of_ok hrun

/-- `from_hex` ends, reads inside of the string and writes inside of the buffer that its callers
allocate, and fills it if the number of digits is even. -/
def FromHexSafe (hex : CString) : Prop :=
  ∃ res, FromHexEnds hex (hexBufferSize hex) res ∧
    ((hex.strlen - hex.hexBegin) % 2 = 0 → ∀ j < hexBufferSize hex, res j ≠ none)

/-- The size that both callers allocate, for two characters or more. -/
theorem hexBufferSize_eq {hex : CString} (h : 2 ≤ hex.strlen) :
    hexBufferSize hex = hex.strlen / 2 - 1 := by
  have hfits := hex.fits
  unfold hexBufferSize CString.strlen at *
  unfold sizeT
  omega

/-- The passes behind a prefix are those of the buffer. -/
theorem hasPair_prefix_iff {hex : CString} (h : hex.hasPrefix = true) (j : Nat) :
    hex.HasPair j ↔ j < hexBufferSize hex := by
  obtain ⟨hbegin, hlen⟩ := hexBegin_prefixed h
  rw [hexBufferSize_eq hlen]
  unfold CString.HasPair
  rw [hbegin]
  omega

/-- Without a prefix, the last pass is behind the buffer. -/
theorem exists_pair_outside {hex : CString} (h : hex.hasPrefix = false) (hlen : 2 ≤ hex.strlen) :
    ∃ j, hex.HasPair j ∧ hexBufferSize hex ≤ j := by
  refine ⟨hex.strlen / 2 - 1, ?_, (hexBufferSize_eq hlen).le⟩
  unfold CString.HasPair
  rw [hexBegin_unprefixed h]
  omega

/-- What the passes write. -/
def CString.pairs (hex : CString) : HexBuffer :=
  fun j => if hex.HasPair j then some (hex.pair j) else none

/-- With room for every pair, the pairs are written. -/
theorem fromHexEnds_pairs {hex : CString} (hlen : 0 < hex.strlen) {size : Nat}
    (hin : ∀ j, hex.HasPair j → j < size) : FromHexEnds hex size hex.pairs :=
  (fromHexEnds_iff hlen size _).2 ⟨hin, fun _ => rfl⟩

/-- Without the prefix the buffer is one byte short. -/
theorem not_fromHexEnds {hex : CString} (h : hex.hasPrefix = false) (hlen : hex.strlen ≠ 1)
    (res : HexBuffer) : ¬ FromHexEnds hex (hexBufferSize hex) res := by
  intro hends
  rcases Nat.eq_zero_or_pos hex.strlen with hzero | hpos
  · exact not_fromHexEnds_empty hzero _ _ hends
  · obtain ⟨j, hpair, hout⟩ := exists_pair_outside h (by omega)
    exact absurd (((fromHexEnds_iff hpos _ _).1 hends).1 j hpair) (Nat.not_lt.2 hout)

/-- The conversion is safe for the strings that begin with `0x`, and for those of one character. -/
theorem fromHex_safe_iff (hex : CString) :
    FromHexSafe hex ↔ hex.hasPrefix = true ∨ hex.strlen = 1 := by
  constructor
  · rintro ⟨res, hends, -⟩
    -- Without the prefix, the last pair is written behind the buffer.
    by_contra hcond
    obtain ⟨hstart, hlen⟩ := not_or.1 hcond
    exact not_fromHexEnds (by simpa using hstart) hlen res hends
  · rintro (hstart | hlen)
    -- With it, there is one byte for each pair.
    · obtain ⟨-, hlen⟩ := hexBegin_prefixed hstart
      refine ⟨hex.pairs, fromHexEnds_pairs (by omega) fun j => (hasPair_prefix_iff hstart j).1,
        fun _ j hj => ?_⟩
      unfold CString.pairs
      rw [if_pos ((hasPair_prefix_iff hstart j).2 hj)]
      exact Option.some_ne_none _
    · -- One character makes no pair, and is an odd number of digits.
      have hnone : ∀ j, ¬ hex.HasPair j := by
        intro j hpair
        unfold CString.HasPair at hpair
        omega
      have hbegin : hex.hexBegin = 0 := by
        refine hexBegin_unprefixed (Bool.eq_false_iff.2 fun h => ?_)
        have := (hexBegin_prefixed h).2
        omega
      exact ⟨hex.pairs, fromHexEnds_pairs (by omega) fun j hpair => absurd hpair (hnone j),
        fun heven => absurd heven (by omega)⟩

/-- The digits `ab`, without a prefix. -/
def unprefixed : CString := ⟨[0x61, 0x62], by decide, by decide⟩

/-- They need one byte, and the buffer has none. -/
theorem fromHex_unsafe_ab : ¬ FromHexSafe unprefixed := by
  rintro ⟨res, hends, -⟩
  exact not_fromHexEnds (by decide) (by decide) res hends

end TscVee
