import TscVee.Proofs.FromHex

/-!
# `TscVee.Proofs.HexCodec`: `hex` and `from_hex`

* `hex_eq`: the string that `hex` writes.
* `hexByte_digits`, `digits_hexByte`: a byte and its two digits.
* `hex_roundTrip`: the two conversions undo each other, on strings of lower-case digits.
-/

set_option autoImplicit false

namespace TscVee

open Lib

/-! ### The string of `hex` -/

/-- The two digits of a byte. -/
def highDigit (b : Byte) : Byte := hexChars.getD (b >>> 4).toNat 0

/-- The digit for the low half of a byte. -/
def lowDigit (b : Byte) : Byte := hexChars.getD (b &&& 0xf).toNat 0

/-- The two digits of a byte. -/
def hexDigits (b : Byte) : List Byte := [highDigit b, lowDigit b]

/-- The string of the bytes. -/
def hexString (data : List Byte) : List Byte := 0x30 :: 0x78 :: data.flatMap hexDigits

/-- The prefix, and two digits for each byte. -/
theorem length_hexString (data : List Byte) : (hexString data).length = 2 + 2 * data.length := by
  have hdigits : (data.flatMap hexDigits).length = 2 * data.length := by
    induction data with
    | nil => rfl
    | cons b data ih =>
        rw [List.flatMap_cons, List.length_append, ih, List.length_cons]
        show 2 + 2 * data.length = _
        omega
  rw [hexString, List.length_cons, List.length_cons, hdigits]
  omega

/-- The loop appends the digits of the bytes. -/
theorem sat_hexLoop (data : List Byte) (outSize i : Nat) (res : HexBuffer)
    (hsize : 2 + 2 * (i + data.length) ≤ outSize) (hfits : outSize < 2 ^ 64)
    (hres : ∀ j ≥ 2 * i + 2, res j = none) :
    Sat (hexLoop outSize data i) res
      (fun _ res' => ∀ j, res' j =
        if j < 2 * i + 2 then res j else (data.flatMap hexDigits)[j - (2 * i + 2)]?)
      fun _ _ => False := by
  -- On the bytes that are left. Two digits are written for each, behind those of the bytes before.
  induction data generalizing i res with
  | nil =>
      intro j
      split
      case isTrue => rfl
      case isFalse hj => rw [hres j (Nat.not_lt.1 hj)]; rfl
  | cons b data ih =>
      rw [List.length_cons] at hsize
      have hfirst : sizeT ((i : Int) * 2 + 2) = 2 * i + 2 := by unfold sizeT; omega
      have hsecond : sizeT ((i : Int) * 2 + 3) = 2 * i + 3 := by unfold sizeT; omega
      rw [hexLoop, hfirst, hsecond, sat_bind, sat_writeBuffer, if_pos (by omega), sat_bind,
        sat_writeBuffer, if_pos (by omega)]
      refine (ih (i + 1) _ (by omega) ?_).mono (fun _ res' hrest j => ?_) fun _ _ h => h
      · intro j hj
        rw [if_neg (by omega), if_neg (by omega)]
        exact hres j (by omega)
      · rw [hrest, List.flatMap_cons]
        obtain hj | rfl | rfl | hj : j < 2 * i + 2 ∨ j = 2 * i + 2 ∨ j = 2 * i + 3 ∨
            2 * (i + 1) + 2 ≤ j := by omega
        · rw [if_pos (by omega), if_neg (by omega), if_neg (by omega), if_pos hj]
        · rw [if_pos (by omega), if_neg (by omega), if_pos rfl, if_neg (by omega), Nat.sub_self]
          rfl
        · rw [if_pos (by omega), if_pos rfl, if_neg (by omega),
            show 2 * i + 3 - (2 * i + 2) = 1 by omega]
          rfl
        · rw [if_neg (by omega), if_neg (by omega),
            show j - (2 * i + 2) = j - (2 * (i + 1) + 2) + 2 by omega]
          rfl

/-- `hex` writes its string to the buffer. -/
theorem hex_eq (data : List Byte) (hfits : 2 + 2 * data.length < 2 ^ 64) :
    hex data (2 + 2 * data.length) .empty = .ok () fun j => (hexString data)[j]? := by
  rw [← sat_eq_iff, hex, sat_bind, sat_writeBuffer, if_pos (by omega), sat_bind, sat_writeBuffer,
    if_pos (by omega)]
  refine (sat_hexLoop data _ 0 _ (by omega) hfits ?_).mono (fun _ res' hres => ⟨rfl, ?_⟩)
    fun _ _ h => h
  · intro j hj
    rw [if_neg (by omega), if_neg (by omega)]
    rfl
  · funext j
    rw [hres]
    obtain rfl | rfl | hj : j = 0 ∨ j = 1 ∨ 2 ≤ j := by omega
    · rfl
    · rfl
    · rw [if_neg (by omega), hexString, show j = j - 2 + 2 by omega]
      rfl

/-! ### Both ways -/

/-- The digits of the bytes, two places for each. -/
theorem getElem?_hexString (data : List Byte) (j : Nat) :
    (hexString data)[2 + 2 * j]? = data[j]?.map highDigit ∧
    (hexString data)[2 + 2 * j + 1]? = data[j]?.map lowDigit := by
  have hdigits : (data.flatMap hexDigits)[2 * j]? =
        data[j]?.map highDigit ∧
      (data.flatMap hexDigits)[2 * j + 1]? =
        data[j]?.map lowDigit := by
    induction data generalizing j with
    | nil => exact ⟨rfl, rfl⟩
    | cons b data ih =>
        cases j with
        | zero => exact ⟨rfl, rfl⟩
        | succ j => exact ih j
  rw [show 2 + 2 * j = 2 * j + 2 by omega, show 2 * j + 2 + 1 = 2 * j + 1 + 2 by omega]
  exact hdigits

/-- The digits are read back as what they stand for. -/
theorem fromHexDigit_hexChars {n : Nat} (hn : n < 16) :
    fromHexDigit (hexChars.getD n 0) = n := by
  have hall : ∀ n < 16, fromHexDigit (hexChars.getD n 0) = (n : Int) := by decide
  exact hall n hn

/-- Two digits are read back as the byte. -/
theorem hexByte_hexChars {m n : Nat} (hm : m < 16) (hn : n < 16) :
    (hexByte (hexChars.getD m 0) (hexChars.getD n 0)).toNat = m * 16 + n := by
  unfold hexByte
  rw [fromHexDigit_hexChars hm, fromHexDigit_hexChars hn, BitVec.ofInt_natCast,
    BitVec.ofInt_natCast, BitVec.toNat_ofNat, BitVec.toNat_ofNat, BitVec.toNat_ofNat]
  omega

/-- The two halves of a byte. -/
theorem byte_halves (b : Byte) :
    (b >>> 4).toNat = b.toNat / 16 ∧ (b &&& 0xf).toNat = b.toNat % 16 := by
  constructor
  · rw [BitVec.toNat_ushiftRight, Nat.shiftRight_eq_div_pow]
  · rw [BitVec.toNat_and]
    exact Nat.and_two_pow_sub_one_eq_mod _ 4

/-- A byte is the byte of its digits. -/
theorem hexByte_digits (b : Byte) : hexByte (highDigit b) (lowDigit b) = b := by
  obtain ⟨hhigh, hlow⟩ := byte_halves b
  have hb := b.isLt
  refine BitVec.eq_of_toNat_eq ?_
  rw [highDigit, lowDigit, hexByte_hexChars (by omega) (by omega), hhigh, hlow]
  omega

/-- Lower-case digits are the digits of their byte. -/
theorem digits_hexByte {h0 h1 : Byte} (hh0 : h0 ∈ hexChars) (hh1 : h1 ∈ hexChars) :
    highDigit (hexByte h0 h1) = h0 ∧ lowDigit (hexByte h0 h1) = h1 := by
  obtain ⟨m, hm, rfl⟩ := List.mem_iff_getElem.1 hh0
  obtain ⟨n, hn, rfl⟩ := List.mem_iff_getElem.1 hh1
  have hget : ∀ k (hk : k < hexChars.length), hexChars.getD k 0 = hexChars[k] := by
    intro k hk
    rw [List.getD_eq_getElem?_getD, List.getElem?_eq_getElem hk]
    rfl
  have hbyte := hexByte_hexChars hm hn
  rw [hget m hm, hget n hn] at hbyte
  obtain ⟨hhigh, hlow⟩ := byte_halves (hexByte hexChars[m] hexChars[n])
  rw [hbyte] at hhigh hlow
  have hn' : n < 16 := hn
  rw [highDigit, lowDigit, hhigh, hlow, show (m * 16 + n) / 16 = m by omega,
    show (m * 16 + n) % 16 = n by omega]
  exact ⟨hget m hm, hget n hn⟩

/-- `hex` writes the string. -/
def HexWrites (data : List Byte) (s : CString) : Prop :=
  s.strlen = 2 + 2 * data.length ∧ hex data s.strlen .empty = .ok () fun j => s.chars[j]?

/-- `from_hex` writes just these bytes, to the buffer that its callers allocate. -/
def FromHexWrites (s : CString) (data : List Byte) : Prop :=
  FromHexEnds s (hexBufferSize s) fun j => data[j]?

/-- The string is `0x` and an even number of lower-case digits. -/
def CString.LowerHex (s : CString) : Prop :=
  ∃ digits, s.chars = 0x30 :: 0x78 :: digits ∧ digits.length % 2 = 0 ∧ ∀ h ∈ digits, h ∈ hexChars

/-- A string that starts with `0x`. -/
theorem hasPrefix_of_chars {s : CString} {digits : List Byte}
    (h : s.chars = 0x30 :: 0x78 :: digits) : s.hasPrefix = true := by
  unfold CString.hasPrefix
  rw [h]
  rfl

/-- There is one such string. -/
theorem HexWrites.chars {data : List Byte} {s : CString} (h : HexWrites data s) :
    s.chars = hexString data := by
  obtain ⟨hlen, hrun⟩ := h
  have hfits := s.fits
  unfold CString.strlen at hlen
  rw [CString.strlen, hlen, hex_eq data (by omega)] at hrun
  refine List.ext_getElem? fun j => ?_
  exact (congrFun (EStateM.Result.ok.inj hrun).2 j).symm

/-- A string of the digits of `data` is one that is written for it. -/
theorem hexWrites_of_chars {data : List Byte} {s : CString} (h : s.chars = hexString data) :
    HexWrites data s := by
  have hfits := s.fits
  have hlen : s.strlen = 2 + 2 * data.length := by rw [CString.strlen, h, length_hexString]
  refine ⟨hlen, ?_⟩
  unfold CString.strlen at hlen
  rw [CString.strlen, hlen, hex_eq data (by omega), h]

/-- The string of an array: it exists if it is an object. -/
theorem exists_hexWrites {data : List Byte} (hfits : 2 + 2 * data.length + 1 < 2 ^ 64) :
    ∃ s, HexWrites data s := by
  have hdigit : ∀ n < 16, hexChars.getD n 0 ≠ 0 := by decide
  have hnonzero : 0 ∉ hexString data := by
    intro hzero
    obtain hzero | hzero | hzero : (0 : Byte) = 0x30 ∨ (0 : Byte) = 0x78 ∨
        0 ∈ data.flatMap hexDigits := by simpa [hexString] using hzero
    · exact absurd hzero (by decide)
    · exact absurd hzero (by decide)
    · obtain ⟨b, -, hb⟩ := List.mem_flatMap.1 hzero
      obtain ⟨hhigh, hlow⟩ := byte_halves b
      have hlt := b.isLt
      obtain h | h : 0 = highDigit b ∨ 0 = lowDigit b := by simpa [hexDigits] using hb
      · exact hdigit (b >>> 4).toNat (by omega) h.symm
      · exact hdigit (b &&& 0xf).toNat (by omega) h.symm
  exact ⟨⟨hexString data, hnonzero, by rwa [length_hexString]⟩, hexWrites_of_chars rfl⟩

/-- A string that `hex` has written is read back as the bytes. -/
theorem fromHexWrites_of_hexWrites {data : List Byte} {s : CString} (h : HexWrites data s) :
    FromHexWrites s data := by
  have hchars := h.chars
  have hstart : s.hasPrefix = true := hasPrefix_of_chars hchars
  obtain ⟨hbegin, hlen⟩ := hexBegin_prefixed hstart
  have hsize : hexBufferSize s = data.length := by
    rw [hexBufferSize_eq hlen, h.1]
    omega
  refine (fromHexEnds_iff (by omega) _ _).2
    ⟨fun j => (hasPair_prefix_iff hstart j).1, fun j => ?_⟩
  have hiff := hasPair_prefix_iff hstart j
  rw [hsize] at hiff
  by_cases hj : j < data.length
  · obtain ⟨hhigh, hlow⟩ := getElem?_hexString data j
    rw [if_pos (hiff.2 hj), CString.pair, hbegin, hchars, List.getD_eq_getElem?_getD,
      List.getD_eq_getElem?_getD, hhigh, hlow, List.getElem?_eq_getElem hj]
    exact congrArg some (hexByte_digits _).symm
  · rw [if_neg fun hpair => hj (hiff.1 hpair), List.getElem?_eq_none (Nat.not_lt.1 hj)]

/-- The bytes that `from_hex` reads, as a list. -/
def CString.bytes (s : CString) : List Byte := (List.range (hexBufferSize s)).map s.pair

/-- The bytes that are read from the pairs of digits. -/
theorem getElem?_bytes (s : CString) (j : Nat) :
    s.bytes[j]? = if j < hexBufferSize s then some (s.pair j) else none := by
  unfold CString.bytes
  rw [List.getElem?_map]
  by_cases hj : j < hexBufferSize s
  · rw [if_pos hj, List.getElem?_range hj]
    rfl
  · rw [if_neg hj, List.getElem?_eq_none (by rw [List.length_range]; omega)]
    rfl

/-- The bytes of a string of lower-case digits have the string's digits. -/
theorem hexString_bytes {s : CString} (h : s.LowerHex) : hexString s.bytes = s.chars := by
  obtain ⟨digits, hchars, heven, hlower⟩ := h
  have hstart : s.hasPrefix = true := hasPrefix_of_chars hchars
  obtain ⟨hbegin, hlen⟩ := hexBegin_prefixed hstart
  have hstrlen : s.strlen = digits.length + 2 := by
    unfold CString.strlen
    rw [hchars]
    rfl
  have hsize : hexBufferSize s = digits.length / 2 := by
    rw [hexBufferSize_eq hlen, hstrlen]
    omega
  -- The characters behind the prefix, and their byte.
  have hget : ∀ i, s.chars[2 + i]? = digits[i]? := by
    intro i
    rw [hchars, show 2 + i = i + 2 by omega]
    rfl
  have hpair : ∀ m, (hm : 2 * m + 1 < digits.length) →
      s.pair m = hexByte digits[2 * m] digits[2 * m + 1] := by
    intro m hm
    rw [CString.pair, hbegin, List.getD_eq_getElem?_getD, List.getD_eq_getElem?_getD, Nat.add_assoc,
      hget, hget, List.getElem?_eq_getElem hm, List.getElem?_eq_getElem (by omega)]
    rfl
  refine List.ext_getElem? fun j => ?_
  obtain rfl | rfl | ⟨m, rfl | rfl⟩ :
      j = 0 ∨ j = 1 ∨ ∃ m, j = 2 + 2 * m ∨ j = 2 + 2 * m + 1 := by
    rcases Nat.lt_or_ge j 2 with hj | hj
    · omega
    · exact .inr (.inr ⟨(j - 2) / 2, by omega⟩)
  · rw [hchars]
    rfl
  · rw [hchars]
    rfl
  · rw [(getElem?_hexString s.bytes m).1, getElem?_bytes, hget, hsize]
    by_cases hm : 2 * m + 1 < digits.length
    · rw [if_pos (by omega), hpair m hm, List.getElem?_eq_getElem (by omega)]
      exact congrArg some
        (digits_hexByte (hlower _ (List.getElem_mem _)) (hlower _ (List.getElem_mem _))).1
    · rw [if_neg (by omega), List.getElem?_eq_none (by omega)]
      rfl
  · rw [(getElem?_hexString s.bytes m).2, getElem?_bytes, Nat.add_assoc, hget, hsize]
    by_cases hm : 2 * m + 1 < digits.length
    · rw [if_pos (by omega), hpair m hm, List.getElem?_eq_getElem hm]
      exact congrArg some
        (digits_hexByte (hlower _ (List.getElem_mem _)) (hlower _ (List.getElem_mem _))).2
    · rw [if_neg (by omega), List.getElem?_eq_none (by omega)]
      rfl

/-- The bytes of such a string are written as that string. -/
theorem writes_of_lowerHex {s : CString} (h : s.LowerHex) :
    FromHexWrites s s.bytes ∧ HexWrites s.bytes s := by
  have hstart : s.hasPrefix = true := hasPrefix_of_chars h.choose_spec.1
  obtain ⟨-, hlen⟩ := hexBegin_prefixed hstart
  refine ⟨(fromHexEnds_iff (by omega) _ _).2 ⟨fun j => (hasPair_prefix_iff hstart j).1,
    fun j => ?_⟩, hexWrites_of_chars (hexString_bytes h).symm⟩
  rw [getElem?_bytes]
  simp only [hasPair_prefix_iff hstart j]

/-- `from_hex` reads back what `hex` has written, and `hex` writes back what `from_hex` has read, if
the digits are lower-case. -/
theorem hex_roundTrip :
    (∀ data : List Byte, 2 + 2 * data.length + 1 < 2 ^ 64 → ∃ s, HexWrites data s) ∧
    (∀ data s, HexWrites data s → FromHexWrites s data) ∧
    (∀ s : CString, s.LowerHex → ∃ data, FromHexWrites s data ∧ HexWrites data s) :=
  ⟨fun _ hfits => exists_hexWrites hfits, fun _ _ h => fromHexWrites_of_hexWrites h,
    fun s h => ⟨s.bytes, writes_of_lowerHex h⟩⟩

end TscVee
