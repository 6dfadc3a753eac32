import TscVee.Proofs.KeccakF
import TscVee.Proofs.KeccakInput
import TscVee.Proofs.WordCodec

/-!
# `TscVee.Proofs.Sha3Stream`: the context of `sha3.c` is a sponge that gets its message in pieces

The source adds the message to the lanes in words of 64 bits. Up to seven bytes that do not fill a
word wait in `saved`, between the calls of `sha3_Update` too.

* `Absorbs`: the context stands for a sponge into which the waiting bytes have been added already.
* `Absorbs.update`: `sha3_Update` feeds its bytes, wherever the calls before it have stopped.
* `Absorbs.finalize`: `sha3_Finalize` adds the padding and permutes the lanes once more.
* `sha3_streams`: the digest of a message in any number of pieces.
* `sha3HashBuffer_iff`: the digest of a message in one piece, and the parameters that are refused.
* `keccak256_digest`: what `KECCAK256` pushes.
-/

set_option autoImplicit false

namespace TscVee

open TscVee.Lib Keccak

/-! ### Lanes -/

/-- Nothing is absorbed. -/
theorem addLane_zero (k : Nat) (A : Lanes) : addLane k 0 A = A := by
  funext x y
  simp [addLane]

/-- Two words are absorbed in one lane. -/
theorem addLane_addLane (k : Nat) (v w : U64) (A : Lanes) :
    addLane k w (addLane k v A) = addLane k (v ^^^ w) A := by
  funext x y
  simp only [addLane]
  split
  · rw [BitVec.xor_assoc]
  · rfl

/-- A word of the state is a lane. -/
theorem lanes_set {s : List U64} (hs : s.length = 25) {k : Nat} (hk : k < 25) (w : U64) :
    lanes (s.set k (word s k ^^^ w)) = addLane k w (lanes s) := by
  funext x y
  show word (s.set k _) (5 * y.val + x.val) = _
  unfold addLane
  split
  case isTrue heq =>
    rw [heq, word_set_self (by omega)]
    show _ = word s (5 * y.val + x.val) ^^^ w
    rw [heq]
  case isFalse hne => exact word_set_ne fun heq => hne heq.symm

/-- And a lane is a word of the state. -/
theorem lane_lanes (s : List U64) {k : Nat} (hk : k < 25) : lane (lanes s) k = word s k := by
  have hindex : 5 * (k / 5) + k % 5 = k := Nat.div_add_mod k 5
  show word s (5 * (k / 5 % 5) + k % 5 % 5) = _
  rw [Nat.mod_eq_of_lt (show k / 5 < 5 by omega), Nat.mod_mod, hindex]

/-! ### The waiting bytes -/

/-- Bits above a small word are added to it by an OR. -/
theorem or_shiftLeft {v w : U64} {n : Nat} (hv : v.toNat < 2 ^ n) :
    v ||| w <<< n = v ^^^ w <<< n := by
  ext i hi
  rw [BitVec.getElem_or, BitVec.getElem_xor, BitVec.getElem_shiftLeft]
  by_cases hlow : i < n
  · simp [hlow]
  · have hbit : v[i] = false := by
      rw [← BitVec.getLsbD_eq_getElem]
      exact Nat.testBit_lt_two_pow (lt_of_lt_of_le hv (Nat.pow_le_pow_right (by decide) (by omega)))
    rw [hbit]
    simp

/-- All the waiting bytes at once. -/
theorem saveBytes_eq (ctx : Sha3Context) (bytes : List Byte) :
    saveBytes ctx bytes =
      { ctx with
        saved := ctx.saved ||| littleEndian 64 bytes <<< (ctx.byteIndex * 8)
        byteIndex := ctx.byteIndex + bytes.length } := by
  induction bytes generalizing ctx with
  | nil => simp [saveBytes, littleEndian]
  | cons b bytes ih =>
      show saveBytes (saveByte ctx b) bytes = _
      have hshift : (ctx.byteIndex + 1) * 8 = 8 + ctx.byteIndex * 8 := by omega
      have hcount : ctx.byteIndex + 1 + bytes.length = ctx.byteIndex + (bytes.length + 1) := by omega
      have hword : littleEndian 64 (b :: bytes) = littleEndian 64 bytes <<< 8 ||| b.setWidth 64 := rfl
      rw [ih]
      simp only [saveByte, hshift, hcount, hword, List.length_cons, BitVec.shiftLeft_or_distrib,
        BitVec.shiftLeft_add, BitVec.or_assoc, Sha3Context.mk.injEq, and_true]
      rw [BitVec.or_comm (littleEndian 64 bytes <<< 8 <<< (ctx.byteIndex * 8))]

/-- A word is added to the array `s'`. -/
theorem absorbWord_eq (ctx : Sha3Context) (t : U64) (s' : List U64)
    (hs' : s' = ctx.s.set ctx.wordIndex (word ctx.s ctx.wordIndex ^^^ t)) :
    absorbWord ctx t =
      if ctx.wordIndex + 1 = ctx.rateWords then { ctx with s := keccakf s', wordIndex := 0 }
      else { ctx with s := s', wordIndex := ctx.wordIndex + 1 } := by
  rw [hs']
  rfl

/-- A whole word leaves the index of the byte. -/
theorem absorbWord_byteIndex (ctx : Sha3Context) (t : U64) :
    (absorbWord ctx t).byteIndex = ctx.byteIndex := by
  unfold absorbWord
  split <;> rfl

/-! ### The context and the sponge -/

variable {rate : Nat} {hrate : 0 < rate}

/-- The context stands for the sponge that has got the same bytes. -/
structure Absorbs (ctx : Sha3Context) (a : (sponge rate hrate).Absorbing) : Prop where
  length : ctx.s.length = 25
  rate_eq : rate = 8 * ctx.rateWords
  byteIndex_lt : ctx.byteIndex < 8
  saved_lt : ctx.saved.toNat < 2 ^ (8 * ctx.byteIndex)
  pos : a.pos = 8 * ctx.wordIndex + ctx.byteIndex
  state : a.state = addLane ctx.wordIndex ctx.saved (lanes ctx.s)

section
variable {ctx : Sha3Context} {a : (sponge rate hrate).Absorbing}

/-- A context in which no bytes wait. -/
theorem absorbs_of_empty (hlength : ctx.s.length = 25) (hrate' : rate = 8 * ctx.rateWords)
    (hbyte : ctx.byteIndex = 0) (hsaved : ctx.saved = 0) (hpos : a.pos = 8 * ctx.wordIndex)
    (hstate : a.state = lanes ctx.s) : Absorbs ctx a := by
  refine ⟨hlength, hrate', ?_, ?_, ?_, ?_⟩
  · omega
  · rw [hsaved, hbyte]
    decide
  · rw [hpos, hbyte, Nat.add_zero]
  · rw [hsaved, addLane_zero, hstate]

variable (h : Absorbs ctx a)

/-- The rate is a part of the state. -/
theorem rateWords_le (ctx : Sha3Context) : ctx.rateWords ≤ 25 := Nat.sub_le _ _

include h

/-- The next word goes to a lane of the rate. -/
theorem Absorbs.wordIndex_lt : ctx.wordIndex < ctx.rateWords := by
  have hlt : a.pos < rate := a.pos_lt
  have hpos := h.pos
  have hrate := h.rate_eq
  omega

/-- The state behind one more byte, before the lanes are permuted. -/
theorem Absorbs.add (b : Byte) :
    addLane (a.pos / 8) (placed a.pos b) a.state =
      addLane ctx.wordIndex (saveByte ctx b).saved (lanes ctx.s) := by
  have hbyte := h.byteIndex_lt
  have hword : a.pos / 8 = ctx.wordIndex := by
    rw [h.pos]
    omega
  have hplace : 8 * (a.pos % 8) = ctx.byteIndex * 8 := by
    rw [h.pos]
    omega
  have hsaved := h.saved_lt
  rw [Nat.mul_comm] at hsaved
  rw [h.state, hword, addLane_addLane, placed, hplace, ← or_shiftLeft hsaved]
  rfl

/-- A byte that does not fill its word. -/
theorem Absorbs.saveByte (hbyte : ctx.byteIndex + 1 < 8) (b : Byte) :
    Absorbs (TscVee.saveByte ctx b) (Sponge.feedByte a b) := by
  have hword := h.wordIndex_lt
  have hpos := h.pos
  have hrate' := h.rate_eq
  have hnext : a.pos + 1 < (sponge rate hrate).rate := by
    show a.pos + 1 < rate
    omega
  have hfeed : Sponge.feedByte a b =
      ⟨addLane (a.pos / 8) (placed a.pos b) a.state, a.pos + 1, hnext⟩ := dif_pos hnext
  rw [hfeed]
  refine ⟨h.length, hrate', hbyte, ?_, ?_, h.add b⟩
  · -- The new byte lies behind the ones that wait.
    show (ctx.saved ||| b.setWidth 64 <<< (ctx.byteIndex * 8)).toNat < 2 ^ (8 * (ctx.byteIndex + 1))
    have hsaved := h.saved_lt
    rw [BitVec.toNat_or, BitVec.toNat_shiftLeft]
    refine Nat.or_lt_two_pow (lt_of_lt_of_le hsaved (Nat.pow_le_pow_right (by decide) (by omega))) ?_
    refine lt_of_le_of_lt (Nat.mod_le _ _) ?_
    have hb : (b.setWidth 64).toNat < 2 ^ 8 := by
      rw [BitVec.toNat_setWidth]
      exact lt_of_le_of_lt (Nat.mod_le _ _) b.isLt
    rw [Nat.shiftLeft_eq, show 8 * (ctx.byteIndex + 1) = 8 + ctx.byteIndex * 8 by omega, Nat.pow_add]
    exact Nat.mul_lt_mul_of_pos_right hb (Nat.two_pow_pos _)
  · show a.pos + 1 = 8 * ctx.wordIndex + (ctx.byteIndex + 1)
    omega

/-- A byte that fills its word: the word is added to the lanes. -/
theorem Absorbs.fillWord (hbyte : ctx.byteIndex = 7) (b : Byte) :
    Absorbs (absorbWord { TscVee.saveByte ctx b with byteIndex := 0, saved := 0 }
      (TscVee.saveByte ctx b).saved) (Sponge.feedByte a b) := by
  have hword := h.wordIndex_lt
  have hpos := h.pos
  have hrate' := h.rate_eq
  have hle := rateWords_le ctx
  have hadd := h.add b
  rw [← lanes_set h.length (by omega)] at hadd
  -- The state with the word that the byte completes.
  obtain ⟨s', hs'⟩ : ∃ s', s' = ctx.s.set ctx.wordIndex
      (word ctx.s ctx.wordIndex ^^^ (TscVee.saveByte ctx b).saved) := ⟨_, rfl⟩
  have hlength : s'.length = 25 := by
    rw [hs', List.length_set, h.length]
  rw [← hs'] at hadd
  have hadded := absorbWord_eq { TscVee.saveByte ctx b with byteIndex := 0, saved := 0 }
    (TscVee.saveByte ctx b).saved s' hs'
  rw [hadded, Sponge.feedByte]
  split
  -- It was the last word of the rate: the state is permuted.
  case isTrue hfull =>
    have hlast : ctx.wordIndex + 1 = ctx.rateWords := hfull
    have hnext : ¬ a.pos + 1 < (sponge rate hrate).rate := by
      show ¬ a.pos + 1 < rate
      omega
    rw [dif_neg hnext]
    obtain ⟨hkept, hpermuted⟩ := lanes_keccakf hlength
    generalize keccakf s' = s₂ at hkept hpermuted ⊢
    refine absorbs_of_empty hkept hrate' rfl rfl rfl ?_
    show permutation (addLane (a.pos / 8) (placed a.pos b) a.state) = _
    rw [hadd]
    exact hpermuted.symm
  -- There is room for another word.
  case isFalse hroom =>
    have hmore : ctx.wordIndex + 1 ≠ ctx.rateWords := hroom
    have hnext : a.pos + 1 < (sponge rate hrate).rate := by
      show a.pos + 1 < rate
      omega
    rw [dif_pos hnext]
    refine absorbs_of_empty hlength hrate' rfl rfl ?_ hadd
    show a.pos + 1 = 8 * (ctx.wordIndex + 1)
    omega

/-- Bytes that do not fill the word. -/
theorem Absorbs.saveBytes {bytes : List Byte} (hbytes : ctx.byteIndex + bytes.length < 8) :
    Absorbs (TscVee.saveBytes ctx bytes) (Sponge.feed a bytes) := by
  induction bytes generalizing ctx a with
  | nil => exact h
  | cons b bytes ih =>
      rw [List.length_cons] at hbytes
      refine ih (h.saveByte (by omega) b) ?_
      show ctx.byteIndex + 1 + bytes.length < 8
      omega

/-- Bytes that fill the word. -/
theorem Absorbs.completeWord {bytes : List Byte} (hbytes : ctx.byteIndex + bytes.length = 8) :
    Absorbs (absorbWord { TscVee.saveBytes ctx bytes with byteIndex := 0, saved := 0 }
      (TscVee.saveBytes ctx bytes).saved) (Sponge.feed a bytes) := by
  have hbyte := h.byteIndex_lt
  induction bytes generalizing ctx a with
  | nil =>
      rw [List.length_nil] at hbytes
      omega
  | cons b bytes ih =>
      rw [List.length_cons] at hbytes
      by_cases hlast : ctx.byteIndex = 7
      · obtain rfl : bytes = [] := List.length_eq_zero_iff.1 (by omega)
        exact h.fillWord hlast b
      · refine ih (h.saveByte (by omega) b) ?_ ?_
        · show ctx.byteIndex + 1 + bytes.length = 8
          omega
        · show ctx.byteIndex + 1 < 8
          omega

/-- Between words, no byte is saved. -/
theorem Absorbs.saved_eq (hbyte : ctx.byteIndex = 0) : ctx.saved = 0 := by
  have hsaved := h.saved_lt
  rw [hbyte] at hsaved
  exact BitVec.eq_of_toNat_eq (Nat.lt_one_iff.1 hsaved)

/-- A word of the message that is aligned with the lanes. -/
theorem Absorbs.absorbWord {bytes : List Byte} (hbyte : ctx.byteIndex = 0)
    (hbytes : bytes.length = 8) :
    Absorbs (TscVee.absorbWord ctx (littleEndian 64 bytes)) (Sponge.feed a bytes) := by
  have hfill : Absorbs (TscVee.absorbWord
      { TscVee.saveBytes ctx bytes with byteIndex := 0, saved := 0 }
      (TscVee.saveBytes ctx bytes).saved) (Sponge.feed a bytes) := h.completeWord (by omega)
  have hsaved := h.saved_eq hbyte
  obtain ⟨saved, s, byteIndex, wordIndex, capacityWords⟩ := ctx
  obtain rfl : byteIndex = 0 := hbyte
  obtain rfl : saved = 0 := hsaved
  rw [saveBytes_eq] at hfill
  have hword : (0 : U64) ||| littleEndian 64 bytes <<< (0 * 8) = littleEndian 64 bytes := by simp
  simp only [hword] at hfill
  exact hfill

/-- The loop over the words of the message. -/
theorem Absorbs.absorbWords (words : Nat) {buf : List Byte} (hbyte : ctx.byteIndex = 0)
    (hbuf : words * 8 ≤ buf.length) :
    Absorbs (TscVee.absorbWords words buf ctx) (Sponge.feed a (buf.take (words * 8))) ∧
      (TscVee.absorbWords words buf ctx).byteIndex = 0 := by
  -- On the words, each of which is eight bytes of the message.
  induction words generalizing ctx a buf with
  | zero =>
      rw [Nat.zero_mul, List.take_zero]
      exact ⟨h, hbyte⟩
  | succ words ih =>
      have hword : (buf.take 8).length = 8 := by
        rw [List.length_take]
        omega
      have hrest : words * 8 ≤ (buf.drop 8).length := by
        rw [List.length_drop]
        omega
      have hkept : (TscVee.absorbWord ctx (littleEndian 64 (buf.take 8))).byteIndex = 0 :=
        (absorbWord_byteIndex _ _).trans hbyte
      have hsplit : buf.take ((words + 1) * 8) = buf.take 8 ++ (buf.drop 8).take (words * 8) := by
        rw [← List.take_add]
        congr 1
        omega
      rw [hsplit, Sponge.feed_append]
      exact ih (h.absorbWord hbyte hword) hkept hrest

/-- The words and the rest of a message that is aligned with the lanes. -/
theorem Absorbs.alignedBytes (hbyte : ctx.byteIndex = 0) (rest : List Byte) :
    Absorbs (TscVee.saveBytes (TscVee.absorbWords (rest.length / 8) rest ctx)
      (rest.drop (rest.length / 8 * 8))) (Sponge.feed a rest) := by
  have hfit : rest.length / 8 * 8 ≤ rest.length := Nat.div_mul_le_self _ _
  obtain ⟨hwords, hbytes⟩ := h.absorbWords (rest.length / 8) hbyte hfit
  have htail : Absorbs _ (Sponge.feed _ (rest.drop (rest.length / 8 * 8))) :=
    hwords.saveBytes (by
      rw [hbytes, List.length_drop]
      omega)
  rw [← Sponge.feed_append, List.take_append_drop] at htail
  exact htail

/-- `sha3_Update` feeds its bytes to the sponge. -/
theorem Absorbs.update (buf : List Byte) :
    Absorbs (sha3Update ctx buf) (Sponge.feed a buf) := by
  have hbyte := h.byteIndex_lt
  unfold sha3Update
  dsimp only
  split
  case isTrue hshort => exact h.saveBytes (by omega)
  case isFalse hlong =>
    -- The word that waits is completed first.
    obtain ⟨habsorbs, hempty⟩ : Absorbs
        (if (8 - ctx.byteIndex) % 8 ≠ 0 then
          TscVee.absorbWord
            { TscVee.saveBytes ctx (buf.take ((8 - ctx.byteIndex) % 8)) with
              byteIndex := 0, saved := 0 }
            (TscVee.saveBytes ctx (buf.take ((8 - ctx.byteIndex) % 8))).saved
        else ctx) (Sponge.feed a (buf.take ((8 - ctx.byteIndex) % 8))) ∧
        (if (8 - ctx.byteIndex) % 8 ≠ 0 then
          TscVee.absorbWord
            { TscVee.saveBytes ctx (buf.take ((8 - ctx.byteIndex) % 8)) with
              byteIndex := 0, saved := 0 }
            (TscVee.saveBytes ctx (buf.take ((8 - ctx.byteIndex) % 8))).saved
        else ctx).byteIndex = 0 := by
      split
      case isTrue htail =>
        refine ⟨h.completeWord ?_, ?_⟩
        · rw [List.length_take]
          omega
        · rw [absorbWord_byteIndex]
      case isFalse htail =>
        have hnone : (8 - ctx.byteIndex) % 8 = 0 := by omega
        rw [hnone, List.take_zero]
        exact ⟨h, by omega⟩
    generalize (8 - ctx.byteIndex) % 8 = oldTail at *
    have htail := habsorbs.alignedBytes hempty (buf.drop oldTail)
    rw [← Sponge.feed_append, List.take_append_drop] at htail
    exact htail

/-- The first byte of the padding: `SHA3_USE_KECCAK_FLAG` selects it. -/
def firstByte (keccak : Bool) : Byte := if keccak then 0x01 else 0x06

/-- `sha3_Finalize` adds the padding and permutes the lanes. -/
theorem Absorbs.finalize {keccak : Bool}
    (hkeccak : keccak = decide (ctx.capacityWords &&& sha3UseKeccakFlag ≠ 0)) {i : Nat}
    (hi : i < 200) :
    sha3Finalize ctx i = byte (Sponge.finish (firstByte keccak) 0x80 a) i := by
  have hword := h.wordIndex_lt
  have hpos := h.pos
  have hbyte := h.byteIndex_lt
  have hle := rateWords_le ctx
  have hindex : a.pos / 8 = ctx.wordIndex := by omega
  have hplace : 8 * (a.pos % 8) = ctx.byteIndex * 8 := by omega
  have hfirst : (if ctx.capacityWords &&& sha3UseKeccakFlag ≠ 0 then 1 <<< (ctx.byteIndex * 8)
      else (0x02 ||| (1 <<< 2)) <<< (ctx.byteIndex * 8) : U64) =
      placed a.pos (firstByte keccak) := by
    rw [placed, hplace, hkeccak]
    split
    case isTrue hset =>
      rw [decide_eq_true hset]
      rfl
    case isFalse hset =>
      rw [decide_eq_false hset]
      rfl
  -- The last byte of the padding is the highest one of the last word of the rate.
  have hend : (rate - 1) / 8 = ctx.rateWords - 1 ∧ placed (rate - 1) 0x80 = 0x8000000000000000 := by
    have hrate' := h.rate_eq
    refine ⟨by omega, ?_⟩
    rw [placed, show (rate - 1) % 8 = 7 by omega]
    rfl
  have hadded := lanes_set h.length (show ctx.wordIndex < 25 by omega)
    (ctx.saved ^^^ placed a.pos (firstByte keccak))
  rw [← addLane_addLane, ← h.state] at hadded
  unfold sha3Finalize
  dsimp only
  rw [hfirst]
  have hlength : (ctx.s.set ctx.wordIndex (word ctx.s ctx.wordIndex ^^^
      (ctx.saved ^^^ placed a.pos (firstByte keccak)))).length = 25 := by
    rw [List.length_set, h.length]
  generalize ctx.s.set ctx.wordIndex
    (word ctx.s ctx.wordIndex ^^^ (ctx.saved ^^^ placed a.pos (firstByte keccak))) = s' at *
  have hlast := lanes_set hlength (show ctx.rateWords - 1 < 25 by omega) 0x8000000000000000
  have hlength' : (s'.set (ctx.rateWords - 1)
      (word s' (ctx.rateWords - 1) ^^^ 0x8000000000000000)).length = 25 := by
    rw [List.length_set, hlength]
  obtain ⟨-, hpermuted⟩ := lanes_keccakf hlength'
  rw [hlast, hadded] at hpermuted
  have hfinish : permutation (addLane (ctx.rateWords - 1) 0x8000000000000000
      (addLane ctx.wordIndex (placed a.pos (firstByte keccak)) a.state)) =
      Sponge.finish (firstByte keccak) 0x80 a := by
    rw [← hend.1, ← hend.2, ← hindex]
    rfl
  rw [hfinish] at hpermuted
  generalize keccakf (s'.set (ctx.rateWords - 1)
    (word s' (ctx.rateWords - 1) ^^^ 0x8000000000000000)) = s₂ at *
  rw [byte, ← hpermuted, lane_lanes s₂ (by omega)]
  rfl

end

/-! ### The hash of a message in pieces -/

/-- The words of the first state. -/
theorem word_replicate (n k : Nat) : word (List.replicate n 0) k = 0 := by
  rw [word, List.getD_eq_getElem?_getD, List.getElem?_replicate]
  split <;> rfl

/-- A fresh context. -/
theorem absorbs_init {bitSize : Nat} {ctx : Sha3Context} (hctx : sha3Init bitSize = some ctx)
    (keccak : Bool) (hbits : bitSize < 800) :
    Absorbs (sha3SetFlags ctx keccak)
      (Sponge.init : (sponge (200 - bitSize / 4) (rate_pos hbits)).Absorbing) ∧
      keccak = decide ((sha3SetFlags ctx keccak).capacityWords &&& sha3UseKeccakFlag ≠ 0) := by
  unfold sha3Init at hctx
  split at hctx
  · cases hctx
  case isFalse hsize =>
    cases hctx
    have hsizes : bitSize = 256 ∨ bitSize = 384 ∨ bitSize = 512 := by omega
    have hzero : (fun _ _ => 0 : Lanes) = lanes (List.replicate 25 0) := by
      funext x y
      exact (word_replicate 25 _).symm
    rcases hsizes with rfl | rfl | rfl <;> cases keccak <;>
      exact ⟨absorbs_of_empty rfl (by decide) rfl rfl rfl hzero, by decide⟩

/-- The sizes that can be initialised. -/
theorem sha3Init_lt {bitSize : Nat} {ctx : Sha3Context} (hctx : sha3Init bitSize = some ctx) :
    bitSize < 800 := by
  unfold sha3Init at hctx
  split at hctx
  · cases hctx
  · omega

/-- The updates keep the capacity. -/
theorem sha3Updates_capacityWords (chunks : List (List Byte)) (ctx : Sha3Context) :
    (chunks.foldl sha3Update ctx).capacityWords = ctx.capacityWords := by
  induction chunks generalizing ctx with
  | nil => rfl
  | cons chunk chunks ih => rw [List.foldl_cons, ih, sha3Update_capacityWords]

/-- The updates absorb as the sponge does, by induction on the parts of the message. -/
theorem Absorbs.updates {ctx : Sha3Context} {a : (sponge rate hrate).Absorbing} (h : Absorbs ctx a)
    (chunks : List (List Byte)) :
    Absorbs (chunks.foldl sha3Update ctx) (chunks.foldl Sponge.feed a) := by
  induction chunks generalizing ctx a with
  | nil => exact h
  | cons chunk chunks ih => exact ih (h.update chunk)

/-- What is written out is the hash of the joined parts. -/
theorem digest_eq {bitSize : Nat} (hbits : bitSize < 800) {ctx : Sha3Context}
    (hctx : sha3Init bitSize = some ctx) (keccak : Bool) (chunks : List (List Byte)) {i : Nat}
    (hi : i < 200) :
    sha3Finalize (chunks.foldl sha3Update (sha3SetFlags ctx keccak)) i =
      Keccak.hash bitSize hbits (firstByte keccak) chunks.flatten i := by
  obtain ⟨habsorbs, hkeccak⟩ := absorbs_init hctx keccak hbits
  rw [← sha3Updates_capacityWords chunks] at hkeccak
  rw [(habsorbs.updates chunks).finalize hkeccak hi, Sponge.feed_flatten, Sponge.finish_feed]
  rfl

/-- The digest behind any sequence of calls of `sha3_Update` is the hash of all their bytes, wherever
the message is cut: SHA3 with the flag `SHA3_FLAGS_NONE`, Keccak with `SHA3_FLAGS_KECCAK`. -/
theorem sha3_streams {bitSize : Nat} {ctx : Sha3Context} (hctx : sha3Init bitSize = some ctx)
    (keccak : Bool) (chunks : List (List Byte)) :
    ∃ hbits : bitSize < 800, ∀ i < 200,
      sha3Finalize (chunks.foldl sha3Update (sha3SetFlags ctx keccak)) i =
        Keccak.hash bitSize hbits (firstByte keccak) chunks.flatten i := by
  have hbits : bitSize < 800 := sha3Init_lt hctx
  exact ⟨hbits, fun i hi => digest_eq hbits hctx keccak chunks hi⟩

/-- A message of three bytes in two pieces. -/
theorem sha3_streams_pieces :
    ∃ hbits : 256 < 800, ∀ i < 200,
      sha3Finalize ([[0x61], [0x62, 0x63]].foldl sha3Update (sha3SetFlags sha3Init256 true)) i =
        Keccak.hash 256 hbits (firstByte true) [0x61, 0x62, 0x63] i :=
  sha3_streams rfl true [[0x61], [0x62, 0x63]]

/-- `sha3_HashBuffer` refuses all sizes but three and all flags but its two, and moves the first
bytes of the hash, at most as many as the digest has. -/
theorem sha3HashBuffer_iff (bitSize flags : Nat) (inBuf : List Byte) (outBytes : Nat)
    (out : List Byte) :
    sha3HashBuffer bitSize flags inBuf outBytes = some out ↔
      ∃ hbits : bitSize < 800, (bitSize = 256 ∨ bitSize = 384 ∨ bitSize = 512) ∧
        (flags = 0 ∨ flags = 1) ∧
        out = (List.range (min outBytes (bitSize / 8))).map
          (Keccak.hash bitSize hbits (firstByte (flags = 1)) inBuf) := by
  -- The only flag that is known is the lowest bit.
  have hknown : flags &&& sha3FlagsKeccak = flags % 2 := Nat.and_one_is_mod flags
  have hmin : (if outBytes > bitSize / 8 then bitSize / 8 else outBytes) =
      min outBytes (bitSize / 8) := by
    split <;> omega
  unfold sha3HashBuffer
  cases hctx : sha3Init bitSize with
  -- No context: the size is not one of the three.
  | none =>
      refine iff_of_false nofun ?_
      rintro ⟨-, hsize, -⟩
      unfold sha3Init at hctx
      rw [if_neg (by omega)] at hctx
      cases hctx
  | some ctx =>
      have hbits := sha3Init_lt hctx
      simp only [hknown, hmin]
      split
      case isTrue hunknown =>
        refine iff_of_false nofun ?_
        rintro ⟨-, -, hflags, -⟩
        omega
      case isFalse hflags =>
        have hkeccak : decide (flags % 2 = sha3FlagsKeccak) = decide (flags = 1) := by
          rw [not_not.1 hflags]
          rfl
        -- Byte by byte, the output is that of the sponge.
        have hdigest : (List.range (min outBytes (bitSize / 8))).map
            (sha3Finalize (sha3Update (sha3SetFlags ctx (flags = 1)) inBuf)) =
            (List.range (min outBytes (bitSize / 8))).map
              (Keccak.hash bitSize hbits (firstByte (flags = 1)) inBuf) := by
          refine List.map_congr_left fun i hi => ?_
          have hlt := List.mem_range.1 hi
          have hone := digest_eq hbits hctx (decide (flags = 1)) [inBuf] (show i < 200 by omega)
          rw [List.flatten_singleton] at hone
          exact hone
        rw [hkeccak, hdigest, Option.some_inj]
        refine ⟨fun heq => ⟨hbits, ?_, by omega, heq.symm⟩, fun ⟨_, _, _, heq⟩ => heq.symm⟩
        unfold sha3Init at hctx
        split at hctx
        · cases hctx
        · omega

/-! ### What `KECCAK256` pushes -/

section
variable [Env] {s s' : ExecutionState} {top : StackTop}

/-- The word that `KECCAK256` pushes is the SHA3-256 hash of the first bytes of the memory slice, as
many as the slice has words. -/
theorem keccak256_digest (h : StackHolds top 2) (hrun : keccak256 top s = .ok () s') {i : Nat}
    (hi : i < 32) :
    u256Byte (s'.stackSpace (top - 1)) i = Keccak.hash 256 (by decide) 0x06
      (memorySlice s'.memory (s.stackSpace top).low (numWords (s.stackSpace (top - 1)).low)) i := by
  rw [(sat_keccak256 h).of_ok hrun, u256Byte_readu256BE _ hi]
  generalize memorySlice _ _ _ = slice
  have hone := digest_eq (by decide) (show sha3Init 256 = some sha3Init256 from rfl) false [slice]
    (show i < 200 by omega)
  rw [List.flatten_singleton] at hone
  exact hone

end

/-- The hash of one byte of the memory. -/
theorem keccak256_digest_one :
    let _ : Env := Env.zeroed
    ∃ s', keccak256 1 (wordsState [.one, .zero]) = .ok () s' ∧ ∀ i < 32,
      u256Byte (s'.stackSpace 0) i = Keccak.hash 256 (by decide) 0x06
        (memorySlice s'.memory 0 1) i := by
  intro _
  obtain ⟨⟨⟩, s', hrun⟩ := exists_of_endsOk (x := keccak256 1) (s := wordsState [.one, .zero])
    (by with_unfolding_all decide)
  exact ⟨s', hrun, fun i hi => keccak256_digest (by decide) hrun hi⟩

end TscVee
