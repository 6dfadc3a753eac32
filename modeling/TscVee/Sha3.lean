import TscVee.Stc

/-!
# `TscVee.Sha3`: the vendored sponge of `sha3.c`

`sha3Init256`, `sha3SetFlags`, `sha3Update` and `sha3Finalize` on a context, the permutation
`keccakf`, and `sha3HashBuffer` for a message in one piece. The flag `SHA3_USE_KECCAK_FLAG` selects
the padding: with it the padding starts with a single 1 bit, without it with the SHA-3 suffix.

The sponge is a list of 25 words; `word` reads one of them.
-/

set_option autoImplicit false

namespace TscVee

/-- `keccakf_rndc`. -/
def keccakfRndc : List U64 :=
  [0x0000000000000001, 0x0000000000008082, 0x800000000000808a, 0x8000000080008000,
    0x000000000000808b, 0x0000000080000001, 0x8000000080008081, 0x8000000000008009,
    0x000000000000008a, 0x0000000000000088, 0x0000000080008009, 0x000000008000000a,
    0x000000008000808b, 0x800000000000008b, 0x8000000000008089, 0x8000000000008003,
    0x8000000000008002, 0x8000000000000080, 0x000000000000800a, 0x800000008000000a,
    0x8000000080008081, 0x8000000000008080, 0x0000000080000001, 0x8000000080008008]

/-- `keccakf_rotc` and `keccakf_piln`, entry by entry. -/
def keccakfRotcPiln : List (Nat × Nat) :=
  [(1, 10), (3, 7), (6, 11), (10, 17), (15, 18), (21, 3), (28, 5), (36, 16), (45, 8), (55, 21),
    (2, 24), (14, 4), (27, 15), (41, 23), (56, 19), (8, 13), (25, 12), (43, 2), (62, 20),
    (18, 14), (39, 22), (61, 9), (20, 6), (44, 1)]

/-- `s[i]` -/
def word (s : List U64) (i : Nat) : U64 := s.getD i 0

/-- The column parities `bc` of the Theta step. -/
def columnParity (s : List U64) (i : Nat) : U64 :=
  word s i ^^^ word s (i + 5) ^^^ word s (i + 10) ^^^ word s (i + 15) ^^^ word s (i + 20)

/-- Every lane is changed by the parity of the column before its own and by the rotated parity of
the column behind it. -/
def theta (s : List U64) : List U64 :=
  s.mapIdx fun k w =>
    w ^^^ (columnParity s ((k % 5 + 4) % 5) ^^^ rotl64 (columnParity s ((k % 5 + 1) % 5)) 1)

/-- The Rho and Pi steps: the word `t` moves around the lanes. -/
def rhoPi : List (Nat × Nat) → U64 → List U64 → List U64
  | [], _, s => s
  | (rot, j) :: rest, t, s => rhoPi rest (word s j) (s.set j (rotl64 t rot))

/-- The only step that is not linear: every lane is changed by its two neighbours in the row. -/
def chi (s : List U64) : List U64 :=
  s.mapIdx fun k w =>
    let row := k - k % 5
    w ^^^ (~~~(word s (row + (k % 5 + 1) % 5)) &&& word s (row + (k % 5 + 2) % 5))

/-- One round of the loop, with its constant. -/
def keccakRound (s : List U64) (rndc : U64) : List U64 :=
  let s := theta s
  let s := rhoPi keccakfRotcPiln (word s 1) s
  let s := chi s
  s.set 0 (word s 0 ^^^ rndc)

/-- `keccakf`: the 24 rounds. -/
def keccakf (s : List U64) : List U64 := keccakfRndc.foldl keccakRound s

/-- `sha3_context`. -/
structure Sha3Context where
  saved : U64
  s : List U64
  byteIndex : Nat
  wordIndex : Nat
  capacityWords : Nat
  deriving DecidableEq, Repr

/-- `SHA3_USE_KECCAK_FLAG`. -/
def sha3UseKeccakFlag : Nat := 0x80000000

/-- `SHA3_KECCAK_SPONGE_WORDS - SHA3_CW(capacityWords)`. -/
def Sha3Context.rateWords (ctx : Sha3Context) : Nat :=
  25 - ctx.capacityWords % sha3UseKeccakFlag

/-- `sha3_Init256`: the context for a digest of 256 bits. -/
def sha3Init256 : Sha3Context :=
  { saved := 0, s := List.replicate 25 0, byteIndex := 0, wordIndex := 0,
    capacityWords := 2 * 256 / (8 * 8) }

/-- `sha3_SetFlags`, with the flag `SHA3_FLAGS_KECCAK` set or not. -/
def sha3SetFlags (ctx : Sha3Context) (keccak : Bool) : Sha3Context :=
  if keccak then { ctx with capacityWords := ctx.capacityWords ||| sha3UseKeccakFlag } else ctx

/-- `ctx->saved |= (uint64_t)(*(buf++)) << ((ctx->byteIndex++) * 8)` -/
def saveByte (ctx : Sha3Context) (b : Byte) : Sha3Context :=
  let t : U64 := b.setWidth 64
  { ctx with saved := ctx.saved ||| t <<< (ctx.byteIndex * 8), byteIndex := ctx.byteIndex + 1 }

/-- The bytes that do not fill a word, one after the other. -/
def saveBytes (ctx : Sha3Context) (bytes : List Byte) : Sha3Context := bytes.foldl saveByte ctx

/-- A word is added to the sponge, which is permuted when its rate part is full. -/
def absorbWord (ctx : Sha3Context) (t : U64) : Sha3Context :=
  let s := ctx.s.set ctx.wordIndex (word ctx.s ctx.wordIndex ^^^ t)
  if ctx.wordIndex + 1 = ctx.rateWords then { ctx with s := keccakf s, wordIndex := 0 }
  else { ctx with s := s, wordIndex := ctx.wordIndex + 1 }

/-- The loop over the full words of the input. -/
def absorbWords : Nat → List Byte → Sha3Context → Sha3Context
  | 0, _, ctx => ctx
  | words + 1, buf, ctx =>
    absorbWords words (buf.drop 8) (absorbWord ctx (littleEndian 64 (buf.take 8)))

/-- `sha3_Update`: the bytes that complete the saved word, the whole words, and the rest. -/
def sha3Update (ctx : Sha3Context) (buf : List Byte) : Sha3Context :=
  let oldTail := (8 - ctx.byteIndex) % 8
  if buf.length < oldTail then saveBytes ctx buf
  else
    let ctx :=
      if oldTail ≠ 0 then
        let ctx := saveBytes ctx (buf.take oldTail)
        absorbWord { ctx with byteIndex := 0, saved := 0 } ctx.saved
      else ctx
    let buf := buf.drop oldTail
    let words := buf.length / 8
    saveBytes (absorbWords words buf ctx) (buf.drop (words * 8))

/-- The 200 bytes of the sponge after the last permutation. -/
def sha3Finalize (ctx : Sha3Context) (i : Nat) : Byte :=
  let t : U64 :=
    if ctx.capacityWords &&& sha3UseKeccakFlag ≠ 0 then 1 <<< (ctx.byteIndex * 8)
    else (0x02 ||| (1 <<< 2)) <<< (ctx.byteIndex * 8)
  let s := ctx.s.set ctx.wordIndex (word ctx.s ctx.wordIndex ^^^ (ctx.saved ^^^ t))
  let last := ctx.rateWords - 1
  let s := keccakf (s.set last (word s last ^^^ 0x8000000000000000))
  shiftedByte (word s (i / 8)) (i % 8)

/-- `sha3_Init`, or `none` for `SHA3_RETURN_BAD_PARAMS`. -/
def sha3Init (bitSize : Nat) : Option Sha3Context :=
  if bitSize ≠ 256 ∧ bitSize ≠ 384 ∧ bitSize ≠ 512 then none
  else some
    { saved := 0, s := List.replicate 25 0, byteIndex := 0, wordIndex := 0,
      capacityWords := 2 * bitSize / (8 * 8) }

/-- `SHA3_FLAGS_KECCAK`. -/
def sha3FlagsKeccak : Nat := 1

/-- `sha3_HashBuffer`: the bytes that it moves to `out`, or `none` for `SHA3_RETURN_BAD_PARAMS`. -/
def sha3HashBuffer (bitSize flags : Nat) (inBuf : List Byte) (outBytes : Nat) :
    Option (List Byte) :=
  match sha3Init bitSize with
  | none => none
  | some c =>
    -- `sha3_SetFlags` returns the flags that it knows.
    let known := flags &&& sha3FlagsKeccak
    let c := sha3SetFlags c (known = sha3FlagsKeccak)
    if known ≠ flags then none
    else
      let h := sha3Finalize (sha3Update c inBuf)
      let outBytes := if outBytes > bitSize / 8 then bitSize / 8 else outBytes
      some ((List.range outBytes).map h)

end TscVee
