import Mathlib.Data.List.Basic

/-!
# `TscVee.Lib.Sponge`: the sponge construction, block by block and byte by byte

A sponge adds a message to the first `rate` bytes of a state, one block after the other, and
permutes the state behind each block. The message is padded to whole blocks first.

* `Sponge.hash`: the construction as it is defined, over the blocks of the padded message.
* `Sponge.Absorbing`, `Sponge.feed`: a sponge that gets its message in pieces. It adds each byte at
  once, and permutes the state when a block is full.
* `Sponge.feed_flatten`: the cuts between the pieces do not matter.
* `Sponge.finish_feed`: the two agree. The padding is one byte behind the message and one at the end
  of the block.
-/

set_option autoImplicit false

namespace TscVee.Lib

/-- A sponge over the states `σ` and the bytes `β`. -/
structure Sponge (σ β : Type) [XorOp β] where
  rate : Nat
  rate_pos : 0 < rate
  start : σ
  /-- Adds a byte at a position below the rate. -/
  add : Nat → β → σ → σ
  permute : σ → σ
  zero : β
  add_zero : ∀ i s, add i zero s = s
  add_add : ∀ i a b s, add i b (add i a s) = add i (a ^^^ b) s

namespace Sponge

variable {σ β : Type} [XorOp β] (S : Sponge σ β)

/-- Adds bytes from a position on. -/
def addBytes (i : Nat) : List β → σ → σ
  | [], s => s
  | b :: bytes, s => addBytes (i + 1) bytes (S.add i b s)

/-- A whole block is added, and the state is permuted. -/
def absorbBlock (s : σ) (block : List β) : σ := S.permute (S.addBytes 0 block s)

/-- The first `n` blocks of a message. -/
def blocks : Nat → List β → List (List β)
  | 0, _ => []
  | n + 1, bytes => bytes.take S.rate :: blocks n (bytes.drop S.rate)

/-- The padding behind a message of `n` bytes, with the two given bytes at its ends. They are added
to each other, if one byte is missing to a full block. -/
def padding (first last : β) (n : Nat) : List β :=
  let missing := S.rate - n % S.rate
  if missing = 1 then [first ^^^ last] else first :: (List.replicate (missing - 2) S.zero ++ [last])

/-- The state behind the padded message. -/
def hash (first last : β) (message : List β) : σ :=
  let padded := message ++ S.padding first last message.length
  (S.blocks (padded.length / S.rate) padded).foldl S.absorbBlock S.start

/-! ### A sponge that gets its message in pieces -/

/-- The state so far, and the position of the next byte in its block. -/
structure Absorbing where
  state : σ
  pos : Nat
  pos_lt : pos < S.rate

variable {S}

/-- Nothing has been absorbed. -/
def init : S.Absorbing := ⟨S.start, 0, S.rate_pos⟩

/-- A byte is added, and the state is permuted if the block is full. -/
def feedByte (a : S.Absorbing) (b : β) : S.Absorbing :=
  if h : a.pos + 1 < S.rate then ⟨S.add a.pos b a.state, a.pos + 1, h⟩
  else ⟨S.permute (S.add a.pos b a.state), 0, S.rate_pos⟩

/-- The bytes are absorbed one after the other. -/
def feed (a : S.Absorbing) (bytes : List β) : S.Absorbing := bytes.foldl feedByte a

/-- Adds the two bytes of the padding, and permutes the state. -/
def finish (first last : β) (a : S.Absorbing) : σ :=
  S.permute (S.add (S.rate - 1) last (S.add a.pos first a.state))

/-- Bytes may be absorbed in two parts. -/
theorem feed_append (a : S.Absorbing) (xs ys : List β) : feed a (xs ++ ys) = feed (feed a xs) ys :=
  List.foldl_append

/-- The message can be cut into pieces anywhere. -/
theorem feed_flatten (a : S.Absorbing) (pieces : List (List β)) :
    pieces.foldl feed a = feed a pieces.flatten := by
  induction pieces generalizing a with
  | nil => rfl
  | cons piece pieces ih => rw [List.foldl_cons, ih, List.flatten_cons, feed_append]

variable {a : S.Absorbing} {bytes : List β} {first last : β}

/-- Bytes that fill the block. -/
theorem feed_block (h : a.pos + bytes.length = S.rate) :
    feed a bytes = ⟨S.permute (S.addBytes a.pos bytes a.state), 0, S.rate_pos⟩ := by
  have hpos := a.pos_lt
  induction bytes generalizing a with
  | nil =>
      rw [List.length_nil] at h
      omega
  | cons b bytes ih =>
      rw [List.length_cons] at h
      show feed (feedByte a b) bytes = _
      unfold feedByte
      split
      case isTrue hnext =>
        rw [ih (by show a.pos + 1 + bytes.length = S.rate; omega) hnext]
        rfl
      case isFalse hnext =>
        -- The byte is the last one of the block.
        obtain rfl : bytes = [] := List.length_eq_zero_iff.1 (by omega)
        rfl

/-- Whole blocks. -/
theorem feed_blocks (n : Nat) {bytes : List β} (h : bytes.length = n * S.rate) (s : σ) :
    feed (⟨s, 0, S.rate_pos⟩ : S.Absorbing) bytes =
      ⟨(S.blocks n bytes).foldl S.absorbBlock s, 0, S.rate_pos⟩ := by
  -- On the blocks. The first one fills the rate and is permuted, and the rest begins at 0 again.
  induction n generalizing bytes s with
  | zero =>
      rw [Nat.zero_mul] at h
      rw [List.length_eq_zero_iff.1 h]
      rfl
  | succ n ih =>
      rw [Nat.succ_mul] at h
      have htake : (bytes.take S.rate).length = S.rate := by
        rw [List.length_take]
        omega
      have hdrop : (bytes.drop S.rate).length = n * S.rate := by
        rw [List.length_drop]
        omega
      have hfirst : feed (⟨s, 0, S.rate_pos⟩ : S.Absorbing) (bytes.take S.rate) =
          ⟨S.absorbBlock s (bytes.take S.rate), 0, S.rate_pos⟩ :=
        feed_block ((Nat.zero_add _).trans htake)
      conv_lhs => rw [← List.take_append_drop S.rate bytes]
      rw [feed_append, hfirst, ih hdrop]
      rfl

/-- The position counts the bytes up to the rate. -/
theorem feed_pos (a : S.Absorbing) (bytes : List β) :
    (feed a bytes).pos = (a.pos + bytes.length) % S.rate := by
  induction bytes generalizing a with
  | nil => exact (Nat.mod_eq_of_lt a.pos_lt).symm
  | cons b bytes ih =>
      show (feed (feedByte a b) bytes).pos = _
      rw [ih, List.length_cons]
      unfold feedByte
      split
      case isTrue => congr 1; show a.pos + 1 + bytes.length = _; omega
      case isFalse hnext =>
        have hpos := a.pos_lt
        have hsum : a.pos + (bytes.length + 1) = bytes.length + S.rate := by omega
        rw [hsum, Nat.add_mod_right]
        simp

/-- Zero bytes change the position only. -/
theorem addBytes_replicate (i n : Nat) (s : σ) : S.addBytes i (List.replicate n S.zero) s = s := by
  induction n generalizing i with
  | zero => rfl
  | succ n ih => rw [List.replicate_succ, addBytes, S.add_zero, ih]

/-- Bytes may be added in two parts, the second one behind the first. -/
theorem addBytes_append (i : Nat) (xs ys : List β) (s : σ) :
    S.addBytes i (xs ++ ys) s = S.addBytes (i + xs.length) ys (S.addBytes i xs s) := by
  induction xs generalizing i s with
  | nil => rfl
  | cons x xs ih =>
      rw [List.cons_append, addBytes, ih, addBytes, List.length_cons, Nat.add_assoc,
        Nat.add_comm 1]

/-- The padding fills the block. -/
theorem padding_length (first last : β) (n : Nat) :
    (S.padding first last n).length = S.rate - n % S.rate := by
  have hlt := Nat.mod_lt n S.rate_pos
  unfold padding
  dsimp only
  split
  case isTrue hone => exact hone.symm
  case isFalse hone =>
    simp only [List.length_cons, List.length_append, List.length_replicate, List.length_nil]
    omega

/-- To add the two bytes of the padding is to feed the padding. -/
theorem feed_padding {n : Nat} (h : a.pos = n % S.rate) :
    feed a (S.padding first last n) = ⟨finish first last a, 0, S.rate_pos⟩ := by
  have hpos := a.pos_lt
  rw [feed_block (by rw [padding_length]; omega), finish, padding]
  congr 2
  split
  case isTrue hone =>
    have hlast : S.rate - 1 = a.pos := by omega
    rw [hlast, S.add_add]
    rfl
  case isFalse hone =>
    have hlast : a.pos + 1 + (S.rate - n % S.rate - 2) = S.rate - 1 := by omega
    rw [addBytes, addBytes_append, addBytes_replicate, List.length_replicate, hlast]
    rfl

/-- The sponge that got its message in pieces has the state of the definition. -/
theorem finish_feed (first last : β) (message : List β) :
    finish first last (feed (init : S.Absorbing) message) = S.hash first last message := by
  have hpos : (feed (init : S.Absorbing) message).pos = message.length % S.rate := by
    rw [feed_pos]
    simp [init]
  -- Finishing is the same as feeding the padding.
  have hpadded : feed (init : S.Absorbing)
      (message ++ S.padding first last message.length) =
      ⟨finish first last (feed (init : S.Absorbing) message), 0, S.rate_pos⟩ := by
    rw [feed_append, feed_padding hpos]
  -- The padded message is a whole number of blocks.
  have hlength : (message ++ S.padding first last message.length).length =
      (message.length / S.rate + 1) * S.rate := by
    have hlt := Nat.mod_lt message.length S.rate_pos
    have hdiv := Nat.div_add_mod message.length S.rate
    rw [List.length_append, padding_length, Nat.succ_mul, Nat.mul_comm]
    omega
  have hblocks := feed_blocks _ hlength (S.start)
  rw [show (⟨S.start, 0, S.rate_pos⟩ : S.Absorbing) = init from rfl, hpadded] at hblocks
  have hstate := congrArg Absorbing.state hblocks
  rw [hash, hlength, Nat.mul_div_cancel _ S.rate_pos]
  exact hstate

end Sponge

end TscVee.Lib
