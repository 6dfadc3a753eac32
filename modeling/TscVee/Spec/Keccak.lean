import Mathlib.Data.Fin.Basic
import TscVee.Lib.Sponge
import TscVee.Uint256

/-!
# `TscVee.Spec.Keccak`: the permutation Keccak-f[1600] and the hashes over it

The state is a square of 25 lanes of 64 bits, with coordinates modulo 5. A round is the composition
of five steps, each of which makes the new square from the whole old one. The offsets of `rho` and
the constants of `iota` are computed from their definitions: the walk `(x, y) ↦ (y, 2x + 3y)` over
the lanes, and a linear feedback register.

* `Keccak.permutation`: the 24 rounds.
* `Keccak.sponge`: the sponge over them. A byte is added to the lane of its position.
* `Keccak.hash`: the digest of a message, for a size of the digest and a first padding byte.
-/

set_option autoImplicit false

namespace TscVee

open TscVee.Lib

/-- The square of the lanes, by column and row. -/
abbrev Lanes := Fin 5 → Fin 5 → U64

namespace Keccak

/-! ### The steps of a round -/

/-- The parity of a column. -/
def parity (A : Lanes) (x : Fin 5) : U64 := A x 0 ^^^ A x 1 ^^^ A x 2 ^^^ A x 3 ^^^ A x 4

/-- Every lane is changed by the parities of two columns. -/
def theta (A : Lanes) : Lanes := fun x y =>
  A x y ^^^ (parity A (x - 1) ^^^ (parity A (x + 1)).rotateLeft 1)

/-- The walk over the lanes other than `(0, 0)`. -/
def walk : Nat → Fin 5 × Fin 5
  | 0 => (1, 0)
  | t + 1 => ((walk t).2, 2 * (walk t).1 + 3 * (walk t).2)

/-- The lane that the walk comes to after `t` steps is turned by the triangular number of `t + 1`. -/
def offset (x y : Fin 5) : Nat :=
  match (List.range 24).find? fun t => walk t = (x, y) with
  | none => 0
  | some t => (t + 1) * (t + 2) / 2

/-- Every lane is rotated by its own offset. -/
def rho (A : Lanes) : Lanes := fun x y => (A x y).rotateLeft (offset x y)

/-- The lanes are rearranged. -/
def pi (A : Lanes) : Lanes := fun x y => A (x + 3 * y) x

/-- Every lane is changed by its two neighbours in the row. -/
def chi (A : Lanes) : Lanes := fun x y => A x y ^^^ (~~~(A (x + 1) y) &&& A (x + 2) y)

/-- The register after `t` steps. Its feedback polynomial is `x^8 + x^6 + x^5 + x^4 + 1`. -/
def register : Nat → BitVec 8
  | 0 => 1
  | t + 1 => register t <<< 1 ^^^ if (register t).getLsbD 7 then 0x71 else 0

/-- The constant of a round has bits at the places `2 ^ j - 1` only. -/
def roundConstant (ir : Nat) : U64 :=
  (List.range 7).foldl (fun c j =>
    if (register (j + 7 * ir)).getLsbD 0 then c ||| 1 <<< (2 ^ j - 1) else c) 0

/-- The first lane is changed by the round constant. -/
def iota (rc : U64) (A : Lanes) : Lanes := fun x y => if x = 0 ∧ y = 0 then A x y ^^^ rc else A x y

/-- The five steps of a round. -/
def round (A : Lanes) (ir : Nat) : Lanes := iota (roundConstant ir) (chi (pi (rho (theta A))))

/-- Keccak-f[1600]. -/
def permutation (A : Lanes) : Lanes := (List.range 24).foldl round A

/-! ### The sponge -/

/-- The lane at a place in the order of the bytes, row by row. -/
def lane (A : Lanes) (k : Nat) : U64 := A (Fin.ofNat 5 (k % 5)) (Fin.ofNat 5 (k / 5))

/-- A word is added to lane `k`, in the order in which a block is absorbed. -/
def addLane (k : Nat) (w : U64) (A : Lanes) : Lanes := fun x y =>
  if 5 * y.val + x.val = k then A x y ^^^ w else A x y

/-- A byte at its place in a lane, the first one lowest. -/
def placed (i : Nat) (b : Byte) : U64 := b.setWidth 64 <<< (8 * (i % 8))

/-- The sponge whose first `rate` bytes take the message. -/
def sponge (rate : Nat) (hrate : 0 < rate) : Sponge Lanes Byte where
  rate := rate
  rate_pos := hrate
  start := fun _ _ => 0
  add i b := addLane (i / 8) (placed i b)
  permute := permutation
  zero := 0
  add_zero i A := by
    funext x y
    simp [addLane, placed]
  add_add i a b A := by
    funext x y
    simp only [addLane, placed]
    split
    · rw [BitVec.xor_assoc, BitVec.setWidth_xor, BitVec.shiftLeft_xor_distrib]
    · rfl

/-- Byte `i` of the state. -/
def byte (A : Lanes) (i : Nat) : Byte := (lane A (i / 8) >>> (8 * (i % 8))).setWidth 8

/-- A capacity below 1600 bits leaves some rate. -/
theorem rate_pos {bits : Nat} (hbits : bits < 800) : 0 < 200 - bits / 4 := by omega

/-- The bytes of the hash with a digest of `bits` bits. Its capacity is twice as large. The message
is followed by the byte `first`, which holds the suffix of the mode and the first bit of the
padding. -/
def hash (bits : Nat) (hbits : bits < 800) (first : Byte) (message : List Byte) (i : Nat) : Byte :=
  byte ((sponge (200 - bits / 4) (rate_pos hbits)).hash first 0x80 message) i

end Keccak

end TscVee
