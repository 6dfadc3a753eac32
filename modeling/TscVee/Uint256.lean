import Mathlib.Algebra.Order.Ring.Int
import Mathlib.Data.Fin.VecNotation

/-!
# `TscVee.Uint256`: the 256-bit words of `uint256.c`

A word is two `uint128_t`, an upper and a lower one, and a `uint128_t` is two 64-bit limbs.
`UPPER` is `elements[0]` and `LOWER` is `elements[1]` in the source.

The functions return their `target` instead of writing it. The source calls several of them
with the target aliased to an operand; each of these calls reads a limb before it writes it,
so the result is the one stated here.

A buffer that the byte readers take is a function from an offset to a byte, so `buffer + 8`
is the same function read eight places further on.

* `readu256BE` and `u256ToU8_32`, `u256ToU8_20`, `u256ToU8_8`: words from and to bytes.
  `u256ToU8_32Into` and `u256ToU8_20Into` are the loops that write a buffer.
* `shiftl256`, `shiftr256`, `add256`, `minus256`, `mul256`, `gt256`, ...: the arithmetic.
* `divmod256`: the shift-and-subtract division. Its loop runs on fuel; `none` says that the
  fuel did not suffice.
-/

set_option autoImplicit false

namespace TscVee

/-- `uint8_t`. -/
abbrev Byte := BitVec 8

/-- `uint64_t`. -/
abbrev U64 := BitVec 64

/-- `uint8_t[32]`: `evmc_bytes32` and `evmc_uint256be`. -/
abbrev Bytes32 := Vector Byte 32

/-- `evmc_address`. -/
abbrev Address := Vector Byte 20

/-- `TEE_MemFill(b.bytes, 0, 32)`. -/
def zeroBytes32 : Bytes32 := Vector.replicate 32 0

/-- A vector of bytes read through a pointer. Nothing below reads past its end. -/
def bytesAt {n : Nat} (b : Vector Byte n) (i : Nat) : Byte := b[i]?.getD 0

/-- `struct uint128_t`. -/
structure Uint128 where
  upper : U64
  lower : U64
  deriving DecidableEq, Repr, Inhabited

/-- `struct uint256_t`. -/
structure Uint256 where
  upper : Uint128
  lower : Uint128
  deriving DecidableEq, Repr, Inhabited

/-- The low limb `LOWER(LOWER(x))`, as the `size_t` or `uint64_t` it is cast to. -/
def Uint256.low (x : Uint256) : Nat := x.lower.lower.toNat

/-- `(struct uint256_t){0, 0, 0, v}`. -/
def Uint256.ofU64 (v : U64) : Uint256 := ⟨⟨0, 0⟩, ⟨0, v⟩⟩

/-- `{0, 0, 0, 0}`. -/
def Uint256.zero : Uint256 := .ofU64 0

/-- `{0, 0, 0, 1}`. -/
def Uint256.one : Uint256 := .ofU64 1

/-! ### Bytes -/

/-- `READUINT64BE`: eight bytes, the most significant one first. -/
def readUint64BE (buffer : Nat → Byte) : U64 :=
  ((buffer 0).setWidth 64 <<< 56) ||| ((buffer 1).setWidth 64 <<< 48) |||
  ((buffer 2).setWidth 64 <<< 40) ||| ((buffer 3).setWidth 64 <<< 32) |||
  ((buffer 4).setWidth 64 <<< 24) ||| ((buffer 5).setWidth 64 <<< 16) |||
  ((buffer 6).setWidth 64 <<< 8) ||| (buffer 7).setWidth 64

/-- `readu128BE`: the upper limb comes first. -/
def readu128BE (buffer : Nat → Byte) : Uint128 :=
  ⟨readUint64BE buffer, readUint64BE fun i => buffer (i + 8)⟩

/-- `readu256BE`: the upper half comes first. -/
def readu256BE (buffer : Nat → Byte) : Uint256 :=
  ⟨readu128BE buffer, readu128BE fun i => buffer (i + 16)⟩

/-- The byte that the loops `data[i] = tmp & 0xFF; tmp = tmp >> 8` write after `k` shifts. -/
def shiftedByte (tmp : U64) (k : Nat) : Byte := (tmp >>> (8 * k)).setWidth 8

/-- Byte `i` of the 32 bytes of `x`, as the four loops of `u256_to_u8_32` write it. -/
def u256Byte (x : Uint256) (i : Nat) : Byte :=
  if i > 23 then shiftedByte x.lower.lower (31 - i)
  else if i > 15 then shiftedByte x.lower.upper (23 - i)
  else if i > 7 then shiftedByte x.upper.lower (15 - i)
  else shiftedByte x.upper.upper (7 - i)

/-- `u256_to_u8_32`: the 32 bytes of a number, the most significant one first. -/
def u256ToU8_32 (x : Uint256) : Bytes32 := Vector.ofFn fun i => u256Byte x i

/-- `u256_to_u8_20`: the low 20 bytes, which are an address. -/
def u256ToU8_20 (x : Uint256) : Address := Vector.ofFn fun i => u256Byte x (i + 12)

/-- `u256_to_u8_8`: the low eight bytes. -/
def u256ToU8_8 (x : Uint256) : Vector Byte 8 := Vector.ofFn fun i => u256Byte x (i + 24)

/-- `for (int i = ...; i > ...; i--) { data[i] = tmp & 0xFF; tmp = tmp >> 8; }` from index `i` on,
with `count` passes. -/
def writeLimb : Nat → Nat → U64 → (Nat → Byte) → Nat → Byte
  | 0, _, _, data => data
  | count + 1, i, tmp, data =>
    writeLimb count (i - 1) (tmp >>> 8) fun j => if j = i then tmp.setWidth 8 else data j

/-- `u256_to_u8_32` as it writes to the buffer `data`. -/
def u256ToU8_32Into (x : Uint256) (data : Nat → Byte) : Nat → Byte :=
  let data := writeLimb 8 31 x.lower.lower data
  let data := writeLimb 8 23 x.lower.upper data
  let data := writeLimb 8 15 x.upper.lower data
  writeLimb 8 7 x.upper.upper data

/-- `u256_to_u8_20` as it writes to the buffer `data`. The last loop has four passes. -/
def u256ToU8_20Into (x : Uint256) (data : Nat → Byte) : Nat → Byte :=
  let data := writeLimb 8 (31 - 12) x.lower.lower data
  let data := writeLimb 8 (23 - 12) x.lower.upper data
  writeLimb 4 (15 - 12) x.upper.lower data

/-! ### Comparison -/

def zero128 (number : Uint128) : Bool := number.lower == 0 && number.upper == 0

def zero256 (number : Uint256) : Bool := zero128 number.lower && zero128 number.upper

def equal128 (number1 number2 : Uint128) : Bool :=
  number1.upper == number2.upper && number1.lower == number2.lower

def equal256 (number1 number2 : Uint256) : Bool :=
  equal128 number1.upper number2.upper && equal128 number1.lower number2.lower

def gt128 (number1 number2 : Uint128) : Bool :=
  if number1.upper == number2.upper then decide (number1.lower > number2.lower)
  else decide (number1.upper > number2.upper)

def gt256 (number1 number2 : Uint256) : Bool :=
  if equal128 number1.upper number2.upper then gt128 number1.lower number2.lower
  else gt128 number1.upper number2.upper

def gte128 (number1 number2 : Uint128) : Bool :=
  gt128 number1 number2 || equal128 number1 number2

def gte256 (number1 number2 : Uint256) : Bool :=
  gt256 number1 number2 || equal256 number1 number2

/-! ### Sums, differences and bitwise operations -/

/-- A comparison used as the number 0 or 1. -/
def carry (b : Bool) : U64 := if b then 1 else 0

def add128 (number1 number2 : Uint128) : Uint128 :=
  ⟨number1.upper + number2.upper + carry (number1.lower + number2.lower < number1.lower),
    number1.lower + number2.lower⟩

def add256 (number1 number2 : Uint256) : Uint256 :=
  let upper := add128 number1.upper number2.upper
  let tmp := add128 number1.lower number2.lower
  ⟨if gt128 number1.lower tmp then add128 upper ⟨0, 1⟩ else upper, tmp⟩

def minus128 (number1 number2 : Uint128) : Uint128 :=
  ⟨number1.upper - number2.upper - carry (number1.lower - number2.lower > number1.lower),
    number1.lower - number2.lower⟩

def minus256 (number1 number2 : Uint256) : Uint256 :=
  let upper := minus128 number1.upper number2.upper
  let tmp := minus128 number1.lower number2.lower
  ⟨if gt128 tmp number1.lower then minus128 upper ⟨0, 1⟩ else upper, tmp⟩

def or128 (number1 number2 : Uint128) : Uint128 :=
  ⟨number1.upper ||| number2.upper, number1.lower ||| number2.lower⟩

def or256 (number1 number2 : Uint256) : Uint256 :=
  ⟨or128 number1.upper number2.upper, or128 number1.lower number2.lower⟩

def xor128 (number1 number2 : Uint128) : Uint128 :=
  ⟨number1.upper ^^^ number2.upper, number1.lower ^^^ number2.lower⟩

def xor256 (number1 number2 : Uint256) : Uint256 :=
  ⟨xor128 number1.upper number2.upper, xor128 number1.lower number2.lower⟩

def and128 (number1 number2 : Uint128) : Uint128 :=
  ⟨number1.upper &&& number2.upper, number1.lower &&& number2.lower⟩

def and256 (number1 number2 : Uint256) : Uint256 :=
  ⟨and128 number1.upper number2.upper, and128 number1.lower number2.lower⟩

def not128 (number : Uint128) : Uint128 := ⟨~~~number.upper, ~~~number.lower⟩

def not256 (number : Uint256) : Uint256 := ⟨not128 number.upper, not128 number.lower⟩

/-! ### Shifts -/

def shiftl128 (number : Uint128) (value : Nat) : Uint128 :=
  if value ≥ 128 then ⟨0, 0⟩
  else if value = 64 then ⟨number.lower, 0⟩
  else if value = 0 then number
  else if value < 64 then
    ⟨(number.upper <<< value) + (number.lower >>> (64 - value)), number.lower <<< value⟩
  else ⟨number.lower <<< (value - 64), 0⟩

def shiftr128 (number : Uint128) (value : Nat) : Uint128 :=
  if value ≥ 128 then ⟨0, 0⟩
  else if value = 64 then ⟨0, number.upper⟩
  else if value = 0 then number
  else if value < 64 then
    ⟨number.upper >>> value, (number.upper <<< (64 - value)) + (number.lower >>> value)⟩
  else ⟨0, number.upper >>> (value - 64)⟩

def shiftl256 (number : Uint256) (value : Nat) : Uint256 :=
  if value ≥ 256 then ⟨⟨0, 0⟩, ⟨0, 0⟩⟩
  else if value = 128 then ⟨number.lower, ⟨0, 0⟩⟩
  else if value = 0 then number
  else if value < 128 then
    ⟨add128 (shiftl128 number.upper value) (shiftr128 number.lower (128 - value)),
      shiftl128 number.lower value⟩
  else ⟨shiftl128 number.lower (value - 128), ⟨0, 0⟩⟩

def shiftr256 (number : Uint256) (value : Nat) : Uint256 :=
  if value ≥ 256 then ⟨⟨0, 0⟩, ⟨0, 0⟩⟩
  else if value = 128 then ⟨⟨0, 0⟩, number.upper⟩
  else if value = 0 then number
  else if value < 128 then
    ⟨shiftr128 number.upper value,
      add128 (shiftr128 number.lower value) (shiftl128 number.upper (128 - value))⟩
  else ⟨⟨0, 0⟩, shiftr128 number.upper (value - 128)⟩

/-! ### Products -/

/-- The high and the low 32 bits of a limb, each in a `uint64_t`. -/
def hi32 (x : U64) : U64 := x >>> 32

/-- The low 32 bits of a limb. -/
def lo32 (x : U64) : U64 := x &&& 0xffffffff

/-- `products[3 - x][y]` is `top[x] * bottom[y]`; `top` and `bottom` hold the 32-bit parts of
the two numbers, the most significant part first. -/
def mul128 (number1 number2 : Uint128) : Uint128 :=
  let top : Fin 4 → U64 :=
    ![hi32 number1.upper, lo32 number1.upper, hi32 number1.lower, lo32 number1.lower]
  let bottom : Fin 4 → U64 :=
    ![hi32 number2.upper, lo32 number2.upper, hi32 number2.lower, lo32 number2.lower]
  let products (i y : Fin 4) : U64 := top (3 - i) * bottom y
  let fourth32 := lo32 (products 0 3)
  let third32 := lo32 (products 0 2) + hi32 (products 0 3) + lo32 (products 1 3)
  let second32 := lo32 (products 0 1) + hi32 (products 0 2) +
    (lo32 (products 1 2) + hi32 (products 1 3)) + lo32 (products 2 3)
  let first32 := lo32 (products 0 0) + hi32 (products 0 1) +
    (lo32 (products 1 1) + hi32 (products 1 2)) +
    (lo32 (products 2 2) + hi32 (products 2 3)) + lo32 (products 3 3)
  let target := add128 ⟨first32 <<< 32, 0⟩ ⟨third32 >>> 32, third32 <<< 32⟩
  let tmp2 := add128 ⟨second32, 0⟩ target
  add128 ⟨0, fourth32⟩ tmp2

/-- The low and the high limb of a 128-bit product, each in a `uint128_t`. -/
def lowLimb (x : Uint128) : Uint128 := ⟨0, x.lower⟩

/-- The high limb of a 128-bit product, in a `uint128_t`. -/
def highLimb (x : Uint128) : Uint128 := ⟨0, x.upper⟩

/-- As in `mul128`, with 64-bit limbs and 128-bit products. -/
def mul256 (number1 number2 : Uint256) : Uint256 :=
  let top : Fin 4 → Uint128 :=
    ![highLimb number1.upper, lowLimb number1.upper, highLimb number1.lower,
      lowLimb number1.lower]
  let bottom : Fin 4 → Uint128 :=
    ![highLimb number2.upper, lowLimb number2.upper, highLimb number2.lower,
      lowLimb number2.lower]
  let products (i y : Fin 4) : Uint128 := mul128 (top (3 - i)) (bottom y)
  let fourth64 := lowLimb (products 0 3)
  let third64 := add128 (lowLimb (products 0 2)) (highLimb (products 0 3))
  let second64 := add128 (lowLimb (products 0 1)) (highLimb (products 0 2))
  let first64 := add128 (lowLimb (products 0 0)) (highLimb (products 0 1))
  let third64 := add128 (lowLimb (products 1 3)) third64
  let second64 := add128 (highLimb (products 1 3)) (add128 (lowLimb (products 1 2)) second64)
  let first64 := add128 (highLimb (products 1 2)) (add128 (lowLimb (products 1 1)) first64)
  let second64 := add128 (lowLimb (products 2 3)) second64
  let first64 := add128 (highLimb (products 2 3)) (add128 (lowLimb (products 2 2)) first64)
  let first64 := add128 (lowLimb (products 3 3)) first64
  let target := add256 ⟨shiftl128 first64 64, ⟨0, 0⟩⟩
    ⟨⟨third64.upper, 0⟩, shiftl128 third64 64⟩
  let target2 := add256 ⟨second64, ⟨0, 0⟩⟩ target
  add256 ⟨⟨0, 0⟩, fourth64⟩ target2

/-! ### Division -/

/-- `while (up) { up >>= 1; result++; }` -/
def bitsLoop64 : Nat → U64 → Nat → Nat
  | 0, _, result => result
  | fuel + 1, up, result => if up = 0 then result else bitsLoop64 fuel (up >>> 1) (result + 1)

/-- `bits128`: the number of bits up to the highest one that is set. -/
def bits128 (number : Uint128) : Nat :=
  if number.upper ≠ 0 then bitsLoop64 64 number.upper 64 else bitsLoop64 64 number.lower 0

/-- `while (!zero128(&up)) { shiftr128(&up, 1, &up); result++; }` -/
def bitsLoop128 : Nat → Uint128 → Nat → Nat
  | 0, _, result => result
  | fuel + 1, up, result =>
    if zero128 up then result else bitsLoop128 fuel (shiftr128 up 1) (result + 1)

/-- `bits256`: as in `bits128`, with the halves for the limbs. -/
def bits256 (number : Uint256) : Nat :=
  if !zero128 number.upper then bitsLoop128 128 number.upper 128
  else bitsLoop128 128 number.lower 0

/-- The loop of `divmod256`: `resMod` shrinks by the shifted divisor `copyd` while it can, and
`resDiv` collects the matching bit `adder`. -/
def divmodLoop : Nat → Uint256 → Uint256 → Uint256 → Uint256 → Uint256 →
    Option (Uint256 × Uint256)
  | 0, _, _, _, _, _ => none
  | fuel + 1, r, copyd, adder, resDiv, resMod =>
    if gte256 resMod r then
      if gte256 resMod copyd then
        divmodLoop fuel r (shiftr256 copyd 1) (shiftr256 adder 1) (or256 resDiv adder)
          (minus256 resMod copyd)
      else divmodLoop fuel r (shiftr256 copyd 1) (shiftr256 adder 1) resDiv resMod
    else some (resDiv, resMod)

/-- The quotient and the remainder, `retDiv` and `retMod`. -/
def divmod256 (l r : Uint256) : Option (Uint256 × Uint256) :=
  let diffBits := (bits256 l + 2 ^ 32 - bits256 r) % 2 ^ 32
  if gt256 r l then some (.zero, l)
  else
    let copyd := shiftl256 r diffBits
    let adder := shiftl256 .one diffBits
    if gt256 copyd l then divmodLoop 257 r (shiftr256 copyd 1) (shiftr256 adder 1) .zero l
    else divmodLoop 257 r copyd adder .zero l

end TscVee
