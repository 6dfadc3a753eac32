import TscVee.Lib.Program
import TscVee.Uint256

/-!
# `TscVee.HexHelpers`: the conversions of `hex_helpers.h`

A string is an object in memory with a terminator. A read behind the terminator and a write outside
of the buffer that the caller has allocated are faults.

* `fromHex`: the digits of a string as bytes. The loop runs on fuel.
* `hex`: bytes as a string.
* `hexBufferSize`: the size of the buffer that the callers of `from_hex` allocate.
-/

set_option autoImplicit false

namespace TscVee

/-- A string in memory. It ends at its first zero, and the object fits in the address space. -/
structure CString where
  chars : List Byte
  nonzero : 0 ∉ chars
  fits : chars.length + 1 < 2 ^ 64

/-- `strlen` -/
def CString.strlen (hex : CString) : Nat := hex.chars.length

/-- `size_t` arithmetic. -/
def sizeT (x : Int) : Nat := (x % 2 ^ 64).toNat

/-- What a conversion must not do. -/
inductive HexFault
  | readOutside
  | writeOutside
  /-- The loop has not ended yet. -/
  | running
  deriving DecidableEq, Repr

/-- A buffer, with the bytes that have been written to it. -/
abbrev HexBuffer := Nat → Option Byte

/-- A program that writes to the buffer. -/
abbrev HexProgram := EStateM HexFault HexBuffer

/-- `hex[i]`. The terminator may be read. -/
def CString.read (hex : CString) (i : Nat) : HexProgram Byte :=
  if i < hex.strlen then return hex.chars.getD i 0
  else if i = hex.strlen then return 0
  else throw .readOutside

/-- `res[i] = value`, where the buffer has `size` bytes. -/
def writeBuffer (size i : Nat) (value : Byte) : HexProgram Unit :=
  if i < size then modify fun res j => if j = i then some value else res j
  else throw .writeOutside

/-! ### `from_hex` -/

/-- The result is an `int`. -/
def fromHexDigit (h : Byte) : Int :=
  if 0x30 ≤ h ∧ h ≤ 0x39 then h.toNat - 0x30
  else if 0x61 ≤ h ∧ h ≤ 0x66 then h.toNat - 0x61 + 10
  else if 0x41 ≤ h ∧ h ≤ 0x46 then h.toNat - 0x41 + 10
  else -1

/-- The characters `0x` that `from_hex` omits. -/
def CString.hasPrefix (hex : CString) : Bool := hex.chars.take 2 == [0x30, 0x78]

/-- `hex_begin` -/
def CString.hexBegin (hex : CString) : Nat := if hex.hasPrefix then 2 else 0

/-- The byte of two digits, each narrowed to `uint8_t`. -/
def hexByte (h0 h1 : Byte) : Byte :=
  let r0 : Byte := BitVec.ofInt 8 (fromHexDigit h0)
  let r1 : Byte := BitVec.ofInt 8 (fromHexDigit h1)
  BitVec.ofNat 8 (r0.toNat * 2 ^ 4 + r1.toNat)

/-- `for (size_t i = hex_begin; i < length - 1; i += 2)` -/
def fromHexLoop (hex : CString) (size : Nat) : Nat → Nat → HexProgram Unit
  | 0, _ => throw .running
  | fuel + 1, i => do
    if i < sizeT (hex.strlen - 1) then
      let h0 ← hex.read i
      let h1 ← hex.read (sizeT (i + 1))
      writeBuffer size (sizeT (i - hex.hexBegin) / 2) (hexByte h0 h1)
      fromHexLoop hex size fuel (sizeT (i + 2))

/-- `from_hex` with a buffer of `size` bytes. -/
def fromHex (hex : CString) (size fuel : Nat) : HexProgram Unit :=
  fromHexLoop hex size fuel hex.hexBegin

/-- `strlen(hex) / 2 - 1`, as both callers compute it. -/
def hexBufferSize (hex : CString) : Nat := sizeT ((hex.strlen / 2 : Nat) - 1)

/-! ### `hex` -/

/-- `hex_chars` -/
def hexChars : List Byte :=
  [0x30, 0x31, 0x32, 0x33, 0x34, 0x35, 0x36, 0x37, 0x38, 0x39, 0x61, 0x62, 0x63, 0x64, 0x65, 0x66]

/-- `for (size_t i = 0; i < size; i++)`, with the bytes from `i` on. -/
def hexLoop (outSize : Nat) : List Byte → Nat → HexProgram Unit
  | [], _ => return
  | b :: data, i => do
    writeBuffer outSize (sizeT (i * 2 + 2)) (hexChars.getD (b >>> 4).toNat 0)
    writeBuffer outSize (sizeT (i * 2 + 3)) (hexChars.getD (b &&& 0xf).toNat 0)
    hexLoop outSize data (i + 1)

/-- `hex` with a buffer of `outSize` characters. -/
def hex (data : List Byte) (outSize : Nat) : HexProgram Unit := do
  writeBuffer outSize 0 0x30
  writeBuffer outSize 1 0x78
  hexLoop outSize data 0

end TscVee
