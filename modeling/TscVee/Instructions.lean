import TscVee.ExecutionState
import TscVee.Opcode
import TscVee.Sha3

/-!
# `TscVee.Instructions`: the instruction implementations of `instructions.h`

Each core implementation gets the pointer to the stack top. It assumes that the base gas cost is
charged and the stack requirements are checked, and leaves the stack height to its caller.

A popped operand is a pointer into the stack space, and the implementations read it where they
need it, possibly after they wrote the slot. `callVariant` and `create` depend on this: the
word that they push first lands on the slot of their last operand.

Families of implementations that differ in an operation only are one definition with
parameters: `unary`, `binary`, `ternary`, `pushValue`, `logTopics`, `callVariant`.
-/

set_option autoImplicit false

namespace TscVee

open TscVee.Core

/-! ### The stack top -/

/-- `struct StackTop`: the pointer to the top item. -/
abbrev StackTop := Slot

namespace StackTop

/-- `stack_get`: the item `index` places below the top. -/
def get (st : StackTop) (index : Int) : Slot := st - index

/-- `stack_top`: the top item. -/
def top (st : StackTop) : Slot := st

/-- The pointer to the old top item, and the new top. -/
def pop (st : StackTop) : Slot × StackTop := (st, st - 1)

/-- `stack_push`: the word goes to the slot above, which becomes the top. -/
def push (st : StackTop) (value : Uint256) : Core StackTop := do
  store (st + 1) value
  return st + 1

end StackTop

/-! ### Memory checks -/

section
variable [Env]

/-- `max_buffer_size`. -/
def maxBufferSize : Nat := 2 ^ 32 - 1

/-- `num_words`. -/
def numWords (sizeInBytes : Nat) : Nat := (sizeInBytes + 31) % 2 ^ 64 / 32

/-- `3 * words + words * words / 512` in `int64_t`. -/
def memoryCost (words : Nat) : Core Int := do
  let square ← int64 (words * words)
  int64 (3 * words + square / 512)

/-- `grow_memory`. -/
def growMemory (newSize : Nat) : Core Bool := do
  let newWords := numWords newSize
  let memory ← read (·.memory)
  let currentWords := memory.mSize / 32
  let newCost ← memoryCost newWords
  let currentCost ← memoryCost currentWords
  let cost := newCost - currentCost
  subGas cost
  if (← read (·.gasLeft)) < 0 then return false
  memoryGrow (newWords * 32)
  log (.memCheck cost memory.mSize (newWords * 32))
  return true

/-- The offset needs more than 64 bits, or is above `max_buffer_size`. -/
def offsetTooLarge (offset : Uint256) : Bool :=
  (offset.upper.upper ||| offset.lower.upper ||| offset.upper.lower) != 0 ||
    decide (offset.low > maxBufferSize)

/-- `check_memory_u64`. -/
def checkMemoryU64 (offset : Uint256) (size : Nat) : Core Bool := do
  if offsetTooLarge offset then return false
  log (.memRange offset.low size)
  let newSize := (offset.low + size) % 2 ^ 64
  let memory ← read (·.memory)
  if newSize > memory.mSize then growMemory newSize
  else
    log (.memCheck 0 memory.mSize memory.mSize)
    return true

/-- `check_memory_u256`. The range of the offset is checked here and in `check_memory_u64`,
that of the size nowhere. -/
def checkMemoryU256 (offset size : Uint256) : Core Bool := do
  if zero256 size then return true
  if offsetTooLarge offset then return false
  checkMemoryU64 offset size.low

/-- `if (!check_memory_u64(...)) return EVMC_OUT_OF_GAS;` -/
def requireMemoryU64 (offset : Uint256) (size : Nat) : Core Unit := do
  if !(← checkMemoryU64 offset size) then ret .outOfGas

/-- `if (!check_memory_u256(...)) return EVMC_OUT_OF_GAS;` -/
def requireMemoryU256 (offset size : Uint256) : Core Unit := do
  if !(← checkMemoryU256 offset size) then ret .outOfGas

/-- A list of bytes as a buffer. -/
def buffer (bytes : List Byte) (i : Nat) : Byte := bytes.getD i 0

/-! ### Arithmetic and logic -/

/-- The top item is replaced by its image. -/
def unary (f : Uint256 → Uint256) (stack : StackTop) : Core Unit := do
  let x := stack.top
  store x (f (← load x))

/-- The result of an operation is stored. `none` is a loop in the operation that does not end. -/
def storeResult (p : Slot) (result : Option Uint256) : Core Unit :=
  match result with
  | some target => store p target
  | none => fault .diverges

/-- The second item is replaced by the result of an operation on the first and the second. -/
def binary (f : Uint256 → Uint256 → Option Uint256) (stack : StackTop) : Core Unit := do
  let x := stack.get 0
  let y := stack.get 1
  storeResult y (f (← load x) (← load y))

/-- The third item is replaced by the result of an operation on the first three. -/
def ternary (f : Uint256 → Uint256 → Uint256 → Option Uint256) (stack : StackTop) :
    Core Unit := do
  let x := stack.get 0
  let y := stack.get 1
  let m := stack.get 2
  storeResult m (f (← load x) (← load y) (← load m))

/-- `{0, 0, 0, 1}` or `{0, 0, 0, 0}`. -/
def boolWord (b : Bool) : Uint256 := if b then .one else .zero

def pop (_stack : StackTop) : Core Unit := return ()

def add : StackTop → Core Unit := binary fun x y => some (add256 x y)

def mul : StackTop → Core Unit := binary fun x y => some (mul256 x y)

def sub : StackTop → Core Unit := binary fun x y => some (minus256 x y)

/-- The quotient, or 0 for a zero divisor. -/
def divWord (x y : Uint256) : Option Uint256 :=
  if !zero256 y then (divmod256 x y).map Prod.fst else some .zero

/-- The remainder, or 0 for a zero divisor. -/
def modWord (x y : Uint256) : Option Uint256 :=
  if !zero256 y then (divmod256 x y).map Prod.snd else some .zero

def div : StackTop → Core Unit := binary divWord

def sdiv : StackTop → Core Unit := binary divWord

def mod : StackTop → Core Unit := binary modWord

def smod : StackTop → Core Unit := binary modWord

/-- The source copies the quotient `target2`. -/
def addmod : StackTop → Core Unit := ternary fun x y m => divWord (add256 x y) m

/-- The source copies the quotient `target2`. -/
def mulmod : StackTop → Core Unit := ternary fun x y m => divWord (mul256 x y) m

/-- One round of the loop of `clz`, for `i`. -/
def clzStep (nx : Nat × U64) (i : Nat) : Nat × U64 :=
  let s := 1 <<< i
  let hi := nx.2 >>> s
  if hi ≠ 0 then (nx.1 - s, hi) else nx

/-- The leading zeros of a limb, by a binary search for the highest bit. -/
def clz (x : U64) : Nat :=
  let nx := [5, 4, 3, 2, 1, 0].foldl clzStep (64, x)
  nx.1 - nx.2.toNat

/-- `count_significant_bytes`: the bytes up to the highest bit that is set. -/
def countSignificantBytes (x : U64) : Nat := (64 - clz x + 7) / 8

/-- A limb assigned to an `unsigned`. -/
def toUnsigned (x : U64) : U64 := (x.setWidth 32).setWidth 64

/-- The number of significant bytes as the source counts it. The limbs are cut to `unsigned`, each
limb below the first one that is not zero counts `count_significant_bytes(64)`, and the lowest limb
is not read at all. -/
def csb256 (x : Uint256) : Nat :=
  let r64 := countSignificantBytes 64
  if toUnsigned x.upper.upper ≠ 0 then countSignificantBytes (toUnsigned x.upper.upper) + r64 * 3
  else if toUnsigned x.upper.lower ≠ 0 then
    countSignificantBytes (toUnsigned x.upper.lower) + r64 * 2
  else if toUnsigned x.lower.upper ≠ 0 then
    countSignificantBytes (toUnsigned x.lower.upper) + r64
  else countSignificantBytes (toUnsigned x.lower.upper)

/-- The number a word stands for. -/
def Uint256.toNat (x : Uint256) : Nat :=
  ((x.upper.upper.toNat * 2 ^ 64 + x.upper.lower.toNat) * 2 ^ 64 + x.lower.upper.toNat) * 2 ^ 64 +
    x.lower.lower.toNat

/-- The loop of `exp_`: the exponent counts down to zero. It is left in the slot, the product
`target` is not used. -/
def expLoop : Nat → Uint256 → Uint256 → Uint256 → Option Uint256
  | 0, _, _, _ => none
  | fuel + 1, base, target, exponent =>
    if !zero256 exponent then
      expLoop fuel base (mul256 target base) (minus256 exponent .one)
    else some exponent

/-- The cost is that of the bytes that `csb256` counts. The exponent slot gets what the loop leaves.
-/
def exp (stack : StackTop) : Core Unit := do
  let (base, stack) := stack.pop
  let exponent := stack.top
  let exponentCost : Int := if (← read (·.rev)) ≥ .spuriousDragon then 50 else 10
  chargeGas (csb256 (← load exponent) * exponentCost)
  let times ← load exponent
  if zero256 times then store exponent .one
  else
    let base ← load base
    storeResult exponent (expLoop (times.toNat + 1) base base times)

/-- `*u256_index(x, index)` -/
def u256Index (x : Uint256) (index : Nat) : U64 :=
  if index = 0 then x.lower.lower
  else if index = 1 then x.lower.upper
  else if index = 2 then x.upper.lower
  else x.upper.upper

/-- `*u256_index(x, index) = v` -/
def setU256Index (x : Uint256) (index : Nat) (v : U64) : Uint256 :=
  if index = 0 then { x with lower := { x.lower with lower := v } }
  else if index = 1 then { x with lower := { x.lower with upper := v } }
  else if index = 2 then { x with upper := { x.upper with lower := v } }
  else { x with upper := { x.upper with upper := v } }

/-- The number fits in the low limb and is below `n`. -/
def belowSmall (x : Uint256) (n : Nat) : Bool :=
  x.upper.upper == 0 && x.upper.lower == 0 && x.lower.upper == 0 && decide (x.low < n)

/-- The loop `for (i = 3; i > sign_word_index; --i)` writes `sign_ex` into the sign word itself,
and the word with the extended sign is dropped. -/
def signextendWord (ext x : Uint256) : Uint256 :=
  if belowSmall ext 31 then
    let e := ext.low
    let signWordIndex := e / 8
    let signByteOffset := e % 8 * 8
    let signWord := u256Index x signWordIndex
    let signByte : Byte := (signWord >>> signByteOffset).setWidth 8
    let sextByte : U64 := signByte.signExtend 64
    let signEx := sextByte >>> 8
    if signWordIndex < 3 then setU256Index x signWordIndex signEx else x
  else x

def signextend : StackTop → Core Unit := binary fun ext x => some (signextendWord ext x)

def lt : StackTop → Core Unit := binary fun x y => some (boolWord (gt256 y x))

def gt : StackTop → Core Unit := binary fun x y => some (boolWord (gt256 x y))

/-- The body is that of `lt`. -/
def slt : StackTop → Core Unit := binary fun x y => some (boolWord (gt256 y x))

/-- The body is that of `gt`. -/
def sgt : StackTop → Core Unit := binary fun x y => some (boolWord (gt256 x y))

def eq : StackTop → Core Unit := binary fun x y => some (boolWord (equal256 x y))

def iszero : StackTop → Core Unit := unary fun x => boolWord (zero256 x)

def and_ : StackTop → Core Unit := binary fun x y => some (and256 x y)

def or_ : StackTop → Core Unit := binary fun x y => some (or256 x y)

def xor_ : StackTop → Core Unit := binary fun x y => some (xor256 x y)

def not_ : StackTop → Core Unit := unary not256

/-- Byte `n` of the word, the most significant one being byte 0. -/
def byteWord (n x : Uint256) : Uint256 :=
  let byteMask : U64 := if belowSmall n 32 then 0xff else 0
  let index := 31 - n.low % 32
  let word := u256Index x (index / 8)
  .ofU64 ((word >>> (index % 8 * 8)) &&& byteMask)

def byte_ : StackTop → Core Unit := binary fun n x => some (byteWord n x)

/-- `(uint32_t)LOWER(LOWER_P(x))` -/
def lowUint32 (x : Uint256) : Nat := x.low % 2 ^ 32

/-- The count is narrowed to `uint32_t`. -/
def shl : StackTop → Core Unit := binary fun x y => some (shiftl256 y (lowUint32 x))

/-- The count is narrowed to `uint32_t`. -/
def shr : StackTop → Core Unit := binary fun x y => some (shiftr256 y (lowUint32 x))

/-- The sign mask is shifted by the count itself; `mask_shift` is not used. -/
def sarWord (y x : Uint256) : Uint256 :=
  let signMask := if (u256Index x 3).toInt < 0 then not256 .zero else .zero
  add256 (shiftr256 x (lowUint32 y)) (shiftl256 signMask (lowUint32 y))

def sar : StackTop → Core Unit := binary fun y x => some (sarWord y x)

/-- The hash reads `w` bytes, the number of words of the operand, in the SHA3-256 mode. -/
def keccak256 (stack : StackTop) : Core Unit := do
  let (index, stack) := stack.pop
  let size := stack.top
  requireMemoryU256 (← load index) (← load size)
  let i := (← load index).low
  let s := (← load size).low
  let w := numWords s
  chargeGas (w * 6)
  let data ← if s ≠ 0 then readMemory i w else pure []
  store size (readu256BE (sha3Finalize (sha3Update sha3Init256 data)))

/-! ### The environment -/

/-- The word is pushed. -/
def pushValue (value : Core Uint256) (stack : StackTop) : Core Unit := do
  let target ← value
  let _ ← stack.push target

/-- A word whose last twenty bytes are the address, and whose first twelve are `pad`. -/
def addressWord (pad : Nat → Byte) (addr : Address) : Uint256 :=
  readu256BE fun i => if i < 12 then pad i else bytesAt addr (i - 12)

/-- An `int64_t` as a word. -/
def int64Word (x : Int) : Uint256 := .ofU64 (BitVec.ofInt 64 x)

/-- `if (access_account(...) == EVMC_ACCESS_COLD)`, from Berlin on, the cost is charged. -/
def chargeColdAccount (addr : Address) (cost : Int) : Core Unit := do
  if (← read (·.rev)) ≥ .berlin then
    let status ← ask (.accessAccount addr)
    if status = .cold then chargeGas cost

/-- The address is moved through an uninitialised pointer. The first bytes of the local array
are not written. -/
def address : StackTop → Core Unit := pushValue do
  if !Env.wildPointerWritable (← nextFresh) then fault .wildPointer
  let pad := Env.localBytes (← nextFresh)
  return addressWord pad (← read (·.msg)).recipient

/-- The cold access is charged before the host is asked. -/
def balance (stack : StackTop) : Core Unit := do
  let x := stack.top
  let addr := u256ToU8_20 (← load x)
  chargeColdAccount addr additionalColdAccountAccessCost
  let res ← ask (.getBalance addr)
  store x (readu256BE (bytesAt res))

/-- The first bytes of the local array are not written. -/
def origin : StackTop → Core Unit := pushValue do
  let tx ← ask .getTxContext
  let pad := Env.localBytes (← nextFresh)
  return addressWord pad tx.txOrigin

def caller : StackTop → Core Unit := pushValue do
  return addressWord (fun _ => 0) (← read (·.msg)).sender

def callvalue : StackTop → Core Unit := pushValue do
  return readu256BE (bytesAt (← read (·.msg)).value)

/-- `n` bytes of the message input from `start` on. -/
def readInput (start n : Nat) : Core (List Byte) := do
  let msg ← read (·.msg)
  if n = 0 then return []
  if start + n ≤ msg.inputData.length then return (msg.inputData.drop start).take n
  else fault .wildPointer

/-- The word at an index beyond the input is 0. Bytes behind the end of the input are zeros. -/
def calldataload (stack : StackTop) : Core Unit := do
  let index := stack.top
  let msg ← read (·.msg)
  let word ← load index
  if gt256 word (.ofU64 (BitVec.ofNat 64 msg.inputSize)) then store index .zero
  else
    let begin_ := word.low
    let end_ := min ((begin_ + 32) % 2 ^ 64) msg.inputSize
    let data ← readInput begin_ (end_ - begin_)
    store index (readu256BE (buffer data))

def calldatasize : StackTop → Core Unit := pushValue do
  return .ofU64 (BitVec.ofNat 64 (← read (·.msg)).inputSize)

/-- The range is checked and paid for. What the input does not reach is filled with zeros. -/
def calldatacopy (stack : StackTop) : Core Unit := do
  let (memIndex, stack) := stack.pop
  let (inputIndex, stack) := stack.pop
  let (size, _) := stack.pop
  requireMemoryU256 (← load memIndex) (← load size)
  let msg ← read (·.msg)
  let dst := (← load memIndex).low
  let src := min msg.inputSize (← load inputIndex).low
  let s := (← load size).low
  let copySize := min s (msg.inputSize - src)
  chargeGas (numWords s * 3)
  let data ← readInput src copySize
  writeMemory dst data
  clearMemory (dst + copySize) (s - copySize)

def codesize : StackTop → Core Unit := pushValue do
  return int64Word (← read (·.code)).size

/-- `n` bytes of the code from `start` on. -/
def readCode (start n : Nat) : Core (List Byte) := do
  let code ← read (·.code)
  if n = 0 then return []
  if start + n ≤ code.data.length then return (code.data.drop start).take n
  else fault .wildPointer

/-- As `calldatacopy`, from the code. The check is that for a fixed size, so that the low limb of
the size counts and an empty range is checked as well. -/
def codecopy (stack : StackTop) : Core Unit := do
  let (memIndex, stack) := stack.pop
  let (inputIndex, stack) := stack.pop
  let (size, _) := stack.pop
  requireMemoryU64 (← load memIndex) (← load size).low
  let codeSize := ((← read (·.code)).size % 2 ^ 64).toNat
  let dst := (← load memIndex).low
  let src := min codeSize (← load inputIndex).low
  let s := (← load size).low
  let copySize := min s (codeSize - src)
  chargeGas (numWords s * 3)
  let data ← readCode src copySize
  writeMemory dst data
  clearMemory (dst + copySize) (s - copySize)

def gasprice : StackTop → Core Unit := pushValue do
  return readu256BE (bytesAt (← ask .getTxContext).txGasPrice)

/-- The cold access is charged before the host is asked. -/
def extcodesize (stack : StackTop) : Core Unit := do
  let x := stack.top
  let addr := u256ToU8_20 (← load x)
  chargeColdAccount addr additionalColdAccountAccessCost
  let res ← ask (.getCodeSize addr)
  store x (.ofU64 (BitVec.ofNat 64 res))

/-- `strlen` of the EVM memory from `offset` on, and a copy of the bytes before the zero byte.
Neither has an effect on the run, but the scan may leave the memory. -/
def scanString (offset : Nat) : Core Unit := do
  let memory ← read (·.memory)
  match memory.mData with
  | none => fault .nullPointer
  | some data =>
    match (List.range (memory.mSize - offset)).findIdx? fun i => data (offset + i) == 0 with
    | some n => log (.memAccess offset (n + 1) memory.mSize)
    | none =>
      log (.memAccess offset (memory.mSize - offset + 1) memory.mSize)
      if !Env.zeroByteFollows (← nextFresh) then fault .memoryOutOfBounds

/-- `copy_code` reads the EVM memory as a string and writes nothing to it. -/
def extcodecopy (stack : StackTop) : Core Unit := do
  let (tmp, stack) := stack.pop
  let addr := u256ToU8_20 (← load tmp)
  let (memIndex, stack) := stack.pop
  let (inputIndex, stack) := stack.pop
  let (size, _) := stack.pop
  requireMemoryU256 (← load memIndex) (← load size)
  let s := (← load size).low
  chargeGas (numWords s * 3)
  chargeColdAccount addr additionalColdAccountAccessCost
  if s > 0 then
    let src := min (2 ^ 32 - 1) (← load inputIndex).low
    let dst := (← load memIndex).low
    let numBytesCopied ← ask (.copyCode addr src s)
    if numBytesCopied > 0 then scanString dst
    clearMemory (dst + numBytesCopied) (s - numBytesCopied)

/-- `strlen(state->return_data)` -/
def returnDataLength : Core Nat := do
  match ← read (·.returnData) with
  | none => fault .nullPointer
  | some data => return (data.takeWhile (· ≠ 0)).length

/-- The length is that of a string. -/
def returndatasize : StackTop → Core Unit := pushValue do
  return .ofU64 (BitVec.ofNat 64 (← returnDataLength))

/-- A range beyond the return data ends the instruction. The sum of index and size is one of
`uint64_t`. -/
def returndatacopy (stack : StackTop) : Core Unit := do
  let (memIndex, stack) := stack.pop
  let (inputIndex, stack) := stack.pop
  let (size, _) := stack.pop
  requireMemoryU256 (← load memIndex) (← load size)
  let dst := (← load memIndex).low
  let s := (← load size).low
  let length ← returnDataLength
  let src := (← load inputIndex).low
  if length < src then ret .invalidMemoryAccess
  if (src + s) % 2 ^ 64 > length then ret .invalidMemoryAccess
  chargeGas (numWords s * 3)
  let data := ((← read (·.returnData)).getD []).drop src
  if s > data.length then fault .wildPointer
  writeMemory dst (data.take s)

/-- The cold access is charged before the host is asked. -/
def extcodehash (stack : StackTop) : Core Unit := do
  let x := stack.top
  let addr := u256ToU8_20 (← load x)
  chargeColdAccount addr additionalColdAccountAccessCost
  let hash ← ask (.getCodeHash addr)
  store x (readu256BE (bytesAt hash))

/-- The number is compared with the upper bound the wrong way round, and its low limb with the lower
bound as `int64_t`. -/
def blockhash (stack : StackTop) : Core Unit := do
  let number := stack.top
  let upperBound := (← ask .getTxContext).blockNumber
  let d ← int64 (upperBound - 256)
  let lowerBound := if d > 0 then d else 0
  let word ← load number
  let n := toInt64 word.low
  let header ←
    if gt256 word (int64Word upperBound) ∧ n ≥ lowerBound then ask (.getBlockHash n)
    else pure zeroBytes32
  store number (readu256BE (bytesAt header))

/-- The first bytes of the local array are not written. -/
def coinbase : StackTop → Core Unit := pushValue do
  let tx ← ask .getTxContext
  let pad := Env.localBytes (← nextFresh)
  return addressWord pad tx.blockCoinbase

def timestamp : StackTop → Core Unit := pushValue do
  return int64Word (← ask .getTxContext).blockTimestamp

def number : StackTop → Core Unit := pushValue do
  return int64Word (← ask .getTxContext).blockNumber

/-- Nothing is pushed. -/
def difficulty (_stack : StackTop) : Core Unit := return ()

def gaslimit : StackTop → Core Unit := pushValue do
  return int64Word (← ask .getTxContext).blockGasLimit

def chainid : StackTop → Core Unit := pushValue do
  return readu256BE (bytesAt (← ask .getTxContext).chainId)

def selfbalance : StackTop → Core Unit := pushValue do
  let balance ← ask (.getBalance (← read (·.msg)).recipient)
  return readu256BE (bytesAt balance)

def basefee : StackTop → Core Unit := pushValue do
  return readu256BE (bytesAt (← ask .getTxContext).blockBaseFee)

/-! ### Memory and storage -/

/-- The 32 bytes at the offset, the most significant one first. -/
def mload (stack : StackTop) : Core Unit := do
  let index := stack.top
  requireMemoryU64 (← load index) 32
  let data ← readMemory (← load index).low 32
  store index (readu256BE (buffer data))

/-- The 32 bytes of the word are written at the offset. -/
def mstore (stack : StackTop) : Core Unit := do
  let (index, stack) := stack.pop
  let (value, _) := stack.pop
  requireMemoryU64 (← load index) 32
  let out := u256ToU8_32 (← load value)
  writeMemory (← load index).low out.toList

/-- The check is for 32 bytes, and eight bytes are written. -/
def mstore8 (stack : StackTop) : Core Unit := do
  let (index, stack) := stack.pop
  let (value, _) := stack.pop
  requireMemoryU64 (← load index) 32
  let out := u256ToU8_8 (← load value)
  writeMemory (← load index).low out.toList

/-- A storage key or value: `u256_to_u8_32` for a non-zero word, else zero bytes. -/
def storageWord (x : Uint256) : Bytes32 := if !zero256 x then u256ToU8_32 x else zeroBytes32

/-- From Berlin on, a cold slot costs what the warm access does not cover. -/
def sload (stack : StackTop) : Core Unit := do
  let x := stack.top
  let key := storageWord (← load x)
  let recipient := (← read (·.msg)).recipient
  if (← read (·.rev)) ≥ .berlin then
    let status ← ask (.accessStorage recipient key)
    if status = .cold then chargeGas (coldSloadCost - warmStorageReadCost)
  let data ← ask (.getStorage recipient key)
  store x (readu256BE (bytesAt data))

/-- The cost of a storage change on top of `cost`, the cost of a cold access. -/
def sstoreCost (rev : Revision) (status : StorageStatus) (cost : Int) : Int :=
  match status with
  | .unchanged | .modifiedAgain =>
    if rev ≥ .berlin then cost + warmStorageReadCost
    else if rev = .istanbul then 800
    else if rev = .constantinople then 200
    else 5000
  | .modified | .deleted => if rev ≥ .berlin then cost + (5000 - coldSloadCost) else 5000
  | .added => cost + 20000

/-- `if (ExecutionState_in_static_mode(state)) return EVMC_STATIC_MODE_VIOLATION;` -/
def refuseStatic : Core Unit := do
  if executionStateInStaticMode (← get) then ret .staticModeViolation

/-- The host makes the change before the charge. From Istanbul on, 2300 gas are not enough to start
with. -/
def sstore (stack : StackTop) : Core Unit := do
  refuseStatic
  if (← read (·.rev)) ≥ .istanbul ∧ (← read (·.gasLeft)) ≤ 2300 then ret .outOfGas
  let (x, stack) := stack.pop
  let key := storageWord (← load x)
  let (x, _) := stack.pop
  let value := storageWord (← load x)
  let rev ← read (·.rev)
  let recipient := (← read (·.msg)).recipient
  let cost ←
    if rev ≥ .berlin then do
      let access ← ask (.accessStorage recipient key)
      pure (if access = .cold then coldSloadCost else 0)
    else pure 0
  let status ← ask (.setStorage recipient key value)
  chargeGas (sstoreCost rev status cost)

def msize : StackTop → Core Unit := pushValue do
  return .ofU64 (BitVec.ofNat 64 (← read (·.memory)).mSize)

def push0 : StackTop → Core Unit := pushValue (pure .zero)

/-! ### Stack operations and logs -/

/-- `dup1` to `dup16`: item `n` is pushed, where 1 is the top item. -/
def dup (n : Nat) (stack : StackTop) : Core Unit := do
  let tmp ← load (stack.get (n - 1))
  let _ ← stack.push tmp

/-- `swap1` to `swap16`: the top item and item `n` below it are exchanged. -/
def swap (n : Nat) (stack : StackTop) : Core Unit := do
  let tmp ← load stack.top
  store stack.top (← load (stack.get n))
  store (stack.get n) tmp

/-- A log without topics. The vector that the host gets for them is not initialised. -/
def log0 (stack : StackTop) : Core Unit := do
  refuseStatic
  let (offset, stack) := stack.pop
  let (size, _) := stack.pop
  requireMemoryU256 (← load offset) (← load size)
  let o := (← load offset).low
  let s := (← load size).low
  chargeGas (← int64 (toInt64 s * 8))
  let data ← readMemory o s
  let vectorEmpty := Env.wildVectorEmpty (← nextFresh)
  ask (.emitLog (← read (·.msg)).recipient data [] vectorEmpty)

/-- The topics popped from the stack. -/
def popTopics : Nat → StackTop → Core (List Bytes32)
  | 0, _ => return []
  | n + 1, stack => do
    let (tmp, stack) := stack.pop
    let topic := u256ToU8_32 (← load tmp)
    return topic :: (← popTopics n stack)

/-- The body of `log1` to `log4`, with `n` topics. The vector of the topics is not
initialised before the first push. -/
def logTopics (n : Nat) (stack : StackTop) : Core Unit := do
  if (← read (·.msg)).flags &&& 1 ≠ 0 then ret .staticModeViolation
  let (offset, stack) := stack.pop
  let (size, stack) := stack.pop
  requireMemoryU64 (← load offset) (← load size).low
  let o := (← load offset).low
  let s := (← load size).low
  chargeGas (← int64 (toInt64 s * 8))
  let topics ← popTopics n stack
  if !Env.wildVectorEmpty (← nextFresh) then fault .wildPointer
  let data ← readMemory o s
  let vectorEmpty := Env.wildVectorEmpty (← nextFresh)
  ask (.emitLog (← read (·.msg)).recipient data topics vectorEmpty)

def log1 : StackTop → Core Unit := logTopics 1

def log2 : StackTop → Core Unit := logTopics 2

def log3 : StackTop → Core Unit := logTopics 3

def log4 : StackTop → Core Unit := logTopics 4

/-! ### Instructions that end the run -/

def stop : Core StatusCode := return .success

def invalid : Core StatusCode := return .invalidInstruction

/-- The part that `return_` and `revert` share: the output range is checked and published. -/
def publishOutput (stack : StackTop) : Core Unit := do
  let offset := stack.get 0
  let size := stack.get 1
  requireMemoryU256 (← load offset) (← load size)
  let outputSize := (← load size).low
  modify fun s => { s with outputSize := outputSize }
  if outputSize ≠ 0 then
    let outputOffset := (← load offset).low
    modify fun s => { s with outputOffset := outputOffset }
    log (.memAccess outputOffset outputSize (← read (·.memory)).mSize)

/-- The output is published, and the run ends with success. -/
def return_ (stack : StackTop) : Core StatusCode := do
  publishOutput stack
  return .success

/-- The output is published, and the run ends with `EVMC_REVERT`. -/
def revert (stack : StackTop) : Core StatusCode := do
  publishOutput stack
  return .revert

/-- A failed charge of 25000 sets a status that the last line overwrites. -/
def selfdestruct (stack : StackTop) : Core StatusCode := do
  refuseStatic
  let beneficiary := u256ToU8_20 (← load (stack.get 0))
  chargeColdAccount beneficiary coldAccountAccessCost
  let rev ← read (·.rev)
  let recipient := (← read (·.msg)).recipient
  if rev ≥ .tangerineWhistle then
    let balance := readu256BE (bytesAt (← ask (.getBalance recipient)))
    if rev = .tangerineWhistle ∨ balance.low ≠ 0 then
      let accountExists ← ask (.accountExists beneficiary)
      if !accountExists then subGas 25000
  ask (.selfdestruct recipient beneficiary)
  return .success

/-! ### Calls -/

/-- What distinguishes the four call instructions. -/
structure CallVariant where
  /-- The value is an operand on the stack, else it is zero. -/
  hasValueOperand : Bool
  /-- The fields of the message other than depth, input and gas, written over `msg`. -/
  message : (state : ExecutionState) → (dst : Address) → (value : Uint256) →
    (msg : Message) → Message
  /-- A check and a cost that only `call_` has. -/
  extraCost : (hasValue : Bool) → (dst : Address) → Core Int

/-- The message to the host, but for its gas. The input is a pointer into the memory. -/
def callMessage (v : CallVariant) (dst : Address) (value : Uint256)
    (inputOffset inputSize : Slot) : Core Message := do
  let state ← get
  let msg := v.message state dst value (Env.localMessage (← nextFresh))
  let msg := { msg with depth := toInt32 (state.msg.depth + 1) }
  let inputSize_ := (← load inputSize).low
  if inputSize_ > 0 then
    let inputData ← memoryPtr (← load inputOffset).low inputSize_
    return { msg with inputData := inputData, inputSize := inputSize_ }
  else return msg

/-- The gas of the message, without the stipend. -/
def callGas (gas : Slot) : Core Int := do
  let gas_ := min (toInt64 (← load gas).low) (2 ^ 63 - 1)
  let gasLeft ← read (·.gasLeft)
  if (← read (·.rev)) ≥ .tangerineWhistle then return min gas_ (gasLeft - gasLeft.tdiv 64)
  else if gas_ > gasLeft then ret .outOfGas
  else return gas_

/-- `if(has_value){ msg.gas += 2300; state->gas_left += 2300; }` -/
def addStipend (hasValue : Bool) (msgGas : Int) : Core Int := do
  if hasValue then
    let msgGas ← int64 (msgGas + 2300)
    subGas (-2300)
    return msgGas
  else return msgGas

/-- The status of the call goes to the stack, and a part of the output to the memory. -/
def takeCallResult (stack : StackTop) (outputOffset outputSize : Slot) (result : Result) :
    Core Unit := do
  -- The loop over the output writes through `return_data`, which is `NULL`.
  if result.outputSize > 0 then fault .nullPointer
  store stack.top (boolWord (result.statusCode = .success))
  let copySize := min (← load outputSize).low result.outputSize
  if copySize > 0 then
    if copySize > result.outputData.length then fault .wildPointer
    writeMemory (← load outputOffset).low (result.outputData.take copySize)

/-- The call of the host, if depth and balance allow it. -/
def callHost (hasValue : Bool) (value : Uint256) (msg : Message) (stack : StackTop)
    (outputOffset outputSize : Slot) : Core Unit := do
  modify fun s => { s with returnData := none }
  let stateMsg ← read (·.msg)
  if stateMsg.depth ≥ 1024 then return ()
  let b ← ask (.getBalance stateMsg.recipient)
  if hasValue && gt256 value (readu256BE (bytesAt b)) then return ()
  let result ← ask (.call msg)
  takeCallResult stack outputOffset outputSize result
  let gasUsed ← int64 (msg.gas - result.gasLeft)
  subGas gasUsed

/-- The part of a call instruction behind the value operand. `has_value` is true when the value
is zero. The pushed word overwrites the slot of the output size. -/
def callWith (v : CallVariant) (gas : Slot) (dst : Address) (value : Uint256)
    (stack : StackTop) : Core Unit := do
  let hasValue := zero256 value
  let (inputOffset, stack) := stack.pop
  let (inputSize, stack) := stack.pop
  let (outputOffset, stack) := stack.pop
  let (outputSize, stack) := stack.pop
  let stack ← stack.push .zero
  chargeColdAccount dst additionalColdAccountAccessCost
  requireMemoryU256 (← load inputOffset) (← load inputSize)
  requireMemoryU256 (← load outputOffset) (← load outputSize)
  let msg ← callMessage v dst value inputOffset inputSize
  let extraCost ← v.extraCost hasValue dst
  chargeGas ((if hasValue then 9000 else 0) + extraCost)
  let msgGas ← callGas gas
  let msgGas ← addStipend hasValue msgGas
  callHost hasValue value { msg with gas := msgGas } stack outputOffset outputSize

/-- The four call instructions. -/
def callVariant (v : CallVariant) (stack : StackTop) : Core Unit := do
  let (gas, stack) := stack.pop
  let (tmp, stack) := stack.pop
  let dst := u256ToU8_20 (← load tmp)
  if v.hasValueOperand then
    let (value, stack) := stack.pop
    callWith v gas dst (← load value) stack
  else callWith v gas dst .zero stack

/-- The value as the 32 bytes of the message. -/
def call_ : StackTop → Core Unit := callVariant
  { hasValueOperand := true
    message := fun state dst value msg =>
      { msg with
        kind := .call, flags := state.msg.flags, recipient := dst, codeAddress := dst,
        sender := state.msg.recipient, value := u256ToU8_32 value }
    extraCost := fun hasValue dst => do
      if hasValue ∧ executionStateInStaticMode (← get) then ret .staticModeViolation
      if hasValue ∨ ¬ (← read (·.rev)) ≥ .spuriousDragon then
        if !(← ask (.accountExists dst)) then return 25000
      return 0 }

/-- The message has the static flag, and no value. -/
def staticcall : StackTop → Core Unit := callVariant
  { hasValueOperand := false
    message := fun state dst value msg =>
      { msg with
        kind := .call, flags := evmcStatic, recipient := dst, codeAddress := dst,
        sender := state.msg.recipient, value := u256ToU8_32 value }
    extraCost := fun _ _ => pure 0 }

/-- The message keeps recipient, sender and value of the caller. -/
def delegatecall : StackTop → Core Unit := callVariant
  { hasValueOperand := false
    message := fun state dst _ msg =>
      { msg with
        kind := .delegatecall, flags := state.msg.flags, recipient := state.msg.recipient,
        codeAddress := dst, sender := state.msg.sender, value := state.msg.value }
    extraCost := fun _ _ => pure 0 }

/-- The code of the callee runs for the recipient of the caller. -/
def callcode : StackTop → Core Unit := callVariant
  { hasValueOperand := true
    message := fun state dst value msg =>
      { msg with
        kind := .callcode, flags := state.msg.flags, recipient := state.msg.recipient,
        codeAddress := dst, sender := state.msg.recipient, value := u256ToU8_32 value }
    extraCost := fun _ _ => pure 0 }

/-- The init code goes into the message, through the uninitialised pointer `msg.input_data`. -/
def initCodeMessage (initCodeOffset initCodeSize : Slot) (msg : Message) : Core Message := do
  let size := (← load initCodeSize).low
  if size > 0 then
    let code ← readMemory (← load initCodeOffset).low size
    if !Env.wildPointerWritable (← nextFresh) then fault .wildPointer
    return { msg with inputSize := size, inputData := code }
  else return msg

/-- The address of a created account is pushed one slot above the salt. -/
def takeCreateResult (stack : StackTop) (result : Result) : Core Unit := do
  -- The output is moved to `return_data`, which is `NULL`.
  if result.outputSize > 0 then fault .nullPointer
  if result.statusCode = .success then
    let pad := Env.localBytes (← nextFresh)
    let _ ← stack.push (addressWord pad result.createAddress)

/-- The part that `create` and `create2` share, from the push of the salt on. In `create` the
salt overwrites the slot of the init code size. -/
def createMessage (kind : CallKind) (endowment initCodeOffset initCodeSize : Slot)
    (salt : Uint256) (stack : StackTop) : Core Unit := do
  let stack ← stack.push salt
  modify fun s => { s with returnData := none }
  let stateMsg ← read (·.msg)
  if stateMsg.depth ≥ 1024 then return ()
  let b ← ask (.getBalance stateMsg.recipient)
  let value ← load endowment
  if !zero256 value && gt256 value (readu256BE (bytesAt b)) then return ()
  let gas ← read (·.gasLeft)
  let gas := if (← read (·.rev)) ≥ .tangerineWhistle then gas - gas.tdiv 64 else gas
  let msg ← initCodeMessage initCodeOffset initCodeSize (Env.localMessage (← nextFresh))
  let result ← ask (.call { msg with
    kind := kind, gas := gas, sender := stateMsg.recipient,
    depth := toInt32 (stateMsg.depth + 1), create2Salt := u256ToU8_32 salt,
    value := u256ToU8_32 value })
  let gasUsed ← int64 (gas - result.gasLeft)
  subGas gasUsed
  takeCreateResult stack result

/-- The salt is zero. The range of the init code is checked before the salt overwrites its size. -/
def create (stack : StackTop) : Core Unit := do
  refuseStatic
  let (endowment, stack) := stack.pop
  let (initCodeOffset, stack) := stack.pop
  let (initCodeSize, stack) := stack.pop
  requireMemoryU256 (← load initCodeOffset) (← load initCodeSize)
  createMessage .create endowment initCodeOffset initCodeSize .zero stack

/-- `salt_cost` is a `size_t`, so the difference is computed modulo 2^64. -/
def create2 (stack : StackTop) : Core Unit := do
  refuseStatic
  let (endowment, stack) := stack.pop
  let (initCodeOffset, stack) := stack.pop
  let (initCodeSize, stack) := stack.pop
  requireMemoryU256 (← load initCodeOffset) (← load initCodeSize)
  let (salt, stack) := stack.pop
  let salt ← load salt
  let saltCost := numWords (← load initCodeSize).low * 6
  setGas (toInt64 ((← read (·.gasLeft)) - saltCost))
  if (← read (·.gasLeft)) < 0 then ret .outOfGas
  createMessage .create2 endowment initCodeOffset initCodeSize salt stack

end

end TscVee
