import TscVee.Uint256

/-!
# `TscVee.Evmc`: the EVMC types and the environment of a run

The enumerations and structures of `evmc.h` that the interpreter and the mocked host use.

A pointer to read-only bytes (`input_data`, `output_data`) is the list of the bytes that can be
read through it, so `NULL` and a dangling pointer are the empty list, and reading `n` bytes
needs `n` of them.

`Env` collects what the C program does not determine: the initial contents of the variables
that it reads before it writes them, and whether an allocation succeeds. Each use takes the
value at the next index of a counter in the state, so the contents may differ from use to use.
-/

set_option autoImplicit false

namespace TscVee

/-- `enum evmc_revision`. -/
inductive Revision
  | frontier | homestead | tangerineWhistle | spuriousDragon | byzantium | constantinople
  | petersburg | istanbul | berlin | london | paris | shanghai | cancun
  deriving DecidableEq, Repr, Inhabited

/-- The value of the enumerator. -/
def Revision.index : Revision → Nat
  | .frontier => 0 | .homestead => 1 | .tangerineWhistle => 2 | .spuriousDragon => 3
  | .byzantium => 4 | .constantinople => 5 | .petersburg => 6 | .istanbul => 7 | .berlin => 8
  | .london => 9 | .paris => 10 | .shanghai => 11 | .cancun => 12

instance : LE Revision := ⟨fun a b => a.index ≤ b.index⟩

instance (a b : Revision) : Decidable (a ≤ b) := inferInstanceAs (Decidable (_ ≤ _))

/-- The revision has one of the twelve rows of `gas_costs[12][256]`. -/
def Revision.hasRow (rev : Revision) : Prop := rev.index < 12

instance (rev : Revision) : Decidable rev.hasRow := inferInstanceAs (Decidable (_ < _))

/-- `enum evmc_status_code`. -/
inductive StatusCode
  | success | failure | revert | outOfGas | invalidInstruction | undefinedInstruction
  | stackOverflow | stackUnderflow | badJumpDestination | invalidMemoryAccess
  | callDepthExceeded | staticModeViolation | precompileFailure | contractValidationFailure
  | argumentOutOfRange | wasmUnreachableInstruction | wasmTrap | insufficientBalance
  | internalError | rejected | outOfMemory
  deriving DecidableEq, Repr, Inhabited

/-- `enum evmc_call_kind`. -/
inductive CallKind
  | call | delegatecall | callcode | create | create2
  deriving DecidableEq, Repr, Inhabited

/-- `enum evmc_access_status`. -/
inductive AccessStatus
  | cold | warm
  deriving DecidableEq, Repr, Inhabited

/-- `enum evmc_storage_status`. -/
inductive StorageStatus
  | unchanged | modified | modifiedAgain | added | deleted
  deriving DecidableEq, Repr, Inhabited

/-- The bytes that can be read through a `uint8_t*`. -/
abbrev Ptr := List Byte

/-- `struct evmc_message`. -/
structure Message where
  kind : CallKind
  flags : BitVec 32
  depth : Int
  gas : Int
  recipient : Address
  sender : Address
  inputData : Ptr
  inputSize : Nat
  value : Bytes32
  create2Salt : Bytes32
  codeAddress : Address
  deriving DecidableEq, Repr, Inhabited

/-- `EVMC_STATIC`. -/
def evmcStatic : BitVec 32 := 1

/-- The message asks for a static call. -/
def Message.isStatic (msg : Message) : Prop := msg.flags &&& evmcStatic ≠ 0

instance (msg : Message) : Decidable msg.isStatic := inferInstanceAs (Decidable (_ ≠ _))

/-- `struct evmc_tx_context`. -/
structure TxContext where
  txGasPrice : Bytes32
  txOrigin : Address
  blockCoinbase : Address
  blockNumber : Int
  blockTimestamp : Int
  blockGasLimit : Int
  blockPrevRandao : Bytes32
  chainId : Bytes32
  blockBaseFee : Bytes32
  deriving DecidableEq, Repr, Inhabited

/-- `struct evmc_result`, without the `release` function and the padding. -/
structure Result where
  statusCode : StatusCode
  gasLeft : Int
  outputData : Ptr
  outputSize : Nat
  createAddress : Address
  deriving DecidableEq, Repr

/-- `evmc_result_init`: all fields zero. -/
def evmcResultInit : Result :=
  { statusCode := .success, gasLeft := 0, outputData := [], outputSize := 0,
    createAddress := Vector.replicate 20 0 }

/-- `b32_zero`. -/
def b32Zero (b : Bytes32) : Bool := b.all (· == 0)

/-- `u64_to_addr`: the eight bytes of the number at the end of the address. -/
def u64ToAddr (v : U64) : Address :=
  Vector.ofFn fun i => if (i : Nat) < 12 then 0 else shiftedByte v (19 - i)

/-- A step that C does not define, or that ends or hangs the process: the run is stuck there. -/
inductive Fault
  /-- A read or write through `NULL`. -/
  | nullPointer
  /-- A read or write through an uninitialised or dangling pointer. -/
  | wildPointer
  /-- An access to the EVM memory outside `[0, m_size)`. -/
  | memoryOutOfBounds
  /-- An access to a slot outside `m_stack_space[0..1023]`. -/
  | stackOutOfBounds
  /-- An instruction pointer outside the instruction table. -/
  | instrOutOfBounds
  /-- A call through a function pointer that was never assigned. -/
  | unassignedFunction
  /-- A union member that was not the last one written. -/
  | wrongArgument
  /-- An `int64_t` sum, difference or product outside the type. -/
  | signedOverflow
  /-- An `assert` fails. -/
  | assertFailed
  /-- A loop that does not end. -/
  | diverges
  deriving DecidableEq, Repr, Inhabited

/-- What the C program leaves undetermined. -/
class Env where
  /-- The `stack_req` and `stack_change` (both `int8_t`) of an `OpTable` entry that
  `get_op_table` does not write. -/
  opTableEntry : Byte → BitVec 8 × BitVec 8
  /-- The initial contents of a local array of bytes. -/
  localBytes : Nat → Nat → Byte
  /-- The initial contents of a local `struct evmc_message`. -/
  localMessage : Nat → Message
  /-- An uninitialised pointer points to writable bytes that nothing else uses. -/
  wildPointerWritable : Nat → Bool
  /-- An uninitialised vector has the contents of an empty one. -/
  wildVectorEmpty : Nat → Bool
  /-- A scan for a zero byte that leaves the EVM memory finds one in mapped memory. -/
  zeroByteFollows : Nat → Bool
  /-- The allocation of this many bytes succeeds. -/
  allocates : Nat → Nat → Bool

/-- An environment in which fresh memory is zero and every allocation succeeds. -/
@[reducible] def Env.zeroed : Env where
  opTableEntry _ := (0, 0)
  localBytes _ _ := 0
  localMessage _ :=
    { kind := .call, flags := 0, depth := 0, gas := 0, recipient := Vector.replicate 20 0,
      sender := Vector.replicate 20 0, inputData := [], inputSize := 0, value := zeroBytes32,
      create2Salt := zeroBytes32, codeAddress := Vector.replicate 20 0 }
  wildPointerWritable _ := true
  wildVectorEmpty _ := true
  zeroByteFollows _ := true
  allocates _ _ := true

end TscVee
