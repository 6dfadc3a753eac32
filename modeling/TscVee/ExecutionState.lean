import TscVee.MockedHost

/-!
# `TscVee.ExecutionState`: memory, stack space and host of a run

`ExecutionState` is the state that the instructions work on. An instruction implementation is a
program `Core α` over it. A C `return status;` in the middle of an implementation is a throw of
`Halt.ret status`, and a step that C does not define is a throw of `Halt.fault`.

Pointers into the stack space are indices into `m_stack_space`, so `StackSpace_bottom` is -1, and
a pointer to a popped item stays usable, as in the source.

Two fields record the run and are read by no instruction. `trace` lists the ranges of EVM memory
that are read, written or published, the memory checks, and the requests to the host. `fresh`
counts the uses of undetermined contents (`Env`).
-/

set_option autoImplicit false

namespace TscVee

/-- `struct Memory`. The data pointer is `none` when it is `NULL`. -/
structure Memory where
  pageSize : Nat
  mData : Option (Nat → Byte)
  mSize : Nat
  mCapacity : Nat

/-- `struct bytes_view`. The size is an `int`. -/
structure BytesView where
  data : List Byte
  size : Int

/-- A request to the host. -/
inductive HostOp
  | accountExists (addr : Address)
  | getStorage (addr : Address) (key : Bytes32)
  | setStorage (addr : Address) (key value : Bytes32)
  | getBalance (addr : Address)
  | getCodeSize (addr : Address)
  | getCodeHash (addr : Address)
  | copyCode (addr : Address) (codeOffset bufferSize : Nat)
  | selfdestruct (addr beneficiary : Address)
  | call (msg : Message)
  | getTxContext
  | getBlockHash (blockNumber : Int)
  | emitLog (addr : Address) (data : List Byte) (topics : List Bytes32) (vectorEmpty : Bool)
  | accessAccount (addr : Address)
  | accessStorage (addr : Address) (key : Bytes32)
  deriving DecidableEq, Repr

/-- The type of the host's answer. -/
@[reducible] def HostOp.Answer : HostOp → Type
  | .accountExists _ => Bool
  | .getStorage _ _ => Bytes32
  | .setStorage _ _ _ => StorageStatus
  | .getBalance _ => Bytes32
  | .getCodeSize _ => Nat
  | .getCodeHash _ => Bytes32
  | .copyCode _ _ _ => Nat
  | .selfdestruct _ _ => Unit
  | .call _ => Result
  | .getTxContext => TxContext
  | .getBlockHash _ => Bytes32
  | .emitLog _ _ _ _ => Unit
  | .accessAccount _ => AccessStatus
  | .accessStorage _ _ => AccessStatus

/-- The host function that serves the request. -/
def HostOp.serve : (op : HostOp) → Host op.Answer
  | .accountExists addr => MockedHost.accountExists addr
  | .getStorage addr key => MockedHost.getStorage addr key
  | .setStorage addr key value => MockedHost.setStorage addr key value
  | .getBalance addr => MockedHost.getBalance addr
  | .getCodeSize addr => MockedHost.getCodeSize addr
  | .getCodeHash addr => MockedHost.getCodeHash addr
  | .copyCode addr codeOffset bufferSize => MockedHost.copyCode addr codeOffset bufferSize
  | .selfdestruct addr beneficiary => MockedHost.selfdestruct addr beneficiary
  | .call msg => MockedHost.call msg
  | .getTxContext => MockedHost.getTxContext
  | .getBlockHash blockNumber => MockedHost.getBlockHash blockNumber
  | .emitLog addr data topics vectorEmpty => MockedHost.emitLog addr data topics vectorEmpty
  | .accessAccount addr => MockedHost.accessAccount addr
  | .accessStorage addr key => MockedHost.accessStorage addr key

/-- What the trace of a run records. -/
inductive Event
  /-- `len` bytes of EVM memory from `offset` on are read, written, handed to the host or
  published as output, while `m_size` is `size`. -/
  | memAccess (offset len size : Nat)
  /-- A memory check of `size` bytes from `offset` on starts. -/
  | memRange (offset size : Nat)
  /-- A memory check succeeds at the price `cost` and takes `m_size` from `old` to `new`. -/
  | memCheck (cost : Int) (old new : Nat)
  /-- An instruction that depends on the gas counter works with this value. -/
  | gasSeen (gas : Int)
  /-- A request to the host. -/
  | host (op : HostOp)
  deriving DecidableEq, Repr

/-- `struct ExecutionState`. -/
structure ExecutionState where
  gasLeft : Int
  memory : Memory
  msg : Message
  hostCtx : MockedHost
  rev : Revision
  returnData : Option (List Byte)
  code : BytesView
  status : StatusCode
  outputOffset : Nat
  outputSize : Nat
  stackSpace : Int → Uint256
  trace : List Event
  fresh : Nat

/-- How an instruction implementation ends early. -/
inductive Halt
  /-- `return status;` -/
  | ret (status : StatusCode)
  /-- A step that C does not define. -/
  | fault (f : Fault)
  deriving DecidableEq, Repr

/-- An instruction implementation, or a part of one. -/
abbrev Core (α : Type) := EStateM Halt ExecutionState α

namespace Core

variable {α : Type}

/-- `return status;` -/
def ret (status : StatusCode) : Core α := throw (.ret status)

/-- Undefined behaviour of the C program, or an `assert` that fails. -/
def fault (f : Fault) : Core α := throw (.fault f)

/-- The value of a field of the state. -/
def read (f : ExecutionState → α) : Core α := return f (← get)

/-- An event is appended to the trace. -/
def log (e : Event) : Core Unit := modify fun s => { s with trace := s.trace ++ [e] }

/-- The next index of undetermined contents. -/
def nextFresh : Core Nat := do
  let k ← read (·.fresh)
  modify fun s => { s with fresh := s.fresh + 1 }
  return k

/-- A request to the host. -/
def ask (op : HostOp) : Core op.Answer := do
  log (.host op)
  let host ← read (·.hostCtx)
  match op.serve host with
  | .ok a host => modify fun s => { s with hostCtx := host }; return a
  | .error f host => modify fun s => { s with hostCtx := host }; fault f

/-! ### Gas -/

/-- The value fits in `int64_t`. -/
def isInt64 (x : Int) : Prop := -2 ^ 63 ≤ x ∧ x < 2 ^ 63

/-- Irreducible, because the bounds are too large to be unfolded. -/
@[irreducible] def decIsInt64 (x : Int) : Decidable (isInt64 x) :=
  inferInstanceAs (Decidable (_ ∧ _))

instance (x : Int) : Decidable (isInt64 x) := decIsInt64 x

/-- The result of an `int64_t` operation. -/
def int64 (x : Int) : Core Int := if isInt64 x then pure x else fault .signedOverflow

/-- A 64-bit pattern read as `int64_t`. -/
def toInt64 (x : Int) : Int := x.bmod (2 ^ 64)

/-- The gas counter is set. -/
def setGas (gas : Int) : Core Unit := modify fun s => { s with gasLeft := gas }

/-- `state->gas_left -= cost;` -/
def subGas (cost : Int) : Core Unit := do
  let gas ← int64 ((← read (·.gasLeft)) - cost)
  setGas gas

/-- `if ((state->gas_left -= cost) < 0) return EVMC_OUT_OF_GAS;` -/
def chargeGas (cost : Int) : Core Unit := do
  subGas cost
  if (← read (·.gasLeft)) < 0 then ret .outOfGas

/-! ### The stack space -/

/-- A pointer to a stack slot. -/
abbrev Slot := Int

/-- The slot lies in `m_stack_space[0..1023]`. -/
def inStackSpace (p : Slot) : Prop := 0 ≤ p ∧ p < 1024

instance (p : Slot) : Decidable (inStackSpace p) := inferInstanceAs (Decidable (_ ∧ _))

/-- `*p` -/
def load (p : Slot) : Core Uint256 := do
  if ¬ inStackSpace p then fault .stackOutOfBounds
  read (·.stackSpace p)

/-- `*p = value;` -/
def store (p : Slot) (value : Uint256) : Core Unit := do
  if ¬ inStackSpace p then fault .stackOutOfBounds
  modify fun s => { s with stackSpace := fun q => if q = p then value else s.stackSpace q }

/-! ### EVM memory -/

/-- The range of EVM memory that an instruction uses is logged, and lies in the memory. -/
def access (offset len : Nat) : Core (Nat → Byte) := do
  let memory ← read (·.memory)
  log (.memAccess offset len memory.mSize)
  match memory.mData with
  | none => fault .nullPointer
  | some data =>
    if offset + len ≤ memory.mSize then pure data else fault .memoryOutOfBounds

/-- `len` bytes read from `Memory_get(memory, offset)`. -/
def readMemory (offset len : Nat) : Core (List Byte) := do
  if len = 0 then return []
  let data ← access offset len
  return (List.range len).map fun i => data (offset + i)

/-- `TEE_MemMove(Memory_get(memory, offset), bytes, ...)` -/
def writeMemory (offset : Nat) (bytes : List Byte) : Core Unit := do
  if bytes.isEmpty then return ()
  let data ← access offset bytes.length
  let data' := fun i =>
    if offset ≤ i ∧ i < offset + bytes.length then bytes.getD (i - offset) 0 else data i
  modify fun s => { s with memory := { s.memory with mData := some data' } }

/-- `TEE_MemFill(Memory_get(memory, offset), 0, len)` -/
def clearMemory (offset len : Nat) : Core Unit := do
  if len = 0 then return ()
  let data ← access offset len
  let data' := fun i => if offset ≤ i ∧ i < offset + len then 0 else data i
  modify fun s => { s with memory := { s.memory with mData := some data' } }

/-- `Memory_get(memory, offset)` as a pointer for others to read `len` bytes from. -/
def memoryPtr (offset len : Nat) : Core Ptr := do
  let memory ← read (·.memory)
  log (.memAccess offset len memory.mSize)
  match memory.mData with
  | none => return []
  | some data => return (List.range (memory.mSize - offset)).map fun i => data (offset + i)

variable [Env]

/-- `Memory_allocate_capacity`. A failed reallocation leaves a `NULL` data pointer behind. -/
def memoryAllocateCapacity : Core Unit := do
  let memory ← read (·.memory)
  let k ← nextFresh
  let mData := if Env.allocates k memory.mCapacity
    then some (memory.mData.getD (Env.localBytes k)) else none
  modify fun s => { s with memory := { s.memory with mData := mData } }

/-- `Memory_grow`. -/
def memoryGrow (newSize : Nat) : Core Unit := do
  let memory ← read (·.memory)
  if ¬ newSize % 32 = 0 then fault .assertFailed
  if ¬ newSize > memory.mSize then fault .assertFailed
  if newSize > memory.mCapacity then
    let capacity := memory.mCapacity * 2
    let capacity := if capacity < newSize
      then (newSize + (memory.pageSize - 1)) / memory.pageSize * memory.pageSize else capacity
    modify fun s => { s with memory := { s.memory with mCapacity := capacity } }
    memoryAllocateCapacity
  match (← read (·.memory)).mData with
  | none => fault .nullPointer
  | some data =>
    let data' := fun i => if memory.mSize ≤ i ∧ i < newSize then 0 else data i
    modify fun s => { s with memory := { s.memory with mData := some data', mSize := newSize } }

end Core

open TscVee.Core

/-! ### The state of the advanced interpreter's base -/

/-- `StackSpace_bottom`. -/
def stackSpaceBottom : Slot := -1

/-- A value converted to `int`. -/
def toInt32 (x : Int) : Int := x.bmod (2 ^ 32)

/-- `ExecutionState_in_static_mode`. In C, `flags & EVMC_STATIC != 0` is
`flags & (EVMC_STATIC != 0)`. -/
def executionStateInStaticMode (state : ExecutionState) : Bool :=
  state.msg.flags &&& (if evmcStatic ≠ 0 then 1 else 0) ≠ 0

/-- `Memory_init`, `ExecutionState_init_v` on zeroed memory (`TEE_MALLOC_FILL_ZERO`). The host
context is copied into the state. -/
def executionStateInitV [Env] (message : Message) (revision : Revision) (hostCtx : MockedHost)
    (code : List Byte) : ExecutionState :=
  { gasLeft := message.gas
    memory :=
      { pageSize := 4 * 1024
        mData := if Env.allocates 0 (4 * 1024) then some (Env.localBytes 0) else none
        mSize := 0
        mCapacity := 4 * 1024 }
    msg := message
    hostCtx := hostCtx
    rev := revision
    returnData := none
    code := ⟨code, toInt32 code.length⟩
    status := .success
    outputOffset := 0
    outputSize := 0
    stackSpace := fun _ => .zero
    trace := []
    fresh := 1 }

end TscVee
