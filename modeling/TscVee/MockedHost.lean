import TscVee.Stc

/-!
# `TscVee.MockedHost`: the host of `mocked_host.h`

The host keeps the accounts in a map from address to `MockedAccount`, and each account keeps
its storage in a map from key to `StorageValue`. It records the account accesses, the calls,
the logs, the self-destructs and the block hash queries in vectors.

Each host function is a program over the host that returns its result, changes the host, or
ends in a `Fault` (a `NULL` entry that is dereferenced, or a probe loop that does not end).
The fields `lr` and `sr` of the source and the account nonce are never read and are left out.
-/

set_option autoImplicit false

namespace TscVee

/-- `struct storage_value`. -/
structure StorageValue where
  value : Bytes32
  dirty : Bool
  accessStatus : AccessStatus
  deriving DecidableEq, Repr

/-- `storage_value_init`. -/
def storageValueInit : StorageValue := ⟨zeroBytes32, false, .cold⟩

/-- `struct MockedAccount`. -/
structure MockedAccount where
  code : List Byte
  codehash : Bytes32
  balance : Bytes32
  storage : CMap Bytes32 StorageValue

/-- `MockedAccount_init`. -/
def mockedAccountInit : MockedAccount := ⟨[], zeroBytes32, zeroBytes32, .init⟩

/-- `struct log_record`. The topics of a record are `none` when its vector was never
initialised. -/
structure LogRecord where
  creator : Address
  data : List Byte
  topics : Option (List Bytes32)
  deriving DecidableEq, Repr

/-- `struct selfdestruct_record`. -/
structure SelfdestructRecord where
  selfdestructed : Address
  beneficiary : Address
  deriving DecidableEq, Repr

/-- `MockedHost`, that is `struct evmc_host_context`. -/
structure MockedHost where
  accounts : CMap Address MockedAccount
  txContext : TxContext
  blockHash : Bytes32
  callResult : Result
  recordedBlockhashes : CVec Int
  recordedAccountAccesses : CVec Address
  maxRecordedAccountAccesses : Nat
  recordedCalls : CVec Message
  maxRecordedCalls : Nat
  recordedLogs : CVec LogRecord
  recordedSelfdestructs : CVec SelfdestructRecord
  recordedCallsInputs : CVec (List Byte)

/-- `MockedHost_init`. `evmcContext_init` gets a copy of the transaction context, so the fields
of `tx_context` keep the contents `tx` of the caller's memory. -/
def mockedHostInit (tx : TxContext) : MockedHost where
  accounts := .init
  txContext := tx
  blockHash := zeroBytes32
  callResult := evmcResultInit
  recordedBlockhashes := .init
  recordedAccountAccesses := .init
  maxRecordedAccountAccesses := 200
  recordedCalls := .init
  maxRecordedCalls := 100
  recordedLogs := .init
  recordedSelfdestructs := .init
  recordedCallsInputs := .init

/-- A host function. -/
abbrev Host (α : Type) := EStateM Fault MockedHost α

/-- A probe loop of a map, which may not end. -/
def probing {α : Type} (o : Option α) : Host α :=
  match o with
  | some a => pure a
  | none => throw .diverges

/-- A pointer that is dereferenced. -/
def deref {α : Type} (p : Option α) : Host α :=
  match p with
  | some a => pure a
  | none => throw .nullPointer

/-- `n` bytes read through `p`. -/
def readPtr (p : Ptr) (n : Nat) : Host (List Byte) :=
  if n ≤ p.length then pure (p.take n) else throw .wildPointer

namespace MockedHost

/-- `record_account_access`. -/
def recordAccountAccess (addr : Address) : Host Unit := do
  let host ← get
  let accesses := host.recordedAccountAccesses
  let accesses := if accesses.empty then accesses.reserve host.maxRecordedAccountAccesses
    else accesses
  let accesses := if accesses.size < host.maxRecordedAccountAccesses then accesses.push addr
    else accesses
  set { host with recordedAccountAccesses := accesses }

/-- `account_map_find`. -/
def findAccount (addr : Address) : Host (Option MockedAccount) := do
  let host ← get
  probing (host.accounts.find addr)

/-- `account_exists`. -/
def accountExists (addr : Address) : Host Bool := do
  recordAccountAccess addr
  let host ← get
  probing (host.accounts.contains addr)

/-- `get_storage`. -/
def getStorage (addr : Address) (key : Bytes32) : Host Bytes32 := do
  recordAccountAccess addr
  match ← findAccount addr with
  | none => pure zeroBytes32
  | some acc =>
    match ← probing (acc.storage.find key) with
    | none => pure zeroBytes32
    | some sv => pure sv.value

/-- The status of a change of `old` to `value`. -/
def storageStatus (old : StorageValue) (value : Bytes32) : StorageStatus :=
  if old.dirty then .modifiedAgain
  else if b32Zero old.value then .added
  else if !b32Zero value then .modified
  else .deleted

/-- `set_storage`. `account_map_get_mut` and `storage_map_get_mut` return `NULL` for an absent
entry; they create none. -/
def setStorage (addr : Address) (key value : Bytes32) : Host StorageStatus := do
  recordAccountAccess addr
  let host ← get
  let accIdx ← deref (← probing (host.accounts.lookupIdx addr))
  let acc ← deref ((host.accounts.at? accIdx).map (·.second))
  let idx ← deref (← probing (acc.storage.lookupIdx key))
  let old ← deref ((acc.storage.at? idx).map (·.second))
  if MapKey.cmp old.value value = 0 then return .unchanged
  let storage := acc.storage.setSecond idx { old with value := value, dirty := true }
  set { host with accounts := host.accounts.setSecond accIdx { acc with storage := storage } }
  return storageStatus old value

/-- `get_balance`. -/
def getBalance (addr : Address) : Host Bytes32 := do
  recordAccountAccess addr
  match ← findAccount addr with
  | none => pure zeroBytes32
  | some acc => pure acc.balance

/-- `get_code_size`. -/
def getCodeSize (addr : Address) : Host Nat := do
  recordAccountAccess addr
  match ← findAccount addr with
  | none => pure 0
  | some acc => pure acc.code.length

/-- `get_code_hash`. -/
def getCodeHash (addr : Address) : Host Bytes32 := do
  recordAccountAccess addr
  match ← findAccount addr with
  | none => pure zeroBytes32
  | some acc => pure acc.codehash

/-- `copy_code`, without its call of `cstr_replace_at` on a copy of the code: that call happens
when the result is positive, and all it does with the buffer is to read it up to the first zero
byte. -/
def copyCode (addr : Address) (codeOffset bufferSize : Nat) : Host Nat := do
  recordAccountAccess addr
  match ← findAccount addr with
  | none => pure 0
  | some acc =>
    if codeOffset ≥ acc.code.length then pure 0
    else pure (min bufferSize (acc.code.length - codeOffset))

/-- `selfdestruct`. -/
def selfdestruct (addr beneficiary : Address) : Host Unit := do
  recordAccountAccess addr
  modify fun host =>
    { host with recordedSelfdestructs := host.recordedSelfdestructs.push ⟨addr, beneficiary⟩ }

/-- `call`. -/
def call (msg : Message) : Host Result := do
  recordAccountAccess msg.recipient
  modify fun host =>
    if host.recordedCalls.empty then
      { host with
        recordedCalls := host.recordedCalls.reserve host.maxRecordedCalls
        recordedCallsInputs := host.recordedCallsInputs.reserve host.maxRecordedCalls }
    else host
  let host ← get
  if host.recordedCalls.size < host.maxRecordedCalls then
    if msg.inputSize > 0 then
      let input ← readPtr msg.inputData msg.inputSize
      set { host with
        recordedCalls := host.recordedCalls.push { msg with inputData := input }
        recordedCallsInputs := host.recordedCallsInputs.push input }
    else
      set { host with recordedCalls := host.recordedCalls.push msg }
  return host.callResult

/-- `get_tx_context`. -/
def getTxContext : Host TxContext := return (← get).txContext

/-- `get_block_hash`. -/
def getBlockHash (blockNumber : Int) : Host Bytes32 := do
  modify fun host =>
    { host with recordedBlockhashes := host.recordedBlockhashes.push blockNumber }
  return (← get).blockHash

/-- `emit_log`. `vectorEmpty` says that the uninitialised `lr.topics` has the contents of an
empty vector; with other contents a push is a wild write. -/
def emitLog (addr : Address) (data : List Byte) (topics : List Bytes32) (vectorEmpty : Bool) :
    Host Unit := do
  let topics ←
    if vectorEmpty then pure (some topics)
    else if topics.isEmpty then pure none
    else throw .wildPointer
  modify fun host =>
    { host with recordedLogs := host.recordedLogs.push ⟨addr, data, topics⟩ }

/-- `access_account`. -/
def accessAccount (addr : Address) : Host AccessStatus := do
  let host ← get
  let alreadyAccessed := host.recordedAccountAccesses.find MapKey.cmp addr
  recordAccountAccess addr
  if MapKey.cmp addr (u64ToAddr 1) ≥ 0 ∧ MapKey.cmp addr (u64ToAddr 9) ≤ 0 then return .warm
  return if alreadyAccessed then .warm else .cold

/-- `access_storage`. Unlike `set_storage` it creates the account and the entry. -/
def accessStorage (addr : Address) (key : Bytes32) : Host AccessStatus := do
  let host ← get
  let accounts ←
    if ← probing (host.accounts.contains addr) then pure host.accounts
    else probing (host.accounts.insert addr mockedAccountInit)
  set { host with accounts := accounts }
  let accIdx ← deref (← probing (accounts.lookupIdx addr))
  let acc ← deref ((accounts.at? accIdx).map (·.second))
  let storage ←
    if ← probing (acc.storage.contains key) then pure acc.storage
    else probing (acc.storage.insert key storageValueInit)
  set { host with accounts := accounts.setSecond accIdx { acc with storage := storage } }
  let svalue ← deref (← probing (storage.find key))
  let storage ← probing (storage.insertOrAssign key { svalue with accessStatus := .warm })
  set { host with accounts := accounts.setSecond accIdx { acc with storage := storage } }
  return svalue.accessStatus

end MockedHost

end TscVee
