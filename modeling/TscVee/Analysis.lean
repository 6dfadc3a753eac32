import TscVee.Instructions

/-!
# `TscVee.Analysis`: the analysed code and the instruction functions of `analysis.h`

An instruction pointer is an index into the instruction table, and the `NULL` pointer is `none`.
The table holds function pointers, and each of them is one of the functions `op_*` of the source,
so a function pointer is a name `InstrFn`, and `InstrFn.call` runs the function of that name.

The functions `op_*` run a core implementation and move the top of the stack by the height change
of their opcode. Four shapes cover most of them: `opCore`, `opCorrected`, `opTerminate`, and the
functions of the control flow.

`AdvancedExecutionState.exit` writes the status into a copy of the state and returns `NULL`. The
copy is dropped, so the state keeps its status. The field `handed`, which no function of the
source reads, records the status that was handed over.
-/

set_option autoImplicit false

namespace TscVee

open TscVee.Core

/-- `struct BlockInfo`. -/
structure BlockInfo where
  gasCost : Nat
  stackReq : Int
  stackMaxGrowth : Int
  deriving DecidableEq, Repr

/-- `BlockInfo_init`. -/
def blockInfoInit : BlockInfo := ⟨0, 0, 0⟩

/-- The functions that an instruction can point to. -/
inductive InstrFn
  | opAdd | opMul | opSub | opDiv | opSdiv | opMod | opSmod | opAddmod | opMulmod | opExp
  | opSignextend | opLt | opGt | opSlt | opSgt | opEq | opIszero | opAnd | opOr | opXor | opNot
  | opByte | opShl | opShr | opSar | opKeccak256 | opAddress | opBalance | opOrigin | opCaller
  | opCallvalue | opCalldataload | opCalldatasize | opCalldatacopy | opCodesize | opCodecopy
  | opGasprice | opExtcodesize | opExtcodecopy | opReturndatasize | opReturndatacopy
  | opExtcodehash | opBlockhash | opCoinbase | opTimestamp | opNumber | opDifficulty | opGaslimit
  | opChainid | opSelfbalance | opBasefee | opPop | opMload | opMstore | opMstore8 | opSload
  | opMsize | opPush0 | opLog0 | opLog1 | opLog2 | opLog3 | opLog4 | opDup (n : Nat)
  | opSwap (n : Nat) | opSstore | opCreate | opCall | opCallcode | opDelegatecall | opCreate2
  | opStaticcall | opReturn | opRevert | opSelfdestruct | opStop | opInvalid | opUndefined
  | opJump | opJumpi | opPc | opGas | opPushSmall | opPushFull | opxBeginblock
  deriving DecidableEq, Repr

/-- `union InstructionArgument`: the member that was written last. -/
inductive InstructionArgument
  | uninit
  | number (number : Int)
  | pushValue (value : Uint256)
  | smallPushValue (value : U64)
  | block (block : BlockInfo)
  deriving DecidableEq, Repr

/-- `struct Instruction`. -/
structure Instruction where
  fn : Option InstrFn
  arg : InstructionArgument
  deriving DecidableEq, Repr

/-- `Instrcution_init_v`. -/
def instructionInitV (fn : Option InstrFn) : Instruction := ⟨fn, .uninit⟩

/-- `struct CodeAnalysis`. -/
structure CodeAnalysis where
  instrs : List Instruction
  pushValues : List Uint256
  jumpdestOffsets : List Int
  jumpdestTargets : List Int
  deriving Repr

/-- `CodeAnalysis_init`. -/
def codeAnalysisInit : CodeAnalysis := ⟨[], [], [], []⟩

/-- `find_jumpdest`. There are as many targets as offsets. -/
def findJumpdest (analysis : CodeAnalysis) (offset : Int) : Int :=
  let it := lowerBound analysis.jumpdestOffsets offset
  if it ≠ analysis.jumpdestOffsets.length ∧ analysis.jumpdestOffsets.getD it 0 = offset then
    analysis.jumpdestTargets.getD it 0
  else -1

/-- `struct AdvancedExecutionState`, with the fields of its `struct Stack`. -/
structure AdvancedExecutionState where
  estate : ExecutionState
  topItem : Slot
  bottom : Slot
  currentBlockCost : Nat
  handed : Option StatusCode

/-- `AdvancedExecutionState_init_v` on zeroed memory. -/
def advancedExecutionStateInitV [Env] (message : Message) (revision : Revision)
    (hostCtx : MockedHost) (code : List Byte) : AdvancedExecutionState :=
  { estate := executionStateInitV message revision hostCtx code
    topItem := stackSpaceBottom
    bottom := stackSpaceBottom
    currentBlockCost := 0
    handed := none }

/-- `Stack_size`. -/
def AdvancedExecutionState.stackSize (astate : AdvancedExecutionState) : Int :=
  astate.topItem - astate.bottom

/-- An instruction function, or a part of one. -/
abbrev Exec (α : Type) := EStateM Fault AdvancedExecutionState α

namespace Exec

variable {α : Type}

/-- A core implementation is called on the inner state and returns a status, early or at its
end. -/
def callCore (core : Core StatusCode) : Exec StatusCode := fun astate =>
  match core astate.estate with
  | .ok status estate => .ok status { astate with estate := estate }
  | .error (.ret status) estate => .ok status { astate with estate := estate }
  | .error (.fault f) estate => .error f { astate with estate := estate }

/-- `AdvancedExecutionState_exit`. The status is written into a copy of `state->estate`. -/
def exit (statusCode : StatusCode) : Exec (Option Nat) := do
  modify fun astate => { astate with handed := some statusCode }
  return none

/-- `astate->stack.top_item += (*(traits + opcode)).stack_height_change` -/
def moveTop (change : Int) : Exec Unit :=
  modify fun astate => { astate with topItem := astate.topItem + change }

/-- `Stack_get`. -/
def stackGet (index : Int) : Exec Uint256 := do
  let p := (← get).topItem - index
  if ¬ inStackSpace p then throw .stackOutOfBounds
  return (← get).estate.stackSpace p

/-- `Stack_pop`. -/
def stackPop : Exec Uint256 := do
  let item ← stackGet 0
  moveTop (-1)
  return item

/-- `Stack_push`. -/
def stackPush (item : Uint256) : Exec Unit := do
  moveTop 1
  let p := (← get).topItem
  if ¬ inStackSpace p then throw .stackOutOfBounds
  modify fun astate =>
    { astate with
      estate := { astate.estate with
        stackSpace := fun q => if q = p then item else astate.estate.stackSpace q } }

/-- `state->gas_left -= cost` -/
def subGas (cost : Int) : Exec Unit := do
  let gas := (← get).estate.gasLeft - cost
  if ¬ isInt64 gas then throw .signedOverflow
  modify fun astate => { astate with estate := { astate.estate with gasLeft := gas } }

/-- The value of the gas counter that an instruction works with is logged. -/
def logGas (gas : Int) : Exec Unit :=
  modify fun astate =>
    { astate with estate := { astate.estate with trace := astate.estate.trace ++ [.gasSeen gas] } }

/-- `instr->arg.number` -/
def argNumber (arg : InstructionArgument) : Exec Int :=
  match arg with
  | .number n => pure n
  | _ => throw .wrongArgument

end Exec

open Exec

section
variable [Env]

/-! ### The shapes of instruction functions -/

/-- The core runs, the top moves, and a status other than success ends the run. A core without a
status always succeeds. -/
def opCore (opcode : Opcode) (core : StackTop → Core Unit) (instr : Nat) : Exec (Option Nat) := do
  let top := (← get).topItem
  let status ← callCore do
    core top
    return .success
  moveTop (traits opcode).stackHeightChange
  if status ≠ .success then exit status
  else return some (instr + 1)

/-- As `opCore`, with the gas counter set back, while the core runs, to what it would be if each
instruction had been charged on its own. -/
def opCorrected (opcode : Opcode) (core : StackTop → Core Unit) (instr : Nat)
    (arg : InstructionArgument) : Exec (Option Nat) := do
  let gasLeftCorrection := (← get).currentBlockCost - (← argNumber arg)
  subGas (-gasLeftCorrection)
  logGas (← get).estate.gasLeft
  let top := (← get).topItem
  let status ← callCore do
    core top
    return .success
  moveTop (traits opcode).stackHeightChange
  if status ≠ .success then exit status
  else
    subGas gasLeftCorrection
    if (← get).estate.gasLeft < 0 then exit .outOfGas
    else return some (instr + 1)

/-- The run ends with the status that the core returns. -/
def opTerminate (core : StackTop → Core StatusCode) : Exec (Option Nat) := do
  let top := (← get).topItem
  let status ← callCore (core top)
  exit status

/-! ### The instruction functions -/

def opStop : Exec (Option Nat) := opTerminate fun _ => stop

def opAdd : Nat → Exec (Option Nat) := opCore .add add

def opMul : Nat → Exec (Option Nat) := opCore .mul mul

def opSub : Nat → Exec (Option Nat) := opCore .sub sub

def opDiv : Nat → Exec (Option Nat) := opCore .div div

def opSdiv : Nat → Exec (Option Nat) := opCore .sdiv sdiv

def opMod : Nat → Exec (Option Nat) := opCore .mod mod

def opSmod : Nat → Exec (Option Nat) := opCore .smod smod

def opAddmod : Nat → Exec (Option Nat) := opCore .addmod addmod

def opMulmod : Nat → Exec (Option Nat) := opCore .mulmod mulmod

def opExp : Nat → Exec (Option Nat) := opCore .exp exp

def opSignextend : Nat → Exec (Option Nat) := opCore .signextend signextend

def opLt : Nat → Exec (Option Nat) := opCore .lt lt

def opGt : Nat → Exec (Option Nat) := opCore .gt gt

def opSlt : Nat → Exec (Option Nat) := opCore .slt slt

def opSgt : Nat → Exec (Option Nat) := opCore .sgt sgt

def opEq : Nat → Exec (Option Nat) := opCore .eq eq

def opIszero : Nat → Exec (Option Nat) := opCore .iszero iszero

def opAnd : Nat → Exec (Option Nat) := opCore .and and_

def opOr : Nat → Exec (Option Nat) := opCore .or or_

def opXor : Nat → Exec (Option Nat) := opCore .xor xor_

def opNot : Nat → Exec (Option Nat) := opCore .not not_

def opByte : Nat → Exec (Option Nat) := opCore .byte byte_

def opShl : Nat → Exec (Option Nat) := opCore .shl shl

def opShr : Nat → Exec (Option Nat) := opCore .shr shr

def opSar : Nat → Exec (Option Nat) := opCore .sar sar

def opKeccak256 : Nat → Exec (Option Nat) := opCore .keccak256 keccak256

def opAddress : Nat → Exec (Option Nat) := opCore .address address

def opBalance : Nat → Exec (Option Nat) := opCore .balance balance

def opOrigin : Nat → Exec (Option Nat) := opCore .origin origin

def opCaller : Nat → Exec (Option Nat) := opCore .caller caller

def opCallvalue : Nat → Exec (Option Nat) := opCore .callvalue callvalue

def opCalldataload : Nat → Exec (Option Nat) := opCore .calldataload calldataload

def opCalldatasize : Nat → Exec (Option Nat) := opCore .calldatasize calldatasize

def opCalldatacopy : Nat → Exec (Option Nat) := opCore .calldatacopy calldatacopy

def opCodesize : Nat → Exec (Option Nat) := opCore .codesize codesize

def opCodecopy : Nat → Exec (Option Nat) := opCore .codecopy codecopy

def opGasprice : Nat → Exec (Option Nat) := opCore .gasprice gasprice

def opExtcodesize : Nat → Exec (Option Nat) := opCore .extcodesize extcodesize

def opExtcodecopy : Nat → Exec (Option Nat) := opCore .extcodecopy extcodecopy

def opReturndatasize : Nat → Exec (Option Nat) := opCore .returndatasize returndatasize

def opReturndatacopy : Nat → Exec (Option Nat) := opCore .returndatacopy returndatacopy

def opExtcodehash : Nat → Exec (Option Nat) := opCore .extcodehash extcodehash

def opBlockhash : Nat → Exec (Option Nat) := opCore .blockhash blockhash

def opCoinbase : Nat → Exec (Option Nat) := opCore .coinbase coinbase

def opTimestamp : Nat → Exec (Option Nat) := opCore .timestamp timestamp

def opNumber : Nat → Exec (Option Nat) := opCore .number number

def opDifficulty : Nat → Exec (Option Nat) := opCore .difficulty difficulty

def opGaslimit : Nat → Exec (Option Nat) := opCore .gaslimit gaslimit

def opChainid : Nat → Exec (Option Nat) := opCore .chainid chainid

def opSelfbalance : Nat → Exec (Option Nat) := opCore .selfbalance selfbalance

def opBasefee : Nat → Exec (Option Nat) := opCore .basefee basefee

def opPop : Nat → Exec (Option Nat) := opCore .pop pop

def opMload : Nat → Exec (Option Nat) := opCore .mload mload

def opMstore : Nat → Exec (Option Nat) := opCore .mstore mstore

def opMstore8 : Nat → Exec (Option Nat) := opCore .mstore8 mstore8

def opSload : Nat → Exec (Option Nat) := opCore .sload sload

def opMsize : Nat → Exec (Option Nat) := opCore .msize msize

def opPush0 : Nat → Exec (Option Nat) := opCore .push0 push0

def opLog0 : Nat → Exec (Option Nat) := opCore .log0 log0

def opLog1 : Nat → Exec (Option Nat) := opCore .log1 log1

def opLog2 : Nat → Exec (Option Nat) := opCore .log2 log2

def opLog3 : Nat → Exec (Option Nat) := opCore .log3 log3

def opLog4 : Nat → Exec (Option Nat) := opCore .log4 log4

/-- `op_dup1` to `op_dup16`. -/
def opDup (n : Nat) : Nat → Exec (Option Nat) := opCore (.dup1 + BitVec.ofNat 8 (n - 1)) (dup n)

/-- `op_swap1` to `op_swap16`. -/
def opSwap (n : Nat) : Nat → Exec (Option Nat) :=
  opCore (.swap1 + BitVec.ofNat 8 (n - 1)) (swap n)

def opSstore : Nat → InstructionArgument → Exec (Option Nat) := opCorrected .sstore sstore

def opCreate : Nat → InstructionArgument → Exec (Option Nat) := opCorrected .create create

def opCall : Nat → InstructionArgument → Exec (Option Nat) := opCorrected .call call_

def opCallcode : Nat → InstructionArgument → Exec (Option Nat) := opCorrected .callcode callcode

def opDelegatecall : Nat → InstructionArgument → Exec (Option Nat) :=
  opCorrected .delegatecall delegatecall

def opCreate2 : Nat → InstructionArgument → Exec (Option Nat) := opCorrected .create2 create2

def opStaticcall : Nat → InstructionArgument → Exec (Option Nat) :=
  opCorrected .staticcall staticcall

def opReturn : Exec (Option Nat) := opTerminate return_

def opRevert : Exec (Option Nat) := opTerminate revert

def opSelfdestruct : Exec (Option Nat) := opTerminate selfdestruct

def opInvalid : Exec (Option Nat) := opTerminate fun _ => invalid

/-- The status is handed over without a core. -/
def opUndefined : Exec (Option Nat) := exit .undefinedInstruction

/-- The destination is narrowed to `int`. `cvec_instr_at_mut` asserts its index. -/
def opJump (analysis : CodeAnalysis) : Exec (Option Nat) := do
  let dst ← stackPop
  let pc := findJumpdest analysis (toInt32 dst.low)
  if pc < 0 then exit .badJumpDestination
  else
    if ¬ pc.toNat < analysis.instrs.length then throw .assertFailed
    return some pc.toNat

/-- The condition is below the destination. Both are popped in either case. -/
def opJumpi (analysis : CodeAnalysis) (instr : Nat) : Exec (Option Nat) := do
  let tmp ← stackGet 1
  let next ←
    if !zero256 tmp then opJump analysis
    else do
      let _ ← stackPop
      pure (some (instr + 1))
  let _ ← stackPop
  return next

/-- The position is in the argument. -/
def opPc (instr : Nat) (arg : InstructionArgument) : Exec (Option Nat) := do
  stackPush (int64Word (← argNumber arg))
  return some (instr + 1)

/-- The gas is corrected by what the block has been charged for the instructions behind. -/
def opGas (instr : Nat) (arg : InstructionArgument) : Exec (Option Nat) := do
  let correction := (← get).currentBlockCost - (← argNumber arg)
  let gas := (← get).estate.gasLeft + correction
  logGas gas
  stackPush (int64Word gas)
  return some (instr + 1)

/-- A value of up to eight bytes is in the argument. -/
def opPushSmall (instr : Nat) (arg : InstructionArgument) : Exec (Option Nat) := do
  match arg with
  | .smallPushValue value => stackPush (.ofU64 value)
  | _ => throw .wrongArgument
  return some (instr + 1)

/-- A larger value is in the table of push values. -/
def opPushFull (instr : Nat) (arg : InstructionArgument) : Exec (Option Nat) := do
  match arg with
  | .pushValue value => stackPush value
  | _ => throw .wrongArgument
  return some (instr + 1)

/-- `opx_beginblock`: the whole block is charged and checked. -/
def opxBeginblock (instr : Nat) (arg : InstructionArgument) : Exec (Option Nat) := do
  match arg with
  | .block block =>
    subGas block.gasCost
    let astate ← get
    if astate.estate.gasLeft < 0 then exit .outOfGas
    else if astate.stackSize < block.stackReq then exit .stackUnderflow
    else if astate.stackSize + block.stackMaxGrowth > 1024 then exit .stackOverflow
    else
      set { astate with currentBlockCost := block.gasCost }
      return some (instr + 1)
  | _ => throw .wrongArgument

/-- The call through a function pointer. -/
def InstrFn.call (analysis : CodeAnalysis) (instr : Nat) (arg : InstructionArgument) :
    InstrFn → Exec (Option Nat)
  | .opAdd => TscVee.opAdd instr
  | .opMul => TscVee.opMul instr
  | .opSub => TscVee.opSub instr
  | .opDiv => TscVee.opDiv instr
  | .opSdiv => TscVee.opSdiv instr
  | .opMod => TscVee.opMod instr
  | .opSmod => TscVee.opSmod instr
  | .opAddmod => TscVee.opAddmod instr
  | .opMulmod => TscVee.opMulmod instr
  | .opExp => TscVee.opExp instr
  | .opSignextend => TscVee.opSignextend instr
  | .opLt => TscVee.opLt instr
  | .opGt => TscVee.opGt instr
  | .opSlt => TscVee.opSlt instr
  | .opSgt => TscVee.opSgt instr
  | .opEq => TscVee.opEq instr
  | .opIszero => TscVee.opIszero instr
  | .opAnd => TscVee.opAnd instr
  | .opOr => TscVee.opOr instr
  | .opXor => TscVee.opXor instr
  | .opNot => TscVee.opNot instr
  | .opByte => TscVee.opByte instr
  | .opShl => TscVee.opShl instr
  | .opShr => TscVee.opShr instr
  | .opSar => TscVee.opSar instr
  | .opKeccak256 => TscVee.opKeccak256 instr
  | .opAddress => TscVee.opAddress instr
  | .opBalance => TscVee.opBalance instr
  | .opOrigin => TscVee.opOrigin instr
  | .opCaller => TscVee.opCaller instr
  | .opCallvalue => TscVee.opCallvalue instr
  | .opCalldataload => TscVee.opCalldataload instr
  | .opCalldatasize => TscVee.opCalldatasize instr
  | .opCalldatacopy => TscVee.opCalldatacopy instr
  | .opCodesize => TscVee.opCodesize instr
  | .opCodecopy => TscVee.opCodecopy instr
  | .opGasprice => TscVee.opGasprice instr
  | .opExtcodesize => TscVee.opExtcodesize instr
  | .opExtcodecopy => TscVee.opExtcodecopy instr
  | .opReturndatasize => TscVee.opReturndatasize instr
  | .opReturndatacopy => TscVee.opReturndatacopy instr
  | .opExtcodehash => TscVee.opExtcodehash instr
  | .opBlockhash => TscVee.opBlockhash instr
  | .opCoinbase => TscVee.opCoinbase instr
  | .opTimestamp => TscVee.opTimestamp instr
  | .opNumber => TscVee.opNumber instr
  | .opDifficulty => TscVee.opDifficulty instr
  | .opGaslimit => TscVee.opGaslimit instr
  | .opChainid => TscVee.opChainid instr
  | .opSelfbalance => TscVee.opSelfbalance instr
  | .opBasefee => TscVee.opBasefee instr
  | .opPop => TscVee.opPop instr
  | .opMload => TscVee.opMload instr
  | .opMstore => TscVee.opMstore instr
  | .opMstore8 => TscVee.opMstore8 instr
  | .opSload => TscVee.opSload instr
  | .opMsize => TscVee.opMsize instr
  | .opPush0 => TscVee.opPush0 instr
  | .opLog0 => TscVee.opLog0 instr
  | .opLog1 => TscVee.opLog1 instr
  | .opLog2 => TscVee.opLog2 instr
  | .opLog3 => TscVee.opLog3 instr
  | .opLog4 => TscVee.opLog4 instr
  | .opDup n => TscVee.opDup n instr
  | .opSwap n => TscVee.opSwap n instr
  | .opSstore => TscVee.opSstore instr arg
  | .opCreate => TscVee.opCreate instr arg
  | .opCall => TscVee.opCall instr arg
  | .opCallcode => TscVee.opCallcode instr arg
  | .opDelegatecall => TscVee.opDelegatecall instr arg
  | .opCreate2 => TscVee.opCreate2 instr arg
  | .opStaticcall => TscVee.opStaticcall instr arg
  | .opReturn => TscVee.opReturn
  | .opRevert => TscVee.opRevert
  | .opSelfdestruct => TscVee.opSelfdestruct
  | .opStop => TscVee.opStop
  | .opInvalid => TscVee.opInvalid
  | .opUndefined => TscVee.opUndefined
  | .opJump => TscVee.opJump analysis
  | .opJumpi => TscVee.opJumpi analysis instr
  | .opPc => TscVee.opPc instr arg
  | .opGas => TscVee.opGas instr arg
  | .opPushSmall => TscVee.opPushSmall instr arg
  | .opPushFull => TscVee.opPushFull instr arg
  | .opxBeginblock => TscVee.opxBeginblock instr arg

end

/-! ### The op table -/

/-- A function for each opcode from `first` on, `count` of them. -/
def fnRange (first : Opcode) (count : Nat) (fn : Nat → InstrFn) : List (Opcode × InstrFn) :=
  (List.range count).map fun i => (first + BitVec.ofNat 8 i, fn i)

/-- `InstructionFnTable_init`. The entry of `JUMPDEST` is overwritten by `opx_beginblock` at the
end. -/
def instructionFnTable : List (Opcode × InstrFn) :=
  ([(.stop, .opStop), (.add, .opAdd), (.mul, .opMul), (.sub, .opSub), (.div, .opDiv),
     (.sdiv, .opSdiv), (.mod, .opMod), (.smod, .opSmod), (.addmod, .opAddmod), (.mulmod, .opMulmod),
     (.exp, .opExp), (.signextend, .opSignextend), (.lt, .opLt), (.gt, .opGt), (.slt, .opSlt),
     (.sgt, .opSgt), (.eq, .opEq), (.iszero, .opIszero), (.and, .opAnd), (.or, .opOr),
     (.xor, .opXor), (.not, .opNot), (.byte, .opByte), (.shl, .opShl), (.shr, .opShr),
     (.sar, .opSar), (.keccak256, .opKeccak256), (.address, .opAddress), (.balance, .opBalance),
     (.origin, .opOrigin), (.caller, .opCaller), (.callvalue, .opCallvalue),
     (.calldataload, .opCalldataload), (.calldatasize, .opCalldatasize),
     (.calldatacopy, .opCalldatacopy), (.codesize, .opCodesize), (.codecopy, .opCodecopy),
     (.gasprice, .opGasprice), (.extcodesize, .opExtcodesize), (.extcodecopy, .opExtcodecopy),
     (.returndatasize, .opReturndatasize), (.returndatacopy, .opReturndatacopy),
     (.extcodehash, .opExtcodehash), (.blockhash, .opBlockhash), (.coinbase, .opCoinbase),
     (.timestamp, .opTimestamp), (.number, .opNumber), (.difficulty, .opDifficulty),
     (.gaslimit, .opGaslimit), (.chainid, .opChainid), (.selfbalance, .opSelfbalance),
     (.basefee, .opBasefee), (.pop, .opPop), (.mload, .opMload), (.mstore, .opMstore),
     (.mstore8, .opMstore8), (.sload, .opSload), (.sstore, .opSstore), (.jump, .opJump),
     (.jumpi, .opJumpi), (.pc, .opPc), (.msize, .opMsize), (.gas, .opGas),
     (.push0, .opPush0)] : List (Opcode × InstrFn)) ++
  fnRange .push1 8 (fun _ => .opPushSmall) ++ fnRange .push9 24 (fun _ => .opPushFull) ++
  fnRange .dup1 16 (fun i => .opDup (i + 1)) ++ fnRange .swap1 16 (fun i => .opSwap (i + 1)) ++
  ([(.log0, .opLog0), (.log1, .opLog1), (.log2, .opLog2), (.log3, .opLog3), (.log4, .opLog4),
     (.create, .opCreate), (.call, .opCall), (.callcode, .opCallcode), (.return_, .opReturn),
     (.delegatecall, .opDelegatecall), (.create2, .opCreate2), (.staticcall, .opStaticcall),
     (.revert, .opRevert), (.invalid, .opInvalid), (.selfdestruct, .opSelfdestruct),
     (.jumpdest, .opxBeginblock)] : List (Opcode × InstrFn))

/-- `OPX_BEGINBLOCK`. -/
abbrev opxBeginblockOpcode : Opcode := .jumpdest

/-- `struct OpTableEntry`. -/
structure OpTableEntry where
  fn : Option InstrFn
  gasCost : Int
  stackReq : Int
  stackChange : Int
  deriving DecidableEq, Repr

/-- `get_op_table(rev).table[opcode]`. The two stack fields of an undefined opcode are not
written, and the function pointer of an opcode that `InstructionFnTable_init` does not mention is
unassigned. -/
def getOpTable [Env] (rev : Revision) (opcode : Opcode) : OpTableEntry :=
  let gasCost := gasCosts rev opcode
  if gasCost = -1 then
    { fn := some .opUndefined
      gasCost := 0
      stackReq := (Env.opTableEntry opcode).1.toInt
      stackChange := (Env.opTableEntry opcode).2.toInt }
  else
    { fn := instructionFnTable.lookup opcode
      gasCost := gasCost
      stackReq := (traits opcode).stackHeightRequired
      stackChange := (traits opcode).stackHeightChange }

end TscVee
