import TscVee.Analysis

/-!
# `TscVee.AnalysisImpl`: the code analysis of `analysis_impl.h`

`analyze` walks over the bytecode once. It translates each opcode but `JUMPDEST` to an
instruction, sums up the base gas and the stack needs of the current block, and closes the block
behind a terminator or in front of a `JUMPDEST`: the summary goes into the `BEGINBLOCK`
instruction that starts the block, and a new `BEGINBLOCK` follows.

`analyzeStep` is one round of the loop, and `analyzeLoop` runs it on fuel. Each round takes a
byte off the code, so the length of the code is enough fuel.

The stack figures of a block are `int` and wrap as gcc compiles them. The gas figure is an
`int64_t` that no code in memory can overflow.
-/

set_option autoImplicit false

namespace TscVee

/-- `struct BlockAnalysis`. -/
structure BlockAnalysis where
  gasCost : Int
  stackReq : Int
  stackMaxGrowth : Int
  stackChange : Int
  beginBlockIndex : Nat
  deriving DecidableEq, Repr

/-- `BlockAnalysis_init_v`. -/
def blockAnalysisInitV (index : Nat) : BlockAnalysis := ⟨0, 0, 0, 0, index⟩

/-- A value converted to `int16_t`. -/
def toInt16 (x : Int) : Int := x.bmod (2 ^ 16)

/-- A value converted to `uint32_t`. -/
def toUint32 (x : Int) : Nat := (x % 2 ^ 32).toNat

/-- `BlockAnalysis_close`. Each figure is narrowed before it is compared with the limit of the
narrow type. -/
def BlockAnalysis.close (ba : BlockAnalysis) : BlockInfo :=
  { gasCost := if toUint32 ba.gasCost ≤ 2 ^ 32 - 1 then toUint32 ba.gasCost else 2 ^ 32 - 1
    stackReq := if toInt16 ba.stackReq ≤ 2 ^ 15 - 1 then toInt16 ba.stackReq else 2 ^ 15 - 1
    stackMaxGrowth :=
      if toInt16 ba.stackMaxGrowth ≤ 2 ^ 15 - 1 then toInt16 ba.stackMaxGrowth else 2 ^ 15 - 1 }

/-- The state of the loop in `analyze`: the analysis so far, the current block, the offset
`code_pos - code_begin` and the code from there to `code_end`. -/
structure AnalyzeState where
  analysis : CodeAnalysis
  block : BlockAnalysis
  codePos : Nat
  rest : List Byte
  deriving Repr

/-- The block figures after an opcode. -/
def BlockAnalysis.count (block : BlockAnalysis) (info : OpTableEntry) : BlockAnalysis :=
  let stackReq := max block.stackReq (toInt32 (info.stackReq - block.stackChange))
  let stackChange := toInt32 (block.stackChange + info.stackChange)
  { block with
    stackReq := stackReq
    stackChange := stackChange
    stackMaxGrowth := max block.stackMaxGrowth stackChange
    gasCost := block.gasCost + info.gasCost }

/-- `case ANY_SMALL_PUSH`. -/
def anySmallPush (opcode : Opcode) : Bool := decide (Opcode.push1 ≤ opcode ∧ opcode ≤ .push8)

/-- `case ANY_LARGE_PUSH`. -/
def anyLargePush (opcode : Opcode) : Bool := decide (Opcode.push9 ≤ opcode ∧ opcode ≤ .push32)

/-- `(size_t)(opcode - OP_PUSH1) + 1` -/
def pushSize (opcode : Opcode) : Nat := opcode.toNat - Opcode.push1.toNat + 1

/-- The cases of the `switch` that set `is_terminator`. -/
def isTerminator (opcode : Opcode) : Bool :=
  opcode ∈ [Opcode.jump, .jumpi, .stop, .return_, .revert, .selfdestruct]

/-- The cases of the `switch` that store the gas cost of the block so far. -/
def storesGasCost (opcode : Opcode) : Bool :=
  opcode ∈ [Opcode.gas, .call, .callcode, .delegatecall, .staticcall, .create, .create2, .sstore]

/-- The loop of a small push: `value |= (uint64_t)*((code_pos++)) << insert_bit_pos`. -/
def smallPushValue : List Byte → Nat → U64 → U64
  | [], _, value => value
  | b :: bytes, insertBitPos, value =>
    smallPushValue bytes (insertBitPos - 8) (value ||| b.setWidth 64 <<< insertBitPos)

/-- The buffer of a large push: the bytes lie at its end, and missing ones are zero. -/
def largePushBuffer (size : Nat) (bytes : List Byte) (i : Nat) : Byte :=
  if i < 32 - size then 0 else buffer bytes (i - (32 - size))

/-- `cvec_back(&v)->arg = arg` -/
def setLastArg (instrs : List Instruction) (arg : InstructionArgument) : List Instruction :=
  instrs.modify (instrs.length - 1) fun ins => { ins with arg := arg }

/-- The `switch` on the opcode: the argument of the last instruction, the pushed values, and how
many bytes the opcode takes from the code behind it. `codePos` is the offset behind the
opcode. -/
def analyzeSwitch (opcode : Opcode) (gasCost : Int) (codePos : Nat) (rest : List Byte)
    (analysis : CodeAnalysis) : CodeAnalysis × Nat :=
  if anySmallPush opcode then
    let bytes := rest.take (pushSize opcode)
    let value := smallPushValue bytes ((pushSize opcode - 1) * 8) 0
    ({ analysis with instrs := setLastArg analysis.instrs (.smallPushValue value) },
      bytes.length)
  else if anyLargePush opcode then
    let bytes := rest.take (pushSize opcode)
    let value := readu256BE (largePushBuffer (pushSize opcode) bytes)
    ({ analysis with
        instrs := setLastArg analysis.instrs (.pushValue value)
        pushValues := analysis.pushValues ++ [value] }, bytes.length)
  else if storesGasCost opcode then
    ({ analysis with instrs := setLastArg analysis.instrs (.number gasCost) }, 0)
  else if opcode = .pc then
    ({ analysis with instrs := setLastArg analysis.instrs (.number ((codePos : Int) - 1)) }, 0)
  else (analysis, 0)

/-- The current block is saved: its summary goes into its `BEGINBLOCK`. -/
def saveBlock (instrs : List Instruction) (block : BlockAnalysis) : List Instruction :=
  instrs.modify block.beginBlockIndex fun ins => { ins with arg := .block block.close }

section
variable [Env]

/-- `op_tbl.table[opcode]`, with the special case of the opcode 247. -/
def opcodeInfo (rev : Revision) (opcode : Opcode) : OpTableEntry :=
  if opcode.toNat = 247 then
    { getOpTable rev opcode with stackReq := 0, stackChange := 0, gasCost := 0 }
  else getOpTable rev opcode

/-- `opx_beginblock_fn`. -/
def opxBeginblockFn (rev : Revision) : Option InstrFn := (getOpTable rev opxBeginblockOpcode).fn

/-- One round of the loop, for the byte `opcode` in front of `rest`. -/
def analyzeStep (rev : Revision) (st : AnalyzeState) (opcode : Opcode) (rest : List Byte) :
    AnalyzeState :=
  let codePos := st.codePos + 1
  let info := opcodeInfo rev opcode
  let block := st.block.count info
  let analysis := st.analysis
  let analysis :=
    if opcode = .jumpdest then
      { analysis with
        jumpdestOffsets := analysis.jumpdestOffsets ++ [toInt32 ((codePos : Int) - 1)]
        jumpdestTargets :=
          analysis.jumpdestTargets ++ [toInt32 ((analysis.instrs.length : Int) - 1)] }
    else { analysis with instrs := analysis.instrs ++ [instructionInitV info.fn] }
  let (analysis, taken) := analyzeSwitch opcode block.gasCost codePos rest analysis
  let codePos := codePos + taken
  let rest := rest.drop taken
  if isTerminator opcode ∨ rest.head? = some Opcode.jumpdest then
    let instrs := saveBlock analysis.instrs block ++ [instructionInitV (opxBeginblockFn rev)]
    { analysis := { analysis with instrs := instrs }
      block := blockAnalysisInitV (instrs.length - 1)
      codePos := codePos
      rest := rest }
  else { analysis := analysis, block := block, codePos := codePos, rest := rest }

/-- `while (code_pos != code_end)` -/
def analyzeLoop (rev : Revision) : Nat → AnalyzeState → AnalyzeState
  | 0, st => st
  | fuel + 1, st =>
    match st.rest with
    | [] => st
    | opcode :: rest => analyzeLoop rev fuel (analyzeStep rev st opcode rest)

/-- The state before the loop: one block without instructions. -/
def analyzeInit (rev : Revision) (code : List Byte) : AnalyzeState :=
  { analysis := { codeAnalysisInit with instrs := [instructionInitV (opxBeginblockFn rev)] }
    block := blockAnalysisInitV 0
    codePos := 0
    rest := code }

/-- `analyze` without its last assertion. -/
def analyzeCode (rev : Revision) (code : List Byte) : CodeAnalysis :=
  let st := analyzeLoop rev code.length (analyzeInit rev code)
  { st.analysis with
    instrs := saveBlock st.analysis.instrs st.block ++
      [instructionInitV (getOpTable rev .stop).fn] }

/-- `max_args_storage_size`, an `int`, converted to `size_t` in the comparison with the number of
push values. -/
def maxArgsStorageSize (code : List Byte) : Nat :=
  (toInt32 ((code.length : Int) + 1) % 2 ^ 64).toNat

/-- `analyze`. -/
def analyze (rev : Revision) (code : List Byte) : Except Fault CodeAnalysis :=
  let analysis := analyzeCode rev code
  if analysis.pushValues.length ≤ maxArgsStorageSize code then .ok analysis
  else .error .assertFailed

end

end TscVee
