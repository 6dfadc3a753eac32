import TscVee.Execution
import TscVee.Spec.Table

/-!
# `TscVee.Spec.Naive`: the interpreter that charges each instruction on its own

The source checks the gas and the stack once for a whole basic block. This is the interpreter it
stands for: it reads the opcode at its position in the bytecode, charges the base cost of that
opcode, checks its own stack requirement and the limit of 1024 items, and calls the same instruction
function. Nothing is computed in advance but the set of the jump destinations.

* `opAt`: the operation at a position, with the immediate bytes behind it; `naiveArg`: the argument
  that its instruction function gets, read from the code as a big-endian number.
* `naiveAnalysis`: the table that the jump functions look into. Positions of `JUMPDEST`s stand for
  themselves, so a jump returns a position of the code.
* `naiveCall`, `naiveStep`: one operation. The gas correction is zero, because the cost of the
  current block stays 0 and every stored cost is 0.
* `NaiveRuns`: what the interpreter reaches from the state that `execute` starts with.
-/

set_option autoImplicit false

namespace TscVee

open TscVee.Core Exec Lib

/-- The operation at a position of the code, or `none` behind its end. -/
def opAt (code : List Byte) (pc : Nat) : Option Op :=
  code[pc]?.map fun opcode => ⟨pc, opcode, (code.drop (pc + 1)).take (immSize opcode)⟩

/-- The positions of the jump destinations. -/
def jumpdestPositions (code : List Byte) : List Int :=
  ((decode code).filter Op.isJumpdest).map fun op => (op.pos : Int)

/-- What the jump functions look up: each jump destination is its own target. -/
def naiveAnalysis (code : List Byte) : CodeAnalysis where
  instrs := List.replicate code.length (instructionInitV none)
  pushValues := []
  jumpdestOffsets := jumpdestPositions code
  jumpdestTargets := jumpdestPositions code

/-- A number as four limbs. -/
def numberWord (n : Nat) : Uint256 :=
  ⟨⟨BitVec.ofNat 64 (n / 2 ^ 192), BitVec.ofNat 64 (n / 2 ^ 128)⟩,
    ⟨BitVec.ofNat 64 (n / 2 ^ 64), BitVec.ofNat 64 n⟩⟩

/-- The argument of the function for an operation: the immediate bytes as a number, or the
position. The stored cost is 0. -/
def naiveArg (code : List Byte) (op : Op) : InstructionArgument :=
  let number := pushNumber code op.pos (immSize op.opcode)
  if anySmallPush op.opcode then .smallPushValue (BitVec.ofNat 64 number)
  else if anyLargePush op.opcode then .pushValue (numberWord number)
  else if storesGasCost op.opcode then .number 0
  else if op.opcode = .pc then .number op.pos
  else .uninit

section
variable [Env]

/-- The checks in front of an operation. -/
def naiveCharge (info : OpTableEntry) (continue_ : Exec (Option Nat)) : Exec (Option Nat) := do
  subGas info.gasCost
  let astate ← get
  if astate.estate.gasLeft < 0 then exit .outOfGas
  else if astate.stackSize < info.stackReq then exit .stackUnderflow
  else if astate.stackSize + info.stackChange > 1024 then exit .stackOverflow
  else continue_

/-- The operation behind its checks. A `JUMPDEST` does nothing. The functions go on at the position
behind the opcode, so the immediate bytes are skipped here. -/
def naiveRun (rev : Revision) (code : List Byte) (op : Op) : Exec (Option Nat) :=
  if op.isJumpdest then return some (op.pos + 1)
  else
    match (opcodeInfo rev op.opcode).fn with
    | none => throw .unassignedFunction
    | some fn => do
      let next ← fn.call (naiveAnalysis code) op.pos (naiveArg code op)
      return next.map fun pc => pc + immSize op.opcode

/-- The operation at a position. Behind the code stands a `STOP`. -/
def naiveCall (rev : Revision) (code : List Byte) (pc : Nat) : Exec (Option Nat) :=
  match opAt code pc with
  | none => TscVee.opStop
  | some op => naiveCharge (opcodeInfo rev op.opcode) (naiveRun rev code op)

/-- One operation. The instruction pointer is a position of the code. -/
def naiveStep (rev : Revision) (code : List Byte) (n : Config) : Option Config :=
  match n.pc with
  | .at pc =>
    match naiveCall rev code pc n.astate with
    | .ok next astate => some ⟨Pc.ofPtr next, astate⟩
    | .error f astate => some ⟨.stuck f, astate⟩
  | _ => none

/-- A run of the naive interpreter, from the state that `execute` starts with. -/
def NaiveRuns (rev : Revision) (hostCtx : MockedHost) (msg : Message) (code : List Byte)
    (n : Config) : Prop :=
  Reaches (naiveStep rev code) (initialConfig rev hostCtx msg code) n

end

end TscVee
