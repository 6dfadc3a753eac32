import TscVee.AnalysisImpl
import TscVee.Lib.Transition

/-!
# `TscVee.Execution`: the interpreter loop of `execution.h`

A configuration of the loop is the instruction pointer and the state. `stepInstr` is one round
`instr = instr->fn(instr, astate)`. The loop ends when the pointer is `NULL`, and it is stuck after
a step that C does not define. `Executes` is the whole of `execute`: analysis, loop and result.
-/

set_option autoImplicit false

namespace TscVee

open Lib

/-- The instruction pointer. -/
inductive Pc
  /-- A pointer to the instruction at an index of the table. -/
  | at (instr : Nat)
  /-- `NULL`. -/
  | null
  /-- The last step is not defined. -/
  | stuck (f : Fault)
  deriving DecidableEq, Repr

/-- The pointer that an instruction function returns. -/
def Pc.ofPtr : Option Nat → Pc
  | some i => .at i
  | none => .null

/-- A configuration of the interpreter loop. -/
structure Config where
  pc : Pc
  astate : AdvancedExecutionState

section
variable [Env]

/-- `instr = instr->fn(instr, astate)` for the instruction at the index `instr`. -/
def callInstr (analysis : CodeAnalysis) (instr : Nat) : Exec (Option Nat) :=
  match analysis.instrs[instr]? with
  | none => throw .instrOutOfBounds
  | some ins =>
    match ins.fn with
    | none => throw .unassignedFunction
    | some fn => fn.call analysis instr ins.arg

/-- One round of the loop. -/
def stepInstr (analysis : CodeAnalysis) (c : Config) : Option Config :=
  match c.pc with
  | .at instr =>
    match callInstr analysis instr c.astate with
    | .ok next astate => some ⟨Pc.ofPtr next, astate⟩
    | .error f astate => some ⟨.stuck f, astate⟩
  | _ => none

/-- The loop starts at the first instruction. -/
def startConfig (astate : AdvancedExecutionState) : Config := ⟨.at 0, astate⟩

/-- `evmc_make_result`. -/
def evmcMakeResult (statusCode : StatusCode) (gasLeft : Int) (outputOffset outputSize : Nat) :
    Core Result := do
  if outputSize ≠ 0 then
    if !Env.allocates (← Core.nextFresh) outputSize then
      return { evmcResultInit with statusCode := .outOfMemory }
  let output ← Core.readMemory outputOffset outputSize
  return { evmcResultInit with
    statusCode := statusCode, gasLeft := gasLeft, outputData := output
    outputSize := outputSize }

/-- The end of `execute_analyzed_code`. The gas passes through a `size_t` unchanged. -/
def makeResult : Core Result := do
  let state ← get
  let gasLeft :=
    if state.status = .success ∨ state.status = .revert then state.gasLeft else 0
  if ¬ (state.outputSize ≠ 0 ∨ state.outputOffset = 0) then Core.fault .assertFailed
  evmcMakeResult state.status gasLeft state.outputOffset state.outputSize

/-- The state that `execute` starts the loop with. -/
def initialState (rev : Revision) (hostCtx : MockedHost) (msg : Message) (code : List Byte) :
    AdvancedExecutionState := advancedExecutionStateInitV msg rev hostCtx code

/-- The configuration that `execute` starts the loop with. -/
def initialConfig (rev : Revision) (hostCtx : MockedHost) (msg : Message) (code : List Byte) :
    Config := startConfig (initialState rev hostCtx msg code)

/-- A run of the loop of `execute_analyzed_code` on the analysis of the code. -/
def Runs (rev : Revision) (hostCtx : MockedHost) (msg : Message) (code : List Byte)
    (analysis : CodeAnalysis) (c : Config) : Prop :=
  analyze rev code = .ok analysis ∧
    Reaches (stepInstr analysis) (initialConfig rev hostCtx msg code) c

/-- `execute` returns the result `r` and leaves the state `s`: the loop reaches `NULL` and the
result is made from the state there. -/
def Executes (rev : Revision) (hostCtx : MockedHost) (msg : Message) (code : List Byte)
    (r : Result) (s : AdvancedExecutionState) : Prop :=
  ∃ analysis c estate, Runs rev hostCtx msg code analysis c ∧ c.pc = .null ∧
    makeResult c.astate.estate = .ok r estate ∧ s = { c.astate with estate := estate }

end

end TscVee
