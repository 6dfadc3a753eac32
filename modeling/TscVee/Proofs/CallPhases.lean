import TscVee.Proofs.CoreRules
import TscVee.Proofs.Words

/-!
# `TscVee.Proofs.CallPhases`: a call instruction in four phases

A call instruction prepares its message, pays for the value, computes the gas of the message, and
calls the host. `CallInstr.core_eq` splits each of the four instructions into these phases:

* `CallInstr.prepare`: the operands, the pushed 0, the account access, the two memory checks and the
  message.
* `CallInstr.charge`: the cost of the value and of a new account.
* `CallInstr.gift`: the gas for the callee, with the stipend.
* `callHost`: depth and balance, which `admitCall` checks, and the call.

`CallInstr.toHost` is the instruction up to the call, and `CallInstr.core_eq_toHost` what follows.
-/

set_option autoImplicit false

namespace TscVee

open TscVee.Core Lib

/-- The call instructions. -/
inductive CallInstr
  | call | callcode | delegatecall | staticcall
  deriving DecidableEq, Repr

namespace CallInstr

/-- The value is an operand on the stack. -/
def hasValueOperand : CallInstr → Bool
  | .call | .callcode => true
  | .delegatecall | .staticcall => false

/-- The slot of the input offset. The input size, the output offset and the output size lie
below. -/
def base (i : CallInstr) (top : StackTop) : Slot :=
  if i.hasValueOperand then top - 3 else top - 2

/-- The callee's address, which is the second operand. -/
def dst (top : StackTop) (s : ExecutionState) : Address := u256ToU8_20 (s.stackSpace (top - 1))

/-- The value operand, or 0. -/
def value (i : CallInstr) (top : StackTop) (s : ExecutionState) : Uint256 :=
  if i.hasValueOperand then s.stackSpace (top - 2) else .zero

/-- The fields of the message other than depth, input and gas. -/
def message (i : CallInstr) (state : ExecutionState) (dst : Address) (value : Uint256)
    (msg : Message) : Message :=
  match i with
  | .call =>
      { msg with
        kind := .call, flags := state.msg.flags, recipient := dst, codeAddress := dst,
        sender := state.msg.recipient, value := u256ToU8_32 value }
  | .callcode =>
      { msg with
        kind := .callcode, flags := state.msg.flags, recipient := state.msg.recipient,
        codeAddress := dst, sender := state.msg.recipient, value := u256ToU8_32 value }
  | .delegatecall =>
      { msg with
        kind := .delegatecall, flags := state.msg.flags, recipient := state.msg.recipient,
        codeAddress := dst, sender := state.msg.sender, value := state.msg.value }
  | .staticcall =>
      { msg with
        kind := .call, flags := evmcStatic, recipient := dst, codeAddress := dst,
        sender := state.msg.recipient, value := u256ToU8_32 value }

/-- The check and the cost that only `CALL` has. -/
def extraCost (i : CallInstr) (hasValue : Bool) (dst : Address) : Core Int :=
  match i with
  | .call => do
      if hasValue ∧ executionStateInStaticMode (← get) then ret .staticModeViolation
      if hasValue ∨ ¬ (← read (·.rev)) ≥ .spuriousDragon then
        if !(← ask (.accountExists dst)) then return 25000
      return 0
  | _ => pure 0

/-- The variant of `callVariant` that the instruction is. -/
def variant (i : CallInstr) : CallVariant :=
  { hasValueOperand := i.hasValueOperand, message := i.message, extraCost := i.extraCost }

/-- The slots behind one another, as `StackTop_pop` and `StackTop_push` go through them. -/
theorem slots_eq (p : Int) : p - 1 - 1 = p - 2 ∧ p - 2 - 1 = p - 3 ∧ p - 3 - 1 + 1 = p - 3 := by
  omega

variable [Env]

/-- The implementation. -/
def core : CallInstr → StackTop → Core Unit
  | .call => call_
  | .callcode => TscVee.callcode
  | .delegatecall => TscVee.delegatecall
  | .staticcall => TscVee.staticcall

/-- The four bodies are one, with the variant for a parameter. -/
theorem core_eq_callVariant (i : CallInstr) : i.core = callVariant i.variant := by
  cases i <;> rfl

/-! ### The phases -/

/-- From the push of the 0 to the message. -/
def messageAt (i : CallInstr) (dst : Address) (value : Uint256) (base : Slot) : Core Message := do
  store (base - 3) .zero
  chargeColdAccount dst additionalColdAccountAccessCost
  requireMemoryU256 (← load base) (← load (base - 1))
  requireMemoryU256 (← load (base - 2)) (← load (base - 3))
  callMessage i.variant dst value base (base - 1)

/-- The value operand, or 0. -/
def loadValue (i : CallInstr) (top : StackTop) : Core Uint256 :=
  if i.hasValueOperand then load (top - 2) else pure .zero

/-- The operands and the message. -/
def prepare (i : CallInstr) (top : StackTop) : Core (Address × Uint256 × Message) := do
  let dst := u256ToU8_20 (← load (top - 1))
  let value ← i.loadValue top
  return (dst, value, ← i.messageAt dst value (i.base top))

/-- What the value and a new account cost. `has_value` is true when the value is zero. -/
def charge (i : CallInstr) (dst : Address) (value : Uint256) : Core Unit := do
  let extraCost ← i.extraCost (zero256 value) dst
  chargeGas ((if zero256 value then 9000 else 0) + extraCost)

/-- The gas of the message. -/
def gift (top : StackTop) (value : Uint256) : Core Int := do
  addStipend (zero256 value) (← callGas top)

/-- The phases of a call, in their order. -/
theorem callWith_eq (i : CallInstr) (gas base : Slot) (dst : Address) (value : Uint256) :
    callWith i.variant gas dst value base = (do
      let msg ← i.messageAt dst value base
      i.charge dst value
      let msgGas ← gift gas value
      callHost (zero256 value) value { msg with gas := msgGas } (base - 3) (base - 2) (base - 3))
      := by
  simp only [callWith, messageAt, charge, gift, StackTop.pop, StackTop.push, bind_assoc, pure_bind,
    slots_eq, variant]

/-- The four phases of a call instruction. -/
theorem core_eq (i : CallInstr) (top : StackTop) :
    i.core top = (do
      let (dst, value, msg) ← i.prepare top
      i.charge dst value
      let msgGas ← gift top value
      callHost (zero256 value) value { msg with gas := msgGas } (i.base top - 3) (i.base top - 2)
        (i.base top - 3)) := by
  rw [core_eq_callVariant]
  unfold callVariant prepare loadValue base
  simp only [StackTop.pop, bind_assoc, pure_bind, callWith_eq, slots_eq]
  cases h : i.hasValueOperand <;> simp [variant, h]

/-! ### Up to the call -/

/-- Depth and balance allow the call. -/
def admitCall (hasValue : Bool) (value : Uint256) : Core Bool := do
  modify fun s => { s with returnData := none }
  let stateMsg ← read (·.msg)
  if stateMsg.depth ≥ 1024 then return false
  let b ← ask (.getBalance stateMsg.recipient)
  return !(hasValue && gt256 value (readu256BE (bytesAt b)))

/-- The message that the instruction hands to the host, if it calls it. -/
def toHost (i : CallInstr) (top : StackTop) : Core (Option Message) := do
  let (dst, value, msg) ← i.prepare top
  i.charge dst value
  let msgGas ← gift top value
  let admitted ← admitCall (zero256 value) value
  return if admitted then some { msg with gas := msgGas } else none

omit [Env] in
/-- The call of the host, as an admission, a request and what is made of the answer. -/
theorem callHost_eq (hasValue : Bool) (value : Uint256) (msg : Message) (stack : StackTop)
    (outputOffset outputSize : Slot) :
    callHost hasValue value msg stack outputOffset outputSize = (do
      if ← admitCall hasValue value then
        let result ← ask (.call msg)
        takeCallResult stack outputOffset outputSize result
        subGas (← int64 (msg.gas - result.gasLeft))
      else return ()) := by
  unfold callHost admitCall
  simp only [bind_assoc]
  refine bind_congr fun _ => bind_congr fun stateMsg => ?_
  by_cases hdepth : stateMsg.depth ≥ 1024
  · simp [hdepth]
  · simp only [hdepth, if_false, pure_bind, bind_assoc]
    refine bind_congr fun b => ?_
    cases hasValue && gt256 value (readu256BE (bytesAt b)) <;> simp

/-- The instruction up to the call, and behind it. -/
theorem core_eq_toHost (i : CallInstr) (top : StackTop) :
    i.core top = (do
      match ← i.toHost top with
      | none => return ()
      | some msg =>
        let result ← ask (.call msg)
        takeCallResult (i.base top - 3) (i.base top - 2) (i.base top - 3) result
        subGas (← int64 (msg.gas - result.gasLeft))) := by
  rw [core_eq]
  unfold toHost
  simp only [bind_assoc, pure_bind, callHost_eq]
  refine bind_congr fun _ => bind_congr fun _ => bind_congr fun _ => bind_congr fun admitted => ?_
  cases admitted <;> simp

end CallInstr

end TscVee
