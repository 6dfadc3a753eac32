import TscVee.Lib.Program
import TscVee.Uint256

/-!
# `TscVee.LimbMemory`: the shifts of `uint256.c` on pointers

The functions of `TscVee.Uint256` return their target. Here they run on a memory of limbs, with
pointers, so that a target may be a number as well. A shift of a limb by 64 or more has no defined
result in C, and is a fault.

The local variables of a function lie at the address `frame` and behind it. A function that it
calls gets the place behind them.
-/

set_option autoImplicit false

namespace TscVee

/-- The address of a limb. -/
abbrev LimbPtr := Nat

/-- The limbs in memory. -/
abbrev LimbMem := LimbPtr → U64

/-- `uint32_t`. -/
abbrev U32 := BitVec 32

/-- What has no defined result. -/
inductive LimbFault
  /-- A limb is shifted by 64 or more. -/
  | shiftTooFar
  deriving DecidableEq, Repr

/-- Functions on the memory of limbs. -/
abbrev LimbProgram := EStateM LimbFault LimbMem

/-- `elements[0]` of a number, and `elements[1]` of a `uint128_t` and of a `uint256_t`. -/
def upperP (x : LimbPtr) : LimbPtr := x

/-- `LOWER_P` of a `uint128_t`: its second limb. -/
def lower128P (x : LimbPtr) : LimbPtr := x + 1

/-- `LOWER_P` of a `uint256_t`: its second half. -/
def lower256P (x : LimbPtr) : LimbPtr := x + 2

namespace LimbProgram

/-- A limb is read. -/
def read (p : LimbPtr) : LimbProgram U64 := do return (← get) p

/-- A limb is written. -/
def write (p : LimbPtr) (value : U64) : LimbProgram Unit :=
  modify fun m q => if q = p then value else m q

/-- `x << n` -/
def shl (x : U64) (n : U32) : LimbProgram U64 :=
  if n ≥ 64 then throw .shiftTooFar else return x <<< n.toNat

/-- `x >> n` -/
def shr (x : U64) (n : U32) : LimbProgram U64 :=
  if n ≥ 64 then throw .shiftTooFar else return x >>> n.toNat

/-- `copy128`: the upper limb is copied first. -/
def copy128 (target number : LimbPtr) : LimbProgram Unit := do
  write (upperP target) (← read (upperP number))
  write (lower128P target) (← read (lower128P number))

/-- `copy256`: the upper half is copied first. -/
def copy256 (target number : LimbPtr) : LimbProgram Unit := do
  copy128 (upperP target) (upperP number)
  copy128 (lower256P target) (lower256P number)

/-- `clear128`: both limbs become 0. -/
def clear128 (target : LimbPtr) : LimbProgram Unit := do
  write (upperP target) 0
  write (lower128P target) 0

/-- `clear256`: both halves become 0. -/
def clear256 (target : LimbPtr) : LimbProgram Unit := do
  clear128 (upperP target)
  clear128 (lower256P target)

/-- `add128`: the upper limb of the target, with the carry, is stored before the lower one. -/
def add128 (number1 number2 target : LimbPtr) : LimbProgram Unit := do
  let upper := (← read (upperP number1)) + (← read (upperP number2)) +
    carry ((← read (lower128P number1)) + (← read (lower128P number2)) <
      (← read (lower128P number1)))
  write (upperP target) upper
  write (lower128P target) ((← read (lower128P number1)) + (← read (lower128P number2)))

/-- `shiftl128`, which stores the upper limb of the target before the lower one. -/
def shiftl128 (number : LimbPtr) (value : U32) (target : LimbPtr) : LimbProgram Unit := do
  if value ≥ 128 then
    clear128 target
  else if value = 64 then
    write (upperP target) (← read (lower128P number))
    write (lower128P target) 0
  else if value = 0 then
    copy128 target number
  else if value < 64 then
    let upper ← shl (← read (upperP number)) value
    let carried ← shr (← read (lower128P number)) (64 - value)
    write (upperP target) (upper + carried)
    write (lower128P target) (← shl (← read (lower128P number)) value)
  else if 128 > value ∧ value > 64 then
    write (upperP target) (← shl (← read (lower128P number)) (value - 64))
    write (lower128P target) 0
  else
    clear128 target

/-- The local variable `result` is at `frame`. -/
def shiftr128 (frame : LimbPtr) (number : LimbPtr) (value : U32) (target : LimbPtr) :
    LimbProgram Unit := do
  if value ≥ 128 then
    clear128 target
  else if value = 64 then
    write (upperP target) 0
    write (lower128P target) (← read (upperP number))
  else if value = 0 then
    copy128 target number
  else if value < 64 then
    let result := frame
    write (upperP result) (← shr (← read (upperP number)) value)
    let carried ← shl (← read (upperP number)) (64 - value)
    let lower ← shr (← read (lower128P number)) value
    write (lower128P result) (carried + lower)
    copy128 target result
  else if 128 > value ∧ value > 64 then
    write (lower128P target) (← shr (← read (upperP number)) (value - 64))
    write (upperP target) 0
  else
    clear128 target

/-- The local variables `tmp1`, `tmp2` and `result` are at `frame`. -/
def shiftl256 (frame : LimbPtr) (number : LimbPtr) (value : U32) (target : LimbPtr) :
    LimbProgram Unit := do
  if value ≥ 256 then
    clear256 target
  else if value = 128 then
    copy128 (upperP target) (lower256P number)
    clear128 (lower256P target)
  else if value = 0 then
    copy256 target number
  else if value < 128 then
    let tmp1 := frame
    let tmp2 := frame + 2
    let result := frame + 4
    shiftl128 (upperP number) value tmp1
    shiftr128 (frame + 8) (lower256P number) (128 - value) tmp2
    add128 tmp1 tmp2 (upperP result)
    shiftl128 (lower256P number) value (lower256P result)
    copy256 target result
  else if 256 > value ∧ value > 128 then
    shiftl128 (lower256P number) (value - 128) (upperP target)
    clear128 (lower256P target)
  else
    clear256 target

/-- The local variables `tmp1`, `tmp2` and `result` are at `frame`. -/
def shiftr256 (frame : LimbPtr) (number : LimbPtr) (value : U32) (target : LimbPtr) :
    LimbProgram Unit := do
  if value ≥ 256 then
    clear256 target
  else if value = 128 then
    copy128 (lower256P target) (upperP number)
    clear128 (upperP target)
  else if value = 0 then
    copy256 target number
  else if value < 128 then
    let tmp1 := frame
    let tmp2 := frame + 2
    let result := frame + 4
    shiftr128 (frame + 8) (upperP number) value (upperP result)
    shiftr128 (frame + 8) (lower256P number) value tmp1
    shiftl128 (upperP number) (128 - value) tmp2
    add128 tmp1 tmp2 (lower256P result)
    copy256 target result
  else if 256 > value ∧ value > 128 then
    shiftr128 (frame + 8) (upperP number) (value - 128) (lower256P target)
    clear128 (upperP target)
  else
    clear256 target

end LimbProgram

end TscVee
