import TscVee.AnalysisImpl
import TscVee.Lib.Bytes
import TscVee.Spec.Decode

/-!
# `TscVee.Spec.Table`: the instruction table of a bytecode

The table that the analyser is to make, in terms of the decoding only.

* `tableOf code`: its entries. `Entry.Matches` says when an instruction is the one for an entry.
* `pushNumber`: the number a push takes from the code.
-/

set_option autoImplicit false

namespace TscVee

/-- The big-endian number of `n` bytes of the code behind position `p`. Bytes past the end are
zero. -/
def pushNumber (code : List Byte) (p n : Nat) : Nat :=
  Lib.beNat (fun i => code.getD (p + 1 + i) 0) n

/-- An entry of the instruction table. -/
inductive Entry
  | beginblock
  | op (op : Op)
  | stop
  deriving DecidableEq, Repr

/-- The entries behind the first `BEGINBLOCK`. A boundary of two blocks has one `BEGINBLOCK`, also
where a terminator stands in front of a `JUMPDEST`. -/
def entries : List Op → List Entry
  | [] => [.stop]
  | op :: ops =>
    (if op.isJumpdest then [] else [.op op]) ++
      (if isTerminator op.opcode ∨ startsWithJumpdest ops then [.beginblock] else []) ++ entries ops

/-- The entries of the instruction table. -/
def tableOf (code : List Byte) : List Entry := .beginblock :: entries (decode code)

/-- The function of an opcode: that of the table of functions, or `op_undefined` where the opcode
has no cost in the revision. -/
def functionOf (rev : Revision) (opcode : Opcode) : Option InstrFn :=
  if gasCosts rev opcode = -1 then some .opUndefined else instructionFnTable.lookup opcode

/-- `ins` is the instruction for the operation `op` of the code. -/
structure OpMatches (rev : Revision) (code : List Byte) (op : Op) (ins : Instruction) : Prop where
  fn : ins.fn = functionOf rev op.opcode
  assigned : ins.fn ≠ none
  smallPush : ∀ n, 1 ≤ n → n ≤ 8 → op.opcode.toNat = 0x5f + n →
    ∃ value, ins.arg = .smallPushValue value ∧ value.toNat = pushNumber code op.pos n
  largePush : ∀ n, 9 ≤ n → n ≤ 32 → op.opcode.toNat = 0x5f + n →
    ∃ value, ins.arg = .pushValue value ∧ value.toNat = pushNumber code op.pos n
  pc : op.opcode = .pc → ins.arg = .number op.pos

/-- `ins` is the instruction for an entry of the table. -/
def Entry.Matches (rev : Revision) (code : List Byte) : Entry → Instruction → Prop
  | .beginblock, ins => ins.fn = some .opxBeginblock
  | .op operation, ins => OpMatches rev code operation ins
  | .stop, ins => ins.fn = some .opStop

end TscVee
