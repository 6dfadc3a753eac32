import TscVee.Execution
import TscVee.Lib.Program

/-!
# `TscVee.Proofs.Shape`: the shapes of the instruction functions

`InstrFn.shape` sorts the instruction functions into ten shapes, and `InstrFn.call_eq` says that
the call of a function is the run of its shape. A property of all instruction functions is then
shown shape by shape, with one fact about each core implementation.
-/

set_option autoImplicit false

namespace TscVee

open TscVee.Core Exec Lib

/-- The shape of an instruction function, with its opcode and core implementation. -/
inductive Shape
  /-- `opCore` -/
  | core (opcode : Opcode) (body : StackTop → Core Unit)
  /-- `opCorrected` -/
  | corrected (opcode : Opcode) (body : StackTop → Core Unit)
  /-- `opTerminate` -/
  | terminate (body : StackTop → Core StatusCode)
  | undefined
  | jump
  | jumpi
  | pc
  | gas
  | pushSmall
  | pushFull
  | beginblock

section
variable [Env]

/-- The call of a function of the shape. -/
def Shape.run (analysis : CodeAnalysis) (instr : Nat) (arg : InstructionArgument) :
    Shape → Exec (Option Nat)
  | .core opcode body => opCore opcode body instr
  | .corrected opcode body => opCorrected opcode body instr arg
  | .terminate body => opTerminate body
  | .undefined => opUndefined
  | .jump => opJump analysis
  | .jumpi => opJumpi analysis instr
  | .pc => opPc instr arg
  | .gas => opGas instr arg
  | .pushSmall => opPushSmall instr arg
  | .pushFull => opPushFull instr arg
  | .beginblock => opxBeginblock instr arg

/-- The shape of each instruction function. -/
def InstrFn.shape : InstrFn → Shape
  | .opAdd => .core .add add
  | .opMul => .core .mul mul
  | .opSub => .core .sub sub
  | .opDiv => .core .div div
  | .opSdiv => .core .sdiv sdiv
  | .opMod => .core .mod mod
  | .opSmod => .core .smod smod
  | .opAddmod => .core .addmod addmod
  | .opMulmod => .core .mulmod mulmod
  | .opExp => .core .exp exp
  | .opSignextend => .core .signextend signextend
  | .opLt => .core .lt lt
  | .opGt => .core .gt gt
  | .opSlt => .core .slt slt
  | .opSgt => .core .sgt sgt
  | .opEq => .core .eq eq
  | .opIszero => .core .iszero iszero
  | .opAnd => .core .and and_
  | .opOr => .core .or or_
  | .opXor => .core .xor xor_
  | .opNot => .core .not not_
  | .opByte => .core .byte byte_
  | .opShl => .core .shl shl
  | .opShr => .core .shr shr
  | .opSar => .core .sar sar
  | .opKeccak256 => .core .keccak256 keccak256
  | .opAddress => .core .address address
  | .opBalance => .core .balance balance
  | .opOrigin => .core .origin origin
  | .opCaller => .core .caller caller
  | .opCallvalue => .core .callvalue callvalue
  | .opCalldataload => .core .calldataload calldataload
  | .opCalldatasize => .core .calldatasize calldatasize
  | .opCalldatacopy => .core .calldatacopy calldatacopy
  | .opCodesize => .core .codesize codesize
  | .opCodecopy => .core .codecopy codecopy
  | .opGasprice => .core .gasprice gasprice
  | .opExtcodesize => .core .extcodesize extcodesize
  | .opExtcodecopy => .core .extcodecopy extcodecopy
  | .opReturndatasize => .core .returndatasize returndatasize
  | .opReturndatacopy => .core .returndatacopy returndatacopy
  | .opExtcodehash => .core .extcodehash extcodehash
  | .opBlockhash => .core .blockhash blockhash
  | .opCoinbase => .core .coinbase coinbase
  | .opTimestamp => .core .timestamp timestamp
  | .opNumber => .core .number number
  | .opDifficulty => .core .difficulty difficulty
  | .opGaslimit => .core .gaslimit gaslimit
  | .opChainid => .core .chainid chainid
  | .opSelfbalance => .core .selfbalance selfbalance
  | .opBasefee => .core .basefee basefee
  | .opPop => .core .pop pop
  | .opMload => .core .mload mload
  | .opMstore => .core .mstore mstore
  | .opMstore8 => .core .mstore8 mstore8
  | .opSload => .core .sload sload
  | .opMsize => .core .msize msize
  | .opPush0 => .core .push0 push0
  | .opLog0 => .core .log0 log0
  | .opLog1 => .core .log1 log1
  | .opLog2 => .core .log2 log2
  | .opLog3 => .core .log3 log3
  | .opLog4 => .core .log4 log4
  | .opDup n => .core (.dup1 + BitVec.ofNat 8 (n - 1)) (dup n)
  | .opSwap n => .core (.swap1 + BitVec.ofNat 8 (n - 1)) (swap n)
  | .opSstore => .corrected .sstore sstore
  | .opCreate => .corrected .create create
  | .opCall => .corrected .call call_
  | .opCallcode => .corrected .callcode callcode
  | .opDelegatecall => .corrected .delegatecall delegatecall
  | .opCreate2 => .corrected .create2 create2
  | .opStaticcall => .corrected .staticcall staticcall
  | .opReturn => .terminate return_
  | .opRevert => .terminate revert
  | .opSelfdestruct => .terminate selfdestruct
  | .opStop => .terminate fun _ => stop
  | .opInvalid => .terminate fun _ => invalid
  | .opUndefined => .undefined
  | .opJump => .jump
  | .opJumpi => .jumpi
  | .opPc => .pc
  | .opGas => .gas
  | .opPushSmall => .pushSmall
  | .opPushFull => .pushFull
  | .opxBeginblock => .beginblock

/-- The function runs as its shape does. -/
theorem InstrFn.call_eq (analysis : CodeAnalysis) (instr : Nat) (arg : InstructionArgument)
    (fn : InstrFn) : fn.call analysis instr arg = fn.shape.run analysis instr arg := by
  cases fn <;> rfl

end

/-! ### Rules for the parts of instruction functions -/

section
variable {Q : Option Nat → AdvancedExecutionState → Prop}
  {E : Fault → AdvancedExecutionState → Prop} {s : AdvancedExecutionState}

/-- A core implementation with a status: an early return is a normal end. -/
theorem sat_callCore (core : Core StatusCode) {Q : StatusCode → AdvancedExecutionState → Prop} :
    Sat (callCore core) s Q E ↔
      Sat core s.estate (fun status estate => Q status { s with estate := estate })
        fun h estate => match h with
          | .ret status => Q status { s with estate := estate }
          | .fault f => E f { s with estate := estate } := by
  unfold Sat callCore
  cases core s.estate with
  | ok status estate => rfl
  | error h estate => cases h <;> rfl

/-- The status is handed over, and there is no next instruction. -/
theorem sat_exit (statusCode : StatusCode) :
    Sat (exit statusCode) s Q E ↔ Q none { s with handed := some statusCode } := Iff.rfl

/-- The top of the stack moves. -/
theorem sat_moveTop (change : Int) {Q : Unit → AdvancedExecutionState → Prop} :
    Sat (moveTop change) s Q E ↔ Q () { s with topItem := s.topItem + change } := Iff.rfl

/-- The gas that an instruction sees is recorded. -/
theorem sat_logGas (gas : Int) {Q : Unit → AdvancedExecutionState → Prop} :
    Sat (logGas gas) s Q E ↔
      Q () { s with estate := { s.estate with trace := s.estate.trace ++ [.gasSeen gas] } } :=
  Iff.rfl

/-- Gas is taken, as long as the difference is an `int64_t`. -/
theorem sat_subGas (cost : Int) {Q : Unit → AdvancedExecutionState → Prop} :
    Sat (Exec.subGas cost) s Q E ↔
      if isInt64 (s.estate.gasLeft - cost) then
        Q () { s with estate := { s.estate with gasLeft := s.estate.gasLeft - cost } }
      else E .signedOverflow s := by
  unfold Exec.subGas
  simp only [sat_bind, sat_get, sat_ite, sat_throw, sat_modify]
  by_cases h : isInt64 (s.estate.gasLeft - cost) <;> simp [h]

/-- An item of the stack is read from the stack space only. -/
theorem sat_stackGet (index : Int) {Q : Uint256 → AdvancedExecutionState → Prop} :
    Sat (stackGet index) s Q E ↔
      if inStackSpace (s.topItem - index) then Q (s.estate.stackSpace (s.topItem - index)) s
      else E .stackOutOfBounds s := by
  unfold stackGet
  simp only [sat_bind, sat_get, sat_ite, sat_throw, sat_pure]
  by_cases h : inStackSpace (s.topItem - index) <;> simp [h]

/-- The top item is popped from the stack space only. -/
theorem sat_stackPop {Q : Uint256 → AdvancedExecutionState → Prop} :
    Sat stackPop s Q E ↔
      if inStackSpace s.topItem then
        Q (s.estate.stackSpace s.topItem) { s with topItem := s.topItem - 1 }
      else E .stackOutOfBounds s := by
  unfold stackPop
  simp only [sat_bind, sat_stackGet, sat_moveTop, sat_pure, Int.sub_zero]
  rfl

/-- An item is pushed to the stack space only. -/
theorem sat_stackPush (item : Uint256) {Q : Unit → AdvancedExecutionState → Prop} :
    Sat (stackPush item) s Q E ↔
      if inStackSpace (s.topItem + 1) then
        Q () { s with
          topItem := s.topItem + 1
          estate := { s.estate with
            stackSpace := fun q => if q = s.topItem + 1 then item else s.estate.stackSpace q } }
      else E .stackOutOfBounds { s with topItem := s.topItem + 1 } := by
  unfold stackPush
  simp only [sat_bind, sat_get, sat_ite, sat_throw, sat_moveTop, sat_modify]
  by_cases h : inStackSpace (s.topItem + 1) <;> simp [h]

/-! ### Rules for the shapes -/

/-- The end of an instruction whose core implementation left with `status`: the run goes on at
`next` or ends. -/
def afterStatus (status : StatusCode) (next : Option Nat) (s : AdvancedExecutionState) :
    Option Nat × AdvancedExecutionState :=
  if status = .success then (next, s) else (none, { s with handed := some status })

/-- Both ends satisfy `P`. -/
theorem afterStatus_cases {P : Option Nat → AdvancedExecutionState → Prop} {next : Option Nat}
    (status : StatusCode) (hnext : status = .success → P next s)
    (hexit : status ≠ .success → P none { s with handed := some status }) :
    P (afterStatus status next s).1 (afterStatus status next s).2 := by
  unfold afterStatus
  split
  case isTrue h => exact hnext h
  case isFalse h => exact hexit h

/-- The core runs on the inner state, and the top moves behind it. An early return hands its status
over. -/
theorem sat_opCore (opcode : Opcode) (body : StackTop → Core Unit) (instr : Nat) :
    Sat (opCore opcode body instr) s Q E ↔
      Sat (body s.topItem) s.estate
        (fun _ estate => Q (some (instr + 1))
          { s with
            estate := estate
            topItem := s.topItem + (traits opcode).stackHeightChange })
        fun h estate => match h with
          | .ret status =>
            let r := afterStatus status (some (instr + 1))
              { s with
                estate := estate
                topItem := s.topItem + (traits opcode).stackHeightChange }
            Q r.1 r.2
          | .fault f => E f { s with estate := estate } := by
  unfold opCore afterStatus
  simp only [sat_bind, sat_get, sat_callCore, sat_pure, sat_moveTop, sat_ite, sat_exit]
  refine iff_of_eq (congrArg₂ _ ?_ ?_)
  · simp
  -- A return of success goes on, as if the body had not ended.
  · funext h estate
    cases h with
    | ret status => by_cases hs : status = .success <;> simp [hs]
    | fault f => rfl

/-- The status of the core is handed over. -/
theorem sat_opTerminate (body : StackTop → Core StatusCode) :
    Sat (opTerminate body) s Q E ↔
      Sat (body s.topItem) s.estate
        (fun status estate => Q none { s with estate := estate, handed := some status })
        fun h estate => match h with
          | .ret status => Q none { s with estate := estate, handed := some status }
          | .fault f => E f { s with estate := estate } := by
  unfold opTerminate
  simp only [sat_bind, sat_get, sat_callCore, sat_exit]

/-- The inner state with the gas counter set to `gas`, which is logged. -/
def ExecutionState.seeGas (estate : ExecutionState) (gas : Int) : ExecutionState :=
  { estate with gasLeft := gas, trace := estate.trace ++ [.gasSeen gas] }

/-- The end of a corrected instruction whose core implementation succeeded: the correction is
taken back. -/
def afterCorrection (correction : Int) (next : Option Nat) (s : AdvancedExecutionState) :
    Option Nat × AdvancedExecutionState :=
  let s := { s with estate := { s.estate with gasLeft := s.estate.gasLeft - correction } }
  if s.estate.gasLeft < 0 then (none, { s with handed := some .outOfGas }) else (next, s)

/-- Both ends satisfy `P`. -/
theorem afterCorrection_cases {P : Option Nat → AdvancedExecutionState → Prop}
    {next : Option Nat} (correction : Int)
    (hnext : 0 ≤ s.estate.gasLeft - correction →
      P next { s with estate := { s.estate with gasLeft := s.estate.gasLeft - correction } })
    (hexit : s.estate.gasLeft - correction < 0 →
      P none { s with
        estate := { s.estate with gasLeft := s.estate.gasLeft - correction }
        handed := some .outOfGas }) :
    P (afterCorrection correction next s).1 (afterCorrection correction next s).2 := by
  unfold afterCorrection
  simp only
  split
  case isTrue h => exact hexit h
  case isFalse h => exact hnext (by omega)

/-- The core runs with the corrected gas, and the correction is taken back behind it. -/
theorem sat_opCorrected (opcode : Opcode) (body : StackTop → Core Unit) (instr : Nat) (n : Int) :
    Sat (opCorrected opcode body instr (.number n)) s Q E ↔
      if isInt64 (s.estate.gasLeft + (s.currentBlockCost - n)) then
        Sat (body s.topItem) (s.estate.seeGas (s.estate.gasLeft + (s.currentBlockCost - n)))
          (fun _ estate =>
            let s' := { s with
              estate := estate
              topItem := s.topItem + (traits opcode).stackHeightChange }
            if isInt64 (estate.gasLeft - (s.currentBlockCost - n)) then
              let r := afterCorrection (s.currentBlockCost - n) (some (instr + 1)) s'
              Q r.1 r.2
            else E .signedOverflow s')
          fun h estate =>
            let s' := { s with
              estate := estate
              topItem := s.topItem + (traits opcode).stackHeightChange }
            match h with
            | .ret status =>
              if status = .success then
                if isInt64 (estate.gasLeft - (s.currentBlockCost - n)) then
                  let r := afterCorrection (s.currentBlockCost - n) (some (instr + 1)) s'
                  Q r.1 r.2
                else E .signedOverflow s'
              else Q none { s' with handed := some status }
            | .fault f => E f { s with estate := estate }
      else E .signedOverflow s := by
  unfold opCorrected afterCorrection argNumber
  simp only [sat_bind, sat_get, sat_callCore, sat_pure, sat_moveTop, sat_ite, sat_exit, sat_subGas,
    sat_logGas, Int.sub_neg]
  -- Without the correction the core does not start.
  by_cases h : isInt64 (s.estate.gasLeft + (s.currentBlockCost - n))
  case neg => simp [h]
  rw [if_pos h, if_pos h]
  refine iff_of_eq (congrArg₂ _ ?_ ?_)
  -- Behind a normal end of the core, and behind a halt.
  · funext _ estate
    by_cases hi : isInt64 (estate.gasLeft - (s.currentBlockCost - n))
    · by_cases hg : estate.gasLeft - (s.currentBlockCost - n) < 0 <;> simp [hi, hg]
    · simp [hi]
  · funext h estate
    cases h with
    | fault f => rfl
    | ret status =>
        by_cases hs : status = .success
        · by_cases hi : isInt64 (estate.gasLeft - (s.currentBlockCost - n))
          · by_cases hg : estate.gasLeft - (s.currentBlockCost - n) < 0 <;> simp [hs, hi, hg]
          · simp [hs, hi]
        · simp [hs]

/-! ### What the instruction functions do to the inner state -/

/-- A relation between inner states that the bookkeeping of the instruction functions keeps: it
moves the gas counter, logs it, and writes slots of the stack space. -/
structure Bookkept (R : ExecutionState → ExecutionState → Prop) : Prop where
  refl : ∀ s, R s s
  trans : ∀ {s s' s''}, R s s' → R s' s'' → R s s''
  gas : ∀ (s : ExecutionState) gas, R s { s with gasLeft := gas }
  see : ∀ (s : ExecutionState) gas, R s { s with trace := s.trace ++ [.gasSeen gas] }
  slot : ∀ (s : ExecutionState) stackSpace, R s { s with stackSpace := stackSpace }

/-- Whatever its outcome, the program moves the state along `R`. -/
def Moves {ε σ α : Type} (R : σ → σ → Prop) (x : EStateM ε σ α) : Prop :=
  ∀ s, Sat x s (fun _ s' => R s s') fun _ s' => R s s'

/-- The program moves the state along `R`, and along `F` when it ends in a fault. -/
def MovesOr {α : Type} (R F : ExecutionState → ExecutionState → Prop) (x : Core α) : Prop :=
  ∀ s, Sat x s (fun _ s' => R s s') fun h s' => match h with
    | .ret _ => R s s'
    | .fault _ => F s s'

/-- A relation for all ends is one for the normal ends. -/
theorem Moves.movesOr {α : Type} {R F : ExecutionState → ExecutionState → Prop} {x : Core α}
    (h : Moves R x) (hF : ∀ s s', R s s' → F s s') : MovesOr R F x := fun s =>
  (h s).mono (fun _ _ h => h) fun e s' h => by
    cases e with
    | ret => exact h
    | fault => exact hF s s' h

/-- The core implementation of a function of the shape moves the inner state along `R`, and along
`F` when it ends in a fault. -/
def Shape.CoreMovesOr (R F : ExecutionState → ExecutionState → Prop) : Shape → Prop
  | .core _ body => ∀ top, MovesOr R F (body top)
  | .corrected _ body => ∀ top, MovesOr R F (body top)
  | .terminate body => ∀ top, MovesOr R F (body top)
  | _ => True

/-- The core implementation of a function of the shape moves the inner state along `R`. -/
def Shape.CoreMoves (R : ExecutionState → ExecutionState → Prop) : Shape → Prop
  | .core _ body => ∀ top, Moves R (body top)
  | .corrected _ body => ∀ top, Moves R (body top)
  | .terminate body => ∀ top, Moves R (body top)
  | _ => True

/-- The same for the core of a shape. -/
theorem Shape.CoreMoves.or {R F : ExecutionState → ExecutionState → Prop} {shape : Shape}
    (h : shape.CoreMoves R) (hF : ∀ s s', R s s' → F s s') : shape.CoreMovesOr R F := by
  cases shape with
  | core _ body | corrected _ body | terminate body => exact fun top => (h top).movesOr hF
  | _ => trivial

/-- A fault relation that holds where `R` does, and behind a move along `R`. -/
structure FaultOf (R F : ExecutionState → ExecutionState → Prop) : Prop where
  of : ∀ {s s'}, R s s' → F s s'
  after : ∀ {s s' s''}, R s s' → F s' s'' → F s s''

section
variable {R F : ExecutionState → ExecutionState → Prop} (hR : Bookkept R) (hF : FaultOf R F)

include hR hF

/-- JUMP does not change the inner state. -/
theorem opJump_moves (analysis : CodeAnalysis) (s : AdvancedExecutionState) :
    Sat (opJump analysis) s (fun _ s' => R s.estate s'.estate) fun _ s' => F s.estate s'.estate := by
  have hrefl : ∀ s : ExecutionState, F s s := fun s => hF.of (hR.refl s)
  unfold opJump
  simp only [sat_bind, sat_stackPop]
  split
  case isFalse => exact hrefl _
  simp only [sat_ite, sat_exit, sat_throw, sat_pure, sat_bind]
  exact ⟨fun _ => hR.refl _, fun _ => ⟨fun _ => hrefl _, fun _ => hR.refl _⟩⟩

/-- A relation that the bookkeeping keeps and the core implementation moves along, the instruction
function moves along. -/
theorem Shape.run_movesOr {shape : Shape} (hcore : shape.CoreMovesOr R F) (analysis : CodeAnalysis)
    (instr : Nat) (arg : InstructionArgument) (s : AdvancedExecutionState) :
    Sat (shape.run analysis instr arg) s (fun _ s' => R s.estate s'.estate)
      fun _ s' => F s.estate s'.estate := by
  have hrefl : ∀ s : ExecutionState, F s s := fun s => hF.of (hR.refl s)
  -- A push sets one slot, or faults in front of it.
  have hpush : ∀ (word : Uint256) (s' : AdvancedExecutionState), R s.estate s'.estate →
      Sat (stackPush word) s' (fun _ s'' => R s.estate s''.estate)
        fun _ s'' => F s.estate s''.estate := by
    intro word s' h
    rw [sat_stackPush]
    split
    · exact hR.trans h (hR.slot _ _)
    · exact hF.of h
  -- The relation goes around the core: what is in front of it and behind it is bookkeeping.
  cases shape with
  | core opcode body =>
      rw [Shape.run, sat_opCore]
      refine (hcore s.topItem s.estate).mono (fun _ _ h => h) fun hh estate h => ?_
      cases hh with
      | ret status =>
          exact afterStatus_cases (P := fun _ s' => R s.estate s'.estate) _ (fun _ => h) fun _ => h
      | fault f => exact h
  | corrected opcode body =>
      cases arg with
      | number n =>
          rw [Shape.run, sat_opCorrected]
          split
          case isFalse => exact hrefl _
          -- The core starts with the corrected gas.
          have hsee : R s.estate (s.estate.seeGas (s.estate.gasLeft + (s.currentBlockCost - n))) :=
            hR.trans (hR.gas _ _) (hR.see _ _)
          -- And the correction is taken back behind it.
          have hback : ∀ estate : ExecutionState, R s.estate estate →
              ∀ top, (if isInt64 (estate.gasLeft - (s.currentBlockCost - n)) then
                let r := afterCorrection (s.currentBlockCost - n) (some (instr + 1))
                  { s with estate := estate, topItem := top }
                R s.estate r.2.estate
              else F s.estate estate) := by
            intro estate h top
            split
            · exact afterCorrection_cases (P := fun _ s' => R s.estate s'.estate) _
                (fun _ => hR.trans h (hR.gas _ _)) fun _ => hR.trans h (hR.gas _ _)
            · exact hF.of h
          refine (hcore s.topItem _).mono (fun _ estate h => hback estate (hR.trans hsee h) _)
            fun hh estate h => ?_
          cases hh with
          | ret status =>
              have h' := hR.trans hsee h
              simp only
              split
              · exact hback estate h' _
              · exact h'
          | fault f => exact hF.after hsee h
      | _ => exact hrefl _
  | terminate body =>
      rw [Shape.run, sat_opTerminate]
      refine (hcore s.topItem s.estate).mono (fun _ _ h => h) fun hh estate h => ?_
      cases hh with
      | ret status => exact h
      | fault f => exact h
  | undefined => exact hR.refl _
  | jump => exact opJump_moves hR hF analysis s
  | jumpi =>
      simp only [Shape.run, opJumpi, sat_bind, sat_stackGet, sat_ite, sat_pure]
      split
      case isFalse => exact hrefl _
      refine ⟨fun _ => ?_, fun _ => ?_⟩
      · refine (opJump_moves hR hF analysis s).mono (fun next s' h => ?_) fun _ _ h => h
        rw [sat_stackPop]
        split
        · exact h
        · exact hF.of h
      · simp only [sat_stackPop]
        split
        · exact hR.refl _
        · exact hrefl _
  | pc =>
      cases arg with
      | number n =>
          simp only [Shape.run, opPc, argNumber, sat_bind, sat_pure]
          exact hpush _ s (hR.refl _)
      | _ => exact hrefl _
  | gas =>
      cases arg with
      | number n =>
          simp only [Shape.run, opGas, argNumber, sat_bind, sat_get, sat_pure, sat_logGas]
          exact hpush _ _ (hR.see _ _)
      | _ => exact hrefl _
  | pushSmall =>
      cases arg with
      | smallPushValue value =>
          simp only [Shape.run, opPushSmall, sat_bind, sat_pure]
          exact hpush _ s (hR.refl _)
      | _ => exact hrefl _
  | pushFull =>
      cases arg with
      | pushValue value =>
          simp only [Shape.run, opPushFull, sat_bind, sat_pure]
          exact hpush _ s (hR.refl _)
      | _ => exact hrefl _
  | beginblock =>
      cases arg with
      | block block =>
          simp only [Shape.run, opxBeginblock, sat_bind, sat_subGas]
          split
          case isFalse => exact hrefl _
          simp only [sat_bind, sat_get, sat_ite, sat_exit, sat_set, sat_pure]
          exact ⟨fun _ => hR.gas _ _, fun _ => ⟨fun _ => hR.gas _ _, fun _ => ⟨fun _ => hR.gas _ _,
            fun _ => hR.gas _ _⟩⟩⟩
      | _ => exact hrefl _

end

end

end TscVee
