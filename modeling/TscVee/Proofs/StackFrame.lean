import TscVee.Proofs.StackSafety

/-!
# `TscVee.Proofs.StackFrame`: the items that an instruction neither reads nor writes

An instruction function works with the slots of its items and with those above them that it needs. A
run of it is therefore also a run with other words in all other slots, and leaves those words alone.

* `ExecutionState.others`: other words outside a range of slots.
* `Spaceless`: parts of an implementation that do not use the stack space. The parts of `Prim` but
  for loads and stores are put together from them.
* `prim_others`, `Has.others`: an implementation and the words outside its slots.
* `call_frame`: the instruction functions.
-/

set_option autoImplicit false
set_option maxRecDepth 8000

namespace TscVee

open TscVee.Core Exec Lib

/-- The state with the words `w` in the slots outside `lo` to `hi`. -/
def ExecutionState.others (s : ExecutionState) (lo hi : Int) (w : Slot → Uint256) : ExecutionState :=
  { s with stackSpace := fun p => if lo ≤ p ∧ p ≤ hi then s.stackSpace p else w p }

/-- Nothing changes with the words that are there. -/
theorem ExecutionState.others_self (s : ExecutionState) (lo hi : Int) :
    s.others lo hi s.stackSpace = s := by
  have hspace : (fun p => if lo ≤ p ∧ p ≤ hi then s.stackSpace p else s.stackSpace p) =
      s.stackSpace := by
    funext p
    split <;> rfl
  unfold ExecutionState.others
  rw [hspace]

/-! ### Parts that do not use the stack space -/

/-- The steps that do not use the stack space. -/
inductive Spaceless : (α : Type) → Core α → (α → Prop) → Prop
  | read {α : Type} (f : ExecutionState → α)
      (h : ∀ s stackSpace, f { s with stackSpace := stackSpace } = f s) :
      Spaceless α (Core.read f) fun _ => True
  | modify (g : ExecutionState → ExecutionState)
      (h : ∀ s stackSpace, g { s with stackSpace := stackSpace } =
        { g s with stackSpace := stackSpace }) : Spaceless PUnit (modify g) fun _ => True
  | throw {α : Type} (h : Halt) : Spaceless α (throw h) fun _ => True

/-- A program of such steps. -/
abbrev IsSpaceless {α : Type} (x : Core α) : Prop := Built Spaceless α x fun _ => True

variable {α : Type} {lo hi : Int} {w : Slot → Uint256}

/-- The words in the other slots do not matter to such a program, and stay. -/
theorem IsSpaceless.others {x : Core α} (h : IsSpaceless x) :
    Shifts (fun _ => True) (·.others lo hi w) x fun _ => True := by
  refine h.shifts fun α x Q hx => ?_
  intro s a s' _ hrun
  cases hx with
  | read f hspace =>
      obtain ⟨rfl, rfl⟩ := hrun
      exact ⟨congrArg (EStateM.Result.ok · _) (hspace s _), trivial, trivial⟩
  | modify g hspace =>
      obtain ⟨⟨⟩, rfl⟩ := hrun
      have hkeeps : (g s).stackSpace = s.stackSpace := by
        have hspace := congrArg ExecutionState.stackSpace (hspace s s.stackSpace)
        exact hspace
      have hmoved : g (s.others lo hi w) = (g s).others lo hi w := by
        unfold ExecutionState.others
        rw [hspace, hkeeps]
      exact ⟨congrArg (EStateM.Result.ok PUnit.unit) hmoved, trivial, trivial⟩
  | throw e => cases hrun

namespace IsSpaceless

/-- A field is read that does not depend on the stack space. -/
theorem read (f : ExecutionState → α)
    (h : ∀ s stackSpace, f { s with stackSpace := stackSpace } = f s) :
    IsSpaceless (Core.read f) := .prim (.read f h)

/-- An update that commutes with a change of the stack space. -/
theorem update (g : ExecutionState → ExecutionState) (h : ∀ s stackSpace,
    g { s with stackSpace := stackSpace } = { g s with stackSpace := stackSpace }) :
    IsSpaceless (modify g : Core PUnit) := .prim (.modify g h)

/-- A fault is the same in every stack space. -/
theorem fault (f : Fault) : IsSpaceless (Core.fault f : Core α) := .prim (.throw _)

/-- An early return is the same in every stack space. -/
theorem ret (status : StatusCode) : IsSpaceless (Core.ret status : Core α) := .prim (.throw _)

/-- An event is recorded next to the stack space. -/
theorem log (e : Event) : IsSpaceless (Core.log e) := update _ fun _ _ => rfl

/-- The counter of addresses is next to the stack space. -/
theorem nextFresh : IsSpaceless nextFresh :=
  .bind (read _ fun _ _ => rfl) fun _ _ => .bind (update _ fun _ _ => rfl) fun _ _ => .pure trivial

/-- The host is asked, and its answer recorded, without the stack space. What the request says about
the stack is in its arguments. -/
theorem ask (op : HostOp) : IsSpaceless (ask op) := by
  unfold Core.ask
  refine .bind (log _) fun _ _ => .bind (read _ fun _ _ => rfl) fun host _ => ?_
  cases op.serve host with
  | ok a host => exact .bind (update _ fun _ _ => rfl) fun _ _ => .pure trivial
  | error f host => exact .bind (update _ fun _ _ => rfl) fun _ _ => fault f

/-- The test of the range of an `int64_t` does not use the state. -/
theorem int64 (x : Int) : IsSpaceless (int64 x) := by
  unfold Core.int64
  exact .ite (fun _ => .pure trivial) fun _ => fault _

/-- The gas counter is next to the stack space. -/
theorem setGas (gas : Int) : IsSpaceless (setGas gas) := update _ fun _ _ => rfl

/-- Taking gas tests the range of the difference and sets the counter. -/
theorem subGas (cost : Int) : IsSpaceless (Core.subGas cost) := by
  unfold Core.subGas
  exact .bind (read _ fun _ _ => rfl) fun _ _ => .bind (int64 _) fun _ _ => setGas _

/-- A charge takes the gas and may return early. Neither uses the stack space. -/
theorem chargeGas (cost : Int) : IsSpaceless (chargeGas cost) := by
  unfold Core.chargeGas
  refine .bind (subGas cost) fun _ _ => .bind (read _ fun _ _ => rfl) fun _ _ => ?_
  exact .ite (fun _ => ret _) fun _ => .pure trivial

/-- The test of the static flag reads the message only. -/
theorem refuseStatic : IsSpaceless refuseStatic := by
  -- The state is read for the test of static mode.
  show IsSpaceless (Core.read executionStateInStaticMode >>= fun isStatic =>
    if isStatic = true then Core.ret .staticModeViolation else pure ())
  refine .bind (read _ fun _ _ => rfl) fun _ _ => ?_
  exact .ite (fun _ => ret _) fun _ => .pure trivial

/-- A range is recorded and tested against the size of the memory. -/
theorem access (offset len : Nat) : IsSpaceless (access offset len) := by
  unfold Core.access
  refine .bind (read _ fun _ _ => rfl) fun memory _ => .bind (log _) fun _ _ => ?_
  cases memory.mData with
  | none => exact fault _
  | some data => exact .ite (fun _ => .pure trivial) fun _ => fault _

/-- Bytes are read from EVM memory, whose data are not in the stack space. -/
theorem readMemory (offset len : Nat) : IsSpaceless (readMemory offset len) := by
  unfold Core.readMemory
  refine .ite (fun _ => .pure trivial) fun _ => ?_
  exact .bind (access _ _) fun _ _ => .pure trivial

/-- Bytes are written to EVM memory, whose data are not in the stack space. -/
theorem writeMemory (offset : Nat) (bytes : List Byte) : IsSpaceless (writeMemory offset bytes) := by
  unfold Core.writeMemory
  refine .ite (fun _ => .pure trivial) fun _ => ?_
  exact .bind (access _ _) fun _ _ => update _ fun _ _ => rfl

/-- Clearing is a write of zeros. -/
theorem clearMemory (offset len : Nat) : IsSpaceless (clearMemory offset len) := by
  unfold Core.clearMemory
  refine .ite (fun _ => .pure trivial) fun _ => ?_
  exact .bind (access _ _) fun _ _ => update _ fun _ _ => rfl

/-- A pointer into EVM memory does not point to the stack space. -/
theorem memoryPtr (offset len : Nat) : IsSpaceless (memoryPtr offset len) := by
  unfold Core.memoryPtr
  refine .bind (read _ fun _ _ => rfl) fun memory _ => .bind (log _) fun _ _ => ?_
  cases memory.mData with
  | none => exact .pure trivial
  | some data => exact .pure trivial

variable [Env]

/-- The reallocation asks the environment for memory and copies the old bytes, next to the stack
space. -/
theorem memoryGrow (newSize : Nat) : IsSpaceless (memoryGrow newSize) := by
  have hallocate : IsSpaceless memoryAllocateCapacity := by
    unfold Core.memoryAllocateCapacity
    exact .bind (read _ fun _ _ => rfl) fun _ _ => .bind nextFresh fun _ _ => update _ fun _ _ => rfl
  unfold Core.memoryGrow
  refine .bind (read _ fun _ _ => rfl) fun memory _ => ?_
  refine .ite (fun _ => fault _) fun _ => .ite (fun _ => fault _) fun _ => ?_
  refine .ite (fun _ => .bind (update _ fun _ _ => rfl) fun _ _ => .bind hallocate fun _ _ => ?_)
    fun _ => ?_
  -- Both branches fill the new bytes.
  all_goals
    refine .bind (read _ fun _ _ => rfl) fun memory _ => ?_
    cases memory.mData with
    | none => exact fault _
    | some data => exact update _ fun _ _ => rfl

/-- The growth charges its cost and reallocates, and both are spaceless. -/
theorem growMemory (newSize : Nat) : IsSpaceless (growMemory newSize) := by
  have hcost : ∀ words, IsSpaceless (memoryCost words) := fun words => by
    unfold TscVee.memoryCost
    exact .bind (int64 _) fun _ _ => int64 _
  unfold TscVee.growMemory
  refine .bind (read _ fun _ _ => rfl) fun memory _ => .bind (hcost _) fun _ _ =>
    .bind (hcost _) fun _ _ => .bind (subGas _) fun _ _ => .bind (read _ fun _ _ => rfl) fun _ _ => ?_
  refine .ite (fun _ => .pure trivial) fun _ => ?_
  exact .bind (memoryGrow _) fun _ _ => .bind (log _) fun _ _ => .pure trivial

/-- The check of a range compares its end with the size of the memory and grows it when needed. -/
theorem checkMemoryU64 (offset : Uint256) (size : Nat) :
    IsSpaceless (checkMemoryU64 offset size) := by
  unfold TscVee.checkMemoryU64
  refine .ite (fun _ => .pure trivial) fun _ => .bind (log _) fun _ _ =>
    .bind (read _ fun _ _ => rfl) fun memory _ => ?_
  exact .ite (fun _ => growMemory _) fun _ => .bind (log _) fun _ _ => .pure trivial

/-- A check whose failure ends the instruction. -/
theorem requireMemoryU64 (offset : Uint256) (size : Nat) :
    IsSpaceless (requireMemoryU64 offset size) := by
  unfold TscVee.requireMemoryU64
  exact .bind (checkMemoryU64 _ _) fun _ _ => .ite (fun _ => ret _) fun _ => .pure trivial

/-- A check of a size in a word. An empty range is not checked, and a large one is refused. -/
theorem requireMemoryU256 (offset size : Uint256) : IsSpaceless (requireMemoryU256 offset size) := by
  unfold TscVee.requireMemoryU256 TscVee.checkMemoryU256
  refine .bind (.ite (fun _ => .pure trivial) fun _ => .ite (fun _ => .pure trivial) fun _ =>
    checkMemoryU64 _ _) fun _ _ => ?_
  exact .ite (fun _ => ret _) fun _ => .pure trivial

end IsSpaceless

/-! ### Loads and stores -/

section
variable {p : Slot} {s s' : ExecutionState}

/-- Loading from a slot of the stack space gives its word and changes nothing. -/
theorem ok_load (hin : inStackSpace p) (s : ExecutionState) :
    load p s = .ok (s.stackSpace p) s := by
  unfold load
  rw [if_neg (not_not.2 hin)]
  rfl

/-- A load that ends normally was one from the stack space. -/
theorem load_ok {a : Uint256} (h : load p s = .ok a s') :
    inStackSpace p ∧ s.stackSpace p = a ∧ s = s' := by
  have hload : Sat (load p) s (fun b t => inStackSpace p ∧ s.stackSpace p = b ∧ s = t)
      fun _ _ => True := by
    rw [sat_load]
    split
    case isTrue hin => exact ⟨hin, rfl, rfl⟩
    case isFalse => trivial
  exact hload.of_ok h

/-- Storing to a slot of the stack space sets that slot. -/
theorem ok_store (hin : inStackSpace p) (value : Uint256) (s : ExecutionState) :
    store p value s = .ok () (s.setSlot p value) := by
  unfold store
  rw [if_neg (not_not.2 hin)]
  rfl

/-- A store that ends normally was one to the stack space. -/
theorem store_ok {value : Uint256} {a : Unit} (h : store p value s = .ok a s') :
    inStackSpace p ∧ s.setSlot p value = s' := by
  have hstore : Sat (store p value) s (fun _ t => inStackSpace p ∧ s.setSlot p value = t)
      fun _ _ => True := by
    rw [sat_store]
    split
    case isTrue hin => exact ⟨hin, rfl⟩
    case isFalse => trivial
  exact hstore.of_ok h

/-- A word that is written inside the range. -/
theorem others_setSlot (hp : lo ≤ p ∧ p ≤ hi) (value : Uint256) :
    (s.others lo hi w).setSlot p value = (s.setSlot p value).others lo hi w := by
  have hspace : (fun q => if q = p then value else if lo ≤ q ∧ q ≤ hi then s.stackSpace q else w q) =
      fun q => if lo ≤ q ∧ q ≤ hi then if q = p then value else s.stackSpace q else w q := by
    funext q
    by_cases hq : q = p
    · rw [if_pos hq, hq, if_pos hp, if_pos rfl]
    · rw [if_neg hq, if_neg hq]
  unfold ExecutionState.setSlot ExecutionState.others
  simp only [hspace]

end

/-! ### The parts of an implementation -/

section
variable [Env] {e : Effects}

/-- Each part works inside the slots of the effects, or without the stack space. -/
theorem prim_others (hlo : lo ≤ e.lo) (hhi : e.hi ≤ hi) {x : Core α} {Q : α → Prop}
    (h : Prim e α x Q) : Shifts (·.msg = e.msg) (·.others lo hi w) x Q := by
  intro s a s' hs hrun
  obtain ⟨hQ, hs', -⟩ := (prim_frame h s hs).of_ok hrun
  suffices hmoved : x (s.others lo hi w) = .ok a (s'.others lo hi w) from ⟨hmoved, hs', hQ⟩
  -- All but the load and the store do not touch the stack.
  have hspaceless : IsSpaceless x → x (s.others lo hi w) = .ok a (s'.others lo hi w) := fun hx =>
    (hx.others s a s' trivial hrun).1
  cases h with
  | read f h hspace => exact hspaceless (.read f hspace)
  | load p hp =>
      obtain ⟨hin, rfl, rfl⟩ := load_ok hrun
      have hslot : (s.others lo hi w).stackSpace p = s.stackSpace p :=
        if_pos ⟨hlo.trans hp.1, hp.2.trans hhi⟩
      rw [← hslot]
      exact ok_load hin _
  | store p value hp =>
      obtain ⟨hin, rfl⟩ := store_ok hrun
      rw [ok_store hin, others_setSlot ⟨hlo.trans hp.1, hp.2.trans hhi⟩]
  | ret status => exact hspaceless (.ret status)
  | fault f => exact hspaceless (.fault f)
  | nextFresh => exact hspaceless .nextFresh
  | ask op => exact hspaceless (.ask op)
  | refuseStatic => exact hspaceless .refuseStatic
  | int64 y => exact hspaceless (.int64 y)
  | chargeGas cost => exact hspaceless (.chargeGas cost)
  | subGas cost => exact hspaceless (.subGas cost)
  | setGas gas => exact hspaceless (.setGas gas)
  | requireMemoryU64 offset size => exact hspaceless (.requireMemoryU64 offset size)
  | requireMemoryU256 offset size => exact hspaceless (.requireMemoryU256 offset size)
  | readMemory offset len => exact hspaceless (.readMemory offset len)
  | writeMemory offset bytes => exact hspaceless (.writeMemory offset bytes)
  | clearMemory offset len => exact hspaceless (.clearMemory offset len)
  | memoryPtr offset len => exact hspaceless (.memoryPtr offset len)
  | logAccess => exact hspaceless (.log _)
  | dropReturnData | setOutputSize | setOutputOffset => exact hspaceless (.update _ fun _ _ => rfl)

/-- A normal run of an implementation, with other words outside its slots. -/
theorem Has.others {x : Core α} {Q : α → Prop} (h : Has e x Q) (hlo : lo ≤ e.lo) (hhi : e.hi ≤ hi)
    {s s' : ExecutionState} {a : α} (hs : s.msg = e.msg) (hrun : x s = .ok a s') :
    x (s.others lo hi w) = .ok a (s'.others lo hi w) :=
  (h.shifts (fun _ _ _ hprim => prim_others hlo hhi hprim) s a s' hs hrun).1

end

/-! ### Instruction functions -/

/-- The state with the words `w` in the slots outside `lo` to `hi`. -/
def AdvancedExecutionState.others (s : AdvancedExecutionState) (lo hi : Int) (w : Slot → Uint256) :
    AdvancedExecutionState := { s with estate := s.estate.others lo hi w }

/-- Where the program goes on from `s`, it does so with any other words outside `lo` to `hi`, and it
leaves those words alone. -/
def IgnoresOthers (lo hi : Int) (x : Exec (Option Nat)) (s : AdvancedExecutionState) : Prop :=
  ∀ w next s', x s = .ok (some next) s' →
    x (s.others lo hi w) = .ok (some next) (s'.others lo hi w)

/-- The words that were outside the range are there. -/
theorem IgnoresOthers.frame {x : Exec (Option Nat)} {s s' : AdvancedExecutionState} {next : Nat}
    (h : IgnoresOthers lo hi x s) (hrun : x s = .ok (some next) s') {p : Slot}
    (hp : ¬ (lo ≤ p ∧ p ≤ hi)) : s'.estate.stackSpace p = s.estate.stackSpace p := by
  have hsame := h s.estate.stackSpace next s' hrun
  have hself : s.others lo hi s.estate.stackSpace = s := by
    unfold AdvancedExecutionState.others
    rw [ExecutionState.others_self]
  rw [hself, hrun] at hsame
  have hstate : s' = s'.others lo hi s.estate.stackSpace := by
    injection hsame
  have hslot := congrArg (fun t : AdvancedExecutionState => t.estate.stackSpace p) hstate
  exact hslot.trans (if_neg hp)

section
variable [Env] {opcode : Opcode} {instr next : Nat} {s s' : AdvancedExecutionState}

/-- The state behind a core implementation that has left `estate`. -/
def AdvancedExecutionState.behind (s : AdvancedExecutionState) (opcode : Opcode)
    (estate : ExecutionState) : AdvancedExecutionState :=
  { s with estate := estate, topItem := s.topItem + (traits opcode).stackHeightChange }

omit [Env] in
/-- The instruction goes on just where its core implementation ends normally. -/
theorem opCore_continues {body : StackTop → Core Unit}
    (hret : Sat (body s.topItem) s.estate (fun _ _ => True) fun h _ => h ≠ .ret .success) :
    opCore opcode body instr s = .ok (some next) s' ↔
      ∃ estate, body s.topItem s.estate = .ok () estate ∧ instr + 1 = next ∧
        s.behind opcode estate = s' := by
  rw [← sat_eq_iff, sat_opCore]
  unfold Sat at hret ⊢
  cases hrun : body s.topItem s.estate with
  | ok a estate =>
      simp [AdvancedExecutionState.behind]
  | error h estate =>
      rw [hrun] at hret
      cases h with
      | ret status =>
          have hne : status ≠ .success := fun heq => hret (congrArg Halt.ret heq)
          simp [afterStatus, hne]
      | fault f => simp

/-- The state behind a corrected instruction. -/
def AdvancedExecutionState.corrected (s : AdvancedExecutionState) (opcode : Opcode) (correction : Int)
    (estate : ExecutionState) : AdvancedExecutionState :=
  s.behind opcode { estate with gasLeft := estate.gasLeft - correction }

omit [Env] in
/-- A corrected instruction goes on just where its core implementation ends normally, and the gas
counter is in range and not negative. -/
theorem opCorrected_continues {body : StackTop → Core Unit} {n : Int}
    (hret : Sat (body s.topItem) (s.estate.seeGas (s.estate.gasLeft + (s.currentBlockCost - n)))
      (fun _ _ => True) fun h _ => h ≠ .ret .success) :
    opCorrected opcode body instr (.number n) s = .ok (some next) s' ↔
      isInt64 (s.estate.gasLeft + (s.currentBlockCost - n)) ∧ ∃ estate,
        body s.topItem (s.estate.seeGas (s.estate.gasLeft + (s.currentBlockCost - n))) =
            .ok () estate ∧
          isInt64 (estate.gasLeft - (s.currentBlockCost - n)) ∧
          0 ≤ estate.gasLeft - (s.currentBlockCost - n) ∧ instr + 1 = next ∧
          s.corrected opcode (s.currentBlockCost - n) estate = s' := by
  rw [← sat_eq_iff, sat_opCorrected]
  -- The correction, the body, the correction taken back, and the test of the gas.
  by_cases hgas : isInt64 (s.estate.gasLeft + (s.currentBlockCost - n))
  case neg => simp [hgas]
  rw [if_pos hgas]
  unfold Sat at hret ⊢
  cases hrun : body s.topItem
    (s.estate.seeGas (s.estate.gasLeft + (s.currentBlockCost - n))) with
  | ok a estate =>
      unfold afterCorrection AdvancedExecutionState.corrected AdvancedExecutionState.behind
      simp only [EStateM.Result.ok.injEq, exists_eq_left', true_and]
      generalize estate.gasLeft - ((s.currentBlockCost : Int) - n) = gas
      by_cases hback : isInt64 gas
      case neg => simp [hback]
      by_cases hneg : gas < 0
      · have hnot : ¬ 0 ≤ gas := by omega
        simp [hback, hneg, hnot]
      · have hle : 0 ≤ gas := by omega
        simp [hgas, hback, hneg, hle]
  | error h estate =>
      rw [hrun] at hret
      cases h with
      | ret status =>
          have hne : status ≠ .success := fun heq => hret (congrArg Halt.ret heq)
          simp [hne]
      | fault f => simp

variable {fn : InstrFn}

/-- The core implementation of a function does not return a success early. -/
theorem Has.noEarlySuccess {e : Effects} {x : Core Unit} (h : Has e x fun _ => True)
    (estate : ExecutionState) (hmsg : estate.msg = e.msg) :
    Sat x estate (fun _ _ => True) fun h _ => h ≠ .ret .success :=
  (h.frame estate hmsg).mono (fun _ _ _ => trivial) fun _ _ herr heq =>
    (herr.2.2 _ heq).1 rfl

/-- A range that holds the slots of the function, by its footprint. -/
def InstrFn.Within (fn : InstrFn) (top lo hi : Int) : Prop :=
  lo ≤ top + 1 - fn.footprint.1 ∧ top + fn.footprint.2 ≤ hi

/-- An instruction that takes its operands through the core reads and writes inside of its range,
and so does the change of the stack pointer behind it. -/
theorem opCore_ignoresOthers {body : StackTop → Core Unit} (hshape : fn.shape = .core opcode body)
    (hdup : fn ≠ .opDup 0) (hin : fn.Within s.topItem lo hi) :
    IgnoresOthers lo hi (opCore opcode body instr) s := by
  intro w next s' hrun
  have hhas := fn.has hdup s.estate.msg s.topItem
  rw [hshape] at hhas
  obtain ⟨estate, hbody, hnext, rfl⟩ :=
    (opCore_continues (Has.noEarlySuccess hhas s.estate rfl)).1 hrun
  refine (opCore_continues (s := s.others lo hi w) (Has.noEarlySuccess hhas _ rfl)).2
    ⟨estate.others lo hi w, ?_, hnext, rfl⟩
  exact Has.others hhas hin.1 hin.2 rfl hbody

/-- The gas correction in front of the core is spaceless, so that the argument for the core carries
over. -/
theorem opCorrected_ignoresOthers {body : StackTop → Core Unit} {arg : InstructionArgument}
    (hshape : fn.shape = .corrected opcode body) (hdup : fn ≠ .opDup 0)
    (hin : fn.Within s.topItem lo hi) :
    IgnoresOthers lo hi (opCorrected opcode body instr arg) s := by
  intro w next s' hrun
  have hhas := fn.has hdup s.estate.msg s.topItem
  rw [hshape] at hhas
  cases arg with
  | number n =>
      obtain ⟨hgas, estate, hbody, hback, hle, hnext, rfl⟩ :=
        (opCorrected_continues (Has.noEarlySuccess hhas _ rfl)).1 hrun
      refine (opCorrected_continues (s := s.others lo hi w) (Has.noEarlySuccess hhas _ rfl)).2
        ⟨hgas, estate.others lo hi w, ?_, hback, hle, hnext, rfl⟩
      exact Has.others (s := s.estate.seeGas _) hhas hin.1 hin.2 rfl hbody
  | _ => cases hrun

/-- An instruction that ends the run has no next instruction, and nothing to show. -/
theorem terminate_ignoresOthers {analysis : CodeAnalysis} {arg : InstructionArgument}
    {body : StackTop → Core StatusCode} (hshape : fn.shape = .terminate body) :
    IgnoresOthers lo hi (fn.shape.run analysis instr arg) s := by
  intro w next s' hrun
  rw [hshape] at hrun
  -- The run never goes on.
  have hends : Sat (opTerminate body) s (fun a _ => a = none) fun _ _ => True := by
    rw [sat_opTerminate]
    refine (sat_trivial _ _).mono (fun _ _ _ => rfl) fun h _ _ => ?_
    cases h with
    | ret status => rfl
    | fault f => trivial
  exact absurd (hends.of_ok hrun) (by simp)

section
variable {analysis : CodeAnalysis} {arg : InstructionArgument} {β : Type}

/-- A normal run of the program from `s` is one with the words `w` outside `lo` to `hi`, too. -/
def RunsWith (lo hi : Int) (w : Slot → Uint256) (x : Exec α) (s : AdvancedExecutionState) : Prop :=
  ∀ a s', x s = .ok a s' → x (s.others lo hi w) = .ok a (s'.others lo hi w)

omit [Env] in
/-- Two programs, the second one from every state that the first one can leave. -/
theorem RunsWith.bind {x : Exec β} {f : β → Exec α} (hx : RunsWith lo hi w x s)
    (hf : ∀ b s', x s = .ok b s' → RunsWith lo hi w (f b) s') : RunsWith lo hi w (x >>= f) s := by
  intro a s'' hrun
  obtain ⟨b, s', hb, ha⟩ := exists_of_bind hrun
  exact ok_bind (hx b s' hb) (hf b s' hb a s'' ha)

omit [Env] in
/-- A value is the same in every stack space. -/
theorem RunsWith.pure (a : α) : RunsWith lo hi w (pure a) s := by
  intro b s' hrun
  obtain ⟨rfl, rfl⟩ := hrun
  rfl

omit [Env] in
/-- A branch on a condition that does not depend on the other words. -/
theorem RunsWith.ite {c : Prop} [Decidable c] {x y : Exec α} (hx : c → RunsWith lo hi w x s)
    (hy : ¬ c → RunsWith lo hi w y s) : RunsWith lo hi w (if c then x else y) s := by
  split
  case isTrue h => exact hx h
  case isFalse h => exact hy h

omit [Env] in
/-- A fault is not a normal run. -/
theorem RunsWith.throw (f : Fault) : RunsWith lo hi w (throw f : Exec α) s := fun _ _ hrun => by
  cases hrun

omit [Env] in
/-- The end of the run is not a normal run with a next instruction. -/
theorem RunsWith.exit (status : StatusCode) : RunsWith lo hi w (exit status) s := by
  intro a s' hrun
  obtain ⟨rfl, rfl⟩ := hrun
  rfl

omit [Env] in
/-- What is read with `stack_get` is the word of a slot of the stack space. -/
theorem stackGet_ok {index : Int} {a : Uint256} (h : stackGet index s = .ok a s') :
    inStackSpace (s.topItem - index) ∧ s.estate.stackSpace (s.topItem - index) = a ∧ s = s' := by
  have hget : Sat (stackGet index) s (fun b t => inStackSpace (s.topItem - index) ∧
      s.estate.stackSpace (s.topItem - index) = b ∧ s = t) fun _ _ => True := by
    rw [sat_stackGet]
    split
    case isTrue hin => exact ⟨hin, rfl, rfl⟩
    case isFalse => trivial
  exact hget.of_ok h

omit [Env] in
/-- Reading an item in the range does not use the other words. -/
theorem runsWith_stackGet {index : Int} (hin : lo ≤ s.topItem - index ∧ s.topItem - index ≤ hi) :
    RunsWith lo hi w (stackGet index) s := by
  intro a s' hrun
  obtain ⟨hslot, rfl, rfl⟩ := stackGet_ok hrun
  rw [← sat_eq_iff, sat_stackGet]
  exact (if_pos hslot).mpr ⟨if_pos hin, rfl⟩

omit [Env] in
/-- What is popped is the top word, which was in the stack space. -/
theorem stackPop_ok {a : Uint256} (h : stackPop s = .ok a s') :
    inStackSpace s.topItem ∧ s.estate.stackSpace s.topItem = a ∧
      { s with topItem := s.topItem - 1 } = s' := by
  have hpop : Sat stackPop s (fun b t => inStackSpace s.topItem ∧
      s.estate.stackSpace s.topItem = b ∧ { s with topItem := s.topItem - 1 } = t)
      fun _ _ => True := by
    rw [sat_stackPop]
    split
    case isTrue hin => exact ⟨hin, rfl, rfl⟩
    case isFalse => trivial
  exact hpop.of_ok h

omit [Env] in
/-- Popping an item in the range does not use the other words. -/
theorem runsWith_stackPop (hin : lo ≤ s.topItem ∧ s.topItem ≤ hi) :
    RunsWith lo hi w stackPop s := by
  intro a s' hrun
  obtain ⟨hslot, rfl, rfl⟩ := stackPop_ok hrun
  rw [← sat_eq_iff, sat_stackPop]
  exact (if_pos hslot).mpr ⟨if_pos hin, rfl⟩

omit [Env] in
/-- Pushing a word to a slot in the range does not use the other words. -/
theorem runsWith_stackPush (hin : lo ≤ s.topItem + 1 ∧ s.topItem + 1 ≤ hi) (word : Uint256) :
    RunsWith lo hi w (stackPush word) s := by
  intro a s' hrun
  rw [← sat_eq_iff, sat_stackPush] at hrun ⊢
  split at hrun
  case isFalse => exact hrun.elim
  case isTrue hslot =>
    obtain ⟨-, rfl⟩ := hrun
    refine (if_pos hslot).mpr ⟨rfl, ?_⟩
    exact congrArg (fun estate => ({ s with topItem := s.topItem + 1, estate := estate } :
      AdvancedExecutionState)) (others_setSlot hin word)

omit [Env] in
/-- JUMP pops its operand. The place it goes to is looked up in the analysis. -/
theorem runsWith_opJump (hin : lo ≤ s.topItem ∧ s.topItem ≤ hi) :
    RunsWith lo hi w (opJump analysis) s := by
  unfold opJump
  refine .bind (runsWith_stackPop hin) fun dst s₁ _ => ?_
  refine .ite (fun _ => .exit _) fun _ => ?_
  exact .ite (fun _ => .bind (.throw _) fun _ _ _ => .pure _) fun _ => .pure _

omit [Env] in
/-- A jump to any destination has popped one item. -/
theorem opJump_ok {next : Option Nat} (h : opJump analysis s = .ok next s') :
    s'.topItem = s.topItem - 1 := by
  obtain ⟨dst, s₁, hpop, -⟩ := exists_of_bind h
  obtain ⟨hin, -, -⟩ := stackPop_ok hpop
  exact ((opJump_pops hin).of_ok h).2

omit [Env] in
/-- JUMPI reads the two top words, and goes to a place from the analysis or to the next instruction.
-/
theorem runsWith_opJumpi (hlo : lo ≤ s.topItem - 1) (hhi : s.topItem ≤ hi) :
    RunsWith lo hi w (opJumpi analysis instr) s := by
  have hbelow : ∀ p : Int, p - 1 ≤ p := fun p => by omega
  have hitem : lo ≤ s.topItem - 1 ∧ s.topItem - 1 ≤ hi := ⟨hlo, (hbelow _).trans hhi⟩
  have hfirst : lo ≤ s.topItem ∧ s.topItem ≤ hi := ⟨hlo.trans (hbelow _), hhi⟩
  have hlast : ∀ s' : AdvancedExecutionState, s'.topItem = s.topItem - 1 → ∀ next : Option Nat,
      RunsWith lo hi w (do let _ ← stackPop; return next) s' := by
    intro s' htop next
    exact .bind (runsWith_stackPop (by rw [htop]; exact hitem)) fun _ _ _ => .pure next
  unfold opJumpi
  refine RunsWith.bind (runsWith_stackGet hitem) fun tmp s₁ h₁ => ?_
  obtain ⟨-, -, rfl⟩ := stackGet_ok h₁
  -- Both branches pop the destination, and then the condition.
  refine RunsWith.ite (fun _ => ?_) fun _ => ?_
  · exact RunsWith.bind (runsWith_opJump hfirst) fun next s₂ h₂ => hlast s₂ (opJump_ok h₂) next
  · refine RunsWith.bind (runsWith_stackPop hfirst) fun _ s₂ h₂ => ?_
    obtain ⟨-, -, rfl⟩ := stackPop_ok h₂
    refine RunsWith.bind (.pure _) fun next s₃ h₃ => ?_
    cases h₃
    exact hlast { s with topItem := s.topItem - 1 } rfl _

omit [Env] in
/-- A program that runs alike with all other words does not depend on them. -/
theorem RunsWith.ignoresOthers {x : Exec (Option Nat)} (h : ∀ w, RunsWith lo hi w x s) :
    IgnoresOthers lo hi x s := fun w next s' hrun => h w (some next) s' hrun

omit [Env] in
/-- An instruction that pushes one word and goes to the next instruction. -/
theorem runsWith_pushNext (hin : lo ≤ s.topItem + 1 ∧ s.topItem + 1 ≤ hi) (word : Uint256) :
    RunsWith lo hi w (do stackPush word; return some (instr + 1)) s :=
  .bind (runsWith_stackPush hin word) fun _ _ _ => .pure _

omit [Env] in
/-- A block begins without a look at the items. -/
theorem opxBeginblock_ignoresOthers : IgnoresOthers lo hi (opxBeginblock instr arg) s := by
  intro w next s' hrun
  cases arg with
  | block block =>
      rw [← sat_eq_iff] at hrun ⊢
      unfold opxBeginblock at hrun ⊢
      simp only [sat_bind, sat_subGas] at hrun ⊢
      split at hrun
      case isFalse => exact hrun.elim
      case isTrue hgas =>
        refine (if_pos hgas).mpr ?_
        simp only [sat_bind, sat_get, sat_ite, sat_exit, sat_set, sat_pure] at hrun ⊢
        -- The three refusals end the run.
        have hnever : ∀ {p : Prop}, ¬ (none = some next ∧ p) := fun h => by cases h.1
        refine ⟨fun h => absurd (hrun.1 h) hnever, fun h =>
          ⟨fun h' => absurd ((hrun.2 h).1 h') hnever,
          fun h' => ⟨fun h'' => absurd (((hrun.2 h).2 h').1 h'') hnever, fun h'' => ?_⟩⟩⟩
        obtain ⟨hnext, rfl⟩ := ((hrun.2 h).2 h').2 h''
        exact ⟨hnext, rfl⟩
  | _ => cases hrun

/-! ### The functions of the table -/

omit [Env] in
/-- A function that has its items and room works inside the slots of its opcode. -/
theorem Room.within {change : Int} (h : Room fn change s) (hitems : fn.items = fn.footprint)
    (hlo : lo ≤ s.stackSize - fn.items.1) (hhi : s.stackSize + fn.items.2 - 1 ≤ hi) :
    fn.Within s.topItem lo hi := by
  have htop : ∀ p : Int, p = s.stackSize - 1 →
      lo ≤ p + 1 - fn.items.1 ∧ p + fn.items.2 ≤ hi := fun p hp => by omega
  unfold InstrFn.Within
  rw [← hitems]
  exact htop _ h.stack.topItem

/-- Every function of the table reads and writes between the items that it takes and those that it
leaves, for all four shapes of a function. -/
theorem InstrFn.call_ignoresOthers (hmem : (opcode, fn) ∈ instructionFnTable) (hs : StackIn s)
    (hlo : lo ≤ s.stackSize - fn.items.1) (hhi : s.stackSize + fn.items.2 - 1 ≤ hi)
    {change : Int} (hroom : Room fn change s) :
    IgnoresOthers lo hi (fn.call analysis instr arg) s := by
  have hdup : fn ≠ .opDup 0 :=
    (by decide : ∀ e ∈ instructionFnTable, e.2 ≠ .opDup 0) (opcode, fn) hmem
  have htop : s.topItem = s.stackSize - 1 := hs.topItem
  have hpush : fn.items = (0, 1) → lo ≤ s.topItem + 1 ∧ s.topItem + 1 ≤ hi := by
    intro hitems
    rw [hitems] at hlo hhi
    have hslot : ∀ p : Int, p = s.stackSize - 1 → lo ≤ p + 1 ∧ p + 1 ≤ hi := fun p hp => by
      simp only at hlo hhi
      omega
    exact hslot _ htop
  have hpop : ∀ n : Nat, fn.items = (n + 1, 0) →
      lo ≤ s.topItem ∧ lo ≤ s.topItem - n ∧ s.topItem ≤ hi := by
    intro n hitems
    rw [hitems] at hlo hhi
    have hslot : ∀ p : Int, p = s.stackSize - 1 → lo ≤ p ∧ lo ≤ p - n ∧ p ≤ hi := fun p hp => by
      simp only at hlo hhi
      omega
    exact hslot _ htop
  rw [InstrFn.call_eq]
  cases fn with
  | opJump =>
      obtain ⟨hlow, -, hhigh⟩ := hpop 0 rfl
      exact RunsWith.ignoresOthers fun w => runsWith_opJump ⟨hlow, hhigh⟩
  | opJumpi =>
      obtain ⟨-, hlow, hhigh⟩ := hpop 1 rfl
      exact RunsWith.ignoresOthers fun w => runsWith_opJumpi hlow hhigh
  | opPc =>
      cases arg with
      | number n => exact RunsWith.ignoresOthers fun w => runsWith_pushNext (hpush rfl) _
      | _ => exact fun _ _ _ hrun => by cases hrun
  | opGas =>
      cases arg with
      | number n =>
          intro w next s' hrun
          -- The word is pushed behind the entry of the trace.
          exact runsWith_pushNext (s := { s with
            estate := { s.estate with
              trace := s.estate.trace ++ [.gasSeen (s.estate.gasLeft + (s.currentBlockCost - n))] } })
            (hpush rfl) _ (some next) s' hrun
      | _ => exact fun _ _ _ hrun => by cases hrun
  | opPushSmall =>
      cases arg with
      | smallPushValue value => exact RunsWith.ignoresOthers fun w => runsWith_pushNext (hpush rfl) _
      | _ => exact fun _ _ _ hrun => by cases hrun
  | opPushFull =>
      cases arg with
      | pushValue value => exact RunsWith.ignoresOthers fun w => runsWith_pushNext (hpush rfl) _
      | _ => exact fun _ _ _ hrun => by cases hrun
  | opxBeginblock => exact opxBeginblock_ignoresOthers
  | opUndefined => exact fun _ _ _ hrun => by cases hrun
  | opSstore | opCreate | opCall | opCallcode | opDelegatecall | opCreate2 | opStaticcall =>
      exact opCorrected_ignoresOthers rfl hdup (hroom.within rfl hlo hhi)
  | opReturn | opRevert | opSelfdestruct | opStop | opInvalid => exact terminate_ignoresOthers rfl
  | _ => exact opCore_ignoresOthers rfl hdup (hroom.within rfl hlo hhi)

/-! ### `DUP` and `SWAP` -/

omit [Env] in
/-- The entries of the table for `DUP1` to `DUP16`. -/
theorem dup_entries : ∀ n < 16, ∀ e ∈ instructionFnTable, e.1 = .dup1 + BitVec.ofNat 8 n →
    e.2 = .opDup (n + 1) ∧ (traits e.1).stackHeightRequired = n + 1 ∧
      (traits e.1).stackHeightChange = 1 := by with_unfolding_all decide

omit [Env] in
/-- The entries of the table for `SWAP1` to `SWAP16`. -/
theorem swap_entries : ∀ n < 16, ∀ e ∈ instructionFnTable, e.1 = .swap1 + BitVec.ofNat 8 n →
    e.2 = .opSwap (n + 1) ∧ (traits e.1).stackHeightRequired = n + 2 ∧
      (traits e.1).stackHeightChange = 0 := by with_unfolding_all decide

/-- The state behind `DUP`, with a copy of the item `n` below the top. -/
def AdvancedExecutionState.duplicated (s : AdvancedExecutionState) (n : Nat) :
    AdvancedExecutionState :=
  { s with
    topItem := s.topItem + 1
    estate := s.estate.setSlot (s.topItem + 1) (s.estate.stackSpace (s.topItem - n)) }

/-- The state behind `SWAP`, with the top and the item `n` below it exchanged. -/
def AdvancedExecutionState.exchanged (s : AdvancedExecutionState) (n : Nat) :
    AdvancedExecutionState :=
  { s with
    estate := (s.estate.setSlot s.topItem (s.estate.stackSpace (s.topItem - n))).setSlot
      (s.topItem - n) (s.estate.stackSpace s.topItem) }

omit [Env] in
/-- DUP copies the item under the stack pointer to a new slot. -/
theorem opDup_ok {n : Nat} (hchange : (traits (.dup1 + BitVec.ofNat 8 n)).stackHeightChange = 1)
    (hitem : inStackSpace (s.topItem - n)) (hspace : inStackSpace (s.topItem + 1)) :
    opDup (n + 1) instr s = .ok (some (instr + 1)) (s.duplicated n) := by
  have hslot : StackTop.get s.topItem (((n + 1 : Nat) : Int) - 1) = s.topItem - n := by
    unfold StackTop.get
    congr 1
    omega
  rw [← sat_eq_iff]
  unfold opDup dup StackTop.push
  simp only [Nat.add_sub_cancel, sat_opCore, sat_bind, hslot, sat_load, if_pos hitem, sat_store,
    if_pos hspace, sat_pure, hchange, true_and]
  rfl

omit [Env] in
/-- SWAP exchanges the top item and the one under it. -/
theorem opSwap_ok {n : Nat} (hchange : (traits (.swap1 + BitVec.ofNat 8 n)).stackHeightChange = 0)
    (htop : inStackSpace s.topItem) (hitem : inStackSpace (s.topItem - (n + 1 : Nat))) :
    opSwap (n + 1) instr s = .ok (some (instr + 1)) (s.exchanged (n + 1)) := by
  have hkeep : ∀ p : Int, p + 0 = p := fun p => by omega
  have hbehind : ∀ estate : ExecutionState,
      ({ s with estate := estate, topItem := s.topItem + 0 } : AdvancedExecutionState) =
        { s with estate := estate } := fun estate => by
    have htop : s.topItem + 0 = s.topItem := hkeep s.topItem
    rw [htop]
  rw [← sat_eq_iff]
  unfold opSwap swap StackTop.top StackTop.get
  simp only [Nat.add_sub_cancel, sat_opCore, sat_bind, sat_load, if_pos hitem, sat_store,
    if_pos htop, hchange, true_and, hbehind]
  rfl

end

/-! ### The frame of every instruction -/

/-- The lowest slot of the items that the opcode requires. -/
def AdvancedExecutionState.lowest (s : AdvancedExecutionState) (opcode : Opcode) : Int :=
  s.stackSize - (traits opcode).stackHeightRequired

/-- The highest slot that the opcode has room for. -/
def AdvancedExecutionState.highest (s : AdvancedExecutionState) (opcode : Opcode) : Int :=
  s.stackSize + max 0 (traits opcode).stackHeightChange - 1

/-- With the items and the room of its opcode, an instruction function never leaves the stack space.
Where it continues the run, it changes the height as its traits say, it leaves the words below its
items and above its room alone, and it does the same with any other words there. `DUP` pushes a copy
of its item and `SWAP` exchanges two items, and nothing else changes. -/
theorem call_frame (hmem : (opcode, fn) ∈ instructionFnTable) (analysis : CodeAnalysis)
    (arg : InstructionArgument) (hs : StackIn s)
    (hreq : (traits opcode).stackHeightRequired ≤ s.stackSize)
    (hroom : s.stackSize + max 0 (traits opcode).stackHeightChange ≤ 1024) :
    Sat (fn.call analysis instr arg) s (fun _ _ => True) (fun f _ => f ≠ .stackOutOfBounds) ∧
      (∀ next s', fn.call analysis instr arg s = .ok (some next) s' →
        s'.stackSize = s.stackSize + (traits opcode).stackHeightChange ∧
          (∀ p, p < s.lowest opcode ∨ s.highest opcode < p →
            s'.estate.stackSpace p = s.estate.stackSpace p) ∧
          ∀ w, fn.call analysis instr arg (s.others (s.lowest opcode) (s.highest opcode) w) =
            .ok (some next) (s'.others (s.lowest opcode) (s.highest opcode) w)) ∧
      (∀ n < 16, opcode = .dup1 + BitVec.ofNat 8 n →
        fn.call analysis instr arg s = .ok (some (instr + 1)) (s.duplicated n)) ∧
      ∀ n < 16, opcode = .swap1 + BitVec.ofNat 8 n →
        fn.call analysis instr arg s = .ok (some (instr + 1)) (s.exchanged (n + 1)) := by
  have hgrow : s.stackSize + (traits opcode).stackHeightChange ≤ 1024 := by omega
  -- The stack stays in its space, and the words outside of the range do not matter.
  have hkeeps : KeepsStack (traits opcode).stackHeightChange s (fn.call analysis instr arg) :=
    InstrFn.call_keepsStack hmem hs hreq hgrow
  have hitems : (fn.items.1 : Int) ≤ (traits opcode).stackHeightRequired ∧
      (fn.items.2 : Int) ≤ max 0 (traits opcode).stackHeightChange ∧
      -(traits opcode).stackHeightRequired ≤ (traits opcode).stackHeightChange :=
    items_traits _ hmem
  have hignores : IgnoresOthers (s.lowest opcode) (s.highest opcode) (fn.call analysis instr arg) s :=
    InstrFn.call_ignoresOthers hmem hs (by unfold AdvancedExecutionState.lowest; omega)
      (by unfold AdvancedExecutionState.highest; omega) (room_of_traits hmem hs hreq hgrow)
  refine ⟨hkeeps.mono (fun _ _ _ => trivial) fun _ _ hf => hf.1, fun next s' hrun => ⟨?_, ?_, ?_⟩,
    fun n hn hdup => ?_, fun n hn hswap => ?_⟩
  -- The height, the words that stay and the words that do not matter.
  · exact (hkeeps.of_ok hrun).size (by simp)
  · intro p hp
    exact hignores.frame hrun fun hin => by
      rcases hp with hp | hp
      · exact absurd hp (not_lt.2 hin.1)
      · exact absurd hp (not_lt.2 hin.2)
  · exact fun w => hignores w next s' hrun
  -- The row of the table names the item, which is in the stack space.
  · obtain ⟨hfn, hneeds, hchange⟩ : fn = .opDup (n + 1) ∧
        (traits opcode).stackHeightRequired = n + 1 ∧ (traits opcode).stackHeightChange = 1 :=
      dup_entries n hn _ hmem hdup
    subst hfn hdup
    have hslot : ∀ p : Int, p - n = p + -n := fun p => by omega
    refine opDup_ok hchange ?_ (hs.inStackSpace (by omega) (by omega))
    rw [hslot]
    exact hs.inStackSpace (by omega) (by omega)
  -- The same for the two items of a SWAP.
  · obtain ⟨hfn, hneeds, hchange⟩ : fn = .opSwap (n + 1) ∧
        (traits opcode).stackHeightRequired = n + 2 ∧ (traits opcode).stackHeightChange = 0 :=
      swap_entries n hn _ hmem hswap
    subst hfn hswap
    have hslot : ∀ p : Int, p - (n + 1 : Nat) = p + -(n + 1 : Nat) := fun p => by omega
    have hzero : ∀ p : Int, p + 0 = p := fun p => by omega
    have htop : inStackSpace (s.topItem + 0) := hs.inStackSpace (by omega) (by omega)
    rw [hzero] at htop
    refine opSwap_ok hchange htop ?_
    rw [hslot]
    exact hs.inStackSpace (by omega) (by omega)

end

/-- A state with the three items 1, 2 and 3, the last one on top. -/
def threeItems [Env] : AdvancedExecutionState :=
  let s := advancedExecutionStateInitV default .london (mockedHostInit default) []
  { s with
    topItem := 2
    estate := { s.estate with stackSpace := fun p => .ofU64 (BitVec.ofInt 64 (p + 1)) } }

/-- The second of three items and the top are exchanged, and the third one stays. -/
theorem call_frame_swap :
    let _ : Env := Env.zeroed
    ∃ s', InstrFn.call codeAnalysisInit 0 .uninit (.opSwap 1) threeItems = .ok (some 1) s' ∧
      s'.topItem = 2 ∧ s'.estate.stackSpace 2 = .ofU64 2 ∧ s'.estate.stackSpace 1 = .ofU64 3 ∧
      s'.estate.stackSpace 0 = .ofU64 1 := by
  intro _
  have hs : StackIn threeItems := ⟨rfl, by decide, by decide⟩
  have hmem : (Opcode.swap1, InstrFn.opSwap 1) ∈ instructionFnTable := by decide
  have hswap : InstrFn.call codeAnalysisInit 0 .uninit (.opSwap 1) threeItems =
      .ok (some 1) (threeItems.exchanged 1) :=
    (call_frame hmem codeAnalysisInit .uninit hs (by decide) (by decide)).2.2.2 0 (by decide)
      (by decide)
  exact ⟨_, hswap, by decide, by decide, by decide, by decide⟩

end TscVee
