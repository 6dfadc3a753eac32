import TscVee.Proofs.GasFrame

/-!
# `TscVee.Proofs.KeepsInt64`: the corrected implementations leave an `int64_t`

A function of the shape `opCorrected` takes its correction back at its end. The counter that its
core implementation leaves is an `int64_t` again, because it was charged through one.

* `KeepsInt64`: the counter is an `int64_t` at each normal end, with a rule for each part.
* `InstrFn.keepsInt64`: the corrected implementations.
-/

set_option autoImplicit false

namespace TscVee

open TscVee.Core Lib

variable {α β : Type}

/-- Each normal end of the program leaves a counter that is an `int64_t`. -/
def KeepsInt64 (x : Core α) : Prop :=
  ∀ s a s', isInt64 s.gasLeft → x s = .ok a s' → isInt64 s'.gasLeft

namespace KeepsInt64

/-- A program that does not touch the gas counter keeps it in range. -/
theorem of_gasless {x : Core α} (hx : Gasless x) : KeepsInt64 x := by
  intro s a s' hs h
  have hleft : s'.gasLeft = s.gasLeft := (hx s a s' h).1
  rwa [hleft]

/-- A value. -/
theorem pure (a : α) : KeepsInt64 (pure a : Core α) := of_gasless (.pure a)

/-- An early return. The gas counter is what it was in front of it. -/
theorem ret (status : StatusCode) : KeepsInt64 (Core.ret status : Core α) :=
  of_gasless (Gasless.ret status)

/-- A fault, behind which nothing is asked of the gas counter. -/
theorem fault (f : Fault) : KeepsInt64 (Core.fault f : Core α) := of_gasless (Gasless.fault f)

/-- Another value of the state that is read. -/
theorem read (f : ExecutionState → α) : KeepsInt64 (Core.read f) := by
  intro s a s' hs h
  cases h
  exact hs

/-- The rule for sequences: the second part starts with a gas counter that the first part has kept
in range. -/
theorem bind {x : Core β} {f : β → Core α} (hx : KeepsInt64 x) (hf : ∀ b, KeepsInt64 (f b)) :
    KeepsInt64 (x >>= f) := by
  intro s a s'' hs h
  obtain ⟨b, s', hxs, hfs⟩ := exists_of_bind h
  exact hf b s' a s'' (hx s b s' hs hxs) hfs

/-- The rule for branches. -/
theorem ite {c : Prop} [Decidable c] {x y : Core α} (hx : KeepsInt64 x) (hy : KeepsInt64 y) :
    KeepsInt64 (if c then x else y) := by
  split
  · exact hx
  · exact hy

/-- A statement under a condition, and the rest behind it. -/
theorem guard {c : Prop} [Decidable c] {x : Core Unit} {f : Unit → Core α} (hx : KeepsInt64 x)
    (hf : ∀ b, KeepsInt64 (f b)) : KeepsInt64 (if c then x >>= f else f ()) :=
  ite (bind hx hf) (hf ())

/-- The gas counter may be set to any value in range. It is for the caller to know that the value is
one. -/
theorem setGas {gas : Int} (h : isInt64 gas) : KeepsInt64 (Core.setGas gas) := by
  intro s a s' _ hrun
  cases hrun
  exact h

/-- A charge goes through an `int64_t`, whatever it is. -/
theorem subGas (cost : Int) : KeepsInt64 (Core.subGas cost) := by
  intro s a s' _ h
  have hfits : Sat (Core.subGas cost) s (fun _ t => isInt64 t.gasLeft) fun _ _ => True := by
    rw [sat_subGas']
    split
    case isTrue hfits => exact hfits
    case isFalse => trivial
  exact hfits.of_ok h

/-- A charge is checked by `int64`, so that a difference out of range is a fault and not a gas
counter. -/
theorem chargeGas (cost : Int) : KeepsInt64 (Core.chargeGas cost) :=
  .bind (subGas cost) fun _ => .bind (read _) fun _ => .ite (ret _) (pure _)

/-- A load leaves the gas counter alone. -/
theorem load (p : Slot) : KeepsInt64 (Core.load p) := of_gasless (Gasless.load p)

/-- So does a store. -/
theorem store (p : Slot) (value : Uint256) : KeepsInt64 (Core.store p value) :=
  of_gasless (Gasless.store p value)

/-- A request to the host does as well. What a callee returns is taken from the counter by the
caller. -/
theorem ask (op : HostOp) : KeepsInt64 (Core.ask op) := of_gasless (Gasless.ask op)

/-- The check of a number only lets it pass or not. -/
theorem int64 (x : Int) : KeepsInt64 (Core.int64 x) := of_gasless (Gasless.int64 x)

/-- Counting the undetermined contents is no work on the gas counter. -/
theorem nextFresh : KeepsInt64 Core.nextFresh := of_gasless Gasless.nextFresh

/-- Reading the memory is free, once it has been checked. -/
theorem readMemory (offset len : Nat) : KeepsInt64 (Core.readMemory offset len) :=
  of_gasless (Gasless.readMemory offset len)

/-- The test of the static flag returns early or does nothing. -/
theorem refuseStatic : KeepsInt64 refuseStatic := of_gasless Gasless.refuseStatic

/-- The output of the last call is dropped. -/
theorem dropReturnData : KeepsInt64 (modify fun s => { s with returnData := none } : Core PUnit) :=
  of_gasless (.update _ fun _ _ => rfl)

/-- A cold account is charged for by `chargeGas`. -/
theorem chargeColdAccount (addr : Address) (cost : Int) :
    KeepsInt64 (chargeColdAccount addr cost) := by
  unfold TscVee.chargeColdAccount
  refine .bind (read _) fun rev => .ite ?_ (pure _)
  exact .bind (ask _) fun access => .ite (chargeGas _) (pure _)

/-- `sstore` compares the gas counter with the stipend, and charges for the slot. It is one of the
few that look at the counter. -/
theorem sstore (top : StackTop) : KeepsInt64 (sstore top) := by
  unfold TscVee.sstore
  refine .bind refuseStatic fun _ => .bind (read _) fun rev => .bind (read _) fun gas => ?_
  refine .guard (ret _) fun _ => .bind (load _) fun x => .bind (load _) fun y => ?_
  refine .bind (read _) fun rev => .bind (read _) fun msg => ?_
  have hcharge : ∀ cost, KeepsInt64 (do
      let status ← Core.ask (.setStorage msg.recipient (storageWord x) (storageWord y))
      Core.chargeGas (sstoreCost rev status cost)) := fun cost =>
    .bind (ask _) fun status => chargeGas _
  exact .ite (.bind (ask _) fun access => .bind (pure _) hcharge) (.bind (pure _) hcharge)

section
variable [Env]

/-- The cost of the memory is computed by `int64` steps, and what is left is checked as well. -/
theorem growMemory (newSize : Nat) : KeepsInt64 (growMemory newSize) := by
  unfold TscVee.growMemory
  refine .bind (read _) fun memory => .bind (of_gasless (Gasless.memoryCost _)) fun _ =>
    .bind (of_gasless (Gasless.memoryCost _)) fun _ => .bind (subGas _) fun _ =>
    .bind (read _) fun _ => .ite (pure _) ?_
  exact of_gasless (.bind (Gasless.memoryGrow _) fun _ => .bind (Gasless.log _) fun _ => .pure _)

/-- A memory check grows the memory or returns early. -/
theorem requireMemoryU256 (offset size : Uint256) :
    KeepsInt64 (requireMemoryU256 offset size) := by
  unfold TscVee.requireMemoryU256 checkMemoryU256 checkMemoryU64
  refine .bind (.ite (pure _) (.ite (pure _) (.ite (pure _) (.bind (of_gasless (Gasless.log _))
    fun _ => .bind (read _) fun memory =>
    .ite (growMemory _) (of_gasless (.bind (Gasless.log _) fun _ => .pure _)))))) fun _ => ?_
  exact .ite (ret _) (pure _)

/-- The four calls: each charge and the settlement of the gas of the callee go through `int64`. The
proof follows the phases of a call. -/
theorem callVariant {v : CallVariant} (hextra : ∀ hasValue dst, KeepsInt64 (v.extraCost hasValue dst))
    (top : StackTop) : KeepsInt64 (callVariant v top) := by
  -- The parts of the call in turn: the message, the gas, the stipend, the result, the host.
  have hmessage : ∀ dst value inputOffset inputSize,
      KeepsInt64 (callMessage v dst value inputOffset inputSize) := by
    intro dst value inputOffset inputSize
    unfold callMessage
    refine .bind (read _) fun state => .bind nextFresh fun k => .bind (load _) fun size => ?_
    refine .ite (.bind (load _) fun offset => ?_) (pure _)
    exact .bind (of_gasless (Gasless.memoryPtr _ _)) fun _ => pure _
  have hgas : ∀ gas, KeepsInt64 (callGas gas) := fun gas => by
    unfold callGas
    refine .bind (load _) fun word => .bind (read _) fun left => .bind (read _) fun rev => ?_
    exact .ite (pure _) (.ite (ret _) (pure _))
  have hstipend : ∀ hasValue msgGas, KeepsInt64 (addStipend hasValue msgGas) := by
    intro hasValue msgGas
    exact .ite (.bind (int64 _) fun _ => .bind (subGas _) fun _ => pure _) (pure _)
  have htake : ∀ stack outputOffset outputSize result,
      KeepsInt64 (takeCallResult stack outputOffset outputSize result) := by
    intro stack outputOffset outputSize result
    unfold takeCallResult
    refine .guard (fault _) fun _ => .bind (store _ _) fun _ => ?_
    refine .bind (load _) fun size => .ite ?_ (pure _)
    refine .guard (fault _) fun _ => .bind (load _) fun offset => ?_
    exact of_gasless (Gasless.writeMemory _ _)
  have hhost : ∀ hasValue value msg stack outputOffset outputSize,
      KeepsInt64 (callHost hasValue value msg stack outputOffset outputSize) := by
    intro hasValue value msg stack outputOffset outputSize
    unfold callHost
    refine .bind dropReturnData fun _ => .bind (read _) fun stateMsg => .ite (pure _) ?_
    refine .bind (ask _) fun balance => .ite (pure _) (.bind (ask _) fun result => ?_)
    exact .bind (htake _ _ _ _) fun _ => .bind (int64 _) fun _ => subGas _
  have hwith : ∀ gas dst value stack, KeepsInt64 (callWith v gas dst value stack) := by
    intro gas dst value stack
    unfold callWith
    dsimp only [StackTop.pop, StackTop.push]
    refine .bind (.bind (store _ _) fun _ => pure _) fun stack => ?_
    refine .bind (chargeColdAccount _ _) fun _ => ?_
    refine .bind (load _) fun _ => .bind (load _) fun _ => .bind (requireMemoryU256 _ _) fun _ => ?_
    refine .bind (load _) fun _ => .bind (load _) fun _ => .bind (requireMemoryU256 _ _) fun _ => ?_
    refine .bind (hmessage _ _ _ _) fun msg => .bind (hextra _ _) fun extraCost => ?_
    refine .bind (chargeGas _) fun _ => .bind (hgas _) fun _ => ?_
    exact .bind (hstipend _ _) fun _ => hhost _ _ _ _ _ _
  unfold TscVee.callVariant
  dsimp only [StackTop.pop]
  refine .bind (load _) fun word => .ite (.bind (load _) fun value => ?_) ?_
  · exact hwith _ _ _ _
  · exact hwith _ _ _ _

/-- `call` is the variant with the charges for a new account and for the value. -/
theorem call (top : StackTop) : KeepsInt64 (call_ top) := by
  refine callVariant (fun hasValue dst => ?_) top
  refine .bind (read _) fun state => .guard (ret _) fun _ => ?_
  exact .bind (read _) fun rev => .ite (.bind (ask _) fun known => .ite (pure _) (pure _)) (pure _)

/-- The shared part of the two creations, which subtracts what the callee has used. -/
theorem createMessage (kind : CallKind) (endowment initCodeOffset initCodeSize : Slot)
    (salt : Uint256) (stack : StackTop) :
    KeepsInt64 (createMessage kind endowment initCodeOffset initCodeSize salt stack) := by
  have hinit : ∀ msg, KeepsInt64 (initCodeMessage initCodeOffset initCodeSize msg) := fun msg => by
    unfold initCodeMessage
    refine .bind (load _) fun size => .ite ?_ (pure _)
    refine .bind (load _) fun offset => .bind (readMemory _ _) fun code => ?_
    exact .bind nextFresh fun k => .guard (fault _) fun _ => pure _
  have htake : ∀ stack result, KeepsInt64 (takeCreateResult stack result) := by
    intro stack result
    unfold takeCreateResult
    refine .guard (fault _) fun _ => .ite (.bind nextFresh fun k => ?_) (pure _)
    exact .bind (.bind (store _ _) fun _ => pure _) fun _ => pure _
  unfold TscVee.createMessage
  refine .bind (.bind (store _ _) fun _ => pure _) fun stack => .bind dropReturnData fun _ => ?_
  refine .bind (read _) fun stateMsg => .ite (pure _) (.bind (ask _) fun balance => ?_)
  refine .bind (load _) fun value => .ite (pure _) (.bind (read _) fun gas => ?_)
  refine .bind (read _) fun rev => .bind nextFresh fun k => .bind (hinit _) fun msg => ?_
  refine .bind (ask _) fun result => .bind (int64 _) fun _ => .bind (subGas _) fun _ => htake _ _

/-- `create` has no charges of its own besides the memory. -/
theorem create (top : StackTop) : KeepsInt64 (create top) := by
  unfold TscVee.create
  refine .bind refuseStatic fun _ => .bind (load _) fun _ => .bind (load _) fun _ => ?_
  exact .bind (requireMemoryU256 _ _) fun _ => createMessage _ _ _ _ _ _

/-- `create2` charges for the hash of its init code first. -/
theorem create2 (top : StackTop) : KeepsInt64 (create2 top) := by
  have hword : ∀ x, isInt64 (toInt64 x) := fun x => by
    have := Int.le_bmod (x := x) (m := 2 ^ 64) (by decide)
    have := Int.bmod_lt (x := x) (m := 2 ^ 64) (by decide)
    unfold isInt64 toInt64
    omega
  unfold TscVee.create2
  refine .bind refuseStatic fun _ => .bind (load _) fun _ => .bind (load _) fun _ => ?_
  refine .bind (requireMemoryU256 _ _) fun _ => .bind (load _) fun salt => .bind (load _) fun _ => ?_
  refine .bind (read _) fun gas => .bind (setGas (hword _)) fun _ => .bind (read _) fun _ => ?_
  exact .guard (ret _) fun _ => createMessage _ _ _ _ _ _

end

end KeepsInt64

/-- Each corrected implementation leaves an `int64_t`. -/
theorem InstrFn.keepsInt64 [Env] {fn : InstrFn} {opcode : Opcode} {body : StackTop → Core Unit}
    (hshape : fn.shape = .corrected opcode body) (top : StackTop) : KeepsInt64 (body top) := by
  cases fn with
  | opSstore =>
      cases hshape
      exact .sstore top
  | opCall =>
      cases hshape
      exact .call top
  | opCallcode | opDelegatecall | opStaticcall =>
      cases hshape
      exact .callVariant (fun _ _ => .pure _) top
  | opCreate =>
      cases hshape
      exact .create top
  | opCreate2 =>
      cases hshape
      exact .create2 top
  | _ => cases hshape

end TscVee
