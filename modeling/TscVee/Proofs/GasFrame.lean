import TscVee.Lib.Budget
import TscVee.Proofs.GasFalls
import TscVee.Proofs.StackFrame

/-!
# `TscVee.Proofs.GasFrame`: implementations that do not look at the gas counter

The gas counter is a `Budget` of the implementations. Most of them charge what they cost and never
look at what is left, so their normal runs go through from every counter that covers the charges.
The exceptions are `SSTORE`, the calls and the creations, and `SELFDESTRUCT`.

* `gasBudget`, `ignores_*`, `growMemory_draws`: the parts of the implementations.
* `Has.draws`: an implementation whose effects say that it neither reads nor raises the counter.
* `log0_draws`, `logTopics_draws`: the logs. Their charge is negative for a size above `2 ^ 63`, but
  then the data is not in the memory.
* `InstrFn.draws`: the core implementations of the shape `opCore`.
-/

set_option autoImplicit false

namespace TscVee

open TscVee.Core Lib

/-- The gas counter, an `int64_t`. -/
def gasBudget : Budget ExecutionState where
  left s := s.gasLeft
  add d s := { s with gasLeft := s.gasLeft + d }
  left_add _ _ := rfl
  limit := 2 ^ 63

/-- The program charges nothing and does not look at the gas counter. -/
abbrev Gasless {α : Type} (x : Core α) : Prop := gasBudget.Ignores x

/-- From the state, the program charges the gas counter without looking at it. -/
abbrev DrawsGas {α : Type} (x : Core α) (s : ExecutionState) : Prop :=
  gasBudget.Draws (fun _ => True) x s

variable {α β : Type}

/-! ### Parts that ignore the counter -/

namespace Gasless

/-- A field is read that is not the gas counter. -/
theorem read (f : ExecutionState → α) (h : ∀ s gas, f { s with gasLeft := gas } = f s) :
    Gasless (Core.read f) := Budget.Ignores.read (B := gasBudget) fun _ s => h s _

/-- A fault is the same for every gas counter. -/
theorem fault (f : Fault) : Gasless (Core.fault f : Core α) := .throw _

/-- An early return is the same for every gas counter. -/
theorem ret (status : StatusCode) : Gasless (Core.ret status : Core α) := .throw _

/-- An update that commutes with a change of the gas counter. -/
theorem update (g : ExecutionState → ExecutionState)
    (h : ∀ s gas, g { s with gasLeft := gas } = { g s with gasLeft := gas }) :
    Gasless (modify g : Core PUnit) := by
  have hleft : ∀ s, (g s).gasLeft = s.gasLeft := fun s => by
    have hgas := congrArg ExecutionState.gasLeft (h s s.gasLeft)
    exact hgas
  refine .modify (B := gasBudget) hleft fun d s => ?_
  show g { s with gasLeft := s.gasLeft + d } = { g s with gasLeft := (g s).gasLeft + d }
  rw [h, hleft]

/-- An event is recorded next to the gas counter. -/
theorem log (e : Event) : Gasless (Core.log e) := update _ fun _ _ => rfl

/-- The counter of addresses is next to the gas counter. -/
theorem nextFresh : Gasless Core.nextFresh :=
  .bind (read _ fun _ _ => rfl) fun _ => .bind (update _ fun _ _ => rfl) fun _ => .pure _

/-- The host does not see the gas counter. What a request says about gas is in its arguments. -/
theorem ask (op : HostOp) : Gasless (Core.ask op) := by
  unfold Core.ask
  refine .bind (log _) fun _ => .bind (read _ fun _ _ => rfl) fun host => ?_
  cases op.serve host with
  | ok a host => exact .bind (update _ fun _ _ => rfl) fun _ => .pure _
  | error f host => exact .bind (update _ fun _ _ => rfl) fun _ => fault f

/-- The test of the range of an `int64_t` does not use the state. -/
theorem int64 (x : Int) : Gasless (Core.int64 x) := by
  unfold Core.int64
  exact .ite (fun _ => .pure _) fun _ => fault _

/-- The test of the static flag reads the message only. -/
theorem refuseStatic : Gasless refuseStatic := by
  show Gasless (Core.read executionStateInStaticMode >>= fun isStatic =>
    if isStatic = true then Core.ret .staticModeViolation else pure ())
  refine .bind (read _ fun _ _ => rfl) fun _ => ?_
  exact .ite (fun _ => ret _) fun _ => .pure _

/-- Loading a word reads the stack space only. -/
theorem load (p : Slot) : Gasless (Core.load p) := by
  unfold Core.load
  exact .ite (fun _ => .bind (fault _) fun _ => read _ fun _ _ => rfl) fun _ => read _ fun _ _ => rfl

/-- Storing a word changes the stack space only. -/
theorem store (p : Slot) (value : Uint256) : Gasless (Core.store p value) := by
  unfold Core.store
  exact .ite (fun _ => .bind (fault _) fun _ => update _ fun _ _ => rfl)
    fun _ => update _ fun _ _ => rfl

/-- A range is recorded and tested against the size of the memory. -/
theorem access (offset len : Nat) : Gasless (Core.access offset len) := by
  unfold Core.access
  refine .bind (read _ fun _ _ => rfl) fun memory => .bind (log _) fun _ => ?_
  cases memory.mData with
  | none => exact fault _
  | some data => exact .ite (fun _ => .pure _) fun _ => fault _

/-- Reading EVM memory is without gas. -/
theorem readMemory (offset len : Nat) : Gasless (Core.readMemory offset len) := by
  unfold Core.readMemory
  exact .ite (fun _ => .pure _) fun _ => .bind (access _ _) fun _ => .pure _

/-- Writing EVM memory is without gas. -/
theorem writeMemory (offset : Nat) (bytes : List Byte) :
    Gasless (Core.writeMemory offset bytes) := by
  unfold Core.writeMemory
  exact .ite (fun _ => .pure _) fun _ => .bind (access _ _) fun _ => update _ fun _ _ => rfl

/-- Clearing EVM memory is without gas. -/
theorem clearMemory (offset len : Nat) : Gasless (Core.clearMemory offset len) := by
  unfold Core.clearMemory
  exact .ite (fun _ => .pure _) fun _ => .bind (access _ _) fun _ => update _ fun _ _ => rfl

/-- A pointer into EVM memory is without gas. -/
theorem memoryPtr (offset len : Nat) : Gasless (Core.memoryPtr offset len) := by
  unfold Core.memoryPtr
  refine .bind (read _ fun _ _ => rfl) fun memory => .bind (log _) fun _ => ?_
  cases memory.mData with
  | none => exact .pure _
  | some data => exact .pure _

/-- The price of a memory is computed before it is charged. -/
theorem memoryCost (words : Nat) : Gasless (memoryCost words) :=
  .bind (int64 _) fun _ => int64 _

variable [Env]

/-- The reallocation is without gas: it is charged in front of it. -/
theorem memoryGrow (newSize : Nat) : Gasless (Core.memoryGrow newSize) := by
  have hallocate : Gasless memoryAllocateCapacity := by
    unfold Core.memoryAllocateCapacity
    exact .bind (read _ fun _ _ => rfl) fun _ => .bind nextFresh fun _ => update _ fun _ _ => rfl
  unfold Core.memoryGrow
  refine .bind (read _ fun _ _ => rfl) fun memory => ?_
  refine .ite (fun _ => fault _) fun _ => .ite (fun _ => fault _) fun _ => ?_
  refine .ite (fun _ => .bind (update _ fun _ _ => rfl) fun _ => .bind hallocate fun _ =>
    .bind (read _ fun _ _ => rfl) fun memory => ?_) fun _ => .bind (read _ fun _ _ => rfl)
    fun memory => ?_
  all_goals
    cases memory.mData with
    | none => exact fault _
    | some data => exact update _ fun _ _ => rfl

end Gasless

/-! ### Parts that charge -/

section
variable {s : ExecutionState}

/-- A counter that is moved and charged. -/
theorem gasBudget_add_charge (d cost : Int) :
    gasBudget.add d { s with gasLeft := s.gasLeft - cost } =
      { s with gasLeft := s.gasLeft + d - cost } := by
  show { s with gasLeft := s.gasLeft - cost + d } = _
  rw [show s.gasLeft - cost + d = s.gasLeft + d - cost by omega]

/-- A charge that the gas is enough for. -/
theorem chargeGas_ok {cost : Int} (hfits : isInt64 (s.gasLeft - cost))
    (hpos : 0 ≤ s.gasLeft - cost) :
    chargeGas cost s = .ok () { s with gasLeft := s.gasLeft - cost } := by
  refine sat_eq_iff.1 ?_
  rw [sat_chargeGas, if_pos hfits, if_neg (by omega)]
  exact ⟨rfl, rfl⟩

/-- Gas that is taken without a test of the sign. -/
theorem subGas_ok {cost : Int} (hfits : isInt64 (s.gasLeft - cost)) :
    Core.subGas cost s = .ok () { s with gasLeft := s.gasLeft - cost } := by
  refine sat_eq_iff.1 ?_
  rw [sat_subGas', if_pos hfits]
  exact ⟨rfl, rfl⟩

/-- A charge that is not negative. -/
theorem chargeGas_draws {cost : Int} (hcost : 0 ≤ cost) : DrawsGas (chargeGas cost) s := by
  intro a s' h _
  have hpaid : Sat (chargeGas cost) s
      (fun _ t => t = { s with gasLeft := s.gasLeft - cost } ∧ 0 ≤ s.gasLeft - cost)
      fun _ _ => True := by
    rw [sat_chargeGas]
    split
    · split
      · trivial
      · exact ⟨rfl, by omega⟩
    · trivial
  obtain ⟨rfl, hpos⟩ := hpaid.of_ok h
  refine ⟨show s.gasLeft - cost ≤ s.gasLeft by omega, fun d hlow hhigh => ?_⟩
  -- The shifted counter pays the charge and stays an `int64_t`.
  have hlow : 0 ≤ s.gasLeft - cost + d := hlow
  have hhigh : s.gasLeft + d < 2 ^ 63 := hhigh
  have hfits : isInt64 (s.gasLeft + d - cost) := by unfold isInt64; omega
  rw [gasBudget_add_charge]
  exact chargeGas_ok hfits (show 0 ≤ s.gasLeft + d - cost by omega)

/-- A charge with a second outcome, for a counter that does not cover it. Where the run goes on, the
charge must not be negative. -/
theorem payOr_draws {cost : Int} {rest : Core Bool}
    (hrest : gasBudget.Draws (· = true) rest { s with gasLeft := s.gasLeft - cost })
    (hcost : ∀ t, rest { s with gasLeft := s.gasLeft - cost } = .ok true t → 0 ≤ cost) :
    gasBudget.Draws (· = true) (do
      Core.subGas cost
      if (← Core.read (·.gasLeft)) < 0 then return false
      rest) s := by
  intro a s' h ha
  subst ha
  have hpaid : Sat (Core.subGas cost) s
      (fun _ t => t = { s with gasLeft := s.gasLeft - cost }) fun _ _ => True := by
    rw [sat_subGas']
    split <;> trivial
  obtain ⟨_, t, hsub, h⟩ := exists_of_bind h
  obtain rfl := hpaid.of_ok hsub
  obtain ⟨gas, t, hread, h⟩ := exists_of_bind h
  obtain ⟨rfl, rfl⟩ : s.gasLeft - cost = gas ∧ { s with gasLeft := s.gasLeft - cost } = t := by
    cases hread
    exact ⟨rfl, rfl⟩
  -- The gas is compared with 0 behind the charge.
  split at h
  · cases h
  case isFalse hpos =>
    have hnonneg := hcost _ h
    obtain ⟨hle, hadd⟩ := hrest true s' h rfl
    have hle : s'.gasLeft ≤ s.gasLeft - cost := hle
    refine ⟨show s'.gasLeft ≤ s.gasLeft by omega, fun d hlow hhigh => ?_⟩
    have hlow' : 0 ≤ s'.gasLeft + d := hlow
    have hhigh' : s.gasLeft + d < 2 ^ 63 := hhigh
    -- With `d` more gas the same charge is paid.
    have hpay : Core.subGas cost (gasBudget.add d s) =
        .ok () (gasBudget.add d { s with gasLeft := s.gasLeft - cost }) := by
      have hfits : isInt64 (s.gasLeft + d - cost) := by unfold isInt64; omega
      rw [gasBudget_add_charge]
      exact subGas_ok hfits
    refine ok_bind hpay (ok_bind (b := s.gasLeft - cost + d) rfl ?_)
    rw [if_neg (by omega)]
    refine hadd d hlow ?_
    show s.gasLeft - cost + d < 2 ^ 63
    omega

/-- A number that passes the test of its range is handed on. -/
theorem int64_ok {x c : Int} {s' : ExecutionState} (h : int64 x s = .ok c s') : c = x ∧ s' = s := by
  have hvalue : Sat (int64 x) s (fun a t => a = x ∧ t = s) fun _ _ => True := by
    rw [sat_int64]
    split <;> trivial
  exact hvalue.of_ok h

/-- What a memory of some words costs, without a fault. -/
theorem memoryCost_ok {words : Nat} {cost : Int} {s' : ExecutionState}
    (h : memoryCost words s = .ok cost s') : cost = memoryPrice words ∧ s' = s := by
  have hcost : Sat (memoryCost words) s (fun a t => a = memoryPrice words ∧ t = s)
      fun _ _ => True := by
    rw [sat_memoryCost]
    split <;> trivial
  exact hcost.of_ok h

variable [Env]

/-- `grow_memory`, when it succeeds: the new memory is larger, so it is not cheaper. -/
theorem growMemory_draws (newSize : Nat) :
    gasBudget.Draws (· = true) (growMemory newSize) s := by
  unfold growMemory
  refine .bind (R := fun _ => True) ((Gasless.read _ fun _ _ => rfl).draws s) fun memory s₁ h₁ =>
    ⟨?_, Or.inl trivial⟩
  -- The two costs depend on the size of the memory and not on the gas.
  obtain ⟨rfl, rfl⟩ : s.memory = memory ∧ s = s₁ := by
    cases h₁
    exact ⟨rfl, rfl⟩
  refine .bind (R := fun _ => True) ((Gasless.memoryCost _).draws s) fun newCost s₂ h₂ =>
    ⟨?_, Or.inl trivial⟩
  obtain ⟨rfl, rfl⟩ := memoryCost_ok h₂
  refine .bind (R := fun _ => True) ((Gasless.memoryCost _).draws s₂) fun currentCost s₃ h₃ =>
    ⟨?_, Or.inl trivial⟩
  obtain ⟨rfl, rfl⟩ := memoryCost_ok h₃
  have hrest : Gasless (do
      Core.memoryGrow (numWords newSize * 32)
      Core.log (.memCheck (memoryPrice (numWords newSize) - memoryPrice (s₃.memory.mSize / 32))
        s₃.memory.mSize (numWords newSize * 32))
      return true) :=
    .bind (Gasless.memoryGrow _) fun _ => .bind (Gasless.log _) fun _ => .pure _
  refine payOr_draws (hrest.draws _) fun t h => ?_
  obtain ⟨_, t', hgrow, -⟩ := exists_of_bind h
  -- The price grows with the size, so the difference is no refund.
  have hlarger := ((sat_memoryGrow _).of_ok hgrow).2.1
  have hlarger : s₃.memory.mSize < numWords newSize * 32 := hlarger
  have hmono := memoryPrice_mono (show s₃.memory.mSize / 32 ≤ numWords newSize by omega)
  omega

/-- The check of a range draws the price of the growth, and nothing when the memory reaches far
enough. -/
theorem checkMemoryU64_draws (offset : Uint256) (size : Nat) :
    gasBudget.Draws (· = true) (checkMemoryU64 offset size) s := by
  unfold checkMemoryU64
  refine .ite (fun _ => (Budget.Ignores.pure _).draws s) fun _ => ?_
  refine .bind (R := fun _ => True) ((Gasless.log _).draws s) fun _ s₀ _ => ⟨?_, Or.inl trivial⟩
  refine .bind (R := fun _ => True) ((Gasless.read _ fun _ _ => rfl).draws s₀) fun memory s₁ _ =>
    ⟨?_, Or.inl trivial⟩
  refine .ite (fun _ => growMemory_draws _) fun _ => ?_
  exact (Budget.Ignores.bind (Gasless.log _) fun _ => .pure _).draws _

omit [Env] in
/-- A refused check ends the run, so the run that goes on has passed it. -/
theorem require_draws {check : Core Bool} (hcheck : gasBudget.Draws (· = true) check s) :
    DrawsGas (do if !(← check) then Core.ret .outOfGas) s := by
  refine .bind hcheck fun passed s' _ => ?_
  cases passed with
  | true => exact ⟨(Budget.Ignores.pure _).draws s', Or.inl rfl⟩
  | false => exact ⟨(Gasless.ret _).draws s', Or.inr fun _ _ h => by cases h⟩

/-- So does the check whose failure ends the instruction. -/
theorem requireMemoryU64_draws (offset : Uint256) (size : Nat) :
    DrawsGas (requireMemoryU64 offset size) s := require_draws (checkMemoryU64_draws offset size)

/-- So does the check of a size in a word. -/
theorem requireMemoryU256_draws (offset size : Uint256) :
    DrawsGas (requireMemoryU256 offset size) s := by
  refine require_draws ?_
  unfold checkMemoryU256
  refine .ite (fun _ => (Budget.Ignores.pure _).draws s) fun _ => ?_
  exact .ite (fun _ => (Budget.Ignores.pure _).draws s) fun _ => checkMemoryU64_draws offset _

/-! ### Implementations -/

variable {e : Effects}

/-- The parts of an implementation that neither reads nor raises the counter. -/
theorem prim_draws {x : Core α} {Q : α → Prop} (h : Prim e α x Q) (hread : ¬ e.readsGas)
    (hraise : ¬ e.raisesGas) (s : ExecutionState) : DrawsGas x s := by
  cases h with
  | read f h => exact (Gasless.read f (h.resolve_left hread)).draws s
  | load p => exact (Gasless.load p).draws s
  | store p value => exact (Gasless.store p value).draws s
  | ret status => exact (Gasless.ret status).draws s
  | fault f => exact (Gasless.fault f).draws s
  | nextFresh => exact Gasless.nextFresh.draws s
  | ask op => exact (Gasless.ask op).draws s
  | refuseStatic => exact Gasless.refuseStatic.draws s
  | int64 y => exact (Gasless.int64 y).draws s
  -- The primitives that change the gas: a checked charge, and the growth of the memory.
  | chargeGas cost h => exact chargeGas_draws (h.resolve_right hraise)
  | subGas cost h => exact absurd h hraise
  | setGas gas h => exact absurd h.1 hraise
  | requireMemoryU64 offset size => exact requireMemoryU64_draws offset size
  | requireMemoryU256 offset size => exact requireMemoryU256_draws offset size
  | readMemory offset len => exact (Gasless.readMemory offset len).draws s
  | writeMemory offset bytes => exact (Gasless.writeMemory offset bytes).draws s
  | clearMemory offset len => exact (Gasless.clearMemory offset len).draws s
  | memoryPtr offset len => exact (Gasless.memoryPtr offset len).draws s
  | logAccess => exact (Gasless.log _).draws s
  | dropReturnData | setOutputSize | setOutputOffset =>
      exact (Gasless.update _ fun _ _ => rfl).draws s

/-- An implementation that neither reads nor raises the counter. -/
theorem Has.draws {x : Core α} {Q : α → Prop} (h : Has e x Q) (hread : ¬ e.readsGas)
    (hraise : ¬ e.raisesGas) {s : ExecutionState} (hmsg : s.msg = e.msg) : DrawsGas x s := by
  induction h generalizing s with
  | prim hp => exact prim_draws hp hread hraise s
  | pure => exact (Budget.Ignores.pure _).draws s
  | bind hx hf ihx ihf =>
      refine .seq (ihx hmsg) fun b s' hrun => ?_
      obtain ⟨hb, hmsg', -⟩ := (Has.frame hx s hmsg).of_ok hrun
      exact ihf b hb hmsg'

/-! ### Logs -/

/-- The effects of a part that does not touch the gas counter but for charges, with room for the
operands of every instruction. -/
def gaslessEffects (msg : Message) (top : Int) : Effects :=
  { wideEffects msg top with readsGas := False }

/-- A part of a log, and what it leaves for the rest. -/
theorem drawsGas_step {s₀ : ExecutionState} {x : Core β} {f : β → Core α} {Q : β → Prop}
    (hs : Kept s₀ s) (hread : ¬ e.readsGas) (hraise : ¬ e.raisesGas) (hmsg : s₀.msg = e.msg)
    (hx : Has e x Q) (hf : ∀ b, Q b → ∀ s', Kept s₀ s' → DrawsGas (f b) s') :
    DrawsGas (x >>= f) s := by
  have hmsg' := hs.msg.trans hmsg
  refine .seq (hx.draws hread hraise hmsg') fun b s' hrun => ?_
  obtain ⟨hb, hkept, -⟩ := (hx.kept hmsg').of_ok hrun
  exact hf b hb s' (hs.trans hkept)

omit [Env] in
/-- The charge of a log. A run that goes on behind a negative charge would have to find `2 ^ 63`
bytes of data in the memory. -/
theorem drawsGas_chargeLog {s₀ : ExecutionState} {n : Nat} {rest : Core Unit} (hs : Kept s₀ s)
    (hsize : s₀.memory.mSize < 2 ^ 63) (hn : n < 2 ^ 64)
    (hrest : ∀ s', Kept s₀ s' → DrawsGas rest s')
    (hnever : ∀ s', s'.memory.mSize < 2 ^ 63 → 2 ^ 63 ≤ n → RunsTo (fun _ => False) rest s') :
    DrawsGas (do chargeGas (← int64 (toInt64 n * 8)); rest) s := by
  refine .seq ((Gasless.int64 _).draws s) fun cost s₁ h₁ => ?_
  obtain ⟨hcost, hstate⟩ := int64_ok h₁
  have hcharged : ∀ t, chargeGas cost s₁ = .ok () t → Kept s₀ t := by
    intro t ht
    have hkept : Sat (chargeGas cost) s₁ (fun _ t => Kept s₀ t) fun _ _ => True := by
      rw [sat_chargeGas, hstate]
      split
      · split
        · trivial
        · exact hs.trans (Kept.gas s _)
      · trivial
    exact hkept.of_ok ht
  by_cases hlarge : 2 ^ 63 ≤ n
  · refine .never fun a s' h _ => ?_
    obtain ⟨_, t, hcharge, hrun⟩ := exists_of_bind h
    exact (hnever t ((hcharged t hcharge).size hsize) hlarge).of_ok hrun
  · have hnonneg : 0 ≤ cost := by
      have hbmod : toInt64 n = n := Int.bmod_eq_of_le (by omega) (by omega)
      omega
    exact .seq (chargeGas_draws hnonneg) fun _ t ht => hrest t (hcharged t ht)

variable {top : Int}

/-- A slot that one of the operands of an instruction can have. -/
theorem gasless_load {msg : Message} {p : Int} (h : top - 1023 ≤ p ∧ p ≤ top + 1024) :
    Has (gaslessEffects msg top) (load p) fun _ => True := Has.load p h

/-- LOG0 draws the price of its memory and of its bytes. -/
theorem log0_draws (hsize : s.memory.mSize < 2 ^ 63) : DrawsGas (log0 top) s := by
  have hread : ¬ (gaslessEffects s.msg top).readsGas := id
  have hraise : ¬ (gaslessEffects s.msg top).raisesGas := id
  have hrest : ∀ o n : Nat, Has (gaslessEffects s.msg top) (do
      let data ← readMemory o n
      let vectorEmpty := Env.wildVectorEmpty (← nextFresh)
      ask (.emitLog (← Core.read (·.msg)).recipient data [] vectorEmpty)) fun _ => True :=
    fun o n => .bind (.prim (.readMemory _ _)) fun data _ => .bind (.prim .nextFresh) fun k _ =>
      .bind Has.readMsg fun msg _ => .prim (.ask (.emitLog _ _ _ _) trivial)
  unfold log0
  dsimp only [StackTop.pop]
  refine drawsGas_step (.refl s) hread hraise rfl (.prim .refuseStatic) fun _ _ s₁ h₁ =>
    drawsGas_step h₁ hread hraise rfl (gasless_load (by omega)) fun offset _ s₂ h₂ =>
    drawsGas_step h₂ hread hraise rfl (gasless_load (by omega)) fun size _ s₃ h₃ =>
    drawsGas_step h₃ hread hraise rfl (.prim (.requireMemoryU256 _ _)) fun _ _ s₄ h₄ =>
    drawsGas_step h₄ hread hraise rfl (gasless_load (by omega)) fun offset _ s₅ h₅ =>
    drawsGas_step h₅ hread hraise rfl (gasless_load (by omega)) fun size _ s₆ h₆ =>
    drawsGas_chargeLog h₆ hsize (low_lt _) (fun s' hs' => ?_) fun s' hsize' hlarge => ?_
  · exact (hrest _ _).draws hread hraise hs'.msg
  · exact .never_bind (readMemory_never hsize' hlarge)

/-- The logs with topics draw as LOG0 does. -/
theorem logTopics_draws {n : Nat} (hn : n ≤ 4) (hsize : s.memory.mSize < 2 ^ 63) :
    DrawsGas (logTopics n top) s := by
  have hread : ¬ (gaslessEffects s.msg top).readsGas := id
  have hraise : ¬ (gaslessEffects s.msg top).raisesGas := id
  -- The topics lie below the two operands, inside the slots the effects name.
  have htopics : ∀ msg, Has (gaslessEffects msg top) (popTopics n (top - 1 - 1)) fun _ => True :=
    fun msg => has_popTopics n ⟨by simp only [gaslessEffects, wideEffects]; omega,
      by simp only [gaslessEffects, wideEffects]; omega⟩
  unfold logTopics
  dsimp only [StackTop.pop]
  refine drawsGas_step (.refl s) hread hraise rfl Has.readMsg fun msg _ s₁ h₁ => ?_
  refine .ite (fun _ => (Gasless.ret _).draws s₁) fun _ => ?_
  refine drawsGas_step h₁ hread hraise rfl (gasless_load (by omega)) fun offset _ s₂ h₂ =>
    drawsGas_step h₂ hread hraise rfl (gasless_load (by omega)) fun size _ s₃ h₃ =>
    drawsGas_step h₃ hread hraise rfl (.prim (.requireMemoryU64 _ _)) fun _ _ s₄ h₄ =>
    drawsGas_step h₄ hread hraise rfl (gasless_load (by omega)) fun offset _ s₅ h₅ =>
    drawsGas_step h₅ hread hraise rfl (gasless_load (by omega)) fun size _ s₆ h₆ =>
    drawsGas_chargeLog h₆ hsize (low_lt _) (fun s' hs' => ?_) fun s' hsize' hlarge => ?_
  -- The log is paid: what is left neither reads nor changes the gas.
  · refine drawsGas_step hs' hread hraise rfl (htopics _) fun topics _ s₁ h₁ =>
      drawsGas_step h₁ hread hraise rfl (.prim .nextFresh) fun k _ s₂ h₂ => ?_
    refine .ite (fun _ => (Gasless.fault _).draws s₂) fun _ => ?_
    have hdata : ∀ o n : Nat, Has (gaslessEffects s.msg top) (do
        let data ← readMemory o n
        let vectorEmpty := Env.wildVectorEmpty (← nextFresh)
        ask (.emitLog (← Core.read (·.msg)).recipient data topics vectorEmpty)) fun _ => True :=
      fun o n => .bind (.prim (.readMemory _ _)) fun data _ => .bind (.prim .nextFresh) fun k _ =>
        .bind Has.readMsg fun msg _ => .prim (.ask (.emitLog _ _ _ _) trivial)
    exact (hdata _ _).draws hread hraise h₂.msg
  -- The cost has wrapped: the data is longer than the memory, and is never read to its end.
  · have hpop : Has (wideEffects s'.msg top) (popTopics n (top - 1 - 1)) fun _ => True :=
      has_popTopics n ⟨by simp only [wideEffects]; omega, by simp only [wideEffects]; omega⟩
    refine RunsTo.bind (.refl s') id rfl hpop fun topics _ s₁ h₁ =>
      .bind h₁ (e := wideEffects s'.msg top) id rfl (.prim .nextFresh) fun k _ s₂ h₂ => ?_
    unfold RunsTo
    rw [sat_ite]
    exact ⟨fun _ _ heq => (by cases heq),
      fun _ => RunsTo.never_bind (readMemory_never (h₂.kept.size hsize') hlarge)⟩

/-! ### The shape `opCore` -/

/-- The core implementations that run with the gas counter as it is charge it without looking. -/
theorem InstrFn.draws {fn : InstrFn} (hdup : fn ≠ .opDup 0) {opcode : Opcode}
    {body : StackTop → Core Unit} (hshape : fn.shape = .core opcode body)
    (hsize : s.memory.mSize < 2 ^ 63) : DrawsGas (body top) s := by
  by_cases hraise : fn.raisesGas
  · cases fn with
    | opLog0 =>
        cases hshape
        exact log0_draws hsize
    | opLog1 | opLog2 | opLog3 | opLog4 =>
        cases hshape
        exact logTopics_draws (by decide) hsize
    | opSelfdestruct | opCreate | opCall | opCallcode | opDelegatecall | opCreate2 | opStaticcall =>
        cases hshape
    | _ => exact hraise.elim
  · -- A function of this shape does not read the counter either.
    have hread : ¬ fn.readsGas := by
      cases fn with
      | opSstore | opCreate | opCall | opCallcode | opDelegatecall | opCreate2 | opStaticcall =>
          cases hshape
      | _ => exact id
    have hhas := fn.has hdup s.msg top
    rw [hshape] at hhas
    exact Has.draws hhas hread hraise rfl

end

end TscVee
