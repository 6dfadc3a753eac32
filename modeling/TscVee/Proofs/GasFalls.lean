import TscVee.Proofs.CreateEffect
import TscVee.Proofs.HostAnswers

/-!
# `TscVee.Proofs.GasFalls`: which instructions can raise the gas counter

The gas counter falls along every instruction, unless a callee hands back more gas than its message
gave it (`FairCalls`). The message of a call has what the gas operand says, so that an operand above
`2 ^ 63`, read as a negative number, is a message whose callee cannot be fair.

* `prim_lowers`: the parts of the implementations that do not raise the counter (`Lowers`).
* `InstrFn.lowers`, `InstrFn.gasFalls`, `InstrFn.terminates`: the implementations of each shape.
* `sat_selfdestruct`: `SELFDESTRUCT` succeeds with a gas counter that may be negative.
-/

set_option autoImplicit false

namespace TscVee

open TscVee.Core Lib

/-- No callee hands back more gas than it got. -/
def FairCalls (s : ExecutionState) : Prop :=
  ∀ m, Event.host (.call m) ∈ s.trace → s.hostCtx.callResult.gasLeft ≤ m.gas

/-- What every implementation does besides its work on the gas counter. -/
structure Kept (s s' : ExecutionState) : Prop where
  msg : s'.msg = s.msg
  trace : s.trace <+: s'.trace
  result : s'.hostCtx.callResult = s.hostCtx.callResult
  size : s.memory.mSize < 2 ^ 63 → s'.memory.mSize < 2 ^ 63

/-- What the parts of an implementation that do not raise the gas counter do. -/
structure Lowers (s s' : ExecutionState) : Prop where
  kept : Kept s s'
  gas : s'.gasLeft ≤ s.gasLeft
  nonneg : 0 ≤ s.gasLeft → 0 ≤ s'.gasLeft

/-- A callee handed back more gas than its message, which is one of `P`, gave it. -/
def Overpaid (P : Message → Prop) (s : ExecutionState) : Prop :=
  ∃ m, P m ∧ Event.host (.call m) ∈ s.trace ∧ m.gas < s.hostCtx.callResult.gasLeft

/-- What an implementation does whose messages are among `P`. -/
structure GasFalls (P : Message → Prop) (s s' : ExecutionState) : Prop where
  kept : Kept s s'
  gas : s'.gasLeft ≤ s.gasLeft ∨ Overpaid P s'

section
variable {s s' s'' : ExecutionState}

/-- A program that does nothing. -/
theorem Kept.refl (s : ExecutionState) : Kept s s := ⟨rfl, List.prefix_refl _, rfl, id⟩

/-- Two programs, one after the other. -/
theorem Kept.trans (h : Kept s s') (h' : Kept s' s'') : Kept s s'' :=
  ⟨h'.msg.trans h.msg, h.trace.trans h'.trace, h'.result.trans h.result, h'.size ∘ h.size⟩

/-- A step that keeps the message, the host and the size of the memory. -/
theorem Kept.of_eq (events : List Event) (hmsg : s'.msg = s.msg)
    (htrace : s'.trace = s.trace ++ events)
    (hhost : s'.hostCtx = s.hostCtx) (hsize : s'.memory.mSize = s.memory.mSize) : Kept s s' :=
  ⟨hmsg, ⟨events, htrace.symm⟩, by rw [hhost], fun h => by rwa [hsize]⟩

/-- An update of the gas counter. -/
theorem Kept.gas (s : ExecutionState) (gas : Int) : Kept s { s with gasLeft := gas } :=
  .of_eq [] rfl (List.append_nil _).symm rfl rfl

/-- The callees up to an earlier state. -/
theorem Kept.fairCalls (h : Kept s s') (hfair : FairCalls s') : FairCalls s := by
  intro m hm
  have hle := hfair m (h.trace.subset hm)
  rwa [h.result] at hle

/-- The callees up to a later state. -/
theorem Kept.overpaid {P : Message → Prop} (h : Kept s s') (hover : Overpaid P s) :
    Overpaid P s' := by
  obtain ⟨m, hP, hmem, hlt⟩ := hover
  exact ⟨m, hP, h.trace.subset hmem, by rwa [h.result]⟩

/-- A callee that hands back at most its gas has not overpaid. -/
theorem FairCalls.not_overpaid {P : Message → Prop} (hfair : FairCalls s) : ¬ Overpaid P s := by
  rintro ⟨m, -, hmem, hlt⟩
  exact absurd (hfair m hmem) (not_le.2 hlt)

/-- A program that does nothing does not raise the gas counter. -/
theorem Lowers.refl (s : ExecutionState) : Lowers s s := ⟨.refl s, le_refl _, id⟩

/-- Two programs that do not raise the gas counter, one after the other. -/
theorem Lowers.trans (h : Lowers s s') (h' : Lowers s' s'') : Lowers s s'' :=
  ⟨h.kept.trans h'.kept, h'.gas.trans h.gas, h'.nonneg ∘ h.nonneg⟩

/-- What does not raise the gas counter needs no callee to explain a rise. -/
theorem Lowers.gasFalls {P : Message → Prop} (h : Lowers s s') : GasFalls P s s' :=
  ⟨h.kept, Or.inl h.gas⟩

/-- A part behind the call that does not raise the gas counter. A callee that had overpaid before it
still has. -/
theorem GasFalls.lowers {P : Message → Prop} (h : GasFalls P s s') (h' : Lowers s' s'') :
    GasFalls P s s'' :=
  ⟨h.kept.trans h'.kept, h.gas.imp (fun hle => h'.gas.trans hle) h'.kept.overpaid⟩

/-- The messages may be taken from a larger set. -/
theorem GasFalls.mono {P P' : Message → Prop} (h : GasFalls P s s') (hP : ∀ m, P m → P' m) :
    GasFalls P' s s' :=
  ⟨h.kept, h.gas.imp_right fun ⟨m, hm, hrest⟩ => ⟨m, hP m hm, hrest⟩⟩

/-- A memory check that succeeds is paid for. -/
theorem MemChecked.lowers (h : MemChecked s s') : Lowers s s' := by
  obtain ⟨cost, hcost, hgas⟩ := h.cost
  obtain ⟨events, htrace, -⟩ := h.trace
  have hsame := h.same
  unfold SameButMemory at hsame
  refine ⟨⟨by rw [hsame], ⟨events, htrace.symm⟩, by rw [hsame], fun hsize => ?_⟩, by omega, h.gas⟩
  rcases h.size with heq | ⟨-, hlt, -⟩ <;> omega

end

/-- The contract of the parts of an implementation with the effects `e`. -/
def gasContract (e : Effects) : Contract Halt ExecutionState where
  inv _ := True
  rel s s' := Kept s s' ∧ (¬ e.raisesGas → Lowers s s')
  err _ _ _ := True
  refl s := ⟨.refl s, fun _ => .refl s⟩
  trans h h' := ⟨h.1.trans h'.1, fun hraise => (h.2 hraise).trans (h'.2 hraise)⟩
  err_of_rel _ h := h

section
variable [Env] {e : Effects}

omit [Env] in
/-- A range is recorded and tested, and no gas is taken for it. The bytes may be replaced behind it.
-/
theorem lowers_access {s : ExecutionState} (offset len : Nat) :
    Sat (access offset len) s
      (fun _ s' => Lowers s s' ∧ ∀ data, Lowers s (s'.setData data)) fun _ _ => True := by
  rw [sat_access]
  split
  · trivial
  · split
    · exact ⟨⟨.of_eq [_] rfl rfl rfl rfl, le_refl _, id⟩,
        fun _ => ⟨.of_eq [_] rfl rfl rfl rfl, le_refl _, id⟩⟩
    · trivial

/-- The parts of an implementation. -/
theorem prim_lowers {α : Type} {x : Core α} {Q : α → Prop} (h : Prim e α x Q) :
    (gasContract e).Holds x fun _ => True := by
  intro s _
  have hlowers : ∀ {s' : ExecutionState}, Lowers s s' →
      True ∧ True ∧ Kept s s' ∧ (¬ e.raisesGas → Lowers s s') :=
    fun h => ⟨trivial, trivial, h.kept, fun _ => h⟩
  -- Most steps leave gas and host.
  have hsame : ∀ {s' : ExecutionState} (events : List Event), s'.msg = s.msg →
      s'.trace = s.trace ++ events → s'.hostCtx = s.hostCtx →
      s'.memory.mSize = s.memory.mSize → s'.gasLeft = s.gasLeft →
      True ∧ True ∧ Kept s s' ∧ (¬ e.raisesGas → Lowers s s') := fun events h1 h2 h3 h4 h5 =>
    hlowers ⟨.of_eq events h1 h2 h3 h4, h5.le, fun h => by rwa [h5]⟩
  have hnil : s.trace = s.trace ++ [] := (List.append_nil _).symm
  cases h with
  | read f | nextFresh | dropReturnData | setOutputSize | setOutputOffset =>
      exact hsame [] rfl hnil rfl rfl rfl
  | load p =>
      rw [sat_load]
      split
      · exact hsame [] rfl hnil rfl rfl rfl
      · trivial
  | store p value =>
      rw [sat_store]
      split
      · exact hsame [] rfl hnil rfl rfl rfl
      · trivial
  | ret status | fault f => trivial
  -- A request changes the host but not its call result.
  | ask op =>
      rw [sat_ask]
      exact (serve_callResult op s.hostCtx).mono
        (fun _ host hhost => hlowers ⟨⟨rfl, ⟨[.host op], rfl⟩, hhost, id⟩, le_refl _, id⟩)
        fun _ _ _ => trivial
  | refuseStatic =>
      rw [sat_refuseStatic]
      split
      · trivial
      · exact hsame [] rfl hnil rfl rfl rfl
  | int64 x =>
      rw [sat_int64]
      split
      · exact hsame [] rfl hnil rfl rfl rfl
      · trivial
  -- A charge lowers the gas unless its cost is negative, which is a part with the effect
  -- `raisesGas`.
  | chargeGas cost h =>
      rw [sat_chargeGas]
      split
      case isFalse => trivial
      split
      case isTrue => trivial
      case isFalse hpaid =>
        refine ⟨trivial, trivial, Kept.gas s _, fun hraise =>
          ⟨Kept.gas s _, ?_, fun _ => not_lt.1 hpaid⟩⟩
        have hcost := h.resolve_right hraise
        show s.gasLeft - cost ≤ s.gasLeft
        omega
  -- The gas may rise here, and the effects say so.
  | subGas cost h =>
      rw [sat_subGas']
      split
      · exact ⟨trivial, trivial, Kept.gas s _, absurd h⟩
      · trivial
  | setGas gas h => exact ⟨trivial, trivial, Kept.gas s _, absurd h.1⟩
  | requireMemoryU64 offset size =>
      exact (sat_requireMemoryU64 offset size).mono (fun _ s' h => hlowers h.1.lowers)
        fun _ _ _ => trivial
  | requireMemoryU256 offset size =>
      refine (sat_requireMemoryU256 offset size).mono (fun _ s' h => ?_) fun _ _ _ => trivial
      rcases h with ⟨-, rfl⟩ | ⟨-, h, -⟩
      · exact hsame [] rfl hnil rfl rfl rfl
      · exact hlowers h.lowers
  | readMemory offset len =>
      rw [sat_readMemory]
      split
      · exact hsame [] rfl hnil rfl rfl rfl
      · exact (lowers_access offset len).mono (fun _ _ h => hlowers h.1) fun _ _ _ => trivial
  | writeMemory offset bytes =>
      rw [sat_writeMemory]
      split
      · exact hsame [] rfl hnil rfl rfl rfl
      · exact (lowers_access offset bytes.length).mono (fun _ _ h => hlowers (h.2 _))
          fun _ _ _ => trivial
  | clearMemory offset len =>
      rw [sat_clearMemory]
      split
      · exact hsame [] rfl hnil rfl rfl rfl
      · exact (lowers_access offset len).mono (fun _ _ h => hlowers (h.2 _)) fun _ _ _ => trivial
  | memoryPtr offset len =>
      rw [sat_memoryPtr]
      exact hsame [_] rfl rfl rfl rfl rfl
  | logAccess offset len size => exact hsame [_] rfl rfl rfl rfl rfl

/-- An implementation, or a part of one. -/
theorem Has.kept {α : Type} {x : Core α} {Q : α → Prop} (h : Has e x Q) {s : ExecutionState}
    (hmsg : s.msg = e.msg) :
    Sat x s (fun a s' => Q a ∧ Kept s s' ∧ (¬ e.raisesGas → Lowers s s'))
      fun h _ => ∀ status, h = .ret status → status.Early := by
  have hboth := Built.holds (C := (frameContract e).both (gasContract e))
    (fun _ _ _ hp => (prim_frame hp).both (prim_lowers hp)) h
  exact (hboth s ⟨hmsg, trivial⟩).mono (fun _ _ h => ⟨h.1, h.2.2.2⟩) fun _ _ h => h.1.2.2

/-- One that does not raise the gas counter. -/
theorem Has.lowers {α : Type} {x : Core α} {Q : α → Prop} (h : Has e x Q) (hraise : ¬ e.raisesGas)
    {s : ExecutionState} (hmsg : s.msg = e.msg) :
    Sat x s (fun a s' => Q a ∧ Lowers s s') fun h _ => ∀ status, h = .ret status → status.Early :=
  (h.kept hmsg).mono (fun _ _ h => ⟨h.1, h.2.2 hraise⟩) fun _ _ h => h

/-! ### Implementations that can raise the gas counter -/

/-- The program ends in a state with `P`, or returns a status early. -/
def RunsTo {α : Type} (P : ExecutionState → Prop) (x : Core α) (s : ExecutionState) : Prop :=
  Sat x s (fun _ s' => P s') fun h _ => ∀ status, h = .ret status → status.Early

section
variable {α β : Type} {P : ExecutionState → Prop} {s₀ s : ExecutionState}

omit [Env] in
/-- What is said of the end may be weakened. -/
theorem RunsTo.mono {x : Core α} {P' : ExecutionState → Prop} (h : RunsTo P x s)
    (hP : ∀ s', P s' → P' s') : RunsTo P' x s := Sat.mono h (fun _ => hP) fun _ _ h => h

/-- The part `x` does not raise the gas counter, and touches the slots of its effects only. -/
theorem RunsTo.bind_frame {x : Core β} {f : β → Core α} {Q : β → Prop} (hs : Lowers s₀ s)
    (hraise : ¬ e.raisesGas) (hmsg : s₀.msg = e.msg) (hx : Has e x Q)
    (hf : ∀ b, Q b → ∀ s', Lowers s₀ s' → Frame e s s' → RunsTo P (f b) s') :
    RunsTo P (x >>= f) s := by
  have hmsg' := hs.kept.msg.trans hmsg
  unfold RunsTo
  rw [sat_bind]
  exact ((hx.lowers hraise hmsg').and (hx.frame s hmsg')).mono
    (fun b s' h => hf b h.1.1 s' (hs.trans h.1.2) h.2.2.2) fun _ _ h => h.1

/-- The part `x` does not raise the gas counter. -/
theorem RunsTo.bind {x : Core β} {f : β → Core α} {Q : β → Prop} (hs : Lowers s₀ s)
    (hraise : ¬ e.raisesGas) (hmsg : s₀.msg = e.msg) (hx : Has e x Q)
    (hf : ∀ b, Q b → ∀ s', Lowers s₀ s' → RunsTo P (f b) s') : RunsTo P (x >>= f) s :=
  .bind_frame hs hraise hmsg hx fun b hb s' hs' _ => hf b hb s' hs'

/-- Neither does the last part. -/
theorem RunsTo.last {x : Core α} {Q : α → Prop} (hs : Lowers s₀ s) (hraise : ¬ e.raisesGas)
    (hmsg : s₀.msg = e.msg) (hx : Has e x Q) : RunsTo (Lowers s₀) x s :=
  (hx.lowers hraise (hs.kept.msg.trans hmsg)).mono (fun _ _ h => hs.trans h.2) fun _ _ h => h

omit [Env] in
/-- `EVMC_OUT_OF_GAS` is one of the statuses of an early return. -/
theorem early_outOfGas (status : StatusCode) (h : Halt.ret .outOfGas = .ret status) :
    status.Early := by
  cases h
  decide

/-- The charge of a log is negative for a size above `2 ^ 63`, which no memory has. -/
theorem RunsTo.chargeLog {n : Nat} {rest : Core Unit} (hs : Lowers s₀ s) (hraise : ¬ e.raisesGas)
    (hmsg : s₀.msg = e.msg) (hsize : s₀.memory.mSize < 2 ^ 63) (hn : n < 2 ^ 64)
    (hrest : Has e rest fun _ => True)
    (hnever : ∀ s', s'.memory.mSize < 2 ^ 63 → 2 ^ 63 ≤ n → RunsTo (fun _ => False) rest s') :
    RunsTo (Lowers s₀) (do chargeGas (← int64 (toInt64 n * 8)); rest) s := by
  unfold RunsTo
  rw [sat_bind, sat_int64]
  split
  case isFalse => exact nofun
  by_cases hlarge : 2 ^ 63 ≤ n
  · rw [sat_bind, sat_chargeGas]
    split
    · split
      · exact early_outOfGas
      · exact RunsTo.mono (hnever _ (hs.kept.size hsize) hlarge) fun _ h => h.elim
    · exact nofun
  · have hcost : 0 ≤ toInt64 n * 8 := by
      have hbmod : toInt64 n = n := Int.bmod_eq_of_le (by omega) (by omega)
      omega
    exact RunsTo.bind hs hraise hmsg (Has.chargeGas hcost) fun _ _ s' hs' =>
      .last hs' hraise hmsg hrest

end

/-- The effects of a part that does not raise the gas counter, with room for the operands of every
instruction. -/
def wideEffects (msg : Message) (top : Int) : Effects where
  lo := top - 1023
  hi := top + 1024
  msg := msg
  host _ := True
  readsGas := True
  raisesGas := False
  setsOutput := False

section
variable {s : ExecutionState} {top : Int}

omit [Env] in
/-- A mild part may send every request to the host. -/
theorem wide_mild (msg : Message) (top : Int) : (wideEffects msg top).Mild :=
  fun _ _ => trivial

/-- The effects of a part that leaves the top item alone. -/
def lowerEffects (msg : Message) (top : Int) : Effects :=
  { wideEffects msg top with hi := top - 1 }

omit [Env] in
/-- A mild part may send every request to the host, also without the top item. -/
theorem lower_mild (msg : Message) (top : Int) : (lowerEffects msg top).Mild :=
  fun _ _ => trivial

/-- Every operand is among the slots of these effects. -/
theorem wide_load {msg : Message} {p : Int} (h : top - 1023 ≤ p ∧ p ≤ top + 1024) :
    Has (wideEffects msg top) (load p) fun _ => True := Has.load p h

omit [Env] in
/-- No memory holds `2 ^ 63` bytes. -/
theorem readMemory_never {offset n : Nat} (hsize : s.memory.mSize < 2 ^ 63) (hn : 2 ^ 63 ≤ n) :
    RunsTo (fun _ => False) (readMemory offset n) s := by
  unfold RunsTo
  rw [sat_readMemory, if_neg (by omega), sat_access]
  split
  · exact nofun
  · rw [if_neg (by omega)]
    exact nofun

omit [Env] in
/-- Nothing follows a part that does not end normally. -/
theorem RunsTo.never_bind {α β : Type} {P : ExecutionState → Prop} {x : Core β} {f : β → Core α}
    (hx : RunsTo (fun _ => False) x s) : RunsTo P (x >>= f) s := by
  unfold RunsTo at *
  rw [sat_bind]
  exact hx.mono (fun _ _ h => h.elim) fun _ _ h => h

/-- LOG0 charges for its bytes. The charge could be negative only for a size that no memory has, and
then the bytes cannot be read. -/
theorem log0_lowers (hsize : s.memory.mSize < 2 ^ 63) : RunsTo (Lowers s) (log0 top) s := by
  have hraise : ¬ (wideEffects s.msg top).raisesGas := id
  unfold log0
  dsimp only [StackTop.pop]
  refine .bind (.refl s) hraise rfl (.prim .refuseStatic) fun _ _ s₁ h₁ =>
    .bind h₁ hraise rfl (wide_load (by omega)) fun offset _ s₂ h₂ =>
    .bind h₂ hraise rfl (wide_load (by omega)) fun size _ s₃ h₃ =>
    .bind h₃ hraise rfl (.prim (.requireMemoryU256 _ _)) fun _ _ s₄ h₄ =>
    .bind h₄ hraise rfl (wide_load (by omega)) fun offset _ s₅ h₅ =>
    .bind h₅ hraise rfl (wide_load (by omega)) fun size _ s₆ h₆ =>
    .chargeLog h₆ hraise rfl hsize (low_lt _) ?_ fun s' hsize' hlarge => ?_
  · exact .bind (.prim (.readMemory _ _)) fun data _ => .bind (.prim .nextFresh) fun k _ =>
      .bind Has.readMsg fun msg _ => .prim (.ask (.emitLog _ _ _ _) trivial)
  · exact .never_bind (readMemory_never hsize' hlarge)

/-- The logs with topics charge as LOG0 does, in front of the topics. -/
theorem logTopics_lowers {n : Nat} (hn : n ≤ 4) (hsize : s.memory.mSize < 2 ^ 63) :
    RunsTo (Lowers s) (logTopics n top) s := by
  have hraise : ¬ (wideEffects s.msg top).raisesGas := id
  unfold logTopics
  dsimp only [StackTop.pop]
  refine .bind (.refl s) hraise rfl Has.readMsg fun msg _ s₁ h₁ => ?_
  unfold RunsTo
  rw [sat_ite]
  refine ⟨fun _ => fun status h => ?_, fun _ => ?_⟩
  · cases h
    decide
  -- The topics lie below the two operands, inside the slots the effects name.
  have htopics : ∀ msg, Has (wideEffects msg top) (popTopics n (top - 1 - 1)) fun _ => True :=
    fun msg => has_popTopics n ⟨by simp only [wideEffects]; omega, by simp only [wideEffects]; omega⟩
  refine RunsTo.bind h₁ hraise rfl (wide_load (by omega)) fun offset _ s₂ h₂ =>
    .bind h₂ hraise rfl (wide_load (by omega)) fun size _ s₃ h₃ =>
    .bind h₃ hraise rfl (.prim (.requireMemoryU64 _ _)) fun _ _ s₄ h₄ =>
    .bind h₄ hraise rfl (wide_load (by omega)) fun offset _ s₅ h₅ =>
    .bind h₅ hraise rfl (wide_load (by omega)) fun size _ s₆ h₆ =>
    .chargeLog h₆ hraise rfl hsize (low_lt _) ?_ fun s' hsize' hlarge => ?_
  -- The log fits and is paid: only the log is left, which costs nothing.
  · refine .bind (htopics _) fun topics _ => .bind (.prim .nextFresh) fun k _ => ?_
    refine Built.ite (fun _ => Has.fault _ (by decide)) fun _ => ?_
    exact .bind (.prim (.readMemory _ _)) fun data _ => .bind (.prim .nextFresh) fun k _ =>
      .bind Has.readMsg fun msg _ => .prim (.ask (.emitLog _ _ _ _) trivial)
  -- The cost has wrapped: the data is longer than the memory, and is never read to its end.
  · refine .bind (.refl s') (e := wideEffects s'.msg top) id rfl (htopics _) fun topics _ s₁ h₁ =>
      .bind h₁ (e := wideEffects s'.msg top) id rfl (.prim .nextFresh) fun k _ s₂ h₂ => ?_
    unfold RunsTo
    rw [sat_ite]
    exact ⟨fun _ => nofun, fun _ => RunsTo.never_bind (readMemory_never (h₂.kept.size hsize') hlarge)⟩

/-! ### `SELFDESTRUCT` -/

omit [Env] in
/-- The balance is that of the account in the map, or zero without an account, and the accounts
stay. -/
theorem sat_getBalance (addr : Address) (host : MockedHost) :
    Sat (MockedHost.getBalance addr) host
      (fun b host' => b = host.balanceOf addr ∧ host'.accounts = host.accounts)
      fun _ _ => True := by
  have haccounts : (host.recorded addr).accounts = host.accounts := rfl
  unfold MockedHost.getBalance MockedHost.balanceOf
  simp only [sat_bind, sat_recordAccountAccess, sat_findAccount, haccounts]
  cases host.accounts.find addr with
  | none => trivial
  | some o => cases o <;> exact ⟨rfl, haccounts⟩

omit [Env] in
/-- An account exists exactly when the map contains it, and the accounts stay. -/
theorem sat_accountExists (addr : Address) (host : MockedHost) :
    Sat (MockedHost.accountExists addr) host
      (fun known host' => host.accounts.contains addr = some known ∧ host'.accounts = host.accounts)
      fun _ _ => True := by
  have haccounts : (host.recorded addr).accounts = host.accounts := rfl
  unfold MockedHost.accountExists
  simp only [sat_bind, sat_recordAccountAccess, sat_get, sat_probing, haccounts]
  cases host.accounts.contains addr with
  | none => trivial
  | some known => exact ⟨rfl, trivial⟩

omit [Env] in
/-- A cold account is charged from Berlin on, and the charge keeps what the rest of SELFDESTRUCT
reads. -/
theorem sat_chargeCold (addr : Address) (cost : Int) :
    Sat (chargeColdAccount addr cost) s
      (fun _ s' => s'.gasLeft =
          s.gasLeft - (if s.rev ≥ .berlin ∧ s.hostCtx.isCold addr = true then cost else 0) ∧
        s'.rev = s.rev ∧ s'.msg = s.msg ∧ s'.hostCtx.accounts = s.hostCtx.accounts)
      fun _ _ => True := by
  unfold chargeColdAccount
  simp only [sat_bind, sat_read, sat_ite, sat_pure]
  refine ⟨fun hberlin => ?_, fun hberlin => by simp [hberlin]⟩
  rw [sat_ask]
  have hcold : Sat (MockedHost.accessAccount addr) s.hostCtx
      (fun status _ => (s.hostCtx.isCold addr = true ↔ status = .cold)) fun _ _ => True := by
    unfold Sat MockedHost.isCold endsWith
    cases MockedHost.accessAccount addr s.hostCtx with
    | ok status host => simp
    | error f host => trivial
  refine ((accessAccount_accounts addr s.hostCtx).and hcold).mono (fun status host h => ?_)
    fun _ _ _ => trivial
  obtain ⟨haccounts, hstatus⟩ := h
  refine ⟨fun heq => ?_, fun hne => ⟨?_, rfl, rfl, haccounts⟩⟩
  -- A cold account: the charge is the whole cost.
  · have hcost : (if s.rev ≥ .berlin ∧ s.hostCtx.isCold addr = true then cost else 0) = cost :=
      if_pos ⟨hberlin, hstatus.2 heq⟩
    rw [hcost, sat_chargeGas]
    split
    · split
      · trivial
      · exact ⟨rfl, rfl, rfl, haccounts⟩
    · trivial
  -- A warm one: nothing is charged.
  · rw [if_neg fun h => hne (hstatus.1 h.2)]
    exact (Int.sub_zero _).symm

/-- What `SELFDESTRUCT` charges for a cold beneficiary, from Berlin on. -/
def beneficiaryCost (s : ExecutionState) (top : Slot) : Int :=
  if s.rev ≥ .berlin ∧ s.hostCtx.isCold (u256ToU8_20 (s.stackSpace top)) = true then
    coldAccountAccessCost
  else 0

/-- What it charges for a new account that is to receive a balance. -/
def newAccountCost (s : ExecutionState) (top : Slot) : Int :=
  let balance := readu256BE (bytesAt (s.hostCtx.balanceOf s.msg.recipient))
  if s.rev ≥ .tangerineWhistle ∧ (s.rev = .tangerineWhistle ∨ balance.low ≠ 0) ∧
    s.hostCtx.accounts.contains (u256ToU8_20 (s.stackSpace top)) = some false then 25000 else 0

/-- What it charges. -/
def selfdestructCost (s : ExecutionState) (top : Slot) : Int :=
  beneficiaryCost s top + newAccountCost s top

omit [Env] in
/-- Both parts of the charge are 0 or a positive price. -/
theorem selfdestructCost_nonneg (s : ExecutionState) (top : Slot) : 0 ≤ selfdestructCost s top := by
  unfold selfdestructCost beneficiaryCost newAccountCost
  refine Int.add_nonneg ?_ ?_
  · split <;> decide
  · dsimp only
    split <;> decide

omit [Env] in
/-- The gas counter behind a `SELFDESTRUCT` that ends normally may be negative. -/
theorem sat_selfdestruct :
    Sat (selfdestruct top) s (fun _ s' => s'.gasLeft = s.gasLeft - selfdestructCost s top)
      fun _ _ => True := by
  unfold selfdestruct StackTop.get
  simp only [sat_bind, sat_refuseStatic, sat_load, Int.sub_zero]
  split
  case isTrue => trivial
  split
  case isFalse => trivial
  refine (sat_chargeCold _ _).mono (fun _ s₁ h => ?_) fun _ _ _ => trivial
  obtain ⟨hgas, hrev, hmsg, haccounts⟩ := h
  have hend : ∀ {s₂ : ExecutionState} (beneficiary : Address),
      s₂.gasLeft = s.gasLeft - selfdestructCost s top →
      Sat (ask (.selfdestruct s₁.msg.recipient beneficiary)) s₂
        (fun _ s' => s'.gasLeft = s.gasLeft - selfdestructCost s top) fun _ _ => True := by
    intro s₂ beneficiary h
    rw [sat_ask]
    exact (sat_trivial _ _).mono (fun _ _ _ => h) fun _ _ _ => trivial
  have hfree : newAccountCost s top = 0 → s₁.gasLeft = s.gasLeft - selfdestructCost s top := by
    intro h
    rw [selfdestructCost, h, hgas, beneficiaryCost]
    omega
  simp only [sat_bind, sat_read, sat_ite]
  -- Nothing more is charged before Tangerine Whistle.
  refine ⟨fun htangerine => ?_, fun hnot => hend _ (hfree (if_neg fun h => hnot (hrev ▸ h.1)))⟩
  rw [hrev] at htangerine
  rw [sat_ask]
  refine (sat_getBalance _ _).mono (fun b host h => ?_) fun _ _ _ => trivial
  obtain ⟨hbalance, haccounts'⟩ := h
  have hlow : b = s.hostCtx.balanceOf s.msg.recipient := by
    rw [hbalance, MockedHost.balanceOf, haccounts, hmsg]
    rfl
  rw [hlow, hrev]
  -- Nor when the recipient has nothing to give.
  refine ⟨fun hreceives => ?_, fun hnot => hend _ (hfree (if_neg fun h => hnot h.2.1))⟩
  rw [sat_ask]
  refine (sat_accountExists _ _).mono (fun known host' h => ?_) fun _ _ _ => trivial
  rw [haccounts'.trans haccounts] at h
  -- Nor when the beneficiary exists.
  refine ⟨fun hnew => ?_, fun hknown => hend _ (hfree (if_neg fun h' => hknown ?_))⟩
  · have hfalse : known = false := by simpa using hnew
    have hcost : newAccountCost s top = 25000 := if_pos ⟨htangerine, hreceives, hfalse ▸ h.1⟩
    rw [sat_subGas']
    split
    · refine hend _ ?_
      show s₁.gasLeft - 25000 = _
      rw [selfdestructCost, hcost, hgas, beneficiaryCost]
      omega
    · trivial
  · have hfalse : known = false := Option.some.inj (h.1.symm.trans h'.2.2)
    rw [hfalse]
    rfl

/-! ### Calls and creations -/

variable {α : Type} {P : ExecutionState → Prop} {s₀ : ExecutionState}

omit [Env] in
/-- The host answers a call with its call result. -/
theorem sat_call (m : Message) (host : MockedHost) :
    Sat (MockedHost.call m) host (fun result _ => result = host.callResult) fun _ _ => True := by
  have hresult : (host.recorded m.recipient).callResult = host.callResult := rfl
  unfold MockedHost.call
  simp only [sat_bind, sat_recordAccountAccess, sat_modify, sat_get, sat_ite, sat_readPtr, sat_set,
    sat_pure]
  cases (host.recorded m.recipient).recordedCalls.empty <;> simp [hresult]

omit [Env] in
/-- A call to the host. -/
theorem RunsTo.call {m : Message} {f : Result → Core α} (hs : Lowers s₀ s)
    (hf : ∀ s', Lowers s₀ s' → Event.host (.call m) ∈ s'.trace →
      RunsTo P (f s₀.hostCtx.callResult) s') : RunsTo P (Core.ask (.call m) >>= f) s := by
  unfold RunsTo
  rw [sat_bind, sat_ask]
  refine ((sat_call m s.hostCtx).and (serve_callResult (.call m) s.hostCtx)).mono
    (fun result host h => ?_) fun _ _ _ => nofun
  rw [h.1, hs.kept.result]
  refine hf _ (hs.trans ⟨⟨rfl, ⟨[_], rfl⟩, h.2, id⟩, le_refl _, id⟩) ?_
  exact List.mem_append_right _ (List.mem_singleton_self _)

omit [Env] in
/-- What the callee used is taken from the gas counter. -/
theorem RunsTo.settle {P : Message → Prop} {m : Message} (hs : Lowers s₀ s) (hm : P m)
    (hmem : Event.host (.call m) ∈ s.trace) :
    RunsTo (GasFalls P s₀) (int64 (m.gas - s₀.hostCtx.callResult.gasLeft) >>= Core.subGas) s := by
  unfold RunsTo
  rw [sat_bind, sat_int64]
  split
  case isFalse => exact nofun
  rw [sat_subGas']
  split
  case isFalse => exact nofun
  have hkept := hs.kept.trans (Kept.gas s (s.gasLeft - (m.gas - s₀.hostCtx.callResult.gasLeft)))
  refine ⟨hkept, ?_⟩
  by_cases hle : s₀.hostCtx.callResult.gasLeft ≤ m.gas
  · have hgas := hs.gas
    refine Or.inl ?_
    show s.gasLeft - _ ≤ _
    omega
  · refine Or.inr ⟨m, hm, hmem, ?_⟩
    rw [hkept.result]
    exact not_le.1 hle

namespace CallInstr

variable (i : CallInstr)

omit [Env] in
/-- The input operands are under the value operand, for the variants that have one. -/
theorem base_cases (top : Int) : i.base top = top - 3 ∨ i.base top = top - 2 := by
  unfold base
  cases i.hasValueOperand <;> simp

omit [Env] in
/-- What the variant sets in the message does not depend on the gas counter. -/
theorem spaceless : i.variant.Spaceless := by
  cases i <;> exact fun _ _ _ _ _ => rfl

/-- The message is filled in without a rise of the gas counter: the charge for a cold account is
positive, and a memory check is paid for. -/
theorem has_messageAt (he : e.Mild) (hread : e.readsGas) (dst : Address) (value : Uint256)
    {base : Int} (hlo : e.lo ≤ base - 3) (hhi : base ≤ e.hi) :
    Has e (i.messageAt dst value base) fun _ => True := by
  unfold messageAt
  refine .bind (Has.store _ _ (by omega)) fun _ _ =>
    .bind (has_chargeColdAccount he _ (by decide)) fun _ _ =>
    .bind (Has.load _ (by omega)) fun _ _ => .bind (Has.load _ (by omega)) fun _ _ =>
    .bind (.prim (.requireMemoryU256 _ _)) fun _ _ => .bind (Has.load _ (by omega)) fun _ _ =>
    .bind (Has.load _ (by omega)) fun _ _ => .bind (.prim (.requireMemoryU256 _ _)) fun _ _ => ?_
  exact Built.weaken (has_callMessage_fields i.variant hread i.spaceless dst value (by omega)
    (by omega)) fun _ _ => trivial

/-- The operands are loaded and the message is filled in, without the top item, which is the gas
operand. -/
theorem has_prepare (he : e.Mild) (hread : e.readsGas) (hlo : e.lo ≤ top - 6) (hhi : top - 1 ≤ e.hi) :
    Has e (i.prepare top) fun _ => True := by
  have hbase : ∀ p : Int, p = top - 3 ∨ p = top - 2 → e.lo ≤ p - 3 ∧ p ≤ e.hi :=
    fun p hp => by omega
  obtain ⟨hbase, hbase'⟩ := hbase _ (i.base_cases top)
  unfold prepare loadValue
  refine .bind (Has.load _ (by omega)) fun dst _ => .bind (R := fun _ => True) ?_ fun value _ =>
    .bind (i.has_messageAt he hread _ value hbase hbase') fun _ _ => .pure trivial
  exact Built.ite (fun _ => Has.load _ (by omega)) fun _ => .pure trivial

/-- What the variant charges besides is not negative. Only CALL charges something. -/
theorem has_extraCost (he : e.Mild) (hasValue : Bool) (dst : Address) :
    Has e (i.extraCost hasValue dst) (0 ≤ ·) := by
  cases i with
  | callcode | delegatecall | staticcall => exact .pure (le_refl 0)
  | call => exact has_callExtraCost he hasValue dst

omit [Env] in
/-- All but one 64th of a gas counter. -/
theorem handed_nonneg {gas : Int} (h : 0 ≤ gas) : 0 ≤ gas - gas.tdiv 64 := by
  rw [Int.tdiv_eq_ediv_of_nonneg h]
  omega

omit [Env] in
/-- The gas of the message is not negative, unless the gas operand is above `2 ^ 63`. -/
theorem sat_callGas :
    Sat (callGas top) s
      (fun g s' => s' = s ∧ (0 ≤ s.gasLeft → (s.stackSpace top).low < 2 ^ 63 → 0 ≤ g))
      fun h _ => ∀ status, h = .ret status → status.Early := by
  unfold callGas
  rw [sat_bind, sat_load]
  split
  case isFalse => exact nofun
  have hoperand : (s.stackSpace top).low < 2 ^ 63 →
      toInt64 (s.stackSpace top).low = (s.stackSpace top).low := fun h =>
    Int.bmod_eq_of_le (by omega) (by omega)
  simp only [sat_bind, sat_read, sat_ite, sat_ret, sat_pure]
  refine ⟨fun _ => ⟨trivial, fun hgas hlow => ?_⟩, fun _ => ⟨fun _ => early_outOfGas,
    fun _ => ⟨trivial, fun _ hlow => ?_⟩⟩⟩
  · rw [hoperand hlow]
    exact le_min (by omega) (handed_nonneg hgas)
  · rw [hoperand hlow]
    omega

/-- A call without value is charged 9000. -/
theorem bind_charge {dst : Address} {value : Uint256} {f : Unit → Core α} (hs : Lowers s₀ s)
    (hslot : s.stackSpace top = s₀.stackSpace top)
    (hf : ∀ s', Lowers s₀ s' → s'.stackSpace top = s₀.stackSpace top → 0 ≤ s'.gasLeft →
      (zero256 value = true → s'.gasLeft + 9000 ≤ s₀.gasLeft) → RunsTo P (f ()) s') :
    RunsTo P (i.charge dst value >>= f) s := by
  unfold CallInstr.charge
  rw [bind_assoc]
  refine .bind_frame hs (e := lowerEffects s₀.msg top) id rfl
    (i.has_extraCost (lower_mild _ _) _ _) fun extra hextra s₁ h₁ hframe => ?_
  have hslot₁ : s₁.stackSpace top = s.stackSpace top :=
    hframe.stack top (by simp only [lowerEffects]; omega)
  -- `zero256 value` is the inverted test of the source: the 9000 are paid for a zero value.
  have hcost : 0 ≤ (if zero256 value then 9000 else 0 : Int) ∧
      (zero256 value = true → (9000 : Int) ≤ if zero256 value then 9000 else 0) := by
    cases zero256 value <;> simp
  generalize (if zero256 value then 9000 else 0 : Int) = cost at hcost
  have hgas := h₁.gas
  unfold RunsTo
  rw [sat_bind, sat_chargeGas]
  split
  case isFalse => exact nofun
  split
  -- The gas is checked behind the charge.
  case isTrue => exact early_outOfGas
  case isFalse hpaid =>
  refine hf _ (h₁.trans ⟨Kept.gas s₁ _, ?_, fun _ => not_lt.1 hpaid⟩) (hslot₁.trans hslot)
    (not_lt.1 hpaid) fun hzero => ?_
  · show s₁.gasLeft - (cost + extra) ≤ s₁.gasLeft
    omega
  · have := hcost.2 hzero
    show s₁.gasLeft - (cost + extra) + 9000 ≤ s₀.gasLeft
    omega

omit [Env] in
/-- The stipend is paid from the 9000. -/
theorem bind_gift {value : Uint256} {f : Int → Core α} (hs : Lowers s₀ s)
    (hslot : s.stackSpace top = s₀.stackSpace top) (hgas : 0 ≤ s.gasLeft)
    (hpaid : zero256 value = true → s.gasLeft + 9000 ≤ s₀.gasLeft)
    (hf : ∀ g s', Lowers s₀ s' → ((s₀.stackSpace top).low < 2 ^ 63 → 0 ≤ g) → RunsTo P (f g) s') :
    RunsTo P (CallInstr.gift top value >>= f) s := by
  unfold CallInstr.gift addStipend
  rw [bind_assoc]
  unfold RunsTo
  rw [sat_bind]
  refine sat_callGas.mono (fun g s₁ h => ?_) fun _ _ h => h
  obtain ⟨rfl, hg⟩ := h
  rw [hslot] at hg
  cases hzero : zero256 value with
  | false => exact hf g _ hs (hg hgas)
  -- The stipend of 2300 comes out of the 9000 that a zero value has paid.
  | true =>
      simp only [if_true, bind_assoc]
      rw [sat_bind, sat_int64]
      split
      case isFalse => exact nofun
      simp only [pure_bind]
      rw [sat_bind, sat_subGas']
      split
      case isFalse => exact nofun
      have hle := hpaid hzero
      refine hf _ _ ⟨hs.kept.trans (Kept.gas s₁ _), ?_, fun _ => ?_⟩ fun hlow => ?_
      · show s₁.gasLeft - -2300 ≤ s₀.gasLeft
        omega
      · show 0 ≤ s₁.gasLeft - -2300
        omega
      · have := hg hgas hlow
        omega

/-- A call is admitted by the depth of the message and by the balance that the host answers. -/
theorem has_admitCall (he : e.Mild) (hasValue : Bool) (value : Uint256) :
    Has e (admitCall hasValue value) fun _ => True := by
  unfold admitCall
  refine .bind (.prim .dropReturnData) fun _ _ => .bind Has.readMsg fun stateMsg _ => ?_
  refine Built.ite (fun _ => .pure trivial) fun _ => ?_
  exact .bind (Has.ask he _ trivial) fun b _ => .pure trivial

/-- The result of the callee goes to the slot of the output size. -/
theorem has_takeCallResult_base (result : Result) (hlo : e.lo ≤ top - 6) (hhi : top ≤ e.hi) :
    Has e (takeCallResult (i.base top - 3) (i.base top - 2) (i.base top - 3) result)
      fun _ => True := by
  have hbase : ∀ p : Int, p = top - 3 ∨ p = top - 2 →
      (e.lo ≤ p - 3 ∧ p - 3 ≤ e.hi) ∧ (e.lo ≤ p - 2 ∧ p - 2 ≤ e.hi) := fun p hp => by omega
  obtain ⟨h1, h2⟩ := hbase _ (i.base_cases top)
  exact has_takeCallResult result h1 h2 h1

/-- A call raises the gas counter only when a callee hands back more than it got. -/
theorem core_gasFalls :
    RunsTo (GasFalls (fun m => (s.stackSpace top).low < 2 ^ 63 → 0 ≤ m.gas) s) (i.core top) s := by
  have hraise : ¬ (wideEffects s.msg top).raisesGas := id
  rw [core_eq_toHost]
  unfold toHost
  simp only [bind_assoc]
  have hlo : ∀ msg, (wideEffects msg top).lo ≤ top - 6 := fun msg => by
    simp only [wideEffects]
    omega
  have hhi : ∀ msg, top ≤ (wideEffects msg top).hi := fun msg => by
    simp only [wideEffects]
    omega
  have hprepare : Has (lowerEffects s.msg top) (i.prepare top) fun _ => True :=
    i.has_prepare (lower_mild _ _) trivial (hlo s.msg) (le_refl _)
  refine .bind_frame (.refl s) (e := lowerEffects s.msg top) id rfl hprepare
    fun prepared _ s₁ h₁ hframe => ?_
  have hslot : s₁.stackSpace top = s.stackSpace top :=
    hframe.stack top (by simp only [lowerEffects]; omega)
  obtain ⟨dst, value, msg⟩ := prepared
  refine i.bind_charge h₁ hslot fun s₂ h₂ hslot₂ hgas hpaid =>
    bind_gift h₂ hslot₂ hgas hpaid fun g s₃ h₃ hg =>
    .bind h₃ hraise rfl (has_admitCall (wide_mild _ _) _ _) fun admitted _ s₄ h₄ => ?_
  cases admitted with
  | false => exact h₄.gasFalls
  | true =>
      simp only [if_true, pure_bind]
      refine .call h₄ fun s₅ h₅ hmem => ?_
      have htake := i.has_takeCallResult_base s.hostCtx.callResult (hlo s₅.msg) (hhi s₅.msg)
      refine .bind (.refl s₅) (e := wideEffects s₅.msg top) id rfl htake fun _ _ s₆ h₆ => ?_
      exact RunsTo.settle (h₅.trans h₆) hg (h₆.kept.trace.subset hmem)

end CallInstr

omit [Env] in
/-- A part that is followed by another one. -/
theorem RunsTo.seq {β : Type} {P' : ExecutionState → Prop} {x : Core β} {f : β → Core α}
    (hx : RunsTo P' x s) (hf : ∀ b s', P' s' → RunsTo P (f b) s') : RunsTo P (x >>= f) s := by
  unfold RunsTo at *
  rw [sat_bind]
  exact hx.mono (fun b s' h => hf b s' h) fun _ _ h => h

namespace CreateInstr

variable (i : CreateInstr)

/-- The charge for the salt does not wrap on a gas counter that is not negative. -/
theorem lowers_takeSalt (hs : Lowers s₀ s) (hgas : 0 ≤ s₀.gasLeft) (hgas' : s₀.gasLeft < 2 ^ 63) :
    RunsTo (Lowers s₀) (takeSalt top) s := by
  have hraise : ¬ (wideEffects s₀.msg top).raisesGas := id
  unfold takeSalt
  refine .bind hs hraise rfl (wide_load (by omega)) fun salt _ s₁ h₁ =>
    .bind h₁ hraise rfl (wide_load (by omega)) fun size _ s₂ h₂ => ?_
  simp only [RunsTo, sat_bind, sat_read, sat_setGas, sat_ite, sat_ret, sat_pure]
  have hle := h₂.gas
  have hnonneg := h₂.nonneg hgas
  have hcost : numWords size.low * 6 < 2 ^ 62 := by
    unfold numWords
    omega
  have heq : toInt64 (s₂.gasLeft - (numWords size.low * 6 : Nat)) =
      s₂.gasLeft - (numWords size.low * 6 : Nat) := Int.bmod_eq_of_le (by omega) (by omega)
  refine ⟨fun _ => early_outOfGas, fun hpaid => ⟨h₂.kept.trans (Kept.gas s₂ _), ?_,
    fun _ => ?_⟩⟩
  · show toInt64 _ ≤ _
    rw [heq]
    omega
  · exact not_lt.1 hpaid

/-- The checks in front of the creation. The price of the hash is subtracted as `int64_t`, which
wraps for no gas counter that a run has. -/
theorem lowers_checks (hgas : i = .create2 → 0 ≤ s.gasLeft ∧ s.gasLeft < 2 ^ 63) :
    RunsTo (Lowers s) (i.checks top) s := by
  have hraise : ¬ (wideEffects s.msg top).raisesGas := id
  unfold checks
  refine .bind (.refl s) hraise rfl (.prim .refuseStatic) fun _ _ s₁ h₁ =>
    .bind h₁ hraise rfl (wide_load (by omega)) fun _ _ s₂ h₂ =>
    .bind h₂ hraise rfl (wide_load (by omega)) fun _ _ s₃ h₃ =>
    .bind h₃ hraise rfl (.prim (.requireMemoryU256 _ _)) fun _ _ s₄ h₄ => ?_
  cases i with
  | create => exact h₄
  | create2 => exact lowers_takeSalt h₄ (hgas rfl).1 (hgas rfl).2

omit [Env] in
/-- The slot of the result, and the one above it, are among those of the wide effects. -/
theorem slot_covered (msg : Message) (top : Int) :
    ((wideEffects msg top).lo ≤ i.slot top ∧ i.slot top ≤ (wideEffects msg top).hi) ∧
      (wideEffects msg top).lo ≤ i.slot top + 1 ∧ i.slot top + 1 ≤ (wideEffects msg top).hi := by
  have hslot : ∀ p : Int, p = top - 2 ∨ p = top - 3 →
      (top - 1023 ≤ p ∧ p ≤ top + 1024) ∧ top - 1023 ≤ p + 1 ∧ p + 1 ≤ top + 1024 := by
    intro p hp
    omega
  exact hslot _ (by cases i <;> simp [slot])

/-- A creation is admitted by the depth of the message and by the balance that the host answers. -/
theorem has_admission (msg : Message) (salt : Uint256) :
    Has (wideEffects msg top) (i.admission top salt) fun _ => True := by
  unfold admission
  refine .bind (Has.store _ _ (i.slot_covered msg top).1) fun _ _ =>
    .bind (.prim .dropReturnData) fun _ _ => .bind Has.readMsg fun stateMsg _ => ?_
  refine Built.ite (fun _ => .pure trivial) fun _ => ?_
  refine .bind (Has.ask (wide_mild _ _) _ trivial) fun b _ =>
    .bind (wide_load (by omega)) fun value _ => ?_
  exact Built.ite (fun _ => .pure trivial) fun _ => .pure trivial

omit [Env] in
/-- The gas for the creation is not negative when the gas counter is not. -/
theorem handedGas_nonneg (rev : Revision) {gas : Int} (h : 0 ≤ gas) : 0 ≤ handedGas rev gas := by
  unfold handedGas
  split
  · exact CallInstr.handed_nonneg h
  · exact h

/-- The message has gas from a counter that is not negative. -/
theorem bind_message {salt : Uint256} {stateMsg : Message} {value : Uint256}
    {f : Message → Core α} (hs : Lowers s₀ s)
    (hf : ∀ m s', Lowers s₀ s' → (0 ≤ s₀.gasLeft → 0 ≤ m.gas) → RunsTo P (f m) s') :
    RunsTo P (i.message top salt stateMsg value >>= f) s := by
  have hslot : ∀ p : Int, top - 2 ≤ p → p ≤ top →
      (wideEffects s₀.msg top).lo ≤ p ∧ p ≤ (wideEffects s₀.msg top).hi := by
    intro p h1 h2
    simp only [wideEffects]
    omega
  have hrest : Has (wideEffects s₀.msg top) (do
      let gas := handedGas (← Core.read (·.rev)) s.gasLeft
      let msg ← initCodeMessage (top - 1) (top - 2) (Env.localMessage (← nextFresh))
      return { msg with
        kind := i.kind, gas := gas, sender := stateMsg.recipient,
        depth := toInt32 (stateMsg.depth + 1), create2Salt := u256ToU8_32 salt,
        value := u256ToU8_32 value }) fun m => 0 ≤ s.gasLeft → 0 ≤ m.gas :=
    .bind Has.readRev fun rev _ => .bind (.prim .nextFresh) fun k _ =>
    .bind (has_initCodeMessage _ (hslot _ (by omega) (by omega)) (hslot _ (by omega) (by omega)))
      fun msg _ => .pure (handedGas_nonneg rev)
  unfold CreateInstr.message
  rw [bind_assoc]
  unfold RunsTo
  rw [sat_bind, sat_read]
  exact RunsTo.bind hs id rfl hrest fun m hm s' hs' => hf m s' hs' fun h => hm (hs.nonneg h)

/-- A creation raises the gas counter only when its callee hands back more than it got. -/
theorem core_gasFalls (hgas : i = .create2 → 0 ≤ s.gasLeft ∧ s.gasLeft < 2 ^ 63) :
    RunsTo (GasFalls (fun m => 0 ≤ s.gasLeft → 0 ≤ m.gas) s) (i.core top) s := by
  have hraise : ¬ (wideEffects s.msg top).raisesGas := id
  rw [core_eq]
  refine .seq (i.lowers_checks hgas) fun salt s₁ h₁ =>
    .bind h₁ hraise rfl (i.has_admission _ _) fun admitted _ s₂ h₂ => ?_
  cases admitted with
  | none => exact h₂.gasFalls
  | some admitted =>
      obtain ⟨stateMsg, value⟩ := admitted
      refine i.bind_message h₂ fun msg s₃ h₃ hm => .call h₃ fun s₄ h₄ hmem => ?_
      unfold settle
      have htake := fun msg => has_takeCreateResult (e := wideEffects msg top)
        s.hostCtx.callResult (i.slot_covered msg top).2
      have hassoc := bind_assoc (int64 (msg.gas - s.hostCtx.callResult.gasLeft)) Core.subGas
        fun _ => takeCreateResult (i.slot top) s.hostCtx.callResult
      show RunsTo _ (_ >>= fun used => Core.subGas used >>= fun _ => _) _
      rw [← hassoc]
      refine .seq (RunsTo.settle (P := fun m => 0 ≤ s.gasLeft → 0 ≤ m.gas) h₄ hm hmem)
        fun _ s₅ h₅ => ?_
      exact (RunsTo.last (.refl s₅) (e := wideEffects s₅.msg top) id rfl (htake _)).mono
        fun _ h => h₅.lowers h

end CreateInstr

end

/-! ### Each instruction function -/

/-- The function takes the gas of its message from the stack. -/
def InstrFn.takesGas : InstrFn → Bool
  | .opCall | .opCallcode | .opDelegatecall | .opStaticcall => true
  | _ => false

/-- What holds of the messages that the function sends from `s`: their gas is not negative, unless
the gas counter is or a gas operand is above `2 ^ 63`. -/
def InstrFn.Sends (fn : InstrFn) (s : ExecutionState) (top : Slot) (m : Message) : Prop :=
  0 ≤ s.gasLeft → (fn.takesGas = true → (s.stackSpace top).low < 2 ^ 63) → 0 ≤ m.gas

section
variable {s : ExecutionState} {top : Int} {fn : InstrFn} (hdup : fn ≠ .opDup 0)

include hdup

/-- An implementation of the shape `opCore` lowers the gas counter, and leaves no debt behind. -/
theorem InstrFn.lowers {opcode : Opcode} {body : StackTop → Core Unit}
    (hshape : fn.shape = .core opcode body) (hsize : s.memory.mSize < 2 ^ 63) :
    RunsTo (Lowers s) (body top) s := by
  by_cases hraise : fn.raisesGas
  case neg =>
    have hhas := fn.has hdup s.msg top
    rw [hshape] at hhas
    exact .last (.refl s) (e := fn.effects s.msg top) hraise rfl hhas
  cases fn with
  | opLog0 =>
      cases hshape
      exact log0_lowers hsize
  | opLog1 | opLog2 | opLog3 | opLog4 =>
      cases hshape
      exact logTopics_lowers (by decide) hsize
  | opSelfdestruct | opCreate | opCall | opCallcode | opDelegatecall | opCreate2 | opStaticcall =>
      cases hshape
  | _ => exact hraise.elim

/-- An implementation of the shape `opCorrected` lowers the gas counter, or calls a callee that
hands back more than it got. -/
theorem InstrFn.gasFalls {opcode : Opcode} {body : StackTop → Core Unit}
    (hshape : fn.shape = .corrected opcode body)
    (hgas : fn = .opCreate2 → 0 ≤ s.gasLeft ∧ s.gasLeft < 2 ^ 63) :
    RunsTo (GasFalls (fn.Sends s top) s) (body top) s := by
  -- Most functions do not raise the gas counter, by their effects.
  by_cases hraise : fn.raisesGas
  case neg =>
    have hhas := fn.has hdup s.msg top
    rw [hshape] at hhas
    exact (RunsTo.last (.refl s) (e := fn.effects s.msg top) hraise rfl hhas).mono
      fun _ h => h.gasFalls
  have hcreate : ∀ s', GasFalls (fun m => 0 ≤ s.gasLeft → 0 ≤ m.gas) s s' →
      GasFalls (fn.Sends s top) s s' := fun s' h => h.mono fun m hm hgas _ => hm hgas
  have hcall : fn.takesGas = true → ∀ s',
      GasFalls (fun m => (s.stackSpace top).low < 2 ^ 63 → 0 ≤ m.gas) s s' →
      GasFalls (fn.Sends s top) s s' := fun htakes s' h =>
    h.mono fun m hm _ hoperand => hm (hoperand htakes)
  -- The others are the calls and the creations.
  cases fn with
  | opCreate =>
      cases hshape
      exact (CreateInstr.create.core_gasFalls nofun).mono hcreate
  | opCreate2 =>
      cases hshape
      exact (CreateInstr.create2.core_gasFalls fun _ => hgas rfl).mono hcreate
  | opCall =>
      cases hshape
      exact CallInstr.call.core_gasFalls.mono (hcall rfl)
  | opCallcode =>
      cases hshape
      exact CallInstr.callcode.core_gasFalls.mono (hcall rfl)
  | opDelegatecall =>
      cases hshape
      exact CallInstr.delegatecall.core_gasFalls.mono (hcall rfl)
  | opStaticcall =>
      cases hshape
      exact CallInstr.staticcall.core_gasFalls.mono (hcall rfl)
  | opLog0 | opLog1 | opLog2 | opLog3 | opLog4 | opSelfdestruct => cases hshape
  | _ => exact hraise.elim

/-- An implementation of the shape `opTerminate` lowers the gas counter, and leaves no debt behind
but for what `SELFDESTRUCT` charges. -/
theorem InstrFn.terminates {body : StackTop → Core StatusCode}
    (hshape : fn.shape = .terminate body) :
    RunsTo (fun s' => Kept s s' ∧ s'.gasLeft ≤ s.gasLeft ∧ ((fn = .opSelfdestruct →
      selfdestructCost s top ≤ s.gasLeft) → 0 ≤ s.gasLeft → 0 ≤ s'.gasLeft)) (body top) s := by
  have hhas := fn.has hdup s.msg top
  rw [hshape] at hhas
  by_cases hraise : fn.raisesGas
  -- Without a raise of the gas, the effects say it all.
  case neg =>
    exact (RunsTo.last (.refl s) (e := fn.effects s.msg top) hraise rfl hhas).mono
      fun _ h => ⟨h.kept, h.gas, fun _ => h.nonneg⟩
  cases fn with
  -- The only ending instruction that may leave less than no gas.
  | opSelfdestruct =>
      cases hshape
      have hcost := selfdestructCost_nonneg s top
      refine (sat_selfdestruct.and (hhas.kept rfl)).mono
        (fun _ s' h => ⟨h.2.2.1, ?_, fun hpays _ => ?_⟩) fun _ _ h => h.2
      · rw [h.1]
        omega
      · have hle := hpays rfl
        rw [h.1]
        omega
  | opCreate | opCall | opCallcode | opDelegatecall | opCreate2 | opStaticcall | opLog0 | opLog1
  | opLog2 | opLog3 | opLog4 => cases hshape
  | _ => exact hraise.elim

end

end

end TscVee
