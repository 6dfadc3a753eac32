import TscVee.Proofs.RunRules
import TscVee.Proofs.SparseMaps

/-!
# `TscVee.Proofs.StepsEnd`: each step ends

The loops inside an instruction are bounded, but for the searches of the host's maps. On a host
whose maps are sparse and can grow, no instruction searches forever (`call_ends`), and the
maps stay sparse.
-/

set_option autoImplicit false

namespace TscVee

open TscVee.Core Exec Lib

section
variable [Env]

/-- The contract of a program on sparse maps: they stay sparse, and each search ends. -/
def endsContract : Contract Halt ExecutionState :=
  .keeps (fun s => s.hostCtx.Sparse)
    fun h s => h ≠ .fault .diverges ∧ ∀ status, h = .ret status → s.hostCtx.Sparse

variable {e : Effects} {s : ExecutionState}

omit [Env] in
/-- States that differ in the memory only have the same host. -/
theorem SameButMemory.hostCtx {s' : ExecutionState} (h : SameButMemory s s') :
    s'.hostCtx = s.hostCtx := by
  unfold SameButMemory at h
  rw [h]

omit [Env] in
/-- A request that finds sparse maps and ends. -/
theorem sat_ask_ends {op : HostOp}
    (h : Sat op.serve s.hostCtx (fun _ host => host.Sparse) fun f _ => f ≠ .diverges) :
    Sat (ask op) s (fun _ s' => s'.hostCtx.Sparse)
      fun h s' => h ≠ .fault .diverges ∧ ∀ status, h = .ret status → s'.hostCtx.Sparse := by
  rw [sat_ask]
  exact h.mono (fun _ _ h => h) fun f _ h => ⟨fun heq => h (Halt.fault.inj heq), nofun⟩

/-- The parts of an implementation, without `access_storage`. -/
theorem prim_ends {α : Type} {x : Core α} {Q : α → Prop} (h : Prim e α x Q)
    (he : ∀ addr key, ¬ e.host (.accessStorage addr key)) : endsContract.Holds x fun _ => True := by
  intro s hs
  -- A step that keeps the host keeps it sparse, and no fault but `diverges` is a search that does
  -- not end.
  have hsame : ∀ {s' : ExecutionState}, s'.hostCtx = s.hostCtx →
      True ∧ s'.hostCtx.Sparse ∧ True := fun h => ⟨trivial, h ▸ hs, trivial⟩
  have hfault : ∀ {f : Fault} {s' : ExecutionState}, f ≠ .diverges →
      endsContract.err (.fault f) s s' := fun hf => ⟨fun heq => hf (Halt.fault.inj heq), nofun⟩
  have hret : ∀ {status : StatusCode} {s' : ExecutionState}, s'.hostCtx = s.hostCtx →
      endsContract.err (.ret status) s s' := fun h => ⟨nofun, fun _ _ => h ▸ hs⟩
  -- A memory check refuses with a status or faults, without the host.
  have hmemory : ∀ {h : Halt} {s' : ExecutionState}, MemRefused s s' ∧
      ((h = .ret .outOfGas ∧ (s'.gasLeft = s.gasLeft ∨ s'.gasLeft < 0)) ∨
        ∃ f : Fault, h = .fault f ∧ f.ofMemory) → endsContract.err h s s' := by
    rintro h s' ⟨hrefused, ⟨rfl, -⟩ | ⟨f, rfl, hf⟩⟩
    · exact hret hrefused.same.hostCtx
    · exact hfault (by rcases hf with rfl | rfl | rfl <;> decide)
  have haccess : ∀ offset len, Sat (access offset len) s
      (fun _ s' => s'.hostCtx = s.hostCtx ∧ ∀ data, (s'.setData data).hostCtx = s.hostCtx)
      fun h s' => endsContract.err h s s' := by
    intro offset len
    rw [sat_access]
    split
    · exact hfault nofun
    · split
      · exact ⟨rfl, fun _ => rfl⟩
      · exact hfault nofun
  cases h with
  | read f | nextFresh | dropReturnData | setOutputSize | setOutputOffset | setGas | logAccess =>
      exact hsame rfl
  | load p =>
      rw [sat_load]
      split
      · exact hsame rfl
      · exact hfault nofun
  | store p value =>
      rw [sat_store]
      split
      · exact hsame rfl
      · exact hfault nofun
  | ret status => exact hret rfl
  | fault f h => exact hfault h.2
  -- The requests of the effects all end in a sparse host.
  | ask op h =>
      refine (sat_ask_ends (hs.serve_ends fun addr key heq => he addr key (heq ▸ h))).mono
        (fun _ _ h => ⟨trivial, h, trivial⟩) fun _ _ h => h
  | refuseStatic =>
      rw [sat_refuseStatic]
      split
      · exact hret rfl
      · exact hsame rfl
  | int64 x =>
      rw [sat_int64]
      split
      · exact hsame rfl
      · exact hfault nofun
  | chargeGas cost =>
      rw [sat_chargeGas]
      split
      · split
        · exact hret rfl
        · exact hsame rfl
      · exact hfault nofun
  | subGas cost =>
      rw [sat_subGas']
      split
      · exact hsame rfl
      · exact hfault nofun
  | requireMemoryU64 offset size =>
      exact (sat_requireMemoryU64 offset size).mono
        (fun _ s' h => hsame h.1.same.hostCtx) fun _ _ h => hmemory h
  | requireMemoryU256 offset size =>
      refine (sat_requireMemoryU256 offset size).mono (fun _ s' h => hsame ?_)
        fun _ _ h => hmemory h
      rcases h with ⟨-, rfl⟩ | ⟨-, h, -⟩
      · rfl
      · exact h.same.hostCtx
  | readMemory offset len =>
      rw [sat_readMemory]
      split
      · exact hsame rfl
      · exact (haccess offset len).mono (fun _ _ h => hsame h.1) fun _ _ h => h
  | writeMemory offset bytes =>
      rw [sat_writeMemory]
      split
      · exact hsame rfl
      · exact (haccess offset bytes.length).mono (fun _ _ h => hsame (h.2 _)) fun _ _ h => h
  | clearMemory offset len =>
      rw [sat_clearMemory]
      split
      · exact hsame rfl
      · exact (haccess offset len).mono (fun _ _ h => hsame (h.2 _)) fun _ _ h => h
  | memoryPtr offset len =>
      rw [sat_memoryPtr]
      exact hsame rfl

/-- The program keeps the maps sparse, and each search ends. -/
def StaysSparse {α : Type} (x : Core α) (s : ExecutionState) : Prop :=
  Sat x s (fun _ s' => s'.hostCtx.Sparse)
    fun h s' => h ≠ .fault .diverges ∧ ∀ status, h = .ret status → s'.hostCtx.Sparse

/-- A part of an implementation, without `access_storage`. -/
theorem Has.ends {α : Type} {x : Core α} {Q : α → Prop} (h : Has e x Q) (hmsg : s.msg = e.msg)
    (he : ∀ addr key, ¬ e.host (.accessStorage addr key)) (hs : s.hostCtx.Sparse) :
    StaysSparse x s := by
  have hboth := Built.holds (C := (frameContract e).both endsContract)
    (fun _ _ _ hp => (prim_frame hp).both (prim_ends hp he)) h
  exact (hboth s ⟨hmsg, hs⟩).mono (fun _ _ h => h.2.1.2) fun _ _ h => h.2

/-! ### The instructions of the storage -/

/-- The effects of what follows `access_storage`. -/
def afterAccess (msg : Message) (top : Int) : Effects where
  lo := top - 1023
  hi := top + 1024
  msg := msg
  host op := ∀ addr key, op ≠ .accessStorage addr key
  readsGas := True
  raisesGas := True
  setsOutput := False

omit [Env] in
/-- Behind the access to the slot no other one is made. -/
theorem afterAccess_never (msg : Message) (top : Int) (addr : Address) (key : Bytes32) :
    ¬ (afterAccess msg top).host (.accessStorage addr key) := fun h => h addr key rfl

omit [Env] in
/-- With room in the maps, the access to a slot ends. -/
theorem sat_askAccessStorage_ends (hs : s.hostCtx.Sparse) (hroom : s.hostCtx.Roomy) (addr : Address)
    (key : Bytes32) :
    Sat (ask (.accessStorage addr key)) s (fun _ s' => s'.hostCtx.Sparse ∧ s'.msg = s.msg)
      fun h s' => h ≠ .fault .diverges ∧ ∀ status, h = .ret status → s'.hostCtx.Sparse := by
  have hmsg : Sat (ask (.accessStorage addr key)) s (fun _ s' => s'.msg = s.msg)
      fun _ _ => True := by
    rw [sat_ask]
    exact (sat_trivial _ _).mono (fun _ _ _ => rfl) fun _ _ _ => trivial
  exact ((sat_ask_ends (MockedHost.serve_ends hs hroom (.accessStorage addr key))).and hmsg).mono
    (fun _ _ h => h) fun _ _ h => h.1

/-- SLOAD makes one access, and ends. -/
theorem sload_ends {top : Int} (hs : s.hostCtx.Sparse) (hroom : s.hostCtx.Roomy) :
    StaysSparse (sload top) s := by
  have hrest : ∀ key s', s'.msg = s.msg → s'.hostCtx.Sparse → StaysSparse (do
      let data ← ask (.getStorage s.msg.recipient key)
      store top (readu256BE (bytesAt data))) s' := by
    intro key s' hmsg hs'
    refine Has.ends (e := afterAccess s.msg top) (Q := fun _ => True) ?_ hmsg
      (afterAccess_never _ _) hs'
    exact .bind (.prim (.ask _ nofun)) fun data _ =>
      Has.store _ _ (by simp only [afterAccess]; omega)
  unfold sload
  dsimp only [StackTop.top]
  unfold StaysSparse
  rw [sat_bind, sat_load]
  split
  case isFalse => exact ⟨nofun, nofun⟩
  rw [sat_bind, sat_read, sat_bind, sat_read, sat_ite]
  refine ⟨fun _ => ?_, fun _ => hrest _ s rfl hs⟩
  rw [sat_bind]
  refine (sat_askAccessStorage_ends hs hroom _ _).mono (fun access s' h => ?_) fun _ _ h => h
  obtain ⟨hs', hmsg⟩ := h
  rw [sat_ite]
  refine ⟨fun _ => ?_, fun _ => hrest _ s' hmsg hs'⟩
  rw [sat_bind, sat_chargeGas]
  split
  · split
    · exact ⟨nofun, fun _ _ => hs'⟩
    · exact hrest _ _ hmsg hs'
  · exact ⟨nofun, nofun⟩

/-- SSTORE makes one access and one write, and ends. -/
theorem sstore_ends {top : Int} (hs : s.hostCtx.Sparse) (hroom : s.hostCtx.Roomy) :
    StaysSparse (sstore top) s := by
  have hrest : ∀ key value cost s', s'.msg = s.msg → s'.hostCtx.Sparse → StaysSparse (do
      let status ← ask (.setStorage s.msg.recipient key value)
      chargeGas (sstoreCost s.rev status cost)) s' := by
    intro key value cost s' hmsg hs'
    refine Has.ends (e := afterAccess s.msg top) (Q := fun _ => True) ?_ hmsg
      (afterAccess_never _ _) hs'
    exact .bind (.prim (.ask _ nofun)) fun status _ => .prim (.chargeGas _ (Or.inr trivial))
  unfold sstore
  dsimp only [StackTop.pop]
  unfold StaysSparse
  rw [sat_bind, sat_refuseStatic]
  split
  · exact ⟨nofun, fun _ _ => hs⟩
  rw [sat_bind, sat_read, sat_bind, sat_read, sat_ite]
  refine ⟨fun _ => ⟨nofun, fun _ _ => hs⟩, fun _ => ?_⟩
  rw [sat_bind, sat_load]
  split
  case isFalse => exact ⟨nofun, nofun⟩
  rw [sat_bind, sat_load]
  split
  case isFalse => exact ⟨nofun, nofun⟩
  rw [sat_bind, sat_read, sat_bind, sat_read, sat_ite]
  refine ⟨fun _ => ?_, fun _ => hrest _ _ 0 s rfl hs⟩
  rw [sat_bind]
  exact (sat_askAccessStorage_ends hs hroom _ _).mono
    (fun access s' h => hrest _ _ (if access = .cold then coldSloadCost else 0) s' h.2 h.1)
    fun _ _ h => h

/-! ### Each instruction function -/

/-- The core implementation of the function, on a host whose maps are sparse and can grow. -/
theorem InstrFn.core_ends {fn : InstrFn} (hdup : fn ≠ .opDup 0) (hs : s.hostCtx.Sparse)
    (hroom : s.hostCtx.Roomy) (top : Int) :
    (∀ opcode body, fn.shape = .core opcode body → StaysSparse (body top) s) ∧
    (∀ opcode body, fn.shape = .corrected opcode body → StaysSparse (body top) s) ∧
    ∀ body, fn.shape = .terminate body → StaysSparse (body top) s := by
  by_cases hsload : fn = .opSload
  · subst hsload
    exact ⟨fun _ _ h => by cases h; exact sload_ends hs hroom, nofun, nofun⟩
  by_cases hsstore : fn = .opSstore
  · subst hsstore
    exact ⟨nofun, fun _ _ h => by cases h; exact sstore_ends hs hroom, nofun⟩
  have hcover := fn.effects_covers s.msg top
  have hhas := fn.has_of (e := { fn.effects s.msg top with host := fn.MayAsk }) hdup
    ⟨hcover.lo, hcover.hi⟩ id id id fun _ h _ => h
  have hnever : ∀ addr key, ¬ fn.MayAsk (.accessStorage addr key) := fun _ _ h =>
    h.elim hsload hsstore
  refine ⟨fun _ body h => ?_, fun _ body h => ?_, fun body h => ?_⟩
  all_goals
    rw [h] at hhas
    exact Has.ends hhas rfl hnever hs

/-- The call of an instruction function ends. -/
theorem call_ends {fn : InstrFn} (hdup : fn ≠ .opDup 0) {s : AdvancedExecutionState}
    (hs : s.estate.hostCtx.Sparse) (hroom : s.estate.hostCtx.Roomy) (analysis : CodeAnalysis)
    (instr : Nat) (arg : InstructionArgument) :
    Sat (fn.call analysis instr arg) s (fun _ s' => s'.estate.hostCtx.Sparse)
      fun f _ => f ≠ .diverges := by
  have hwrong : Fault.wrongArgument ≠ .diverges := by decide
  -- JUMPI contains a JUMP, and five functions end with a push.
  have hjump : Sat (opJump analysis) s (fun _ s' => s'.estate.hostCtx.Sparse)
      fun f _ => f ≠ .diverges := by
    unfold opJump
    simp only [sat_bind, sat_stackPop]
    split
    case isFalse => decide
    simp only [sat_ite, sat_exit, sat_throw, sat_pure, sat_bind]
    exact ⟨fun _ => hs, fun _ => ⟨fun _ => by decide, fun _ => hs⟩⟩
  have hpush : ∀ (word : Uint256) (s' : AdvancedExecutionState), s'.estate.hostCtx.Sparse →
      Sat (stackPush word) s' (fun _ s'' => s''.estate.hostCtx.Sparse) fun f _ => f ≠ .diverges := by
    intro word s' h
    rw [sat_stackPush]
    split
    · exact h
    · decide
  -- What the core does is known by its effects; what is left is the wrapping around it.
  have hcore := fun s hs hroom => InstrFn.core_ends (s := s) hdup hs hroom
  rw [InstrFn.call_eq]
  cases hshape : fn.shape with
  | core opcode body =>
      rw [Shape.run, sat_opCore]
      refine ((hcore s.estate hs hroom s.topItem).1 opcode body hshape).mono (fun _ _ h => h)
        fun h estate herr => ?_
      cases h with
      | ret status =>
          have hsparse := herr.2 status rfl
          exact afterStatus_cases (P := fun _ s' => s'.estate.hostCtx.Sparse) _ (fun _ => hsparse)
            fun _ => hsparse
      | fault f => exact fun heq => herr.1 (congrArg Halt.fault heq)
  | corrected opcode body =>
      cases arg with
      | number n =>
          rw [Shape.run, sat_opCorrected]
          split
          case isFalse => decide
          -- The correction is taken back behind the core, also behind an early return.
          have hback : ∀ estate : ExecutionState, estate.hostCtx.Sparse → ∀ top,
              if isInt64 (estate.gasLeft - (s.currentBlockCost - n)) then
                let r := afterCorrection (s.currentBlockCost - n) (some (instr + 1))
                  { s with estate := estate, topItem := top }
                r.2.estate.hostCtx.Sparse
              else Fault.signedOverflow ≠ .diverges := by
            intro estate h top
            split
            · exact afterCorrection_cases (P := fun _ s' => s'.estate.hostCtx.Sparse) _
                (fun _ => h) fun _ => h
            · decide
          refine ((hcore (s.estate.seeGas _) hs hroom s.topItem).2.1 opcode body hshape).mono
            (fun _ estate h => hback estate h _) fun h estate herr => ?_
          cases h with
          | ret status =>
              have hsparse := herr.2 status rfl
              dsimp only
              split
              · exact hback estate hsparse _
              · exact hsparse
          | fault f => exact fun heq => herr.1 (congrArg Halt.fault heq)
      | _ => exact hwrong
  | terminate body =>
      rw [Shape.run, sat_opTerminate]
      refine ((hcore s.estate hs hroom s.topItem).2.2 body hshape).mono (fun _ _ h => h)
        fun h estate herr => ?_
      cases h with
      | ret status => exact herr.2 status rfl
      | fault f => exact fun heq => herr.1 (congrArg Halt.fault heq)
  | undefined => exact hs
  | jump => exact hjump
  | jumpi =>
      simp only [Shape.run, opJumpi, sat_bind, sat_stackGet, sat_ite, sat_pure]
      split
      case isFalse => decide
      refine ⟨fun _ => hjump.mono (fun next s' h => ?_) fun _ _ h => h, fun _ => ?_⟩
      · rw [sat_stackPop]
        split
        · exact h
        · decide
      · simp only [sat_stackPop]
        split
        · exact hs
        · decide
  | pc =>
      cases arg with
      | number n =>
          simp only [Shape.run, opPc, argNumber, sat_bind, sat_pure]
          exact hpush _ s hs
      | _ => exact hwrong
  | gas =>
      cases arg with
      | number n =>
          simp only [Shape.run, opGas, argNumber, sat_bind, sat_get, sat_pure, sat_logGas]
          exact hpush _ _ hs
      | _ => exact hwrong
  | pushSmall =>
      cases arg with
      | smallPushValue value =>
          simp only [Shape.run, opPushSmall, sat_bind, sat_pure]
          exact hpush _ s hs
      | _ => exact hwrong
  | pushFull =>
      cases arg with
      | pushValue value =>
          simp only [Shape.run, opPushFull, sat_bind, sat_pure]
          exact hpush _ s hs
      | _ => exact hwrong
  -- A block is charged and checked without the host.
  | beginblock =>
      cases arg with
      | block block =>
          simp only [Shape.run, opxBeginblock, sat_bind, sat_subGas]
          split
          case isFalse => decide
          simp only [sat_bind, sat_get, sat_ite, sat_exit, sat_set, sat_pure]
          exact ⟨fun _ => hs, fun _ => ⟨fun _ => hs, fun _ => ⟨fun _ => hs, fun _ => hs⟩⟩⟩
      | _ => exact hwrong

end

end TscVee
