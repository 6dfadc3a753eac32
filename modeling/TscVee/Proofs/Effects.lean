import TscVee.Proofs.CoreRules
import TscVee.Proofs.HostRules

/-!
# `TscVee.Proofs.Effects`: what instruction implementations may do

`Effects` says which slots of the stack space an implementation touches, which requests it may send
to the host, and how it depends on the gas counter. `Prim` lists the parts that an implementation
with these effects is put together from. Each implementation is `Built` from them once, in
`TscVee.Proofs.CoreEffects`, and what holds of the parts then holds of every implementation.

* `Frame`: what no implementation changes, how the trace grows, and that the host is what the
  requests of the trace make of it.
* `prim_frame`: the parts keep the frame, whatever their outcome, stay inside the stack space when
  their slots do, and return no status early that a regular end has.
-/

set_option autoImplicit false

namespace TscVee

open TscVee.Core Lib

/-- What an instruction implementation may do. -/
structure Effects where
  /-- The lowest and the highest slot that it loads or stores. -/
  lo : Int
  hi : Int
  /-- The message of the run. -/
  msg : Message
  /-- The requests that it may send to the host. -/
  host : HostOp → Prop
  /-- It may depend on the gas counter. -/
  readsGas : Prop
  /-- It may raise the gas counter. -/
  raisesGas : Prop
  /-- It may set the size of the output. -/
  setsOutput : Prop

/-- The message has the static flag. -/
def Message.Static (msg : Message) : Prop := msg.flags &&& 1 ≠ 0

/-- The request is allowed in a run with the message `msg`: in static mode, nothing that changes the
state of the host, and static calls only. -/
def HostOp.AllowedIn (msg : Message) : HostOp → Prop
  | .setStorage .. | .emitLog .. | .selfdestruct .. => ¬ msg.Static
  | .call m => msg.Static → m.Static ∧ m.kind ≠ .create ∧ m.kind ≠ .create2
  | _ => True

/-- A status that an implementation returns early. -/
def StatusCode.Early (status : StatusCode) : Prop := status ≠ .success ∧ status ≠ .revert

instance (status : StatusCode) : Decidable status.Early := inferInstanceAs (Decidable (_ ∧ _))

/-- The parts of an implementation with the effects `e`, with what they return. -/
inductive Prim [Env] (e : Effects) : (α : Type) → Core α → (α → Prop) → Prop
  | read {α : Type} (f : ExecutionState → α)
      (h : e.readsGas ∨ ∀ s gas, f { s with gasLeft := gas } = f s)
      (hspace : ∀ s stackSpace, f { s with stackSpace := stackSpace } = f s) :
      Prim e α (Core.read f) fun a => ∃ s : ExecutionState, s.msg = e.msg ∧ a = f s
  | load (p : Int) (h : e.lo ≤ p ∧ p ≤ e.hi) : Prim e Uint256 (load p) fun _ => True
  | store (p : Int) (value : Uint256) (h : e.lo ≤ p ∧ p ≤ e.hi) :
      Prim e Unit (store p value) fun _ => True
  | ret {α : Type} (status : StatusCode) (h : status.Early) :
      Prim e α (Core.ret status) fun _ => False
  | fault {α : Type} (f : Fault) (h : f ≠ .stackOutOfBounds ∧ f ≠ .diverges) :
      Prim e α (Core.fault f) fun _ => False
  | nextFresh : Prim e Nat nextFresh fun _ => True
  | ask (op : HostOp) (h : e.host op) : Prim e op.Answer (ask op) fun _ => True
  | refuseStatic : Prim e Unit refuseStatic fun _ => ¬ e.msg.Static
  | int64 (x : Int) : Prim e Int (int64 x) fun y => y = x ∧ isInt64 x
  | chargeGas (cost : Int) (h : 0 ≤ cost ∨ e.raisesGas) :
      Prim e Unit (chargeGas cost) fun _ => True
  | subGas (cost : Int) (h : e.raisesGas) : Prim e Unit (Core.subGas cost) fun _ => True
  | setGas (gas : Int) (h : e.raisesGas ∧ e.readsGas) : Prim e Unit (setGas gas) fun _ => True
  | requireMemoryU64 (offset : Uint256) (size : Nat) :
      Prim e Unit (requireMemoryU64 offset size) fun _ => True
  | requireMemoryU256 (offset size : Uint256) :
      Prim e Unit (requireMemoryU256 offset size) fun _ => True
  | readMemory (offset len : Nat) : Prim e (List Byte) (readMemory offset len) fun _ => True
  | writeMemory (offset : Nat) (bytes : List Byte) :
      Prim e Unit (writeMemory offset bytes) fun _ => True
  | clearMemory (offset len : Nat) : Prim e Unit (clearMemory offset len) fun _ => True
  | memoryPtr (offset len : Nat) : Prim e Ptr (memoryPtr offset len) fun _ => True
  | logAccess (offset len size : Nat) :
      Prim e Unit (log (.memAccess offset len size)) fun _ => True
  | dropReturnData : Prim e PUnit (modify fun s => { s with returnData := none }) fun _ => True
  | setOutputSize (size : Nat) (h : e.setsOutput) :
      Prim e PUnit (modify fun s => { s with outputSize := size }) fun _ => True
  | setOutputOffset (offset : Nat) :
      Prim e PUnit (modify fun s => { s with outputOffset := offset }) fun _ => True

/-- The implementation has the effects `e`, and returns a value in `Q`. -/
abbrev Has [Env] (e : Effects) {α : Type} (x : Core α) (Q : α → Prop) : Prop :=
  Built (Prim e) α x Q

/-! ### The frame -/

/-- The host after an event. -/
def Event.apply (host : MockedHost) : Event → MockedHost
  | .host op => op.after host
  | _ => host

/-- Events that are no requests leave the host as it is. -/
theorem foldl_apply {events : List Event} (h : ∀ op, Event.host op ∉ events) (host : MockedHost) :
    events.foldl Event.apply host = host := by
  induction events with
  | nil => rfl
  | cons ev events ih =>
      have hev : Event.apply host ev = host := by
        cases ev with
        | host op => exact absurd List.mem_cons_self (h op)
        | _ => rfl
      rw [List.foldl_cons, hev]
      exact ih fun op hop => h op (List.mem_cons_of_mem _ hop)

/-- What an implementation changes and how. -/
structure Frame (e : Effects) (s s' : ExecutionState) : Prop where
  msg : s'.msg = s.msg
  rev : s'.rev = s.rev
  code : s'.code = s.code
  status : s'.status = s.status
  output : ¬ e.setsOutput → s'.outputSize = s.outputSize
  size : s.memory.mSize ≤ s'.memory.mSize
  /-- The trace is extended by requests that are allowed, and the host is the result of them. -/
  trace : ∃ events, s'.trace = s.trace ++ events ∧ (∀ op, Event.host op ∈ events → e.host op) ∧
    s'.hostCtx = events.foldl Event.apply s.hostCtx
  /-- The slots outside the range keep their words. -/
  stack : ∀ p, ¬ (e.lo ≤ p ∧ p ≤ e.hi) → s'.stackSpace p = s.stackSpace p

/-- A program that does nothing. -/
theorem Frame.refl (e : Effects) (s : ExecutionState) : Frame e s s :=
  ⟨rfl, rfl, rfl, rfl, fun _ => rfl, le_refl _, ⟨[], by simp⟩, fun _ _ => rfl⟩

/-- Two programs with the same effects, one after the other. -/
theorem Frame.trans {e : Effects} {s s' s'' : ExecutionState} (h : Frame e s s')
    (h' : Frame e s' s'') : Frame e s s'' := by
  obtain ⟨es, htrace, hhost, hctx⟩ := h.trace
  obtain ⟨es', htrace', hhost', hctx'⟩ := h'.trace
  refine ⟨h'.msg.trans h.msg, h'.rev.trans h.rev, h'.code.trans h.code, h'.status.trans h.status,
    fun hset => (h'.output hset).trans (h.output hset), h.size.trans h'.size, ⟨es ++ es', ?_, fun op hop => ?_, ?_⟩,
    fun p hp => (h'.stack p hp).trans (h.stack p hp)⟩
  · rw [htrace', htrace, List.append_assoc]
  · rcases List.mem_append.1 hop with hop | hop
    · exact hhost op hop
    · exact hhost' op hop
  · rw [hctx', hctx, List.foldl_append]

/-- A step that leaves everything in the frame as it is, but for one event of the trace that is no
request. -/
theorem Frame.of_eq {e : Effects} {s s' : ExecutionState} (events : List Event)
    (hs : s' = { s with
      gasLeft := s'.gasLeft, memory := s'.memory, returnData := s'.returnData
      outputOffset := s'.outputOffset, trace := s.trace ++ events, fresh := s'.fresh })
    (hevents : ∀ op, Event.host op ∉ events) (hsize : s.memory.mSize ≤ s'.memory.mSize) :
    Frame e s s' := by
  refine ⟨?_, ?_, ?_, ?_, fun _ => ?_, hsize,
    ⟨events, ?_, fun op hop => absurd hop (hevents op), ?_⟩, fun p _ => ?_⟩
  · rw [hs]
  · rw [hs]
  · rw [hs]
  · rw [hs]
  · rw [hs]
  · rw [hs]
  · rw [foldl_apply hevents, hs]
  · rw [hs]

/-- The contract of the frame. -/
def frameContract (e : Effects) : Contract Halt ExecutionState where
  inv s := s.msg = e.msg
  rel := Frame e
  err h s s' := Frame e s s' ∧ (0 ≤ e.lo → e.hi < 1024 → h ≠ .fault .stackOutOfBounds) ∧
    ∀ status, h = .ret status → status.Early
  refl := Frame.refl e
  trans := Frame.trans
  err_of_rel h h' := ⟨h.trans h'.1, h'.2⟩

/-- An end with the effects that are allowed, and with a status of an early return. -/
theorem frameContract_err {e : Effects} {h : Halt} {s s' : ExecutionState} (hframe : Frame e s s')
    (hstack : h ≠ .fault .stackOutOfBounds)
    (hret : ∀ status, h = .ret status → status.Early) : (frameContract e).err h s s' :=
  ⟨hframe, fun _ _ => hstack, hret⟩

/-- The test of the source is the flag of the message. -/
theorem executionStateInStaticMode_iff (s : ExecutionState) :
    executionStateInStaticMode s = true ↔ s.msg.Static := by
  simp [executionStateInStaticMode, Message.Static, evmcStatic]

/-- A change of the memory that does not shrink it. -/
theorem SameButMemory.frame {e : Effects} {s s' : ExecutionState} (h : SameButMemory s s')
    (events : List Event) (htrace : s'.trace = s.trace ++ events)
    (hevents : ∀ op, Event.host op ∉ events) (hsize : s.memory.mSize ≤ s'.memory.mSize) :
    Frame e s s' := by
  refine .of_eq events ?_ hevents hsize
  rw [← htrace]
  unfold SameButMemory at h
  rw [h]

/-- A memory check that fails. -/
theorem MemRefused.frame {e : Effects} {s s' : ExecutionState} (h : MemRefused s s') :
    Frame e s s' := by
  obtain ⟨events, htrace, hevents⟩ := h.trace
  exact h.same.frame events htrace hevents (by rw [h.size])

/-- A memory check that succeeds. -/
theorem MemChecked.frame {e : Effects} {s s' : ExecutionState} (h : MemChecked s s') :
    Frame e s s' := by
  obtain ⟨events, htrace, hevents⟩ := h.trace
  refine h.same.frame events htrace hevents ?_
  rcases h.size with hsize | ⟨hsize, -, -⟩ <;> omega

/-- The outcome of a memory check keeps the frame. -/
theorem frameContract_memory {e : Effects} {s s' : ExecutionState} {h : Halt}
    (hh : MemRefused s s' ∧ ((h = .ret .outOfGas ∧ (s'.gasLeft = s.gasLeft ∨ s'.gasLeft < 0)) ∨
      ∃ f : Fault, h = .fault f ∧ f.ofMemory)) : (frameContract e).err h s s' := by
  obtain ⟨hrefused, ⟨rfl, -⟩ | ⟨f, rfl, hf⟩⟩ := hh
  · refine frameContract_err hrefused.frame nofun fun status hstatus => ?_
    cases hstatus
    decide
  · refine frameContract_err hrefused.frame (fun heq => ?_) nofun
    rw [Halt.fault.injEq] at heq
    rcases hf with rfl | rfl | rfl <;> cases heq

section
variable [Env] {e : Effects}

/-- The parts of an implementation keep the frame. -/
theorem prim_frame {α : Type} {x : Core α} {Q : α → Prop} (h : Prim e α x Q) :
    (frameContract e).Holds x Q := by
  intro s hs
  -- Most steps keep everything but their own field, and send no request.
  have hsame : ∀ {s' : ExecutionState} (events : List Event), s' = { s with
      gasLeft := s'.gasLeft, memory := s'.memory, returnData := s'.returnData
      outputOffset := s'.outputOffset, trace := s.trace ++ events, fresh := s'.fresh } →
      (∀ op, Event.host op ∉ events) → s.memory.mSize ≤ s'.memory.mSize →
      s'.msg = e.msg ∧ Frame e s s' := fun events heq hevents hsize =>
    ⟨by rw [heq]; exact hs, .of_eq events heq hevents hsize⟩
  -- An access is recorded in front of the test of its range, so that also its faults have a frame.
  have haccess : ∀ offset len, Sat (access offset len) s
      (fun _ s' => (s'.msg = e.msg ∧ Frame e s s') ∧
        ∀ data, (s'.setData data).msg = e.msg ∧ Frame e s (s'.setData data))
      fun h s' => (frameContract e).err h s s' := by
    intro offset len
    have hlog : ∀ data, ((s.logAccess offset len).setData data).msg = e.msg ∧
        Frame e s ((s.logAccess offset len).setData data) := fun data =>
      hsame [_] rfl (by simp) (le_refl _)
    have hlog' : Frame e s (s.logAccess offset len) := (hlog s.memory.mData).2
    rw [sat_access]
    split
    · exact frameContract_err hlog' nofun nofun
    · split
      · exact ⟨hlog s.memory.mData, hlog⟩
      · exact frameContract_err hlog' nofun nofun
  cases h with
  | read f => exact ⟨⟨s, hs, rfl⟩, hs, .refl e s⟩
  -- A load outside of the stack space is one outside of the slots of the effects.
  | load p h =>
      rw [sat_load]
      split
      · exact ⟨trivial, hs, .refl e s⟩
      case isFalse hp =>
        refine ⟨.refl e s, fun hlo hhi => absurd ?_ hp, nofun⟩
        unfold inStackSpace Slot
        omega
  | store p value h =>
      rw [sat_store]
      split
      case isTrue hp =>
        refine ⟨trivial, hs, ⟨rfl, rfl, rfl, rfl, fun _ => rfl, le_refl _,
          ⟨[], by simp [ExecutionState.setSlot]⟩, fun q hq => ?_⟩⟩
        -- The other slots stay.
        have : q ≠ p := by
          rintro rfl
          exact hq h
        simp [ExecutionState.setSlot, this]
      case isFalse hp =>
        refine ⟨.refl e s, fun hlo hhi => absurd ?_ hp, nofun⟩
        unfold inStackSpace Slot
        omega
  | ret status h =>
      refine frameContract_err (.refl e s) nofun fun st hst => ?_
      cases hst
      exact h
  | fault f h =>
      refine frameContract_err (.refl e s) (fun heq => h.1 ?_) nofun
      exact Halt.fault.inj heq
  | nextFresh => exact ⟨trivial, hsame [] (by simp) (by simp) (le_refl _)⟩
  | ask op h =>
      rw [sat_ask]
      have hframe : ∀ host, op.after s.hostCtx = host →
          Frame e s { s with hostCtx := host, trace := s.trace ++ [.host op] } := fun host hhost =>
        ⟨rfl, rfl, rfl, rfl, fun _ => rfl, le_refl _, ⟨[.host op], rfl, fun op' hop' => by
          rw [List.mem_singleton, Event.host.injEq] at hop'
          exact hop' ▸ h, hhost.symm⟩, fun _ _ => rfl⟩
      -- The host does what it does, and its faults are none of the stack.
      have hserve := serve_holds op s.hostCtx trivial
      have hafter : Sat op.serve s.hostCtx (fun _ host => op.after s.hostCtx = host)
          fun _ host => op.after s.hostCtx = host := by
        unfold Sat HostOp.after
        cases op.serve s.hostCtx <;> rfl
      refine (hserve.and hafter).mono (fun a host ⟨_, hhost⟩ => ⟨trivial, hs, hframe host hhost⟩)
        fun f host ⟨hf, hhost⟩ => frameContract_err (hframe host hhost) (fun heq => ?_) nofun
      rw [Halt.fault.injEq] at heq
      subst heq
      rcases hf with hf | hf | hf <;> cases hf
  | refuseStatic =>
      rw [sat_refuseStatic]
      split
      · refine frameContract_err (.refl e s) nofun fun st hst => ?_
        cases hst
        decide
      case isFalse hstatic =>
        rw [executionStateInStaticMode_iff, hs] at hstatic
        exact ⟨hstatic, hs, .refl e s⟩
  | int64 x =>
      rw [sat_int64]
      split
      case isTrue hx => exact ⟨⟨rfl, hx⟩, hs, .refl e s⟩
      · exact frameContract_err (.refl e s) nofun nofun
  | chargeGas cost h =>
      rw [sat_chargeGas]
      split
      · split
        · have hframe : Frame e s { s with gasLeft := s.gasLeft - cost } :=
            .of_eq [] (by simp) (by simp) (le_refl _)
          refine frameContract_err hframe nofun fun st hst => ?_
          cases hst
          decide
        · exact ⟨trivial, hsame [] (by simp) (by simp) (le_refl _)⟩
      · exact frameContract_err (.refl e s) nofun nofun
  | subGas cost h =>
      rw [sat_subGas']
      split
      · exact ⟨trivial, hsame [] (by simp) (by simp) (le_refl _)⟩
      · exact frameContract_err (.refl e s) nofun nofun
  | setGas gas h => exact ⟨trivial, hsame [] (by simp) (by simp) (le_refl _)⟩
  | requireMemoryU64 offset size =>
      refine (sat_requireMemoryU64 offset size).mono (fun _ s' ⟨h, _⟩ => ?_) fun _ _ hh =>
        frameContract_memory hh
      exact ⟨trivial, (h.frame (e := e)).msg.trans hs, h.frame⟩
  | requireMemoryU256 offset size =>
      refine (sat_requireMemoryU256 offset size).mono (fun _ s' h => ?_) fun _ _ hh =>
        frameContract_memory hh
      rcases h with ⟨-, rfl⟩ | ⟨-, h, -⟩
      · exact ⟨trivial, hs, .refl e s'⟩
      · exact ⟨trivial, (h.frame (e := e)).msg.trans hs, h.frame⟩
  | readMemory offset len =>
      rw [sat_readMemory]
      split
      · exact ⟨trivial, hs, .refl e s⟩
      · exact (haccess offset len).mono (fun _ _ h => ⟨trivial, h.1⟩) fun _ _ h => h
  | writeMemory offset bytes =>
      rw [sat_writeMemory]
      split
      · exact ⟨trivial, hs, .refl e s⟩
      · exact (haccess offset bytes.length).mono (fun _ _ h => ⟨trivial, h.2 _⟩) fun _ _ h => h
  | clearMemory offset len =>
      rw [sat_clearMemory]
      split
      · exact ⟨trivial, hs, .refl e s⟩
      · exact (haccess offset len).mono (fun _ _ h => ⟨trivial, h.2 _⟩) fun _ _ h => h
  | memoryPtr offset len =>
      rw [sat_memoryPtr]
      exact ⟨trivial, hsame [_] rfl (by simp) (le_refl _)⟩
  | logAccess offset len size => exact ⟨trivial, hsame [_] rfl (by simp) (le_refl _)⟩
  | dropReturnData => exact ⟨trivial, hsame [] (by simp) (by simp) (le_refl _)⟩
  -- The only step that sets the size of the output.
  | setOutputSize size h =>
      exact ⟨trivial, hs, ⟨rfl, rfl, rfl, rfl, fun hnot => absurd h hnot, le_refl _, ⟨[], by simp⟩,
        fun _ _ => rfl⟩⟩
  | setOutputOffset offset => exact ⟨trivial, hsame [] (by simp) (by simp) (le_refl _)⟩

end

end TscVee
