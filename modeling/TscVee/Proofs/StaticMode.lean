import TscVee.Proofs.RunRules

/-!
# `TscVee.Proofs.StaticMode`: static mode over whole runs

* `Asks P`: from one inner state to another, the message stays and all new requests to the host
  satisfy `P`.
* `asks_of_step`: what the core implementation of an instruction asks for is all that a step asks
  for.
* `run_static`: a run in static mode sends nothing to the host that changes its state, and static
  calls only; and a `STATICCALL` hands over a static message in every mode.
-/

set_option autoImplicit false

namespace TscVee

open TscVee.Core Lib

/-- A request that a static run may send. -/
def HostOp.KeepsStatic : HostOp → Prop
  | .setStorage .. | .emitLog .. | .selfdestruct .. => False
  | .call m => m.isStatic ∧ m.kind ≠ .create ∧ m.kind ≠ .create2
  | _ => True

/-- When the message is `msg`, it stays, and the new requests satisfy `P`. -/
def Asks (msg : Message) (P : HostOp → Prop) (s s' : ExecutionState) : Prop :=
  s.msg = msg → s'.msg = msg ∧
    ∃ events, s'.trace = s.trace ++ events ∧ ∀ op, Event.host op ∈ events → P op

section
variable {msg : Message} {P : HostOp → Prop}

/-- The bookkeeping of a step asks for nothing. -/
theorem asks_bookkept : Bookkept (Asks msg P) where
  refl _ h := ⟨h, [], by simp⟩
  trans h h' hs := by
    obtain ⟨hs', es, htrace, hes⟩ := h hs
    obtain ⟨hs'', es', htrace', hes'⟩ := h' hs'
    refine ⟨hs'', es ++ es', by rw [htrace', htrace, List.append_assoc], fun op hop => ?_⟩
    exact (List.mem_append.1 hop).elim (hes op) (hes' op)
  gas _ _ h := ⟨h, [], by simp⟩
  see _ gas h := ⟨h, [.gasSeen gas], by simp⟩
  slot _ _ h := ⟨h, [], by simp⟩

/-- A program put together from parts asks for what its effects allow. -/
theorem Has.moves_asks [Env] {e : Effects} {α : Type} {x : Core α} {Q : α → Prop} (h : Has e x Q)
    (hmsg : e.msg = msg) (hP : ∀ op, e.host op → P op) : Moves (Asks msg P) x := by
  intro s
  by_cases hs : s.msg = msg
  case neg => exact (sat_trivial x s).mono (fun _ _ _ h => absurd h hs) fun _ _ _ h => absurd h hs
  have hframe : ∀ s', Frame e s s' → Asks msg P s s' := fun s' hframe _ => by
    obtain ⟨events, htrace, hevents, -⟩ := hframe.trace
    exact ⟨hframe.msg.trans hs, events, htrace, fun op hop => hP op (hevents op hop)⟩
  exact (h.frame s (hs.trans hmsg.symm)).mono (fun _ s' h => hframe s' h.2.2)
    fun _ s' h => hframe s' h.1

end

section
variable [Env] {rev : Revision} {code : List Byte}

/-- The core implementations ask for what their effects allow. -/
theorem InstrFn.coreMoves_asks {msg : Message} {fn : InstrFn} (hdup : fn ≠ .opDup 0) :
    fn.shape.CoreMoves (Asks msg (HostOp.AllowedIn msg)) := by
  have hhas := fun top => InstrFn.has fn hdup msg top
  cases hshape : fn.shape with
  | core _ body | corrected _ body | terminate body =>
      intro top
      have h := hhas top
      rw [hshape] at h
      exact h.moves_asks rfl fun _ hop => hop
  | _ => trivial

/-- A `STATICCALL` asks for static calls only. -/
theorem staticcall_moves_asks {msg : Message} :
    InstrFn.opStaticcall.shape.CoreMoves (Asks msg fun op => ∀ m, op = .call m → m.isStatic) := by
  intro top
  refine Has.moves_asks
    (e := ⟨top - 5, top, msg, fun op => ∀ m, op = .call m → m.isStatic, True, True, True⟩)
    (has_staticcall (fun op hop m hm => ?_) trivial trivial (fun m _ hflags m' hm' => ?_)
      ⟨by simp only; omega, by simp only; omega⟩) rfl fun _ hop => hop
  · subst hm
    exact hop.elim
  · cases hm'
    rw [Message.isStatic, hflags]
    decide

/-- One step of a run: the message stays, and the new requests are allowed. -/
theorem asks_of_step {msg : Message} {c c' : Config}
    (h : stepInstr (analyzeCode rev code) c = some c') :
    Asks msg (HostOp.AllowedIn msg) c.astate.estate c'.astate.estate := by
  cases hfn : c.fn? (analyzeCode rev code) with
  | none =>
      rw [stepInstr_none hfn h]
      exact asks_bookkept.refl _
  | some fn =>
      exact stepInstr_moves asks_bookkept hfn (InstrFn.coreMoves_asks (fn?_ne_dup_zero hfn)) h

/-- In static mode, no reachable state has sent the host a request that changes its state, or a
call that is not static. In every mode, the calls that a `STATICCALL` sends are static. -/
theorem run_static {rev : Revision} {hostCtx : MockedHost} {msg : Message} {code : List Byte}
    {analysis : CodeAnalysis} {c : Config} (h : Runs rev hostCtx msg code analysis c) :
    (msg.isStatic → ∀ op, Event.host op ∈ c.astate.estate.trace → op.KeepsStatic) ∧
      ∀ c', stepInstr analysis c = some c' → c.fn? analysis = some .opStaticcall →
        ∃ events, c'.astate.estate.trace = c.astate.estate.trace ++ events ∧
          ∀ m, Event.host (.call m) ∈ events → m.isStatic := by
  obtain ⟨hanalyze, hrun⟩ := h
  have hanalysis := analyze_ok hanalyze
  subst hanalysis
  -- The run lemma: every operation asked for is one the message allows.
  have hasks : Asks msg (HostOp.AllowedIn msg) (initialState rev hostCtx msg code).estate
      c.astate.estate :=
    hrun.relation (R := fun a b => Asks msg (HostOp.AllowedIn msg) a.astate.estate b.astate.estate)
      (fun _ => asks_bookkept.refl _) (fun _ _ _ => asks_bookkept.trans)
      fun _ _ => asks_of_step
  obtain ⟨hmsg, events, htrace, hevents⟩ := hasks rfl
  refine ⟨fun hstatic op hop => ?_, fun c' hstep hfn => ?_⟩
  · rw [htrace] at hop
    have hallowed := hevents op hop
    cases op with
    | setStorage | emitLog | selfdestruct => exact hallowed hstatic
    | call m => exact hallowed hstatic
    | _ => trivial
  -- One step of STATICCALL, with the message it makes.
  · obtain ⟨-, events, htrace, hevents⟩ :=
      stepInstr_moves asks_bookkept hfn staticcall_moves_asks hstep hmsg
    exact ⟨events, htrace, fun m hm => hevents _ hm m rfl⟩

end

/-- An `SSTORE` in static mode. -/
theorem run_static_sstore :
    let _ : Env := Env.zeroed
    let msg : Message := { (default : Message) with flags := 1, gas := 100000 }
    let code : List Byte := [0x60, 0, 0x60, 0, 0x55]
    let c := iterate (stepInstr (analyzeCode .london code)) 4
      (initialConfig .london (mockedHostInit default) msg code)
    (msg.isStatic → ∀ op, Event.host op ∈ c.astate.estate.trace → op.KeepsStatic) ∧
      ∀ c', stepInstr (analyzeCode .london code) c = some c' →
        c.fn? (analyzeCode .london code) = some .opStaticcall →
        ∃ events, c'.astate.estate.trace = c.astate.estate.trace ++ events ∧
          ∀ m, Event.host (.call m) ∈ events → m.isStatic :=
  @run_static Env.zeroed .london (mockedHostInit default)
    { (default : Message) with flags := 1, gas := 100000 } [0x60, 0, 0x60, 0, 0x55] _ _
    ⟨@analyze_eq Env.zeroed .london _ (by decide), reaches_iterate _ 4 _⟩

end TscVee
