import TscVee.Proofs.HostEffects

/-!
# `TscVee.Proofs.CallerObject`: what the caller's host object shows of a run

* `prim_answered`: the requests of an implementation that ends without a fault are answered.
* `executes_showsRun`: when all requests of a run have room, the caller's object shows what the run
  did.
* `executes_showsRun_fresh`: the object of `MockedHost_init` shows nothing.
-/

set_option autoImplicit false

namespace TscVee

open TscVee.Core Lib

/-! ### Requests of a run -/

/-- The requests of two parts of a trace. -/
theorem requests_append (trace events : List Event) :
    requests (trace ++ events) = requests trace ++ requests events := List.filterMap_append

/-- Events that are no requests. -/
theorem requests_eq_nil {events : List Event} (h : ∀ op, Event.host op ∉ events) :
    requests events = [] := by
  refine List.filterMap_eq_nil_iff.2 fun e he => ?_
  cases e with
  | host op => exact absurd he (h op)
  | _ => rfl

/-- The requests between two states have been answered. -/
def Answered (s s' : ExecutionState) : Prop :=
  ∃ ops, requests s'.trace = requests s.trace ++ ops ∧ s.hostCtx.Answers ops s'.hostCtx

/-- A part without requests leaves the host. -/
theorem Answered.quiet {s s' : ExecutionState} (events : List Event)
    (htrace : s'.trace = s.trace ++ events) (h : ∀ op, Event.host op ∉ events)
    (hhost : s'.hostCtx = s.hostCtx) : Answered s s' := by
  refine ⟨[], ?_, hhost ▸ .nil⟩
  rw [htrace, requests_append, requests_eq_nil h]

/-- Two parts, the second one answered by the host that the first one left. -/
theorem Answered.trans {s s' s'' : ExecutionState} (h : Answered s s') (h' : Answered s' s'') :
    Answered s s'' := by
  obtain ⟨ops, hrequests, hanswers⟩ := h
  obtain ⟨ops', hrequests', hanswers'⟩ := h'
  exact ⟨ops ++ ops', by rw [hrequests', hrequests, List.append_assoc], hanswers.append hanswers'⟩

/-- The contract of a program whose requests are answered, unless it ends in a fault. -/
def answeredContract : Contract Halt ExecutionState where
  inv _ := True
  rel := Answered
  err h s s' := ∀ status, h = .ret status → Answered s s'
  refl _ := .quiet [] (List.append_nil _).symm (by simp) rfl
  trans := Answered.trans
  err_of_rel h h' status hstatus := h.trans (h' status hstatus)

section
variable [Env]

/-- The requests of the parts of an implementation are answered. -/
theorem prim_answered {α : Type} {e : Effects} {x : Core α} {Q : α → Prop} (h : Prim e α x Q) :
    answeredContract.Holds x fun _ => True := by
  intro s _
  -- a part that sends no request, by its frame
  let quietly : Effects := { e with msg := s.msg, host := fun _ => False }
  have hframe : ∀ s', Frame quietly s s' → Answered s s' := fun s' hframe => by
    obtain ⟨events, htrace, hnone, hhost⟩ := hframe.trace
    exact .quiet events htrace hnone (hhost.trans (foldl_apply hnone _))
  have hquiet : ∀ {Q' : α → Prop}, Prim quietly α x Q' →
      Sat x s (fun _ s' => True ∧ True ∧ Answered s s')
        fun h s' => ∀ status, h = .ret status → Answered s s' := fun hx =>
    (prim_frame hx s rfl).mono (fun _ s' h => ⟨trivial, trivial, hframe s' h.2.2⟩)
      fun _ s' h _ _ => hframe s' h.1
  cases h with
  | ask op =>
      rw [sat_ask]
      have hserve : Sat op.serve s.hostCtx (fun answer host => op.serve s.hostCtx = .ok answer host)
          fun _ _ => True := by
        unfold Sat
        cases op.serve s.hostCtx with
        | ok answer host => rfl
        | error f host => trivial
      refine hserve.mono (fun answer host hok => ⟨trivial, trivial, [op], ?_, ?_⟩)
        fun _ _ _ status hstatus => by cases hstatus
      · exact requests_append _ _
      · exact .snoc .nil hok
  | read f h hspace => exact hquiet (.read f h hspace)
  | load p h => exact hquiet (.load p h)
  | store p value h => exact hquiet (.store p value h)
  | ret status h => exact hquiet (.ret status h)
  | fault f h => exact hquiet (.fault f h)
  | nextFresh => exact hquiet .nextFresh
  | refuseStatic => exact hquiet .refuseStatic
  | int64 x => exact hquiet (.int64 x)
  | chargeGas cost h => exact hquiet (.chargeGas cost h)
  | subGas cost h => exact hquiet (.subGas cost h)
  | setGas gas h => exact hquiet (.setGas gas h)
  | requireMemoryU64 offset size => exact hquiet (.requireMemoryU64 offset size)
  | requireMemoryU256 offset size => exact hquiet (.requireMemoryU256 offset size)
  | readMemory offset len => exact hquiet (.readMemory offset len)
  | writeMemory offset bytes => exact hquiet (.writeMemory offset bytes)
  | clearMemory offset len => exact hquiet (.clearMemory offset len)
  | memoryPtr offset len => exact hquiet (.memoryPtr offset len)
  | logAccess offset len size => exact hquiet (.logAccess offset len size)
  | dropReturnData => exact hquiet .dropReturnData
  | setOutputSize size h => exact hquiet (.setOutputSize size h)
  | setOutputOffset offset => exact hquiet (.setOutputOffset offset)

omit [Env] in
/-- The bookkeeping of a step makes no requests. -/
theorem answered_bookkept : Bookkept answeredContract.Along where
  refl s _ := ⟨trivial, answeredContract.refl s⟩
  trans h h' _ := ⟨trivial, (h trivial).2.trans (h' trivial).2⟩
  gas _ _ _ := ⟨trivial, .quiet [] (List.append_nil _).symm (by simp) rfl⟩
  see _ gas _ := ⟨trivial, .quiet [.gasSeen gas] rfl (by simp) rfl⟩
  slot _ _ _ := ⟨trivial, .quiet [] (List.append_nil _).symm (by simp) rfl⟩

variable {rev : Revision} {hostCtx : MockedHost} {msg : Message} {code : List Byte}

/-- The requests of a run that is not stuck have all been answered. -/
theorem Runs.answers {analysis : CodeAnalysis} {c : Config} (h : Runs rev hostCtx msg code analysis c)
    (hstuck : ∀ f, c.pc ≠ .stuck f) :
    hostCtx.Answers (requests c.astate.estate.trace) c.astate.estate.hostCtx := by
  obtain ⟨hanalyze, hrun⟩ := h
  obtain rfl := analyze_ok hanalyze
  have hcore : ∀ fn : InstrFn, fn ≠ .opDup 0 →
      fn.shape.CoreMovesOr answeredContract.Along fun _ _ => True := fun fn hdup =>
    InstrFn.coreMovesOr (fun _ _ _ _ => prim_answered)
      (fun status _ _ h => ⟨trivial, h status rfl⟩) hdup
  obtain ⟨-, ops, hrequests, hanswers⟩ :=
    run_relation answered_bookkept hcore hrun hstuck trivial
  rw [hrequests]
  exact hanswers

/-- No request is left open when the result is made. -/
theorem sat_makeResult_answered (s : ExecutionState) :
    Sat makeResult s (fun _ s' => Answered s s') fun _ _ => True := by
  let effects : Effects := ⟨0, 0, s.msg, fun _ => False, True, True, True⟩
  have hread : ∀ s₁ offset len, Answered s s₁ →
      Sat (readMemory offset len) s₁ (fun _ s' => Answered s s') fun _ _ => True := by
    intro s₁ offset len h₁
    exact (prim_answered (e := effects) (.readMemory offset len) s₁ trivial).mono
      (fun _ _ h => h₁.trans h.2.2) fun _ _ _ => trivial
  have hfresh : Answered s { s with fresh := s.fresh + 1 } :=
    .quiet [] (List.append_nil _).symm (by simp) rfl
  have hsame : Answered s s := answeredContract.refl s
  unfold makeResult evmcMakeResult
  simp only [sat_bind, sat_get, sat_ite, sat_fault, sat_pure, sat_nextFresh]
  exact ⟨fun _ => trivial, fun _ => ⟨fun _ => ⟨fun _ => hfresh, fun _ => hread _ _ _ hfresh⟩,
    fun _ => hread _ _ _ hsame⟩⟩

/-- When all requests of a run find room, the caller's object shows what the run did. -/
theorem executes_showsRun {r : Result} {s : AdvancedExecutionState} (hvalid : hostCtx.Valid)
    (h : Executes rev hostCtx msg code r s)
    (hroom : hostCtx.EachHasRoom (requests s.estate.trace)) : ShowsRun hostCtx s.estate := by
  obtain ⟨analysis, c, estate, hruns, hnull, hresult, rfl⟩ := h
  obtain ⟨ops, hrequests, hops⟩ := (sat_makeResult_answered c.astate.estate).of_ok hresult
  have hanswers := (hruns.answers fun f => by simp [hnull]).append hops
  rw [← hrequests] at hanswers
  obtain ⟨seen, hseen, hreflects, hread⟩ := MockedHost.reflects_of_answers hvalid hanswers hroom
  exact ⟨seen, hseen, hreflects, fun _ _ _ _ addr key => hread addr key⟩

end

/-! ### Two runs -/

/-- A `LOG0` of no data. -/
def logCode : List Byte := [0x60, 0, 0x60, 0, 0xa0, 0]

/-- A message that can pay for a log. -/
def logMessage : Message := { (default : Message) with gas := 1000 }

/-- The end of the run of the loop. -/
def logRun [Env] (hostCtx : MockedHost) : Config :=
  iterate (stepInstr (analyzeCode .london logCode)) 5
    (initialConfig .london hostCtx logMessage logCode)

/-- The run on a log, by evaluation. -/
theorem exists_logRun (hostCtx : MockedHost) (test : Option Nat × List HostOp → Bool)
    (hnull : (@logRun Env.zeroed hostCtx).pc = .null)
    (htest : endsWith test (do
      let _ ← @makeResult Env.zeroed
      Core.read fun s => ((s.hostCtx.seenFrom hostCtx).map (·.recordedLogs.size), requests s.trace))
      (@logRun Env.zeroed hostCtx).astate.estate = true) :
    let _ : Env := Env.zeroed
    ∃ r s, Executes .london hostCtx logMessage logCode r s ∧
      test ((s.estate.hostCtx.seenFrom hostCtx).map (·.recordedLogs.size),
        requests s.estate.trace) = true := by
  intro _
  obtain ⟨_, s', hrun, htest⟩ := exists_of_endsWith htest
  obtain ⟨r, s, hresult, hread⟩ := exists_of_bind hrun
  cases hread
  have hruns : Runs .london hostCtx logMessage logCode (analyzeCode .london logCode)
      (logRun hostCtx) := ⟨analyze_eq .london (by decide), reaches_iterate _ 5 _⟩
  exact ⟨r, { (logRun hostCtx).astate with estate := s' },
    ⟨_, logRun hostCtx, s', hruns, hnull, hresult, rfl⟩, htest⟩

/-- A host with room for four log records. -/
def roomyHost : MockedHost :=
  { mockedHostInit default with recordedLogs := ⟨1, 4, []⟩ }

/-- The record is written to the block of the caller. -/
theorem executes_showsRun_log :
    let _ : Env := Env.zeroed
    ∃ r s, Executes .london roomyHost logMessage logCode r s ∧
      ShowsRun roomyHost s.estate := by
  intro _
  obtain ⟨r, s, hexec, htest⟩ := exists_logRun roomyHost
    (fun p => decide (p.2 = [.emitLog (default : Message).recipient [] [] true]))
    (by with_unfolding_all decide) (by with_unfolding_all decide)
  have hrequests := of_decide_eq_true htest
  dsimp only at hrequests
  have hvalid : roomyHost.Valid :=
    ⟨(MockedHost.fresh_init default).valid.accounts, (MockedHost.fresh_init default).valid.storage⟩
  refine ⟨r, s, hexec, executes_showsRun hvalid hexec ?_⟩
  rw [hrequests]
  refine MockedHost.eachHasRoom_singleton ⟨?_, ?_, ?_, ?_, ?_, ?_, ?_, ?_, ?_, ?_⟩
  · intro addr h
    cases h
  · intro record _
    show 0 ≠ 4
    decide
  · intro record h
    cases h
  · intro number h
    cases h
  · intro record h
    cases h
  · intro record h
    cases h
  · intro input h
    cases h
  · intro addr key h
    cases h
  · intro addr key h
    cases h
  · intro addr key value h
    cases h

/-- On a fresh host the record goes to a new block, which the caller's object does not point to. -/
theorem executes_showsRun_fresh :
    let _ : Env := Env.zeroed
    ∃ r s, Executes .london (mockedHostInit default) logMessage logCode r s ∧
      ¬ ShowsRun (mockedHostInit default) s.estate := by
  intro _
  obtain ⟨r, s, hexec, htest⟩ := exists_logRun (mockedHostInit default)
    (fun p => decide (p = (some 0, [.emitLog (default : Message).recipient [] [] true])))
    (by with_unfolding_all decide) (by with_unfolding_all decide)
  obtain ⟨hsize, hrequests⟩ := Prod.mk.inj (of_decide_eq_true htest)
  refine ⟨r, s, hexec, ?_⟩
  rintro ⟨seen, hseen, hreflects, -⟩
  rw [hseen] at hsize
  have hlogs := congrArg List.length hreflects.logs
  rw [hrequests] at hlogs
  have hzero : seen.recordedLogs.items.length = 0 := Option.some.inj hsize
  rw [hzero] at hlogs
  cases hlogs

end TscVee
