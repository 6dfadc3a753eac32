import TscVee.Proofs.HostAnswers
import TscVee.Proofs.MemoryContents
import TscVee.Proofs.WordRules

/-!
# `TscVee.Proofs.LogRecords`: the records of `LOG0` to `LOG4`

The instructions check the memory and charge for the data. Then `LOG1` to `LOG4` push the topics to
a vector, and `emit_log` pushes them to another one; both are used without an initialisation.

* `logCore`, `logChecks`: the five instructions, and their part up to the charge.
* `LogRule`: one record should be appended where the checks pass, and none elsewhere.
* `sat_logChecks`: what the checks leave.
* `log_iff`: the rule holds just where the checks fail, or the vectors start empty, the size has 64
  bits and the sum of offset and size does not wrap.
-/

set_option autoImplicit false

namespace TscVee

open TscVee.Core Lib

section
variable [Env]

/-- `LOG` with `n` topics. -/
def logCore : Nat → StackTop → Core Unit
  | 0 => log0
  | n + 1 => logTopics (n + 1)

/-- The five instructions of the source. -/
theorem logCore_eq :
    logCore 0 = log0 ∧ logCore 1 = log1 ∧ logCore 2 = log2 ∧ logCore 3 = log3 ∧ logCore 4 = log4 :=
  ⟨rfl, rfl, rfl, rfl, rfl⟩

/-- The check of the memory. `LOG0` has another one than the others. -/
def logMemory : Nat → Uint256 → Uint256 → Core Unit
  | 0, offset, size => requireMemoryU256 offset size
  | _ + 1, offset, size => requireMemoryU64 offset size.low

/-- The part of the instruction up to the charge, with the offset and the size that it goes on
with. -/
def logChecks (n : Nat) (top : StackTop) : Core (Nat × Nat) := do
  refuseStatic
  logMemory n (← load top) (← load (top - 1))
  let o := (← load top).low
  let s := (← load (top - 1)).low
  chargeGas (← int64 (toInt64 s * 8))
  return (o, s)

/-- The words of the topics, in the order in which they are popped. -/
def topicsOf (s : ExecutionState) (top : StackTop) (n : Nat) : List Bytes32 :=
  (List.range n).map fun i : Nat => u256ToU8_32 (s.stackSpace (top - 2 - i))

/-- The record that is due. -/
def logRecordOf (s : ExecutionState) (top : StackTop) (n : Nat) : LogRecord where
  creator := s.msg.recipient
  data := s.memory.contents.slice (s.stackSpace top).toNat (s.stackSpace (top - 1)).toNat
  topics := some (topicsOf s top n)

/-- The record has been appended, and 8 charged for each byte, besides the price of the memory. -/
def LogDone (s : ExecutionState) (top : StackTop) (n : Nat) (s' : ExecutionState) : Prop :=
  s'.hostCtx.recordedLogs.items = s.hostCtx.recordedLogs.items ++ [logRecordOf s top n] ∧
    s'.gasLeft = s.gasLeft - (memoryPrice (s'.memory.mSize / 32) -
      memoryPrice (s.memory.mSize / 32)) - 8 * ((s.stackSpace (top - 1)).toNat : Int)

/-- What `LOG` should do. Where its checks pass, it succeeds with one record more. Elsewhere it
fails and appends nothing. -/
def LogRule (n : Nat) (top : StackTop) (s : ExecutionState) : Prop :=
  Sat (logCore n top) s (fun _ s' => LogDone s top n s') fun _ s' =>
    s'.hostCtx.recordedLogs.items = s.hostCtx.recordedLogs.items ∧
      endsOk (logChecks n top) s = false

/-- The uninitialised vectors that the instruction uses, from the index `k` on, have the contents of
an empty one: with topics that of the instruction, and that of the record. -/
def VectorsEmpty (n k : Nat) : Prop :=
  Env.wildVectorEmpty k = true ∧ (n ≠ 0 → Env.wildVectorEmpty (k + 1) = true)

variable {s : ExecutionState} {top : StackTop} {n : Nat}

/-- The checks have passed. -/
structure LogChecked (s s₁ : ExecutionState) (top : StackTop) : Prop where
  stack : s₁.stackSpace = s.stackSpace
  msg : s₁.msg = s.msg
  host : s₁.hostCtx = s.hostCtx
  gas : s₁.gasLeft = s.gasLeft - (memoryPrice (s₁.memory.mSize / 32) -
    memoryPrice (s.memory.mSize / 32)) - toInt64 (s.stackSpace (top - 1)).low * 8
  contents : s₁.memory.contents = s.memory.contents
  sound : s₁.memory.Sound
  inside : (s.stackSpace (top - 1)).low = 0 ∨ (s.stackSpace top).toNat < 2 ^ 32 ∧
    ((s.stackSpace top).low + (s.stackSpace (top - 1)).low) % 2 ^ 64 ≤ s₁.memory.mSize

/-- The memory check of a log, in both of its forms. -/
theorem sat_logMemory (hs : s.memory.Sound) (offset size : Uint256) :
    Sat (logMemory n offset size) s (fun _ s' => Reached s s' offset size.low)
      fun _ s' => MemRefused s s' := by
  cases n with
  | zero => exact sat_requireMemoryU256_reached hs offset size
  | succ n => exact sat_requireMemoryU64_reached hs offset size.low

/-- The checks touch the gas counter and the memory. -/
theorem sat_logChecks (h : StackHolds top 2) (hs : s.memory.Sound) :
    Sat (logChecks n top) s
      (fun os s₁ => os = ((s.stackSpace top).low, (s.stackSpace (top - 1)).low) ∧
        LogChecked s s₁ top)
      fun _ s' => s'.hostCtx = s.hostCtx := by
  have htop := h.top (by decide)
  have hslot := h.slot (i := 1) (by decide) (by decide)
  unfold logChecks
  simp only [sat_bind, sat_refuseStatic, sat_load, if_pos htop, if_pos hslot]
  split
  -- In static mode the run has ended.
  case isTrue => trivial
  refine (sat_logMemory hs _ _).mono (fun _ s₁ hreached => ?_) fun _ s' hrefused => ?_
  · obtain ⟨hstack, hmsg, hhost⟩ : s₁.stackSpace = s.stackSpace ∧ s₁.msg = s.msg ∧
        s₁.hostCtx = s.hostCtx := by
      rw [hreached.same]
      exact ⟨rfl, rfl, rfl⟩
    rw [sat_int64, hstack]
    split
    -- The cost of the data may overflow, and the gas may not suffice.
    case isFalse => exact hhost
    rw [sat_chargeGas]
    split
    case isFalse => exact hhost
    split
    case isTrue => exact hhost
    refine ⟨rfl, hstack, hmsg, hhost, ?_, hreached.contents, hreached.sound, hreached.inside⟩
    rw [← hreached.gas]
  · rw [hrefused.same]

/-- The data is read, and the host is asked to record it. -/
def logEmit (os : Nat × Nat) (topics : List Bytes32) : Core Unit := do
  let data ← readMemory os.1 os.2
  let vectorEmpty := Env.wildVectorEmpty (← nextFresh)
  ask (.emitLog (← read (·.msg)).recipient data topics vectorEmpty)

/-- The part behind the charge. -/
def logTail (n : Nat) (top : StackTop) (os : Nat × Nat) : Core Unit := do
  let topics ← popTopics n (top - 2)
  if n ≠ 0 then
    if !Env.wildVectorEmpty (← nextFresh) then fault .wildPointer
  logEmit os topics

omit [Env] in
/-- The topics are those words on the stack. -/
theorem sat_popTopics (s₁ : ExecutionState) (n : Nat) (p : StackTop)
    (h : ∀ i : Nat, i < n → inStackSpace (p - i)) {Q : List Bytes32 → ExecutionState → Prop}
    {E : Halt → ExecutionState → Prop} :
    Sat (popTopics n p) s₁ Q E ↔
      Q ((List.range n).map fun i : Nat => u256ToU8_32 (s₁.stackSpace (p - i))) s₁ := by
  -- On the number of topics, from the top of the stack down.
  induction n generalizing p Q with
  | zero => rfl
  | succ n ih =>
      have hp : inStackSpace p := by simpa using h 0 (Nat.succ_pos n)
      unfold popTopics StackTop.pop
      simp only [sat_bind, sat_load, if_pos hp]
      rw [ih (p - 1) fun i hi => by
        have := h (i + 1) (by omega)
        rwa [show p - 1 - (i : Int) = p - ((i + 1 : Nat) : Int) by push_cast; ring]]
      rw [sat_pure, List.range_succ_eq_map, List.map_cons, List.map_map]
      have hnext : (fun i : Nat => u256ToU8_32 (s₁.stackSpace (p - 1 - i))) =
          (fun i : Nat => u256ToU8_32 (s₁.stackSpace (p - i))) ∘ Nat.succ := by
        funext i
        show _ = u256ToU8_32 (s₁.stackSpace (p - ((i + 1 : Nat) : Int)))
        rw [show p - 1 - (i : Int) = p - ((i + 1 : Nat) : Int) by push_cast; ring]
      rw [hnext]
      simp

/-- The instruction is its checks and the rest. -/
theorem sat_logCore (h : StackHolds top 2) {Q : Unit → ExecutionState → Prop}
    {E : Halt → ExecutionState → Prop} :
    Sat (logCore n top) s Q E ↔
      Sat (logChecks n top) s (fun os s₁ => Sat (logTail n top os) s₁ Q E) E := by
  have htop := h.top (by decide)
  have hslot := h.slot (i := 1) (by decide) (by decide)
  have htwo : top - 1 - 1 = top - 2 := by ring
  cases n with
  | zero =>
      unfold logCore log0 logChecks logTail logEmit StackTop.pop
      simp only [sat_bind, sat_load, if_pos htop, if_pos hslot, sat_pure, popTopics, logMemory,
        ne_eq, not_true_eq_false, if_false]
  | succ n =>
      -- Two spellings of the test for static mode.
      have hstatic : s.msg.flags &&& 1 ≠ 0 ↔ executionStateInStaticMode s = true :=
        (executionStateInStaticMode_iff s).symm
      unfold logCore logTopics logChecks logTail logEmit StackTop.pop
      simp only [sat_bind, sat_load, if_pos htop, if_pos hslot, sat_read, sat_refuseStatic, sat_ite,
        sat_ret, sat_pure, logMemory, htwo, hstatic, ne_eq, Nat.succ_ne_zero, not_false_eq_true,
        if_true]
      by_cases hmode : executionStateInStaticMode s = true <;> simp [hmode]

/-- Data in the memory is recorded, with the topics where the vector of the record starts empty. -/
theorem sat_logEmit (hs : s.memory.Sound) {o z : Nat} (hin : s.memory.Holds o z)
    (topics : List Bytes32) :
    Sat (logEmit (o, z) topics) s
      (fun _ s' => s'.gasLeft = s.gasLeft ∧ s'.memory = s.memory ∧
        (Env.wildVectorEmpty s.fresh = true ∨ topics = []) ∧
        s'.hostCtx.recordedLogs.items = s.hostCtx.recordedLogs.items ++
          [⟨s.msg.recipient, s.memory.contents.slice o z,
            if Env.wildVectorEmpty s.fresh then some topics else none⟩])
      fun _ _ => Env.wildVectorEmpty s.fresh = false ∧ topics ≠ [] := by
  unfold logEmit
  rw [sat_bind, sat_readContents hs hin]
  obtain ⟨hmemory, hhost, hmsg, hfresh, hgas⟩ : (s.accessed o z).memory = s.memory ∧
      (s.accessed o z).hostCtx = s.hostCtx ∧ (s.accessed o z).msg = s.msg ∧
      (s.accessed o z).fresh = s.fresh ∧ (s.accessed o z).gasLeft = s.gasLeft := by
    unfold ExecutionState.accessed
    split <;> exact ⟨rfl, rfl, rfl, rfl, rfl⟩
  rw [sat_bind, sat_nextFresh, sat_bind, sat_read, sat_ask, hfresh]
  show Sat (MockedHost.emitLog _ _ _ _) (s.accessed o z).hostCtx _ _
  rw [hhost]
  unfold MockedHost.emitLog
  simp only [sat_bind, sat_ite, sat_pure, sat_modify, sat_throw, CVec.push_items]
  -- The vector is empty by chance, no topic is pushed to it, or one is pushed through garbage.
  refine ⟨fun hempty => ?_, fun hwild => ⟨fun hnone => ?_, fun hsome => ?_⟩⟩
  · exact ⟨hgas, hmemory, .inl hempty, by rw [if_pos hempty]; simp only [hmsg]⟩
  · rw [List.isEmpty_iff] at hnone
    exact ⟨hgas, hmemory, .inr hnone, by rw [if_neg hwild]; simp only [hmsg]⟩
  · exact ⟨Bool.eq_false_iff.2 hwild, fun h => hsome (List.isEmpty_iff.2 h)⟩

/-- Data that is not in the memory cannot be recorded. -/
theorem logEmit_outside {o z : Nat} (hz : z ≠ 0) (hout : s.memory.mSize < o + z)
    (topics : List Bytes32) :
    Sat (logEmit (o, z) topics) s (fun _ _ => False) fun _ _ => True := by
  unfold logEmit
  rw [sat_bind]
  exact (readMemory_outside hz hout).mono (fun _ _ h => h.elim) fun _ _ _ => trivial

/-- What must hold behind the checks: the vectors start empty, the size has 64 bits, and the sum of
offset and size does not wrap. -/
def LogFits (n : Nat) (offset size : Uint256) (fresh : Nat) : Prop :=
  VectorsEmpty n fresh ∧ size.toNat < 2 ^ 64 ∧ offset.low + size.low < 2 ^ 64

section
variable {s₁ : ExecutionState}

omit [Env] in
/-- A sum that does not wrap ends in the memory. -/
theorem LogChecked.holds (h : LogChecked s s₁ top)
    (hsum : (s.stackSpace top).low + (s.stackSpace (top - 1)).low < 2 ^ 64) :
    s₁.memory.Holds (s.stackSpace top).low (s.stackSpace (top - 1)).low := by
  rcases h.inside with hzero | ⟨-, hinside⟩
  · exact .inl hzero
  · rw [Nat.mod_eq_of_lt hsum] at hinside
    exact .inr hinside

omit [Env] in
/-- A size of 64 bits has been charged for. -/
theorem LogChecked.gas_eq (h : LogChecked s s₁ top) (hsize : (s.stackSpace (top - 1)).toNat < 2 ^ 64)
    (hholds : s₁.memory.Holds (s.stackSpace top).low (s.stackSpace (top - 1)).low) :
    s₁.gasLeft = s.gasLeft - (memoryPrice (s₁.memory.mSize / 32) -
      memoryPrice (s.memory.mSize / 32)) - 8 * ((s.stackSpace (top - 1)).toNat : Int) := by
  have hlow := low_eq_toNat hsize
  have hsmall : (s.stackSpace (top - 1)).toNat < 2 ^ 37 := by
    have hbound := h.sound.bound
    rcases hholds with hzero | hin <;> omega
  have hgas := h.gas
  have hint : toInt64 (s.stackSpace (top - 1)).low = (s.stackSpace (top - 1)).toNat := by
    unfold toInt64
    rw [hlow, Int.bmod_eq_of_le] <;> omega
  rw [hint] at hgas
  omega

omit [Env] in
/-- The data, where the size has 64 bits. -/
theorem LogChecked.data_eq (h : LogChecked s s₁ top)
    (hsize : (s.stackSpace (top - 1)).toNat < 2 ^ 64) :
    s₁.memory.contents.slice (s.stackSpace top).low (s.stackSpace (top - 1)).low =
      s.memory.contents.slice (s.stackSpace top).toNat (s.stackSpace (top - 1)).toNat := by
  rw [h.contents, low_eq_toNat hsize]
  rcases h.inside with hzero | ⟨hoffset, -⟩
  · rw [low_eq_toNat hsize] at hzero
    rw [hzero]
    simp only [Contents.slice, List.range_zero, List.map_nil]
  · have hwide : (s.stackSpace top).toNat < 2 ^ 64 := by omega
    rw [low_eq_toNat hwide]

/-- What `logEmit` does behind the checks, with the vector of the record at the index `k`. -/
theorem LogChecked.emit (h : LogChecked s s₁ top) (k : Nat) :
    let s₂ := { s₁ with fresh := k }
    let size := (s.stackSpace (top - 1))
    let emit := logEmit ((s.stackSpace top).low, size.low) (topicsOf s top n)
    (Env.wildVectorEmpty k = true → size.toNat < 2 ^ 64 →
      (s.stackSpace top).low + size.low < 2 ^ 64 →
        Sat emit s₂ (fun _ s' => LogDone s top n s') fun _ _ => False) ∧
    (¬ (Env.wildVectorEmpty k = true ∧ size.toNat < 2 ^ 64 ∧
        (s.stackSpace top).low + size.low < 2 ^ 64) →
      Sat emit s₂ (fun _ s' => ¬ LogDone s top n s') fun _ _ => True) := by
  intro s₂ size emit
  have hsound : s₂.memory.Sound := h.sound
  constructor
  · intro hempty hsize hsum
    have hholds := h.holds hsum
    refine (sat_logEmit hsound hholds _).mono (fun _ s' ⟨hgas, hmemory, _, hrecords⟩ => ?_)
      fun _ _ ⟨hwild, _⟩ => absurd hempty (Bool.eq_false_iff.1 hwild)
    refine ⟨?_, ?_⟩
    · rw [if_pos hempty] at hrecords
      rw [hrecords, logRecordOf, ← h.data_eq hsize, ← h.msg, ← h.host]
    · rw [hgas, hmemory]
      exact h.gas_eq hsize hholds
  · intro hnot
    by_cases hsum : (s.stackSpace top).low + size.low < 2 ^ 64
    case neg =>
      -- The check has passed because the sum has wrapped, and the range is not in the memory.
      have hbound := h.sound.bound
      have hlow := low_lt (s.stackSpace top)
      have hout : s₂.memory.mSize < (s.stackSpace top).low + size.low := by
        show s₁.memory.mSize < _
        omega
      exact (logEmit_outside (by omega) hout _).mono (fun _ _ h => h.elim) fun _ _ _ => trivial
    refine (sat_logEmit hsound (h.holds hsum) _).mono (fun _ s' ⟨_, _, _, hrecords⟩ hdone => ?_)
      fun _ _ _ => trivial
    have hrecord := hrecords.symm.trans hdone.1
    rw [show s₂.hostCtx = s.hostCtx from h.host] at hrecord
    have heq := List.head_eq_of_cons_eq (List.append_cancel_left hrecord)
    by_cases hempty : Env.wildVectorEmpty k = true
    · -- The data has as many bytes as the low limb of the size says.
      have hlength := congrArg (fun r => r.data.length) heq
      simp only [logRecordOf, Contents.slice_length] at hlength
      exact hnot ⟨hempty, by rw [← hlength]; exact low_lt _, hsum⟩
    · have htopics := congrArg LogRecord.topics heq
      simp only [logRecordOf] at htopics
      rw [if_neg hempty] at htopics
      cases htopics

/-- What the part behind the charge does. Where a vector does not start empty, or an operand is out
of range, the instruction faults or leaves something else. -/
theorem LogChecked.tail (h : LogChecked s s₁ top) (htop : StackHolds top (n + 2)) :
    let tail := logTail n top ((s.stackSpace top).low, (s.stackSpace (top - 1)).low)
    let fits := LogFits n (s.stackSpace top) (s.stackSpace (top - 1)) s₁.fresh
    (fits → Sat tail s₁ (fun _ s' => LogDone s top n s') fun _ _ => False) ∧
      (¬ fits → Sat tail s₁ (fun _ s' => ¬ LogDone s top n s') fun _ _ => True) := by
  intro tail fits
  -- The topics are below offset and size, in the stack space.
  have htopics : ∀ i : Nat, i < n → inStackSpace (top - 2 - i) := fun i hi => by
    have := htop.slot (i := i + 2) (by omega) (by omega)
    rwa [show top - 2 - (i : Int) = top - ((i + 2 : Nat) : Int) by push_cast; ring]
  have hpopped : ((List.range n).map fun i : Nat => u256ToU8_32 (s₁.stackSpace (top - 2 - i))) =
      topicsOf s top n := by
    rw [h.stack]
    rfl
  -- With topics, their vector is used before the one of the record.
  have htail : ∀ Q E, Sat tail s₁ Q E ↔
      if n ≠ 0 then if Env.wildVectorEmpty s₁.fresh = true then
          Sat (logEmit ((s.stackSpace top).low, (s.stackSpace (top - 1)).low) (topicsOf s top n))
            { s₁ with fresh := s₁.fresh + 1 } Q E
        else E (.fault .wildPointer) { s₁ with fresh := s₁.fresh + 1 }
      else Sat (logEmit ((s.stackSpace top).low, (s.stackSpace (top - 1)).low) (topicsOf s top n))
        s₁ Q E := by
    intro Q E
    show Sat (logTail n top _) s₁ Q E ↔ _
    unfold logTail
    rw [sat_bind, sat_popTopics s₁ n (top - 2) htopics, hpopped]
    by_cases hn : n = 0
    · simp only [hn, ne_eq, not_true_eq_false, if_false]
    · by_cases hempty : Env.wildVectorEmpty s₁.fresh = true
      · simp [hn, hempty, sat_bind, sat_nextFresh]
      · simp [hn, hempty, sat_bind, sat_nextFresh, sat_fault]
  simp only [htail]
  by_cases hn : n = 0
  · -- `LOG0` has the vector of the record only.
    simp only [hn, ne_eq, not_true_eq_false, if_false]
    have hfits : fits ↔ Env.wildVectorEmpty s₁.fresh = true ∧
        (s.stackSpace (top - 1)).toNat < 2 ^ 64 ∧
        (s.stackSpace top).low + (s.stackSpace (top - 1)).low < 2 ^ 64 := by
      simp only [fits, LogFits, VectorsEmpty, hn, ne_eq, not_true_eq_false, false_implies, and_true]
    obtain ⟨hgood, hbad⟩ := h.emit (n := 0) s₁.fresh
    rw [hfits]
    exact ⟨fun ⟨hempty, hsize, hsum⟩ => hgood hempty hsize hsum, hbad⟩
  -- The vector of the topics has to be empty, and the one of the record as well.
  · obtain ⟨hgood, hbad⟩ := h.emit (n := n) (s₁.fresh + 1)
    rw [if_pos hn, if_pos hn]
    by_cases hempty : Env.wildVectorEmpty s₁.fresh = true
    · rw [if_pos hempty, if_pos hempty]
      have hfits : fits ↔ Env.wildVectorEmpty (s₁.fresh + 1) = true ∧
          (s.stackSpace (top - 1)).toNat < 2 ^ 64 ∧
          (s.stackSpace top).low + (s.stackSpace (top - 1)).low < 2 ^ 64 := by
        simp only [fits, LogFits, VectorsEmpty, hempty, hn, true_and, ne_eq, not_false_eq_true,
          forall_const]
      rw [hfits]
      exact ⟨fun ⟨hempty, hsize, hsum⟩ => hgood hempty hsize hsum, hbad⟩
    · rw [if_neg hempty, if_neg hempty]
      exact ⟨fun hfits => absurd hfits.1.1 hempty, fun _ => trivial⟩

end

/-- `LOG` follows its rule just where its checks fail, or the operands and the vectors fit. -/
theorem log_iff (htop : StackHolds top (n + 2)) (hs : s.memory.Sound) :
    LogRule n top s ↔ ∀ os s₁, logChecks n top s = .ok os s₁ →
      LogFits n (s.stackSpace top) (s.stackSpace (top - 1)) s₁.fresh := by
  have hchecks := sat_logChecks (n := n) (htop.mono (by omega)) hs
  unfold LogRule
  rw [sat_logCore (htop.mono (by omega))]
  unfold Sat at hchecks ⊢
  cases hrun : logChecks n top s with
  -- The checks fail: nothing is recorded, and the condition is about no state.
  | error e s₁ =>
      rw [hrun] at hchecks
      have hfails : endsOk (logChecks n top) s = false := by
        unfold endsOk
        rw [hrun]
      simp only [reduceCtorEq, false_implies, implies_true, iff_true]
      exact ⟨congrArg (fun h => h.recordedLogs.items) hchecks, hfails⟩
  -- They pass in one state, so the condition is about that one.
  | ok os s₁ =>
      rw [hrun] at hchecks
      obtain ⟨rfl, hchecked⟩ := hchecks
      have hpasses : endsOk (logChecks n top) s = true := by
        unfold endsOk
        rw [hrun]
      obtain ⟨hgood, hbad⟩ := hchecked.tail htop
      have hall : (∀ os' s', EStateM.Result.ok (ε := Halt) ((s.stackSpace top).low,
          (s.stackSpace (top - 1)).low) s₁ = .ok os' s' →
          LogFits n (s.stackSpace top) (s.stackSpace (top - 1)) s'.fresh) ↔
          LogFits n (s.stackSpace top) (s.stackSpace (top - 1)) s₁.fresh := by
        constructor
        · intro h
          exact h _ _ rfl
        · rintro h _ _ ⟨⟩
          exact h
      rw [hall, hpasses]
      by_cases hfits : LogFits n (s.stackSpace top) (s.stackSpace (top - 1)) s₁.fresh
      · refine iff_of_true ?_ hfits
        exact (hgood hfits).mono (fun _ _ h => h) fun _ _ h => h.elim
      · refine iff_of_false (fun hrule => ?_) hfits
        have hboth := Sat.and hrule (hbad hfits)
        obtain ⟨_, _, -, hdone, hnot⟩ := (hboth.mono (fun _ _ h => h)
          fun _ _ h => absurd h.1.2 (by decide)).exists_ok
        exact hnot hdone

end

/-- Two topics and 40 bytes of data from the offset 8 on, with vectors that start empty. -/
theorem log_iff_data :
    let _ : Env := Env.zeroed
    LogRule 2 3 (wordsState [.ofU64 7, .one, .ofU64 40, .ofU64 8]) := by
  intro _
  refine (log_iff (by decide) ⟨rfl, by decide, fun h => absurd rfl h⟩).2 fun os s₁ _ =>
    ⟨⟨rfl, fun _ => rfl⟩, ?_, ?_⟩
  all_goals decide

/-- The size `2 ^ 64` is charged as 0, and no data is recorded. -/
theorem log_iff_wide :
    let _ : Env := Env.zeroed
    ¬ LogRule 0 1 (wordsState [⟨⟨0, 0⟩, ⟨1, 0⟩⟩, .zero]) := by
  intro _ hrule
  have hends : endsWith (fun s' => s'.gasLeft == 100000 && s'.memory.mSize == 0)
      (do logCore 0 1; get) (wordsState [⟨⟨0, 0⟩, ⟨1, 0⟩⟩, .zero]) = true := by
    with_unfolding_all decide
  obtain ⟨s', s'', hrun, htest⟩ := exists_of_endsWith hends
  simp only [Bool.and_eq_true, beq_iff_eq] at htest
  -- The state at the end is the one that `get` has read.
  obtain ⟨⟨⟩, _, hlog, hget⟩ := exists_of_bind hrun
  obtain ⟨rfl, rfl⟩ := hget
  have hdone : LogDone (wordsState [⟨⟨0, 0⟩, ⟨1, 0⟩⟩, .zero]) 1 0 _ := hrule.of_ok hlog
  have hgas := hdone.2
  rw [htest.1, htest.2] at hgas
  exact absurd hgas (by decide)

end TscVee
