import TscVee.Proofs.AccessStatus
import TscVee.Proofs.HostAnswers

/-!
# `TscVee.Proofs.StorageStatus`: the statuses and charges of `SSTORE`

`SSTORE` marks the record of its slot warm in `access_storage`, and `set_storage` compares the new
value with the old one and sets the dirty flag at the first change. The comparison is a `strcmp`, so
two values that agree up to a zero byte count as equal.

* `SstoreRun`: the sequences of `SSTORE`s of one execution.
* `valueAfter`, `Changed`: the value of a slot behind such a sequence, and whether it has changed.
* `run_written`: the record of a slot says what the sequence has done to it.
* `run_sstore`: the status and the charge of an `SSTORE` behind any sequence.
-/

set_option autoImplicit false

namespace TscVee

open TscVee.Core Lib

/-! ### The host functions of `SSTORE` -/

namespace MockedHost

variable {host : MockedHost} {addr : Address} {key value : Bytes32}

/-- The record behind a write of `value`. -/
def written (sv : StorageValue) (value : Bytes32) : StorageValue :=
  if MapKey.cmp sv.value value = 0 then { sv with accessStatus := .warm } else ⟨value, true, .warm⟩

/-- The status of a write of `value`. -/
def statusFor (sv : StorageValue) (value : Bytes32) : StorageStatus :=
  if MapKey.cmp sv.value value = 0 then .unchanged else storageStatus sv value

/-- The record under the pair, a new one if there is none. -/
def recordOf (host : MockedHost) (addr : Address) (key : Bytes32) : StorageValue :=
  (host.record addr key).getD storageValueInit

/-- The access to the record and the write to it. -/
theorem exists_access_set (h : host.Valid) (htells : host.Tells addr key)
    (hroom : host.Extendable addr key) (value : Bytes32) : ∃ host₁ host₂,
      accessStorage addr key host = .ok (host.recordOf addr key).accessStatus host₁ ∧
      setStorage addr key value host₁ = .ok (statusFor (host.recordOf addr key) value) host₂ ∧
      host₂.Valid ∧ ∀ addr' key', host₂.recordOf addr' key' = if addr = addr' ∧ key = key' then
          written (host.recordOf addr key) value else host.recordOf addr' key' := by
  -- The access makes the entry that the write needs.
  obtain ⟨accounts, haccess, hvalid, htells₁, hrecord⟩ := h.accessStorage htells hroom
  generalize { host with accounts := accounts } = host₁ at *
  have hsv := hrecord addr key
  rw [if_pos ⟨rfl, rfl⟩] at hsv
  obtain ⟨slot, acc, old, hfinds, hacc, hkey, hold⟩ := hvalid.finds htells₁ hsv
  have hset : Sat (setStorage addr key value) host₁
      (fun status host₂ => status = statusFor (host.recordOf addr key) value ∧ host₂.Valid ∧
        ∀ addr' key', host₂.recordOf addr' key' = if addr = addr' ∧ key = key' then
          written (host.recordOf addr key) value else host.recordOf addr' key') fun _ _ => False := by
    have hvalue : old.second.value = (host.recordOf addr key).value := by
      rw [hold]
      rfl
    have hother : ∀ {addr' : Address} {key' : Bytes32}, ¬ (addr = addr' ∧ key = key') →
        host₁.recordOf addr' key' = host.recordOf addr' key' := fun hpair => by
      unfold recordOf
      rw [hrecord, if_neg hpair]
    -- A value that compares as equal leaves the entry, another one is written with the dirty flag.
    refine hfinds.sat_setStorage.2 ⟨fun hcmp => ?_, fun hcmp => ?_⟩
    all_goals rw [hvalue] at hcmp
    · refine ⟨(if_pos hcmp).symm, ⟨hvalid.accounts, hvalid.storage⟩, fun addr' key' => ?_⟩
      show host₁.recordOf addr' key' = _
      by_cases hpair : addr = addr' ∧ key = key'
      · rw [if_pos hpair, ← hpair.1, ← hpair.2, recordOf, hsv, written, if_pos hcmp]
        rfl
      · rw [if_neg hpair, hother hpair]
    · obtain ⟨hvalid₂, hrecord₂⟩ :=
        hfinds.record_writeEntry hvalid { old.second with value := value, dirty := true }
      refine ⟨?_, hvalid₂, fun addr' key' => ?_⟩
      · rw [statusFor, if_neg hcmp, hold]
        rfl
      · by_cases hpair : addr = addr' ∧ key = key'
        · rw [if_pos hpair, recordOf, hrecord₂, hacc, hkey, if_pos hpair, written, if_neg hcmp, hold]
          rfl
        · rw [if_neg hpair, ← hother hpair, recordOf, hrecord₂, hacc, hkey, if_neg hpair]
          rfl
  obtain ⟨status, host₂, hok, rfl, hvalid₂, hrecord₂⟩ := hset.exists_ok
  exact ⟨host₁, host₂, haccess, hok, hvalid₂, hrecord₂⟩

end MockedHost

/-! ### One `SSTORE` -/

/-- The key that `SSTORE` takes from the stack. -/
def sstoreKey (top : StackTop) (s : ExecutionState) : Bytes32 := storageWord (s.stackSpace top)

/-- The value that `SSTORE` takes from the stack. -/
def sstoreValue (top : StackTop) (s : ExecutionState) : Bytes32 :=
  storageWord (s.stackSpace (top - 1))

/-- What an `SSTORE` of the execution for `addr` finds, with the host `host`. -/
structure SstoreEntry (addr : Address) (host : MockedHost) (top : StackTop) (s : ExecutionState) :
    Prop where
  host : s.hostCtx = host
  recipient : s.msg.recipient = addr
  rev : Revision.berlin ≤ s.rev
  gas : isInt64 s.gasLeft
  first : inStackSpace top
  second : inStackSpace (top - 1)

/-- The charge for the status, on top of the one for the first access. -/
def storageCharge : StorageStatus → Int
  | .unchanged | .modifiedAgain => 100
  | .modified | .deleted => 2900
  | .added => 20000

/-- From Berlin on, the charge is that of the access and that of the status. -/
theorem sstoreCost_eq {rev : Revision} (hrev : Revision.berlin ≤ rev) (status : StorageStatus)
    (cost : Int) : sstoreCost rev status cost = cost + storageCharge status := by
  cases status with
  | unchanged | modifiedAgain | modified | deleted => exact if_pos hrev
  | added => rfl

/-- `SSTORE` leaves the host, charges the cost, and ends for lack of gas if there is not enough. -/
def Charges (cost : Int) (host : MockedHost) (top : StackTop) (s : ExecutionState) : Prop :=
  ∃ s', s'.hostCtx = host ∧ s'.gasLeft = s.gasLeft - cost ∧
    sstore top s = if s'.gasLeft < 0 then .error (.ret .outOfGas) s' else .ok () s'

section
variable {addr : Address} {host host₁ host₂ : MockedHost} {top : StackTop} {s : ExecutionState}

/-- In static mode nothing happens. -/
theorem sstore_static (hstatic : executionStateInStaticMode s = true) :
    sstore top s = .error (.ret .staticModeViolation) s := by
  have hsat : Sat (sstore top) s (fun _ _ => False)
      fun e t => e = .ret .staticModeViolation ∧ t = s := by
    unfold sstore
    rw [sat_bind, sat_refuseStatic, if_pos hstatic]
    exact ⟨rfl, rfl⟩
  obtain ⟨e, t, hrun, rfl, rfl⟩ := hsat.exists_error
  exact hrun

/-- With at most the stipend of a call, nothing happens. -/
theorem sstore_stipend (hrev : Revision.istanbul ≤ s.rev)
    (hstatic : executionStateInStaticMode s = false) (hgas : s.gasLeft ≤ 2300) :
    sstore top s = .error (.ret .outOfGas) s := by
  have hsat : Sat (sstore top) s (fun _ _ => False) fun e t => e = .ret .outOfGas ∧ t = s := by
    unfold sstore
    dsimp only [StackTop.pop]
    simp only [sat_bind, sat_refuseStatic, sat_read, sat_ite, sat_ret, hstatic, Bool.false_eq_true,
      if_false]
    exact ⟨fun _ => ⟨trivial, trivial⟩, fun hnot => absurd ⟨hrev, hgas⟩ hnot⟩
  obtain ⟨e, t, hrun, rfl, rfl⟩ := hsat.exists_error
  exact hrun

/-- The charge of a status is between 0 and 20000. -/
theorem storageCharge_bounds (status : StorageStatus) :
    0 ≤ storageCharge status ∧ storageCharge status ≤ 20000 := by
  cases status <;> decide

/-- Otherwise the two host functions are asked, and the cost is charged. -/
theorem sstore_charges (h : SstoreEntry addr host top s)
    (hstatic : executionStateInStaticMode s = false) (hgas : 2300 < s.gasLeft)
    {access : AccessStatus} {status : StorageStatus}
    (haccess : MockedHost.accessStorage addr (sstoreKey top s) host = .ok access host₁)
    (hset : MockedHost.setStorage addr (sstoreKey top s) (sstoreValue top s) host₁ =
      .ok status host₂) :
    Charges ((if access = .cold then 2100 else 0) + storageCharge status) host₂ top s := by
  obtain ⟨rfl, rfl, hrev, hint, hfirst, hsecond⟩ := h
  -- The charge is small against the range of the counter.
  have hcost :
      isInt64 (s.gasLeft - ((if access = .cold then 2100 else 0) + storageCharge status)) := by
    have hbounds := storageCharge_bounds status
    unfold isInt64 at hint ⊢
    split <;> omega
  generalize hsum : (if access = .cold then 2100 else 0) + storageCharge status = cost at hcost ⊢
  -- The state with both requests and the charge, on either end.
  let left : ExecutionState :=
    { (s.asked (.accessStorage s.msg.recipient (sstoreKey top s)) host₁).asked
        (.setStorage s.msg.recipient (sstoreKey top s) (sstoreValue top s)) host₂ with
      gasLeft := s.gasLeft - cost }
  have hsat : Sat (sstore top) s (fun _ t => t = left ∧ ¬ left.gasLeft < 0)
      fun e t => e = .ret .outOfGas ∧ t = left ∧ left.gasLeft < 0 := by
    unfold sstore
    dsimp only [StackTop.pop]
    simp only [sat_bind, sat_refuseStatic, sat_read, sat_ite, sat_ret, sat_load, if_pos hfirst,
      if_pos hsecond, hstatic, Bool.false_eq_true, if_false]
    -- The gas is above 2300, and the revision is Berlin or later.
    refine ⟨fun hlow => absurd hlow.2 (not_le.2 hgas), fun _ => ⟨fun _ => ?_, fun hnot =>
      absurd hrev hnot⟩⟩
    refine (sat_ask_ok (.accessStorage s.msg.recipient (sstoreKey top s)) haccess).2 ?_
    have hset' : HostOp.serve (.setStorage s.msg.recipient (sstoreKey top s) (sstoreValue top s))
        (s.asked (.accessStorage s.msg.recipient (sstoreKey top s)) host₁).hostCtx =
          .ok status host₂ := hset
    refine (sat_ask_ok _ hset').2 ?_
    have hsum' : (if access = .cold then coldSloadCost else 0) + storageCharge status = cost := hsum
    rw [sat_chargeGas, sstoreCost_eq hrev, hsum']
    refine (if_pos hcost).mpr ?_
    split
    case isTrue hneg => exact ⟨rfl, rfl, hneg⟩
    case isFalse hneg => exact ⟨rfl, hneg⟩
  refine ⟨left, rfl, rfl, ?_⟩
  unfold Sat at hsat
  split at hsat
  case h_1 hrun =>
    obtain ⟨rfl, hneg⟩ := hsat
    rw [if_neg hneg, hrun]
  case h_2 hrun =>
    obtain ⟨rfl, rfl, hneg⟩ := hsat
    rw [if_pos hneg, hrun]

end

/-! ### Sequences of `SSTORE`s -/

/-- The value under the key behind the writes, which are pairs of key and value, from
`initial` on. -/
def valueAfter (initial : Bytes32 → Bytes32) (writes : List (Bytes32 × Bytes32)) (key : Bytes32) :
    Bytes32 :=
  writes.foldl (fun value write => if write.1 = key then write.2 else value) (initial key)

/-- One of the writes has changed the value under the key. -/
def Changed (initial : Bytes32 → Bytes32) (writes : List (Bytes32 × Bytes32))
    (key : Bytes32) : Prop :=
  ∃ before value after, writes = before ++ (key, value) :: after ∧
    value ≠ valueAfter initial before key

/-- One more write counts first. -/
theorem valueAfter_concat (initial : Bytes32 → Bytes32) (writes : List (Bytes32 × Bytes32))
    (write : Bytes32 × Bytes32) (key : Bytes32) : valueAfter initial (writes ++ [write]) key =
      if write.1 = key then write.2 else valueAfter initial writes key := by
  unfold valueAfter
  rw [List.foldl_append]
  rfl

/-- The last write may be the one that has changed the value. -/
theorem changed_concat (initial : Bytes32 → Bytes32) (writes : List (Bytes32 × Bytes32))
    (write : Bytes32 × Bytes32) (key : Bytes32) : Changed initial (writes ++ [write]) key ↔
      Changed initial writes key ∨ (write.1 = key ∧ write.2 ≠ valueAfter initial writes key) := by
  constructor
  · rintro ⟨before, value, after, heq, hne⟩
    rcases List.eq_nil_or_concat after with rfl | ⟨rest, last, rfl⟩
    · obtain ⟨rfl, hlast⟩ := List.append_inj' heq rfl
      obtain rfl := List.head_eq_of_cons_eq hlast
      exact Or.inr ⟨rfl, hne⟩
    · refine Or.inl ⟨before, value, rest, ?_, hne⟩
      rw [List.concat_eq_append, ← List.cons_append, ← List.append_assoc] at heq
      exact (List.append_inj' heq rfl).1
  · rintro (⟨before, value, after, rfl, hne⟩ | ⟨rfl, hne⟩)
    · exact ⟨before, value, after ++ [write], by simp, hne⟩
    · exact ⟨writes, write.2, [], rfl, hne⟩

/-- The status of a write: unchanged for the same value, by the zero values at the first change, and
modified again at a later one. -/
structure StatusRule (current value : Bytes32) (changed : Prop) (status : StorageStatus) : Prop where
  unchanged : status = .unchanged ↔ value = current
  first : value ≠ current → ¬ changed → status =
    if current = zeroBytes32 then .added else if value = zeroBytes32 then .deleted else .modified
  later : value ≠ current → changed → status = .modifiedAgain

/-- `SSTORE` asks the host for the access and for the write, the status is the one for the writes
before, and the charge is the one for the status, with 2100 more at the first access to the slot. -/
def SstoreRule (initial : Bytes32 → Bytes32) (writes : List (Bytes32 × Bytes32)) (top : StackTop)
    (s : ExecutionState) : Prop :=
  ∃ access host₁ status host₂,
    MockedHost.accessStorage s.msg.recipient (sstoreKey top s) s.hostCtx = .ok access host₁ ∧
    MockedHost.setStorage s.msg.recipient (sstoreKey top s) (sstoreValue top s) host₁ =
      .ok status host₂ ∧
    StatusRule (valueAfter initial writes (sstoreKey top s)) (sstoreValue top s)
      (Changed initial writes (sstoreKey top s)) status ∧
    Charges ((if sstoreKey top s ∈ writes.map Prod.fst then 0 else 2100) + storageCharge status) host₂
      top s

/-- The maps can tell the slot and have room for it, and `strcmp` can tell the value from the old
one. -/
structure Distinguishes (host : MockedHost) (addr : Address) (key value : Bytes32) : Prop where
  tells : host.Tells addr key
  room : host.Extendable addr key
  value : MapKey.cmp (host.storedValue addr key) value = 0 → host.storedValue addr key = value

/-- The writes have been done by `SSTORE`s of the execution for `addr`, from the host `host₀` on. -/
inductive SstoreRun (addr : Address) (host₀ : MockedHost) :
    List (Bytes32 × Bytes32) → MockedHost → Prop
  | nil : SstoreRun addr host₀ [] host₀
  | snoc {writes : List (Bytes32 × Bytes32)} {host : MockedHost} {top : StackTop}
      {s s' : ExecutionState} : SstoreRun addr host₀ writes host → SstoreEntry addr host top s →
      Distinguishes host addr (sstoreKey top s) (sstoreValue top s) → sstore top s = .ok () s' →
      SstoreRun addr host₀ (writes ++ [(sstoreKey top s, sstoreValue top s)]) s'.hostCtx

/-- The records of the account are cold and clean. -/
structure Untouched (host : MockedHost) (addr : Address) : Prop where
  valid : host.Valid
  cold : ∀ key, (host.recordOf addr key).accessStatus = .cold
  clean : ∀ key, (host.recordOf addr key).dirty = false

/-- The records of the account tell what the writes have done. -/
structure Written (addr : Address) (initial : Bytes32 → Bytes32) (writes : List (Bytes32 × Bytes32))
    (host : MockedHost) : Prop where
  valid : host.Valid
  value : ∀ key, (host.recordOf addr key).value = valueAfter initial writes key
  dirty : ∀ key, (host.recordOf addr key).dirty = true ↔ Changed initial writes key
  status : ∀ key, (host.recordOf addr key).accessStatus =
    if key ∈ writes.map Prod.fst then .warm else .cold

/-- Before the first write nothing has changed. -/
theorem not_changed_nil (initial : Bytes32 → Bytes32) (key : Bytes32) : ¬ Changed initial [] key := by
  rintro ⟨before, value, after, heq, -⟩
  exact absurd heq (by simp)

/-- Before the first write the host has its own values. -/
theorem Untouched.written {host : MockedHost} {addr : Address} (h : Untouched host addr) :
    Written addr (host.storedValue addr) [] host :=
  ⟨h.valid, fun _ => rfl, fun key => by simp [h.clean, not_changed_nil], fun key => h.cold key⟩

section
variable {addr : Address} {host host₀ : MockedHost} {top : StackTop} {s s' : ExecutionState}
  {initial : Bytes32 → Bytes32} {writes : List (Bytes32 × Bytes32)}

omit writes in
/-- The test for zero compares all bytes. -/
theorem b32Zero_iff (b : Bytes32) : b32Zero b = true ↔ b = zeroBytes32 := by
  unfold b32Zero zeroBytes32
  rw [Vector.all_eq_true]
  constructor
  · intro h
    refine Vector.ext fun i hi => ?_
    rw [Vector.getElem_replicate]
    exact eq_of_beq (h i hi)
  · rintro rfl i hi
    rw [Vector.getElem_replicate]
    rfl

/-- The status follows the rule if and only if `strcmp` takes no other value for the old one. -/
theorem statusRule_iff {sv : StorageValue} {changed : Prop} (hdirty : sv.dirty = true ↔ changed)
    (value : Bytes32) :
    StatusRule sv.value value changed (MockedHost.statusFor sv value) ↔
      (MapKey.cmp sv.value value = 0 → sv.value = value) := by
  unfold MockedHost.statusFor
  by_cases hcmp : MapKey.cmp sv.value value = 0
  -- The comparison of strings calls the values equal, so the status is UNCHANGED.
  · rw [if_pos hcmp]
    constructor
    · exact fun h _ => (h.unchanged.1 rfl).symm
    · intro h
      have hsame := h hcmp
      exact ⟨iff_of_true rfl hsame.symm, fun hne => absurd hsame.symm hne,
        fun hne => absurd hsame.symm hne⟩
  -- It tells them apart: they differ, and the status is by the dirty flag and the zeros.
  · rw [if_neg hcmp]
    refine iff_of_true ⟨?_, fun _ hclean => ?_, fun _ hchanged => ?_⟩ fun h => absurd h hcmp
    · have hne : value ≠ sv.value := fun heq => hcmp (heq ▸ LawfulMapKey.cmp_self sv.value)
      refine iff_of_false ?_ hne
      unfold MockedHost.storageStatus
      split_ifs <;> simp
    · unfold MockedHost.storageStatus
      rw [if_neg fun hdirt => hclean (hdirty.1 hdirt)]
      by_cases hold : sv.value = zeroBytes32
      · rw [if_pos ((b32Zero_iff _).2 hold), if_pos hold]
      · rw [if_neg (mt (b32Zero_iff _).1 hold), if_neg hold]
        by_cases hnew : value = zeroBytes32
        · have hzero := (b32Zero_iff value).2 hnew
          rw [if_neg (by simp [hzero]), if_pos hnew]
        · have hzero := mt (b32Zero_iff value).1 hnew
          rw [if_pos (by simp [hzero]), if_neg hnew]
    · exact if_pos (hdirty.2 hchanged)

/-- The access and the write, and what the records tell behind them. -/
theorem Written.access_set (h : Written addr initial writes host) {key : Bytes32}
    (htells : host.Tells addr key) (hroom : host.Extendable addr key) (value : Bytes32) :
    ∃ host₁ host₂, MockedHost.accessStorage addr key host =
        .ok (if key ∈ writes.map Prod.fst then .warm else .cold) host₁ ∧
      MockedHost.setStorage addr key value host₁ =
        .ok (MockedHost.statusFor (host.recordOf addr key) value) host₂ ∧
      ((MapKey.cmp (host.storedValue addr key) value = 0 → host.storedValue addr key = value) →
        Written addr initial (writes ++ [(key, value)]) host₂) := by
  obtain ⟨host₁, host₂, haccess, hset, hvalid, hrecord⟩ :=
    MockedHost.exists_access_set h.valid htells hroom value
  -- The access is warm when the slot has been written.
  rw [h.status] at haccess
  refine ⟨host₁, host₂, haccess, hset, fun hdistinct => ?_⟩
  have hvalue : host.storedValue addr key = valueAfter initial writes key := h.value key
  -- The slot is the only one with a new record.
  have hsame : host₂.recordOf addr key = MockedHost.written (host.recordOf addr key) value := by
    rw [hrecord, if_pos ⟨rfl, rfl⟩]
  have hother : ∀ {key'}, key ≠ key' → host₂.recordOf addr key' = host.recordOf addr key' :=
    fun hne => by rw [hrecord, if_neg fun hpair => hne hpair.2]
  -- Value, dirty flag and access status, each for this slot and for another one.
  refine ⟨hvalid, fun key' => ?_, fun key' => ?_, fun key' => ?_⟩
  · rw [valueAfter_concat]
    by_cases hkey : key = key'
    · subst hkey
      rw [if_pos rfl, hsame]
      unfold MockedHost.written
      split
      case isTrue hcmp => exact hdistinct hcmp
      case isFalse => rfl
    · rw [if_neg hkey, hother hkey, h.value]
  · rw [changed_concat]
    by_cases hkey : key = key'
    · subst hkey
      rw [hsame, ← hvalue]
      unfold MockedHost.written
      split
      case isTrue hcmp => simp [h.dirty, hdistinct hcmp]
      case isFalse hcmp =>
        have hne : value ≠ host.storedValue addr key := fun heq =>
          hcmp (heq ▸ LawfulMapKey.cmp_self _)
        simp [hne]
    · rw [hother hkey, h.dirty]
      simp [hkey]
  · by_cases hkey : key = key'
    · subst hkey
      rw [hsame, if_pos (by simp)]
      unfold MockedHost.written
      split <;> rfl
    · have hmem : key' ∈ (writes ++ [(key, value)]).map Prod.fst ↔ key' ∈ writes.map Prod.fst := by
        rw [List.map_append, List.mem_append]
        exact or_iff_left fun hlast => hkey (List.mem_singleton.1 hlast).symm
      rw [hother hkey, h.status, if_congr hmem rfl rfl]

/-- The `SSTORE`s keep the records up to date. -/
theorem run_written (huntouched : Untouched host₀ addr) (h : SstoreRun addr host₀ writes host) :
    Written addr (host₀.storedValue addr) writes host := by
  -- On the writes: each one accesses the slot, sets it and pays.
  induction h with
  | nil => exact huntouched.written
  | @snoc writes host top s s' _ hentry hdistinct hrun ih =>
      obtain ⟨host₁, host₂, haccess, hset, hwritten⟩ :=
        ih.access_set hdistinct.tells hdistinct.room (sstoreValue top s)
      -- The run went on, so it was not refused.
      have hstatic : executionStateInStaticMode s = false := by
        cases hmode : executionStateInStaticMode s with
        | false => rfl
        | true =>
            rw [sstore_static hmode] at hrun
            cases hrun
      have hgas : 2300 < s.gasLeft := by
        by_contra hlow
        have hrev : Revision.istanbul ≤ s.rev := Nat.le_trans (by decide) hentry.rev
        rw [sstore_stipend hrev hstatic (not_lt.1 hlow)] at hrun
        cases hrun
      obtain ⟨left, hhost, -, heq⟩ := sstore_charges hentry hstatic hgas haccess hset
      rw [heq] at hrun
      split at hrun
      · cases hrun
      · obtain ⟨-, rfl⟩ := EStateM.Result.ok.inj hrun
        rw [hhost]
        exact hwritten hdistinct.value

/-- Where the records tell what the writes have done, `SSTORE` follows the rule if and only if
`strcmp` can tell its value from the old one. -/
theorem Written.sstoreRule_iff (h : Written addr initial writes host)
    (hentry : SstoreEntry addr host top s) (hstatic : executionStateInStaticMode s = false)
    (hgas : 2300 < s.gasLeft) (htells : host.Tells addr (sstoreKey top s))
    (hroom : host.Extendable addr (sstoreKey top s)) : SstoreRule initial writes top s ↔
      (MapKey.cmp (host.storedValue addr (sstoreKey top s)) (sstoreValue top s) = 0 →
        host.storedValue addr (sstoreKey top s) = sstoreValue top s) := by
  obtain ⟨host₁, host₂, haccess, hset, -⟩ := h.access_set htells hroom (sstoreValue top s)
  have hcharges := sstore_charges hentry hstatic hgas haccess hset
  -- The slot is cold exactly when it was not written before.
  have hfirst :
      (if (if sstoreKey top s ∈ writes.map Prod.fst then AccessStatus.warm else .cold) = .cold
      then (2100 : Int) else 0) = if sstoreKey top s ∈ writes.map Prod.fst then 0 else 2100 := by
    split <;> rfl
  rw [hfirst] at hcharges
  have hvalue : host.storedValue addr (sstoreKey top s) =
      valueAfter initial writes (sstoreKey top s) := h.value _
  have hstatus := statusRule_iff (h.dirty (sstoreKey top s)) (sstoreValue top s)
  obtain ⟨rfl, rfl, -⟩ := hentry
  -- The rest of the rule holds in any case, so the status decides.
  constructor
  · rintro ⟨access, host₁', status, host₂', haccess', hset', hrule, -⟩
    obtain ⟨-, rfl⟩ := EStateM.Result.ok.inj (haccess.symm.trans haccess')
    obtain ⟨rfl, -⟩ := EStateM.Result.ok.inj (hset.symm.trans hset')
    rw [← hvalue] at hrule
    exact hstatus.1 hrule
  · intro hdistinct
    refine ⟨_, host₁, _, host₂, haccess, hset, ?_, hcharges⟩
    rw [← hvalue]
    exact hstatus.2 hdistinct

/-- Behind any `SSTORE`s of one execution whose slots and values can be told from the others, an
`SSTORE` that is refused leaves the host as it is, and one that is not has the status and the charge
of the rule if and only if `strcmp` can tell its value from the old one. -/
theorem run_sstore (huntouched : Untouched host₀ addr) (hrun : SstoreRun addr host₀ writes host)
    (hentry : SstoreEntry addr host top s) :
    (executionStateInStaticMode s = true → sstore top s = .error (.ret .staticModeViolation) s) ∧
    (executionStateInStaticMode s = false → s.gasLeft ≤ 2300 →
      sstore top s = .error (.ret .outOfGas) s) ∧
    (executionStateInStaticMode s = false → 2300 < s.gasLeft → host.Tells addr (sstoreKey top s) →
      host.Extendable addr (sstoreKey top s) →
      (SstoreRule (host₀.storedValue addr) writes top s ↔
        (MapKey.cmp (host.storedValue addr (sstoreKey top s)) (sstoreValue top s) = 0 →
          host.storedValue addr (sstoreKey top s) = sstoreValue top s))) := by
  have hrev : Revision.istanbul ≤ s.rev := Nat.le_trans (by decide) hentry.rev
  exact ⟨sstore_static, fun hstatic hgas => sstore_stipend hrev hstatic hgas,
    fun hstatic hgas htells hroom =>
      (run_written huntouched hrun).sstoreRule_iff hentry hstatic hgas htells hroom⟩

end

/-! ### Writes on a fresh host -/

/-- The host of `MockedHost_init` is untouched. -/
theorem untouched_init (tx : TxContext) (addr : Address) : Untouched (mockedHostInit tx) addr :=
  ⟨(MockedHost.fresh_init tx).valid, fun _ => rfl, fun _ => rfl⟩

/-- A state on a host without accounts, with the word in all slots. -/
def sstoreState (word : Uint256) : ExecutionState :=
  let _ : Env := Env.zeroed
  { executionStateInitV default .london (mockedHostInit default) [] with
    gasLeft := 100000
    stackSpace := fun _ => word }

/-- The state is one that SSTORE can be met in. -/
theorem sstoreState_entry (word : Uint256) : SstoreEntry (sstoreState word).msg.recipient
    (mockedHostInit default) 1 (sstoreState word) :=
  ⟨rfl, rfl, (by decide : Revision.berlin ≤ Revision.london),
    (by unfold isInt64; omega : isInt64 100000),
    by decide, by decide⟩

/-- The word of ones, whose bytes are all ones. -/
def onesWord : Uint256 := ⟨⟨-1, -1⟩, ⟨-1, -1⟩⟩

/-- A state on the host, for a write of zero under the key of ones. -/
def clearState (host : MockedHost) : ExecutionState :=
  let _ : Env := Env.zeroed
  { executionStateInitV default .london host [] with
    gasLeft := 100000
    stackSpace := fun i => if i = 1 then onesWord else .ofU64 0 }

/-- The state is one that SSTORE can be met in. -/
theorem clearState_entry (host : MockedHost) :
    SstoreEntry (clearState host).msg.recipient host 1 (clearState host) :=
  ⟨rfl, rfl, (by decide : Revision.berlin ≤ Revision.london),
    (by unfold isInt64; omega : isInt64 100000),
    by decide, by decide⟩

/-- A word is written and then cleared again: the second `SSTORE` follows the rule, which says that
the slot is warm by then and its value modified again. -/
theorem run_sstore_again : ∃ s', sstore 1 (sstoreState onesWord) = .ok () s' ∧
    SstoreRule ((mockedHostInit default).storedValue (default : Message).recipient)
      [(storageWord onesWord, storageWord onesWord)] 1 (clearState s'.hostCtx) := by
  have hend : endsWith (fun host : MockedHost =>
        MockedHost.onlyKey host.accounts (default : Message).recipient &&
        (host.accounts.entry (default : Message).recipient).all
          (fun acc => MockedHost.onlyKey acc.storage (storageWord onesWord)) &&
        decide (MapKey.cmp (host.storedValue (default : Message).recipient (storageWord onesWord))
          (storageWord (.ofU64 0)) ≠ 0))
      (do sstore 1; Core.read (·.hostCtx)) (sstoreState onesWord) = true := by
    with_unfolding_all decide
  obtain ⟨host, s', hrun, htest⟩ := exists_of_endsWith hend
  obtain ⟨⟨⟩, s', hfirst, hread⟩ := exists_of_bind hrun
  cases hread
  rw [Bool.and_eq_true, Bool.and_eq_true, decide_eq_true_iff] at htest
  obtain ⟨⟨haddr, hkey⟩, hcmp⟩ := htest
  obtain ⟨htells₀, hroom₀⟩ := MockedHost.accepts_empty (mockedHostInit default) rfl
    (default : Message).recipient (storageWord onesWord)
  have hone : SstoreRun (default : Message).recipient (mockedHostInit default)
      [(storageWord onesWord, storageWord onesWord)] s'.hostCtx :=
    .snoc .nil (sstoreState_entry onesWord)
      ⟨htells₀, hroom₀, fun hzero => absurd hzero (by with_unfolding_all decide)⟩ hfirst
  obtain ⟨htells, hroom⟩ := MockedHost.accepts_only haddr hkey
  have hstatic : executionStateInStaticMode (clearState s'.hostCtx) =
      executionStateInStaticMode (sstoreState onesWord) := rfl
  exact ⟨s', hfirst, ((run_sstore (untouched_init default _) hone (clearState_entry _)).2.2
    (hstatic.trans (by with_unfolding_all decide)) (by decide : (2300 : Int) < 100000) htells hroom).2 fun hzero => absurd hzero hcmp⟩

/-- The value 1 counts as zero, and is not written. -/
theorem run_sstore_one : ¬ SstoreRule
    ((mockedHostInit default).storedValue (default : Message).recipient) [] 1
    (sstoreState (.ofU64 1)) := by
  intro h
  obtain ⟨htells, hroom⟩ := MockedHost.accepts_empty (mockedHostInit default) rfl
    (default : Message).recipient (sstoreKey 1 (sstoreState (.ofU64 1)))
  have hsame := ((untouched_init default _).written.sstoreRule_iff (sstoreState_entry (.ofU64 1)) rfl
    (by decide : (2300 : Int) < 100000) htells hroom).1 h (by with_unfolding_all decide)
  exact absurd hsame (by with_unfolding_all decide)

end TscVee
