import TscVee.CallerHost
import TscVee.Proofs.RunRules
import TscVee.Proofs.StorageStatus

/-!
# `TscVee.Proofs.HostEffects`: what the caller's host object shows of the requests

The instructions work on a copy of the caller's host context (`TscVee.CallerHost`). The copy shares
its blocks with the caller's object until the first container moves.

* `MockedHost.HasRoom`: a request moves no container of the object, and the maps and `strcmp` can tell
  what it reads and writes.
* `serve_extended`: a request that has room adds its records in place.
* `MockedHost.Answers`: requests, answered one after the other.
* `Reflects`: an object shows all effects of a list of requests.
* `reflects_of_answers`: when the requests all have room, the caller's object shows their effects.
-/

set_option autoImplicit false

namespace TscVee

open TscVee.Core Lib

/-! ### Requests -/

/-- The request that an event records. -/
def Event.request? : Event → Option HostOp
  | .host op => some op
  | _ => none

/-- The requests of a trace, in order. -/
def requests (trace : List Event) : List HostOp := trace.filterMap Event.request?

/-- The log record that a request adds. -/
def HostOp.log? : HostOp → Option LogRecord
  | .emitLog addr data topics vectorEmpty =>
    some ⟨addr, data, if vectorEmpty then some topics else none⟩
  | _ => none

/-- The record of a self-destruct that a request adds. -/
def HostOp.destruct? : HostOp → Option SelfdestructRecord
  | .selfdestruct addr beneficiary => some ⟨addr, beneficiary⟩
  | _ => none

/-- The number that a request for a block hash adds. -/
def HostOp.number? : HostOp → Option Int
  | .getBlockHash blockNumber => some blockNumber
  | _ => none

/-- The input of a call. -/
def HostOp.input? : HostOp → Option (List Byte)
  | .call msg => if msg.inputSize > 0 then some (msg.inputData.take msg.inputSize) else none
  | _ => none

/-- The record that a call adds, with a pointer to the recorded input. -/
def HostOp.call? : HostOp → Option Message
  | .call msg => some { msg with inputData := (HostOp.call msg).input?.getD msg.inputData }
  | _ => none

/-- The value that a request writes for the pair of address and key. -/
def HostOp.written? (addr : Address) (key : Bytes32) : HostOp → Option Bytes32
  | .setStorage addr' key' value => if addr = addr' ∧ key = key' then some value else none
  | _ => none

/-! ### Vectors that stay in place -/

namespace CVec

variable {α : Type}

/-- The vector with an item more. -/
def extend? (v : CVec α) (o : Option α) : CVec α :=
  o.elim v fun item => { v with items := v.items ++ [item] }

/-- The vector with an item more, if there is room for it. -/
def extendIf (v : CVec α) (room : Prop) [Decidable room] (o : Option α) : CVec α :=
  o.elim v fun item => if room then { v with items := v.items ++ [item] } else v

/-- A push finds room in the block. -/
def HasRoom (v : CVec α) : Prop := v.size ≠ v.cap

/-- The block holds `cap` items, so that a reservation of them leaves it in place. -/
def Holds (v : CVec α) (cap : Nat) : Prop := ¬ (cap > v.cap ∨ (cap ≠ 0 ∧ cap = v.size))

/-- The records of which there are at most `max`, with a reservation in front of the first one, find
room in the block. -/
structure HasRoomUpTo (v : CVec α) (max : Nat) : Prop where
  reserved : v.empty = true → v.Holds max
  room : v.size < max → v.HasRoom

/-- A vector that holds `cap` items is not reallocated. -/
theorem reserve_of_holds {v : CVec α} {cap : Nat} (h : v.Holds cap) : v.reserve cap = v := if_neg h

/-- With room, the item is appended. -/
theorem push_of_room {v : CVec α} (h : v.HasRoom) (item : α) :
    v.push item = v.extend? (some item) := by
  unfold push
  rw [if_neg h]
  rfl

/-- The block stays. -/
theorem extend?_block (v : CVec α) (o : Option α) : (v.extend? o).block = v.block := by
  cases o <;> rfl

/-- The item, if there is one, comes last. -/
theorem extend?_items (v : CVec α) (o : Option α) :
    (v.extend? o).items = v.items ++ o.toList := by
  cases o with
  | none => exact (List.append_nil _).symm
  | some item => rfl

/-- The block stays, with and without room. -/
theorem extendIf_block (v : CVec α) (room : Prop) [Decidable room] (o : Option α) :
    (v.extendIf room o).block = v.block := by
  cases o with
  | none => rfl
  | some item =>
      unfold extendIf Option.elim
      dsimp only
      split <;> rfl

/-- With room, the item comes last. -/
theorem extendIf_of_room {v : CVec α} {room : Prop} [Decidable room] (h : room) (item : α) :
    v.extendIf room (some item) = v.extend? (some item) := if_pos h

/-- Without room, the vector stays. -/
theorem extendIf_of_full {v : CVec α} {room : Prop} [Decidable room] (h : ¬ room) (o : Option α) :
    v.extendIf room o = v := by
  cases o with
  | none => rfl
  | some item => exact if_neg h

/-- At most `max` records. -/
theorem extendIf_take {v old : CVec α} {max : Nat} {items : List α} (o : Option α)
    (h : v.items = old.items ++ items.take (max - old.size)) :
    (v.extendIf (v.size < max) o).items =
      old.items ++ (items ++ o.toList).take (max - old.size) := by
  have hsize : v.size = old.size + min (max - old.size) items.length := by
    unfold size
    rw [h, List.length_append, List.length_take]
    rfl
  cases o with
  | none =>
      rw [Option.toList_none, List.append_nil]
      exact h
  | some item =>
      unfold extendIf Option.elim
      dsimp only
      split
      -- Room is left: the new item is taken as well.
      case isTrue hroom =>
        have htake : (items ++ [item]).take (max - old.size) = items ++ [item] :=
          List.take_of_length_le (by simp; omega)
        rw [List.take_of_length_le (by omega)] at h
        rw [Option.toList_some, htake, h, List.append_assoc]
      -- The vector is full: the take was complete before.
      case isFalse hfull =>
        rw [List.take_append_of_le_length (by omega)]
        exact h

end CVec

namespace MockedHost

/-- A request finds room: no container of the host object has to move, no storage map is full, and
the maps and `strcmp` can tell what it reads and writes. -/
structure HasRoom (host : MockedHost) (op : HostOp) : Prop where
  accesses : ∀ addr, op.recorded? = some addr →
    host.recordedAccountAccesses.HasRoomUpTo host.maxRecordedAccountAccesses
  logs : ∀ record, op.log? = some record → host.recordedLogs.HasRoom
  selfdestructs : ∀ record, op.destruct? = some record → host.recordedSelfdestructs.HasRoom
  blockhashes : ∀ number, op.number? = some number → host.recordedBlockhashes.HasRoom
  calls : ∀ record, op.call? = some record → host.recordedCalls.HasRoomUpTo host.maxRecordedCalls
  reserved : ∀ record, op.call? = some record → host.recordedCalls.empty = true →
    host.recordedCallsInputs.Holds host.maxRecordedCalls
  inputs : ∀ input, op.input? = some input → host.recordedCalls.size < host.maxRecordedCalls →
    host.recordedCallsInputs.HasRoom
  account : ∀ addr key, op = .accessStorage addr key → host.accounts.contains addr = some false →
    host.accounts.size ≠ 0 ∧ host.accounts.size + 2 ≤ loadLimit host.accounts.bucketCount
  accepts : host.Accepts op
  written : ∀ addr key value, op = .setStorage addr key value →
    host.Tells addr key ∧
      (MapKey.cmp (host.storedValue addr key) value = 0 → host.storedValue addr key = value)

/-- The host with the records of a request added in place. -/
def extended (host : MockedHost) (op : HostOp) : MockedHost :=
  { host with
    recordedAccountAccesses := host.recordedAccountAccesses.extendIf
      (host.recordedAccountAccesses.size < host.maxRecordedAccountAccesses) op.recorded?
    recordedLogs := host.recordedLogs.extend? op.log?
    recordedSelfdestructs := host.recordedSelfdestructs.extend? op.destruct?
    recordedBlockhashes := host.recordedBlockhashes.extend? op.number?
    recordedCalls := host.recordedCalls.extendIf
      (host.recordedCalls.size < host.maxRecordedCalls) op.call?
    recordedCallsInputs := host.recordedCallsInputs.extendIf
      (host.recordedCalls.size < host.maxRecordedCalls) op.input? }

variable {host : MockedHost} {op : HostOp} {addr : Address}

/-- A record of an access stays in place. -/
theorem recorded_of_room (addr : Address)
    (h : host.recordedAccountAccesses.HasRoomUpTo host.maxRecordedAccountAccesses) :
    host.recorded addr = { host with
      recordedAccountAccesses := host.recordedAccountAccesses.extendIf
        (host.recordedAccountAccesses.size < host.maxRecordedAccountAccesses) (some addr) } := by
  have hreserved : (if host.recordedAccountAccesses.empty then
      host.recordedAccountAccesses.reserve host.maxRecordedAccountAccesses
      else host.recordedAccountAccesses) = host.recordedAccountAccesses := by
    split
    case isTrue hempty => exact CVec.reserve_of_holds (h.reserved hempty)
    case isFalse => rfl
  unfold MockedHost.recorded
  dsimp only
  rw [hreserved]
  unfold CVec.extendIf Option.elim
  dsimp only
  split
  case isTrue hlt => rw [CVec.push_of_room (h.room hlt)]; rfl
  case isFalse => rfl

/-- A call that has room adds its records in place. -/
theorem call_extended {msg : Message} (h : host.HasRoom (.call msg)) :
    Sat (MockedHost.call msg) host (fun _ host' => host' = host.extended (.call msg))
      fun _ _ => True := by
  have hcalls := h.calls _ rfl
  have hrecorded := recorded_of_room msg.recipient (h.accesses _ rfl)
  unfold MockedHost.call
  simp only [sat_bind, sat_recordAccountAccess, sat_modify, sat_get, sat_ite, sat_readPtr, sat_set,
    sat_pure]
  -- The record of the account does not touch the records of the calls.
  have hfields : (host.recorded msg.recipient).recordedCalls = host.recordedCalls ∧
      (host.recorded msg.recipient).maxRecordedCalls = host.maxRecordedCalls ∧
      (host.recorded msg.recipient).recordedCallsInputs = host.recordedCallsInputs :=
    ⟨rfl, rfl, rfl⟩
  generalize host.recorded msg.recipient = host₁ at hrecorded hfields ⊢
  obtain ⟨hsame, hmax, hinputs⟩ := hfields
  -- The reservation finds the vectors large enough.
  have hreserved : (if host₁.recordedCalls.empty = true then { host₁ with
      recordedCalls := host₁.recordedCalls.reserve host₁.maxRecordedCalls
      recordedCallsInputs := host₁.recordedCallsInputs.reserve host₁.maxRecordedCalls }
      else host₁) = host₁ := by
    split
    case isTrue hempty =>
      rw [hsame] at hempty
      rw [hsame, hmax, hinputs, CVec.reserve_of_holds (hcalls.reserved hempty),
        CVec.reserve_of_holds (h.reserved _ rfl hempty), ← hsame, ← hmax, ← hinputs]
    case isFalse => rfl
  rw [hreserved, hsame, hmax]
  refine ⟨fun hroom => ⟨fun hsize => ?_, fun hsize => ?_⟩, fun hfull => ?_⟩
  · split
    case isTrue hread =>
      have hinput : (HostOp.call msg).input? = some (msg.inputData.take msg.inputSize) :=
        if_pos hsize
      have hcall : (HostOp.call msg).call? =
          some { msg with inputData := msg.inputData.take msg.inputSize } := by
        simp only [HostOp.call?, hinput, Option.getD_some]
      rw [hinputs, CVec.push_of_room (hcalls.room hroom),
        CVec.push_of_room (h.inputs _ hinput hroom)]
      unfold extended
      rw [hrecorded, hinput, hcall, CVec.extendIf_of_room hroom, CVec.extendIf_of_room hroom]
      rfl
    case isFalse => trivial
  · have hinput : (HostOp.call msg).input? = none := if_neg hsize
    have hcall : (HostOp.call msg).call? = some msg := by
      simp only [HostOp.call?, hinput, Option.getD_none]
    rw [CVec.push_of_room (hcalls.room hroom)]
    unfold extended
    rw [hrecorded, hinput, hcall, CVec.extendIf_of_room hroom]
    rfl
  · unfold extended
    rw [hrecorded, CVec.extendIf_of_full hfull, CVec.extendIf_of_full hfull]
    rfl

/-- A search that may not end, when nothing is asked of a run that does not. -/
theorem sat_probing_of {α : Type} {o : Option α} {Q : α → MockedHost → Prop}
    (h : ∀ a, o = some a → Q a host) : Sat (probing o) host Q fun _ _ => True := by
  cases o with
  | none => trivial
  | some a => exact h a rfl

/-- A pointer that may be `NULL`, when nothing is asked of a fault. -/
theorem sat_deref_of {α : Type} {o : Option α} {Q : α → MockedHost → Prop}
    (h : ∀ a, o = some a → Q a host) : Sat (deref o) host Q fun _ _ => True := by
  cases o with
  | none => trivial
  | some a => exact h a rfl

/-- A search for an entry, which is made if there is none, leaves the host alone. -/
theorem sat_ensured {κ ν : Type} [MapKey κ] {m : CMap κ ν} {key : κ} {value : ν}
    {Q : CMap κ ν → MockedHost → Prop} (hold : Q m host)
    (hnew : ∀ m', m.contains key = some false → m.insert key value = some m' → Q m' host) :
    Sat (ensured m key value) host Q fun _ _ => True := by
  unfold ensured
  rw [sat_bind]
  refine sat_probing_of fun known hknown => sat_ite.2 ⟨fun _ => hold, fun hfalse => ?_⟩
  rw [Bool.eq_false_iff.2 hfalse] at hknown
  exact sat_probing_of fun m' hinsert => hnew m' hknown hinsert

/-- `access_storage` changes the accounts only, and writes to the one account. -/
theorem sat_accessStorage {key : Bytes32} {Q : CMap Address MockedAccount → Prop}
    (hset : ∀ m i acc, Q m → Q (m.setSecond i acc)) (hold : Q host.accounts)
    (hnew : ∀ m, host.accounts.contains addr = some false →
      host.accounts.insert addr mockedAccountInit = some m → Q m) :
    Sat (accessStorage addr key) host
      (fun _ host' => host' = { host with accounts := host'.accounts } ∧ Q host'.accounts)
      fun _ _ => True := by
  -- The account is written twice, once for the slot that is made and once for the one made warm.
  have hwrite : ∀ accounts, Q accounts → Sat (do
      set { host with accounts := accounts }
      let accIdx ← deref (← probing (accounts.lookupIdx addr))
      let acc ← deref ((accounts.at? accIdx).map (·.second))
      let storage ← ensured acc.storage key storageValueInit
      set { host with accounts := accounts.setSecond accIdx { acc with storage := storage } }
      let svalue ← deref (← probing (storage.find key))
      let storage ← probing (storage.insertOrAssign key { svalue with accessStatus := .warm })
      set { host with accounts := accounts.setSecond accIdx { acc with storage := storage } }
      return svalue.accessStatus) host
      (fun _ host' => host' = { host with accounts := host'.accounts } ∧ Q host'.accounts)
      fun _ _ => True := by
    intro accounts hQ
    simp only [sat_bind, sat_set, sat_pure]
    refine sat_probing_of fun _ _ => sat_deref_of fun i _ => sat_deref_of fun acc _ => ?_
    refine sat_ensured ?_ fun _ _ _ => ?_
    all_goals
      refine sat_probing_of fun _ _ => sat_deref_of fun sv _ => sat_probing_of fun storage _ => ?_
      exact ⟨trivial, hset _ _ _ hQ⟩
  rw [accessStorage_eq, sat_bind, sat_get, sat_bind]
  exact sat_ensured (hwrite _ hold) fun m hcontains hinsert => hwrite m (hnew m hcontains hinsert)

/-- A request that has room adds its records in place, and changes nothing else but the accounts. -/
theorem serve_extended (h : host.HasRoom op) :
    Sat op.serve host (fun _ host' => host' = { host.extended op with accounts := host'.accounts })
      fun _ _ => True := by
  have hrecorded : ∀ addr, op.recorded? = some addr → host.recorded addr = { host with
      recordedAccountAccesses := host.recordedAccountAccesses.extendIf
        (host.recordedAccountAccesses.size < host.maxRecordedAccountAccesses) (some addr) } :=
    fun addr haddr => recorded_of_room addr (h.accesses addr haddr)
  unfold extended
  -- Each request records the account that it names, in a vector with room, and at most one more
  -- record. What it answers does not matter here.
  cases op with
  | accountExists addr =>
      unfold HostOp.serve accountExists
      simp only [sat_bind, sat_recordAccountAccess, sat_get, sat_probing]
      cases (host.recorded addr).accounts.contains addr with
      | none => trivial
      | some known => 
        rw [hrecorded addr rfl]
        rfl
  | getStorage addr key =>
      refine sat_lookup (fun _ _ => trivial) fun o => ?_
      rw [hrecorded addr rfl]
      cases o with
      | none => rfl
      | some acc =>
          simp only [sat_bind, sat_probing]
          cases acc.storage.find key with
          | none => trivial
          | some sv => cases sv <;> rfl
  | setStorage addr key value =>
      -- Without the slot, the write faults. With it, the accounts change and nothing else.
      cases hslot : host.slot addr key with
      | none => exact (sat_setStorage_of_slot hslot).mono (fun _ _ h => h.elim) fun _ _ _ => trivial
      | some slot =>
          obtain ⟨acc, old, hfinds⟩ := finds_of_slot hslot
          refine hfinds.sat_setStorage.2 ⟨fun _ => ?_, fun _ => ?_⟩
          all_goals
            rw [hrecorded addr rfl]
            rfl
  | getBalance addr =>
      refine sat_lookup (fun _ _ => trivial) fun o => ?_
      rw [hrecorded addr rfl]
      cases o <;> rfl
  | getCodeSize addr =>
      refine sat_lookup (fun _ _ => trivial) fun o => ?_
      rw [hrecorded addr rfl]
      cases o <;> rfl
  | getCodeHash addr =>
      refine sat_lookup (fun _ _ => trivial) fun o => ?_
      rw [hrecorded addr rfl]
      cases o <;> rfl
  | copyCode addr codeOffset bufferSize =>
      refine sat_lookup (fun _ _ => trivial) fun o => ?_
      rw [hrecorded addr rfl]
      cases o with
      | none => rfl
      | some acc =>
          simp only [sat_ite, sat_pure]
          exact ⟨fun _ => rfl, fun _ => rfl⟩
  | selfdestruct addr beneficiary =>
      unfold HostOp.serve selfdestruct
      simp only [sat_bind, sat_recordAccountAccess, sat_modify]
      rw [hrecorded addr rfl, CVec.push_of_room (h.selfdestructs _ rfl)]
      rfl
  | call msg =>
      refine (call_extended h).mono (fun _ host' heq => ?_) fun _ _ h => h
      rw [heq]
      rfl
  | getTxContext => exact rfl
  | getBlockHash blockNumber =>
      unfold HostOp.serve getBlockHash
      simp only [sat_bind, sat_modify, sat_get, sat_pure]
      rw [CVec.push_of_room (h.blockhashes _ rfl)]
      rfl
  | emitLog addr data topics vectorEmpty =>
      unfold HostOp.serve emitLog
      -- The record of the log has a vector of its own, empty or not.
      have hroom := h.logs _ rfl
      simp only [sat_bind, sat_ite, sat_pure, sat_throw, sat_modify, CVec.push_of_room hroom]
      refine ⟨fun hempty => ?_, fun hfull => ⟨fun _ => ?_, fun _ => trivial⟩⟩
      · rw [hempty]
        rfl
      · rw [Bool.eq_false_iff.2 hfull]
        rfl
  | accessAccount addr =>
      unfold HostOp.serve accessAccount
      simp only [sat_bind, sat_get, sat_recordAccountAccess, sat_ite, sat_pure]
      rw [hrecorded addr rfl]
      exact ⟨fun _ => rfl, fun _ => rfl⟩
  | accessStorage addr key =>
      exact (sat_accessStorage (Q := fun _ => True) (fun _ _ _ _ => trivial) trivial
        fun _ _ _ => trivial).mono (fun _ _ h => h.1) fun _ _ h => h

end MockedHost

/-! ### Maps that stay in place -/

namespace CMap

variable {κ ν : Type} [MapKey κ] {m m' : CMap κ ν} {key : κ} {value : ν}

/-- An insertion below the load limit stays in the table. -/
theorem insert_inPlace (hroom : m.size + 2 ≤ loadLimit m.bucketCount)
    (hbound : m.bucketCount < 2 ^ 32) (h : m.insert key value = some m') :
    m'.block = m.block ∧ (m'.size = m.size ∨ m'.size = m.size + 1) := by
  have hle := loadLimit_le m.bucketCount
  have hlow : ¬ (m.size + 2) % 2 ^ 32 > loadLimit m.bucketCount := by
    have hmod := Nat.mod_le (m.size + 2) (2 ^ 32)
    omega
  have hsize : (m.size + 1) % 2 ^ 32 = m.size + 1 := Nat.mod_eq_of_lt (by omega)
  unfold insert insertEntry growForInsert at h
  rw [if_neg hlow, Option.bind_eq_bind, Option.bind_some] at h
  obtain ⟨idx, -, h⟩ := Option.bind_eq_some_iff.1 h
  split at h
  · obtain rfl := Option.some.inj h
    exact ⟨rfl, Or.inr hsize⟩
  · obtain rfl := Option.some.inj h
    exact ⟨rfl, Or.inl rfl⟩

/-- A lookup looks at the size only to see whether the map is empty. -/
theorem find_resize {n : Nat} (h : m.size = 0 ↔ n = 0) (key : κ) :
    ({ m with size := n } : CMap κ ν).find key = m.find key := by
  unfold find lookupIdx
  by_cases hsize : m.size = 0
  · rw [if_pos hsize, if_pos (h.1 hsize)]
    rfl
  · rw [if_neg hsize, if_neg (mt h.2 hsize)]
    rfl

/-- A valid map can tell the keys that it has. -/
theorem Valid.tells_of_entry [LawfulMapKey κ] [DecidableEq κ] (h : m.Valid)
    (hentry : m.entry key = some value) : m.Tells key := by
  intro b hb halike
  obtain ⟨i, b', hb', rfl, rfl⟩ := binds_of_entry hentry
  obtain ⟨j, hj⟩ := List.mem_iff_getElem?.1 hb
  have hb : m.buckets.getD j none = some b := by
    rw [List.getD_eq_getElem?_getD, hj, Option.getD_some]
  obtain rfl := h.kept.apart j i b b' hb hb' halike
  rw [Option.some.inj (hb.symm.trans hb')]

end CMap

namespace MockedHost

variable {host host₀ : MockedHost} {op : HostOp} {addr : Address} {key : Bytes32}

/-- `get_storage` reads the record of a pair that has one. -/
theorem Valid.storageAt (h : host.Valid) {sv : StorageValue}
    (hrecord : host.record addr key = some sv) :
    host.storageAt addr key = .ok sv.value := by
  obtain ⟨acc, hacc, hentry⟩ := Option.bind_eq_some_iff.1 hrecord
  have hstorage := h.storage addr acc hacc
  rw [storageAt_eq, h.accounts.find (h.accounts.tells_of_entry hacc), hacc, readFound,
    Option.elim_some, Option.elim_some, hstorage.find (hstorage.tells_of_entry hentry), hentry]
  rfl

/-- The searches for a pair that the maps can tell end at its own record. -/
theorem Finds.own {slot : Nat × Nat} {acc : Bucket Address MockedAccount}
    {old : Bucket Bytes32 StorageValue} (hfinds : host.Finds addr key slot acc old) (h : host.Valid)
    (htells : host.Tells addr key) : acc.first = addr ∧ old.first = key := by
  obtain ⟨i, b, hlookup, hb, hfirst⟩ := (h.accounts.lookupIdx htells.accounts).resolve_right
    fun hnone => by
      rw [hfinds.account] at hnone
      cases hnone.1
  obtain rfl := Option.some.inj (Option.some.inj (hlookup.symm.trans hfinds.account))
  obtain rfl := Option.some.inj (hb.symm.trans hfinds.accountAt)
  have hentry := h.accounts.entry_at hb
  rw [hfirst] at hentry
  obtain ⟨j, b', hlookup', hb', hfirst'⟩ :=
    ((h.storage _ _ hentry).lookupIdx (htells.storage _ hentry)).resolve_right fun hnone => by
      rw [hfinds.entry] at hnone
      cases hnone.1
  obtain rfl := Option.some.inj (Option.some.inj (hlookup'.symm.trans hfinds.entry))
  obtain rfl := Option.some.inj (hb'.symm.trans hfinds.entryAt)
  exact ⟨hfirst, hfirst'⟩

/-! ### Runs of requests -/

/-- The value that the last of the requests has written for the pair. -/
def lastWritten (ops : List HostOp) (addr : Address) (key : Bytes32) : Option Bytes32 :=
  (ops.filterMap (HostOp.written? addr key)).getLast?

/-- The last request counts first. -/
theorem lastWritten_concat (ops : List HostOp) (op : HostOp) (addr : Address) (key : Bytes32) :
    lastWritten (ops ++ [op]) addr key = (op.written? addr key).or (lastWritten ops addr key) := by
  unfold lastWritten
  rw [List.filterMap_append, List.getLast?_append]
  cases hop : op.written? addr key with
  | none => rw [List.filterMap_cons_none hop]; rfl
  | some value => rw [List.filterMap_cons_some hop]; rfl

/-- The requests have been answered one after the other, from `host₀` to `host`. -/
inductive Answers (host₀ : MockedHost) : List HostOp → MockedHost → Prop
  | nil : Answers host₀ [] host₀
  | snoc {ops : List HostOp} {host host' : MockedHost} {op : HostOp} {answer : op.Answer} :
      Answers host₀ ops host → op.serve host = .ok answer host' → Answers host₀ (ops ++ [op]) host'

/-- The answers to two lists of requests. -/
theorem Answers.append {ops ops' : List HostOp} {host' : MockedHost} (h : Answers host₀ ops host)
    (h' : Answers host ops' host') : Answers host₀ (ops ++ ops') host' := by
  induction h' with
  | nil => rw [List.append_nil]; exact h
  | snoc _ hserve ih =>
      rw [← List.append_assoc]
      exact .snoc ih hserve

/-- Each of the requests finds room, on the host that the ones before it have left. -/
def EachHasRoom (host₀ : MockedHost) (ops : List HostOp) : Prop :=
  ∀ before op after host, ops = before ++ op :: after → Answers host₀ before host → host.HasRoom op

/-- The first part of a list of requests finds room when the whole does. -/
theorem EachHasRoom.init {ops ops' : List HostOp} (h : EachHasRoom host₀ (ops ++ ops')) :
    EachHasRoom host₀ ops := fun before op after host heq hbefore =>
  h before op (after ++ ops') host (by rw [heq, List.append_assoc, List.cons_append]) hbefore

/-- One request. -/
theorem eachHasRoom_singleton (h : host₀.HasRoom op) : EachHasRoom host₀ [op] := by
  intro before op' after host heq hbefore
  cases before with
  | nil =>
      obtain ⟨rfl, -⟩ := List.cons_eq_cons.1 heq
      generalize hnil : ([] : List HostOp) = ops at hbefore
      cases hbefore with
      | nil => exact h
      | snoc => simp at hnil
  | cons first rest => simp at heq

/-- The storage behind the requests: the maps are valid, the accounts have not moved, and the
records have the values that were written last. -/
structure Stored (host₀ : MockedHost) (ops : List HostOp) (host : MockedHost) : Prop where
  valid : host.Valid
  block : host.accounts.block = host₀.accounts.block
  size : host.accounts.size = 0 ↔ host₀.accounts.size = 0
  present : ∀ addr key value, lastWritten ops addr key = some value →
    ∃ sv, host.record addr key = some sv ∧ sv.value = value
  others : ∀ addr key, lastWritten ops addr key = none →
    host.storedValue addr key = host₀.storedValue addr key

/-- A vector behind the requests: it has not moved, and has got the items. -/
structure Grown {α : Type} (old v : CVec α) (items : List α) : Prop where
  block : v.block = old.block
  items : v.items = old.items ++ items

/-- The records behind the requests, which have got an item for each of them, up to the maxima. -/
structure Records (host₀ : MockedHost) (ops : List HostOp) (host : MockedHost) : Prop where
  maxAccesses : host.maxRecordedAccountAccesses = host₀.maxRecordedAccountAccesses
  maxCalls : host.maxRecordedCalls = host₀.maxRecordedCalls
  accesses : Grown host₀.recordedAccountAccesses host.recordedAccountAccesses
    ((ops.filterMap HostOp.recorded?).take
      (host₀.maxRecordedAccountAccesses - host₀.recordedAccountAccesses.size))
  logs : Grown host₀.recordedLogs host.recordedLogs (ops.filterMap HostOp.log?)
  selfdestructs : Grown host₀.recordedSelfdestructs host.recordedSelfdestructs
    (ops.filterMap HostOp.destruct?)
  blockhashes : Grown host₀.recordedBlockhashes host.recordedBlockhashes
    (ops.filterMap HostOp.number?)
  calls : Grown host₀.recordedCalls host.recordedCalls
    ((ops.filterMap HostOp.call?).take (host₀.maxRecordedCalls - host₀.recordedCalls.size))
  inputs : host.recordedCallsInputs.block = host₀.recordedCallsInputs.block

/-- What is recorded of one more request. -/
theorem filterMap_concat {α : Type} (f : HostOp → Option α) (ops : List HostOp) (op : HostOp) :
    (ops ++ [op]).filterMap f = ops.filterMap f ++ (f op).toList := by
  rw [List.filterMap_append]
  cases hop : f op with
  | none => rw [List.filterMap_cons_none hop]; rfl
  | some a => rw [List.filterMap_cons_some hop]; rfl

/-- Before the first request, the records are those of the host. -/
theorem Records.init (host₀ : MockedHost) : Records host₀ [] host₀ :=
  ⟨rfl, rfl, ⟨rfl, by simp⟩, ⟨rfl, by simp⟩, ⟨rfl, by simp⟩, ⟨rfl, by simp⟩, ⟨rfl, by simp⟩, rfl⟩

/-- One more request that has room, and the records. -/
theorem Records.step {ops : List HostOp} {host' : MockedHost} {answer : op.Answer}
    (h : Records host₀ ops host) (hroom : host.HasRoom op)
    (hserve : op.serve host = .ok answer host') :
    Records host₀ (ops ++ [op]) host' := by
  have hnew : host' = { host.extended op with accounts := host'.accounts } :=
    (serve_extended hroom).of_ok hserve
  -- A record without a limit grows by the operation.
  have hgrown : ∀ {α : Type} {old v : CVec α} {f : HostOp → Option α},
      Grown old v (ops.filterMap f) → Grown old (v.extend? (f op)) ((ops ++ [op]).filterMap f) := by
    intro α old v f hv
    refine ⟨(CVec.extend?_block v _).trans hv.block, ?_⟩
    rw [CVec.extend?_items, hv.items, filterMap_concat, List.append_assoc]
  -- One with a limit grows while there is room.
  have htaken : ∀ {α : Type} {old v : CVec α} {f : HostOp → Option α} {max : Nat},
      Grown old v ((ops.filterMap f).take (max - old.size)) →
      Grown old (v.extendIf (v.size < max) (f op))
        (((ops ++ [op]).filterMap f).take (max - old.size)) := by
    intro α old v f max hv
    refine ⟨(CVec.extendIf_block v _ _).trans hv.block, ?_⟩
    rw [CVec.extendIf_take _ hv.items, filterMap_concat]
  have haccesses := htaken h.accesses
  have hcalls := htaken h.calls
  rw [← h.maxAccesses] at haccesses
  rw [← h.maxCalls] at hcalls
  rw [hnew]
  exact ⟨h.maxAccesses, h.maxCalls, h.maxAccesses ▸ haccesses, hgrown h.logs,
    hgrown h.selfdestructs, hgrown h.blockhashes, h.maxCalls ▸ hcalls,
    (CVec.extendIf_block _ _ _).trans h.inputs⟩

/-- Before the first request, the storage is that of the host. -/
theorem Stored.init (h : host₀.Valid) : Stored host₀ [] host₀ :=
  ⟨h, rfl, Iff.rfl, (fun _ _ _ hlast => by cases hlast), fun _ _ _ => rfl⟩

/-- A request that writes no value, and keeps the values of all records. -/
theorem Stored.keep {ops : List HostOp} {host' : MockedHost} (h : Stored host₀ ops host)
    (hop : ∀ addr key, op.written? addr key = none) (hvalid : host'.Valid)
    (hblock : host'.accounts.block = host.accounts.block)
    (hsize : host'.accounts.size = 0 ↔ host.accounts.size = 0)
    (hrecord : ∀ addr key sv, host.record addr key = some sv →
      ∃ sv', host'.record addr key = some sv' ∧ sv'.value = sv.value)
    (hvalue : ∀ addr key, host'.storedValue addr key = host.storedValue addr key) :
    Stored host₀ (ops ++ [op]) host' := by
  have hlast : ∀ addr key, lastWritten (ops ++ [op]) addr key = lastWritten ops addr key :=
    fun addr key => by rw [lastWritten_concat, hop, Option.none_or]
  refine ⟨hvalid, hblock.trans h.block, hsize.trans h.size, fun addr key value hwritten => ?_,
    fun addr key hnone => ?_⟩
  · rw [hlast] at hwritten
    obtain ⟨sv, hsv, rfl⟩ := h.present addr key value hwritten
    exact hrecord addr key sv hsv
  · rw [hlast] at hnone
    exact (hvalue addr key).trans (h.others addr key hnone)

/-- One more request that has room, and the storage. -/
theorem Stored.step {ops : List HostOp} {host' : MockedHost} {answer : op.Answer}
    (h : Stored host₀ ops host) (hroom : host.HasRoom op)
    (hserve : op.serve host = .ok answer host') :
    Stored host₀ (ops ++ [op]) host' := by
  -- Only an access to a slot and a write change the accounts.
  cases hwrites : op.writesAccounts with
  | false =>
      have hop : ∀ addr key, op ≠ .accessStorage addr key := fun addr key heq => by
        rw [heq] at hwrites
        cases hwrites
      have haccounts := ((serve_leaves hop host).of_ok hserve).accounts hwrites
      have hrecord : ∀ addr key, host'.record addr key = host.record addr key := fun addr key => by
        unfold record
        rw [haccounts]
      refine h.keep (fun addr key => ?_) ⟨haccounts ▸ h.valid.accounts, haccounts ▸ h.valid.storage⟩
        (by rw [haccounts]) (by rw [haccounts]) (fun addr key sv hsv => ⟨sv, ?_, rfl⟩)
        fun addr key => ?_
      · cases op with
        | setStorage addr' key' value => cases hwrites
        | _ => rfl
      · rw [hrecord, hsv]
      · unfold storedValue
        rw [hrecord]
  | true =>
      cases op with
      | accessStorage addr key =>
          -- The access may make the account and the slot, in maps that are not moved.
          obtain ⟨htells, hextend⟩ := hroom.accepts addr key rfl
          obtain ⟨accounts, hok, hvalid, -, hrecord⟩ := h.valid.accessStorage htells hextend
          obtain ⟨-, rfl⟩ := EStateM.Result.ok.inj (hok.symm.trans hserve)
          have hplace : accounts.block = host.accounts.block ∧
              (accounts.size = 0 ↔ host.accounts.size = 0) := by
            refine (Sat.of_ok (sat_accessStorage (Q := fun m => m.block = host.accounts.block ∧
              (m.size = 0 ↔ host.accounts.size = 0)) (fun _ _ _ hm => hm) ⟨rfl, Iff.rfl⟩
              fun m hcontains hinsert => ?_) hok).2
            obtain ⟨hne, hlimit⟩ := hroom.account addr key rfl hcontains
            obtain ⟨hblock, hsize⟩ := CMap.insert_inPlace hlimit h.valid.accounts.bound hinsert
            exact ⟨hblock, by omega⟩
          -- Where the slot was made, it has the value that it is read as without one.
          refine h.keep (fun _ _ => rfl) hvalid hplace.1 hplace.2 (fun addr' key' sv hsv => ?_)
            fun addr' key' => ?_
          · rw [hrecord]
            split
            case isTrue hpair =>
              rw [hpair.1, hpair.2, hsv]
              exact ⟨_, rfl, rfl⟩
            case isFalse => exact ⟨sv, hsv, rfl⟩
          · unfold storedValue
            rw [hrecord]
            split
            case isTrue hpair =>
              rw [hpair.1, hpair.2]
              rfl
            case isFalse => rfl
      | setStorage addr key value =>
          -- The write changes the value of a slot that is there.
          obtain ⟨htells, hdistinct⟩ := hroom.written addr key value rfl
          cases hslot : host.slot addr key with
          | none => exact ((sat_setStorage_of_slot hslot).of_ok hserve).elim
          | some slot =>
          obtain ⟨acc, old, hfinds⟩ := finds_of_slot hslot
          obtain ⟨haddr, hkey⟩ := hfinds.own h.valid htells
          have hrecord := hfinds.record h.valid
          rw [haddr, hkey] at hrecord
          have hvalue : host.storedValue addr key = old.second.value := by
            unfold storedValue
            rw [hrecord, Option.getD_some]
          rw [hvalue] at hdistinct
          -- A value that compares as equal is not written; it is then the same one.
          have hset : Sat (MockedHost.setStorage addr key value) host (fun _ host' => host'.Valid ∧
              host'.accounts.block = host.accounts.block ∧
              host'.accounts.size = host.accounts.size ∧ ∃ sv, sv.value = value ∧
              ∀ addr' key', host'.record addr' key' =
                if addr = addr' ∧ key = key' then some sv else host.record addr' key')
              fun _ _ => True := by
            refine hfinds.sat_setStorage.2 ⟨fun hcmp => ?_, fun _ => ?_⟩
            · refine ⟨⟨h.valid.accounts, h.valid.storage⟩, rfl, rfl, old.second, hdistinct hcmp,
                fun addr' key' => ?_⟩
              split
              case isTrue hpair =>
                rw [← hpair.1, ← hpair.2]
                exact hrecord
              case isFalse => rfl
            · obtain ⟨hvalid, hwritten⟩ := hfinds.record_writeEntry h.valid
                { old.second with value := value, dirty := true }
              rw [haddr, hkey] at hwritten
              exact ⟨hvalid, rfl, rfl, _, rfl, hwritten⟩
          obtain ⟨hvalid, hblock, hsize, sv, hsv, hrecords⟩ := hset.of_ok hserve
          refine ⟨hvalid, hblock.trans h.block, hsize ▸ h.size, fun addr' key' value' hlast => ?_,
            fun addr' key' hlast => ?_⟩
          -- The slot that is written has the last value, and the others have theirs.
          · rw [lastWritten_concat, HostOp.written?] at hlast
            rw [hrecords]
            split
            case isTrue hpair =>
              rw [if_pos ⟨hpair.1.symm, hpair.2.symm⟩, Option.some_or] at hlast
              exact ⟨sv, rfl, hsv.trans (Option.some.inj hlast)⟩
            case isFalse hpair =>
              rw [if_neg fun heq => hpair ⟨heq.1.symm, heq.2.symm⟩, Option.none_or] at hlast
              exact h.present addr' key' value' hlast
          · rw [lastWritten_concat, HostOp.written?] at hlast
            unfold storedValue
            rw [hrecords]
            split
            case isTrue hpair =>
              rw [if_pos ⟨hpair.1.symm, hpair.2.symm⟩, Option.some_or] at hlast
              cases hlast
            case isFalse hpair =>
              rw [if_neg fun heq => hpair ⟨heq.1.symm, heq.2.symm⟩, Option.none_or] at hlast
              exact h.others addr' key' hlast
      | _ => cases hwrites

/-- The records and the storage behind requests that all have room. -/
theorem answers_shown (hvalid : host₀.Valid) {ops : List HostOp} (h : Answers host₀ ops host)
    (hroom : EachHasRoom host₀ ops) : Records host₀ ops host ∧ Stored host₀ ops host := by
  induction h with
  | nil => exact ⟨.init host₀, .init hvalid⟩
  | @snoc ops host host' op answer hanswers hserve ih =>
      obtain ⟨hrecords, hstored⟩ := ih hroom.init
      have hop := hroom ops op [] host rfl hanswers
      exact ⟨hrecords.step hop hserve, hstored.step hop hserve⟩

end MockedHost

/-! ### The caller's object -/

/-- The object `seen` shows the effects of the requests, from `old` on: `get_storage` returns the last
value written for each pair, the other pairs have the values of before, and the records have got an
item for each request, up to their maxima. -/
structure Reflects (old : MockedHost) (ops : List HostOp) (seen : MockedHost) : Prop where
  written : ∀ addr key value, MockedHost.lastWritten ops addr key = some value →
    seen.storageAt addr key = .ok value
  others : ∀ addr key, MockedHost.lastWritten ops addr key = none →
    seen.storedValue addr key = old.storedValue addr key
  logs : seen.recordedLogs.items = old.recordedLogs.items ++ ops.filterMap HostOp.log?
  selfdestructs : seen.recordedSelfdestructs.items =
    old.recordedSelfdestructs.items ++ ops.filterMap HostOp.destruct?
  calls : seen.recordedCalls.items = old.recordedCalls.items ++
    (ops.filterMap HostOp.call?).take (old.maxRecordedCalls - old.recordedCalls.size)
  blockhashes : seen.recordedBlockhashes.items =
    old.recordedBlockhashes.items ++ ops.filterMap HostOp.number?
  accesses : seen.recordedAccountAccesses.items = old.recordedAccountAccesses.items ++
    (ops.filterMap HostOp.recorded?).take
      (old.maxRecordedAccountAccesses - old.recordedAccountAccesses.size)

/-- The caller's object `old` shows what the run that has left the state `s` did, and a second run
with it starts from the storage of the first one. -/
def ShowsRun (old : MockedHost) (s : ExecutionState) : Prop :=
  ∃ seen, s.hostCtx.seenFrom old = some seen ∧ Reflects old (requests s.trace) seen ∧
    ∀ (_ : Env) rev msg code addr key, (initialState rev seen msg code).estate.hostCtx.storageAt addr
      key = s.hostCtx.storageAt addr key

namespace MockedHost

variable {host host₀ : MockedHost} {ops : List HostOp}

/-- The object that the caller sees when no container has moved. -/
theorem seenFrom_of_records (hrecords : Records host₀ ops host) (hstored : Stored host₀ ops host) :
    ∃ seen, host.seenFrom host₀ = some seen ∧
      seen.accounts = { host.accounts with size := host₀.accounts.size } ∧
      seen.recordedLogs = host.recordedLogs ∧
      seen.recordedSelfdestructs = host.recordedSelfdestructs ∧
      seen.recordedCalls = host.recordedCalls ∧
      seen.recordedBlockhashes = host.recordedBlockhashes ∧
      seen.recordedAccountAccesses = host.recordedAccountAccesses := by
  have hvector : ∀ {α : Type} {v old : CVec α}, v.block = old.block → v.seenFrom old = some v :=
    fun h => if_pos h
  have haccounts : host.accounts.seenFrom host₀.accounts =
      some { host.accounts with size := host₀.accounts.size } := if_pos hstored.block
  unfold seenFrom
  rw [haccounts, hvector hrecords.blockhashes.block, hvector hrecords.accesses.block,
    hvector hrecords.calls.block, hvector hrecords.logs.block, hvector hrecords.selfdestructs.block,
    hvector hrecords.inputs]
  exact ⟨_, rfl, rfl, rfl, rfl, rfl, rfl, rfl⟩

/-- When the requests all have room, the caller's object shows their effects. -/
theorem reflects_of_answers (hvalid : host₀.Valid) (h : Answers host₀ ops host)
    (hroom : EachHasRoom host₀ ops) : ∃ seen, host.seenFrom host₀ = some seen ∧
      Reflects host₀ ops seen ∧ ∀ addr key, seen.storageAt addr key = host.storageAt addr key := by
  obtain ⟨hrecords, hstored⟩ := answers_shown hvalid h hroom
  obtain ⟨seen, hseen, haccounts, hlogs, hselfdestructs, hcalls, hblockhashes, haccesses⟩ :=
    seenFrom_of_records hrecords hstored
  -- The accounts of the second host are a copy in another array of buckets.
  have hread : ∀ addr key, seen.storageAt addr key = host.storageAt addr key := fun addr key => by
    rw [storageAt_eq, storageAt_eq, haccounts, CMap.find_resize hstored.size]
  have hvalue : ∀ addr key, seen.storedValue addr key = host.storedValue addr key := by
    intro addr key
    unfold storedValue record
    rw [haccounts]
    rfl
  refine ⟨seen, hseen, ⟨fun addr key value hlast => ?_, fun addr key hnone => ?_, ?_, ?_, ?_, ?_, ?_⟩,
    hread⟩
  · obtain ⟨sv, hsv, rfl⟩ := hstored.present addr key value hlast
    rw [hread, hstored.valid.storageAt hsv]
  · exact (hvalue addr key).trans (hstored.others addr key hnone)
  · rw [hlogs, hrecords.logs.items]
  · rw [hselfdestructs, hrecords.selfdestructs.items]
  · rw [hcalls, hrecords.calls.items]
  · rw [hblockhashes, hrecords.blockhashes.items]
  · rw [haccesses, hrecords.accesses.items]

end MockedHost

end TscVee
