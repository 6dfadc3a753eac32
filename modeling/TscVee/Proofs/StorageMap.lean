import TscVee.Proofs.HostRules

/-!
# `TscVee.Proofs.StorageMap`: what `set_storage` leaves for `get_storage`

`set_storage` writes through a pointer into a bucket of the account's map, and `get_storage`
reads through a pointer into such a bucket. A write through the pointer changes neither the keys
nor the tags, so every search of the maps ends where it ended before
(`CMap.lookupIdx_setSecond`). What the two functions do is therefore decided by the buckets where
the searches end (`MockedHost.slot`):

* the searches for the address and for the key must find something, because
  `account_map_get_mut` and `storage_map_get_mut` create nothing;
* the comparison with the old value is a `strcmp`, so it must not take two values for one;
* the keys are compared with `strcmp` as well, so no second pair of address and key may end in
  the same bucket.

`setStorage_stores_iff` says that these are the only conditions.
-/

set_option autoImplicit false

namespace TscVee

open Lib

/-! ### Writes through a pointer into a bucket -/

namespace CMap

variable {κ ν : Type}

/-- The bucket that is updated, and the others. -/
theorem at?_setSecond (m : CMap κ ν) (i j : Nat) (x : ν) :
    (m.setSecond i x).at? j =
      if i = j then (m.at? j).map fun b => { b with second := x } else m.at? j := by
  simp only [at?, setSecond, List.getD_eq_getElem?_getD, List.getElem?_modify]
  cases m.buckets[j]? with
  | none => split <;> rfl
  | some b => split <;> rfl

/-- The bucket that is updated keeps its key. -/
theorem at?_setSecond_self {m : CMap κ ν} {i : Nat} {b : Bucket κ ν} (h : m.at? i = some b)
    (x : ν) : (m.setSecond i x).at? i = some { b with second := x } := by
  rw [at?_setSecond, if_pos rfl, h, Option.map_some]

/-- The other buckets stay. -/
theorem at?_setSecond_ne {m : CMap κ ν} {i j : Nat} (h : i ≠ j) (x : ν) :
    (m.setSecond i x).at? j = m.at? j := by
  rw [at?_setSecond, if_neg h]

variable [MapKey κ]

/-- A search goes by the keys and the tags only. -/
theorem probe_setSecond (m : CMap κ ν) (i : Nat) (x : ν) (rkey : κ) (fuel idx : Nat) :
    probe (m.setSecond i x).buckets rkey fuel idx = probe m.buckets rkey fuel idx := by
  induction fuel generalizing idx with
  | zero => rfl
  | succ fuel ih =>
      have hlength : (m.setSecond i x).buckets.length = m.buckets.length := List.length_modify ..
      have hat := at?_setSecond m i idx x
      unfold at? at hat
      unfold probe
      rw [hat, hlength, ih]
      cases m.buckets.getD idx none with
      | none => rw [Option.map_none, ite_self]
      | some b =>
          by_cases hi : i = idx
          · rw [if_pos hi]
            rfl
          · rw [if_neg hi]

/-- The search reads the keys only. -/
theorem lookupIdx_setSecond (m : CMap κ ν) (i : Nat) (x : ν) (rkey : κ) :
    (m.setSecond i x).lookupIdx rkey = m.lookupIdx rkey := by
  have hlength : (m.setSecond i x).buckets.length = m.buckets.length := List.length_modify ..
  have hsome : ∀ j, ((m.setSecond i x).at? j).isSome = (m.at? j).isSome := fun j => by
    rw [at?_setSecond]
    split
    · exact Option.isSome_map
    · rfl
  unfold lookupIdx bucket
  simp only [hlength, probe_setSecond, hsome]
  rfl

/-- A search that finds something ends at an occupied bucket. -/
theorem at?_of_lookupIdx {m : CMap κ ν} {rkey : κ} {i : Nat}
    (h : m.lookupIdx rkey = some (some i)) : ∃ b, m.at? i = some b := by
  unfold lookupIdx at h
  split at h
  · cases h
  obtain ⟨idx, -, hidx⟩ := Option.map_eq_some_iff.1 h
  split at hidx
  · cases hidx
    exact Option.isSome_iff_exists.1 ‹_›
  · cases hidx

/-- A search stops at a bucket only for its own key, as the tags and `cmp` take it. -/
theorem holds_of_probe {buckets : List (Option (Bucket κ ν))} {rkey : κ} {fuel idx i : Nat}
    {b : Bucket κ ν} (h : probe buckets rkey fuel idx = some i)
    (hb : buckets.getD i none = some b) : Bucket.holds b rkey = true := by
  induction fuel generalizing idx with
  | zero => cases h
  | succ fuel ih =>
      unfold probe at h
      split at h
      · cases h
        simp_all
      · split at h
        · cases h
          simp_all
        · exact ih h

/-- The bucket that a search ends at holds the key. -/
theorem holds_of_lookupIdx {m : CMap κ ν} {rkey : κ} {i : Nat} {b : Bucket κ ν}
    (h : m.lookupIdx rkey = some (some i)) (hb : m.at? i = some b) : Bucket.holds b rkey = true := by
  unfold lookupIdx at h
  split at h
  · cases h
  obtain ⟨idx, hprobe, hidx⟩ := Option.map_eq_some_iff.1 h
  split at hidx
  · cases hidx
    exact holds_of_probe hprobe hb
  · cases hidx

/-- Keys that are found in the updated bucket get the new value. -/
theorem find_setSecond (m : CMap κ ν) (i : Nat) (x : ν) (rkey : κ) :
    (m.setSecond i x).find rkey =
      if m.lookupIdx rkey = some (some i) then some (some x) else m.find rkey := by
  unfold find
  rw [lookupIdx_setSecond]
  split
  case isTrue h =>
    obtain ⟨b, hb⟩ := at?_of_lookupIdx h
    simp [h, at?_setSecond_self hb]
  case isFalse h =>
    cases hlookup : m.lookupIdx rkey with
    | none => rfl
    | some o =>
        cases o with
        | none => rfl
        | some j =>
            have hne : i ≠ j := fun heq => h (by rw [hlookup, heq])
            simp only [Option.map_some, Option.bind_some, at?_setSecond_ne hne]

/-- A search that finds something returns what is in the bucket. -/
theorem find_of_lookupIdx {m : CMap κ ν} {rkey : κ} {i : Nat} {b : Bucket κ ν}
    (h : m.lookupIdx rkey = some (some i)) (hb : m.at? i = some b) :
    m.find rkey = some (some b.second) := by
  unfold find
  rw [h, Option.map_some, Option.bind_some, hb, Option.map_some]

end CMap

/-! ### The slot of a pair of address and key -/

namespace MockedHost

/-- The buckets where the searches for the address and for the key end: the ones that
`account_map_get_mut` and `storage_map_get_mut` return pointers to. -/
def slot (host : MockedHost) (addr : Address) (key : Bytes32) : Option (Nat × Nat) := do
  let accIdx ← (host.accounts.lookupIdx addr).join
  let acc ← (host.accounts.at? accIdx).map (·.second)
  let idx ← (acc.storage.lookupIdx key).join
  return (accIdx, idx)

/-- What `get_storage` returns, or how it fails. -/
def storageAt (host : MockedHost) (addr : Address) (key : Bytes32) : Except Fault Bytes32 :=
  match getStorage addr key host with
  | .ok value _ => .ok value
  | .error f _ => .error f

/-- The searches for the address and for the key end at the entry `old` of the account `acc`. -/
structure Finds (host : MockedHost) (addr : Address) (key : Bytes32) (slot : Nat × Nat)
    (acc : Bucket Address MockedAccount) (old : Bucket Bytes32 StorageValue) : Prop where
  account : host.accounts.lookupIdx addr = some (some slot.1)
  accountAt : host.accounts.at? slot.1 = some acc
  entry : acc.second.storage.lookupIdx key = some (some slot.2)
  entryAt : acc.second.storage.at? slot.2 = some old

variable {host : MockedHost} {addr : Address} {key value : Bytes32} {slot : Nat × Nat}
  {acc : Bucket Address MockedAccount} {old : Bucket Bytes32 StorageValue}

/-- A slot is in the storage of an account that is found. -/
theorem finds_of_slot (h : host.slot addr key = some slot) :
    ∃ acc old, host.Finds addr key slot acc old := by
  unfold MockedHost.slot at h
  obtain ⟨i, hi, h⟩ := Option.bind_eq_some_iff.1 h
  obtain ⟨a, ha, h⟩ := Option.bind_eq_some_iff.1 h
  obtain ⟨j, hj, h⟩ := Option.bind_eq_some_iff.1 h
  cases h
  obtain ⟨acc, hacc, rfl⟩ := Option.map_eq_some_iff.1 ha
  have hentry := Option.join_eq_some_iff.1 hj
  obtain ⟨old, hold⟩ := CMap.at?_of_lookupIdx hentry
  exact ⟨acc, old, Option.join_eq_some_iff.1 hi, hacc, hentry, hold⟩

namespace Finds

/-- And what is found there is the slot. -/
theorem slot_eq (h : host.Finds addr key slot acc old) : host.slot addr key = some slot := by
  unfold MockedHost.slot
  simp only [h.account, h.accountAt, h.entry, Option.join_some, Option.map_some, Option.bind_some,
    Option.bind_eq_bind]
  rfl

end Finds

/-- The host with the entry in a slot written. -/
def writeEntry (host : MockedHost) (slot : Nat × Nat) (acc : MockedAccount) (entry : StorageValue) :
    MockedHost :=
  { host with
    accounts := host.accounts.setSecond slot.1
      { acc with storage := acc.storage.setSecond slot.2 entry } }

/-- What `get_storage` makes of the outcome of its two searches. -/
def readFound (found : Option (Option MockedAccount)) (key : Bytes32) : Except Fault Bytes32 :=
  found.elim (.error .diverges) fun acc? => acc?.elim (.ok zeroBytes32) fun acc =>
    (acc.storage.find key).elim (.error .diverges) fun sv? => .ok (sv?.elim zeroBytes32 (·.value))

/-- A read of the storage, from what the search for the account gives. -/
theorem storageAt_eq (host : MockedHost) (addr : Address) (key : Bytes32) :
    host.storageAt addr key = readFound (host.accounts.find addr) key := by
  have h : Sat (getStorage addr key) host
      (fun value _ => readFound (host.accounts.find addr) key = .ok value)
      fun f _ => readFound (host.accounts.find addr) key = .error f := by
    have haccounts : (host.recorded addr).accounts = host.accounts := rfl
    unfold getStorage
    simp only [sat_bind, sat_recordAccountAccess, sat_findAccount, haccounts]
    cases host.accounts.find addr with
    | none => rfl
    | some acc? =>
        cases acc? with
        | none => rfl
        | some acc =>
            simp only [sat_bind, sat_probing]
            cases hfind : acc.storage.find key with
            | none => simp [readFound, hfind]
            | some sv? => cases sv? <;> simp [readFound, hfind, sat_pure]
  unfold storageAt
  unfold Sat at h
  split at h <;> simp_all

/-- The value at a slot that is found. -/
theorem Finds.storageAt (h : host.Finds addr key slot acc old) :
    host.storageAt addr key = .ok old.second.value := by
  rw [storageAt_eq, CMap.find_of_lookupIdx h.account h.accountAt, readFound, Option.elim_some,
    Option.elim_some, CMap.find_of_lookupIdx h.entry h.entryAt]
  rfl

/-- The address and the key that lead to an entry have its tags and compare equal with its keys: up
to the first zero byte they are the same. -/
theorem Finds.holds (h : host.Finds addr key slot acc old) :
    CMap.Bucket.holds acc addr = true ∧ CMap.Bucket.holds old key = true :=
  ⟨CMap.holds_of_lookupIdx h.account h.accountAt, CMap.holds_of_lookupIdx h.entry h.entryAt⟩

/-- A pair of address and key that leads to the same slot reads the same entry. -/
theorem Finds.storageAt_of_slot (h : host.Finds addr key slot acc old) {addr' : Address}
    {key' : Bytes32} (hslot : host.slot addr' key' = some slot) :
    host.storageAt addr' key' = .ok old.second.value := by
  obtain ⟨acc', old', h'⟩ := finds_of_slot hslot
  obtain rfl : acc' = acc := Option.some.inj (h'.accountAt.symm.trans h.accountAt)
  obtain rfl : old' = old := Option.some.inj (h'.entryAt.symm.trans h.entryAt)
  exact h'.storageAt

/-- After an entry is written, the pairs of address and key whose searches end there read it, and
the others read what they read before. -/
theorem Finds.storageAt_writeEntry (h : host.Finds addr key slot acc old) (entry : StorageValue)
    (addr' : Address) (key' : Bytes32) :
    ((host.recorded addr).writeEntry slot acc.second entry).storageAt addr' key' =
      if host.slot addr' key' = some slot then .ok entry.value else host.storageAt addr' key' := by
  rw [storageAt_eq, storageAt_eq]
  show readFound ((host.accounts.setSecond slot.1 _).find addr') key' = _
  rw [CMap.find_setSecond]
  by_cases hacc : host.accounts.lookupIdx addr' = some (some slot.1)
  case neg =>
    have hslot : host.slot addr' key' ≠ some slot := fun heq => by
      obtain ⟨_, _, hfinds⟩ := finds_of_slot heq
      exact hacc hfinds.account
    rw [if_neg hacc, if_neg hslot]
  rw [if_pos hacc, CMap.find_of_lookupIdx hacc h.accountAt]
  simp only [readFound, Option.elim_some, CMap.find_setSecond]
  by_cases hentry : acc.second.storage.lookupIdx key' = some (some slot.2)
  · have hfinds : host.Finds addr' key' slot acc old := ⟨hacc, h.accountAt, hentry, h.entryAt⟩
    rw [if_pos hentry, if_pos hfinds.slot_eq]
    rfl
  · have hslot : host.slot addr' key' ≠ some slot := fun heq => by
      obtain ⟨acc', _, hfinds⟩ := finds_of_slot heq
      have hsame : acc = acc' := Option.some.inj (h.accountAt.symm.trans hfinds.accountAt)
      exact hentry (hsame ▸ hfinds.entry)
    rw [if_neg hentry, if_neg hslot]

/-- What `get_storage` returns does not depend on the records. -/
theorem storageAt_recorded (host : MockedHost) (addr addr' : Address) (key : Bytes32) :
    (host.recorded addr').storageAt addr key = host.storageAt addr key := by
  rw [storageAt_eq, storageAt_eq]
  rfl

/-! ### `set_storage` -/

section
variable (h : host.Finds addr key slot acc old)

include h

/-- A write to a slot that is found: nothing but the record of the access when the value compares as
equal, else the entry and a status from the old entry. -/
theorem Finds.sat_setStorage {Q : StorageStatus → MockedHost → Prop} {E : Fault → MockedHost → Prop} :
    Sat (setStorage addr key value) host Q E ↔
      (MapKey.cmp old.second.value value = 0 → Q .unchanged (host.recorded addr)) ∧
      (MapKey.cmp old.second.value value ≠ 0 → Q (storageStatus old.second value)
        ((host.recorded addr).writeEntry slot acc.second
          { old.second with value := value, dirty := true })) := by
  have hacc : (host.recorded addr).accounts.lookupIdx addr = some (some slot.1) := h.account
  have haccAt : (host.recorded addr).accounts.at? slot.1 = some acc := h.accountAt
  unfold setStorage
  simp only [sat_bind, sat_recordAccountAccess, sat_get, sat_probing, sat_deref, hacc,
    haccAt, h.entry,
    h.entryAt, Option.map_some, sat_ite, sat_pure, sat_set]
  rfl

/-- The comparison takes the new value for the old one. -/
theorem Finds.setStorage_unchanged (hcmp : MapKey.cmp old.second.value value = 0) :
    setStorage addr key value host = .ok .unchanged (host.recorded addr) := by
  have hsat : Sat (setStorage addr key value) host
      (fun status host' => status = .unchanged ∧ host' = host.recorded addr) fun _ _ => False :=
    h.sat_setStorage.2 ⟨fun _ => ⟨rfl, rfl⟩, fun hne => absurd hcmp hne⟩
  obtain ⟨_, _, hok, rfl, rfl⟩ := hsat.exists_ok
  exact hok

/-- The new value is written through the pointer. -/
theorem Finds.setStorage_changed (hcmp : MapKey.cmp old.second.value value ≠ 0) :
    ∃ status, setStorage addr key value host = .ok status
      ((host.recorded addr).writeEntry slot acc.second
        { old.second with value := value, dirty := true }) := by
  have hsat : Sat (setStorage addr key value) host
      (fun _ host' => host' = (host.recorded addr).writeEntry slot acc.second
        { old.second with value := value, dirty := true }) fun _ _ => False :=
    h.sat_setStorage.2 ⟨fun heq => absurd heq hcmp, fun _ => rfl⟩
  obtain ⟨status, _, hok, rfl⟩ := hsat.exists_ok
  exact ⟨status, hok⟩

end

/-- Without an entry to point to, the pointer is `NULL`, or a search does not end. -/
theorem sat_setStorage_of_slot (h : host.slot addr key = none) :
    Sat (setStorage addr key value) host (fun _ _ => False) fun _ _ => True := by
  have haccounts : (host.recorded addr).accounts = host.accounts := rfl
  unfold setStorage
  simp only [sat_bind, sat_recordAccountAccess, sat_get, sat_probing, haccounts]
  unfold slot at h
  cases hacc : host.accounts.lookupIdx addr with
  | none => trivial
  | some i? =>
      cases i? with
      | none => simp only [sat_deref]
      | some i =>
          obtain ⟨acc, haccAt⟩ := CMap.at?_of_lookupIdx hacc
          simp only [sat_deref, haccAt, Option.map_some]
          cases hentry : acc.second.storage.lookupIdx key with
          | none => trivial
          | some j? =>
              cases j? with
              | none => simp only
              | some j => simp [hacc, haccAt, hentry] at h

/-- After `set_storage` succeeds, `get_storage` returns the value for the pair of address and key,
and what it returned before for all others. -/
def Stores (host : MockedHost) (addr : Address) (key value : Bytes32) : Prop :=
  ∃ status host', setStorage addr key value host = .ok status host' ∧
    host'.storageAt addr key = .ok value ∧
    ∀ addr' key', (addr', key') ≠ (addr, key) →
      host'.storageAt addr' key' = host.storageAt addr' key'

/-- The searches end at an entry. Unless it holds the value already, `strcmp` takes the two values
apart, and no other pair of address and key leads to the entry. -/
def Storable (host : MockedHost) (addr : Address) (key value : Bytes32) : Prop :=
  ∃ slot old, host.slot addr key = some slot ∧ host.storageAt addr key = .ok old ∧
    (old ≠ value → MapKey.cmp old value ≠ 0 ∧
      ∀ addr' key', host.slot addr' key' = some slot → (addr', key') = (addr, key))

/-- `set_storage` stores the value if and only if there is an entry for it, and neither `strcmp`
mistakes it for the old one nor does the entry belong to a second key. -/
theorem setStorage_stores_iff (host : MockedHost) (addr : Address) (key value : Bytes32) :
    host.Stores addr key value ↔ host.Storable addr key value := by
  constructor
  · rintro ⟨status, host', hset, hsame, hother⟩
    cases hslot : host.slot addr key with
    | none => exact ((sat_setStorage_of_slot hslot).of_ok hset).elim
    | some slot =>
    obtain ⟨acc, old, hfinds⟩ := finds_of_slot hslot
    refine ⟨slot, _, hslot, hfinds.storageAt, fun hne => ?_⟩
    by_cases hcmp : MapKey.cmp old.second.value value = 0
    · -- the old value stays
      obtain ⟨-, rfl⟩ := EStateM.Result.ok.inj (hset.symm.trans (hfinds.setStorage_unchanged hcmp))
      rw [storageAt_recorded, hfinds.storageAt] at hsame
      exact absurd (Except.ok.inj hsame) hne
    · refine ⟨hcmp, fun addr' key' hslot' => by_contra fun hpair => ?_⟩
      -- the other pair reads the new value now
      obtain ⟨_, hok⟩ := hfinds.setStorage_changed hcmp
      obtain ⟨-, rfl⟩ := EStateM.Result.ok.inj (hset.symm.trans hok)
      have hread := hother addr' key' hpair
      rw [hfinds.storageAt_writeEntry, if_pos hslot', hfinds.storageAt_of_slot hslot'] at hread
      exact hne (Except.ok.inj hread).symm
  · rintro ⟨slot, value', hslot, hvalue', happart⟩
    obtain ⟨acc, old, hfinds⟩ := finds_of_slot hslot
    rw [hfinds.storageAt] at hvalue'
    obtain rfl := Except.ok.inj hvalue'
    by_cases hcmp : MapKey.cmp old.second.value value = 0
    · have hsame : old.second.value = value := by_contra fun hne => (happart hne).1 hcmp
      refine ⟨_, _, hfinds.setStorage_unchanged hcmp, ?_, fun addr' key' _ => storageAt_recorded ..⟩
      rw [storageAt_recorded, hfinds.storageAt, hsame]
    · obtain ⟨status, hok⟩ := hfinds.setStorage_changed hcmp
      refine ⟨status, _, hok, ?_, fun addr' key' hpair => ?_⟩
      · rw [hfinds.storageAt_writeEntry, if_pos hslot]
      · rw [hfinds.storageAt_writeEntry]
        split
        case isFalse => rfl
        case isTrue hslot' =>
          -- only an entry that holds the value already has a second key
          have hsame : old.second.value = value :=
            by_contra fun hne => hpair ((happart hne).2 addr' key' hslot')
          rw [hfinds.storageAt_of_slot hslot', hsame]

/-- The value 1 as a big-endian word: its first byte is 0. -/
def oneBytes32 : Bytes32 := Vector.ofFn fun i => if i = 31 then 1 else 0

/-- On a fresh host there is nothing to write to; and after `access_storage` has made an entry of
zeros, the value 1 counts as unchanged. -/
theorem setStorage_not_stores :
    (∃ addr key value, ¬ (mockedHostInit default).Stores addr key value) ∧
    ∃ addr key status host, accessStorage addr key (mockedHostInit default) = .ok status host ∧
      ¬ host.Stores addr key oneBytes32 := by
  constructor
  · refine ⟨u64ToAddr 0, zeroBytes32, zeroBytes32, ?_⟩
    rintro ⟨_, _, hset, -⟩
    exact (sat_setStorage_of_slot rfl).of_ok hset
  · have hruns : endsWith (· == zeroBytes32) (do
        let _ ← accessStorage (u64ToAddr 0) zeroBytes32
        let _ ← setStorage (u64ToAddr 0) zeroBytes32 oneBytes32
        getStorage (u64ToAddr 0) zeroBytes32) (mockedHostInit default) = true := by with_unfolding_all decide
    obtain ⟨read, host'', hrun, hread⟩ := exists_of_endsWith hruns
    obtain ⟨status, host, haccess, hrun⟩ := exists_of_bind hrun
    obtain ⟨status', host', hset, hget⟩ := exists_of_bind hrun
    refine ⟨_, _, status, host, haccess, ?_⟩
    rintro ⟨_, _, hset', hsame, -⟩
    obtain ⟨-, rfl⟩ := EStateM.Result.ok.inj (hset'.symm.trans hset)
    unfold storageAt at hsame
    rw [hget] at hsame
    rw [Except.ok.inj hsame] at hread
    revert hread
    decide

end MockedHost

end TscVee
