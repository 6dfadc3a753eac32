import TscVee.Proofs.MapEntries

/-!
# `TscVee.Proofs.HostStorage`: the storage records of the host

With maps that can tell their keys, the host keeps a partial function from pairs of address and key
to storage records (`MockedHost.record`). `access_storage` makes the record of its pair if there is
none, and marks it warm (`Valid.accessStorage`).
-/

set_option autoImplicit false

namespace TscVee

open Lib CMap

namespace CMap

variable {κ ν : Type} [MapKey κ] [LawfulMapKey κ] [DecidableEq κ] {m : CMap κ ν} {key : κ}

/-- A map can tell a key if it is alike to none of its others. -/
theorem Valid.tells_iff (h : m.Valid) : m.Tells key ↔
    ∀ key' value, m.entry key' = some value → Alike key' key → key' = key := by
  constructor
  · intro htells key' value hentry halike
    obtain ⟨i, b, hb, rfl, -⟩ := binds_of_entry hentry
    exact htells b (mem_of_getD hb) halike
  · intro hentries b hb halike
    exact hentries b.first b.second (h.entry_eq_some_iff.2 (binds_of_mem hb)) halike

end CMap

namespace MockedHost

section
variable {α β : Type}

/-- A search that ends. -/
theorem probing_ok {o : Option α} {a : α} (h : o = some a) (host : MockedHost) :
    probing o host = .ok a host := by
  rw [h]
  rfl

/-- A pointer that is not `NULL`. -/
theorem deref_ok {o : Option α} {a : α} (h : o = some a) (host : MockedHost) :
    deref o host = .ok a host := by
  rw [h]
  rfl

/-- A branch in front of a program. -/
theorem ite_bind {c : Prop} [Decidable c] (x y : Host α) (f : α → Host β) :
    (if c then x else y) >>= f = if c then x >>= f else y >>= f := by
  split <;> rfl

end

section
variable {κ ν : Type} [MapKey κ]

/-- The map with an entry for the key, a new one if there is none. -/
def ensured (m : CMap κ ν) (key : κ) (value : ν) : Host (CMap κ ν) := do
  if ← probing (m.contains key) then pure m else probing (m.insert key value)

/-- An entry is found or made, and the others stay. -/
theorem ensured_ok [LawfulMapKey κ] [DecidableEq κ] {m : CMap κ ν} {key : κ} (h : m.Valid)
    (htells : m.Tells key) (hroom : m.entry key = none → m.Extendable) (value : ν)
    (host : MockedHost) : ∃ m', ensured m key value host = .ok m' host ∧ m'.Valid ∧
      ∀ key', m'.entry key' =
        if key = key' then some ((m.entry key).getD value) else m.entry key' := by
  have hcontains := probing_ok (h.contains htells) host
  unfold ensured
  cases hentry : m.entry key with
  -- A key that is there stays as it is; one that is not is inserted with the given value.
  | some old =>
      rw [hentry] at hcontains
      refine ⟨m, ok_bind hcontains rfl, h, fun key' => ?_⟩
      split
      case isTrue heq => rw [← heq, hentry, Option.getD_some]
      case isFalse => rfl
  | none =>
      rw [hentry] at hcontains
      obtain ⟨m', hinsert, hvalid, hentries⟩ :=
        h.insertEntry false htells hroom (Or.inl hentry) value
      refine ⟨m', ok_bind hcontains ?_, hvalid, hentries⟩
      rw [Option.isSome_none, if_neg Bool.false_ne_true]
      exact probing_ok hinsert host

end

/-- `access_storage`, with its two entries made by `ensured`. -/
theorem accessStorage_eq (addr : Address) (key : Bytes32) : accessStorage addr key = (do
    let host ← get
    let accounts ← ensured host.accounts addr mockedAccountInit
    set { host with accounts := accounts }
    let accIdx ← deref (← probing (accounts.lookupIdx addr))
    let acc ← deref ((accounts.at? accIdx).map (·.second))
    let storage ← ensured acc.storage key storageValueInit
    set { host with accounts := accounts.setSecond accIdx { acc with storage := storage } }
    let svalue ← deref (← probing (storage.find key))
    let storage ← probing (storage.insertOrAssign key { svalue with accessStatus := .warm })
    set { host with accounts := accounts.setSecond accIdx { acc with storage := storage } }
    return svalue.accessStatus) := by
  unfold accessStorage ensured
  simp only [bind_assoc, ite_bind]

variable {host : MockedHost} {addr : Address} {key : Bytes32}

/-- The maps of the host are valid. -/
structure Valid (host : MockedHost) : Prop where
  accounts : host.accounts.Valid
  storage : ∀ addr acc, host.accounts.entry addr = some acc → acc.storage.Valid

/-- The storage record of the pair. -/
def record (host : MockedHost) (addr : Address) (key : Bytes32) : Option StorageValue :=
  (host.accounts.entry addr).bind fun acc => acc.storage.entry key

/-- No other address of the host, and no other key of the account, is alike to this one. -/
structure Tells (host : MockedHost) (addr : Address) (key : Bytes32) : Prop where
  accounts : host.accounts.Tells addr
  storage : ∀ acc, host.accounts.entry addr = some acc → acc.storage.Tells key

/-- The maps have room for what `access_storage` makes. -/
structure Extendable (host : MockedHost) (addr : Address) (key : Bytes32) : Prop where
  accounts : host.accounts.entry addr = none → host.accounts.Extendable
  storage : ∀ acc, host.accounts.entry addr = some acc → acc.storage.entry key = none →
    acc.storage.Extendable

/-- The account under the address, a new one if there is none. -/
def account (host : MockedHost) (addr : Address) : MockedAccount :=
  (host.accounts.entry addr).getD mockedAccountInit

/-- The record of a slot is in the storage of its account. -/
theorem record_eq (host : MockedHost) (addr : Address) (key : Bytes32) :
    host.record addr key = (host.account addr).storage.entry key := by
  unfold record account
  cases host.accounts.entry addr with
  | none => rfl
  | some acc => rfl

/-- The storage of an account of a valid host is valid. -/
theorem Valid.account (h : host.Valid) (addr : Address) : (host.account addr).storage.Valid := by
  unfold MockedHost.account
  cases hentry : host.accounts.entry addr with
  | none => exact valid_init
  | some acc => exact h.storage addr acc hentry

/-- Keys that the host tells apart are told apart in the storage of the account. -/
theorem Tells.account (h : host.Tells addr key) : (host.account addr).storage.Tells key := by
  unfold MockedHost.account
  cases hentry : host.accounts.entry addr with
  | none => exact fun b hb => by cases hb
  | some acc => exact h.storage acc hentry

/-- Room for a new slot in the storage of the account. -/
theorem Extendable.account (h : host.Extendable addr key)
    (hnone : (host.account addr).storage.entry key = none) :
    (host.account addr).storage.Extendable := by
  unfold MockedHost.account at hnone ⊢
  cases hentry : host.accounts.entry addr with
  | none => exact Or.inr (Nat.two_pow_pos 32)
  | some acc =>
      rw [hentry, Option.getD_some] at hnone
      exact h.storage acc hentry hnone

/-- The record is made if there is none, and marked warm; the others stay. -/
theorem Valid.accessStorage (h : host.Valid) (htells : host.Tells addr key)
    (hroom : host.Extendable addr key) : ∃ accounts, MockedHost.accessStorage addr key host =
        .ok ((host.record addr key).getD storageValueInit).accessStatus
          { host with accounts := accounts } ∧
      Valid { host with accounts := accounts } ∧
      Tells { host with accounts := accounts } addr key ∧
      ∀ addr' key', record { host with accounts := accounts } addr' key' =
        if addr = addr' ∧ key = key' then
          some { (host.record addr key).getD storageValueInit with accessStatus := .warm }
        else host.record addr' key' := by
  -- First the account: it is found or made.
  obtain ⟨accounts, haccounts, hvalid, hentries⟩ :=
    ensured_ok h.accounts htells.accounts hroom.accounts mockedAccountInit host
  have hentry : accounts.entry addr = some (host.account addr) := by
    rw [hentries, if_pos rfl]
    rfl
  have htellsAddr : accounts.Tells addr := by
    refine hvalid.tells_iff.2 fun addr' acc hacc halike => ?_
    rw [hentries] at hacc
    split at hacc
    case isTrue heq => exact heq.symm
    case isFalse => exact (h.accounts.tells_iff.1 htells.accounts) addr' acc hacc halike
  obtain ⟨i, b, hlookup, hb, hfirst⟩ : ∃ i b, accounts.lookupIdx addr = some (some i) ∧
      accounts.at? i = some b ∧ b.first = addr :=
    (hvalid.lookupIdx htellsAddr).resolve_right fun hnone => by
      rw [hentry] at hnone
      cases hnone.2
  have hsecond : b.second = host.account addr := by
    have hsome := hvalid.entry_at hb
    rw [hfirst, hentry] at hsome
    exact (Option.some.inj hsome).symm
  -- Then the slot in its storage, in the same way.
  obtain ⟨storage, hstorage, hvalidStorage, hentriesStorage⟩ :=
    ensured_ok (h.account addr) htells.account hroom.account storageValueInit
      { host with accounts := accounts }
  have hrecord : storage.entry key = some ((host.record addr key).getD storageValueInit) := by
    rw [hentriesStorage, if_pos rfl, record_eq]
  have htellsKey : storage.Tells key := by
    refine hvalidStorage.tells_iff.2 fun key' sv hsv halike => ?_
    rw [hentriesStorage] at hsv
    split at hsv
    case isTrue heq => exact heq.symm
    case isFalse => exact ((h.account addr).tells_iff.1 htells.account) key' sv hsv halike
  generalize hsv : (host.record addr key).getD storageValueInit = sv at hrecord ⊢
  -- Then the slot becomes warm.
  obtain ⟨storage', hassign, hvalid', hentries'⟩ :=
    hvalidStorage.insertEntry true htellsKey
      (fun hnone => by rw [hrecord] at hnone; cases hnone) (Or.inr rfl)
      { sv with accessStatus := AccessStatus.warm }
  -- The account with the new storage is put back in its bucket.
  have hset : ∀ addr', (accounts.setSecond i { b.second with storage := storage' }).entry addr' =
      if addr = addr' then some { b.second with storage := storage' }
      else host.accounts.entry addr' := fun addr' => by
    rw [hvalid.entry_setSecond hb, hfirst, hentries]
    split <;> rfl
  refine ⟨accounts.setSecond i { b.second with storage := storage' }, ?_, ⟨?_, ?_⟩, ⟨?_, ?_⟩, ?_⟩
  · rw [accessStorage_eq]
    rw [← hsecond] at hstorage
    have hacc : (accounts.at? i).map (·.second) = some b.second := by rw [hb, Option.map_some]
    have hfind : storage.find key = some (some sv) := by rw [hvalidStorage.find htellsKey, hrecord]
    -- The steps of the function, one after the other.
    refine ok_bind rfl (ok_bind haccounts (ok_bind rfl (ok_bind (probing_ok hlookup _) ?_)))
    refine ok_bind (deref_ok rfl _) (ok_bind (deref_ok hacc _) (ok_bind hstorage (ok_bind rfl ?_)))
    refine ok_bind (probing_ok hfind _) (ok_bind (deref_ok rfl _) ?_)
    exact ok_bind (probing_ok hassign _) rfl
  · exact hvalid.setSecond i _
  · intro addr' acc hacc
    replace hacc := (hset addr').symm.trans hacc
    split at hacc
    · obtain rfl := Option.some.inj hacc
      exact hvalid'
    · exact h.storage addr' acc hacc
  · refine (hvalid.setSecond i _).tells_iff.2 fun addr' acc hacc halike => ?_
    rw [hset] at hacc
    split at hacc
    case isTrue heq => exact heq.symm
    case isFalse => exact (h.accounts.tells_iff.1 htells.accounts) addr' acc hacc halike
  · intro acc hacc
    replace hacc := (hset addr).symm.trans hacc
    rw [if_pos rfl] at hacc
    obtain rfl := Option.some.inj hacc
    refine hvalid'.tells_iff.2 fun key' sv' hsv' halike => ?_
    rw [hentries'] at hsv'
    split at hsv'
    case isTrue heq => exact heq.symm
    case isFalse => exact (hvalidStorage.tells_iff.1 htellsKey) key' sv' hsv' halike
  -- Only the entry of this slot has changed.
  · intro addr' key'
    show ((accounts.setSecond i { b.second with storage := storage' }).entry addr').bind _ = _
    rw [hset]
    by_cases haddr : addr = addr'
    case neg =>
      rw [if_neg haddr, if_neg fun hpair => haddr hpair.1]
      rfl
    subst haddr
    rw [if_pos rfl, Option.bind_some, hentries', hentriesStorage, record_eq]
    by_cases hkey : key = key'
    · rw [if_pos hkey, if_pos ⟨rfl, hkey⟩]
    · rw [if_neg hkey, if_neg hkey, if_neg fun hpair => hkey hpair.2]

/-! ### `set_storage` -/

section
variable {slot : Nat × Nat} {acc : Bucket Address MockedAccount} {old : Bucket Bytes32 StorageValue}

/-- The record where the searches of a pair end, which may be the record of another pair. -/
theorem Finds.record (hfinds : host.Finds addr key slot acc old) (h : host.Valid) :
    host.record acc.first old.first = some old.second := by
  have hacc : host.accounts.entry acc.first = some acc.second := h.accounts.entry_at hfinds.accountAt
  unfold MockedHost.record
  rw [hacc, Option.bind_some]
  exact (h.storage _ _ hacc).entry_at hfinds.entryAt

/-- The record where the searches end is written, and the others stay. -/
theorem Finds.record_writeEntry (hfinds : host.Finds addr key slot acc old) (h : host.Valid)
    (entry : StorageValue) : ((host.recorded addr).writeEntry slot acc.second entry).Valid ∧
      ∀ addr' key', ((host.recorded addr).writeEntry slot acc.second entry).record addr' key' =
        if acc.first = addr' ∧ old.first = key' then some entry else host.record addr' key' := by
  have hacc : host.accounts.entry acc.first = some acc.second := h.accounts.entry_at hfinds.accountAt
  have hstorage := h.storage _ _ hacc
  have hentries : ∀ addr',
      ((host.recorded addr).writeEntry slot acc.second entry).accounts.entry addr' =
      if acc.first = addr' then
        some { acc.second with storage := acc.second.storage.setSecond slot.2 entry }
      else host.accounts.entry addr' := h.accounts.entry_setSecond hfinds.accountAt _
  refine ⟨⟨h.accounts.setSecond _ _, fun addr' acc' hacc' => ?_⟩, fun addr' key' => ?_⟩
  · rw [hentries] at hacc'
    split at hacc'
    · obtain rfl := Option.some.inj hacc'
      exact hstorage.setSecond _ _
    · exact h.storage addr' acc' hacc'
  · unfold MockedHost.record
    rw [hentries]
    by_cases haddr : acc.first = addr'
    · rw [if_pos haddr, Option.bind_some, hstorage.entry_setSecond hfinds.entryAt, ← haddr, hacc,
        Option.bind_some]
      by_cases hkey : old.first = key'
      · rw [if_pos hkey, if_pos ⟨rfl, hkey⟩]
      · rw [if_neg hkey, if_neg fun hpair => hkey hpair.2]
    · rw [if_neg haddr, if_neg fun hpair => haddr hpair.1]

/-- With a record for the pair, and no pair that is alike, the searches end at the record. -/
theorem Valid.finds (h : host.Valid) (htells : host.Tells addr key) {sv : StorageValue}
    (hrecord : host.record addr key = some sv) : ∃ slot acc old, host.Finds addr key slot acc old ∧
      acc.first = addr ∧ old.first = key ∧ old.second = sv := by
  obtain ⟨a, ha, hsv⟩ := Option.bind_eq_some_iff.1 hrecord
  obtain ⟨i, acc, hlookup, hat, hfirst⟩ : ∃ i b, host.accounts.lookupIdx addr = some (some i) ∧
      host.accounts.at? i = some b ∧ b.first = addr :=
    (h.accounts.lookupIdx htells.accounts).resolve_right fun hnone => by
      rw [ha] at hnone
      cases hnone.2
  have hacc := h.accounts.entry_at hat
  rw [hfirst, ha] at hacc
  obtain rfl := Option.some.inj hacc
  have hstorage := h.storage addr _ ha
  obtain ⟨j, old, hlookup', hat', hfirst'⟩ : ∃ j b, acc.second.storage.lookupIdx key = some (some j) ∧
      acc.second.storage.at? j = some b ∧ b.first = key :=
    (hstorage.lookupIdx (htells.storage _ ha)).resolve_right fun hnone => by
      rw [hsv] at hnone
      cases hnone.2
  have hold := hstorage.entry_at hat'
  rw [hfirst', hsv] at hold
  exact ⟨(i, j), acc, old, ⟨hlookup, hat, hlookup', hat'⟩, hfirst, hfirst',
    (Option.some.inj hold).symm⟩

end

end MockedHost

end TscVee
