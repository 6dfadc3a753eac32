import TscVee.Proofs.HostStorage

/-!
# `TscVee.Proofs.AccessStatus`: what the host takes for accessed

`access_account` looks for its address in `recorded_account_accesses`, which stops growing at
`max_recorded_account_accesses`, and `access_storage` keeps a flag in the storage record. The list
and the maps are searched with `strcmp`, which reads an address up to its first zero byte only.

* `Served`: the sequences of host functions, with the maps telling the keys of `access_storage`.
* `serve_leaves`: what a host function does to the list and to the accounts.
* `served_tracks`: the list holds the first addresses of the sequence, and the flags are the storage
  accesses of the sequence.
* `served_access`: the answers of `access_account` and `access_storage` behind any sequence.
-/

set_option autoImplicit false

namespace TscVee

open Lib

/-- The address that a host function records. -/
def HostOp.recorded? : HostOp → Option Address
  | .accountExists addr | .getStorage addr _ | .setStorage addr _ _ | .getBalance addr
  | .getCodeSize addr | .getCodeHash addr | .copyCode addr _ _ | .selfdestruct addr _
  | .accessAccount addr => some addr
  | .call msg => some msg.recipient
  | .getTxContext | .getBlockHash _ | .emitLog _ _ _ _ | .accessStorage _ _ => none

/-- The host function writes to the accounts. -/
def HostOp.writesAccounts : HostOp → Bool
  | .setStorage _ _ _ | .accessStorage _ _ => true
  | _ => false

namespace MockedHost

/-! ### What the host functions leave -/

/-- What a host function does to the list of accesses and to the accounts. -/
structure Leaves (op : HostOp) (host host' : MockedHost) : Prop where
  accesses : host'.recordedAccountAccesses =
    (op.recorded?.elim host host.recorded).recordedAccountAccesses
  maximum : host'.maxRecordedAccountAccesses = host.maxRecordedAccountAccesses
  accounts : op.writesAccounts = false → host'.accounts = host.accounts

variable {host : MockedHost} {addr : Address} {key : Bytes32}

/-- A lookup of an account, and what is done with it. -/
theorem sat_lookup {α : Type} {E : Fault → MockedHost → Prop} {Q : α → MockedHost → Prop}
    {k : Option MockedAccount → Host α} (hE : ∀ f host', E f host')
    (hk : ∀ o, Sat (k o) (host.recorded addr) Q E) :
    Sat (do
      recordAccountAccess addr
      let o ← findAccount addr
      k o) host Q E := by
  simp only [sat_bind, sat_recordAccountAccess, sat_findAccount]
  cases (host.recorded addr).accounts.find addr with
  | none => exact hE _ _
  | some o => exact hk o

/-- A request other than an access to a storage slot leaves the accesses of all slots. -/
theorem serve_leaves {op : HostOp} (hop : ∀ addr key, op ≠ .accessStorage addr key)
    (host : MockedHost) :
    Sat op.serve host (fun _ host' => Leaves op host host') fun _ _ => True := by
  -- The accounts are changed by a write only, and by a creation of an account in the access that is
  -- excluded.
  cases op with
  | accessStorage addr key => exact absurd rfl (hop addr key)
  | accountExists addr =>
      unfold HostOp.serve accountExists
      simp only [sat_bind, sat_recordAccountAccess, sat_get, sat_probing]
      cases (host.recorded addr).accounts.contains addr with
      | none => trivial
      | some known => exact ⟨rfl, rfl, fun _ => rfl⟩
  | getStorage addr key =>
      refine sat_lookup (fun _ _ => trivial) fun o => ?_
      cases o with
      | none => exact ⟨rfl, rfl, fun _ => rfl⟩
      | some acc =>
          simp only [sat_bind, sat_probing]
          cases acc.storage.find key with
          | none => trivial
          | some sv => cases sv <;> exact ⟨rfl, rfl, fun _ => rfl⟩
  | setStorage addr key value =>
      cases hslot : host.slot addr key with
      | none => exact (sat_setStorage_of_slot hslot).mono (fun _ _ h => h.elim) fun _ _ _ => trivial
      | some slot =>
          obtain ⟨acc, old, hfinds⟩ := finds_of_slot hslot
          refine hfinds.sat_setStorage.2 ⟨fun _ => ?_, fun _ => ?_⟩
          all_goals exact ⟨rfl, rfl, fun h => by cases h⟩
  | getBalance addr =>
      exact sat_lookup (fun _ _ => trivial) fun o => by cases o <;> exact ⟨rfl, rfl, fun _ => rfl⟩
  | getCodeSize addr =>
      exact sat_lookup (fun _ _ => trivial) fun o => by cases o <;> exact ⟨rfl, rfl, fun _ => rfl⟩
  | getCodeHash addr =>
      exact sat_lookup (fun _ _ => trivial) fun o => by cases o <;> exact ⟨rfl, rfl, fun _ => rfl⟩
  | copyCode addr codeOffset bufferSize =>
      refine sat_lookup (fun _ _ => trivial) fun o => ?_
      cases o with
      | none => exact ⟨rfl, rfl, fun _ => rfl⟩
      | some acc =>
          simp only [sat_ite, sat_pure]
          exact ⟨fun _ => ⟨rfl, rfl, fun _ => rfl⟩, fun _ => ⟨rfl, rfl, fun _ => rfl⟩⟩
  | selfdestruct addr beneficiary => exact ⟨rfl, rfl, fun _ => rfl⟩
  | call msg =>
      unfold HostOp.serve MockedHost.call
      simp only [sat_bind, sat_recordAccountAccess, sat_modify, sat_get, sat_ite, sat_readPtr,
        sat_set,
        sat_pure]
      have hleaves : ∀ calls inputs, Leaves (.call msg) host { host.recorded msg.recipient with
          recordedCalls := calls, recordedCallsInputs := inputs } := fun _ _ =>
            ⟨rfl, rfl, fun _ => rfl⟩
      split
      all_goals
        refine ⟨fun _ => ⟨fun _ => ?_, fun _ => hleaves _ _⟩, fun _ => hleaves _ _⟩
        split
        · exact hleaves _ _
        · trivial
  | getTxContext => exact ⟨rfl, rfl, fun _ => rfl⟩
  | getBlockHash blockNumber => exact ⟨rfl, rfl, fun _ => rfl⟩
  | emitLog addr data topics vectorEmpty =>
      unfold HostOp.serve emitLog
      simp only [sat_bind, sat_ite, sat_pure, sat_throw, sat_modify]
      have hleaves : ∀ logs, Leaves (.emitLog addr data topics vectorEmpty) host
          { host with recordedLogs := logs } := fun _ => ⟨rfl, rfl, fun _ => rfl⟩
      exact ⟨fun _ => hleaves _, fun _ => ⟨fun _ => hleaves _, fun _ => trivial⟩⟩
  | accessAccount addr =>
      unfold HostOp.serve accessAccount
      simp only [sat_bind, sat_get, sat_recordAccountAccess, sat_ite, sat_pure]
      exact ⟨fun _ => ⟨rfl, rfl, fun _ => rfl⟩, fun _ => ⟨rfl, rfl, fun _ => rfl⟩⟩

/-! ### The list of accesses -/

/-- A record is made while the list is shorter than the maximum. -/
theorem recorded_items (host : MockedHost) (addr : Address) :
    (host.recorded addr).recordedAccountAccesses.items =
      if host.recordedAccountAccesses.size < host.maxRecordedAccountAccesses then
        host.recordedAccountAccesses.items ++ [addr]
      else host.recordedAccountAccesses.items := by
  have hreserved : (if host.recordedAccountAccesses.empty then
      host.recordedAccountAccesses.reserve host.maxRecordedAccountAccesses
      else host.recordedAccountAccesses).items = host.recordedAccountAccesses.items := by
    split
    · exact CVec.reserve_items _ _
    · rfl
  unfold MockedHost.recorded CVec.size
  dsimp only
  rw [hreserved]
  split
  · rw [CVec.push_items, hreserved]
  · exact hreserved

/-- The list keeps the first addresses. -/
theorem recorded_take {seen : List Address}
    (h : host.recordedAccountAccesses.items = seen.take host.maxRecordedAccountAccesses) :
    (host.recorded addr).recordedAccountAccesses.items =
      (seen ++ [addr]).take host.maxRecordedAccountAccesses := by
  rw [recorded_items, CVec.size, h, List.length_take]
  split
  case isTrue hroom =>
    rw [List.take_of_length_le (by omega), List.take_of_length_le (by simp; omega)]
  case isFalse hfull => rw [List.take_append_of_le_length (by omega)]

/-! ### `access_account` -/

/-- The addresses 1 to 9. -/
def precompiles : List Address := (List.range' 1 9).map fun n => u64ToAddr (.ofNat 64 n)

/-- The address of a small number starts with a zero byte. -/
theorem u64ToAddr_zero (v : U64) : (u64ToAddr v)[0] = 0 := by
  unfold u64ToAddr
  rw [Vector.getElem_ofFn]
  rfl

/-- So does the address of every precompile. -/
theorem precompiles_zero {addr : Address} (h : addr ∈ precompiles) : addr[0] = 0 := by
  obtain ⟨n, -, rfl⟩ := List.mem_map.1 h
  exact u64ToAddr_zero _

/-- `strcmp` with an address whose first byte is zero. -/
theorem cmp_zero {a b : Address} (hb : b[0] = 0) : MapKey.cmp a b = a[0].toNat := by
  have hlist : ∀ addr : Address, ∃ rest, addr.toList = addr[0] :: rest := fun addr => by
    cases haddr : addr.toList with
    | nil =>
        have hlength : addr.toList.length = 20 := Vector.length_toList
        rw [haddr] at hlength
        cases hlength
    | cons x rest =>
        have hx : addr.toList[0]? = some addr[0] := by simp
        rw [haddr] at hx
        exact ⟨rest, congrArg (· :: rest) (Option.some.inj hx)⟩
  obtain ⟨s, hs⟩ := hlist a
  obtain ⟨t, ht⟩ := hlist b
  show strcmp a.toList b.toList = _
  rw [hs, ht, hb]
  unfold strcmp
  split
  case isTrue h =>
    rw [h]
    rfl
  case isFalse => simp

/-- The comparison with the addresses 1 and 9 looks at the first byte only. -/
theorem cmp_precompiles (addr : Address) :
    (MapKey.cmp addr (u64ToAddr 1) ≥ 0 ∧ MapKey.cmp addr (u64ToAddr 9) ≤ 0) ↔ addr[0] = 0 := by
  rw [cmp_zero (u64ToAddr_zero 1), cmp_zero (u64ToAddr_zero 9)]
  constructor
  · rintro ⟨-, hle⟩
    exact BitVec.eq_of_toNat_eq (by simp; omega)
  · intro h
    rw [h]
    decide

/-- An address counts as warm by its first byte, or by an address of the list that compares
equal. -/
theorem accessAccount_ok (host : MockedHost) (addr : Address) : accessAccount addr host =
    .ok (if addr[0] = 0 ∨ host.recordedAccountAccesses.find MapKey.cmp addr = true then .warm
      else .cold) (host.recorded addr) := by
  rw [← sat_eq_iff]
  unfold accessAccount
  simp only [sat_bind, sat_get, sat_recordAccountAccess, sat_ite, sat_pure, cmp_precompiles, and_true]
  refine ⟨fun hzero => ?_, fun hzero => ?_⟩
  · rw [if_pos (Or.inl hzero)]
  · exact (if_congr (or_iff_right hzero) rfl rfl).symm

/-- The search of the record finds what compares as equal to the address. -/
theorem find_eq_true_iff (accesses : CVec Address) (addr : Address) :
    accesses.find MapKey.cmp addr = true ↔ ∃ r ∈ accesses.items, MapKey.cmp addr r = 0 := by
  unfold CVec.find
  rw [List.any_eq_true]
  simp only [decide_eq_true_eq]

/-! ### Flags and values -/

/-- The flag of the storage record, cold if there is none. -/
def statusOf (host : MockedHost) (addr : Address) (key : Bytes32) : AccessStatus :=
  ((host.record addr key).getD storageValueInit).accessStatus

/-- The value of the storage record, zero if there is none. -/
def storedValue (host : MockedHost) (addr : Address) (key : Bytes32) : Bytes32 :=
  ((host.record addr key).getD storageValueInit).value

/-- `set_storage` keeps the flags, also where it writes the record of another pair. -/
theorem Valid.setStorage_status (h : host.Valid) (value : Bytes32) :
    Sat (setStorage addr key value) host
      (fun _ host' => host'.Valid ∧ ∀ addr' key',
        host'.statusOf addr' key' = host.statusOf addr' key')
      fun _ _ => True := by
  cases hslot : host.slot addr key with
  | none => exact (sat_setStorage_of_slot hslot).mono (fun _ _ h => h.elim) fun _ _ _ => trivial
  | some slot =>
      obtain ⟨acc, old, hfinds⟩ := finds_of_slot hslot
      refine hfinds.sat_setStorage.2 ⟨fun _ => ⟨⟨h.accounts, h.storage⟩, fun _ _ => rfl⟩, fun _ => ?_⟩
      obtain ⟨hvalid, hrecord⟩ :=
        hfinds.record_writeEntry h { old.second with value := value, dirty := true }
      refine ⟨hvalid, fun addr' key' => ?_⟩
      unfold statusOf
      rw [hrecord]
      split
      case isTrue hpair =>
        rw [← hpair.1, ← hpair.2, hfinds.record h]
        rfl
      case isFalse => rfl

/-! ### Sequences of host functions -/

/-- The maps can tell the address and the key of an access to the storage, and have room for
them. -/
def Accepts (host : MockedHost) (op : HostOp) : Prop :=
  ∀ addr key, op = .accessStorage addr key → host.Tells addr key ∧ host.Extendable addr key

/-- The host functions of the list have been served from `host₀` on. -/
inductive Served (host₀ : MockedHost) : List HostOp → MockedHost → Prop
  | nil : Served host₀ [] host₀
  | snoc {ops : List HostOp} {host host' : MockedHost} {op : HostOp} {answer : op.Answer} :
      Served host₀ ops host → host.Accepts op → op.serve host = .ok answer host' →
        Served host₀ (ops ++ [op]) host'

/-- The addresses that were passed to the host functions that record them. -/
def addresses (ops : List HostOp) : List Address := ops.filterMap HostOp.recorded?

/-- No access is recorded, and no storage record is warm. -/
structure Fresh (host : MockedHost) : Prop where
  valid : host.Valid
  accesses : host.recordedAccountAccesses.items = []
  status : ∀ addr key, host.statusOf addr key = .cold

/-- What the host knows about the sequence `ops`. -/
structure Tracks (max : Nat) (ops : List HostOp) (host : MockedHost) : Prop where
  valid : host.Valid
  maximum : host.maxRecordedAccountAccesses = max
  accesses : host.recordedAccountAccesses.items = (addresses ops).take max
  status : ∀ addr key, host.statusOf addr key =
    if HostOp.accessStorage addr key ∈ ops then .warm else .cold

/-- On a fresh host nothing has been accessed. -/
theorem Fresh.tracks (h : host.Fresh) : Tracks host.maxRecordedAccountAccesses [] host :=
  ⟨h.valid, rfl, h.accesses.trans List.take_nil.symm, h.status⟩

/-- One more host function. -/
theorem Tracks.step {max : Nat} {ops : List HostOp} {host' : MockedHost} {op : HostOp}
    {answer : op.Answer} (h : Tracks max ops host) (haccepts : host.Accepts op)
    (hserve : op.serve host = .ok answer host') : Tracks max (ops ++ [op]) host' := by
  by_cases hstorage : ∃ addr key, op = .accessStorage addr key
  case pos =>
    -- The access makes its own slot warm and records no account.
    obtain ⟨addr, key, rfl⟩ := hstorage
    obtain ⟨htells, hroom⟩ := haccepts addr key rfl
    obtain ⟨accounts, hok, hvalid, -, hrecord⟩ := h.valid.accessStorage htells hroom
    obtain ⟨-, rfl⟩ := EStateM.Result.ok.inj (hok.symm.trans hserve)
    refine ⟨hvalid, h.maximum, ?_, fun addr' key' => ?_⟩
    · rw [addresses, List.filterMap_append]
      exact h.accesses.trans (congrArg (List.take max) (List.append_nil _).symm)
    · unfold statusOf
      rw [hrecord]
      by_cases hpair : addr = addr' ∧ key = key'
      · obtain ⟨rfl, rfl⟩ := hpair
        rw [if_pos ⟨rfl, rfl⟩, if_pos (by simp)]
        rfl
      · have hmem : HostOp.accessStorage addr' key' ∈ ops ++ [.accessStorage addr key] ↔
            HostOp.accessStorage addr' key' ∈ ops := by
          rw [List.mem_append, List.mem_singleton]
          refine or_iff_left fun heq => hpair ?_
          injection heq with haddr hkey
          exact ⟨haddr.symm, hkey.symm⟩
        rw [if_neg hpair, if_congr hmem rfl rfl]
        exact h.status addr' key'
  case neg =>
    -- Another request leaves the status of every slot, and may record an account.
    have hop : ∀ addr key, op ≠ .accessStorage addr key := fun addr key heq =>
      hstorage ⟨addr, key, heq⟩
    have hleaves : Leaves op host host' := (serve_leaves hop host).of_ok hserve
    have hmem : ∀ addr' key', HostOp.accessStorage addr' key' ∈ ops ++ [op] ↔
        HostOp.accessStorage addr' key' ∈ ops := fun addr' key' => by
      rw [List.mem_append, List.mem_singleton]
      exact or_iff_left fun heq => hop addr' key' heq.symm
    -- The accounts are changed by a write only, which keeps the access status.
    have hstatus : host'.Valid ∧ ∀ addr' key',
      host'.statusOf addr' key' = host.statusOf addr' key' := by
      cases hwrites : op.writesAccounts with
      | false =>
          have haccounts := hleaves.accounts hwrites
          refine ⟨⟨haccounts ▸ h.valid.accounts, haccounts ▸ h.valid.storage⟩, fun addr' key' => ?_⟩
          unfold statusOf record
          rw [haccounts]
      | true =>
          cases op with
          | setStorage addr key value => exact (h.valid.setStorage_status value).of_ok hserve
          | accessStorage addr key => exact absurd rfl (hop addr key)
          | _ => cases hwrites
    refine ⟨hstatus.1, hleaves.maximum.trans h.maximum, ?_, fun addr' key' => ?_⟩
    -- The record grows up to its maximum.
    · have hitems := congrArg CVec.items hleaves.accesses
      rw [hitems, addresses, List.filterMap_append]
      cases hrecorded : op.recorded? with
      | none =>
          rw [List.filterMap_cons_none hrecorded, List.filterMap_nil, List.append_nil]
          exact h.accesses
      | some addr =>
          rw [List.filterMap_cons_some hrecorded, List.filterMap_nil, ← h.maximum]
          exact recorded_take (h.maximum ▸ h.accesses)
    · rw [hstatus.2, h.status, if_congr (hmem addr' key') rfl rfl]

/-- The record is followed through every list of requests, by induction on the list. -/
theorem served_tracks {host₀ : MockedHost} (hfresh : host₀.Fresh) {ops : List HostOp}
    (h : Served host₀ ops host) : Tracks host₀.maxRecordedAccountAccesses ops host := by
  induction h with
  | nil => exact hfresh.tracks
  | snoc _ haccepts hserve ih => exact ih.step haccepts hserve

/-! ### The answers -/

/-- `access_account` answers by the addresses that were passed before. -/
def AccountRule (ops : List HostOp) (host : MockedHost) (addr : Address) : Prop :=
  ∃ host', accessAccount addr host =
    .ok (if addr ∈ precompiles ∨ addr ∈ addresses ops then .warm else .cold) host'

/-- `access_storage` answers by the accesses to the pair before, and changes no value. -/
def StorageRule (ops : List HostOp) (host : MockedHost) (addr : Address) (key : Bytes32) : Prop :=
  ∃ host', accessStorage addr key host =
      .ok (if HostOp.accessStorage addr key ∈ ops then .warm else .cold) host' ∧
    ∀ addr' key', host'.storedValue addr' key' = host.storedValue addr' key'

/-- An address that starts with a zero byte is one of 1 to 9, or was passed before. Any other one
was passed before if and only if one of the first `max` addresses passed compares equal with it. -/
def Recognised (max : Nat) (seen : List Address) (addr : Address) : Prop :=
  (addr[0] = 0 → addr ∈ precompiles ∨ addr ∈ seen) ∧
    (addr[0] ≠ 0 → (addr ∈ seen → ∃ r ∈ seen.take max, MapKey.cmp addr r = 0) ∧
      ∀ r ∈ seen.take max, MapKey.cmp addr r = 0 → addr ∈ seen)

/-- The test of the code against the rule. -/
theorem accountRule_iff {ops : List HostOp} {addr : Address} : AccountRule ops host addr ↔
    ((addr[0] = 0 ∨ ∃ r ∈ host.recordedAccountAccesses.items, MapKey.cmp addr r = 0) ↔
      addr ∈ precompiles ∨ addr ∈ addresses ops) := by
  unfold AccountRule
  rw [accessAccount_ok, ← find_eq_true_iff]
  simp only [EStateM.Result.ok.injEq, exists_and_left, exists_eq', and_true]
  split <;> split <;> simp_all

/-- Behind any sequence of host functions whose storage accesses the maps can tell, `access_account`
answers right if and only if the address is recognised, and `access_storage` answers right where the
maps can tell the pair. -/
theorem served_access {host₀ : MockedHost} (hfresh : host₀.Fresh) {ops : List HostOp}
    (hserved : Served host₀ ops host) :
    (∀ addr, AccountRule ops host addr ↔
      Recognised host₀.maxRecordedAccountAccesses (addresses ops) addr) ∧
    ∀ addr key, host.Tells addr key → host.Extendable addr key → StorageRule ops host addr key := by
  have htracks := served_tracks hfresh hserved
  refine ⟨fun addr => ?_, fun addr key htells hroom => ?_⟩
  · rw [accountRule_iff, htracks.accesses]
    unfold Recognised
    -- An address with a zero first byte is warm; for the others the records decide.
    by_cases hfirst : addr[0] = 0
    · simp [hfirst]
    · have hnot : addr ∉ precompiles := fun hmem => hfirst (precompiles_zero hmem)
      simp only [hfirst, hnot, false_or, ne_eq, not_false_eq_true, forall_const,
        false_imp_iff, true_and]
      constructor
      · intro h
        exact ⟨h.2, fun r hr hcmp => h.1 ⟨r, hr, hcmp⟩⟩
      · rintro ⟨hseen, hlooks⟩
        exact ⟨fun ⟨r, hr, hcmp⟩ => hlooks r hr hcmp, hseen⟩
  -- The flag of a slot follows its own accesses.
  · obtain ⟨accounts, hok, -, -, hrecord⟩ := htracks.valid.accessStorage htells hroom
    unfold StorageRule
    rw [← htracks.status addr key]
    refine ⟨_, hok, fun addr' key' => ?_⟩
    unfold storedValue
    rw [hrecord]
    split
    case isTrue hpair => rw [← hpair.1, ← hpair.2, Option.getD_some]
    case isFalse => rfl

/-- The host of `MockedHost_init` is fresh. -/
theorem fresh_init (tx : TxContext) : (mockedHostInit tx).Fresh :=
  ⟨⟨CMap.valid_init, fun _ _ hacc => by cases hacc⟩, rfl, fun _ _ => rfl⟩

/-- A map of few entries, all under the one key. -/
def onlyKey {κ ν : Type} [DecidableEq κ] (m : CMap κ ν) (key : κ) : Bool :=
  decide (∀ b ∈ m.buckets.filterMap id, b.first = key) && decide (3 * m.size < 2 ^ 32)

/-- The test of a map with one key. -/
theorem onlyKey_iff {κ ν : Type} [DecidableEq κ] {m : CMap κ ν} {key : κ} :
    onlyKey m key = true ↔ (∀ b, some b ∈ m.buckets → b.first = key) ∧ 3 * m.size < 2 ^ 32 := by
  unfold onlyKey
  rw [Bool.and_eq_true, decide_eq_true_iff, decide_eq_true_iff]
  simp only [List.mem_filterMap, id_eq, exists_eq_right]

/-- A host with no other pair tells the pair, and has room for it. -/
theorem accepts_only {host : MockedHost} {addr : Address} {key : Bytes32}
    (haddr : onlyKey host.accounts addr = true)
    (hkey : (host.accounts.entry addr).all (fun acc => onlyKey acc.storage key) = true) :
    host.Tells addr key ∧ host.Extendable addr key := by
  obtain ⟨hsame, hroom⟩ := onlyKey_iff.1 haddr
  have hstorage : ∀ acc, host.accounts.entry addr = some acc →
      (∀ b, some b ∈ acc.storage.buckets → b.first = key) ∧ 3 * acc.storage.size < 2 ^ 32 := by
    intro acc hacc
    rw [hacc] at hkey
    exact onlyKey_iff.1 hkey
  exact ⟨⟨fun b hb _ => hsame b hb, fun acc hacc b hb _ => (hstorage acc hacc).1 b hb⟩,
    fun _ => Or.inr hroom, fun acc hacc _ => Or.inr (hstorage acc hacc).2⟩

/-- A host without accounts tells every pair, and has room for it. -/
theorem accepts_empty (host : MockedHost) (h : host.accounts = .init) (addr : Address)
    (key : Bytes32) : host.Tells addr key ∧ host.Extendable addr key := by
  refine accepts_only ?_ ?_ <;> rw [h] <;> rfl

/-- An address without zero bytes that was passed before is warm, and the first access to its
storage cold. -/
theorem served_access_ones :
    ∃ host, AccountRule [.getBalance (Vector.replicate 20 1)] host (Vector.replicate 20 1) ∧
      StorageRule [.getBalance (Vector.replicate 20 1)] host (Vector.replicate 20 1) zeroBytes32 := by
  generalize hones : (Vector.replicate 20 1 : Address) = ones
  have hfirst : ones[0] ≠ 0 := by
    rw [← hones]
    decide
  have hserve : HostOp.serve (.getBalance ones) (mockedHostInit default) =
      .ok zeroBytes32 ((mockedHostInit default).recorded ones) := rfl
  have hserved : Served (mockedHostInit default) [.getBalance ones]
      ((mockedHostInit default).recorded ones) :=
    .snoc .nil (fun addr key heq => by cases heq) hserve
  obtain ⟨haccount, hstorage⟩ := served_access (fresh_init default) hserved
  obtain ⟨htells, hroom⟩ := accepts_empty ((mockedHostInit default).recorded ones) rfl ones
    zeroBytes32
  refine ⟨_, (haccount ones).2 ⟨fun hzero => absurd hzero hfirst, fun _ => ⟨fun hseen => ?_, ?_⟩⟩,
    hstorage ones zeroBytes32 htells hroom⟩
  · exact ⟨ones, List.mem_singleton.2 rfl, LawfulMapKey.cmp_self ones⟩
  · intro r hr _
    exact List.mem_singleton.2 rfl

/-- The address 10 was never passed, and is warm. -/
theorem served_access_ten : (mockedHostInit default).Fresh ∧
    Served (mockedHostInit default) [] (mockedHostInit default) ∧
    ¬ AccountRule [] (mockedHostInit default) (u64ToAddr 10) := by
  refine ⟨fresh_init default, .nil, fun h => ?_⟩
  rcases (accountRule_iff.1 h).1 (Or.inl (u64ToAddr_zero 10)) with hmem | hmem
  · exact absurd hmem (by decide)
  · cases hmem

end MockedHost

end TscVee
