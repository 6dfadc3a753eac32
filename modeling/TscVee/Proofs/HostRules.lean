import TscVee.ExecutionState
import TscVee.Lib.Program

/-!
# `TscVee.Proofs.HostRules`: what the host functions do

The rules for the parts that the host functions are put together from, and `serve_keeps`: a host
function fails for one of three reasons only, and keeps what no change of the accounts and of the
records breaks (`HostStable`). So no host function changes the result of calls
(`serve_callResult`).
-/

set_option autoImplicit false

namespace TscVee

open Lib

/-! ### Vectors -/

/-- `cvec_reserve` moves the items to a larger block, or leaves the vector as it is. -/
theorem CVec.reserve_items {α : Type} (v : CVec α) (cap : Nat) :
    (v.reserve cap).items = v.items := by
  unfold CVec.reserve
  split <;> rfl

/-- `cvec_push` adds its value behind the items, whether the block has to grow or not. -/
theorem CVec.push_items {α : Type} (v : CVec α) (value : α) :
    (v.push value).items = v.items ++ [value] := by
  unfold CVec.push
  dsimp only
  split
  · rw [CVec.reserve_items]
  · rfl

/-! ### Rules -/

section
variable {α : Type} {host : MockedHost} {E : Fault → MockedHost → Prop}

/-- A search that does not end. -/
theorem sat_probing (o : Option α) {Q : α → MockedHost → Prop} :
    Sat (probing o) host Q E ↔
      match o with
      | some a => Q a host
      | none => E .diverges host := by
  cases o <;> rfl

/-- A pointer that is read is not `NULL`. -/
theorem sat_deref (p : Option α) {Q : α → MockedHost → Prop} :
    Sat (deref p) host Q E ↔
      match p with
      | some a => Q a host
      | none => E .nullPointer host := by
  cases p <;> rfl

/-- Bytes behind a pointer, as many as there are. -/
theorem sat_readPtr (p : Ptr) (n : Nat) {Q : List Byte → MockedHost → Prop} :
    Sat (readPtr p n) host Q E ↔
      if n ≤ p.length then Q (p.take n) host else E .wildPointer host := by
  unfold readPtr
  split <;> rfl

/-- The host with an account access recorded. -/
def MockedHost.recorded (host : MockedHost) (addr : Address) : MockedHost :=
  let accesses := host.recordedAccountAccesses
  let accesses := if accesses.empty then accesses.reserve host.maxRecordedAccountAccesses
    else accesses
  let accesses := if accesses.size < host.maxRecordedAccountAccesses then accesses.push addr
    else accesses
  { host with recordedAccountAccesses := accesses }

/-- An access is recorded. -/
theorem sat_recordAccountAccess (addr : Address) {Q : Unit → MockedHost → Prop} :
    Sat (MockedHost.recordAccountAccess addr) host Q E ↔ Q () (host.recorded addr) := Iff.rfl

/-- The account at an address, when the search ends. -/
theorem sat_findAccount (addr : Address) {Q : Option MockedAccount → MockedHost → Prop} :
    Sat (MockedHost.findAccount addr) host Q E ↔
      match host.accounts.find addr with
      | some o => Q o host
      | none => E .diverges host := by
  unfold MockedHost.findAccount
  simp only [sat_bind, sat_get, sat_probing]
  cases host.accounts.find addr <;> rfl

end

/-- A record of an access does not change the accounts. -/
theorem accessAccount_accounts (addr : Address) (host : MockedHost) :
    Sat (MockedHost.accessAccount addr) host (fun _ host' => host'.accounts = host.accounts)
      fun _ _ => True := by
  unfold MockedHost.accessAccount
  simp only [sat_bind, sat_get, sat_recordAccountAccess, sat_ite, sat_pure]
  exact ⟨fun _ => rfl, fun _ => rfl⟩

/-- The reasons for which a host function fails. -/
def Fault.OfHost (f : Fault) : Prop := f = .diverges ∨ f = .nullPointer ∨ f = .wildPointer

/-- The contract of a program that fails for these reasons only. -/
def hostContract : Contract Fault MockedHost where
  inv _ := True
  rel _ _ := True
  err f _ _ := f.OfHost
  refl _ := trivial
  trans _ _ := trivial
  err_of_rel _ h := h

/-- The condition does not depend on the accounts and on the records. -/
structure HostStable (I : MockedHost → Prop) : Prop where
  accounts : ∀ {host : MockedHost} accounts, I host → I { host with accounts := accounts }
  accountAccesses : ∀ {host : MockedHost} accesses,
    I host → I { host with recordedAccountAccesses := accesses }
  blockhashes : ∀ {host : MockedHost} blockhashes,
    I host → I { host with recordedBlockhashes := blockhashes }
  calls : ∀ {host : MockedHost} calls inputs,
    I host → I { host with recordedCalls := calls, recordedCallsInputs := inputs }
  logs : ∀ {host : MockedHost} logs, I host → I { host with recordedLogs := logs }
  selfdestructs : ∀ {host : MockedHost} selfdestructs,
    I host → I { host with recordedSelfdestructs := selfdestructs }

/-- The contract of a program that keeps `I` and fails for these reasons only. -/
def hostKeeps (I : MockedHost → Prop) : Contract Fault MockedHost := .keeps I fun f _ => f.OfHost

section
variable {α : Type} {I : MockedHost → Prop}

/-- A host that is read. -/
theorem keeps_get : (hostKeeps I).Holds (get : Host MockedHost) I :=
  fun _ h => ⟨h, h, trivial⟩

/-- A host that is replaced by another one with the property. -/
theorem keeps_set {host : MockedHost} (h : I host) :
    (hostKeeps I).Holds (set host : Host PUnit) fun _ => True :=
  fun _ _ => ⟨trivial, h, trivial⟩

/-- An update that keeps the property. -/
theorem keeps_modify {f : MockedHost → MockedHost} (h : ∀ host, I host → I (f host)) :
    (hostKeeps I).Holds (modify f : Host PUnit) fun _ => True :=
  fun host hI => ⟨trivial, h host hI, trivial⟩

/-- A value. -/
theorem keeps_pure (a : α) : (hostKeeps I).Holds (pure a : Host α) fun _ => True := .pure trivial

/-- A search does not change the host. -/
theorem keeps_probing (o : Option α) : (hostKeeps I).Holds (probing o) fun _ => True := by
  intro host h
  rw [sat_probing]
  cases o with
  | none => exact Or.inl rfl
  | some a => exact ⟨trivial, h, trivial⟩

/-- A pointer that is read does not change the host. -/
theorem keeps_deref (p : Option α) : (hostKeeps I).Holds (deref p) fun _ => True := by
  intro host h
  rw [sat_deref]
  cases p with
  | none => exact Or.inr (Or.inl rfl)
  | some a => exact ⟨trivial, h, trivial⟩

/-- Bytes that are read do not change the host. -/
theorem keeps_readPtr (p : Ptr) (n : Nat) : (hostKeeps I).Holds (readPtr p n) fun _ => True := by
  intro host h
  rw [sat_readPtr]
  split
  · exact ⟨trivial, h, trivial⟩
  · exact Or.inr (Or.inr rfl)

/-- Nothing is asked of a fault. -/
theorem keeps_wildPointer : (hostKeeps I).Holds (throw .wildPointer : Host α) fun _ => True :=
  fun _ _ => Or.inr (Or.inr rfl)

/-- A stable property does not depend on the record of accesses. -/
theorem keeps_recordAccountAccess (hI : HostStable I) (addr : Address) :
    (hostKeeps I).Holds (MockedHost.recordAccountAccess addr) fun _ => True :=
  fun _ h => ⟨trivial, hI.accountAccesses _ h, trivial⟩

/-- A branch keeps the property when both sides do. -/
theorem keeps_ite {c : Prop} [Decidable c] {x y : Host α}
    (hx : (hostKeeps I).Holds x fun _ => True) (hy : (hostKeeps I).Holds y fun _ => True) :
    (hostKeeps I).Holds (if c then x else y) fun _ => True := by
  split
  · exact hx
  · exact hy

/-- A lookup of an account, and what is done with it. -/
theorem keeps_lookup (hI : HostStable I) (addr : Address) {k : Option MockedAccount → Host α}
    (hk : ∀ o, (hostKeeps I).Holds (k o) fun _ => True) :
    (hostKeeps I).Holds (do
      MockedHost.recordAccountAccess addr
      let o ← MockedHost.findAccount addr
      k o) fun _ => True :=
  .bind (keeps_recordAccountAccess hI addr) fun _ _ =>
    .bind (.bind keeps_get fun _ _ => keeps_probing _) fun o _ => hk o

end

open MockedHost in
/-- A host function keeps a stable condition, and fails because a probe does not end or a pointer is
bad. -/
theorem serve_keeps {I : MockedHost → Prop} (hI : HostStable I) (op : HostOp) :
    (hostKeeps I).Holds op.serve fun _ => True := by
  -- Every request is a sequence of reads, updates of one field each, and faults.
  cases op with
  | accountExists addr =>
      exact .bind (keeps_recordAccountAccess hI addr) fun _ _ => .bind keeps_get fun _ _ =>
        keeps_probing _
  | getStorage addr key =>
      refine keeps_lookup hI addr fun o => ?_
      cases o with
      | none => exact keeps_pure _
      | some acc =>
          refine .bind (keeps_probing _) fun o _ => ?_
          cases o <;> exact keeps_pure _
  | setStorage addr key value =>
      refine .bind (keeps_recordAccountAccess hI addr) fun _ _ => .bind keeps_get fun host hhost =>
        .bind (keeps_probing _) fun _ _ => .bind (keeps_deref _) fun _ _ =>
        .bind (keeps_deref _) fun _ _ => .bind (keeps_probing _) fun _ _ =>
        .bind (keeps_deref _) fun _ _ => .bind (keeps_deref _) fun _ _ => ?_
      refine keeps_ite (keeps_pure _) (.bind (keeps_set ?_) fun _ _ => keeps_pure _)
      exact hI.accounts _ hhost
  | getBalance addr => exact keeps_lookup hI addr fun o => by cases o <;> exact keeps_pure _
  | getCodeSize addr => exact keeps_lookup hI addr fun o => by cases o <;> exact keeps_pure _
  | getCodeHash addr => exact keeps_lookup hI addr fun o => by cases o <;> exact keeps_pure _
  | copyCode addr codeOffset bufferSize =>
      refine keeps_lookup hI addr fun o => ?_
      cases o with
      | none => exact keeps_pure _
      | some acc => exact keeps_ite (keeps_pure _) (keeps_pure _)
  | selfdestruct addr beneficiary =>
      exact .bind (keeps_recordAccountAccess hI addr) fun _ _ =>
        keeps_modify fun _ h => hI.selfdestructs _ h
  | call msg =>
      refine .bind (keeps_recordAccountAccess hI _) fun _ _ => .bind (keeps_modify fun host h => ?_)
        fun _ _ => .bind keeps_get fun host hhost => ?_
      · split
        · exact hI.calls _ _ h
        · exact h
      · refine keeps_ite (keeps_ite ?_ ?_) (keeps_pure _)
        · exact .bind (keeps_readPtr _ _) fun _ _ => .bind (keeps_set (hI.calls _ _ hhost)) fun _ _ =>
            keeps_pure _
        · exact .bind (keeps_set (hI.calls _ host.recordedCallsInputs hhost)) fun _ _ => keeps_pure _
  | getTxContext => exact .bind keeps_get fun _ _ => keeps_pure _
  | getBlockHash blockNumber =>
      exact .bind (keeps_modify fun _ h => hI.blockhashes _ h) fun _ _ => .bind keeps_get fun _ _ =>
        keeps_pure _
  | emitLog addr data topics vectorEmpty =>
      have hlogs : ∀ topics, (hostKeeps I).Holds (modify fun host : MockedHost =>
          { host with recordedLogs := host.recordedLogs.push ⟨addr, data, topics⟩ } : Host PUnit)
          fun _ => True := fun _ => keeps_modify fun _ h => hI.logs _ h
      refine keeps_ite ?_ (keeps_ite ?_ ?_)
      · exact .bind (keeps_pure _) fun _ _ => hlogs _
      · exact .bind (keeps_pure _) fun _ _ => hlogs _
      · exact .bind keeps_wildPointer fun _ _ => hlogs _
  | accessAccount addr =>
      refine .bind keeps_get fun _ _ => .bind (keeps_recordAccountAccess hI _) fun _ _ => ?_
      exact keeps_ite (keeps_pure _) (keeps_pure _)
  | accessStorage addr key =>
      refine .bind keeps_get fun host hhost => .bind (keeps_probing _) fun _ _ => ?_
      -- The rest of the function, behind the branch that makes the account.
      have haccounts : ∀ accounts : CMap Address MockedAccount, (hostKeeps I).Holds (do
          set { host with accounts := accounts }
          let accIdx ← deref (← probing (accounts.lookupIdx addr))
          let acc ← deref ((accounts.at? accIdx).map (·.second))
          let storage ←
            if ← probing (acc.storage.contains key) then pure acc.storage
            else probing (acc.storage.insert key storageValueInit)
          set { host with accounts := accounts.setSecond accIdx { acc with storage := storage } }
          let svalue ← deref (← probing (storage.find key))
          let storage ← probing (storage.insertOrAssign key { svalue with accessStatus := .warm })
          set { host with accounts := accounts.setSecond accIdx { acc with storage := storage } }
          return svalue.accessStatus : Host AccessStatus) fun _ => True := by
        intro accounts
        refine .bind (keeps_set (hI.accounts _ hhost)) fun _ _ => .bind (keeps_probing _) fun _ _ =>
          .bind (keeps_deref _) fun _ _ => .bind (keeps_deref _) fun acc _ =>
          .bind (keeps_probing _) fun _ _ => ?_
        refine keeps_ite (.bind (keeps_pure _) fun _ _ => ?_) (.bind (keeps_probing _) fun _ _ => ?_)
        all_goals
          refine .bind (keeps_set (hI.accounts _ hhost)) fun _ _ => .bind (keeps_probing _)
            fun _ _ => ?_
          refine .bind (keeps_deref _) fun svalue _ => ?_
          refine .bind (keeps_probing _) fun storage _ => ?_
          exact .bind (keeps_set (hI.accounts _ hhost)) fun _ _ => keeps_pure _
      exact keeps_ite (.bind (keeps_pure _) fun accounts _ => haccounts accounts)
        (.bind (keeps_probing _) fun accounts _ => haccounts accounts)

/-- A host function fails because a probe does not end or a pointer is bad. -/
theorem serve_holds (op : HostOp) : hostContract.Holds op.serve fun _ => True :=
  serve_keeps (I := fun _ => True) ⟨fun _ _ => trivial, fun _ _ => trivial, fun _ _ => trivial,
    fun _ _ _ => trivial, fun _ _ => trivial, fun _ _ => trivial⟩ op

/-- No host function changes the result of calls. -/
theorem serve_callResult (op : HostOp) (host : MockedHost) :
    Sat op.serve host (fun _ host' => host'.callResult = host.callResult) fun _ _ => True := by
  have hstable : HostStable fun host' => host'.callResult = host.callResult :=
    ⟨fun _ h => h, fun _ h => h, fun _ h => h, fun _ _ h => h, fun _ h => h, fun _ h => h⟩
  exact (serve_keeps hstable op host rfl).mono (fun _ _ h => h.2.1) fun _ _ _ => trivial

end TscVee
