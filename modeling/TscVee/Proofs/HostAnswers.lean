import TscVee.Proofs.CoreRules
import TscVee.Proofs.HostRules

/-!
# `TscVee.Proofs.HostAnswers`: what the host answers

One rule for each request whose answer a theorem is about: the answer in terms of the host in front
of the request, and the host behind it.

* `ExecutionState.asked`: the state behind a request.
* `MockedHost.Locates`: the search for an account ends, so that a request about it is answered.
-/

set_option autoImplicit false

namespace TscVee

open TscVee.Core Lib

/-- The balance that the host knows of an account. -/
def MockedHost.balanceOf (host : MockedHost) (addr : Address) : Bytes32 :=
  ((host.accounts.find addr).join.map (·.balance)).getD zeroBytes32

/-- The code of an account, as the host finds it. -/
def MockedHost.codeOf (host : MockedHost) (addr : Address) : List Byte :=
  ((host.accounts.find addr).join.map (·.code)).getD []

/-- The host takes the account for cold. -/
def MockedHost.isCold (host : MockedHost) (addr : Address) : Bool :=
  endsWith (· == .cold) (MockedHost.accessAccount addr) host

/-- The search for the account ends. The load factor of the map promises it. -/
def MockedHost.Locates (host : MockedHost) (addr : Address) : Prop :=
  (host.accounts.lookupIdx addr).isSome = true

/-- The state after a request that leaves the host so. -/
def ExecutionState.asked (s : ExecutionState) (op : HostOp) (host : MockedHost) : ExecutionState :=
  { s with hostCtx := host, trace := s.trace ++ [.host op] }

section
variable (s : ExecutionState) (op : HostOp) (host : MockedHost)

/-- The host behind a request. -/
@[simp] theorem ExecutionState.asked_hostCtx : (s.asked op host).hostCtx = host := rfl

/-- A request leaves the stack. -/
@[simp] theorem ExecutionState.asked_stackSpace :
    (s.asked op host).stackSpace = s.stackSpace := rfl

/-- A request leaves the gas. -/
@[simp] theorem ExecutionState.asked_gasLeft : (s.asked op host).gasLeft = s.gasLeft := rfl

/-- A request leaves the revision. -/
@[simp] theorem ExecutionState.asked_rev : (s.asked op host).rev = s.rev := rfl

/-- A request leaves the message. -/
@[simp] theorem ExecutionState.asked_msg : (s.asked op host).msg = s.msg := rfl

/-- A request leaves the memory. -/
@[simp] theorem ExecutionState.asked_memory : (s.asked op host).memory = s.memory := rfl

end

section
variable {s : ExecutionState} {E : Halt → ExecutionState → Prop}

/-- A request that is answered. -/
theorem sat_ask_ok (op : HostOp) {a : op.Answer} {host : MockedHost}
    (h : op.serve s.hostCtx = .ok a host) {Q : op.Answer → ExecutionState → Prop} :
    Sat (ask op) s Q E ↔ Q a (s.asked op host) := by
  rw [sat_ask]
  unfold Sat
  rw [h]
  rfl

/-- The answer is the transaction context of the host, which stays. -/
theorem sat_askTxContext {Q : TxContext → ExecutionState → Prop} :
    Sat (ask .getTxContext) s Q E ↔ Q s.hostCtx.txContext (s.asked .getTxContext s.hostCtx) :=
  Iff.rfl

/-- The answer is the block hash of the host, for every number, and the number is recorded. -/
theorem sat_askBlockHash (n : Int) {Q : Bytes32 → ExecutionState → Prop} :
    Sat (ask (.getBlockHash n)) s Q E ↔
      Q s.hostCtx.blockHash (s.asked (.getBlockHash n) { s.hostCtx with
        recordedBlockhashes := s.hostCtx.recordedBlockhashes.push n }) := Iff.rfl

/-- `access_account` answers and records the access. -/
theorem accessAccount_eq (host : MockedHost) (addr : Address) :
    MockedHost.accessAccount addr host =
      .ok (if host.isCold addr then .cold else .warm) (host.recorded addr) := by
  have hends : ∃ status, MockedHost.accessAccount addr host = .ok status (host.recorded addr) := by
    have hsat : Sat (MockedHost.accessAccount addr) host (fun _ host' => host' = host.recorded addr)
        fun _ _ => False := by
      unfold MockedHost.accessAccount
      simp only [sat_bind, sat_get, sat_recordAccountAccess, sat_ite, sat_pure]
      exact ⟨fun _ => trivial, fun _ => trivial⟩
    obtain ⟨status, _, heq, rfl⟩ := hsat.exists_ok
    exact ⟨status, heq⟩
  obtain ⟨status, heq⟩ := hends
  unfold MockedHost.isCold endsWith
  rw [heq]
  cases status <;> rfl

/-- An access to an account is answered from the record before it. -/
theorem sat_askAccessAccount (addr : Address) {Q : AccessStatus → ExecutionState → Prop} :
    Sat (ask (.accessAccount addr)) s Q E ↔
      Q (if s.hostCtx.isCold addr then .cold else .warm)
        (s.asked (.accessAccount addr) (s.hostCtx.recorded addr)) :=
  sat_ask_ok (.accessAccount addr) (accessAccount_eq s.hostCtx addr)

/-- In an empty map, every search ends. -/
theorem locates_of_empty {host : MockedHost} (h : host.accounts.size = 0) (addr : Address) :
    host.Locates addr := by
  unfold MockedHost.Locates CMap.lookupIdx
  rw [if_pos h]
  rfl

/-- A search that ends finds an account or none. -/
theorem MockedHost.Locates.find {host : MockedHost} {addr : Address} (h : host.Locates addr) :
    ∃ o, host.accounts.find addr = some o := by
  obtain ⟨idx, hidx⟩ := Option.isSome_iff_exists.1 h
  unfold CMap.find
  rw [hidx]
  exact ⟨_, rfl⟩

/-- A search that ends tells whether there is an account. -/
theorem MockedHost.Locates.contains {host : MockedHost} {addr : Address} (h : host.Locates addr) :
    ∃ known, host.accounts.contains addr = some known := by
  obtain ⟨idx, hidx⟩ := Option.isSome_iff_exists.1 h
  unfold CMap.contains
  rw [hidx]
  exact ⟨_, rfl⟩

/-- The balance, when the search for the account ends. -/
theorem getBalance_eq {host : MockedHost} {addr : Address} (h : host.Locates addr) :
    MockedHost.getBalance addr host = .ok (host.balanceOf addr) (host.recorded addr) := by
  obtain ⟨o, ho⟩ := h.find
  have hfind : (host.recorded addr).accounts.find addr = some o := ho
  have hsat : Sat (MockedHost.getBalance addr) host
      (fun b host' => b = host.balanceOf addr ∧ host' = host.recorded addr) fun _ _ => False := by
    unfold MockedHost.getBalance MockedHost.balanceOf
    rw [ho]
    simp only [sat_bind, sat_recordAccountAccess, sat_findAccount, hfind]
    cases o <;> exact ⟨rfl, rfl⟩
  obtain ⟨_, _, heq, rfl, rfl⟩ := hsat.exists_ok
  exact heq

/-- The answer is the balance of the account, and the access is recorded. -/
theorem sat_askBalance {addr : Address} (h : s.hostCtx.Locates addr)
    {Q : Bytes32 → ExecutionState → Prop} :
    Sat (ask (.getBalance addr)) s Q E ↔
      Q (s.hostCtx.balanceOf addr) (s.asked (.getBalance addr) (s.hostCtx.recorded addr)) :=
  sat_ask_ok (.getBalance addr) (getBalance_eq h)

/-- Whether there is an account, when the search for it ends. -/
theorem accountExists_eq {host : MockedHost} {addr : Address} {known : Bool}
    (h : host.accounts.contains addr = some known) :
    MockedHost.accountExists addr host = .ok known (host.recorded addr) := by
  have hcontains : (host.recorded addr).accounts.contains addr = some known := h
  have hsat : Sat (MockedHost.accountExists addr) host
      (fun b host' => b = known ∧ host' = host.recorded addr) fun _ _ => False := by
    unfold MockedHost.accountExists
    simp only [sat_bind, sat_recordAccountAccess, sat_get, sat_probing, hcontains]
    exact ⟨trivial, trivial⟩
  obtain ⟨_, _, heq, rfl, rfl⟩ := hsat.exists_ok
  exact heq

/-- The answer is whether there is an account, and the access is recorded. -/
theorem sat_askAccountExists {addr : Address} {known : Bool}
    (h : s.hostCtx.accounts.contains addr = some known) {Q : Bool → ExecutionState → Prop} :
    Sat (ask (.accountExists addr)) s Q E ↔
      Q known (s.asked (.accountExists addr) (s.hostCtx.recorded addr)) :=
  sat_ask_ok (.accountExists addr) (accountExists_eq h)

/-- The number of bytes that `copy_code` gives for the code of an account, if there is one. -/
def codeBytes (codeOffset bufferSize : Nat) (o : Option MockedAccount) : Nat :=
  o.elim 0 fun acc =>
    if codeOffset ≥ acc.code.length then 0 else min bufferSize (acc.code.length - codeOffset)

/-- The host copies no more than the buffer holds. -/
theorem codeBytes_le (codeOffset bufferSize : Nat) (o : Option MockedAccount) :
    codeBytes codeOffset bufferSize o ≤ bufferSize := by
  cases o with
  | none => exact Nat.zero_le _
  | some acc =>
      show (if _ then _ else _) ≤ bufferSize
      split
      · exact Nat.zero_le _
      · exact Nat.min_le_left _ _

/-- The answer of `copy_code` is a matter of the accounts. -/
theorem sat_copyCode (addr : Address) (codeOffset bufferSize : Nat) {host : MockedHost}
    {Q : Nat → MockedHost → Prop} {E : Fault → MockedHost → Prop} :
    Sat (MockedHost.copyCode addr codeOffset bufferSize) host Q E ↔
      (host.accounts.find addr).elim (E .diverges (host.recorded addr)) fun o =>
        Q (codeBytes codeOffset bufferSize o) (host.recorded addr) := by
  have hfind : (host.recorded addr).accounts.find addr = host.accounts.find addr := rfl
  unfold MockedHost.copyCode
  simp only [sat_bind, sat_recordAccountAccess, sat_findAccount, hfind]
  cases host.accounts.find addr with
  | none => exact Iff.rfl
  | some o =>
      cases o with
      | none => exact Iff.rfl
      | some acc =>
          have hbytes : codeBytes codeOffset bufferSize (some acc) =
            if codeOffset ≥ acc.code.length then 0
            else min bufferSize (acc.code.length - codeOffset) := rfl
          simp only [sat_ite, sat_pure, Option.elim_some, hbytes]
          by_cases hge : codeOffset ≥ acc.code.length <;> simp [hge]

/-- The bytes of the code from the offset on. -/
theorem codeBytes_eq (host : MockedHost) (addr : Address) (codeOffset bufferSize : Nat) :
    codeBytes codeOffset bufferSize (host.accounts.find addr).join =
      min bufferSize ((host.codeOf addr).length - codeOffset) := by
  unfold MockedHost.codeOf
  cases (host.accounts.find addr).join with
  | none =>
      show 0 = min bufferSize (0 - codeOffset)
      omega
  | some acc =>
      show (if _ then 0 else min bufferSize (acc.code.length - codeOffset)) =
        min bufferSize (acc.code.length - codeOffset)
      split
      case isTrue hbehind => rw [Nat.sub_eq_zero_of_le hbehind, Nat.min_zero]
      case isFalse => rfl

/-- The host with a self-destruct recorded. -/
def MockedHost.destructed (host : MockedHost) (addr beneficiary : Address) : MockedHost :=
  { host.recorded addr with
    recordedSelfdestructs := host.recordedSelfdestructs.push ⟨addr, beneficiary⟩ }

/-- The destruction is recorded, and has no answer. -/
theorem sat_askSelfdestruct (addr beneficiary : Address) {Q : Unit → ExecutionState → Prop} :
    Sat (ask (.selfdestruct addr beneficiary)) s Q E ↔
      Q () (s.asked (.selfdestruct addr beneficiary)
        (s.hostCtx.destructed addr beneficiary)) := Iff.rfl

/-! ### The charge for a cold account -/

/-- What a cold account costs, from Berlin on. -/
def coldDue (s : ExecutionState) (addr : Address) (cost : Int) : Int :=
  if s.rev ≥ .berlin ∧ s.hostCtx.isCold addr = true then cost else 0

/-- The state behind the request whether the account is cold, which is made from Berlin on. -/
def ExecutionState.touched (s : ExecutionState) (addr : Address) : ExecutionState :=
  if s.rev ≥ .berlin then s.asked (.accessAccount addr) (s.hostCtx.recorded addr) else s

/-- The charge succeeds just where the gas counter suffices. -/
theorem sat_chargeColdAccount {addr : Address} {cost : Int} (hcost : 0 ≤ cost ∧ cost < 2 ^ 62)
    (hgas : 0 ≤ s.gasLeft ∧ s.gasLeft < 2 ^ 63) {Q : Unit → ExecutionState → Prop} :
    Sat (chargeColdAccount addr cost) s Q E ↔
      (s.gasLeft - coldDue s addr cost < 0 →
        E (.ret .outOfGas)
          { s.touched addr with gasLeft := s.gasLeft - coldDue s addr cost }) ∧
      (0 ≤ s.gasLeft - coldDue s addr cost →
        Q () { s.touched addr with gasLeft := s.gasLeft - coldDue s addr cost }) := by
  have hfits : isInt64 (s.gasLeft - cost) := by
    unfold isInt64
    omega
  unfold chargeColdAccount coldDue ExecutionState.touched
  simp only [sat_bind, sat_read, sat_ite, sat_pure]
  -- Before Berlin nothing is asked; from Berlin on, the host is, and a cold account is paid for.
  by_cases hberlin : s.rev ≥ .berlin
  case neg =>
    simp only [hberlin, false_and, if_false, false_implies, true_and, not_false_eq_true,
      forall_const, Int.sub_zero]
    exact ⟨fun h => ⟨fun hneg => by omega, fun _ => h⟩, fun h => h.2 hgas.1⟩
  case pos =>
    simp only [hberlin, true_and, if_true, forall_const, not_true_eq_false, false_implies, and_true]
    rw [sat_askAccessAccount]
    by_cases hcold : s.hostCtx.isCold addr = true
    · simp only [hcold, if_true, forall_const, not_true_eq_false, false_implies, and_true]
      have hfits' : isInt64 ((s.asked (.accessAccount addr) (s.hostCtx.recorded addr)).gasLeft -
        cost) := hfits
      rw [sat_chargeGas, if_pos hfits', ExecutionState.asked_gasLeft]
      by_cases hneg : s.gasLeft - cost < 0
      · rw [if_pos hneg]
        exact ⟨fun h => ⟨fun _ => h, fun hge => by omega⟩, fun h => h.1 hneg⟩
      · rw [if_neg hneg]
        exact ⟨fun h => ⟨fun hlt => absurd hlt hneg, fun _ => h⟩, fun h => h.2 (by omega)⟩
    · simp only [hcold, Bool.false_eq_true, if_false, Int.sub_zero]
      constructor
      · rintro ⟨-, h⟩
        exact ⟨fun hneg => by omega, fun _ => h nofun⟩
      · rintro ⟨-, h⟩
        exact ⟨nofun, fun _ => h hgas.1⟩

end

end TscVee
