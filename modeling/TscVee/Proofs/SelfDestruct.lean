import TscVee.Proofs.GasFalls
import TscVee.Proofs.WordRules

/-!
# `TscVee.Proofs.SelfDestruct`: the charges of `SELFDESTRUCT`

The status of a failed charge for a new account is overwritten, and the balance that makes the
charge due is tested in its low 64 bits.

* `SelfdestructRule`: the instruction should run out of gas without a record, or leave one record.
* `sat_selfdestructRecord`: what it does. Only the charge for a cold beneficiary stops it.
* `selfdestruct_iff`: it follows the rule just where no new account is due, or the gas suffices for
  it and the low bits show the balance, or the gas does not suffice for the cold beneficiary.
-/

set_option autoImplicit false

namespace TscVee

open TscVee.Core Lib

/-- The charge for a beneficiary that does not exist: due in the Tangerine Whistle, and later where
the account that is destroyed has a balance. -/
def dueAccountCost (s : ExecutionState) (top : Slot) : Int :=
  if s.hostCtx.accounts.contains (u256ToU8_20 (s.stackSpace top)) = some false ∧
      (s.rev = .tangerineWhistle ∨
        (readu256BE (bytesAt (s.hostCtx.balanceOf s.msg.recipient))).toNat ≠ 0) then 25000
  else 0

/-- The end that `SELFDESTRUCT` should have with this status. -/
def SelfdestructEnd (s : ExecutionState) (top : Slot) (status : StatusCode) (s' : ExecutionState) :
    Prop :=
  let cost := beneficiaryCost s top + dueAccountCost s top
  (s.gasLeft - cost < 0 → status = .outOfGas ∧
    s'.hostCtx.recordedSelfdestructs.items = s.hostCtx.recordedSelfdestructs.items) ∧
  (0 ≤ s.gasLeft - cost → status = .success ∧ s'.gasLeft = s.gasLeft - cost ∧
    s'.hostCtx.recordedSelfdestructs.items = s.hostCtx.recordedSelfdestructs.items ++
      [⟨s.msg.recipient, u256ToU8_20 (s.stackSpace top)⟩])

/-- What `SELFDESTRUCT` should do, whether it returns the status at its end or before. -/
def SelfdestructRule (s : ExecutionState) (top : Slot) : Prop :=
  Sat (selfdestruct top) s (SelfdestructEnd s top) fun h s' =>
    ∃ status, h = .ret status ∧ SelfdestructEnd s top status s'

/-- A state in which `SELFDESTRUCT` gets to its charges: the operand is on the stack, the gas
counter is in range, and the searches for the two accounts end. -/
structure SelfdestructReady (s : ExecutionState) (top : Slot) : Prop where
  slot : inStackSpace top
  rev : s.rev ≥ .tangerineWhistle
  dynamic : ¬ s.msg.isStatic
  gas : 0 ≤ s.gasLeft ∧ s.gasLeft < 2 ^ 63
  recipient : s.hostCtx.Locates s.msg.recipient
  beneficiary : s.hostCtx.Locates (u256ToU8_20 (s.stackSpace top))

variable {s : ExecutionState} {top : Slot}

/-- Outside of static mode the test of the source fails. -/
theorem not_inStaticMode (h : ¬ s.msg.isStatic) : executionStateInStaticMode s = false :=
  Bool.eq_false_iff.2 (mt (executionStateInStaticMode_iff s).1 h)

/-- What `SELFDESTRUCT` does: it stops when it cannot pay for a cold beneficiary, and else leaves a
record, whatever the charge for a new account makes of the gas counter. -/
theorem sat_selfdestructRecord (h : SelfdestructReady s top) :
    Sat (selfdestruct top) s
      (fun status s' => beneficiaryCost s top ≤ s.gasLeft ∧ status = .success ∧
        s'.gasLeft = s.gasLeft - beneficiaryCost s top - newAccountCost s top ∧
        s'.hostCtx.recordedSelfdestructs.items = s.hostCtx.recordedSelfdestructs.items ++
          [⟨s.msg.recipient, u256ToU8_20 (s.stackSpace top)⟩])
      fun e s' => s.gasLeft < beneficiaryCost s top ∧ e = .ret .outOfGas ∧
        s'.hostCtx.recordedSelfdestructs.items = s.hostCtx.recordedSelfdestructs.items := by
  have hrange : 0 ≤ coldAccountAccessCost ∧ coldAccountAccessCost < 2 ^ 62 := by decide
  generalize hbeneficiary : u256ToU8_20 (s.stackSpace top) = beneficiary
  have hcost : coldDue s beneficiary coldAccountAccessCost = beneficiaryCost s top := by
    rw [← hbeneficiary]
    rfl
  unfold selfdestruct StackTop.get
  simp only [sat_bind, sat_refuseStatic, not_inStaticMode h.dynamic, sat_load, Int.sub_zero,
    if_pos h.slot, hbeneficiary]
  rw [if_neg Bool.false_ne_true, sat_chargeColdAccount hrange h.gas, hcost]
  -- The request about the beneficiary changes the record of accesses only.
  have htouched : (s.touched beneficiary).rev = s.rev ∧ (s.touched beneficiary).msg = s.msg ∧
      (s.touched beneficiary).hostCtx.accounts = s.hostCtx.accounts ∧
      (s.touched beneficiary).hostCtx.recordedSelfdestructs =
        s.hostCtx.recordedSelfdestructs := by
    unfold ExecutionState.touched
    split <;> exact ⟨rfl, rfl, rfl, rfl⟩
  refine ⟨fun hneg => ⟨by omega, rfl, by rw [← htouched.2.2.2]⟩, fun hnonneg => ?_⟩
  have hle : beneficiaryCost s top ≤ s.gasLeft := by omega
  obtain ⟨s₁, hs₁, hgas₁⟩ : ∃ s₁ : ExecutionState,
      s₁ = { s.touched beneficiary with gasLeft := s.gasLeft - beneficiaryCost s top } ∧
        s₁.gasLeft = s.gasLeft - beneficiaryCost s top := ⟨_, rfl, rfl⟩
  obtain ⟨hrev, hmsg, haccounts, hrecords⟩ : s₁.rev = s.rev ∧ s₁.msg = s.msg ∧
      s₁.hostCtx.accounts = s.hostCtx.accounts ∧
      s₁.hostCtx.recordedSelfdestructs = s.hostCtx.recordedSelfdestructs := by
    rw [hs₁]
    exact htouched
  rw [← hs₁]
  have hlocates : s₁.hostCtx.Locates s.msg.recipient := by
    unfold MockedHost.Locates
    rw [haccounts]
    exact h.recipient
  have hbalance : s₁.hostCtx.balanceOf s.msg.recipient = s.hostCtx.balanceOf s.msg.recipient := by
    unfold MockedHost.balanceOf
    rw [haccounts]
  obtain ⟨known, hknown⟩ := h.beneficiary.contains
  rw [hbeneficiary] at hknown
  have hcontains : (s₁.asked (.getBalance s.msg.recipient)
      (s₁.hostCtx.recorded s.msg.recipient)).hostCtx.accounts.contains beneficiary =
        some known := by
    rw [← hknown, ← haccounts]
    rfl
  have hnew : newAccountCost s top =
      if (s.rev = .tangerineWhistle ∨
        (readu256BE (bytesAt (s.hostCtx.balanceOf s.msg.recipient))).low ≠ 0) ∧ known = false
      then 25000 else 0 := by
    unfold newAccountCost
    rw [hbeneficiary, hknown]
    simp [h.rev]
  -- The record and the status do not depend on the charge for a new account.
  have hend : ∀ s₂ : ExecutionState,
      s₂.gasLeft = s.gasLeft - beneficiaryCost s top - newAccountCost s top →
      s₂.hostCtx.recordedSelfdestructs = s.hostCtx.recordedSelfdestructs →
      Sat (do ask (.selfdestruct s.msg.recipient beneficiary); return .success : Core StatusCode) s₂
        (fun status s' => beneficiaryCost s top ≤ s.gasLeft ∧ status = .success ∧
          s'.gasLeft = s.gasLeft - beneficiaryCost s top - newAccountCost s top ∧
          s'.hostCtx.recordedSelfdestructs.items = s.hostCtx.recordedSelfdestructs.items ++
            [⟨s.msg.recipient, beneficiary⟩])
        fun e s' => s.gasLeft < beneficiaryCost s top ∧ e = .ret .outOfGas ∧
          s'.hostCtx.recordedSelfdestructs.items = s.hostCtx.recordedSelfdestructs.items := by
    intro s₂ hgas hrecords₂
    rw [sat_bind, sat_askSelfdestruct]
    refine ⟨hle, rfl, hgas, ?_⟩
    rw [ExecutionState.asked_hostCtx, MockedHost.destructed, hrecords₂]
    exact CVec.push_items _ _
  simp only [sat_read, hrev]
  rw [if_pos h.rev, hmsg, hbeneficiary, sat_bind, sat_askBalance hlocates, hbalance, sat_ite]
  refine ⟨fun hdue => ?_, fun hnot => ?_⟩
  · rw [sat_bind, sat_askAccountExists hcontains]
    cases known with
    | true =>
        rw [if_neg (by decide)]
        refine hend _ ?_ hrecords
        rw [hnew, if_neg fun h => Bool.noConfusion h.2, Int.sub_zero]
        exact hgas₁
    | false =>
        have hfits : isInt64 (s₁.gasLeft - 25000) := by
          have := h.gas
          have : 0 ≤ s.gasLeft - beneficiaryCost s top ∧ 0 ≤ beneficiaryCost s top := by
            refine ⟨hnonneg, ?_⟩
            unfold beneficiaryCost
            split <;> decide
          unfold isInt64
          omega
        rw [if_pos (by decide), sat_bind, sat_subGas']
        refine (if_pos hfits).mpr (hend _ ?_ hrecords)
        rw [hnew, if_pos ⟨hdue, rfl⟩, ← hgas₁]
        rfl
  · refine hend _ ?_ hrecords
    rw [hnew, if_neg fun h => hnot h.1, Int.sub_zero]
    exact hgas₁

/-- `SELFDESTRUCT` follows its rule just where it cannot pay for a cold beneficiary, or no charge
for a new account is due, or this charge is due and can be paid, and the code sees so: it is the
Tangerine Whistle, or the low 64 bits of the balance are not all zero. -/
theorem selfdestruct_iff (h : SelfdestructReady s top) :
    SelfdestructRule s top ↔
      s.gasLeft < beneficiaryCost s top ∨ dueAccountCost s top = 0 ∨
        (beneficiaryCost s top + 25000 ≤ s.gasLeft ∧ (s.rev = .tangerineWhistle ∨
          (readu256BE (bytesAt (s.hostCtx.balanceOf s.msg.recipient))).low ≠ 0)) := by
  have hdoes := sat_selfdestructRecord h
  have hdue : dueAccountCost s top = 0 ∨ dueAccountCost s top = 25000 := by
    unfold dueAccountCost
    split
    · exact .inr rfl
    · exact .inl rfl
  -- What is charged is due.
  have hnew : dueAccountCost s top = 0 → newAccountCost s top = 0 := by
    intro hzero
    unfold newAccountCost
    refine if_neg ?_
    rintro ⟨-, hbalance, hnone⟩
    have hcost : dueAccountCost s top = 25000 := by
      refine if_pos ⟨hnone, hbalance.imp_right fun hlow hnat => hlow ?_⟩
      rw [low_eq_toNat (by omega), hnat]
    omega
  have hseen : dueAccountCost s top = 25000 →
      (newAccountCost s top = 25000 ↔ (s.rev = .tangerineWhistle ∨
        (readu256BE (bytesAt (s.hostCtx.balanceOf s.msg.recipient))).low ≠ 0)) := by
    intro hcost
    have hnone : s.hostCtx.accounts.contains (u256ToU8_20 (s.stackSpace top)) = some false := by
      by_contra hsome
      rw [dueAccountCost, if_neg fun h => hsome h.1] at hcost
      cases hcost
    unfold newAccountCost
    dsimp only
    constructor
    · intro hcharged
      by_contra hnot
      rw [if_neg fun h => hnot h.2.1] at hcharged
      cases hcharged
    · intro hvisible
      exact if_pos ⟨h.rev, hvisible, hnone⟩
  constructor
  · intro hrule
    by_contra hcond
    obtain ⟨hpays, hne, hbad⟩ : beneficiaryCost s top ≤ s.gasLeft ∧ dueAccountCost s top ≠ 0 ∧
        ¬ (beneficiaryCost s top + 25000 ≤ s.gasLeft ∧ (s.rev = .tangerineWhistle ∨
          (readu256BE (bytesAt (s.hostCtx.balanceOf s.msg.recipient))).low ≠ 0)) :=
      ⟨Int.not_lt.1 fun h => hcond (.inl h), fun h => hcond (.inr (.inl h)),
        fun h => hcond (.inr (.inr h))⟩
    have hcost := hdue.resolve_left hne
    have hboth := hrule.and hdoes
    unfold Sat at hboth
    split at hboth
    · -- The instruction succeeds, so the gas sufficed and the charge was made.
      obtain ⟨⟨hout, hok⟩, -, hstatus, hgas, -⟩ := hboth
      have henough : 0 ≤ s.gasLeft - (beneficiaryCost s top + dueAccountCost s top) := by
        by_contra hnot
        have := (hout (by omega)).1
        rw [hstatus] at this
        cases this
      have hcharged := (hok henough).2.1
      exact hbad ⟨by omega, (hseen hcost).1 (by omega)⟩
    · exact absurd hboth.2.1 (by omega)
  · intro hcond
    refine hdoes.mono (fun status s' ⟨hpays, hstatus, hgas, hrecords⟩ => ?_)
      fun e s' ⟨hneg, hret, hrecords⟩ => ⟨.outOfGas, hret, ?_⟩
    · have hsame : newAccountCost s top = dueAccountCost s top ∧
          0 ≤ s.gasLeft - (beneficiaryCost s top + dueAccountCost s top) := by
        rcases hcond with hneg | hzero | ⟨henough, hvisible⟩
        · omega
        · have := hnew hzero
          omega
        · rcases hdue with hzero | hcost
          · have := hnew hzero
            omega
          · have := (hseen hcost).2 hvisible
            omega
      refine ⟨fun hneg => by omega, fun _ => ⟨hstatus, by omega, hrecords⟩⟩
    · have : 0 ≤ dueAccountCost s top := by omega
      exact ⟨fun _ => ⟨rfl, hrecords⟩, fun hnonneg => by omega⟩

/-- A state of the revision with this much gas and an empty host. -/
def destructState (rev : Revision) (gas : Int) : ExecutionState :=
  { wordsState [.one] with rev := rev, gasLeft := gas }

/-- The state is one that SELFDESTRUCT can be met in. -/
theorem destructState_ready (rev : Revision) (hrev : rev ≥ .tangerineWhistle) (gas : Int)
    (hgas : 0 ≤ gas ∧ gas < 2 ^ 63) : SelfdestructReady (destructState rev gas) 0 where
  slot := by decide
  rev := hrev
  dynamic := by
    show ¬ (wordsState [.one]).msg.isStatic
    decide
  gas := hgas
  recipient := locates_of_empty rfl _
  beneficiary := locates_of_empty rfl _

/-- In the Tangerine Whistle, a gas counter of 30000 pays the charge for a new account. -/
theorem selfdestruct_iff_paid :
    dueAccountCost (destructState .tangerineWhistle 30000) 0 = 25000 ∧
      SelfdestructRule (destructState .tangerineWhistle 30000) 0 := by
  have hready := destructState_ready .tangerineWhistle (by decide) 30000 (by decide)
  refine ⟨by decide, (selfdestruct_iff hready).2 (.inr (.inr ⟨?_, .inl rfl⟩))⟩
  decide

/-- In the Tangerine Whistle, the charge for a new account takes a gas counter of 1000 below zero,
and the record is left all the same. -/
theorem selfdestruct_iff_tangerine : ¬ SelfdestructRule (destructState .tangerineWhistle 1000) 0 := by
  intro hrule
  have hready := destructState_ready .tangerineWhistle (by decide) 1000 (by decide)
  have hcost : beneficiaryCost (destructState .tangerineWhistle 1000) 0 +
      dueAccountCost (destructState .tangerineWhistle 1000) 0 = 25000 := by decide
  have hgas : (destructState .tangerineWhistle 1000).gasLeft = 1000 := rfl
  have hboth := hrule.and (sat_selfdestructRecord hready)
  unfold Sat at hboth
  split at hboth
  · obtain ⟨⟨hout, -⟩, -, hstatus, -⟩ := hboth
    have := (hout (by omega)).1
    rw [hstatus] at this
    cases this
  · exact absurd hboth.2.1 (by decide)

end TscVee
