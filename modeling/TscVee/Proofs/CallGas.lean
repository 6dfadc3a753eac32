import TscVee.Proofs.CallPhases

/-!
# `TscVee.Proofs.CallGas`: what a call costs and what the callee gets

`CallRule` says what the gas of a call instruction is to be: a call that moves value pays 9000, and
25000 more for a `CALL` to a new account; a `CALL` that moves value fails in static mode; the callee
gets at most all but one 64th of what is left, and 2300 more with value; and a callee that returns
no more than it got does not raise the gas counter.

The code computes `has_value` as "the value is zero". So the polarity of the cost, of the stipend
and of the static check is the other way round (`sat_charge`), for every value. `callRule_iff`
follows: no call instruction that comes to its charge keeps the rule.
-/

set_option autoImplicit false

namespace TscVee

open TscVee.Core Lib

section
variable [Env] (i : CallInstr) (top : StackTop) (s : ExecutionState)

/-! ### The rule -/

/-- The instruction comes to its charge in the state `s₁`, and the host knows whether the callee's
account exists. -/
structure CallInstr.ReachesCharge (msg : Message) (s₁ : ExecutionState) (known : Bool) : Prop where
  prepare : i.prepare top s = .ok (CallInstr.dst top s, i.value top s, msg) s₁
  host : ∃ host, (HostOp.accountExists (CallInstr.dst top s)).serve s₁.hostCtx = .ok known host

/-- The price of moving the value. -/
def CallInstr.valueCost (value : Uint256) (known : Bool) : Int :=
  if value.toNat = 0 then 0 else 9000 + if i = .call ∧ known = false then 25000 else 0

/-- The gas of the message with `gas` left: all but one 64th at most, and the stipend. -/
def CallInstr.messageGas (gasOperand value : Uint256) (gas : Int) : Int :=
  min (gasOperand.toNat : Int) (gas - gas / 64) + if value.toNat = 0 then 0 else 2300

/-- A `CALL` that moves value in static mode. -/
def CallInstr.Refused (value : Uint256) : Prop :=
  i = .call ∧ value.toNat ≠ 0 ∧ executionStateInStaticMode s = true

/-- What is to happen from the charge on. -/
structure CallInstr.Charged (msg : Message) (s₁ : ExecutionState) (known : Bool) : Prop where
  static : Sat (i.charge (dst top s) (i.value top s)) s₁ (fun _ _ => ¬ i.Refused s (i.value top s))
    fun h _ => h = .ret .staticModeViolation ↔ i.Refused s (i.value top s)
  cost : ¬ i.Refused s (i.value top s) →
    Sat (i.charge (dst top s) (i.value top s)) s₁
      (fun _ s₂ => s₂.gasLeft = s₁.gasLeft - i.valueCost (i.value top s) known)
      fun h s₂ => h = .ret .outOfGas ∧ s₂.gasLeft = s₁.gasLeft - i.valueCost (i.value top s) known
  gift : ∀ s₂, i.charge (dst top s) (i.value top s) s₁ = .ok () s₂ →
    Sat (CallInstr.gift top (i.value top s)) s₂
      (fun g _ => g = messageGas (s.stackSpace top) (i.value top s) s₂.gasLeft ∧ 0 ≤ g)
      fun _ _ => False
  notAbove : ∀ s₂ g s₃ s₄, i.charge (dst top s) (i.value top s) s₁ = .ok () s₂ →
    CallInstr.gift top (i.value top s) s₂ = .ok g s₃ →
    callHost (zero256 (i.value top s)) (i.value top s) { msg with gas := g } (i.base top - 3)
      (i.base top - 2) (i.base top - 3) s₃ = .ok () s₄ →
    0 ≤ s₃.hostCtx.callResult.gasLeft → s₃.hostCtx.callResult.gasLeft ≤ g → s₄.gasLeft ≤ s.gasLeft

/-- The gas of a call instruction. -/
def CallRule : Prop :=
  ∀ msg s₁ known, i.ReachesCharge top s msg s₁ known → i.Charged top s msg s₁ known

end

/-! ### What the code charges -/

section
variable {i : CallInstr} {s : ExecutionState}

/-- What `CALL` charges besides the value: 25000 or nothing. It refuses a call without value. -/
theorem sat_extraCost {hasValue known : Bool} {dst : Address} {host : MockedHost}
    (hhost : (HostOp.accountExists dst).serve s.hostCtx = .ok known host) :
    Sat (i.extraCost hasValue dst) s
      (fun cost s' => (cost = 0 ∨ cost = 25000) ∧ s'.gasLeft = s.gasLeft)
      fun h _ => h = .ret .staticModeViolation ∧ hasValue = true := by
  cases i with
  | callcode | delegatecall | staticcall => exact ⟨Or.inl rfl, rfl⟩
  | call =>
      have hask : ∀ {Q E}, Q known { s with
            hostCtx := host, trace := s.trace ++ [.host (.accountExists dst)] } →
          Sat (ask (.accountExists dst)) s Q E := by
        intro Q E hQ
        rw [sat_ask]
        unfold Sat
        rw [hhost]
        exact hQ
      simp only [CallInstr.extraCost, sat_bind, sat_get, sat_ite, sat_ret, sat_pure, sat_read]
      refine ⟨fun hstatic => ⟨trivial, hstatic.1⟩, fun _ => ⟨fun _ => hask ?_, fun _ => ?_⟩⟩
      · cases known <;> simp
      · simp

variable (i) in
/-- What the code charges from the state `s`, and how the charge fails. A call with value is
not charged for it, and a call without is charged 9000. -/
theorem sat_charge (value : Uint256) {known : Bool} {dst : Address} {host : MockedHost}
    (hhost : (HostOp.accountExists dst).serve s.hostCtx = .ok known host) :
    Sat (i.charge dst value) s
      (fun _ s' => ∃ extra : Int, (extra = 0 ∨ extra = 25000) ∧
        s'.gasLeft = s.gasLeft - ((if value.toNat = 0 then 9000 else 0) + extra))
      fun h s' => (h = .ret .staticModeViolation ∧ value.toNat = 0) ∨ h = .fault .signedOverflow ∨
        h = .ret .outOfGas ∧ ∃ extra : Int, (extra = 0 ∨ extra = 25000) ∧
          s'.gasLeft = s.gasLeft - ((if value.toNat = 0 then 9000 else 0) + extra) := by
  simp only [CallInstr.charge, sat_bind, zero256_iff]
  generalize (if value.toNat = 0 then 9000 else 0 : Int) = paid
  refine (sat_extraCost hhost).mono (fun extra s₁ h => ?_) fun h _ hh => ?_
  · have hgas := h.2
    rw [sat_chargeGas]
    split
    · split
      · exact Or.inr (Or.inr ⟨rfl, extra, h.1, by rw [hgas]⟩)
      · exact ⟨extra, h.1, by rw [hgas]⟩
    · exact Or.inr (Or.inl rfl)
  · exact Or.inl ⟨hh.1, (zero256_iff value).1 hh.2⟩

/-- The cost of the value is charged exactly when there is none. -/
theorem valueCost_ne {value : Uint256} {known : Bool} {extra gas gas' : Int}
    (hextra : extra = 0 ∨ extra = 25000)
    (hgas : gas' = gas - ((if value.toNat = 0 then 9000 else 0) + extra)) :
    gas' ≠ gas - i.valueCost value known := by
  unfold CallInstr.valueCost
  split at hgas <;> split <;> omega

variable [Env] {top : StackTop}

/-- An instruction that comes to its charge breaks the rule. -/
theorem CallInstr.ReachesCharge.not_charged {msg : Message} {s₁ : ExecutionState} {known : Bool}
    (h : i.ReachesCharge top s msg s₁ known) : ¬ i.Charged top s msg s₁ known := by
  intro hrule
  obtain ⟨host, hhost⟩ := h.host
  have hcharge := sat_charge i (i.value top s) hhost
  have hstatic := hrule.static
  cases hrun : i.charge (dst top s) (i.value top s) s₁ with
  | ok u s₂ =>
      obtain ⟨extra, hextra, hgas⟩ := hcharge.of_ok hrun
      have hallowed := hstatic.of_ok hrun
      exact valueCost_ne hextra hgas ((hrule.cost hallowed).of_ok hrun)
  | error e s₂ =>
      have hrefused := hstatic.of_error hrun
      rcases hcharge.of_error hrun with ⟨rfl, hzero⟩ | rfl | ⟨rfl, extra, hextra, hgas⟩
      · -- Static mode stops a call without value.
        exact (hrefused.1 rfl).2.1 hzero
      · have hallowed : ¬ i.Refused s (i.value top s) := fun hr => by simpa using hrefused.2 hr
        exact absurd ((hrule.cost hallowed).of_error hrun).1 (by simp)
      · have hallowed : ¬ i.Refused s (i.value top s) := fun hr => by simpa using hrefused.2 hr
        exact valueCost_ne hextra hgas ((hrule.cost hallowed).of_error hrun).2

variable (i top s)

/-- A call instruction keeps the rule exactly where it ends before its charge. -/
theorem callRule_iff :
    CallRule i top s ↔ ¬ ∃ msg s₁ known, i.ReachesCharge top s msg s₁ known := by
  constructor
  · rintro hrule ⟨msg, s₁, known, h⟩
    exact h.not_charged (hrule msg s₁ known h)
  · intro hnever msg s₁ known h
    exact absurd ⟨msg, s₁, known, h⟩ hnever

end

/-- A state with an empty memory and a stack of zeros. -/
def zeroStackState [Env] : ExecutionState :=
  executionStateInitV { (default : Message) with gas := 100000 } .tangerineWhistle
    (mockedHostInit default) []

/-- A `CALL` without value is charged 9000. -/
theorem callRule_iff_zero : let _ : Env := Env.zeroed; ¬ CallRule .call 6 zeroStackState := by
  intro _ hrule
  have h : CallInstr.call.ReachesCharge 6 zeroStackState _ _ _ := ⟨rfl, _, rfl⟩
  exact h.not_charged (hrule _ _ _ h)

end TscVee
