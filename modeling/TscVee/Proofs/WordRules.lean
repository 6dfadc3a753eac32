import TscVee.Proofs.CoreRules
import TscVee.Proofs.Words

/-!
# `TscVee.Proofs.WordRules`: instructions that work on words

Most arithmetic instructions are `binary f` or `ternary f` for an operation `f` on words. What such
an instruction leaves on the stack is what `f` returns.

* `StackHolds`: the operands are in the stack space.
* `Leaves`: the instruction ends normally, has put a number in a slot, and changed nothing else.
* `leaves_unary`, `leaves_binary`, `leaves_ternary`: the families in terms of their operation.
-/

set_option autoImplicit false

namespace TscVee

open TscVee.Core Lib

/-- The slots of the `n` topmost items are in the stack space. -/
def StackHolds (top : StackTop) (n : Int) : Prop := n - 1 ≤ top ∧ top < 1024

instance (top : StackTop) (n : Int) : Decidable (StackHolds top n) :=
  inferInstanceAs (Decidable (_ ∧ _))

/-- The slot of an operand is in the stack space. -/
theorem StackHolds.slot {top n i : Int} (h : StackHolds top n) (hi : 0 ≤ i) (hn : i < n) :
    inStackSpace (top - i) := by
  obtain ⟨hlow, hhigh⟩ : n - 1 ≤ top ∧ top < 1024 := h
  have hslot : 0 ≤ top - i ∧ top - i < 1024 := by omega
  exact hslot

/-- A stack with more items has fewer, too. -/
theorem StackHolds.mono {top m n : Int} (h : StackHolds top n) (hm : m ≤ n) : StackHolds top m :=
  ⟨by have := h.1; omega, h.2⟩

/-- The top item is in the stack space. -/
theorem StackHolds.top {top n : Int} (h : StackHolds top n) (hn : 0 < n) :
    inStackSpace top := by
  have hslot := h.slot (le_refl 0) hn
  rwa [Int.sub_zero] at hslot

/-- The instruction ends normally. It has put the number `n` in the slot `p`, and everything else is
as it was. -/
def Leaves (instr : Core Unit) (s : ExecutionState) (p : Slot) (n : Nat) : Prop :=
  ∃ w : Uint256, w.toNat = n ∧ instr s = .ok () (s.setSlot p w)

/-- The word that was set. -/
theorem ExecutionState.setSlot_self (s : ExecutionState) (p : Slot) (w : Uint256) :
    (s.setSlot p w).stackSpace p = w := if_pos rfl

section
variable {s : ExecutionState} {p : Slot} {n : Nat}

/-- What a store of a result leaves. -/
theorem leaves_of_eq {instr : Core Unit} {w : Uint256} (h : instr s = .ok () (s.setSlot p w)) :
    Leaves instr s p n ↔ w.toNat = n := by
  constructor
  · rintro ⟨w', hn, hw'⟩
    rw [h] at hw'
    have hslot := congrArg (fun r : EStateM.Result Halt ExecutionState Unit =>
      match r with
      | .ok _ s' => s'.stackSpace p
      | .error _ s' => s'.stackSpace p) hw'
    simp only [ExecutionState.setSlot_self] at hslot
    rwa [hslot]
  · intro hn
    exact ⟨w, hn, h⟩

/-- A slot is left with one number only. -/
theorem Leaves.unique {instr : Core Unit} {m : Nat} (h : Leaves instr s p n)
    (h' : Leaves instr s p m) : n = m := by
  obtain ⟨w, rfl, hw⟩ := h
  exact (leaves_of_eq hw).1 h'

/-- A load from the stack space. -/
theorem load_eq (hp : inStackSpace p) : load p s = .ok (s.stackSpace p) s := by
  have hload := (sat_load p (s := s) (Q := fun w s' => w = s.stackSpace p ∧ s' = s)
    (E := fun _ _ => False)).2 (by rw [if_pos hp]; exact ⟨rfl, rfl⟩)
  obtain ⟨w, s', heq, rfl, rfl⟩ := hload.exists_ok
  exact heq

/-- A store to the stack space. -/
theorem store_eq (hp : inStackSpace p) (w : Uint256) : store p w s = .ok () (s.setSlot p w) := by
  have hstore := (sat_store p w (s := s) (Q := fun _ s' => s' = s.setSlot p w)
    (E := fun _ _ => False)).2 (by rw [if_pos hp])
  obtain ⟨_, s', heq, rfl⟩ := hstore.exists_ok
  exact heq

end

section
variable {s : ExecutionState} {top : StackTop} {n : Nat}

/-- A program behind one that has ended. -/
theorem bind_eq_of_ok {α β : Type} {x : Core α} {f : α → Core β} {s s' : ExecutionState} {a : α}
    (h : x s = .ok a s') : (x >>= f) s = f a s' := by
  show EStateM.bind x f s = _
  unfold EStateM.bind
  rw [h]

/-- What an instruction with one operand leaves. -/
theorem leaves_unary {f : Uint256 → Uint256} (h : StackHolds top 1) :
    Leaves (unary f top) s top n ↔ (f (s.stackSpace top)).toNat = n := by
  refine leaves_of_eq ?_
  unfold unary StackTop.top
  rw [bind_eq_of_ok (load_eq (h.top (by decide)))]
  exact store_eq (h.top (by decide)) _

/-- An instruction with two operands, where the operation has a result. -/
theorem binary_eq {f : Uint256 → Uint256 → Option Uint256} (h : StackHolds top 2) {w : Uint256}
    (hf : f (s.stackSpace top) (s.stackSpace (top - 1)) = some w) :
    binary f top s = .ok () (s.setSlot (top - 1) w) := by
  have htop : top - 0 = top := Int.sub_zero top
  unfold binary StackTop.get
  rw [htop, bind_eq_of_ok (load_eq (h.top (by decide))),
    bind_eq_of_ok (load_eq (h.slot (by decide) (by decide))), hf]
  exact store_eq (h.slot (by decide) (by decide)) w

/-- What an instruction with two operands leaves. -/
theorem leaves_binary {f : Uint256 → Uint256 → Option Uint256} (h : StackHolds top 2) {w : Uint256}
    (hf : f (s.stackSpace top) (s.stackSpace (top - 1)) = some w) :
    Leaves (binary f top) s (top - 1) n ↔ w.toNat = n :=
  leaves_of_eq (binary_eq h hf)

/-- An instruction on three operands leaves its result in the lowest one. -/
theorem ternary_eq {f : Uint256 → Uint256 → Uint256 → Option Uint256} (h : StackHolds top 3)
    {w : Uint256}
    (hf : f (s.stackSpace top) (s.stackSpace (top - 1)) (s.stackSpace (top - 2)) = some w) :
    ternary f top s = .ok () (s.setSlot (top - 2) w) := by
  have htop : top - 0 = top := Int.sub_zero top
  unfold ternary StackTop.get
  rw [htop, bind_eq_of_ok (load_eq (h.top (by decide))),
    bind_eq_of_ok (load_eq (h.slot (by decide) (by decide))),
    bind_eq_of_ok (load_eq (h.slot (by decide) (by decide))), hf]
  exact store_eq (h.slot (by decide) (by decide)) w

/-- What an instruction with three operands leaves. -/
theorem leaves_ternary {f : Uint256 → Uint256 → Uint256 → Option Uint256} (h : StackHolds top 3)
    {w : Uint256}
    (hf : f (s.stackSpace top) (s.stackSpace (top - 1)) (s.stackSpace (top - 2)) = some w) :
    Leaves (ternary f top) s (top - 2) n ↔ w.toNat = n :=
  leaves_of_eq (ternary_eq h hf)

end

/-- A state with these words on the stack, the last one on top. -/
def wordsState (words : List Uint256) : ExecutionState :=
  let _ : Env := Env.zeroed
  { executionStateInitV { (default : Message) with gas := 100000 } .london (mockedHostInit default) []
    with stackSpace := fun p => words.getD p.toNat .zero }

end TscVee
