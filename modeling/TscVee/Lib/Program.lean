/-!
# `TscVee.Lib.Program`: reasoning about programs with state and errors

A program is an `EStateM ε σ α`. It ends normally with a value or with an error, and leaves a
state in both cases.

* `Sat x s Q E`: from the state `s`, the program `x` ends normally in `Q` or with an error in `E`.
  The rules are equivalences, one for each operation of the monad, for `simp only` and `rw`.
* `Contract`: an invariant, a transitive relation between the start and a normal end, and a
  relation between the start and an error. `Contract.Holds x` is closed under the operations of
  the monad.
* `Built P x`: the program `x` is put together from primitive programs in `P`. What the
  primitives do, the program does: `Built.holds` for contracts, and `Built.shifts` for a map on
  states that normal runs commute with.
-/

set_option autoImplicit false

namespace TscVee.Lib

variable {ε σ α β : Type}

/-! ### Outcomes -/

/-- From the state `s`, the program ends normally in `Q` or with an error in `E`. -/
def Sat (x : EStateM ε σ α) (s : σ) (Q : α → σ → Prop) (E : ε → σ → Prop) : Prop :=
  match x s with
  | .ok a s' => Q a s'
  | .error e s' => E e s'

/-- The program ends normally, as a test. -/
def endsOk (x : EStateM ε σ α) (s : σ) : Bool :=
  match x s with
  | .ok _ _ => true
  | .error _ _ => false

/-- The program ends normally with a value that passes the test. -/
def endsWith (test : α → Bool) (x : EStateM ε σ α) (s : σ) : Bool :=
  match x s with
  | .ok a _ => test a
  | .error _ _ => false

/-- The program ends with an error and a state that pass the test. -/
def failsWith (test : ε → σ → Bool) (x : EStateM ε σ α) (s : σ) : Bool :=
  match x s with
  | .ok _ _ => false
  | .error e s' => test e s'

/-- A run that fails as tested has an error and a state that pass the test. -/
theorem exists_of_failsWith {test : ε → σ → Bool} {x : EStateM ε σ α} {s : σ}
    (h : failsWith test x s = true) : ∃ e s', x s = .error e s' ∧ test e s' = true := by
  unfold failsWith at h
  split at h
  · cases h
  · exact ⟨_, _, ‹_›, h⟩

/-- A run that ends as tested has a value that passes the test. -/
theorem exists_of_endsWith {test : α → Bool} {x : EStateM ε σ α} {s : σ}
    (h : endsWith test x s = true) : ∃ a s', x s = .ok a s' ∧ test a = true := by
  unfold endsWith at h
  split at h
  · exact ⟨_, _, ‹_›, h⟩
  · cases h

/-- A run that ends has a value. -/
theorem exists_of_endsOk {x : EStateM ε σ α} {s : σ} (h : endsOk x s = true) :
    ∃ a s', x s = .ok a s' := by
  unfold endsOk at h
  split at h
  · exact ⟨_, _, ‹_›⟩
  · cases h

/-- A run of two programs goes through a state between them. -/
theorem exists_of_bind {x : EStateM ε σ β} {f : β → EStateM ε σ α} {s s'' : σ} {a : α}
    (h : (x >>= f) s = .ok a s'') : ∃ b s', x s = .ok b s' ∧ f b s' = .ok a s'' := by
  have hbind : (match x s with | .ok b s' => f b s' | .error e s' => .error e s') = .ok a s'' := h
  split at hbind
  · exact ⟨_, _, ‹_›, hbind⟩
  · cases hbind

section
variable {Q : α → σ → Prop} {E : ε → σ → Prop} {s : σ}

/-- A value. -/
theorem sat_pure (a : α) : Sat (pure a : EStateM ε σ α) s Q E ↔ Q a s := Iff.rfl

/-- Two programs: what is said of the second one is said of the states that the first one leaves. -/
theorem sat_bind (x : EStateM ε σ β) (f : β → EStateM ε σ α) :
    Sat (x >>= f) s Q E ↔ Sat x s (fun b s' => Sat (f b) s' Q E) E := by
  show (match EStateM.bind x f s with | .ok a s' => Q a s' | .error e s' => E e s') ↔ _
  unfold EStateM.bind Sat
  cases x s <;> rfl

/-- An error. -/
theorem sat_throw (e : ε) : Sat (throw e : EStateM ε σ α) s Q E ↔ E e s := Iff.rfl

/-- The state is read. -/
theorem sat_get {Q : σ → σ → Prop} : Sat (get : EStateM ε σ σ) s Q E ↔ Q s s := Iff.rfl

/-- The state is replaced. -/
theorem sat_set {Q : PUnit → σ → Prop} (s' : σ) :
    Sat (set s' : EStateM ε σ PUnit) s Q E ↔ Q ⟨⟩ s' := Iff.rfl

/-- The state is updated. -/
theorem sat_modify {Q : PUnit → σ → Prop} (f : σ → σ) :
    Sat (modify f : EStateM ε σ PUnit) s Q E ↔ Q ⟨⟩ (f s) := Iff.rfl

/-- A branch: both sides, each under its own condition. -/
theorem sat_ite {c : Prop} [Decidable c] {x y : EStateM ε σ α} :
    Sat (if c then x else y) s Q E ↔ (c → Sat x s Q E) ∧ (¬ c → Sat y s Q E) := by
  split <;> simp [*]

/-- Every program ends in some way or other. -/
theorem sat_trivial (x : EStateM ε σ α) (s : σ) :
    Sat x s (fun _ _ => True) fun _ _ => True := by
  unfold Sat
  split <;> trivial

/-- Weaker conditions on the outcome. -/
theorem Sat.mono {x : EStateM ε σ α} {Q' : α → σ → Prop} {E' : ε → σ → Prop}
    (h : Sat x s Q E) (hQ : ∀ a s', Q a s' → Q' a s') (hE : ∀ e s', E e s' → E' e s') :
    Sat x s Q' E' := by
  unfold Sat at *
  split at h
  · exact hQ _ _ h
  · exact hE _ _ h

/-- Two judgements of one program. -/
theorem Sat.and {x : EStateM ε σ α} {Q' : α → σ → Prop} {E' : ε → σ → Prop}
    (h : Sat x s Q E) (h' : Sat x s Q' E') :
    Sat x s (fun a s' => Q a s' ∧ Q' a s') fun e s' => E e s' ∧ E' e s' := by
  unfold Sat at *
  split at h <;> simp_all

/-- What a normal end satisfies. -/
theorem Sat.of_ok {x : EStateM ε σ α} {a : α} {s' : σ} (h : Sat x s Q E) (hx : x s = .ok a s') :
    Q a s' := by
  unfold Sat at h
  rwa [hx] at h

/-- A normal end, as a contract. -/
theorem sat_eq_iff {x : EStateM ε σ α} {a : α} {s' : σ} :
    Sat x s (fun b t => b = a ∧ t = s') (fun _ _ => False) ↔ x s = .ok a s' := by
  unfold Sat
  cases x s <;> simp

/-- A program without errors ends normally. -/
theorem Sat.exists_ok {x : EStateM ε σ α} (h : Sat x s Q fun _ _ => False) :
    ∃ a s', x s = .ok a s' ∧ Q a s' := by
  unfold Sat at h
  split at h
  · exact ⟨_, _, ‹_›, h⟩
  · exact h.elim

/-- A program that does not end normally ends with an error. -/
theorem Sat.exists_error {x : EStateM ε σ α} (h : Sat x s (fun _ _ => False) E) :
    ∃ e s', x s = .error e s' ∧ E e s' := by
  unfold Sat at h
  split at h
  · exact h.elim
  · exact ⟨_, _, ‹_›, h⟩

/-- What an error satisfies. -/
theorem Sat.of_error {x : EStateM ε σ α} {e : ε} {s' : σ} (h : Sat x s Q E)
    (hx : x s = .error e s') : E e s' := by
  unfold Sat at h
  rwa [hx] at h

/-- Normal runs one behind the other. -/
theorem ok_bind {x : EStateM ε σ β} {f : β → EStateM ε σ α} {s' s'' : σ} {b : β} {a : α}
    (hx : x s = .ok b s') (hf : f b s' = .ok a s'') : (x >>= f) s = .ok a s'' := by
  show (match x s with | .ok b s' => f b s' | .error e s' => .error e s') = _
  rw [hx]
  exact hf

end

/-! ### Contracts -/

/-- What a program keeps, and how it may move the state. -/
structure Contract (ε σ : Type) where
  /-- Holds at the start and at a normal end. -/
  inv : σ → Prop
  /-- Relates the start to a normal end. -/
  rel : σ → σ → Prop
  /-- Relates the start to the end with an error. -/
  err : ε → σ → σ → Prop
  refl : ∀ s, rel s s
  trans : ∀ {s s' s''}, rel s s' → rel s' s'' → rel s s''
  err_of_rel : ∀ {e s s' s''}, rel s s' → err e s' s'' → err e s s''

namespace Contract

variable (C : Contract ε σ) {Q : α → Prop}

/-- From every state with the invariant, the program meets the contract and returns a value in
`Q`. -/
def Holds (x : EStateM ε σ α) (Q : α → Prop) : Prop :=
  ∀ s, C.inv s → Sat x s (fun a s' => Q a ∧ C.inv s' ∧ C.rel s s') fun e s' => C.err e s s'

/-- What the contract says of a start and a normal end. -/
def Along (s s' : σ) : Prop := C.inv s → C.inv s' ∧ C.rel s s'

variable {C}

/-- A value keeps every contract. -/
theorem Holds.pure {a : α} (h : Q a) : C.Holds (pure a : EStateM ε σ α) Q :=
  fun s hs => ⟨h, hs, C.refl s⟩

/-- Two programs that keep the contract, one after the other. -/
theorem Holds.bind {x : EStateM ε σ β} {f : β → EStateM ε σ α} {R : β → Prop}
    (hx : C.Holds x R) (hf : ∀ b, R b → C.Holds (f b) Q) : C.Holds (x >>= f) Q := by
  intro s hs
  rw [sat_bind]
  refine (hx s hs).mono (fun b s' ⟨hb, hs', hrel⟩ => ?_) fun _ _ h => h
  exact (hf b hb s' hs').mono (fun _ _ ⟨hQ, h, hrel'⟩ => ⟨hQ, h, C.trans hrel hrel'⟩)
    fun _ _ h => C.err_of_rel hrel h

/-- What is said of the value may be weakened. -/
theorem Holds.mono {x : EStateM ε σ α} {Q' : α → Prop} (h : C.Holds x Q)
    (hQ : ∀ a, Q a → Q' a) : C.Holds x Q' := fun s hs =>
  (h s hs).mono (fun _ _ ⟨ha, hs', hrel⟩ => ⟨hQ _ ha, hs', hrel⟩) fun _ _ h => h

/-- The contract of an invariant, with what holds after an error. -/
def keeps (I : σ → Prop) (E : ε → σ → Prop) : Contract ε σ where
  inv := I
  rel _ _ := True
  err e _ s' := E e s'
  refl _ := trivial
  trans _ _ := trivial
  err_of_rel _ h := h

/-- Two contracts at once. -/
def both (C D : Contract ε σ) : Contract ε σ where
  inv s := C.inv s ∧ D.inv s
  rel s s' := C.rel s s' ∧ D.rel s s'
  err e s s' := C.err e s s' ∧ D.err e s s'
  refl s := ⟨C.refl s, D.refl s⟩
  trans h h' := ⟨C.trans h.1 h'.1, D.trans h.2 h'.2⟩
  err_of_rel h h' := ⟨C.err_of_rel h.1 h'.1, D.err_of_rel h.2 h'.2⟩

/-- A program that keeps two contracts keeps their product. -/
theorem Holds.both {D : Contract ε σ} {x : EStateM ε σ α} (h : C.Holds x Q)
    (h' : D.Holds x fun _ => True) : (C.both D).Holds x Q := fun s hs =>
  ((h s hs.1).and (h' s hs.2)).mono
    (fun _ _ ⟨⟨ha, hs', hrel⟩, _, hs'', hrel'⟩ => ⟨ha, ⟨hs', hs''⟩, hrel, hrel'⟩) fun _ _ h => h

end Contract

/-! ### Shifts -/

/-- A normal run from a state with the invariant `I` is also a run from the image of the state
under `T`, to the image of its end, and returns a value in `Q`. -/
def Shifts (I : σ → Prop) (T : σ → σ) (x : EStateM ε σ α) (Q : α → Prop) : Prop :=
  ∀ s a s', I s → x s = .ok a s' → x (T s) = .ok a (T s') ∧ I s' ∧ Q a

/-- Two programs that commute with the shift of the state, one after the other. -/
theorem Shifts.bind {I : σ → Prop} {T : σ → σ} {x : EStateM ε σ β} {f : β → EStateM ε σ α}
    {R : β → Prop} {Q : α → Prop} (hx : Shifts I T x R) (hf : ∀ b, R b → Shifts I T (f b) Q) :
    Shifts I T (x >>= f) Q := by
  intro s a s'' hs h
  have hbind : ∀ s, (x >>= f) s = EStateM.bind x f s := fun _ => rfl
  rw [hbind] at h ⊢
  unfold EStateM.bind at h ⊢
  cases hxs : x s with
  | error e s' => simp [hxs] at h
  | ok b s' =>
      rw [hxs] at h
      obtain ⟨hxT, hs', hb⟩ := hx s b s' hs hxs
      rw [hxT]
      exact hf b hb s' a s'' hs' h

/-! ### Programs put together from primitives -/

/-- The program is put together from programs in `P`, and returns a value in `Q` when each program
in `P` returns a value as `P` says. -/
inductive Built (P : (α : Type) → EStateM ε σ α → (α → Prop) → Prop) :
    (α : Type) → EStateM ε σ α → (α → Prop) → Prop
  | prim {α : Type} {x : EStateM ε σ α} {Q : α → Prop} (h : P α x Q) : Built P α x Q
  | pure {α : Type} {a : α} {Q : α → Prop} (h : Q a) : Built P α (pure a) Q
  | bind {α β : Type} {x : EStateM ε σ β} {f : β → EStateM ε σ α} {R : β → Prop} {Q : α → Prop}
      (hx : Built P β x R) (hf : ∀ b, R b → Built P α (f b) Q) : Built P α (x >>= f) Q

namespace Built

variable {P : (α : Type) → EStateM ε σ α → (α → Prop) → Prop} {x : EStateM ε σ α} {Q : α → Prop}

/-- More primitives. -/
theorem mono {P' : (α : Type) → EStateM ε σ α → (α → Prop) → Prop}
    (h : ∀ α x Q, P α x Q → P' α x Q) (hx : Built P α x Q) : Built P' α x Q := by
  induction hx with
  | prim hp => exact .prim (h _ _ _ hp)
  | pure h => exact .pure h
  | bind _ _ ihx ihf => exact .bind ihx ihf

/-- A weaker condition on the value. -/
theorem weaken {Q' : α → Prop} (hx : Built P α x Q) (h : ∀ a, Q a → Q' a) : Built P α x Q' := by
  rw [← bind_pure x]
  exact .bind hx fun a ha => .pure (h a ha)

/-- A contract of the primitives is one of the program. -/
theorem holds {C : Contract ε σ} (h : ∀ α x Q, P α x Q → C.Holds x Q) (hx : Built P α x Q) :
    C.Holds x Q := by
  induction hx with
  | prim hp => exact h _ _ _ hp
  | pure h => exact .pure h
  | bind _ _ ihx ihf => exact .bind ihx ihf

/-- What the normal runs of the primitives commute with, those of the program do. -/
theorem shifts {I : σ → Prop} {T : σ → σ} (h : ∀ α x Q, P α x Q → Shifts I T x Q)
    (hx : Built P α x Q) : Shifts I T x Q := by
  induction hx with
  | prim hp => exact h _ _ _ hp
  | pure h =>
      intro s b s' hs heq
      cases heq
      exact ⟨rfl, hs, h⟩
  | bind _ _ ihx ihf => exact .bind ihx ihf

/-- Both branches are put together from primitives. -/
theorem ite {c : Prop} [Decidable c] {y : EStateM ε σ α} (hx : c → Built P α x Q)
    (hy : ¬ c → Built P α y Q) : Built P α (if c then x else y) Q := by
  split
  case isTrue h => exact hx h
  case isFalse h => exact hy h

end Built

end TscVee.Lib
