import TscVee.Proofs.MemorySound

/-!
# `TscVee.Proofs.MemoryTrace`: uses of EVM memory inside and outside of it

The trace records every range of EVM memory that an instruction reads, writes or publishes, every
range that a memory check looks at, and the price of a check that succeeds. `Safe` says that all uses
are inside of the memory, and that no check has wrapped.

`Uses x s P` is a judgement about a program without memory checks: from `s`, whatever its outcome, it
uses no EVM memory, or all that it uses is inside of the memory exactly when `P` holds. The rules
follow the monad: `Uses.bind_idle` for what comes in front, one rule for each kind of use, and
`Uses.bind_ends` for what comes behind.

`Judged x s C P` is the judgement about a program that checks one range, or none, before it uses the
memory: if it makes the check, this wraps exactly when `C` does not hold. `RangeFits` is the arithmetic
of a check, and `Judged.bind_requireMemoryU64` and `Judged.bind_requireMemoryU256` are the rules.
-/

set_option autoImplicit false

namespace TscVee

open TscVee.Core Lib

/-! ### Events inside of the memory -/

/-- A used range lies in the memory. -/
def Event.Inside : Event → Prop
  | .memAccess offset len size => len ≠ 0 → offset + len ≤ size
  | _ => True

/-- A memory check starts or succeeds. -/
def Event.isCheck : Event → Bool
  | .memRange _ _ | .memCheck _ _ _ => true
  | _ => false

/-- A byte of EVM memory is used. -/
def Event.UsesMemory : Event → Prop
  | .memAccess _ len _ => len ≠ 0
  | _ => False

/-- What may follow on the check of a range, in a run that ends with `ends`. The check succeeds: the
memory reaches up to the end of the range and has not shrunk, at a price that is not negative. Or the
check is the last thing that happens: it refuses the instruction for lack of gas, or the allocation
fails for a range whose end needs at most 64 bits. -/
def RangeHolds (ends : Option Halt) (offset size : Nat) : List Event → Prop
  | .memCheck cost old new :: _ => offset + size ≤ new ∧ old ≤ new ∧ 0 ≤ cost
  | _ => ends = some (.ret .outOfGas) ∨
      ends = some (.fault .nullPointer) ∧ offset + size < 2 ^ 64

/-- None of the memory checks wraps. -/
def ChecksHold (ends : Option Halt) : List Event → Prop
  | [] => True
  | .memRange offset size :: events => RangeHolds ends offset size events ∧ ChecksHold ends events
  | _ :: events => ChecksHold ends events

/-- In a run that ends with `ends`, the memory has not shrunk, the new events are inside of it, and
no memory check has wrapped. -/
structure Safe (ends : Option Halt) (s s' : ExecutionState) : Prop where
  size : s.memory.mSize ≤ s'.memory.mSize
  events : ∃ events, s'.trace = s.trace ++ events ∧ (∀ e ∈ events, e.Inside) ∧ ChecksHold ends events

/-- A new event uses a byte of EVM memory. -/
def UsesMemory (s s' : ExecutionState) : Prop :=
  ∃ events, s'.trace = s.trace ++ events ∧ ∃ e ∈ events, e.UsesMemory

/-- A memory check is made. -/
def ChecksMemory (s s' : ExecutionState) : Prop :=
  ∃ events, s'.trace = s.trace ++ events ∧ ∃ e ∈ events, e.isCheck = true

/-- No memory is checked, and no byte of it is used. -/
structure NoUse (s s' : ExecutionState) : Prop where
  size : s.memory.mSize ≤ s'.memory.mSize
  events : ∃ events, s'.trace = s.trace ++ events ∧
    ∀ e ∈ events, e.Inside ∧ ¬ e.UsesMemory ∧ e.isCheck = false

/-- EVM memory is used without a check, inside of the memory exactly when `P` holds. -/
structure UsedIff (P : Prop) (s s' : ExecutionState) : Prop where
  size : s.memory.mSize ≤ s'.memory.mSize
  events : ∃ events, s'.trace = s.trace ++ events ∧ (∃ e ∈ events, e.UsesMemory) ∧
    ((∀ e ∈ events, e.Inside) ↔ P) ∧ ∀ e ∈ events, e.isCheck = false

section
variable {P : Prop} {s s' s'' : ExecutionState}

/-- The memory and the trace stay. -/
theorem NoUse.of_same (hmemory : s'.memory = s.memory) (htrace : s'.trace = s.trace) : NoUse s s' :=
  ⟨by rw [hmemory], [], by simp [htrace], by simp⟩

/-- A program that does nothing uses no memory. -/
theorem NoUse.refl (s : ExecutionState) : NoUse s s := .of_same rfl rfl

/-- Two programs without a use: the new events are those of the first and then those of the second,
and none of them is a check or a use. -/
theorem NoUse.trans (h : NoUse s s') (h' : NoUse s' s'') : NoUse s s'' := by
  obtain ⟨es, htrace, hes⟩ := h.events
  obtain ⟨es', htrace', hes'⟩ := h'.events
  refine ⟨h.size.trans h'.size, es ++ es', by rw [htrace', htrace, List.append_assoc], ?_⟩
  intro e he
  exact (List.mem_append.1 he).elim (hes e) (hes' e)

/-- A program without a use in front. The events it adds are all inside, so that the verdict on the
use behind it stays. -/
theorem NoUse.trans_used (h : NoUse s s') (h' : UsedIff P s' s'') : UsedIff P s s'' := by
  obtain ⟨es, htrace, hes⟩ := h.events
  obtain ⟨es', htrace', ⟨e, he, huse⟩, hiff, hchecks⟩ := h'.events
  refine ⟨h.size.trans h'.size, es ++ es', by rw [htrace', htrace, List.append_assoc],
    ⟨e, List.mem_append_right _ he, huse⟩, ?_, List.forall_mem_append.2 ⟨?_, hchecks⟩⟩
  · rw [List.forall_mem_append, hiff]
    exact and_iff_right fun e he => (hes e he).1
  · exact fun e he => (hes e he).2.2

/-- A program without a use behind. The events it adds are all inside, so that the verdict on the
use before it stays. -/
theorem UsedIff.trans_noUse (h : UsedIff P s s') (h' : NoUse s' s'') : UsedIff P s s'' := by
  obtain ⟨es, htrace, ⟨e, he, huse⟩, hiff, hchecks⟩ := h.events
  obtain ⟨es', htrace', hes'⟩ := h'.events
  refine ⟨h.size.trans h'.size, es ++ es', by rw [htrace', htrace, List.append_assoc],
    ⟨e, List.mem_append_left _ he, huse⟩, ?_, List.forall_mem_append.2 ⟨hchecks, ?_⟩⟩
  · rw [List.forall_mem_append, hiff]
    exact and_iff_left fun e he => (hes' e he).1
  · exact fun e he => (hes' e he).2.2

/-- Two uses. -/
theorem UsedIff.trans {P' : Prop} (h : UsedIff P s s') (h' : UsedIff P' s' s'') :
    UsedIff (P ∧ P') s s'' := by
  obtain ⟨es, htrace, ⟨e, he, huse⟩, hiff, hchecks⟩ := h.events
  obtain ⟨es', htrace', -, hiff', hchecks'⟩ := h'.events
  refine ⟨h.size.trans h'.size, es ++ es', by rw [htrace', htrace, List.append_assoc],
    ⟨e, List.mem_append_left _ he, huse⟩, ?_, List.forall_mem_append.2 ⟨hchecks, hchecks'⟩⟩
  rw [List.forall_mem_append, hiff, hiff']

/-- The condition of a use may be replaced by an equivalent one. -/
theorem UsedIff.congr {P' : Prop} (h : UsedIff P s s') (hP : P ↔ P') : UsedIff P' s s' := by
  obtain ⟨es, htrace, huse, hiff, hchecks⟩ := h.events
  exact ⟨h.size, es, htrace, huse, hiff.trans hP, hchecks⟩

/-- One range is used. -/
theorem UsedIff.of_access {offset len : Nat} (hlen : len ≠ 0)
    (hsize : s'.memory.mSize = s.memory.mSize)
    (htrace : s'.trace = s.trace ++ [.memAccess offset len s.memory.mSize]) :
    UsedIff (offset + len ≤ s.memory.mSize) s s' := by
  refine ⟨by rw [hsize], _, htrace, ⟨_, List.mem_singleton_self _, hlen⟩, ?_, ?_⟩
  · simp [Event.Inside, hlen]
  · simp [Event.isCheck]

/-- The judgement of an end: no use, or a use that is inside exactly when `P` holds. -/
def Outcome (P : Prop) (s s' : ExecutionState) : Prop := NoUse s s' ∨ UsedIff P s s'

end

/-! ### Programs that use no EVM memory -/

/-- Memory and stack space stay, and no EVM memory is used. -/
structure Idle (s s' : ExecutionState) : Prop where
  memory : s'.memory = s.memory
  stack : s'.stackSpace = s.stackSpace
  noUse : NoUse s s'

/-- The contract of programs that leave memory and stack space alone. -/
def idleContract : Contract Halt ExecutionState where
  inv _ := True
  rel := Idle
  err _ s s' := NoUse s s'
  refl s := ⟨rfl, rfl, .refl s⟩
  trans h h' := ⟨h'.memory.trans h.memory, h'.stack.trans h.stack, h.noUse.trans h'.noUse⟩
  err_of_rel h h' := h.noUse.trans h'

/-- A program without EVM memory, whatever its outcome. -/
def Ends {α : Type} (x : Core α) : Prop := Moves NoUse x

section
variable {α β : Type} {x : Core α} {f : α → Core β} {Q : α → Prop} {s : ExecutionState}

/-- A program that leaves memory and stack space alone uses no EVM memory. -/
theorem ends_of_idle (h : idleContract.Holds x Q) : Ends x := fun s =>
  (h s trivial).mono (fun _ _ h => h.2.2.noUse) fun _ _ h => h

/-- Two programs without EVM memory, one after the other. What the second one does may depend on the
value of the first. -/
theorem Ends.bind (hx : Ends x) (hf : ∀ a, Ends (f a)) : Ends (x >>= f) := by
  intro s
  rw [sat_bind]
  refine (hx s).mono (fun a s' h => ?_) fun _ _ h => h
  exact (hf a s').mono (fun _ _ h' => h.trans h') fun _ _ h' => h.trans h'

/-- A branch is without EVM memory when both sides are, each under its own condition. -/
theorem Ends.ite {c : Prop} [Decidable c] {y : Core α} (hx : c → Ends x) (hy : ¬ c → Ends y) :
    Ends (if c then x else y) := by
  split
  case isTrue h => exact hx h
  case isFalse h => exact hy h

/-- A value uses no EVM memory. -/
theorem ends_pure (a : α) : Ends (pure a : Core α) := fun s => NoUse.refl s

/-- A word that is stored on the stack uses no EVM memory, in and outside of the stack space. -/
theorem ends_store (p : Slot) (value : Uint256) : Ends (store p value) := by
  intro s
  rw [sat_store]
  split
  · exact .of_same rfl rfl
  · exact .refl s

/-- A program that changes neither memory, stack space nor trace. -/
theorem idle_of_same (h : ∀ s, Sat x s
      (fun a s' => Q a ∧ s'.memory = s.memory ∧ s'.stackSpace = s.stackSpace ∧ s'.trace = s.trace)
      fun _ s' => s'.memory = s.memory ∧ s'.trace = s.trace) :
    idleContract.Holds x Q := fun s _ =>
  (h s).mono (fun _ _ ⟨ha, hmemory, hstack, htrace⟩ =>
      ⟨ha, trivial, hmemory, hstack, .of_same hmemory htrace⟩)
    fun _ _ ⟨hmemory, htrace⟩ => .of_same hmemory htrace

/-- Reading a field of the state leaves memory and stack space alone. -/
theorem idle_read (g : ExecutionState → α) : idleContract.Holds (Core.read g) fun _ => True :=
  idle_of_same fun _ => ⟨trivial, rfl, rfl, rfl⟩

/-- Reading the whole state leaves memory and stack space alone. -/
theorem idle_get : idleContract.Holds (get : Core ExecutionState) fun _ => True :=
  idle_of_same fun _ => ⟨trivial, rfl, rfl, rfl⟩

/-- An early return ends the instruction before anything is written. -/
theorem idle_ret (status : StatusCode) : idleContract.Holds (ret status : Core α) Q :=
  idle_of_same fun _ => ⟨rfl, rfl⟩

/-- A fault ends the instruction before anything is written. -/
theorem idle_fault (e : Fault) : idleContract.Holds (fault e : Core α) Q :=
  idle_of_same fun _ => ⟨rfl, rfl⟩

/-- Taking an address for a new object leaves memory and stack space alone. -/
theorem idle_nextFresh : idleContract.Holds nextFresh fun _ => True :=
  idle_of_same fun _ => ⟨trivial, rfl, rfl, rfl⟩

/-- The gas counter is not a part of the memory. -/
theorem idle_setGas (gas : Int) : idleContract.Holds (setGas gas) fun _ => True :=
  idle_of_same fun _ => ⟨trivial, rfl, rfl, rfl⟩

/-- Loading a word does not write one. -/
theorem idle_load (p : Slot) : idleContract.Holds (load p) fun _ => True := by
  refine idle_of_same fun s => ?_
  rw [sat_load]
  split <;> simp

/-- Whether a number fits in an `int64_t` is decided without the memory. -/
theorem idle_int64 (n : Int) : idleContract.Holds (int64 n) fun _ => True := by
  refine idle_of_same fun s => ?_
  rw [sat_int64]
  split <;> simp

/-- Taking gas changes the gas counter only. -/
theorem idle_subGas (cost : Int) : idleContract.Holds (Core.subGas cost) fun _ => True := by
  refine idle_of_same fun s => ?_
  rw [sat_subGas']
  split <;> simp

/-- A charge changes the gas counter, or ends the instruction. -/
theorem idle_chargeGas (cost : Int) : idleContract.Holds (chargeGas cost) fun _ => True := by
  refine idle_of_same fun s => ?_
  rw [sat_chargeGas]
  split
  · split <;> simp
  · simp

/-- An update that keeps memory, stack space and trace is idle. -/
theorem idle_modify (g : ExecutionState → ExecutionState)
    (h : ∀ s, (g s).memory = s.memory ∧ (g s).stackSpace = s.stackSpace ∧ (g s).trace = s.trace) :
    idleContract.Holds (modify g : Core PUnit) fun _ => True :=
  idle_of_same fun s => ⟨trivial, h s⟩

/-- A request to the host is recorded, and the record is not about EVM memory. -/
theorem idle_ask (op : HostOp) : idleContract.Holds (ask op) fun _ => True := by
  intro s _
  have hnoUse : ∀ host, NoUse s { s with hostCtx := host, trace := s.trace ++ [.host op] } :=
    fun host => ⟨le_refl _, [.host op], rfl, by simp [Event.Inside, Event.UsesMemory, Event.isCheck]⟩
  rw [sat_ask]
  exact (sat_trivial _ _).mono (fun _ host _ => ⟨trivial, trivial, rfl, rfl, hnoUse host⟩)
    fun _ host _ => hnoUse host

/-- The charge for a cold account asks the host and takes gas. Neither is about the memory. -/
theorem idle_chargeColdAccount (addr : Address) (cost : Int) :
    idleContract.Holds (chargeColdAccount addr cost) fun _ => True := by
  unfold chargeColdAccount
  refine (idle_read _).bind fun rev _ => ?_
  split
  · refine (idle_ask _).bind fun status _ => ?_
    split
    · exact idle_chargeGas _
    · exact .pure trivial
  · exact .pure trivial

/-- Input that is read has the length asked for. -/
theorem idle_readInput (start n : Nat) :
    idleContract.Holds (readInput start n) fun data => data.length = n := by
  unfold readInput
  refine (idle_read _).bind fun msg _ => ?_
  split
  case isTrue h => exact .pure (by simp [h])
  split
  case isTrue h => exact .pure (by rw [List.length_take, List.length_drop]; omega)
  case isFalse => exact idle_fault _

/-- Code that is read has the length asked for. -/
theorem idle_readCode (start n : Nat) :
    idleContract.Holds (readCode start n) fun data => data.length = n := by
  unfold readCode
  refine (idle_read _).bind fun code _ => ?_
  split
  case isTrue h => exact .pure (by simp [h])
  split
  case isTrue h => exact .pure (by rw [List.length_take, List.length_drop]; omega)
  case isFalse => exact idle_fault _

/-- The length of the return data is read with `strlen`, outside of EVM memory. -/
theorem idle_returnDataLength : idleContract.Holds returnDataLength fun _ => True := by
  unfold returnDataLength
  refine (idle_read _).bind fun returnData _ => ?_
  cases returnData with
  | none => exact idle_fault _
  | some data => exact .pure trivial

/-- The topics of a log are loaded from the stack, which they do not change. -/
theorem idle_popTopics (n : Nat) (stack : StackTop) :
    idleContract.Holds (popTopics n stack) fun _ => True := by
  induction n generalizing stack with
  | zero => exact .pure trivial
  | succ n ih => exact (idle_load _).bind fun _ _ => (ih _).bind fun _ _ => .pure trivial

end

section
variable {α : Type}

/-- Reading a field of the state uses no EVM memory. -/
theorem ends_read (g : ExecutionState → α) : Ends (Core.read g) := ends_of_idle (idle_read g)

/-- An early return uses no EVM memory. -/
theorem ends_ret (status : StatusCode) : Ends (ret status : Core α) :=
  ends_of_idle (idle_ret (Q := fun _ => True) status)

/-- A fault uses no EVM memory. -/
theorem ends_fault (f : Fault) : Ends (fault f : Core α) :=
  ends_of_idle (idle_fault (Q := fun _ => True) f)

/-- Loading a word from the stack uses no EVM memory. -/
theorem ends_load (p : Slot) : Ends (load p) := ends_of_idle (idle_load p)

/-- A request to the host uses no EVM memory. -/
theorem ends_ask (op : HostOp) : Ends (ask op) := ends_of_idle (idle_ask op)

/-- The test of the range of an `int64_t` uses no EVM memory. -/
theorem ends_int64 (n : Int) : Ends (int64 n) := ends_of_idle (idle_int64 n)

/-- Taking gas uses no EVM memory. -/
theorem ends_subGas (cost : Int) : Ends (Core.subGas cost) := ends_of_idle (idle_subGas cost)

/-- A charge uses no EVM memory, whether the gas is enough for it or not. -/
theorem ends_chargeGas (cost : Int) : Ends (chargeGas cost) := ends_of_idle (idle_chargeGas cost)

end

/-! ### The judgement -/

/-- Whatever its outcome, the program uses no EVM memory, or what it uses is inside of the memory
exactly when `P` holds. -/
def Uses {α : Type} (x : Core α) (s : ExecutionState) (P : Prop) : Prop :=
  Sat x s (fun _ s' => Outcome P s s') fun _ s' => Outcome P s s'

section
variable {α β : Type} {x : Core α} {f : α → Core β} {Q : α → Prop} {s : ExecutionState} {P : Prop}

/-- A program without EVM memory fits every condition. -/
theorem Ends.uses (h : Ends x) : Uses x s P :=
  (h s).mono (fun _ _ => Or.inl) fun _ _ => Or.inl

/-- Something that uses no memory in front of a judged end. -/
theorem Outcome.after {s' s'' : ExecutionState} (h : NoUse s s') (h' : Outcome P s' s'') :
    Outcome P s s'' := h'.imp h.trans h.trans_used

/-- Something that uses no memory in front. -/
theorem Uses.bind_noUse (hx : Sat x s (fun a s' => NoUse s s' ∧ Uses (f a) s' P)
    fun _ s' => NoUse s s') : Uses (x >>= f) s P := by
  rw [Uses, sat_bind]
  refine hx.mono (fun a s' ⟨h, hf⟩ => ?_) fun _ _ => Or.inl
  exact hf.mono (fun _ _ => Outcome.after h) fun _ _ => Outcome.after h

/-- Something in front that leaves memory and stack space alone. -/
theorem Uses.bind_idle (hx : idleContract.Holds x Q)
    (hf : ∀ a s', Q a → s'.memory = s.memory → s'.stackSpace = s.stackSpace → Uses (f a) s' P) :
    Uses (x >>= f) s P :=
  .bind_noUse ((hx s trivial).mono
    (fun a s' ⟨ha, _, h⟩ => ⟨h.noUse, hf a s' ha h.memory h.stack⟩) fun _ _ h => h)

/-- Nothing follows an end. -/
theorem Uses.bind_stop (hx : idleContract.Holds x fun _ => False) : Uses (x >>= f) s P :=
  .bind_idle hx fun _ _ h => h.elim

/-- A loaded word is that of the slot. -/
theorem Uses.bind_load {p : Slot} {f : Uint256 → Core α} (hf : Uses (f (s.stackSpace p)) s P) :
    Uses (load p >>= f) s P := by
  refine .bind_noUse ?_
  rw [sat_load]
  split
  · exact ⟨.refl s, hf⟩
  · exact .refl s

/-- Something behind that uses no memory. -/
theorem Uses.bind_ends (hx : Uses x s P) (hf : ∀ a, Ends (f a)) : Uses (x >>= f) s P := by
  rw [Uses, sat_bind]
  refine Sat.mono hx (fun a s' h => ?_) fun _ _ h => h
  have hafter : ∀ s'', NoUse s' s'' → Outcome P s s'' := fun s'' h' =>
    h.imp (fun h => h.trans h') fun h => h.trans_noUse h'
  exact (hf a s').mono (fun _ => hafter) fun _ => hafter

/-- A branch is judged by both of its sides, each under its own condition. -/
theorem Uses.ite {c : Prop} [Decidable c] {y : Core α} (hx : c → Uses x s P)
    (hy : ¬ c → Uses y s P) : Uses (if c then x else y) s P := by
  split
  case isTrue h => exact hx h
  case isFalse h => exact hy h

/-! ### Uses -/

/-- One range is used. A fault follows when it is not inside. -/
theorem uses_access {offset len : Nat} (hlen : len ≠ 0) :
    Sat (access offset len) s
      (fun _ s' => ∀ s'', s''.memory.mSize = s'.memory.mSize → s''.trace = s'.trace →
        UsedIff (offset + len ≤ s.memory.mSize) s s'')
      fun _ s' => UsedIff (offset + len ≤ s.memory.mSize) s s' := by
  have hused : ∀ s'', s''.memory.mSize = s.memory.mSize →
      s''.trace = s.trace ++ [.memAccess offset len s.memory.mSize] →
      UsedIff (offset + len ≤ s.memory.mSize) s s'' := fun s'' => .of_access hlen
  rw [sat_access]
  cases s.memory.mData with
  | none => exact hused _ rfl rfl
  | some data =>
      simp only
      split
      · exact hused
      · exact hused _ rfl rfl

/-- A read uses the range that it reads. It is judged by the size of the memory before it, and not
at all when the range is empty. -/
theorem uses_readMemory {offset len : Nat} (hP : len ≠ 0 → (offset + len ≤ s.memory.mSize ↔ P)) :
    Uses (readMemory offset len) s P := by
  rw [Uses, sat_readMemory]
  split
  · exact Or.inl (.refl s)
  case isFalse hlen =>
  exact (uses_access hlen).mono (fun _ s' h => Or.inr ((h s' rfl rfl).congr (hP hlen)))
    fun _ _ h => Or.inr (h.congr (hP hlen))

/-- A write uses the range that it writes. It is judged by the size of the memory before it, and not
at all when no byte is written. -/
theorem uses_writeMemory {offset : Nat} {bytes : List Byte}
    (hP : bytes.length ≠ 0 → (offset + bytes.length ≤ s.memory.mSize ↔ P)) :
    Uses (writeMemory offset bytes) s P := by
  rw [Uses, sat_writeMemory]
  split
  · exact Or.inl (.refl s)
  case isFalse hempty =>
  have hlen : bytes.length ≠ 0 := by simpa using hempty
  refine (uses_access hlen).mono (fun _ s' h => ?_) fun _ _ h => Or.inr (h.congr (hP hlen))
  refine Or.inr (UsedIff.congr ?_ (hP hlen))
  apply h <;> rfl

/-- A range that is cleared is judged as one that is written. -/
theorem uses_clearMemory {offset len : Nat} (hP : len ≠ 0 → (offset + len ≤ s.memory.mSize ↔ P)) :
    Uses (clearMemory offset len) s P := by
  rw [Uses, sat_clearMemory]
  split
  · exact Or.inl (.refl s)
  case isFalse hlen =>
  refine (uses_access hlen).mono (fun _ s' h => ?_) fun _ _ h => Or.inr (h.congr (hP hlen))
  refine Or.inr (UsedIff.congr ?_ (hP hlen))
  apply h <;> rfl

/-- A copy of `data` and zeros behind it: together they fill the range. -/
theorem uses_copy {dst len : Nat} {data : List Byte} {n : Nat} (hdata : data.length = n)
    (hn : n ≤ len) (hpointer : s.memory.mSize ≠ 0 → s.memory.mData ≠ none)
    (hP : len ≠ 0 → (dst + len ≤ s.memory.mSize ↔ P)) :
    Uses (do writeMemory dst data; clearMemory (dst + n) (len - n)) s P := by
  subst hdata
  by_cases hall : data.length = len
  · -- Nothing is left to clear.
    refine .bind_ends (uses_writeMemory fun hne => ?_) fun _ => ?_
    · rw [hall]
      exact hP (by omega)
    · rw [hall, Nat.sub_self]
      intro s'
      rw [sat_clearMemory]
      exact .refl s'
  by_cases hempty : data.length = 0
  · obtain rfl := List.length_eq_zero_iff.1 hempty
    exact uses_clearMemory hP
  have hP' := hP (by omega)
  have hfirst : ∀ s'' : ExecutionState, s''.memory.mSize = s.memory.mSize →
      s''.trace = s.trace ++ [.memAccess dst data.length s.memory.mSize] →
      UsedIff (dst + data.length ≤ s.memory.mSize) s s'' := fun s'' => .of_access hempty
  have hlogged : UsedIff (dst + data.length ≤ s.memory.mSize) s (s.logAccess dst data.length) :=
    hfirst _ rfl rfl
  rw [Uses, sat_bind, sat_writeMemory, if_neg (by simpa using hempty), sat_access]
  cases hmData : s.memory.mData with
  | none =>
      -- A memory without a pointer has no bytes, so the first range is outside.
      have hzero : s.memory.mSize = 0 := by
        by_contra hne
        exact hpointer hne hmData
      refine Or.inr (hlogged.congr (iff_of_false (by omega) fun h => ?_))
      have := hP'.2 h
      omega
  | some bytes =>
      simp only
      split
      case isFalse hout =>
        refine Or.inr (hlogged.congr (iff_of_false hout fun h => ?_))
        have := hP'.2 h
        omega
      case isTrue hin =>
      generalize hwritten : (s.logAccess dst data.length).setData (some fun i =>
        if dst ≤ i ∧ i < dst + data.length then data.getD (i - dst) 0 else bytes i) = s₁
      have hsize : s₁.memory.mSize = s.memory.mSize := by rw [← hwritten]; rfl
      have hused : UsedIff (dst + data.length ≤ s.memory.mSize) s s₁ :=
        hfirst s₁ hsize (by rw [← hwritten]; rfl)
      have hclear : dst + data.length + (len - data.length) = dst + len := by omega
      have hafter : ∀ s₂, UsedIff (dst + data.length + (len - data.length) ≤ s₁.memory.mSize) s₁ s₂ →
          Outcome P s s₂ := fun s₂ h => Or.inr ((hused.trans h).congr (by
        rw [hclear, hsize, ← hP']
        omega))
      rw [sat_clearMemory, if_neg (by omega)]
      refine (uses_access (by omega)).mono (fun _ s' h => ?_) fun _ s' h => ?_
      · refine hafter _ ?_
        apply h <;> rfl
      · exact hafter _ h

end

/-! ### One memory check -/

/-- What the memory check of a range asks for, in words. -/
def wordsAsked (offset size : Nat) : Nat := numWords ((offset + size) % 2 ^ 64)

/-- The price of what the memory check of a range adds to `mSize` bytes. -/
def growthPrice (mSize offset size : Nat) : Int :=
  memoryPrice (wordsAsked offset size) - memoryPrice (mSize / 32)

/-- The memory check of a range, with `gas` in the gas counter and a memory of `mSize` bytes, does not
wrap. When the memory is to grow, the squares and the new gas counter fit into `int64_t`; and when the
gas suffices, neither the end of the range nor its rounding to words needs more than 64 bits. -/
def RangeFits (gas : Int) (mSize offset size : Nat) : Prop :=
  if mSize < (offset + size) % 2 ^ 64 then
    (isInt64 ((wordsAsked offset size * wordsAsked offset size : Nat) : Int) ∧
      isInt64 ((mSize / 32 * (mSize / 32) : Nat) : Int) ∧
      isInt64 (gas - growthPrice mSize offset size)) ∧
    (growthPrice mSize offset size ≤ gas → offset + size + 31 < 2 ^ 64)
  else offset + size < 2 ^ 64

instance (gas : Int) (mSize offset size : Nat) : Decidable (RangeFits gas mSize offset size) := by
  unfold RangeFits
  infer_instance

section
variable [Env] {s : ExecutionState} {offset size : Nat}

/-- `grow_memory` for the end of a range: it wraps exactly when `RangeFits` fails. -/
theorem sat_growMemory_fits (hs : s.memory.Valid) (hlarger : s.memory.mSize < (offset + size) % 2 ^ 64) :
    Sat (growMemory ((offset + size) % 2 ^ 64)) s
      (fun grown s' => match grown with
        | true => ∃ cost, s'.trace = s.trace ++ [.memCheck cost s.memory.mSize s'.memory.mSize] ∧
            ((offset + size ≤ s'.memory.mSize ∧ s.memory.mSize ≤ s'.memory.mSize ∧ 0 ≤ cost) ↔
              RangeFits s.gasLeft s.memory.mSize offset size)
        | false => s'.trace = s.trace ∧ RangeFits s.gasLeft s.memory.mSize offset size)
      fun h s' => s'.trace = s.trace ∧
        ((h = .ret .outOfGas ∨ h = .fault .nullPointer ∧ offset + size < 2 ^ 64) ↔
          RangeFits s.gasLeft s.memory.mSize offset size) := by
  have hfits : RangeFits s.gasLeft s.memory.mSize offset size ↔
      (isInt64 ((wordsAsked offset size * wordsAsked offset size : Nat) : Int) ∧
        isInt64 ((s.memory.mSize / 32 * (s.memory.mSize / 32) : Nat) : Int) ∧
        isInt64 (s.gasLeft - growthPrice s.memory.mSize offset size)) ∧
      (growthPrice s.memory.mSize offset size ≤ s.gasLeft → offset + size + 31 < 2 ^ 64) := by
    rw [RangeFits, if_pos hlarger]
  rw [hfits]
  have hbound := hs.bound
  generalize hnew : (offset + size) % 2 ^ 64 = newSize at *
  have hlt : newSize < 2 ^ 64 := hnew ▸ Nat.mod_lt _ (by decide)
  have hwords : wordsAsked offset size = numWords newSize := by rw [wordsAsked, hnew]
  have hprice : growthPrice s.memory.mSize offset size =
      memoryPrice (numWords newSize) - memoryPrice (s.memory.mSize / 32) := by
    rw [growthPrice, hwords]
  rw [hwords, hprice]
  unfold growMemory
  simp only [sat_bind, sat_read, sat_memoryCost, sat_subGas', sat_ite, sat_pure]
  split
  case isFalse hover =>
    refine ⟨trivial, iff_of_false (by simp) fun h => hover ⟨h.1.1, ?_⟩⟩
    exact isInt64_memoryPrice h.1.1
  case isTrue hsquare =>
  split
  case isFalse hover =>
    refine ⟨trivial, iff_of_false (by simp) fun h => hover ⟨h.1.2.1, ?_⟩⟩
    exact isInt64_memoryPrice h.1.2.1
  case isTrue hsquare' =>
  split
  case isFalse hover => exact ⟨trivial, iff_of_false (by simp) fun h => hover h.1.2.2⟩
  case isTrue hgas =>
  have hcost : (isInt64 ((numWords newSize * numWords newSize : Nat) : Int) ∧
      isInt64 ((s.memory.mSize / 32 * (s.memory.mSize / 32) : Nat) : Int) ∧
      isInt64 (s.gasLeft - (memoryPrice (numWords newSize) - memoryPrice (s.memory.mSize / 32)))) :=
    ⟨hsquare.1, hsquare'.1, hgas⟩
  refine ⟨fun hneg => ⟨trivial, hcost, fun hle => ?_⟩, fun henough => ?_⟩
  · exact absurd hneg (by simp only [not_lt]; omega)
  have hpaid : memoryPrice (numWords newSize) - memoryPrice (s.memory.mSize / 32) ≤ s.gasLeft := by
    simp only [not_lt] at henough
    omega
  -- The number of words wraps for the last 31 sizes only, and the assertion of `Memory_grow` fails.
  by_cases hgrows : s.memory.mSize < numWords newSize * 32
  case neg =>
    have hassert : ¬ (offset + size + 31 < 2 ^ 64) := by
      intro h
      have hcover := le_numWords (n := newSize) (by omega)
      omega
    unfold memoryGrow
    simp only [sat_bind, sat_read, sat_ite, sat_fault]
    have hwrong : ¬ ((Halt.fault .assertFailed = .ret .outOfGas ∨
        Halt.fault .assertFailed = .fault .nullPointer ∧ offset + size < 2 ^ 64)) := by simp
    exact ⟨fun _ => ⟨trivial, iff_of_false hwrong fun h => hassert (h.2 hpaid)⟩,
      fun _ => ⟨fun _ => ⟨trivial, iff_of_false hwrong fun h => hassert (h.2 hpaid)⟩,
        fun h => absurd (not_not.1 h) hgrows⟩⟩
  case pos =>
  have hround : newSize + 31 < 2 ^ 64 := by
    unfold numWords at hgrows
    omega
  have hcover := le_numWords hround
  have hsmall : numWords newSize < 2 ^ 32 := lt_of_square hsquare.1
  have hgrow := sat_memoryGrow_exact { s with gasLeft := s.gasLeft - (memoryPrice (numWords newSize) -
    memoryPrice (s.memory.mSize / 32)) } (Nat.mul_mod_left _ _) hgrows
  refine hgrow.mono (fun _ s' h => ?_) fun h s' hh => ?_
  · rw [sat_log]
    obtain ⟨-, hgrown⟩ := h
    have hsize := hgrown.size
    have htrace : s'.trace = s.trace := by rw [hgrown.same]
    have hmono := memoryPrice_mono (show s.memory.mSize / 32 ≤ numWords newSize by omega)
    refine ⟨memoryPrice (numWords newSize) - memoryPrice (s.memory.mSize / 32), ?_, ?_⟩
    · simp only [hsize, htrace]
    · simp only [hsize]
      constructor
      · rintro ⟨hin, -, -⟩
        exact ⟨hcost, fun _ => by omega⟩
      · rintro ⟨-, hend⟩
        have hend := hend hpaid
        exact ⟨by omega, by omega, by omega⟩
  · obtain ⟨rfl, -, hsize, -, hsame⟩ := hh
    refine ⟨by rw [hsame], ?_⟩
    constructor
    · rintro (h | ⟨-, hend⟩)
      · cases h
      · exact ⟨hcost, fun _ => by omega⟩
    · rintro ⟨-, hend⟩
      have hend := hend hpaid
      exact Or.inr ⟨rfl, by omega⟩

/-- `check_memory_u64`: behind the test of the offset, the range is in the trace, and the check wraps
exactly when `RangeFits` fails. -/
theorem sat_checkMemoryU64_fits (hs : s.memory.Valid) (offset : Uint256) (size : Nat) :
    Sat (checkMemoryU64 offset size) s
      (fun ok s' => match ok with
        | true => ∃ cost, s'.trace = s.trace ++ [.memRange offset.low size,
              .memCheck cost s.memory.mSize s'.memory.mSize] ∧
            ((offset.low + size ≤ s'.memory.mSize ∧ s.memory.mSize ≤ s'.memory.mSize ∧ 0 ≤ cost) ↔
              RangeFits s.gasLeft s.memory.mSize offset.low size)
        | false => s'.trace = s.trace ∨ s'.trace = s.trace ++ [.memRange offset.low size] ∧
            RangeFits s.gasLeft s.memory.mSize offset.low size)
      fun h s' => s'.trace = s.trace ++ [.memRange offset.low size] ∧
        ((h = .ret .outOfGas ∨ h = .fault .nullPointer ∧ offset.low + size < 2 ^ 64) ↔
          RangeFits s.gasLeft s.memory.mSize offset.low size) := by
  have hbound := hs.bound
  unfold checkMemoryU64
  simp only [sat_bind, sat_ite, sat_pure, sat_read, sat_log]
  -- A large offset, a range past the end, a range inside.
  refine ⟨fun _ => Or.inl trivial, fun _ => ⟨fun hgrow => ?_, fun hfits => ?_⟩⟩
  · have hs₁ : ({ s with trace := s.trace ++ [.memRange offset.low size] } :
        ExecutionState).memory.Valid := hs
    refine (sat_growMemory_fits hs₁ hgrow).mono (fun grown s' h => ?_) fun h s' hh => hh
    cases grown with
    | true =>
        obtain ⟨cost, htrace, hiff⟩ := h
        exact ⟨cost, by simpa using htrace, hiff⟩
    | false => exact Or.inr h
  -- Inside, the range fits exactly when its end has not wrapped.
  · refine ⟨0, by simp, ?_⟩
    rw [RangeFits, if_neg hfits]
    constructor
    · rintro ⟨hin, -, -⟩
      omega
    · intro hend
      rw [Nat.mod_eq_of_lt hend] at hfits
      exact ⟨Nat.le_of_not_lt hfits, le_refl _, le_refl _⟩

end

/-! ### Programs with a memory check -/

/-- The judgement of an end: a check that was made holds exactly when `C` does, and what is used is
inside of the memory exactly when `P` holds. -/
structure Verdict (C P : Prop) (ends : Option Halt) (s s' : ExecutionState) : Prop where
  size : s.memory.mSize ≤ s'.memory.mSize
  events : ∃ events, s'.trace = s.trace ++ events ∧
    (ChecksHold ends events ↔ ((∃ e ∈ events, e.isCheck = true) → C)) ∧
    ((∀ e ∈ events, e.Inside) ↔ ((∃ e ∈ events, e.UsesMemory) → P))

section
variable {C P : Prop} {ends : Option Halt} {s s' s'' : ExecutionState}

/-- The safety of an end. -/
theorem Verdict.safe_iff (h : Verdict C P ends s s') :
    Safe ends s s' ↔ (ChecksMemory s s' → C) ∧ (UsesMemory s s' → P) := by
  obtain ⟨hsize, es, htrace, hchecks, hinside⟩ := h
  have hunique : ∀ {es'}, s'.trace = s.trace ++ es' → es' = es := fun h =>
    List.append_cancel_left (h.symm.trans htrace)
  constructor
  · rintro ⟨-, es', htrace', hin, hhold⟩
    obtain rfl := hunique htrace'
    refine ⟨fun ⟨es'', htrace'', hmade⟩ => ?_, fun ⟨es'', htrace'', huse⟩ => ?_⟩
    · obtain rfl := hunique htrace''
      exact hchecks.1 hhold hmade
    · obtain rfl := hunique htrace''
      exact hinside.1 hin huse
  · rintro ⟨hC, hP⟩
    exact ⟨hsize, es, htrace, hinside.2 fun huse => hP ⟨es, htrace, huse⟩,
      hchecks.2 fun hmade => hC ⟨es, htrace, hmade⟩⟩

/-- A check that ends the run, neither for lack of gas nor in the allocation, has wrapped. -/
theorem not_safe_of_range {offset size : Nat}
    (htrace : s'.trace = s.trace ++ [.memRange offset size]) (hgas : ends ≠ some (.ret .outOfGas))
    (hpointer : ends ≠ some (.fault .nullPointer)) : ¬ Safe ends s s' := by
  rintro ⟨-, events, htrace', -, hhold⟩
  obtain rfl := List.append_cancel_left (htrace.symm.trans htrace')
  rcases hhold.1 with h | ⟨h, -⟩
  · exact hgas h
  · exact hpointer h

/-- Events that are no checks change nothing in front of the others. -/
theorem checksHold_append {es : List Event} (h : ∀ e ∈ es, e.isCheck = false) (es' : List Event) :
    ChecksHold ends (es ++ es') ↔ ChecksHold ends es' := by
  induction es with
  | nil => exact Iff.rfl
  | cons e es ih =>
      obtain ⟨he, hes⟩ := List.forall_mem_cons.1 h
      cases e with
      | memRange => cases he
      | _ => exact ih hes

/-- Without a check. -/
theorem checksHold_of_forall {es : List Event} (h : ∀ e ∈ es, e.isCheck = false) :
    ChecksHold ends es := by
  have happend : ChecksHold ends (es ++ []) ↔ ChecksHold ends [] := checksHold_append h []
  rw [List.append_nil] at happend
  exact happend.2 trivial

/-- Events that are no checks change nothing behind the others. -/
theorem checksHold_append_right {es' : List Event} (h : ∀ e ∈ es', e.isCheck = false)
    (es : List Event) : ChecksHold ends (es ++ es') ↔ ChecksHold ends es := by
  have hrange : ∀ offset size (es : List Event),
      RangeHolds ends offset size (es ++ es') ↔ RangeHolds ends offset size es := by
    intro offset size es
    cases es with
    | cons e es => cases e <;> exact Iff.rfl
    | nil =>
        cases es' with
        | nil => exact Iff.rfl
        | cons e es' =>
            have he := h e List.mem_cons_self
            cases e with
            | memCheck => cases he
            | _ => exact Iff.rfl
  induction es with
  | nil => exact iff_of_true (checksHold_of_forall h) trivial
  | cons e es ih =>
      cases e with
      | memRange offset size => exact and_congr (hrange offset size es) ih
      | _ => exact ih

/-- An event of two runs is an event of the first or of the second. -/
theorem exists_mem_append {q : Event → Prop} {es es' : List Event} :
    (∃ e ∈ es ++ es', q e) ↔ (∃ e ∈ es, q e) ∨ ∃ e ∈ es', q e := by
  simp only [List.mem_append, or_and_right, exists_or]

/-- A run without a check, in the form that the verdict asks for. -/
theorem not_exists_isCheck {es : List Event} (h : ∀ e ∈ es, e.isCheck = false) :
    ¬ ∃ e ∈ es, e.isCheck = true := by
  rintro ⟨e, he, hrange⟩
  rw [h e he] at hrange
  cases hrange

/-- A program without checks gets a verdict for every condition on the checks: it makes none. -/
theorem Outcome.verdict (h : Outcome P s s') : Verdict C P ends s s' := by
  rcases h with h | h
  · obtain ⟨es, htrace, hes⟩ := h.events
    have hnone : ∀ e ∈ es, e.isCheck = false := fun e he => (hes e he).2.2
    refine ⟨h.size, es, htrace, iff_of_true (checksHold_of_forall hnone) fun hmade =>
      absurd hmade (not_exists_isCheck hnone), ?_⟩
    exact iff_of_true (fun e he => (hes e he).1) fun ⟨e, he, huse⟩ => absurd huse (hes e he).2.1
  · obtain ⟨es, htrace, huse, hiff, hnone⟩ := h.events
    refine ⟨h.size, es, htrace, iff_of_true (checksHold_of_forall hnone) fun hmade =>
      absurd hmade (not_exists_isCheck hnone), ?_⟩
    exact hiff.trans ⟨fun hP _ => hP, fun hP => hP huse⟩

/-- A program that neither checks nor uses the memory gets every verdict. -/
theorem NoUse.verdict (h : NoUse s s') : Verdict C P ends s s' := Outcome.verdict (Or.inl h)

/-- Something that neither checks nor uses the memory in front. -/
theorem NoUse.trans_verdict (h : NoUse s s') (h' : Verdict C P ends s' s'') :
    Verdict C P ends s s'' := by
  obtain ⟨es, htrace, hes⟩ := h.events
  obtain ⟨hsize', es', htrace', hchecks', hinside'⟩ := h'
  have hnone : ∀ e ∈ es, e.isCheck = false := fun e he => (hes e he).2.2
  refine ⟨h.size.trans hsize', es ++ es', by rw [htrace', htrace, List.append_assoc], ?_, ?_⟩
  · rw [checksHold_append hnone, hchecks', exists_mem_append]
    exact imp_congr_left (or_iff_right (not_exists_isCheck hnone)).symm
  · rw [List.forall_mem_append, and_iff_right fun e he => (hes e he).1, hinside', exists_mem_append]
    exact imp_congr_left (or_iff_right fun ⟨e, he, huse⟩ => (hes e he).2.1 huse).symm

/-- Something that neither checks nor uses the memory behind. -/
theorem Verdict.trans_noUse (h : Verdict C P ends s s') (h' : NoUse s' s'') :
    Verdict C P ends s s'' := by
  obtain ⟨hsize, es, htrace, hchecks, hinside⟩ := h
  obtain ⟨es', htrace', hes'⟩ := h'.events
  have hnone : ∀ e ∈ es', e.isCheck = false := fun e he => (hes' e he).2.2
  refine ⟨hsize.trans h'.size, es ++ es', by rw [htrace', htrace, List.append_assoc], ?_, ?_⟩
  · rw [checksHold_append_right hnone, hchecks, exists_mem_append]
    exact imp_congr_left (or_iff_left (not_exists_isCheck hnone)).symm
  · rw [List.forall_mem_append, and_iff_left fun e he => (hes' e he).1, hinside, exists_mem_append]
    exact imp_congr_left (or_iff_left fun ⟨e, he, huse⟩ => (hes' e he).2.1 huse).symm

variable {offset size : Nat}

/-- A check that succeeds, in front of a program without checks. -/
theorem Verdict.check {cost : Int}
    (htrace : s'.trace = s.trace ++ [.memRange offset size,
      .memCheck cost s.memory.mSize s'.memory.mSize])
    (hle : s.memory.mSize ≤ s'.memory.mSize)
    (hC : (offset + size ≤ s'.memory.mSize ∧ s.memory.mSize ≤ s'.memory.mSize ∧ 0 ≤ cost) ↔ C)
    (h : Outcome P s' s'') : Verdict C P ends s s'' := by
  have hverdict : Verdict False P ends s' s'' := h.verdict
  obtain ⟨hsize, es, htrace', hchecks, hinside⟩ := hverdict
  have hnone : ∀ e ∈ es, e.isCheck = false := by
    rcases h with h | h
    · obtain ⟨es', htrace'', hes⟩ := h.events
      obtain rfl := List.append_cancel_left (htrace'.symm.trans htrace'')
      exact fun e he => (hes e he).2.2
    · obtain ⟨es', htrace'', -, -, hes⟩ := h.events
      obtain rfl := List.append_cancel_left (htrace'.symm.trans htrace'')
      exact hes
  refine ⟨hle.trans hsize, _, by rw [htrace', htrace, List.append_assoc], ?_, ?_⟩
  · show (RangeHolds ends offset size _ ∧ ChecksHold ends es) ↔ _
    rw [and_iff_left (checksHold_of_forall hnone)]
    exact hC.trans ⟨fun hC _ => hC, fun hC => hC ⟨_, List.mem_cons_self, rfl⟩⟩
  · simpa [Event.Inside, Event.UsesMemory] using hinside

/-- A check that ends the run. -/
theorem Verdict.refused (htrace : s'.trace = s.trace ++ [.memRange offset size])
    (hle : s.memory.mSize ≤ s'.memory.mSize)
    (hC : (ends = some (.ret .outOfGas) ∨ ends = some (.fault .nullPointer) ∧
      offset + size < 2 ^ 64) ↔ C) : Verdict C P ends s s' := by
  refine ⟨hle, _, htrace, ?_, by simp [Event.Inside, Event.UsesMemory]⟩
  show (RangeHolds ends offset size [] ∧ True) ↔ _
  rw [and_true]
  exact hC.trans ⟨fun hC _ => hC, fun hC => hC ⟨_, List.mem_cons_self, rfl⟩⟩

end

/-- Whatever its outcome, the program makes no memory check, or one that holds exactly when `C` does,
and uses EVM memory inside of it exactly when `P` holds. -/
def Judged {α : Type} (x : Core α) (s : ExecutionState) (C P : Prop) : Prop :=
  Sat x s (fun _ s' => ∀ ends, Verdict C P ends s s') fun h s' => Verdict C P (some h) s s'

section
variable {α β : Type} {x : Core α} {f : α → Core β} {Q : α → Prop} {s : ExecutionState} {C P : Prop}

/-- A program without checks is judged by its uses alone. -/
theorem Uses.judged (h : Uses x s P) : Judged x s C P :=
  Sat.mono h (fun _ _ h _ => h.verdict) fun _ _ => Outcome.verdict

/-- A branch is judged by both of its sides, each under its own condition. -/
theorem Judged.ite {c : Prop} [Decidable c] {y : Core α} (hx : c → Judged x s C P)
    (hy : ¬ c → Judged y s C P) : Judged (if c then x else y) s C P := by
  split
  case isTrue h => exact hx h
  case isFalse h => exact hy h

/-- Something that neither checks nor uses the memory in front. -/
theorem Judged.bind_noUse (hx : Sat x s (fun a s' => NoUse s s' ∧ Judged (f a) s' C P)
    fun _ s' => NoUse s s') : Judged (x >>= f) s C P := by
  rw [Judged, sat_bind]
  refine hx.mono (fun a s' ⟨h, hf⟩ => ?_) fun _ _ h => h.verdict
  exact Sat.mono hf (fun _ _ hf ends => h.trans_verdict (hf ends)) fun _ _ => h.trans_verdict

/-- Something behind that neither checks nor uses the memory. -/
theorem Judged.bind_ends (hx : Judged x s C P) (hf : ∀ a, Ends (f a)) : Judged (x >>= f) s C P := by
  rw [Judged, sat_bind]
  refine Sat.mono hx (fun a s' h => ?_) fun _ _ h => h
  exact (hf a s').mono (fun _ _ h' ends => (h ends).trans_noUse h')
    fun _ _ h' => (h _).trans_noUse h'

/-- A loaded word is that of the slot. -/
theorem Judged.bind_load {p : Slot} {f : Uint256 → Core α} (hf : Judged (f (s.stackSpace p)) s C P) :
    Judged (load p >>= f) s C P := by
  refine .bind_noUse ?_
  rw [sat_load]
  split
  · exact ⟨.refl s, hf⟩
  · exact .refl s

/-- A field that is read is that of the state. -/
theorem Judged.bind_read {g : ExecutionState → β} {f : β → Core α} (hf : Judged (f (g s)) s C P) :
    Judged (Core.read g >>= f) s C P := by
  refine .bind_noUse ?_
  rw [sat_read]
  exact ⟨.refl s, hf⟩

/-- The test for the static mode leaves the state. -/
theorem Judged.bind_refuseStatic {f : Unit → Core α} (hf : Judged (f ()) s C P) :
    Judged (refuseStatic >>= f) s C P := by
  refine .bind_noUse ?_
  rw [sat_refuseStatic]
  split
  · exact .refl s
  · exact ⟨.refl s, hf⟩

/-! ### What a check leaves -/

/-- States that differ in the memory only have the same stack space. -/
theorem SameButMemory.stack {s s' : ExecutionState} (h : SameButMemory s s') :
    s'.stackSpace = s.stackSpace := by rw [h]

/-- What a passed check for `n` bytes leaves. -/
structure CheckPassed (offset : Uint256) (n : Nat) (s s' : ExecutionState) : Prop where
  valid : s'.memory.Valid
  stack : s'.stackSpace = s.stackSpace
  same : SameButMemory s s'
  size : s'.memory.mSize = s.memory.mSize ∨ s.memory.mSize < s'.memory.mSize ∧
    s'.memory.mSize < 2 ^ 37
  covers : n ≠ 0 → offset.low < 2 ^ 32 ∧ (offset.low + n) % 2 ^ 64 ≤ s'.memory.mSize

/-- The range is inside of the memory exactly when its end does not wrap. -/
theorem CheckPassed.inside_iff {offset : Uint256} {size : Nat} {s' : ExecutionState}
    (h : CheckPassed offset size s s') (_hlt : size < 2 ^ 64) (hsize : size ≠ 0) :
    offset.low + size ≤ s'.memory.mSize ↔ offset.low + size < 2 ^ 64 := by
  have hbound := h.valid.bound
  have hcovers := h.covers hsize
  constructor
  · intro hin
    omega
  · intro hfits
    rw [Nat.mod_eq_of_lt hfits] at hcovers
    exact hcovers.2

variable [Env]

/-- `if (!check_memory_u64(...)) return EVMC_OUT_OF_GAS;` wraps exactly when `RangeFits` fails. -/
theorem sat_requireMemoryU64_fits (hs : s.memory.Valid) (offset : Uint256) (size : Nat) :
    Sat (requireMemoryU64 offset size) s
      (fun _ s' => ∃ cost, s'.trace = s.trace ++ [.memRange offset.low size,
          .memCheck cost s.memory.mSize s'.memory.mSize] ∧
        ((offset.low + size ≤ s'.memory.mSize ∧ s.memory.mSize ≤ s'.memory.mSize ∧ 0 ≤ cost) ↔
          RangeFits s.gasLeft s.memory.mSize offset.low size))
      fun h s' => s'.trace = s.trace ∨ s'.trace = s.trace ++ [.memRange offset.low size] ∧
        ((h = .ret .outOfGas ∨ h = .fault .nullPointer ∧ offset.low + size < 2 ^ 64) ↔
          RangeFits s.gasLeft s.memory.mSize offset.low size) := by
  unfold requireMemoryU64
  rw [sat_bind]
  refine (sat_checkMemoryU64_fits hs offset size).mono (fun ok s' h => ?_) fun h s' hh => Or.inr hh
  cases ok with
  | true => exact h
  | false => exact h.imp_right fun ⟨htrace, hfits⟩ => ⟨htrace, iff_of_true (Or.inl rfl) hfits⟩

/-- A memory check in front of a program without checks, with something more (`R`) that is known of
the state it leaves. -/
theorem Judged.bind_check {offset : Uint256} {size : Nat} {f : Unit → Core β}
    {R : ExecutionState → Prop} (hs : s.memory.Valid)
    (hR : Sat (requireMemoryU64 offset size) s (fun _ s' => R s') fun _ _ => True)
    (hf : ∀ s', CheckPassed offset size s s' → R s' → Uses (f ()) s' P) :
    Judged (requireMemoryU64 offset size >>= f) s
      (RangeFits s.gasLeft s.memory.mSize offset.low size) P := by
  rw [Judged, sat_bind]
  have hcheck := (((sat_requireMemoryU64 offset size (s := s)).and
    ((sat_requireMemory_valid hs offset .zero).2 size)).and hR).and
      (sat_requireMemoryU64_fits hs offset size)
  refine hcheck.mono (fun _ s' h => ?_) fun h s' hh => ?_
  -- The check has passed: the uses behind it decide.
  · obtain ⟨⟨⟨⟨hchecked, hlarge, hcovers⟩, hvalid⟩, hmore⟩, cost, htrace, hfits⟩ := h
    have hoffset := offsetTooLarge_eq_false hlarge
    have hpassed : CheckPassed offset size s s' := ⟨hvalid, hchecked.same.stack, hchecked.same,
      hchecked.size.imp_right fun h => ⟨h.1, h.2.1⟩, fun _ => ⟨by omega, hcovers⟩⟩
    have hle : s.memory.mSize ≤ s'.memory.mSize := by
      rcases hchecked.size with hsize | ⟨hsize, -⟩ <;> omega
    exact Sat.mono (hf s' hpassed hmore) (fun _ _ h _ => .check htrace hle hfits h)
      fun _ _ => .check htrace hle hfits
  -- It has not: nothing is used any more.
  · obtain ⟨⟨⟨⟨hrefused, -⟩, -⟩, -⟩, htrace⟩ := hh
    have hle : s.memory.mSize ≤ s'.memory.mSize := by rw [hrefused.size]
    rcases htrace with htrace | ⟨htrace, hfits⟩
    · -- The offset is too large, and nothing was checked.
      have hnone : NoUse s s' := ⟨hle, [], by simp [htrace], by simp⟩
      exact hnone.verdict
    · exact .refused htrace hle (by simpa using hfits)

/-- The rule of a memory check with a size of 64 bits. -/
theorem Judged.bind_requireMemoryU64 {offset : Uint256} {size : Nat} {f : Unit → Core β}
    (hs : s.memory.Valid) (hf : ∀ s', CheckPassed offset size s s' → Uses (f ()) s' P) :
    Judged (requireMemoryU64 offset size >>= f) s
      (RangeFits s.gasLeft s.memory.mSize offset.low size) P :=
  .bind_check hs (sat_trivial _ _) fun s' h _ => hf s' h

/-- Nothing is checked for the size 0. -/
theorem requireMemoryU256_zero {offset size : Uint256} (h : zero256 size = true) :
    requireMemoryU256 offset size = pure () := by
  unfold requireMemoryU256 checkMemoryU256
  simp [h]

/-- Of another size, the check looks at the low limb. -/
theorem requireMemoryU256_low {offset size : Uint256} (h : ¬ zero256 size = true) :
    requireMemoryU256 offset size = requireMemoryU64 offset size.low := by
  unfold requireMemoryU256 requireMemoryU64 checkMemoryU256 checkMemoryU64
  by_cases hlarge : offsetTooLarge offset = true <;> simp [h, hlarge]

/-- The rule of a memory check with a size of 256 bits. -/
theorem Judged.bind_requireMemoryU256 {offset size : Uint256} {f : Unit → Core β}
    (hs : s.memory.Valid) (hf : ∀ s', CheckPassed offset size.low s s' →
      Paid s s' → s'.memory.mSize = sizeBehind s offset size → Uses (f ()) s' P) :
    Judged (requireMemoryU256 offset size >>= f) s
      (RangeFits s.gasLeft s.memory.mSize offset.low size.low) P := by
  have hpaid := sat_requireMemoryU256_paid s offset size
  by_cases hzero : zero256 size = true
  case pos =>
    have hlow : size.low = 0 := by
      have hnat := (zero256_iff size).1 hzero
      rw [low_eq_toNat (by omega), hnat]
    rw [requireMemoryU256_zero hzero] at hpaid ⊢
    rw [pure_bind]
    exact (hf s ⟨hs, rfl, rfl, Or.inl rfl, fun hne => absurd hlow hne⟩ hpaid.1 hpaid.2).judged
  case neg =>
    rw [requireMemoryU256_low hzero] at hpaid ⊢
    exact .bind_check hs hpaid fun s' h hpaid => hf s' h hpaid.1 hpaid.2

end

end TscVee
