import TscVee.Proofs.MemorySound
import TscVee.Spec.ByteMemory

/-!
# `TscVee.Proofs.MemoryContents`: the EVM memory as an array of bytes

The bytes behind the size of the memory are zero, so that a memory check that passes does not change
the contents: it leaves a memory that is larger and has cost its price.

* `Reached`: what a passed check leaves, with the sum of offset and size as the source computes it.
* `sat_requireMemoryU64_reached`, `sat_requireMemoryU256_reached`: the two checks.
* `sat_readContents`, `sat_writeContents`, `sat_clearContents`: reads, writes and fills of a range
  that lies in the memory.
-/

set_option autoImplicit false

namespace TscVee

open TscVee.Core Lib

/-- The bytes of the EVM memory. -/
def Memory.contents (memory : Memory) : Contents := fun i =>
  if i < memory.mSize then memory.mData.getD (fun _ => 0) i else 0

/-- A memory check has passed. -/
structure Reached (s s' : ExecutionState) (offset : Uint256) (size : Nat) : Prop where
  same : SameButMemory s s'
  gas : s'.gasLeft = s.gasLeft -
    (memoryPrice (s'.memory.mSize / 32) - memoryPrice (s.memory.mSize / 32))
  contents : s'.memory.contents = s.memory.contents
  sound : s'.memory.Sound
  inside : size = 0 ∨ offset.toNat < 2 ^ 32 ∧ (offset.low + size) % 2 ^ 64 ≤ s'.memory.mSize

variable {s s' : ExecutionState}

/-- What is paid for reads as before, and as zero where it is new. -/
theorem Paid.contents (h : Paid s s') (hs : s.memory.Sound) (hs' : s'.memory.Sound)
    (hle : s.memory.mSize ≤ s'.memory.mSize) : s'.memory.contents = s.memory.contents := by
  funext i
  unfold Memory.contents
  by_cases hold : i < s.memory.mSize
  · obtain ⟨data, hdata⟩ := Option.ne_none_iff_exists'.1 (hs.data (by omega))
    obtain ⟨data', hdata', hkeep⟩ := h.data data hdata
    rw [if_pos hold, if_pos (by omega), hdata, hdata']
    exact (hkeep i (by omega)).trans (if_pos hold)
  · rw [if_neg hold]
    split
    case isTrue hnew =>
      obtain ⟨data', hdata'⟩ := Option.ne_none_iff_exists'.1 (hs'.data (by omega))
      rw [hdata']
      exact h.zero data' hdata' i (by omega) hnew
    case isFalse => rfl

section
variable [Env]

/-- A check that succeeds is paid for. -/
theorem sat_requireMemoryU64_paid (s : ExecutionState) (offset : Uint256) (size : Nat) :
    Sat (requireMemoryU64 offset size) s (fun _ s' => Paid s s') fun _ _ => True := by
  unfold requireMemoryU64 checkMemoryU64
  simp only [sat_bind, sat_ite, sat_pure, sat_read, sat_log, sat_ret]
  refine ⟨fun _ => ⟨fun _ => trivial, fun h => absurd rfl h⟩, fun _ => ⟨fun _ => ?_, fun _ => ?_⟩⟩
  · refine (sat_growMemory_paid _ _).mono (fun grown s' h => ⟨fun _ => trivial, fun hgrown => ?_⟩)
      fun _ _ h => h
    exact (h (by simpa using hgrown)).1.behind
  · exact ⟨fun _ => trivial, fun _ => Paid.of_trace s _⟩

omit [Env] in
/-- A check does not shrink the memory. -/
theorem MemChecked.size_le (h : MemChecked s s') : s.memory.mSize ≤ s'.memory.mSize := by
  rcases h.size with heq | ⟨hlt, -⟩ <;> omega

/-- The check for a size of 64 bits. -/
theorem sat_requireMemoryU64_reached (hs : s.memory.Sound) (offset : Uint256) (size : Nat) :
    Sat (requireMemoryU64 offset size) s (fun _ s' => Reached s s' offset size)
      fun _ s' => MemRefused s s' := by
  have hpaid := sat_requireMemoryU64_paid s offset size
  have hsound := holds_requireMemoryU64 soundContract_of_same sound_growMemory offset size s hs
  refine (((sat_requireMemoryU64 offset size).and hpaid).and hsound).mono
    (fun _ s' h => ?_) fun _ _ h => h.1.1.1
  obtain ⟨⟨⟨hchecked, hoffset, hinside⟩, hpaid⟩, -, hsound, -⟩ := h
  exact ⟨hpaid.same, hpaid.gas, hpaid.contents hs hsound hchecked.size_le, hsound,
    .inr ⟨(offsetTooLarge_eq_false hoffset).2, hinside⟩⟩

/-- The check for a size of 256 bits looks at its low limb. -/
theorem sat_requireMemoryU256_reached (hs : s.memory.Sound) (offset size : Uint256) :
    Sat (requireMemoryU256 offset size) s (fun _ s' => Reached s s' offset size.low)
      fun _ s' => MemRefused s s' := by
  have hpaid := sat_requireMemoryU256_paid s offset size
  have hsound := holds_requireMemoryU256 soundContract_of_same sound_growMemory offset size s hs
  refine (((sat_requireMemoryU256 offset size).and hpaid).and hsound).mono
    (fun _ s' h => ?_) fun _ _ h => h.1.1.1
  obtain ⟨⟨hcheck, hpaid, -⟩, -, hsound', -⟩ := h
  rcases hcheck with ⟨hzero, rfl⟩ | ⟨-, hchecked, hoffset, hinside⟩
  · have hlow : size.low = 0 := by
      have hnat := (zero256_iff size).1 hzero
      rw [low_eq_toNat (by omega), hnat]
    exact ⟨rfl, by omega, rfl, hs, .inl hlow⟩
  · exact ⟨hpaid.same, hpaid.gas, hpaid.contents hs hsound' hchecked.size_le, hsound',
      .inr ⟨(offsetTooLarge_eq_false hoffset).2, hinside⟩⟩

end

/-! ### Reads, writes and fills -/

/-- The range lies in the memory. -/
def Memory.Holds (memory : Memory) (offset n : Nat) : Prop := n = 0 ∨ offset + n ≤ memory.mSize

/-- The state after a range was read. -/
def ExecutionState.accessed (s : ExecutionState) (offset n : Nat) : ExecutionState :=
  if n = 0 then s else s.logAccess offset n

section
variable {E : Halt → ExecutionState → Prop} {offset n : Nat}

/-- A read gives the slice of the contents. -/
theorem sat_readContents (hs : s.memory.Sound) (hin : s.memory.Holds offset n)
    {Q : List Byte → ExecutionState → Prop} :
    Sat (readMemory offset n) s Q E ↔
      Q (s.memory.contents.slice offset n) (s.accessed offset n) := by
  rw [sat_readMemory]
  unfold ExecutionState.accessed
  split
  case isTrue hzero =>
    rw [hzero]
    rfl
  -- The memory is not empty, so it has data.
  case isFalse hne =>
    have hin' : offset + n ≤ s.memory.mSize := hin.resolve_left hne
    obtain ⟨data, hdata⟩ := Option.ne_none_iff_exists'.1 (hs.data (by omega))
    have hslice : s.memory.contents.slice offset n =
        (List.range n).map fun i => data (offset + i) := by
      refine List.map_congr_left fun i hi => ?_
      rw [List.mem_range] at hi
      unfold Memory.contents
      rw [if_pos (by omega), hdata]
      rfl
    rw [sat_access, hdata, hslice]
    simp only [if_pos hin']

/-- A read that leaves the memory is not defined. -/
theorem readMemory_outside (hn : n ≠ 0) (hout : s.memory.mSize < offset + n) :
    Sat (readMemory offset n) s (fun _ _ => False) fun h _ => ∃ f, h = .fault f := by
  rw [sat_readMemory, if_neg hn, sat_access]
  split
  · exact ⟨_, rfl⟩
  · rw [if_neg (by omega)]
    exact ⟨_, rfl⟩

/-- A range of the memory has been overwritten. -/
structure Overwritten (s s' : ExecutionState) (offset n : Nat) (f : Contents) : Prop where
  same : s' = { s with memory := s'.memory, trace := s'.trace }
  size : s'.memory.mSize = s.memory.mSize
  sound : s'.memory.Sound
  contents : s'.memory.contents = s.memory.contents.overwrite offset n f

/-- Nothing is overwritten. -/
theorem Overwritten.refl (hs : s.memory.Sound) (f : Contents) : Overwritten s s offset 0 f :=
  ⟨rfl, rfl, hs, (Contents.overwrite_zero _ _ _).symm⟩

/-- The access to a range that is overwritten. -/
theorem sat_accessContents (hs : s.memory.Sound) (hn : n ≠ 0)
    (hin : offset + n ≤ s.memory.mSize) (f : Contents) :
    Sat (access offset n) s
      (fun data s' => Overwritten s (s'.setData (some fun i =>
        if offset ≤ i ∧ i < offset + n then f (i - offset) else data i)) offset n f)
      fun _ _ => False := by
  obtain ⟨data, hdata⟩ := Option.ne_none_iff_exists'.1 (hs.data (by omega))
  rw [sat_access, hdata]
  simp only [if_pos hin]
  refine ⟨rfl, rfl, ⟨hs.words, hs.bound, fun _ => by simp [ExecutionState.setData]⟩, ?_⟩
  funext i
  unfold Memory.contents Contents.overwrite
  show (if i < s.memory.mSize then
      (if offset ≤ i ∧ i < offset + n then f (i - offset) else data i) else 0) = _
  rw [hdata]
  by_cases hrange : offset ≤ i ∧ i < offset + n
  · rw [if_pos hrange, if_pos hrange, if_pos (by omega)]
  · rw [if_neg hrange, if_neg hrange]
    rfl

/-- A write overwrites its range with the bytes. -/
theorem sat_writeContents (hs : s.memory.Sound) {bytes : List Byte}
    (hin : s.memory.Holds offset bytes.length) :
    Sat (writeMemory offset bytes) s
      (fun _ s' => Overwritten s s' offset bytes.length (bytes.getD · 0)) fun _ _ => False := by
  rw [sat_writeMemory]
  split
  case isTrue hempty =>
    rw [List.isEmpty_iff_length_eq_zero.1 hempty]
    exact .refl hs _
  case isFalse hne =>
    have hpos : bytes.length ≠ 0 := fun h => hne (List.isEmpty_iff_length_eq_zero.2 h)
    exact sat_accessContents hs hpos (hin.resolve_left hpos) (bytes.getD · 0)

/-- A range is overwritten with zeros. -/
theorem sat_clearContents (hs : s.memory.Sound) (hin : s.memory.Holds offset n) :
    Sat (clearMemory offset n) s (fun _ s' => Overwritten s s' offset n fun _ => 0)
      fun _ _ => False := by
  rw [sat_clearMemory]
  split
  case isTrue hzero =>
    rw [hzero]
    exact .refl hs _
  case isFalse hne => exact sat_accessContents hs hne (hin.resolve_left hne) fun _ => 0

end

end TscVee
