import TscVee.Proofs.HostAnswers
import TscVee.Proofs.MemoryContents
import TscVee.Proofs.WordRules

/-!
# `TscVee.Proofs.CopyData`: copies of the call data and of code to the memory

`CALLDATACOPY` and `CODECOPY` cut the index to its low limb. `EXTCODECOPY` hands the memory to
`copy_code`, which writes nothing to it, and clears what lies behind the bytes that `copy_code`
takes for copied.

* `CopyInstr`: the three instructions, with the source and the operands of each.
* `Copied`: the bytes of the source from the index on, and zeros behind its end.
* `sat_copies`: what an instruction that succeeds leaves.
* `copied_iff`: it follows the rule just where the operands fit.
-/

set_option autoImplicit false

namespace TscVee

open TscVee.Core Lib

/-- The instructions that copy to the memory from a source of their own. -/
inductive CopyInstr
  | calldatacopy
  | codecopy
  | extcodecopy
  deriving DecidableEq

namespace CopyInstr

/-- The body of the instruction. -/
def core [Env] : CopyInstr → StackTop → Core Unit
  | .calldatacopy => TscVee.calldatacopy
  | .codecopy => TscVee.codecopy
  | .extcodecopy => TscVee.extcodecopy

/-- The number of operands. -/
def operands : CopyInstr → Int
  | .extcodecopy => 4
  | _ => 3

variable (k : CopyInstr) (top : StackTop) (s : ExecutionState)

/-- The word of the destination. -/
def dest : Uint256 :=
  match k with
  | .extcodecopy => s.stackSpace (top - 1)
  | _ => s.stackSpace top

/-- The word of the source index. -/
def index : Uint256 :=
  match k with
  | .extcodecopy => s.stackSpace (top - 2)
  | _ => s.stackSpace (top - 1)

/-- The word of the size. -/
def size : Uint256 :=
  match k with
  | .extcodecopy => s.stackSpace (top - 3)
  | _ => s.stackSpace (top - 2)

/-- The bytes that are copied from. -/
def source : List Byte :=
  match k with
  | .calldatacopy => s.msg.inputData.take s.msg.inputSize
  | .codecopy => s.code.data.take (s.code.size % 2 ^ 64).toNat
  | .extcodecopy => s.hostCtx.codeOf (u256ToU8_20 (s.stackSpace top))

/-- What the instruction should leave: each byte of the destination is the byte of the source at the
index, and 0 behind the end of the source. The other bytes and the source stay. -/
def Copied (s' : ExecutionState) : Prop :=
  s'.memory.contents = s.memory.contents.overwrite (k.dest top s).toNat (k.size top s).toNat
      (fun j => (k.source top s).getD ((k.index top s).toNat + j) 0) ∧
    k.source top s' = k.source top s

/-- The instruction does not write the byte `j` of the destination: it is behind the low limb of the
size, or `copy_code` takes it for copied. -/
def Keeps (j : Nat) : Prop :=
  (k.size top s).low ≤ j ∨
    k = .extcodecopy ∧ min (2 ^ 32 - 1) (k.index top s).low + j < (k.source top s).length

instance (j : Nat) : Decidable (k.Keeps top s j) := inferInstanceAs (Decidable (_ ∨ _))

/-- Each byte that is not written is right already. For the others, the index has 64 bits, or the
byte at its low limb is 0 like the one at the index, which is behind the end of the source. -/
def Fits : Prop :=
  ∀ j < (k.size top s).toNat,
    if k.Keeps top s j then
      s.memory.contents ((k.dest top s).toNat + j) =
        (k.source top s).getD ((k.index top s).toNat + j) 0
    else (k.index top s).toNat < 2 ^ 64 ∨ (k.source top s).getD ((k.index top s).low + j) 0 = 0

end CopyInstr

/-! ### The bytes behind a copy -/

/-- The bytes between an index and the end of the source, as the source code computes their place
and their number. -/
theorem getD_window (bytes : List Byte) (size index n : Nat) {j : Nat} (hj : j < n) :
    ((bytes.drop (min size index)).take (min n (size - min size index))).getD j 0 =
      (bytes.take size).getD (index + j) 0 := by
  simp only [List.getD_eq_getElem?_getD, List.getElem?_take, List.getElem?_drop]
  by_cases hin : index + j < size
  · rw [if_pos (by omega), if_pos hin, show min size index + j = index + j by omega]
  · rw [if_neg (by omega), if_neg hin]

section
variable {s s' : ExecutionState} {offset n : Nat}

/-- A write that ends normally lies in the memory. -/
theorem sat_writeContents_anywhere (hs : s.memory.Sound) (bytes : List Byte) :
    Sat (writeMemory offset bytes) s
      (fun _ s' => Overwritten s s' offset bytes.length (bytes.getD · 0)) fun _ _ => True := by
  by_cases hin : s.memory.Holds offset bytes.length
  · exact (sat_writeContents hs hin).mono (fun _ _ h => h) fun _ _ h => h.elim
  · obtain ⟨hne, hout⟩ := not_or.1 hin
    rw [sat_writeMemory, if_neg (by rwa [List.isEmpty_iff_length_eq_zero]), sat_access]
    split
    · trivial
    · rw [if_neg hout]
      trivial

/-- A range is cleared that may be empty and outside. -/
theorem sat_clearContents_anywhere (hs : s.memory.Sound) :
    Sat (clearMemory offset n) s (fun _ s' => Overwritten s s' offset n fun _ => 0)
      fun _ _ => True := by
  by_cases hin : s.memory.Holds offset n
  · exact (sat_clearContents hs hin).mono (fun _ _ h => h) fun _ _ h => h.elim
  · obtain ⟨hne, hout⟩ := not_or.1 hin
    rw [sat_clearMemory, if_neg hne, sat_access]
    split
    · trivial
    · rw [if_neg hout]
      trivial

/-- The bytes that there are, and zeros behind them. -/
theorem sat_copyBehind (hs : s.memory.Sound) {bytes : List Byte} (hn : bytes.length ≤ n) :
    Sat (do writeMemory offset bytes; clearMemory (offset + bytes.length) (n - bytes.length)) s
      (fun _ s' => Overwritten s s' offset n (bytes.getD · 0)) fun _ _ => True := by
  rw [sat_bind]
  refine (sat_writeContents_anywhere hs bytes).mono (fun _ s₁ hwrite => ?_) fun _ _ _ => trivial
  refine (sat_clearContents_anywhere hwrite.sound).mono (fun _ s₂ hclear => ?_) fun _ _ _ => trivial
  have hsame := hclear.same
  rw [hwrite.same] at hsame
  refine ⟨hsame, hclear.size.trans hwrite.size, hclear.sound, ?_⟩
  rw [hclear.contents, hwrite.contents, Contents.overwrite_overwrite, Nat.add_sub_of_le hn]
  refine Contents.overwrite_congr _ _ fun j _ => ?_
  split
  case isTrue => rfl
  case isFalse hj =>
    rw [List.getD_eq_getElem?_getD, List.getElem?_eq_none (by omega)]
    rfl

end

/-! ### What the instructions leave -/

/-- The instruction has left the bytes that it keeps, and has written those at the low limb of the
index. -/
def CopyInstr.Left (k : CopyInstr) (top : StackTop) (s s' : ExecutionState) : Prop :=
  s'.memory.contents = s.memory.contents.overwrite (k.dest top s).toNat (k.size top s).toNat
      (fun j => if k.Keeps top s j then s.memory.contents ((k.dest top s).toNat + j)
        else (k.source top s).getD ((k.index top s).low + j) 0) ∧
    k.source top s' = k.source top s

section
variable {k : CopyInstr} {top : StackTop} {s s₁ s' : ExecutionState}

/-- The memory check sees to it that the low limbs give the place. -/
theorem CopyInstr.left_of_low (hreached : Reached s s₁ (k.dest top s) (k.size top s).low)
    {f : Contents}
    (hcontents : s'.memory.contents =
      s.memory.contents.overwrite (k.dest top s).low (k.size top s).low f)
    (hbytes : ∀ j < (k.size top s).low, f j =
      if k.Keeps top s j then s.memory.contents ((k.dest top s).toNat + j)
        else (k.source top s).getD ((k.index top s).low + j) 0)
    (hsource : k.source top s' = k.source top s) : k.Left top s s' := by
  -- A range that was checked has a place of 64 bits; an empty one has no place to speak of.
  refine ⟨?_, hsource⟩
  have hlow : s'.memory.contents =
      s.memory.contents.overwrite (k.dest top s).toNat (k.size top s).low f := by
    rcases hreached.inside with hzero | ⟨hdest, -⟩
    · rw [hcontents, hzero, Contents.overwrite_zero, Contents.overwrite_zero]
    · rw [hcontents, low_eq_toNat (by omega)]
  rw [hlow, Contents.overwrite_extend _ _ (low_le (k.size top s)), Contents.overwrite_eq_iff]
  intro j _
  -- Behind the low limb of the size nothing was written, and nothing was to be.
  by_cases hj : j < (k.size top s).low
  · rw [if_pos hj, hbytes j hj]
  · have hkeeps : k.Keeps top s j := .inl (by omega)
    rw [if_neg hj, if_pos hkeeps]

variable [Env]

omit [Env] in
/-- The part that `CALLDATACOPY` and `CODECOPY` share: the window of the source, and zeros. -/
theorem left_of_window (hk : k ≠ .extcodecopy)
    (hreached : Reached s s₁ (k.dest top s) (k.size top s).low) {bytes : List Byte} {size : Nat}
    (hsource : k.source top s = bytes.take size) {s₂ : ExecutionState}
    (hmemory : s₂.memory = s₁.memory)
    (hsame : ∀ m t, k.source top { s₂ with memory := m, trace := t } = k.source top s)
    (hin : min size (k.index top s).low + min (k.size top s).low
      (size - min size (k.index top s).low) ≤ bytes.length ∨
      min (k.size top s).low (size - min size (k.index top s).low) = 0) :
    Sat (do
        writeMemory (k.dest top s).low ((bytes.drop (min size (k.index top s).low)).take
          (min (k.size top s).low (size - min size (k.index top s).low)))
        clearMemory ((k.dest top s).low + min (k.size top s).low
            (size - min size (k.index top s).low))
          ((k.size top s).low - min (k.size top s).low (size - min size (k.index top s).low)))
      s₂ (fun _ s' => k.Left top s s') fun _ _ => True := by
  have hsound : s₂.memory.Sound := by
    rw [hmemory]
    exact hreached.sound
  -- The window of the source that is copied, and its length, which is what the instruction
  -- computes.
  generalize hwindow : (bytes.drop (min size (k.index top s).low)).take
    (min (k.size top s).low (size - min size (k.index top s).low)) = window
  have hlength : min (k.size top s).low (size - min size (k.index top s).low) = window.length := by
    rw [← hwindow, List.length_take, List.length_drop]
    omega
  rw [hlength]
  refine (sat_copyBehind hsound (by omega)).mono (fun _ s' hwritten => ?_) fun _ _ _ => trivial
  refine CopyInstr.left_of_low hreached (f := (window.getD · 0)) ?_ (fun j hj => ?_) ?_
  · rw [hwritten.contents, hmemory, hreached.contents]
  -- Only `EXTCODECOPY` keeps bytes of the range.
  · have hwrites : ¬ k.Keeps top s j := by
      rintro (hbehind | ⟨hext, -⟩)
      · omega
      · exact hk hext
    rw [if_neg hwrites, ← hwindow, getD_window bytes size _ _ hj, hsource]
  · rw [hwritten.same]
    exact hsame _ _

omit [Env] in
/-- The bytes that are read from the call data. -/
theorem sat_readInput (start n : Nat) {Q : List Byte → ExecutionState → Prop}
    (hQ : start + n ≤ s.msg.inputData.length ∨ n = 0 →
      Q ((s.msg.inputData.drop start).take n) s) :
    Sat (readInput start n) s Q fun _ _ => True := by
  unfold readInput
  simp only [sat_bind, sat_read, sat_ite, sat_pure, sat_fault]
  refine ⟨fun hzero => ?_, fun _ => ⟨fun hin => hQ (.inl hin), fun _ => trivial⟩⟩
  have hnone := hQ (.inr hzero)
  rwa [hzero, List.take_zero] at hnone

omit [Env] in
/-- The bytes that are read from the code. -/
theorem sat_readCode (start n : Nat) {Q : List Byte → ExecutionState → Prop}
    (hQ : start + n ≤ s.code.data.length ∨ n = 0 → Q ((s.code.data.drop start).take n) s) :
    Sat (readCode start n) s Q fun _ _ => True := by
  unfold readCode
  simp only [sat_bind, sat_read, sat_ite, sat_pure, sat_fault]
  refine ⟨fun hzero => ?_, fun _ => ⟨fun hin => hQ (.inl hin), fun _ => trivial⟩⟩
  have hnone := hQ (.inr hzero)
  rwa [hzero, List.take_zero] at hnone

/-- What CALLDATACOPY leaves in the memory. -/
theorem left_calldatacopy (htop : StackHolds top 3) (hs : s.memory.Sound) :
    Sat (calldatacopy top) s (fun _ s' => CopyInstr.Left .calldatacopy top s s')
      fun _ _ => True := by
  have hdest := htop.top (by decide)
  have hindex := htop.slot (i := 1) (by decide) (by decide)
  have hsize := htop.slot (i := 2) (by decide) (by decide)
  have htwo : top - 1 - 1 = top - 2 := by ring
  unfold calldatacopy
  dsimp only [StackTop.pop]
  rw [htwo]
  simp only [sat_bind, sat_load, if_pos hdest, if_pos hindex, if_pos hsize, sat_read]
  -- The memory check, the charge for the words, and then the bytes.
  refine (sat_requireMemoryU256_reached hs _ _).mono (fun _ s₁ hreached => ?_) fun _ _ _ => trivial
  obtain ⟨hstack, hmsg⟩ : s₁.stackSpace = s.stackSpace ∧ s₁.msg = s.msg := by
    rw [hreached.same]
    exact ⟨rfl, rfl⟩
  rw [hstack, hmsg, sat_chargeGas]
  split
  case isFalse => trivial
  split
  case isTrue => trivial
  refine sat_readInput _ _ fun hin => ?_
  have hsource : s.msg.inputData.take s.msg.inputSize = s₁.msg.inputData.take s.msg.inputSize := by
    rw [hmsg]
  refine (sat_bind _ _).1 (left_of_window (k := .calldatacopy) (by decide) hreached hsource rfl
    (fun _ _ => ?_) hin)
  exact congrArg (fun msg : Message => msg.inputData.take msg.inputSize) hmsg

/-- What CODECOPY leaves in the memory. -/
theorem left_codecopy (htop : StackHolds top 3) (hs : s.memory.Sound) :
    Sat (codecopy top) s (fun _ s' => CopyInstr.Left .codecopy top s s') fun _ _ => True := by
  have hdest := htop.top (by decide)
  have hindex := htop.slot (i := 1) (by decide) (by decide)
  have hsize := htop.slot (i := 2) (by decide) (by decide)
  have htwo : top - 1 - 1 = top - 2 := by ring
  unfold codecopy
  dsimp only [StackTop.pop]
  rw [htwo]
  simp only [sat_bind, sat_load, if_pos hdest, if_pos hindex, if_pos hsize, sat_read]
  refine (sat_requireMemoryU64_reached hs _ _).mono (fun _ s₁ hreached => ?_) fun _ _ _ => trivial
  obtain ⟨hstack, hcode⟩ : s₁.stackSpace = s.stackSpace ∧ s₁.code = s.code := by
    rw [hreached.same]
    exact ⟨rfl, rfl⟩
  rw [hstack, hcode, sat_chargeGas]
  split
  case isFalse => trivial
  split
  case isTrue => trivial
  -- A read of the code out of range is a fault.
  refine sat_readCode _ _ fun hin => ?_
  have hsource : s.code.data.take (s.code.size % 2 ^ 64).toNat =
      s₁.code.data.take (s.code.size % 2 ^ 64).toNat := by
    rw [hcode]
  refine (sat_bind _ _).1 (left_of_window (k := .codecopy) (by decide) hreached hsource rfl
    (fun _ _ => ?_) hin)
  exact congrArg (fun code : BytesView => code.data.take (code.size % 2 ^ 64).toNat) hcode

/-- The scan for a zero byte leaves the memory and the host. -/
theorem sat_scanString_same (offset : Nat) :
    Sat (scanString offset) s
      (fun _ s' => s' = { s with trace := s'.trace, fresh := s'.fresh }) fun _ _ => True := by
  unfold scanString
  simp only [sat_bind, sat_read]
  cases s.memory.mData with
  | none => trivial
  | some data =>
      simp only
      split
      · rw [sat_log]
      · simp only [sat_bind, sat_log, sat_nextFresh, sat_ite, sat_fault, sat_pure]
        exact ⟨fun _ => trivial, fun _ => trivial⟩

omit [Env] in
/-- The charge for a cold account leaves what an instruction reads. -/
theorem sat_chargeColdAccount_same (addr : Address) (cost : Int) :
    Sat (chargeColdAccount addr cost) s
      (fun _ s' => s'.memory = s.memory ∧ s'.stackSpace = s.stackSpace ∧
        s'.hostCtx.accounts = s.hostCtx.accounts)
      fun _ _ => True := by
  unfold chargeColdAccount
  rw [sat_bind, sat_read, sat_ite]
  refine ⟨fun _ => ?_, fun _ => ⟨rfl, rfl, rfl⟩⟩
  rw [sat_bind, sat_askAccessAccount, sat_ite]
  refine ⟨fun _ => ?_, fun _ => ⟨rfl, rfl, rfl⟩⟩
  rw [sat_chargeGas]
  split
  case isFalse => trivial
  split
  case isTrue => trivial
  exact ⟨rfl, rfl, rfl⟩

omit [Env] in
/-- `copy_code` says how many bytes of the code there are from the offset on. -/
theorem copyCode_codeOf (host : MockedHost) (addr : Address) (offset n : Nat) :
    Sat (MockedHost.copyCode addr offset n) host
      (fun copied host' => copied = min n ((host.codeOf addr).length - offset) ∧
        host' = host.recorded addr)
      fun _ _ => True := by
  rw [sat_copyCode, ← codeBytes_eq]
  cases host.accounts.find addr with
  | none => trivial
  | some o => exact ⟨rfl, rfl⟩

/-- The scan and the fill behind it. -/
theorem sat_scanClear (hs : s.memory.Sound) (offset copied n : Nat) :
    Sat (if copied > 0 then do scanString offset; clearMemory (offset + copied) n
        else clearMemory (offset + copied) n) s
      (fun _ s' => s'.memory.contents = s.memory.contents.overwrite (offset + copied) n (fun _ => 0) ∧
        s'.stackSpace = s.stackSpace ∧ s'.hostCtx.accounts = s.hostCtx.accounts)
      fun _ _ => True := by
  -- The fill works on the memory that was there in front of the scan, which leaves it alone.
  have hclear : ∀ s₁ : ExecutionState, s₁ = { s with trace := s₁.trace, fresh := s₁.fresh } →
      Sat (clearMemory (offset + copied) n) s₁
        (fun _ s' => s'.memory.contents =
            s.memory.contents.overwrite (offset + copied) n (fun _ => 0) ∧
          s'.stackSpace = s.stackSpace ∧ s'.hostCtx.accounts = s.hostCtx.accounts)
        fun _ _ => True := by
    intro s₁ hsame
    have hmemory : s₁.memory = s.memory := by rw [hsame]
    have hsound : s₁.memory.Sound := by rwa [hmemory]
    refine (sat_clearContents_anywhere hsound).mono (fun _ s' hfill => ?_) fun _ _ _ => trivial
    refine ⟨?_, ?_, ?_⟩
    · rw [hfill.contents, hmemory]
    · rw [hfill.same, hsame]
    · rw [hfill.same, hsame]
  rw [sat_ite]
  refine ⟨fun _ => ?_, fun _ => hclear s rfl⟩
  rw [sat_bind]
  exact (sat_scanString_same offset).mono (fun _ s₁ h => hclear s₁ h) fun _ _ _ => trivial

omit [Env] in
/-- Where the bytes behind those that are taken for copied have been cleared. -/
theorem left_of_cleared
    (hreached : Reached s s₁ (CopyInstr.extcodecopy.dest top s)
      (CopyInstr.extcodecopy.size top s).low)
    {copied : Nat}
    (hcopied : copied = min (CopyInstr.extcodecopy.size top s).low
      ((CopyInstr.extcodecopy.source top s).length -
        min (2 ^ 32 - 1) (CopyInstr.extcodecopy.index top s).low))
    (hcontents : s'.memory.contents = s.memory.contents.overwrite
      ((CopyInstr.extcodecopy.dest top s).low + copied)
      ((CopyInstr.extcodecopy.size top s).low - copied) fun _ => 0)
    (hsource : CopyInstr.extcodecopy.source top s' = CopyInstr.extcodecopy.source top s) :
    CopyInstr.Left .extcodecopy top s s' := by
  have hle : copied ≤ (CopyInstr.extcodecopy.size top s).low := by omega
  rw [Contents.overwrite_behind, Nat.add_sub_of_le hle] at hcontents
  refine CopyInstr.left_of_low hreached hcontents (fun j hj => ?_) hsource
  -- The bytes below `copied` are kept, and those from there on are zero, which is what the
  -- source has behind its end.
  have hdest : (CopyInstr.extcodecopy.dest top s).low =
      (CopyInstr.extcodecopy.dest top s).toNat := by
    rcases hreached.inside with hzero | ⟨hdest, -⟩
    · omega
    · exact low_eq_toNat (by omega)
  have hkeeps : j < copied ↔ CopyInstr.extcodecopy.Keeps top s j := by
    unfold CopyInstr.Keeps
    simp only [true_and]
    omega
  by_cases hcopy : j < copied
  · rw [if_pos hcopy, if_pos (hkeeps.1 hcopy), hdest]
  · have hend : (CopyInstr.extcodecopy.source top s).length ≤
        (CopyInstr.extcodecopy.index top s).low + j := by omega
    rw [if_neg hcopy, if_neg (mt hkeeps.2 hcopy), List.getD_eq_getElem?_getD,
      List.getElem?_eq_none hend]
    rfl

/-- The bytes that `copy_code` takes for copied stay, and those behind them are cleared. -/
theorem left_extcodecopy (htop : StackHolds top 4) (hs : s.memory.Sound) :
    Sat (extcodecopy top) s (fun _ s' => CopyInstr.Left .extcodecopy top s s') fun _ _ => True := by
  have haddr := htop.top (by decide)
  have hdest := htop.slot (i := 1) (by decide) (by decide)
  have hindex := htop.slot (i := 2) (by decide) (by decide)
  have hsize := htop.slot (i := 3) (by decide) (by decide)
  have htwo : top - 1 - 1 = top - 2 := by ring
  have hthree : top - 2 - 1 = top - 3 := by ring
  unfold extcodecopy
  dsimp only [StackTop.pop]
  rw [htwo, hthree]
  simp only [sat_bind, sat_load, if_pos haddr, if_pos hdest, if_pos hsize]
  -- The check, the charge for the words and the charge for a cold account leave the code of
  -- the account as it is.
  refine (sat_requireMemoryU256_reached hs _ _).mono (fun _ s₁ hreached => ?_) fun _ _ _ => trivial
  obtain ⟨hstack, hhost⟩ : s₁.stackSpace = s.stackSpace ∧ s₁.hostCtx = s.hostCtx := by
    rw [hreached.same]
    exact ⟨rfl, rfl⟩
  rw [hstack, sat_chargeGas]
  split
  case isFalse => trivial
  split
  case isTrue => trivial
  refine (sat_chargeColdAccount_same _ _).mono (fun _ s₂ hcold => ?_) fun _ _ _ => trivial
  obtain ⟨hmemory₂, hstack₂, haccounts₂⟩ : s₂.memory = s₁.memory ∧ s₂.stackSpace = s₁.stackSpace ∧
    s₂.hostCtx.accounts = s₁.hostCtx.accounts := hcold
  rw [hstack] at hstack₂
  have hsource : ∀ {s' : ExecutionState}, s'.stackSpace = s₂.stackSpace →
      s'.hostCtx.accounts = s₂.hostCtx.accounts →
      CopyInstr.extcodecopy.source top s' = CopyInstr.extcodecopy.source top s := by
    intro s' hstack' haccounts'
    show s'.hostCtx.codeOf (u256ToU8_20 (s'.stackSpace top)) = _
    unfold MockedHost.codeOf
    rw [hstack', haccounts', hstack₂, haccounts₂, hhost]
    rfl
  rw [sat_ite]
  refine ⟨fun hpos => ?_, fun hnone => ?_⟩
  -- The host is asked to copy, and what it answers is taken for the number of copied bytes.
  · simp only [sat_bind, sat_load, hstack₂, if_pos hindex, if_pos hdest]
    rw [sat_ask]
    refine (copyCode_codeOf _ _ _ _).mono (fun copied host hanswer => ?_) fun _ _ _ => trivial
    obtain ⟨hcopied, hhost'⟩ := hanswer
    refine (sat_scanClear ?_ _ _ _).mono (fun _ s' hclear => ?_) fun _ _ _ => trivial
    · show s₂.memory.Sound
      rw [hmemory₂]
      exact hreached.sound
    obtain ⟨hcontents, hstack', haccounts'⟩ := hclear
    refine left_of_cleared hreached (hcopied.trans ?_) (hcontents.trans ?_)
      (hsource hstack' (haccounts'.trans ?_))
    · have hcode : s₂.hostCtx.codeOf (u256ToU8_20 (s.stackSpace top)) =
          CopyInstr.extcodecopy.source top s := by
        have hsame : CopyInstr.extcodecopy.source top s₂ = _ := hsource rfl rfl
        rw [← hsame, ← hstack₂]
        rfl
      rw [← hcode, hstack₂]
      rfl
    · rw [← hreached.contents, ← hmemory₂]
      rfl
    · rw [hhost']
      rfl
  -- Nothing is copied for a size whose low limb is 0.
  · have hzero : (CopyInstr.extcodecopy.size top s).low = 0 := Nat.eq_zero_of_not_pos hnone
    refine CopyInstr.left_of_low hreached (f := fun _ => 0) ?_ (fun j hj => ?_) (hsource rfl rfl)
    · rw [hzero, Contents.overwrite_zero, hmemory₂, hreached.contents]
    · omega

/-- What an instruction that succeeds leaves. -/
theorem sat_copies (htop : StackHolds top k.operands) (hs : s.memory.Sound) :
    Sat (k.core top) s (fun _ s' => k.Left top s s') fun _ _ => True := by
  cases k with
  | calldatacopy => exact left_calldatacopy htop hs
  | codecopy => exact left_codecopy htop hs
  | extcodecopy => exact left_extcodecopy htop hs

omit [Env] in
/-- What is left is right just where the operands fit. -/
theorem CopyInstr.Left.fits_iff (h : k.Left top s s') (hsize : (k.source top s).length < 2 ^ 64) :
    k.Copied top s s' ↔ k.Fits top s := by
  unfold CopyInstr.Copied
  rw [h.1, Contents.overwrite_eq_iff, and_iff_left h.2]
  unfold CopyInstr.Fits
  refine forall₂_congr fun j _ => ?_
  split
  case isTrue => rfl
  case isFalse =>
    by_cases hindex : (k.index top s).toNat < 2 ^ 64
    · simp only [low_eq_toNat hindex, hindex, true_or]
    · have hbehind : (k.source top s).getD ((k.index top s).toNat + j) 0 = 0 := by
        rw [List.getD_eq_getElem?_getD, List.getElem?_eq_none (by omega)]
        rfl
      rw [hbehind, or_iff_right hindex]

/-- An instruction that succeeds follows the rule just where the operands fit. -/
theorem copied_iff (htop : StackHolds top k.operands) (hs : s.memory.Sound)
    (hsize : (k.source top s).length < 2 ^ 64) (hrun : k.core top s = .ok () s') :
    k.Copied top s s' ↔ k.Fits top s :=
  ((sat_copies htop hs).of_ok hrun).fits_iff hsize

end

/-- A state with the code `1, 2` and the operands of a copy of `n` bytes from the index `x` to the
start of the memory. -/
def copyState (x n : Uint256) : ExecutionState :=
  { wordsState [n, x, .zero] with code := ⟨[1, 2], 2⟩ }

/-- Three bytes of the two that there are. -/
theorem copied_iff_code :
    let _ : Env := Env.zeroed
    ∃ s', CopyInstr.codecopy.core 2 (copyState .zero (.ofU64 3)) = .ok () s' ∧
      CopyInstr.codecopy.Copied 2 (copyState .zero (.ofU64 3)) s' := by
  intro _
  obtain ⟨⟨⟩, s', hrun⟩ := exists_of_endsOk (x := codecopy 2) (s := copyState .zero (.ofU64 3))
    (by with_unfolding_all decide)
  refine ⟨s', hrun, (copied_iff (k := .codecopy) (by decide) ⟨rfl, by decide, fun h => absurd rfl h⟩
    (by decide) hrun).2 ?_⟩
  intro j hj
  have hwrites : ¬ CopyInstr.codecopy.Keeps 2 (copyState .zero (.ofU64 3)) j := by
    rintro (hbehind | ⟨hext, -⟩)
    · exact absurd hj (Nat.not_lt.2 hbehind)
    · cases hext
  rw [if_neg hwrites]
  exact .inl (by decide)

/-- The index `2 ^ 64` is taken for 0. -/
theorem copied_iff_wide :
    let _ : Env := Env.zeroed
    ∃ s', CopyInstr.codecopy.core 2 (copyState ⟨⟨0, 0⟩, ⟨1, 0⟩⟩ .one) = .ok () s' ∧
      ¬ CopyInstr.codecopy.Copied 2 (copyState ⟨⟨0, 0⟩, ⟨1, 0⟩⟩ .one) s' := by
  intro _
  obtain ⟨⟨⟩, s', hrun⟩ := exists_of_endsOk (x := codecopy 2)
    (s := copyState ⟨⟨0, 0⟩, ⟨1, 0⟩⟩ .one) (by with_unfolding_all decide)
  have hleft := (sat_copies (k := .codecopy) (by decide)
    ⟨rfl, by decide, fun h => absurd rfl h⟩).of_ok hrun
  refine ⟨s', hrun, fun hcopied => ?_⟩
  have hfits := (hleft.fits_iff (by decide)).1 hcopied 0 (by decide)
  exact absurd hfits (by decide)

end TscVee
