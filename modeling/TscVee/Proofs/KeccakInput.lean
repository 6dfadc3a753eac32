import TscVee.Proofs.WordRules

/-!
# `TscVee.Proofs.KeccakInput`: what `KECCAK256` hashes

`hashContext` is the instruction up to `sha3_Finalize`, and `keccak256_eq` says that only the store
of the digest is left. `sha3_Update` gets the number of words of the operand where its number of
bytes belongs, and `sha3_SetFlags` is not called.

* `sat_hashContext`: the bytes that the sponge absorbs, and its mode.
* `sat_keccak256`: the word that is pushed is the digest of these bytes. `numWords_lt` says that
  they are fewer than those of the operand, from two bytes on.
* `keccakHash_never`: the hash is never the one that is due, because its padding is that of
  SHA3-256.
-/

set_option autoImplicit false

namespace TscVee

open TscVee.Core Lib

/-! ### The mode of the sponge -/

/-- The flag for the Keccak padding is kept by all steps on bytes. -/
theorem saveBytes_capacityWords (bytes : List Byte) (ctx : Sha3Context) :
    (saveBytes ctx bytes).capacityWords = ctx.capacityWords := by
  unfold saveBytes
  induction bytes generalizing ctx with
  | nil => rfl
  | cons b bytes ih =>
      rw [List.foldl_cons, ih]
      rfl

/-- A word that is absorbed keeps the capacity. -/
theorem absorbWord_capacityWords (ctx : Sha3Context) (t : U64) :
    (absorbWord ctx t).capacityWords = ctx.capacityWords := by
  unfold absorbWord
  simp only
  split <;> rfl

/-- The words that are absorbed keep the capacity. -/
theorem absorbWords_capacityWords (words : Nat) (buf : List Byte) (ctx : Sha3Context) :
    (absorbWords words buf ctx).capacityWords = ctx.capacityWords := by
  induction words generalizing buf ctx with
  | zero => rfl
  | succ words ih =>
      rw [absorbWords, ih]
      exact absorbWord_capacityWords _ _

/-- An update keeps the capacity. -/
theorem sha3Update_capacityWords (ctx : Sha3Context) (buf : List Byte) :
    (sha3Update ctx buf).capacityWords = ctx.capacityWords := by
  unfold sha3Update
  simp only
  split
  · exact saveBytes_capacityWords _ _
  · rw [saveBytes_capacityWords, absorbWords_capacityWords]
    split
    · rw [absorbWord_capacityWords]
      exact saveBytes_capacityWords _ _
    · rfl

/-! ### The phases of the instruction -/

section
variable [Env] {s : ExecutionState} {top : StackTop}

/-- The instruction up to the end of the hash. -/
def hashContext (top : StackTop) : Core Sha3Context := do
  requireMemoryU256 (← load top) (← load (top - 1))
  let i := (← load top).low
  let s := (← load (top - 1)).low
  let w := numWords s
  chargeGas (w * 6)
  let data ← if s ≠ 0 then readMemory i w else pure []
  return sha3Update sha3Init256 data

/-- The digest is read as a word and stored. -/
theorem keccak256_eq (top : StackTop) :
    keccak256 top =
      hashContext top >>= fun ctx => store (top - 1) (readu256BE (sha3Finalize ctx)) := by
  unfold keccak256 hashContext
  dsimp only [StackTop.pop, StackTop.top]
  simp only [bind_assoc, pure_bind]
  refine bind_congr fun _ => bind_congr fun _ => bind_congr fun _ => bind_congr fun _ =>
    bind_congr fun _ => bind_congr fun _ => ?_
  split <;> simp only [bind_assoc, pure_bind]

/-- `n` bytes of the memory from `i` on. -/
def memorySlice (memory : Memory) (i n : Nat) : List Byte :=
  (List.range n).map fun j => memory.mData.getD (fun _ => 0) (i + j)

omit [Env] in
/-- The bytes that are read from the memory, where they are in it. -/
theorem sat_readSlice (i n : Nat) {Q : List Byte → ExecutionState → Prop}
    (hQ : ∀ s₁ : ExecutionState, s₁.stackSpace = s.stackSpace → Q (memorySlice s₁.memory i n) s₁) :
    Sat (readMemory i n) s Q fun _ _ => True := by
  rw [sat_readMemory]
  split
  -- No byte is read from an empty range, and the slice is empty too.
  case isTrue hzero =>
    have hslice := hQ s rfl
    rw [hzero] at hslice
    exact hslice
  case isFalse =>
    rw [sat_access]
    split
    case h_1 => trivial
    case h_2 data hdata =>
      split
      case isFalse => trivial
      case isTrue =>
        have hslice := hQ (s.logAccess i n) rfl
        have hmemory : (s.logAccess i n).memory.mData = some data := hdata
        unfold memorySlice at hslice
        rw [hmemory] at hslice
        exact hslice

/-- The sponge absorbs as many bytes as the operand has words, and is in the SHA3-256 mode. -/
theorem sat_hashContext (h : StackHolds top 2) :
    Sat (hashContext top) s
      (fun ctx s₁ => ctx = sha3Update sha3Init256
          (memorySlice s₁.memory (s.stackSpace top).low (numWords (s.stackSpace (top - 1)).low)) ∧
        s₁.stackSpace = s.stackSpace)
      fun _ _ => True := by
  have htop := h.top (by decide)
  have hslot := h.slot (i := 1) (by decide) (by decide)
  unfold hashContext
  simp only [sat_bind, sat_load, if_pos htop, if_pos hslot]
  refine (sat_requireMemoryU256 _ _).mono (fun _ s₁ hs₁ => ?_) fun _ _ _ => trivial
  -- The check keeps the stack.
  have hstack : s₁.stackSpace = s.stackSpace := by
    rcases hs₁ with ⟨-, rfl⟩ | ⟨-, hchecked, -⟩
    · rfl
    · rw [hchecked.same]
  rw [hstack, sat_chargeGas]
  split
  case isFalse => trivial
  split
  case isTrue => trivial
  rw [sat_ite]
  constructor
  · intro _
    rw [sat_bind]
    exact sat_readSlice _ _ fun s₂ hs₂ => ⟨rfl, hs₂.trans hstack⟩
  -- Size 0: the context is updated with no byte.
  · intro hzero
    rw [Classical.not_not.1 hzero]
    exact ⟨rfl, hstack⟩

/-- The word that is pushed depends on as many bytes of the memory as the operand has words. -/
theorem sat_keccak256 (h : StackHolds top 2) :
    Sat (keccak256 top) s
      (fun _ s' => s'.stackSpace (top - 1) = readu256BE (sha3Finalize (sha3Update sha3Init256
        (memorySlice s'.memory (s.stackSpace top).low (numWords (s.stackSpace (top - 1)).low)))))
      fun _ _ => True := by
  rw [keccak256_eq, sat_bind]
  refine (sat_hashContext h).mono (fun ctx s₁ ⟨hctx, _⟩ => ?_) fun _ _ h => h
  rw [sat_store, if_pos (h.slot (by decide) (by decide)), ExecutionState.setSlot_self, hctx]
  rfl

omit [Env] in
/-- From two bytes on, there are fewer words than bytes. -/
theorem numWords_lt {n : Nat} (hn : 2 ≤ n) (hn' : n + 31 < 2 ^ 64) : numWords n < n := by
  unfold numWords
  omega

/-! ### The hash that is due -/

/-- The sponge has absorbed the bytes of the operand and no others, it is in the Keccak mode, and
the word that is pushed is its digest. -/
def KeccakHash (top : StackTop) (s s' : ExecutionState) : Prop :=
  ∃ ctx s₁, hashContext top s = .ok ctx s₁ ∧
    (∃ keccak, ctx = sha3Update (sha3SetFlags sha3Init256 keccak)
      (memorySlice s₁.memory (s.stackSpace top).toNat (s.stackSpace (top - 1)).toNat)) ∧
    ctx.capacityWords &&& sha3UseKeccakFlag ≠ 0 ∧
    s' = s₁.setSlot (top - 1) (readu256BE (sha3Finalize ctx))

/-- The sponge is not in the Keccak mode. -/
theorem hashContext_mode (h : StackHolds top 2) {ctx : Sha3Context} {s₁ : ExecutionState}
    (hrun : hashContext top s = .ok ctx s₁) : ctx.capacityWords &&& sha3UseKeccakFlag = 0 := by
  rw [((sat_hashContext h).of_ok hrun).1, sha3Update_capacityWords]
  decide

/-- `KECCAK256` never leaves the hash that is due. -/
theorem keccakHash_never (h : StackHolds top 2) (s' : ExecutionState) : ¬ KeccakHash top s s' := by
  rintro ⟨ctx, s₁, hctx, -, hmode, -⟩
  exact hmode (hashContext_mode h hctx)

end

/-- The hash of one byte. -/
theorem keccakHash_never_one :
    let _ : Env := Env.zeroed
    ∃ s', keccak256 1 (wordsState [.one, .zero]) = .ok () s' ∧
      ¬ KeccakHash 1 (wordsState [.one, .zero]) s' := by
  intro _
  obtain ⟨⟨⟩, s', hrun⟩ := exists_of_endsOk (x := keccak256 1) (s := wordsState [.one, .zero])
    (by with_unfolding_all decide)
  exact ⟨s', hrun, keccakHash_never (by decide) s'⟩

/-- The hash of 64 bytes, of which two are absorbed. -/
theorem keccakHash_never_slot :
    let _ : Env := Env.zeroed
    ∃ s', keccak256 1 (wordsState [.ofU64 64, .zero]) = .ok () s' ∧
      ¬ KeccakHash 1 (wordsState [.ofU64 64, .zero]) s' := by
  intro _
  obtain ⟨⟨⟩, s', hrun⟩ := exists_of_endsOk (x := keccak256 1) (s := wordsState [.ofU64 64, .zero])
    (by with_unfolding_all decide)
  refine ⟨s', hrun, ?_⟩
  rintro ⟨ctx, s₁, hctx, -, hmode, -⟩
  exact hmode (hashContext_mode (by decide) hctx)

/-- The digest of no bytes is that of SHA3-256. -/
example :
    let _ : Env := Env.zeroed
    endsWith (fun w => w.toNat == 0xa7ffc6f8bf1ed76651c14756a061d662f580ff4de43b49fa82d80a4b80f8434a)
      (do keccak256 1; load 0) (wordsState [.zero, .zero]) = true := by
  decide +kernel

end TscVee
