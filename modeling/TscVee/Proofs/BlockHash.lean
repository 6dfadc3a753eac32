import TscVee.Proofs.HostAnswers
import TscVee.Proofs.WordRules

/-!
# `TscVee.Proofs.BlockHash`: the window of `BLOCKHASH`

`BLOCKHASH` compares the block number with the upper bound the wrong way round, and with the lower
bound in the low 64 bits only.

* `BlockhashRule`: the hash of one of the last 256 blocks should be pushed, and 0 for other numbers,
  without a request to the host.
* `blockhash_iff`: the rule holds just where the hash of a number in the window is 0 anyway, and a
  number above the current block has low bits below the window.
-/

set_option autoImplicit false

namespace TscVee

open TscVee.Core Lib

/-- The block number is one of the last 256 before the current block. -/
def InHashWindow (b : Int) (n : Nat) : Prop := max (b - 256) 0 ≤ n ∧ n < b

instance (b : Int) (n : Nat) : Decidable (InHashWindow b n) := inferInstanceAs (Decidable (_ ∧ _))

/-- The test of the source: the number is above the current block, and its low 64 bits, read as an
`int64_t`, are not below the window. -/
def AsksHash (b : Int) (n : Uint256) : Prop := b < n.toNat ∧ max (b - 256) 0 ≤ toInt64 n.low

instance (b : Int) (n : Uint256) : Decidable (AsksHash b n) := inferInstanceAs (Decidable (_ ∧ _))

/-- What `BLOCKHASH` should do: `get_block_hash` answers with the block hash of the host. -/
def BlockhashRule (s : ExecutionState) (top : StackTop) : Prop :=
  let inWindow := InHashWindow s.hostCtx.txContext.blockNumber (s.stackSpace top).toNat
  Sat (blockhash top) s
    (fun _ s' => ∃ events, s'.trace = s.trace ++ events ∧
      (inWindow → s'.stackSpace top = readu256BE (bytesAt s.hostCtx.blockHash)) ∧
      (¬ inWindow → s'.stackSpace top = .zero ∧ ∀ n, .host (.getBlockHash n) ∉ events))
    fun _ _ => False

/-- An `int64_t` that is not negative, as a word. -/
theorem int64Word_toNat {x : Int} (h : 0 ≤ x) (h' : x < 2 ^ 63) : (int64Word x).toNat = x := by
  unfold int64Word
  rw [ofU64_toNat, BitVec.toNat_ofInt]
  omega

/-- Zero bytes are the number zero. -/
theorem readu256BE_zeroBytes32 : readu256BE (bytesAt zeroBytes32) = .zero := by decide

variable {s : ExecutionState} {top : StackTop}

/-- What `BLOCKHASH` does: it asks where `AsksHash` says, and pushes 0 elsewhere. -/
theorem sat_blockhash (htop : StackHolds top 1) (hb : 0 ≤ s.hostCtx.txContext.blockNumber)
    (hb' : s.hostCtx.txContext.blockNumber < 2 ^ 63) {Q : Unit → ExecutionState → Prop}
    {E : Halt → ExecutionState → Prop} :
    Sat (blockhash top) s Q E ↔
      (AsksHash s.hostCtx.txContext.blockNumber (s.stackSpace top) →
        Q () (((s.asked .getTxContext s.hostCtx).asked
          (.getBlockHash (toInt64 (s.stackSpace top).low)) { s.hostCtx with
            recordedBlockhashes :=
              s.hostCtx.recordedBlockhashes.push (toInt64 (s.stackSpace top).low) }).setSlot top
            (readu256BE (bytesAt s.hostCtx.blockHash)))) ∧
      (¬ AsksHash s.hostCtx.txContext.blockNumber (s.stackSpace top) →
        Q () ((s.asked .getTxContext s.hostCtx).setSlot top .zero)) := by
  have hslot : inStackSpace top := htop.top (by decide)
  generalize hnumber : s.hostCtx.txContext.blockNumber = b at *
  have hdiff : isInt64 (b - 256) := by
    unfold isInt64
    omega
  -- The test of the source is `AsksHash`.
  have htest : (gt256 (s.stackSpace top) (int64Word b) = true ∧
      toInt64 (s.stackSpace top).low ≥ if b - 256 > 0 then b - 256 else 0) ↔
        AsksHash b (s.stackSpace top) := by
    unfold AsksHash
    rw [gt256_iff, ← Int.ofNat_lt, int64Word_toNat hb hb']
    have hmax : (if b - 256 > 0 then b - 256 else 0) = max (b - 256) 0 := by
      split <;> omega
    rw [hmax]
  unfold blockhash
  rw [sat_bind, sat_askTxContext]
  simp only [sat_bind, hnumber, sat_int64, if_pos hdiff, sat_load, StackTop.top, if_pos hslot,
    sat_ite, ExecutionState.asked_stackSpace, htest]
  rw [sat_askBlockHash]
  simp only [sat_pure, sat_store, if_pos hslot, readu256BE_zeroBytes32,
    ExecutionState.asked_hostCtx]

/-- `BLOCKHASH` follows its rule just where the hash that a number in the window should give is 0,
and no number is asked for. -/
theorem blockhash_iff (htop : StackHolds top 1) (hb : 0 ≤ s.hostCtx.txContext.blockNumber)
    (hb' : s.hostCtx.txContext.blockNumber < 2 ^ 63) :
    BlockhashRule s top ↔
      (InHashWindow s.hostCtx.txContext.blockNumber (s.stackSpace top).toNat →
        readu256BE (bytesAt s.hostCtx.blockHash) = .zero) ∧
      ¬ AsksHash s.hostCtx.txContext.blockNumber (s.stackSpace top) := by
  unfold BlockhashRule
  rw [sat_blockhash htop hb hb']
  by_cases hasks : AsksHash s.hostCtx.txContext.blockNumber (s.stackSpace top)
  · -- A number that is asked for is above the window.
    have hout : ¬ InHashWindow s.hostCtx.txContext.blockNumber (s.stackSpace top).toNat := by
      unfold AsksHash at hasks
      unfold InHashWindow
      omega
    simp only [hasks, hout, not_true_eq_false, not_false_eq_true, forall_const, false_implies,
      true_and, and_false, iff_false, and_true]
    rintro ⟨events, htrace, -, hnone⟩
    have hevents : [.host .getTxContext, .host (.getBlockHash (toInt64 (s.stackSpace top).low))] =
        events := by
      refine (List.append_right_inj s.trace).1 ?_
      rw [← htrace]
      simp [ExecutionState.setSlot, ExecutionState.asked]
    exact hnone (toInt64 (s.stackSpace top).low) (by rw [← hevents]; simp)
  -- A number that is not asked for leaves 0, whatever the host would say.
  · simp only [hasks, false_implies, true_and, not_false_eq_true, forall_const, and_true]
    constructor
    · rintro ⟨events, -, hpush, -⟩ hin
      rw [← hpush hin]
      exact ExecutionState.setSlot_self _ _ _
    · intro hzero
      refine ⟨[.host .getTxContext], rfl, fun hin => ?_, fun _ => ⟨?_, by simp⟩⟩
      · rw [hzero hin]
        exact ExecutionState.setSlot_self _ _ _
      · exact ExecutionState.setSlot_self _ _ _

/-- A state of the block `b` with the number `n` on the stack and a host that answers 1. -/
def hashState (b : Int) (n : Uint256) : ExecutionState :=
  let s := wordsState [n]
  { s with
    hostCtx := { s.hostCtx with
      txContext := { (default : TxContext) with blockNumber := b }
      blockHash := u256ToU8_32 .one } }

/-- The number 1 at block 1000 is below the window. -/
theorem blockhash_iff_old : BlockhashRule (hashState 1000 .one) 0 :=
  (blockhash_iff (s := hashState 1000 .one) (by decide : StackHolds 0 1) (by decide)
    (by decide)).2 ⟨fun h => absurd h (by decide), by decide⟩

/-- The number 999 at block 1000 is in the window, and gets 0. -/
theorem blockhash_iff_previous : ¬ BlockhashRule (hashState 1000 (.ofU64 999)) 0 := by
  intro hrule
  obtain ⟨-, hpush⟩ := (sat_blockhash (s := hashState 1000 (.ofU64 999)) (by decide : StackHolds 0 1)
    (by decide) (by decide)).1 hrule
  obtain ⟨events, -, hin, -⟩ := hpush (by decide)
  have hword := hin (by decide)
  rw [ExecutionState.setSlot_self] at hword
  exact absurd hword (by decide)

end TscVee
