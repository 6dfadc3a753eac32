import TscVee.Proofs.CallMoved
import TscVee.Proofs.JumpTarget
import TscVee.Proofs.Places
import TscVee.Spec.Naive

/-!
# `TscVee.Proofs.NaivePlaces`: the places of the naive interpreter

The naive interpreter stands at a position of the bytecode, and the interpreter of the source at an
index of the instruction table. Both see the same operations in front of them.

* `Faces code p ops`: behind the position `p`, the operations `ops` of the decoding are left.
* `Faces.opAt`, `Faces.next`: the operation at the position, and the position behind it.
* `naiveArg_eq`, `naiveArg_stores`: the argument that is read from the code is the one that the
  analyser stores, but for the cost of the block so far.
* `looks_naive`, `naive_looks`: both jump tables find the same destinations.
* `blocks_terminator`: a terminator is the last operation of its block.
-/

set_option autoImplicit false

namespace TscVee

open Lib

variable {code : List Byte}

/-! ### Positions of the code -/

/-- The operations of the decoding from the position `p` on. -/
structure Faces (code : List Byte) (p : Nat) (ops : List Op) : Prop where
  decode : ∃ done, decode code = done ++ ops
  head : ∀ op rest, ops = op :: rest → op.pos = p
  nil : ops = [] → code.length ≤ p

/-- At the first byte, the whole code is ahead. -/
theorem Faces.start (code : List Byte) : Faces code 0 (TscVee.decode code) := by
  refine ⟨⟨[], rfl⟩, fun op rest h => ?_, fun h => ?_⟩
  · cases code with
    | nil => cases h
    | cons opcode bytes =>
        obtain ⟨hop, -⟩ := List.cons.inj h
        rw [← hop]
  · cases code with
    | nil => exact le_refl _
    | cons opcode bytes => cases h

variable {p : Nat} {op : Op} {ops : List Op}

/-- The next operation is one of the code. -/
theorem Faces.mem (h : Faces code p (op :: ops)) : op ∈ TscVee.decode code := by
  obtain ⟨done, hdone⟩ := h.decode
  simp [hdone]

/-- The operation at the position. -/
theorem Faces.opAt (h : Faces code p (op :: ops)) : opAt code p = some op := by
  obtain ⟨-, hopcode, himm⟩ := opStart_of_mem_decode h.mem
  have hpos : op.pos = p := h.head op ops rfl
  rw [hpos] at hopcode himm
  rw [TscVee.opAt, hopcode, Option.map_some, ← himm, ← hpos]

/-- Behind the last operation there is none. -/
theorem Faces.opAt_nil (h : Faces code p []) : TscVee.opAt code p = none := by
  rw [TscVee.opAt, List.getElem?_eq_none (h.nil rfl), Option.map_none]

/-- The position behind an operation and its immediate bytes. -/
theorem Faces.next (h : Faces code p (op :: ops)) : Faces code (p + 1 + immSize op.opcode) ops := by
  obtain ⟨done, hdone⟩ := h.decode
  have hpos : op.pos = p := h.head op ops rfl
  obtain ⟨hstart, hopcode, -⟩ := opStart_of_mem_decode h.mem
  have hlength := Op.imm_length h.mem
  rw [hpos] at hstart hopcode hlength
  have hafter : OpStart code (p + 1 + immSize op.opcode) := .next hstart hopcode
  have hsorted := decode_sorted code
  rw [hdone, List.pairwise_append, List.pairwise_cons] at hsorted
  obtain ⟨-, ⟨hlater, hrest⟩, hearlier⟩ := hsorted
  -- The operation that starts behind `op` is one of `ops`.
  have hmem : p + 1 + immSize op.opcode < code.length →
      ∃ x ∈ ops, x.pos = p + 1 + immSize op.opcode := by
    intro hlt
    obtain ⟨x, hx, hxpos⟩ := hafter.exists_mem_decode hlt
    rw [hdone, List.mem_append, List.mem_cons] at hx
    rcases hx with hx | rfl | hx
    · have := hearlier x hx op List.mem_cons_self
      omega
    · omega
    · exact ⟨x, hx, hxpos⟩
  refine ⟨⟨done ++ [op], by simp [hdone]⟩, fun y rest heq => ?_, fun heq => ?_⟩
  · subst heq
    have hy := hlater y List.mem_cons_self
    have hcode : y.pos < code.length := by
      have hydecode : y ∈ TscVee.decode code := by simp [hdone]
      exact (List.getElem?_eq_some_iff.1 (opStart_of_mem_decode hydecode).2.1).1
    obtain ⟨x, hx, hxpos⟩ := hmem (by omega)
    rcases List.mem_cons.1 hx with rfl | hx
    · exact hxpos
    · have := (List.pairwise_cons.1 hrest).1 x hx
      omega
  · subst heq
    by_contra hlt
    obtain ⟨x, hx, -⟩ := hmem (by omega)
    cases hx

/-! ### Arguments -/

/-- The word for a number. -/
theorem numberWord_toNat {n : Nat} (h : n < 2 ^ 256) : (numberWord n).toNat = n := by
  simp only [numberWord, Uint256.toNat, BitVec.toNat_ofNat]
  omega

/-- An instruction with the gas cost for its argument is no push. -/
theorem not_push_of_storesGasCost {opcode : Opcode} (h : storesGasCost opcode = true) :
    anySmallPush opcode = false ∧ anyLargePush opcode = false := by
  simp only [storesGasCost, decide_eq_true_eq, List.mem_cons, List.not_mem_nil, or_false] at h
  rcases h with rfl | rfl | rfl | rfl | rfl | rfl | rfl | rfl <;> decide

/-- An instruction that looks at the cost of its block gets it as its argument, and here gets 0. -/
theorem naiveArg_stores (code : List Byte) (h : storesGasCost op.opcode = true) (gasCost : Int) :
    op.arg gasCost = .number gasCost ∧ naiveArg code op = .number 0 := by
  obtain ⟨hsmall, hlarge⟩ := not_push_of_storesGasCost h
  unfold Op.arg naiveArg
  simp [hsmall, hlarge, h]

/-- Any other argument is read from the code as the analyser stores it. -/
theorem naiveArg_eq (hop : op ∈ decode code) (h : storesGasCost op.opcode = false)
    (gasCost : Int) : naiveArg code op = op.arg gasCost := by
  have hnumber := beNat_lt (fun i => code.getD (op.pos + 1 + i) 0) (immSize op.opcode)
  change pushNumber code op.pos (immSize op.opcode) < _ at hnumber
  have hmatch := @Op.instr_matches Env.zeroed .london code op hop gasCost
  have harg : (@Op.instr Env.zeroed .london op gasCost).arg = op.arg gasCost := rfl
  unfold naiveArg
  by_cases hsmall : anySmallPush op.opcode = true
  -- The number of the immediate bytes is the value in the instruction.
  · have hrange := anySmallPush_iff.1 hsmall
    have himm : immSize op.opcode = op.opcode.toNat - 0x5f := by
      rw [immSize_eq, if_pos (.inl hsmall)]
      show op.opcode.toNat - 0x60 + 1 = _
      omega
    obtain ⟨value, hvalue, hnat⟩ := hmatch.smallPush (immSize op.opcode) (by omega) (by omega)
      (by omega)
    simp only [if_pos hsmall]
    rw [← harg, hvalue]
    refine congrArg InstructionArgument.smallPushValue (BitVec.eq_of_toNat_eq ?_)
    rw [BitVec.toNat_ofNat, hnat, ← hnat, Nat.mod_eq_of_lt value.isLt]
  -- Or the value in the table, which has 256 bits.
  · by_cases hlarge : anyLargePush op.opcode = true
    · have hrange := anyLargePush_iff.1 hlarge
      have himm : immSize op.opcode = op.opcode.toNat - 0x5f := by
        rw [immSize_eq, if_pos (.inr hlarge)]
        show op.opcode.toNat - 0x60 + 1 = _
        omega
      obtain ⟨value, hvalue, hnat⟩ := hmatch.largePush (immSize op.opcode) (by omega) (by omega)
        (by omega)
      simp only [if_neg hsmall, if_pos hlarge]
      rw [← harg, hvalue]
      refine congrArg InstructionArgument.pushValue (Uint256.toNat_inj ?_)
      have hword : pushNumber code op.pos (immSize op.opcode) < 2 ^ 256 := by
        rw [← hnat]
        exact value.toNat_lt
      rw [numberWord_toNat hword, hnat]
    · unfold Op.arg
      simp only [if_neg hsmall, if_neg hlarge, h, Bool.false_eq_true, if_false]

/-! ### Jump tables -/

/-- The positions are those of the valid jump destinations. -/
theorem mem_jumpdestPositions {offset : Int} :
    offset ∈ jumpdestPositions code ↔ ∃ p : Nat, offset = p ∧ ValidJumpdest code p := by
  simp only [jumpdestPositions, List.mem_map, List.mem_filter, validJumpdest_iff]
  constructor
  · rintro ⟨op, ⟨hop, hjumpdest⟩, rfl⟩
    exact ⟨op.pos, rfl, op, hop, hjumpdest, rfl⟩
  · rintro ⟨_, rfl, op, hop, hjumpdest, rfl⟩
    exact ⟨op, ⟨hop, hjumpdest⟩, rfl⟩

/-- The positions are sorted. -/
theorem jumpdestPositions_sorted (code : List Byte) :
    (jumpdestPositions code).Pairwise (· < ·) := by
  rw [jumpdestPositions, List.pairwise_map]
  exact ((decode_sorted code).filter _).imp fun h => by omega

/-- In the naive interpreter a valid destination is its own target. -/
theorem findJumpdest_naive (h : ValidJumpdest code p) :
    findJumpdest (naiveAnalysis code) p = p := by
  obtain ⟨k, hk, hget⟩ := List.mem_iff_getElem.1 (mem_jumpdestPositions.2 ⟨p, rfl, h⟩)
  have hlt : k < (naiveAnalysis code).jumpdestOffsets.length := hk
  have hfind := findJumpdest_of_getElem (jumpdestPositions_sorted code) hlt
  rw [show (naiveAnalysis code).jumpdestOffsets[k] = (p : Int) from hget] at hfind
  rw [hfind, ← hget]
  exact List.getD_eq_getElem _ _ hk

/-- An offset that is no valid destination is not found. -/
theorem findJumpdest_naive_invalid {offset : Int}
    (h : ¬ ∃ p : Nat, offset = p ∧ ValidJumpdest code p) :
    findJumpdest (naiveAnalysis code) offset = -1 :=
  findJumpdest_of_not_mem (jumpdestPositions_sorted code) (mt mem_jumpdestPositions.1 h)

section
variable [Env] (rev : Revision)

/-- The destinations of the source, looked up in the naive interpreter. -/
theorem looks_naive (hlen : code.length < 2 ^ 31) :
    Looks (analyzeCode rev code) (naiveAnalysis code)
      fun i p => ValidJumpdest code p ∧ BlockStart code p i := by
  intro offset hfound
  by_cases hvalid : ∃ p : Nat, offset = p ∧ ValidJumpdest code p
  case neg =>
    rw [findJumpdest_invalid rev hlen hvalid] at hfound
    cases hfound
  obtain ⟨p, rfl, hp⟩ := hvalid
  obtain ⟨i, hi⟩ := hp.exists_blockStart
  rw [findJumpdest_jumpdest rev hlen hp hi] at hfound ⊢
  rw [toInt32_of_nonneg (hi.lt hlen) hfound, findJumpdest_naive hp]
  have hlt : p < (naiveAnalysis code).instrs.length := by
    rw [naiveAnalysis, List.length_replicate]
    exact hp.lt_length
  exact ⟨by omega, hlt, hp, hi⟩

/-- The destinations of the naive interpreter, looked up in the source, when all blocks have a
small index. -/
theorem naive_looks (hlen : code.length < 2 ^ 31)
    (hsmall : ∀ p i, ValidJumpdest code p → BlockStart code p i → i < 2 ^ 31) :
    Looks (naiveAnalysis code) (analyzeCode rev code)
      fun p i => ValidJumpdest code p ∧ BlockStart code p i := by
  intro offset hfound
  by_cases hvalid : ∃ p : Nat, offset = p ∧ ValidJumpdest code p
  case neg =>
    rw [findJumpdest_naive_invalid hvalid] at hfound
    cases hfound
  obtain ⟨p, rfl, hp⟩ := hvalid
  obtain ⟨i, hi⟩ := hp.exists_blockStart
  have hindex := findJumpdest_jumpdest rev hlen hp hi
  rw [toInt32_of_lt (hsmall p i hp hi)] at hindex
  have hbegin := findJumpdest_beginblock rev hlen hindex
  obtain ⟨ins, hins, -⟩ := Option.bind_eq_some_iff.1 hbegin
  rw [hindex, findJumpdest_naive hp]
  exact ⟨by omega, (List.getElem?_eq_some_iff.1 hins).1, hp, hi⟩

end

/-! ### Terminators -/

/-- Behind a terminator its block ends. -/
theorem blocks_terminator {ops block : List Op} (hblock : block ∈ blocks ops) {done rest : List Op}
    (heq : block = done ++ op :: rest) (hop : isTerminator op.opcode = true) : rest = [] := by
  -- On the operations: a terminator closes the block it is in.
  induction ops generalizing block done with
  | nil =>
      rw [blocks, List.mem_singleton] at hblock
      simp [hblock] at heq
  | cons first ops ih =>
      unfold blocks at hblock
      split at hblock
      case isTrue =>
        rcases List.mem_cons.1 hblock with rfl | hblock
        · -- The block is the first operation alone.
          cases done with
          | nil => exact (List.cons.inj heq).2.symm
          | cons x done => simp at heq
        · exact ih hblock heq
      case isFalse h =>
        -- The first operation is no terminator, since it has not closed its block.
        have hfirst : ∀ done block, first :: block = done ++ op :: rest →
            (∀ done, block = done ++ op :: rest → rest = []) → rest = [] := by
          intro done block heq hblock
          cases done with
          | nil => exact absurd (Or.inl ((List.cons.inj heq).1 ▸ hop)) h
          | cons x done => exact hblock done (List.cons.inj heq).2
        cases hops : blocks ops with
        | nil => exact absurd hops (blocks_ne_nil ops)
        | cons block' blocks' =>
            rw [hops] at hblock
            rcases List.mem_cons.1 hblock with rfl | hblock
            · exact hfirst done block' heq fun done heq => ih (hops ▸ List.mem_cons_self) heq
            · exact ih (hops ▸ List.mem_cons_of_mem _ hblock) heq

end TscVee
