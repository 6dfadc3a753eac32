import Mathlib.Data.List.Forall2
import TscVee.Lib.Transition
import TscVee.Proofs.Layout
import TscVee.Proofs.Tables
import TscVee.Proofs.WordBytes
import TscVee.Spec.Table

/-!
# `TscVee.Proofs.InstrTable`: the instruction table

* `smallPushValue_toNat`, `Op.pushValue_toNat`: both decoders of push data give the big-endian
  number of the immediate bytes, with zeros for the missing ones.
* `tableOf_eq`: the entries of the table, block by block.
* `InCode`: what every round of the loop of `analyze` keeps.
* `analyze_table`: the table, the bounds of the reads and the number of push values.
-/

set_option autoImplicit false

namespace TscVee

open Lib

/-! ### The data of a push -/

/-- The loop of a small push, from the byte with `k` bytes behind it on. Its word holds the
number `n` of the bytes so far. -/
theorem smallPushValue_toNat (bytes : List Byte) {n k : Nat} {value : U64}
    (hlen : bytes.length ≤ k + 1) (hn : value.toNat = n * 256 ^ (k + 1))
    (hfits : (n + 1) * 256 ^ (k + 1) ≤ 2 ^ 64) :
    (smallPushValue bytes (k * 8) value).toNat =
      n * 256 ^ (k + 1) + beNat (fun i => bytes.getD i 0) (k + 1) := by
  -- On the bytes: the value so far counts for the places above those that are left.
  induction bytes generalizing n k value with
  | nil =>
      have hzero := beNat_zeros (f := fun i => ([] : List Byte).getD i 0) (m := k + 1)
        (fun i _ => rfl) 0
      rw [Nat.add_zero] at hzero
      rw [smallPushValue, hn, hzero]
      exact (Nat.add_zero _).symm
  | cons b bytes ih =>
      have hpow : ∀ m, 256 ^ m = 2 ^ (m * 8) := fun m => by rw [Nat.mul_comm, Nat.pow_mul]
      have hpow' : 256 ^ (k + 1) = 2 ^ (k * 8 + 8) :=
        (hpow (k + 1)).trans (congrArg (2 ^ ·) (by omega))
      -- The byte goes to its own place, where the value has zeros.
      have hbyte := or_byte (k := k * 8) (n := n) value (hn.trans (congrArg (n * ·) hpow'))
        (le_of_eq_of_le (congrArg ((n + 1) * ·) hpow'.symm) hfits) b
      rw [← hpow] at hbyte
      have hsplit := beNat_add (fun i => (b :: bytes).getD i 0) 1 k
      have hfirst : beNat (fun i => (b :: bytes).getD i 0) 1 = b.toNat := by
        rw [beNat, beNat, Nat.zero_mul, Nat.zero_add, List.getD_cons_zero]
      rw [hfirst, Nat.add_comm 1 k] at hsplit
      have htail : (fun i => (b :: bytes).getD (1 + i) 0) = fun i => bytes.getD i 0 := by
        funext i
        rw [Nat.add_comm, List.getD_cons_succ]
      rw [htail] at hsplit
      rw [smallPushValue, hsplit]
      cases k with
      | zero =>
          have hnil : bytes = [] := List.eq_nil_of_length_eq_zero (by simpa using hlen)
          rw [hnil, smallPushValue, hbyte, beNat]
          ring
      | succ k =>
          rw [show (k + 1) * 8 - 8 = k * 8 by omega, ih (by simpa using hlen) hbyte]
          · ring
          · have hle := b.isLt
            refine le_trans ?_ hfits
            rw [Nat.pow_succ 256 (k + 1), ← Nat.mul_assoc, Nat.mul_right_comm]
            exact Nat.mul_le_mul_right _ (by omega)

/-- A large push puts the bytes at the end of its buffer. -/
theorem largePushBuffer_toNat (bytes : List Byte) {n : Nat} (hn : n ≤ 32) :
    (readu256BE (largePushBuffer n bytes)).toNat = beNat (fun i => bytes.getD i 0) n := by
  have hzeros : ∀ i, i < 32 - n → largePushBuffer n bytes i = 0 := fun i hi => if_pos hi
  have hsplit := beNat_zeros hzeros n
  rw [show 32 - n + n = 32 by omega] at hsplit
  rw [readu256BE_toNat, hsplit]
  refine beNat_congr fun i _ => ?_
  rw [largePushBuffer, if_neg (by omega), Nat.add_sub_cancel_left]
  rfl

/-- The immediate bytes of an operation give the number of its push. -/
theorem Op.imm_toNat {code : List Byte} {op : Op} (hop : op ∈ decode code) {n : Nat}
    (hn : immSize op.opcode = n) :
    beNat (fun i => op.imm.getD i 0) n = pushNumber code op.pos n := by
  refine beNat_congr fun i hi => ?_
  rw [(opStart_of_mem_decode hop).2.2, hn, List.getD_eq_getElem?_getD, List.getD_eq_getElem?_getD,
    List.getElem?_take_of_lt hi, List.getElem?_drop]

/-! ### The instruction of an operation -/

section
variable [Env] (rev : Revision)

/-- The function in the op table is that of the opcode. -/
theorem opcodeInfo_fn (opcode : Opcode) :
    (opcodeInfo rev opcode).fn = functionOf rev opcode := by
  have hfn : (getOpTable rev opcode).fn = functionOf rev opcode := by
    by_cases h : gasCosts rev opcode = -1 <;> simp only [getOpTable, functionOf, h, if_true, if_false]
  unfold opcodeInfo
  split <;> exact hfn

/-- The instruction that the analyser makes for an operation is the one for its entry. -/
theorem Op.instr_matches {code : List Byte} {op : Op} (hop : op ∈ decode code) (gasCost : Int) :
    OpMatches rev code op (op.instr rev gasCost) := by
  refine ⟨opcodeInfo_fn rev op.opcode, fun h => ?_, fun n h1 h8 hopcode => ?_,
    fun n h9 h32 hopcode => ?_, fun hpc => ?_⟩
  -- Every opcode has a function.
  · have hsome := opcodeInfo_isSome rev op.opcode
    rw [show (opcodeInfo rev op.opcode).fn = none from h] at hsome
    cases hsome
  -- A push of up to eight bytes: its value is built in a limb.
  · have hsmall : anySmallPush op.opcode = true := anySmallPush_iff.2 (by omega)
    have hsize : pushSize op.opcode = n := by
      show op.opcode.toNat - 0x60 + 1 = n
      omega
    have himm : immSize op.opcode = n := by
      rw [immSize_eq, if_pos (Or.inl hsmall), hsize]
    have hlen : op.imm.length ≤ n := by
      rw [Op.imm_length hop, himm]
      exact min_le_left _ _
    obtain ⟨k, rfl⟩ : ∃ k, n = k + 1 := ⟨n - 1, by omega⟩
    refine ⟨smallPushValue op.imm (k * 8) 0, ?_, ?_⟩
    · show op.arg gasCost = _
      rw [Op.arg, if_pos hsmall, hsize, Nat.add_sub_cancel]
    · have hfits : (0 + 1) * 256 ^ (k + 1) ≤ 2 ^ 64 := by
        rw [Nat.zero_add, Nat.one_mul]
        exact Nat.pow_le_pow_right (n := 256) (by decide) h8
      rw [smallPushValue_toNat op.imm (n := 0) hlen (by rw [Nat.zero_mul]; rfl) hfits,
        Nat.zero_mul, Nat.zero_add, Op.imm_toNat hop himm]
  -- A larger push: its value is read from a buffer of 32 bytes.
  · have hlarge : anyLargePush op.opcode = true := anyLargePush_iff.2 (by omega)
    have hsmall : ¬ anySmallPush op.opcode = true := by
      rw [anySmallPush_iff]
      omega
    have hsize : pushSize op.opcode = n := by
      show op.opcode.toNat - 0x60 + 1 = n
      omega
    have himm : immSize op.opcode = n := by
      rw [immSize_eq, if_pos (Or.inr hlarge), hsize]
    refine ⟨op.pushValue, ?_, ?_⟩
    · show op.arg gasCost = _
      rw [Op.arg, if_neg hsmall, if_pos hlarge]
    · rw [Op.pushValue, hsize, largePushBuffer_toNat op.imm h32, Op.imm_toNat hop himm]
  · show op.arg gasCost = _
    rw [Op.arg, hpc]
    rfl

/-! ### The table -/

omit [Env] in
/-- The entries of the table, block by block. -/
theorem entries_eq (ops : List Op) :
    .beginblock :: entries ops =
      ((blocks ops).flatMap fun block =>
        .beginblock :: (block.filter fun op => !op.isJumpdest).map Entry.op) ++ [.stop] := by
  -- On the operations, each of which is a block of its own or goes in front of the next one.
  induction ops with
  | nil => rfl
  | cons op ops ih =>
      rw [entries, blocks]
      have hop : (if op.isJumpdest then [] else [Entry.op op]) =
          ([op].filter fun op => !op.isJumpdest).map Entry.op := by
        cases hjumpdest : op.isJumpdest <;> simp [hjumpdest]
      rw [hop]
      split
      · rw [List.flatMap_cons, List.append_assoc _ _ [Entry.stop], ← ih, List.append_assoc]
        rfl
      · obtain ⟨block, rest, heq⟩ := List.exists_cons_of_ne_nil (blocks_ne_nil ops)
        rw [heq] at ih ⊢
        rw [prependBlock, List.flatMap_cons, List.filter_append, List.map_append]
        rw [List.flatMap_cons, List.cons_append, List.cons_append, List.cons.injEq] at ih
        rw [ih.2, List.append_nil]
        simp only [List.cons_append, List.append_assoc]

variable {rev} in
/-- The instructions of a block match its operations other than `JUMPDEST`. -/
theorem blockInstrs_matches {code : List Byte} (block : BlockAnalysis) {ops : List Op}
    (hops : ∀ op ∈ ops, op ∈ decode code) :
    List.Forall₂ (Entry.Matches rev code) ((ops.filter fun op => !op.isJumpdest).map Entry.op)
      (blockInstrs rev block ops) := by
  induction ops generalizing block with
  | nil => exact .nil
  | cons op ops ih =>
      rw [List.forall_mem_cons] at hops
      have hrest := ih (countOp rev block op) hops.2
      rw [blockInstrs]
      cases hjumpdest : op.isJumpdest with
      | true => simpa [hjumpdest] using hrest
      | false =>
          rw [List.filter_cons_of_pos (by simp [hjumpdest])]
          exact .cons (op.instr_matches rev hops.1 _) hrest

/-- The layout of blocks matches their entries. -/
theorem layout_matches {code : List Byte} {bs : List (List Op)}
    (hbs : ∀ block ∈ bs, ∀ op ∈ block, op ∈ decode code) :
    List.Forall₂ (Entry.Matches rev code)
      (bs.flatMap fun block =>
        .beginblock :: (block.filter fun op => !op.isJumpdest).map Entry.op)
      (layout rev bs) := by
  induction bs with
  | nil => exact .nil
  | cons block bs ih =>
      rw [List.forall_mem_cons] at hbs
      rw [layout_cons, List.flatMap_cons]
      refine List.rel_append ?_ (ih hbs.2)
      exact .cons (opxBeginblockFn_eq rev) (blockInstrs_matches _ hbs.1)

/-- The instructions of the analyser match the table, entry by entry. -/
theorem analyzeCode_matches (code : List Byte) :
    List.Forall₂ (Entry.Matches rev code) (tableOf code) (analyzeCode rev code).instrs := by
  have hops : ∀ block ∈ blocks (decode code), ∀ op ∈ block, op ∈ decode code := by
    intro block hblock op hop
    rw [← blocks_flatten (decode code)]
    exact List.mem_flatten.2 ⟨block, hblock, hop⟩
  rw [tableOf, entries_eq, analyzeCode_instrs]
  exact List.rel_append (layout_matches rev hops) (.cons (stopFn_eq rev) .nil)

/-! ### The rounds of the loop -/

/-- One round of the loop of `analyze`, which reads the byte at `code_pos` and some of the bytes
behind it. -/
def round (st : AnalyzeState) : Option AnalyzeState :=
  match st.rest with
  | [] => none
  | opcode :: rest => some (analyzeStep rev st opcode rest)

/-- The loop of the analyser is an iteration of its round. -/
theorem analyzeLoop_eq (fuel : Nat) (st : AnalyzeState) :
    analyzeLoop rev fuel st = iterate (round rev) fuel st := by
  induction fuel generalizing st with
  | zero => rfl
  | succ fuel ih =>
      rw [analyzeLoop, iterate, round]
      cases hrest : st.rest with
      | nil => rfl
      | cons opcode rest => exact ih _

/-- What the rounds keep: the bytes left to read are those of the code from `code_pos` on, and
each push value comes from bytes of its own. -/
structure InCode (code : List Byte) (st : AnalyzeState) : Prop where
  codePos_le : st.codePos ≤ code.length
  rest : st.rest = code.drop st.codePos
  pushValues_le : st.analysis.pushValues.length ≤ st.codePos

/-- The analyser starts at the first byte. -/
theorem inCode_init (code : List Byte) : InCode code (analyzeInit rev code) :=
  ⟨Nat.zero_le _, rfl, le_refl _⟩

variable {rev} in
/-- A round advances `code_pos` over what it takes, and keeps the invariant. -/
theorem InCode.round {code : List Byte} {st st' : AnalyzeState} (h : InCode code st)
    (hround : round rev st = some st') : InCode code st' ∧ st'.rest.length < st.rest.length := by
  unfold TscVee.round at hround
  cases hrest : st.rest with
  | nil =>
      rw [hrest] at hround
      cases hround
  | cons opcode rest =>
      rw [hrest] at hround
      obtain rfl := Option.some.inj hround
      -- The step is known from the operation that is read.
      have hstep := analyzeStep_eq rev st
        ⟨st.codePos, opcode, rest.take (immSize opcode)⟩ rest rfl rfl
      have hpos : st.codePos < code.length := by
        have := congrArg List.length (h.rest.symm.trans hrest)
        rw [List.length_drop, List.length_cons] at this
        omega
      have htail : rest = code.drop (st.codePos + 1) := by
        rw [← List.tail_drop, ← h.rest, hrest, List.tail_cons]
      have hlen : rest.length = code.length - (st.codePos + 1) := by
        rw [htail, List.length_drop]
      have htake : (rest.take (immSize opcode)).length = min (immSize opcode) rest.length :=
        List.length_take
      -- The immediate bytes are skipped as far as the code has them.
      have hdrop : rest.drop (immSize opcode) =
          code.drop (st.codePos + 1 + (rest.take (immSize opcode)).length) := by
        rw [htake]
        by_cases hle : immSize opcode ≤ rest.length
        · rw [min_eq_left hle, htail, List.drop_drop]
        · rw [List.drop_eq_nil_of_le (by omega), List.drop_eq_nil_of_le (by omega)]
      -- At most one push value for each byte that was read.
      have hpushed : (st.analysis.pushValues ++
          pushedValues [⟨st.codePos, opcode, rest.take (immSize opcode)⟩]).length ≤
          st.codePos + 1 := by
        have hone := List.length_filter_le (fun op : Op => anyLargePush op.opcode)
          [⟨st.codePos, opcode, rest.take (immSize opcode)⟩]
        have hold := h.pushValues_le
        rw [List.length_append, pushedValues, List.length_map]
        rw [List.length_singleton] at hone
        omega
      -- The opcode itself has been read.
      have hshorter : (rest.drop (immSize opcode)).length < (opcode :: rest).length := by
        rw [List.length_drop, List.length_cons]
        omega
      simp only at hstep
      rw [hstep]
      split <;> exact ⟨⟨by simp only; omega, hdrop, by simp only [afterOp]; omega⟩, hshorter⟩

/-- After as many rounds as bytes, nothing is left to read. -/
theorem analyzeLoop_final (code : List Byte) :
    (analyzeLoop rev code.length (analyzeInit rev code)).rest = [] := by
  have key : ∀ fuel st, InCode code st → st.rest.length ≤ fuel →
      (iterate (round rev) fuel st).rest = [] := by
    intro fuel
    induction fuel with
    | zero => exact fun st _ hfuel => List.eq_nil_of_length_eq_zero (Nat.le_zero.1 hfuel)
    | succ fuel ih =>
        intro st hst hfuel
        cases hrest : st.rest with
        | nil => simp only [iterate, round, hrest]
        | cons opcode rest =>
            have hround : round rev st = some (analyzeStep rev st opcode rest) := by
              simp only [round, hrest]
            obtain ⟨hst', hlt⟩ := hst.round hround
            simp only [iterate, hround]
            exact ih _ hst' (by omega)
  rw [analyzeLoop_eq]
  exact key _ _ (inCode_init rev code) (le_refl _)

/-- How `analyze` scans the code: the loop ends, at the end of the code; every round reads bytes of
the code only, and the push values stay within the capacity that was reserved for them. -/
structure Scans (code : List Byte) : Prop where
  terminates : Terminates (round rev) (analyzeInit rev code)
  reaches_end : Reaches (round rev) (analyzeInit rev code)
    (analyzeLoop rev code.length (analyzeInit rev code))
  at_end : (analyzeLoop rev code.length (analyzeInit rev code)).rest = []
  inCode : ∀ st, Reaches (round rev) (analyzeInit rev code) st → InCode code st
  capacity : ∀ st, Reaches (round rev) (analyzeInit rev code) st →
    st.analysis.pushValues.length ≤ maxArgsStorageSize code

/-- The analyser reads every byte once, and inside of the code. -/
theorem analyze_scans {code : List Byte} (hlen : code.length < 2 ^ 31 - 1) : Scans rev code := by
  have hinCode : ∀ st, Reaches (round rev) (analyzeInit rev code) st → InCode code st :=
    fun st hst => hst.invariant (fun _ _ ha hab => (ha.round hab).1) (inCode_init rev code)
  refine ⟨?_, ?_, analyzeLoop_final rev code, hinCode, fun st hst => ?_⟩
  · exact .of_measure (measure fun st : AnalyzeState => st.rest.length).wf id
      fun a b ha hab => ((hinCode a ha).round hab).2
  · rw [analyzeLoop_eq]
    exact reaches_iterate _ _ _
  · have h := hinCode st hst
    have hle := h.codePos_le
    have hpush := h.pushValues_le
    rw [maxArgsStorageSize_eq hlen]
    omega

/-- The instruction table of a code is the one that its decoding says, and the loop that makes it
ends without reading outside the code. -/
theorem analyze_table (_hrev : rev.hasRow) {code : List Byte} (hlen : code.length < 2 ^ 31 - 1) :
    ∃ analysis, analyze rev code = .ok analysis ∧
      List.Forall₂ (Entry.Matches rev code) (tableOf code) analysis.instrs ∧ Scans rev code :=
  ⟨_, analyze_eq rev hlen, analyzeCode_matches rev code, analyze_scans rev hlen⟩

end

/-- Two `JUMPDEST`s and a push whose second byte is missing. -/
theorem analyze_table_push :
    ∃ analysis, @analyze Env.zeroed .london [0x5b, 0x5b, 0x61, 0x01] = .ok analysis ∧
      List.Forall₂ (Entry.Matches .london [0x5b, 0x5b, 0x61, 0x01])
        [.beginblock, .beginblock, .op ⟨2, 0x61, [0x01]⟩, .stop] analysis.instrs ∧
      @Scans Env.zeroed .london [0x5b, 0x5b, 0x61, 0x01] :=
  @analyze_table Env.zeroed .london (by decide) [0x5b, 0x5b, 0x61, 0x01] (by decide)

end TscVee
