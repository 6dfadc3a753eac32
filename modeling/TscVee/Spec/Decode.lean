import Mathlib.Data.List.Basic
import TscVee.Opcode

/-!
# `TscVee.Spec.Decode`: the left-to-right decoding of bytecode

What the analyser is to find in a bytecode, stated without the analyser.

* `OpStart code p`: the decoding reaches `p` by skipping from opcode to opcode, each time over the
  immediate bytes of a push. `ValidJumpdest code p`: `code[p]` is a `JUMPDEST` outside all
  immediate bytes.
* `decode code`: the list of the decoded operations; `mem_decode_iff` says that it holds exactly
  the operations at the starts, and `decode_sorted` that it is in the order of the code.
* `validJumpdest_iff`: the valid jump destinations are the positions of the decoded `JUMPDEST`s.
-/

set_option autoImplicit false

namespace TscVee

/-- The number of immediate bytes of an opcode. -/
def immSize (opcode : Opcode) : Nat :=
  if Opcode.push1 ≤ opcode ∧ opcode ≤ .push32 then opcode.toNat - Opcode.push1.toNat + 1 else 0

/-- The decoding of the code reaches an opcode, or the end, at position `p`. -/
inductive OpStart (code : List Byte) : Nat → Prop
  | zero : OpStart code 0
  | next {p : Nat} {opcode : Opcode} (hp : OpStart code p) (hop : code[p]? = some opcode) :
      OpStart code (p + 1 + immSize opcode)

/-- Position `p` lies in the immediate bytes of an earlier push. -/
def InImmediate (code : List Byte) (p : Nat) : Prop :=
  ∃ q opcode, OpStart code q ∧ code[q]? = some opcode ∧ q < p ∧ p ≤ q + immSize opcode

/-- Position `p` is a valid jump destination. -/
def ValidJumpdest (code : List Byte) (p : Nat) : Prop :=
  code[p]? = some Opcode.jumpdest ∧ ¬ InImmediate code p

/-- A decoded operation: its position, its opcode and its immediate bytes in the code, fewer than
`immSize` of them at the end of the code. -/
structure Op where
  pos : Nat
  opcode : Opcode
  imm : List Byte
  deriving DecidableEq, Repr

/-- The decoding of `rest`, which starts at position `pos`. -/
def decodeFrom : Nat → Nat → List Byte → List Op
  | 0, _, _ => []
  | _ + 1, _, [] => []
  | fuel + 1, pos, opcode :: rest =>
    ⟨pos, opcode, rest.take (immSize opcode)⟩ ::
      decodeFrom fuel (pos + 1 + (rest.take (immSize opcode)).length) (rest.drop (immSize opcode))

/-- The decoded operations of the code. -/
def decode (code : List Byte) : List Op := decodeFrom code.length 0 code

/-- The operation is a `JUMPDEST`. -/
def Op.isJumpdest (op : Op) : Bool := op.opcode == Opcode.jumpdest

/-- The first operation of the list is a `JUMPDEST`. -/
def startsWithJumpdest (ops : List Op) : Bool := ops.head?.any Op.isJumpdest

/-! ### The decoding holds the operations at the starts -/

/-- The operations of `decodeFrom` do not overlap: the immediate bytes of each end in front of all
later ones. All of them lie from `pos` on. -/
theorem decodeFrom_sorted (fuel pos : Nat) (rest : List Byte) :
    (decodeFrom fuel pos rest).Pairwise (fun a b => a.pos + a.imm.length < b.pos) ∧
      ∀ op ∈ decodeFrom fuel pos rest, pos ≤ op.pos := by
  induction fuel generalizing pos rest with
  | zero => simp [decodeFrom]
  | succ fuel ih =>
      cases rest with
      | nil => simp [decodeFrom]
      | cons opcode rest =>
          obtain ⟨hsorted, hfrom⟩ := ih (pos + 1 + (rest.take (immSize opcode)).length)
            (rest.drop (immSize opcode))
          simp only [decodeFrom, List.pairwise_cons, List.mem_cons, forall_eq_or_imp]
          refine ⟨⟨fun op hop => ?_, hsorted⟩, le_refl _, fun op hop => ?_⟩
          · have := hfrom op hop
            show pos + (rest.take (immSize opcode)).length < op.pos
            omega
          · have := hfrom op hop
            omega

/-- The operations come in the order of their positions, each one behind the immediate bytes of the
one before it. -/
theorem decode_sorted (code : List Byte) :
    (decode code).Pairwise (fun a b => a.pos + a.imm.length < b.pos) :=
  (decodeFrom_sorted _ _ _).1

/-- Where `rest` is the code from the start `pos` on, `decodeFrom` finds the opcodes there: an
operation at `p` says that the decoding starts an opcode at `p`. -/
theorem opStart_of_mem_decodeFrom {code : List Byte} (fuel pos : Nat) (rest : List Byte)
    (hpos : rest ≠ [] → OpStart code pos) (hrest : rest = code.drop pos) {op : Op}
    (hop : op ∈ decodeFrom fuel pos rest) :
    OpStart code op.pos ∧ code[op.pos]? = some op.opcode ∧
      op.imm = (code.drop (op.pos + 1)).take (immSize op.opcode) := by
  -- On the fuel: the rest of the code begins at the position reached.
  induction fuel generalizing pos rest with
  | zero => simp [decodeFrom] at hop
  | succ fuel ih =>
      cases rest with
      | nil => simp [decodeFrom] at hop
      | cons opcode rest =>
          have hat : code[pos]? = some opcode := by
            rw [← List.head?_drop, ← hrest, List.head?_cons]
          have htail : rest = code.drop (pos + 1) := by
            rw [← List.tail_drop, ← hrest, List.tail_cons]
          simp only [decodeFrom, List.mem_cons] at hop
          rcases hop with rfl | hop
          · exact ⟨hpos (by simp), hat, by rw [htail]⟩
          · refine ih _ _ ?_ ?_ hop
            · -- With code left behind the immediate bytes, all of them are there.
              intro hne
              have hlen : immSize opcode < rest.length := by
                by_contra h
                exact hne (List.drop_eq_nil_of_le (by omega))
              rw [List.length_take, min_eq_left (by omega)]
              exact OpStart.next (hpos (by simp)) hat
            · rw [htail, List.drop_drop, List.length_take, List.length_drop]
              by_cases h : immSize opcode ≤ code.length - (pos + 1)
              · rw [min_eq_left h]
              · rw [List.drop_eq_nil_of_le (by omega), List.drop_eq_nil_of_le (by omega)]

/-- Every position of the code from `pos` on is the start of an operation of `decodeFrom` or lies
in its immediate bytes, when the fuel covers the code. -/
theorem decodeFrom_covers (fuel pos : Nat) (rest : List Byte) (hfuel : rest.length ≤ fuel)
    {p : Nat} (hp : pos ≤ p) (hp' : p < pos + rest.length) :
    ∃ op ∈ decodeFrom fuel pos rest, op.pos ≤ p ∧ p ≤ op.pos + op.imm.length := by
  induction fuel generalizing pos rest with
  | zero => omega
  | succ fuel ih =>
      cases rest with
      | nil => simp at hp'; omega
      | cons opcode rest =>
          simp only [List.length_cons] at hfuel hp'
          by_cases h : p ≤ pos + (rest.take (immSize opcode)).length
          · exact ⟨⟨pos, opcode, rest.take (immSize opcode)⟩, List.mem_cons_self, hp, h⟩
          · have hlen := List.length_take (i := immSize opcode) (l := rest)
            have hdrop := List.length_drop (i := immSize opcode) (l := rest)
            obtain ⟨op, hop, h1, h2⟩ :=
              ih (pos + 1 + (rest.take (immSize opcode)).length) (rest.drop (immSize opcode))
                (by omega) (by omega) (by omega)
            exact ⟨op, List.mem_cons_of_mem _ hop, h1, h2⟩

/-- Every byte of the code is an opcode or an immediate byte. -/
theorem decode_covers {code : List Byte} {p : Nat} (hp : p < code.length) :
    ∃ op ∈ decode code, op.pos ≤ p ∧ p ≤ op.pos + op.imm.length :=
  decodeFrom_covers _ _ _ (le_refl _) (Nat.zero_le _) (by omega)

/-- An operation of the decoding stands at a start, with the opcode and the immediate bytes of
the code. -/
theorem opStart_of_mem_decode {code : List Byte} {op : Op} (hop : op ∈ decode code) :
    OpStart code op.pos ∧ code[op.pos]? = some op.opcode ∧
      op.imm = (code.drop (op.pos + 1)).take (immSize op.opcode) :=
  opStart_of_mem_decodeFrom _ _ _ (fun _ => OpStart.zero) (by simp) hop

/-- Two operations of the decoding are equal, or one ends in front of the other. -/
theorem decode_disjoint {code : List Byte} {a b : Op} (ha : a ∈ decode code)
    (hb : b ∈ decode code) :
    a = b ∨ a.pos + a.imm.length < b.pos ∨ b.pos + b.imm.length < a.pos := by
  by_cases hab : a = b
  · exact Or.inl hab
  · obtain ⟨i, hi, rfl⟩ := List.mem_iff_getElem.1 ha
    obtain ⟨j, hj, rfl⟩ := List.mem_iff_getElem.1 hb
    have hsorted := List.pairwise_iff_getElem.1 (decode_sorted code)
    rcases Nat.lt_trichotomy i j with hij | rfl | hij
    · exact Or.inr (Or.inl (hsorted i j hi hj hij))
    · exact absurd rfl hab
    · exact Or.inr (Or.inr (hsorted j i hj hi hij))

/-- An operation has its immediate bytes, as far as the code reaches. -/
theorem Op.imm_length {code : List Byte} {op : Op} (hop : op ∈ decode code) :
    op.imm.length = min (immSize op.opcode) (code.length - (op.pos + 1)) := by
  rw [(opStart_of_mem_decode hop).2.2, List.length_take, List.length_drop]

/-- Every start inside the code is the position of an operation of the decoding. -/
theorem OpStart.exists_mem_decode {code : List Byte} {p : Nat} (hp : OpStart code p)
    (hlt : p < code.length) : ∃ op ∈ decode code, op.pos = p := by
  induction hp with
  | zero =>
      obtain ⟨op, hop, h, -⟩ := decode_covers hlt
      exact ⟨op, hop, by omega⟩
  | next hq hopcode ih =>
      rename_i q opcode
      obtain ⟨a, ha, hpos⟩ := ih (by omega)
      obtain ⟨b, hb, hle, hcover⟩ := decode_covers hlt
      -- The immediate bytes of `a` are all there and end in front of the position, so the
      -- operation `b` that covers it can only start there.
      have hopcode' : a.opcode = opcode := by
        have := (opStart_of_mem_decode ha).2.1
        rw [hpos, hopcode] at this
        exact (Option.some.inj this).symm
      have hlen := Op.imm_length ha
      rw [hopcode', hpos] at hlen
      refine ⟨b, hb, ?_⟩
      rcases decode_disjoint ha hb with rfl | h | h <;> omega

/-- The operations of the decoding are exactly those that the code holds at the starts. -/
theorem mem_decode_iff {code : List Byte} {op : Op} :
    op ∈ decode code ↔
      OpStart code op.pos ∧ code[op.pos]? = some op.opcode ∧
        op.imm = (code.drop (op.pos + 1)).take (immSize op.opcode) := by
  refine ⟨opStart_of_mem_decode, fun ⟨hstart, hopcode, himm⟩ => ?_⟩
  obtain ⟨op', hop', hpos⟩ := hstart.exists_mem_decode (List.getElem?_eq_some_iff.1 hopcode).1
  obtain ⟨-, hopcode', himm'⟩ := opStart_of_mem_decode hop'
  rw [hpos, hopcode] at hopcode'
  have hop : op.opcode = op'.opcode := Option.some.inj hopcode'
  rw [hpos, ← hop, ← himm] at himm'
  have : op' = op := by
    cases op
    cases op'
    simp_all
  exact this ▸ hop'

/-- A `JUMPDEST` has no immediate bytes. -/
theorem immSize_jumpdest : immSize .jumpdest = 0 := by decide

/-- The valid jump destinations are the positions of the decoded `JUMPDEST`s. -/
theorem validJumpdest_iff {code : List Byte} {p : Nat} :
    ValidJumpdest code p ↔ ∃ op ∈ decode code, op.isJumpdest = true ∧ op.pos = p := by
  constructor
  -- The byte is covered by some operation, and is its opcode since it is no immediate byte.
  · rintro ⟨hcode, himm⟩
    have hlt := (List.getElem?_eq_some_iff.1 hcode).1
    obtain ⟨op, hop, hle, hcover⟩ := decode_covers hlt
    obtain ⟨hstart, hopcode, -⟩ := opStart_of_mem_decode hop
    rcases Nat.lt_or_eq_of_le hle with hlt | rfl
    · have hlen := Op.imm_length hop
      exact absurd ⟨op.pos, op.opcode, hstart, hopcode, hlt, by omega⟩ himm
    · rw [hcode] at hopcode
      exact ⟨op, hop, by simp [Op.isJumpdest, Option.some.inj hopcode], rfl⟩
  · rintro ⟨op, hop, hjumpdest, rfl⟩
    obtain ⟨hstart, hopcode, -⟩ := opStart_of_mem_decode hop
    refine ⟨by rw [hopcode, eq_of_beq hjumpdest], ?_⟩
    -- Two operations of the code do not overlap.
    rintro ⟨q, opcode, hq, hqcode, hlt, hcover⟩
    obtain ⟨a, ha, rfl⟩ := hq.exists_mem_decode (List.getElem?_eq_some_iff.1 hqcode).1
    have hopcode' := (opStart_of_mem_decode ha).2.1
    rw [hqcode] at hopcode'
    have hlen := Op.imm_length ha
    rw [← Option.some.inj hopcode'] at hlen
    have hin := (List.getElem?_eq_some_iff.1 hopcode).1
    rcases decode_disjoint ha hop with rfl | h | h <;> omega

end TscVee
