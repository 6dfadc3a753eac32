import Mathlib.Data.List.GetD
import TscVee.Proofs.Layout
import TscVee.Proofs.Tables

/-!
# `TscVee.Proofs.Jumpdest`: the jump table of the analysis

* `lowerBound_spec`: the binary search on an increasing list.
* `blocks_tail`: a `JUMPDEST` stands at the head of its block only.
* `BlockStart code p i`: the block that starts at position `p` has its `BEGINBLOCK` at index `i`
  of the instructions. `findJumpdest_jumpdest` and `findJumpdest_eq_neg_one` give the lookup in
  these terms: the index passes through `int` on its way.
* `JumpTable`: what the jump table is for. `jumpTable_iff`: the analysis meets it exactly when
  no `BEGINBLOCK` of a `JUMPDEST` has an index of `2 ^ 31` or more.
-/

set_option autoImplicit false

namespace TscVee

/-! ### Binary search -/

/-- The search in a range of increasing items stops between the smaller and the other ones. -/
theorem binarySearchIn_spec {items : Nat → Int} {n : Nat}
    (hmono : ∀ i j, i < j → j < n → items i < items j) (raw : Int) (fuel i1 i2 : Nat)
    (h12 : i1 ≤ i2) (h2 : i2 ≤ n) (hfuel : i2 - i1 ≤ fuel) :
    i1 ≤ binarySearchIn items raw fuel i1 i2 ∧ binarySearchIn items raw fuel i1 i2 ≤ i2 ∧
      (∀ i, i1 ≤ i → i < binarySearchIn items raw fuel i1 i2 → items i < raw) ∧
      ∀ i, binarySearchIn items raw fuel i1 i2 ≤ i → i < i2 → raw ≤ items i := by
  -- On the fuel, which is at least the width of the interval.
  induction fuel generalizing i1 i2 with
  | zero => simp only [binarySearchIn]; exact ⟨le_refl _, h12, by omega, by omega⟩
  | succ fuel ih =>
      unfold binarySearchIn
      split
      case isTrue h => exact ⟨le_refl _, h12, by omega, by omega⟩
      case isFalse h =>
        have hmid1 : i1 ≤ i1 + (i2 - i1) / 2 := by omega
        have hmid2 : i1 + (i2 - i1) / 2 < i2 := by omega
        simp only
        generalize i1 + (i2 - i1) / 2 = mid at hmid1 hmid2 ⊢
        rcases lt_trichotomy raw (items mid) with hlt | heq | hgt
        · -- The items from `mid` on are above `items mid`, so the left half decides.
          obtain ⟨h1, h3, hbelow, habove⟩ := ih i1 mid hmid1 (by omega) (by omega)
          rw [if_neg (by omega), if_pos hlt]
          refine ⟨h1, by omega, hbelow, fun i hi hi2 => ?_⟩
          rcases Nat.lt_trichotomy i mid with him | rfl | him
          · exact habove i hi him
          · exact hlt.le
          · exact (hlt.trans (hmono mid i him (by omega))).le
        -- Found: the items are strictly sorted.
        · rw [if_pos heq]
          refine ⟨hmid1, hmid2.le, fun i _ hi => ?_, fun i hi hi2 => ?_⟩
          · exact heq ▸ hmono i mid hi (by omega)
          · rcases Nat.lt_or_eq_of_le hi with hi | rfl
            · exact (heq ▸ hmono mid i hi (by omega)).le
            · exact heq.le
        · obtain ⟨h1, h3, hbelow, habove⟩ := ih (mid + 1) i2 (by omega) h2 (by omega)
          rw [if_neg (by omega), if_neg (by omega)]
          refine ⟨by omega, h3, fun i hi1 hi => ?_, habove⟩
          rcases Nat.lt_trichotomy i mid with him | rfl | him
          · exact (hmono i mid him (by omega)).trans hgt
          · exact hgt
          · exact hbelow i (by omega) hi

/-- `lowerBound` in an increasing list stops between the smaller and the other items. -/
theorem lowerBound_spec {items : List Int} (hsorted : items.Pairwise (· < ·)) (raw : Int) :
    lowerBound items raw ≤ items.length ∧
      (∀ i (hi : i < items.length), i < lowerBound items raw → items[i] < raw) ∧
      ∀ i (hi : i < items.length), lowerBound items raw ≤ i → raw ≤ items[i] := by
  have hget : ∀ i (hi : i < items.length), items.getD i 0 = items[i] := fun i hi =>
    List.getD_eq_getElem _ _ hi
  have hmono : ∀ i j, i < j → j < items.length → items.getD i 0 < items.getD j 0 := by
    intro i j hij hj
    rw [hget i (by omega), hget j hj]
    exact List.pairwise_iff_getElem.1 hsorted i j _ _ hij
  obtain ⟨-, hle, hbelow, habove⟩ :=
    binarySearchIn_spec hmono raw items.length 0 items.length (Nat.zero_le _) (le_refl _)
      (by omega)
  exact ⟨hle, fun i hi h => hget i hi ▸ hbelow i (Nat.zero_le _) h,
    fun i hi h => hget i hi ▸ habove i h hi⟩

/-- In an increasing list, `lowerBound` finds the index of an item that is there. -/
theorem lowerBound_of_mem {items : List Int} (hsorted : items.Pairwise (· < ·)) {i : Nat}
    (hi : i < items.length) : lowerBound items items[i] = i := by
  obtain ⟨hle, hbelow, habove⟩ := lowerBound_spec hsorted items[i]
  have hmono := List.pairwise_iff_getElem.1 hsorted
  rcases Nat.lt_trichotomy (lowerBound items items[i]) i with h | h | h
  · have h1 := habove _ (by omega) (le_refl _)
    have h2 := hmono _ i (by omega) hi h
    omega
  · exact h
  · have h1 := hbelow i hi h
    omega

/-- `find_jumpdest` gives the target at the index of the offset. -/
theorem findJumpdest_of_getElem {analysis : CodeAnalysis}
    (hsorted : analysis.jumpdestOffsets.Pairwise (· < ·)) {i : Nat}
    (hi : i < analysis.jumpdestOffsets.length) :
    findJumpdest analysis analysis.jumpdestOffsets[i] = analysis.jumpdestTargets.getD i 0 := by
  have hget : analysis.jumpdestOffsets.getD i 0 = analysis.jumpdestOffsets[i] :=
    List.getD_eq_getElem _ _ hi
  unfold findJumpdest
  rw [lowerBound_of_mem hsorted hi]
  exact if_pos ⟨by omega, hget⟩

/-- `find_jumpdest` returns -1 for an offset that is not in the table. -/
theorem findJumpdest_of_not_mem {analysis : CodeAnalysis}
    (hsorted : analysis.jumpdestOffsets.Pairwise (· < ·)) {offset : Int}
    (h : offset ∉ analysis.jumpdestOffsets) : findJumpdest analysis offset = -1 := by
  refine if_neg fun ⟨hne, heq⟩ => h ?_
  have hlt := Nat.lt_of_le_of_ne (lowerBound_spec hsorted offset).1 hne
  rw [List.getD_eq_getElem _ _ hlt] at heq
  exact heq ▸ List.getElem_mem hlt

/-! ### Blocks and their `JUMPDEST`s -/

/-- The first operation is in the first block. -/
theorem blocks_cons (op : Op) (ops : List Op) :
    ∃ block rest, blocks (op :: ops) = (op :: block) :: rest := by
  unfold blocks
  split
  · exact ⟨[], _, rfl⟩
  · cases blocks ops with
    | nil => exact ⟨[], [], rfl⟩
    | cons block rest => exact ⟨block, rest, rfl⟩

/-- A `JUMPDEST` stands at the head of its block only. -/
theorem blocks_tail {ops block : List Op} (hblock : block ∈ blocks ops) :
    ∀ op ∈ block.tail, op.isJumpdest = false := by
  -- On the operations: one is put in front of a block only when that block does not begin with a
  -- JUMPDEST.
  induction ops generalizing block with
  | nil => simp_all [blocks]
  | cons op ops ih =>
      unfold blocks at hblock
      split at hblock
      case isTrue h =>
        rcases List.mem_cons.1 hblock with rfl | hblock
        · simp
        · exact ih hblock
      case isFalse h =>
        cases ops with
        | nil => simp_all [blocks, prependBlock]
        | cons op' ops =>
            obtain ⟨first, rest, heq⟩ := blocks_cons op' ops
            rw [heq, prependBlock] at hblock
            rcases List.mem_cons.1 hblock with rfl | hblock
            · intro o ho
              rcases List.mem_cons.1 ho with rfl | ho
              · simpa [startsWithJumpdest] using (not_or.1 h).2
              · exact @ih (op' :: first) (heq ▸ List.mem_cons_self) o ho
            · exact ih (heq ▸ List.mem_cons_of_mem _ hblock)

/-- The number of instructions of blocks. -/
def layoutSize (bs : List (List Op)) : Nat := (bs.map blockSize).sum

/-- The layout has a `BEGINBLOCK` for each block and an instruction for each other operation. -/
theorem layout_length [Env] (rev : Revision) (bs : List (List Op)) :
    (layout rev bs).length = layoutSize bs := by
  simp [layout, layoutSize, List.length_flatMap, layoutBlock_length]

/-- The positions of the `JUMPDEST`s that start a block, with the index of the `BEGINBLOCK`, where
`base` is the index of the first one. -/
def jumpEntries (base : Nat) : List (List Op) → List (Nat × Nat)
  | [] => []
  | [] :: rest => jumpEntries (base + blockSize []) rest
  | (op :: ops) :: rest =>
    (if op.isJumpdest then [(op.pos, base)] else []) ++
      jumpEntries (base + blockSize (op :: ops)) rest

/-- The targets are the places of the blocks with a `JUMPDEST`, as `int32_t`. -/
theorem jumpTargets_eq (base : Nat) (bs : List (List Op)) :
    jumpTargets base bs = (jumpEntries base bs).map fun e => toInt32 e.2 := by
  induction base, bs using jumpEntries.induct with
  | case1 base => rfl
  | case2 base rest ih => simp [jumpTargets, jumpEntries, startsWithJumpdest, ih]
  | case3 base op ops rest ih =>
      cases hop : op.isJumpdest <;>
        simp [jumpTargets, jumpEntries, startsWithJumpdest, hop, ih]

/-- Where a `JUMPDEST` stands only at the head of a block, the entries list all of them. -/
theorem jumpEntries_offsets (base : Nat) (bs : List (List Op))
    (hbs : ∀ block ∈ bs, ∀ op ∈ block.tail, op.isJumpdest = false) :
    (jumpEntries base bs).map Prod.fst = (bs.flatten.filter Op.isJumpdest).map Op.pos := by
  induction base, bs using jumpEntries.induct with
  | case1 base => rfl
  | case2 base rest ih =>
      simpa [jumpEntries] using ih fun block hblock => hbs block (List.mem_cons_of_mem _ hblock)
  | case3 base op ops rest ih =>
      have htail : ops.filter Op.isJumpdest = [] := List.filter_eq_nil_iff.2 fun o ho => by
        simp [hbs _ List.mem_cons_self o ho]
      have ih := ih fun block hblock => hbs block (List.mem_cons_of_mem _ hblock)
      cases hop : op.isJumpdest <;> simp [jumpEntries, hop, ih, htail]

/-- The block that starts at position `p` of the code has its `BEGINBLOCK` at index `i`. -/
def BlockStart (code : List Byte) (p i : Nat) : Prop :=
  ∃ before block after op, blocks (decode code) = before ++ (op :: block) :: after ∧
    op.pos = p ∧ i = layoutSize before

/-- An entry says where the block of a `JUMPDEST` starts. -/
theorem mem_jumpEntries {base : Nat} {bs : List (List Op)} {p i : Nat} :
    (p, i) ∈ jumpEntries base bs ↔
      ∃ before block after op, bs = before ++ (op :: block) :: after ∧ op.isJumpdest = true ∧
        op.pos = p ∧ i = base + layoutSize before := by
  -- On the blocks, the empty ones apart.
  induction base, bs using jumpEntries.induct with
  | case1 base => simp [jumpEntries]
  | case2 base rest ih =>
      rw [jumpEntries, ih]
      constructor
      · rintro ⟨before, block, after, op, rfl, hop, hpos, rfl⟩
        exact ⟨[] :: before, block, after, op, rfl, hop, hpos, by simp [layoutSize]; omega⟩
      · rintro ⟨before, block, after, op, heq, hop, hpos, rfl⟩
        cases before with
        | nil => simp at heq
        | cons b before =>
            obtain ⟨rfl, rfl⟩ := List.cons.inj heq
            exact ⟨before, block, after, op, rfl, hop, hpos, by simp [layoutSize]; omega⟩
  | case3 base op ops rest ih =>
      rw [jumpEntries, List.mem_append, ih]
      constructor
      · rintro (hmem | ⟨before, block, after, op', rfl, hop, hpos, rfl⟩)
        · split at hmem
          · next hop =>
              rw [List.mem_singleton, Prod.mk.injEq] at hmem
              exact ⟨[], ops, rest, op, rfl, hop, hmem.1.symm, by simp [layoutSize, hmem.2]⟩
          · simp at hmem
        · exact ⟨(op :: ops) :: before, block, after, op', rfl, hop, hpos,
            by simp [layoutSize]; omega⟩
      · rintro ⟨before, block, after, op', heq, hop, hpos, rfl⟩
        cases before with
        | nil =>
            obtain ⟨hfirst, rfl⟩ := List.cons.inj heq
            obtain ⟨rfl, rfl⟩ := List.cons.inj hfirst
            exact Or.inl (by simp [hop, hpos, layoutSize])
        | cons b before =>
            obtain ⟨rfl, rfl⟩ := List.cons.inj heq
            exact Or.inr ⟨before, block, after, op', rfl, hop, hpos, by simp [layoutSize]; omega⟩

/-! ### The jump table of the analysis -/

/-- The entries of the code. -/
def jumpTableOf (code : List Byte) : List (Nat × Nat) := jumpEntries 0 (blocks (decode code))

/-- The table has the positions of the `JUMPDEST`s of the decoded code. -/
theorem jumpTableOf_positions (code : List Byte) :
    (jumpTableOf code).map Prod.fst = ((decode code).filter Op.isJumpdest).map Op.pos := by
  rw [jumpTableOf, jumpEntries_offsets 0 _ fun block => blocks_tail, blocks_flatten]

/-- The positions of the entries increase. -/
theorem jumpTableOf_sorted (code : List Byte) :
    (jumpTableOf code).Pairwise fun a b => a.1 < b.1 := by
  rw [← List.pairwise_map (f := Prod.fst) (R := (· < ·)), jumpTableOf_positions, List.pairwise_map]
  exact ((decode_sorted code).imp fun h => by omega).filter _

/-- The entries are the block starts at the valid jump destinations. -/
theorem mem_jumpTableOf {code : List Byte} {p i : Nat} :
    (p, i) ∈ jumpTableOf code ↔ ValidJumpdest code p ∧ BlockStart code p i := by
  rw [jumpTableOf, mem_jumpEntries, validJumpdest_iff]
  have hmem : ∀ {before block after op}, blocks (decode code) = before ++ (op :: block) :: after →
      op ∈ decode code := by
    intro before block after op heq
    rw [← blocks_flatten (decode code), heq]
    simp
  constructor
  · rintro ⟨before, block, after, op, heq, hop, rfl, rfl⟩
    exact ⟨⟨op, hmem heq, hop, rfl⟩, before, block, after, op, heq, rfl, by omega⟩
  · rintro ⟨⟨op', hop', hjumpdest, hpos'⟩, before, block, after, op, heq, hpos, rfl⟩
    have : op' = op := by
      rcases decode_disjoint hop' (hmem heq) with h | h | h
      · exact h
      · omega
      · omega
    exact ⟨before, block, after, op, heq, this ▸ hjumpdest, hpos, by omega⟩

/-- A `JUMPDEST` starts one block. -/
theorem BlockStart.unique {code : List Byte} {p i j : Nat} (hp : ValidJumpdest code p)
    (hi : BlockStart code p i) (hj : BlockStart code p j) : i = j := by
  obtain ⟨k, hk, hki⟩ := List.mem_iff_getElem.1 (mem_jumpTableOf.2 ⟨hp, hi⟩)
  obtain ⟨l, hl, hlj⟩ := List.mem_iff_getElem.1 (mem_jumpTableOf.2 ⟨hp, hj⟩)
  have hsorted := List.pairwise_iff_getElem.1 (jumpTableOf_sorted code)
  rcases Nat.lt_trichotomy k l with h | rfl | h
  · have := hsorted k l hk hl h
    simp [hki, hlj] at this
  · exact (Prod.mk.inj (hki.symm.trans hlj)).2
  · have := hsorted l k hl hk h
    simp [hki, hlj] at this

/-- A jump destination is inside of the code. -/
theorem ValidJumpdest.lt_length {code : List Byte} {p : Nat} (h : ValidJumpdest code p) :
    p < code.length := (List.getElem?_eq_some_iff.1 h.1).1

/-- Every valid jump destination starts a block. -/
theorem ValidJumpdest.exists_blockStart {code : List Byte} {p : Nat} (h : ValidJumpdest code p) :
    ∃ i, BlockStart code p i := by
  obtain ⟨op, hop, hjumpdest, hpos⟩ := validJumpdest_iff.1 h
  have hp : p ∈ (jumpTableOf code).map Prod.fst := by
    rw [jumpTableOf_positions]
    exact List.mem_map.2 ⟨op, List.mem_filter.2 ⟨hop, hjumpdest⟩, hpos⟩
  obtain ⟨⟨p', i⟩, hmem, rfl⟩ := List.mem_map.1 hp
  exact ⟨i, (mem_jumpTableOf.1 hmem).2⟩

section
variable [Env] (rev : Revision) {code : List Byte}

/-- In a code that an `int` can count, the stored offsets are the positions. -/
theorem analyzeCode_offsets (hlen : code.length < 2 ^ 31) :
    (analyzeCode rev code).jumpdestOffsets = (jumpTableOf code).map fun e => (e.1 : Int) := by
  have hpos : ∀ op ∈ (decode code).filter Op.isJumpdest, toInt32 op.pos = op.pos := by
    intro op hop
    obtain ⟨hop, hjumpdest⟩ := List.mem_filter.1 hop
    have := (validJumpdest_iff.2 ⟨op, hop, hjumpdest, rfl⟩).lt_length
    exact toInt32_of_lt (by omega)
  have hfst : (fun e : Nat × Nat => (e.1 : Int)) = (fun p : Nat => (p : Int)) ∘ Prod.fst := rfl
  rw [analyzeCode_jumpdestOffsets, jumpdestOffsetsOf, List.map_congr_left hpos, hfst,
    ← List.map_map, jumpTableOf_positions, List.map_map]
  rfl

/-- The stored targets are those of the table. -/
theorem analyzeCode_targets :
    (analyzeCode rev code).jumpdestTargets = (jumpTableOf code).map fun e => toInt32 e.2 := by
  rw [analyzeCode_jumpdestTargets, jumpTargets_eq, jumpTableOf]

/-- The stored offsets are sorted, as the search needs them. -/
theorem analyzeCode_offsets_sorted (hlen : code.length < 2 ^ 31) :
    (analyzeCode rev code).jumpdestOffsets.Pairwise (· < ·) := by
  rw [analyzeCode_offsets rev hlen, List.pairwise_map]
  exact (jumpTableOf_sorted code).imp fun h => by exact_mod_cast h

/-- The stored offsets are those of the valid jump destinations. -/
theorem mem_analyzeCode_offsets (hlen : code.length < 2 ^ 31) {offset : Int} :
    offset ∈ (analyzeCode rev code).jumpdestOffsets ↔
      ∃ p : Nat, offset = p ∧ ValidJumpdest code p := by
  rw [analyzeCode_offsets rev hlen, List.mem_map]
  constructor
  · rintro ⟨⟨p, i⟩, hmem, rfl⟩
    exact ⟨p, rfl, (mem_jumpTableOf.1 hmem).1⟩
  · rintro ⟨p, rfl, hp⟩
    obtain ⟨i, hi⟩ := hp.exists_blockStart
    exact ⟨(p, i), mem_jumpTableOf.2 ⟨hp, hi⟩, rfl⟩

/-- The lookup of a valid jump destination gives the index of its `BEGINBLOCK`, as an `int`. -/
theorem findJumpdest_jumpdest (hlen : code.length < 2 ^ 31) {p i : Nat}
    (hp : ValidJumpdest code p) (hi : BlockStart code p i) :
    findJumpdest (analyzeCode rev code) p = toInt32 i := by
  obtain ⟨k, hk, hget⟩ := List.mem_iff_getElem.1 (mem_jumpTableOf.2 ⟨hp, hi⟩)
  have hoff := analyzeCode_offsets rev hlen
  have hlt : k < (analyzeCode rev code).jumpdestOffsets.length := by simpa [hoff] using hk
  have hoffset : (analyzeCode rev code).jumpdestOffsets[k] = (p : Int) := by
    simp [hoff, hget]
  rw [← hoffset, findJumpdest_of_getElem (analyzeCode_offsets_sorted rev hlen) hlt,
    analyzeCode_targets, List.getD_eq_getElem _ _ (by simpa using hk), List.getElem_map, hget]

/-- The lookup of any other offset gives -1. -/
theorem findJumpdest_invalid (hlen : code.length < 2 ^ 31) {offset : Int}
    (h : ¬ ∃ p : Nat, offset = p ∧ ValidJumpdest code p) :
    findJumpdest (analyzeCode rev code) offset = -1 :=
  findJumpdest_of_not_mem (analyzeCode_offsets_sorted rev hlen)
    (mt (mem_analyzeCode_offsets rev hlen).1 h)

/-- At a block start, the analysis holds the instructions of the block. -/
theorem analyzeCode_instrs_drop {before after : List (List Op)} {block : List Op}
    (h : blocks (decode code) = before ++ block :: after) :
    (analyzeCode rev code).instrs.drop (layoutSize before) =
      layoutBlock rev block ++
        (layout rev after ++ [instructionInitV (getOpTable rev .stop).fn]) := by
  rw [analyzeCode_instrs, h, layout_append, layout_cons, ← layout_length rev,
    List.append_assoc, List.drop_left, List.append_assoc]

end

/-- An `int32_t` is below `2 ^ 31`. -/
theorem toInt32_lt (x : Int) : toInt32 x < 2 ^ 31 := by
  have := Int.bmod_lt (x := x) (m := 2 ^ 32) (by decide)
  unfold toInt32
  omega

/-- A number of 32 bits that is not negative as `int32_t` is itself. -/
theorem toInt32_of_nonneg {n : Nat} (h : n < 2 ^ 32) (hnonneg : 0 ≤ toInt32 n) :
    toInt32 n = n := by
  unfold toInt32 Int.bmod at *
  simp only at *
  split at hnonneg <;> split <;> omega

/-! ### What the jump table is for -/

section
variable [Env]

/-- The jump table of the analysis is right: the offsets are the valid jump destinations of the
code, and the lookup finds the `BEGINBLOCK` of the block that starts there, followed by the
instructions of that block. -/
structure JumpTable (rev : Revision) (code : List Byte) (analysis : CodeAnalysis) : Prop where
  increasing : analysis.jumpdestOffsets.Pairwise (· < ·)
  sameLength : analysis.jumpdestOffsets.length = analysis.jumpdestTargets.length
  offsets : ∀ offset : Int,
    offset ∈ analysis.jumpdestOffsets ↔ ∃ p : Nat, offset = p ∧ ValidJumpdest code p
  notFound : ∀ offset : Int, findJumpdest analysis offset = -1 ↔
    ¬ ∃ p : Nat, offset = p ∧ ValidJumpdest code p
  found : ∀ p : Nat, ValidJumpdest code p → ∃ before block after,
    blocks (decode code) = before ++ block :: after ∧ block.head?.map Op.pos = some p ∧
      findJumpdest analysis p = layoutSize before ∧
      (analysis.instrs[layoutSize before]?.bind Instruction.fn) = some .opxBeginblock ∧
      (analysis.instrs.drop (layoutSize before)).take (blockSize block) = layoutBlock rev block

/-- The analysis of a code of fewer than `2 ^ 31` bytes has a right jump table exactly when the
instructions in front of each block that a `JUMPDEST` starts are fewer than `2 ^ 31`. -/
theorem jumpTable_iff (rev : Revision) {code : List Byte} (hlen : code.length < 2 ^ 31) :
    JumpTable rev code (analyzeCode rev code) ↔
      ∀ p i, ValidJumpdest code p → BlockStart code p i → i < 2 ^ 31 := by
  constructor
  -- A target that is found is not negative, so its index has not wrapped.
  · intro h p i hp hi
    obtain ⟨before, block, after, heq, hhead, hfind, -, -⟩ := h.found p hp
    have hstart : BlockStart code p (layoutSize before) := by
      cases block with
      | nil => simp at hhead
      | cons op block => exact ⟨before, block, after, op, heq, by simpa using hhead, rfl⟩
    rw [findJumpdest_jumpdest rev hlen hp hi, hi.unique hp hstart] at hfind
    have hbound := toInt32_lt (layoutSize before)
    rw [hi.unique hp hstart]
    omega
  · intro h
    -- The offsets are right in every code that an `int` can count.
    have hoffsets : ∀ offset : Int, offset ∈ (analyzeCode rev code).jumpdestOffsets ↔
        ∃ p : Nat, offset = p ∧ ValidJumpdest code p := fun _ => mem_analyzeCode_offsets rev hlen
    refine ⟨analyzeCode_offsets_sorted rev hlen, ?_, hoffsets, fun offset => ⟨fun hneg => ?_, ?_⟩, ?_⟩
    · rw [analyzeCode_offsets rev hlen, analyzeCode_targets, List.length_map, List.length_map]
    · rintro ⟨p, rfl, hp⟩
      obtain ⟨i, hi⟩ := hp.exists_blockStart
      rw [findJumpdest_jumpdest rev hlen hp hi, toInt32_of_lt (h p i hp hi)] at hneg
      omega
    · exact findJumpdest_invalid rev hlen
    · intro p hp
      obtain ⟨i, hi⟩ := hp.exists_blockStart
      have hi31 := h p i hp hi
      have hfind := findJumpdest_jumpdest rev hlen hp hi
      obtain ⟨before, block, after, op, heq, hpos, rfl⟩ := hi
      have hdrop := analyzeCode_instrs_drop rev heq
      refine ⟨before, op :: block, after, heq, by simp [hpos], ?_, ?_, ?_⟩
      · rw [hfind, toInt32_of_lt hi31]
      · rw [← Nat.add_zero (layoutSize before), ← List.getElem?_drop, hdrop, layoutBlock,
          opxBeginblockFn_eq]
        rfl
      · rw [hdrop, ← layoutBlock_length rev, List.take_left]

/-- The jump table that `analyze` makes for a code of fewer than `2 ^ 31 - 1` bytes. -/
theorem analyze_jumpTable (rev : Revision) (_hrev : rev.hasRow) {code : List Byte}
    (hlen : code.length < 2 ^ 31 - 1) :
    ∃ analysis, analyze rev code = .ok analysis ∧
      (JumpTable rev code analysis ↔
        ∀ p i, ValidJumpdest code p → BlockStart code p i → i < 2 ^ 31) :=
  ⟨analyzeCode rev code, analyze_eq rev hlen, jumpTable_iff rev (by omega)⟩

omit [Env] in
/-- No block starts behind the end of the table. -/
theorem BlockStart.le_layoutSize {code : List Byte} {p i : Nat} (h : BlockStart code p i) :
    i ≤ layoutSize (blocks (decode code)) := by
  obtain ⟨before, block, after, op, heq, -, rfl⟩ := h
  rw [heq]
  unfold layoutSize
  rw [List.map_append, List.sum_append]
  exact Nat.le_add_right _ _

/-- A jump over one `JUMPDEST` to another, behind a `PUSH1` whose immediate byte is the opcode
`JUMPDEST`. -/
def jumpCode : List Byte := [0x60, 0x5b, 0x60, 0x06, 0x56, 0x5b, 0x5b, 0x00]

omit [Env] in
/-- The jump table of `jumpCode` is right: the immediate byte is not a destination. -/
theorem analyze_jumpTable_jump :
    ∃ analysis, @analyze Env.zeroed .london jumpCode = .ok analysis ∧
      @JumpTable Env.zeroed .london jumpCode analysis := by
  obtain ⟨analysis, hanalyze, hiff⟩ :=
    @analyze_jumpTable Env.zeroed .london (by decide) jumpCode (by decide)
  have hsize : layoutSize (blocks (decode jumpCode)) < 2 ^ 31 := by with_unfolding_all decide
  exact ⟨analysis, hanalyze, hiff.2 fun p i _ hi => lt_of_le_of_lt hi.le_layoutSize hsize⟩

end

/-! ### A jump table that is wrong

Each `STOP` makes a block of two instructions, so that the table of `n` `STOP`s and a `JUMPDEST`
has `2 * n` instructions in front of the block of the `JUMPDEST`. -/

/-- A `JUMPDEST` behind `n` `STOP`s. -/
def stopsJumpdest (n : Nat) (rest : List Byte) : List Byte :=
  List.replicate n Opcode.stop ++ Opcode.jumpdest :: rest

/-- The length of the code. -/
theorem stopsJumpdest_length (n : Nat) (rest : List Byte) :
    (stopsJumpdest n rest).length = n + 1 + rest.length := by
  simp [stopsJumpdest]
  omega

/-- Behind `n` `STOP`s, the block of a `JUMPDEST` starts at the index `2 * n`. -/
theorem blocks_stopsJumpdest (n fuel pos : Nat) (hfuel : n < fuel) (rest : List Byte) :
    ∃ before block after,
      blocks (decodeFrom fuel pos (stopsJumpdest n rest)) =
        before ++ (⟨pos + n, .jumpdest, []⟩ :: block) :: after ∧ layoutSize before = 2 * n := by
  induction n generalizing fuel pos with
  | zero =>
      obtain ⟨fuel, rfl⟩ : ∃ m, fuel = m + 1 := ⟨fuel - 1, by omega⟩
      obtain ⟨block, after, heq⟩ := blocks_cons ⟨pos, .jumpdest, []⟩ (decodeFrom fuel (pos + 1) rest)
      exact ⟨[], block, after, heq, rfl⟩
  | succ n ih =>
      obtain ⟨fuel, rfl⟩ : ∃ m, fuel = m + 1 := ⟨fuel - 1, by omega⟩
      obtain ⟨before, block, after, heq, hsize⟩ := ih fuel (pos + 1) (by omega)
      refine ⟨[⟨pos, .stop, []⟩] :: before, block, after, ?_, ?_⟩
      · rw [show pos + (n + 1) = pos + 1 + n by omega, List.cons_append, ← heq]
        rfl
      · have hstop : blockSize [⟨pos, .stop, []⟩] = 2 := rfl
        rw [layoutSize, List.map_cons, List.sum_cons, hstop, ← layoutSize, hsize]
        omega

/-- The `JUMPDEST` behind `n` STOPs is valid, and its block is at `2 * n` in the layout. -/
theorem validJumpdest_stopsJumpdest (n : Nat) (rest : List Byte) :
    ValidJumpdest (stopsJumpdest n rest) n ∧ BlockStart (stopsJumpdest n rest) n (2 * n) := by
  have hlen := stopsJumpdest_length n rest
  obtain ⟨before, block, after, heq, hsize⟩ :=
    blocks_stopsJumpdest n (stopsJumpdest n rest).length 0 (by omega) rest
  rw [Nat.zero_add] at heq
  refine ⟨validJumpdest_iff.2 ⟨⟨n, .jumpdest, []⟩, ?_, rfl, rfl⟩, before, block, after, _, heq, rfl,
    hsize.symm⟩
  rw [← blocks_flatten (decode _), decode, heq]
  simp

/-- From `2 ^ 30` `STOP`s on, the `BEGINBLOCK` of the `JUMPDEST` has an index that the jump table
cannot hold. -/
theorem not_jumpTable_stopsJumpdest [Env] (rev : Revision) {n : Nat} (hn : 2 ^ 30 ≤ n)
    (hn' : n < 2 ^ 31 - 1) :
    ¬ JumpTable rev (stopsJumpdest n []) (analyzeCode rev (stopsJumpdest n [])) := by
  intro h
  have hlen := stopsJumpdest_length n []
  obtain ⟨hvalid, hstart⟩ := validJumpdest_stopsJumpdest n []
  have := (jumpTable_iff rev (by rw [hlen, List.length_nil]; omega)).1 h _ _ hvalid hstart
  omega

/-- With `2 ^ 30` `STOP`s in front of it, a `JUMPDEST` has a `BEGINBLOCK` of the index `2 ^ 31`,
and the stored target is negative. -/
theorem analyze_jumpTable_stops :
    ∃ analysis, @analyze Env.zeroed .london (stopsJumpdest (2 ^ 30) []) = .ok analysis ∧
      ¬ @JumpTable Env.zeroed .london (stopsJumpdest (2 ^ 30) []) analysis := by
  let _ : Env := Env.zeroed
  have hlen := stopsJumpdest_length (2 ^ 30) []
  rw [List.length_nil] at hlen
  exact ⟨_, analyze_eq .london (by omega),
    not_jumpTable_stopsJumpdest .london (le_refl _) (by decide)⟩

end TscVee
