import TscVee.Proofs.MapSearch

/-!
# `TscVee.Proofs.MapEntries`: a map as a partial function

A `cmap` takes two keys for one when they have the same tag and compare equal (`Alike`). For the
keys of the host these are keys that are equal up to their first zero byte and agree in 7 bits of
their hashes. As long as no two keys of a map are alike, the map is the partial function
`CMap.entry` from keys to values.

* `Kept`: the buckets of such a table. Each entry has its tag, and all buckets from the start of its
  key to the entry are in use.
* `rehash_kept`: a new table gets all entries of the old one.
* `Valid.lookupIdx`, `Valid.insertEntry`: a lookup and an insertion, by the partial function.
-/

set_option autoImplicit false

namespace TscVee

open Lib

/-! ### Keys that are alike -/

/-- The comparison finds every key equal to itself, and equality goes both ways. -/
class LawfulMapKey (κ : Type) [MapKey κ] : Prop where
  cmp_self : ∀ a : κ, MapKey.cmp a a = 0
  cmp_comm : ∀ a b : κ, MapKey.cmp a b = 0 → MapKey.cmp b a = 0

/-- A string compares as equal to itself. -/
theorem strcmp_self (s : List Byte) : strcmp s s = 0 := by
  induction s with
  | nil => rfl
  | cons a s ih =>
      unfold strcmp
      rw [if_pos rfl, ih, ite_self]

/-- The order of two strings does not matter for equality. -/
theorem strcmp_comm {s t : List Byte} (h : strcmp s t = 0) : strcmp t s = 0 := by
  induction s generalizing t with
  | nil =>
      cases t with
      | nil => rfl
      | cons b t =>
          unfold strcmp at h ⊢
          omega
  | cons a s ih =>
      cases t with
      | nil =>
          unfold strcmp at h ⊢
          omega
      | cons b t =>
          unfold strcmp at h ⊢
          by_cases hab : a = b
          · subst hab
            rw [if_pos rfl] at h ⊢
            split at h
            case isTrue hzero => rw [if_pos hzero]
            case isFalse hzero => rw [if_neg hzero, ih h]
          · rw [if_neg hab] at h
            exact absurd (BitVec.eq_of_toNat_eq (by omega)) hab

instance : LawfulMapKey Bytes32 := ⟨fun _ => strcmp_self _, fun _ _ => strcmp_comm⟩

instance : LawfulMapKey Address := ⟨fun _ => strcmp_self _, fun _ _ => strcmp_comm⟩

namespace CMap

variable {κ ν : Type} [MapKey κ]

/-- The map takes one key for the other. -/
def Alike (a b : κ) : Prop := tag a = tag b ∧ MapKey.cmp a b = 0

/-- A bucket with the hash of its key holds the keys that are alike. -/
theorem holds_iff {b : Bucket κ ν} (h : b.hx = tag b.first) (rkey : κ) :
    Bucket.holds b rkey = true ↔ Alike b.first rkey := by
  unfold Bucket.holds Alike
  rw [h, Bool.and_eq_true, beq_iff_eq, beq_iff_eq]

section
variable [LawfulMapKey κ]

/-- A key is like itself. -/
theorem Alike.refl (a : κ) : Alike a a := ⟨rfl, LawfulMapKey.cmp_self a⟩

/-- Two keys are alike in either order. -/
theorem Alike.symm {a b : κ} (h : Alike a b) : Alike b a :=
  ⟨h.1.symm, LawfulMapKey.cmp_comm a b h.2⟩

end

/-! ### Tables -/

variable {buckets : List (Option (Bucket κ ν))} {b : Bucket κ ν} {i : Nat} {key : κ} {value : ν}

/-- No two entries are alike. -/
def Apart (buckets : List (Option (Bucket κ ν))) : Prop :=
  ∀ i j b b', buckets.getD i none = some b → buckets.getD j none = some b' →
    Alike b.first b'.first → i = j

/-- No entry is alike to the key. -/
def Lacks (buckets : List (Option (Bucket κ ν))) (key : κ) : Prop :=
  ∀ i b, buckets.getD i none = some b → ¬ Alike b.first key

/-- The entries have their tags and are apart, and the buckets in front of each entry, from the
start of its key on, are in use. -/
structure Kept (buckets : List (Option (Bucket κ ν))) : Prop where
  tagged : ∀ i b, buckets.getD i none = some b → b.hx = tag b.first
  apart : Apart buckets
  reached : ∀ i b, buckets.getD i none = some b → ∃ d < buckets.length,
    fromStart buckets.length b.first d = i ∧
      ∀ j < d, buckets.getD (fromStart buckets.length b.first j) none ≠ none

/-- The table has the value under the key. -/
def Binds (buckets : List (Option (Bucket κ ν))) (key : κ) (value : ν) : Prop :=
  ∃ i b, buckets.getD i none = some b ∧ b.first = key ∧ b.second = value

omit [MapKey κ] in
/-- There is nothing in an empty array. -/
theorem getD_nil (i : Nat) : ([] : List (Option (Bucket κ ν))).getD i none = none := rfl

omit [MapKey κ] in
/-- The place that is set, and the others. -/
theorem getD_set {j : Nat} (hi : i < buckets.length) (o : Option (Bucket κ ν)) :
    (buckets.set i o).getD j none = if i = j then o else buckets.getD j none := by
  simp only [List.getD_eq_getElem?_getD, List.getElem?_set, if_pos hi]
  split <;> rfl

/-- A search ends inside the table. -/
theorem bucket_lt (h : bucket buckets key = some i) : i < buckets.length := by
  obtain ⟨d, hd, rfl, -⟩ := bucket_eq_some_iff.1 h
  exact Nat.mod_lt _ (Nat.zero_lt_of_lt hd)

/-- Where the search ends, an entry is alike to the key. -/
theorem Kept.alike_of_bucket (h : Kept buckets) (hbucket : bucket buckets key = some i)
    (hb : buckets.getD i none = some b) : Alike b.first key := by
  obtain ⟨d, -, -, hstops, -⟩ := bucket_eq_some_iff.1 hbucket
  exact (holds_iff (h.tagged i b hb) key).1 (hstops b hb)

section
variable [LawfulMapKey κ]

/-- The search for the key of an entry ends there. -/
theorem Kept.bucket_at (h : Kept buckets) (hb : buckets.getD i none = some b) :
    bucket buckets b.first = some i := by
  obtain ⟨d, hd, rfl, hpath⟩ := h.reached i b hb
  refine bucket_eq_some_iff.2 ⟨d, hd, rfl, fun b' hb' => ?_, fun j hj hstops => ?_⟩
  · obtain rfl := Option.some.inj (hb.symm.trans hb')
    exact (holds_iff (h.tagged _ _ hb) _).2 (Alike.refl _)
  · -- Another entry on the way would be alike.
    obtain ⟨b', hb'⟩ := Option.ne_none_iff_exists'.1 (hpath j hj)
    have halike := (holds_iff (h.tagged _ _ hb') _).1 (hstops b' hb')
    have hsame := h.apart _ _ b' b hb' hb halike
    exact absurd (fromStart_inj (hj.trans hd) hd hsame) hj.ne

/-- A new entry, in the bucket where the search for its key ends. -/
theorem Kept.set (h : Kept buckets) (hlacks : Lacks buckets key)
    (hbucket : bucket buckets key = some i) (value : ν) :
    Kept (buckets.set i (some ⟨tag key, key, value⟩)) := by
  have hi := bucket_lt hbucket
  have hlength : (buckets.set i (some ⟨tag key, key, value⟩)).length = buckets.length :=
    List.length_set
  -- Tags, distinct keys and reachable places, each for the new bucket and the old ones.
  refine ⟨fun j b hb => ?_, fun j j' b b' hb hb' halike => ?_, fun j b hb => ?_⟩
  · rw [getD_set hi] at hb
    split at hb
    · obtain rfl := Option.some.inj hb
      rfl
    · exact h.tagged j b hb
  · rw [getD_set hi] at hb hb'
    split at hb
    case isTrue heq =>
      obtain rfl := Option.some.inj hb
      split at hb'
      case isTrue heq' => exact heq.symm.trans heq'
      case isFalse => exact absurd halike.symm (hlacks j' b' hb')
    case isFalse =>
      split at hb'
      case isTrue heq' =>
        obtain rfl := Option.some.inj hb'
        exact absurd halike (hlacks j b hb)
      case isFalse => exact h.apart j j' b b' hb hb' halike
  · -- A bucket in use stays in use.
    have hused : ∀ p, buckets.getD p none ≠ none →
        (buckets.set i (some ⟨tag key, key, value⟩)).getD p none ≠ none := fun p hp => by
      rw [getD_set hi]
      split
      · exact Option.some_ne_none _
      · exact hp
    rw [hlength]
    rw [getD_set hi] at hb
    split at hb
    case isTrue heq =>
      obtain rfl := Option.some.inj hb
      obtain ⟨d, hd, hstep, -, hbefore⟩ := bucket_eq_some_iff.1 hbucket
      exact ⟨d, hd, hstep.trans heq, fun p hp => hused _ fun hfree =>
        hbefore p hp (stops_of_free hfree)⟩
    case isFalse =>
      obtain ⟨d, hd, hstep, hpath⟩ := h.reached j b hb
      exact ⟨d, hd, hstep, fun p hp => hused _ (hpath p hp)⟩

omit [MapKey κ] [LawfulMapKey κ] in
/-- Behind the insertion, the key has the value. -/
theorem binds_set (hi : i < buckets.length) (hfree : buckets.getD i none = none) {hx : Byte}
    {key' : κ} {value' : ν} :
    Binds (buckets.set i (some ⟨hx, key, value⟩)) key' value' ↔
      (key = key' ∧ value = value') ∨ Binds buckets key' value' := by
  constructor
  · rintro ⟨j, b, hb, rfl, rfl⟩
    rw [getD_set hi] at hb
    split at hb
    · obtain rfl := Option.some.inj hb
      exact Or.inl ⟨rfl, rfl⟩
    · exact Or.inr ⟨j, b, hb, rfl, rfl⟩
  · rintro (⟨rfl, rfl⟩ | ⟨j, b, hb, rfl, rfl⟩)
    · exact ⟨i, _, by rw [getD_set hi, if_pos rfl], rfl, rfl⟩
    · refine ⟨j, b, ?_, rfl, rfl⟩
      have hne : i ≠ j := fun heq => by
        rw [← heq, hfree] at hb
        cases hb
      rw [getD_set hi, if_neg hne, hb]

omit [MapKey κ] [LawfulMapKey κ] in
/-- A free place that is set is one more that is occupied. -/
theorem occupied_set (hi : i < buckets.length) (hfree : buckets.getD i none = none)
    (b : Bucket κ ν) : occupied (buckets.set i (some b)) = occupied buckets + 1 := by
  have hat : buckets[i] = none := by
    rwa [List.getD_eq_getElem?_getD, List.getElem?_eq_getElem hi, Option.getD_some] at hfree
  unfold occupied
  rw [List.countP_set hi, hat]
  simp

/-- The entries of the old table find room in the new one. -/
theorem rehash_kept {old : List (Option (Bucket κ ν))} (h : Kept buckets)
    (hroom : occupied old + occupied buckets < buckets.length) (hold : Apart old)
    (hlacks : ∀ i b, old.getD i none = some b → Lacks buckets b.first) :
    ∃ buckets', rehash old buckets = some buckets' ∧ Kept buckets' ∧
      buckets'.length = buckets.length ∧ occupied buckets' = occupied old + occupied buckets ∧
      ∀ key value, Binds buckets' key value ↔ Binds old key value ∨ Binds buckets key value := by
  -- On the old buckets: the entries still to come are alike to none of the new array.
  induction old generalizing buckets with
  | nil =>
      refine ⟨buckets, rfl, h, rfl, (Nat.zero_add _).symm, fun key value => ?_⟩
      refine (or_iff_right ?_).symm
      rintro ⟨i, b, hb, -⟩
      rw [getD_nil] at hb
      cases hb
  | cons o rest ih =>
      have hrest : Apart rest := fun i j b b' hb hb' halike =>
        Nat.succ.inj (hold (i + 1) (j + 1) b b' hb hb' halike)
      have hlacksRest : ∀ i b, rest.getD i none = some b → Lacks buckets b.first := fun i b hb =>
        hlacks (i + 1) b hb
      have hbinds : ∀ key value, Binds (o :: rest) key value ↔
          (∃ b, o = some b ∧ b.first = key ∧ b.second = value) ∨ Binds rest key value := by
        intro key value
        constructor
        · rintro ⟨i, b, hb, hkey⟩
          cases i with
          | zero => exact Or.inl ⟨b, hb, hkey⟩
          | succ i => exact Or.inr ⟨i, b, hb, hkey⟩
        · rintro (⟨b, rfl, hkey⟩ | ⟨i, b, hb, hkey⟩)
          · exact ⟨0, b, rfl, hkey⟩
          · exact ⟨i + 1, b, hb, hkey⟩
      -- An empty bucket, or an entry that goes to a free bucket of the new array.
      cases o with
      | none =>
          obtain ⟨buckets', heq, hkept, hlength, hcount, hiff⟩ := ih h hroom hrest hlacksRest
          refine ⟨buckets', heq, hkept, hlength, hcount, fun key value => ?_⟩
          rw [hiff, hbinds]
          simp
      | some e =>
          have hcount : occupied (some e :: rest) = occupied rest + 1 := List.countP_cons_of_pos rfl
          rw [hcount] at hroom ⊢
          obtain ⟨idx, hidx, hbucket, -⟩ := exists_bucket
            (show occupied buckets < buckets.length by omega)
            e.first
          have hnew : Lacks buckets e.first := hlacks 0 e rfl
          have hfree : buckets.getD idx none = none := by
            cases hb : buckets.getD idx none with
            | none => rfl
            | some b => exact absurd (h.alike_of_bucket hbucket hb) (hnew idx b hb)
          have hset : occupied (buckets.set idx (some { e with hx := tag e.first })) =
              occupied buckets + 1 := occupied_set hidx hfree _
          have hsetLength : (buckets.set idx (some { e with hx := tag e.first })).length =
              buckets.length := List.length_set
          obtain ⟨buckets', heq, hkept, hlength, hcount', hiff⟩ :=
            ih (h.set hnew hbucket e.second) (by rw [hsetLength]; omega) hrest
              fun i b hb j b' hb' halike => by
                rw [getD_set hidx] at hb'
                split at hb'
                · -- The entry is not alike to one that comes later.
                  obtain rfl := Option.some.inj hb'
                  exact absurd (hold 0 (i + 1) e b rfl hb halike) (Nat.succ_ne_zero i).symm
                · exact hlacksRest i b hb j b' hb' halike
          refine ⟨buckets', ?_, hkept, hlength.trans hsetLength, by omega, fun key value => ?_⟩
          · unfold rehash
            rw [hbucket]
            exact heq
          · rw [hiff, hbinds, binds_set hidx hfree]
            constructor
            · rintro (hrest | hkey | hbuckets)
              · exact Or.inl (Or.inr hrest)
              · exact Or.inl (Or.inl ⟨e, rfl, hkey⟩)
              · exact Or.inr hbuckets
            · rintro ((⟨b, hb, hkey⟩ | hrest) | hbuckets)
              · obtain rfl := Option.some.inj hb
                exact Or.inr (Or.inl hkey)
              · exact Or.inl hrest
              · exact Or.inr (Or.inr hbuckets)

/-! ### Maps -/

omit [LawfulMapKey κ] in
/-- The size counts the entries, and unless the map is empty, a bucket is free. -/
structure Valid (m : CMap κ ν) : Prop where
  kept : Kept m.buckets
  size : m.size = occupied m.buckets
  free : m.buckets = [] ∨ m.size < m.buckets.length
  bound : m.buckets.length < 2 ^ 32

/-- The table has a bucket to spare, or it can still grow: `i_size` holds three times its size. -/
def Extendable (m : CMap κ ν) : Prop := m.size + 1 < m.bucketCount ∨ 3 * m.size < 2 ^ 32

variable {m : CMap κ ν}

omit [LawfulMapKey κ] in
/-- The empty map is valid. -/
theorem valid_init : (CMap.init : CMap κ ν).Valid := by
  refine ⟨⟨fun i b hb => ?_, fun i j b b' hb => ?_, fun i b hb => ?_⟩, rfl, Or.inl rfl,
    Nat.two_pow_pos 32⟩
  all_goals
    rw [show (CMap.init : CMap κ ν).buckets = [] from rfl, getD_nil] at hb
    cases hb

omit [LawfulMapKey κ] in
/-- Before an insertion the map stays as it is, or its entries go into a new table that is large
enough. -/
theorem growForInsert_cases (hfree : m.size = 0 ∨ m.size < m.buckets.length) :
    (m.growForInsert = some m ∧ (m.Extendable → m.size + 1 < m.buckets.length)) ∨
      ∃ n, m.size + 1 < n ∧ n < 2 ^ 32 ∧ m.growForInsert =
        (rehash m.buckets (List.replicate n none)).map fun buckets =>
          ⟨m.block + 1, m.size, buckets⟩ := by
  unfold CMap.growForInsert Extendable CMap.bucketCount
  split
  -- The load limit is not reached.
  case isFalse hfull =>
    refine Or.inl ⟨rfl, fun hextend => ?_⟩
    have hle := loadLimit_le m.buckets.length
    rcases hextend with hspare | hsmall
    · exact hspare
    · rw [Nat.mod_eq_of_lt (by omega)] at hfull
      omega
  case isTrue =>
    have hcap : m.size * 3 % 2 ^ 32 / 2 + 4 ≤ 2 ^ 31 + 3 := by omega
    have hgrown : 3 * m.size < 2 ^ 32 → m.size + 1 < m.size * 3 % 2 ^ 32 / 2 + 4 := fun hsmall => by
      rw [Nat.mod_eq_of_lt (by omega)]
      omega
    generalize m.size * 3 % 2 ^ 32 / 2 + 4 = newcap at hcap hgrown
    unfold CMap.reserve CMap.bucketCount
    dsimp only
    split
    -- The array is already large enough.
    case isTrue hlarge =>
      refine Or.inl ⟨rfl, fun hextend => ?_⟩
      rcases hextend with hspare | hsmall
      · exact hspare
      · exact (hgrown hsmall).trans_le hlarge.2
    -- The new number of buckets is odd, and does not wrap.
    case isFalse hnot =>
      obtain ⟨hlow, hhigh⟩ := le_bucketsFor newcap
      have hodd : (bucketsFor newcap + 2) ||| 1 < 2 ^ 32 := Nat.or_lt_two_pow (by omega) (by decide)
      have hle : bucketsFor newcap + 2 ≤ (bucketsFor newcap + 2) ||| 1 := Nat.left_le_or
      rw [Nat.mod_eq_of_lt hodd]
      refine Or.inr ⟨_, ?_, hodd, ?_⟩
      · omega
      · cases rehash m.buckets (List.replicate ((bucketsFor newcap + 2) ||| 1) none) <;> rfl

omit [MapKey κ] [LawfulMapKey κ] in
/-- A new table holds nothing. -/
theorem occupied_replicate (n : Nat) :
    occupied (List.replicate n (none : Option (Bucket κ ν))) = 0 :=
  List.countP_eq_zero.2 fun o ho => by simp [List.eq_of_mem_replicate ho]

/-- Before an insertion the map keeps its entries, and an extendable one gets a bucket to spare. -/
theorem Valid.growForInsert (h : m.Valid) : ∃ m', m.growForInsert = some m' ∧ m'.Valid ∧
    m'.size = m.size ∧ (m.Extendable → m.size + 1 < m'.buckets.length) ∧
    ∀ key value, Binds m'.buckets key value ↔ Binds m.buckets key value := by
  have hsizes := h.size
  have hfree : m.size = 0 ∨ m.size < m.buckets.length := by
    rcases h.free with hnil | hlt
    · refine Or.inl ?_
      rw [h.size, hnil]
      rfl
    · exact Or.inr hlt
  -- The map stays, or its entries move to a larger array that starts empty.
  rcases growForInsert_cases hfree with ⟨hgrow, hroom⟩ | ⟨n, hsize, hn, hgrow⟩
  · exact ⟨m, hgrow, h, rfl, hroom, fun _ _ => Iff.rfl⟩
  · have hcount := occupied_replicate (κ := κ) (ν := ν) n
    have hlength : (List.replicate n (none : Option (Bucket κ ν))).length = n :=
      List.length_replicate
    have hnever : ∀ {i : Nat} {b : Bucket κ ν},
        (List.replicate n (none : Option (Bucket κ ν))).getD i none = some b → False := by
      intro i b hb
      rw [List.getD_eq_getElem?_getD, List.getElem?_replicate] at hb
      split at hb <;> cases hb
    have hnew : Kept (List.replicate n (none : Option (Bucket κ ν))) :=
      ⟨fun i b hb => (hnever hb).elim,
      fun i j b b' hb => (hnever hb).elim, fun i b hb => (hnever hb).elim⟩
    -- The moved entries are apart, since they were so before.
    obtain ⟨buckets, heq, hkept, hlength', hcount', hiff⟩ := rehash_kept hnew
      (show occupied m.buckets + _ < _ by omega) h.kept.apart fun _ _ _ _ _ hb => (hnever hb).elim
    rw [heq] at hgrow
    refine ⟨⟨m.block + 1, m.size, buckets⟩, hgrow, ⟨hkept, ?_, Or.inr ?_, ?_⟩, rfl,
      fun _ => ?_, fun key value => ?_⟩
    · dsimp only
      omega
    · dsimp only
      omega
    · dsimp only
      omega
    · dsimp only
      omega
    · refine (hiff key value).trans (or_iff_left ?_)
      rintro ⟨i, b, hb, -⟩
      exact hnever hb

/-! ### The partial function -/

section
variable [DecidableEq κ]

omit [MapKey κ] [LawfulMapKey κ] in
/-- The value under just this key. -/
def entry (m : CMap κ ν) (key : κ) : Option ν :=
  m.buckets.findSome? fun o => o.bind fun b => if b.first = key then some b.second else none

omit [DecidableEq κ] [LawfulMapKey κ] in
/-- No other key of the map is alike to this one. -/
def Tells (m : CMap κ ν) (key : κ) : Prop :=
  ∀ b, some b ∈ m.buckets → Alike b.first key → b.first = key

omit [MapKey κ] [LawfulMapKey κ] [DecidableEq κ] in
/-- What is at an index is in the array. -/
theorem mem_of_getD (h : buckets.getD i none = some b) : some b ∈ buckets := by
  rw [List.getD_eq_getElem?_getD] at h
  cases hat : buckets[i]? with
  | none =>
      rw [hat] at h
      cases h
  | some o =>
      rw [hat, Option.getD_some] at h
      exact List.mem_of_getElem? (h ▸ hat)

omit [MapKey κ] [LawfulMapKey κ] [DecidableEq κ] in
/-- A bucket in the array binds its key. -/
theorem binds_of_mem (h : some b ∈ buckets) : Binds buckets b.first b.second := by
  obtain ⟨i, hi⟩ := List.mem_iff_getElem?.1 h
  exact ⟨i, b, by rw [List.getD_eq_getElem?_getD, hi, Option.getD_some], rfl, rfl⟩

omit [MapKey κ] [LawfulMapKey κ] in
/-- An entry is bound. -/
theorem binds_of_entry (h : m.entry key = some value) : Binds m.buckets key value := by
  obtain ⟨o, ho, hfound⟩ := List.exists_of_findSome?_eq_some h
  obtain ⟨b, rfl, hb⟩ := Option.bind_eq_some_iff.1 hfound
  split at hb
  case isTrue hkey =>
    obtain rfl := Option.some.inj hb
    exact hkey ▸ binds_of_mem ho
  case isFalse => cases hb

/-- The entry is what the table has under the key. -/
theorem Valid.entry_eq_some_iff (h : m.Valid) : m.entry key = some value ↔
    Binds m.buckets key value := by
  refine ⟨binds_of_entry, ?_⟩
  rintro ⟨i, b, hb, rfl, rfl⟩
  cases hentry : m.entry b.first with
  | none =>
      have hnone := List.findSome?_eq_none_iff.1 hentry _ (mem_of_getD hb)
      rw [Option.bind_some, if_pos rfl] at hnone
      cases hnone
  | some value =>
      obtain ⟨j, b', hb', hkey, rfl⟩ := binds_of_entry hentry
      obtain rfl := h.kept.apart i j b b' hb hb' (hkey ▸ Alike.refl _)
      rw [Option.some.inj (hb.symm.trans hb')]

/-- The entry of the key in a bucket. -/
theorem Valid.entry_at (h : m.Valid) (hb : m.at? i = some b) : m.entry b.first = some b.second :=
  h.entry_eq_some_iff.2 ⟨i, b, hb, rfl, rfl⟩

/-- Two maps with the same entries but for one key. -/
theorem Valid.entry_eq_of_binds (h : m.Valid) {m' : CMap κ ν} (h' : m'.Valid)
    (hbinds : ∀ key' value', Binds m'.buckets key' value' ↔
      (key = key' ∧ value = value') ∨ (key ≠ key' ∧ Binds m.buckets key' value')) (key' : κ) :
    m'.entry key' = if key = key' then some value else m.entry key' := by
  refine Option.ext fun value' => ?_
  rw [h'.entry_eq_some_iff, hbinds]
  split
  case isTrue hkey => simp [hkey]
  case isFalse hkey => simp [hkey, h.entry_eq_some_iff]

/-- A lookup of a key that the map can tell ends at its entry, or finds nothing. -/
theorem Valid.lookupIdx (h : m.Valid) (htells : m.Tells key) :
    (∃ i b, m.lookupIdx key = some (some i) ∧ m.at? i = some b ∧ b.first = key) ∨
      (m.lookupIdx key = some none ∧ m.entry key = none) := by
  have hnone : (∀ value, ¬ Binds m.buckets key value) → m.entry key = none := fun hlacks =>
    Option.eq_none_iff_forall_ne_some.2 fun value hentry => hlacks value (binds_of_entry hentry)
  unfold CMap.lookupIdx
  split
  case isTrue hsize =>
    refine Or.inr ⟨rfl, hnone fun value => ?_⟩
    rintro ⟨i, b, hb, -⟩
    have hpos : 0 < occupied m.buckets := List.countP_pos_iff.2 ⟨some b, mem_of_getD hb, rfl⟩
    exact absurd (h.size ▸ hsize) (Nat.ne_of_gt hpos)
  case isFalse hsize =>
    have hroom : occupied m.buckets < m.buckets.length := by
      rw [← h.size]
      refine h.free.resolve_left fun hnil => hsize ?_
      rw [h.size, hnil]
      rfl
    obtain ⟨idx, hidx, hbucket, -⟩ := exists_bucket hroom key
    rw [hbucket, Option.map_some]
    unfold CMap.at?
    cases hb : m.buckets.getD idx none with
    | none =>
        refine Or.inr ⟨rfl, hnone fun value => ?_⟩
        rintro ⟨i, b, hb', rfl, -⟩
        -- The search for the key of an entry would end there.
        obtain rfl := Option.some.inj (hbucket.symm.trans (h.kept.bucket_at hb'))
        rw [hb] at hb'
        cases hb'
    | some b =>
        exact Or.inl ⟨idx, b, rfl, hb, htells b (mem_of_getD hb) (h.kept.alike_of_bucket hbucket hb)⟩

/-- The test for a key tells whether there is an entry. -/
theorem Valid.contains (h : m.Valid) (htells : m.Tells key) :
    m.contains key = some (m.entry key).isSome := by
  unfold CMap.contains
  rcases h.lookupIdx htells with ⟨i, b, hlookup, hb, rfl⟩ | ⟨hlookup, hentry⟩
  · rw [hlookup, h.entry_at hb]
    rfl
  · rw [hlookup, hentry]
    rfl

/-- The search for a key finds its entry. -/
theorem Valid.find (h : m.Valid) (htells : m.Tells key) : m.find key = some (m.entry key) := by
  unfold CMap.find
  rcases h.lookupIdx htells with ⟨i, b, hlookup, hb, rfl⟩ | ⟨hlookup, hentry⟩
  · rw [hlookup, h.entry_at hb, Option.map_some, Option.bind_some, hb]
    rfl
  · rw [hlookup, hentry]
    rfl

omit [MapKey κ] [LawfulMapKey κ] [DecidableEq κ] in
/-- A write through a pointer leaves the number of entries. -/
theorem occupied_setSecond (m : CMap κ ν) (i : Nat) (value : ν) :
    occupied (m.setSecond i value).buckets = occupied m.buckets := by
  have hsome : (m.setSecond i value).buckets.map Option.isSome = m.buckets.map Option.isSome := by
    refine List.ext_getElem? fun j => ?_
    simp only [CMap.setSecond, List.getElem?_map, List.getElem?_modify]
    cases m.buckets[j]? with
    | none => split <;> rfl
    | some o => split <;> cases o <;> rfl
  have hcount := congrArg (List.countP id) hsome
  rwa [List.countP_map, List.countP_map] at hcount

omit [LawfulMapKey κ] [DecidableEq κ] in
/-- A write through the pointer to an entry leaves the keys where they are. -/
theorem Valid.setSecond (h : m.Valid) (i : Nat) (value : ν) : (m.setSecond i value).Valid := by
  have hlength : (m.setSecond i value).buckets.length = m.buckets.length := List.length_modify ..
  -- Keys, tags and free places are those from before.
  have hback : ∀ {j : Nat} {b : Bucket κ ν}, (m.setSecond i value).buckets.getD j none = some b →
      ∃ b', m.buckets.getD j none = some b' ∧ b.hx = b'.hx ∧ b.first = b'.first := by
    intro j b hb
    have hat := at?_setSecond m i j value
    unfold CMap.at? at hat
    rw [hat] at hb
    split at hb
    · obtain ⟨b', hb', rfl⟩ := Option.map_eq_some_iff.1 hb
      exact ⟨b', hb', rfl, rfl⟩
    · exact ⟨b, hb, rfl, rfl⟩
  have hfree : ∀ j, (m.setSecond i value).buckets.getD j none = none →
      m.buckets.getD j none = none := fun j hj => by
    have hat := at?_setSecond m i j value
    unfold CMap.at? at hat
    rw [hat] at hj
    split at hj
    · exact Option.map_eq_none_iff.1 hj
    · exact hj
  refine ⟨⟨fun j b hb => ?_, fun j j' b b' hb hb' halike => ?_, fun j b hb => ?_⟩, ?_, ?_,
    hlength.symm ▸ h.bound⟩
  · obtain ⟨b', hb', hhx, hfirst⟩ := hback hb
    rw [hhx, hfirst]
    exact h.kept.tagged j b' hb'
  · obtain ⟨c, hc, -, hfirst⟩ := hback hb
    obtain ⟨c', hc', -, hfirst'⟩ := hback hb'
    rw [hfirst, hfirst'] at halike
    exact h.kept.apart j j' c c' hc hc' halike
  · obtain ⟨b', hb', -, hfirst⟩ := hback hb
    obtain ⟨d, hd, hstep, hpath⟩ := h.kept.reached j b' hb'
    rw [hlength, hfirst]
    exact ⟨d, hd, hstep, fun p hp hnone => hpath p hp (hfree _ hnone)⟩
  · exact h.size.trans (occupied_setSecond m i value).symm
  · rcases h.free with hnil | hlt
    · refine Or.inl (List.eq_nil_of_length_eq_zero ?_)
      rw [hlength, hnil]
      rfl
    · exact Or.inr (hlength.symm ▸ hlt)

/-- The entry behind the pointer has the value, and the other entries stay. -/
theorem Valid.entry_setSecond (h : m.Valid) (hb : m.at? i = some b) (value : ν) (key' : κ) :
    (m.setSecond i value).entry key' = if b.first = key' then some value else m.entry key' := by
  refine h.entry_eq_of_binds (h.setSecond i value) (fun key' value' => ?_) key'
  have hat : ∀ j, (m.setSecond i value).buckets.getD j none =
      if i = j then (m.buckets.getD j none).map fun b => { b with second := value }
      else m.buckets.getD j none := fun j => at?_setSecond m i j value
  have hb' : m.buckets.getD i none = some b := hb
  constructor
  · rintro ⟨j, b', hj, rfl, rfl⟩
    rw [hat] at hj
    split at hj
    -- The bucket that was written, or another one.
    case isTrue heq =>
      rw [← heq, hb', Option.map_some] at hj
      obtain rfl := Option.some.inj hj
      exact Or.inl ⟨rfl, rfl⟩
    case isFalse hne =>
      refine Or.inr ⟨fun hkey => hne ?_, j, b', hj, rfl, rfl⟩
      -- Two buckets do not hold one key.
      exact h.kept.apart i j b b' hb' hj (hkey ▸ Alike.refl _)
  · rintro (⟨rfl, rfl⟩ | ⟨hne, j, b', hj, rfl, rfl⟩)
    · exact ⟨i, { b with second := value }, by rw [hat, if_pos rfl, hb', Option.map_some], rfl, rfl⟩
    · refine ⟨j, b', ?_, rfl, rfl⟩
      have hij : i ≠ j := fun heq => by
        rw [← heq] at hj
        exact hne (congrArg Bucket.first (Option.some.inj (hb'.symm.trans hj)))
      rw [hat, if_neg hij, hj]

/-- An insertion of a key that the map can tell, under which there is nothing, or a value that is
overwritten. -/
theorem Valid.insertEntry (h : m.Valid) (assign : Bool) (htells : m.Tells key)
    (hroom : m.entry key = none → m.Extendable) (hassign : m.entry key = none ∨ assign = true)
    (value : ν) : ∃ m', m.insertEntry assign key value = some m' ∧ m'.Valid ∧
      ∀ key', m'.entry key' = if key = key' then some value else m.entry key' := by
  -- The map grows first, and binds the same keys as before.
  obtain ⟨m₁, hgrow, hvalid, hsize, hspare, hbinds⟩ := h.growForInsert
  have hentry₁ : ∀ key', m₁.entry key' = m.entry key' := fun key' =>
    Option.ext fun value' => by rw [hvalid.entry_eq_some_iff, hbinds, h.entry_eq_some_iff]
  have htells₁ : m₁.Tells key := fun b hb halike => by
    obtain ⟨i, b', hb', hfirst, -⟩ := (hbinds _ _).1 (binds_of_mem hb)
    rw [← hfirst] at halike ⊢
    exact htells b' (mem_of_getD hb') halike
  unfold CMap.insertEntry
  rw [hgrow, Option.bind_eq_bind, Option.bind_some]
  cases hentry : m.entry key with
  -- The key is there: its value is replaced.
  | some old =>
      obtain ⟨i, b, hb, rfl, -⟩ := (hbinds _ _).2 (binds_of_entry hentry)
      have hassign : assign = true := hassign.resolve_left (by simp [hentry])
      have hat : m₁.at? i = some b := hb
      refine ⟨m₁.setSecond i value, ?_, hvalid.setSecond i value, fun key' => ?_⟩
      · rw [hvalid.kept.bucket_at hb, Option.bind_eq_bind, Option.bind_some, hat, hassign]
        rfl
      · rw [hvalid.entry_setSecond hat, hentry₁]
  -- The key is new: the search ends at a free place.
  | none =>
      have hroom₁ : m₁.size + 1 < m₁.buckets.length := hsize ▸ hspare (hroom hentry)
      have hcount := hvalid.size
      obtain ⟨idx, hidx, hbucket, -⟩ := exists_bucket
        (show occupied m₁.buckets < m₁.buckets.length by omega) key
      -- No other key is alike, since the map tells the key.
      have hlacks : Lacks m₁.buckets key := fun i b hb halike => by
        have hkey := htells₁ b (mem_of_getD hb) halike
        have hsome := hvalid.entry_at hb
        rw [hkey, hentry₁, hentry] at hsome
        cases hsome
      have hfree : m₁.at? idx = none := by
        unfold CMap.at?
        cases hb : m₁.buckets.getD idx none with
        | none => rfl
        | some b => exact absurd (hvalid.kept.alike_of_bucket hbucket hb) (hlacks idx b hb)
      have hbound := hvalid.bound
      have hoccupied : occupied (m₁.buckets.set idx (some ⟨tag key, key, value⟩)) =
          occupied m₁.buckets + 1 := occupied_set hidx hfree _
      have hlength : (m₁.buckets.set idx (some ⟨tag key, key, value⟩)).length = m₁.buckets.length :=
        List.length_set
      have hmod : (m₁.size + 1) % 2 ^ 32 = m₁.size + 1 := Nat.mod_eq_of_lt (by omega)
      have hvalid' : CMap.Valid { m₁ with
          size := (m₁.size + 1) % 2 ^ 32
          buckets := m₁.buckets.set idx (some ⟨tag key, key, value⟩) } := by
        refine ⟨hvalid.kept.set hlacks hbucket value, ?_, Or.inr ?_, ?_⟩
        · dsimp only
          omega
        · dsimp only
          omega
        · dsimp only
          omega
      refine ⟨_, by rw [hbucket, Option.bind_eq_bind, Option.bind_some, hfree], hvalid', ?_⟩
      -- The bindings of the new array are those of the old one and the new one.
      refine h.entry_eq_of_binds hvalid' fun key' value' => ?_
      rw [binds_set hidx hfree, hbinds]
      refine or_congr_right ⟨fun hold => ⟨fun hkey => ?_, hold⟩, fun hold => hold.2⟩
      rw [← hkey, ← h.entry_eq_some_iff, hentry] at hold
      cases hold

end

end

end CMap

end TscVee
