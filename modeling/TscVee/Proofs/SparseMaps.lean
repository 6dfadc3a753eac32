import TscVee.Proofs.HostStorage

/-!
# `TscVee.Proofs.SparseMaps`: the searches of the host's maps end

The probe loop of a map ends when a bucket is free. `CMap.Sparse` says that the map has one, and
that its size is at least the number of its entries: keys that the map takes for each other may
share one. An insertion keeps that as long as the map can grow (`CMap.Roomy`).

* `Sparse.lookupIdx`, `Sparse.insertEntry`: a search and an insertion end, whatever the key.
* `serve_ends`: no request makes a host with sparse maps search forever.
-/

set_option autoImplicit false

namespace TscVee

open Lib

namespace CMap

variable {κ ν : Type} [MapKey κ] {buckets : List (Option (Bucket κ ν))} {m : CMap κ ν} {key : κ}

/-- The size counts the entries at least, and unless the map is empty, a bucket is free. -/
structure Sparse (m : CMap κ ν) : Prop where
  size : occupied m.buckets ≤ m.size
  free : m.size = 0 ∨ m.size < m.buckets.length
  bound : m.buckets.length < 2 ^ 32

/-- The values of the map have the property. -/
def Each (P : ν → Prop) (m : CMap κ ν) : Prop := ∀ b, some b ∈ m.buckets → P b.second

/-- Two more entries find room: `i_size` holds three times the size, also with one entry more. -/
def Roomy (m : CMap κ ν) : Prop := 3 * (m.size + 1) < 2 ^ 32

/-- A valid map is sparse. -/
theorem Valid.sparse (h : m.Valid) : m.Sparse := by
  refine ⟨h.size.ge, ?_, h.bound⟩
  rcases h.free with hnil | hlt
  · refine Or.inl (h.size.trans ?_)
    rw [hnil]
    rfl
  · exact Or.inr hlt

omit [MapKey κ] in
/-- The empty map is sparse. -/
theorem sparse_init : (CMap.init : CMap κ ν).Sparse := ⟨le_refl _, Or.inl rfl, Nat.two_pow_pos 32⟩

omit [MapKey κ] in
/-- The empty map has room. -/
theorem roomy_init : (CMap.init : CMap κ ν).Roomy := show 3 * (0 + 1) < 2 ^ 32 by decide

omit [MapKey κ] in
/-- The empty map has no entries. -/
theorem each_init (P : ν → Prop) : (CMap.init : CMap κ ν).Each P := fun _ hb => by cases hb

/-! ### Searches -/

omit [MapKey κ] in
/-- An entry at an index. -/
theorem Each.at? {P : ν → Prop} (h : m.Each P) {i : Nat} {b : Bucket κ ν} (hb : m.at? i = some b) :
    P b.second := h b (mem_of_getD hb)

/-- The search of a map that is not empty ends. -/
theorem Sparse.exists_bucket (h : m.Sparse) (hsize : m.size < m.buckets.length) (key : κ) :
    ∃ idx < m.buckets.length, bucket m.buckets key = some idx := by
  obtain ⟨idx, hidx, hbucket, -⟩ := CMap.exists_bucket (h.size.trans_lt hsize) key
  exact ⟨idx, hidx, hbucket⟩

/-- In a sparse map the search ends. -/
theorem Sparse.lookupIdx (h : m.Sparse) (key : κ) : m.lookupIdx key ≠ none := by
  unfold CMap.lookupIdx
  split
  · simp
  case isFalse hsize =>
    obtain ⟨idx, -, hbucket⟩ := h.exists_bucket (h.free.resolve_left hsize) key
    simp [hbucket]

/-- In a sparse map the test for a key ends. -/
theorem Sparse.contains (h : m.Sparse) (key : κ) : m.contains key ≠ none := by
  simpa [CMap.contains] using h.lookupIdx key

/-- In a sparse map the search for a value ends. -/
theorem Sparse.find (h : m.Sparse) (key : κ) : m.find key ≠ none := by
  simpa [CMap.find] using h.lookupIdx key

/-! ### Insertions -/

omit [MapKey κ] in
/-- A bucket that is set occupies at most one more place. -/
theorem occupied_set_le {i : Nat} (hi : i < buckets.length) (b : Bucket κ ν) :
    occupied (buckets.set i (some b)) ≤ occupied buckets + 1 := by
  unfold occupied
  rw [List.countP_set hi]
  simp only [Option.isSome_some, if_true]
  omega

/-- The entries of the old table find room in the new one, where some may meet. -/
theorem rehash_sparse {old : List (Option (Bucket κ ν))}
    (hroom : occupied old + occupied buckets < buckets.length) :
    ∃ buckets', rehash old buckets = some buckets' ∧ buckets'.length = buckets.length ∧
      occupied buckets' ≤ occupied old + occupied buckets ∧
      ∀ P : ν → Prop, (∀ b, some b ∈ old → P b.second) → (∀ b, some b ∈ buckets → P b.second) →
        ∀ b, some b ∈ buckets' → P b.second := by
  -- By induction over the old table: each entry takes a bucket that was free, so that the
  -- buckets in use never fill the new table.
  induction old generalizing buckets with
  | nil => exact ⟨buckets, rfl, rfl, by omega, fun P _ hnew => hnew⟩
  | cons o rest ih =>
      cases o with
      | none =>
          obtain ⟨buckets', heq, hlength, hcount, heach⟩ := ih hroom
          exact ⟨buckets', heq, hlength, hcount,
            fun P hold => heach P fun b hb => hold b (List.mem_cons_of_mem _ hb)⟩
      | some e =>
          have hcount : occupied (some e :: rest) = occupied rest + 1 := List.countP_cons_of_pos rfl
          rw [hcount] at hroom ⊢
          -- The entry finds a bucket. It may replace one with the same tag and an
          -- equal key.
          obtain ⟨idx, hidx, hbucket, -⟩ := CMap.exists_bucket
            (show occupied buckets < buckets.length by omega) e.first
          have hset := occupied_set_le hidx { e with hx := tag e.first }
          have hsetLength : (buckets.set idx (some { e with hx := tag e.first })).length =
              buckets.length := List.length_set
          have hroom' : occupied rest +
              occupied (buckets.set idx (some { e with hx := tag e.first })) <
              (buckets.set idx (some { e with hx := tag e.first })).length := by
            rw [hsetLength]
            omega
          obtain ⟨buckets', heq, hlength, hcount', heach⟩ := ih hroom'
          refine ⟨buckets', ?_, hlength.trans hsetLength, by omega, fun P hold hnew => ?_⟩
          · unfold rehash
            rw [hbucket]
            exact heq
          · refine heach P (fun b hb => hold b (List.mem_cons_of_mem _ hb)) fun b hb => ?_
            rcases List.mem_or_eq_of_mem_set hb with hb | hb
            · exact hnew b hb
            · rw [Option.some.inj hb]
              exact hold e List.mem_cons_self

/-- Before an insertion. -/
theorem Sparse.growForInsert (h : m.Sparse) : ∃ m', m.growForInsert = some m' ∧ m'.Sparse ∧
    m'.size = m.size ∧ (m.Extendable → m.size + 1 < m'.buckets.length) ∧
    ∀ P : ν → Prop, m.Each P → m'.Each P := by
  have hsize := h.size
  rcases growForInsert_cases h.free with ⟨hgrow, hroom⟩ | ⟨n, hlt, hn, hgrow⟩
  · exact ⟨m, hgrow, h, rfl, hroom, fun _ => id⟩
  -- The map grows: its entries move to an empty table that is large enough.
  · have hempty := occupied_replicate (κ := κ) (ν := ν) n
    have hlength : (List.replicate n (none : Option (Bucket κ ν))).length = n :=
      List.length_replicate
    have hroom : occupied m.buckets + occupied (List.replicate n (none : Option (Bucket κ ν))) <
        (List.replicate n (none : Option (Bucket κ ν))).length := by omega
    obtain ⟨buckets, heq, hlength', hcount, heach⟩ := rehash_sparse hroom
    rw [heq] at hgrow
    refine ⟨⟨m.block + 1, m.size, buckets⟩, hgrow, ⟨?_, Or.inr ?_, ?_⟩, rfl, fun _ => ?_,
      fun P hold => heach P hold fun b hb => by cases List.eq_of_mem_replicate hb⟩
    all_goals
      dsimp only
      omega

omit [MapKey κ] in
/-- A write through the pointer to an entry. -/
theorem Sparse.setSecond (h : m.Sparse) (i : Nat) (value : ν) : (m.setSecond i value).Sparse := by
  have hlength : (m.setSecond i value).buckets.length = m.buckets.length := List.length_modify ..
  have hcount := occupied_setSecond m i value
  exact ⟨hcount.trans_le h.size, hlength.symm ▸ h.free, hlength.symm ▸ h.bound⟩

omit [MapKey κ] in
/-- A value that is replaced by another one of the kind. -/
theorem Each.setSecond {P : ν → Prop} (h : m.Each P) (i : Nat) {value : ν} (hvalue : P value) :
    (m.setSecond i value).Each P := by
  intro b hb
  obtain ⟨j, hj⟩ := List.mem_iff_getElem?.1 hb
  have hat := at?_setSecond m i j value
  unfold CMap.at? at hat
  rw [List.getD_eq_getElem?_getD, hj, Option.getD_some] at hat
  split at hat
  · obtain ⟨b', -, rfl⟩ := Option.map_eq_some_iff.1 hat.symm
    exact hvalue
  · exact h b (mem_of_getD hat.symm)

/-- An insertion ends, and leaves a free bucket behind. -/
theorem Sparse.insertEntry (h : m.Sparse) (hroom : m.Extendable) (assign : Bool) (key : κ)
    (value : ν) : ∃ m', m.insertEntry assign key value = some m' ∧ m'.Sparse ∧
      m'.size ≤ m.size + 1 ∧ ∀ P : ν → Prop, m.Each P → P value → m'.Each P := by
  obtain ⟨m₁, hgrow, hsparse, hsize, hspare, heach⟩ := h.growForInsert
  have hroom₁ := hspare hroom
  obtain ⟨idx, hidx, hbucket⟩ := hsparse.exists_bucket (show m₁.size < _ by omega) key
  unfold CMap.insertEntry
  rw [hgrow, Option.bind_eq_bind, Option.bind_some, hbucket, Option.bind_eq_bind, Option.bind_some]
  -- The bucket is free, and takes a new entry; or it holds one, which is assigned or left
  -- alone.
  cases m₁.at? idx with
  | none =>
      have hbound := hsparse.bound
      have hcount := hsparse.size
      have hset := occupied_set_le hidx ⟨tag key, key, value⟩
      have hlength : (m₁.buckets.set idx (some ⟨tag key, key, value⟩)).length =
          m₁.buckets.length := List.length_set
      have hmod : (m₁.size + 1) % 2 ^ 32 = m₁.size + 1 := Nat.mod_eq_of_lt (by omega)
      refine ⟨_, rfl, ⟨?_, Or.inr ?_, ?_⟩, ?_, fun P hP hvalue b hb => ?_⟩
      · dsimp only
        omega
      · dsimp only
        omega
      · dsimp only
        omega
      · dsimp only
        omega
      · rcases List.mem_or_eq_of_mem_set hb with hb | hb
        · exact heach P hP b hb
        · rw [Option.some.inj hb]
          exact hvalue
  | some b =>
      cases assign with
      | true =>
          have hsame : (m₁.setSecond idx value).size = m₁.size := rfl
          exact ⟨m₁.setSecond idx value, rfl, hsparse.setSecond idx value, by omega,
            fun P hP hvalue => (heach P hP).setSecond idx hvalue⟩
      | false => exact ⟨m₁, rfl, hsparse, by omega, fun P hP _ => heach P hP⟩

end CMap

namespace MockedHost

/-- The maps of the host are sparse. -/
structure Sparse (host : MockedHost) : Prop where
  accounts : host.accounts.Sparse
  storage : host.accounts.Each fun acc => acc.storage.Sparse

/-- The maps of the host can grow. -/
structure Roomy (host : MockedHost) : Prop where
  accounts : host.accounts.Roomy
  storage : host.accounts.Each fun acc => acc.storage.Roomy

/-- A valid host has sparse maps. -/
theorem Valid.sparse {host : MockedHost} (h : host.Valid) : host.Sparse := by
  refine ⟨h.accounts.sparse, fun b hb => (h.storage b.first b.second ?_).sparse⟩
  exact h.accounts.entry_eq_some_iff.2 (CMap.binds_of_mem hb)

section
variable {α : Type} {host : MockedHost} {addr : Address} {Q : α → MockedHost → Prop}

/-- A search that ends. -/
theorem sat_probing_ends {o : Option α} {E : Fault → MockedHost → Prop} (h : o ≠ none)
    (hQ : ∀ a, o = some a → Q a host) : Sat (probing o) host Q E := by
  cases o with
  | none => exact absurd rfl h
  | some a => exact hQ a rfl

/-- A pointer is read or `NULL`, and either ends. -/
theorem sat_deref_ends {o : Option α} (hQ : ∀ a, o = some a → Q a host) :
    Sat (deref o) host Q fun f _ => f ≠ .diverges := by
  cases o with
  | none => exact nofun
  | some a => exact hQ a rfl

/-- The record of an access is not in the maps. -/
theorem Sparse.recorded (h : host.Sparse) (addr : Address) : (host.recorded addr).Sparse :=
  ⟨h.accounts, h.storage⟩

/-- The account that a search finds. -/
theorem each_find {P : MockedAccount → Prop} (h : host.accounts.Each P) {acc : MockedAccount}
    (hfind : host.accounts.find addr = some (some acc)) : P acc := by
  unfold CMap.find at hfind
  obtain ⟨o, -, ho⟩ := Option.map_eq_some_iff.1 hfind
  obtain ⟨i, -, hi⟩ := Option.bind_eq_some_iff.1 ho
  obtain ⟨b, hb, rfl⟩ := Option.map_eq_some_iff.1 hi
  exact h.at? hb

/-- A lookup of an account, and what is done with it. -/
theorem Sparse.sat_lookup (h : host.Sparse) {k : Option MockedAccount → Host α}
    {E : Fault → MockedHost → Prop}
    (hk : ∀ o, (∀ acc, o = some acc → acc.storage.Sparse) → Sat (k o) (host.recorded addr) Q E) :
    Sat (do
      recordAccountAccess addr
      let o ← findAccount addr
      k o) host Q E := by
  simp only [sat_bind, sat_recordAccountAccess, sat_findAccount]
  have hends := (h.recorded addr).accounts.find addr
  cases hfind : (host.recorded addr).accounts.find addr with
  | none => exact absurd hfind hends
  | some o =>
      refine hk o fun acc hacc => ?_
      subst hacc
      exact each_find (h.recorded addr).storage hfind

/-- Every host function but `access_storage` ends. -/
theorem Sparse.serve_ends (h : host.Sparse) {op : HostOp}
    (hop : ∀ addr key, op ≠ .accessStorage addr key) :
    Sat op.serve host (fun _ host' => host'.Sparse) fun f _ => f ≠ .diverges := by
  cases op with
  | accessStorage addr key => exact absurd rfl (hop addr key)
  | accountExists addr =>
      unfold HostOp.serve accountExists
      simp only [sat_bind, sat_recordAccountAccess, sat_get]
      exact sat_probing_ends ((h.recorded addr).accounts.contains addr) fun _ _ => h.recorded addr
  | getStorage addr key =>
      refine h.sat_lookup fun o ho => ?_
      cases o with
      | none => exact h.recorded addr
      | some acc =>
          rw [sat_bind]
          refine sat_probing_ends ((ho acc rfl).find key) fun o _ => ?_
          cases o <;> exact h.recorded addr
  | setStorage addr key value =>
      -- The two searches end. The pointers that they give are `NULL` or point to entries
      -- of sparse maps.
      have haccounts := (h.recorded addr).accounts
      unfold HostOp.serve setStorage
      simp only [sat_bind, sat_recordAccountAccess, sat_get]
      refine sat_probing_ends (haccounts.lookupIdx addr) fun i? _ => sat_deref_ends fun i _ =>
        sat_deref_ends fun acc hacc => ?_
      obtain ⟨b, hb, rfl⟩ := Option.map_eq_some_iff.1 hacc
      have hstorage : b.second.storage.Sparse := h.storage.at? hb
      refine sat_probing_ends (hstorage.lookupIdx key) fun j? _ => sat_deref_ends fun j _ =>
        sat_deref_ends fun old _ => ?_
      simp only [sat_ite, sat_pure]
      refine ⟨fun _ => h.recorded addr, fun _ => ⟨haccounts.setSecond _ _, ?_⟩⟩
      exact h.storage.setSecond _ (hstorage.setSecond _ _)
  | getBalance addr => exact h.sat_lookup fun o _ => by cases o <;> exact h.recorded addr
  | getCodeSize addr => exact h.sat_lookup fun o _ => by cases o <;> exact h.recorded addr
  | getCodeHash addr => exact h.sat_lookup fun o _ => by cases o <;> exact h.recorded addr
  | copyCode addr codeOffset bufferSize =>
      refine h.sat_lookup fun o _ => ?_
      cases o with
      | none => exact h.recorded addr
      | some acc =>
          simp only [sat_ite, sat_pure]
          exact ⟨fun _ => h.recorded addr, fun _ => h.recorded addr⟩
  | selfdestruct addr beneficiary => exact ⟨h.accounts, h.storage⟩
  | call msg =>
      -- A call only adds to the records, and may read its input through a pointer that
      -- ends too early.
      have hcalls : ∀ calls inputs, MockedHost.Sparse { host.recorded msg.recipient with
          recordedCalls := calls, recordedCallsInputs := inputs } := fun _ _ =>
        ⟨h.accounts, h.storage⟩
      unfold HostOp.serve MockedHost.call
      simp only [sat_bind, sat_recordAccountAccess, sat_modify, sat_get, sat_ite, sat_readPtr,
        sat_set, sat_pure]
      split
      all_goals
        refine ⟨fun _ => ⟨fun _ => ?_, fun _ => hcalls _ _⟩, fun _ => hcalls _ _⟩
        split
        · exact hcalls _ _
        · exact nofun
  | getTxContext => exact h
  | getBlockHash blockNumber => exact ⟨h.accounts, h.storage⟩
  | emitLog addr data topics vectorEmpty =>
      unfold HostOp.serve emitLog
      simp only [sat_bind, sat_ite, sat_pure, sat_throw, sat_modify]
      have hlogs : ∀ logs, MockedHost.Sparse { host with recordedLogs := logs } := fun _ =>
        ⟨h.accounts, h.storage⟩
      exact ⟨fun _ => hlogs _, fun _ => ⟨fun _ => hlogs _, fun _ => nofun⟩⟩
  | accessAccount addr =>
      unfold HostOp.serve accessAccount
      simp only [sat_bind, sat_get, sat_recordAccountAccess, sat_ite, sat_pure]
      exact ⟨fun _ => h.recorded addr, fun _ => h.recorded addr⟩

end

/-! ### `access_storage` -/

/-- A search for an entry, which is made if there is none. -/
theorem sat_ensured_ends {κ ν : Type} [MapKey κ] {m : CMap κ ν} (h : m.Sparse) (hroom : m.Roomy)
    (key : κ) (value : ν) (host : MockedHost) :
    Sat (ensured m key value) host (fun m' host' => host' = host ∧ m'.Sparse ∧ m'.Extendable ∧
      ∀ P : ν → Prop, m.Each P → P value → m'.Each P) fun f _ => f ≠ .diverges := by
  have hextend : ∀ {m' : CMap κ ν}, m'.size ≤ m.size + 1 → m'.Extendable := fun hsize => by
    unfold CMap.Roomy at hroom
    exact Or.inr (by omega)
  unfold ensured
  rw [sat_bind]
  refine sat_probing_ends (h.contains key) fun known _ => sat_ite.2 ⟨fun _ => ?_, fun _ => ?_⟩
  · exact ⟨rfl, h, hextend (by omega), fun _ hP _ => hP⟩
  · obtain ⟨m', hinsert, hsparse, hsize, heach⟩ :=
      h.insertEntry (hextend (by omega)) false key value
    have hinsert' : m.insert key value = some m' := hinsert
    rw [hinsert']
    exact ⟨rfl, hsparse, hextend hsize, heach⟩

/-- No host function searches forever in maps that are sparse and can grow. -/
theorem serve_ends {host : MockedHost} (h : host.Sparse) (hroom : host.Roomy) (op : HostOp) :
    Sat op.serve host (fun _ host' => host'.Sparse) fun f _ => f ≠ .diverges := by
  cases op with
  | accessStorage addr key =>
      unfold HostOp.serve
      simp only [accessStorage_eq]
      rw [sat_bind, sat_get, sat_bind]
      refine (sat_ensured_ends h.accounts hroom.accounts addr mockedAccountInit host).mono ?_
        fun _ _ h => h
      rintro accounts _ ⟨rfl, haccounts, -, heach⟩
      -- A new account has an empty storage, which is sparse and can grow.
      have hstorage := heach _ h.storage CMap.sparse_init
      have hgrows := heach _ hroom.storage CMap.roomy_init
      simp only [sat_bind, sat_set]
      refine sat_probing_ends (haccounts.lookupIdx addr) fun i? _ => sat_deref_ends fun i _ =>
        sat_deref_ends fun acc hacc => ?_
      obtain ⟨b, hb, rfl⟩ := Option.map_eq_some_iff.1 hacc
      refine (sat_ensured_ends (hstorage.at? hb) (hgrows.at? hb) key storageValueInit _).mono ?_
        fun _ _ h => h
      rintro storage _ ⟨rfl, hsparse, hextend, -⟩
      refine sat_probing_ends (hsparse.find key) fun sv? _ => sat_deref_ends fun sv _ => ?_
      -- The record is written back, as one that was accessed.
      obtain ⟨storage', hassign, hsparse', -, -⟩ :=
        hsparse.insertEntry hextend true key { sv with accessStatus := .warm }
      have hassign' : storage.insertOrAssign key { sv with accessStatus := .warm } =
          some storage' := hassign
      rw [hassign']
      exact ⟨haccounts.setSecond _ _, hstorage.setSecond _ hsparse'⟩
  | _ => exact h.serve_ends nofun

end MockedHost

end TscVee
