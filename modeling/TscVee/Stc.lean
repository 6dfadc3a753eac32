import Mathlib.Data.Nat.Log
import TscVee.Evmc

/-!
# `TscVee.Stc`: the vectors and maps of the vendored STC library

* `CVec`: a `cvec`. The C value is one pointer; size, capacity and items lie in the heap block
  behind it. `block` names the block: 0 is the shared empty sentinel, and each reallocation
  takes the next number, because the old pointer is invalid from then on.
* `CMap`: a `cmap`, open addressing with linear probing. Key and value of an occupied bucket lie
  in `table`, its 7-bit hash tag in `_hashx`; a bucket without a tag is empty. The two arrays are
  one list here. `block` names the pair of heap blocks in the same way, and 0 is `NULL`.
* `strcmp`, `cFasthash`: the comparison and the hash that the keys of the host use.
* `binarySearchIn`: `cvec_int32_lower_bound`.

Memory for a container is always allocated. `i_size` is `uint32_t`.
-/

set_option autoImplicit false

namespace TscVee

/-! ### Strings and hashes -/

/-- `strcmp` of two byte strings, each followed by a zero byte. -/
def strcmp : List Byte → List Byte → Int
  | [], [] => 0
  | [], b :: _ => -b.toNat
  | a :: _, [] => a.toNat
  | a :: s, b :: t =>
    if a = b then (if a = 0 then 0 else strcmp s t) else (a.toNat : Int) - b.toNat

/-- Four or eight bytes copied into a little-endian integer. -/
def littleEndian (w : Nat) (bytes : List Byte) : BitVec w :=
  bytes.foldr (fun b acc => acc <<< 8 ||| b.setWidth w) 0

/-- `_c_ROTL`. -/
def rotl64 (x : U64) (k : Nat) : U64 := x <<< k ||| x >>> (64 - k)

/-- The multiplier of `c_fasthash`. -/
def fasthashMul : U64 := 0xc6a4a7935bd1e99d

/-- The loop of `c_fasthash` over the 8-byte words. -/
def fasthashWords : Nat → List Byte → U64 → U64
  | 0, _, h => h
  | n + 1, x, h =>
    let u8 : U64 := littleEndian 64 (x.take 8)
    fasthashWords n (x.drop 8) (h + (rotl64 u8 26 ^^^ u8) * fasthashMul)

/-- `c_fasthash` for the lengths 20 and 32 of the keys: whole words and then at most a half
word. -/
def cFasthash (key : List Byte) : U64 :=
  let n := key.length / 8
  let h := fasthashWords n key 1
  if key.length % 8 = 4 then
    h + (littleEndian 32 ((key.drop (8 * n)).take 4)).setWidth 64 * fasthashMul
  else h

/-! ### Vectors -/

/-- A `cvec` of `α`. -/
structure CVec (α : Type) where
  block : Nat
  cap : Nat
  items : List α
  deriving Repr

namespace CVec

variable {α : Type}

/-- `cvec_init`: the sentinel. -/
def init : CVec α := ⟨0, 0, []⟩

/-- `cvec_size`: the number of items. -/
def size (self : CVec α) : Nat := self.items.length

def empty (self : CVec α) : Bool := self.size == 0

/-- `cvec_reserve`. -/
def reserve (self : CVec α) (cap : Nat) : CVec α :=
  if cap > self.cap ∨ (cap ≠ 0 ∧ cap = self.size) then
    { self with block := self.block + 1, cap := cap }
  else self

/-- `cvec_push`. -/
def push (self : CVec α) (value : α) : CVec α :=
  let self := if self.size = self.cap then self.reserve (self.size * 3 / 2 + 4) else self
  { self with items := self.items ++ [value] }

/-- `cvec_find`: some item compares equal. -/
def find (self : CVec α) (cmp : α → α → Int) (raw : α) : Bool :=
  self.items.any fun r => cmp raw r = 0

end CVec

/-- `_binary_search_in` with the `lower_bound` it stores, on the items from index `i1` to `i2`.
The fuel bounds the length of the range. -/
def binarySearchIn (items : Nat → Int) (raw : Int) : Nat → Nat → Nat → Nat
  | 0, i1, _ => i1
  | fuel + 1, i1, i2 =>
    if i1 = i2 then i1
    else
      let mid := i1 + (i2 - i1) / 2
      if raw = items mid then mid
      else if raw < items mid then binarySearchIn items raw fuel i1 mid
      else binarySearchIn items raw fuel (mid + 1) i2

/-- `cvec_int32_lower_bound`. -/
def lowerBound (items : List Int) (raw : Int) : Nat :=
  binarySearchIn (fun i => items.getD i 0) raw items.length 0 items.length

/-! ### The load factor

`max_load_factor` is `0.85f`, the number 14260634 / 2^24. The conversions to `float` and the
operations on it round to 24 significant bits, ties to even. -/

/-- `n / d` rounded to an integer, ties to even. -/
def roundDiv (n d : Nat) : Nat :=
  let q := n / d
  let r := n % d
  if 2 * r < d then q else if 2 * r > d then q + 1 else q + q % 2

/-- An integer converted to `float`. -/
def toF32 (n : Nat) : Nat :=
  if n < 2 ^ 24 then n else roundDiv n (2 ^ (n.log2 - 23)) * 2 ^ (n.log2 - 23)

def loadFactorNum : Nat := 14260634

/-- `(i_size)(bucket_count * max_load_factor)`. -/
def loadLimit (bucketCount : Nat) : Nat := toF32 (toF32 bucketCount * loadFactorNum) / 2 ^ 24

/-- `(i_size)(newcap / max_load_factor)`. -/
def bucketsFor (newcap : Nat) : Nat :=
  let n := toF32 newcap * 2 ^ 24
  let l := (n / loadFactorNum).log2
  if l < 24 then roundDiv (n * 2 ^ (23 - l)) loadFactorNum / 2 ^ (23 - l)
  else roundDiv n (loadFactorNum * 2 ^ (l - 23)) * 2 ^ (l - 23)

/-! ### Maps -/

/-- `i_hash` and `i_cmp` of a key type. -/
class MapKey (κ : Type) where
  hash : κ → BitVec 32
  cmp : κ → κ → Int

/-- An occupied bucket. -/
structure Bucket (κ ν : Type) where
  hx : Byte
  first : κ
  second : ν
  deriving Repr

/-- A `cmap` from `κ` to `ν`. The bucket count is the length of `buckets`. -/
structure CMap (κ ν : Type) where
  block : Nat
  size : Nat
  buckets : List (Option (Bucket κ ν))
  deriving Repr

namespace CMap

variable {κ ν : Type} [MapKey κ]

/-- `cmap_init`. -/
def init : CMap κ ν := ⟨0, 0, []⟩

def bucketCount (self : CMap κ ν) : Nat := self.buckets.length

def empty (self : CMap κ ν) : Bool := self.size == 0

/-- The bucket at `idx`, `none` where `_hashx` is 0. -/
def at? (self : CMap κ ν) (idx : Nat) : Option (Bucket κ ν) := self.buckets.getD idx none

/-- The bucket where the search for a key starts: `fastrange_uint32_t`. -/
def startIdx (cap : Nat) (rkey : κ) : Nat := (MapKey.hash rkey).toNat * cap / 2 ^ 32

/-- The tag of a key: `(uint8_t)(_hash | 0x80)`. -/
def tag (rkey : κ) : Byte := (MapKey.hash rkey).setWidth 8 ||| 0x80

/-- The tags are equal and the keys compare equal. -/
def Bucket.holds (b : Bucket κ ν) (rkey : κ) : Bool :=
  b.hx == tag rkey && MapKey.cmp b.first rkey == 0

/-- The loop of `cmap_bucket_`: the first bucket from `idx` on that is empty or holds the key.
`none` says that the fuel did not suffice. -/
def probe (buckets : List (Option (Bucket κ ν))) (rkey : κ) : Nat → Nat → Option Nat
  | 0, _ => none
  | fuel + 1, idx =>
    match buckets.getD idx none with
    | none => some idx
    | some b =>
      if Bucket.holds b rkey then some idx
      else probe buckets rkey fuel (if idx + 1 = buckets.length then 0 else idx + 1)

/-- `cmap_bucket_`. A full round over the buckets that stops nowhere goes on forever, so fuel
for one round is enough. -/
def bucket (buckets : List (Option (Bucket κ ν))) (rkey : κ) : Option Nat :=
  probe buckets rkey buckets.length (startIdx buckets.length rkey)

/-- The index of the entry of a key, as `contains`, `find` and `get` look it up: the outer
`none` says that the loop does not end, the inner one that there is no entry. -/
def lookupIdx (self : CMap κ ν) (rkey : κ) : Option (Option Nat) :=
  if self.size = 0 then some none
  else (bucket self.buckets rkey).map fun idx =>
    if (self.at? idx).isSome then some idx else none

/-- `cmap_contains`. -/
def contains (self : CMap κ ν) (rkey : κ) : Option Bool :=
  (self.lookupIdx rkey).map Option.isSome

/-- `cmap_find` and `cmap_get`: the value of the entry found. -/
def find (self : CMap κ ν) (rkey : κ) : Option (Option ν) :=
  (self.lookupIdx rkey).map fun o => o.bind fun idx => (self.at? idx).map (·.second)

/-- A write through the pointer to the value of the entry at `idx`. -/
def setSecond (self : CMap κ ν) (idx : Nat) (mapped : ν) : CMap κ ν :=
  { self with
    buckets := self.buckets.modify idx fun b => b.map fun b => { b with second := mapped } }

/-- The rehash loop of `cmap_reserve` over the old buckets. -/
def rehash (old : List (Option (Bucket κ ν))) (buckets : List (Option (Bucket κ ν))) :
    Option (List (Option (Bucket κ ν))) :=
  match old with
  | [] => some buckets
  | none :: rest => rehash rest buckets
  | some e :: rest => do
    let idx ← bucket buckets e.first
    rehash rest (buckets.set idx (some { e with hx := tag e.first }))

/-- `cmap_reserve`. -/
def reserve (self : CMap κ ν) (newcap : Nat) : Option (CMap κ ν) :=
  let nbuckets := ((bucketsFor newcap + 2) ||| 1) % 2 ^ 32
  if newcap ≠ self.size ∧ newcap ≤ self.bucketCount then some self
  else do
    let buckets ← rehash self.buckets (List.replicate nbuckets none)
    some { block := self.block + 1, size := self.size, buckets := buckets }

/-- The first half of `cmap_insert_entry_`: the table grows when it is nearly full. -/
def growForInsert (self : CMap κ ν) : Option (CMap κ ν) :=
  if (self.size + 2) % 2 ^ 32 > loadLimit self.bucketCount then
    self.reserve (self.size * 3 % 2 ^ 32 / 2 + 4)
  else some self

/-- `cmap_insert_entry_`, then the value written into the entry if it is new or `assign` is
set. The key is written into a new entry only. -/
def insertEntry (assign : Bool) (self : CMap κ ν) (key : κ) (mapped : ν) : Option (CMap κ ν) :=
  do
    let self ← self.growForInsert
    let idx ← bucket self.buckets key
    match self.at? idx with
    | none =>
      some { self with
        size := (self.size + 1) % 2 ^ 32
        buckets := self.buckets.set idx (some ⟨tag key, key, mapped⟩) }
    | some _ => some (if assign then self.setSecond idx mapped else self)

/-- `cmap_insert`. -/
def insert (self : CMap κ ν) (key : κ) (mapped : ν) : Option (CMap κ ν) :=
  self.insertEntry false key mapped

/-- `cmap_insert_or_assign`. -/
def insertOrAssign (self : CMap κ ν) (key : κ) (mapped : ν) : Option (CMap κ ν) :=
  self.insertEntry true key mapped

end CMap

/-! ### The keys of the host -/

/-- `evmc_bytes32_cmp` and `evmc_bytes32_hash`. -/
instance : MapKey Bytes32 where
  hash a := (cFasthash a.toList).setWidth 32
  cmp a b := strcmp a.toList b.toList

/-- `evmc_address_cmp` and `evmc_address_hash`. -/
instance : MapKey Address where
  hash a := (cFasthash a.toList).setWidth 32
  cmp a b := strcmp a.toList b.toList

end TscVee
