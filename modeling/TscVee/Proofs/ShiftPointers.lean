import TscVee.LimbMemory
import TscVee.Proofs.Words

/-!
# `TscVee.Proofs.ShiftPointers`: the shifts on pointers

The shifts of `TscVee.LimbMemory` leave in the target what the functions on numbers return, and
never shift a limb by 64 or more.

* `Puts128`, `Puts256`: a number is written to a target, and only local variables besides.
* `sat_shiftl128`, `sat_shiftr128`, `sat_shiftl256`, `sat_shiftr256`: the functions on pointers do
  what those on numbers do. The shifts to the right may write the number that they read, if the
  count takes them through the local variables.
* `shifts_compute`: the powers of two, and the shifts by 1 in place.
-/

set_option autoImplicit false

namespace TscVee

open Lib

/-- The number at an address. -/
def LimbMem.at128 (m : LimbMem) (p : Nat) : Uint128 := ⟨m p, m (p + 1)⟩

/-- The number of four limbs at an address, the most significant limb first. -/
def LimbMem.at256 (m : LimbMem) (p : Nat) : Uint256 := ⟨m.at128 p, m.at128 (p + 2)⟩

/-- The `n` limbs at `target` have been written, and below `frame` nothing else. -/
def Writes (frame target n : Nat) (m m' : LimbMem) : Prop :=
  ∀ a < frame, a < target ∨ target + n ≤ a → m' a = m a

/-- The number `x` has been written to `target`. -/
structure Puts128 (frame target : Nat) (x : Uint128) (m m' : LimbMem) : Prop where
  number : m'.at128 target = x
  others : Writes frame target 2 m m'

/-- The number `x` of four limbs has been written to `target`. -/
structure Puts256 (frame target : Nat) (x : Uint256) (m m' : LimbMem) : Prop where
  number : m'.at256 target = x
  others : Writes frame target 4 m m'

/-- Two places of `n` limbs have no limb in common. -/
def Apart (n : Nat) (p q : Nat) : Prop := p + n ≤ q ∨ q + n ≤ p

section
variable {frame target p : Nat} {x : Uint128} {m m' m'' : LimbMem}

/-- A number apart from the target stays. -/
theorem Puts128.at128 (h : Puts128 frame target x m m') (hp : p + 2 ≤ frame)
    (hapart : Apart 2 p target) : m'.at128 p = m.at128 p := by
  unfold Apart at hapart
  unfold LimbMem.at128
  rw [h.others p (by omega) (by omega), h.others (p + 1) (by omega) (by omega)]

/-- Nothing below `frame` has changed. -/
def Locals (frame : Nat) (m m' : LimbMem) : Prop := ∀ a < frame, m' a = m a

/-- Two parts that write to local variables. -/
theorem Locals.trans (h : Locals frame m m') (h' : Locals frame m' m'') : Locals frame m m'' :=
  fun a ha => (h' a ha).trans (h a ha)

/-- A number below `frame` stays. -/
theorem Locals.at128 (h : Locals frame m m') (hp : p + 2 ≤ frame) : m'.at128 p = m.at128 p := by
  unfold LimbMem.at128
  rw [h p (by omega), h (p + 1) (by omega)]

/-- A number that is put in a local variable. -/
theorem Puts128.locals {frame' : Nat} (h : Puts128 frame' target x m m') (hframe : frame ≤ frame')
    (htarget : frame ≤ target) : Locals frame m m' :=
  fun a ha => h.others a (by omega) (by omega)

/-- What is put in a local variable and copied from there. -/
theorem Puts128.copied {result : Nat} (hlocals : Locals frame m m')
    (hresult : m'.at128 result = x) (h : Puts128 frame target (m'.at128 result) m' m'') :
    Puts128 frame target x m m'' := by
  refine ⟨h.number.trans hresult, fun a ha hout => ?_⟩
  rw [h.others a ha hout, hlocals a ha]

/-- The same for a number of four limbs. -/
theorem Puts256.copied {y : Uint256} {result : Nat} (hlocals : Locals frame m m')
    (hresult : m'.at256 result = y) (h : Puts256 frame target (m'.at256 result) m' m'') :
    Puts256 frame target y m m'' := by
  refine ⟨h.number.trans hresult, fun a ha hout => ?_⟩
  rw [h.others a ha hout, hlocals a ha]

/-- A smaller frame. -/
theorem Puts256.mono {y : Uint256} {frame' : Nat} (h : Puts256 frame' target y m m')
    (hframe : frame ≤ frame') : Puts256 frame target y m m' :=
  ⟨h.number, fun a ha hout => h.others a (by omega) hout⟩

/-- The two halves, the upper one first. -/
theorem Puts128.trans_lower {y : Uint128} (h : Puts128 frame target x m m')
    (h' : Puts128 frame (target + 2) y m' m'') (hframe : target + 4 ≤ frame) :
    Puts256 frame target ⟨x, y⟩ m m'' := by
  constructor
  · unfold LimbMem.at256
    rw [h'.at128 (by omega) (.inl (le_refl _)), h.number, h'.number]
  · intro a ha hout
    rw [h'.others a ha (by omega), h.others a ha (by omega)]

/-- The lower one first. -/
theorem Puts128.trans_upper {y : Uint128} (h : Puts128 frame (target + 2) y m m')
    (h' : Puts128 frame target x m' m'') (hframe : target + 4 ≤ frame) :
    Puts256 frame target ⟨x, y⟩ m m'' := by
  constructor
  · unfold LimbMem.at256
    rw [h'.at128 (by omega) (.inr (le_refl _)), h.number, h'.number]
  · intro a ha hout
    rw [h'.others a ha (by omega), h.others a ha (by omega)]

end

namespace LimbProgram

section
variable {frame number target : Nat} {m : LimbMem}
  {α : Type} {Q : α → LimbMem → Prop} {E : LimbFault → LimbMem → Prop}

/-- A limb that is read. -/
theorem sat_read (p : Nat) {Q : U64 → LimbMem → Prop} :
    Sat (read p) m Q E ↔ Q (m p) m := Iff.rfl

/-- A limb that is written. -/
theorem sat_write (p : Nat) (value : U64) {Q : Unit → LimbMem → Prop} :
    Sat (write p value) m Q E ↔ Q () fun q => if q = p then value else m q := Iff.rfl

/-- A shift of a limb is defined below 64. -/
theorem sat_shl (x : U64) {n : U32} (hn : n.toNat < 64) {Q : U64 → LimbMem → Prop} :
    Sat (shl x n) m Q E ↔ Q (x <<< n.toNat) m := by
  have hlt : ¬ n ≥ 64 := by
    rw [ge_iff_le, BitVec.le_def]
    exact Nat.not_le.2 hn
  unfold shl
  rw [if_neg hlt, sat_pure]

/-- A shift of a limb by less than 64, to the right. -/
theorem sat_shr (x : U64) {n : U32} (hn : n.toNat < 64) {Q : U64 → LimbMem → Prop} :
    Sat (shr x n) m Q E ↔ Q (x >>> n.toNat) m := by
  have hlt : ¬ n ≥ 64 := by
    rw [ge_iff_le, BitVec.le_def]
    exact Nat.not_le.2 hn
  unfold shr
  rw [if_neg hlt, sat_pure]

/-- Two writes put a number. -/
theorem puts128_of_writes (frame target : Nat) (m : LimbMem) (upper lower : U64) :
    Puts128 frame target ⟨upper, lower⟩ m
      fun q => if q = target + 1 then lower else if q = target then upper else m q := by
  constructor
  · simp [LimbMem.at128]
  · intro a _ hout
    show (if a = target + 1 then lower else if a = target then upper else m a) = m a
    rw [if_neg (by omega), if_neg (by omega)]

/-- In the other order. -/
theorem puts128_of_writes_upper (frame target : Nat) (m : LimbMem) (upper lower : U64) :
    Puts128 frame target ⟨upper, lower⟩ m
      fun q => if q = target then upper else if q = target + 1 then lower else m q := by
  constructor
  · simp [LimbMem.at128]
  · intro a _ hout
    show (if a = target then upper else if a = target + 1 then lower else m a) = m a
    rw [if_neg (by omega), if_neg (by omega)]

/-- `clear128` puts 0 at its target. -/
theorem sat_clear128 (frame : Nat) :
    Sat (clear128 target) m (fun _ m' => Puts128 frame target ⟨0, 0⟩ m m') fun _ _ => False := by
  simp only [clear128, sat_bind, sat_write]
  exact puts128_of_writes _ _ _ 0 0

/-- The number that is copied may be the target. -/
theorem sat_copy128 (frame : Nat) (h : number + 1 ≠ target) :
    Sat (copy128 target number) m (fun _ m' => Puts128 frame target (m.at128 number) m m')
      fun _ _ => False := by
  simp only [copy128, sat_bind, sat_read, sat_write, upperP, lower128P, if_neg h]
  exact puts128_of_writes _ _ _ _ _

/-- `add128` puts the sum at a target apart from both summands. -/
theorem sat_add128 (frame : Nat) {number1 number2 : Nat} (h1 : Apart 2 number1 target)
    (h2 : Apart 2 number2 target) :
    Sat (add128 number1 number2 target) m
      (fun _ m' => Puts128 frame target (TscVee.add128 (m.at128 number1) (m.at128 number2)) m m')
      fun _ _ => False := by
  have h1' : number1 + 1 ≠ target := by unfold Apart at h1; omega
  have h2' : number2 + 1 ≠ target := by unfold Apart at h2; omega
  simp only [add128, sat_bind, sat_read, sat_write, upperP, lower128P, if_neg h1', if_neg h2']
  exact puts128_of_writes _ _ _ _ _

/-! The counts are compared and subtracted as `uint32_t`. -/

/-- The comparison `>=` with a constant, as one of numbers. -/
theorem ge_ofNat_iff (value : U32) {n : Nat} (hn : n < 2 ^ 32) :
    value ≥ BitVec.ofNat 32 n ↔ n ≤ value.toNat := by
  rw [ge_iff_le, BitVec.le_def, BitVec.toNat_ofNat, Nat.mod_eq_of_lt hn]

/-- The comparison `<` with a constant, as one of numbers. -/
theorem lt_ofNat_iff (value : U32) {n : Nat} (hn : n < 2 ^ 32) :
    value < BitVec.ofNat 32 n ↔ value.toNat < n := by
  rw [BitVec.lt_def, BitVec.toNat_ofNat, Nat.mod_eq_of_lt hn]

/-- The comparison `>` with a constant, as one of numbers. -/
theorem gt_ofNat_iff (value : U32) {n : Nat} (hn : n < 2 ^ 32) :
    value > BitVec.ofNat 32 n ↔ n < value.toNat := by
  rw [gt_iff_lt, BitVec.lt_def, BitVec.toNat_ofNat, Nat.mod_eq_of_lt hn]

/-- The comparison `==` with a constant, as one of numbers. -/
theorem eq_ofNat_iff (value : U32) {n : Nat} (hn : n < 2 ^ 32) :
    value = BitVec.ofNat 32 n ↔ value.toNat = n := by
  rw [← BitVec.toNat_inj, BitVec.toNat_ofNat, Nat.mod_eq_of_lt hn]

/-- A constant is subtracted from a count that is not below it. -/
theorem toNat_sub_ofNat {value : U32} {n : Nat} (h : n ≤ value.toNat) :
    (value - BitVec.ofNat 32 n).toNat = value.toNat - n := by
  have hvalue := value.isLt
  have hn : n % 2 ^ 32 = n := Nat.mod_eq_of_lt (by omega)
  rw [BitVec.toNat_sub, BitVec.toNat_ofNat, hn]
  omega

/-- A count is subtracted from a constant that is not below it. -/
theorem toNat_ofNat_sub {value : U32} {n : Nat} (hn : n < 2 ^ 32) (h : value.toNat ≤ n) :
    (BitVec.ofNat 32 n - value).toNat = n - value.toNat := by
  have hn' : n % 2 ^ 32 = n := Nat.mod_eq_of_lt hn
  rw [BitVec.toNat_sub, BitVec.toNat_ofNat, hn']
  omega

/-- `shiftl128` does what the function on numbers does, and shifts no limb too far. -/
theorem sat_shiftl128 (frame : Nat) (value : U32) (h : Apart 2 number target) :
    Sat (shiftl128 number value target) m
      (fun _ m' => Puts128 frame target (TscVee.shiftl128 (m.at128 number) value.toNat) m m')
      fun _ _ => False := by
  have hread : number + 1 ≠ target := by unfold Apart at h; omega
  unfold shiftl128 TscVee.shiftl128
  simp only [BitVec.ofNat_eq_ofNat, ge_ofNat_iff _ (show 128 < 2 ^ 32 by decide),
    eq_ofNat_iff _ (show 64 < 2 ^ 32 by decide), eq_ofNat_iff _ (show 0 < 2 ^ 32 by decide),
    lt_ofNat_iff _ (show 64 < 2 ^ 32 by decide), gt_ofNat_iff _ (show 64 < 2 ^ 32 by decide)]
  split
  -- 128 or more: cleared.
  case isTrue => exact sat_clear128 _
  case isFalse h128 =>
  split
  case isTrue =>
    simp only [sat_bind, sat_read, sat_write, lower128P, upperP]
    exact puts128_of_writes _ _ _ _ _
  case isFalse h64 =>
  split
  -- 0: copied.
  case isTrue => exact sat_copy128 _ hread
  case isFalse h0 =>
  split
  -- Below 64: the high bits of the lower limb are carried.
  case isTrue hlt =>
    have hcarried := toNat_ofNat_sub (by decide) hlt.le
    have hsmall : (64#32 - value).toNat < 64 := by omega
    simp only [sat_bind, sat_read, sat_write, lower128P, upperP, if_neg hread, sat_shl _ hlt,
      sat_shr _ hsmall, hcarried]
    exact puts128_of_writes _ _ _ _ _
  -- Above 64: only the lower limb is left.
  case isFalse hge =>
    have hrest : (value - 64#32).toNat = value.toNat - 64 := toNat_sub_ofNat (by omega)
    have hsmall : (value - 64#32).toNat < 64 := by omega
    have hinside : 128#32 > value ∧ 64 < value.toNat := by
      rw [gt_iff_lt, lt_ofNat_iff _ (by decide)]
      omega
    simp only [if_pos hinside, sat_bind, sat_read, sat_write, lower128P, upperP, sat_shl _ hsmall,
      hrest]
    exact puts128_of_writes _ _ _ _ _

/-- `shiftr128` as well. A count between 0 and 64 goes through the local variable, and the number
may be the target. -/
theorem sat_shiftr128 (value : U32) (htarget : target + 2 ≤ frame)
    (hnumber : number + 2 ≤ frame)
    (h : Apart 2 number target ∨ 0 < value.toNat ∧ value.toNat < 64) :
    Sat (shiftr128 frame number value target) m
      (fun _ m' => Puts128 frame target (TscVee.shiftr128 (m.at128 number) value.toNat) m m')
      fun _ _ => False := by
  unfold shiftr128 TscVee.shiftr128
  simp only [BitVec.ofNat_eq_ofNat, ge_ofNat_iff _ (show 128 < 2 ^ 32 by decide),
    eq_ofNat_iff _ (show 64 < 2 ^ 32 by decide), eq_ofNat_iff _ (show 0 < 2 ^ 32 by decide),
    lt_ofNat_iff _ (show 64 < 2 ^ 32 by decide), gt_ofNat_iff _ (show 64 < 2 ^ 32 by decide)]
  split
  case isTrue => exact sat_clear128 _
  case isFalse h128 =>
  split
  -- The upper limb moves down by a whole limb.
  case isTrue h64 =>
    have hread : number ≠ target := by unfold Apart at h; omega
    simp only [sat_bind, sat_read, sat_write, lower128P, upperP, if_neg hread]
    exact puts128_of_writes _ _ _ _ _
  case isFalse h64 =>
  split
  case isTrue h0 => exact sat_copy128 _ (by unfold Apart at h; omega)
  case isFalse h0 =>
  split
  -- The result is put in a local variable and copied from there, so that the target may be the
  -- number itself.
  case isTrue hlt =>
    have hcarried := toNat_ofNat_sub (by decide) hlt.le
    have hsmall : (64#32 - value).toNat < 64 := by omega
    have hupper : number ≠ frame := by omega
    have hlower : number + 1 ≠ frame := by omega
    simp only [sat_bind, sat_read, sat_write, lower128P, upperP, if_neg hupper, if_neg hlower,
      sat_shr _ hlt, sat_shl _ hsmall, hcarried]
    have hlocal := puts128_of_writes frame frame m
      (m number >>> value.toNat)
      (m number <<< (64 - value.toNat) + m (number + 1) >>> value.toNat)
    exact (sat_copy128 _ (by omega)).mono (fun _ _ hcopy =>
      .copied (hlocal.locals (le_refl _) (le_refl _)) hlocal.number hcopy) fun _ _ h => h
  -- The upper limb only is left, shifted by the rest.
  case isFalse hge =>
    have hrest : (value - 64#32).toNat = value.toNat - 64 := toNat_sub_ofNat (by omega)
    have hsmall : (value - 64#32).toNat < 64 := by omega
    have hinside : 128#32 > value ∧ 64 < value.toNat := by
      rw [gt_iff_lt, lt_ofNat_iff _ (by decide)]
      omega
    simp only [if_pos hinside, sat_bind, sat_read, sat_write, lower128P, upperP, sat_shr _ hsmall,
      hrest]
    exact puts128_of_writes_upper _ _ _ _ _

/-- One program behind the other. -/
theorem sat_then {f g : LimbProgram Unit} {P Q : LimbMem → Prop}
    (hf : Sat f m (fun _ m' => P m') fun _ _ => False)
    (hg : ∀ m', P m' → Sat g m' (fun _ m'' => Q m'') fun _ _ => False) :
    Sat (do f; g) m (fun _ m'' => Q m'') fun _ _ => False := by
  rw [sat_bind]
  exact hf.mono (fun _ m' h => hg m' h) fun _ _ h => h

/-- `clear256` puts 0 at its target. -/
theorem sat_clear256 (htarget : target + 4 ≤ frame) :
    Sat (clear256 target) m (fun _ m' => Puts256 frame target ⟨⟨0, 0⟩, ⟨0, 0⟩⟩ m m')
      fun _ _ => False :=
  sat_then (sat_clear128 frame) fun _ hupper =>
    (sat_clear128 frame).mono (fun _ _ hlower => hupper.trans_lower hlower htarget) fun _ _ h => h

/-- `copy256` puts the number at a target apart from it. -/
theorem sat_copy256 (htarget : target + 4 ≤ frame) (hnumber : number + 4 ≤ frame)
    (h : Apart 4 number target) :
    Sat (copy256 target number) m (fun _ m' => Puts256 frame target (m.at256 number) m m')
      fun _ _ => False := by
  unfold Apart at h
  refine sat_then (sat_copy128 frame (by unfold upperP; omega)) fun m₁ hupper => ?_
  refine (sat_copy128 frame (by unfold lower256P; omega)).mono (fun _ m₂ hlower => ?_) fun _ _ h => h
  -- The lower half is still there when it is copied.
  have hkept : m₁.at128 (lower256P number) = m.at128 (number + 2) :=
    hupper.at128 (by unfold lower256P; omega) (by unfold Apart lower256P upperP; omega)
  rw [hkept] at hlower
  exact hupper.trans_lower hlower htarget

/-- `shiftl256` does what the function on numbers does. A count between 0 and 128 goes through the
local variable. -/
theorem sat_shiftl256 (value : U32) (htarget : target + 4 ≤ frame) (hnumber : number + 4 ≤ frame)
    (h : Apart 4 number target) :
    Sat (shiftl256 frame number value target) m
      (fun _ m' => Puts256 frame target (TscVee.shiftl256 (m.at256 number) value.toNat) m m')
      fun _ _ => False := by
  unfold shiftl256 TscVee.shiftl256
  simp only [BitVec.ofNat_eq_ofNat, ge_ofNat_iff _ (show 256 < 2 ^ 32 by decide),
    eq_ofNat_iff _ (show 128 < 2 ^ 32 by decide), eq_ofNat_iff _ (show 0 < 2 ^ 32 by decide),
    lt_ofNat_iff _ (show 128 < 2 ^ 32 by decide), gt_ofNat_iff _ (show 128 < 2 ^ 32 by decide)]
  split
  case isTrue => exact sat_clear256 htarget
  case isFalse h256 =>
  split
  case isTrue =>
    unfold Apart at h
    exact sat_then (sat_copy128 frame (by unfold lower256P upperP; omega)) fun _ hupper =>
      (sat_clear128 frame).mono (fun _ _ hlower => hupper.trans_lower hlower htarget)
        fun _ _ h => h
  case isFalse h128 =>
  split
  case isTrue => exact sat_copy256 htarget hnumber h
  case isFalse h0 =>
  split
  case isTrue hlt =>
    have hcarried : (128#32 - value).toNat = 128 - value.toNat :=
      toNat_ofNat_sub (by decide) hlt.le
    -- Each step writes one of the local variables, and leaves the number and the others.
    refine sat_then (sat_shiftl128 (frame + 8) value (by unfold Apart upperP; omega))
      fun m₁ htmp1 => ?_
    refine sat_then (sat_shiftr128 (128#32 - value) (by omega) (by unfold lower256P; omega)
      (.inl (by unfold Apart lower256P; omega))) fun m₂ htmp2 => ?_
    refine sat_then (sat_add128 (frame + 8) (by unfold Apart upperP; omega)
      (by unfold Apart upperP; omega)) fun m₃ hupper => ?_
    refine sat_then (sat_shiftl128 (frame + 8) value (by unfold Apart lower256P; omega))
      fun m₄ hlower => ?_
    have hlocals1 : Locals frame m m₁ := htmp1.locals (by omega) (le_refl _)
    have hlocals2 : Locals frame m m₂ := hlocals1.trans (htmp2.locals (by omega) (by omega))
    have hlocals3 : Locals frame m m₃ :=
      hlocals2.trans (hupper.locals (by omega) (by unfold upperP; omega))
    have hlocals4 : Locals frame m m₄ :=
      hlocals3.trans (hlower.locals (by omega) (by unfold lower256P; omega))
    have hx : m₂.at128 frame = TscVee.shiftl128 (m.at128 number) value.toNat := by
      rw [htmp2.at128 (by omega) (.inl (le_refl _)), htmp1.number]
      rfl
    have hy : m₂.at128 (frame + 2) =
        TscVee.shiftr128 (m.at128 (number + 2)) (128 - value.toNat) := by
      rw [htmp2.number, hcarried, hlocals1.at128 (by unfold lower256P; omega)]
      rfl
    have hz : m₃.at128 (lower256P number) = m.at128 (number + 2) :=
      hlocals3.at128 (by unfold lower256P; omega)
    rw [hx, hy] at hupper
    rw [hz] at hlower
    have hresult := (hupper.trans_lower hlower (by unfold upperP; omega)).number
    exact (sat_copy256 (by omega) (by omega) (by unfold Apart; omega)).mono
      (fun _ _ hcopy => .copied hlocals4 hresult (hcopy.mono (Nat.le_add_right frame 8)))
      fun _ _ h => h
  case isFalse hge =>
    have hrest : (value - 128#32).toNat = value.toNat - 128 := toNat_sub_ofNat (by omega)
    have hinside : 256#32 > value ∧ 128 < value.toNat := by
      rw [gt_iff_lt, lt_ofNat_iff _ (by decide)]
      omega
    rw [if_pos hinside]
    unfold Apart at h
    refine sat_then (sat_shiftl128 frame _ (by unfold Apart lower256P upperP; omega))
      fun _ hupper => (sat_clear128 frame).mono (fun _ _ hlower => ?_) fun _ _ h => h
    rw [hrest] at hupper
    exact hupper.trans_lower hlower htarget

/-- `shiftr256` as well. A count between 0 and 128 goes through the local variables, and the number
may be the target. -/
theorem sat_shiftr256 (value : U32) (htarget : target + 4 ≤ frame) (hnumber : number + 4 ≤ frame)
    (h : Apart 4 number target ∨ 0 < value.toNat ∧ value.toNat < 128) :
    Sat (shiftr256 frame number value target) m
      (fun _ m' => Puts256 frame target (TscVee.shiftr256 (m.at256 number) value.toNat) m m')
      fun _ _ => False := by
  unfold shiftr256 TscVee.shiftr256
  simp only [BitVec.ofNat_eq_ofNat, ge_ofNat_iff _ (show 256 < 2 ^ 32 by decide),
    eq_ofNat_iff _ (show 128 < 2 ^ 32 by decide), eq_ofNat_iff _ (show 0 < 2 ^ 32 by decide),
    lt_ofNat_iff _ (show 128 < 2 ^ 32 by decide), gt_ofNat_iff _ (show 128 < 2 ^ 32 by decide)]
  unfold Apart at h
  split
  -- 256 or more: cleared.
  case isTrue => exact sat_clear256 htarget
  case isFalse h256 =>
  split
  case isTrue =>
    exact sat_then (sat_copy128 frame (by unfold lower256P upperP; omega)) fun _ hlower =>
      (sat_clear128 frame).mono (fun _ _ hupper => hlower.trans_upper hupper htarget)
        fun _ _ h => h
  case isFalse h128 =>
  split
  -- 0: copied.
  case isTrue => exact sat_copy256 htarget hnumber (by unfold Apart; omega)
  case isFalse h0 =>
  split
  -- Below 128: three shifts into locals, a sum, and the copy to the target.
  case isTrue hlt =>
    have hcarried : (128#32 - value).toNat = 128 - value.toNat :=
      toNat_ofNat_sub (by decide) hlt.le
    refine sat_then (sat_shiftr128 value (by unfold upperP; omega) (by unfold upperP; omega)
      (.inl (by unfold Apart upperP; omega))) fun m₁ hupper => ?_
    refine sat_then (sat_shiftr128 value (by omega) (by unfold lower256P; omega)
      (.inl (by unfold Apart lower256P; omega))) fun m₂ htmp1 => ?_
    refine sat_then (sat_shiftl128 (frame + 8) (128#32 - value) (by unfold Apart upperP; omega))
      fun m₃ htmp2 => ?_
    refine sat_then (sat_add128 (frame + 8) (by unfold Apart lower256P; omega)
      (by unfold Apart lower256P; omega)) fun m₄ hlower => ?_
    -- Each call writes from `frame` on only, so the operands stay as they are.
    have hlocals1 : Locals frame m m₁ := hupper.locals (by omega) (by unfold upperP; omega)
    have hlocals2 : Locals frame m m₂ := hlocals1.trans (htmp1.locals (by omega) (le_refl _))
    have hlocals3 : Locals frame m m₃ := hlocals2.trans (htmp2.locals (by omega) (by omega))
    have hlocals4 : Locals frame m m₄ :=
      hlocals3.trans (hlower.locals (by omega) (by unfold lower256P; omega))
    have hx : m₃.at128 frame = TscVee.shiftr128 (m.at128 (number + 2)) value.toNat := by
      rw [htmp2.at128 (by omega) (.inl (le_refl _)), htmp1.number,
        hlocals1.at128 (by unfold lower256P; omega)]
      rfl
    have hy : m₃.at128 (frame + 2) =
        TscVee.shiftl128 (m.at128 number) (128 - value.toNat) := by
      rw [htmp2.number, hcarried, hlocals2.at128 (by unfold upperP; omega)]
      rfl
    have hz : m₃.at128 (frame + 4) = TscVee.shiftr128 (m.at128 number) value.toNat := by
      rw [htmp2.at128 (by omega) (.inr (le_refl _)), htmp1.at128 (by omega) (.inr (by omega))]
      exact hupper.number
    rw [hx, hy] at hlower
    have hresult : m₄.at256 (frame + 4) =
        ⟨TscVee.shiftr128 (m.at128 number) value.toNat,
          TscVee.add128 (TscVee.shiftr128 (m.at128 (number + 2)) value.toNat)
            (TscVee.shiftl128 (m.at128 number) (128 - value.toNat))⟩ := by
      unfold LimbMem.at256
      rw [hlower.at128 (by omega) (.inl (le_refl _)), hz]
      exact congrArg _ hlower.number
    exact (sat_copy256 (by omega) (by omega) (by unfold Apart; omega)).mono
      (fun _ _ hcopy => .copied hlocals4 hresult (hcopy.mono (Nat.le_add_right frame 8)))
      fun _ _ h => h
  -- Above 128: only the upper half is left.
  case isFalse hge =>
    have hrest : (value - 128#32).toNat = value.toNat - 128 := toNat_sub_ofNat (by omega)
    have hinside : 256#32 > value ∧ 128 < value.toNat := by
      rw [gt_iff_lt, lt_ofNat_iff _ (by decide)]
      omega
    rw [if_pos hinside]
    refine sat_then (sat_shiftr128 _ (by unfold lower256P; omega) (by unfold upperP; omega)
      (.inl (by unfold Apart lower256P upperP; omega)))
      fun _ hlower => (sat_clear128 (frame + 8)).mono (fun _ _ hupper => ?_) fun _ _ h => h
    rw [hrest] at hlower
    exact (hlower.trans_upper hupper (by omega)).mono (Nat.le_add_right frame 8)

end

/-! ### What the shifts compute -/

/-- `shift` ends without a fault, whatever the number, the count and the memory are, and leaves the
number that `f` says in a target of `n` limbs apart from the source. The source and everything else
below the frame stays. -/
def Computes (n : Nat) (value : LimbMem → Nat → Nat)
    (shift : Nat → Nat → U32 → Nat → LimbProgram Unit) (f : Nat → Nat → Nat) : Prop :=
  ∀ (m : LimbMem) (frame number : Nat) (count : U32) (target : Nat),
    number + n ≤ frame → target + n ≤ frame → Apart n number target →
    ∃ m', shift frame number count target m = .ok () m' ∧
      value m' target = f (value m number) count.toNat ∧ Writes frame target n m m'

/-- With the count 1, `shift` leaves in the number itself what it leaves in another target. -/
def SameInPlace {α : Type} (n : Nat) (value : LimbMem → Nat → α)
    (shift : Nat → Nat → U32 → Nat → LimbProgram Unit) : Prop :=
  ∀ (m : LimbMem) (frame number target : Nat),
    number + n ≤ frame → target + n ≤ frame → Apart n number target →
    ∃ m₁ m₂, shift frame number 1 target m = .ok () m₁ ∧
      shift frame number 1 number m = .ok () m₂ ∧ value m₂ number = value m₁ target

/-- A shift that puts what the function on values gives computes what that function does to the
numbers. -/
theorem computes128 {shift : Nat → Nat → U32 → Nat → LimbProgram Unit}
    {g : Uint128 → Nat → Uint128} {f : Nat → Nat → Nat}
    (hshift : ∀ m frame number count target, number + 2 ≤ frame → target + 2 ≤ frame →
      Apart 2 number target → Sat (shift frame number count target) m
        (fun _ m' => Puts128 frame target (g (m.at128 number) count.toNat) m m') fun _ _ => False)
    (hg : ∀ x v, (g x v).toNat = f x.toNat v) :
    Computes 2 (fun m p => (m.at128 p).toNat) shift f := by
  intro m frame number count target hnumber htarget hapart
  obtain ⟨_, m', hrun, hputs⟩ :=
    (hshift m frame number count target hnumber htarget hapart).exists_ok
  refine ⟨m', hrun, ?_, hputs.others⟩
  show (m'.at128 target).toNat = _
  rw [hputs.number, hg]

/-- The same for four limbs. -/
theorem computes256 {shift : Nat → Nat → U32 → Nat → LimbProgram Unit}
    {g : Uint256 → Nat → Uint256} {f : Nat → Nat → Nat}
    (hshift : ∀ m frame number count target, number + 4 ≤ frame → target + 4 ≤ frame →
      Apart 4 number target → Sat (shift frame number count target) m
        (fun _ m' => Puts256 frame target (g (m.at256 number) count.toNat) m m') fun _ _ => False)
    (hg : ∀ x v, (g x v).toNat = f x.toNat v) :
    Computes 4 (fun m p => (m.at256 p).toNat) shift f := by
  intro m frame number count target hnumber htarget hapart
  obtain ⟨_, m', hrun, hputs⟩ :=
    (hshift m frame number count target hnumber htarget hapart).exists_ok
  refine ⟨m', hrun, ?_, hputs.others⟩
  show (m'.at256 target).toNat = _
  rw [hputs.number, hg]

/-- The shift by 1 to the right may write the number that it reads. -/
theorem sameInPlace128 : SameInPlace 2 LimbMem.at128 shiftr128 := by
  intro m frame number target hnumber htarget hapart
  have hone : 0 < (1 : U32).toNat ∧ (1 : U32).toNat < 64 := by decide
  obtain ⟨_, m₁, hrun₁, hputs₁⟩ :=
    (sat_shiftr128 (m := m) 1 htarget hnumber (.inl hapart)).exists_ok
  obtain ⟨_, m₂, hrun₂, hputs₂⟩ :=
    (sat_shiftr128 (m := m) 1 hnumber hnumber (.inr hone)).exists_ok
  exact ⟨m₁, m₂, hrun₁, hrun₂, hputs₂.number.trans hputs₁.number.symm⟩

/-- The same for four limbs. -/
theorem sameInPlace256 : SameInPlace 4 LimbMem.at256 shiftr256 := by
  intro m frame number target hnumber htarget hapart
  have hone : 0 < (1 : U32).toNat ∧ (1 : U32).toNat < 128 := by decide
  obtain ⟨_, m₁, hrun₁, hputs₁⟩ :=
    (sat_shiftr256 (m := m) 1 htarget hnumber (.inl hapart)).exists_ok
  obtain ⟨_, m₂, hrun₂, hputs₂⟩ :=
    (sat_shiftr256 (m := m) 1 hnumber hnumber (.inr hone)).exists_ok
  exact ⟨m₁, m₂, hrun₁, hrun₂, hputs₂.number.trans hputs₁.number.symm⟩

/-- The shifts compute the product and the quotient by the power of two, for every count of 32 bits,
and shift no limb by 64 or more. The shifts by 1 of `bits256`, `divmod128` and `divmod256`, which
write the number that they read, give the same result. -/
theorem shifts_compute :
    Computes 4 (fun m p => (m.at256 p).toNat) shiftl256 (fun x v => x * 2 ^ v % 2 ^ 256) ∧
    Computes 4 (fun m p => (m.at256 p).toNat) shiftr256 (fun x v => x / 2 ^ v) ∧
    Computes 2 (fun m p => (m.at128 p).toNat) (fun _ => shiftl128)
      (fun x v => x * 2 ^ v % 2 ^ 128) ∧
    Computes 2 (fun m p => (m.at128 p).toNat) shiftr128 (fun x v => x / 2 ^ v) ∧
    SameInPlace 2 LimbMem.at128 shiftr128 ∧ SameInPlace 4 LimbMem.at256 shiftr256 := by
  refine ⟨computes256 (fun _ _ _ _ _ hnumber htarget hapart => ?_) shiftl256_toNat,
    computes256 (fun _ _ _ _ _ hnumber htarget hapart => ?_) shiftr256_toNat,
    computes128 (fun _ _ _ _ _ _ _ hapart => ?_) shiftl128_toNat,
    computes128 (fun _ _ _ _ _ hnumber htarget hapart => ?_) shiftr128_toNat,
    sameInPlace128, sameInPlace256⟩
  · exact sat_shiftl256 _ htarget hnumber hapart
  · exact sat_shiftr256 _ htarget hnumber (.inl hapart)
  · exact sat_shiftl128 _ _ hapart
  · exact sat_shiftr128 _ htarget hnumber (.inl hapart)

/-- In place, a shift by 64 would clear the limb before it is read. -/
example : ∃ m', shiftr128 8 0 64 0 (fun _ => 1) = .ok () m' ∧
    m'.at128 0 ≠ TscVee.shiftr128 ⟨1, 1⟩ 64 := ⟨_, rfl, by decide⟩

end LimbProgram

end TscVee
