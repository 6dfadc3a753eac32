import TscVee.Proofs.Control
import TscVee.Proofs.Words

/-!
# `TscVee.Proofs.JumpTarget`: which destinations `JUMP` and `JUMPI` accept

The functions look up the low 32 bits of the destination word, read as an `int`.

* `JumpRule`: a jump to a number should reach the `BEGINBLOCK` of the `JUMPDEST` at this offset, and
  end with a bad destination where there is none.
* `sat_jumpTo`: what a jump does, in terms of the `int` that it looks up.
* `jump_iff`: it follows the rule just where that `int` is the offset of no valid `JUMPDEST`, or is
  the destination itself.
-/

set_option autoImplicit false

namespace TscVee

open TscVee.Core Exec Lib

/-- The block that starts at `p` lies in the instruction table of a code of `int` length. -/
theorem BlockStart.lt {code : List Byte} {p i : Nat} (hlen : code.length < 2 ^ 31)
    (h : BlockStart code p i) : i < 2 ^ 32 := by
  obtain ⟨before, block, after, op, heq, -, rfl⟩ := h
  have hall := layoutSize_blocks_le (decode code)
  have hdecode := decode_length code
  rw [heq] at hall
  simp only [layoutSize, List.map_append, List.sum_append, List.map_cons, List.sum_cons] at hall
  have hblock : 0 < blockSize (op :: block) := by unfold blockSize; omega
  show layoutSize before < 2 ^ 32
  unfold layoutSize
  omega

section
variable [Env]

/-- A jump to the number `d` reaches the `BEGINBLOCK` of the `JUMPDEST` at the offset `d`, or ends
with a bad destination when no valid `JUMPDEST` is there. -/
def JumpRule (code : List Byte) (analysis : CodeAnalysis) (d : Nat) (x : Exec (Option Nat))
    (s : AdvancedExecutionState) : Prop :=
  Sat x s
    (fun next s' =>
      (ValidJumpdest code d ∧ ∃ i, next = some i ∧ BlockStart code d i ∧
        analysis.instrs[i]?.bind Instruction.fn = some .opxBeginblock) ∨
      (¬ ValidJumpdest code d ∧ next = none ∧ s'.handed = some .badJumpDestination))
    fun _ _ => False

/-- The `int` that is looked up for the word `d` is the offset of no valid `JUMPDEST`, or `d` is
that offset and the `BEGINBLOCK` there has an index below `2 ^ 31`, or `d` is something else and
the index is too large for the jump table. -/
def LookupFits (code : List Byte) (d : Uint256) : Prop :=
  ∀ p i : Nat, ValidJumpdest code p → BlockStart code p i → toInt32 d.low = p →
    (d.toNat = p ↔ i < 2 ^ 31)

variable {rev : Revision} {code : List Byte} {s : AdvancedExecutionState}

omit [Env] in
/-- The number of a word that is a position in the code is not changed by the narrowing. -/
theorem toInt32_low_of_lt {d : Uint256} (h : d.toNat < 2 ^ 31) : toInt32 d.low = d.toNat := by
  rw [low_eq_toNat (by omega)]
  exact toInt32_of_lt h

variable (rev) in
/-- What the lookup says about the destination `d`. -/
theorem lookupFits_iff (hlen : code.length < 2 ^ 31) (d : Uint256) :
    let pc := findJumpdest (analyzeCode rev code) (toInt32 d.low)
    LookupFits code d ↔
      (pc < 0 → ¬ ValidJumpdest code d.toNat) ∧
      (0 ≤ pc → ValidJumpdest code d.toNat ∧ BlockStart code d.toNat pc.toNat) := by
  intro pc
  -- A valid destination is below `2 ^ 31`, so that narrowing it to `int` keeps it.
  have hpos : ValidJumpdest code d.toNat → toInt32 d.low = d.toNat := fun hd =>
    toInt32_low_of_lt (lt_trans hd.lt_length hlen)
  by_cases hfound : ∃ p : Nat, toInt32 d.low = p ∧ ValidJumpdest code p
  · -- The lookup finds the block of the `JUMPDEST` at `p`, with its index as an `int`.
    obtain ⟨p, hp, hvalid⟩ := hfound
    obtain ⟨i, hi⟩ := hvalid.exists_blockStart
    have hpc : pc = toInt32 i := by
      show findJumpdest _ _ = _
      rw [hp, findJumpdest_jumpdest rev hlen hvalid hi]
    have hsame : ValidJumpdest code d.toNat → d.toNat = p := fun hd => by
      have := hpos hd
      omega
    have hfits : LookupFits code d ↔ (d.toNat = p ↔ i < 2 ^ 31) := by
      constructor
      · intro h
        exact h p i hvalid hi hp
      · intro h q j hq hj hlow
        have hqp : q = p := by omega
        subst hqp
        rw [hj.unique hvalid hi]
        exact h
    rw [hfits]
    by_cases hsmall : i < 2 ^ 31
    · have hnonneg : pc = i := by rw [hpc, toInt32_of_lt hsmall]
      constructor
      · intro h
        have hd := h.2 hsmall
        refine ⟨fun hneg => by omega, fun _ => ?_⟩
        rw [hd, hnonneg]
        exact ⟨hvalid, hi⟩
      · intro h
        exact ⟨fun _ => hsmall, fun _ => hsame (h.2 (by omega)).1⟩
    · -- An index that the table cannot hold is negative there.
      have hneg : pc < 0 := by
        have hlt := hi.lt hlen
        by_contra hnot
        have := toInt32_of_nonneg hlt (by omega)
        have := toInt32_lt i
        omega
      constructor
      · intro h
        refine ⟨fun _ hd => hsmall (h.1 (hsame hd)), fun hge => by omega⟩
      · intro h
        refine ⟨fun hd => ?_, fun hi => absurd hi hsmall⟩
        rw [hd] at h
        exact absurd hvalid (h.1 hneg)
  -- The lookup finds nothing: the operand is no valid destination, not even narrowed.
  · have hpc : pc = -1 := findJumpdest_invalid rev hlen hfound
    constructor
    · intro _
      refine ⟨fun _ hd => hfound ⟨_, hpos hd, hd⟩, fun hge => by omega⟩
    · intro _ p i hp _ hlow
      exact absurd ⟨p, hlow, hp⟩ hfound

/-- A jump whose operand is on the stack ends with a bad destination, or goes on where the lookup
says. -/
theorem sat_jumpTo (hlen : code.length < 2 ^ 31) (htop : inStackSpace s.topItem)
    {Q : Option Nat → AdvancedExecutionState → Prop} {E : Fault → AdvancedExecutionState → Prop} :
    Sat (opJump (analyzeCode rev code)) s Q E ↔
      (findJumpdest (analyzeCode rev code) (toInt32 (s.estate.stackSpace s.topItem).low) < 0 →
        Q none { s with topItem := s.topItem - 1, handed := some .badJumpDestination }) ∧
      (0 ≤ findJumpdest (analyzeCode rev code) (toInt32 (s.estate.stackSpace s.topItem).low) →
        Q (some (findJumpdest (analyzeCode rev code)
            (toInt32 (s.estate.stackSpace s.topItem).low)).toNat)
          { s with topItem := s.topItem - 1 }) := by
  unfold opJump
  simp only [sat_bind, sat_stackPop, if_pos htop, sat_ite, sat_exit, sat_throw, sat_pure]
  generalize hpc : findJumpdest (analyzeCode rev code) _ = pc
  have hin : 0 ≤ pc → pc.toNat < (analyzeCode rev code).instrs.length := fun hge => by
    have hbegin := findJumpdest_beginblock rev hlen (j := pc.toNat) (hpc.trans (by omega))
    obtain ⟨ins, hins, -⟩ := Option.bind_eq_some_iff.1 hbegin
    exact (List.getElem?_eq_some_iff.1 hins).1
  constructor
  · rintro ⟨hneg, hpos⟩
    exact ⟨hneg, fun hge => (hpos (by omega)).2 (by simpa using hin hge)⟩
  · rintro ⟨hneg, hpos⟩
    exact ⟨hneg, fun hnot => ⟨fun hout => absurd (hin (by omega)) hout, fun _ => hpos (by omega)⟩⟩

/-- A jump that has ended so has followed the rule just where the lookup fits. -/
theorem jumpRule_iff (hlen : code.length < 2 ^ 31) {d : Uint256} {x : Exec (Option Nat)}
    (bad next : AdvancedExecutionState) (hbad : bad.handed = some .badJumpDestination)
    (hx : ∀ Q E, Sat x s Q E ↔
      (findJumpdest (analyzeCode rev code) (toInt32 d.low) < 0 → Q none bad) ∧
      (0 ≤ findJumpdest (analyzeCode rev code) (toInt32 d.low) →
        Q (some (findJumpdest (analyzeCode rev code) (toInt32 d.low)).toNat) next)) :
    JumpRule code (analyzeCode rev code) d.toNat x s ↔ LookupFits code d := by
  have hfits := lookupFits_iff rev hlen d
  simp only at hfits
  unfold JumpRule
  rw [hx, hfits]
  generalize hpc : findJumpdest (analyzeCode rev code) (toInt32 d.low) = pc
  constructor
  -- The rule: what the step does in each case of the lookup.
  · rintro ⟨hneg, hpos⟩
    refine ⟨fun h => ?_, fun h => ?_⟩
    · rcases hneg h with ⟨_, i, hnone, _⟩ | ⟨hinvalid, _⟩
      · cases hnone
      · exact hinvalid
    · rcases hpos h with ⟨hvalid, i, hsome, hi, _⟩ | ⟨_, hsome, _⟩
      · cases hsome
        exact ⟨hvalid, hi⟩
      · cases hsome
  · rintro ⟨hneg, hpos⟩
    refine ⟨fun h => .inr ⟨hneg h, rfl, hbad⟩, fun h => .inl ⟨(hpos h).1, _, rfl, (hpos h).2, ?_⟩⟩
    exact findJumpdest_beginblock rev hlen (by rw [hpc]; omega)

/-- JUMP keeps the rule exactly when the lookup of its operand does. -/
theorem jumpRule_opJump (hlen : code.length < 2 ^ 31) (htop : inStackSpace s.topItem) :
    JumpRule code (analyzeCode rev code) (s.estate.stackSpace s.topItem).toNat
        (opJump (analyzeCode rev code)) s ↔
      LookupFits code (s.estate.stackSpace s.topItem) :=
  jumpRule_iff hlen _ _ rfl fun _ _ => sat_jumpTo hlen htop

/-- `JUMPI` with a condition other than zero is a jump that pops one more item. -/
theorem jumpRule_opJumpi (hlen : code.length < 2 ^ 31) (instr : Nat) (htop : inStackSpace s.topItem)
    (hsecond : inStackSpace (s.topItem - 1))
    (hcond : zero256 (s.estate.stackSpace (s.topItem - 1)) = false) :
    JumpRule code (analyzeCode rev code) (s.estate.stackSpace s.topItem).toNat
        (opJumpi (analyzeCode rev code) instr) s ↔
      LookupFits code (s.estate.stackSpace s.topItem) := by
  refine jumpRule_iff hlen
    { s with topItem := s.topItem - 1 - 1, handed := some .badJumpDestination }
    { s with topItem := s.topItem - 1 - 1 } rfl fun Q E => ?_
  unfold opJumpi
  have htaken : (!zero256 (s.estate.stackSpace (s.topItem - 1))) = true := by rw [hcond]; rfl
  simp only [sat_bind, sat_stackGet, if_pos hsecond, if_pos htaken]
  rw [sat_jumpTo hlen htop]
  simp only [sat_stackPop, if_pos hsecond, sat_pure]

/-- In a state whose operands are on the stack, `JUMP`, and `JUMPI` with a condition other than
zero, follow the rule for the full destination word just where its low 32 bits, read as an `int`,
fit. -/
theorem jump_iff (rev : Revision) {code : List Byte} (hlen : code.length < 2 ^ 31 - 1) :
    ∃ analysis, analyze rev code = .ok analysis ∧
      ∀ (s : AdvancedExecutionState) (instr : Nat) (arg : InstructionArgument),
        inStackSpace s.topItem →
          (JumpRule code analysis (s.estate.stackSpace s.topItem).toNat
              (InstrFn.opJump.call analysis instr arg) s ↔
            LookupFits code (s.estate.stackSpace s.topItem)) ∧
          (inStackSpace (s.topItem - 1) → zero256 (s.estate.stackSpace (s.topItem - 1)) = false →
            (JumpRule code analysis (s.estate.stackSpace s.topItem).toNat
                (InstrFn.opJumpi.call analysis instr arg) s ↔
              LookupFits code (s.estate.stackSpace s.topItem))) := by
  have hlen' : code.length < 2 ^ 31 := by omega
  refine ⟨analyzeCode rev code, analyze_eq rev hlen, fun s instr arg htop => ⟨?_, ?_⟩⟩
  · exact jumpRule_opJump hlen' htop
  · intro hsecond hcond
    exact jumpRule_opJumpi hlen' instr htop hsecond hcond

end

/-! ### A code with one `JUMPDEST` -/

/-- `PUSH5 0x0100000007 JUMP JUMPDEST`: the `JUMPDEST` is at the offset 7. -/
def wideJump : List Byte := [0x64, 0x01, 0x00, 0x00, 0x00, 0x07, 0x56, 0x5b]

/-- The `JUMPDEST` starts the second block, behind three instructions. -/
theorem wideJump_start : ValidJumpdest wideJump 7 ∧ BlockStart wideJump 7 3 :=
  ⟨validJumpdest_iff.2 ⟨⟨7, .jumpdest, []⟩, by decide, rfl, rfl⟩,
    [[⟨0, 0x64, [0x01, 0x00, 0x00, 0x00, 0x07]⟩, ⟨6, .jump, []⟩]], [], [], ⟨7, .jumpdest, []⟩,
      by decide, rfl, by decide⟩

/-- A state of `wideJump` with the word in the two topmost slots. -/
def wideJumpState (d : U64) : AdvancedExecutionState :=
  let _ : Env := Env.zeroed
  let s := initialState .london (mockedHostInit default) { (default : Message) with gas := 1000 }
    wideJump
  { s with
    topItem := 1
    estate := { s.estate with stackSpace := fun _ => .ofU64 d } }

/-- The jumps to 7. -/
theorem jump_iff_seven :
    ∃ analysis, @analyze Env.zeroed .london wideJump = .ok analysis ∧
      JumpRule wideJump analysis 7 (@InstrFn.call Env.zeroed analysis 2 .uninit .opJump)
        (wideJumpState 7) ∧
      JumpRule wideJump analysis 7 (@InstrFn.call Env.zeroed analysis 2 .uninit .opJumpi)
        (wideJumpState 7) := by
  obtain ⟨analysis, hanalyze, h⟩ := @jump_iff Env.zeroed .london wideJump (by decide)
  obtain ⟨hjump, hjumpi⟩ := h (wideJumpState 7) 2 .uninit (by decide)
  -- Only 7 itself has these low bits among the offsets, and its block has a small index.
  have hfits : LookupFits wideJump (.ofU64 7) := by
    intro p i hp hi hlow
    have hseven : p = 7 := by
      have : toInt32 (Uint256.ofU64 7).low = 7 := by decide
      omega
    subst hseven
    rw [hi.unique hp wideJump_start.2]
    decide
  exact ⟨analysis, hanalyze, hjump.2 hfits, (hjumpi (by decide) (by decide)).2 hfits⟩

/-- The jump to `2 ^ 32 + 7` goes on at the `JUMPDEST`, although the destination is not its
offset. -/
theorem jump_iff_wide :
    ∃ analysis, @analyze Env.zeroed .london wideJump = .ok analysis ∧
      inStackSpace (wideJumpState 0x100000007).topItem ∧
      ¬ JumpRule wideJump analysis 0x100000007
        (@InstrFn.call Env.zeroed analysis 2 .uninit .opJump) (wideJumpState 0x100000007) := by
  let _ : Env := Env.zeroed
  refine ⟨_, analyze_eq .london (by decide), by decide, fun hrule => ?_⟩
  have hfits := (@jumpRule_opJump Env.zeroed .london wideJump (wideJumpState 0x100000007)
    (by decide) (by decide)).1 hrule
  have hsame := (hfits 7 3 wideJump_start.1 wideJump_start.2 (by decide)).2 (by decide)
  exact absurd hsame (by decide)

end TscVee
