import TscVee.Proofs.BlockSound

/-!
# `TscVee.Proofs.Doomed`: blocks that the naive interpreter does not get through

When the check at the start of a block fails, the source ends the run there, and the naive
interpreter goes on inside the block. It cannot get through: the gas does not last to the end of the
block, one of the operations is undefined, or the stack has too few items or too many.

* `naiveCall_goes`: what an operation does that goes on; `naiveCall_kept`: what one keeps that ends
  the run with its gas.
* `Hopeless`: the rest of a block that the gas and the stack do not suffice for.
* `Doomed.step`, `Doomed.not_ends`: such a place is left to another one, and no run ends there with
  its gas.
-/

set_option autoImplicit false
set_option maxRecDepth 8000

namespace TscVee

open TscVee.Core Exec Lib

variable {code : List Byte}

/-- What the naive interpreter does at an operation that it goes on behind. -/
structure NaiveGoes (rev : Revision) [Env] (op : Op) (p' : Nat) (n n' : AdvancedExecutionState) :
    Prop where
  defined : gasCosts rev op.opcode ≠ -1
  passes : Passes (opcodeInfo rev op.opcode) n
  healthy : Healthy n'
  kept : Kept n.estate n'.estate
  falls : FairCalls n'.estate →
    n'.estate.gasLeft ≤ n.estate.gasLeft - (opcodeInfo rev op.opcode).gasCost
  height : n'.stackSize = n.stackSize + (opcodeInfo rev op.opcode).stackChange
  place : p' = op.pos + 1 + immSize op.opcode ∨ isTerminator op.opcode = true

section
variable [Env] {rev : Revision} {op : Op} {p p' : Nat} {n n' : AdvancedExecutionState}
  {fn : InstrFn} {analysis : CodeAnalysis} {instr j : Nat} {arg : InstructionArgument}
  {s s' : AdvancedExecutionState} {next : Option Nat}

/-- Only the jumps go on elsewhere than at the next instruction. -/
theorem InstrFn.next_or_jump (h : fn.shape.Continues analysis instr (some j)) :
    j = instr + 1 ∨ fn = .opJump ∨ fn = .opJumpi := by
  cases fn with
  | opJump => exact .inr (.inl rfl)
  | opJumpi => exact .inr (.inr rfl)
  | opStop | opReturn | opRevert | opInvalid | opSelfdestruct | opUndefined => exact absurd h id
  | _ => exact .inl h

omit [Env] in
/-- A charge that the gas is enough for keeps a state healthy. -/
theorem Healthy.charged (hs : Healthy s) {cost : Int} (h : 0 ≤ s.estate.gasLeft - cost) :
    Healthy (s.charged cost) := ⟨hs.stack.same rfl rfl, h, hs.size⟩

/-- One operation, when the run goes on. -/
theorem naiveCall_goes (hat : opAt code p = some op) (hs : Healthy n)
    (h : naiveCall rev code p n = .ok (some p') n') : NaiveGoes rev op p' n n' := by
  have hgood : GoodEnd (some p') n' := .inl (Option.some_ne_none _)
  cases hop : op.isJumpdest with
  | true =>
      obtain ⟨hpasses, hnext, rfl⟩ := (naiveCall_jumpdest hat hop hgood).1 h
      have hopcode : op.opcode = .jumpdest := eq_of_beq hop
      refine ⟨?_, hpasses, hs.charged hpasses.gas, .gas _ _, fun _ => le_refl _, ?_, .inl ?_⟩
      · rw [hopcode, gasCosts_jumpdest]
        decide
      · rw [hopcode, opcodeInfo_jumpdest]
        exact (Int.add_zero _).symm
      · rw [hopcode, immSize_jumpdest]
        exact Option.some.inj hnext
  | false =>
      rcases opcodeInfo_cases rev op.opcode with ⟨fn, hdef⟩ | hundef
      case inr => exact absurd h (not_naiveCall_undefined hat hop hundef hgood)
      obtain ⟨hpasses, next, hcall, hnext⟩ := (naiveCall_op hat hop hdef hgood).1 h
      obtain ⟨j, rfl⟩ : ∃ j, next = some j := by
        cases next with
        | none => cases hnext
        | some j => exact ⟨j, rfl⟩
      have hp' : p' = j + immSize op.opcode := Option.some.inj hnext
      have hbegin : fn ≠ .opxBeginblock := hdef.ne_beginblock fun heq => by
        rw [Op.isJumpdest, heq] at hop
        cases hop
      have hitems := hpasses.items
      have hroom := hpasses.room
      rw [hdef.info] at hitems hroom
      obtain ⟨hgoes, hcontinues⟩ := hdef.goesOn hbegin (hs.charged hpasses.gas) hitems hroom
        (fun number hfn harg => by
          -- The stored cost is 0, and no block has been charged.
          subst hfn
          have hzero := (naiveArg_stores code (storesGasCost_of_mem _ hdef.mem) 0).2
          rw [hzero] at harg
          cases harg
          exact Int.natCast_nonneg _) hcall
      refine ⟨hdef.gasCosts_ne, hpasses, hgoes.healthy, (Kept.gas _ _).trans hgoes.kept,
        hgoes.falls, ?_, ?_⟩
      · rw [hdef.info]
        exact hgoes.height
      · rcases InstrFn.next_or_jump hcontinues with rfl | hjump
        · exact .inl hp'
        · exact .inr (jump_of_mem (op.opcode, fn) hdef.mem hjump).1

/-- A function that ends the run with its gas. -/
theorem InstrFn.call_endsKept (hdup : fn ≠ .opDup 0)
    (h : fn.call analysis instr arg s = .ok none s') (hends : EndsWell none s') :
    fn.endsRun ∧ Kept s.estate s'.estate := by
  obtain ⟨hfn, -⟩ : fn.endsRun ∧ fn.call analysis instr arg (s.moved 0 0) =
      .ok none (s'.moved 0 0) := InstrFn.call_endsWell hdup h hends
  refine ⟨hfn, ?_⟩
  obtain ⟨body, hshape⟩ : ∃ body, fn.shape = .terminate body := by
    rcases hfn with rfl | rfl | rfl | rfl <;> exact ⟨_, rfl⟩
  rw [InstrFn.call_eq, hshape] at h
  have hbody : RunsTo (Kept s.estate) (body s.topItem) s.estate :=
    (InstrFn.terminates hdup hshape).mono fun _ hk => hk.1
  have hsat : Sat (opTerminate body) s (fun next s' => EndsWell next s' → Kept s.estate s'.estate)
      fun _ _ => True := by
    rw [sat_opTerminate]
    refine Sat.mono hbody (fun status estate hk _ => hk) fun e estate hearly => ?_
    cases e with
    | ret status =>
        -- The statuses of the checks do not keep the gas.
        intro hwell
        exact absurd hwell (not_endsWell_exit status (hearly status rfl).not_keepsGas rfl)
    | fault f => trivial
  exact hsat.of_ok h hends

/-- One operation that ends the run with its gas. -/
structure NaiveEnds (rev : Revision) (op : Op) (n n' : AdvancedExecutionState) : Prop where
  defined : gasCosts rev op.opcode ≠ -1
  passes : Passes (opcodeInfo rev op.opcode) n
  kept : Kept n.estate n'.estate
  place : isTerminator op.opcode = true

/-- A call that ends the run well is one of the terminating instructions. -/
theorem naiveCall_ends (hat : opAt code p = some op)
    (h : naiveCall rev code p n = .ok none n') (hends : EndsWell none n') :
    NaiveEnds rev op n n' := by
  have hgood : GoodEnd none n' := .inr hends
  cases hop : op.isJumpdest with
  | true =>
      obtain ⟨-, hnext, -⟩ := (naiveCall_jumpdest hat hop hgood).1 h
      cases hnext
  | false =>
      rcases opcodeInfo_cases rev op.opcode with ⟨fn, hdef⟩ | hundef
      case inr => exact absurd h (not_naiveCall_undefined hat hop hundef hgood)
      obtain ⟨hpasses, next, hcall, hnext⟩ := (naiveCall_op hat hop hdef hgood).1 h
      obtain rfl : next = none := by
        cases next with
        | none => rfl
        | some j => cases hnext
      obtain ⟨hfn, hkept⟩ := InstrFn.call_endsKept hdef.ne_dup_zero hcall hends
      exact ⟨hdef.gasCosts_ne, hpasses, (Kept.gas _ _).trans hkept,
        endsRun_of_mem (op.opcode, fn) hdef.mem hfn⟩

/-- Behind the code stands a `STOP`. -/
theorem naiveCall_stop (hat : opAt code p = none) :
    naiveCall rev code p n = .ok none { n with handed := some .success } := by
  unfold naiveCall
  rw [hat]
  rfl

/-- What a call keeps that does not fail. -/
theorem naiveCall_kept (hs : Healthy n) (h : naiveCall rev code p n = .ok next n')
    (hgood : GoodEnd next n') : Kept n.estate n'.estate := by
  cases hat : opAt code p with
  | none =>
      rw [naiveCall_stop hat] at h
      cases h
      exact .refl _
  | some op =>
      cases next with
      | some p' => exact (naiveCall_goes hat hs h).kept
      | none => exact (naiveCall_ends hat h (hgood.resolve_left fun hne => hne rfl)).kept

/-! ### The rest of a block -/

variable (rev) in
/-- The gas or the stack do not suffice for the operations, or one of them is undefined. -/
def Hopeless (ops : List Op) (gas height : Int) : Prop :=
  gas < totalCost (contributions rev ops) ∨ (∃ op ∈ ops, gasCosts rev op.opcode = -1) ∨
    Underflows (contributions rev ops) height ∨ Overflows (contributions rev ops) height

variable {ops rest : List Op} {gas gas' height : Int}

omit [Env] in
/-- Behind the last operation there is nothing left to pay. -/
theorem not_hopeless_nil (h : 0 ≤ gas) : ¬ Hopeless rev [] gas height := by
  rintro (hgas | ⟨op, hop, -⟩ | hitems | hroom)
  · exact absurd hgas (not_lt.2 h)
  · cases hop
  · exact hitems
  · exact hroom

/-- An operation that has been done leaves the rest hopeless. -/
theorem Hopeless.tail (h : Hopeless rev (op :: rest) gas height)
    (hdefined : gasCosts rev op.opcode ≠ -1)
    (hgas : gas' ≤ gas - (opcodeInfo rev op.opcode).gasCost)
    (hitems : (opcodeInfo rev op.opcode).stackReq ≤ height)
    (hroom : height + (opcodeInfo rev op.opcode).stackChange ≤ 1024) :
    Hopeless rev rest gas' (height + (opcodeInfo rev op.opcode).stackChange) := by
  obtain ⟨hcost, hreq, hchange⟩ := contributes_of_defined hdefined
  rw [hcost] at hgas
  rw [hreq] at hitems
  rw [hchange] at hroom ⊢
  rcases h with hlow | ⟨bad, hbad, hundef⟩ | hunder | hover
  · rw [totalCost_cons] at hlow
    exact .inl (by omega)
  · rcases List.mem_cons.1 hbad with rfl | hbad
    · exact absurd hundef hdefined
    · exact .inr (.inl ⟨bad, hbad, hundef⟩)
  · exact .inr (.inr (.inl (hunder.resolve_left (not_lt.2 hitems))))
  · exact .inr (.inr (.inr (hover.resolve_left (not_lt.2 hroom))))

variable (rev) in
/-- A place of the naive interpreter that it does not get through. -/
def Doomed (code : List Byte) (p : Nat) (n : AdvancedExecutionState) : Prop :=
  ∃ before done ops after, blocks (decode code) = before ++ (done ++ ops) :: after ∧
    Faces code p (ops ++ after.flatten) ∧ Hopeless rev ops n.estate.gasLeft n.stackSize

omit [Env] in
/-- A hopeless rest has an operation. -/
theorem Doomed.exists_cons (h : Doomed rev code p n) (hs : Healthy n) :
    ∃ before done op rest after, blocks (decode code) = before ++ (done ++ op :: rest) :: after ∧
      Faces code p (op :: rest ++ after.flatten) ∧
      Hopeless rev (op :: rest) n.estate.gasLeft n.stackSize := by
  obtain ⟨before, done, ops, after, hblocks, hfaces, hopeless⟩ := h
  cases ops with
  | nil => exact absurd hopeless (not_hopeless_nil hs.nonneg)
  | cons op rest => exact ⟨before, done, op, rest, after, hblocks, hfaces, hopeless⟩

/-- The last operation of a block leaves nothing hopeless behind. -/
theorem not_hopeless_terminator {before after : List (List Op)} {done : List Op}
    (hblocks : blocks (decode code) = before ++ (done ++ op :: rest) :: after)
    (hop : isTerminator op.opcode = true) (hdefined : gasCosts rev op.opcode ≠ -1)
    (hpasses : Passes (opcodeInfo rev op.opcode) n) :
    ¬ Hopeless rev (op :: rest) n.estate.gasLeft n.stackSize := by
  intro h
  have hmem : done ++ op :: rest ∈ blocks (decode code) := by
    rw [hblocks]
    simp
  obtain rfl := blocks_terminator hmem rfl hop
  exact not_hopeless_nil hpasses.gas (h.tail hdefined (le_refl _) hpasses.items hpasses.room)

/-- From a doomed place the naive interpreter only comes to another one. -/
theorem Doomed.step (h : Doomed rev code p n) (hs : Healthy n)
    (hcall : naiveCall rev code p n = .ok (some p') n') (hfair : FairCalls n'.estate) :
    Doomed rev code p' n' := by
  obtain ⟨before, done, op, rest, after, hblocks, hfaces, hopeless⟩ := h.exists_cons hs
  have hgoes := naiveCall_goes hfaces.opAt hs hcall
  have hpos : op.pos = p := hfaces.head op _ rfl
  rcases hgoes.place with hp' | hterminator
  · refine ⟨before, done ++ [op], rest, after, by rw [hblocks]; simp, ?_, ?_⟩
    · rw [hp', hpos]
      exact hfaces.next
    · rw [hgoes.height]
      exact hopeless.tail hgoes.defined (hgoes.falls hfair) hgoes.passes.items hgoes.passes.room
  · exact absurd hopeless
      (not_hopeless_terminator hblocks hterminator hgoes.defined hgoes.passes)

/-- No run ends with its gas at a doomed place. -/
theorem Doomed.not_ends (h : Doomed rev code p n) (hs : Healthy n)
    (hcall : naiveCall rev code p n = .ok none n') : ¬ EndsWell none n' := by
  intro hends
  obtain ⟨before, done, op, rest, after, hblocks, hfaces, hopeless⟩ := h.exists_cons hs
  have hlast := naiveCall_ends hfaces.opAt hcall hends
  exact not_hopeless_terminator hblocks hlast.place hlast.defined hlast.passes hopeless

/-! ### The check of a block -/

/-- A block whose check fails is hopeless. -/
theorem hopeless_of_refused (hfit : SummariesFit rev code) {block : List Op}
    (hblock : block ∈ blocks (decode code)) (hs : Healthy s) (hint : s.estate.gasLeft < 2 ^ 63)
    (hrefused : ∀ j s', opxBeginblock instr (.block (summary rev 0 block).close) s ≠
      .ok (some j) s') :
    Hopeless rev block s.estate.gasLeft s.stackSize := by
  by_contra hnot
  simp only [Hopeless, not_or, not_lt, not_exists, not_and] at hnot
  obtain ⟨hgas, hdefined, hitems, hroom⟩ := hnot
  obtain ⟨hcost, hreq, hgrowth⟩ := hfit block hblock
  have hclose := summary_close_gasCost rev hcost
  have htracks : Tracks (summary rev 0 block) (contributions rev block) :=
    countOps_tracks rev 0 fun op hop => contributes_of_defined (hdefined op hop)
  rw [underflows_iff (contributions_sound rev block) hs.stack.nonneg] at hitems
  rw [overflows_iff hs.stack.le] at hroom
  have hreq0 := required_nonneg rev block
  have hgrowth0 := growth_nonneg (contributions rev block)
  have hexact : Exact (summary rev 0 block) (contributions rev block) := by
    rcases htracks.figures with hexact | ⟨hlarge, -⟩ | ⟨hlarge, -⟩
    · exact hexact
    · omega
    · omega
  -- So the check passes.
  refine hrefused (instr + 1) _ (opxBeginblock_ok_iff.2 ⟨?_, ?_, ?_, ?_, rfl, rfl⟩)
  · have hcost0 := totalCost_nonneg rev block
    rw [hclose]
    unfold isInt64
    omega
  · rw [hclose]
    omega
  · rw [BlockAnalysis.close_eq, hexact.stackReq]
    show toInt16 (required (contributions rev block)) ≤ s.stackSize
    rw [toInt16_eq]
    omega
  · rw [BlockAnalysis.close_eq, hexact.stackMaxGrowth]
    show s.stackSize + toInt16 (growth (contributions rev block)) ≤ 1024
    rw [toInt16_eq]
    omega

end

end TscVee
