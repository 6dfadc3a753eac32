import TscVee.Proofs.Places

/-!
# `TscVee.Proofs.StackSafety`: the stack stays inside `m_stack_space`

`opx_beginblock` checks the height of the stack once for a whole block, against the two figures of
its summary, which `BlockAnalysis_close` narrows to `int16_t`. Figures above 1024 must stay above
1024 when they are narrowed (`Narrows`): then a block that is entered has room for all its
operations.

* `InstrFn.call_keepsStack`: an instruction function with the items and the room it needs stays
  inside the stack space, and changes the height as its traits say.
* `Checked`: what a block that is entered has room for.
* `stackSafe_step`: a step keeps the height at the figures of the operations done.
* `runs_stackSafe`: the stack in every state that a run reaches.
-/

set_option autoImplicit false
set_option maxRecDepth 8000

namespace TscVee

open TscVee.Core Exec Lib

/-! ### One instruction function -/

/-- The stack has its bottom in front of the stack space, and between 0 and 1024 items. -/
structure StackIn (s : AdvancedExecutionState) : Prop where
  bottom : s.bottom = stackSpaceBottom
  nonneg : 0 ≤ s.stackSize
  le : s.stackSize ≤ 1024

/-- How many items an instruction function needs, and how many slots above them it writes. -/
def InstrFn.items : InstrFn → Nat × Nat
  | .opJump => (1, 0)
  | .opJumpi => (2, 0)
  | .opPc | .opGas | .opPushSmall | .opPushFull => (0, 1)
  | fn => fn.footprint

/-- The traits of the opcode of a function cover its items. -/
theorem items_traits : ∀ e ∈ instructionFnTable,
    (e.2.items.1 : Int) ≤ (traits e.1).stackHeightRequired ∧
      (e.2.items.2 : Int) ≤ max 0 (traits e.1).stackHeightChange ∧
      -(traits e.1).stackHeightRequired ≤ (traits e.1).stackHeightChange := by decide

/-- The instruction function moves the top itself, and not by the traits of its opcode. -/
def InstrFn.movesTop : InstrFn → Bool
  | .opJump | .opJumpi | .opPc | .opGas | .opPushSmall | .opPushFull | .opxBeginblock => true
  | _ => false

/-- The traits agree with the functions that do not use them. -/
theorem items_change : ∀ e ∈ instructionFnTable, e.2.movesTop = true →
    (traits e.1).stackHeightChange = (e.2.items.2 : Int) - e.2.items.1 := by decide

/-- What an instruction function with the height change `change` finds on the stack. -/
structure Room (fn : InstrFn) (change : Int) (s : AdvancedExecutionState) : Prop where
  stack : StackIn s
  items : (fn.items.1 : Int) ≤ s.stackSize
  space : s.stackSize + fn.items.2 ≤ 1024
  after_nonneg : 0 ≤ s.stackSize + change
  after_le : s.stackSize + change ≤ 1024

/-- The check at the start of the block leaves room for what the function takes and leaves, by its
row of the traits table. -/
theorem room_of_traits {opcode : Opcode} {fn : InstrFn} (hmem : (opcode, fn) ∈ instructionFnTable)
    {s : AdvancedExecutionState} (hs : StackIn s)
    (hreq : (traits opcode).stackHeightRequired ≤ s.stackSize)
    (hgrow : s.stackSize + (traits opcode).stackHeightChange ≤ 1024) :
    Room fn (traits opcode).stackHeightChange s := by
  obtain ⟨hitems, hspace, hremoves⟩ : (fn.items.1 : Int) ≤ (traits opcode).stackHeightRequired ∧
      (fn.items.2 : Int) ≤ max 0 (traits opcode).stackHeightChange ∧
      -(traits opcode).stackHeightRequired ≤ (traits opcode).stackHeightChange :=
    items_traits _ hmem
  have hle := hs.le
  exact ⟨hs, by omega, by omega, by omega, hgrow⟩

/-- The stack stays inside the stack space, and when the run goes on, the height has changed by
`change`. -/
structure Moved (change : Int) (s : AdvancedExecutionState) (next : Option Nat)
    (s' : AdvancedExecutionState) : Prop where
  stack : StackIn s'
  size : next ≠ none → s'.stackSize = s.stackSize + change

/-- The stack stays inside the stack space, and nothing outside is touched. -/
def KeepsStack (change : Int) (s : AdvancedExecutionState) (x : Exec (Option Nat)) : Prop :=
  Sat x s (Moved change s) fun f s' => f ≠ .stackOutOfBounds ∧ StackIn s'

section
variable [Env]

/-- The opcode whose height change a function of the shape uses. -/
def Shape.opcode? : Shape → Option Opcode
  | .core opcode _ => some opcode
  | .corrected opcode _ => some opcode
  | _ => none

/-- A function uses the height change of the opcode that it stands for in the table. -/
theorem table_opcode : ∀ e ∈ instructionFnTable, e.2.shape.opcode?.getD e.1 = e.1 := by
  have h : (instructionFnTable.all fun e => e.2.shape.opcode?.getD e.1 == e.1) = true := by rfl
  intro e he
  exact eq_of_beq (List.all_eq_true.1 h e he)

variable {s : AdvancedExecutionState} {change : Int}

omit [Env] in
/-- The top of the stack, by the height. -/
theorem StackIn.topItem (h : StackIn s) : s.topItem = s.stackSize - 1 := by
  have hb : s.bottom = stackSpaceBottom := h.bottom
  have htop : ∀ p : Int, p = p - (-1) - 1 := fun p => by omega
  unfold AdvancedExecutionState.stackSize
  rw [hb]
  exact htop s.topItem

omit [Env] in
/-- A state with the top moved by `change`. -/
theorem StackIn.moved (h : StackIn s) {s' : AdvancedExecutionState} (hbottom : s'.bottom = s.bottom)
    (htop : s'.topItem = s.topItem + change) (hnonneg : 0 ≤ s.stackSize + change)
    (hle : s.stackSize + change ≤ 1024) : StackIn s' ∧ s'.stackSize = s.stackSize + change := by
  have hshift : ∀ p q : Int, p + change - q = p - q + change := fun p q => by omega
  have hsize : s'.stackSize = s.stackSize + change := by
    unfold AdvancedExecutionState.stackSize
    rw [hbottom, htop]
    exact hshift _ _
  exact ⟨⟨hbottom.trans h.bottom, by omega, by omega⟩, hsize⟩

omit [Env] in
/-- A state with the same stack. -/
theorem StackIn.same (h : StackIn s) {s' : AdvancedExecutionState} (hbottom : s'.bottom = s.bottom)
    (htop : s'.topItem = s.topItem) : StackIn s' := by
  have hsize : s'.stackSize = s.stackSize := by
    unfold AdvancedExecutionState.stackSize
    rw [hbottom, htop]
  exact ⟨hbottom.trans h.bottom, hsize ▸ h.nonneg, hsize ▸ h.le⟩

omit [Env] in
/-- The slot `n` below the top, or above it, when it holds an item or there is room for one. -/
theorem StackIn.inStackSpace (h : StackIn s) {p : Int} (hlo : 0 ≤ s.stackSize - 1 + p)
    (hhi : s.stackSize + p ≤ 1024) : inStackSpace (s.topItem + p) := by
  have hp : ∀ q : Int, q = s.stackSize - 1 → 0 ≤ q + p ∧ q + p < 1024 := fun q hq => by omega
  exact hp _ h.topItem

variable {analysis : CodeAnalysis} {instr : Nat} {arg : InstructionArgument} {fn : InstrFn}

/-- The outcome of a core implementation that has the room that it needs. -/
theorem Room.core (h : Room fn change s) (hitems : fn.items = fn.footprint) {α : Type} {x : Core α}
    {Q : α → Prop} (hhas : ∀ msg, Has (fn.effects msg s.topItem) x Q) (estate : ExecutionState) :
    Sat x estate (fun _ _ => True) fun e _ => e ≠ .fault .stackOutOfBounds := by
  refine ((hhas estate.msg).frame estate rfl).mono (fun _ _ _ => trivial) fun e _ herr => ?_
  have h1 := h.items
  have h2 := h.space
  rw [hitems] at h1 h2
  have hrange : ∀ q : Int, q = s.stackSize - 1 →
      0 ≤ q + 1 - fn.footprint.1 ∧ q + fn.footprint.2 < 1024 := fun q hq => by omega
  exact herr.2.1 (hrange _ h.stack.topItem).1 (hrange _ h.stack.topItem).2

omit [Env] in
/-- With that room, the stack stays in its space. -/
theorem Room.stackIn (h : Room fn change s) {s' : AdvancedExecutionState}
    (hbottom : s'.bottom = s.bottom) (htop : s'.topItem = s.topItem + change) : StackIn s' :=
  (h.stack.moved hbottom htop h.after_nonneg h.after_le).1

omit [Env] in
/-- Behind the move of the top, the height is the one that the traits say. -/
theorem Room.after (h : Room fn change s) {next : Option Nat} {s' : AdvancedExecutionState}
    (hbottom : s'.bottom = s.bottom) (htop : s'.topItem = s.topItem + change) :
    Moved change s next s' :=
  ⟨h.stackIn hbottom htop, fun _ => (h.stack.moved hbottom htop h.after_nonneg h.after_le).2⟩

omit [Env] in
/-- The run ends. -/
theorem Moved.exit {s' : AdvancedExecutionState} (h : StackIn s') : Moved change s none s' :=
  ⟨h, fun hne => absurd rfl hne⟩

section
variable (h : Room fn change s)

include h

/-- A core that uses the items of the function only moves the top by the change of its opcode. -/
theorem opCore_keepsStack {opcode : Opcode} {body : StackTop → Core Unit}
    (hshape : fn.shape = .core opcode body) (hchange : (traits opcode).stackHeightChange = change)
    (hdup : fn ≠ .opDup 0) (hitems : fn.items = fn.footprint) :
    KeepsStack change s (opCore opcode body instr) := by
  have hhas := fun msg => fn.has hdup msg s.topItem
  simp only [hshape] at hhas
  subst hchange
  unfold KeepsStack
  rw [sat_opCore]
  refine (h.core hitems hhas s.estate).mono (fun _ estate _ => h.after rfl rfl)
    fun e estate herr => ?_
  cases e with
  | ret status => exact afterStatus_cases status (fun _ => h.after rfl rfl) fun _ => h.after rfl rfl
  | fault f => exact ⟨fun heq => herr (congrArg Halt.fault heq), h.stack.same rfl rfl⟩

/-- So does one with a gas correction around it. -/
theorem opCorrected_keepsStack {opcode : Opcode} {body : StackTop → Core Unit}
    (hshape : fn.shape = .corrected opcode body)
    (hchange : (traits opcode).stackHeightChange = change) (hdup : fn ≠ .opDup 0)
    (hitems : fn.items = fn.footprint) : KeepsStack change s (opCorrected opcode body instr arg) := by
  have hhas := fun msg => fn.has hdup msg s.topItem
  simp only [hshape] at hhas
  subst hchange
  have hoverflow : ∀ s' : AdvancedExecutionState, StackIn s' →
      Fault.signedOverflow ≠ .stackOutOfBounds ∧ StackIn s' := fun _ hs' => ⟨nofun, hs'⟩
  cases arg with
  | number n =>
      unfold KeepsStack
      rw [sat_opCorrected]
      split
      case isFalse => exact hoverflow _ h.stack
      refine (h.core hitems hhas _).mono (fun _ estate _ => ?_) fun e estate herr => ?_
      · dsimp only
        split
        · exact afterCorrection_cases _ (fun _ => h.after rfl rfl) fun _ => h.after rfl rfl
        · exact hoverflow _ (h.stackIn rfl rfl)
      · cases e with
        | ret status =>
            dsimp only
            split
            · split
              · exact afterCorrection_cases _ (fun _ => h.after rfl rfl) fun _ => h.after rfl rfl
              · exact hoverflow _ (h.stackIn rfl rfl)
            · exact h.after rfl rfl
        | fault f => exact ⟨fun heq => herr (congrArg Halt.fault heq), h.stack.same rfl rfl⟩
  | _ => exact ⟨nofun, h.stack⟩

/-- An instruction that ends the run does not move the top. -/
theorem opTerminate_keepsStack {body : StackTop → Core StatusCode}
    (hshape : fn.shape = .terminate body) (hdup : fn ≠ .opDup 0) (hitems : fn.items = fn.footprint) :
    KeepsStack change s (opTerminate body) := by
  have hhas := fun msg => fn.has hdup msg s.topItem
  simp only [hshape] at hhas
  unfold KeepsStack
  rw [sat_opTerminate]
  refine (h.core hitems hhas s.estate).mono (fun status estate _ => .exit (h.stack.same rfl rfl))
    fun e estate herr => ?_
  cases e with
  | ret status => exact .exit (h.stack.same rfl rfl)
  | fault f => exact ⟨fun heq => herr (congrArg Halt.fault heq), h.stack.same rfl rfl⟩

omit [Env] in
/-- A push moves the top up by one. -/
theorem stackPush_keepsStack (hitems : fn.items = (0, 1)) (hchange : change = 1) (word : Uint256) :
    KeepsStack change s (do stackPush word; return some (instr + 1)) := by
  have hspace := h.space
  rw [hitems] at hspace
  have hin : inStackSpace (s.topItem + 1) := h.stack.inStackSpace
    (by have := h.stack.nonneg; omega) hspace
  subst hchange
  unfold KeepsStack
  simp only [sat_bind, sat_stackPush, sat_pure, if_pos hin]
  exact h.after rfl rfl

omit [Env] in
/-- The slot of the `n`-th item from the top. -/
theorem Room.inStackSpace {n : Nat} (hitems : fn.items = (n + 1, 0)) {p : Int} (hlo : -n ≤ p)
    (hhi : p ≤ 0) : inStackSpace (s.topItem + p) := by
  have hneed := h.items
  rw [hitems] at hneed
  have hle := h.stack.le
  exact h.stack.inStackSpace (by omega) (by omega)

end

omit [Env] in
/-- A jump pops its destination, whatever it is. -/
theorem opJump_pops (hin : inStackSpace s.topItem) :
    Sat (opJump analysis) s (fun _ s' => s'.bottom = s.bottom ∧ s'.topItem = s.topItem - 1)
      fun f s' => f ≠ .stackOutOfBounds ∧ s'.bottom = s.bottom ∧ s'.topItem = s.topItem - 1 := by
  unfold opJump
  simp only [sat_bind, sat_stackPop, if_pos hin, sat_ite, sat_exit, sat_throw, sat_pure]
  exact ⟨fun _ => ⟨trivial, trivial⟩, fun _ => ⟨fun _ => ⟨nofun, trivial, trivial⟩,
    fun _ => ⟨trivial, trivial⟩⟩⟩

section
variable (h : Room fn change s)

include h

omit [Env] in
/-- JUMP pops one item. -/
theorem opJump_keepsStack (hitems : fn.items = (1, 0)) (hchange : change = -1) :
    KeepsStack change s (opJump analysis) := by
  have hin := h.inStackSpace hitems (p := 0) (by omega) (by omega)
  rw [show s.topItem + 0 = s.topItem from Int.add_zero _] at hin
  subst hchange
  exact (opJump_pops hin).mono (fun _ _ hs => h.after hs.1 hs.2)
    fun _ _ hs => ⟨hs.1, h.stackIn hs.2.1 hs.2.2⟩

omit [Env] in
/-- JUMPI pops two items, also when it does not jump. -/
theorem opJumpi_keepsStack (hitems : fn.items = (2, 0)) (hchange : change = -2) :
    KeepsStack change s (opJumpi analysis instr) := by
  have hin := h.inStackSpace hitems (p := 0) (by omega) (by omega)
  have hin' := h.inStackSpace hitems (p := -1) (by omega) (by omega)
  rw [show s.topItem + 0 = s.topItem from Int.add_zero _] at hin
  rw [show s.topItem + -1 = s.topItem - 1 from rfl] at hin'
  have hone : ∀ s' : AdvancedExecutionState, s'.bottom = s.bottom → s'.topItem = s.topItem - 1 →
      StackIn s' := fun s' hbottom htop =>
    (h.stack.moved hbottom htop (by have := h.items; rw [hitems] at this; omega)
      (by have := h.stack.le; omega)).1
  have htwo : ∀ p : Int, p - 1 - 1 = p + -2 := fun p => by omega
  subst hchange
  unfold KeepsStack opJumpi
  simp only [sat_bind, sat_stackGet, if_pos hin', sat_ite, sat_pure]
  refine ⟨fun _ => ?_, fun _ => ?_⟩
  · refine (opJump_pops hin).mono (fun next s' hs => ?_) fun _ s' hs => ⟨hs.1, hone s' hs.2.1 hs.2.2⟩
    rw [sat_stackPop, hs.2, if_pos hin']
    exact h.after hs.1 (htwo _)
  · simp only [sat_stackPop, if_pos hin, if_pos hin']
    exact h.after rfl (htwo _)

omit [Env] in
/-- `BEGINBLOCK` reads the height and keeps it. -/
theorem opxBeginblock_keepsStack (hchange : change = 0) :
    KeepsStack change s (opxBeginblock instr arg) := by
  have hsame : ∀ {next : Option Nat} {s' : AdvancedExecutionState}, s'.bottom = s.bottom →
      s'.topItem = s.topItem → Moved change s next s' := fun hbottom htop =>
    h.after hbottom (by rw [htop, hchange]; exact (Int.add_zero _).symm)
  unfold KeepsStack opxBeginblock
  cases arg with
  | block block =>
      simp only [sat_bind, sat_subGas]
      split
      case isFalse => exact ⟨nofun, h.stack⟩
      simp only [sat_bind, sat_get, sat_ite, sat_exit, sat_set, sat_pure]
      exact ⟨fun _ => hsame rfl rfl, fun _ => ⟨fun _ => hsame rfl rfl, fun _ =>
        ⟨fun _ => hsame rfl rfl, fun _ => hsame rfl rfl⟩⟩⟩
  | _ => exact ⟨nofun, h.stack⟩

end

variable {opcode : Opcode}

/-- A function of the table, with the items and the room that the traits of its opcode say. -/
theorem InstrFn.call_keepsStack (hmem : (opcode, fn) ∈ instructionFnTable) (hs : StackIn s)
    (hreq : (traits opcode).stackHeightRequired ≤ s.stackSize)
    (hgrow : s.stackSize + (traits opcode).stackHeightChange ≤ 1024) :
    KeepsStack (traits opcode).stackHeightChange s (fn.call analysis instr arg) := by
  have hdup : fn ≠ .opDup 0 :=
    (by decide : ∀ e ∈ instructionFnTable, e.2 ≠ .opDup 0) (opcode, fn) hmem
  -- The room from the check at the start of the block.
  have hroom := room_of_traits hmem hs hreq hgrow
  have hopcode := table_opcode (opcode, fn) hmem
  have hchange := items_change (opcode, fn) hmem
  have hfault : KeepsStack (traits opcode).stackHeightChange s (throw .wrongArgument) := ⟨nofun, hs⟩
  rw [InstrFn.call_eq]
  -- The functions with a shape of their own come first; the last cases are whole groups.
  cases fn with
  | opJump => exact opJump_keepsStack hroom rfl (hchange rfl)
  | opJumpi => exact opJumpi_keepsStack hroom rfl (hchange rfl)
  | opPc =>
      cases arg with
      | number n => exact stackPush_keepsStack hroom rfl (hchange rfl) _
      | _ => exact hfault
  | opGas =>
      cases arg with
      | number n =>
          simp only [KeepsStack, Shape.run, InstrFn.shape]
          -- The record of the gas leaves the stack.
          have hroom' : Room .opGas (traits opcode).stackHeightChange
              { s with
                estate := { s.estate with
                  trace := s.estate.trace ++
                    [.gasSeen (s.estate.gasLeft + (s.currentBlockCost - n))] } } :=
            ⟨hs.same rfl rfl, hroom.items, hroom.space, hroom.after_nonneg, hroom.after_le⟩
          exact (stackPush_keepsStack hroom' rfl (hchange rfl) _).mono
            (fun _ _ hm => ⟨hm.stack, hm.size⟩) fun _ _ hf => hf
      | _ => exact hfault
  | opPushSmall =>
      cases arg with
      | smallPushValue value => exact stackPush_keepsStack hroom rfl (hchange rfl) _
      | _ => exact hfault
  | opPushFull =>
      cases arg with
      | pushValue value => exact stackPush_keepsStack hroom rfl (hchange rfl) _
      | _ => exact hfault
  | opxBeginblock => exact opxBeginblock_keepsStack hroom (hchange rfl)
  | opUndefined => exact Moved.exit (hs.same rfl rfl)
  | opSstore | opCreate | opCall | opCallcode | opDelegatecall | opCreate2 | opStaticcall =>
      exact opCorrected_keepsStack hroom rfl
        (congrArg (fun o => (traits o).stackHeightChange) hopcode)
        hdup rfl
  | opReturn | opRevert | opSelfdestruct | opStop | opInvalid =>
      exact opTerminate_keepsStack hroom rfl hdup rfl
  | _ =>
      exact opCore_keepsStack hroom rfl (congrArg (fun o => (traits o).stackHeightChange) hopcode)
        hdup rfl

/-! ### One block -/

/-- Narrowed to `int16_t`, a figure above 1024 stays above 1024. -/
def Narrows (x : Int) : Prop := x ≤ 1024 ∨ 1024 < toInt16 x

variable (rev : Revision) {code : List Byte}

/-- From the height `height`, the block has items and room for all its operations, by the figures
that the analyser counts. -/
structure Checked (block : List Op) (height : Int) : Prop where
  req : (summary rev 0 block).stackReq ≤ height
  growth : height + (summary rev 0 block).stackMaxGrowth ≤ 1024

/-- The figures of a block are at least those of its first operations. -/
theorem summary_mono (xs ys : List Op) :
    (summary rev 0 xs).stackReq ≤ (summary rev 0 (xs ++ ys)).stackReq ∧
      (summary rev 0 xs).stackMaxGrowth ≤ (summary rev 0 (xs ++ ys)).stackMaxGrowth := by
  induction ys using List.reverseRecOn with
  | nil =>
      rw [List.append_nil]
      exact ⟨le_refl _, le_refl _⟩
  | append_singleton ys op ih =>
      rw [← List.append_assoc, summary_concat]
      exact ⟨ih.1.trans (le_max_left _ _), ih.2.trans (le_max_left _ _)⟩

/-- The requirements of a block are not negative. -/
theorem summary_nonneg (ops : List Op) :
    0 ≤ (summary rev 0 ops).stackReq ∧ 0 ≤ (summary rev 0 ops).stackMaxGrowth :=
  summary_mono rev [] ops

variable {rev}

/-- What the comparisons of `opx_beginblock` with the narrowed figures say about the figures. -/
theorem checked_of_narrows {block : List Op} {height : Int} (hheight : 0 ≤ height ∧ height ≤ 1024)
    (hreq : Narrows (summary rev 0 block).stackReq)
    (hgrowth : Narrows (summary rev 0 block).stackMaxGrowth)
    (hle : (summary rev 0 block).close.stackReq ≤ height)
    (hle' : height + (summary rev 0 block).close.stackMaxGrowth ≤ 1024) :
    Checked rev block height := by
  obtain ⟨hreq0, hgrowth0⟩ := summary_nonneg rev block
  rw [BlockAnalysis.close_eq] at hle hle'
  simp only [Narrows, toInt16_eq] at *
  constructor <;> omega

/-- What is left for the next operation of a block that was checked, behind the operations
`done`. -/
theorem Checked.next {done rest : List Op} {op : Op} {height : Int}
    (h : Checked rev (done ++ op :: rest) height) (hheight : 0 ≤ height ∧ height ≤ 1024)
    (hdefined : ∀ x ∈ done ++ [op], gasCosts rev x.opcode ≠ -1) :
    (traits op.opcode).stackHeightRequired ≤ height + netChange (contributions rev done) ∧
      height + netChange (contributions rev done) + (traits op.opcode).stackHeightChange ≤ 1024 := by
  have htracks := countOps_tracks rev 0 fun x hx => contributes_of_defined (hdefined x hx)
  obtain ⟨hreq, hgrowth⟩ := summary_mono rev (done ++ [op]) rest
  rw [List.append_assoc, List.singleton_append] at hreq hgrowth
  have hchecked := h.req
  have hchecked' := h.growth
  unfold summary at hreq hgrowth hchecked hchecked'
  have hop : gasCosts rev op.opcode ≠ -1 := hdefined op (by simp)
  have hcontribution : contribution rev op.opcode =
      ⟨gasCosts rev op.opcode, (traits op.opcode).stackHeightRequired,
        (traits op.opcode).stackHeightChange⟩ := by rw [contribution, if_neg hop]
  -- The figures are small, so they have not left `int`.
  have hexact : Exact (countOps rev (blockAnalysisInitV 0) (done ++ [op]))
      (contributions rev (done ++ [op])) := by
    rcases htracks.figures with hexact | ⟨hbig, -⟩ | ⟨hbig, -⟩
    · exact hexact
    · omega
    · omega
  have hcs : contributions rev (done ++ [op]) =
      contributions rev done ++ [contribution rev op.opcode] :=
    List.map_append
  have hreq' := hexact.stackReq
  have hgrowth' := hexact.stackMaxGrowth
  rw [hcs, required_concat (contributions_sound rev done) (contribution_sound rev _),
    hcontribution] at hreq'
  rw [hcs, growth_concat, hcontribution] at hgrowth'
  simp only at hreq' hgrowth'
  constructor <;> omega

/-! ### The run -/

/-- The height of the stack at an index of the table: at a boundary any height that a stack can
have, and inside a block the height at its start and what the operations since then have changed. -/
inductive HeightAt (rev : Revision) (code : List Byte) (height : Int) (i : Nat) : Prop
  | boundary (h : Boundary code i)
  | behind (before : List (List Op)) (done rest : List Op) (after : List (List Op)) (start : Int)
      (h : Behind code before done rest after i)
      (hdefined : ∀ op ∈ done, gasCosts rev op.opcode ≠ -1)
      (hchecked : Checked rev (done ++ rest) start) (hstart : 0 ≤ start ∧ start ≤ 1024)
      (hheight : height = start + netChange (contributions rev done))

/-- What holds of the stack along a run. -/
structure StackInv (rev : Revision) (code : List Byte) (c : Config) : Prop where
  stack : StackIn c.astate
  inside : c.pc ≠ .stuck .stackOutOfBounds
  height : ∀ i, c.pc = .at i → HeightAt rev code c.astate.stackSize i

/-- A `BEGINBLOCK` is to run whose figures survive the narrowing. -/
def Config.Narrows (rev : Revision) (code : List Byte) (c : Config) : Prop :=
  ∀ i before block after, c.pc = .at i → StartsBlock code before block after i →
    TscVee.Narrows (summary rev 0 block).stackReq ∧
      TscVee.Narrows (summary rev 0 block).stackMaxGrowth

/-- The `BEGINBLOCK` of a block lets a stack pass that has room for it. -/
theorem opxBeginblock_checked {block : List Op} (hs : StackIn s)
    (hreq : Narrows (summary rev 0 block).stackReq)
    (hgrowth : Narrows (summary rev 0 block).stackMaxGrowth) :
    Sat (opxBeginblock instr (.block (summary rev 0 block).close)) s
      (fun next s' => StackIn s' ∧
        ∀ j, next = some j → j = instr + 1 ∧ s'.stackSize = s.stackSize ∧
          Checked rev block s.stackSize)
      fun f s' => f ≠ .stackOutOfBounds ∧ StackIn s' := by
  unfold opxBeginblock
  simp only [sat_bind, sat_subGas]
  split
  case isFalse => exact ⟨nofun, hs⟩
  simp only [sat_bind, sat_get, sat_ite, sat_exit, sat_set, sat_pure]
  refine ⟨fun _ => ⟨hs.same rfl rfl, nofun⟩, fun _ => ⟨fun _ => ⟨hs.same rfl rfl, nofun⟩,
    fun hle => ⟨fun _ => ⟨hs.same rfl rfl, nofun⟩, fun hle' => ⟨hs.same rfl rfl, fun j hj => ?_⟩⟩⟩⟩
  refine ⟨(Option.some.inj hj).symm, rfl, checked_of_narrows ⟨hs.nonneg, hs.le⟩ hreq hgrowth ?_ ?_⟩
  · exact not_lt.1 hle
  · exact not_lt.1 hle'

variable {c c' : Config} {i : Nat}

/-- What the call of the instruction function leaves is what the step leaves. -/
theorem stackInv_of_call {ins : Instruction} (hpc : c.pc = .at i)
    (hins : (analyzeCode rev code).instrs[i]? = some ins) (hfn : ins.fn = some fn)
    (hcall : Sat (fn.call (analyzeCode rev code) i ins.arg) c.astate
      (fun next s' => StackIn s' ∧ ∀ j, next = some j → HeightAt rev code s'.stackSize j)
      fun f s' => f ≠ .stackOutOfBounds ∧ StackIn s')
    (hstep : stepInstr (analyzeCode rev code) c = some c') : StackInv rev code c' := by
  rcases stepInstr_at hpc hins hfn hstep with ⟨next, hok, hpc'⟩ | ⟨f, herr, hpc'⟩
  · obtain ⟨hstack, hheight⟩ := hcall.of_ok hok
    cases next with
    | none => exact ⟨hstack, by simp [hpc', Pc.ofPtr], by simp [hpc', Pc.ofPtr]⟩
    | some j =>
        refine ⟨hstack, by simp [hpc', Pc.ofPtr], fun k hk => ?_⟩
        rw [hpc', Pc.ofPtr, Pc.at.injEq] at hk
        exact hk ▸ hheight j rfl
  · obtain ⟨hne, hstack⟩ := hcall.of_error herr
    exact ⟨hstack, by simp [hpc', hne], by simp [hpc']⟩

/-- The step of an instruction function that keeps the stack: a jump goes to the start of a
block. -/
theorem stackInv_of_keepsStack (hlen : code.length < 2 ^ 31) {ins : Instruction} (hpc : c.pc = .at i)
    (hins : (analyzeCode rev code).instrs[i]? = some ins) (hfn : ins.fn = some fn)
    (hkeeps : KeepsStack change c.astate (fn.call (analyzeCode rev code) i ins.arg))
    (hnext : fn.shape.Continues (analyzeCode rev code) i (some (i + 1)) →
      HeightAt rev code (c.astate.stackSize + change) (i + 1))
    (hstep : stepInstr (analyzeCode rev code) c = some c') : StackInv rev code c' := by
  have hgoes : Sat (fn.call (analyzeCode rev code) i ins.arg) c.astate
      (Goes (analyzeCode rev code) i ins.arg fn.shape c.astate) fun _ _ => True := by
    rw [InstrFn.call_eq]
    exact Shape.run_goes i ins.arg fn.shape c.astate
  refine stackInv_of_call hpc hins hfn ?_ hstep
  refine (Sat.and hkeeps hgoes).mono (fun next s' hs => ⟨hs.1.stack, ?_⟩) fun _ _ hf => hf.1
  rintro j rfl
  have hcontinues := hs.2.continues
  rcases hcontinues.cases with rfl | ⟨-, offset, hfind⟩
  · rw [hs.1.size nofun]
    exact hnext hcontinues
  · obtain ⟨before, op, block, after, hblocks, -, hj⟩ := findJumpdest_block rev hlen hfind
    exact .boundary (Or.inl ⟨before, op :: block, after, hblocks, hj⟩)

/-- A step from a boundary: the `BEGINBLOCK` of the next block, or the appended `STOP`. -/
theorem stackInv_boundary (hlen : code.length < 2 ^ 31) (h : StackIn c.astate)
    (hnarrows : c.Narrows rev code) (hpc : c.pc = .at i)
    (hplace : Boundary code i) (hstep : stepInstr (analyzeCode rev code) c = some c') :
    StackInv rev code c' := by
  rcases hplace with ⟨before, block, after, hstart⟩ | rfl
  · obtain ⟨hreq, hgrowth⟩ := hnarrows i before block after hpc hstart
    obtain ⟨done, rest, rfl, hdone, hbehind⟩ := hstart.enter
    refine stackInv_of_call hpc (hstart.instr rev) rfl ?_ hstep
    refine (opxBeginblock_checked h hreq hgrowth).mono (fun next s' hs => ⟨hs.1, fun j hj => ?_⟩)
      fun _ _ hf => hf
    obtain ⟨rfl, hsize, hchecked⟩ := hs.2 j hj
    -- The `JUMPDEST` in front of the block is defined and leaves the height alone.
    have hjumpdest : ∀ op ∈ done, contribution rev op.opcode = ⟨1, 0, 0⟩ := fun op hop => by
      rw [eq_of_beq (hdone op hop), contribution, gasCosts_jumpdest]
      rfl
    have hzero : netChange (contributions rev done) = 0 := by
      rw [netChange, contributions, List.map_map]
      exact List.sum_eq_zero fun x hx => by
        obtain ⟨op, hop, rfl⟩ := List.mem_map.1 hx
        rw [Function.comp, hjumpdest op hop]
    refine .behind before done rest after c.astate.stackSize hbehind (fun op hop => ?_) hchecked
      ⟨h.nonneg, h.le⟩ (by rw [hsize, hzero, Int.add_zero])
    rw [eq_of_beq (hdone op hop), gasCosts_jumpdest]
    decide
  · have hle : c.astate.stackSize + (traits .stop).stackHeightChange ≤ 1024 := by
      rw [show (traits .stop).stackHeightChange = 0 by decide, Int.add_zero]
      exact h.le
    have hmem : (Opcode.stop, InstrFn.opStop) ∈ instructionFnTable := by decide
    exact stackInv_of_keepsStack hlen hpc (stop_instr rev) rfl
      (InstrFn.call_keepsStack hmem h h.nonneg hle) (fun hcontinues => hcontinues.elim) hstep

/-- A step keeps the invariant. -/
theorem stackInv_step (hlen : code.length < 2 ^ 31) (h : StackInv rev code c)
    (hnarrows : c.Narrows rev code) (hstep : stepInstr (analyzeCode rev code) c = some c') :
    StackInv rev code c' := by
  cases hpc : c.pc with
  | null | stuck => simp [stepInstr, hpc] at hstep
  | «at» i =>
  -- At a boundary the check of the block is still to come; behind one, it has covered the
  -- operations done.
  cases h.height i hpc with
  | boundary hplace => exact stackInv_boundary hlen h.stack hnarrows hpc hplace hstep
  | behind before done rest after start hbehind hdefined hchecked hstart hheight =>
  cases rest with
  | nil => exact stackInv_boundary hlen h.stack hnarrows hpc hbehind.boundary hstep
  | cons op rest =>
  have hins := hbehind.instr rev
  rcases opcodeInfo_cases rev op.opcode with ⟨fn, hdef⟩ | hundef
  · have hopcode : gasCosts rev op.opcode ≠ -1 := by
      have := hdef.cost_nonneg
      omega
    -- The next operation is defined, so its effect is part of the figures that were checked.
    have hdefined' : ∀ x ∈ done ++ [op], gasCosts rev x.opcode ≠ -1 := by
      simpa [or_imp, forall_and] using ⟨hdefined, hopcode⟩
    obtain ⟨hreq, hgrow⟩ := hchecked.next hstart hdefined'
    rw [← hheight] at hreq hgrow
    refine stackInv_of_keepsStack hlen hpc hins (by rw [Op.instr, hdef.info])
      (InstrFn.call_keepsStack hdef.mem h.stack hreq hgrow) (fun _ => ?_) hstep
    refine .behind before (done ++ [op]) rest after start hbehind.succ hdefined'
      (by rwa [List.append_assoc, List.singleton_append]) hstart ?_
    rw [contributions, List.map_append, List.map_singleton, netChange_concat, ← contributions,
      hheight,
      contribution, if_neg hopcode, Int.add_assoc]
  · -- An undefined opcode ends the run.
    exact stackInv_of_call hpc hins hundef.fn ⟨h.stack.same rfl rfl, fun j hj => by cases hj⟩ hstep

/-- What holds of the stack in a state: its height, the items that the instruction to run needs, and
that no access left the stack space. -/
structure StackSafe (rev : Revision) (code : List Byte) (c : Config) : Prop where
  nonneg : 0 ≤ c.astate.stackSize
  le : c.astate.stackSize ≤ 1024
  items : ∀ i op, c.pc = .at i → (tableOf code)[i]? = some (.op op) → gasCosts rev op.opcode ≠ -1 →
    (traits op.opcode).stackHeightRequired ≤ c.astate.stackSize
  inside : c.pc ≠ .stuck .stackOutOfBounds

/-- The invariant says that the stack is in its space. -/
theorem StackInv.safe (h : StackInv rev code c) : StackSafe rev code c := by
  refine ⟨h.stack.nonneg, h.stack.le, fun i op hpc hentry hopcode => ?_, h.inside⟩
  have hboundary : ¬ Boundary code i := fun hb => hb.entry op hentry
  cases h.height i hpc with
  | boundary hplace => exact absurd hplace hboundary
  | behind before done rest after start hbehind hdefined hchecked hstart hheight =>
  cases rest with
  | nil => exact absurd hbehind.boundary hboundary
  | cons op' rest =>
  obtain rfl : op' = op := by
    have := hbehind.entry.symm.trans hentry
    simpa using this
  rw [hheight]
  refine (hchecked.next hstart ?_).1
  simpa [or_imp, forall_and] using ⟨hdefined, hopcode⟩

variable {hostCtx : MockedHost} {msg : Message} {analysis : CodeAnalysis}

/-- In every run that enters only blocks whose figures survive the narrowing to `int16_t`, the stack
is safe in every state. -/
theorem runs_stackSafe (_hrev : rev.hasRow) (hlen : code.length < 2 ^ 31)
    (h : Runs rev hostCtx msg code analysis c)
    (hnarrows : ∀ c', Runs rev hostCtx msg code analysis c' → c'.Narrows rev code) :
    StackSafe rev code c := by
  obtain ⟨hanalyze, hrun⟩ := h
  obtain rfl := analyze_ok hanalyze
  have hinit : StackInv rev code (initialConfig rev hostCtx msg code) := by
    have hsize : (initialConfig rev hostCtx msg code).astate.stackSize = 0 := rfl
    refine ⟨⟨rfl, by omega, by omega⟩, nofun, fun i hi => .boundary ?_⟩
    obtain ⟨block, after, hblocks⟩ := List.exists_cons_of_ne_nil (blocks_ne_nil (decode code))
    exact Or.inl ⟨[], block, after, hblocks, (Pc.at.inj hi).symm⟩
  exact (hrun.invariant_of (fun a b ha hn hab => stackInv_step hlen ha hn hab)
    (fun a ha => hnarrows a ⟨hanalyze, ha⟩) hinit).safe

end

/-- The message of a run that can pay for 32768 `POP`s. -/
def popMessage : Message := { (default : Message) with gas := 100000 }

/-- `PUSH1 1 PUSH1 2 ADD`. -/
def sumCode : List Byte := [0x60, 1, 0x60, 2, 0x01]

/-- The run of `sumCode` behind its `BEGINBLOCK` and the two pushes. -/
def sumRun [Env] : Config :=
  iterate (stepInstr (analyzeCode .london sumCode)) 3
    (initialConfig .london (mockedHostInit default) popMessage sumCode)

/-- The two operands are pushed, and the `ADD` is to run. The one block of the code requires no
item and grows the stack by two, so every `BEGINBLOCK` of the run meets the condition. -/
theorem runs_stackSafe_sum :
    let _ : Env := Env.zeroed
    sumRun.pc = .at 3 ∧ sumRun.astate.stackSize = 2 ∧ StackSafe .london sumCode sumRun := by
  intro _
  have hruns : Runs .london (mockedHostInit default) popMessage sumCode
      (analyzeCode .london sumCode) sumRun :=
    ⟨analyze_eq .london (by decide), reaches_iterate _ 3 _⟩
  have hfigures : ∀ block ∈ blocks (decode sumCode),
      (summary .london 0 block).stackReq ≤ 1024 ∧ (summary .london 0 block).stackMaxGrowth ≤ 1024 := by
    decide
  refine ⟨by with_unfolding_all decide, by with_unfolding_all decide, runs_stackSafe (by decide) (by decide) hruns ?_⟩
  intro c' _ i before block after _ hstart
  obtain ⟨hreq, hgrowth⟩ := hfigures block (by rw [hstart.blocks]; simp)
  exact ⟨Or.inl hreq, Or.inl hgrowth⟩

/-- POPs do not grow the stack. -/
theorem growth_replicate_pop (cost : Int) (n : Nat) :
    growth (List.replicate n ⟨cost, 1, -1⟩) = 0 := by
  induction n with
  | zero => rfl
  | succ n ih =>
      rw [List.replicate_succ, growth, ih]
      rfl

/-- The figures of a block of `n` `POP`s. -/
theorem summary_pops [Env] {n : Nat} (hn : n < 2 ^ 31 - 1) :
    (summary .london 0 (decode (List.replicate n Opcode.pop))).close =
      ⟨toUint32 (2 * n), toInt16 n, 0⟩ := by
  have htracks := countOps_tracks .london 0 (contributes_pops n)
  have hcontribution : contribution .london Opcode.pop = ⟨2, 1, -1⟩ := by decide
  rw [contributions_replicate .london (by decide), hcontribution] at htracks
  have hcost : totalCost (List.replicate n ⟨2, 1, -1⟩) = 2 * n := by
    rw [totalCost, List.map_replicate, List.sum_replicate, nsmul_eq_mul, Int.mul_comm]
  have hreq := required_replicate_pop 2 n
  have hgrowth := growth_replicate_pop 2 n
  rw [BlockAnalysis.close_eq, summary, htracks.gasCost, hcost]
  rcases htracks.figures with hexact | ⟨-, hbig⟩ | ⟨-, hbig⟩
  · rw [hexact.stackReq, hexact.stackMaxGrowth, hreq, hgrowth]
    rfl
  · omega
  · omega

/-- A block of `POP`s whose requirement is narrowed to -32768 is entered on an empty stack. -/
theorem runs_pops [Env] {n : Nat} (hcap : toInt16 n = -32768) (hgas : toUint32 (2 * n) = 65536)
    (hlength : n < 2 ^ 31 - 1) :
    ∃ c, Runs .london (mockedHostInit default) popMessage (List.replicate n Opcode.pop)
        (analyzeCode .london (List.replicate n Opcode.pop)) c ∧
      ¬ StackSafe .london (List.replicate n Opcode.pop) c := by
  have himm : immSize Opcode.pop = 0 := by decide
  have hblocks := blocks_replicate himm (by decide) (by decide) n
  have hstart :
      StartsBlock (List.replicate n Opcode.pop) [] (decode (List.replicate n Opcode.pop)) [] 0 :=
    ⟨hblocks, rfl⟩
  have hins := hstart.instr .london
  rw [summary_pops hlength, hcap, hgas] at hins
  -- one step enters the block
  have hrun : Sat (opxBeginblock 0 (.block ⟨65536, -32768, 0⟩))
      (initialState .london (mockedHostInit default) popMessage (List.replicate n Opcode.pop))
      (fun next s => next = some 1 ∧ s.stackSize = 0) fun _ _ => False := by
    have hgas : (initialState .london (mockedHostInit default) popMessage
        (List.replicate n Opcode.pop)).estate.gasLeft = 100000 := rfl
    have hsize : (initialState .london (mockedHostInit default) popMessage
        (List.replicate n Opcode.pop)).stackSize = 0 := rfl
    unfold opxBeginblock
    simp only [sat_bind, sat_subGas, hgas]
    rw [if_pos (by unfold isInt64; omega)]
    simp only [sat_bind, sat_get, sat_ite, sat_exit, sat_set, sat_pure]
    refine ⟨fun h => absurd h (by decide), fun _ =>
      ⟨fun h => ?_, fun _ => ⟨fun h => ?_, fun _ => ?_⟩⟩⟩
    · exact absurd (show (0 : Int) < -32768 from h) (by decide)
    · exact absurd (show (0 : Int) + 0 > 1024 from h) (by decide)
    · exact ⟨trivial, hsize⟩
  obtain ⟨next, s, hok, rfl, hsize⟩ := hrun.exists_ok
  have hstep : stepInstr (analyzeCode .london (List.replicate n Opcode.pop))
      (initialConfig .london (mockedHostInit default) popMessage (List.replicate n Opcode.pop)) =
      some ⟨.at 1, s⟩ := by
    have hcall : callInstr (analyzeCode .london (List.replicate n Opcode.pop)) 0 =
        opxBeginblock 0 (.block ⟨65536, -32768, 0⟩) := by
      unfold callInstr
      rw [hins]
      rfl
    unfold stepInstr initialConfig startConfig
    simp only [hcall, hok]
    rfl
  refine ⟨⟨.at 1, s⟩, ⟨analyze_eq .london (by rwa [List.length_replicate]), .single hstep⟩, ?_⟩
  -- and there a `POP` is to run
  intro hsafe
  have hops := decode_replicate himm n
  have hpos : n ≠ 0 := by
    rintro rfl
    cases hcap
  obtain ⟨m, rfl⟩ : ∃ m, n = m + 1 := ⟨n - 1, by omega⟩
  cases hdecode : decode (List.replicate (m + 1) Opcode.pop) with
  | nil =>
      rw [hdecode, List.map_nil] at hops
      cases hops
  | cons op rest =>
      rw [hdecode, List.map_cons, List.replicate_succ, List.cons.injEq] at hops
      have hrest : ∀ x ∈ op :: rest, x.isJumpdest = false := by
        intro x hx
        have hpop : x.opcode = Opcode.pop := by
          rcases List.mem_cons.1 hx with rfl | hx
          · exact hops.1
          · exact List.eq_of_mem_replicate (hops.2 ▸ List.mem_map_of_mem hx)
        rw [Op.isJumpdest, hpop]
        decide
      have hbehind : Behind (List.replicate (m + 1) Opcode.pop) [] [] (op :: rest) [] 1 :=
        ⟨by rw [hblocks, hdecode]; rfl, rfl, hrest⟩
      have hitems := hsafe.items 1 op rfl hbehind.entry (by rw [hops.1]; decide)
      rw [hops.1, show (traits Opcode.pop).stackHeightRequired = 1 by decide] at hitems
      simp only at hitems
      omega

/-- The block of 32768 `POP`s is entered on an empty stack. -/
theorem runs_stackSafe_pops :
    let _ : Env := Env.zeroed
    ∃ analysis c, Runs .london (mockedHostInit default) popMessage
        (List.replicate 32768 Opcode.pop) analysis c ∧
      ¬ StackSafe .london (List.replicate 32768 Opcode.pop) c := by
  intro _
  exact ⟨_, runs_pops (n := 32768) (by decide) (by decide) (by decide)⟩

end TscVee
