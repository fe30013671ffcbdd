import Cutscene.Proofs.Play.Throughout

/-!
How the cursor of a script moves.

A script is played by steps and frames and may be rewound at any time (`Script.History`). A rewound
script is a fresh one, so with steps and frames alone it comes to the same states
(`Script.History.reached`), and what lasts holds of all of them. The cursor

* stays in the block or right behind it, in every block of the tree (`lasting_within`);
* never goes back in a step or a frame (`cursor_le_of_step`, `cursor_le_of_run`);
* is behind the block after just those frames that say they are finished (`finished_iff_of_run`).

From there on a script does nothing, whatever is called, until it is rewound (`moveAll_finished`).
`cursor_moves_forward` is all of this for every history.
-/
namespace Cutscene

open Play

variable {σ : Type}

/-! ## Histories -/

/-- The states that a script over a block can come to by steps, frames and resets, in any number and
order, each step and frame with a host and a value of `this` of its own. -/
inductive Script.History (block : Block) : Script → Prop where
  | fresh : History block (.fresh block)
  | step {σ : Type} {host : Host σ} {base : Option Value} {script next : Script}
      {outcome : Option Status} : History block script →
      Gives (script.step host base) (outcome, next) → History block next
  | run {σ : Type} {host : Host σ} {base : Option Value} {script next : Script} {finished : Bool} :
      History block script → Gives (script.run host base) (finished, next) → History block next
  | reset {script : Script} : History block script → History block script.reset

/-- A reset leads nowhere new. -/
theorem Script.History.reached {block : Block} {script : Script} (h : script.History block) :
    script.Reached block := by
  induction h with
  | fresh => exact .fresh
  | step _ hstep ih => exact .step ih hstep
  | run _ hrun ih => exact .run ih hrun
  | reset _ ih =>
    obtain ⟨hblock, hform⟩ := lasting_form.reached ih
    rw [Script.reset, hblock, block_reset_eq_fresh hform]
    exact .fresh

/-! ## Forward -/

section Forward
variable {rows : List (Row σ)} {base : Option Value} {state next : BlockState}

theorem cursor_le_of_step {outcome : Option Status}
    (h : Gives (stepRows rows base state) (outcome, next)) : state.cursor ≤ next.cursor := by
  rcases gives_step h with ⟨-, rfl, -⟩ | ⟨status, -, st⟩
  · exact Nat.le_refl _
  · exact st.cursor_le

theorem cursor_le_of_run {finished : Bool} (h : Gives (runRows rows base state) (finished, next)) :
    state.cursor ≤ next.cursor := by
  apply run_keeps (P := fun mid => state.cursor ≤ mid.cursor) ?_ (Nat.le_refl _) h
  intro mid outcome later hmid hstep
  exact Nat.le_trans hmid (cursor_le_of_step hstep)

end Forward

/-! ## Inside the block -/

/-- The cursor stands at a statement of the block or right behind the last one. -/
def BlockState.Within (block : Block) (state : BlockState) : Prop := state.cursor ≤ block.length

/-- That the cursor stays within its block lasts: it moves only from a statement that is there. -/
theorem lasting_within : Lasting BlockState.Within where
  fresh := fun block => Nat.zero_le block.length
  step := by
    intro σ host block base state next outcome ht h
    unfold BlockState.Within
    rcases gives_step h with ⟨-, rfl, -⟩ | ⟨status, -, st⟩
    · exact ht.1
    · obtain ⟨row, -, -, hrow, -⟩ := st.here
      have hlt : state.cursor < (rowsOf host block).length := (List.getElem?_eq_some_iff.mp hrow).1
      rw [st.cursor, ← length_rowsOf host block]
      exact cursorAfter_le hlt status

/-- A frame says that it is finished just if it leaves the cursor behind the last statement. -/
theorem finished_iff_of_run {host : Host σ} {block : Block} {base : Option Value}
    {state next : BlockState} {finished : Bool} (ht : state.Throughout BlockState.Within block)
    (h : Gives (runRows (rowsOf host block) base state) (finished, next)) :
    finished = true ↔ next.cursor = block.length := by
  have hle : next.cursor ≤ block.length :=
    (lasting_within.run_throughout (fun s _ => lasting_within.evaluate host s) ht h).1
  cases finished with
  | true =>
    have hlength : state.statements.length = (rowsOf host block).length := by
      rw [length_rowsOf, ht.length]
    have hge := finished_of_run hlength h
    rw [length_rowsOf] at hge
    exact ⟨fun _ => Nat.le_antisymm hle hge, fun _ => rfl⟩
  | false =>
    have hlt := held_of_run h
    rw [length_rowsOf] at hlt
    constructor
    · intro hfalse
      cases hfalse
    · omega

/-! ## At the end -/

/-- A call that plays a script. -/
inductive Script.Move (σ : Type) where
  | step (host : Host σ) (base : Option Value)
  | run (host : Host σ) (base : Option Value)

/-- The script after a call. -/
def Script.move (script : Script) : Script.Move σ → Play σ Script
  | .step host base => do return (← script.step host base).2
  | .run host base => do return (← script.run host base).2

/-- The script after calls, one after the other. -/
def Script.moveAll (script : Script) (moves : List (Script.Move σ)) : Play σ Script :=
  moves.foldlM Script.move script

section Finished
variable {script : Script} (hend : script.size ≤ script.cursor)
include hend

theorem step_finished (host : Host σ) (base : Option Value) :
    script.step host base = pure (none, script) := by
  have hrow : (rowsOf host script.block)[script.state.cursor]? = none := by
    rw [List.getElem?_eq_none_iff, length_rowsOf]
    exact hend
  simp [Script.step, BlockState.step, stepRows, hrow]

theorem run_finished (host : Host σ) (base : Option Value) :
    script.run host base = pure (true, script) := by
  have hlength : (rowsOf host script.block).length ≤ script.state.cursor := by
    rw [length_rowsOf]
    exact hend
  simp [Script.run, BlockState.run, runRows_finished hlength]

/-- A finished script asks nothing of any host and stays as it is, whatever is called. -/
theorem moveAll_finished (moves : List (Script.Move σ)) : script.moveAll moves = pure script := by
  induction moves with
  | nil => rfl
  | cons move moves ih =>
    have hmove : script.move move = pure script := by
      cases move with
      | step host base => simp [Script.move, step_finished hend]
      | run host base => simp [Script.move, run_finished hend]
    rw [Script.moveAll, List.foldlM_cons, hmove, pure_bind]
    exact ih

end Finished

/-! ## Every history -/

/-- **The cursor moves forward, and stays behind the last statement.** After any steps, frames and
resets, the cursor of a script stands in its block or right behind it, and so do those of the bodies
inside. A step or a frame never takes it back, and a frame says that it is finished just if it leaves
the cursor behind the last statement. Once it is there, a step finds nothing and a frame is finished at
once, and no further steps and frames, in any number and order, ask anything of a host or change
anything in the script. -/
theorem cursor_moves_forward {block : Block} {script : Script} (h : script.History block) :
    (script.size = block.length ∧ script.cursor ≤ script.size ∧
      script.state.Throughout BlockState.Within block) ∧
    (∀ {σ : Type} (host : Host σ) (base : Option Value) (outcome : Option Status) (next : Script),
      Gives (script.step host base) (outcome, next) → script.cursor ≤ next.cursor) ∧
    (∀ {σ : Type} (host : Host σ) (base : Option Value) (finished : Bool) (next : Script),
      Gives (script.run host base) (finished, next) →
        script.cursor ≤ next.cursor ∧ (finished = true ↔ next.cursor = next.size)) ∧
    (script.cursor = script.size → ∀ {σ : Type},
      (∀ (host : Host σ) (base : Option Value), script.step host base = pure (none, script) ∧
        script.run host base = pure (true, script)) ∧
      ∀ moves : List (Script.Move σ), script.moveAll moves = pure script) := by
  obtain ⟨hblock, hwithin⟩ := lasting_within.reached h.reached
  subst hblock
  refine ⟨⟨rfl, hwithin.1, hwithin⟩, ?_, ?_, ?_⟩
  · intro σ host base outcome next hstep
    obtain ⟨⟨status, state⟩, hstate, heq⟩ := gives_map hstep
    cases heq
    exact cursor_le_of_step hstate
  · intro σ host base finished next hrun
    obtain ⟨⟨done, state⟩, hstate, heq⟩ := gives_map hrun
    cases heq
    exact ⟨cursor_le_of_run hstate, finished_iff_of_run hwithin hstate⟩
  · intro hend σ
    have hle : script.size ≤ script.cursor := Nat.le_of_eq hend.symm
    exact ⟨fun host base => ⟨step_finished hle host base, run_finished hle host base⟩,
      moveAll_finished hle⟩

/-! ## A run as an example -/

/-- A host that answers every call alike. -/
def Host.answering (answer : Answer) : Host Unit :=
  ⟨fun _ _ => ⟨answer, (), []⟩, fun _ _ => ⟨[], (), []⟩⟩

/-- A block that takes an arm with an `each` in it, passes over the other arm, and calls three times,
the second time alongside the first. -/
def detour : Block :=
  [[.conditional .ifArm [] "1" [[.each [.this] [[.constant "a"]]]]],
    [.conditional .elseArm [] "1" [[.this]]],
    [.method "wait" [] false], [.method "wait" [] true], [.method "wait" [] false]]

/-- The progress through the block when it has taken its arm: the cursor, and how far the calls are. -/
def detourState (cursor : Nat) (calls : List StatementState) : BlockState :=
  ⟨cursor, ⟨1, .conditional (some true) ⟨1, [⟨1, .each (some [(.int 1, ⟨1, [⟨1, .plain⟩]⟩)])⟩]⟩⟩ ::
    ⟨0, .conditional none ⟨0, [⟨0, .plain⟩]⟩⟩ :: calls⟩

/-- A script after one more frame, with a list of one member for `this`. -/
def Script.played (host : Host Unit) (script : Script) : Script :=
  ((script.run host (some (.list [.int 1]))).run ⟨(), #[]⟩).1.2

/-- A pending call holds the first frame of the block up, and the call alongside is made all the same. -/
theorem played_detour (answer : Answer) :
    (Script.fresh detour).played (.answering answer) = ⟨detour,
      if answer.isPending then detourState 2 [⟨1, .plain⟩, ⟨1, .plain⟩, ⟨0, .plain⟩]
      else detourState 5 [⟨1, .plain⟩, ⟨1, .plain⟩, ⟨1, .plain⟩]⟩ := by
  have hyes : Expr.evalCondition ['1'] = .ok true := by cbv
  cases answer <;>
    simp [detour, detourState, Script.played, sleepName, hyes, Host.answering, Script.run,
      Script.fresh, BlockState.run, BlockState.fresh, freshStates, StatementState.fresh, rowsOf,
      runRows, runSteps, stepRows, evaluate, playConditional, fixGuard, test, values, splice,
      playEach, fixMembers, enumerate, value, valueBy, Answer.ofBase, Answer.toValue?, membersOf,
      distinct, playMembers, chain, follow, playChain, ask, Play.after, Answer.isPending,
      Status.blocks, advance, pastArms, bodyStatus, tickAlong, Statement.isAlternative,
      Statement.isSimultaneous, note, modify, modifyGet, MonadStateOf.modifyGet, StateT.modifyGet,
      StateT.run, StateT.bind, StateT.pure, bind, pure]

theorem history_played {block : Block} {script : Script} (h : script.History block)
    (host : Host Unit) : (script.played host).History block := .run h ⟨⟨(), #[]⟩, rfl⟩

/-- The block in the middle of its calls. -/
def underway : Script := ⟨detour, detourState 2 [⟨1, .plain⟩, ⟨1, .plain⟩, ⟨0, .plain⟩]⟩

theorem history_underway : underway.History detour := by
  have hfresh : (Script.fresh detour).History detour := .fresh
  have h := history_played hfresh (.answering .pending)
  rwa [played_detour] at h

/-- The block at its end. -/
def arrived : Script := ⟨detour, detourState 5 [⟨1, .plain⟩, ⟨1, .plain⟩, ⟨1, .plain⟩]⟩

/-- Held up, rewound and played to the end, which is for good. -/
theorem cursor_moves_forward_detour :
    underway.History detour ∧ arrived.History detour ∧ arrived.cursor = arrived.size ∧
    (∀ (host : Host Unit) (base : Option Value) (finished : Bool) (next : Script),
      Gives (underway.run host base) (finished, next) → 2 ≤ next.cursor) ∧
    ∀ moves : List (Script.Move Unit), arrived.moveAll moves = pure arrived := by
  have harrived : arrived.History detour := by
    have hreset : underway.reset = .fresh detour := by
      obtain ⟨-, hform⟩ := lasting_form.reached history_underway.reached
      exact congrArg (Script.mk detour) (block_reset_eq_fresh hform)
    have h := history_played (.reset history_underway) (.answering .absent)
    rwa [hreset, played_detour] at h
  refine ⟨history_underway, harrived, rfl, ?_, ?_⟩
  · intro host base finished next hrun
    exact ((cursor_moves_forward history_underway).2.2.1 host base finished next hrun).1
  · exact ((cursor_moves_forward harrived).2.2.2 rfl).2

end Cutscene
