import Cutscene.Proofs.Play.Cursor
import Cutscene.Proofs.Play.Fixed

/-!
The state of a script always has the form of its block.

A statement that plays a body needs a memory of its own kind, and in it a state for every statement of
the body. A state of the form of its block has all of that, at every depth. That nothing is ever missing
while a frame is played, also in the states between its first step and its last, is said by a second
evaluation, which does something else wherever a statement lacks what it needs (`evaluateOr`). Whatever
that is, it plays the same from every state that has its form (`evaluateOr_eq`, by induction over the
statement). `state_has_form` puts the two together for every history.
-/
namespace Cutscene

open Play

variable {σ : Type}

/-! ## Evaluation with something else for what is missing -/

namespace Play

mutual

/-- Evaluate a statement for one frame; but if it plays a body and has no memory of its kind, or not as
many states for a body as the body has statements, do `amiss` instead. -/
def evaluateOr (host : Host σ) (amiss : Play σ (Status × StatementState)) :
    List Link → Option Value → StatementState → Play σ (Status × StatementState)
  | .conditional _ params template body :: _, base, ⟨frames, .conditional guard progress⟩ =>
    if progress.statements.length = body.length then do
      let (status, link) ← playConditional host params template (rowsOr host amiss body) base
        (frames + 1) guard progress
      return (status, ⟨frames + 1, link⟩)
    else amiss
  | .each subject body :: _, base, ⟨frames, .each members⟩ =>
    if (members.getD []).all fun member => member.2.statements.length = body.length then do
      let (status, link) ←
        playEach host subject (.fresh body) (rowsOr host amiss body) base (frames + 1) members
      return (status, ⟨frames + 1, link⟩)
    else amiss
  | .range low high body :: _, base, ⟨frames, .range bounds counter progress⟩ =>
    if progress.statements.length = body.length then do
      let (status, link) ← playRange host low high (rowsOr host amiss body) base (frames + 1)
        bounds counter progress
      return (status, ⟨frames + 1, link⟩)
    else amiss
  | .conditional _ _ _ _ :: _, _, _ => amiss
  | .each _ _ :: _, _, _ => amiss
  | .range _ _ _ :: _, _, _ => amiss
  | statement, base, state => evaluate host statement base state

/-- The statements of a block made ready for being evaluated like that. -/
def rowsOr (host : Host σ) (amiss : Play σ (Status × StatementState)) :
    List (List Link) → List (Row σ)
  | [] => []
  | statement :: statements =>
    ⟨Statement.isSimultaneous statement, Statement.isAlternative statement,
      fun base state => evaluateOr host amiss statement base state⟩ :: rowsOr host amiss statements

end

theorem rowsOr_eq_map (host : Host σ) (amiss : Play σ (Status × StatementState)) (block : Block) :
    rowsOr host amiss block = block.map fun statement =>
      ⟨statement.isSimultaneous, statement.isAlternative,
        fun base state => evaluateOr host amiss statement base state⟩ := by
  induction block with
  | nil => simp [rowsOr]
  | cons statement block ih => simp [rowsOr, ih]

end Play

/-! ## Nothing is missing -/

/-- Wherever the state of the statement has its form, nothing is missing. -/
def Play.NeverAmiss (host : Host σ) (amiss : Play σ (Status × StatementState))
    (statement : Statement) : Prop :=
  ∀ state : StatementState, state.Throughout (fun _ _ => True) statement → ∀ base,
    evaluateOr host amiss statement base state = evaluate host statement base state

section Body
variable {host : Host σ} {amiss : Play σ (Status × StatementState)} {body : Block}
  (never : ∀ statement ∈ body, NeverAmiss host amiss statement)
include never

theorem stepRows_or {progress : BlockState} (h : progress.Formed body) (base : Option Value) :
    stepRows (rowsOr host amiss body) base progress = stepRows (rowsOf host body) base progress := by
  rw [rowsOr_eq_map, rowsOf_eq_map]
  apply stepRows_same
  refine ⟨?_, ?_, ?_⟩
  · simp [rowOf]
  · simp [rowOf]
  · intro n row row' state hr hr' hs
    rw [List.getElem?_map] at hr hr'
    obtain ⟨statement, hb, rfl⟩ := Option.map_eq_some_iff.mp hr
    rw [hb] at hr'
    cases hr'
    exact never statement (List.mem_of_getElem? hb) state (h.statement hb hs) base

theorem runRows_or {progress : BlockState} (h : progress.Formed body) (base : Option Value) :
    runRows (rowsOr host amiss body) base progress = runRows (rowsOf host body) base progress := by
  apply runRows_same (P := BlockState.Formed body) _ _ _ h
  · rw [rowsOr_eq_map, rowsOf_eq_map, List.length_map, List.length_map]
  · intro state hstate
    exact stepRows_or never hstate base
  · intro state outcome next hstate hstep
    exact lasting_form.step_throughout (fun s _ => lasting_form.evaluate host s) hstate hstep

theorem playMembers_or {members : List (Value × BlockState)}
    (h : ∀ member ∈ members, member.2.Formed body) :
    playMembers (rowsOr host amiss body) members = playMembers (rowsOf host body) members := by
  induction members with
  | nil => rfl
  | cons first members ih =>
    have hfirst := runRows_or never (h first List.mem_cons_self) (some first.1)
    have hrest := ih fun member hm => h member (List.mem_cons_of_mem _ hm)
    simp only [playMembers, hfirst, hrest]

theorem playCounts_or (more : Nat) (counter : Int64) {progress : BlockState}
    (h : progress.Formed body) (base : Option Value) :
    playCounts (rowsOr host amiss body) base more counter progress =
      playCounts (rowsOf host body) base more counter progress := by
  induction more generalizing counter progress with
  | zero => rw [playCounts, playCounts]
  | succ more ih =>
    rw [playCounts, playCounts, runRows_or never h]
    apply bind_eq_of_gives
    intro played hrun
    obtain ⟨finished, next⟩ := played
    cases finished with
    | true =>
      -- the body starts anew, and a reset body is a fresh one
      have hreset : next.reset = .fresh body := block_reset_eq_fresh (formed_run h hrun)
      simp only [if_true, hreset]
      exact ih (counter + 1) (formed_fresh body)
    | false => simp only [Bool.false_eq_true, if_false]

theorem playEach_or (subject : Statement) {members : Option (List (Value × BlockState))}
    (h : ∀ listed, members = some listed → ∀ member ∈ listed, member.2.Formed body)
    (base : Option Value) (frame : Nat) :
    playEach host subject (.fresh body) (rowsOr host amiss body) base frame members =
      playEach host subject (.fresh body) (rowsOf host body) base frame members := by
  apply bind_eq_of_gives
  intro listed hlisted
  have hformed : ∀ member ∈ listed, member.2.Formed body := by
    cases members with
    | some members =>
      rw [gives_pure hlisted]
      exact h members rfl
    | none =>
      -- those listed now start with fresh bodies
      obtain ⟨found, -, hlisted⟩ := gives_bind hlisted
      obtain ⟨-, -, hlisted⟩ := gives_bind hlisted
      cases gives_pure hlisted
      intro member hm
      obtain ⟨value, -, rfl⟩ := List.mem_map.mp hm
      exact formed_fresh body
  simp only [playMembers_or never hformed]

end Body

/-- **Nothing is ever missing** where a state has its form, in this frame and in all that it plays. The
induction is over the statement: the bodies that it plays have the form of theirs. -/
theorem evaluateOr_eq (host : Host σ) (amiss : Play σ (Status × StatementState))
    (statement : List Link) : NeverAmiss host amiss statement := by
  intro state h base
  obtain ⟨frames, link⟩ := state
  cases statement with
  | nil => simp only [evaluateOr]
  | cons first tail =>
    cases first with
    | conditional arm params template body =>
      have never : ∀ s ∈ body, NeverAmiss host amiss s := fun s _ => evaluateOr_eq host amiss s
      obtain ⟨guard, progress, hlink, hbody⟩ := h.conditional
      cases hlink
      simp only [evaluateOr, if_pos hbody.length, evaluate, playConditional, runRows_or never hbody]
    | each subject body =>
      have never : ∀ s ∈ body, NeverAmiss host amiss s := fun s _ => evaluateOr_eq host amiss s
      obtain ⟨members, hlink, hmembers⟩ := h.each
      cases hlink
      have hlengths : ((members.getD []).all fun member =>
          member.2.statements.length = body.length) = true := by
        apply List.all_eq_true.mpr
        intro member hm
        cases members with
        | none => cases hm
        | some listed => exact decide_eq_true (hmembers listed rfl member hm).length
      simp only [evaluateOr, if_pos hlengths, evaluate, playEach_or never subject hmembers]
    | range low high body =>
      have never : ∀ s ∈ body, NeverAmiss host amiss s := fun s _ => evaluateOr_eq host amiss s
      obtain ⟨bounds, counter, progress, hlink, hbody⟩ := h.range
      cases hlink
      simp only [evaluateOr, if_pos hbody.length, evaluate, playRange, playCounts_or never _ _ hbody]
    | method name params simultaneous => simp only [evaluateOr]
    | this => simp only [evaluateOr]
    | constant text => simp only [evaluateOr]
    | object text => simp only [evaluateOr]
termination_by statement
decreasing_by
  all_goals
    subst_vars
    have := List.sizeOf_lt_of_mem ‹_ ∈ _›
    simp only [List.cons.sizeOf_spec, Link.conditional.sizeOf_spec, Link.each.sizeOf_spec,
      Link.range.sizeOf_spec]
    omega

/-! ## Every history -/

/-- **The state of a script has the form of its block.** After any steps, frames and resets, the state
of a script has the form of its block at every depth: as many states as statements, the memory of a
control statement just where the statement is one, and the same again in every body and for every member
listed. There are as many states as statements also after every step on the way of a further frame, so
the one that is looked up is there. And whatever else were done for a control statement without its
memory, or without a state for every statement of its body, every step and every frame is the same, down
to the innermost body. -/
theorem state_has_form {block : Block} {script : Script} (h : script.History block) :
    script.block = block ∧ script.state.Formed block ∧
    (∀ later, script.state.Later block later → later.statements.length = block.length) ∧
    ∀ {σ : Type} (host : Host σ) (amiss : Play σ (Status × StatementState)) (base : Option Value),
      stepRows (rowsOr host amiss block) base script.state = script.state.step host block base ∧
      runRows (rowsOr host amiss block) base script.state = script.state.run host block base := by
  obtain ⟨hblock, hform⟩ := lasting_form.reached h.reached
  refine ⟨hblock, hform, ?_, ?_⟩
  · intro later hlater
    exact (lasting_form.later hform hlater).length
  · intro σ host amiss base
    have never : ∀ s ∈ block, NeverAmiss host amiss s := fun s _ => evaluateOr_eq host amiss s
    exact ⟨stepRows_or never hform base, runRows_or never hform base⟩

/-- For a block of arms, members and calls in the middle of its calls, whatever would be done for an
`each` without its memory. -/
theorem state_has_form_underway : underway.History detour ∧ underway.state.Formed detour ∧
    ∀ (host : Host Unit) (amiss : Play Unit (Status × StatementState)) (base : Option Value),
      evaluateOr host amiss [.each [.this] []] base ⟨0, .plain⟩ = amiss ∧
      runRows (rowsOr host amiss detour) base underway.state = underway.state.run host detour base := by
  obtain ⟨-, hform, -, hsame⟩ := state_has_form history_underway
  refine ⟨history_underway, hform, ?_⟩
  intro host amiss base
  have hmissing : evaluateOr host amiss [.each [.this] []] base ⟨0, .plain⟩ = amiss := by
    simp only [evaluateOr]
  exact ⟨hmissing, (hsame host amiss base).2⟩

end Cutscene
