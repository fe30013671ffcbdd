import Mathlib
import Cutscene.Proofs.Play.Step

/-!
Properties that hold throughout a run, at every depth.

A state has the form of its block: as many statements, a control statement's memory where the
statement is one, and the same again inside every body, also for each member of an `each`.
`Throughout P` says so, and that `P` holds of every block of the tree and the progress through it.
A property that a fresh state has and that one step keeps is `Lasting`; by induction over the tree,
such a property is kept by every evaluation (`Lasting.evaluate`), and so it holds throughout every
state that a script can reach (`Lasting.reached`).

The form of a state is all that a reset leaves of it, hence a reset script is a fresh one
(`reset_eq_fresh`).
-/
namespace Cutscene

open Play

variable {σ : Type} {P : Block → BlockState → Prop}

/-! ## The form of a state -/

mutual

/-- The progress of a statement has the form of the statement, and `P` holds throughout its body. -/
def StatementState.Throughout (P : Block → BlockState → Prop) : List Link → StatementState → Prop
  | .conditional _ _ _ body :: _, ⟨_, .conditional _ state⟩ =>
    P body state ∧ ThroughoutStates P body state.statements
  | .each _ body :: _, ⟨_, .each members⟩ => ∀ listed, members = some listed →
    ∀ member ∈ listed, P body member.2 ∧ ThroughoutStates P body member.2.statements
  | .range _ _ body :: _, ⟨_, .range _ _ state⟩ =>
    P body state ∧ ThroughoutStates P body state.statements
  | .conditional _ _ _ _ :: _, _ => False
  | .each _ _ :: _, _ => False
  | .range _ _ _ :: _, _ => False
  | _, ⟨_, link⟩ => link = .plain

/-- The same of the statements of a block, one by one. -/
def ThroughoutStates (P : Block → BlockState → Prop) :
    List (List Link) → List StatementState → Prop
  | [], states => states = []
  | _ :: _, [] => False
  | statement :: statements, state :: states =>
    state.Throughout P statement ∧ ThroughoutStates P statements states

end

/-- The progress has the form of the block, and `P` holds of every block in it, at every depth. -/
def BlockState.Throughout (P : Block → BlockState → Prop) (block : Block) (state : BlockState) :
    Prop :=
  P block state ∧ ThroughoutStates P block state.statements

/-- The form does not depend on the frames that were counted. -/
theorem StatementState.Throughout.frames {statement : Statement} {n : Nat} {link : LinkState}
    (h : StatementState.Throughout P statement ⟨n, link⟩) (m : Nat) :
    StatementState.Throughout P statement ⟨m, link⟩ := by
  unfold StatementState.Throughout at h ⊢
  split at h
  case h_2 => simp_all only [StatementState.mk.injEq]; exact h
  all_goals simp_all

/-- An arm has the memory of one, and `P` holds throughout its body. -/
theorem StatementState.Throughout.conditional {arm : Arm} {params : List Statement}
    {template : String} {body : Block} {tail : List Link} {state : StatementState}
    (h : state.Throughout P (.conditional arm params template body :: tail)) :
    ∃ guard progress, state.link = .conditional guard progress ∧ progress.Throughout P body := by
  obtain ⟨frames, link⟩ := state
  cases link with
  | conditional guard progress =>
    simp only [StatementState.Throughout] at h
    exact ⟨guard, progress, rfl, h⟩
  | _ => simp [StatementState.Throughout] at h

/-- An `each` has the memory of one, and `P` holds throughout the body of every member. -/
theorem StatementState.Throughout.each {subject : Statement} {body : Block} {tail : List Link}
    {state : StatementState} (h : state.Throughout P (.each subject body :: tail)) :
    ∃ members, state.link = .each members ∧ ∀ listed, members = some listed →
      ∀ member ∈ listed, member.2.Throughout P body := by
  obtain ⟨frames, link⟩ := state
  cases link with
  | each members =>
    simp only [StatementState.Throughout] at h
    exact ⟨members, rfl, h⟩
  | _ => simp [StatementState.Throughout] at h

/-- A range has the memory of one, and `P` holds throughout its body. -/
theorem StatementState.Throughout.range {low high : Statement} {body : Block} {tail : List Link}
    {state : StatementState} (h : state.Throughout P (.range low high body :: tail)) :
    ∃ bounds counter progress, state.link = .range bounds counter progress ∧
      progress.Throughout P body := by
  obtain ⟨frames, link⟩ := state
  cases link with
  | range bounds counter progress =>
    simp only [StatementState.Throughout] at h
    exact ⟨bounds, counter, progress, rfl, h⟩
  | _ => simp [StatementState.Throughout] at h

theorem throughoutStates_iff {block : Block} {states : List StatementState} :
    ThroughoutStates P block states ↔ states.length = block.length ∧
      ∀ (n : Nat) (statement : Statement) (state : StatementState), block[n]? = some statement →
        states[n]? = some state → state.Throughout P statement := by
  induction block generalizing states with
  | nil => cases states <;> simp [ThroughoutStates]
  | cons first block ih =>
    cases states with
    | nil => simp [ThroughoutStates]
    | cons state states =>
      simp only [ThroughoutStates, ih, List.length_cons, Nat.add_right_cancel_iff]
      constructor
      · rintro ⟨hfirst, hlength, hrest⟩
        refine ⟨hlength, fun n s st hs hst => ?_⟩
        cases n with
        | zero => cases hs; cases hst; exact hfirst
        | succ n => exact hrest n s st (by simpa using hs) (by simpa using hst)
      · rintro ⟨hlength, hall⟩
        exact ⟨hall 0 first state rfl rfl, hlength, fun n s st hs hst => hall (n + 1) s st hs hst⟩

theorem BlockState.Throughout.length {block : Block} {state : BlockState}
    (h : state.Throughout P block) : state.statements.length = block.length :=
  (throughoutStates_iff.mp h.2).1

theorem BlockState.Throughout.statement {block : Block} {state : BlockState}
    (h : state.Throughout P block) {n : Nat} {statement : Statement} {progress : StatementState}
    (hs : block[n]? = some statement) (hp : state.statements[n]? = some progress) :
    progress.Throughout P statement :=
  (throughoutStates_iff.mp h.2).2 n statement progress hs hp

/-! ## A reset goes back to the fresh state -/

theorem blockReset_eq (state : BlockState) : state.reset = ⟨0, resetStates state.statements⟩ := by
  obtain ⟨cursor, statements⟩ := state
  simp [BlockState.reset]

theorem resetStates_eq_freshStates {block : Block} {states : List StatementState}
    (h : ∀ statement ∈ block, ∀ state : StatementState, state.Throughout P statement →
      state.reset = .fresh statement)
    (hs : ThroughoutStates P block states) : resetStates states = freshStates block := by
  induction block generalizing states with
  | nil =>
    simp only [ThroughoutStates] at hs
    simp [hs, resetStates, freshStates]
  | cons statement block ih =>
    cases states with
    | nil => simp [ThroughoutStates] at hs
    | cons state states =>
      simp only [ThroughoutStates] at hs
      simp only [resetStates, freshStates]
      rw [h statement (by simp) state hs.1, ih (fun s hm => h s (by simp [hm])) hs.2]

/-- Resetting the progress of a statement leaves its form, which is the fresh progress. -/
theorem statement_reset_eq_fresh (statement : List Link) (state : StatementState)
    (h : state.Throughout P statement) : state.reset = .fresh statement := by
  unfold StatementState.Throughout at h
  split at h
  -- a reset goes into the body of an arm and of a range, and drops the members of an `each`
  case h_1 =>
    have hbody := resetStates_eq_freshStates (fun s _ => statement_reset_eq_fresh s) h.2
    simp [StatementState.reset, LinkState.reset, StatementState.fresh, blockReset_eq, hbody]
  case h_2 => simp [StatementState.reset, LinkState.reset, StatementState.fresh]
  case h_3 =>
    have hbody := resetStates_eq_freshStates (fun s _ => statement_reset_eq_fresh s) h.2
    simp [StatementState.reset, LinkState.reset, StatementState.fresh, blockReset_eq, hbody]
  case h_7 => simp_all [StatementState.reset, LinkState.reset, StatementState.fresh]
  all_goals cases h
termination_by statement
decreasing_by
  all_goals
    subst_vars
    have := List.sizeOf_lt_of_mem ‹_ ∈ _›
    simp only [List.cons.sizeOf_spec, Link.conditional.sizeOf_spec, Link.range.sizeOf_spec]
    omega

/-- Resetting the progress of a block gives its fresh progress. -/
theorem block_reset_eq_fresh {block : Block} {state : BlockState} (h : state.Throughout P block) :
    state.reset = .fresh block := by
  rw [blockReset_eq, BlockState.fresh,
    resetStates_eq_freshStates (fun s _ => statement_reset_eq_fresh s) h.2]

/-! ## Properties that last -/

/-- A statement made ready for playing. -/
def Play.rowOf (host : Host σ) (statement : Statement) : Row σ :=
  ⟨statement.isSimultaneous, statement.isAlternative, fun base state => evaluate host statement base state⟩

theorem Play.rowsOf_eq_map (host : Host σ) (block : Block) :
    rowsOf host block = block.map (rowOf host) := by
  induction block with
  | nil => simp [rowsOf]
  | cons statement block ih => simp [rowsOf, rowOf, ih]

theorem Play.length_rowsOf (host : Host σ) (block : Block) :
    (rowsOf host block).length = block.length := by
  rw [rowsOf_eq_map, List.length_map]

theorem Play.rowsOf_getElem? {host : Host σ} {block : Block} {n : Nat} {row : Row σ}
    (h : (rowsOf host block)[n]? = some row) :
    ∃ statement, block[n]? = some statement ∧ row = rowOf host statement := by
  rw [rowsOf_eq_map, List.getElem?_map] at h
  obtain ⟨statement, hs, hr⟩ := Option.map_eq_some_iff.mp h
  exact ⟨statement, hs, hr.symm⟩

/-- A step leaves the progress of a statement as it was, or evaluates the statement once. -/
theorem Play.evaluated_of_step {host : Host σ} {block : Block} {base : Option Value}
    {state next : BlockState} {outcome : Option Status}
    (h : Gives (stepRows (rowsOf host block) base state) (outcome, next)) {n : Nat}
    {statement : Statement} {before after : StatementState} (hs : block[n]? = some statement)
    (hb : state.statements[n]? = some before) (ha : next.statements[n]? = some after) :
    after = before ∨ ∃ status, Gives (evaluate host statement base before) (status, after) := by
  have same (h : next.statements[n]? = state.statements[n]?) : after = before := by
    rw [ha, hb] at h
    exact Option.some.inj h
  have evaluated {row : Row σ} {before' after' : StatementState} {o : Status}
      (hr : (rowsOf host block)[n]? = some row) (hb' : state.statements[n]? = some before')
      (ha' : next.statements[n]? = some after') (he : Gives (row.evaluate base before') (o, after')) :
      Gives (evaluate host statement base before) (o, after) := by
    obtain ⟨_, hs', rfl⟩ := rowsOf_getElem? hr
    cases hs.symm.trans hs'
    cases hb.symm.trans hb'
    cases ha.symm.trans ha'
    exact he
  rcases gives_step h with ⟨_, rfl, _⟩ | ⟨status, _, st⟩
  · exact Or.inl (same rfl)
  · rcases Nat.lt_trichotomy n state.cursor with hn | rfl | hn
    · exact Or.inl (same (st.behind n hn))
    · obtain ⟨row, before', after', hr, hb', ha', he⟩ := st.here
      exact Or.inr ⟨status, evaluated hr hb' ha' he⟩
    · rcases st.ahead n hn with hsame | ⟨_, row, before', o, after', hr, hb', ha', he, _⟩
      · exact Or.inl (same hsame)
      · exact Or.inr ⟨o, evaluated hr hb' ha' he⟩

/-- A property of a block and the progress through it that holds of fresh progress, and that a step
keeps when it holds throughout, whatever the host. -/
structure Lasting (P : Block → BlockState → Prop) : Prop where
  fresh : ∀ block, P block (.fresh block)
  step : ∀ {σ : Type} {host : Host σ} {block : Block} {base : Option Value}
    {state next : BlockState} {outcome : Option Status}, state.Throughout P block →
    Gives (stepRows (rowsOf host block) base state) (outcome, next) → P block next

namespace Lasting

theorem freshStates_throughout {block : Block}
    (h : ∀ statement ∈ block, (StatementState.fresh statement).Throughout P statement) :
    ThroughoutStates P block (freshStates block) := by
  induction block with
  | nil => simp [ThroughoutStates, freshStates]
  | cons statement block ih =>
    simp only [ThroughoutStates, freshStates]
    exact ⟨h statement (by simp), ih fun s hm => h s (by simp [hm])⟩

theorem freshStatement_throughout (lasting : Lasting P) (statement : List Link) :
    (StatementState.fresh statement).Throughout P statement := by
  unfold StatementState.fresh
  split
  case h_1 body _ =>
    simp only [StatementState.Throughout]
    exact ⟨lasting.fresh body, freshStates_throughout fun s _ => freshStatement_throughout lasting s⟩
  case h_2 => simp [StatementState.Throughout]
  case h_3 body _ =>
    simp only [StatementState.Throughout]
    exact ⟨lasting.fresh body, freshStates_throughout fun s _ => freshStatement_throughout lasting s⟩
  case h_4 => simp_all [StatementState.Throughout]
termination_by statement
decreasing_by
  all_goals
    subst_vars
    have := List.sizeOf_lt_of_mem ‹_ ∈ _›
    simp only [List.cons.sizeOf_spec, Link.conditional.sizeOf_spec, Link.range.sizeOf_spec]
    omega

/-- A lasting property holds throughout a fresh state. -/
theorem throughout_fresh (lasting : Lasting P) (block : Block) :
    (BlockState.fresh block).Throughout P block :=
  ⟨lasting.fresh block, freshStates_throughout fun s _ => freshStatement_throughout lasting s⟩

/-- Evaluating the statement, whatever the host, keeps `P` throughout its progress. -/
def Kept (P : Block → BlockState → Prop) (host : Host σ) (statement : Statement) : Prop :=
  ∀ base before status after, before.Throughout P statement →
    Gives (evaluate host statement base before) (status, after) → after.Throughout P statement

/-! ### Bodies whose statements keep the property -/

section Body
variable {host : Host σ} {block : Block} {base : Option Value} {state next : BlockState}

theorem step_throughout (lasting : Lasting P) (kept : ∀ statement ∈ block, Kept P host statement)
    {outcome : Option Status} (ht : state.Throughout P block)
    (h : Gives (stepRows (rowsOf host block) base state) (outcome, next)) :
    next.Throughout P block := by
  have hlength := length_of_step h
  refine ⟨lasting.step ht h, throughoutStates_iff.mpr ⟨hlength.trans ht.length, ?_⟩⟩
  intro n statement after hs ha
  have hlt : n < state.statements.length := by
    rw [← hlength]
    exact (List.getElem?_eq_some_iff.mp ha).1
  have hb : state.statements[n]? = some state.statements[n] := List.getElem?_eq_getElem hlt
  rcases evaluated_of_step h hs hb ha with rfl | ⟨status, he⟩
  · exact ht.statement hs hb
  · exact kept statement (List.mem_of_getElem? hs) base _ status after (ht.statement hs hb) he

theorem run_throughout (lasting : Lasting P) (kept : ∀ statement ∈ block, Kept P host statement)
    {finished : Bool} (ht : state.Throughout P block)
    (h : Gives (runRows (rowsOf host block) base state) (finished, next)) :
    next.Throughout P block :=
  run_keeps (fun _ _ _ hs hstep => step_throughout lasting kept hs hstep) ht h

theorem members_throughout (lasting : Lasting P) (kept : ∀ statement ∈ block, Kept P host statement)
    {members played : List (Value × BlockState)} {finished : Bool}
    (ht : ∀ member ∈ members, member.2.Throughout P block)
    (h : Gives (playMembers (rowsOf host block) members) (finished, played)) :
    ∀ member ∈ played, member.2.Throughout P block := by
  induction members generalizing finished played with
  | nil =>
    obtain ⟨_, rfl⟩ := Prod.mk.inj (gives_pure h)
    simp
  | cons first members ih =>
    obtain ⟨⟨done, body⟩, hrun, h⟩ := gives_bind h
    obtain ⟨⟨others, rest⟩, hrest, h⟩ := gives_map h
    obtain ⟨_, rfl⟩ := Prod.mk.inj h
    have hfirst := run_throughout lasting kept (ht first (by simp)) hrun
    have hothers := ih (fun m hm => ht m (by simp [hm])) hrest
    intro member hm
    rcases List.mem_cons.mp hm with rfl | hm
    · exact hfirst
    · exact hothers member hm

theorem counts_throughout (lasting : Lasting P) (kept : ∀ statement ∈ block, Kept P host statement)
    {more : Nat} {counter last : Int64} {finished : Bool} (ht : state.Throughout P block)
    (h : Gives (playCounts (rowsOf host block) base more counter state) (finished, last, next)) :
    next.Throughout P block := by
  induction more generalizing counter state with
  | zero =>
    obtain ⟨_, h⟩ := Prod.mk.inj (gives_pure h)
    obtain ⟨_, rfl⟩ := Prod.mk.inj h
    exact ht
  | succ more ih =>
    obtain ⟨⟨done, body⟩, hrun, h⟩ := gives_bind h
    have hbody := run_throughout lasting kept ht hrun
    rcases gives_ite h with ⟨_, h⟩ | ⟨_, h⟩
    · -- the next count starts from a reset body, which is a fresh one
      rw [block_reset_eq_fresh hbody] at h
      exact ih (lasting.throughout_fresh block) h
    · obtain ⟨_, h⟩ := Prod.mk.inj (gives_pure h)
      obtain ⟨_, rfl⟩ := Prod.mk.inj h
      exact hbody

end Body

/-- **Every evaluation keeps a lasting property.** The induction is over the statement: a control
statement plays its body, whose statements keep the property by induction. -/
theorem evaluate (lasting : Lasting P) (host : Host σ) (statement : Statement) :
    Kept P host statement := by
  intro base before status after ht h
  obtain ⟨frames, link⟩ := before
  obtain ⟨frames', link'⟩ := after
  rcases (gives_evaluate h).2 with ⟨arm, params, template, body, tail, guard, state, rfl, rfl, h⟩ |
    ⟨subject, body, tail, members, rfl, rfl, h⟩ |
    ⟨low, high, body, tail, bounds, counter, state, rfl, rfl, h⟩ | rfl
  · -- an arm: its body is as it was, or was played for a frame
    have kept : ∀ s ∈ body, Kept P host s := fun s _ => evaluate lasting host s
    simp only [StatementState.Throughout] at ht
    obtain ⟨met, played, rfl, _, ⟨_, _, rfl⟩ | ⟨_, finished, hrun, _⟩⟩ := gives_playConditional h
    · simpa only [StatementState.Throughout] using ht
    · have hplayed : played.Throughout P body := run_throughout lasting kept ht hrun
      simpa only [StatementState.Throughout, BlockState.Throughout] using hplayed
  · -- an `each`: its members are those it had, or new ones with fresh bodies
    have kept : ∀ s ∈ body, Kept P host s := fun s _ => evaluate lasting host s
    simp only [StatementState.Throughout] at ht
    obtain ⟨listed, finished, played, rfl, _, hplay, hlisted⟩ := gives_playEach h
    have hmembers : ∀ member ∈ listed, member.2.Throughout P body := by
      intro member hm
      rcases hlisted with rfl | ⟨_, hfresh⟩
      · exact ht listed rfl member hm
      · rw [hfresh member hm]; exact lasting.throughout_fresh body
    have hplayed := members_throughout lasting kept hmembers hplay
    simp only [StatementState.Throughout]
    intro listed' he member hm
    cases he
    exact hplayed member hm
  · -- a range: its body is played once for every count of the frame
    have kept : ∀ s ∈ body, Kept P host s := fun s _ => evaluate lasting host s
    simp only [StatementState.Throughout] at ht
    obtain ⟨fixed, start, last, played, finished, rfl, _, hplay, _⟩ := gives_playRange h
    have hplayed : played.Throughout P body := counts_throughout lasting kept ht hplay
    simpa only [StatementState.Throughout, BlockState.Throughout] using hplayed
  · exact ht.frames frames'
termination_by statement
decreasing_by
  all_goals
    subst_vars
    have := List.sizeOf_lt_of_mem ‹_ ∈ _›
    simp only [List.cons.sizeOf_spec, Link.conditional.sizeOf_spec, Link.each.sizeOf_spec,
      Link.range.sizeOf_spec]
    omega

end Lasting

/-! ## States that a script can reach -/

/-- The states that a script over a block can come to by steps and frames, in any number and order,
each with a host and a value of `this` of its own. -/
inductive Script.Reached (block : Block) : Script → Prop where
  | fresh : Reached block (.fresh block)
  | step {σ : Type} {host : Host σ} {base : Option Value} {script next : Script}
      {outcome : Option Status} : Reached block script →
      Gives (script.step host base) (outcome, next) → Reached block next
  | run {σ : Type} {host : Host σ} {base : Option Value} {script next : Script} {finished : Bool} :
      Reached block script → Gives (script.run host base) (finished, next) → Reached block next

/-- A lasting property holds throughout every state that a script can reach. -/
theorem Lasting.reached (lasting : Lasting P) {block : Block} {script : Script}
    (h : script.Reached block) : script.block = block ∧ script.state.Throughout P block := by
  have kept : ∀ {τ : Type} (host : Host τ), ∀ s ∈ block, Kept P host s :=
    fun host s _ => lasting.evaluate host s
  induction h with
  | fresh => exact ⟨rfl, lasting.throughout_fresh block⟩
  | step _ hstep ih =>
    obtain ⟨rfl, ht⟩ := ih
    obtain ⟨⟨status, state⟩, hstate, h⟩ := gives_map hstep
    cases h
    exact ⟨rfl, step_throughout lasting (kept _) ht hstate⟩
  | run _ hrun ih =>
    obtain ⟨rfl, ht⟩ := ih
    obtain ⟨⟨finished, state⟩, hstate, h⟩ := gives_map hrun
    cases h
    exact ⟨rfl, run_throughout lasting (kept _) ht hstate⟩

/-- That a state has the form of its block, and nothing more, is lasting. -/
theorem lasting_form : Lasting fun _ _ => True := ⟨fun _ => trivial, fun _ _ => trivial⟩

/-- The state has the form of the block, at every depth. -/
abbrev BlockState.Formed (block : Block) (state : BlockState) : Prop :=
  state.Throughout (fun _ _ => True) block

theorem formed_fresh (block : Block) : (BlockState.fresh block).Formed block :=
  lasting_form.throughout_fresh block

theorem formed_run {host : Host σ} {block : Block} {base : Option Value} {state next : BlockState}
    {finished : Bool} (h : state.Formed block)
    (hrun : Gives (runRows (rowsOf host block) base state) (finished, next)) : next.Formed block :=
  lasting_form.run_throughout (fun s _ => lasting_form.evaluate host s) h hrun

/-- **A reset script is a fresh one.** Whatever steps and frames a script has behind it, resetting
it gives the very script that it was before the first of them, so whatever is done with it from
there is what a fresh script does. -/
theorem reset_eq_fresh {block : Block} {script : Script} (h : script.Reached block) :
    script.reset = .fresh block ∧ ∀ {σ : Type} (host : Host σ) (base : Option Value),
      script.reset.step host base = (Script.fresh block).step host base ∧
      script.reset.run host base = (Script.fresh block).run host base := by
  obtain ⟨hblock, hform⟩ := lasting_form.reached h
  have hreset : script.reset = .fresh block := by
    rw [Script.reset, Script.fresh, hblock, block_reset_eq_fresh hform]
  exact ⟨hreset, fun host base => by rw [hreset]; exact ⟨rfl, rfl⟩⟩

/-- A host whose answer to every call is that it is not finished. -/
def Host.stalling : Host Unit := ⟨fun _ _ => ⟨.pending, (), []⟩, fun _ _ => ⟨[], (), []⟩⟩

/-- A block that waits once for every member of `this`. -/
def waiting : Block := [[.each [.this] [[.method "wait" [] false]]]]

/-- The waiting block after a frame in which it was held up. -/
def held : Script :=
  ((Script.run .stalling (some (.list [.int 1])) (.fresh waiting)).run ⟨(), #[]⟩).1.2

/-- The frame has listed a member and counted a frame of its body, and the reset forgets both. -/
theorem reset_held : held.Reached waiting ∧
    held.state.statements = [⟨1, .each (some [(.int 1, ⟨0, [⟨1, .plain⟩]⟩)])⟩] ∧
    held.reset = .fresh waiting := by
  have reached : held.Reached waiting := .run .fresh ⟨⟨(), #[]⟩, rfl⟩
  refine ⟨reached, ?_, (reset_eq_fresh reached).1⟩
  simp [held, waiting, Host.stalling, Script.run, Script.fresh, BlockState.run, BlockState.fresh,
    freshStates, StatementState.fresh, rowsOf, runRows, runSteps, stepRows, evaluate, playEach,
    fixMembers, enumerate, value, valueBy, chain, follow, Answer.ofBase, Answer.toValue?, membersOf,
    distinct, playMembers, sleepName, playChain, values, ask, Answer.isPending, Status.blocks,
    advance, tickAlong, bodyStatus, note, modify, modifyGet, MonadStateOf.modifyGet,
    StateT.modifyGet, StateT.run, StateT.bind, StateT.pure, bind, pure]

end Cutscene
