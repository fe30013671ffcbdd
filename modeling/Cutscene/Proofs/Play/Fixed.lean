import Cutscene.Proofs.Play.Counting

/-!
What a control statement asks, it asks once.

An arm fixes its guard at its first evaluation, an `each` its members and a range its bounds. For as
long as the block goes on by steps and frames (`BlockState.Later`),

* what is fixed stays as it is, and the bodies go on by frames of their own; only the body of a range
  starts anew, and then the counter has gone up (`StatementState.KeepsFixed`);
* the question is not asked again: a block that has other questions in the place of those already
  answered is played in the very same way (`StatementState.Reworded`).

Every evaluation keeps what is fixed (`keepsFixed_evaluate`), and so does every step and every run.
That other questions make no difference is an induction on the rewording, which may reach into the
bodies: these have gone on by frames, so what was fixed inside them still is
(`StatementState.Reworded.sameFrom`). The two together are `fixed_for_good`.
-/
namespace Cutscene

open Play

variable {σ : Type}

/-! ## Going on from a state -/

/-- The states that progress through a block can come to by further steps and frames, in any number
and order, each with a host and a value of `this` of its own. -/
inductive BlockState.Later (block : Block) (state : BlockState) : BlockState → Prop where
  | here : Later block state state
  | step {σ : Type} {host : Host σ} {base : Option Value} {mid next : BlockState}
      {outcome : Option Status} : Later block state mid →
      Gives (mid.step host block base) (outcome, next) → Later block state next
  | run {σ : Type} {host : Host σ} {base : Option Value} {mid next : BlockState} {finished : Bool} :
      Later block state mid → Gives (mid.run host block base) (finished, next) →
      Later block state next

theorem BlockState.Later.trans {block : Block} {state mid next : BlockState}
    (h : state.Later block mid) (h' : mid.Later block next) : state.Later block next := by
  induction h' with
  | here => exact h
  | step _ hstep ih => exact .step ih hstep
  | run _ hrun ih => exact .run ih hrun

/-- A lasting property that holds throughout a state holds throughout every later one. -/
theorem Lasting.later {P : Block → BlockState → Prop} (lasting : Lasting P) {block : Block}
    {state later : BlockState} (ht : state.Throughout P block) (h : state.Later block later) :
    later.Throughout P block := by
  induction h with
  | here => exact ht
  | step _ hstep ih => exact step_throughout lasting (fun s _ => lasting.evaluate _ s) ih hstep
  | run _ hrun ih => exact run_throughout lasting (fun s _ => lasting.evaluate _ s) ih hrun

/-- The progress through every block inside a reached state is itself reached. -/
theorem lasting_reached : Lasting fun block state => Script.Reached block ⟨block, state⟩ where
  fresh := fun _ => .fresh
  step := by
    intro _ host block base state next outcome ht h
    exact .step ht.1 (gives_mapped h)

/-! ## What is fixed -/

/-- The same members in the same order, each with a body that has gone on. -/
def MembersLater (body : Block) : List (Value × BlockState) → List (Value × BlockState) → Prop :=
  List.Forall₂ fun member member' => member'.1 = member.1 ∧ member.2.Later body member'.2

theorem MembersLater.trans {body : Block} {listed mid listed' : List (Value × BlockState)}
    (h : MembersLater body listed mid) (h' : MembersLater body mid listed') :
    MembersLater body listed listed' := by
  induction h generalizing listed' with
  | nil =>
    cases h'
    exact .nil
  | cons hfirst _ ih =>
    cases h' with
    | cons hfirst' hrest =>
      exact .cons ⟨hfirst'.1.trans hfirst.1, hfirst.2.trans hfirst'.2⟩ (ih hrest)

/-- From one state of a statement to a later one: what its control link has fixed is the same, and the
progress through its bodies has gone on. A range whose counter has gone up has started its body anew. -/
structure StatementState.KeepsFixed (statement : Statement) (before after : StatementState) : Prop where
  guard : ∀ {arm params template body tail met progress},
    statement = .conditional arm params template body :: tail →
    before.link = .conditional (some met) progress →
    ∃ progress', after.link = .conditional (some met) progress' ∧ progress.Later body progress'
  members : ∀ {subject body tail listed}, statement = .each subject body :: tail →
    before.link = .each (some listed) →
    ∃ listed', after.link = .each (some listed') ∧ MembersLater body listed listed'
  bounds : ∀ {low high body tail fixed counter progress},
    statement = .range low high body :: tail →
    before.link = .range (some fixed) counter progress →
    ∃ counter' progress', after.link = .range (some fixed) counter' progress' ∧
      counter ≤ counter' ∧ (counter' = counter → progress.Later body progress')

theorem keepsFixed_of_link {statement : Statement} {before after : StatementState}
    (h : after.link = before.link) : before.KeepsFixed statement after where
  guard := by
    intro _ _ _ _ _ _ progress _ hlink
    exact ⟨progress, h.trans hlink, .here⟩
  members := by
    intro _ _ _ listed _ hlink
    exact ⟨listed, h.trans hlink, List.forall₂_same.mpr fun _ _ => ⟨rfl, .here⟩⟩
  bounds := by
    intro _ _ _ _ _ counter progress _ hlink
    exact ⟨counter, progress, h.trans hlink, Int64.le_refl counter, fun _ => .here⟩

theorem StatementState.KeepsFixed.trans {statement : Statement} {before mid after : StatementState}
    (h : before.KeepsFixed statement mid) (h' : mid.KeepsFixed statement after) :
    before.KeepsFixed statement after where
  guard := by
    intro _ _ _ _ _ _ _ hs hlink
    obtain ⟨progress, hmid, hlater⟩ := h.guard hs hlink
    obtain ⟨progress', hafter, hlater'⟩ := h'.guard hs hmid
    exact ⟨progress', hafter, hlater.trans hlater'⟩
  members := by
    intro _ _ _ _ hs hlink
    obtain ⟨listed, hmid, hall⟩ := h.members hs hlink
    obtain ⟨listed', hafter, hall'⟩ := h'.members hs hmid
    exact ⟨listed', hafter, hall.trans hall'⟩
  bounds := by
    intro _ _ _ _ _ counter _ hs hlink
    obtain ⟨counter₁, progress₁, hmid, hle, hlater⟩ := h.bounds hs hlink
    obtain ⟨counter₂, progress₂, hafter, hle', hlater'⟩ := h'.bounds hs hmid
    refine ⟨counter₂, progress₂, hafter, Int64.le_trans hle hle', ?_⟩
    intro heq
    -- a counter that is where it was has not moved in between
    have hstay : counter₁ = counter := Int64.le_antisymm (heq ▸ hle') hle
    exact (hlater hstay).trans (hlater' (heq.trans hstay.symm))

/-! ## One evaluation -/

section Evaluation
variable {host : Host σ} {body : Block} {base : Option Value}

/-- Every member is played for a frame. -/
theorem gives_playMembers {members played : List (Value × BlockState)} {finished : Bool}
    (h : Gives (playMembers (rowsOf host body) members) (finished, played)) :
    MembersLater body members played := by
  induction members generalizing finished played with
  | nil =>
    obtain ⟨-, rfl⟩ := Prod.mk.inj (gives_pure h)
    exact .nil
  | cons first members ih =>
    obtain ⟨⟨done, progress⟩, hrun, h⟩ := gives_bind h
    obtain ⟨⟨others, rest⟩, hrest, h⟩ := gives_map h
    obtain ⟨-, rfl⟩ := Prod.mk.inj h
    exact .cons ⟨rfl, .run .here hrun⟩ (ih hrest)

/-- The counter of a range does not go down, and if it stays then the body has gone on. -/
theorem gives_playCounts {counter high last : Int64} {progress after : BlockState} {finished : Bool}
    (h : Gives (playCounts (rowsOf host body) base (countsLeft counter high) counter progress)
      (finished, last, after)) :
    counter ≤ last ∧ (last = counter → progress.Later body after) := by
  obtain ⟨left, hleft⟩ : ∃ left, countsLeft counter high = left := ⟨_, rfl⟩
  induction left generalizing counter progress with
  | zero =>
    rw [hleft] at h
    cases gives_pure h
    exact ⟨Int64.le_refl _, fun _ => .here⟩
  | succ more ih =>
    obtain ⟨hlt, hmore⟩ := lt_of_countsLeft hleft
    have hsucc := toInt_succ_of_lt hlt
    rw [playCounts_while, if_pos hlt] at h
    obtain ⟨⟨done, body'⟩, hrun, h⟩ := gives_bind h
    rcases gives_ite h with ⟨-, h⟩ | ⟨-, h⟩
    · -- the body is reset, and the counter is above where it was for good
      obtain ⟨hle, -⟩ := ih h hmore
      rw [Int64.le_iff_toInt_le, hsucc] at hle
      refine ⟨Int64.le_iff_toInt_le.mpr (by omega), ?_⟩
      rintro rfl
      omega
    · cases gives_pure h
      exact ⟨Int64.le_refl _, fun _ => .run .here hrun⟩

/-- **An evaluation keeps what is fixed.** -/
theorem keepsFixed_evaluate {statement : Statement} {before after : StatementState} {status : Status}
    (h : Gives (evaluate host statement base before) (status, after)) :
    before.KeepsFixed statement after := by
  rcases (gives_evaluate h).2 with ⟨arm, params, template, body, tail, guard, state, rfl, hb, h⟩ |
    ⟨subject, body, tail, members, rfl, hb, h⟩ |
    ⟨low, high, body, tail, bounds, counter, state, rfl, hb, h⟩ | hlink
  · -- an arm: its body is as it was, or was played for a frame
    obtain ⟨met, played, hafter, hfixed, hbody⟩ := gives_playConditional h
    constructor
    · intro _ _ _ _ _ met' progress hs hlink
      cases hs
      obtain ⟨rfl, rfl⟩ := LinkState.conditional.inj (hb.symm.trans hlink)
      cases hfixed met' rfl
      refine ⟨played, hafter, ?_⟩
      rcases hbody with ⟨-, -, rfl⟩ | ⟨-, finished, hrun, -⟩
      · exact .here
      · exact .run .here hrun
    · intro _ _ _ _ hs
      cases hs
    · intro _ _ _ _ _ _ _ hs
      cases hs
  · -- an `each`: the members that it has are played, every one
    obtain ⟨listed, finished, played, hafter, -, hplay, hlisted⟩ := gives_playEach h
    constructor
    · intro _ _ _ _ _ _ _ hs
      cases hs
    · intro _ _ _ listed' hs hlink
      cases hs
      cases LinkState.each.inj (hb.symm.trans hlink)
      rcases hlisted with hsame | ⟨hnone, -⟩
      · cases hsame
        exact ⟨played, hafter, gives_playMembers hplay⟩
      · cases hnone
    · intro _ _ _ _ _ _ _ hs
      cases hs
  · -- a range: it goes on from its counter
    obtain ⟨fixed, start, last, played, finished, hafter, -, hplay, hstart⟩ := gives_playRange h
    constructor
    · intro _ _ _ _ _ _ _ hs
      cases hs
    · intro _ _ _ _ hs
      cases hs
    · intro _ _ _ _ fixed' counter' progress hs hlink
      cases hs
      obtain ⟨rfl, rfl, rfl⟩ := LinkState.range.inj (hb.symm.trans hlink)
      rcases hstart with ⟨hsame, rfl⟩ | ⟨hnone, -⟩
      · cases hsame
        obtain ⟨hle, hlater⟩ := gives_playCounts hplay
        exact ⟨last, played, hafter, hle, hlater⟩
      · cases hnone
  · exact keepsFixed_of_link hlink

end Evaluation

/-! ## Steps and frames -/

/-- Every statement of the block keeps what it has fixed. -/
structure BlockState.KeepsFixed (block : Block) (state later : BlockState) : Prop where
  length : later.statements.length = state.statements.length
  statement : ∀ {n : Nat} {statement : Statement} {before after : StatementState},
    block[n]? = some statement → state.statements[n]? = some before →
    later.statements[n]? = some after → before.KeepsFixed statement after

theorem BlockState.KeepsFixed.refl (block : Block) (state : BlockState) :
    state.KeepsFixed block state where
  length := rfl
  statement := by
    intro n statement before after _ hb ha
    cases hb.symm.trans ha
    exact keepsFixed_of_link rfl

theorem BlockState.KeepsFixed.trans {block : Block} {state mid later : BlockState}
    (h : state.KeepsFixed block mid) (h' : mid.KeepsFixed block later) :
    state.KeepsFixed block later where
  length := h'.length.trans h.length
  statement := by
    intro n statement before after hs hb ha
    have hlt : n < mid.statements.length := by
      rw [h.length]
      exact (List.getElem?_eq_some_iff.mp hb).1
    have hm : mid.statements[n]? = some mid.statements[n] := List.getElem?_eq_getElem hlt
    exact (h.statement hs hb hm).trans (h'.statement hs hm ha)

/-- **A step keeps what is fixed**: a statement is as it was, or was evaluated once. -/
theorem keepsFixed_step {host : Host σ} {block : Block} {base : Option Value}
    {state next : BlockState} {outcome : Option Status}
    (h : Gives (stepRows (rowsOf host block) base state) (outcome, next)) :
    state.KeepsFixed block next where
  length := length_of_step h
  statement := by
    intro n statement before after hs hb ha
    rcases evaluated_of_step h hs hb ha with rfl | ⟨status, he⟩
    · exact keepsFixed_of_link rfl
    · exact keepsFixed_evaluate he

/-- Whatever steps and frames follow, what is fixed is kept. -/
theorem keepsFixed_of_later {block : Block} {state later : BlockState}
    (h : state.Later block later) : state.KeepsFixed block later := by
  induction h with
  | here => exact .refl block state
  | step _ hstep ih => exact ih.trans (keepsFixed_step hstep)
  | run _ hrun ih =>
    apply run_keeps (P := state.KeepsFixed block) ?_ ih hrun
    intro mid outcome next hmid hstep
    exact hmid.trans (keepsFixed_step hstep)

/-! ## Rows in the place of others -/

namespace Play

section Rows
variable {base : Option Value} {rows rows' : List (Row σ)} {states : List StatementState}

/-- In these states the rows on the right do what those on the left do. -/
structure SameIn (base : Option Value) (rows rows' : List (Row σ)) (states : List StatementState) :
    Prop where
  simultaneous : rows'.map Row.simultaneous = rows.map Row.simultaneous
  alternative : rows'.map Row.alternative = rows.map Row.alternative
  evaluate : ∀ {n : Nat} {row row' : Row σ} {state : StatementState}, rows[n]? = some row →
    rows'[n]? = some row' → states[n]? = some state →
    row'.evaluate base state = row.evaluate base state

theorem SameIn.drop (h : SameIn base rows rows' states) (k : Nat) :
    SameIn base (rows.drop k) (rows'.drop k) (states.drop k) where
  simultaneous := by rw [List.map_drop, List.map_drop, h.simultaneous]
  alternative := by rw [List.map_drop, List.map_drop, h.alternative]
  evaluate := by
    intro n row row' state hr hr' hs
    rw [List.getElem?_drop] at hr hr' hs
    exact h.evaluate hr hr' hs

theorem tickAlong_same (h : SameIn base rows rows' states) :
    tickAlong base rows' states = tickAlong base rows states := by
  induction rows generalizing rows' states with
  | nil =>
    have hnil : rows' = [] := by simpa using h.simultaneous
    rw [hnil]
  | cons row rows ih =>
    cases rows' with
    | nil => simpa using h.simultaneous
    | cons row' rows' =>
      cases states with
      | nil => rfl
      | cons state states =>
        have hflag : row'.simultaneous = row.simultaneous := (List.cons.inj h.simultaneous).1
        have hhere : row'.evaluate base state = row.evaluate base state :=
          h.evaluate (n := 0) rfl rfl rfl
        have hrest : tickAlong base rows' states = tickAlong base rows states := ih (h.drop 1)
        simp only [tickAlong, hflag, hhere, hrest]

theorem pastArms_same (h : SameIn base rows rows' states) (cursor : Nat) :
    pastArms rows' cursor = pastArms rows cursor := by
  have harms : ∀ ahead : List (Row σ), (ahead.takeWhile Row.alternative).length =
      ((ahead.map Row.alternative).takeWhile id).length := by
    intro ahead
    rw [List.takeWhile_map, List.length_map]
    rfl
  rw [pastArms, pastArms, harms, harms, (h.drop (cursor + 1)).alternative]

theorem stepRows_same {state : BlockState} (h : SameIn base rows rows' state.statements) :
    stepRows rows' base state = stepRows rows base state := by
  have hlength : rows'.length = rows.length := by simpa using congrArg List.length h.simultaneous
  have hadvance : ∀ (after : StatementState) (status : Status),
      advance rows' base ⟨state.cursor, state.statements.set state.cursor after⟩ status =
        advance rows base ⟨state.cursor, state.statements.set state.cursor after⟩ status := by
    intro after status
    have hahead := tickAlong_same (h.drop (state.cursor + 1))
    cases status with
    | pending => simp only [advance, List.drop_set_of_lt (Nat.lt_succ_self _), hahead]
    | met => simp only [advance, pastArms_same h]
    | done => rfl
    | metPending => rfl
    | notMet => rfl
  unfold stepRows
  by_cases hc : state.cursor < rows.length
  · have hrow : rows[state.cursor]? = some rows[state.cursor] := List.getElem?_eq_getElem hc
    have hrow' : rows'[state.cursor]? = some (rows'[state.cursor]) :=
      List.getElem?_eq_getElem (hlength ▸ hc)
    rw [hrow, hrow']
    cases hs : state.statements[state.cursor]? with
    | none => rfl
    | some statement => simp only [h.evaluate hrow hrow' hs, hadvance]
  · have hrow : rows[state.cursor]? = none := List.getElem?_eq_none (by omega)
    have hrow' : rows'[state.cursor]? = none := List.getElem?_eq_none (by omega)
    rw [hrow, hrow']

/-- Frames are the same if steps are, in every state that a step leads to. -/
theorem runRows_same {P : BlockState → Prop} (hlength : rows'.length = rows.length)
    (same : ∀ state, P state → stepRows rows' base state = stepRows rows base state)
    (keeps : ∀ state outcome next, P state → Gives (stepRows rows base state) (outcome, next) →
      P next) {state : BlockState} (hp : P state) :
    runRows rows' base state = runRows rows base state := by
  rw [runRows, runRows, hlength]
  generalize rows.length + 1 - state.cursor = more
  induction more generalizing state with
  | zero => rfl
  | succ more ih =>
    rw [runSteps, runSteps, same state hp]
    apply bind_eq_of_gives
    intro stepped hstep
    obtain ⟨outcome, next⟩ := stepped
    cases outcome with
    | none => rfl
    | some status => simp only [ih (keeps _ _ _ hp hstep)]

end Rows

end Play

/-! ## Other words -/

/-- The second statement is the first with what has been fixed put in other words: the condition of an
arm that has its guard, the subject of an `each` that has its members, the bounds of a range that has
them. The statements of a body may differ in the same way, for every progress through it that is there;
the body of a range may not, since it starts anew. -/
inductive StatementState.Reworded : StatementState → Statement → Statement → Prop where
  | same (state : StatementState) (statement : Statement) : Reworded state statement statement
  | guard {frames : Nat} {met : Bool} {progress : BlockState} {arm : Arm}
      {params params' : List Statement} {template template' : String} {body body' : Block}
      {tail : List Link} (length : body'.length = body.length)
      (inside : ∀ (n : Nat) (state : StatementState) (statement statement' : Statement),
        progress.statements[n]? = some state → body[n]? = some statement →
        body'[n]? = some statement' → Reworded state statement statement') :
      Reworded ⟨frames, .conditional (some met) progress⟩
        (.conditional arm params template body :: tail)
        (.conditional arm params' template' body' :: tail)
  | members {frames : Nat} {listed : List (Value × BlockState)} {subject subject' : Statement}
      {body body' : Block} {tail : List Link} (length : body'.length = body.length)
      (inside : ∀ member ∈ listed, ∀ (n : Nat) (state : StatementState)
        (statement statement' : Statement), member.2.statements[n]? = some state →
        body[n]? = some statement → body'[n]? = some statement' →
        Reworded state statement statement') :
      Reworded ⟨frames, .each (some listed)⟩ (.each subject body :: tail)
        (.each subject' body' :: tail)
  | bounds {frames : Nat} {fixed : Int64 × Int64} {counter : Int64} {progress : BlockState}
      {low high low' high' : Statement} {body : Block} {tail : List Link} :
      Reworded ⟨frames, .range (some fixed) counter progress⟩ (.range low high body :: tail)
        (.range low' high' body :: tail)

/-- The second block is the first with what its statements have fixed put in other words. -/
structure BlockState.Reworded (state : BlockState) (block block' : Block) : Prop where
  length : block'.length = block.length
  statement : ∀ (n : Nat) (before : StatementState) (statement statement' : Statement),
    state.statements[n]? = some before → block[n]? = some statement →
    block'[n]? = some statement' → before.Reworded statement statement'

/-- From this state on, the statement on the right is evaluated as the one on the left. -/
structure StatementState.SameFrom (state : StatementState) (statement statement' : Statement) :
    Prop where
  simultaneous : statement'.isSimultaneous = statement.isSimultaneous
  alternative : statement'.isAlternative = statement.isAlternative
  evaluate : ∀ {later : StatementState}, state.KeepsFixed statement later →
    ∀ {σ : Type} (host : Host σ) (base : Option Value),
      Play.evaluate host statement' base later = Play.evaluate host statement base later

section Blocks
variable {block block' : Block} {state later : BlockState} (formed : state.Formed block)
  (hlength : block'.length = block.length)
  (same : ∀ (n : Nat) (before : StatementState) (statement statement' : Statement),
    state.statements[n]? = some before → block[n]? = some statement →
    block'[n]? = some statement' → before.Throughout (fun _ _ => True) statement →
    before.SameFrom statement statement')
include formed hlength same

theorem sameIn_of_later (h : state.Later block later) (host : Host σ) (base : Option Value) :
    SameIn base (rowsOf host block) (rowsOf host block') later.statements := by
  have kept := keepsFixed_of_later h
  -- every statement of the block has a state, in which the other one is its like
  have hsame : ∀ {n : Nat} {statement statement' : Statement}, block[n]? = some statement →
      block'[n]? = some statement' →
      ∃ before, state.statements[n]? = some before ∧ before.SameFrom statement statement' := by
    intro n statement statement' hs hs'
    have hlt : n < state.statements.length := by
      rw [formed.length]
      exact (List.getElem?_eq_some_iff.mp hs).1
    have hb : state.statements[n]? = some state.statements[n] := List.getElem?_eq_getElem hlt
    exact ⟨_, hb, same n _ statement statement' hb hs hs' (formed.statement hs hb)⟩
  have hflags : ∀ {f : Statement → Bool}, (∀ {before : StatementState}
      {statement statement' : Statement}, before.SameFrom statement statement' →
      f statement' = f statement) → block'.map f = block.map f := by
    intro f hf
    apply List.ext_getElem (by simp [hlength])
    intro n hn' hn
    simp only [List.length_map] at hn hn'
    obtain ⟨before, -, h⟩ := hsame (List.getElem?_eq_getElem hn) (List.getElem?_eq_getElem hn')
    simpa using hf h
  refine ⟨?_, ?_, ?_⟩
  · rw [rowsOf_eq_map, rowsOf_eq_map, List.map_map, List.map_map]
    exact hflags fun h => h.simultaneous
  · rw [rowsOf_eq_map, rowsOf_eq_map, List.map_map, List.map_map]
    exact hflags fun h => h.alternative
  · intro n row row' after hr hr' ha
    obtain ⟨statement, hs, rfl⟩ := rowsOf_getElem? hr
    obtain ⟨statement', hs', rfl⟩ := rowsOf_getElem? hr'
    obtain ⟨before, hb, h⟩ := hsame hs hs'
    exact h.evaluate (kept.statement hs hb ha) host base

theorem step_eq_of_later (h : state.Later block later) (host : Host σ) (base : Option Value) :
    stepRows (rowsOf host block') base later = stepRows (rowsOf host block) base later :=
  stepRows_same (sameIn_of_later formed hlength same h host base)

theorem run_eq_of_later (h : state.Later block later) (host : Host σ) (base : Option Value) :
    runRows (rowsOf host block') base later = runRows (rowsOf host block) base later := by
  apply runRows_same (P := state.Later block) _ _ _ h
  · simp [rowsOf_eq_map, hlength]
  · intro mid hmid
    exact step_eq_of_later formed hlength same hmid host base
  · intro mid outcome next hmid hstep
    exact .step hmid hstep

end Blocks

theorem playMembers_same {rows rows' : List (Row σ)} {body : Block}
    {listed listed' : List (Value × BlockState)} (h : MembersLater body listed listed')
    (same : ∀ member ∈ listed, ∀ later, member.2.Later body later →
      ∀ base, runRows rows' base later = runRows rows base later) :
    playMembers rows' listed' = playMembers rows listed' := by
  induction h with
  | nil => rfl
  | cons hfirst _ ih =>
    have hhere := same _ List.mem_cons_self _ hfirst.2
    have hrest := ih fun member hm => same member (List.mem_cons_of_mem _ hm)
    simp only [playMembers, hhere, hrest]

/-- **Other words make no difference** to any later evaluation. The induction is on the rewording: a
body has gone on by frames, and its statements are evaluated alike by induction. -/
theorem StatementState.Reworded.sameFrom {state : StatementState} {statement statement' : Statement}
    (h : state.Reworded statement statement')
    (formed : state.Throughout (fun _ _ => True) statement) :
    state.SameFrom statement statement' := by
  induction h with
  | same state statement => exact ⟨rfl, rfl, fun _ _ _ _ => rfl⟩
  | guard hlength _ ih =>
    refine ⟨rfl, rfl, ?_⟩
    intro later kept σ host base
    obtain ⟨frames, link⟩ := later
    obtain ⟨progress, hlink, hlater⟩ := kept.guard rfl rfl
    obtain ⟨_, _, hbefore, hbody⟩ := formed.conditional
    cases hlink
    cases hbefore
    have hrun := run_eq_of_later hbody hlength ih hlater host base
    simp only [Play.evaluate, playConditional, fixGuard, pure_bind, hrun]
  | members hlength _ ih =>
    refine ⟨rfl, rfl, ?_⟩
    intro later kept σ host base
    obtain ⟨frames, link⟩ := later
    obtain ⟨listed, hlink, hlater⟩ := kept.members rfl rfl
    obtain ⟨_, hbefore, hbody⟩ := formed.each
    cases hlink
    cases hbefore
    have hplay := playMembers_same hlater fun member hm progress hprogress base =>
      run_eq_of_later (hbody _ rfl member hm) hlength (ih member hm) hprogress host base
    simp only [Play.evaluate, playEach, fixMembers, pure_bind, hplay]
  | bounds =>
    refine ⟨rfl, rfl, ?_⟩
    intro later kept σ host base
    obtain ⟨frames, link⟩ := later
    obtain ⟨counter, progress, hlink, -, -⟩ := kept.bounds rfl rfl
    cases hlink
    simp only [Play.evaluate, playRange, fixBounds, pure_bind]

/-- **What is fixed is fixed for good.** Whatever steps and frames follow on a state that a block can
reach, its arms have the guards, its `each` statements the members and its ranges the bounds that they
had. The blocks inside it are in states that they can reach and have gone on by frames of their own, so
the same holds of them, at every depth. And nothing that is fixed is asked for again: with any other
questions in the place of those already answered, also such as ask the host nothing, every later step
and frame is the same, whatever the host. -/
theorem fixed_for_good {block : Block} {state later : BlockState}
    (reached : Script.Reached block ⟨block, state⟩) (h : state.Later block later) :
    state.KeepsFixed block later ∧
    state.Throughout (fun body progress => Script.Reached body ⟨body, progress⟩) block ∧
    ∀ block', state.Reworded block block' → ∀ {σ : Type} (host : Host σ) (base : Option Value),
      later.step host block' base = later.step host block base ∧
      later.run host block' base = later.run host block base := by
  have formed : state.Formed block := (lasting_form.reached reached).2
  refine ⟨keepsFixed_of_later h, (lasting_reached.reached reached).2, ?_⟩
  intro block' reworded σ host base
  have same := fun n before statement statement' hb hs hs' =>
    (reworded.statement n before statement statement' hb hs hs').sameFrom
  exact ⟨step_eq_of_later formed reworded.length same h host base,
    run_eq_of_later formed reworded.length same h host base⟩

/-- A host that is ready when asked, and whose answer to every other call is that it is not finished. -/
def Host.ready : Host Unit :=
  ⟨fun call _ => ⟨if call.method = "ready" then .value (.int 1) else .pending, (), []⟩,
    fun _ _ => ⟨[], (), []⟩⟩

/-- A block that waits for every member of `this` if the host is ready. -/
def gate : Block :=
  [[.conditional .ifArm [[.method "ready" [] false]] "@^statement1$@"
    [[.each [.this] [[.method "wait" [] false]]]]]]

/-- The same with questions that ask the host nothing and have other answers. -/
def ungated : Block :=
  [[.conditional .ifArm [] "0" [[.each [.constant "0"] [[.method "wait" [] false]]]]]]

/-- A frame of the block with that host, and with a list of one member for `this`. -/
def gateFrame (state : BlockState) : BlockState :=
  ((state.run Host.ready gate (some (.list [.int 1]))).run ⟨(), #[]⟩).1.2

/-- After its first frame, both questions of the block are answered. -/
theorem gateFrame_fresh : (gateFrame (.fresh gate)).statements =
    [⟨1, .conditional (some true)
      ⟨0, [⟨1, .each (some [(.int 1, ⟨0, [⟨1, .plain⟩]⟩)])⟩]⟩⟩] := by
  have hyes : Expr.evalCondition (splice 1 [splicedText (some (.int 1))]
      ['@', '^', 's', 't', 'a', 't', 'e', 'm', 'e', 'n', 't', '1', '$', '@']) = .ok true := by cbv
  simp [gateFrame, gate, Host.ready, BlockState.run, BlockState.fresh, freshStates,
    StatementState.fresh, rowsOf, runRows, runSteps, stepRows, evaluate, playConditional, fixGuard,
    test, hyes, playEach, fixMembers, enumerate, value, valueBy, chain, follow, Answer.ofBase,
    Answer.toValue?, membersOf, distinct, playMembers, sleepName, playChain, values, ask, after,
    Answer.isPending, Status.blocks, advance, tickAlong, bodyStatus, note, modify, modifyGet,
    MonadStateOf.modifyGet, StateT.modifyGet, StateT.run, StateT.bind, StateT.pure, bind, pure]

/-- A rewording of the only statement of a block, index by index. -/
theorem StatementState.Reworded.single {state : StatementState} {statement statement' : Statement}
    (h : state.Reworded statement statement') (n : Nat) (before : StatementState) (s s' : Statement)
    (hb : [state][n]? = some before) (hs : [statement][n]? = some s)
    (hs' : [statement'][n]? = some s') : before.Reworded s s' := by
  cases n with
  | zero =>
    cases hb
    cases hs
    cases hs'
    exact h
  | succ n => cases hb

/-- So in every later frame neither is asked again. -/
theorem fixed_for_good_gate : Script.Reached gate ⟨gate, gateFrame (.fresh gate)⟩ ∧
    (gateFrame (.fresh gate)).Later gate (gateFrame (gateFrame (.fresh gate))) ∧
    (gateFrame (.fresh gate)).Reworded gate ungated ∧
    ∀ (host : Host Unit) (base : Option Value),
      (gateFrame (gateFrame (.fresh gate))).run host ungated base =
        (gateFrame (gateFrame (.fresh gate))).run host gate base := by
  have reached : Script.Reached gate ⟨gate, gateFrame (.fresh gate)⟩ := .run .fresh ⟨⟨(), #[]⟩, rfl⟩
  have later : (gateFrame (.fresh gate)).Later gate (gateFrame (gateFrame (.fresh gate))) :=
    .run .here ⟨⟨(), #[]⟩, rfl⟩
  have reworded : (gateFrame (.fresh gate)).Reworded gate ungated := by
    refine ⟨rfl, ?_⟩
    rw [gateFrame_fresh]
    apply StatementState.Reworded.single
    apply StatementState.Reworded.guard
    · rfl
    · apply StatementState.Reworded.single
      apply StatementState.Reworded.members
      · rfl
      · intro member hm
        cases List.mem_singleton.mp hm
        exact StatementState.Reworded.single (.same _ _)
  refine ⟨reached, later, reworded, ?_⟩
  intro host base
  exact ((fixed_for_good reached later).2.2 ungated reworded host base).2

end Cutscene
