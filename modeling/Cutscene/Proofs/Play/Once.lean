import Cutscene.Proofs.Play.Exchange

/-!
A frame looks at each statement once.

A frame evaluates the statement under the cursor and goes on with those ahead of it, and the ones that it
evaluates alongside a pending statement stand ahead of that one. So a frame is a line of evaluations at
places that only grow (`Covers`), with nothing but records between them (`Evaluations`): of a step
(`step_evaluations`), hence of a run of steps (`runSteps_evaluations`).

What happens in such an evaluation comes in two parts (`AsksThenPlays`). First the statement asks for
itself, and every call that it makes for that bears the frame that it is now evaluated in, down to the
parameters of parameters (`talks_calls`). Then its body is played by frames of its own, about which the
same can be said again. `evaluated_once` is all of this for every frame of every block.
-/
namespace Cutscene

open Play

variable {σ α β : Type}

/-! ## Lines of evaluations -/

/-- An evaluation of a statement of a block, with the stages that it leads from and to. -/
structure Evaluation (host : Host σ) (block : Block) (base : Option Value) where
  index : Nat
  statement : Statement
  before : StatementState
  after : StatementState
  status : Status
  start : Stage σ
  stop : Stage σ
  there : block[index]? = some statement
  evaluated : (evaluate host statement base before).run start = ((status, after), stop)

/-- From one stage to another nothing happens but these evaluations one after the other, and records
between them. -/
inductive Evaluations {host : Host σ} {block : Block} {base : Option Value} :
    Stage σ → List (Evaluation host block base) → Stage σ → Prop where
  | none {s t : Stage σ} : s.Alike t → Evaluations s [] t
  | next {s t : Stage σ} {eval : Evaluation host block base}
      {later : List (Evaluation host block base)} :
      s.Alike eval.start → Evaluations eval.stop later t → Evaluations s (eval :: later) t

/-- The evaluations are at places that grow, from a least one on, and they take the progress of the
statements from what it is before to what it is after; all other statements have the same progress. -/
structure Covers {host : Host σ} {block : Block} {base : Option Value} (least : Nat)
    (evals : List (Evaluation host block base)) (before after : List StatementState) : Prop where
  order : (evals.map Evaluation.index).Pairwise (· < ·)
  least_le : ∀ eval ∈ evals, least ≤ eval.index
  evaluated : ∀ eval ∈ evals, before[eval.index]? = some eval.before ∧
    after[eval.index]? = some eval.after
  others : ∀ n, (∀ eval ∈ evals, eval.index ≠ n) → after[n]? = before[n]?

section Lines
variable {host : Host σ} {block : Block} {base : Option Value}

theorem Stage.Alike.trans {s t u : Stage σ} (h : s.Alike t) (h' : t.Alike u) : s.Alike u :=
  ⟨h.host.trans h'.host, h.exchanges.trans h'.exchanges⟩

theorem Evaluations.append {s t u : Stage σ} {evals later : List (Evaluation host block base)}
    (h : Evaluations s evals t) (h' : Evaluations t later u) : Evaluations s (evals ++ later) u := by
  induction h with
  | none hst =>
    cases h' with
    | none htu => exact .none (hst.trans htu)
    | next hstart hrest => exact .next (hst.trans hstart) hrest
  | next hs _ ih => exact .next hs (ih h')

theorem covers_nil (least : Nat) (states : List StatementState) :
    Covers least ([] : List (Evaluation host block base)) states states :=
  ⟨.nil, by simp, by simp, fun _ _ => rfl⟩

theorem covers_single (eval : Evaluation host block base) {states : List StatementState}
    (h : states[eval.index]? = some eval.before) :
    Covers eval.index [eval] states (states.set eval.index eval.after) := by
  have hlt : eval.index < states.length := (List.getElem?_eq_some_iff.mp h).1
  refine ⟨List.pairwise_singleton _ _, ?_, ?_, ?_⟩
  · intro other hmem
    rw [List.mem_singleton.mp hmem]
  · intro other hmem
    rw [List.mem_singleton.mp hmem]
    exact ⟨h, List.getElem?_set_self hlt⟩
  · intro n hn
    exact List.getElem?_set_ne (hn eval (List.mem_singleton_self eval))

/-- What comes later is at later places, so the earlier evaluations have the last word on theirs. -/
theorem Covers.append {least later : Nat} {evals evals' : List (Evaluation host block base)}
    {before mid after : List StatementState} (h : Covers least evals before mid)
    (h' : Covers later evals' mid after) (hle : least ≤ later)
    (hlt : ∀ eval ∈ evals, eval.index < later) : Covers least (evals ++ evals') before after := by
  have hapart : ∀ eval ∈ evals, ∀ other ∈ evals', eval.index < other.index :=
    fun eval hmem other hother => Nat.lt_of_lt_of_le (hlt eval hmem) (h'.least_le other hother)
  refine ⟨?_, ?_, ?_, ?_⟩
  · rw [List.map_append]
    apply List.pairwise_append.mpr
    refine ⟨h.order, h'.order, ?_⟩
    intro n hn m hm
    obtain ⟨eval, hmem, rfl⟩ := List.mem_map.mp hn
    obtain ⟨other, hother, rfl⟩ := List.mem_map.mp hm
    exact hapart eval hmem other hother
  · intro eval hmem
    rcases List.mem_append.mp hmem with hmem | hmem
    · exact h.least_le eval hmem
    · exact Nat.le_trans hle (h'.least_le eval hmem)
  · -- what was evaluated is left alone later, and what is evaluated later was left alone before
    intro eval hmem
    rcases List.mem_append.mp hmem with hmem | hmem
    · obtain ⟨hbefore, hmid⟩ := h.evaluated eval hmem
      have hlater := h'.others eval.index fun other hother => (hapart eval hmem other hother).ne'
      exact ⟨hbefore, hlater.trans hmid⟩
    · obtain ⟨hmid, hafter⟩ := h'.evaluated eval hmem
      have hearlier := h.others eval.index fun other hother => (hapart other hother eval hmem).ne
      exact ⟨hearlier.symm.trans hmid, hafter⟩
  · intro n hn
    have hmid := h.others n fun eval hmem => hn eval (List.mem_append_left _ hmem)
    have hafter := h'.others n fun eval hmem => hn eval (List.mem_append_right _ hmem)
    exact hafter.trans hmid

/-- One evaluation, and then others behind its place. -/
theorem Covers.cons (eval : Evaluation host block base) {evals : List (Evaluation host block base)}
    {states after : List StatementState} (h : states[eval.index]? = some eval.before)
    (h' : Covers (eval.index + 1) evals (states.set eval.index eval.after) after) :
    Covers eval.index (eval :: evals) states after := by
  apply (covers_single eval h).append h' (Nat.le_succ _)
  intro other hmem
  rw [List.mem_singleton.mp hmem]
  exact Nat.lt_succ_self _

end Lines

/-! ## Steps and frames -/

section Frame
variable {host : Host σ} {block : Block} {base : Option Value}

theorem alike_refl (stage : Stage σ) : stage.Alike stage := ⟨rfl, rfl⟩

/-- The evaluation of a statement that is there, from a stage on. -/
def Evaluation.of {n : Nat} {statement : Statement} (there : block[n]? = some statement)
    (before : StatementState) (stage : Stage σ) : Evaluation host block base :=
  let evaluated := (evaluate host statement base before).run stage
  ⟨n, statement, before, evaluated.1.2, evaluated.1.1, stage, evaluated.2, there, rfl⟩

theorem drop_eq_cons {γ : Type} {list rest : List γ} {n : Nat} {first : γ}
    (h : list.drop n = first :: rest) : list[n]? = some first ∧ rest = list.drop (n + 1) := by
  constructor
  · rw [← List.head?_drop, h, List.head?_cons]
  · rw [← List.tail_drop, h, List.tail_cons]

/-- Nothing is evaluated, and nothing changes. -/
theorem evaluations_nil {start : Nat} {states result : List StatementState}
    (h : result = states.drop start) (stage : Stage σ) :
    ∃ evals : List (Evaluation host block base), Evaluations stage evals stage ∧
      Covers start evals states (states.take start ++ result) := by
  rw [h, List.take_append_drop]
  exact ⟨[], .none (alike_refl stage), covers_nil start states⟩

/-- The statements alongside, from a place on: the induction is on those that are left of the block. -/
theorem tick_evaluations (start : Nat) (states : List StatementState) (stage : Stage σ) :
    let ticked := (tickAlong base ((rowsOf host block).drop start) (states.drop start)).run stage
    ∃ evals : List (Evaluation host block base), Evaluations stage evals ticked.2 ∧
      Covers start evals states (states.take start ++ ticked.1) := by
  obtain ⟨left, hleft⟩ : ∃ left, block.length - start = left := ⟨_, rfl⟩
  induction left generalizing start states stage with
  | zero =>
    have hrows : (rowsOf host block).drop start = [] := by
      apply List.drop_eq_nil_of_le
      rw [length_rowsOf]
      omega
    rw [hrows]
    exact evaluations_nil rfl stage
  | succ left ih =>
    have hlt : start < (rowsOf host block).length := by
      rw [length_rowsOf]
      omega
    obtain ⟨statement, hs, hrow⟩ := rowsOf_getElem? (List.getElem?_eq_getElem hlt)
    rw [List.drop_eq_getElem_cons hlt, hrow]
    cases hstates : states.drop start with
    | nil => exact evaluations_nil hstates.symm stage
    | cons before rest =>
      obtain ⟨hb, hrest⟩ := drop_eq_cons hstates
      by_cases hsim : (rowOf host statement).simultaneous = true
      · -- it is evaluated, and the rest goes on from what that leaves
        let eval : Evaluation host block base := .of hs before stage
        obtain ⟨evals, hevals, hcovers⟩ :=
          ih (start + 1) (states.set start eval.after) eval.stop (by omega)
        have hrest' : (states.set start eval.after).drop (start + 1) = rest := by
          rw [List.drop_set_of_lt (Nat.lt_succ_self start), hrest]
        have htake : (states.set start eval.after).take (start + 1) =
            states.take start ++ [eval.after] := by
          have hin : start < (states.set start eval.after).length := by
            rw [List.length_set]
            exact (List.getElem?_eq_some_iff.mp hb).1
          rw [List.take_add_one, List.take_set_of_le (Nat.le_refl start),
            List.getElem?_eq_getElem hin, List.getElem_set_self]
          rfl
        rw [hrest'] at hevals hcovers
        rw [htake, List.append_assoc] at hcovers
        rw [tickAlong, if_pos hsim]
        exact ⟨eval :: evals, .next (alike_refl stage) hevals, .cons eval hb hcovers⟩
      · rw [tickAlong, if_neg hsim]
        exact evaluations_nil hstates.symm stage

/-- Moving on evaluates what runs alongside a pending statement, and nothing else. -/
theorem advance_evaluations (state : BlockState) (status : Status) (stage : Stage σ) :
    let moved := (advance (rowsOf host block) base state status).run stage
    ∃ evals : List (Evaluation host block base), Evaluations stage evals moved.2 ∧
      Covers (state.cursor + 1) evals state.statements moved.1.statements ∧
      (status.blocks = false → evals = [] ∧ state.cursor < moved.1.cursor) := by
  have moves : ∀ next : BlockState, next.statements = state.statements →
      (status.blocks = false → state.cursor < next.cursor) →
      ∃ evals : List (Evaluation host block base), Evaluations stage evals stage ∧
        Covers (state.cursor + 1) evals state.statements next.statements ∧
        (status.blocks = false → evals = [] ∧ state.cursor < next.cursor) := by
    intro next hsame hcursor
    rw [hsame]
    exact ⟨[], .none (alike_refl stage), covers_nil _ _, fun h => ⟨rfl, hcursor h⟩⟩
  cases status with
  | pending =>
    obtain ⟨evals, hevals, hcovers⟩ := tick_evaluations (state.cursor + 1) state.statements stage
    refine ⟨evals, hevals, hcovers, ?_⟩
    intro h
    cases h
  | metPending => exact moves _ rfl (lt_cursorAfter (rowsOf host block) state.cursor)
  | met => exact moves _ rfl (lt_cursorAfter (rowsOf host block) state.cursor)
  | done => exact moves _ rfl (lt_cursorAfter (rowsOf host block) state.cursor)
  | notMet => exact moves _ rfl (lt_cursorAfter (rowsOf host block) state.cursor)

variable (host block base)

/-- **A step is a line of evaluations** from the cursor on. Unless it holds the frame up it leaves them
all behind. -/
theorem step_evaluations (state : BlockState) (stage : Stage σ) :
    let stepped := (stepRows (rowsOf host block) base state).run stage
    ∃ evals : List (Evaluation host block base), Evaluations stage evals stepped.2 ∧
      Covers state.cursor evals state.statements stepped.1.2.statements ∧
      ∀ status, stepped.1.1 = some status → status.blocks = false →
        state.cursor < stepped.1.2.cursor ∧
        ∀ eval ∈ evals, eval.index < stepped.1.2.cursor := by
  unfold stepRows
  split
  · next row before hrow hb =>
    obtain ⟨statement, hs, rfl⟩ := rowsOf_getElem? hrow
    let eval : Evaluation host block base := .of hs before stage
    let noted := (note .trace .evaluation ("statement " ++ toString state.cursor ++ ": " ++
      eval.status.name)).run eval.stop
    have hnote : eval.stop.Alike noted.2 := alike_note (alike_refl _) _ _ _
    obtain ⟨evals, hevals, hcovers, hmoved⟩ := advance_evaluations
      ⟨state.cursor, state.statements.set state.cursor eval.after⟩ eval.status noted.2
    have hfirst : Evaluations stage [eval] noted.2 := .next (alike_refl stage) (.none hnote)
    refine ⟨eval :: evals, hfirst.append hevals, .cons eval hb hcovers, ?_⟩
    intro status hstatus hblocks
    obtain rfl : eval.status = status := Option.some.inj hstatus
    obtain ⟨rfl, hcursor⟩ := hmoved hblocks
    refine ⟨hcursor, ?_⟩
    intro other hmem
    rw [List.mem_singleton.mp hmem]
    exact hcursor
  · refine ⟨[], .none (alike_refl stage), covers_nil _ _, ?_⟩
    intro status hstatus
    cases hstatus

/-- **A run of steps is a line of evaluations.** Each step begins at the cursor, which the one before it
has moved past all that it evaluated. -/
theorem runSteps_evaluations (more : Nat) (state : BlockState) (stage : Stage σ) :
    let played := (runSteps (rowsOf host block) base more state).run stage
    ∃ evals : List (Evaluation host block base), Evaluations stage evals played.2 ∧
      Covers state.cursor evals state.statements played.1.2.statements := by
  induction more generalizing state stage with
  | zero => exact ⟨[], .none (alike_refl stage), covers_nil _ _⟩
  | succ more ih =>
    obtain ⟨evals, hevals, hcovers, hpast⟩ := step_evaluations host block base state stage
    rw [runSteps, run_bind]
    generalize (stepRows (rowsOf host block) base state).run stage = stepped at *
    obtain ⟨⟨outcome, next⟩, stage'⟩ := stepped
    cases outcome with
    | none => exact ⟨evals, hevals, hcovers⟩
    | some status =>
      by_cases hblocks : status.blocks = true
      · dsimp only
        rw [if_pos hblocks]
        exact ⟨evals, hevals, hcovers⟩
      · obtain ⟨hcursor, hbehind⟩ := hpast status rfl (Bool.eq_false_iff.mpr hblocks)
        obtain ⟨later, hlater, hcovers'⟩ := ih next stage'
        dsimp only
        rw [if_neg hblocks]
        exact ⟨evals ++ later, hevals.append hlater,
          hcovers.append hcovers' (Nat.le_of_lt hcursor) hbehind⟩

end Frame

/-! ## One evaluation -/

/-- The block that a statement plays, which is empty unless its first link has a body. -/
def Statement.body : Statement → Block
  | .conditional _ _ _ body :: _ => body
  | .each _ body :: _ => body
  | .range _ _ body :: _ => body
  | _ => []

/-- From one stage to another nothing happens but frames of a block, one after the other, each with its
own progress and value of `this`. -/
inductive FramesOf (host : Host σ) (block : Block) : Stage σ → Stage σ → Prop where
  | none {s : Stage σ} : FramesOf host block s s
  | frame {s t : Stage σ} (base : Option Value) (progress : BlockState) :
      FramesOf host block ((progress.run host block base).run s).2 t → FramesOf host block s t

/-- From one stage to another only this was added to the account, and every call in it bears the frame. -/
def AsksIn (frame : Nat) (s t : Stage σ) : Prop :=
  ∃ own, t.events.toList = s.events.toList ++ own ∧
    ∀ call answer, Event.called call answer ∈ own → call.frame = frame

theorem FramesOf.trans {host : Host σ} {block : Block} {s t u : Stage σ}
    (h : FramesOf host block s t) (h' : FramesOf host block t u) : FramesOf host block s u := by
  induction h with
  | none => exact h'
  | frame base progress _ ih => exact .frame base progress (ih h')

/-- A block without statements has nothing to say. -/
theorem framesOf_nil {host : Host σ} {s t : Stage σ} (h : FramesOf host [] s t) : t = s := by
  induction h with
  | none => rfl
  | frame base progress _ ih =>
    rw [ih]
    have hrows : (rowsOf host []).length ≤ progress.cursor := by
      rw [length_rowsOf]
      exact Nat.zero_le _
    rw [BlockState.run, runRows_finished hrows]
    rfl

/-- The computation asks in a frame, and then plays a body. -/
def AsksThenPlays (host : Host σ) (frame : Nat) (body : Block) (x : Play σ α) : Prop :=
  ∀ s, ∃ mid, AsksIn frame s mid ∧ FramesOf host body mid (x.run s).2

/-- The computation does nothing but play a body. -/
def Plays (host : Host σ) (body : Block) (x : Play σ α) : Prop :=
  ∀ s, FramesOf host body s (x.run s).2

section Evaluation
variable {host : Host σ} {body : Block} {frame : Nat}

theorem plays_pure (a : α) : Plays host body (pure a : Play σ α) := fun _ => .none

theorem Plays.bind {x : Play σ α} {f : α → Play σ β} (hx : Plays host body x)
    (hf : ∀ a, Plays host body (f a)) : Plays host body (x >>= f) :=
  fun s => (hx s).trans (hf _ _)

theorem plays_run (base : Option Value) (progress : BlockState) :
    Plays host body (runRows (rowsOf host body) base progress) :=
  fun _ => .frame base progress .none

theorem plays_playMembers (members : List (Value × BlockState)) :
    Plays host body (playMembers (rowsOf host body) members) := by
  induction members with
  | nil => exact plays_pure _
  | cons member members ih =>
    exact (plays_run _ _).bind fun _ => ih.bind fun _ => plays_pure _

theorem plays_playCounts (base : Option Value) (more : Nat) (counter : Int64)
    (progress : BlockState) :
    Plays host body (playCounts (rowsOf host body) base more counter progress) := by
  induction more generalizing counter progress with
  | zero => exact plays_pure _
  | succ more ih =>
    apply (plays_run base progress).bind
    rintro ⟨finished, next⟩
    cases finished with
    | true => exact ih _ _
    | false => exact plays_pure _

/-- What bears the frame comes first. -/
theorem asksThenPlays_bind {x : Play σ α} {f : α → Play σ β}
    (hx : Talks host (Call.InFrame frame) x) (hf : ∀ a, Plays host body (f a)) :
    AsksThenPlays host frame body (x >>= f) := by
  intro s
  obtain ⟨own, hown, hheard⟩ := hx.appends s
  refine ⟨(x.run s).2, ⟨own, hown, ?_⟩, hf _ _⟩
  intro call answer hmem
  exact (hheard _ hmem).1

theorem asksThenPlays_of_talks {x : Play σ α} (hx : Talks host (Call.InFrame frame) x) :
    AsksThenPlays host frame body x := by
  rw [← bind_pure x]
  exact asksThenPlays_bind hx plays_pure

theorem AsksThenPlays.map {x : Play σ α} (hx : AsksThenPlays host frame body x) (f : α → β) :
    AsksThenPlays host frame body (x >>= fun a => pure (f a)) := hx

/-- **An evaluation asks first, in the frame that it counts, and then plays the body.** The cases are the
statement's first link, in the order in which `evaluate` looks at it. -/
theorem asksThenPlays_evaluate (host : Host σ) (statement : List Link) (base : Option Value)
    (before : StatementState) :
    AsksThenPlays host (before.frames + 1) (Statement.body statement)
      (evaluate host statement base before) := by
  unfold evaluate
  split
  case h_1 => exact asksThenPlays_of_talks (.pure _)
  case h_2 =>
    exact asksThenPlays_of_talks
      (talks_ite ((talks_playSleep host _ _ _).map _) ((talks_playChain host _ _ _).map _))
  case h_3 => exact (asksThenPlays_of_talks (talks_playChain host _ _ _)).map _
  case h_4 =>
    apply AsksThenPlays.map
    apply asksThenPlays_bind (talks_fixGuard host _ _ _ _ _)
    intro met
    cases met with
    | true => exact (plays_run _ _).bind fun _ => plays_pure _
    | false => exact plays_pure _
  case h_5 =>
    apply AsksThenPlays.map
    apply asksThenPlays_bind (talks_fixMembers host _ _ _ _ _)
    exact fun listed => (plays_playMembers listed).bind fun _ => plays_pure _
  case h_6 =>
    apply AsksThenPlays.map
    apply asksThenPlays_bind (talks_fixBounds host _ _ _ _ _ _)
    exact fun fixed => (plays_playCounts _ _ _ _).bind fun _ => plays_pure _
  case h_7 => exact asksThenPlays_of_talks (.pure _)

end Evaluation

theorem Evaluation.frames {host : Host σ} {block : Block} {base : Option Value}
    (eval : Evaluation host block base) : eval.after.frames = eval.before.frames + 1 := by
  have h : Gives (evaluate host eval.statement base eval.before) (eval.status, eval.after) :=
    ⟨eval.start, congrArg Prod.fst eval.evaluated⟩
  exact (gives_evaluate h).1

/-- The two parts of an evaluation, the second of which is empty if there is nothing to play. -/
theorem Evaluation.asksThenPlays {host : Host σ} {block : Block} {base : Option Value}
    (eval : Evaluation host block base) :
    ∃ mid, AsksIn eval.after.frames eval.start mid ∧
      FramesOf host eval.statement.body mid eval.stop ∧
      (eval.statement.body = [] → eval.stop = mid) := by
  have h := asksThenPlays_evaluate host eval.statement base eval.before eval.start
  rw [eval.evaluated, ← eval.frames] at h
  obtain ⟨mid, hasks, hplays⟩ := h
  exact ⟨mid, hasks, hplays, fun hempty => framesOf_nil (hempty ▸ hplays)⟩

/-- A counter of a frame's outcome, if there is one, is the one before or one more. -/
theorem Covers.frames {host : Host σ} {block : Block} {base : Option Value} {least n : Nat}
    {evals : List (Evaluation host block base)} {before after : List StatementState}
    (h : Covers least evals before after) {earlier later : StatementState}
    (hearlier : before[n]? = some earlier) (hlater : after[n]? = some later) :
    later.frames = earlier.frames ∨ later.frames = earlier.frames + 1 := by
  by_cases hn : ∃ eval ∈ evals, eval.index = n
  · obtain ⟨eval, hmem, rfl⟩ := hn
    obtain ⟨hbefore, hafter⟩ := h.evaluated eval hmem
    cases hearlier.symm.trans hbefore
    cases hlater.symm.trans hafter
    exact Or.inr eval.frames
  · have hsame := h.others n fun eval hmem heq => hn ⟨eval, hmem, heq⟩
    cases hlater.symm.trans (hsame.trans hearlier)
    exact Or.inl rfl

/-- **A frame evaluates every statement of its block at most once.** From the first stage to the last it
is a line of evaluations at places that grow. Each takes the progress of its statement as it was before
the frame, and leaves it as it is after it: the counter is one more, and all that the statement asks for
itself bears that count, before its body is played. What is not evaluated does not change. -/
theorem evaluated_once (host : Host σ) (block : Block) (base : Option Value) (state : BlockState)
    (stage : Stage σ) :
    let played := (state.run host block base).run stage
    (∃ evals : List (Evaluation host block base), Evaluations stage evals played.2 ∧
      (evals.map Evaluation.index).Pairwise (· < ·) ∧
      (∀ eval ∈ evals,
        state.statements[eval.index]? = some eval.before ∧
        played.1.2.statements[eval.index]? = some eval.after ∧
        eval.after.frames = eval.before.frames + 1 ∧
        ∃ mid, AsksIn eval.after.frames eval.start mid ∧
          FramesOf host eval.statement.body mid eval.stop ∧
          (eval.statement.body = [] → eval.stop = mid)) ∧
      ∀ n, (∀ eval ∈ evals, eval.index ≠ n) →
        played.1.2.statements[n]? = state.statements[n]?) ∧
    ∀ (n : Nat) (before after : StatementState), state.statements[n]? = some before →
      played.1.2.statements[n]? = some after →
        after.frames = before.frames ∨ after.frames = before.frames + 1 := by
  obtain ⟨evals, hevals, hcovers⟩ := runSteps_evaluations host block base
    ((rowsOf host block).length + 1 - state.cursor) state stage
  refine ⟨⟨evals, hevals, hcovers.order, ?_, hcovers.others⟩, ?_⟩
  · intro eval hmem
    obtain ⟨hbefore, hafter⟩ := hcovers.evaluated eval hmem
    exact ⟨hbefore, hafter, eval.frames, eval.asksThenPlays⟩
  · intro n before after hbefore hafter
    exact hcovers.frames hbefore hafter

end Cutscene
