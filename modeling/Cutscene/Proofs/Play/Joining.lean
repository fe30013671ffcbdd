import Cutscene.Proofs.Play.Counting

/-!
A block in two parts is a queue of two scripts.

For as long as the cursor is in the first part, a step of the whole is a step of that part with the
second part untouched behind it (`stepRows_first`); this needs that the second part does not begin with
a simultaneous statement or an arm, since a step looks ahead over both. Hence a frame of the whole is a
frame of the first part and, if that finishes it, the rest of the frame from there
(`runRows_first`). Once the cursor is in the second part, a frame of the whole keeps in step with a
frame of that part alone (`inStep_second`); the records name other places. So the script over both
parts and the queue of a script over each show the host the same (`append_plays_queue`).
-/
namespace Cutscene

open Play

variable {σ : Type}

/-- Progress through the first part of a block whose second part has the given progress. -/
def BlockState.followedBy (state : BlockState) (rest : List StatementState) : BlockState :=
  ⟨state.cursor, state.statements ++ rest⟩

/-- Progress through the second part of a block whose first part has the given progress. -/
def BlockState.behind (state : BlockState) (done : List StatementState) : BlockState :=
  ⟨done.length + state.cursor, done ++ state.statements⟩

namespace Play

/-- Rows that no step looks ahead into: they do not begin with a simultaneous row or an arm. -/
def Parted (rows : List (Row σ)) : Prop :=
  ∀ row, rows.head? = some row → row.simultaneous = false ∧ row.alternative = false

section Parts
variable {first second : List (Row σ)} {base : Option Value}

/-! ## In the first part -/

section First
variable (parted : Parted second)
include parted

theorem tickAlong_first {states : List StatementState} (hl : states.length = first.length)
    (rest : List StatementState) :
    tickAlong base (first ++ second) (states ++ rest) =
      (tickAlong base first states >>= fun next => pure (next ++ rest)) := by
  induction first generalizing states with
  | nil =>
    obtain rfl : states = [] := List.length_eq_zero_iff.mp hl
    -- the second part begins with a row that is not simultaneous, or is empty
    cases second with
    | nil => rfl
    | cons row rows =>
      cases rest with
      | nil => rfl
      | cons state rest => simp [tickAlong, (parted row rfl).1]
  | cons row first ih =>
    cases states with
    | nil => cases hl
    | cons state states =>
      have hrest := ih (Nat.succ.inj hl)
      simp only [List.cons_append, tickAlong]
      by_cases hs : row.simultaneous = true
      · simp [hs, hrest]
      · simp [hs]

theorem pastArms_first {cursor : Nat} (h : cursor < first.length) :
    pastArms (first ++ second) cursor = pastArms first cursor := by
  have hnone : second.takeWhile Row.alternative = [] := by
    cases second with
    | nil => rfl
    | cons row rows => simp [(parted row rfl).2]
  rw [pastArms, pastArms, List.drop_append_of_le_length h, List.takeWhile_append, hnone]
  split
  · next hall => rw [List.append_nil, hall]
  · rfl

theorem advance_first {state : BlockState} (hl : state.statements.length = first.length)
    (hc : state.cursor < first.length) (rest : List StatementState) (status : Status) :
    advance (first ++ second) base (state.followedBy rest) status =
      (advance first base state status >>= fun next => pure (next.followedBy rest)) := by
  cases status with
  | pending =>
    have hdrop : (state.statements.drop (state.cursor + 1)).length =
        (first.drop (state.cursor + 1)).length := by simp [hl]
    simp only [advance, BlockState.followedBy]
    rw [List.drop_append_of_le_length hc, List.drop_append_of_le_length (by omega),
      List.take_append_of_le_length (by omega), tickAlong_first parted hdrop]
    simp
  | met => simp [advance, BlockState.followedBy, pastArms_first parted hc]
  | done => rfl
  | metPending => rfl
  | notMet => rfl

/-- **A step in the first part** is a step of that part alone. -/
theorem stepRows_first {state : BlockState} (hl : state.statements.length = first.length)
    (hc : state.cursor < first.length) (rest : List StatementState) :
    stepRows (first ++ second) base (state.followedBy rest) =
      (stepRows first base state >>= fun stepped =>
        pure (stepped.1, stepped.2.followedBy rest)) := by
  have hc' : state.cursor < state.statements.length := by omega
  obtain ⟨row, hrow⟩ : ∃ row, first[state.cursor]? = some row := ⟨_, List.getElem?_eq_getElem hc⟩
  obtain ⟨statement, hstatement⟩ : ∃ statement, state.statements[state.cursor]? = some statement :=
    ⟨_, List.getElem?_eq_getElem hc'⟩
  have hrow' : (first ++ second)[state.cursor]? = some row := by
    rw [List.getElem?_append_left hc, hrow]
  have hstatement' : (state.statements ++ rest)[state.cursor]? = some statement := by
    rw [List.getElem?_append_left hc', hstatement]
  have hset : ∀ next : StatementState,
      advance (first ++ second) base
        ⟨state.cursor, (state.statements ++ rest).set state.cursor next⟩ =
      fun status => advance first base ⟨state.cursor, state.statements.set state.cursor next⟩ status
        >>= fun after => pure (after.followedBy rest) := by
    intro next
    funext status
    rw [List.set_append_left _ _ hc']
    show advance (first ++ second) base
      (BlockState.followedBy ⟨state.cursor, state.statements.set state.cursor next⟩ rest) status = _
    apply advance_first parted ?_ ?_ rest status
    · simpa using hl
    · exact hc
  simp only [stepRows, BlockState.followedBy, hrow, hrow', hstatement, hstatement', hset]
  simp

/-- **A frame that begins in the first part** is a frame of that part and, if that finishes it, the
rest of the frame from there. The induction is on the rows that the cursor has ahead. -/
theorem runRows_first {state : BlockState} (hl : state.statements.length = first.length)
    (hc : state.cursor ≤ first.length) (rest : List StatementState) :
    runRows (first ++ second) base (state.followedBy rest) =
      (runRows first base state >>= fun played =>
        if played.1 then runRows (first ++ second) base (played.2.followedBy rest)
        else pure (false, played.2.followedBy rest)) := by
  obtain ⟨ahead, hahead⟩ : ∃ ahead, first.length ≤ state.cursor + ahead := ⟨first.length, by omega⟩
  induction ahead generalizing state with
  | zero =>
    have hend : first.length ≤ state.cursor := by omega
    rw [runRows_finished hend, pure_bind, if_pos rfl]
  | succ ahead ih =>
    by_cases hend : first.length ≤ state.cursor
    · rw [runRows_finished hend, pure_bind, if_pos rfl]
    · have hlt : state.cursor < first.length := by omega
      rw [runRows_eq (first ++ second), runRows_eq first, stepRows_first parted hl hlt, bind_assoc,
        bind_assoc]
      apply bind_eq_of_gives
      rintro ⟨outcome, next⟩ hstep
      rw [pure_bind]
      rcases gives_step hstep with ⟨-, -, hnone⟩ | ⟨status, rfl, st⟩
      · -- there is a statement under the cursor
        simp only [List.getElem?_eq_none_iff] at hnone
        omega
      · by_cases hblocks : status.blocks = true
        · simp [hblocks]
        · have hmoved := lt_cursorAfter first state.cursor (Bool.eq_false_iff.mpr hblocks)
          have hstay := cursorAfter_le hlt status
          rw [← st.cursor] at hmoved hstay
          simpa [hblocks] using ih (st.length.trans hl) hstay (by omega)

end First

/-! ## In the second part -/

section Second
variable {done : List StatementState} (hd : done.length = first.length)
include hd

theorem advance_second (state : BlockState) (status : Status) :
    advance (first ++ second) base (state.behind done) status =
      (advance second base state status >>= fun next => pure (next.behind done)) := by
  have hrows : (first ++ second).drop (done.length + state.cursor + 1) =
      second.drop (state.cursor + 1) := by
    rw [hd, Nat.add_assoc, List.drop_length_add_append]
  have hdrop : (done ++ state.statements).drop (done.length + state.cursor + 1) =
      state.statements.drop (state.cursor + 1) := by
    rw [Nat.add_assoc, List.drop_length_add_append]
  have htake : (done ++ state.statements).take (done.length + state.cursor + 1) =
      done ++ state.statements.take (state.cursor + 1) := by
    rw [Nat.add_assoc, List.take_length_add_append]
  cases status with
  | pending => simp [advance, BlockState.behind, hrows, hdrop, htake]
  | met =>
    have hpast : pastArms (first ++ second) (done.length + state.cursor) =
        done.length + pastArms second state.cursor := by
      rw [pastArms, pastArms, hrows]
      omega
    simp [advance, BlockState.behind, hpast]
  | done => rfl
  | metPending => rfl
  | notMet => rfl

/-- **A step in the second part** keeps in step with one of that part alone. -/
theorem inStep_step_second (steady : SteadyRows second) (state : BlockState) :
    InStep (fun a b => a = (b.1, b.2.behind done))
      (stepRows (first ++ second) base (state.behind done)) (stepRows second base state) := by
  have hrow : (first ++ second)[done.length + state.cursor]? = second[state.cursor]? := by
    rw [hd, List.getElem?_append_right (by omega), Nat.add_sub_cancel_left]
  have hstatement : (done ++ state.statements)[done.length + state.cursor]? =
      state.statements[state.cursor]? := by
    rw [List.getElem?_append_right (by omega), Nat.add_sub_cancel_left]
  unfold stepRows
  simp only [BlockState.behind, hrow, hstatement]
  split
  · next row statement hsome _ =>
    apply InStep.bind (steady row (List.mem_of_getElem? hsome) base statement)
    intro evaluated _ _ _ heq
    subst heq
    obtain ⟨status, after⟩ := evaluated
    dsimp only
    -- the two records name different places
    apply (inStep_note _ _ _ _ _ _).bind
    intro _ _ _ _ _
    have hset : (done ++ state.statements).set (done.length + state.cursor) after =
        done ++ state.statements.set state.cursor after := by
      rw [List.set_append_right _ _ (by omega), Nat.add_sub_cancel_left]
    have hadvance : advance (first ++ second) base
        (BlockState.behind ⟨state.cursor, state.statements.set state.cursor after⟩ done) status =
        _ := advance_second hd _ status
    rw [BlockState.behind] at hadvance
    rw [hset, hadvance, bind_assoc]
    simp only [pure_bind]
    apply InStep.map (steady_advance steady base _ status)
    intro next _ _ _ heq
    rw [← heq]
    rfl
  · exact InStep.pure rfl

/-- **A frame in the second part** keeps in step with one of that part alone. -/
theorem inStep_second (steady : SteadyRows second) (state : BlockState) :
    InStep (fun a b => a = (b.1, b.2.behind done))
      (runRows (first ++ second) base (state.behind done)) (runRows second base state) := by
  have hmore : (first ++ second).length + 1 - (state.behind done).cursor =
      second.length + 1 - state.cursor := by
    simp only [List.length_append, BlockState.behind, hd]
    omega
  rw [runRows, runRows, hmore]
  clear hmore
  generalize second.length + 1 - state.cursor = more
  induction more generalizing state with
  | zero => exact InStep.pure rfl
  | succ more ih =>
    rw [runSteps, runSteps]
    apply (inStep_step_second hd steady state).bind
    intro _ stepped _ _ heq
    subst heq
    obtain ⟨outcome, next⟩ := stepped
    cases outcome with
    | none => exact InStep.pure rfl
    | some status =>
      dsimp only
      by_cases hblocks : status.blocks = true
      · rw [if_pos hblocks, if_pos hblocks]
        exact InStep.pure rfl
      · rw [if_neg hblocks, if_neg hblocks]
        exact ih next

end Second

end Parts

end Play

/-! ## Two parts and two scripts -/

theorem rowsOf_append (host : Host σ) (a b : Block) :
    rowsOf host (a ++ b) = rowsOf host a ++ rowsOf host b := by
  rw [rowsOf_eq_map, rowsOf_eq_map, rowsOf_eq_map, List.map_append]

theorem freshStates_append (a b : Block) :
    freshStates (a ++ b) = freshStates a ++ freshStates b := by
  induction a with
  | nil => simp [freshStates]
  | cons statement a ih => simp [freshStates, ih]

/-- A block that no step looks ahead into. -/
def Block.Parted (block : Block) : Prop :=
  ∀ statement : Statement, block.head? = some statement →
    statement.isSimultaneous = false ∧ statement.isAlternative = false

theorem parted_rowsOf {block : Block} (h : block.Parted) (host : Host σ) :
    Play.Parted (rowsOf host block) := by
  intro row hrow
  rw [rowsOf_eq_map, List.head?_map] at hrow
  obtain ⟨statement, hstatement, heq⟩ := Option.map_eq_some_iff.mp hrow
  subst heq
  exact h statement hstatement

/-- The progress through a block in two parts, and the scripts that stand for it. -/
inductive Joined (a b : Block) : BlockState → List Script → Prop
  | first {state : BlockState} (length : state.statements.length = a.length)
      (cursor : state.cursor ≤ a.length) :
      Joined a b (state.followedBy (freshStates b)) [⟨a, state⟩, .fresh b]
  | second {done : List StatementState} {state : BlockState} (behind : done.length = a.length)
      (length : state.statements.length = b.length) (cursor : state.cursor ≤ b.length) :
      Joined a b (state.behind done) [⟨b, state⟩]
  | neither {state : BlockState} (cursor : a.length + b.length ≤ state.cursor) : Joined a b state []

/-- A frame leaves the form and the cursor of a block inside it. -/
theorem within_of_run {host : Host σ} {block : Block} {base : Option Value} {state next : BlockState}
    {finished : Bool} (hl : state.statements.length = block.length) (hc : state.cursor ≤ block.length)
    (h : Gives (runRows (rowsOf host block) base state) (finished, next)) :
    next.statements.length = block.length ∧ next.cursor ≤ block.length := by
  have hrows := length_rowsOf host block
  rw [← hrows] at hl hc ⊢
  have hkeeps := run_keeps (P := fun s => s.statements.length = (rowsOf host block).length ∧
    s.cursor ≤ (rowsOf host block).length) ?_ ⟨hl, hc⟩ h
  · exact hkeeps
  · intro before outcome after hbefore hstep
    rcases gives_step hstep with ⟨-, hsame, -⟩ | ⟨status, -, st⟩
    · rw [hsame]
      exact hbefore
    · obtain ⟨row, _, _, hrow, _⟩ := st.here
      have hlt := (List.getElem?_eq_some_iff.mp hrow).1
      refine ⟨st.length.trans hbefore.1, ?_⟩
      rw [st.cursor]
      exact cursorAfter_le hlt status

/-- What is shown of a frame of the whole and of a frame of the scripts. -/
def SameEnd (a b : Block) (whole : Bool × BlockState) (scripts : Nat × List Script) : Prop :=
  decide (a.length + b.length ≤ whole.2.cursor) = scripts.2.isEmpty ∧ Joined a b whole.2 scripts.2

/-- **The script over the second part is in play.** -/
theorem inStep_joined_second {a b : Block} (host : Host σ) (base : Option Value)
    {done : List StatementState} {state : BlockState} (hd : done.length = a.length)
    (hl : state.statements.length = b.length) (hc : state.cursor ≤ b.length) :
    InStep (SameEnd a b) (runRows (rowsOf host (a ++ b)) base (state.behind done))
      (Queue.runScripts host base [⟨b, state⟩]) := by
  have hd' : done.length = (rowsOf host a).length := by rw [hd, length_rowsOf]
  have hscript : InStep (fun whole script => ∃ next, whole = (script.1, next.behind done) ∧
        script.2 = ⟨b, next⟩ ∧ Gives (runRows (rowsOf host b) base state) (script.1, next))
      (runRows (rowsOf host (a ++ b)) base (state.behind done))
      (Script.run host base ⟨b, state⟩) := by
    rw [rowsOf_append]
    apply (inStep_second hd' (steadyRows_rowsOf host b) state).map_right
    intro whole played _ hgives heq
    exact ⟨played.2, heq, rfl, hgives⟩
  rw [← bind_pure (runRows (rowsOf host (a ++ b)) base (state.behind done)), Queue.runScripts]
  apply hscript.bind
  intro whole script _ _ hplayed
  obtain ⟨finished, script⟩ := script
  obtain ⟨next, hwhole, hnext, hgives⟩ := hplayed
  dsimp only at hwhole hnext hgives ⊢
  subst hwhole hnext
  cases finished with
  | true =>
    have hend := finished_of_run (hl.trans (length_rowsOf host b).symm) hgives
    rw [length_rowsOf] at hend
    have hover : a.length + b.length ≤ (next.behind done).cursor := by
      simp only [BlockState.behind, hd]
      omega
    rw [if_pos rfl, Queue.runScripts]
    apply InStep.note_right
    rw [pure_bind]
    apply InStep.pure
    exact ⟨decide_eq_true hover, .neither hover⟩
  | false =>
    have hheld := held_of_run hgives
    rw [length_rowsOf] at hheld
    have hopen : ¬ a.length + b.length ≤ (next.behind done).cursor := by
      simp only [BlockState.behind, hd]
      omega
    obtain ⟨hlength, hcursor⟩ := within_of_run hl hc hgives
    rw [if_neg (by decide)]
    apply InStep.pure
    exact ⟨decide_eq_false hopen, .second hd hlength hcursor⟩

/-- **The script over the first part is in play.** When it finishes, the second part comes into play
in the same frame. -/
theorem inStep_joined_first {a b : Block} (parted : b.Parted) (host : Host σ) (base : Option Value)
    {state : BlockState} (hl : state.statements.length = a.length) (hc : state.cursor ≤ a.length) :
    InStep (SameEnd a b)
      (runRows (rowsOf host (a ++ b)) base (state.followedBy (freshStates b)))
      (Queue.runScripts host base [⟨a, state⟩, .fresh b]) := by
  have hrows := length_rowsOf host a
  rw [rowsOf_append, runRows_first (parted_rowsOf parted host) (by omega) (by omega), ← rowsOf_append,
    Queue.runScripts]
  apply (inStep_script host base a state).bind
  intro played script hgives _ hscript
  obtain ⟨finished, next⟩ := played
  subst hscript
  obtain ⟨hlength, hcursor⟩ := within_of_run hl hc hgives
  dsimp only
  cases finished with
  | true =>
    -- the cursor is where the second part begins
    have hend := finished_of_run (hl.trans hrows.symm) hgives
    have hstart : next.followedBy (freshStates b) = (BlockState.fresh b).behind next.statements := by
      have hcursor' : next.cursor = next.statements.length := by omega
      simp [BlockState.followedBy, BlockState.behind, BlockState.fresh, hcursor']
    rw [if_pos rfl, if_pos rfl, hstart]
    apply InStep.note_right
    apply InStep.map_right
      (inStep_joined_second host base hlength (formed_fresh b).length (Nat.zero_le _))
    intro whole scripts _ _ hsame
    exact hsame
  | false =>
    have hheld := held_of_run hgives
    have hopen : ¬ a.length + b.length ≤ (next.followedBy (freshStates b)).cursor := by
      simp only [BlockState.followedBy]
      omega
    rw [if_neg (by decide), if_neg (by decide)]
    apply InStep.pure
    exact ⟨decide_eq_false hopen, .first hlength hcursor⟩

/-- A frame of the whole keeps in step with a frame of the scripts. -/
theorem inStep_joined {a b : Block} (parted : b.Parted) (host : Host σ) (base : Option Value)
    {state : BlockState} {scripts : List Script} (h : Joined a b state scripts) :
    InStep (SameEnd a b) (runRows (rowsOf host (a ++ b)) base state)
      (Queue.runScripts host base scripts) := by
  cases h with
  | first hl hc => exact inStep_joined_first parted host base hl hc
  | second hd hl hc => exact inStep_joined_second host base hd hl hc
  | neither hc =>
    have hover : (rowsOf host (a ++ b)).length ≤ state.cursor := by
      rw [length_rowsOf, List.length_append]
      exact hc
    rw [runRows_finished hover, Queue.runScripts]
    apply InStep.pure
    exact ⟨decide_eq_true hc, .neither hc⟩

/-- A script over both parts, and the queue that stands for it. -/
def JoinedQueue (a b : Block) (script : Script) (queue : Queue) : Prop :=
  script.block = a ++ b ∧ Joined a b script.state queue.scripts

theorem inStep_joinedQueue {a b : Block} (parted : b.Parted) (host : Host σ) (base : Option Value)
    (script : Script) (queue : Queue) (h : JoinedQueue a b script queue) :
    InStep (fun x y => x.1 = y.1 ∧ JoinedQueue a b x.2 y.2) (Script.player host base script)
      (Queue.player host base queue) := by
  obtain ⟨block, state⟩ := script
  obtain ⟨hblock, hjoined⟩ := h
  subst hblock
  have hscript : Script.player host base ⟨a ++ b, state⟩ =
      (runRows (rowsOf host (a ++ b)) base state >>= fun whole =>
        pure ((Script.mk (a ++ b) whole.2).isFinished, ⟨a ++ b, whole.2⟩)) := by
    simp [Script.player, Script.run, BlockState.run]
  have hqueue : Queue.player host base queue =
      (Queue.runScripts host base queue.scripts >>= fun left =>
        pure ((Queue.mk left.2).isIdle, ⟨left.2⟩)) := by
    simp [Queue.player, Queue.runUntilBlocked]
  rw [hscript, hqueue]
  apply (inStep_joined parted host base hjoined).map
  intro whole left _ _ hsame
  obtain ⟨hended, hnext⟩ := hsame
  refine ⟨?_, rfl, hnext⟩
  simpa [Script.isFinished, Script.size, Script.cursor, Queue.isIdle] using hended

/-- **A block in two parts is a queue of two scripts.** If the second part does not begin with a
simultaneous statement or an arm that follows another, a script over both parts exchanges the same with
the host, frame by frame, as a queue of a fresh script over each, and it is finished after just those
frames that leave the queue idle. -/
theorem append_plays_queue {a b : Block} (parted : b.Parted) (turns : List (Turn σ)) (world : σ) :
    (Script.player.turns turns (.fresh (a ++ b)) world).1 =
        (Queue.player.turns turns ⟨[.fresh a, .fresh b]⟩ world).1 ∧
      (Script.player.turns turns (.fresh (a ++ b)) world).2.2 =
        (Queue.player.turns turns ⟨[.fresh a, .fresh b]⟩ world).2.2 := by
  have hstart : JoinedQueue a b (.fresh (a ++ b)) ⟨[.fresh a, .fresh b]⟩ := by
    refine ⟨rfl, ?_⟩
    have hjoined : Joined a b ((BlockState.fresh a).followedBy (freshStates b))
        [.fresh a, .fresh b] := .first (formed_fresh a).length (Nat.zero_le _)
    rw [BlockState.followedBy, BlockState.fresh, ← freshStates_append] at hjoined
    exact hjoined
  obtain ⟨hscenes, -, hworld⟩ := Player.turns_eq (inStep_joinedQueue parted) hstart turns world
  exact ⟨hscenes, hworld⟩

/-- A host whose answer to every call is that it takes two frames. -/
def Host.slow : Host Unit :=
  ⟨fun call _ => ⟨if call.frame < 2 then .pending else .absent, (), []⟩, fun _ _ => ⟨[], (), []⟩⟩

/-- A call, and one that runs alongside it. -/
def opening : Block := [[.method "walk" [] false], [.method "talk" [] true]]

/-- One call more. -/
def closing : Block := [[.method "leave" [] false]]

/-- Three frames with the slow host. -/
def threeTurns : List (Turn Unit) := List.replicate 3 ⟨.slow, none, id⟩

theorem append_plays_queue_closing : closing.Parted ∧
    (Script.player.turns threeTurns (.fresh (opening ++ closing)) ()).1 =
      [⟨[.called ⟨none, "walk", [], 1⟩ .pending, .called ⟨none, "talk", [], 1⟩ .pending], false⟩,
        ⟨[.called ⟨none, "walk", [], 2⟩ .absent, .called ⟨none, "talk", [], 2⟩ .absent,
          .called ⟨none, "leave", [], 1⟩ .pending], false⟩,
        ⟨[.called ⟨none, "leave", [], 2⟩ .absent], true⟩] := by
  have hparted : closing.Parted := by
    intro statement h
    cases h
    exact ⟨rfl, rfl⟩
  refine ⟨hparted, ?_⟩
  rw [(append_plays_queue hparted threeTurns ()).1]
  simp [threeTurns, Host.slow, opening, closing, Player.turns, Queue.player, Queue.runUntilBlocked,
    Queue.runScripts, Queue.noteFinished, Queue.isIdle, Script.run, Script.fresh, BlockState.run,
    BlockState.fresh, freshStates, StatementState.fresh, rowsOf, runRows, runSteps, stepRows, evaluate,
    sleepName, playChain, chain, values, follow, ask, after, Answer.isPending, Status.blocks, advance,
    tickAlong, Statement.isSimultaneous, note, Stage.exchanges, modify, modifyGet,
    MonadStateOf.modifyGet, StateT.modifyGet, StateT.run, StateT.bind, StateT.pure, bind, pure]
  exact ⟨rfl, rfl, rfl⟩

end Cutscene
