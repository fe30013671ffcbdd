import Cutscene.Queue
import Cutscene.Proofs.Play.Throughout

/-!
How playing reaches its host.

A statement is played by asking the host, by having it list members and by writing records, and how it
goes on depends on nothing but the results (`Talks`). So whatever holds of these three and of doing
nothing, and is kept when one computation follows another, holds of every evaluation and every frame
(`talks_play`, `talks_runRows`, `talks_runUntilBlocked`), by one induction instead of many. What a
computation has to say to the host is added to the account behind what is there already
(`Talks.appends`).

The questions that a statement asks for itself, for its parameters, its guard, its members or its
bounds, all bear the frame that it is evaluated in (`talks_values`, `talks_fixGuard`,
`talks_fixMembers`, `talks_fixBounds`).
-/
namespace Cutscene

variable {σ α β : Type}

/-- The call bears a frame. -/
def Call.InFrame (frame : Nat) (call : Call) : Prop := call.frame = frame

/-- Any call at all. -/
def Call.Any (_ : Call) : Prop := True

/-- An event as it comes from the host: a call is one of those allowed, and the answer is the host's. -/
def Event.Heard (host : Host σ) (allowed : Call → Prop) : Event → Prop
  | .called call answer => allowed call ∧ ∃ world, answer = (host.answer call world).result
  | .listed _ _ => True
  | .noted _ => True

namespace Play

theorem run_bind (x : Play σ α) (f : α → Play σ β) (stage : Stage σ) :
    (x >>= f).run stage = (f (x.run stage).1).run (x.run stage).2 := rfl

/-- The computation reaches the host by calls that are allowed, by lists of members and by records, and
by nothing else. -/
inductive Talks (host : Host σ) (allowed : Call → Prop) : ∀ {α : Type}, Play σ α → Prop where
  | pure {α : Type} (a : α) : Talks host allowed (Pure.pure a : Play σ α)
  | bind {α β : Type} {x : Play σ α} {f : α → Play σ β} : Talks host allowed x →
      (∀ a, Talks host allowed (f a)) → Talks host allowed (x >>= f)
  | ask {call : Call} : allowed call → Talks host allowed (Play.ask host call)
  | list (handle : Handle) : Talks host allowed (Play.list host handle)
  | note (level : Level) (topic : Topic) (text : String) :
      Talks host allowed (Play.note level topic text)

section Talks
variable {host : Host σ} {allowed : Call → Prop} {x y : Play σ α}

theorem Talks.map (h : Talks host allowed x) (f : α → β) :
    Talks host allowed (x >>= fun a => Pure.pure (f a)) :=
  h.bind fun a => .pure (f a)

theorem talks_ite {c : Prop} [Decidable c] (hx : Talks host allowed x) (hy : Talks host allowed y) :
    Talks host allowed (if c then x else y) := by
  by_cases hc : c
  · rw [if_pos hc]
    exact hx
  · rw [if_neg hc]
    exact hy

/-- What keeps to fewer calls keeps to any. -/
theorem Talks.any (h : Talks host allowed x) : Talks host Call.Any x := by
  induction h with
  | pure a => exact .pure a
  | bind _ _ hx hf => exact .bind hx hf
  | ask _ => exact .ask trivial
  | list handle => exact .list handle
  | note level topic text => exact .note level topic text

theorem events_after (stage : Stage σ) (reply : Reply σ α) (event : Event) :
    (after stage reply event).events.toList =
      stage.events.toList ++ (reply.records.map Event.noted ++ [event]) := by
  simp [after]

/-- **What is said is added to the account**, behind all that is there. -/
theorem Talks.appends (h : Talks host allowed x) (stage : Stage σ) :
    ∃ new, (x.run stage).2.events.toList = stage.events.toList ++ new ∧
      ∀ event ∈ new, event.Heard host allowed := by
  -- the records of a reply come before the event that it is
  have hreply : ∀ {γ : Type} (reply : Reply σ γ) (event : Event), event.Heard host allowed →
      ∀ e ∈ reply.records.map Event.noted ++ [event], e.Heard host allowed := by
    intro γ reply event hheard e hmem
    rcases List.mem_append.mp hmem with hrecord | hevent
    · obtain ⟨record, -, rfl⟩ := List.mem_map.mp hrecord
      exact trivial
    · rw [List.mem_singleton.mp hevent]
      exact hheard
  induction h generalizing stage with
  | pure a => exact ⟨[], (List.append_nil _).symm, by simp⟩
  | @bind _ _ x f _ _ hx hf =>
    obtain ⟨first, hfirst, hheard⟩ := hx stage
    obtain ⟨second, hsecond, hheard'⟩ := hf (x.run stage).1 (x.run stage).2
    refine ⟨first ++ second, ?_, ?_⟩
    · rw [← List.append_assoc, ← hfirst]
      exact hsecond
    · intro event hmem
      rcases List.mem_append.mp hmem with hmem | hmem
      · exact hheard event hmem
      · exact hheard' event hmem
  | @ask call hallowed =>
    exact ⟨_, events_after stage (host.answer call stage.host) _,
      hreply _ _ ⟨hallowed, stage.host, rfl⟩⟩
  | list handle =>
    exact ⟨_, events_after stage (host.members handle stage.host) _, hreply _ _ trivial⟩
  | note level topic text =>
    refine ⟨[.noted ⟨level, topic, text⟩], ?_, ?_⟩
    · simp [Play.note, modify, modifyGet, MonadStateOf.modifyGet, StateT.modifyGet, StateT.run,
        Pure.pure]
    · intro event hmem
      rw [List.mem_singleton.mp hmem]
      exact trivial

end Talks

/-! ## The questions of a statement -/

section Questions
variable {host : Host σ} {allowed : Call → Prop} (base : Option Value) (frame : Nat)

theorem talks_object (text : String) : Talks host allowed (object text) := by
  unfold object
  split
  · exact .pure _
  · exact (Talks.note _ _ _).map _

theorem talks_misplaced (link : Link) : Talks host allowed (misplaced link) :=
  (Talks.note _ _ _).map _

theorem talks_valueBy {resolve : Play σ Answer} (h : Talks host allowed resolve)
    (statement : Statement) : Talks host allowed (valueBy resolve statement) := by
  unfold valueBy
  split
  · exact .pure _
  · exact h.map _
  · exact h.map _
  · exact .pure _
  · exact talks_object _
  · exact talks_misplaced _

theorem talks_ask (target : Option Handle) (name : String) (params : List Value) :
    Talks host (Call.InFrame frame) (ask host ⟨target, name, params, frame⟩) := .ask rfl

/-- The induction follows the recursion of chains and the parameters in them: the frame is handed on to
every depth. -/
theorem talks_calls (host : Host σ) :
    (∀ links answer, Talks host (Call.InFrame frame) (follow host base frame links answer)) ∧
    (∀ statements, Talks host (Call.InFrame frame) (values host base frame statements)) ∧
    ∀ links, Talks host (Call.InFrame frame) (chain host base frame links) := by
  apply follow.mutual_induct base
  · intro name params simultaneous links target hparams hlinks
    rw [follow]
    exact hparams.bind fun _ => (talks_ask frame _ name _).bind hlinks
  · intro links answer hstop
    rw [follow]
    · exact .pure _
    · exact hstop
  · rw [values]
    exact .pure _
  · intro statement statements hstatement hstatements
    rw [values]
    exact (talks_valueBy hstatement statement).bind fun _ => hstatements.map _
  · intro links hlinks
    rw [chain]
    exact hlinks
  · intro name params simultaneous links hparams hlinks
    rw [chain]
    exact hparams.bind fun _ => (talks_ask frame _ name _).bind hlinks
  · intro links hthis hmethod
    rw [chain]
    · exact .pure _
    · exact hthis
    · exact hmethod

variable (host)

theorem talks_follow (links : List Link) (answer : Answer) :
    Talks host (Call.InFrame frame) (follow host base frame links answer) :=
  (talks_calls base frame host).1 links answer

theorem talks_values (statements : List Statement) :
    Talks host (Call.InFrame frame) (values host base frame statements) :=
  (talks_calls base frame host).2.1 statements

theorem talks_chain (links : Statement) :
    Talks host (Call.InFrame frame) (chain host base frame links) :=
  (talks_calls base frame host).2.2 links

theorem talks_value (statement : Statement) :
    Talks host (Call.InFrame frame) (value host base frame statement) :=
  talks_valueBy (talks_chain host base frame statement) statement

theorem talks_test (params : List Statement) (template : String) :
    Talks host (Call.InFrame frame) (test host base frame params template) := by
  apply (talks_values host base frame params).bind
  intro vs
  dsimp only
  split
  · exact .pure _
  · exact (Talks.note _ _ _).map _

theorem talks_membersOf (v : Option Value) : Talks host allowed (membersOf host v) := by
  unfold membersOf
  split
  · exact .list _
  · exact .pure _
  · exact .pure _
  · exact (Talks.note _ _ _).map _
  · exact .pure _

theorem talks_enumerate (subject : Statement) :
    Talks host (Call.InFrame frame) (enumerate host base frame subject) :=
  (talks_value host base frame subject).bind fun v => (talks_membersOf host v).map _

theorem talks_fixGuard (params : List Statement) (template : String) (guard : Option Bool) :
    Talks host (Call.InFrame frame) (fixGuard host params template base frame guard) := by
  cases guard with
  | some met => exact .pure _
  | none =>
    exact (talks_test host base frame params template).bind fun _ => (Talks.note _ _ _).map _

theorem talks_fixMembers (subject : Statement) (fresh : BlockState)
    (members : Option (List (Value × BlockState))) :
    Talks host (Call.InFrame frame) (fixMembers host subject fresh base frame members) := by
  cases members with
  | some listed => exact .pure _
  | none => exact (talks_enumerate host base frame subject).bind fun _ => (Talks.note _ _ _).map _

theorem talks_fixBounds (low high : Statement) (counter : Int64) (bounds : Option (Int64 × Int64)) :
    Talks host (Call.InFrame frame) (fixBounds host low high base frame counter bounds) := by
  cases bounds with
  | some fixed => exact .pure _
  | none =>
    exact (talks_value host base frame low).bind fun _ =>
      (talks_value host base frame high).bind fun _ => (Talks.note _ _ _).map _

theorem talks_playSleep (params : List Statement) :
    Talks host (Call.InFrame frame) (playSleep host params base frame) := by
  cases params with
  | nil => exact (Talks.pure none).bind fun _ => talks_ite (.pure _) (.pure _)
  | cons param params =>
    exact (talks_value host base frame param).bind fun _ => talks_ite (.pure _) (.pure _)

theorem talks_playChain (links : Statement) :
    Talks host (Call.InFrame frame) (playChain host links base frame) :=
  (talks_chain host base frame links).map _

end Questions

/-! ## Blocks whose statements talk -/

/-- Evaluating any of the rows talks to the host. -/
def TalkingRows (host : Host σ) (rows : List (Row σ)) : Prop :=
  ∀ row ∈ rows, ∀ base state, Talks host Call.Any (row.evaluate base state)

section Rows
variable {host : Host σ} {rows : List (Row σ)} (talking : TalkingRows host rows)
  (base : Option Value)
include talking

theorem talks_tickAlong (states : List StatementState) :
    Talks host Call.Any (tickAlong base rows states) := by
  induction rows generalizing states with
  | nil => exact .pure _
  | cons row rows ih =>
    cases states with
    | nil => exact .pure _
    | cons state states =>
      have hrow := talking row List.mem_cons_self base state
      have hrows : TalkingRows host rows := fun r hr => talking r (List.mem_cons_of_mem _ hr)
      rw [tickAlong]
      exact talks_ite (hrow.bind fun _ => (ih hrows states).map _) (.pure _)

theorem talks_advance (state : BlockState) (status : Status) :
    Talks host Call.Any (advance rows base state status) := by
  cases status with
  | pending =>
    have hahead : TalkingRows host (rows.drop (state.cursor + 1)) :=
      fun row hr => talking row (List.mem_of_mem_drop hr)
    exact (talks_tickAlong hahead base _).map _
  | done => exact .pure _
  | met => exact .pure _
  | metPending => exact .pure _
  | notMet => exact .pure _

theorem talks_stepRows (state : BlockState) :
    Talks host Call.Any (stepRows rows base state) := by
  unfold stepRows
  split
  · next row statement hrow _ =>
    exact (talking row (List.mem_of_getElem? hrow) base statement).bind fun _ =>
      (Talks.note _ _ _).bind fun _ => (talks_advance talking base _ _).map _
  · exact .pure _

theorem talks_runSteps (more : Nat) (state : BlockState) :
    Talks host Call.Any (runSteps rows base more state) := by
  induction more generalizing state with
  | zero => exact .pure _
  | succ more ih =>
    apply (talks_stepRows talking base state).bind
    rintro ⟨outcome, next⟩
    cases outcome with
    | none => exact .pure _
    | some status => exact talks_ite (.pure _) (ih next)

theorem talks_runRows (state : BlockState) : Talks host Call.Any (runRows rows base state) :=
  talks_runSteps talking base _ state

theorem talks_playConditional (params : List Statement) (template : String) (frame : Nat)
    (guard : Option Bool) (body : BlockState) :
    Talks host Call.Any (playConditional host params template rows base frame guard body) :=
  (talks_fixGuard host base frame params template guard).any.bind fun _ =>
    talks_ite ((talks_runRows talking base body).map _) (.pure _)

omit base in
theorem talks_playMembers (members : List (Value × BlockState)) :
    Talks host Call.Any (playMembers rows members) := by
  induction members with
  | nil => exact .pure _
  | cons member members ih =>
    exact (talks_runRows talking (some member.1) member.2).bind fun _ => ih.map _

theorem talks_playEach (subject : Statement) (fresh : BlockState) (frame : Nat)
    (members : Option (List (Value × BlockState))) :
    Talks host Call.Any (playEach host subject fresh rows base frame members) :=
  (talks_fixMembers host base frame subject fresh members).any.bind fun listed =>
    (talks_playMembers talking listed).map _

theorem talks_playCounts (more : Nat) (counter : Int64) (body : BlockState) :
    Talks host Call.Any (playCounts rows base more counter body) := by
  induction more generalizing counter body with
  | zero => exact .pure _
  | succ more ih =>
    exact (talks_runRows talking base body).bind fun _ => talks_ite (ih _ _) (.pure _)

theorem talks_playRange (low high : Statement) (frame : Nat) (bounds : Option (Int64 × Int64))
    (counter : Int64) (body : BlockState) :
    Talks host Call.Any (playRange host low high rows base frame bounds counter body) :=
  (talks_fixBounds host base frame low high counter bounds).any.bind fun _ =>
    (talks_playCounts talking base _ _ _).map _

end Rows

/-! ## Statements, frames and queues -/

/-- **Playing a statement is talking to the host**, and so is playing every row of a block. The induction
follows the recursion into bodies. -/
theorem talks_play (host : Host σ) :
    (∀ statement base state, Talks host Call.Any (evaluate host statement base state)) ∧
    ∀ block, TalkingRows host (rowsOf host block) := by
  apply evaluate.mutual_induct (σ := σ)
  · intro base frames link
    rw [evaluate]
    exact .pure _
  · intro params simultaneous links base frames link
    rw [evaluate, if_pos rfl]
    exact (talks_playSleep host base _ params).any.map _
  · intro name params simultaneous links base frames link hname
    rw [evaluate, if_neg hname]
    exact (talks_playChain host base _ _).any.map _
  · intro links base frames link
    rw [evaluate]
    exact (talks_playChain host base _ _).any.map _
  · intro arm params template body tail base frames guard state hbody
    rw [evaluate]
    exact (talks_playConditional hbody base params template _ guard state).map _
  · intro subject body tail base frames members hbody
    rw [evaluate]
    exact (talks_playEach hbody base subject _ _ members).map _
  · intro low high body tail base frames bounds counter state hbody
    rw [evaluate]
    exact (talks_playRange hbody base low high _ bounds counter state).map _
  · intro statement base frames link hnil hmethod hthis hconditional heach hrange
    rw [evaluate]
    · exact .pure _
    all_goals assumption
  · intro row hrow
    simp [rowsOf] at hrow
  · intro statement block hstatement hblock row hrow
    rw [rowsOf] at hrow
    rcases List.mem_cons.mp hrow with rfl | hrow
    · exact hstatement
    · exact hblock row hrow

theorem talkingRows_rowsOf (host : Host σ) (block : Block) : TalkingRows host (rowsOf host block) :=
  (talks_play host).2 block

theorem talks_run (host : Host σ) (base : Option Value) (script : Script) :
    Talks host Call.Any (script.run host base) :=
  (talks_runRows (talkingRows_rowsOf host script.block) base script.state).map _

theorem talks_runScripts (host : Host σ) (base : Option Value) (scripts : List Script) :
    Talks host Call.Any (Queue.runScripts host base scripts) := by
  induction scripts with
  | nil => exact .pure _
  | cons head others ih =>
    exact (talks_run host base head).bind fun _ =>
      talks_ite ((Talks.note _ _ _).bind fun _ => ih.map _) (.pure _)

theorem talks_runUntilBlocked (host : Host σ) (base : Option Value) (queue : Queue) :
    Talks host Call.Any (queue.runUntilBlocked host base) :=
  (talks_runScripts host base queue.scripts).map _

end Play

end Cutscene
