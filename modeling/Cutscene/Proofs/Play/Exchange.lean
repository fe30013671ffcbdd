import Cutscene.Proofs.Play.Talk

/-!
What passes between a script and its host, apart from the records that are written on the way.

`InStep R x y` says that two computations keep in step: from stages that differ in nothing but
records they exchange the same with the host, and their results are related by `R`. It is closed
under bind (`InStep.bind`), and a record may be written on one side only. What talks to the host does not
look at the records (`Talks.steady`), so every evaluation keeps in step with itself.

A `Player` is anything that is played a frame at a time. Two players whose frames keep in step show
the same to the host, frame by frame, for as long as they are played (`Player.turns_eq`).
-/
namespace Cutscene

variable {σ α β γ δ : Type}

/-! ## Exchanges -/

/-- Whether an event passed between a script and its host. -/
def Event.isExchange : Event → Bool
  | .called _ _ => true
  | .listed _ _ => true
  | .noted _ => false

/-- The calls and the requests for members so far, with their answers. -/
def Stage.exchanges (stage : Stage σ) : List Event := stage.events.toList.filter Event.isExchange

/-- Stages that differ in nothing but records. -/
structure Stage.Alike (s t : Stage σ) : Prop where
  host : s.host = t.host
  exchanges : s.exchanges = t.exchanges

theorem Stage.Alike.symm {s t : Stage σ} (h : s.Alike t) : t.Alike s :=
  ⟨h.host.symm, h.exchanges.symm⟩

namespace Play

theorem alike_note {s t : Stage σ} (h : s.Alike t) (level : Level) (topic : Topic) (text : String) :
    s.Alike ((note level topic text).run t).2 := by
  refine ⟨h.host, h.exchanges.trans ?_⟩
  simp [note, modify, modifyGet, MonadStateOf.modifyGet, StateT.modifyGet, StateT.run, pure,
    Stage.exchanges, Event.isExchange]

theorem alike_after {s t : Stage σ} (h : s.Alike t) (reply : Reply σ α) (event : Event) :
    (after s reply event).Alike (after t reply event) := by
  refine ⟨rfl, ?_⟩
  have hexchanges := h.exchanges
  simp only [Stage.exchanges] at hexchanges
  simp [after, Stage.exchanges, hexchanges]

/-! ## Computations that keep in step -/

/-- The computations exchange the same with the host, and their results are related. -/
def InStep (R : α → β → Prop) (x : Play σ α) (y : Play σ β) : Prop :=
  ∀ s t, s.Alike t → R (x.run s).1 (y.run t).1 ∧ (x.run s).2.Alike (y.run t).2

section InStep
variable {R : α → β → Prop} {S : γ → δ → Prop} {x : Play σ α} {y : Play σ β}
  {f : α → Play σ γ} {g : β → Play σ δ}

theorem InStep.pure {a : α} {b : β} (h : R a b) : InStep R (pure a : Play σ α) (pure b) :=
  fun _ _ hst => ⟨h, hst⟩

/-- What goes on behind computations that keep in step may rely on their results. -/
theorem InStep.bind (hx : InStep R x y)
    (hf : ∀ a b, Gives x a → Gives y b → R a b → InStep S (f a) (g b)) :
    InStep S (x >>= f) (y >>= g) := by
  intro s t hst
  obtain ⟨hr, hmid⟩ := hx s t hst
  exact hf _ _ ⟨s, rfl⟩ ⟨t, rfl⟩ hr _ _ hmid

/-- Results that are only put into another form. -/
theorem InStep.map (hx : InStep R x y) {f : α → γ} {g : β → δ}
    (h : ∀ a b, Gives x a → Gives y b → R a b → S (f a) (g b)) :
    InStep S (x >>= fun a => Pure.pure (f a)) (y >>= fun b => Pure.pure (g b)) :=
  hx.bind fun a b ha hb hr => InStep.pure (h a b ha hb hr)

/-- The same, on one side only. -/
theorem InStep.map_right (hx : InStep R x y) {S : α → δ → Prop} {g : β → δ}
    (h : ∀ a b, Gives x a → Gives y b → R a b → S a (g b)) :
    InStep S x (y >>= fun b => Pure.pure (g b)) := by
  intro s t hst
  obtain ⟨hr, hnext⟩ := hx s t hst
  exact ⟨h _ _ ⟨s, rfl⟩ ⟨t, rfl⟩ hr, hnext⟩

/-- A record on one side does not matter. -/
theorem InStep.note_right (hx : InStep R x y) (level : Level) (topic : Topic) (text : String) :
    InStep R x (note level topic text >>= fun _ => y) :=
  fun s _ hst => hx s _ (alike_note hst level topic text)

end InStep

/-! ## Computations that do not look at the records -/

/-- The computation keeps in step with itself. -/
def Steady (x : Play σ α) : Prop := InStep Eq x x

section Steady
variable {x y : Play σ α} {f : α → Play σ β}

theorem steady_pure (a : α) : Steady (pure a : Play σ α) := InStep.pure rfl

theorem Steady.bind (hx : Steady x) (hf : ∀ a, Steady (f a)) : Steady (x >>= f) := by
  apply InStep.bind hx
  rintro a _ _ _ rfl
  exact hf a

theorem Steady.map (hx : Steady x) (f : α → β) : Steady (x >>= fun a => pure (f a)) :=
  hx.bind fun a => steady_pure (f a)

theorem steady_ite {c : Prop} [Decidable c] (hx : Steady x) (hy : Steady y) :
    Steady (if c then x else y) := by
  by_cases hc : c
  · rw [if_pos hc]; exact hx
  · rw [if_neg hc]; exact hy

/-- Records keep in step, whatever they say. -/
theorem inStep_note (level level' : Level) (topic topic' : Topic) (text text' : String) :
    InStep Eq (note level topic text : Play σ Unit) (note level' topic' text') := by
  intro s t hst
  have hleft := alike_note hst.symm level topic text
  exact ⟨rfl, alike_note hleft.symm level' topic' text'⟩

theorem steady_note (level : Level) (topic : Topic) (text : String) :
    Steady (note level topic text : Play σ Unit) := inStep_note _ _ _ _ _ _

theorem steady_ask (host : Host σ) (call : Call) : Steady (ask host call) := by
  intro s t hst
  have hreply : host.answer call s.host = host.answer call t.host := by rw [hst.host]
  constructor
  · exact congrArg Reply.result hreply
  · show (after s (host.answer call s.host) _).Alike (after t (host.answer call t.host) _)
    rw [hreply]
    exact alike_after hst _ _

theorem steady_list (host : Host σ) (handle : Handle) : Steady (list host handle) := by
  intro s t hst
  have hreply : host.members handle s.host = host.members handle t.host := by rw [hst.host]
  constructor
  · exact congrArg Reply.result hreply
  · show (after s (host.members handle s.host) _).Alike (after t (host.members handle t.host) _)
    rw [hreply]
    exact alike_after hst _ _

end Steady

/-- **Talking to the host is steady**: it does not look at the records. -/
theorem Talks.steady {host : Host σ} {allowed : Call → Prop} {x : Play σ α}
    (h : Talks host allowed x) : Steady x := by
  induction h with
  | pure a => exact steady_pure a
  | bind _ _ hx hf => exact hx.bind hf
  | ask _ => exact steady_ask host _
  | list handle => exact steady_list host handle
  | note level topic text => exact steady_note level topic text

@[simp] theorem exchanges_note (level : Level) (topic : Topic) (text : String) (s : Stage σ) :
    ((note level topic text).run s).2.exchanges = s.exchanges :=
  (alike_note ⟨rfl, rfl⟩ level topic text).exchanges.symm

theorem exchanges_after (s : Stage σ) (reply : Reply σ α) {event : Event}
    (h : event.isExchange = true) : (after s reply event).exchanges = s.exchanges ++ [event] := by
  have hrecords : (reply.records.map Event.noted).filter Event.isExchange = [] := by
    simp [List.filter_eq_nil_iff, Event.isExchange]
  rw [Stage.exchanges, events_after, List.filter_append, List.filter_append, hrecords, List.nil_append,
    List.filter_singleton, h, Stage.exchanges]
  rfl

@[simp] theorem exchanges_ask (host : Host σ) (call : Call) (s : Stage σ) :
    ((ask host call).run s).2.exchanges =
      s.exchanges ++ [.called call (host.answer call s.host).result] := exchanges_after s _ rfl

@[simp] theorem exchanges_list (host : Host σ) (handle : Handle) (s : Stage σ) :
    ((list host handle).run s).2.exchanges =
      s.exchanges ++ [.listed handle (host.members handle s.host).result] := exchanges_after s _ rfl

/-- **What is exchanged does not depend on the account.** From an account of its own, a computation that
talks to the host has the same result and leaves the same host, and what it exchanges is what it adds to
any other account. -/
theorem Talks.afresh {host : Host σ} {allowed : Call → Prop} {x : Play σ α}
    (h : Talks host allowed x) (s : Stage σ) :
    (x.run s).1 = (x.run ⟨s.host, #[]⟩).1 ∧ (x.run s).2.host = (x.run ⟨s.host, #[]⟩).2.host ∧
      (x.run s).2.exchanges = s.exchanges ++ (x.run ⟨s.host, #[]⟩).2.exchanges := by
  induction h generalizing s with
  | pure a => exact ⟨rfl, rfl, (List.append_nil _).symm⟩
  | @bind _ _ x f _ _ hx hf =>
    obtain ⟨hresult, hhost, hfirst⟩ := hx s
    let mid := (x.run s).2
    let bare := (x.run ⟨s.host, #[]⟩).2
    obtain ⟨hresult₁, hhost₁, hsecond₁⟩ := hf (x.run s).1 mid
    obtain ⟨hresult₂, hhost₂, hsecond₂⟩ := hf (x.run s).1 bare
    have hmid : mid.host = bare.host := hhost
    rw [← hmid] at hresult₂ hhost₂ hsecond₂
    simp only [run_bind, ← hresult]
    refine ⟨hresult₁.trans hresult₂.symm, hhost₁.trans hhost₂.symm, ?_⟩
    calc ((f (x.run s).1).run mid).2.exchanges
        = (s.exchanges ++ bare.exchanges) ++
            ((f (x.run s).1).run ⟨mid.host, #[]⟩).2.exchanges := by rw [hsecond₁, hfirst]
      _ = s.exchanges ++ ((f (x.run s).1).run bare).2.exchanges := by
          rw [List.append_assoc, hsecond₂]
  | ask _ =>
    refine ⟨rfl, rfl, ?_⟩
    rw [exchanges_ask, exchanges_ask]
    rfl
  | list handle =>
    refine ⟨rfl, rfl, ?_⟩
    rw [exchanges_list, exchanges_list]
    rfl
  | note level topic text =>
    refine ⟨rfl, rfl, ?_⟩
    rw [exchanges_note, exchanges_note]
    exact (List.append_nil _).symm

/-! ## Blocks whose statements are steady -/

/-- Evaluating any of the rows is steady. -/
def SteadyRows (rows : List (Row σ)) : Prop :=
  ∀ row ∈ rows, ∀ base state, Steady (row.evaluate base state)

section Rows
variable {rows : List (Row σ)} (steady : SteadyRows rows) (base : Option Value)
include steady

theorem steady_tickAlong (states : List StatementState) : Steady (tickAlong base rows states) := by
  induction rows generalizing states with
  | nil => exact steady_pure _
  | cons row rows ih =>
    cases states with
    | nil => exact steady_pure _
    | cons state states =>
      have hrow := steady row (by simp) base state
      have hrows : SteadyRows rows := fun r hr => steady r (by simp [hr])
      rw [tickAlong]
      exact steady_ite (hrow.bind fun _ => (ih hrows states).map _) (steady_pure _)

theorem steady_advance (state : BlockState) (status : Status) :
    Steady (advance rows base state status) := by
  cases status with
  | pending =>
    have hahead : SteadyRows (rows.drop (state.cursor + 1)) :=
      fun row hr => steady row (List.mem_of_mem_drop hr)
    exact (steady_tickAlong hahead base _).map _
  | done => exact steady_pure _
  | met => exact steady_pure _
  | metPending => exact steady_pure _
  | notMet => exact steady_pure _

end Rows

/-- **Playing does not look at the records**, in every row of a block. -/
theorem steadyRows_rowsOf (host : Host σ) (block : Block) : SteadyRows (rowsOf host block) :=
  fun row hrow base state => (talkingRows_rowsOf host block row hrow base state).steady

end Play

/-! ## Frame after frame -/

/-- What a frame finds: the host, the value of `this`, and what the game has done to the host's state
since the frame before. -/
structure Turn (σ : Type) where
  host : Host σ
  base : Option Value
  meanwhile : σ → σ

/-- What is seen of a frame from outside: what passed between player and host, and whether the player
has nothing left to play. -/
structure Scene where
  exchanges : List Event
  ended : Bool

/-- Something that is played a frame at a time, and says whether it has anything left to play. -/
abbrev Player (σ S : Type) := Host σ → Option Value → S → Play σ (Bool × S)

/-- Play a script for a frame. -/
def Script.player : Player σ Script := fun host base script => do
  let (_, script) ← script.run host base
  return (script.isFinished, script)

/-- Play a queue for a frame, for as long as its scripts finish. -/
def Queue.player : Player σ Queue := fun host base queue => do
  let (_, queue) ← queue.runUntilBlocked host base
  return (queue.isIdle, queue)

/-- Evaluate a statement for a frame, until its condition is met and its body finished. -/
def Statement.player (statement : Statement) : Player σ StatementState := fun host base state => do
  let (status, state) ← Play.evaluate host statement base state
  return (decide (status = .met), state)

namespace Player

variable {S T : Type}

/-- The scenes of a player frame after frame, each with an account of its own, and what is left of
the player and the host's state. -/
def turns (player : Player σ S) : List (Turn σ) → S → σ → List Scene × S × σ
  | [], state, world => ([], state, world)
  | turn :: rest, state, world =>
    let played := (player turn.host turn.base state).run ⟨turn.meanwhile world, #[]⟩
    let later := player.turns rest played.1.2 played.2.host
    (⟨played.2.exchanges, played.1.1⟩ :: later.1, later.2)

/-- **Players whose frames keep in step show the same.** -/
theorem turns_eq {p : Player σ S} {q : Player σ T} {R : S → T → Prop}
    (frame : ∀ host base s t, R s t →
      Play.InStep (fun a b => a.1 = b.1 ∧ R a.2 b.2) (p host base s) (q host base t))
    {s : S} {t : T} (h : R s t) (turns : List (Turn σ)) (world : σ) :
    (p.turns turns s world).1 = (q.turns turns t world).1 ∧
      R (p.turns turns s world).2.1 (q.turns turns t world).2.1 ∧
      (p.turns turns s world).2.2 = (q.turns turns t world).2.2 := by
  induction turns generalizing s t world with
  | nil => exact ⟨rfl, h, rfl⟩
  | cons turn turns ih =>
    let stage : Stage σ := ⟨turn.meanwhile world, #[]⟩
    obtain ⟨⟨hended, hnext⟩, halike⟩ :=
      frame turn.host turn.base s t h stage stage ⟨rfl, rfl⟩
    obtain ⟨hscenes, hleft⟩ := ih hnext ((q turn.host turn.base t).run stage).2.host
    simp only [Player.turns]
    rw [halike.host, halike.exchanges, hended, hscenes]
    exact ⟨rfl, hleft⟩

end Player

end Cutscene
