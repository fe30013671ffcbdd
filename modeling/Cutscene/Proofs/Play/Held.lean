import Cutscene.Proofs.Play.Cursor
import Cutscene.Proofs.Play.Talk

/-!
What can hold a frame up.

Only two statements are ever pending by themselves: a call of `sleep`, and a chain that ends with a
pending answer. A control statement is held up by its body alone, for an arm is taken or passed over in
the frame that tests it, the members of an `each` are all played in every frame, and a range goes on
until its counter is through. So by induction over the tree, where no statement starts with `sleep`
(`Block.Sleeps`) a result that holds a frame up has a pending answer behind it that was given in that
frame (`Excused`).

This needs no form of the state: a body that is half played, at every depth, is held up by nothing else
either. `held_only_by_pending` says so of every script, whatever was done with it before.
-/
namespace Cutscene

open Play

variable {σ α β : Type}

/-- Somewhere in the block, at any depth, a statement starts with a call of `sleep`. -/
inductive Block.Sleeps : Block → Prop where
  | here {params : List Statement} {simultaneous : Bool} {tail : List Link} {block : Block} :
      .method sleepName params simultaneous :: tail ∈ block → Sleeps block
  | conditional {arm : Arm} {params : List Statement} {template : String} {body : Block}
      {tail : List Link} {block : Block} :
      .conditional arm params template body :: tail ∈ block → Sleeps body → Sleeps block
  | each {subject : Statement} {body : Block} {tail : List Link} {block : Block} :
      .each subject body :: tail ∈ block → Sleeps body → Sleeps block
  | range {low high : Statement} {body : Block} {tail : List Link} {block : Block} :
      .range low high body :: tail ∈ block → Sleeps body → Sleeps block

/-- What sleeps in a smaller block sleeps in a larger one. -/
theorem Block.Sleeps.mono {block larger : Block} (h : Block.Sleeps block) (hsub : block ⊆ larger) :
    Block.Sleeps larger := by
  cases h with
  | here hmem => exact .here (hsub hmem)
  | conditional hmem hbody => exact .conditional (hsub hmem) hbody
  | each hmem hbody => exact .each (hsub hmem) hbody
  | range hmem hbody => exact .range (hsub hmem) hbody

/-! ## Pending answers -/

/-- From one stage to another a call was answered with pending. -/
def Waited (s t : Stage σ) : Prop :=
  ∃ new call, t.events.toList = s.events.toList ++ new ∧ Event.called call .pending ∈ new

/-- A result that holds up has a pending answer behind it, which was given on the way to it. -/
def Excused (held : α → Prop) (x : Play σ α) : Prop :=
  ∀ s, held (x.run s).1 → Waited s (x.run s).2

/-- An outcome of a statement that holds the frame up. -/
def Holds (outcome : Status × StatementState) : Prop := outcome.1.blocks = true

/-- A frame that is held up. -/
def Unfinished {γ : Type} (outcome : Bool × γ) : Prop := outcome.1 = false

section Excused
variable {host : Host σ} {A : α → Prop} {B : β → Prop} {x : Play σ α} {f : α → Play σ β}

theorem excused_pure {a : α} (h : ¬A a) : Excused A (pure a : Play σ α) := fun _ ha => absurd ha h

theorem excused_ite {c : Prop} [Decidable c] {y : Play σ α} (hx : c → Excused A x)
    (hy : ¬c → Excused A y) : Excused A (if c then x else y) := by
  by_cases hc : c
  · rw [if_pos hc]
    exact hx hc
  · rw [if_neg hc]
    exact hy hc

/-- A pending answer stays in the account whatever follows. -/
theorem Waited.then {s t : Stage σ} (h : Waited s t) (tx : Talks host Call.Any x) :
    Waited s (x.run t).2 := by
  obtain ⟨new, call, hnew, hmem⟩ := h
  obtain ⟨later, hlater, -⟩ := tx.appends t
  refine ⟨new ++ later, call, ?_, List.mem_append_left _ hmem⟩
  rw [hlater, hnew, List.append_assoc]

/-- It is as well one that was given since an earlier stage. -/
theorem Waited.since {s t : Stage σ} (tx : Talks host Call.Any x) (h : Waited (x.run s).2 t) :
    Waited s t := by
  obtain ⟨new, call, hnew, hmem⟩ := h
  obtain ⟨earlier, hearlier, -⟩ := tx.appends s
  refine ⟨earlier ++ new, call, ?_, List.mem_append_right _ hmem⟩
  rw [hnew, hearlier, List.append_assoc]

/-- Either the first computation is held up, or it is not and what follows is. -/
theorem Excused.bind (tx : Talks host Call.Any x) (tf : ∀ a, Talks host Call.Any (f a))
    (hx : Excused A x) (hf : ∀ a, ¬A a → Excused B (f a)) : Excused B (x >>= f) := by
  intro s hheld
  by_cases hA : A (x.run s).1
  · exact (hx s hA).then (tf _)
  · exact .since tx (hf _ hA _ hheld)

/-- What comes before does not hold up. -/
theorem Excused.behind (tx : Talks host Call.Any x) (hf : ∀ a, Excused B (f a)) :
    Excused B (x >>= f) :=
  fun _ hheld => .since tx (hf _ _ hheld)

theorem Excused.map {g : α → β} (hx : Excused A x) (h : ∀ a, B (g a) → A a) :
    Excused B (x >>= fun a => pure (g a)) :=
  fun s hheld => hx s (h _ hheld)

theorem excused_ask (call : Call) :
    Excused (fun answer => answer.isPending = true) (ask host call) := by
  intro s hpending
  have hresult : (host.answer call s.host).result = .pending := by
    cases hanswer : (host.answer call s.host).result with
    | pending => rfl
    | _ =>
      change Answer.isPending (host.answer call s.host).result = true at hpending
      rw [hanswer] at hpending
      cases hpending
  refine ⟨_, call, events_after s (host.answer call s.host) _, ?_⟩
  rw [hresult]
  exact List.mem_append_right _ List.mem_cons_self

end Excused

/-! ## Chains -/

section Chain
variable {host : Host σ} (base : Option Value) (frame : Nat)

/-- A chain goes on from an answer that is not pending; the induction is on the links that are left. -/
theorem excused_follow (links : List Link) {answer : Answer} (h : ¬answer.isPending = true) :
    Excused (fun answer => answer.isPending = true) (follow host base frame links answer) := by
  induction links generalizing answer with
  | nil =>
    rw [follow]
    · exact excused_pure h
    · simp
  | cons link links ih =>
    unfold follow
    split
    · next name params simultaneous rest target heq =>
      cases heq
      apply Excused.behind (talks_values host base frame params).any
      intro args
      exact (excused_ask _).bind (.ask trivial) (fun _ => (talks_follow host base frame links _).any)
        fun answer hanswer => ih hanswer
    · exact excused_pure h

theorem isPending_ofBase (base : Option Value) : ¬(Answer.ofBase base).isPending = true := by
  cases base with
  | none => simp [Answer.ofBase, Answer.isPending]
  | some v => cases v <;> simp [Answer.ofBase, Answer.isPending]

theorem excused_chain (links : Statement) :
    Excused (fun answer => answer.isPending = true) (chain host base frame links) := by
  unfold chain
  split
  · exact excused_follow base frame _ (isPending_ofBase base)
  · apply Excused.behind (talks_values host base frame _).any
    intro args
    exact (excused_ask _).bind (.ask trivial) (fun _ => (talks_follow host base frame _ _).any)
      fun answer hanswer => excused_follow base frame _ hanswer
  · exact excused_pure (by simp [Answer.isPending])

theorem excused_playChain (links : Statement) :
    Excused (fun status => status.blocks = true) (playChain host links base frame) := by
  apply (excused_chain base frame links).map
  intro answer hblocks
  cases hpending : answer.isPending with
  | true => rfl
  | false =>
    rw [hpending] at hblocks
    cases hblocks

end Chain

/-! ## Blocks -/

/-- A body holds its statement up for as long as it is not finished. -/
theorem excused_bodyStatus {γ : Type} {x : Play σ (Bool × γ)} {link : Bool × γ → LinkState}
    (hx : Excused Unfinished x) :
    Excused (fun outcome : Status × LinkState => outcome.1.blocks = true)
      (x >>= fun played => pure (bodyStatus played.1, link played)) := by
  apply hx.map
  intro played hblocks
  cases hfinished : played.1 with
  | false => exact hfinished
  | true =>
    rw [hfinished] at hblocks
    cases hblocks

/-- Every row of the block talks to the host, and has an excuse when it holds the frame up. -/
def ExcusedRows (rows : List (Row σ)) : Prop :=
  ∀ row ∈ rows, ∀ base state, Excused Holds (row.evaluate base state)

section Rows
variable {host : Host σ} {rows : List (Row σ)} (talking : TalkingRows host rows)
  (excused : ExcusedRows rows)
include talking excused

/-- The statement under the cursor may hold a step up, and those that run alongside may not. -/
theorem excused_stepRows (base : Option Value) (state : BlockState) :
    Excused (fun outcome => ∃ status, outcome.1 = some status ∧ status.blocks = true)
      (stepRows rows base state) := by
  unfold stepRows
  split
  · next row statement hrow _ =>
    have hmem : row ∈ rows := List.mem_of_getElem? hrow
    apply (excused row hmem base statement).bind (talking row hmem base statement)
    · intro evaluated
      exact (Talks.note _ _ _).bind fun _ => (talks_advance talking base _ _).map _
    · intro evaluated hevaluated
      have hnote : ∀ text, Talks host Call.Any (note .trace .evaluation text) := Talks.note _ _
      apply Excused.behind (hnote _)
      intro _
      apply Excused.behind (talks_advance talking base _ _)
      intro next
      apply excused_pure
      rintro ⟨status, hstatus, hblocks⟩
      cases hstatus
      exact hevaluated hblocks
  · apply excused_pure
    rintro ⟨status, hstatus, -⟩
    cases hstatus

theorem excused_runSteps (base : Option Value) (more : Nat) (state : BlockState) :
    Excused Unfinished (runSteps rows base more state) := by
  induction more generalizing state with
  | zero => exact excused_pure (by simp [Unfinished])
  | succ more ih =>
    apply (excused_stepRows talking excused base state).bind (talks_stepRows talking base state)
    · rintro ⟨outcome, next⟩
      cases outcome with
      | none => exact .pure _
      | some status => exact talks_ite (.pure _) (talks_runSteps talking base more next)
    · rintro ⟨outcome, next⟩ hstep
      cases outcome with
      | none => exact excused_pure (by simp [Unfinished])
      | some status =>
        exact excused_ite (fun hblocks => absurd ⟨status, rfl, hblocks⟩ hstep) fun _ => ih next

theorem excused_runRows (base : Option Value) (state : BlockState) :
    Excused Unfinished (runRows rows base state) :=
  excused_runSteps talking excused base _ state

theorem excused_playConditional (params : List Statement) (template : String) (base : Option Value)
    (frame : Nat) (guard : Option Bool) (body : BlockState) :
    Excused (fun outcome => outcome.1.blocks = true)
      (playConditional host params template rows base frame guard body) := by
  apply Excused.behind (talks_fixGuard host base frame params template guard).any
  intro met
  exact excused_ite (fun _ => excused_bodyStatus (excused_runRows talking excused base body))
    fun _ => excused_pure (by simp [Status.blocks])

/-- All the members are played, and every one that is not finished has an excuse of its own. -/
theorem excused_playMembers (members : List (Value × BlockState)) :
    Excused Unfinished (playMembers rows members) := by
  induction members with
  | nil => exact excused_pure (by simp [Unfinished])
  | cons member members ih =>
    apply (excused_runRows talking excused (some member.1) member.2).bind
      (talks_runRows talking _ _) fun _ => (talks_playMembers talking members).map _
    intro played hplayed
    have hfinished : played.1 = true := by simpa [Unfinished] using hplayed
    apply ih.map
    intro others hothers
    rwa [Unfinished, hfinished, Bool.true_and] at hothers

theorem excused_playEach (subject : Statement) (fresh : BlockState) (base : Option Value)
    (frame : Nat) (members : Option (List (Value × BlockState))) :
    Excused (fun outcome => outcome.1.blocks = true)
      (playEach host subject fresh rows base frame members) := by
  apply Excused.behind (talks_fixMembers host base frame subject fresh members).any
  intro listed
  exact excused_bodyStatus (excused_playMembers talking excused listed)

/-- The body is played for one value after the other, and stops at the first that is held up. -/
theorem excused_playCounts (base : Option Value) (more : Nat) (counter : Int64) (body : BlockState) :
    Excused Unfinished (playCounts rows base more counter body) := by
  induction more generalizing counter body with
  | zero => exact excused_pure (by simp [Unfinished])
  | succ more ih =>
    apply (excused_runRows talking excused base body).bind (talks_runRows talking _ _)
    · exact fun _ => talks_ite (talks_playCounts talking base more _ _) (.pure _)
    · intro played hplayed
      have hfinished : played.1 = true := by simpa [Unfinished] using hplayed
      exact excused_ite (fun _ => ih _ _) fun hheld => absurd hfinished hheld

theorem excused_playRange (low high : Statement) (base : Option Value) (frame : Nat)
    (bounds : Option (Int64 × Int64)) (counter : Int64) (body : BlockState) :
    Excused (fun outcome => outcome.1.blocks = true)
      (playRange host low high rows base frame bounds counter body) := by
  apply Excused.behind (talks_fixBounds host base frame low high counter bounds).any
  intro fixed
  exact excused_bodyStatus (excused_playCounts talking excused base _ _ _)

end Rows

/-! ## Statements -/

/-- **Nothing but a pending answer holds up what does not sleep.** The induction follows the recursion
into bodies; the cases are the statement's first link. -/
theorem excused_play (host : Host σ) :
    (∀ statement base state, ¬Block.Sleeps [statement] →
      Excused Holds (evaluate host statement base state)) ∧
    ∀ block, ¬Block.Sleeps block → ExcusedRows (rowsOf host block) := by
  apply evaluate.mutual_induct (σ := σ)
  · intro base frames link _
    rw [evaluate]
    exact excused_pure (by simp [Holds, Status.blocks])
  · intro params simultaneous links base frames link hawake
    exact absurd (.here List.mem_cons_self) hawake
  · intro name params simultaneous links base frames link hname _
    rw [evaluate, if_neg hname]
    exact (excused_playChain base _ _).map fun _ h => h
  · intro links base frames link _
    rw [evaluate]
    exact (excused_playChain base _ _).map fun _ h => h
  · intro arm params template body tail base frames guard state hbody hawake
    have hrows := hbody fun h => hawake (.conditional List.mem_cons_self h)
    rw [evaluate]
    exact (excused_playConditional (talkingRows_rowsOf host body) hrows params template base _ guard
      state).map fun _ h => h
  · intro subject body tail base frames members hbody hawake
    have hrows := hbody fun h => hawake (.each List.mem_cons_self h)
    rw [evaluate]
    exact (excused_playEach (talkingRows_rowsOf host body) hrows subject _ base _ members).map
      fun _ h => h
  · intro low high body tail base frames bounds counter state hbody hawake
    have hrows := hbody fun h => hawake (.range List.mem_cons_self h)
    rw [evaluate]
    exact (excused_playRange (talkingRows_rowsOf host body) hrows low high base _ bounds counter
      state).map fun _ h => h
  · intro statement base frames link hnil hmethod hthis hconditional heach hrange _
    rw [evaluate]
    · exact excused_pure (by simp [Holds, Status.blocks])
    all_goals assumption
  · intro _ row hrow
    simp [rowsOf] at hrow
  · intro statement block hstatement hblock hawake row hrow
    rw [rowsOf] at hrow
    rcases List.mem_cons.mp hrow with rfl | hrow
    · intro base state
      exact hstatement base state fun h => hawake (h.mono (by simp))
    · exact hblock (fun h => hawake (h.mono (by simp))) row hrow

/-! ## Frames -/

/-- **A frame is held up only by `sleep` or by a pending answer**, whatever was done with the script
before. If it does not finish, then some statement of the block starts with `sleep`, or a call was
answered with pending in this frame. So without such statements and with a host that never gives such an
answer every frame finishes its script. -/
theorem held_only_by_pending {block : Block} {script : Script} (h : script.History block)
    (host : Host σ) (base : Option Value) (stage : Stage σ) :
    let played := (script.run host base).run stage
    (played.1.1 = false → Block.Sleeps block ∨ Waited stage played.2) ∧
    (¬Block.Sleeps block → (∀ call world, (host.answer call world).result ≠ .pending) →
      played.1.1 = true ∧ played.1.2.cursor = block.length) := by
  obtain ⟨hblock, hwithin⟩ := lasting_within.reached h.reached
  subst hblock
  have hheld : ((script.run host base).run stage).1.1 = false →
      Block.Sleeps script.block ∨ Waited stage ((script.run host base).run stage).2 := by
    intro hfalse
    by_cases hsleeps : Block.Sleeps script.block
    · exact Or.inl hsleeps
    · exact Or.inr (excused_runRows (talkingRows_rowsOf host script.block)
        ((excused_play host).2 script.block hsleeps) base script.state stage hfalse)
  refine ⟨hheld, ?_⟩
  intro hawake hprompt
  have hfinished : ((script.run host base).run stage).1.1 = true := by
    by_contra hfalse
    rcases hheld (Bool.eq_false_iff.mpr hfalse) with hsleeps | ⟨new, call, hnew, hmem⟩
    · exact hawake hsleeps
    · obtain ⟨said, hsaid, hheard⟩ := (talks_run host base script).appends stage
      obtain rfl : said = new := List.append_cancel_left (hsaid.symm.trans hnew)
      obtain ⟨-, world, hanswer⟩ := hheard _ hmem
      exact hprompt call world hanswer.symm
  refine ⟨hfinished, ?_⟩
  exact (finished_iff_of_run hwithin ⟨stage, rfl⟩).mp hfinished

/-- No statement of the block, and none of the body of its arm, starts with `sleep`. -/
theorem detour_awake : ¬Block.Sleeps detour := by
  intro h
  cases h with
  | here hmem => simp [detour, sleepName] at hmem
  | conditional hmem hbody =>
    simp only [detour, List.mem_cons, List.cons.injEq, Link.conditional.injEq] at hmem
    rcases hmem with ⟨⟨-, -, -, rfl⟩, -⟩ | ⟨⟨-, -, -, rfl⟩, -⟩ | hmem
    · cases hbody with
      | each hmem hmembers =>
        simp only [List.mem_singleton, List.cons.injEq, Link.each.injEq] at hmem
        obtain ⟨⟨-, rfl⟩, -⟩ := hmem
        cases hmembers <;> simp_all
      | _ => simp_all
    · cases hbody <;> simp_all
    · simp at hmem
  | each hmem => simp [detour] at hmem
  | range hmem => simp [detour] at hmem

/-- Underway with a host that finds nothing, the script comes to its end in a single frame. -/
theorem held_only_by_pending_underway :
    underway.History detour ∧ ¬Block.Sleeps detour ∧
    (∀ call world, ((Host.answering .absent).answer call world).result ≠ .pending) ∧
    ∀ (base : Option Value) (stage : Stage Unit),
      ((underway.run (.answering .absent) base).run stage).1.1 = true ∧
      ((underway.run (.answering .absent) base).run stage).1.2.cursor = 5 := by
  have hprompt : ∀ call world, ((Host.answering .absent).answer call world).result ≠ .pending := by
    intro call world h
    cases h
  refine ⟨history_underway, detour_awake, hprompt, ?_⟩
  intro base stage
  exact (held_only_by_pending history_underway (.answering .absent) base stage).2 detour_awake hprompt

end Cutscene
