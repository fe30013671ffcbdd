import Cutscene.Proofs.Play.Once

/-!
What a chain of calls asks of its host, and when.

A call is asked for in two stretches that follow one another directly: its parameters are evaluated from
left to right, each of them a chain of its own or something that the host has no part in, and then the
host is asked (`Asking`). Behind the head a chain is a trail of such askings, each of which begins on the
very stage that the one before has left, and nothing happens between them or behind the last one
(`Trail`). The trail goes on to the next link just if that is a call and an object was yielded last
(`follow_trail`), and the object is what the call is asked of.

`chain_asks_of_objects` reads off the whole chain which links are asked for, of what, and in which order.
Since a parameter that is a chain is evaluated as one, the same holds at every depth.
-/
namespace Cutscene.Play

variable {σ : Type}

/-! ## Links -/

/-- The link at a place is a call. -/
def CallsAt (links : List Link) (n : Nat) : Prop :=
  ∃ name params simultaneous, links[n]? = some (.method name params simultaneous)

/-- The link at a place can lead on: it is a call, or a leading `this`. -/
def LeadsAt (links : List Link) (n : Nat) : Prop := CallsAt links n ∨ n = 0 ∧ links[0]? = some .this

theorem callsAt_drop {links : List Link} {n : Nat} : CallsAt (links.drop n) 0 ↔ CallsAt links n := by
  simp [CallsAt]

theorem leadsAt_succ {links : List Link} {n : Nat} : LeadsAt links (n + 1) ↔ CallsAt links (n + 1) := by
  simp [LeadsAt]

/-! ## Askings -/

section Asking
variable (host : Host σ) (base : Option Value) (frame : Nat)

/-- The evaluation of a parameter from one stage to another: it is a chain of its own, or nothing passes
between it and the host. -/
inductive Argument (s : Stage σ) : Statement → Option Value → Stage σ → Prop where
  | chain {statement : Statement} : LeadsAt statement 0 →
      Argument s statement ((chain host base frame statement).run s).1.toValue?
        ((chain host base frame statement).run s).2
  | apart {statement : Statement} {v : Option Value} {t : Stage σ} : ¬ LeadsAt statement 0 →
      (value host base frame statement).run s = (v, t) → s.Alike t → Argument s statement v t

/-- The evaluation of parameters from one stage to another, from left to right. -/
inductive Arguments : Stage σ → List Statement → List (Option Value) → Stage σ → Prop where
  | nil {s : Stage σ} : Arguments s [] [] s
  | cons {s mid t : Stage σ} {param : Statement} {params : List Statement} {v : Option Value}
      {vs : List (Option Value)} : Argument host base frame s param v mid →
      Arguments mid params vs t → Arguments s (param :: params) (v :: vs) t

/-- One link of a chain is asked for: its parameters are evaluated, and right behind them its call is
made. -/
structure Asking (links : List Link) where
  index : Nat
  name : String
  params : List Statement
  simultaneous : Bool
  target : Option Handle
  args : List (Option Value)
  answer : Answer
  /-- Before the parameters, between them and the call, and behind the call. -/
  start : Stage σ
  ready : Stage σ
  stop : Stage σ
  link : links[index]? = some (.method name params simultaneous)
  arguments : Arguments host base frame start params args ready
  call : (ask host ⟨target, name, args.map (·.getD default), frame⟩).run ready = (answer, stop)

/-- Askings one right after the other: each begins on the stage that the one before has left. -/
def Consecutive {links : List Link} :
    Stage σ → List (Asking host base frame links) → Stage σ → Prop
  | s, [], t => s = t
  | s, asking :: asks, t => asking.start = s ∧ Consecutive asking.stop asks t

/-- The askings of a chain from a link on, when the link before it has yielded an answer. It is asked of
an object, and only if it is a call; else the trail ends, with the answer that was yielded last. -/
inductive Trail (links : List Link) :
    Nat → Answer → Stage σ → List (Asking host base frame links) → Answer → Stage σ → Prop where
  | stop {n : Nat} {answer : Answer} {s : Stage σ} :
      ¬ CallsAt links n ∨ (∀ handle, answer ≠ .object handle) → Trail links n answer s [] answer s
  | ask {n : Nat} {handle : Handle} {asking : Asking host base frame links}
      {asks : List (Asking host base frame links)} {last : Answer} {t : Stage σ} :
      asking.index = n → asking.target = some handle →
      Trail links (n + 1) asking.answer asking.stop asks last t →
      Trail links n (.object handle) asking.start (asking :: asks) last t

end Asking

section Evaluation
variable (host : Host σ) (base : Option Value) (frame : Nat)

theorem argument_value (statement : Statement) (s : Stage σ) :
    Argument host base frame s statement ((value host base frame statement).run s).1
      ((value host base frame statement).run s).2 := by
  -- what is not a chain writes a record at most
  have hnote : ∀ level topic text, s.Alike ((note level topic text).run s).2 :=
    fun level topic text => alike_note ⟨rfl, rfl⟩ level topic text
  cases statement with
  | nil => exact .apart (by simp [LeadsAt, CallsAt]) rfl ⟨rfl, rfl⟩
  | cons link links =>
    cases link with
    | method name params simultaneous => exact .chain (Or.inl ⟨name, params, simultaneous, rfl⟩)
    | this => exact .chain (Or.inr ⟨rfl, rfl⟩)
    | constant text => exact .apart (by simp [LeadsAt, CallsAt]) rfl ⟨rfl, rfl⟩
    | object text =>
      refine .apart (by simp [LeadsAt, CallsAt]) rfl ?_
      show s.Alike ((object text).run s).2
      unfold object
      split
      · exact ⟨rfl, rfl⟩
      · exact hnote _ _ _
    | conditional arm params template body =>
      exact .apart (by simp [LeadsAt, CallsAt]) rfl (hnote _ _ _)
    | each subject body => exact .apart (by simp [LeadsAt, CallsAt]) rfl (hnote _ _ _)
    | range low high body => exact .apart (by simp [LeadsAt, CallsAt]) rfl (hnote _ _ _)

/-- Parameters are evaluated from left to right. -/
theorem arguments_values (params : List Statement) (s : Stage σ) :
    Arguments host base frame s params ((values host base frame params).run s).1
      ((values host base frame params).run s).2 := by
  induction params generalizing s with
  | nil =>
    rw [values]
    exact .nil
  | cons param params ih =>
    rw [values]
    exact .cons (argument_value host base frame param s) (ih _)

/-- The asking that a call is, from the stage that it finds. -/
def Asking.of {links : List Link} {index : Nat} {name : String} {params : List Statement}
    {simultaneous : Bool} (link : links[index]? = some (.method name params simultaneous))
    (target : Option Handle) (start : Stage σ) : Asking host base frame links :=
  let evaluated := (values host base frame params).run start
  let call : Call := ⟨target, name, evaluated.1.map (·.getD default), frame⟩
  let asked := (ask host call).run evaluated.2
  { index, name, params, simultaneous, target, args := evaluated.1, answer := asked.1, start,
    ready := evaluated.2, stop := asked.2, link,
    arguments := arguments_values host base frame params start, call := rfl }

theorem follow_stop {links : List Link} {answer : Answer}
    (h : ¬ CallsAt links 0 ∨ ∀ handle, answer ≠ .object handle) :
    follow host base frame links answer = pure answer := by
  rw [follow]
  rintro name params simultaneous rest handle rfl rfl
  rcases h with h | h
  · exact h ⟨name, params, simultaneous, rfl⟩
  · exact h handle rfl

/-- **A chain goes on along a trail of askings.** The induction is on the links that are left. -/
theorem follow_trail {all links : List Link} {n : Nat} (h : all.drop n = links) (answer : Answer)
    (s : Stage σ) : ∃ asks, Trail host base frame all n answer s asks
      ((follow host base frame links answer).run s).1
      ((follow host base frame links answer).run s).2 := by
  induction links generalizing n answer s with
  | nil =>
    have hstop : ¬ CallsAt all n := by
      rw [← callsAt_drop, h]
      simp [CallsAt]
    have hstop' : ¬ CallsAt [] 0 := by simp [CallsAt]
    rw [follow_stop host base frame (Or.inl hstop')]
    exact ⟨[], .stop (Or.inl hstop)⟩
  | cons link links ih =>
    by_cases hstop : ¬ CallsAt (link :: links) 0 ∨ ∀ handle, answer ≠ .object handle
    · rw [follow_stop host base frame hstop]
      rw [← h, callsAt_drop] at hstop
      exact ⟨[], .stop hstop⟩
    · obtain ⟨hcalls, hobject⟩ := not_or.mp hstop
      obtain ⟨name, params, simultaneous, hhead⟩ := not_not.mp hcalls
      obtain ⟨handle, hhandle⟩ := not_forall.mp hobject
      obtain rfl : answer = .object handle := not_not.mp hhandle
      obtain rfl : link = .method name params simultaneous := Option.some.inj hhead
      obtain ⟨hlink, hrest⟩ := drop_eq_cons h
      let asking := Asking.of host base frame hlink (some handle) s
      obtain ⟨asks, htrail⟩ := ih hrest.symm asking.answer asking.stop
      have hwhole : Trail host base frame all n (.object handle) asking.start (asking :: asks) _ _ :=
        .ask rfl rfl htrail
      rw [follow]
      exact ⟨asking :: asks, hwhole⟩

end Evaluation

/-! ## What a trail says -/

section Trail
variable {host : Host σ} {base : Option Value} {frame : Nat} {links : List Link} {n : Nat}
  {first last : Answer} {s t : Stage σ} {asks : List (Asking host base frame links)}

theorem Trail.consecutive (h : Trail host base frame links n first s asks last t) :
    Consecutive host base frame s asks t := by
  induction h with
  | stop _ => rfl
  | ask _ _ _ ih => exact ⟨rfl, ih⟩

/-- A trail goes from link to link. -/
theorem Trail.order (h : Trail host base frame links n first s asks last t) :
    asks.map Asking.index = List.range' n asks.length := by
  induction h with
  | stop _ => rfl
  | ask hindex _ _ ih => rw [List.map_cons, hindex, ih, List.length_cons, List.range'_succ]

/-- What the links have yielded that a trail comes past, from the one before it on. -/
theorem Trail.getLast? (h : Trail host base frame links n first s asks last t) :
    (first :: asks.map Asking.answer).getLast? = some last := by
  induction h with
  | stop _ => rfl
  | ask _ _ _ ih => rw [List.map_cons, List.getLast?_cons_cons, ih]

/-- No link before the start of a trail is on it. -/
theorem Trail.le_index (h : Trail host base frame links n first s asks last t)
    {asking : Asking host base frame links} (hmem : asking ∈ asks) : n ≤ asking.index := by
  have hindex : asking.index ∈ asks.map Asking.index := List.mem_map_of_mem hmem
  rw [h.order, List.mem_range'_1] at hindex
  exact hindex.1

/-- A link of the trail is asked of the object that the link before it has yielded. -/
theorem Trail.target (h : Trail host base frame links n first s asks last t)
    {asking : Asking host base frame links} (hmem : asking ∈ asks) {m : Nat}
    (hm : asking.index = n + m) : ∃ handle, asking.target = some handle ∧
      (first :: asks.map Asking.answer)[m]? = some (.object handle) := by
  induction h generalizing m with
  | stop _ => cases hmem
  | @ask n handle head asks last t hindex htarget hrest ih =>
    cases m with
    | zero =>
      rcases List.mem_cons.mp hmem with rfl | hlater
      · exact ⟨handle, htarget, rfl⟩
      · have hle := hrest.le_index hlater
        omega
    | succ m =>
      rcases List.mem_cons.mp hmem with rfl | hlater
      · omega
      · exact ih hlater (by omega)

/-- What a link of the trail yields is the answer to its asking. -/
theorem Trail.answered (h : Trail host base frame links n first s asks last t)
    {asking : Asking host base frame links} (hmem : asking ∈ asks) {m : Nat}
    (hm : asking.index = n + m) : (asks.map Asking.answer)[m]? = some asking.answer := by
  induction h generalizing m with
  | stop _ => cases hmem
  | @ask n handle head asks last t hindex htarget hrest ih =>
    cases m with
    | zero =>
      rcases List.mem_cons.mp hmem with rfl | hlater
      · rfl
      · have hle := hrest.le_index hlater
        omega
    | succ m =>
      rcases List.mem_cons.mp hmem with rfl | hlater
      · omega
      · exact ih hlater (by omega)

/-- **A link is on the trail just if it and all links from the start of the trail up to it are calls, and
each link before it has yielded an object.** The induction is on the trail: the link that it stops at is
no call, or was not reached with an object. -/
theorem Trail.issued (h : Trail host base frame links n first s asks last t) (m : Nat) :
    (∃ asking ∈ asks, asking.index = n + m) ↔ (∀ k ≤ m, CallsAt links (n + k)) ∧
      ∀ k ≤ m, ∃ handle, (first :: asks.map Asking.answer)[k]? = some (.object handle) := by
  induction h generalizing m with
  | @stop n answer s hstop =>
    constructor
    · rintro ⟨asking, hmem, -⟩
      cases hmem
    · rintro ⟨hcalls, hyields⟩
      obtain ⟨handle, hhandle⟩ := hyields 0 (Nat.zero_le m)
      rcases hstop with hno | hno
      · exact absurd (hcalls 0 (Nat.zero_le m)) hno
      · exact absurd (Option.some.inj hhandle) (hno handle)
  | @ask n handle head asks last t hindex htarget hrest ih =>
    have hhead : CallsAt links n := ⟨head.name, head.params, head.simultaneous, by rw [← hindex, head.link]⟩
    cases m with
    | zero =>
      have hmem : ∃ asking ∈ head :: asks, asking.index = n + 0 := ⟨head, by simp, hindex⟩
      simp only [hmem, Nat.le_zero, forall_eq, true_iff]
      exact ⟨hhead, handle, rfl⟩
    | succ m =>
      have hlater : (∃ asking ∈ head :: asks, asking.index = n + (m + 1)) ↔
          ∃ asking ∈ asks, asking.index = n + 1 + m := by
        constructor
        · rintro ⟨asking, hmem, hm⟩
          rcases List.mem_cons.mp hmem with rfl | hmem
          · omega
          · exact ⟨asking, hmem, by omega⟩
        · rintro ⟨asking, hmem, hm⟩
          exact ⟨asking, List.mem_cons_of_mem head hmem, by omega⟩
      have hsplit : ∀ P : Nat → Prop, (∀ k ≤ m + 1, P k) ↔ P 0 ∧ ∀ k ≤ m, P (k + 1) := by
        intro P
        simp only [← Nat.lt_succ_iff]
        exact Nat.forall_lt_succ_left'
      have hsucc : ∀ k, n + 1 + k = n + (k + 1) := fun k => by omega
      rw [hlater, ih m, hsplit, hsplit]
      simp only [hsucc]
      constructor
      · rintro ⟨hcalls, hyields⟩
        exact ⟨⟨hhead, hcalls⟩, ⟨handle, rfl⟩, hyields⟩
      · rintro ⟨⟨-, hcalls⟩, -, hyields⟩
        exact ⟨hcalls, hyields⟩

/-- The same for a trail behind a head that can lead on. -/
theorem Trail.issued_behind (h : Trail host base frame links 1 first s asks last t)
    (hhead : LeadsAt links 0) (m : Nat) :
    (∃ asking ∈ asks, asking.index = m + 1) ↔ CallsAt links (m + 1) ∧ ∀ k ≤ m, LeadsAt links k ∧
      ∃ handle, (first :: asks.map Asking.answer)[k]? = some (.object handle) := by
  have hissued := h.issued m
  simp only [Nat.add_comm 1] at hissued
  rw [hissued]
  constructor
  · rintro ⟨hcalls, hyields⟩
    refine ⟨hcalls m (Nat.le_refl m), fun k hk => ⟨?_, hyields k hk⟩⟩
    cases k with
    | zero => exact hhead
    | succ k => exact Or.inl (hcalls k (by omega))
  · rintro ⟨hcall, hbefore⟩
    refine ⟨fun k hk => ?_, fun k hk => (hbefore k hk).2⟩
    rcases Nat.eq_or_lt_of_le hk with rfl | hlt
    · exact hcall
    · exact leadsAt_succ.mp (hbefore (k + 1) hlt).1

end Trail

/-! ## Whole chains -/

/-- What the links of a chain have yielded, from the first one on: a leading `this` yields what stands for
it, and the others what is answered to them. -/
def yields (base : Option Value) (links : List Link) (answers : List Answer) : List Answer :=
  match links with
  | .this :: _ => .ofBase base :: answers
  | _ => answers

section Course
variable {host : Host σ} {base : Option Value} {frame : Nat} {links : List Link}

/-- The askings are all that a chain does from one stage to another, in their order, and the answer is
that of the chain. -/
structure Course (host : Host σ) (base : Option Value) (frame : Nat) (links : List Link) (s : Stage σ)
    (asks : List (Asking host base frame links)) (answer : Answer) (t : Stage σ) : Prop where
  consecutive : Consecutive host base frame s asks t
  order : (asks.map Asking.index).Pairwise (· < ·)
  answered : ∀ asking ∈ asks,
    (yields base links (asks.map Asking.answer))[asking.index]? = some asking.answer
  head : (∃ asking ∈ asks, asking.index = 0) ↔ CallsAt links 0
  /-- A link behind the head is asked for just if it is a call, all before it can lead on, and each of
  them has yielded an object. -/
  issued : ∀ n, (∃ asking ∈ asks, asking.index = n + 1) ↔ CallsAt links (n + 1) ∧
    ∀ k ≤ n, LeadsAt links k ∧
      ∃ handle, (yields base links (asks.map Asking.answer))[k]? = some (.object handle)
  /-- The head is asked of nobody, and any other link of the object that the one before has yielded. -/
  target : ∀ asking ∈ asks, (asking.index = 0 → asking.target = none) ∧
    ∀ n, asking.index = n + 1 → ∃ handle, asking.target = some handle ∧
      (yields base links (asks.map Asking.answer))[n]? = some (.object handle)
  result : answer = ((yields base links (asks.map Asking.answer)).getLast?).getD .absent

/-- Behind a link that cannot lead on or has not yielded an object, nothing is asked for. -/
theorem Course.silent {s t : Stage σ} {asks : List (Asking host base frame links)} {answer : Answer}
    (h : Course host base frame links s asks answer t) {n : Nat} (hn : ¬ LeadsAt links n ∨
      ∀ handle, (yields base links (asks.map Asking.answer))[n]? ≠ some (.object handle)) :
    ∀ asking ∈ asks, asking.index ≤ n := by
  intro asking hmem
  by_contra hlt
  obtain ⟨m, hm⟩ : ∃ m, asking.index = m + 1 := ⟨asking.index - 1, by omega⟩
  obtain ⟨hleads, handle, hhandle⟩ := ((h.issued m).mp ⟨asking, hmem, hm⟩).2 n (by omega)
  rcases hn with hno | hno
  · exact hno hleads
  · exact hno handle hhandle

variable {first last : Answer} {mid t : Stage σ} {asks : List (Asking host base frame links)}

/-- A chain with a leading `this` is a trail behind what stands for it. -/
theorem course_this {rest : List Link} {asks : List (Asking host base frame (.this :: rest))}
    (h : Trail host base frame (.this :: rest) 1 (.ofBase base) mid asks last t) :
    Course host base frame (.this :: rest) mid asks last t := by
  have hleads : LeadsAt (.this :: rest) 0 := Or.inr ⟨rfl, rfl⟩
  have hplace : ∀ asking ∈ asks, asking.index ≠ 0 := by
    intro asking hmem
    have hle := h.le_index hmem
    omega
  refine ⟨h.consecutive, ?_, ?_, ?_, h.issued_behind hleads, ?_, ?_⟩
  · rw [h.order]
    exact List.pairwise_lt_range'
  · intro asking hmem
    obtain ⟨m, hm⟩ := Nat.exists_eq_succ_of_ne_zero (hplace asking hmem)
    rw [hm]
    exact h.answered hmem (by omega)
  · constructor
    · rintro ⟨asking, hmem, hzero⟩
      exact absurd hzero (hplace asking hmem)
    · rintro ⟨name, params, simultaneous, hlink⟩
      cases hlink
  · intro asking hmem
    exact ⟨fun hzero => absurd hzero (hplace asking hmem), fun n hn => h.target hmem (by omega)⟩
  · show last = (((Answer.ofBase base :: asks.map Asking.answer).getLast?).getD .absent)
    rw [h.getLast?, Option.getD_some]

/-- A chain with a call for its head is the asking of that and a trail behind its answer. -/
theorem course_call {head : Asking host base frame links} (hindex : head.index = 0)
    (htarget : head.target = none)
    (h : Trail host base frame links 1 head.answer head.stop asks last t) :
    Course host base frame links head.start (head :: asks) last t := by
  have hlink : links[0]? = some (.method head.name head.params head.simultaneous) := by
    rw [← hindex, head.link]
  have hcalls : CallsAt links 0 := ⟨_, _, _, hlink⟩
  have hyields : yields base links ((head :: asks).map Asking.answer) =
      head.answer :: asks.map Asking.answer := by
    unfold yields
    split
    · cases hlink
    · rfl
  have hbehind : ∀ n, (∃ asking ∈ head :: asks, asking.index = n + 1) ↔
      ∃ asking ∈ asks, asking.index = n + 1 := by
    intro n
    simp [hindex]
  refine ⟨⟨rfl, h.consecutive⟩, ?_, ?_, ?_, ?_, ?_, ?_⟩
  · rw [List.map_cons, hindex, h.order, ← Nat.zero_add 1, ← List.range'_succ]
    exact List.pairwise_lt_range'
  · intro asking hmem
    rw [hyields]
    rcases List.mem_cons.mp hmem with rfl | hlater
    · rw [hindex]
      rfl
    · obtain ⟨m, hm⟩ := Nat.exists_eq_succ_of_ne_zero (Nat.ne_of_gt (h.le_index hlater))
      rw [hm]
      exact h.answered hlater (by omega)
  · exact ⟨fun _ => hcalls, fun _ => ⟨head, by simp, hindex⟩⟩
  · intro n
    rw [hbehind, hyields]
    exact h.issued_behind (Or.inl hcalls) n
  · intro asking hmem
    rw [hyields]
    rcases List.mem_cons.mp hmem with rfl | hlater
    · exact ⟨fun _ => htarget, fun n hn => by omega⟩
    · have hle := h.le_index hlater
      exact ⟨fun hzero => by omega, fun n hn => h.target hlater (by omega)⟩
  · rw [hyields, h.getLast?, Option.getD_some]

/-- A chain that begins with anything else does nothing. -/
theorem course_none (s : Stage σ) (h : ¬ LeadsAt links 0) :
    Course host base frame links s [] .absent s := by
  have hyields : yields base links ([] : List Answer) = [] := by
    unfold yields
    split
    · exact absurd (Or.inr ⟨rfl, rfl⟩) h
    · rfl
  refine ⟨rfl, List.Pairwise.nil, by simp, ?_, ?_, by simp, ?_⟩
  · constructor
    · simp
    · exact fun hcalls => absurd (Or.inl hcalls) h
  · intro n
    constructor
    · simp
    · exact fun hissued => absurd (hissued.2 0 (Nat.zero_le n)).1 h
  · rw [List.map_nil, hyields]
    rfl

end Course

/-- **A chain asks its links one after the other, for as long as objects are yielded.** All that a chain
does is a line of askings, each one the parameters of a link, evaluated from left to right, and right
behind them the call of that link; they go from link to link. The head is asked for just if it is a call,
and it is asked of nobody. Any other link is asked for just if it is a call, all links before it are calls
or a leading `this`, and each of them has yielded an object; it is asked of the object that the link right
before it has yielded. So behind the first link that cannot lead on or has yielded no object, neither a
call nor a parameter reaches the host, and the answer is what was yielded last. -/
theorem chain_asks_of_objects (host : Host σ) (base : Option Value) (frame : Nat) (links : List Link)
    (s : Stage σ) : ∃ asks, Course host base frame links s asks
        ((chain host base frame links).run s).1 ((chain host base frame links).run s).2 ∧
      ∀ n, (¬ LeadsAt links n ∨
          ∀ handle, (yields base links (asks.map Asking.answer))[n]? ≠ some (.object handle)) →
        ∀ asking ∈ asks, asking.index ≤ n := by
  suffices h : ∃ asks, Course host base frame links s asks
      ((chain host base frame links).run s).1 ((chain host base frame links).run s).2 by
    obtain ⟨asks, hcourse⟩ := h
    exact ⟨asks, hcourse, fun n hn => hcourse.silent hn⟩
  cases links with
  | nil =>
    rw [chain]
    · exact ⟨[], course_none s (by simp [LeadsAt, CallsAt])⟩
    · simp
    · simp
  | cons link rest =>
    cases link with
    | this =>
      have hrest : (Link.this :: rest).drop 1 = rest := rfl
      obtain ⟨asks, htrail⟩ := follow_trail host base frame hrest (.ofBase base) s
      rw [chain]
      exact ⟨asks, course_this htrail⟩
    | method name params simultaneous =>
      have hlink : (Link.method name params simultaneous :: rest)[0]? =
          some (.method name params simultaneous) := rfl
      let head := Asking.of host base frame hlink none s
      have hrest : (Link.method name params simultaneous :: rest).drop 1 = rest := rfl
      obtain ⟨asks, htrail⟩ := follow_trail host base frame hrest head.answer head.stop
      have hcourse : Course host base frame _ head.start (head :: asks) _ _ :=
        course_call rfl rfl htrail
      rw [chain]
      exact ⟨head :: asks, hcourse⟩
    | _ =>
      rw [chain]
      · exact ⟨[], course_none s (by simp [LeadsAt, CallsAt])⟩
      · simp
      · simp

end Cutscene.Play
