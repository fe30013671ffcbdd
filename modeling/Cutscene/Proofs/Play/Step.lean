import Cutscene.Script

/-!
What a step and a frame of a block can do to its progress, for every host.

`Gives x a` says that the computation `x` can have the result `a`. A host is free to answer as it
likes, so this is all that is known of a result, and a computation is taken apart one bind at a
time (`gives_bind`). The main statements are

* `gives_step`: a step either finds the block finished and changes nothing, or evaluates the
  statement under the cursor and moves the cursor as the outcome says; the progress of every other
  statement is as it was, but for the simultaneous ones right behind a pending statement (`Stepped`);
* `run_keeps`: what every step keeps, a frame keeps;
* `finished_of_run`: a frame that says it is finished has left the cursor behind the last statement;
* `runRows_eq`: a frame is a step, and the rest of the frame unless the step holds it up;
* `run_single`: a statement on its own that does not hold the frame up is finished in it.
-/
namespace Cutscene.Play

variable {σ α β : Type}

/-- The computation can have this result: it has it from some stage. -/
def Gives (x : Play σ α) (a : α) : Prop := ∃ stage, (x.run stage).1 = a

theorem gives_pure {a b : α} (h : Gives (pure a : Play σ α) b) : b = a := by
  obtain ⟨_, h⟩ := h
  exact h.symm

theorem gives_bind {x : Play σ α} {f : α → Play σ β} {b : β} (h : Gives (x >>= f) b) :
    ∃ a, Gives x a ∧ Gives (f a) b := by
  obtain ⟨stage, h⟩ := h
  exact ⟨(x.run stage).1, ⟨stage, rfl⟩, (x.run stage).2, h⟩

/-- A result that is only put into another form. -/
theorem gives_map {x : Play σ α} {f : α → β} {b : β} (h : Gives (x >>= fun a => pure (f a)) b) :
    ∃ a, Gives x a ∧ b = f a := by
  obtain ⟨a, ha, hb⟩ := gives_bind h
  exact ⟨a, ha, gives_pure hb⟩

theorem gives_mapped {x : Play σ α} {f : α → β} {a : α} (h : Gives x a) :
    Gives (x >>= fun a => pure (f a)) (f a) := by
  obtain ⟨stage, rfl⟩ := h
  exact ⟨stage, rfl⟩

theorem gives_ite {c : Prop} [Decidable c] {x y : Play σ α} {a : α}
    (h : Gives (if c then x else y) a) : (c ∧ Gives x a) ∨ (¬c ∧ Gives y a) := by
  by_cases hc : c
  · rw [if_pos hc] at h; exact Or.inl ⟨hc, h⟩
  · rw [if_neg hc] at h; exact Or.inr ⟨hc, h⟩

/-- Computations that go on alike from every result that the first one can have. -/
theorem bind_eq_of_gives {x : Play σ α} {f g : α → Play σ β} (h : ∀ a, Gives x a → f a = g a) :
    x >>= f = x >>= g := by
  funext stage
  exact congrFun (h _ ⟨stage, rfl⟩) _

/-! ## The statements alongside -/

/-- What evaluating the simultaneous statements ahead can do to the progress at one index: nothing,
or one evaluation, with nothing but simultaneous statements up to there. -/
theorem gives_tickAlong {base : Option Value} : ∀ {rows : List (Row σ)}
    {states next : List StatementState}, Gives (tickAlong base rows states) next →
    next.length = states.length ∧ ∀ n : Nat, next[n]? = states[n]? ∨
      ∃ (row : Row σ) (state : StatementState) (status : Status) (state' : StatementState),
        rows[n]? = some row ∧ states[n]? = some state ∧ next[n]? = some state' ∧
        Gives (row.evaluate base state) (status, state') ∧
        ∀ m ≤ n, ∃ r : Row σ, rows[m]? = some r ∧ r.simultaneous = true := by
  intro rows
  induction rows with
  | nil =>
    intro states next h
    rw [gives_pure h]
    exact ⟨rfl, fun n => Or.inl rfl⟩
  | cons row rows ih =>
    intro states next h
    cases states with
    | nil => rw [gives_pure h]; exact ⟨rfl, fun n => Or.inl rfl⟩
    | cons state states =>
      simp only [tickAlong] at h
      rcases gives_ite h with ⟨hs, h⟩ | ⟨_, h⟩
      · obtain ⟨⟨status, state'⟩, he, h⟩ := gives_bind h
        obtain ⟨ahead, ha, rfl⟩ := gives_map h
        obtain ⟨hl, hp⟩ := ih ha
        refine ⟨by simp [hl], fun n => ?_⟩
        cases n with
        | zero =>
          refine Or.inr ⟨row, state, status, state', rfl, rfl, rfl, he, fun m hm => ?_⟩
          exact ⟨row, by simp [Nat.le_zero.mp hm], hs⟩
        | succ n =>
          -- behind the first row the answer is that of the rows ahead, one index lower
          rcases hp n with hsame | ⟨r, s, st, s', h₁, h₂, h₃, h₄, h₅⟩
          · exact Or.inl (by simpa using hsame)
          · refine Or.inr ⟨r, s, st, s', by simpa using h₁, by simpa using h₂, by simpa using h₃,
              h₄, fun m hm => ?_⟩
            cases m with
            | zero => exact ⟨row, rfl, hs⟩
            | succ m => simpa using h₅ m (by omega)
      · rw [gives_pure h]
        exact ⟨rfl, fun n => Or.inl rfl⟩

/-! ## One step -/

section Step
variable {rows : List (Row σ)} {base : Option Value} {state next : BlockState}

/-- Where the cursor goes from its place when the statement there had an outcome. -/
def cursorAfter (rows : List (Row σ)) (cursor : Nat) : Status → Nat
  | .pending => cursor
  | .metPending => cursor
  | .met => pastArms rows cursor
  | .done => cursor + 1
  | .notMet => cursor + 1

theorem le_cursorAfter (rows : List (Row σ)) (cursor : Nat) (status : Status) :
    cursor ≤ cursorAfter rows cursor status := by
  cases status <;> simp only [cursorAfter, pastArms] <;> omega

/-- An outcome that does not hold the frame up moves the cursor. -/
theorem lt_cursorAfter (rows : List (Row σ)) (cursor : Nat) {status : Status}
    (h : status.blocks = false) :
    cursor < cursorAfter rows cursor status := by
  cases status with
  | pending => exact absurd h (by decide)
  | metPending => exact absurd h (by decide)
  | done => exact Nat.lt_succ_self cursor
  | notMet => exact Nat.lt_succ_self cursor
  | met => simp only [cursorAfter, pastArms]; omega

/-- The cursor does not leave the block. -/
theorem cursorAfter_le {cursor : Nat} (h : cursor < rows.length) (status : Status) :
    cursorAfter rows cursor status ≤ rows.length := by
  have harms := (List.takeWhile_sublist Row.alternative (l := rows.drop (cursor + 1))).length_le
  rw [List.length_drop] at harms
  cases status <;> simp only [cursorAfter, pastArms] <;> omega

theorem gives_advance {status : Status} (h : Gives (advance rows base state status) next) :
    next.cursor = cursorAfter rows state.cursor status ∧
      (next.statements = state.statements ∨ (status = .pending ∧ ∃ ahead,
        Gives (tickAlong base (rows.drop (state.cursor + 1))
          (state.statements.drop (state.cursor + 1))) ahead ∧
        next.statements = state.statements.take (state.cursor + 1) ++ ahead)) := by
  cases status with
  | pending =>
    obtain ⟨ahead, ha, rfl⟩ := gives_map h
    exact ⟨rfl, Or.inr ⟨rfl, ahead, ha, rfl⟩⟩
  | done => rw [gives_pure h]; exact ⟨rfl, Or.inl rfl⟩
  | met => rw [gives_pure h]; exact ⟨rfl, Or.inl rfl⟩
  | metPending => rw [gives_pure h]; exact ⟨rfl, Or.inl rfl⟩
  | notMet => rw [gives_pure h]; exact ⟨rfl, Or.inl rfl⟩

/-- What a step does when there is a statement under the cursor. That one is evaluated, the ones
behind it stay as they are, and so do the ones ahead, unless it is pending and there is nothing but
simultaneous statements up to them. -/
structure Stepped (rows : List (Row σ)) (base : Option Value) (state : BlockState) (status : Status)
    (next : BlockState) : Prop where
  cursor : next.cursor = cursorAfter rows state.cursor status
  length : next.statements.length = state.statements.length
  here : ∃ (row : Row σ) (before after : StatementState), rows[state.cursor]? = some row ∧
    state.statements[state.cursor]? = some before ∧ next.statements[state.cursor]? = some after ∧
    Gives (row.evaluate base before) (status, after)
  behind : ∀ n < state.cursor, next.statements[n]? = state.statements[n]?
  ahead : ∀ n > state.cursor, next.statements[n]? = state.statements[n]? ∨
    (status = .pending ∧ ∃ (row : Row σ) (before : StatementState) (outcome : Status)
      (after : StatementState), rows[n]? = some row ∧ state.statements[n]? = some before ∧
      next.statements[n]? = some after ∧ Gives (row.evaluate base before) (outcome, after) ∧
      ∀ m > state.cursor, m ≤ n → ∃ r : Row σ, rows[m]? = some r ∧ r.simultaneous = true)

/-- A step does not take the cursor back. -/
theorem Stepped.cursor_le {status : Status} (st : Stepped rows base state status next) :
    state.cursor ≤ next.cursor := by
  rw [st.cursor]
  exact le_cursorAfter rows state.cursor status

/-- Moving on from an evaluated statement, with the progress of the others spelled out. -/
theorem stepped_of_advance {row : Row σ} {before after : StatementState} {status : Status}
    (hr : rows[state.cursor]? = some row) (hb : state.statements[state.cursor]? = some before)
    (he : Gives (row.evaluate base before) (status, after))
    (h : Gives (advance rows base ⟨state.cursor, state.statements.set state.cursor after⟩ status)
      next) : Stepped rows base state status next := by
  obtain ⟨hc, hs⟩ := gives_advance h
  dsimp only at hc hs
  have hlt : state.cursor < state.statements.length := (List.getElem?_eq_some_iff.mp hb).1
  rcases hs with hs | ⟨rfl, ahead, ha, hs⟩
  · refine ⟨hc, by simp [hs], ⟨row, before, after, hr, hb, ?_, he⟩, fun n hn => ?_,
      fun n hn => Or.inl ?_⟩
    · simp [hs, hlt]
    · rw [hs, List.getElem?_set_ne (by omega)]
    · rw [hs, List.getElem?_set_ne (by omega)]
  · -- the statements ahead are those dropped, so index `n` there is `cursor + 1 + n` here
    obtain ⟨hl, hp⟩ := gives_tickAlong ha
    simp only [List.length_drop, List.length_set] at hl
    have htake : (state.statements.set state.cursor after |>.take (state.cursor + 1)).length =
        state.cursor + 1 := by simp; omega
    refine ⟨hc, ?_, ⟨row, before, after, hr, hb, ?_, he⟩, fun n hn => ?_, fun n hn => ?_⟩
    · rw [hs, List.length_append, htake, hl]; omega
    · rw [hs, List.getElem?_append_left (by omega), List.getElem?_take_of_lt (by omega),
        List.getElem?_set_self hlt]
    · rw [hs, List.getElem?_append_left (by omega), List.getElem?_take_of_lt (by omega),
        List.getElem?_set_ne (by omega)]
    · obtain ⟨k, rfl⟩ : ∃ k, n = state.cursor + 1 + k := ⟨n - (state.cursor + 1), by omega⟩
      have hnext : next.statements[state.cursor + 1 + k]? = ahead[k]? := by
        rw [hs, List.getElem?_append_right (by omega), htake, Nat.add_sub_cancel_left]
      have hold : (state.statements.set state.cursor after |>.drop (state.cursor + 1))[k]? =
          state.statements[state.cursor + 1 + k]? := by
        rw [List.getElem?_drop, List.getElem?_set_ne (by omega)]
      rcases hp k with hk | ⟨r, s, o, s', h₁, h₂, h₃, h₄, h₅⟩
      · exact Or.inl (by rw [hnext, hk, hold])
      · refine Or.inr ⟨rfl, r, s, o, s', by rw [← List.getElem?_drop, h₁], by rw [← hold, h₂],
          by rw [hnext, h₃], h₄, fun m hm hmk => ?_⟩
        obtain ⟨j, rfl⟩ : ∃ j, m = state.cursor + 1 + j := ⟨m - (state.cursor + 1), by omega⟩
        simpa [List.getElem?_drop] using h₅ j (by omega)

/-- **What a step can do.** It finds no statement under the cursor and changes nothing, or it
evaluates the statement there and goes on as the outcome says. -/
theorem gives_step {outcome : Option Status} (h : Gives (stepRows rows base state) (outcome, next)) :
    (outcome = none ∧ next = state ∧
      (rows[state.cursor]? = none ∨ state.statements[state.cursor]? = none)) ∨
    ∃ status, outcome = some status ∧ Stepped rows base state status next := by
  unfold stepRows at h
  split at h
  · next row before hr hb =>
    obtain ⟨⟨status, after⟩, he, h⟩ := gives_bind h
    obtain ⟨_, _, h⟩ := gives_bind h
    obtain ⟨moved, hm, h⟩ := gives_map h
    obtain ⟨rfl, rfl⟩ := Prod.mk.inj h
    exact Or.inr ⟨status, rfl, stepped_of_advance hr hb he hm⟩
  · next hnone =>
    obtain ⟨rfl, rfl⟩ := Prod.mk.inj (gives_pure h)
    refine Or.inl ⟨rfl, rfl, ?_⟩
    cases hr : rows[next.cursor]? with
    | none => exact Or.inl rfl
    | some row =>
      cases hs : next.statements[next.cursor]? with
      | none => exact Or.inr rfl
      | some statement => exact absurd hs (hnone row statement hr)

theorem length_of_step {outcome : Option Status}
    (h : Gives (stepRows rows base state) (outcome, next)) :
    next.statements.length = state.statements.length := by
  rcases gives_step h with ⟨_, rfl, _⟩ | ⟨_, _, st⟩
  · rfl
  · exact st.length

end Step

/-! ## One frame -/

section Run
variable {rows : List (Row σ)} {base : Option Value}

/-- What every step keeps, a frame keeps. -/
theorem run_keeps {P : BlockState → Prop}
    (keeps : ∀ state outcome next, P state → Gives (stepRows rows base state) (outcome, next) →
      P next) {state next : BlockState} {finished : Bool} (hp : P state)
    (h : Gives (runRows rows base state) (finished, next)) : P next := by
  unfold runRows at h
  -- how many steps a frame may make does not matter here, so the induction is on that number
  generalize rows.length + 1 - state.cursor = more at h
  induction more generalizing state with
  | zero =>
    obtain ⟨_, rfl⟩ := Prod.mk.inj (gives_pure h)
    exact hp
  | succ more ih =>
    obtain ⟨⟨outcome, mid⟩, hstep, h⟩ := gives_bind h
    have hmid := keeps _ _ _ hp hstep
    cases outcome with
    | none => obtain ⟨_, rfl⟩ := Prod.mk.inj (gives_pure h); exact hmid
    | some status =>
      rcases gives_ite h with ⟨_, h⟩ | ⟨_, h⟩
      · obtain ⟨_, rfl⟩ := Prod.mk.inj (gives_pure h); exact hmid
      · exact ih hmid h

/-- A frame that says it is finished has left the cursor behind the last statement. The steps that
a frame may make are enough: each one that does not hold it up moves the cursor. -/
theorem finished_of_run {state next : BlockState} (hl : state.statements.length = rows.length)
    (h : Gives (runRows rows base state) (true, next)) : rows.length ≤ next.cursor := by
  unfold runRows at h
  have hmore : rows.length + 1 ≤ state.cursor + (rows.length + 1 - state.cursor) := by omega
  generalize rows.length + 1 - state.cursor = more at h hmore
  induction more generalizing state with
  | zero =>
    obtain ⟨_, rfl⟩ := Prod.mk.inj (gives_pure h)
    omega
  | succ more ih =>
    obtain ⟨⟨outcome, mid⟩, hstep, hrest⟩ := gives_bind h
    rcases gives_step hstep with ⟨rfl, rfl, hnone⟩ | ⟨status, rfl, st⟩
    · obtain ⟨_, rfl⟩ := Prod.mk.inj (gives_pure hrest)
      rcases hnone with hnone | hnone
      · exact List.getElem?_eq_none_iff.mp hnone
      · rw [← hl]; exact List.getElem?_eq_none_iff.mp hnone
    · rcases gives_ite hrest with ⟨_, hrest⟩ | ⟨hb, hrest⟩
      · exact absurd (Prod.mk.inj (gives_pure hrest)).1 (by decide)
      · -- one step less is left, and the cursor is one place further
        have hc := lt_cursorAfter rows state.cursor (Bool.eq_false_iff.mpr hb)
        rw [← st.cursor] at hc
        exact ih (st.length.trans hl) hrest (by omega)

/-- A frame that says it is not finished has left the cursor at the statement that holds it up. -/
theorem held_of_run {state next : BlockState} (h : Gives (runRows rows base state) (false, next)) :
    next.cursor < rows.length := by
  unfold runRows at h
  generalize rows.length + 1 - state.cursor = more at h
  induction more generalizing state with
  | zero => exact absurd (Prod.mk.inj (gives_pure h)).1 (by decide)
  | succ more ih =>
    obtain ⟨⟨outcome, mid⟩, hstep, hrest⟩ := gives_bind h
    rcases gives_step hstep with ⟨rfl, -, -⟩ | ⟨status, rfl, st⟩
    · exact absurd (Prod.mk.inj (gives_pure hrest)).1 (by decide)
    · rcases gives_ite hrest with ⟨hblocks, hrest⟩ | ⟨-, hrest⟩
      · obtain ⟨-, rfl⟩ := Prod.mk.inj (gives_pure hrest)
        obtain ⟨row, -, -, hrow, -⟩ := st.here
        have hlt : state.cursor < rows.length := (List.getElem?_eq_some_iff.mp hrow).1
        rw [st.cursor]
        cases status with
        | pending => exact hlt
        | metPending => exact hlt
        | done => cases hblocks
        | met => cases hblocks
        | notMet => cases hblocks
      · exact ih hrest

/-- More steps than a frame can make do not change it. -/
theorem runSteps_eq {more enough : Nat} {state : BlockState}
    (hmore : rows.length + 1 ≤ state.cursor + more)
    (henough : rows.length + 1 ≤ state.cursor + enough) :
    runSteps rows base more state = runSteps rows base enough state := by
  -- with no step left the cursor is behind the block, and a step finds nothing there
  have hnone : ∀ {state : BlockState} {k : Nat}, rows.length + 1 ≤ state.cursor + 0 →
      runSteps rows base k state = pure (true, state) := by
    intro state k hcursor
    have hrow : rows[state.cursor]? = none := List.getElem?_eq_none (by omega)
    cases k with
    | zero => rfl
    | succ k => simp [runSteps, stepRows, hrow]
  induction more generalizing state enough with
  | zero => rw [hnone hmore, hnone hmore]
  | succ more ih =>
    cases enough with
    | zero => rw [hnone henough, hnone henough]
    | succ enough =>
      rw [runSteps, runSteps]
      apply bind_eq_of_gives
      rintro ⟨outcome, next⟩ hstep
      cases outcome with
      | none => rfl
      | some status =>
        by_cases hblocks : status.blocks = true
        · simp only [hblocks, if_true]
        · -- the cursor has moved, so one step less is still enough
          rcases gives_step hstep with ⟨hno, -, -⟩ | ⟨status', hsome, st⟩
          · cases hno
          · cases hsome
            have hlt := lt_cursorAfter rows state.cursor (Bool.eq_false_iff.mpr hblocks)
            rw [← st.cursor] at hlt
            simp only [hblocks]
            exact ih (by omega) (by omega)

/-- **A frame, step by step**: it makes a step, and goes on until one holds it up or finds nothing. -/
theorem runRows_eq (rows : List (Row σ)) (base : Option Value) (state : BlockState) :
    runRows rows base state = (stepRows rows base state >>= fun stepped =>
      match stepped.1 with
      | none => pure (true, stepped.2)
      | some status =>
        if status.blocks then pure (false, stepped.2) else runRows rows base stepped.2) := by
  have hmore : runRows rows base state = runSteps rows base (rows.length + 1 + 1) state :=
    runSteps_eq (by omega) (by omega)
  rw [hmore, runSteps]
  apply bind_eq_of_gives
  rintro ⟨outcome, next⟩ -
  cases outcome with
  | none => rfl
  | some status =>
    have hnext : runSteps rows base (rows.length + 1) next = runRows rows base next :=
      runSteps_eq (by omega) (by omega)
    simp only [hnext]

/-- A frame of a finished block does nothing. -/
theorem runRows_finished {state : BlockState} (h : rows.length ≤ state.cursor) :
    runRows rows base state = pure (true, state) := by
  have hrow : rows[state.cursor]? = none := List.getElem?_eq_none h
  rw [runRows_eq]
  simp [stepRows, hrow]

end Run

/-! ## Control statements and whole statements -/

section Control
variable {host : Host σ} {rows : List (Row σ)} {base : Option Value} {frame : Nat}
  {status : Status} {link : LinkState}

/-- An arm fixes its guard, or keeps the one it has. If the guard is false its body stays as it is,
and else the body is played for a frame. -/
theorem gives_playConditional {params : List Statement} {template : String} {guard : Option Bool}
    {body : BlockState}
    (h : Gives (playConditional host params template rows base frame guard body) (status, link)) :
    ∃ met after, link = .conditional (some met) after ∧ (∀ fixed, guard = some fixed → met = fixed) ∧
      ((met = false ∧ status = .notMet ∧ after = body) ∨
        (met = true ∧ ∃ finished, Gives (runRows rows base body) (finished, after) ∧
          status = bodyStatus finished)) := by
  obtain ⟨met, hmet, h⟩ := gives_bind h
  have hfixed : ∀ fixed, guard = some fixed → met = fixed := by
    rintro fixed rfl
    exact gives_pure hmet
  rcases gives_ite h with ⟨rfl, h⟩ | ⟨hf, h⟩
  · obtain ⟨⟨finished, after⟩, hrun, h⟩ := gives_map h
    obtain ⟨rfl, rfl⟩ := Prod.mk.inj h
    exact ⟨true, after, rfl, hfixed, Or.inr ⟨rfl, finished, hrun, rfl⟩⟩
  · obtain ⟨rfl, rfl⟩ := Prod.mk.inj (gives_pure h)
    exact ⟨met, body, rfl, hfixed, Or.inl ⟨Bool.eq_false_iff.mpr hf, rfl, rfl⟩⟩

/-- An `each` lists its members with fresh bodies, or keeps those it has, and plays them all. -/
theorem gives_playEach {subject : Statement} {fresh : BlockState}
    {members : Option (List (Value × BlockState))}
    (h : Gives (playEach host subject fresh rows base frame members) (status, link)) :
    ∃ listed finished played, link = .each (some played) ∧ status = bodyStatus finished ∧
      Gives (playMembers rows listed) (finished, played) ∧
      (members = some listed ∨ (members = none ∧ ∀ member ∈ listed, member.2 = fresh)) := by
  obtain ⟨listed, hlisted, h⟩ := gives_bind h
  obtain ⟨⟨finished, played⟩, hplay, h⟩ := gives_map h
  obtain ⟨rfl, rfl⟩ := Prod.mk.inj h
  refine ⟨listed, finished, played, rfl, rfl, hplay, ?_⟩
  -- the members were listed in an earlier frame, or they are now
  cases members with
  | some members => exact Or.inl (by rw [gives_pure hlisted])
  | none =>
    obtain ⟨found, _, hlisted⟩ := gives_bind hlisted
    obtain ⟨_, _, hlisted⟩ := gives_bind hlisted
    cases gives_pure hlisted
    refine Or.inr ⟨rfl, fun member hm => ?_⟩
    obtain ⟨_, _, rfl⟩ := List.mem_map.mp hm
    rfl

/-- A range fixes its bounds and starts at the lower one, or goes on from its counter. -/
theorem gives_playRange {low high : Statement} {bounds : Option (Int64 × Int64)} {counter : Int64}
    {body : BlockState}
    (h : Gives (playRange host low high rows base frame bounds counter body) (status, link)) :
    ∃ fixed start last after finished, link = .range (some fixed) last after ∧
      status = bodyStatus finished ∧
      Gives (playCounts rows base (fixed.2.toInt - start.toInt).toNat start body)
        (finished, last, after) ∧
      ((bounds = some fixed ∧ start = counter) ∨ (bounds = none ∧ start = fixed.1)) := by
  obtain ⟨⟨fixed, start⟩, hfixed, h⟩ := gives_bind h
  obtain ⟨⟨finished, last, after⟩, hplay, h⟩ := gives_map h
  obtain ⟨rfl, rfl⟩ := Prod.mk.inj h
  refine ⟨fixed, start, last, after, finished, rfl, rfl, hplay, ?_⟩
  cases bounds with
  | some bounds =>
    obtain ⟨rfl, rfl⟩ := Prod.mk.inj (gives_pure hfixed)
    exact Or.inl ⟨rfl, rfl⟩
  | none =>
    obtain ⟨_, _, hfixed⟩ := gives_bind hfixed
    obtain ⟨_, _, hfixed⟩ := gives_bind hfixed
    obtain ⟨_, _, hfixed⟩ := gives_map hfixed
    obtain ⟨rfl, rfl⟩ := Prod.mk.inj hfixed
    exact Or.inr ⟨rfl, rfl⟩

/-- **What evaluating a statement can do.** It counts a frame. A control statement with the memory
it needs changes that memory, and every other statement leaves it as it is. -/
theorem gives_evaluate {statement : List Link} {before after : StatementState}
    (h : Gives (evaluate host statement base before) (status, after)) :
    after.frames = before.frames + 1 ∧
    ((∃ arm params template body tail guard state,
      statement = .conditional arm params template body :: tail ∧
      before.link = .conditional guard state ∧
      Gives (playConditional host params template (rowsOf host body) base (before.frames + 1) guard
        state) (status, after.link)) ∨
    (∃ subject body tail members, statement = .each subject body :: tail ∧
      before.link = .each members ∧
      Gives (playEach host subject (.fresh body) (rowsOf host body) base (before.frames + 1) members)
        (status, after.link)) ∨
    (∃ low high body tail bounds counter state, statement = .range low high body :: tail ∧
      before.link = .range bounds counter state ∧
      Gives (playRange host low high (rowsOf host body) base (before.frames + 1) bounds counter
        state) (status, after.link)) ∨
    after.link = before.link) := by
  unfold evaluate at h
  split at h
  -- the cases are the statement's first link, in the order in which `evaluate` looks at it
  case h_1 =>
    cases gives_pure h
    exact ⟨rfl, Or.inr (Or.inr (Or.inr rfl))⟩
  case h_2 =>
    -- a call sleeps or asks the host, and neither has a memory of its own
    rcases gives_ite h with ⟨_, h⟩ | ⟨_, h⟩
    · obtain ⟨_, _, h⟩ := gives_map h
      cases h
      exact ⟨rfl, Or.inr (Or.inr (Or.inr rfl))⟩
    · obtain ⟨_, _, h⟩ := gives_map h
      cases h
      exact ⟨rfl, Or.inr (Or.inr (Or.inr rfl))⟩
  case h_3 =>
    obtain ⟨_, _, h⟩ := gives_map h
    cases h
    exact ⟨rfl, Or.inr (Or.inr (Or.inr rfl))⟩
  case h_4 =>
    obtain ⟨⟨status, link⟩, hplay, h⟩ := gives_map h
    cases h
    exact ⟨rfl, Or.inl ⟨_, _, _, _, _, _, _, rfl, rfl, hplay⟩⟩
  case h_5 =>
    obtain ⟨⟨status, link⟩, hplay, h⟩ := gives_map h
    cases h
    exact ⟨rfl, Or.inr (Or.inl ⟨_, _, _, _, rfl, rfl, hplay⟩)⟩
  case h_6 =>
    obtain ⟨⟨status, link⟩, hplay, h⟩ := gives_map h
    cases h
    exact ⟨rfl, Or.inr (Or.inr (Or.inl ⟨_, _, _, _, _, _, _, rfl, rfl, hplay⟩))⟩
  case h_7 =>
    -- a control statement without the memory it needs does nothing
    cases gives_pure h
    exact ⟨rfl, Or.inr (Or.inr (Or.inr rfl))⟩

/-- An arm that has its memory is evaluated as one. -/
theorem gives_evaluate_conditional {arm : Arm} {params : List Statement} {template : String}
    {body : Block} {tail : List Link} {guard : Option Bool} {state : BlockState}
    {before after : StatementState} (hb : before.link = .conditional guard state)
    (h : Gives (evaluate host (.conditional arm params template body :: tail) base before)
      (status, after)) :
    Gives (playConditional host params template (rowsOf host body) base (before.frames + 1) guard
      state) (status, after.link) := by
  obtain ⟨frames, link⟩ := before
  subst hb
  simp only [evaluate] at h
  obtain ⟨⟨status, link⟩, hplay, h⟩ := gives_map h
  cases h
  exact hplay

end Control

/-! ## Blocks of one statement -/

/-- A block of one statement is finished in its first frame, unless the statement holds that up. -/
theorem run_single {host : Host σ} {statement : Statement} {base : Option Value}
    {stage left : Stage σ} {status : Status} {after : StatementState}
    (heval : evaluate host statement base (.fresh statement) stage = ((status, after), left))
    (hblocks : status.blocks = false) :
    ∃ events, (Script.fresh [statement]).run host base stage =
      ((true, ⟨[statement], ⟨1, [after]⟩⟩), ⟨left.host, events⟩) := by
  have hstep : ∃ events, stepRows (rowsOf host [statement]) base (.fresh [statement]) stage =
      ((some status, ⟨1, [after]⟩), ⟨left.host, events⟩) := by
    simp only [rowsOf, BlockState.fresh, freshStates, stepRows, List.getElem?_cons_zero, bind,
      StateT.bind, heval]
    cases status with
    | pending => cases hblocks
    | metPending => cases hblocks
    | done => exact ⟨_, rfl⟩
    | met => exact ⟨_, rfl⟩
    | notMet => exact ⟨_, rfl⟩
  obtain ⟨events, hstep⟩ := hstep
  have hlength : (rowsOf host [statement]).length ≤ (⟨1, [after]⟩ : BlockState).cursor := by
    simp [rowsOf]
  have hrun : (BlockState.fresh [statement]).run host [statement] base stage =
      ((true, ⟨1, [after]⟩), ⟨left.host, events⟩) := by
    rw [BlockState.run, runRows_eq]
    simp only [bind, StateT.bind, hstep, hblocks, runRows_finished hlength]
    rfl
  refine ⟨events, ?_⟩
  rw [Script.run]
  simp only [Script.fresh, bind, StateT.bind, hrun]
  rfl

end Cutscene.Play
