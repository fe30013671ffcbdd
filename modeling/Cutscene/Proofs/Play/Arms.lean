import Cutscene.Proofs.Play.Throughout

/-!
Conditional chains: of the arms of a chain at most one is taken.

A chain is an `if` with the arms that follow it without a gap (`Chain`). Until the cursor is past
the chain, the arms behind it were refused, the one under it is untouched or taken but not yet
finished, and those ahead are untouched; when the cursor leaves the chain, either every arm was
refused or one was taken and the arms behind that were never looked at (`ChainInv`). A step keeps
this, since simultaneous statements are never arms and a condition that was met skips exactly the
arms of its own chain; hence it holds throughout every state that a script can reach
(`lasting_arms`), and `arms_exclusive` reads off what a chain is left with.
-/
namespace Cutscene

open Play

/-! ## Arms and chains -/

/-- Whether a statement is the first arm of a chain. -/
def Statement.opensChain : Statement → Bool
  | .conditional .ifArm .. :: _ => true
  | _ => false

/-- The statements from index `first` on are an `if` and `more` further arms, and no arm follows. -/
structure Chain (block : Block) (first more : Nat) : Prop where
  opens : ∃ statement : Statement, block[first]? = some statement ∧ statement.opensChain = true
  arms : ∀ n, first < n → n ≤ first + more →
    ∃ statement : Statement, block[n]? = some statement ∧ statement.isAlternative = true
  ends : ∀ statement : Statement, block[first + more + 1]? = some statement →
    statement.isAlternative = false

/-- The condition of the arm did not hold, and its body is fresh. -/
def Arm.Refused : Statement → StatementState → Prop
  | .conditional _ _ _ body :: _, state => state.link = .conditional (some false) (.fresh body)
  | _, _ => False

/-- The condition of the arm holds, and its body is finished. -/
def Arm.Taken : Statement → StatementState → Prop
  | .conditional _ _ _ body :: _, state => ∃ progress,
    state.link = .conditional (some true) progress ∧ (Script.mk body progress).isFinished = true
  | _, _ => False

/-- No frame has been counted, no condition tested, and the body is fresh. -/
def Arm.Untouched (statement : Statement) (state : StatementState) : Prop :=
  state = .fresh statement

/-- The arm is untouched, or its condition holds. -/
def Arm.Open (statement : Statement) (state : StatementState) : Prop :=
  Arm.Untouched statement state ∨ ∃ progress, state.link = .conditional (some true) progress

/-- A property of the statement at an index and the progress of it. -/
def BlockState.At (state : BlockState) (block : Block) (n : Nat)
    (Q : Statement → StatementState → Prop) : Prop :=
  ∃ statement progress, block[n]? = some statement ∧ state.statements[n]? = some progress ∧
    Q statement progress

/-- What a chain is left with: every arm was refused, or one was taken, those before it were
refused and those behind it are untouched. -/
def BlockState.Settled (state : BlockState) (block : Block) (first more : Nat) : Prop :=
  (∀ n, first ≤ n → n ≤ first + more → state.At block n Arm.Refused) ∨
  ∃ taken, first ≤ taken ∧ taken ≤ first + more ∧ state.At block taken Arm.Taken ∧
    (∀ n, first ≤ n → n < taken → state.At block n Arm.Refused) ∧
    ∀ n, taken < n → n ≤ first + more → state.At block n Arm.Untouched

/-- What holds of a chain at any time. -/
def BlockState.ChainInv (state : BlockState) (block : Block) (first more : Nat) : Prop :=
  if first + more < state.cursor then state.Settled block first more
  else ∀ n, first ≤ n → n ≤ first + more →
    (n < state.cursor → state.At block n Arm.Refused) ∧
    (n = state.cursor → state.At block n Arm.Open) ∧
    (state.cursor < n → state.At block n Arm.Untouched)

theorem BlockState.At.imp {state : BlockState} {block : Block} {n : Nat}
    {Q R : Statement → StatementState → Prop} (h : state.At block n Q)
    (hqr : ∀ statement progress, Q statement progress → R statement progress) :
    state.At block n R := by
  obtain ⟨statement, progress, hs, hp, hq⟩ := h
  exact ⟨statement, progress, hs, hp, hqr statement progress hq⟩

section Chain
variable {block : Block} {first more : Nat}

/-- Every statement of a chain is an arm. -/
theorem Chain.arm (chain : Chain block first more) {n : Nat} (hn : first ≤ n)
    (hm : n ≤ first + more) : ∃ arm params template body tail,
      block[n]? = some (.conditional arm params template body :: tail) := by
  rcases Nat.eq_or_lt_of_le hn with rfl | hn
  · obtain ⟨statement, hs, ho⟩ := chain.opens
    unfold Statement.opensChain at ho
    split at ho
    · exact ⟨_, _, _, _, _, hs⟩
    · cases ho
  · obtain ⟨statement, hs, ha⟩ := chain.arms n hn hm
    unfold Statement.isAlternative at ha
    split at ha
    · exact ⟨_, _, _, _, _, hs⟩
    · cases ha

/-- The first statement of a chain is no alternative. -/
theorem Chain.first_not_alternative (chain : Chain block first more) :
    ∃ statement : Statement, block[first]? = some statement ∧ statement.isAlternative = false := by
  obtain ⟨statement, hs, ho⟩ := chain.opens
  refine ⟨statement, hs, ?_⟩
  unfold Statement.opensChain at ho
  split at ho
  · rfl
  · cases ho

/-! ## Where a condition that was met leads -/

theorem length_takeWhile_le {α : Type} {p : α → Bool} {l : List α} {n : Nat} {x : α}
    (hx : l[n]? = some x) (hp : p x = false) : (l.takeWhile p).length ≤ n := by
  induction l generalizing n with
  | nil => simp
  | cons y l ih =>
    cases n with
    | zero => cases hx; simp [hp]
    | succ n =>
      by_cases hy : p y = true
      · simp only [List.takeWhile_cons, hy, if_true, List.length_cons]
        exact Nat.succ_le_succ (ih (by simpa using hx))
      · simp [hy]

theorem le_length_takeWhile {α : Type} {p : α → Bool} {l : List α} {n : Nat}
    (h : ∀ m < n, ∃ x, l[m]? = some x ∧ p x = true) : n ≤ (l.takeWhile p).length := by
  induction l generalizing n with
  | nil =>
    cases n with
    | zero => exact Nat.zero_le _
    | succ n => obtain ⟨x, hx, _⟩ := h 0 (Nat.succ_pos n); cases hx
  | cons y l ih =>
    cases n with
    | zero => exact Nat.zero_le _
    | succ n =>
      obtain ⟨x, hx, hp⟩ := h 0 (Nat.succ_pos n)
      cases hx
      simp only [List.takeWhile_cons, hp, if_true, List.length_cons]
      exact Nat.succ_le_succ (ih fun m hm => by simpa using h (m + 1) (by omega))

theorem pastArms_rowsOf {σ : Type} (host : Host σ) (block : Block) (cursor : Nat) :
    pastArms (rowsOf host block) cursor =
      cursor + 1 + ((block.drop (cursor + 1)).takeWhile Statement.isAlternative).length := by
  rw [pastArms, rowsOf_eq_map, ← List.map_drop, List.takeWhile_map, List.length_map]
  rfl

/-- A condition that is met before a chain does not lead past the chain's first arm. -/
theorem Chain.pastArms_le (chain : Chain block first more) {σ : Type} (host : Host σ) {cursor : Nat}
    (h : cursor < first) : pastArms (rowsOf host block) cursor ≤ first := by
  obtain ⟨statement, hs, ha⟩ := chain.first_not_alternative
  rw [pastArms_rowsOf]
  have hd : (block.drop (cursor + 1))[first - (cursor + 1)]? = some statement := by
    rw [List.getElem?_drop, Nat.add_sub_cancel' h, hs]
  have := length_takeWhile_le hd ha
  omega

/-- A condition that is met inside a chain leads right behind it. -/
theorem Chain.pastArms_eq (chain : Chain block first more) {σ : Type} (host : Host σ) {cursor : Nat}
    (hf : first ≤ cursor) (hm : cursor ≤ first + more) :
    pastArms (rowsOf host block) cursor = first + more + 1 := by
  rw [pastArms_rowsOf]
  have hle : first + more - cursor ≤
      ((block.drop (cursor + 1)).takeWhile Statement.isAlternative).length := by
    refine le_length_takeWhile fun m hlt => ?_
    rw [List.getElem?_drop]
    exact chain.arms (cursor + 1 + m) (by omega) (by omega)
  have hge : ((block.drop (cursor + 1)).takeWhile Statement.isAlternative).length ≤
      first + more - cursor := by
    -- the arms end where the block ends, or at a statement that is no arm
    cases hs : block[first + more + 1]? with
    | none =>
      have hlen := List.getElem?_eq_none_iff.mp hs
      have := (List.takeWhile_sublist Statement.isAlternative
        (l := block.drop (cursor + 1))).length_le
      rw [List.length_drop] at this
      omega
    | some statement =>
      refine length_takeWhile_le (x := statement) ?_ (chain.ends statement hs)
      rw [List.getElem?_drop, ← hs]
      congr 1
      omega
  omega

/-! ## One step -/

section Step
variable {σ : Type} {host : Host σ} {base : Option Value} {state next : BlockState}
  {status : Status} {P : Block → BlockState → Prop}

/-- A step changes the progress of no arm but the one under the cursor. -/
theorem Chain.unchanged (chain : Chain block first more)
    (st : Stepped (rowsOf host block) base state status next) {n : Nat} (hf : first ≤ n)
    (hm : n ≤ first + more) (hn : n ≠ state.cursor) {Q : Statement → StatementState → Prop}
    (h : state.At block n Q) : next.At block n Q := by
  have hsame : next.statements[n]? = state.statements[n]? := by
    rcases Nat.lt_or_gt_of_ne hn with hlt | hgt
    · exact st.behind n hlt
    · rcases st.ahead n hgt with hsame | ⟨_, _, _, _, _, _, _, _, _, hall⟩
      · exact hsame
      · -- only simultaneous statements are evaluated ahead, and an arm is none
        obtain ⟨row, hr, hsim⟩ := hall n hgt (Nat.le_refl n)
        obtain ⟨statement, hs, rfl⟩ := rowsOf_getElem? hr
        obtain ⟨arm, params, template, body, tail, ha⟩ := chain.arm hf hm
        cases ha.symm.trans hs
        cases hsim
  obtain ⟨statement, progress, hs, hp, hq⟩ := h
  exact ⟨statement, progress, hs, by rw [hsame, hp], hq⟩

/-- **Evaluating an arm.** It is refused, or it is taken, or its condition holds and its body goes
on; it is refused only if it was untouched. -/
theorem Chain.evaluated (chain : Chain block first more) (ht : state.Throughout P block)
    (st : Stepped (rowsOf host block) base state status next) (hf : first ≤ state.cursor)
    (hm : state.cursor ≤ first + more) (hopen : state.At block state.cursor Arm.Open) :
    (status = .notMet ∧ next.At block state.cursor Arm.Refused) ∨
    (status = .met ∧ next.At block state.cursor Arm.Taken) ∨
    (status = .metPending ∧ next.At block state.cursor Arm.Open) := by
  obtain ⟨arm, params, template, body, tail, hs⟩ := chain.arm hf hm
  obtain ⟨row, before, after, hr, hb, ha, he⟩ := st.here
  obtain ⟨statement, hs', rfl⟩ := rowsOf_getElem? hr
  cases hs.symm.trans hs'
  obtain ⟨statement, progress, hs', hp, hopen⟩ := hopen
  cases hs.symm.trans hs'
  cases hb.symm.trans hp
  obtain ⟨guard, bodyState, hlink, hbody⟩ := (ht.statement hs hb).conditional
  obtain ⟨met, played, hafter, hfixed, hcase⟩ :=
    gives_playConditional (gives_evaluate_conditional hlink he)
  rcases hcase with ⟨rfl, rfl, rfl⟩ | ⟨rfl, finished, hrun, rfl⟩
  · refine Or.inl ⟨rfl, _, after, hs, ha, ?_⟩
    rcases hopen with rfl | ⟨progress, htrue⟩
    · simp only [StatementState.fresh, LinkState.conditional.injEq] at hlink
      rw [Arm.Refused, hafter, ← hlink.2, BlockState.fresh]
    · -- a condition that holds is not tested again
      rw [hlink] at htrue
      cases htrue
      cases hfixed true rfl
  · cases finished with
    | true =>
      refine Or.inr (Or.inl ⟨rfl, _, after, hs, ha, played, hafter, ?_⟩)
      have hrows : (rowsOf host body).length = body.length := length_rowsOf host body
      have hend := finished_of_run (hbody.length.trans hrows.symm) hrun
      rw [hrows] at hend
      exact decide_eq_true hend
    | false => exact Or.inr (Or.inr ⟨rfl, _, after, hs, ha, Or.inr ⟨played, hafter⟩⟩)

/-- A step outside a chain does not enter it past its first arm. -/
theorem Chain.cursor_le (chain : Chain block first more)
    (st : Stepped (rowsOf host block) base state status next) (h : state.cursor < first) :
    next.cursor ≤ first := by
  rw [st.cursor]
  cases status with
  | met => exact chain.pastArms_le host h
  | pending => exact Nat.le_of_lt h
  | metPending => exact Nat.le_of_lt h
  | done => exact h
  | notMet => exact h

/-- A step keeps what holds of a chain. The cases are where the cursor stands: before the chain, in
it, or past it. -/
theorem Chain.step (chain : Chain block first more) (ht : state.Throughout P block)
    (st : Stepped (rowsOf host block) base state status next)
    (inv : state.ChainInv block first more) : next.ChainInv block first more := by
  have hle : state.cursor ≤ next.cursor := st.cursor_le
  unfold BlockState.ChainInv at inv
  split at inv
  · next hpast =>
    -- past the chain: the cursor does not come back, so no arm changes any more
    rw [BlockState.ChainInv, if_pos (by omega)]
    rcases inv with inv | ⟨taken, hf, hm, htaken, hbefore, hbehind⟩
    · exact Or.inl fun n hf hm => chain.unchanged st hf hm (by omega) (inv n hf hm)
    · refine Or.inr ⟨taken, hf, hm, chain.unchanged st hf hm (by omega) htaken, ?_, ?_⟩
      · intro n hn hlt
        exact chain.unchanged st hn (by omega) (by omega) (hbefore n hn hlt)
      · intro n hlt hn
        exact chain.unchanged st (by omega) hn (by omega) (hbehind n hlt hn)
  · next hpast =>
    rcases Nat.lt_or_ge state.cursor first with hlt | hge
    · -- before the chain: all its arms stay untouched
      have hnext := chain.cursor_le st hlt
      rw [BlockState.ChainInv, if_neg (by omega)]
      intro n hf hm
      have huntouched := chain.unchanged st hf hm (by omega) ((inv n hf hm).2.2 (by omega))
      exact ⟨fun _ => by omega, fun _ => huntouched.imp fun _ _ => Or.inl, fun _ => huntouched⟩
    · -- in the chain: the arm under the cursor is evaluated
      have hm : state.cursor ≤ first + more := by omega
      have hrefused : ∀ n, first ≤ n → n < state.cursor → next.At block n Arm.Refused :=
        fun n hf hlt => chain.unchanged st hf (by omega) (by omega) ((inv n hf (by omega)).1 hlt)
      have huntouched : ∀ n, state.cursor < n → n ≤ first + more →
          next.At block n Arm.Untouched :=
        fun n hlt hn => chain.unchanged st (by omega) hn (by omega)
          ((inv n (by omega) hn).2.2 hlt)
      have hcursor := st.cursor
      rcases chain.evaluated ht st hge hm ((inv state.cursor hge hm).2.1 rfl) with
        ⟨rfl, hhere⟩ | ⟨rfl, hhere⟩ | ⟨rfl, hhere⟩
      · -- refused: the next arm comes under the cursor, or the chain is over
        simp only [cursorAfter] at hcursor
        have hrefused' : ∀ n, first ≤ n → n < next.cursor → next.At block n Arm.Refused := by
          intro n hf hlt
          rcases Nat.lt_or_ge n state.cursor with h | h
          · exact hrefused n hf h
          · rwa [show n = state.cursor by omega]
        unfold BlockState.ChainInv
        split
        · exact Or.inl fun n hf hn => hrefused' n hf (by omega)
        · intro n hf hn
          exact ⟨hrefused' n hf, fun h => (huntouched n (by omega) hn).imp fun _ _ => Or.inl,
            fun h => huntouched n (by omega) hn⟩
      · -- taken: the cursor leaves the chain at once
        simp only [cursorAfter, chain.pastArms_eq host hge hm] at hcursor
        rw [BlockState.ChainInv, if_pos (by omega)]
        exact Or.inr ⟨state.cursor, hge, hm, hhere, hrefused, huntouched⟩
      · -- its body goes on: the cursor stays, and the arm stays open
        simp only [cursorAfter] at hcursor
        rw [BlockState.ChainInv, if_neg (by omega)]
        intro n hf hn
        refine ⟨fun h => hrefused n hf (by omega), fun h => ?_, fun h => huntouched n (by omega) hn⟩
        rwa [show n = state.cursor by omega]

end Step

end Chain

/-! ## Every reachable state -/

theorem freshStates_getElem? {block : Block} {n : Nat} {statement : Statement}
    (h : block[n]? = some statement) : (freshStates block)[n]? = some (.fresh statement) := by
  induction block generalizing n with
  | nil => cases h
  | cons s block ih =>
    cases n with
    | zero => cases h; simp [freshStates]
    | succ n => simpa [freshStates] using ih (by simpa using h)

/-- In a fresh state every arm is untouched. -/
theorem Chain.fresh {block : Block} {first more : Nat} (chain : Chain block first more) :
    (BlockState.fresh block).ChainInv block first more := by
  have huntouched : ∀ n, first ≤ n → n ≤ first + more →
      (BlockState.fresh block).At block n Arm.Untouched := by
    intro n hf hm
    obtain ⟨arm, params, template, body, tail, hs⟩ := chain.arm hf hm
    exact ⟨_, _, hs, freshStates_getElem? hs, rfl⟩
  rw [BlockState.ChainInv, BlockState.fresh, if_neg (Nat.not_lt_zero (first + more))]
  intro n hf hm
  exact ⟨fun h => absurd h (Nat.not_lt_zero n),
    fun _ => (huntouched n hf hm).imp fun _ _ => Or.inl, fun _ => huntouched n hf hm⟩

/-- What holds of every chain of a block lasts. -/
theorem lasting_arms : Lasting fun block state =>
    ∀ first more, Chain block first more → state.ChainInv block first more where
  fresh := fun _ _ _ chain => chain.fresh
  step := by
    intro σ host block base state next outcome ht h first more chain
    rcases gives_step h with ⟨_, rfl, _⟩ | ⟨status, _, st⟩
    · exact ht.1 first more chain
    · exact chain.step ht st (ht.1 first more chain)

/-- **At most one arm of a chain is taken.** In every state that a script can reach with its cursor
past a chain, either every arm was refused and its body is fresh, or exactly one arm was taken and
its body is finished, those before it were refused, and those behind it are untouched. -/
theorem arms_exclusive {block : Block} {script : Script} (reached : script.Reached block)
    {first more : Nat} (chain : Chain block first more) (past : first + more < script.cursor) :
    (∀ n, first ≤ n → n ≤ first + more → script.state.At block n Arm.Refused) ∨
    ∃ taken, first ≤ taken ∧ taken ≤ first + more ∧ script.state.At block taken Arm.Taken ∧
      (∀ n, first ≤ n → n < taken → script.state.At block n Arm.Refused) ∧
      ∀ n, taken < n → n ≤ first + more → script.state.At block n Arm.Untouched := by
  have inv := (lasting_arms.reached reached).2.1 first more chain
  rw [BlockState.ChainInv] at inv
  rwa [if_pos (show first + more < script.state.cursor from past)] at inv

/-- A chain whose second arm is the first with a condition that holds. -/
def choice : Block :=
  [[.conditional .ifArm [] "0" [[.constant "a"]]], [.conditional .elifArm [] "1" [[.constant "b"]]],
    [.conditional .elseArm [] "1" [[.constant "c"]]]]

/-- The choice after its first frame. -/
def chosen : Script := ((Script.run .stalling none (.fresh choice)).run ⟨(), #[]⟩).1.2

theorem chain_choice : Chain choice 0 2 where
  opens := ⟨_, rfl, rfl⟩
  arms := by
    intro n hpos hle
    obtain rfl | rfl : n = 1 ∨ n = 2 := by omega
    · exact ⟨_, rfl, rfl⟩
    · exact ⟨_, rfl, rfl⟩
  ends := by
    intro statement h
    cases h

theorem arms_exclusive_choice : chosen.Reached choice ∧ Chain choice 0 2 ∧ chosen.cursor = 3 ∧
    chosen.state.Settled choice 0 2 := by
  have reached : chosen.Reached choice := .run .fresh ⟨⟨(), #[]⟩, rfl⟩
  have hcursor : chosen.cursor = 3 := by
    have hno : Expr.evalCondition ['0'] = .ok false := by cbv
    have hyes : Expr.evalCondition ['1'] = .ok true := by cbv
    simp [chosen, choice, Host.stalling, Script.cursor, Script.run, Script.fresh, BlockState.run,
      BlockState.fresh, freshStates, StatementState.fresh, rowsOf, runRows, runSteps, stepRows,
      evaluate, playConditional, fixGuard, test, values, splice, hno, hyes, Status.blocks, advance,
      pastArms, bodyStatus, Statement.isAlternative, note, modify, modifyGet,
      MonadStateOf.modifyGet, StateT.modifyGet, StateT.run, StateT.bind, StateT.pure, bind, pure]
  exact ⟨reached, chain_choice, hcursor, arms_exclusive reached chain_choice (by rw [hcursor]; decide)⟩

end Cutscene
