import Cutscene.Proofs.Play.Arms
import Cutscene.Proofs.Play.Cursor

/-!
Nothing is started early.

Of the statements ahead of the cursor only a row of simultaneous ones right behind it can have been
started: they run alongside a pending statement, and the row ends at the first statement that is not
simultaneous (`BlockState.StartsInOrder`). A step evaluates the statement under the cursor and at most
that row, and moving the cursor forward only makes the way to a statement ahead shorter, so a step keeps
this (`lasting_startsInOrder`). It therefore holds in every state that a script can come to, of the block
and of every body inside it (`nothing_started_early`).
-/
namespace Cutscene

open Play

/-! ## What may have been started -/

/-- The number of simultaneous statements that stand in a row right behind a place. -/
def Block.alongside (block : Block) (cursor : Nat) : Nat :=
  ((block.drop (cursor + 1)).takeWhile Statement.isSimultaneous).length

/-- A statement ahead of the cursor is fresh, or it is simultaneous and so are all between. So all that
stands beyond the row of simultaneous statements right behind the cursor is fresh. -/
structure BlockState.StartsInOrder (block : Block) (state : BlockState) : Prop where
  ahead : ∀ {n : Nat} {statement : Statement} {progress : StatementState}, state.cursor < n →
    block[n]? = some statement → state.statements[n]? = some progress →
    progress = .fresh statement ∨ (statement.isSimultaneous = true ∧
      ∀ m, state.cursor < m → m < n → ∃ between : Statement,
        block[m]? = some between ∧ between.isSimultaneous = true)
  beyond : ∀ {n : Nat} {statement : Statement}, state.cursor + block.alongside state.cursor < n →
    block[n]? = some statement → state.statements[n]? = some (.fresh statement)

/-- A statement with nothing but simultaneous ones up to it is in the row. -/
theorem Block.le_alongside {block : Block} {cursor n : Nat} (h : ∀ m, cursor < m → m ≤ n →
    ∃ statement : Statement, block[m]? = some statement ∧ statement.isSimultaneous = true) :
    n ≤ cursor + block.alongside cursor := by
  have hrow : n - cursor ≤ block.alongside cursor := by
    apply le_length_takeWhile
    intro m hm
    rw [List.getElem?_drop]
    exact h (cursor + 1 + m) (by omega) (by omega)
  omega

/-- What holds of the statements ahead says all. -/
theorem startsInOrder_of_ahead {block : Block} {state : BlockState}
    (hlength : state.statements.length = block.length)
    (ahead : ∀ {n : Nat} {statement : Statement} {progress : StatementState}, state.cursor < n →
      block[n]? = some statement → state.statements[n]? = some progress →
      progress = .fresh statement ∨ (statement.isSimultaneous = true ∧
        ∀ m, state.cursor < m → m < n → ∃ between : Statement,
          block[m]? = some between ∧ between.isSimultaneous = true)) :
    state.StartsInOrder block where
  ahead := ahead
  beyond := by
    intro n statement hn hs
    have hlt : n < state.statements.length := by
      rw [hlength]
      exact (List.getElem?_eq_some_iff.mp hs).1
    have hp : state.statements[n]? = some state.statements[n] := List.getElem?_eq_getElem hlt
    rcases ahead (by omega) hs hp with hfresh | ⟨hsim, hbetween⟩
    · rw [hp, hfresh]
    · -- a simultaneous one with only such between would still be in the row
      have hle : n ≤ state.cursor + block.alongside state.cursor := by
        apply Block.le_alongside
        intro m hm hmn
        rcases Nat.eq_or_lt_of_le hmn with rfl | hmn
        · exact ⟨statement, hs, hsim⟩
        · exact hbetween m hm hmn
      omega

/-! ## Every state -/

/-- That nothing is started early lasts. -/
theorem lasting_startsInOrder : Lasting BlockState.StartsInOrder where
  fresh := by
    intro block
    apply startsInOrder_of_ahead (formed_fresh block).length
    intro n statement progress _ hs hp
    exact Or.inl (Option.some.inj (hp.symm.trans (freshStates_getElem? hs)))
  step := by
    intro σ host block base state next outcome ht h
    rcases gives_step h with ⟨-, rfl, -⟩ | ⟨status, -, st⟩
    · exact ht.1
    · have hle : state.cursor ≤ next.cursor := st.cursor_le
      apply startsInOrder_of_ahead (st.length.trans ht.length)
      intro n statement progress hn hs hp
      rcases st.ahead n (by omega) with hsame | ⟨-, -, -, -, -, -, -, -, -, hrow⟩
      · -- not touched: what was between still is, as far as it is ahead
        rcases ht.1.ahead (by omega) hs (hsame.symm.trans hp) with hfresh | ⟨hsim, hbetween⟩
        · exact Or.inl hfresh
        · exact Or.inr ⟨hsim, fun m hm hmn => hbetween m (by omega) hmn⟩
      · -- evaluated alongside, so everything up to it is simultaneous
        have hall : ∀ m, state.cursor < m → m ≤ n → ∃ between : Statement,
            block[m]? = some between ∧ between.isSimultaneous = true := by
          intro m hm hmn
          obtain ⟨row, hr, hsim⟩ := hrow m hm hmn
          obtain ⟨between, hb, rfl⟩ := rowsOf_getElem? hr
          exact ⟨between, hb, hsim⟩
        obtain ⟨here, hhere, hsim⟩ := hall n (by omega) (Nat.le_refl n)
        cases hs.symm.trans hhere
        exact Or.inr ⟨hsim, fun m hm hmn => hall m (by omega) (by omega)⟩

/-- **Nothing is started early.** Whatever steps, frames and resets a script has behind it, of its block
and of every body inside it, at every depth: a statement ahead of the cursor is fresh, or it is
simultaneous and so is every statement between the cursor and it. So whatever stands beyond the row of
simultaneous statements right behind the cursor is fresh. -/
theorem nothing_started_early {block : Block} {script : Script} (h : script.History block) :
    script.block = block ∧ script.state.Throughout BlockState.StartsInOrder block :=
  lasting_startsInOrder.reached h.reached

/-- The second call was made alongside the first, and the third is still fresh. -/
theorem nothing_started_early_underway :
    underway.History detour ∧ underway.cursor = 2 ∧ detour.alongside 2 = 1 ∧
    underway.state.statements[3]? ≠ some (.fresh [.method "wait" [] true]) ∧
    underway.state.statements[4]? = some (.fresh [.method "wait" [] false]) := by
  have hstarted : underway.state.statements[3]? ≠ some (.fresh [.method "wait" [] true]) := by
    simp [underway, detourState, StatementState.fresh]
  have horder := (nothing_started_early history_underway).2.1
  exact ⟨history_underway, rfl, rfl, hstarted, horder.beyond (by decide) rfl⟩

end Cutscene
