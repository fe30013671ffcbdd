import Cutscene.Proofs.Source.Sequence

/-!
One statement.

Splitting ends a statement at a semicolon outside blocks and behind the brace that closes a block. So the
signs of a statement have no such semicolon, and they have no block but at their end (`single_of_mem`).
This is all that splitting looks at: such signs are split into themselves (`Single.statements_eq`), also
without the blanks at their ends (`Single.trim`).
-/
namespace Cutscene.Source

open Text

/-! ## The signs of one statement -/

/-- The signs of one statement: the last of them may close a block, and outside the block none opens one
or is a semicolon. -/
inductive Single : List Char → Prop where
  | nil : Single []
  | block {body : List Char} (h : Delimiter.brace.close (body ++ ['\x7d']) = some body.length) :
      Single ('\x7b' :: (body ++ ['\x7d']))
  | cons {c : Char} {rest : List Char} (hmark : c ≠ ';') (hopen : c ≠ '\x7b') (h : Single rest) :
      Single (c :: rest)

theorem Single.of_before {before rest : List Char} (hbefore : Blanks before)
    (h : Single (before ++ rest)) : Single rest := by
  induction before with
  | nil => exact h
  | cons c before ih =>
    have hblank := hbefore c List.mem_cons_self
    rw [List.cons_append] at h
    generalize htail : before ++ rest = tail at h
    cases h with
    | block => exact absurd hblank (by decide)
    | cons _ _ h => exact ih (fun d hd => hbefore d (List.mem_cons_of_mem c hd)) (htail ▸ h)

theorem Single.of_behind {text behind : List Char} (hbehind : Blanks behind)
    (h : Single (text ++ behind)) : Single text := by
  generalize hwhole : text ++ behind = whole at h
  induction h generalizing text with
  | nil =>
    rw [(List.append_eq_nil_iff.mp hwhole).1]
    exact .nil
  | @block body h =>
    -- the block ends with its brace, so no blanks are behind it
    cases List.eq_nil_or_concat behind with
    | inl hnil =>
      rw [hnil, List.append_nil] at hwhole
      exact hwhole ▸ .block h
    | inr hlast =>
      obtain ⟨front, last, rfl⟩ := hlast
      have hbrace : last = '\x7d' := by
        have hends := congrArg List.getLast? hwhole
        simpa [List.getLast?_cons, List.getLast?_append] using hends
      have hblank := hbehind last (by simp)
      rw [hbrace] at hblank
      exact absurd hblank (by decide)
  | @cons c rest hmark hopen _ ih =>
    cases text with
    | nil => exact .nil
    | cons d text =>
      obtain ⟨rfl, hrest⟩ := List.cons.inj hwhole
      exact .cons hmark hopen (ih hrest)

/-- Without the blanks around it, a statement is one statement still. -/
theorem Single.trim {signs : List Char} (h : Single signs) : Single (trim signs) := by
  obtain ⟨before, behind, hbefore, hbehind, heq⟩ := exists_blanks_trim signs
  rw [heq] at h
  exact (h.of_before hbefore).of_behind hbehind

/-- The blocks of one statement are closed. -/
theorem Single.closed {signs : List Char} (h : Single signs) :
    unclosedText (Delimiter.brace.cut signs) = none := by
  induction h with
  | nil => rfl
  | @block body h =>
    have hlook : Delimiter.brace.look '\x7b' (body ++ ['\x7d']) = .span (body.length + 1) := by
      rw [Delimiter.look, h]
      rfl
    rw [Delimiter.cut, cutFrom, hlook]
    simp only [unclosedText]
    rw [cutFrom_drop, List.drop_of_length_le (by simp)]
    rfl
  | @cons c rest hmark hopen h ih =>
    have hlook : Delimiter.brace.look c rest = .plain := look_eq_plain.mpr hopen
    rw [Delimiter.cut, cutFrom, hlook]
    exact ih

/-! ## Splitting again -/

section Statements
variable {α : Type} {sign : α → Char}

/-- **One statement is split into itself**, and nothing else is behind its block. -/
theorem Single.statements_eq {tokens : List α} (h : Single (tokens.map sign)) (previous : Char) :
    statements sign 0 previous tokens = [tokens] ∨ statements sign 0 previous tokens = [tokens, []] := by
  induction tokens generalizing previous with
  | nil => exact Or.inl rfl
  | cons token rest ih =>
    rw [List.map_cons] at h
    generalize hsign : sign token = c at h
    generalize hsigns : rest.map sign = signs at h
    cases h with
    | @block body hclose =>
      have hlength : rest.length = body.length + 1 := by
        rw [← List.length_map (f := sign), hsigns, List.length_append]
        rfl
      rw [← hsigns] at hclose
      rw [statements_block hsign hclose, ← hlength, List.take_length, List.drop_length]
      exact Or.inr rfl
    | cons hmark hopen h =>
      rw [← hsign] at hmark hopen
      rw [statements_plain hmark hopen]
      rw [← hsigns] at h
      rcases ih h (sign token) with heq | heq
      · exact Or.inl (by rw [heq]; rfl)
      · exact Or.inr (by rw [heq]; rfl)

/-- **Each of the statements among tokens is one statement**, where all blocks are closed. -/
theorem single_of_mem {tokens : List α} {skip : Nat}
    (hclosed : unclosedText (cutFrom Delimiter.brace.look skip (tokens.map sign)) = none)
    {previous : Char} {statement : List α}
    (h : statement ∈ statements sign 0 previous (tokens.drop skip)) :
    Single (statement.map sign) := by
  induction tokens generalizing skip previous statement with
  | nil =>
    obtain rfl : statement = [] := by
      cases skip <;> simpa [statements] using h
    exact .nil
  | cons token rest ih =>
    cases skip with
    | succ skip => exact ih hclosed h
    | zero =>
      rw [List.map_cons, cutFrom] at hclosed
      rw [List.drop_zero] at h
      cases hlook : Delimiter.brace.look (sign token) (rest.map sign) with
      | unclosed => simp [hlook, unclosedText] at hclosed
      | plain =>
        simp only [hlook, unclosedText] at hclosed
        have hopen : sign token ≠ '\x7b' := look_eq_plain.mp hlook
        have hrest : ∀ {previous statement}, statement ∈ statements sign 0 previous rest →
            Single (statement.map sign) := fun hmem => ih hclosed hmem
        by_cases hmark : sign token = ';'
        · rw [statements_mark hmark] at h
          rcases List.mem_cons.mp h with rfl | h
          · exact .nil
          · exact hrest h
        · rw [statements_plain hmark hopen] at h
          have hne : statements sign 0 (sign token) rest ≠ [] := statements_ne_nil 0 _ rest
          obtain ⟨first, others, heq⟩ := List.exists_cons_of_ne_nil hne
          rw [heq] at h
          rcases List.mem_cons.mp h with rfl | h
          · exact .cons hmark hopen (hrest (heq ▸ List.mem_cons_self))
          · exact hrest (heq ▸ List.mem_cons_of_mem _ h)
      | span more =>
        obtain ⟨hopen, n, hclose, rfl⟩ := close_of_look hlook
        simp only [hlook, unclosedText] at hclosed
        rw [statements_block hopen hclose] at h
        rcases List.mem_cons.mp h with rfl | h
        · obtain ⟨body, after, hbody, rfl, hother⟩ := closeFrom_some hclose
          have hinner : (rest.take (body.length + 1)).map sign = body ++ ['\x7d'] := by
            rw [List.map_take, hbody]
            simp [List.take_append, List.take_of_length_le, Delimiter.brace]
          rw [List.map_cons, hinner, hopen]
          exact .block (hother [])
        · exact ih hclosed h

/-- The first of the statements stands at the start of the tokens, and the others further on. -/
theorem exists_first_statement (sign : α → Char) (depth : Nat) (previous : Char) (tokens : List α) :
    ∃ first others, statements sign depth previous tokens = first :: others ∧ first <+: tokens ∧
      ∀ statement ∈ others, statement <:+: tokens := by
  induction tokens generalizing depth previous with
  | nil => exact ⟨[], [], rfl, List.nil_prefix, by simp⟩
  | cons token rest ih =>
    have hall : ∀ depth, ∀ statement ∈ statements sign depth (sign token) rest,
        statement <:+: token :: rest := by
      intro depth statement hstatement
      obtain ⟨first, others, heq, hfirst, hothers⟩ := ih depth (sign token)
      rw [heq] at hstatement
      rcases List.mem_cons.mp hstatement with rfl | hstatement
      · exact List.infix_cons hfirst.isInfix
      · exact List.infix_cons (hothers statement hstatement)
    rw [statements]
    split
    · exact ⟨[], _, rfl, List.nil_prefix, hall depth⟩
    · split
      · exact ⟨[token], _, rfl, ⟨rest, rfl⟩, hall 0⟩
      · obtain ⟨first, others, heq, hfirst, hothers⟩ :=
          ih (depthBehind depth previous (sign token)) (sign token)
        rw [heq]
        exact ⟨token :: first, others, rfl, List.cons_prefix_cons.mpr ⟨rfl, hfirst⟩,
          fun statement hstatement => List.infix_cons (hothers statement hstatement)⟩

/-- A statement is one stretch of the tokens. -/
theorem infix_of_mem_statements {depth : Nat} {previous : Char} {tokens statement : List α}
    (h : statement ∈ statements sign depth previous tokens) : statement <:+: tokens := by
  obtain ⟨first, others, heq, hfirst, hothers⟩ := exists_first_statement sign depth previous tokens
  rw [heq] at h
  rcases List.mem_cons.mp h with rfl | h
  · exact hfirst.isInfix
  · exact hothers statement h

end Statements

end Cutscene.Source
