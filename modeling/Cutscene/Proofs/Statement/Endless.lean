import Cutscene.Proofs.Statement.Comparison

/-!
Texts whose reading does not end.

A statement is read by reading the texts in it, the first of them first (`opensWith`). If one text opens
with another, that one with a third, and so on, then reading goes down for ever, and no stack has room for
it (`read_overflows`). Plain texts do not do that, since what nests in a plain text is smaller. But a text
may have something like a placeholder in it, and putting back what was hidden then puts a part of the text
where it was not. The argument of `spiral` is a statement that opens with itself (`read_spiral`).
-/
namespace Cutscene

open Source

/-! ## The first text in a statement -/

section Opening
variable {read : List Char → Except ParseError Statement}

/-- A shape is not filled in if the first text in it is not read. -/
theorem fill_error {shape : Shape} {inner : List Char} {e : ParseError}
    (hfirst : shape.nested.head? = some (.ok (.statement inner))) (h : read inner = .error e) :
    shape.fill read = .error e := by
  have hbody : ∀ body, (Shape.nestedBody body).head? ≠ some (.ok (.statement inner)) := by
    intro body
    rcases body with cause | _ | text <;> simp [Shape.nestedBody]
  cases shape with
  | empty => cases hfirst
  | leaf link => cases hfirst
  | conditional arm phrases template body =>
    cases phrases with
    | nil => exact absurd hfirst (hbody body)
    | cons phrase phrases =>
      cases hfirst
      simp only [Shape.fill, List.mapM_cons, h]
      rfl
  | each subject body =>
    cases hfirst
    simp only [Shape.fill, h]
    rfl
  | range low high body =>
    cases hfirst
    simp only [Shape.fill, h]
    rfl
  | method name simultaneous params trailing =>
    cases params with
    | nil =>
      cases trailing with
      | none => cases hfirst
      | some text =>
        cases hfirst
        simp only [Shape.fill, List.mapM_nil, h]
        rfl
    | cons param params =>
      cases hfirst
      simp only [Shape.fill, List.mapM_cons, h]
      rfl

/-- The text that is read first in a statement, if its first piece has a shape with a text in it. -/
def opensWith (text : List Char) : Option (List Char) :=
  match Shape.ofFragment text with
  | .ok (.ok shape :: _) =>
    match shape.nested.head? with
    | some (.ok (.statement inner)) => some inner
    | _ => none
  | _ => none

/-- A statement is not read if the text that it opens with is not. -/
theorem readWith_error {text inner : List Char} {e : ParseError} (hopening : opensWith text = some inner)
    (h : read inner = .error e) : Statement.readWith read text = .error e := by
  unfold opensWith at hopening
  split at hopening
  · next shape more hshapes =>
    split at hopening
    · next first hfirst =>
      cases hopening
      have hchains : (.ok shape :: more).mapM (Shape.fillFound read) = .error e := by
        simp only [List.mapM_cons, fillFound_ok, fill_error hfirst h]
        rfl
      rw [Statement.readWith, hshapes]
      exact congrArg (· >>= fun chains => pure chains.flatten) hchains
    · cases hopening
  · cases hopening

end Opening

/-- **Reading goes down for ever** in texts of a sort that open with others of the sort. -/
theorem read_overflows {endless : List Char → Prop}
    (hnext : ∀ text, endless text → ∃ inner, opensWith text = some inner ∧ endless inner) (depth : Nat)
    {text : List Char} (h : endless text) : Statement.read depth text = .error .tooDeep := by
  induction depth generalizing text with
  | zero => rfl
  | succ depth ih =>
    obtain ⟨inner, hopening, hinner⟩ := hnext text h
    exact readWith_error hopening (ih hinner)

/-! ## A statement that opens with itself -/

/-- A source of one statement. -/
def spiral : List Char :=
  "g(\x7b'';h(@^object:0$@'@^object:0$@;)\x7d'\x7b'';h(@^object:0$@'@^object:0$@;)\x7d;)".toList

/-- What the argument of the statement comes to when its objects are put back. -/
def spiralArgument : List Char :=
  ("\x7b'';h(@^object:0$@'@^object:0$@;)\x7d'\x7b'';h(\x7b'';h(@^object:0$@'@^object:0$@;)\x7d'" ++
    "\x7b'';h(@^object:0$@'@^object:0$@;)\x7d;)\x7d;").toList

theorem opensWith_spiral : opensWith spiral = some spiralArgument := by decide +kernel

theorem opensWith_spiralArgument : opensWith spiralArgument = some spiralArgument := by decide +kernel

/-- **The source is not read on any stack.** -/
theorem read_spiral (depth : Nat) : Block.readWith (Statement.read depth) spiral = .error .tooDeep := by
  have hpieces : fragments spiral = .ok [spiral] := by decide +kernel
  have hnext : ∀ text, text = spiral ∨ text = spiralArgument →
      ∃ inner, opensWith text = some inner ∧ (inner = spiral ∨ inner = spiralArgument) := by
    rintro text (rfl | rfl)
    · exact ⟨spiralArgument, opensWith_spiral, .inr rfl⟩
    · exact ⟨spiralArgument, opensWith_spiralArgument, .inr rfl⟩
  rw [readWith_eq hpieces, List.mapM_cons, read_overflows hnext depth (.inl rfl)]
  rfl

end Cutscene
