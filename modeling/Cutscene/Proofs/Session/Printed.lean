import Mathlib
import Cutscene.Proofs.Play.Guard
import Cutscene.Proofs.Play.Step
import Cutscene.Proofs.Statement.Woven
import Cutscene.Script

/-!
A text on its way from a source to the output.

The source `debug("…");` holds a text with its double quotes escaped. The literal is hidden while
comments, layout and splitting are at work, once for the source and once for each statement, so it
comes to its constant as it was written (`parse_call`); there the escapes are undone
(`ofConstant_literalOf`), and the call writes the text (`run_call`). What the text holds, be it
semicolons, braces, comment signs or names of placeholders, is never looked at (`debug_writes`).
-/
namespace Cutscene

open Text Source

/-! ## Literals -/

/-- A text with a backslash before every double quote. -/
def escapeQuotes (text : List Char) : List Char :=
  text.flatMap fun c => if c = '"' then ['\\', '"'] else [c]

/-- The string literal of a text. -/
def literalOf (text : List Char) : List Char := '"' :: (escapeQuotes text ++ ['"'])

@[simp] theorem escapeQuotes_nil : escapeQuotes [] = [] := rfl

theorem escapeQuotes_quote (text : List Char) :
    escapeQuotes ('"' :: text) = '\\' :: '"' :: escapeQuotes text := rfl

theorem escapeQuotes_cons {c : Char} (h : c ≠ '"') (text : List Char) :
    escapeQuotes (c :: text) = c :: escapeQuotes text := by
  simp [escapeQuotes, h]

/-- The quotes inside are escaped, so the last one closes the literal, unless a backslash before it
escapes that one, too. -/
theorem closeFrom_escapeQuotes {previous : Char} {text : List Char}
    (hprevious : text = [] → previous ≠ '\\') (hlast : text.getLast? ≠ some '\\') :
    Delimiter.string.closeFrom 0 previous (escapeQuotes text ++ ['"']) =
      some (escapeQuotes text).length := by
  induction text generalizing previous with
  | nil =>
    have hp := hprevious rfl
    simp [Delimiter.closeFrom, Delimiter.string, hp]
  | cons c text ih =>
    have hlast' : text.getLast? ≠ some '\\' := by
      intro heq
      apply hlast
      rw [List.getLast?_cons, heq]
      rfl
    by_cases hc : c = '"'
    · have hrest : Delimiter.string.closeFrom 0 '"' (escapeQuotes text ++ ['"']) =
          some (escapeQuotes text).length := ih (fun _ => by decide) hlast'
      rw [Delimiter.string] at hrest ⊢
      rw [hc, escapeQuotes_quote]
      simp [Delimiter.closeFrom, hrest]
    · have hnext : text = [] → c ≠ '\\' := by
        rintro rfl rfl
        exact hlast rfl
      have hrest := ih hnext hlast'
      rw [Delimiter.string] at hrest ⊢
      rw [escapeQuotes_cons hc]
      simp [Delimiter.closeFrom, hc, hrest]

theorem isLiteral_literalOf {text : List Char} (hlast : text.getLast? ≠ some '\\') :
    IsLiteral (literalOf text) := by
  refine ⟨escapeQuotes text, rfl, ?_⟩
  apply closeFrom_escapeQuotes _ hlast
  intro _
  decide

/-- **Undoing the escapes gives the text.** -/
theorem replaceAll_escapeQuotes (text : List Char) :
    replaceAll ['\\', '"'] ['"'] (escapeQuotes text) = text := by
  induction text with
  | nil => rfl
  | cons c text ih =>
    by_cases hc : c = '"'
    · have hsplit : escapeQuotes ('"' :: text) = ['\\', '"'] ++ escapeQuotes text := rfl
      rw [hc, hsplit, replaceAll_append (by simp), ih]
      rfl
    · -- a backslash of the text has no quote behind it, but at most the backslash of an escape
      have hno : ¬ ['\\', '"'] <+: c :: escapeQuotes text := by
        intro hp
        have hquote := (List.cons_prefix_cons.mp hp).2
        cases text with
        | nil => simp at hquote
        | cons d text =>
          by_cases hd : d = '"'
          · rw [hd, escapeQuotes_quote, List.cons_prefix_cons] at hquote
            exact absurd hquote.1 (by decide)
          · rw [escapeQuotes_cons hd, List.cons_prefix_cons] at hquote
            exact hd hquote.1.symm
      rw [escapeQuotes_cons hc, replaceAll_cons _ hno, ih]

theorem ofConstant_literalOf (text : List Char) :
    Value.ofConstant (String.ofList (literalOf text)) = .str (String.ofList text) := by
  simp [Value.ofConstant, literalOf, replaceAll_escapeQuotes]

/-! ## Words that a literal does not hold -/

theorem prefix_of_escapeQuotes {word text : List Char} (hslash : '\\' ∉ word)
    (h : word <+: escapeQuotes text) : word <+: text := by
  induction text generalizing word with
  | nil => exact h
  | cons c text ih =>
    cases word with
    | nil => exact List.nil_prefix
    | cons d word =>
      by_cases hc : c = '"'
      · rw [hc, escapeQuotes_quote, List.cons_prefix_cons] at h
        exact absurd (by simp [h.1]) hslash
      · rw [escapeQuotes_cons hc, List.cons_prefix_cons] at h
        refine List.cons_prefix_cons.mpr ⟨h.1, ih (fun hmem => hslash ?_) h.2⟩
        exact List.mem_cons_of_mem d hmem

theorem infix_of_escapeQuotes {word text : List Char} (hslash : '\\' ∉ word) (hquote : '"' ∉ word)
    (h : word <:+: escapeQuotes text) : word <:+: text := by
  induction text with
  | nil => exact h
  | cons c text ih =>
    have hlater : word <:+: escapeQuotes text → word <:+: c :: text :=
      fun hin => List.infix_cons_iff.mpr (Or.inr (ih hin))
    by_cases hc : c = '"'
    · rw [hc, escapeQuotes_quote] at h
      rcases infix_append_cons (a := ['\\']) hquote h with hin | hin
      · have hnil : word = [] := by
          rcases infix_append_cons (a := []) (b := []) hslash hin with hempty | hempty
          · exact List.infix_nil.mp hempty
          · exact List.infix_nil.mp hempty
        rw [hnil]
        exact List.nil_infix
      · exact hlater hin
    · rw [escapeQuotes_cons hc] at h
      rcases List.infix_cons_iff.mp h with hstart | hin
      · rw [← escapeQuotes_cons hc] at hstart
        exact (prefix_of_escapeQuotes hslash hstart).isInfix
      · exact hlater hin

/-! ## Reading the call -/

/-- The start of a call of `debug`, up to its parenthesis. -/
def debugOpen : List Char := ['d', 'e', 'b', 'u', 'g', '(']

/-- A source that writes a text. -/
def debugSource (text : List Char) : List Char := debugOpen ++ (literalOf text ++ [')', ';'])

/-- The statement that a call with a literal is read to. -/
def debugStatement (literal : List Char) : Statement :=
  [.method "debug" [[.constant (String.ofList literal)]] false]

section Call
variable {literal : List Char} (h : IsLiteral literal)

include h

/-- **The call is read to a statement whose parameter is the literal as it was written.** -/
theorem read_debug (depth : Nat) : Statement.read (depth + 2) (debugOpen ++ (literal ++ [')'])) =
    .ok (debugStatement literal) := by
  have hpath : ∀ c ∈ debugOpen.dropLast, isNaming c = true := by simp [debugOpen, isNaming]
  have hshapes : callShapes debugOpen.dropLast literal =
      [].map (fun link => .ok (.leaf link)) ++ [.ok (.method "debug" false [literal ++ []] none)] := rfl
  exact read_call hpath h hshapes depth

/-! ## Reading the source -/

theorem weavable_debug : Weavable debugOpen [literal] [[')', ';']] :=
  ⟨rfl, by decide, by simpa using h⟩

theorem stripComments_call : stripComments (debugOpen ++ (literal ++ [')', ';'])) =
    debugOpen ++ (literal ++ [')', ';']) := by
  have hcomments : dropComments .code (debugOpen ++ (literal ++ [')', ';'])) =
      debugOpen ++ (literal ++ [')', ';']) := dropComments_weave (weavable_debug h) (by decide)
  rw [stripComments, hcomments, trim_ends rfl rfl]

theorem keyword_call (hdefine : ¬ Alias.keyword <:+: literal) :
    ¬ Alias.keyword <:+: debugOpen ++ (literal ++ [')', ';']) :=
  keyword_weave (weavable_debug h) (by decide) (by simpa using hdefine)

theorem fragments_call (hdefine : ¬ Alias.keyword <:+: literal) :
    fragments (debugOpen ++ (literal ++ [')', ';'])) = .ok [debugOpen ++ (literal ++ [')'])] := by
  have hlayout : layout (render (woven 0 debugOpen [[')', ';']])) =
      render (woven 0 debugOpen [[')', ';']]) := by cbv
  have hsplit : split ⟨layout (render (woven 0 debugOpen [[')', ';']])), ⟨literalTag, [literal]⟩⟩ =
      .ok ⟨debugOpen.dropLast ++ spelled paramsTag 0 ++ [';'],
        [trim (debugOpen ++ (literal ++ [')'])), trim []].filter fun fragment => !fragment.isEmpty⟩ := by
    rw [hlayout]
    rfl
  have htrim := trim_ends (a := debugOpen) (b := [')']) rfl rfl literal
  rw [fragments_weave (weavable_debug h) (stripComments_call h) (keyword_call h hdefine) (by decide)
    (by decide) hsplit, htrim]
  rfl

/-- **The source is read to one statement**, which calls `debug` with the literal. -/
theorem parse_call (hdefine : ¬ Alias.keyword <:+: literal) :
    Block.parse (debugOpen ++ (literal ++ [')', ';'])) = .ok [debugStatement literal] :=
  parse_single (by simp [debugOpen]) (fragments_call h hdefine) (read_debug h)

end Call

/-! ## Playing the call -/

/-- A session with one more line waiting. -/
def Session.writing (session : Session) (line : List Char) : Session :=
  { session with output := session.output ++ [String.ofList line] }

theorem evaluate_call (text : List Char) (base : Option Value) (state : StatementState)
    (stage : Stage Session) :
    ∃ after events,
      Play.evaluate Session.registry.host (debugStatement (literalOf text)) base state stage =
        ((.done, after), ⟨stage.host.writing text, events⟩) := by
  obtain ⟨frames, link⟩ := state
  have hvalue : (Value.str (String.ofList text)).text = String.ofList text := rfl
  rw [Session.writing, ← hvalue, ← ofConstant_literalOf]
  simp only [debugStatement, Play.evaluate, Play.playChain, Play.chain, Play.values, Play.follow_nil]
  exact ⟨_, _, rfl⟩

/-- **The call writes one line and is done in its first frame.** -/
theorem run_call (text : List Char) (base : Option Value) (stage : Stage Session) :
    ∃ script events,
      (Script.fresh [debugStatement (literalOf text)]).run Session.registry.host base stage =
        ((true, script), ⟨stage.host.writing text, events⟩) := by
  obtain ⟨after, events, heval⟩ :=
    evaluate_call text base (.fresh (debugStatement (literalOf text))) stage
  obtain ⟨events, hrun⟩ := Play.run_single heval rfl
  exact ⟨_, events, hrun⟩

/-- **A text comes out as it was written.** The source `debug("…");` of a text that holds no
definition and does not end in a backslash is read to one statement. Played on any session it is
finished in the first frame, and all that it changes is that it writes one line, which is the text. -/
theorem debug_writes {text : List Char} (hdefine : ¬ Alias.keyword <:+: text)
    (hlast : text.getLast? ≠ some '\\') :
    ∃ statement, Block.parse (debugSource text) = .ok [statement] ∧
      ∀ (base : Option Value) (stage : Stage Session), ∃ script events,
        (Script.fresh [statement]).run Session.registry.host base stage =
          ((true, script), ⟨{ stage.host with
            output := stage.host.output ++ [String.ofList text] }, events⟩) := by
  have hliteral : ¬ Alias.keyword <:+: literalOf text := by
    intro hin
    have hquote : '"' ∉ Alias.keyword := by decide
    rcases infix_append_cons (a := []) hquote hin with hopen | hrest
    · exact absurd hopen (by decide)
    · rcases infix_append_cons hquote hrest with hbody | hclose
      · exact hdefine (infix_of_escapeQuotes (by decide) hquote hbody)
      · exact absurd hclose (by decide)
  refine ⟨debugStatement (literalOf text), ?_, run_call text⟩
  exact parse_call (isLiteral_literalOf hlast) hliteral

/-- A text that would be cut in many ways if it were looked at: a statement, a comment and the name
of a placeholder, with quotes of both kinds, a backslash and a line break. -/
def hostileText : List Char := "\"x\\\"; // \x7b(it's, @^string:0$@.\n)".toList

theorem debug_writes_hostileText :
    ¬ Alias.keyword <:+: hostileText ∧ hostileText.getLast? ≠ some '\\' ∧
    ∃ statement, Block.parse (debugSource hostileText) = .ok [statement] ∧
      ∀ (base : Option Value) (stage : Stage Session), ∃ script events,
        (Script.fresh [statement]).run Session.registry.host base stage =
          ((true, script), ⟨{ stage.host with
            output := stage.host.output ++ [String.ofList hostileText] }, events⟩) := by
  have hdefine : ¬ Alias.keyword <:+: hostileText := by decide +kernel
  have hlast : hostileText.getLast? ≠ some '\\' := by decide +kernel
  exact ⟨hdefine, hlast, debug_writes hdefine hlast⟩

end Cutscene
