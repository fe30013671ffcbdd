import Cutscene.Proofs.Source.Expansion

/-!
Comments and string literals agree on where a literal is.

Taking comments out goes over a source once, and what it does with the rest depends on the region in
which a part ends (`Region.after`). So the comments of two sources with a line break between them are
taken out of each on its own, unless the first ends inside a literal (`dropComments_line`), and then
that literal is not closed in what is left either (`unclosed_of_after`). A literal itself is left as
it is (`dropComments_literal`).
-/
namespace Cutscene.Source

open Text

/-- The region in which a text ends that begins in the given one. -/
def Region.after : Region → List Char → Region
  | region, [] => region
  | .literal escaped, c :: rest =>
    Region.after (if c = '"' && !escaped then .code else .literal (c = '\\')) rest
  | .comment, c :: rest => Region.after (if c = '\n' then .code else .comment) rest
  | .code, c :: rest =>
    if c = '/' && rest.head? = some '/' then Region.after .comment rest
    else Region.after (if c = '"' then .literal false else .code) rest

/-- What stands before a line break is handled on its own: a slash before it begins no comment. -/
theorem dropComments_append (region : Region) (text rest : List Char) :
    dropComments region (text ++ '\n' :: rest) =
      dropComments region text ++ dropComments (region.after text) ('\n' :: rest) := by
  induction text generalizing region with
  | nil => cases region <;> rfl
  | cons c text ih =>
    cases region with
    | literal escaped => simp only [List.cons_append, dropComments, Region.after, ih]
    | comment =>
      by_cases hc : c = '\n'
      · simp only [List.cons_append, dropComments, Region.after, if_pos hc, ih]
      · simp only [List.cons_append, dropComments, Region.after, if_neg hc, ih]
    | code =>
      have hnext : ((text ++ '\n' :: rest).head? = some '/') = (text.head? = some '/') := by
        cases text with
        | nil => simp
        | cons d text => simp
      rw [List.cons_append, dropComments, dropComments, Region.after]
      simp only [hnext]
      split
      · exact ih _
      · rw [ih]
        rfl

theorem dropComments_sublist (region : Region) (text : List Char) :
    (dropComments region text).Sublist text := by
  induction text generalizing region with
  | nil => cases region <;> exact List.Sublist.slnil
  | cons c rest ih =>
    cases region with
    | literal escaped => exact (ih _).cons_cons c
    | comment =>
      rw [dropComments]
      split
      · exact (ih _).cons_cons c
      · exact (ih _).cons c
    | code =>
      rw [dropComments]
      split
      · exact (ih _).cons c
      · exact (ih _).cons_cons c

/-! ## Literals that are not closed -/

theorem cut_quote {text : List Char} {n : Nat} (h : Delimiter.string.close text = some n) :
    unclosedText (Delimiter.string.cut ('"' :: text)) =
      unclosedText (Delimiter.string.cut (text.drop (n + 1))) := by
  have hlook : Delimiter.string.look '"' text = .span (n + 1) := by
    rw [Delimiter.look, h]
    rfl
  rw [Delimiter.cut, cutFrom, hlook]
  simp only [unclosedText, cutFrom_drop _ (n + 1)]
  rfl

theorem cut_quote_none {text : List Char} (h : Delimiter.string.close text = none) :
    unclosedText (Delimiter.string.cut ('"' :: text)) = some ('"' :: text) := by
  have hlook : Delimiter.string.look '"' text = .unclosed := by
    rw [Delimiter.look, h]
    rfl
  rw [Delimiter.cut, cutFrom, hlook]
  rfl

theorem cut_cons {c : Char} (h : c ≠ '"') (text : List Char) :
    Delimiter.string.cut (c :: text) = .plain c :: Delimiter.string.cut text := by
  have hlook : Delimiter.string.look c text = .plain := if_neg h
  rw [Delimiter.cut, cutFrom, hlook]
  rfl

/-- A text that begins in a region has a literal that is not closed: the one it begins in, or one
behind it. -/
def Region.Unclosed : Region → List Char → Prop
  | .literal escaped, text => ∀ n,
    Delimiter.string.closeFrom 0 (if escaped then '\\' else '"') text = some n →
      unclosedText (Delimiter.string.cut (text.drop (n + 1))) ≠ none
  | _, text => unclosedText (Delimiter.string.cut text) ≠ none

/-- **A source that ends inside a literal has a literal that is not closed.** The induction goes over
the source with the region it has come to. -/
theorem unclosed_of_after {region : Region} {text : List Char} {escaped : Bool}
    (h : region.after text = .literal escaped) : region.Unclosed (dropComments region text) := by
  induction text generalizing region with
  | nil =>
    rw [Region.after] at h
    subst h
    intro n hn
    cases hn
  | cons c rest ih =>
    cases region with
    | comment =>
      rw [Region.after] at h
      by_cases hc : c = '\n'
      · rw [if_pos hc] at h
        have hrest : unclosedText (Delimiter.string.cut (dropComments .code rest)) ≠ none := ih h
        have hquote : c ≠ '"' := by
          rw [hc]
          decide
        rw [Region.Unclosed, dropComments, if_pos hc, cut_cons hquote]
        · exact hrest
        · simp
      · rw [if_neg hc] at h
        rw [dropComments, if_neg hc]
        exact ih h
    | literal before =>
      rw [Region.after] at h
      intro n hn
      rw [dropComments] at hn ⊢
      by_cases hc : c = '"' ∧ before = false
      · obtain ⟨rfl, rfl⟩ := hc
        have hzero : n = 0 := by simpa [Delimiter.closeFrom, Delimiter.string, eq_comm] using hn
        rw [hzero]
        exact ih h
      · -- the literal goes on behind the character
        have hnext : (if c = '"' && !before then Region.code else .literal (c = '\\')) =
            .literal (c = '\\') := if_neg (by simpa using hc)
        rw [hnext] at h hn ⊢
        have hstep : ∀ text, Delimiter.string.closeFrom 0 (if before then '\\' else '"') (c :: text) =
            (Delimiter.string.closeFrom 0 c text).map (· + 1) := by
          intro text
          by_cases hquote : c = '"'
          · have hbefore : before = true := by simpa [hquote] using hc
            simp [Delimiter.closeFrom, Delimiter.string, hquote, hbefore]
          · simp [Delimiter.closeFrom, Delimiter.string, hquote]
        rw [hstep, Option.map_eq_some_iff] at hn
        obtain ⟨m, hm, rfl⟩ := hn
        have hsame : c = '\\' ↔ (if decide (c = '\\') then '\\' else '"') = '\\' := by
          by_cases hslash : c = '\\'
          · simp [hslash]
          · simp [hslash]
        rw [closeFrom_previous _ 0 hsame] at hm
        exact ih h m hm
    | code =>
      rw [Region.after] at h
      rw [Region.Unclosed, dropComments]
      · by_cases hcomment : (c = '/' && rest.head? = some '/') = true
        · rw [if_pos hcomment] at h
          rw [if_pos hcomment]
          exact ih h
        · rw [if_neg hcomment] at h
          rw [if_neg hcomment]
          by_cases hquote : c = '"'
          · rw [if_pos hquote] at h
            rw [if_pos hquote, hquote]
            have hrest := ih h
            cases hclose : Delimiter.string.close (dropComments (.literal false) rest) with
            | none =>
              rw [cut_quote_none hclose]
              exact Option.some_ne_none _
            | some n =>
              rw [cut_quote hclose]
              rw [Delimiter.close, closeFrom_previous _ 0 (q := '"') (by decide)] at hclose
              exact hrest n hclose
          · rw [if_neg hquote] at h
            rw [if_neg hquote, cut_cons hquote]
            exact ih h
      · simp

/-- **Comments are taken out of two sources one after the other**, where the literals of the first are
closed and a line break is between them. -/
theorem dropComments_line {first : List Char}
    (h : unclosedText (Delimiter.string.cut (dropComments .code first)) = none) (rest : List Char) :
    dropComments .code (first ++ '\n' :: rest) =
      dropComments .code first ++ '\n' :: dropComments .code rest := by
  rw [dropComments_append]
  cases hregion : Region.after .code first with
  | code => simp [dropComments]
  | comment => simp [dropComments]
  | literal escaped => exact absurd h (unclosed_of_after hregion)

/-! ## Literals that are closed -/

/-- What stands in a literal up to the quote that closes it is left as it is. -/
theorem dropComments_closed {previous : Char} {body : List Char}
    (h : Delimiter.string.closeFrom 0 previous (body ++ ['"']) = some body.length)
    (rest : List Char) :
    dropComments (.literal (previous = '\\')) (body ++ '"' :: rest) =
      body ++ '"' :: dropComments .code rest := by
  induction body generalizing previous with
  | nil =>
    have hslash : previous ≠ '\\' := by
      rintro rfl
      simp [Delimiter.closeFrom, Delimiter.string] at h
    simp [dropComments, hslash]
  | cons c body ih =>
    have hopen : ¬ (c = '"' ∧ previous ≠ '\\') := by
      rintro ⟨rfl, hslash⟩
      simp [Delimiter.closeFrom, Delimiter.string, hslash] at h
    have hrest : Delimiter.string.closeFrom 0 c (body ++ ['"']) = some body.length := by
      by_cases hc : c = '"'
      · have hslash : previous = '\\' := by
          by_contra hslash
          exact hopen ⟨hc, hslash⟩
        simpa [Delimiter.closeFrom, Delimiter.string, hc, hslash] using h
      · simpa [Delimiter.closeFrom, Delimiter.string, hc] using h
    have hregion : (if c = '"' && !decide (previous = '\\') then Region.code else .literal (c = '\\')) =
        .literal (c = '\\') := if_neg (by simpa using hopen)
    rw [List.cons_append, dropComments, hregion, ih hrest]
    rfl

/-- **A literal is left as it is.** -/
theorem dropComments_literal {literal : List Char} (h : IsLiteral literal) (rest : List Char) :
    dropComments .code (literal ++ rest) = literal ++ dropComments .code rest := by
  obtain ⟨body, rfl, hclose⟩ := h
  have hnone : decide ('\x00' = '\\') = false := by decide
  have hbody := dropComments_closed hclose rest
  rw [hnone] at hbody
  have hquote : ('"' = '/' && ((body ++ ['"']) ++ rest).head? = some '/') = false := rfl
  rw [List.cons_append, dropComments, hquote]
  simp [hbody]

/-- A text without slashes has no comments. -/
theorem dropComments_eq_self {text : List Char} (hslash : '/' ∉ text) {region : Region}
    (hregion : region ≠ .comment) : dropComments region text = text := by
  induction text generalizing region with
  | nil => cases region <;> rfl
  | cons c text ih =>
    have hrest : ∀ {region : Region}, region ≠ .comment → dropComments region text = text :=
      fun hregion => ih (fun hmem => hslash (List.mem_cons_of_mem c hmem)) hregion
    cases region with
    | comment => exact absurd rfl hregion
    | literal escaped =>
      rw [dropComments, hrest]
      split <;> simp
    | code =>
      have hc : c ≠ '/' := fun heq => hslash (by simp [heq])
      rw [dropComments, if_neg (by simp [hc]), hrest]
      split <;> simp

/-- A text without slashes and quotes has no comments. -/
theorem dropComments_plain {text : List Char} (hslash : '/' ∉ text) (hquote : '"' ∉ text)
    (rest : List Char) : dropComments .code (text ++ rest) = text ++ dropComments .code rest := by
  induction text with
  | nil => rfl
  | cons c text ih =>
    have hc : c ≠ '/' := fun heq => hslash (by simp [heq])
    have hc' : c ≠ '"' := fun heq => hquote (by simp [heq])
    have hrest := ih (fun hmem => hslash (by simp [hmem])) (fun hmem => hquote (by simp [hmem]))
    simp [dropComments, hc, hc', hrest]

end Cutscene.Source
