import Cutscene.Proofs.Source.Sequence

/-!
The brackets in the fragments of a source.

Preparing a source takes characters away, and all that it writes are the conditions of arms that have
none: one parenthesis for each brace at most. So a fragment of a plain source has no more braces than the
source, and no more parentheses than the source has parentheses and braces (`fragment_bounded`).
-/
namespace Cutscene.Source

open Text

/-! ## What is left of a source -/

theorem squeeze_sublist (mark : Char) (text : List Char) : (squeeze mark text).Sublist text := by
  induction text with
  | nil => exact List.Sublist.slnil
  | cons c rest ih =>
    rw [squeeze]
    split
    · exact ih.cons c
    · exact ih.cons_cons c

theorem tightenFrom_sublist (afterComma : Bool) (text : List Char) :
    (tightenFrom afterComma text).Sublist text := by
  induction text generalizing afterComma with
  | nil => exact List.Sublist.slnil
  | cons c rest ih =>
    rw [tightenFrom]
    split
    · exact (ih true).cons c
    · exact (ih _).cons_cons c

theorem normalise_sublist (text : List Char) : (normalise text).Sublist text := by
  rw [normalise_eq]
  exact (tightenFrom_sublist _ _).trans ((squeeze_sublist _ _).trans List.filter_sublist)

theorem stripComments_sublist (source : List Char) : (stripComments source).Sublist source :=
  (isInfix_trim _).sublist.trans (dropComments_sublist .code source)

/-! ## What the layout writes -/

theorem count_blanks {word : List Char} (h : Blanks word) {x : Char} (hx : isBlank x = false) :
    word.count x = 0 := List.count_eq_zero.mpr (notMem_blanks h hx)

/-- An `else` between braces gets a condition and keeps its braces. -/
theorem count_conditionElse (text : List Char) :
    (conditionElse text).count '\x7b' = text.count '\x7b' ∧
      (conditionElse text).count '(' ≤ text.count '(' + text.count '\x7b' := by
  induction text using else_induction with
  | nil => exact ⟨rfl, Nat.zero_le _⟩
  | word word body hword ih =>
    obtain ⟨hbraces, hgroups⟩ := ih
    have hword_brace : word.count '\x7b' = 1 := by
      obtain ⟨before, behind, hbefore, hbehind, rfl⟩ := hword
      simp [List.count_append, count_blanks hbefore (show isBlank '\x7b' = false by decide),
        count_blanks hbehind (show isBlank '\x7b' = false by decide)]
    have harm_brace : elseArm.count '\x7b' = 1 := by decide
    have harm_group : elseArm.count '(' = 1 := by decide
    rw [conditionElse_word hword, List.count_append, List.count_append, List.count_append,
      List.count_append]
    omega
  | cons c rest hcons ih =>
    obtain ⟨hbraces, hgroups⟩ := ih
    rw [conditionElse_cons hcons]
    simp only [List.count_cons]
    omega

theorem count_brace_layout (text : List Char) : (layout text).count '\x7b' ≤ text.count '\x7b' := by
  rw [layout, (count_conditionElse _).1]
  exact (normalise_sublist text).count_le _

theorem count_group_layout (text : List Char) :
    (layout text).count '(' ≤ text.count '(' + text.count '\x7b' :=
  (count_conditionElse _).2.trans
    (Nat.add_le_add ((normalise_sublist text).count_le _) ((normalise_sublist text).count_le _))

theorem text_cutFrom (look : Char → List Char → Sight) (skip : Nat) (text : List Char) :
    (cutFrom look skip text).flatMap Piece.text = text.drop skip := by
  induction text generalizing skip with
  | nil => cases skip <;> rfl
  | cons c rest ih =>
    cases skip with
    | succ skip => exact ih skip
    | zero =>
      rw [cutFrom]
      split
      · rw [List.flatMap_cons, ih]
        rfl
      · next more _ =>
        rw [List.flatMap_cons, ih, Piece.text, List.cons_append, List.take_append_drop]
        rfl
      · rw [List.flatMap_singleton]
        rfl

/-- A skeleton with its literals filled in is the text. -/
theorem fillIn_skeleton {text : List Char} (h : LiteralsClosed text) :
    fillIn (skeleton text) (literals text) = text := by
  have hpieces : ∀ pieces : List Piece,
      (∀ piece ∈ pieces, (∃ c, c ≠ '"' ∧ piece = .plain c) ∨ ∃ literal, piece = .span literal) →
        fillIn (pieces.map Piece.sign) (spansIn pieces) = pieces.flatMap Piece.text := by
    intro pieces hall
    induction pieces with
    | nil => rfl
    | cons piece pieces ih =>
      obtain ⟨hpiece, hrest⟩ := List.forall_mem_cons.mp hall
      rw [List.map_cons, List.flatMap_cons, ← ih hrest]
      rcases hpiece with ⟨c, hc, rfl⟩ | ⟨literal, rfl⟩
      · rw [Piece.sign, fillIn, if_neg hc]
        rfl
      · rw [Piece.sign, fillIn, if_pos rfl]
        rfl
  rw [skeleton, literals, hpieces _ (closed_pieces h)]
  exact text_cutFrom _ 0 text

/-- Filling literals in adds what is in them. -/
theorem count_fillIn {bones : List Char} {texts : List (List Char)} {x : Char} (hx : x ≠ '"')
    (h : bones.count '"' = texts.length) :
    (fillIn bones texts).count x = bones.count x + texts.flatten.count x := by
  induction bones generalizing texts with
  | nil =>
    obtain rfl : texts = [] := List.length_eq_zero_iff.mp h.symm
    rfl
  | cons c bones ih =>
    by_cases hc : c = '"'
    · subst hc
      rw [List.count_cons_self] at h
      cases texts with
      | nil => cases h
      | cons text texts =>
        rw [fillIn, if_pos rfl, List.headD_cons, List.tail_cons, List.count_append,
          ih (Nat.succ.inj h), List.count_cons_of_ne hx.symm, List.flatten_cons, List.count_append]
        omega
    · rw [List.count_cons_of_ne hc] at h
      rw [fillIn, if_neg hc, List.count_cons, List.count_cons, ih h]
      omega

/-! ## Fragments -/

theorem infix_of_mem_scan {text part : List Char} (h : part ∈ scan text) : part <:+: text := by
  obtain ⟨marks, hlength, -, hjoined⟩ := scan_lossless text
  obtain ⟨n, hn, rfl⟩ := List.getElem_of_mem h
  have hmark : n < marks.length := by rw [hlength]; exact hn
  have hmem : (scan text)[n] ++ marks[n] ∈ List.zipWith (· ++ ·) (scan text) marks := by
    rw [List.mem_iff_getElem]
    exact ⟨n, by simp [hn, hmark], by simp⟩
  have hwithin := List.infix_of_mem_flatten hmem
  rw [hjoined] at hwithin
  exact (List.prefix_append _ _).isInfix.trans hwithin

section Fragments
variable {source : List Char} (h : IsPlain source) {pieces : List (List Char)}
  (hok : fragments source = .ok pieces)

include h hok

/-- The fragments of a plain source stand in the text that it is laid out to. -/
theorem fragment_isInfix {fragment : List Char} (hmem : fragment ∈ pieces) :
    fragment <:+: laidText source := by
  obtain ⟨hclosed, hbalanced⟩ := balanced_of_fragments h hok
  rw [fragments_eq h hclosed hbalanced, Except.ok.injEq, trimmed,
    ← scan_laidText h hclosed hbalanced.groups] at hok
  rw [← hok] at hmem
  obtain ⟨part, hpart, rfl⟩ := List.mem_map.mp (List.mem_filter.mp hmem).1
  exact (isInfix_trim part).trans (infix_of_mem_scan hpart)

/-- Laying a plain source out changes what is between its literals. -/
theorem count_laidText {x : Char} (hx : x ≠ '"') :
    ∃ others, (stripComments source).count x = (skeleton (stripComments source)).count x + others ∧
      (laidText source).count x = (layout (skeleton (stripComments source))).count x + others := by
  obtain ⟨hclosed, -⟩ := balanced_of_fragments h hok
  refine ⟨(literals (stripComments source)).flatten.count x, ?_, ?_⟩
  · conv_lhs => rw [← fillIn_skeleton hclosed]
    exact count_fillIn hx (count_skeleton hclosed)
  · exact count_fillIn hx (count_laid h hclosed)

/-- **A fragment has no more braces than its source, and no more parentheses than the source has
parentheses and braces.** -/
theorem fragment_bounded {fragment : List Char} (hmem : fragment ∈ pieces) :
    fragment.count '\x7b' ≤ source.count '\x7b' ∧
      fragment.count '(' ≤ source.count '(' + source.count '\x7b' := by
  have hwithin := (fragment_isInfix h hok hmem).sublist
  have hstrip := stripComments_sublist source
  obtain ⟨inBraces, hbraces, hlaidBraces⟩ := count_laidText h hok (x := '\x7b') (by decide)
  obtain ⟨inGroups, hgroups, hlaidGroups⟩ := count_laidText h hok (x := '(') (by decide)
  have hbrace := hwithin.count_le '\x7b'
  have hgroup := hwithin.count_le '('
  have hstripBrace := hstrip.count_le '\x7b'
  have hstripGroup := hstrip.count_le '('
  have hlayoutBrace := count_brace_layout (skeleton (stripComments source))
  have hlayoutGroup := count_group_layout (skeleton (stripComments source))
  omega

/-- A character that the layout does not write comes into a fragment from the source. -/
theorem notMem_fragment {x : Char} (harm : x ∉ elseArm) (hquote : x ≠ '"') (hx : x ∉ source)
    {fragment : List Char} (hmem : fragment ∈ pieces) : x ∉ fragment := by
  intro hfragment
  obtain ⟨others, hbefore, hlaid⟩ := count_laidText h hok hquote
  have hstrip := (stripComments_sublist source).count_le x
  rw [List.count_eq_zero.mpr hx] at hstrip
  have hskeleton : x ∉ skeleton (stripComments source) :=
    notMem_skeleton hquote fun hmem => hx ((stripComments_sublist source).subset hmem)
  rw [List.count_eq_zero.mpr (notMem_layout harm hskeleton)] at hlaid
  have hpos := List.count_pos_iff.mpr ((fragment_isInfix h hok hmem).subset hfragment)
  omega

/-- The fragments of a plain source are plain. -/
theorem isPlain_fragment {fragment : List Char} (hmem : fragment ∈ pieces) : IsPlain fragment :=
  ⟨notMem_fragment h hok (by decide) (by decide) h.1 hmem,
    notMem_fragment h hok (by decide) (by decide) h.2.1 hmem,
    notMem_fragment h hok (by decide) (by decide) h.2.2 hmem⟩

end Fragments

end Cutscene.Source
