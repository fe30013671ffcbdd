import Cutscene.Proofs.Source.Layout
import Cutscene.Proofs.Source.Lines

/-!
Which names are left in the fragments of a source.

Every name that hiding writes is followed through the preparation of a source: the layout keeps the
names of the literals, argument lists and blocks are hidden and put back around them
(`split_restores`), and in the end the literals are put back once. A literal in single quotes is hidden
after the string literals, so it may hold the name of one, and that name is left. The fragments of a
source without carets and definitions are free of names just if there is no such literal
(`fragments_free_iff`).
-/
namespace Cutscene.Source

open Text

/-! ## Names and what they stand for -/

theorem names_unfolded_char (tag : List Char) (spans : List (List Glyph)) (c : Char) :
    names (unfolded tag spans (.char c)) = [] := rfl

/-- The names that filling in leaves depend on the names that were there. -/
theorem names_unfolded_congr (tag : List Char) (spans : List (List Glyph)) {a b : List Glyph}
    (h : names a = names b) :
    names (a.flatMap (unfolded tag spans)) = names (b.flatMap (unfolded tag spans)) := by
  rw [names_flatMap (names_unfolded_char tag spans), names_flatMap (names_unfolded_char tag spans), h]

theorem clean_unfolded {tag : List Char} {spans : List (List Glyph)}
    (hspans : ∀ span ∈ spans, Clean span) {glyphs : List Glyph} (h : Clean glyphs) :
    Clean (glyphs.flatMap (unfolded tag spans)) := by
  intro glyph hmem
  obtain ⟨x, hx, hglyph⟩ := List.mem_flatMap.mp hmem
  cases x with
  | char c =>
    rw [unfolded, List.mem_singleton] at hglyph
    exact hglyph ▸ h _ hx
  | name t n =>
    rw [unfolded] at hglyph
    split at hglyph
    · cases hspan : spans[n]? with
      | none =>
        rw [hspan, Option.getD_none, List.mem_singleton] at hglyph
        exact hglyph ▸ h _ hx
      | some span =>
        rw [hspan] at hglyph
        exact hspans span (List.mem_of_getElem? hspan) _ hglyph
    · rw [List.mem_singleton] at hglyph
      exact hglyph ▸ h _ hx

theorem clean_hiddenIn {parts : List Part} (h : Clean (parts.flatMap Part.glyphs)) :
    ∀ span ∈ hiddenIn parts, Clean span := by
  intro span hspan glyph hmem
  exact h _ (List.mem_flatMap.mpr ⟨_, mem_hiddenIn.mp hspan, hmem⟩)

/-- Hiding under a tag that no name has yet, and filling in, keeps the names. -/
theorem names_concealed {tag suffix : List Char} {parts : List Part}
    (h : ∀ n, .name tag n ∉ parts.flatMap Part.glyphs) :
    names ((concealed tag suffix 0 parts).flatMap (unfolded tag (hiddenIn parts))) =
      names (parts.flatMap Part.glyphs) := by
  have hback : (concealed tag suffix 0 parts).flatMap (unfolded tag (hiddenIn parts)) =
      parts.flatMap (Part.restored tag suffix []) :=
    concealed_unfolded suffix [] fun n hn => absurd (mem_parts hn) (h n)
  rw [hback]
  clear hback h
  induction parts with
  | nil => rfl
  | cons part parts ih =>
    rw [List.flatMap_cons, List.flatMap_cons, names_append, names_append, ih]
    cases part with
    | span glyphs => simp [Part.restored, Part.glyphs]
    | glyph single => cases single <;> simp [Part.restored, Part.glyphs, unfolded]

/-! ## Splitting -/

/-- The tag of literals. -/
def literalTag : List Char := "string".toList

/-- The tag of argument lists. -/
def paramsTag : List Char := "params".toList

/-- The tag of blocks. -/
def blockTag : List Char := "subscript".toList

theorem dropWhile_append_cons {p : Char → Bool} {x : Char} (hx : p x = false) (a b : List Char) :
    (a ++ x :: b).dropWhile p = a.dropWhile p ++ x :: b := by
  induction a with
  | nil => simp [hx]
  | cons c a ih => cases hc : p c <;> simp [hc, ih]

/-- The beginning of a name has no blanks, so trimming does not take it away. -/
theorem infix_trim_iff {text : List Char} :
    ['@', '^'] <:+: trim text ↔ ['@', '^'] <:+: text := by
  refine ⟨fun h => h.trans (isInfix_trim text), fun h => ?_⟩
  obtain ⟨a, b, rfl⟩ := h
  have hstart : trimStart (a ++ ['@', '^'] ++ b) = trimStart a ++ '@' :: '^' :: b := by
    simpa [trimStart] using dropWhile_append_cons (p := isBlank) (x := '@') (by decide) a ('^' :: b)
  have hend := dropWhile_append_cons (p := isBlank) (x := '^') (by decide) b.reverse
    ('@' :: (trimStart a).reverse)
  refine ⟨trimStart a, (b.reverse.dropWhile isBlank).reverse, ?_⟩
  rw [trim, hstart, trimEnd]
  simp [hend]

/-- A preparation that succeeds has succeeded in its first step. -/
theorem bind_eq_ok {ε α β : Type} {step : Except ε α} {next : α → Except ε β} {result : β}
    (h : (step >>= next) = .ok result) :
    ∃ mid, step = .ok mid ∧ next mid = .ok result := by
  cases step with
  | error e => cases h
  | ok mid => exact ⟨mid, rfl, h⟩

theorem names_flatMap_eq_nil {f : Glyph → List Glyph} {glyphs : List Glyph} :
    names (glyphs.flatMap f) = [] ↔ ∀ glyph ∈ glyphs, names (f glyph) = [] := by
  induction glyphs with
  | nil => simp
  | cons glyph glyphs ih => simp [ih]

/-- Hiding under a new tag gives glyphs again, whose names are those of the text once they are
filled in. -/
theorem hide_restores {d : Delimiter} (ho : isSpelling d.opener = false)
    (hc : isSpelling d.closer = false) {tag suffix : List Char} (ht : IsTag tag)
    (hs : '^' ∉ suffix) {glyphs : List Glyph} (h : Clean glyphs) (hnew : ∀ n, .name tag n ∉ glyphs)
    {hidden : List Char × Placeholders}
    (hhide : hide d { suffix := suffix } (render glyphs) ⟨tag, []⟩ = .ok hidden) :
    ∃ out spans, hidden = (render out, ⟨tag, spans.map render⟩) ∧ Clean out ∧
      (∀ span ∈ spans, Clean span) ∧ (∀ t n, .name t n ∈ out → t = tag ∨ .name t n ∈ glyphs) ∧
      names (out.flatMap (unfolded tag spans)) = names glyphs := by
  obtain ⟨parts, ⟨rfl, htext, htable⟩, -⟩ := hide_parts ho hc h hhide
  refine ⟨concealed tag suffix 0 parts, hiddenIn parts, Prod.ext htext htable,
    clean_concealed ht hs 0 h, clean_hiddenIn h, ?_, names_concealed hnew⟩
  intro t n hmem
  rcases mem_concealed hmem with hmem | ⟨c, -, hchar⟩ | ⟨m, -, hname⟩
  · exact Or.inr (mem_parts hmem)
  · cases hchar
  · exact Or.inl (by cases hname; rfl)

/-- What is put back for a glyph: the block, then the argument lists in it, then the literals. -/
def putBack (blocks params spans : List (List Glyph)) (glyph : Glyph) : List Glyph :=
  ((unfolded blockTag blocks glyph).flatMap (unfolded paramsTag params)).flatMap
    (unfolded literalTag spans)

theorem flatMap_putBack (blocks params spans : List (List Glyph)) (glyphs : List Glyph) :
    glyphs.flatMap (putBack blocks params spans) =
      ((glyphs.flatMap (unfolded blockTag blocks)).flatMap (unfolded paramsTag params)).flatMap
        (unfolded literalTag spans) := by
  unfold putBack
  simp only [List.flatMap_assoc]

section PutBack
variable {blocks params spans : List (List Glyph)} (hblocks : ∀ span ∈ blocks, Clean span)
  (hparams : ∀ span ∈ params, Clean span) (hspans : ∀ span ∈ spans, Clean span)

include hblocks hparams hspans

theorem clean_putBack {glyphs : List Glyph} (h : Clean glyphs) :
    Clean (glyphs.flatMap (putBack blocks params spans)) := by
  rw [flatMap_putBack]
  exact clean_unfolded hspans (clean_unfolded hparams (clean_unfolded hblocks h))

omit hspans in
theorem restore_putBack {glyphs : List Glyph} (h : Clean glyphs) :
    Placeholders.restore ⟨literalTag, spans.map render⟩
      (Placeholders.restore ⟨paramsTag, params.map render⟩
        (Placeholders.restore ⟨blockTag, blocks.map render⟩ (render glyphs))) =
      render (glyphs.flatMap (putBack blocks params spans)) := by
  have hfirst : Clean (glyphs.flatMap (unfolded blockTag blocks)) := clean_unfolded hblocks h
  rw [flatMap_putBack, restore_render_unfolded (by decide) _ h,
    restore_render_unfolded (by decide) _ hfirst,
    restore_render_unfolded (by decide) _ (clean_unfolded hparams hfirst)]

end PutBack

/-- Leaving the empty texts out leaves no beginning of a name out. -/
theorem forall_nonempty_iff {texts : List (List Char)} :
    (∀ text ∈ texts.filter fun text => !text.isEmpty, ¬ ['@', '^'] <:+: text) ↔
      ∀ text ∈ texts, ¬ ['@', '^'] <:+: text := by
  refine ⟨fun h text hmem hin => ?_, fun h text hmem => h text (List.mem_filter.mp hmem).1⟩
  have hne : text ≠ [] := by
    rintro rfl
    simp at hin
  exact h text (List.mem_filter.mpr ⟨hmem, by simpa using hne⟩) hin

/-- **Splitting hides and puts back.** For a text whose names are those of literals, the fragments
are free of names just if the text with its literals filled in is. -/
theorem split_restores {glyphs : List Glyph} (h : Clean glyphs)
    (htag : ∀ tag n, .name tag n ∈ glyphs → tag = literalTag) {spans : List (List Glyph)}
    (hspans : ∀ span ∈ spans, Clean span) {prepared : Prepared}
    (hsplit : split ⟨render glyphs, ⟨literalTag, spans.map render⟩⟩ = .ok prepared) :
    (∀ fragment ∈ prepared.fragments, ¬ ['@', '^'] <:+: fragment) ↔
      names (glyphs.flatMap (unfolded literalTag spans)) = [] := by
  obtain ⟨hidden₁, hhide₁, hsplit⟩ := bind_eq_ok hsplit
  obtain ⟨hidden₂, hhide₂, hsplit⟩ := bind_eq_ok hsplit
  -- argument lists are hidden first, and then the blocks around them
  obtain ⟨lists, params, rfl, hlists, hparams, htags, hnames₁⟩ := hide_restores (by decide)
    (by decide) (by decide) (by decide) h (fun n hn => absurd (htag _ n hn) (by decide)) hhide₁
  have hfree : ∀ n, .name blockTag n ∉ lists := by
    intro n hn
    rcases htags _ _ hn with heq | hmem
    · exact absurd heq (by decide)
    · exact absurd (htag _ n hmem) (by decide)
  obtain ⟨out, blocks, rfl, hout, hblocks, -, hnames₂⟩ := hide_restores (by decide) (by decide)
    (by decide) (by decide) hlists hfree hhide₂
  have hmark : isSpelling ';' = false := by decide
  obtain ⟨segments, hsegments, hflat⟩ := splitOn_render hmark hout
  have hclean : ∀ segment ∈ segments, Clean segment := by
    intro segment hsegment glyph hglyph
    have hmem : glyph ∈ segments.flatten := List.mem_flatten.mpr ⟨segment, hsegment, hglyph⟩
    rw [hflat] at hmem
    exact hout _ (List.mem_filter.mp hmem).1
  -- every name of the text is in some segment
  have hnames : names segments.flatten = names out := by
    rw [hflat, names, names, List.filter_filter]
    refine List.filter_congr fun glyph _ => ?_
    cases glyph <;> simp [Glyph.isName]
  cases hsplit
  calc (∀ fragment ∈ _, ¬ ['@', '^'] <:+: fragment)
    _ ↔ ∀ segment ∈ segments, names (segment.flatMap (putBack blocks params spans)) = [] := by
      have hfragment : ∀ segment ∈ segments,
          (['@', '^'] <:+: trim (Placeholders.restore ⟨literalTag, spans.map render⟩
            (Placeholders.restore ⟨paramsTag, params.map render⟩
              (Placeholders.restore ⟨blockTag, blocks.map render⟩ (render segment))))) ↔
          names (segment.flatMap (putBack blocks params spans)) ≠ [] := by
        intro segment hsegment
        have hs := hclean segment hsegment
        rw [infix_trim_iff, restore_putBack hblocks hparams hs,
          infix_render_iff (clean_putBack hblocks hparams hspans hs)]
      rw [forall_nonempty_iff, hsegments, List.map_map, List.forall_mem_map]
      exact forall₂_congr fun segment hsegment =>
        (not_congr (hfragment segment hsegment)).trans Decidable.not_not
    _ ↔ names (segments.flatten.flatMap (putBack blocks params spans)) = [] := by
      simp only [names_flatMap_eq_nil, List.mem_flatten]
      constructor
      · rintro hall glyph ⟨segment, hsegment, hglyph⟩
        exact hall segment hsegment glyph hglyph
      · intro hall segment hsegment glyph hglyph
        exact hall glyph ⟨segment, hsegment, hglyph⟩
    _ ↔ names (glyphs.flatMap (unfolded literalTag spans)) = [] := by
      rw [names_flatMap (fun c => rfl), hnames, ← names_flatMap (fun c => rfl), flatMap_putBack,
        names_unfolded_congr literalTag spans
          ((names_unfolded_congr paramsTag params hnames₂).trans hnames₁)]

/-! ## Laying out -/

/-- Some literal in single quotes holds a string literal: among the literals in single quotes of the
source with its string literals hidden, one has the name of a string literal in it. -/
def QuotesString (source : List Char) : Prop :=
  ∃ hidden, hide .string {} (stripComments source) (.tagged "string") = .ok hidden ∧
    ∃ span, .span span ∈ cutQuoted hidden.1 ∧ ∃ n < hidden.2.size, hidden.2.name n <:+: span

theorem span_mem_pieces {parts : List Part} {span : List Char} :
    .span span ∈ parts.flatMap Part.pieces ↔ ∃ glyphs ∈ hiddenIn parts, span = render glyphs := by
  induction parts with
  | nil => simp [hiddenIn]
  | cons part parts ih => cases part <;> simp [Part.pieces, hiddenIn, ih]

/-- The string literals of a source are hidden first: only names of theirs are in the text, no
double quote is, and no name is in a literal. -/
theorem hide_strings {text : List Char} (h : '^' ∉ text) {hidden : List Char × Placeholders}
    (hhide : hide .string {} text (.tagged "string") = .ok hidden) :
    ∃ (out : List Glyph) (literals : List (List Glyph)),
      hidden = (render out, ⟨literalTag, literals.map render⟩) ∧ Clean out ∧
      (∀ tag n, .name tag n ∈ out → tag = literalTag ∧ n < literals.length) ∧
      '"' ∉ render out ∧ ∀ literal ∈ literals, Clean literal ∧ names literal = [] := by
  rw [← render_map_char text] at hhide
  obtain ⟨parts, ⟨hglyphs, htext, htable⟩, hplain⟩ :=
    hide_parts (by decide) (by decide) (clean_map_char h) hhide
  have hclean : Clean (parts.flatMap Part.glyphs) := hglyphs ▸ clean_map_char h
  have hnone : names (parts.flatMap Part.glyphs) = [] := by rw [hglyphs, names_chars]
  have hname : ∀ tag n, .name tag n ∉ parts.flatMap Part.glyphs :=
    fun tag n hmem => names_ne_nil_iff.mpr ⟨tag, n, hmem⟩ hnone
  have hout : Clean (concealed literalTag [] 0 parts) := clean_concealed (by decide) (by decide) 0 hclean
  refine ⟨concealed literalTag [] 0 parts, hiddenIn parts, Prod.ext htext htable, hout, ?_, ?_, ?_⟩
  · intro tag n hmem
    rcases mem_concealed hmem with hmem | ⟨c, -, hchar⟩ | ⟨m, hm, hm_eq⟩
    · exact absurd (mem_parts hmem) (hname tag n)
    · cases hchar
    · cases hm_eq
      exact ⟨rfl, by simpa using hm⟩
  · intro hquote
    obtain ⟨a, b, hab⟩ := List.append_of_mem hquote
    obtain ⟨before, after, heq, -, -⟩ := render_eq_append_cons hout (by decide) hab
    have hmem : Glyph.char '"' ∈ concealed literalTag [] 0 parts := by rw [heq]; simp
    rcases mem_concealed hmem with hmem | ⟨c, hc, -⟩ | ⟨m, -, hm_eq⟩
    · exact hplain '"' hmem rfl
    · cases hc
    · cases hm_eq
  · intro literal hliteral
    refine ⟨clean_hiddenIn hclean literal hliteral, ?_⟩
    have hsub : ∀ glyph ∈ literal, glyph ∈ parts.flatMap Part.glyphs := fun glyph hg =>
      List.mem_flatMap.mpr ⟨_, mem_hiddenIn.mp hliteral, hg⟩
    refine Decidable.not_not.mp fun hne => ?_
    obtain ⟨tag, n, hmem⟩ := names_ne_nil_iff.mp hne
    exact hname tag n (hsub _ hmem)

/-- Where names are those of given literals, a text has one of them in it just if there is a name
among its glyphs. -/
theorem name_infix_iff {glyphs : List Glyph} (h : Clean glyphs) {size : Nat}
    (hname : ∀ tag n, .name tag n ∈ glyphs → tag = literalTag ∧ n < size) :
    (∃ n < size, spelled literalTag n <:+: render glyphs) ↔ names glyphs ≠ [] := by
  constructor
  · rintro ⟨n, -, hin⟩
    refine (infix_render_iff h).mp (List.IsInfix.trans ?_ hin)
    exact ⟨[], (spelled literalTag n).drop 2, by simp [spelled_eq]⟩
  · intro hne
    obtain ⟨tag, n, hmem⟩ := names_ne_nil_iff.mp hne
    obtain ⟨rfl, hn⟩ := hname tag n hmem
    obtain ⟨a, b, rfl⟩ := List.append_of_mem hmem
    exact ⟨n, hn, render a, render b, by simp [Glyph.text]⟩

/-- Hiding the literals in single quotes behind the string literals, and filling all of them in,
leaves the names inside the literals in single quotes. -/
theorem names_quoted {literals : List (List Glyph)} (hfree : ∀ literal ∈ literals, names literal = [])
    {parts : List Part} (hname : ∀ tag n, .name tag n ∈ parts.flatMap Part.glyphs →
      tag = literalTag ∧ n < literals.length) :
    names ((concealed literalTag [] literals.length parts).flatMap
        (unfolded literalTag (literals ++ hiddenIn parts))) = [] ↔
      ∀ glyphs ∈ hiddenIn parts, names glyphs = [] := by
  rw [concealed_unfolded [] literals fun n hn => (hname _ n (mem_parts hn)).2]
  induction parts with
  | nil => simp [hiddenIn]
  | cons part parts ih =>
    have hrest := ih fun tag n hmem => hname tag n (by
      rw [List.flatMap_cons]
      exact List.mem_append_right _ hmem)
    cases part with
    | span glyphs =>
      simp only [List.flatMap_cons, Part.restored, List.map_nil, List.append_nil, names_append,
        List.append_eq_nil_iff, hrest, hiddenIn, List.forall_mem_cons]
    | glyph single =>
      have hsingle : names (unfolded literalTag literals single) = [] := by
        cases single with
        | char c => rfl
        | name tag n =>
          obtain ⟨rfl, hn⟩ := hname tag n (by simp [Part.glyphs])
          have hget : literals[n]? = some literals[n] := List.getElem?_eq_getElem hn
          simp only [unfolded, if_true, hget, Option.getD_some]
          exact hfree _ (List.getElem_mem hn)
      simp only [List.flatMap_cons, Part.restored, names_append, hsingle, List.nil_append, hrest,
        hiddenIn]

/-- **Laying out a source without definitions** gives a text whose names are those of literals. Filled
in, it is free of names just if no literal in single quotes holds a string literal. -/
theorem layOut_names {source : List Char} (hcaret : '^' ∉ source)
    (hdefine : ¬ Alias.keyword <:+: source) {laid : Laid} (h : layOut source = .ok laid) :
    ∃ (glyphs : List Glyph) (spans : List (List Glyph)),
      laid = ⟨render glyphs, ⟨literalTag, spans.map render⟩⟩ ∧ Clean glyphs ∧
      (∀ tag n, .name tag n ∈ glyphs → tag = literalTag) ∧ (∀ span ∈ spans, Clean span) ∧
      (names (glyphs.flatMap (unfolded literalTag spans)) = [] ↔ ¬ QuotesString source) := by
  have hkeyword : ¬ Alias.keyword <:+: stripComments source :=
    fun hin => hdefine (infix_of_stripComments (by decide) hin)
  obtain ⟨hidden, hhide, hrest⟩ := bind_eq_ok h
  rw [strip_eq_self hkeyword] at hhide
  obtain ⟨out, literals, rfl, hout, hname, hquote, hliterals⟩ :=
    hide_strings (notMem_stripComments (by decide) hcaret) hhide
  -- there are no aliases, and no double quote is left for the second hiding
  rw [collect_eq_nil hkeyword] at hrest
  obtain ⟨hidden, hhide', hlast⟩ := bind_eq_ok hrest
  rw [Alias.substitute, List.foldl_nil, hide_eq_self hquote] at hhide'
  cases hhide'
  obtain ⟨parts, ⟨rfl, htext, htable⟩, hcut⟩ :=
    hideQuoted_parts hout ⟨literalTag, literals.map render⟩
  have hsize : Placeholders.size ⟨literalTag, literals.map render⟩ = literals.length := by
    simp [Placeholders.size]
  rw [hsize] at htext
  have hquoted : Clean (concealed literalTag [] literals.length parts) :=
    clean_concealed (by decide) (by decide) _ hout
  obtain ⟨glyphs, hclean, hlayout, hkept⟩ := keeps_layout _ hquoted
  refine ⟨glyphs, literals ++ hiddenIn parts, ?_, hclean, ?_, ?_, ?_⟩
  · rw [← Except.ok.inj hlast]
    rw [hideQuoted] at htext htable
    rw [htext, htable, List.map_append]
    exact congrArg (Laid.mk · _) hlayout
  · intro tag n hmem
    rw [← mem_names, hkept, mem_names] at hmem
    rcases mem_concealed hmem with hmem | ⟨c, -, hchar⟩ | ⟨m, -, hm_eq⟩
    · exact (hname tag n (mem_parts hmem)).1
    · cases hchar
    · cases hm_eq
      rfl
  · intro span hspan
    rcases List.mem_append.mp hspan with hspan | hspan
    · exact (hliterals span hspan).1
    · exact clean_hiddenIn hout span hspan
  · rw [names_unfolded_congr _ _ hkept, names_quoted (fun l hl => (hliterals l hl).2) hname]
    -- a literal in single quotes holds a string literal just if a name is among its glyphs
    have hholds : QuotesString source ↔ ∃ span ∈ hiddenIn parts, names span ≠ [] := by
      have hspan : ∀ span ∈ hiddenIn parts, (∃ n < literals.length,
          spelled literalTag n <:+: render span) ↔ names span ≠ [] := by
        intro span hspan
        refine name_infix_iff (clean_hiddenIn hout span hspan) fun tag n hmem => hname tag n ?_
        exact List.mem_flatMap.mpr ⟨_, mem_hiddenIn.mp hspan, hmem⟩
      constructor
      · rintro ⟨hidden, hh, text, htext, hin⟩
        obtain rfl := Except.ok.inj (hhide.symm.trans hh)
        rw [hcut, span_mem_pieces] at htext
        obtain ⟨span, hmem, rfl⟩ := htext
        rw [hsize] at hin
        exact ⟨span, hmem, (hspan span hmem).mp hin⟩
      · rintro ⟨span, hmem, hne⟩
        refine ⟨_, hhide, render span, ?_, ?_⟩
        · rw [hcut, span_mem_pieces]
          exact ⟨span, hmem, rfl⟩
        · rw [hsize]
          exact (hspan span hmem).mpr hne
    rw [hholds]
    simp

/-- **The fragments of a source are free of names just if no literal in single quotes holds a string
literal**, for sources without carets and definitions. -/
theorem fragments_free_iff {source : List Char} {pieces : List (List Char)} (hcaret : '^' ∉ source)
    (hdefine : ¬ Alias.keyword <:+: source) (h : fragments source = .ok pieces) :
    (∀ fragment ∈ pieces, ¬ ['@', '^'] <:+: fragment) ↔ ¬ QuotesString source := by
  obtain ⟨prepared, hprepared, hpieces⟩ := bind_eq_ok h
  cases hpieces
  obtain ⟨laid, hlaid, hsplit⟩ := bind_eq_ok hprepared
  obtain ⟨glyphs, spans, rfl, hclean, htag, hspans, hfree⟩ := layOut_names hcaret hdefine hlaid
  exact (split_restores hclean htag hspans hsplit).trans hfree

/-- A source with a literal of either kind: `if(x == 'a') { say("b"); }`. -/
def bothQuotes : List Char :=
  ['i', 'f', '(', 'x', ' ', '=', '=', ' ', '\'', 'a', '\'', ')', ' ', '\x7b', ' ', 's', 'a', 'y', '(',
    '"', 'b', '"', ')', ';', ' ', '\x7d']

theorem fragments_bothQuotes :
    fragments bothQuotes = .ok [bothQuotes] ∧ ¬ QuotesString bothQuotes := by
  have h : fragments bothQuotes = .ok [bothQuotes] := by cbv
  exact ⟨h, (fragments_free_iff (by decide) (by decide) h).mp (by decide)⟩

/-- A string literal inside a literal in single quotes: `'"a"'`. -/
def nestedQuotes : List Char := ['\'', '"', 'a', '"', '\'']

/-- The fragment of `'"a"'`: the name of the string literal is left. -/
def leftOver : List Char := '\'' :: spelled literalTag 0 ++ ['\'']

theorem fragments_nestedQuotes :
    '^' ∉ nestedQuotes ∧ ¬ Alias.keyword <:+: nestedQuotes ∧
      fragments nestedQuotes = .ok [leftOver] ∧ ['@', '^'] <:+: leftOver := by
  refine ⟨by decide, by decide, ?_, ?_⟩
  · cbv
  · exact ⟨['\''], (spelled literalTag 0).drop 2 ++ ['\''], by simp [leftOver, spelled_eq]⟩

end Cutscene.Source
