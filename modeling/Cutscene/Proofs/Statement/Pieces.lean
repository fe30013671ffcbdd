import Cutscene.Proofs.Statement.Glyphs
import Cutscene.Statement.Visit

/-!
Where the texts nested in a statement stand.

A statement is split between its glyphs: at points, at the parenthesis that opens an argument list and
the one that closes it, at commas between arguments and at the braces of a body. So what nests in a link
stands in the statement as it is, with its literals whole, behind the parenthesis of the link, and a body
behind a brace as well (`inside_of_nested`).

The condition of an arm is cut into stretches by the signs of its glyphs, and its template shows just
these signs and its markers (`conditional_lifts`).
-/
namespace Cutscene.Shape

open Text Source

/-! ## Between glyphs -/

theorem infix_of_mem_splitOnP {α : Type} {p : α → Bool} {xs part : List α}
    (h : part ∈ xs.splitOnP p) : part <:+: xs := by
  -- the first part stands at the start, which carries an element in front of it
  suffices ∀ {first others}, xs.splitOnP p = first :: others →
      first <+: xs ∧ ∀ part ∈ others, part <:+: xs by
    obtain ⟨first, others, heq⟩ := List.exists_cons_of_ne_nil (List.splitOnP_ne_nil p xs)
    obtain ⟨hfirst, hothers⟩ := this heq
    rw [heq] at h
    rcases List.mem_cons.mp h with rfl | h
    · exact hfirst.isInfix
    · exact hothers part h
  clear h
  induction xs with
  | nil =>
    intro first others heq
    rw [List.splitOnP_nil] at heq
    cases heq
    exact ⟨List.nil_prefix, by simp⟩
  | cons x xs ih =>
    intro first others heq
    obtain ⟨next, rest, hnext⟩ := List.exists_cons_of_ne_nil (List.splitOnP_ne_nil p xs)
    obtain ⟨hbegins, hwithin⟩ := ih hnext
    rw [List.splitOnP_cons_eq_if_modifyHead, hnext] at heq
    split at heq
    · cases heq
      refine ⟨List.nil_prefix, List.forall_mem_cons.mpr ⟨?_, ?_⟩⟩
      · exact List.infix_cons hbegins.isInfix
      · exact fun part hpart => List.infix_cons (hwithin part hpart)
    · cases heq
      refine ⟨List.cons_prefix_cons.mpr ⟨rfl, hbegins⟩, ?_⟩
      exact fun part hpart => List.infix_cons (hwithin part hpart)

theorem splitOnce_some {mark : Char} {text before after : List Char}
    (h : splitOnce mark text = some (before, after)) : text = before ++ mark :: after := by
  induction text generalizing before with
  | nil => cases h
  | cons c text ih =>
    rw [splitOnce] at h
    split at h
    · next hc =>
      cases h
      rw [hc]
      rfl
    · obtain ⟨⟨front, back⟩, hfront, heq⟩ := Option.map_eq_some_iff.mp h
      cases heq
      rw [ih hfront]
      rfl

section Clean
variable {glyphs : List Glyph} (h : Clean glyphs)

include h

theorem splitOnce_render {mark : Char} (hmark : isSpelling mark = false) {before after : List Char}
    (hsplit : splitOnce mark (render glyphs) = some (before, after)) :
    ∃ a b, glyphs = a ++ .char mark :: b ∧ render a = before ∧ render b = after :=
  render_eq_append_cons h hmark (splitOnce_some hsplit)

/-- A span closes between two glyphs, and where is seen from the signs. -/
theorem close_render {d : Delimiter} (bare : d.Bare) {n : Nat}
    (hclose : d.close (render glyphs) = some n) :
    ∃ a b, glyphs = a ++ .char d.closer :: b ∧ (render glyphs).take n = render a ∧
      (render glyphs).drop (n + 1) = render b ∧
      d.close (a.map Glyph.sign ++ [d.closer]) = some a.length := by
  rw [Delimiter.close, render, closeFrom_written bare (quiets_text h)] at hclose
  obtain ⟨m, hm, rfl⟩ := Option.map_eq_some_iff.mp hclose
  have htake := take_of_close bare hm
  obtain ⟨signs, after, hsigns, rfl, hother⟩ := closeFrom_some hm
  have hglyphs : glyphs =
      glyphs.take signs.length ++ .char d.closer :: glyphs.drop (signs.length + 1) := by
    conv_lhs => rw [← List.take_append_drop (signs.length + 1) glyphs, htake]
    simp
  have hinner : (glyphs.take signs.length).map Glyph.sign = signs := by
    rw [List.map_take, hsigns, List.take_left]
  have htext : render glyphs =
      render (glyphs.take signs.length) ++ d.closer :: render (glyphs.drop (signs.length + 1)) := by
    conv_lhs => rw [hglyphs, render, List.flatMap_append, List.flatMap_cons]
    rfl
  have hlength := congrArg List.length hinner
  rw [List.length_map] at hlength
  refine ⟨_, _, hglyphs, ?_, ?_, ?_⟩
  · rw [htext, ← render, List.take_left]
  · rw [htext, ← render, List.drop_append]
    simp
  · rw [hinner, hlength]
    exact hother []

/-- Seen from its ends, a name is a quote. -/
theorem sealed_text : ∀ glyph ∈ glyphs, Condition.Sealed Glyph.sign id Glyph.text glyph := by
  intro glyph hmem
  cases glyph with
  | char c => exact Or.inl ⟨c, rfl, rfl⟩
  | name tag n =>
    have ht : IsTag tag := h _ hmem
    refine Or.inr ⟨rfl, '@', '^' :: (tag ++ ':' :: (Nat.toDigits 10 n ++ ['$'])), '@', ?_, rfl, rfl, ?_⟩
    · simp [Glyph.text, spelled_eq]
    · intro c hc
      have hspelled : c ∈ spelled tag n := by
        rw [spelled_eq]
        simp only [List.mem_cons, List.mem_append, List.not_mem_nil, or_false] at hc ⊢
        tauto
      exact isSpelling_of_mem_spelled ht hspelled

/-- **A text of glyphs is trimmed between glyphs.** -/
theorem trim_render : trim (render glyphs) = render (trimBy Glyph.sign glyphs) :=
  trim_written fun glyph hmem => (sealed_text h glyph hmem).ended (by decide) (by decide)

end Clean

/-! ## Arguments -/

theorem splitArgumentsFrom_ne_nil (depth : Int) (text : List Char) :
    splitArgumentsFrom depth text ≠ [] := by
  cases text with
  | nil => simp [splitArgumentsFrom]
  | cons c rest =>
    rw [splitArgumentsFrom]
    split
    · simp
    · simp only
      split <;> simp

/-- The depth of parentheses and brackets behind a character. -/
def deeper (depth : Int) (c : Char) : Int :=
  if c = '(' || c = '[' then depth + 1 else if c = ')' || c = ']' then depth - 1 else depth

/-- A character that is no comma outside all parentheses goes to the first argument behind it. -/
theorem splitArgumentsFrom_cons {c : Char} {depth : Int} (h : ¬(c = ',' ∧ depth = 0))
    (rest : List Char) : splitArgumentsFrom depth (c :: rest) =
      (splitArgumentsFrom (deeper depth c) rest).modifyHead (c :: ·) := by
  obtain ⟨first, others, hrest⟩ :=
    List.exists_cons_of_ne_nil (splitArgumentsFrom_ne_nil (deeper depth c) rest)
  rw [splitArgumentsFrom, if_neg (by simpa using h)]
  simp only
  rw [← deeper, hrest]
  rfl

theorem splitArgumentsFrom_word {word : List Char} (h : ∀ c ∈ word, isSpelling c = true) (depth : Int)
    (rest : List Char) : splitArgumentsFrom depth (word ++ rest) =
      (splitArgumentsFrom depth rest).modifyHead (word ++ ·) := by
  induction word with
  | nil =>
    rw [List.nil_append]
    cases splitArgumentsFrom depth rest <;> rfl
  | cons c word ih =>
    obtain ⟨hc, hword⟩ := List.forall_mem_cons.mp h
    have hne : ∀ d, isSpelling d = false → c ≠ d := by
      rintro d hd rfl
      rw [hd] at hc
      cases hc
    have hdepth : deeper depth c = depth := by
      simp [deeper, hne '(' (by decide), hne '[' (by decide), hne ')' (by decide), hne ']' (by decide)]
    rw [List.cons_append, splitArgumentsFrom_cons (fun hcomma => hne ',' (by decide) hcomma.1), hdepth,
      ih hword]
    cases splitArgumentsFrom depth rest <;> rfl

/-- **Arguments are split between glyphs.** -/
theorem splitArgumentsFrom_render {glyphs : List Glyph} (h : Clean glyphs) (depth : Int) :
    ∃ (first : List Glyph) (others : List (List Glyph)),
      splitArgumentsFrom depth (render glyphs) = render first :: others.map render ∧
      first <+: glyphs ∧ ∀ segment ∈ others, segment <:+: glyphs := by
  induction glyphs generalizing depth with
  | nil => exact ⟨[], [], rfl, List.prefix_refl _, by simp⟩
  | cons glyph glyphs ih =>
    obtain ⟨hg, hrest⟩ := clean_cons.mp h
    rw [render_cons]
    by_cases hcomma : glyph = .char ',' ∧ depth = 0
    · obtain ⟨rfl, rfl⟩ := hcomma
      obtain ⟨first, others, hsplit, hbegins, hwithin⟩ := ih hrest 0
      refine ⟨[], first :: others, ?_, List.nil_prefix, List.forall_mem_cons.mpr ⟨?_, ?_⟩⟩
      · rw [Glyph.text, List.singleton_append, splitArgumentsFrom, if_pos (by simp), hsplit]
        rfl
      · exact List.infix_cons hbegins.isInfix
      · exact fun segment hmem => List.infix_cons (hwithin segment hmem)
    · obtain ⟨next, hnext⟩ : ∃ next, ∀ rest, splitArgumentsFrom depth (glyph.text ++ rest) =
          (splitArgumentsFrom next rest).modifyHead (glyph.text ++ ·) := by
        cases glyph with
        | char c =>
          exact ⟨_, splitArgumentsFrom_cons fun heq => hcomma ⟨congrArg Glyph.char heq.1, heq.2⟩⟩
        | name tag n =>
          exact ⟨depth, splitArgumentsFrom_word (fun c hc => isSpelling_of_mem_spelled hg hc) depth⟩
      obtain ⟨first, others, hsplit, hbegins, hwithin⟩ := ih hrest next
      refine ⟨glyph :: first, others, ?_, List.cons_prefix_cons.mpr ⟨rfl, hbegins⟩,
        fun segment hmem => List.infix_cons (hwithin segment hmem)⟩
      rw [hnext, hsplit]
      rfl

theorem mem_splitArguments {glyphs : List Glyph} (h : Clean glyphs) {argument : List Char}
    (hmem : argument ∈ splitArguments (render glyphs)) :
    ∃ segment, argument = render segment ∧ segment <:+: glyphs := by
  obtain ⟨first, others, hsplit, hbegins, hwithin⟩ := splitArgumentsFrom_render h 0
  rw [splitArguments, hsplit] at hmem
  rcases List.mem_cons.mp hmem with rfl | hmem
  · exact ⟨first, rfl, hbegins.isInfix⟩
  · obtain ⟨segment, hsegment, rfl⟩ := List.mem_map.mp hmem
    exact ⟨segment, rfl, hwithin segment hsegment⟩

/-! ## The pieces of a statement -/

/-- The tag of argument lists in a statement. -/
def groupTag : List Char := "param".toList

/-- The argument lists of a statement, with the names of its literals and objects between them. -/
def groups (text : List Char) : List Part := Delimiter.parenthesis.parts (veiled text)

theorem group_notMem_veiled (text : List Char) (n : Nat) : .name groupTag n ∉ veiled text := by
  intro hmem
  rcases mem_concealed hmem with hglyph | ⟨c, hc, -⟩ | ⟨m, -, hname⟩
  · have hin := mem_parts hglyph
    rw [objectParts, glyphs_parts] at hin
    rcases mem_withNames hin with ⟨c, -, -, hchar⟩ | ⟨m, -, hname⟩
    · cases hchar
    · exact absurd (Glyph.name.inj hname).1 (by decide)
  · cases hc
  · exact absurd (Glyph.name.inj hname).1 (by decide)

section Statement
variable {text : List Char} (hcaret : '^' ∉ text)

include hcaret

/-- **The links of a statement are read off pieces of it.** -/
theorem ofChain_ok (hquote : '\'' ∉ text) {shapes : List (Except ScriptFault Shape)}
    (h : ofChain text = .ok shapes) :
    Closed text ∧ ∃ segments : List (List Glyph), (∀ segment ∈ segments, segment <:+: veiled text) ∧
      shapes = segments.map fun segment => ofPiece (tables text) (render segment) := by
  have hbones : '^' ∉ skeleton text := notMem_skeleton (by decide) hcaret
  obtain ⟨hidden₁, hhide₁, h⟩ := bind_eq_ok h
  have hliterals := closed_of_hide_string hhide₁
  obtain rfl : _ = hidden₁ := Except.ok.inj ((hide_skeleton hliterals).symm.trans hhide₁)
  have hquoted : '\'' ∉ render (withNames 0 (skeleton text)) :=
    notMem_render_withNames (by decide) (Or.inl (notMem_skeleton (by decide) hquote))
  simp only [hideQuoted_eq_self hquoted] at h
  obtain ⟨hidden₂, hhide₂, h⟩ := bind_eq_ok h
  have hobjects := closed_of_hide bare_brace (clean_withNames hbones 0) hhide₂
  have hveiled := hide_render bare_brace (clean_withNames hbones 0) hobjects objectTag []
  obtain rfl : _ = hidden₂ := Except.ok.inj (hveiled.symm.trans hhide₂)
  rw [signs_withNames] at hobjects
  obtain ⟨hidden₃, hhide₃, h⟩ := bind_eq_ok h
  have hclean := clean_veiled hcaret
  have hgroups := closed_of_hide bare_parenthesis hclean hhide₃
  obtain rfl : _ = hidden₃ := Except.ok.inj
    ((hide_render bare_parenthesis hclean hgroups groupTag []).symm.trans hhide₃)
  cases h
  refine ⟨⟨hliterals, hobjects⟩, (((concealed groupTag [] 0 (groups text)).splitOnP (· = .char '.')).map
    (List.flatMap (unfolded groupTag (hiddenIn (groups text))))), ?_, ?_⟩
  · intro segment hmem
    obtain ⟨piece, hpiece, rfl⟩ := List.mem_map.mp hmem
    have hwithin := (infix_of_mem_splitOnP hpiece).flatMap (unfolded groupTag (hiddenIn (groups text)))
    rwa [groups, unfolded_concealed .parenthesis (group_notMem_veiled text)] at hwithin
  · have hgrouped : Clean (concealed groupTag [] 0 (groups text)) := by
      apply clean_concealed (show IsTag groupTag by decide) (by simp)
      rw [groups, glyphs_parts]
      exact hclean
    show (splitOn '.' (render (concealed groupTag [] 0 (groups text)))).map _ = _
    rw [splitOn_glyphs (by decide) hgrouped, List.map_map, List.map_map]
    apply List.map_congr_left
    intro piece hpiece
    have hpieceClean : Clean piece :=
      fun glyph hglyph => hgrouped _ ((infix_of_mem_splitOnP hpiece).subset hglyph)
    exact congrArg (ofPiece (tables text))
      (restore_render_unfolded (by decide) _ hpieceClean)

/-- **A body stands behind its brace.** -/
theorem bodyText_some (hclosed : LiteralsClosed text) {rest : List Glyph} (h : rest <:+: veiled text)
    {body : List Char} (hbody : bodyText (tables text) (render rest) = .ok (some body)) :
    StandsWhole (rest.flatMap (unveiled text)) ('\x7b' :: body) := by
  let opened := unfolded objectTag (hiddenIn (objectParts text))
  have htrimmed : trimBy Glyph.sign rest <:+: rest := trimBy_isInfix Glyph.sign rest
  have hclean : ∀ {glyphs}, glyphs <:+: veiled text → Clean glyphs :=
    fun hwithin glyph hglyph => clean_veiled hcaret _ (hwithin.subset hglyph)
  have hopened : Clean ((trimBy Glyph.sign rest).flatMap opened) :=
    clean_unfolded (clean_hiddenIn (clean_objectParts hcaret)) (hclean (htrimmed.trans h))
  have hrestored : (tables text).objects.restore (trim (render rest)) =
      render ((trimBy Glyph.sign rest).flatMap opened) := by
    rw [trim_render (hclean h)]
    exact restore_render_unfolded (by decide) _ (hclean (htrimmed.trans h))
  simp only [bodyText, hrestored] at hbody
  cases hsplit : splitOnce '\x7b' (render ((trimBy Glyph.sign rest).flatMap opened)) with
  | none =>
    rw [hsplit] at hbody
    cases hbody
  | some halves =>
    obtain ⟨front, behind⟩ := halves
    rw [hsplit] at hbody
    obtain ⟨a, b, hab, -, rfl⟩ := splitOnce_render hopened (by decide) hsplit
    have hb : Clean b := (clean_cons.mp (clean_append.mp (hab ▸ hopened)).2).2
    cases hclose : Delimiter.brace.close (render b) with
    | none => simp [hclose] at hbody
    | some n =>
      simp only [hclose, Except.ok.injEq, Option.some.injEq] at hbody
      obtain ⟨inner, after, rfl, htake, -⟩ := close_render hb bare_brace hclose
      rw [htake] at hbody
      have hinner : body = inner.flatMap (literalTable text).fill := by
        rw [← hbody]
        exact Placeholders.restore_render (show IsTag literalTag by decide) (clean_append.mp hb).1
      have hwithin : .char '\x7b' :: inner <:+: (trimBy Glyph.sign rest).flatMap opened :=
        ⟨a, .char Delimiter.brace.closer :: after, by rw [hab]; simp⟩
      have hsub : (trimBy Glyph.sign rest).flatMap opened ⊆ withNames 0 (skeleton text) := by
        rw [← flatMap_opened]
        exact ((htrimmed.trans h).flatMap opened).subset
      have hwhole := standsWhole_filled hclosed hsub hwithin
      rw [List.flatMap_assoc, List.flatMap_cons, ← hinner] at hwhole
      exact (standsWhole_unveiled hclosed h htrimmed).trans hwhole

end Statement

/-- A piece is read off the text before its parenthesis, its argument list and the text behind. -/
theorem ofPiece_ok {hidden : Hidden} {segment : List Glyph} (h : Clean segment) {shape : Shape}
    (hok : ofPiece hidden (render segment) = .ok shape) :
    (∃ bare, shape = ofBare bare) ∨ ∃ name arguments rest : List Glyph,
      name ++ .char '(' :: (arguments ++ .char ')' :: rest) <:+: segment ∧
        Delimiter.parenthesis.close (arguments.map Glyph.sign ++ [')']) = some arguments.length ∧
        ofCall hidden (trim (render name)) (render arguments) (render rest) = .ok shape := by
  have htrimmed := trimBy_isInfix Glyph.sign segment
  have hclean : Clean (trimBy Glyph.sign segment) := fun glyph hmem => h _ (htrimmed.subset hmem)
  simp only [ofPiece, trim_render h] at hok
  cases hsplit : splitOnce '(' (render (trimBy Glyph.sign segment)) with
  | none =>
    simp only [hsplit, Except.ok.injEq] at hok
    exact Or.inl ⟨_, hok.symm⟩
  | some halves =>
    obtain ⟨front, behind⟩ := halves
    obtain ⟨name, b, hab, rfl, rfl⟩ := splitOnce_render hclean (by decide) hsplit
    have hb : Clean b := (clean_cons.mp (clean_append.mp (hab ▸ hclean)).2).2
    simp only [hsplit] at hok
    cases hclose : Delimiter.parenthesis.close (render b) with
    | none => simp [hclose] at hok
    | some n =>
      obtain ⟨arguments, rest, rfl, htake, hdrop, hcloses⟩ := close_render hb bare_parenthesis hclose
      simp only [hclose, htake, hdrop] at hok
      refine Or.inr ⟨name, arguments, rest, ?_, hcloses, hok⟩
      rw [hab] at htrimmed
      exact htrimmed

/-! ## Conditions -/

/-- The stretches of a condition in which literals and objects are hidden. -/
def conditionPieces (glyphs : List Glyph) : List (Condition.Stretch Glyph) :=
  Condition.stretchesFrom Glyph.sign (render glyphs).length glyphs

theorem parts_render {glyphs : List Glyph} (h : Clean glyphs) :
    Condition.parts (render glyphs) =
      (conditionPieces glyphs).map (Condition.Stretch.parted Glyph.text) := by
  rw [Condition.parts, Condition.partsFrom_eq, conditionPieces, render,
    Condition.stretchesFrom_written (sealed_text h), List.map_map]
  rfl

theorem length_le_render (glyphs : List Glyph) : glyphs.length ≤ (render glyphs).length := by
  induction glyphs with
  | nil => exact Nat.le_refl 0
  | cons glyph glyphs ih =>
    have hpos : 0 < glyph.text.length := by
      cases glyph with
      | char c => exact Nat.one_pos
      | name tag n => simp [Glyph.text, spelled_eq]
    rw [render_cons, List.length_append, List.length_cons]
    omega

theorem items_conditionPieces (glyphs : List Glyph) :
    (conditionPieces glyphs).flatMap Condition.Stretch.items = glyphs :=
  Condition.items_stretchesFrom _ glyphs

theorem infix_of_mem_conditionPieces {glyphs : List Glyph} {piece : Condition.Stretch Glyph}
    (h : piece ∈ conditionPieces glyphs) : piece.items <:+: glyphs := by
  obtain ⟨before, behind, heq⟩ := List.append_of_mem h
  have hwhole := items_conditionPieces glyphs
  rw [heq, List.flatMap_append, List.flatMap_cons] at hwhole
  exact ⟨_, _, (List.append_assoc _ _ _).trans hwhole⟩

/-- The parts of the condition that the glyphs between the parentheses of an arm stand for. -/
def lifted (text : List Char) (arguments : List Glyph) : List Condition.Part :=
  (conditionPieces (trimBy Glyph.sign arguments)).map (Condition.Stretch.parted (unveiled text))

/-- The phrases of a condition stand between the parentheses. -/
theorem phrase_standsWhole {text phrase : List Char} (hclosed : LiteralsClosed text)
    {arguments : List Glyph} (harguments : arguments <:+: veiled text)
    (h : phrase ∈ Condition.phrases (lifted text arguments)) :
    StandsWhole (arguments.flatMap (unveiled text)) phrase := by
  rw [lifted, Condition.phrases_parted] at h
  obtain ⟨items, hitems, rfl⟩ := List.mem_map.mp h
  obtain ⟨piece, hpiece, hphrase⟩ := List.mem_filterMap.mp hitems
  have hwithin := (infix_of_mem_conditionPieces hpiece).trans (trimBy_isInfix _ _)
  cases piece with
  | plain items => cases hphrase
  | phrase items =>
    cases hphrase
    exact standsWhole_unveiled hclosed harguments hwithin

section Lifted
variable {text : List Char} (hcaret : '^' ∉ text) {arguments : List Glyph}
  (h : arguments <:+: veiled text)

include hcaret h

/-- **An arm has the phrases and the template of its condition.** -/
theorem ofConditional_eq (arm : Arm) (rest : List Char) :
    ofConditional (tables text) arm (render arguments) rest =
      .conditional arm (Condition.phrases (lifted text arguments))
        (String.ofList (Condition.template (lifted text arguments))) (bodyText (tables text) rest) := by
  have hclean : ∀ {glyphs}, glyphs <:+: arguments → Clean glyphs :=
    fun hwithin glyph hglyph => clean_veiled hcaret _ (h.subset (hwithin.subset hglyph))
  have htrimmed := trimBy_isInfix Glyph.sign arguments
  have hpieces : ∀ piece ∈ conditionPieces (trimBy Glyph.sign arguments), Clean piece.items :=
    fun piece hpiece => hclean ((infix_of_mem_conditionPieces hpiece).trans htrimmed)
  have hphrases : (Condition.phrases (Condition.parts (trim (render arguments)))).map
      (tables text).restore = Condition.phrases (lifted text arguments) := by
    rw [trim_render (hclean (List.infix_refl _)), parts_render (hclean htrimmed), lifted,
      Condition.phrases_parted, Condition.phrases_parted, List.map_map]
    apply List.map_congr_left
    intro items hitems
    obtain ⟨piece, hpiece, hphrase⟩ := List.mem_filterMap.mp hitems
    have hpieceClean := hpieces piece hpiece
    cases piece with
    | plain items => cases hphrase
    | phrase items =>
      cases hphrase
      exact restore_glyphs hcaret hpieceClean
  have htemplate : (tables text).restore (Condition.template (Condition.parts (trim (render arguments)))) =
      Condition.template (lifted text arguments) := by
    rw [trim_render (hclean (List.infix_refl _)), parts_render (hclean htrimmed)]
    exact restore_template hcaret hpieces 1
  simp only [ofConditional, hphrases, htemplate]

/-- The parts of a condition stand in the statement, so they hold no caret. -/
theorem caret_lifted (hclosed : LiteralsClosed text) :
    ∀ part ∈ lifted text arguments, '^' ∉ part.text := by
  intro part hpart hmem
  obtain ⟨piece, hpiece, rfl⟩ := List.mem_map.mp hpart
  have hwithin := (((infix_of_mem_conditionPieces hpiece).trans (trimBy_isInfix _ _)).trans h).flatMap
    (unveiled text)
  rw [flatMap_unveiled hclosed] at hwithin
  rw [Condition.text_parted] at hmem
  exact hcaret (hwithin.subset hmem)

omit hcaret in
/-- **Put together, the parts are the text between the parentheses, trimmed.** -/
theorem text_lifted (hclosed : LiteralsClosed text) :
    (lifted text arguments).flatMap Condition.Part.text = trim (arguments.flatMap (unveiled text)) := by
  have htrim := trim_written fun glyph hglyph =>
    ended_unveiled (p := isBlank) hclosed (by decide) (by decide) (by decide) (h.subset hglyph)
  rw [htrim, lifted, List.flatMap_map]
  simp only [Condition.text_parted]
  rw [← List.flatMap_assoc, items_conditionPieces]

omit hcaret in
/-- **On the surface of a template no word but a connective has a parenthesis right behind it.** -/
theorem connectives_lifted (hclosed : Closed text) :
    ∀ word ∈ Condition.callWords (surface (Condition.template (lifted text arguments))),
      Condition.isConnective word = true := by
  have hpieces : ∀ piece ∈ conditionPieces (trimBy Glyph.sign arguments), piece.items ⊆ veiled text :=
    fun piece hpiece =>
      (((infix_of_mem_conditionPieces hpiece).trans (trimBy_isInfix _ _)).trans h).subset
  rw [Condition.template, lifted, (shows_template hclosed hpieces 1).surface_eq]
  exact Condition.connectives_template (length_le_render _) 1

end Lifted

/-! ## The texts nested in a statement -/

theorem name_of_ofName {word : String} {arm : Arm} (h : Arm.ofName word = some arm) :
    word = arm.name := by
  unfold Arm.ofName at h
  split at h
  · cases h; rfl
  · cases h; rfl
  · cases h; rfl
  · cases h

/-- What a link with an argument list is, by the name before it. -/
theorem ofCall_cases {hidden : Hidden} {name arguments rest : List Char} {shape : Shape}
    (h : ofCall hidden name arguments rest = .ok shape) :
    (∃ arm : Arm, name = arm.name.toList ∧ shape = ofConditional hidden arm arguments rest) ∨
    shape = .each (hidden.restore arguments) (bodyText hidden rest) ∨
    (∃ low high, splitArguments arguments = [low, high] ∧
      shape = .range (hidden.restore low) (hidden.restore high) (bodyText hidden rest)) ∨
    shape = ofMethod hidden name arguments rest := by
  rw [ofCall] at h
  split at h
  · next arm hname =>
    cases h
    refine Or.inl ⟨arm, ?_, rfl⟩
    rw [← name_of_ofName hname, String.toList_ofList]
  · split at h
    · cases h
      exact Or.inr (Or.inl rfl)
    · split at h
      · rw [ofRange] at h
        split at h
        · next low high hsplit =>
          cases h
          exact Or.inr (Or.inr (Or.inl ⟨low, high, hsplit, rfl⟩))
        · cases h
      · cases h
        exact Or.inr (Or.inr (Or.inr rfl))

/-- Where a nested text stands behind a parenthesis: a statement as it is, and a body behind its
brace. -/
def StandsIn (behind : List Char) : Nested → Prop
  | .statement inner => StandsWhole behind inner
  | .block inner => StandsWhole behind ('\x7b' :: inner)

theorem StandsIn.trans {a b : List Char} {inner : Nested} (h : StandsIn a inner)
    (hab : StandsWhole b a) : StandsIn b inner := by
  cases inner with
  | statement text => exact hab.trans h
  | block text => exact hab.trans h

theorem StandsIn.standsWhole {behind : List Char} {inner : Nested} (h : StandsIn behind inner) :
    StandsWhole behind inner.text := by
  cases inner with
  | statement text => exact h
  | block text => exact StandsWhole.tail h rfl (by decide)

section Call
variable {text : List Char} (hcaret : '^' ∉ text) (hclosed : LiteralsClosed text) {name : List Char}
  {arguments rest : List Glyph} (harguments : arguments <:+: veiled text) (hrest : rest <:+: veiled text)

include hcaret hclosed harguments hrest

omit harguments in
theorem standsIn_nestedBody {inner : Nested}
    (h : .ok inner ∈ nestedBody (bodyText (tables text) (render rest))) :
    StandsIn (rest.flatMap (unveiled text)) inner := by
  cases hbody : bodyText (tables text) (render rest) with
  | error e => simp [hbody, nestedBody] at h
  | ok body =>
    cases body with
    | none => simp [hbody, nestedBody] at h
    | some body =>
      obtain rfl : inner = .block body := by simpa [hbody, nestedBody] using h
      exact bodyText_some hcaret hclosed hrest hbody

omit hrest in
theorem restored_argument {argument : List Char} (h : argument ∈ splitArguments (render arguments)) :
    StandsWhole (arguments.flatMap (unveiled text)) ((tables text).restore argument) := by
  have hclean : ∀ {glyphs}, glyphs <:+: arguments → Clean glyphs :=
    fun hwithin glyph hglyph => clean_veiled hcaret _ (harguments.subset (hwithin.subset hglyph))
  obtain ⟨segment, rfl, hwithin⟩ := mem_splitArguments (hclean (List.infix_refl _)) h
  rw [restore_glyphs hcaret (hclean hwithin)]
  exact standsWhole_unveiled hclosed harguments hwithin

/-- What nests in a link stands in its argument list or in what follows it. -/
theorem standsIn_ofCall {shape : Shape}
    (hok : ofCall (tables text) name (render arguments) (render rest) = .ok shape) {inner : Nested}
    (h : .ok inner ∈ shape.nested) :
    StandsIn (arguments.flatMap (unveiled text)) inner ∨
      StandsIn (rest.flatMap (unveiled text)) inner := by
  have hrestored : ∀ {glyphs}, glyphs <:+: veiled text →
      StandsWhole (glyphs.flatMap (unveiled text)) ((tables text).restore (render glyphs)) := by
    intro glyphs hwithin
    rw [restore_glyphs hcaret fun glyph hglyph => clean_veiled hcaret _ (hwithin.subset hglyph)]
    exact standsWhole_unveiled hclosed hwithin (List.infix_refl _)
  rcases ofCall_cases hok with ⟨arm, -, rfl⟩ | rfl | ⟨low, high, hsplit, rfl⟩ | rfl
  · rw [ofConditional_eq hcaret harguments, nested] at h
    rcases List.mem_append.mp h with h | h
    · obtain ⟨phrase, hphrase, heq⟩ := List.mem_map.mp h
      cases heq
      exact Or.inl (phrase_standsWhole hclosed harguments hphrase)
    · exact Or.inr (standsIn_nestedBody hcaret hclosed hrest h)
  · rw [nested] at h
    rcases List.mem_cons.mp h with h | h
    · cases h
      exact Or.inl (hrestored harguments)
    · exact Or.inr (standsIn_nestedBody hcaret hclosed hrest h)
  · rw [nested] at h
    rcases List.mem_cons.mp h with h | h
    · cases h
      exact Or.inl (restored_argument hcaret hclosed harguments (by rw [hsplit]; simp))
    · rcases List.mem_cons.mp h with h | h
      · cases h
        exact Or.inl (restored_argument hcaret hclosed harguments (by rw [hsplit]; simp))
      · exact Or.inr (standsIn_nestedBody hcaret hclosed hrest h)
  · rw [ofMethod, nested] at h
    rcases List.mem_append.mp h with h | h
    · obtain ⟨param, hparam, heq⟩ := List.mem_map.mp h
      cases heq
      obtain ⟨argument, hmem, rfl⟩ := List.mem_map.mp hparam
      split at hmem
      · cases hmem
      · exact Or.inl (restored_argument hcaret hclosed harguments hmem)
    · obtain ⟨trailing, htrailing, heq⟩ := List.mem_map.mp h
      cases heq
      split at htrailing
      · cases htrailing
      · obtain rfl : trailing = _ := by simpa using htrailing
        exact Or.inr (hrestored hrest)

end Call

/-- A link with anything nested in it, read off a piece of a statement. -/
structure CallIn (text : List Char) (shape : Shape) (name arguments rest : List Glyph) : Prop where
  closed : Closed text
  stands : name ++ .char '(' :: (arguments ++ .char ')' :: rest) <:+: veiled text
  closes : Delimiter.parenthesis.close (arguments.map Glyph.sign ++ [')']) = some arguments.length
  ofCall_eq : ofCall (tables text) (trim (render name)) (render arguments) (render rest) = .ok shape

namespace CallIn
variable {text : List Char} {shape : Shape} {name arguments rest : List Glyph}
  (h : CallIn text shape name arguments rest)

include h

theorem name_isInfix : name <:+: veiled text :=
  (List.prefix_append _ _).isInfix.trans h.stands

theorem behind_isInfix : arguments ++ .char ')' :: rest <:+: veiled text :=
  ((List.suffix_cons _ _).trans (List.suffix_append _ _)).isInfix.trans h.stands

theorem arguments_isInfix : arguments <:+: veiled text :=
  (List.prefix_append _ _).isInfix.trans h.behind_isInfix

theorem rest_isInfix : rest <:+: veiled text :=
  ((List.suffix_cons _ _).trans (List.suffix_append _ _)).isInfix.trans h.behind_isInfix

/-- The link stands in the text as it is. -/
theorem text_isInfix :
    name.flatMap (unveiled text) ++ '(' :: (arguments.flatMap (unveiled text) ++
      ')' :: rest.flatMap (unveiled text)) <:+: text := by
  have hwithin := h.stands.flatMap (unveiled text)
  rw [flatMap_unveiled h.closed.literals, List.flatMap_append, List.flatMap_cons, List.flatMap_append,
    List.flatMap_cons] at hwithin
  exact hwithin

/-- What stands behind the parenthesis of the link. -/
theorem behind_standsWhole :
    StandsWhole text ('(' :: (arguments ++ .char ')' :: rest).flatMap (unveiled text)) := by
  have hin : .char '(' :: (arguments ++ .char ')' :: rest) <:+: veiled text :=
    (List.suffix_append _ _).isInfix.trans h.stands
  have hwhole := standsWhole_unveiled h.closed.literals (List.infix_refl _) hin
  rwa [flatMap_unveiled h.closed.literals, List.flatMap_cons] at hwhole

/-- The argument list closes at its parenthesis on the surface of the text. -/
theorem surface_closes :
    Delimiter.parenthesis.close (surface (arguments.flatMap (unveiled text) ++ [')'])) =
      some (surface (arguments.flatMap (unveiled text))).length := by
  have hinside : Shows (arguments.flatMap (unveiled text)) (arguments.map Glyph.sign) :=
    Shows.flatMap fun glyph hglyph => shows_unveiled h.closed (h.arguments_isInfix.subset hglyph)
  have hclose : Shows [')'] [')'] := Shows.plain (by decide) (by decide)
  rw [(hinside.append hclose).surface_eq, hinside.surface_eq, List.length_map]
  exact h.closes

end CallIn

/-- A shape with nothing nested in it: an empty piece, or a link that is no call. -/
def IsBare : Shape → Prop
  | .empty | .leaf .this | .leaf (.constant _) | .leaf (.object _) => True
  | _ => False

theorem isBare_ofBare (text : List Char) : (ofBare text).IsBare := by
  rw [ofBare]
  split
  · trivial
  · split
    · trivial
    · split <;> trivial

theorem nested_of_isBare {shape : Shape} (h : shape.IsBare) : shape.nested = [] := by
  cases shape with
  | empty => rfl
  | leaf link => rfl
  | conditional => exact h.elim
  | each => exact h.elim
  | range => exact h.elim
  | method => exact h.elim

section Fragment
variable {text : List Char} (hcaret : '^' ∉ text) (hquote : '\'' ∉ text)
  {shapes : List (Except ScriptFault Shape)} (h : ofFragment text = .ok shapes) {shape : Shape}
  (hshape : .ok shape ∈ shapes)

include hcaret hquote h hshape

/-- A shape is bare, or it was read off a piece with an argument list. -/
theorem ofFragment_call : shape.IsBare ∨
    ∃ name arguments rest, CallIn (trim text) shape name arguments rest := by
  have hsub : trim text ⊆ text := (isInfix_trim text).subset
  simp only [ofFragment] at h
  split at h
  · cases h
    cases hshape
  · split at h
    · cases h
      rw [List.mem_singleton, Except.ok.injEq] at hshape
      exact Or.inl (hshape ▸ trivial)
    · obtain ⟨hclosed, segments, hsegments, rfl⟩ :=
        ofChain_ok (fun hmem => hcaret (hsub hmem)) (fun hmem => hquote (hsub hmem)) h
      obtain ⟨segment, hsegment, hpiece⟩ := List.mem_map.mp hshape
      have hwithin := hsegments segment hsegment
      have hclean : Clean segment :=
        fun glyph hglyph => clean_veiled (fun hmem => hcaret (hsub hmem)) _ (hwithin.subset hglyph)
      rcases ofPiece_ok hclean hpiece with ⟨bare, rfl⟩ | ⟨name, arguments, rest, hstands, hcloses, hcall⟩
      · exact Or.inl (isBare_ofBare bare)
      · exact Or.inr ⟨name, arguments, rest, hclosed, hstands.trans hwithin, hcloses, hcall⟩

/-- **What nests in a statement stands in it behind a parenthesis**, and a body behind a brace as
well. -/
theorem inside_of_nested {inner : Nested} (hinner : .ok inner ∈ shape.nested) :
    ∃ behind, StandsWhole text ('(' :: behind) ∧ StandsIn behind inner := by
  have htrimCaret : '^' ∉ trim text := fun hmem => hcaret ((isInfix_trim text).subset hmem)
  rcases ofFragment_call hcaret hquote h hshape with hbare | ⟨name, arguments, rest, hcall⟩
  · rw [nested_of_isBare hbare] at hinner
    cases hinner
  · have hclosed := hcall.closed.literals
    refine ⟨_, (standsWhole_trim hclosed).trans hcall.behind_standsWhole, ?_⟩
    rcases standsIn_ofCall htrimCaret hclosed hcall.arguments_isInfix hcall.rest_isInfix
      hcall.ofCall_eq hinner with hin | hin
    · exact hin.trans (standsWhole_unveiled hclosed hcall.behind_isInfix
        (List.prefix_append _ _).isInfix)
    · exact hin.trans (standsWhole_unveiled hclosed hcall.behind_isInfix
        ((List.suffix_cons _ _).trans (List.suffix_append _ _)).isInfix)

omit hshape in
/-- A link that is no call has nothing nested in it. -/
theorem isBare_leaf {link : Link} (hleaf : .ok (.leaf link) ∈ shapes) : IsBare (.leaf link) := by
  rcases ofFragment_call hcaret hquote h hleaf with hbare | ⟨name, arguments, rest, hcall⟩
  · exact hbare
  · rcases ofCall_cases hcall.ofCall_eq with ⟨arm, -, heq⟩ | heq | ⟨low, high, -, heq⟩ | heq
    · cases heq
    · cases heq
    · cases heq
    · cases heq

end Fragment

/-! ## The condition of an arm -/

/-- Things trimmed, and what was cut off behind them. -/
theorem trimBy_suffix {α : Type} (sign : α → Char) (xs : List α) :
    ∃ gap, trimBy sign xs ++ gap <:+ xs ∧ ∀ x ∈ gap, isBlank (sign x) = true := by
  refine ⟨(xs.dropWhile fun x => isBlank (sign x)).rtakeWhile fun x => isBlank (sign x), ?_, ?_⟩
  · rw [trimBy, List.rdropWhile_append_rtakeWhile]
    exact List.dropWhile_suffix _
  · exact fun x hx => List.mem_rtakeWhile_imp (p := fun x => isBlank (sign x)) hx

theorem unveiled_chars (text word : List Char) :
    (word.map Glyph.char).flatMap (unveiled text) = word := by
  induction word with
  | nil => rfl
  | cons c word ih =>
    rw [List.map_cons, List.flatMap_cons, ih]
    rfl

/-- Glyphs that are no names are the characters of their text. -/
theorem eq_map_char {glyphs : List Glyph} (h : ∀ tag n, .name tag n ∉ glyphs) :
    glyphs = (render glyphs).map .char := by
  induction glyphs with
  | nil => rfl
  | cons glyph glyphs ih =>
    have hrest := ih fun tag n hmem => h tag n (List.mem_cons_of_mem _ hmem)
    cases glyph with
    | char c =>
      rw [render_cons, Glyph.text, List.singleton_append, List.map_cons, ← hrest]
    | name tag n => exact absurd List.mem_cons_self (h tag n)

/-- How the condition of an arm is lifted: the arm stands in the text with the condition between its
parentheses, which are a pair on the surface; the parts of the condition are the trimmed condition when
they are put together; and the arm has their phrases and their template. -/
structure Lifts (text : List Char) (arm : Arm) (phrases : List (List Char)) (template : String)
    (gap inside : List Char) (parts : List Condition.Part) : Prop where
  blanks : Blanks gap
  stands : arm.name.toList ++ gap ++ '(' :: (inside ++ [')']) <:+: text
  closes : Delimiter.parenthesis.close (surface (inside ++ [')'])) = some (surface inside).length
  text_eq : parts.flatMap Condition.Part.text = trim inside
  phrases_eq : phrases = Condition.phrases parts
  template_eq : template = String.ofList (Condition.template parts)
  caret : ∀ part ∈ parts, '^' ∉ part.text
  connectives : ∀ word ∈ Condition.callWords (surface (Condition.template parts)),
    Condition.isConnective word = true

/-- A call whose name is a word of characters stands in the text with blanks at most between the word
and the parenthesis. -/
theorem CallIn.text_isInfix_of_name {text word : List Char} {shape : Shape}
    {name arguments rest : List Glyph} (h : CallIn text shape name arguments rest) (hcaret : '^' ∉ text)
    (hword : '@' ∉ word) (hname : trim (render name) = word) :
    ∃ gap, Blanks gap ∧
      word ++ gap ++ '(' :: (arguments.flatMap (unveiled text) ++ [')']) <:+: text := by
  have hclean : Clean name :=
    fun glyph hglyph => clean_veiled hcaret _ (h.name_isInfix.subset hglyph)
  obtain ⟨gap, ⟨front, hfront⟩, hblank⟩ := trimBy_suffix Glyph.sign name
  rw [trim_render hclean] at hname
  -- neither the word nor the gap has names in it, so they are the characters of their texts
  have hletters : ∀ tag n, .name tag n ∉ trimBy Glyph.sign name := by
    intro tag n hmem
    refine hword ?_
    rw [← hname]
    exact List.mem_flatMap.mpr ⟨_, hmem, by simp [Glyph.text, spelled_eq]⟩
  have hgapChars : ∀ tag n, .name tag n ∉ gap := by
    intro tag n hmem
    have hquoteBlank : isBlank '"' = true := hblank _ hmem
    exact absurd hquoteBlank (by decide)
  have hwordText : (trimBy Glyph.sign name).flatMap (unveiled text) = word := by
    rw [eq_map_char hletters, unveiled_chars, hname]
  have hgapText : gap.flatMap (unveiled text) = render gap := by
    conv_lhs => rw [eq_map_char hgapChars, unveiled_chars]
  refine ⟨render gap, fun c hc => ?_, ?_⟩
  · apply hblank (.char c)
    rw [eq_map_char hgapChars]
    exact List.mem_map_of_mem hc
  · have hstands := h.text_isInfix
    rw [← hfront, List.flatMap_append, List.flatMap_append, hwordText, hgapText] at hstands
    refine List.IsInfix.trans ⟨front.flatMap (unveiled text), rest.flatMap (unveiled text), ?_⟩ hstands
    simp

/-- **The condition of every arm of a statement is lifted.** -/
theorem conditional_lifts {text : List Char} (hcaret : '^' ∉ text) (hquote : '\'' ∉ text)
    {shapes : List (Except ScriptFault Shape)} (h : ofFragment text = .ok shapes) {arm : Arm}
    {phrases : List (List Char)} {template : String} {body : Except ScriptFault (Option (List Char))}
    (hshape : .ok (.conditional arm phrases template body) ∈ shapes) :
    ∃ gap inside parts, Lifts text arm phrases template gap inside parts := by
  have htrim := isInfix_trim text
  have htrimCaret : '^' ∉ trim text := fun hmem => hcaret (htrim.subset hmem)
  rcases ofFragment_call hcaret hquote h hshape with hbare | ⟨name, arguments, rest, hcall⟩
  · exact hbare.elim
  rcases ofCall_cases hcall.ofCall_eq with ⟨arm', hname, heq⟩ | heq | ⟨low, high, -, heq⟩ | heq
  · rw [ofConditional_eq htrimCaret hcall.arguments_isInfix] at heq
    cases heq
    have hletters : '@' ∉ arm.name.toList := by cases arm <;> decide
    obtain ⟨gap, hblanks, hstands⟩ := hcall.text_isInfix_of_name htrimCaret hletters hname
    refine ⟨gap, arguments.flatMap (unveiled (trim text)), lifted (trim text) arguments, ?_⟩
    exact {
      blanks := hblanks
      stands := hstands.trans htrim
      closes := hcall.surface_closes
      text_eq := text_lifted hcall.arguments_isInfix hcall.closed.literals
      phrases_eq := rfl
      template_eq := rfl
      caret := caret_lifted htrimCaret hcall.arguments_isInfix hcall.closed.literals
      connectives := connectives_lifted hcall.arguments_isInfix hcall.closed }
  · cases heq
  · cases heq
  · cases heq

end Cutscene.Shape
