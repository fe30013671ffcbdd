import Cutscene.Proofs.Source.Comments
import Cutscene.Proofs.Source.Scan

/-!
Sources one below the other.

Every pass of the preparation goes over the whole source, yet sources with a line between them that
holds a semicolon are prepared as if each were alone. Where all spans of a text are closed, what follows
it is cut on its own, so the skeletons, literals and tokens of the two come one after the other
(`skeleton_append`, `tokensOf_append`), and the last statement of the first is glued to
the first statement of the second (`cuts_append`). A semicolon between them keeps the layouts apart and
ends the statement (`parts_semicolon`), and blanks around a text do not count (`parts_blanks`). So the
fragments of the joined source are those of the parts (`fragments_joined`).
-/
namespace Cutscene.Source

open Text

/-! ## Skeletons one after the other -/

theorem spansIn_append (a b : List Piece) : spansIn (a ++ b) = spansIn a ++ spansIn b := by
  induction a with
  | nil => rfl
  | cons piece a ih => cases piece <;> simp [spansIn, ih]

section Skeleton
variable {a : List Char} (h : LiteralsClosed a) (b : List Char)

include h

theorem skeleton_append : skeleton (a ++ b) = skeleton a ++ skeleton b := by
  rw [skeleton, cut_append h, List.map_append]
  rfl

theorem literals_append : literals (a ++ b) = literals a ++ literals b := by
  rw [literals, cut_append h, spansIn_append]
  rfl

theorem literalsClosed_append : LiteralsClosed (a ++ b) ↔ LiteralsClosed b := by
  rw [LiteralsClosed, cut_append h, unclosedText_append h]
  rfl

end Skeleton

section Plain
variable {word : List Char} (h : '"' ∉ word)

include h

theorem literalsClosed_plain : LiteralsClosed word := closed_plain (d := .string) h

theorem skeleton_plain : skeleton word = word := by
  rw [skeleton, cut_plain (d := .string) h, List.map_map]
  exact List.map_id word

theorem literals_plain : literals word = [] := by
  rw [literals, cut_plain (d := .string) h]
  clear h
  induction word with
  | nil => rfl
  | cons c word ih => exact ih

end Plain

theorem balanced_append {a b : List Char} (ha : Balanced a) (hb : Balanced b) : Balanced (a ++ b) where
  groups := by
    rw [cut_append ha.groups, unclosedText_append ha.groups]
    exact hb.groups
  blocks := by
    rw [cut_append ha.groups, List.map_append, cut_append ha.blocks, unclosedText_append ha.blocks]
    exact hb.blocks

theorem balanced_plain {word : List Char} (hgroup : '(' ∉ word) (hblock : '\x7b' ∉ word) :
    Balanced word where
  groups := closed_plain (d := .parenthesis) hgroup
  blocks := by
    rw [cut_plain (d := .parenthesis) hgroup, List.map_map]
    have hself : word.map (Piece.sign ∘ Piece.plain) = word := List.map_id word
    rw [hself]
    exact closed_plain (d := .brace) hblock

/-! ## Tokens one after the other -/

theorem tokens_map {f : Glyph → Glyph} (h : ∀ glyph, (f glyph).sign = glyph.sign)
    (write : Glyph → List Char) (glyphs : List Glyph) :
    tokens write (glyphs.map f) = tokens (fun glyph => write (f glyph)) glyphs := by
  rw [tokens, Delimiter.parts, partsFrom_map h, List.map_map, tokens]
  apply List.map_congr_left
  intro part _
  cases part with
  | glyph single => simp [tokenOf, Part.mapped, Part.sign, Part.glyphs, h]
  | span glyphs => simp [tokenOf, Part.mapped, Part.sign, Part.glyphs, List.flatMap_map]

theorem tokens_congr {write write' : Glyph → List Char} {glyphs : List Glyph}
    (h : ∀ glyph ∈ glyphs, write glyph = write' glyph) : tokens write glyphs = tokens write' glyphs := by
  apply List.map_congr_left
  intro part hpart
  have hglyphs : part.glyphs.flatMap write = part.glyphs.flatMap write' := by
    apply List.flatMap_congr
    intro glyph hglyph
    apply h
    rw [← glyphs_parts .parenthesis glyphs]
    exact List.mem_flatMap.mpr ⟨part, hpart, hglyph⟩
  rw [tokenOf, tokenOf, hglyphs]

/-- A name with a number that is larger by so much. -/
def shifted (offset : Nat) : Glyph → Glyph
  | .char c => .char c
  | .name tag n => .name tag (offset + n)

theorem withNames_shifted (offset index : Nat) (bones : List Char) :
    withNames (offset + index) bones = (withNames index bones).map (shifted offset) := by
  induction bones generalizing index with
  | nil => rfl
  | cons c rest ih =>
    by_cases hc : c = '"'
    · rw [hc, withNames_sign, withNames_sign, Nat.add_assoc, ih]
      rfl
    · rw [withNames_cons hc, withNames_cons hc, ih]
      rfl

theorem withNames_concat (index : Nat) (a b : List Char) :
    withNames index (a ++ b) = withNames index a ++ withNames (index + a.count '"') b := by
  induction a generalizing index with
  | nil => rfl
  | cons c a ih =>
    by_cases hc : c = '"'
    · rw [hc, List.cons_append, withNames_sign, withNames_sign, ih, List.count_cons_self, Nat.add_assoc,
        Nat.add_comm 1]
      rfl
    · rw [List.cons_append, withNames_cons hc, withNames_cons hc, ih, List.count_cons_of_ne hc]
      rfl

section Tokens
variable {a b : List Char} {texts more : List (List Char)}

/-- **The tokens of skeletons come one after the other**, where the groups of the first are closed and
there is a literal for each sign. -/
theorem tokensOf_append (hgroups : unclosedText (Delimiter.parenthesis.cut a) = none)
    (hcount : a.count '"' = texts.length) (hmore : b.count '"' = more.length) :
    tokensOf (a ++ b) (texts ++ more) = tokensOf a texts ++ tokensOf b more := by
  have hfirst : tokens (Placeholders.fill ⟨literalTag, texts ++ more⟩) (withNames 0 a) =
      tokensOf a texts := by
    apply tokens_congr
    intro glyph hmem
    rcases mem_withNames hmem with ⟨c, -, -, rfl⟩ | ⟨n, hn, rfl⟩
    · rfl
    · rw [Nat.zero_add, hcount] at hn
      simp [Placeholders.fill, List.getElem?_append_left hn]
  have hsecond : tokens (Placeholders.fill ⟨literalTag, texts ++ more⟩) (withNames texts.length b) =
      tokensOf b more := by
    have hsign : ∀ glyph, (shifted texts.length glyph).sign = glyph.sign := by
      intro glyph
      cases glyph <;> rfl
    have hshift := withNames_shifted texts.length 0 b
    rw [Nat.add_zero] at hshift
    rw [hshift, tokens_map hsign]
    apply tokens_congr
    intro glyph hmem
    rcases mem_withNames hmem with ⟨c, -, -, rfl⟩ | ⟨n, hn, rfl⟩
    · rfl
    · rw [Nat.zero_add, hmore] at hn
      simp [shifted, Placeholders.fill, hn]
  rw [tokensOf, withNames_concat, hcount, Nat.zero_add, tokens, Delimiter.parts,
    partsFrom_append (Nat.zero_le _) (closed_groups hgroups), List.map_append]
  exact congrArg₂ (· ++ ·) hfirst hsecond

theorem signs_tokensOf (hgroups : unclosedText (Delimiter.parenthesis.cut a) = none) :
    (tokensOf a texts).map Token.sign = (Delimiter.parenthesis.cut a).map Piece.sign := by
  rw [← signs_groupsOf hgroups, tokensOf, tokens, List.map_map]
  rfl

/-- A text without literals and groups has its characters for tokens. -/
theorem tokensOf_plain {word : List Char} (hquote : '"' ∉ word) (hgroup : '(' ∉ word) :
    tokensOf word [] = word.map fun c => ⟨c, [c]⟩ := by
  have hnames := withNames_append hquote 0 []
  rw [List.append_nil] at hnames
  have hparts : ∀ skip, skip = 0 → Delimiter.parenthesis.partsFrom skip (word.map .char) =
      word.map fun c => .glyph (.char c) := by
    rintro skip rfl
    clear hnames hquote
    induction word with
    | nil => rfl
    | cons c word ih =>
      have hc : c ≠ '(' := fun heq => hgroup (by simp [heq])
      have hlook : Delimiter.parenthesis.look (Glyph.char c).sign ((word.map Glyph.char).map Glyph.sign) =
          .plain := look_eq_plain.mpr hc
      rw [List.map_cons, Delimiter.partsFrom, hlook]
      simp only
      rw [ih fun hmem => hgroup (by simp [hmem])]
      rfl
  rw [tokensOf, tokens, hnames, withNames, List.append_nil, Delimiter.parts, hparts 0 rfl, List.map_map]
  rfl

end Tokens

/-! ## Statements one after the other -/

/-- Two lists of texts, the last of the first glued to the first of the second. -/
def glue {α : Type} : List (List α) → List (List α) → List (List α)
  | [], more => more
  | [last], more => more.modifyHead (last ++ ·)
  | part :: next :: parts, more => part :: glue (next :: parts) more

section Glue
variable {α : Type}

theorem glue_cons {parts : List (List α)} (h : parts ≠ []) (part : List α) (more : List (List α)) :
    glue (part :: parts) more = part :: glue parts more := by
  obtain ⟨next, others, rfl⟩ := List.exists_cons_of_ne_nil h
  rfl

theorem glue_modifyHead {parts : List (List α)} (h : parts ≠ []) (x : α) (more : List (List α)) :
    glue (parts.modifyHead (x :: ·)) more = (glue parts more).modifyHead (x :: ·) := by
  obtain ⟨part, others, rfl⟩ := List.exists_cons_of_ne_nil h
  cases others with
  | cons next others => rfl
  | nil => cases more <;> rfl

theorem glue_nil_cons (parts more : List (List α)) (h : parts ≠ []) :
    glue parts ([] :: more) = parts ++ more := by
  induction parts with
  | nil => exact absurd rfl h
  | cons part parts ih =>
    cases parts with
    | nil => simp [glue]
    | cons next parts =>
      rw [glue_cons (by simp), ih (by simp)]
      rfl

theorem map_glue {β : Type} (f : α → List β) (parts more : List (List α)) :
    (glue parts more).map (List.flatMap f) =
      glue (parts.map (List.flatMap f)) (more.map (List.flatMap f)) := by
  induction parts with
  | nil => rfl
  | cons part parts ih =>
    cases parts with
    | nil => cases more <;> simp [glue]
    | cons next parts =>
      rw [glue_cons (by simp), List.map_cons, ih]
      rfl

variable {sign : α → Char}

/-- Outside blocks it does not matter what stands before. -/
theorem statements_outside (p q : Char) (tokens : List α) :
    statements sign 0 p tokens = statements sign 0 q tokens := by
  cases tokens with
  | nil => rfl
  | cons token rest =>
    have hdepth : depthBehind 0 p (sign token) = depthBehind 0 q (sign token) := by
      simp [depthBehind]
    rw [statements, statements, hdepth]
    rfl

/-- **Statements come one after the other**, where the blocks of the first tokens are closed: the last
statement of the first goes on with the first of the second. -/
theorem statements_append {skip : Nat} {a : List α}
    (h : unclosedText (cutFrom Delimiter.brace.look skip (a.map sign)) = none) (p q : Char)
    (b : List α) (hskip : skip ≤ a.length) :
    statements sign 0 p (a.drop skip ++ b) =
      glue (statements sign 0 p (a.drop skip)) (statements sign 0 q b) := by
  induction a generalizing skip p with
  | nil =>
    rw [List.drop_nil, List.nil_append, statements_outside p q]
    cases statements sign 0 q b with
    | nil => rfl
    | cons first others => rfl
  | cons token a ih =>
    cases skip with
    | succ skip => exact ih h p (by simpa using hskip)
    | zero =>
      rw [List.map_cons, cutFrom] at h
      rw [List.drop_zero, List.cons_append]
      have hlook : Delimiter.brace.look (sign token) (a.map sign) ≠ .unclosed := by
        intro hlook
        simp [hlook, unclosedText] at h
      cases hsight : Delimiter.brace.look (sign token) (a.map sign) with
      | unclosed => exact absurd hsight hlook
      | plain =>
        simp only [hsight, unclosedText] at h
        have hnext := fun p => ih h p (Nat.zero_le _)
        simp only [List.drop_zero] at hnext
        have hopen : sign token ≠ '\x7b' := look_eq_plain.mp hsight
        by_cases hmark : sign token = ';'
        · rw [statements_mark hmark, statements_mark hmark, hnext, glue_cons (statements_ne_nil 0 _ a)]
        · rw [statements_plain hmark hopen, statements_plain hmark hopen, hnext,
            glue_modifyHead (statements_ne_nil 0 _ a)]
      | span more =>
        obtain ⟨hopen, n, hclose, rfl⟩ := close_of_look hsight
        obtain ⟨hsame, hmore⟩ := look_append hlook (b.map sign)
        have hle : n + 1 ≤ a.length := by simpa using hmore (n + 1) hsight
        simp only [hsight, unclosedText] at h
        have hwhole : Delimiter.brace.close ((a ++ b).map sign) = some n := by
          rw [List.map_append]
          rw [hsight] at hsame
          obtain ⟨-, m, hm, heq⟩ := close_of_look hsame
          obtain rfl : n = m := by omega
          exact hm
        rw [statements_block hopen hclose, statements_block hopen hwhole,
          List.take_append_of_le_length hle, List.drop_append_of_le_length hle, ih h '\x7d' hle,
          glue_cons (statements_ne_nil 0 _ _)]

end Glue

/-- **The parts of skeletons come one after the other**, the last of the first glued to the first of
the second. -/
theorem cuts_append {a b : List Char} {texts more : List (List Char)} (ha : Balanced a)
    (hcount : a.count '"' = texts.length) (hmore : b.count '"' = more.length) :
    cuts 0 '\x00' (tokensOf (a ++ b) (texts ++ more)) =
      glue (cuts 0 '\x00' (tokensOf a texts)) (cuts 0 '\x00' (tokensOf b more)) := by
  have hclosed : unclosedText (cutFrom Delimiter.brace.look 0 ((tokensOf a texts).map Token.sign)) =
      none := by
    rw [signs_tokensOf ha.groups]
    exact ha.blocks
  have hstatements := statements_append hclosed '\x00' '\x00' (tokensOf b more) (Nat.zero_le _)
  rw [List.drop_zero] at hstatements
  rw [tokensOf_append ha.groups hcount hmore, cuts, hstatements, map_glue]
  rfl

/-! ## Texts one after the other -/

/-- A text without comments and carets that has fragments: its literals are closed and its skeleton is
balanced. -/
structure Ready (text : List Char) : Prop where
  caret : '^' ∉ text
  closed : LiteralsClosed text
  balanced : Balanced (layout (skeleton text))

/-- The parts of such a text. -/
def parts (text : List Char) : List (List Char) :=
  cuts 0 '\x00' (tokensOf (layout (skeleton text)) (literals text))

theorem Ready.count {text : List Char} (h : Ready text) :
    (layout (skeleton text)).count '"' = (literals text).length := by
  rw [count_layout (notMem_skeleton (by decide) h.caret), count_skeleton h.closed]

theorem ready_of_fragments {source : List Char} (h : IsPlain source) {pieces : List (List Char)}
    (hok : fragments source = .ok pieces) :
    Ready (stripComments source) ∧ pieces = trimmed (parts (stripComments source)) := by
  obtain ⟨hclosed, hbalanced⟩ := balanced_of_fragments h hok
  refine ⟨⟨notMem_stripComments (by decide) h.1, hclosed, hbalanced⟩, ?_⟩
  exact Except.ok.inj (hok.symm.trans (fragments_eq h hclosed hbalanced))

theorem parts_ne_nil (text : List Char) : parts text ≠ [] := by
  intro hnil
  exact statements_ne_nil 0 '\x00' _ (List.map_eq_nil_iff.mp hnil)

theorem trimmed_append (a b : List (List Char)) : trimmed (a ++ b) = trimmed a ++ trimmed b := by
  rw [trimmed, List.map_append, List.filter_append]
  rfl

/-- **A semicolon ends a statement and keeps the texts on its sides apart.** -/
theorem parts_semicolon {a b : List Char} (ha : Ready a) (hb : Ready b) :
    Ready (a ++ ';' :: b) ∧ trimmed (parts (a ++ ';' :: b)) = trimmed (parts a) ++ trimmed (parts b) := by
  have hmark : '"' ∉ [';'] := by decide
  have hsplit : a ++ ';' :: b = a ++ ([';'] ++ b) := rfl
  have hskeleton : skeleton (a ++ ';' :: b) = skeleton a ++ ';' :: skeleton b := by
    rw [hsplit, skeleton_append ha.closed, skeleton_append (literalsClosed_plain hmark),
      skeleton_plain hmark]
    rfl
  have hliterals : literals (a ++ ';' :: b) = literals a ++ ([] ++ literals b) := by
    rw [hsplit, literals_append ha.closed, literals_append (literalsClosed_plain hmark),
      literals_plain hmark]
  have hlayout : layout (skeleton (a ++ ';' :: b)) =
      layout (skeleton a) ++ ([';'] ++ layout (skeleton b)) := by
    rw [hskeleton, layout_semicolon]
    rfl
  have hone : Balanced [';'] := balanced_plain (by decide) (by decide)
  refine ⟨⟨?_, ?_, ?_⟩, ?_⟩
  · simp [ha.caret, hb.caret]
  · rw [hsplit, literalsClosed_append ha.closed, literalsClosed_append (literalsClosed_plain hmark)]
    exact hb.closed
  · rw [hlayout]
    exact balanced_append ha.balanced (balanced_append hone hb.balanced)
  · have hrest : cuts 0 '\x00' (tokensOf ([';'] ++ layout (skeleton b)) ([] ++ literals b)) =
        [] :: parts b := by
      have hsingle : cuts 0 '\x00' (tokensOf [';'] []) = [[], []] := rfl
      rw [cuts_append hone rfl hb.count, hsingle, glue_cons (by simp)]
      obtain ⟨first, others, heq⟩ := List.exists_cons_of_ne_nil (parts_ne_nil b)
      show [] :: (parts b).modifyHead ([] ++ ·) = [] :: parts b
      rw [heq]
      rfl
    have hcount : ([';'] ++ layout (skeleton b)).count '"' = ([] ++ literals b).length := by
      rw [List.singleton_append, List.count_cons_of_ne (by decide), hb.count]
      rfl
    rw [parts, hlayout, hliterals, cuts_append ha.balanced ha.count hcount, hrest]
    show trimmed (glue (parts a) ([] :: parts b)) = _
    rw [glue_nil_cons _ _ (parts_ne_nil a), trimmed_append]

/-! ## Blanks around a text -/

theorem trim_before {word : List Char} (h : Blanks word) (text : List Char) :
    trim (word ++ text) = trim text := by
  rw [trim, trimStart, List.dropWhile_append_of_pos h]
  rfl

theorem trimEnd_behind {word : List Char} (h : Blanks word) (text : List Char) :
    trimEnd (text ++ word) = trimEnd text := by
  rw [trimEnd, List.reverse_append, List.dropWhile_append_of_pos fun c hc => h c (by simpa using hc)]
  rfl

theorem trim_behind {word : List Char} (h : Blanks word) (text : List Char) :
    trim (text ++ word) = trim text := by
  by_cases hblank : Blanks text
  · have hall : Blanks (text ++ word) := by
      intro c hc
      rcases List.mem_append.mp hc with hc | hc
      · exact hblank c hc
      · exact h c hc
    have htext := trim_before hall []
    have htext' := trim_before hblank []
    rw [List.append_nil] at htext htext'
    rw [htext, htext']
  · have hne : text.dropWhile isBlank ≠ [] := fun hnil =>
      hblank (List.dropWhile_eq_nil_iff.mp hnil)
    have hstart : trimStart (text ++ word) = trimStart text ++ word := by
      rw [trimStart, List.dropWhile_append]
      simp [hne, trimStart]
    rw [trim, hstart, trimEnd_behind h]
    rfl

theorem trimmed_glue_before {word : List Char} (h : Blanks word) (parts : List (List Char)) :
    trimmed (glue [word] parts) = trimmed parts := by
  cases parts with
  | nil => rfl
  | cons part parts =>
    show trimmed ((word ++ part) :: parts) = trimmed (part :: parts)
    rw [trimmed, List.map_cons, trim_before h]
    rfl

theorem trimmed_glue_behind {word : List Char} (h : Blanks word) {parts : List (List Char)}
    (hne : parts ≠ []) : trimmed (glue parts [word]) = trimmed parts := by
  induction parts with
  | nil => exact absurd rfl hne
  | cons part parts ih =>
    cases parts with
    | nil =>
      show trimmed [part ++ word] = trimmed [part]
      rw [trimmed, List.map_cons, trim_behind h]
      rfl
    | cons next parts =>
      have hrest := ih (by simp)
      rw [glue_cons (by simp)]
      show trimmed ([part] ++ glue (next :: parts) [word]) = trimmed ([part] ++ (next :: parts))
      rw [trimmed_append, trimmed_append, hrest]

theorem cuts_blanks {word : List Char} (h : Blanks word) :
    cuts 0 '\x00' (tokensOf word []) = [word] := by
  have hquote : '"' ∉ word := notMem_blanks h (by decide)
  have hgroup : '(' ∉ word := notMem_blanks h (by decide)
  rw [tokensOf_plain hquote hgroup]
  suffices ∀ previous, cuts 0 previous (word.map fun c => ⟨c, [c]⟩) = [word] from this _
  clear hquote hgroup
  induction word with
  | nil => exact fun _ => rfl
  | cons c word ih =>
    intro previous
    have hne : ∀ x, isBlank x = false → c ≠ x := by
      rintro x hx rfl
      rw [h c List.mem_cons_self] at hx
      cases hx
    have hrest := ih (fun d hd => h d (List.mem_cons_of_mem c hd)) c
    rw [List.map_cons, cuts_ordinary (hne ';' (by decide)) (hne '\x7b' (by decide))
      (hne '\x7d' (by decide)), hrest]
    rfl

/-- **Blanks around a text do not count.** -/
theorem parts_blanks {before text behind : List Char} (hbefore : Blanks before) (hbehind : Blanks behind)
    (h : Ready text) :
    Ready (before ++ (text ++ behind)) ∧
      trimmed (parts (before ++ (text ++ behind))) = trimmed (parts text) := by
  have hquote : ∀ {word}, Blanks word → '"' ∉ word := fun hword => notMem_blanks hword (by decide)
  have hbalanced : ∀ {word}, Blanks word → Balanced word := fun hword =>
    balanced_plain (notMem_blanks hword (by decide)) (notMem_blanks hword (by decide))
  have hskeleton : skeleton (before ++ (text ++ behind)) = before ++ (skeleton text ++ behind) := by
    rw [skeleton_append (literalsClosed_plain (hquote hbefore)), skeleton_append h.closed,
      skeleton_plain (hquote hbefore), skeleton_plain (hquote hbehind)]
  have hliterals : literals (before ++ (text ++ behind)) = [] ++ (literals text ++ []) := by
    rw [literals_append (literalsClosed_plain (hquote hbefore)), literals_append h.closed,
      literals_plain (hquote hbefore), literals_plain (hquote hbehind)]
  obtain ⟨first, last, hfirst, hlast, hlayout⟩ :=
    keepsBlanks_layout before (skeleton text) behind hbefore hbehind
  rw [← hskeleton] at hlayout
  have hlastCount : last.count '"' = ([] : List (List Char)).length :=
    List.count_eq_zero.mpr (hquote hlast)
  have hfirstCount : first.count '"' = ([] : List (List Char)).length :=
    List.count_eq_zero.mpr (hquote hfirst)
  have hmiddle : (layout (skeleton text) ++ last).count '"' = (literals text ++ []).length := by
    rw [List.count_append, List.length_append, h.count, hlastCount]
  refine ⟨⟨?_, ?_, ?_⟩, ?_⟩
  · simp [h.caret, notMem_blanks hbefore (show isBlank '^' = false by decide),
      notMem_blanks hbehind (show isBlank '^' = false by decide)]
  · rw [literalsClosed_append (literalsClosed_plain (hquote hbefore)), literalsClosed_append h.closed]
    exact literalsClosed_plain (hquote hbehind)
  · rw [hlayout]
    exact balanced_append (hbalanced hfirst) (balanced_append h.balanced (hbalanced hlast))
  · rw [parts, hlayout, hliterals, cuts_append (hbalanced hfirst) hfirstCount hmiddle,
      cuts_append h.balanced h.count hlastCount, cuts_blanks hfirst, cuts_blanks hlast,
      trimmed_glue_before hfirst]
    exact trimmed_glue_behind hlast (parts_ne_nil text)

/-! ## Sources one below the other -/

/-- Two sources with a line between them that holds a semicolon. -/
def joined (a b : List Char) : List Char := a ++ '\n' :: ';' :: '\n' :: b

theorem exists_trimStart (text : List Char) :
    ∃ behind, Blanks behind ∧ trimStart text = trim text ++ behind := by
  refine ⟨((trimStart text).reverse.takeWhile isBlank).reverse, ?_, ?_⟩
  · exact fun c hc => blanks_takeWhile _ c (List.mem_reverse.mp hc)
  · rw [trim, trimEnd, ← List.reverse_append, List.takeWhile_append_dropWhile, List.reverse_reverse]

theorem exists_blanks_trim (text : List Char) :
    ∃ before behind, Blanks before ∧ Blanks behind ∧ text = before ++ (trim text ++ behind) := by
  obtain ⟨behind, hbehind, hend⟩ := exists_trimStart text
  refine ⟨text.takeWhile isBlank, behind, blanks_takeWhile text, hbehind, ?_⟩
  rw [← hend]
  exact List.takeWhile_append_dropWhile.symm

theorem trim_trim (text : List Char) : trim (trim text) = trim text := by
  obtain ⟨before, behind, hbefore, hbehind, heq⟩ := exists_blanks_trim text
  conv_rhs => rw [heq, trim_before hbefore, trim_behind hbehind]

theorem trimEnd_apart {x : Char} (hx : isBlank x = false) (a b : List Char) :
    trimEnd (a ++ x :: b) = a ++ x :: trimEnd b := by
  have hreverse : (a ++ x :: b).reverse = b.reverse ++ x :: a.reverse := by simp
  rw [trimEnd, hreverse, dropWhile_append_cons hx]
  simp [trimEnd]

/-- Blanks at the end are cut off behind the others. -/
theorem exists_trimEnd (text : List Char) :
    ∃ before, Blanks before ∧ trimEnd text = before ++ trim text := by
  have hall := blanks_takeWhile text
  have hsplit : text = text.takeWhile isBlank ++ trimStart text := List.takeWhile_append_dropWhile.symm
  cases hstart : trimStart text with
  | nil =>
    rw [hstart, List.append_nil] at hsplit
    have hblank : Blanks text := by rwa [← hsplit] at hall
    refine ⟨trimEnd text, fun c hc => ?_, ?_⟩
    · rw [trimEnd, List.mem_reverse] at hc
      exact hblank c (List.mem_reverse.mp ((List.dropWhile_suffix isBlank).subset hc))
    · rw [trim, hstart]
      exact (List.append_nil _).symm
  | cons y rest =>
    have hy : isBlank y = false := by
      have hhead := List.head?_dropWhile_not isBlank text
      rw [← trimStart, hstart] at hhead
      simpa using hhead
    have htrim : trim text = y :: trimEnd rest := by
      rw [trim, hstart]
      exact trimEnd_apart hy [] rest
    refine ⟨text.takeWhile isBlank, hall, ?_⟩
    rw [hstart] at hsplit
    calc trimEnd text = trimEnd (text.takeWhile isBlank ++ y :: rest) := by rw [← hsplit]
      _ = text.takeWhile isBlank ++ trim text := by rw [trimEnd_apart hy, htrim]

/-- Trimming goes on both sides up to a character that is no blank, and leaves blanks there. -/
theorem trim_around {x : Char} (hx : isBlank x = false) (a b : List Char) :
    ∃ behind before, Blanks behind ∧ Blanks before ∧
      trim (a ++ x :: b) = (trim a ++ behind) ++ x :: (before ++ trim b) := by
  obtain ⟨behind, hbehind, hstart⟩ := exists_trimStart a
  obtain ⟨before, hbefore, hend⟩ := exists_trimEnd b
  refine ⟨behind, before, hbehind, hbefore, ?_⟩
  have hapart : trimStart (a ++ x :: b) = trimStart a ++ x :: b := dropWhile_append_cons hx a b
  rw [trim, hapart, trimEnd_apart hx, hstart, hend]

theorem isPlain_joined {a b : List Char} (ha : IsPlain a) (hb : IsPlain b) : IsPlain (joined a b) := by
  obtain ⟨ha₁, ha₂, ha₃⟩ := ha
  obtain ⟨hb₁, hb₂, hb₃⟩ := hb
  refine ⟨?_, ?_, ?_⟩
  · simp [joined, ha₁, hb₁]
  · simp [joined, ha₂, hb₂]
  · simp [joined, ha₃, hb₃]

/-- A source that has fragments is read past its end in code: what follows it on a line of its own is
neither in a comment nor in a literal. -/
theorem stripComments_joined {a : List Char} (h : Ready (stripComments a)) (b : List Char) :
    ∃ behind before, Blanks behind ∧ Blanks before ∧
      stripComments (joined a b) =
        (stripComments a ++ behind) ++ ';' :: (before ++ stripComments b) := by
  have hline : Blanks ['\n'] := by
    intro c hc
    obtain rfl := List.mem_singleton.mp hc
    decide
  have hclosed : LiteralsClosed (dropComments .code a) := by
    obtain ⟨before, behind, hbefore, hbehind, heq⟩ := exists_blanks_trim (dropComments .code a)
    rw [heq]
    exact (parts_blanks hbefore hbehind h).1.closed
  have hrest : dropComments .code (';' :: '\n' :: b) = ';' :: '\n' :: dropComments .code b := by
    simp [dropComments]
  have hdropped : dropComments .code (joined a b) =
      (dropComments .code a ++ ['\n']) ++ ';' :: (['\n'] ++ dropComments .code b) := by
    rw [joined, dropComments_line hclosed, hrest]
    simp
  obtain ⟨behind, before, hbehind, hbefore, htrim⟩ := trim_around (x := ';') (by decide)
    (dropComments .code a ++ ['\n']) (['\n'] ++ dropComments .code b)
  refine ⟨behind, before, hbehind, hbefore, ?_⟩
  rw [stripComments, hdropped, htrim, trim_behind hline, trim_before hline]
  rfl

/-- **Sources are prepared one after the other**, with a semicolon on a line between them. -/
theorem fragments_joined {a b : List Char} (ha : IsPlain a) (hb : IsPlain b)
    {first second : List (List Char)} (hfirst : fragments a = .ok first)
    (hsecond : fragments b = .ok second) : fragments (joined a b) = .ok (first ++ second) := by
  obtain ⟨hra, hpa⟩ := ready_of_fragments ha hfirst
  obtain ⟨hrb, hpb⟩ := ready_of_fragments hb hsecond
  have hnone : Blanks [] := by simp [Blanks]
  obtain ⟨behind, before, hbehind, hbefore, hstrip⟩ := stripComments_joined hra b
  obtain ⟨hra', hpa'⟩ := parts_blanks hnone hbehind hra
  obtain ⟨hrb', hpb'⟩ := parts_blanks hbefore hnone hrb
  rw [List.nil_append] at hra' hpa'
  rw [List.append_nil] at hrb' hpb'
  obtain ⟨hready, hparts⟩ := parts_semicolon hra' hrb'
  rw [← hstrip] at hready hparts
  rw [fragments_eq (isPlain_joined ha hb) hready.closed hready.balanced, hpa, hpb, ← hpa', ← hpb']
  exact congrArg Except.ok hparts

end Cutscene.Source
