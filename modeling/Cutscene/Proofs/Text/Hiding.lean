import Cutscene.Proofs.Text.Glyph

/-!
Hiding the spans of a text that already has names in it.

Names hold no delimiter, so a text is cut between its glyphs and never inside one: its pieces come
from parts, a glyph or a span of glyphs each (`cut_parts`). Hiding writes a new name in the place of
each span (`conceal_parts`), and filling the new names in gives the parts back, with what was written
behind each span (`concealed_fill`). Splitting at a character cuts between glyphs as well
(`splitOn_render`).
-/
namespace Cutscene.Text

/-! ## Between glyphs -/

/-- A character that is in no name stands between glyphs. -/
theorem render_eq_append_cons {glyphs : List Glyph} (h : Clean glyphs) {before after : List Char}
    {x : Char} (hx : isSpelling x = false) (he : render glyphs = before ++ x :: after) :
    ∃ a b, glyphs = a ++ .char x :: b ∧ render a = before ∧ render b = after := by
  induction glyphs generalizing before with
  | nil => simp at he
  | cons glyph glyphs ih =>
    obtain ⟨hg, hrest⟩ := clean_cons.mp h
    cases glyph with
    | char c =>
      cases before with
      | nil =>
        simp only [render_cons, Glyph.text, List.cons_append, List.nil_append, List.cons.injEq] at he
        obtain ⟨rfl, rfl⟩ := he
        exact ⟨[], glyphs, rfl, rfl, rfl⟩
      | cons d before =>
        simp only [render_cons, Glyph.text, List.cons_append, List.nil_append, List.cons.injEq] at he
        obtain ⟨rfl, he⟩ := he
        obtain ⟨a, b, rfl, rfl, rfl⟩ := ih hrest he
        exact ⟨.char c :: a, b, rfl, rfl, rfl⟩
    | name tag n =>
      rw [render_cons, Glyph.text] at he
      rcases List.append_eq_append_iff.mp he with ⟨more, rfl, hmore⟩ | ⟨more, hname, hmore⟩
      · obtain ⟨a, b, rfl, rfl, rfl⟩ := ih hrest hmore
        exact ⟨.name tag n :: a, b, rfl, rfl, rfl⟩
      · -- the character would stand inside the name, unless it comes right behind it
        cases more with
        | nil =>
          rw [List.nil_append] at hmore
          have hstart : render glyphs = [] ++ x :: after := hmore.symm
          obtain ⟨a, b, rfl, ha, rfl⟩ := ih hrest hstart
          refine ⟨.name tag n :: a, b, rfl, ?_, rfl⟩
          rw [render_cons, Glyph.text, ha, hname, List.append_nil, List.append_nil]
        | cons d more =>
          simp only [List.cons_append, List.cons.injEq] at hmore
          have hmem : x ∈ spelled tag n := by rw [hname, hmore.1]; simp
          exact absurd hmem (notMem_spelled hx hg n)

/-! ## Cutting -/

theorem cutFrom_drop (look : Char → List Char → Sight) (skip : Nat) (text : List Char) :
    cutFrom look skip text = cutFrom look 0 (text.drop skip) := by
  induction text generalizing skip with
  | nil => cases skip <;> rfl
  | cons c rest ih =>
    cases skip with
    | zero => rfl
    | succ skip => simpa only [cutFrom, List.drop_succ_cons] using ih skip

/-- A way of looking for spans that sees none at the characters of names, and whose spans end with
a character that is in no name. -/
structure Outside (look : Char → List Char → Sight) : Prop where
  plain : ∀ c rest, isSpelling c = true → look c rest = .plain
  span : ∀ c rest more, look c rest = .span more → ∃ body x after, rest = body ++ x :: after ∧
    more = body.length + 1 ∧ isSpelling x = false

/-- A part of a text of glyphs: one glyph, or a span of them. -/
inductive Part where
  | glyph (single : Glyph)
  | span (glyphs : List Glyph)

/-- The glyphs of a part. -/
def Part.glyphs : Part → List Glyph
  | .glyph single => [single]
  | .span glyphs => glyphs

/-- The pieces into which the text of a part is cut. -/
def Part.pieces : Part → List Piece
  | .glyph single => single.text.map .plain
  | .span glyphs => [.span (render glyphs)]

/-- The spans among parts. -/
def hiddenIn : List Part → List (List Glyph)
  | [] => []
  | .glyph _ :: parts => hiddenIn parts
  | .span glyphs :: parts => glyphs :: hiddenIn parts

theorem mem_hiddenIn {parts : List Part} {glyphs : List Glyph} :
    glyphs ∈ hiddenIn parts ↔ .span glyphs ∈ parts := by
  induction parts with
  | nil => simp [hiddenIn]
  | cons part parts ih => cases part <;> simp [hiddenIn, ih]

/-- Where nothing but plain characters is seen, a word is cut into its characters. -/
theorem cutFrom_plain {look : Char → List Char → Sight} {word : List Char}
    (h : ∀ c ∈ word, ∀ rest, look c rest = .plain) (rest : List Char) :
    cutFrom look 0 (word ++ rest) = word.map .plain ++ cutFrom look 0 rest := by
  induction word with
  | nil => rfl
  | cons c word ih =>
    simp only [List.cons_append, cutFrom, h c (by simp), List.map_cons]
    rw [ih fun d hd => h d (by simp [hd])]

theorem unclosedText_plain (word : List Char) (pieces : List Piece) :
    unclosedText (word.map .plain ++ pieces) = unclosedText pieces := by
  induction word with
  | nil => rfl
  | cons c word ih => simpa [unclosedText] using ih

/-- **A text is cut between its glyphs.** The induction is on the number of glyphs, since a span
takes several at once. -/
theorem cut_parts {look : Char → List Char → Sight} (outside : Outside look) (glyphs : List Glyph)
    (h : Clean glyphs) (hclosed : unclosedText (cutFrom look 0 (render glyphs)) = none) :
    ∃ parts : List Part, cutFrom look 0 (render glyphs) = parts.flatMap Part.pieces ∧
      parts.flatMap Part.glyphs = glyphs ∧
      ∀ c, .glyph (.char c) ∈ parts → ∃ rest, look c rest = .plain := by
  cases glyphs with
  | nil => exact ⟨[], rfl, rfl, by simp⟩
  | cons glyph glyphs =>
    obtain ⟨hg, hrest⟩ := clean_cons.mp h
    cases glyph with
    | name tag n =>
      have hword : ∀ c ∈ spelled tag n, ∀ rest, look c rest = .plain :=
        fun c hc rest => outside.plain c rest (isSpelling_of_mem_spelled hg hc)
      rw [render_cons, Glyph.text, cutFrom_plain hword] at hclosed ⊢
      rw [unclosedText_plain] at hclosed
      obtain ⟨parts, hcut, hglyphs, hplain⟩ := cut_parts outside glyphs hrest hclosed
      refine ⟨.glyph (.name tag n) :: parts, ?_, ?_, ?_⟩
      · rw [hcut]; rfl
      · rw [List.flatMap_cons, hglyphs]; rfl
      · intro c hc
        rcases List.mem_cons.mp hc with hc | hc
        · cases hc
        · exact hplain c hc
    | char c =>
      simp only [render_cons, Glyph.text, List.cons_append, List.nil_append, cutFrom] at hclosed ⊢
      cases hlook : look c (render glyphs) with
      | plain =>
        simp only [hlook, unclosedText] at hclosed ⊢
        obtain ⟨parts, hcut, hglyphs, hplain⟩ := cut_parts outside glyphs hrest hclosed
        refine ⟨.glyph (.char c) :: parts, ?_, ?_, ?_⟩
        · rw [hcut]; rfl
        · rw [List.flatMap_cons, hglyphs]; rfl
        · intro d hd
          rcases List.mem_cons.mp hd with hd | hd
          · cases hd; exact ⟨_, hlook⟩
          · exact hplain d hd
      | unclosed => simp [hlook, unclosedText] at hclosed
      | span more =>
        simp only [hlook, unclosedText] at hclosed ⊢
        obtain ⟨body, x, after, hbody, rfl, hx⟩ := outside.span c _ _ hlook
        obtain ⟨a, b, rfl, rfl, rfl⟩ := render_eq_append_cons hrest hx hbody
        have htake : (render (a ++ .char x :: b)).take ((render a).length + 1) =
            render (a ++ [.char x]) := by
          simp [Glyph.text, List.take_append, List.take_of_length_le]
        have hdrop : (render (a ++ .char x :: b)).drop ((render a).length + 1) = render b := by
          simp [Glyph.text, List.drop_append]
        rw [cutFrom_drop, hdrop] at hclosed ⊢
        have hb : Clean b := (clean_cons.mp (clean_append.mp hrest).2).2
        obtain ⟨parts, hcut, hglyphs, hplain⟩ := cut_parts outside b hb hclosed
        refine ⟨.span (.char c :: (a ++ [.char x])) :: parts, ?_, ?_, ?_⟩
        · rw [hcut, htake]; rfl
        · rw [List.flatMap_cons, hglyphs]; simp [Part.glyphs]
        · intro d hd
          rcases List.mem_cons.mp hd with hd | hd
          · cases hd
          · exact hplain d hd
termination_by glyphs.length
decreasing_by
  all_goals
    subst_vars
    simp only [List.length_cons, List.length_append]
    omega

/-! ## Hiding -/

/-- The glyphs that hiding the spans writes, with names from the number `index` on. -/
def concealed (tag suffix : List Char) : Nat → List Part → List Glyph
  | _, [] => []
  | index, .glyph single :: parts => single :: concealed tag suffix index parts
  | index, .span _ :: parts =>
    .name tag index :: (suffix.map .char ++ concealed tag suffix (index + 1) parts)

theorem conceal_plain (style : SpanStyle) (word : List Char) (pieces : List Piece)
    (table : Placeholders) : conceal style (word.map .plain ++ pieces) table =
      (word ++ (conceal style pieces table).1, (conceal style pieces table).2) := by
  induction word with
  | nil => rfl
  | cons c word ih => simp [conceal, ih]

/-- **Hiding writes glyphs again**, and the table remembers the spans that the names stand for. -/
theorem conceal_parts (suffix : List Char) (parts : List Part) (table : Placeholders) :
    conceal { suffix := suffix } (parts.flatMap Part.pieces) table =
      (render (concealed table.tag suffix table.size parts),
        { table with spans := table.spans ++ (hiddenIn parts).map render }) := by
  induction parts generalizing table with
  | nil => simp [conceal, concealed, hiddenIn]
  | cons part parts ih =>
    cases part with
    | glyph single =>
      simp [Part.pieces, conceal_plain, ih, concealed, hiddenIn]
    | span glyphs =>
      simp only [List.flatMap_cons, Part.pieces, List.cons_append, List.nil_append, conceal, ih]
      simp [SpanStyle.written, SpanStyle.hidden, Placeholders.insert, Placeholders.size, concealed,
        hiddenIn, Glyph.text, name_eq_spelled]

theorem mem_concealed {tag suffix : List Char} {index : Nat} {parts : List Part} {glyph : Glyph}
    (h : glyph ∈ concealed tag suffix index parts) :
    .glyph glyph ∈ parts ∨ (∃ c ∈ suffix, glyph = .char c) ∨
      ∃ n < index + (hiddenIn parts).length, glyph = .name tag n := by
  induction parts generalizing index with
  | nil => simp [concealed] at h
  | cons part parts ih =>
    cases part with
    | glyph single =>
      simp only [concealed, List.mem_cons] at h
      rcases h with rfl | h
      · exact Or.inl (by simp)
      · rcases ih h with h | h | h
        · exact Or.inl (by simp [h])
        · exact Or.inr (Or.inl h)
        · exact Or.inr (Or.inr h)
    | span glyphs =>
      simp only [concealed, List.mem_cons, List.mem_append, List.mem_map] at h
      simp only [hiddenIn, List.length_cons]
      rcases h with rfl | ⟨c, hc, rfl⟩ | h
      · exact Or.inr (Or.inr ⟨index, by omega, rfl⟩)
      · exact Or.inr (Or.inl ⟨c, hc, rfl⟩)
      · rcases ih h with h | h | ⟨n, hn, rfl⟩
        · exact Or.inl (by simp [h])
        · exact Or.inr (Or.inl h)
        · exact Or.inr (Or.inr ⟨n, by omega, rfl⟩)

/-! ## Filling the names in again -/

/-- The glyphs for which a glyph stands, when names with the tag stand for the given spans. -/
def unfolded (tag : List Char) (spans : List (List Glyph)) : Glyph → List Glyph
  | .char c => [.char c]
  | .name t n => if t = tag then (spans[n]?).getD [.name t n] else [.name t n]

theorem fill_eq_unfolded (tag : List Char) (spans : List (List Glyph)) (glyph : Glyph) :
    Placeholders.fill ⟨tag, spans.map render⟩ glyph = render (unfolded tag spans glyph) := by
  cases glyph with
  | char c => rfl
  | name t n =>
    by_cases ht : t = tag
    · simp only [Placeholders.fill, unfolded, ht, if_true, List.getElem?_map]
      cases spans[n]? <;> simp [Glyph.text]
    · simp [Placeholders.fill, unfolded, ht, Glyph.text]

/-- Restoring what was written, when the spans of the table are glyphs themselves. -/
theorem restore_render_unfolded {tag : List Char} (ht : IsTag tag) (spans : List (List Glyph))
    {glyphs : List Glyph} (h : Clean glyphs) :
    Placeholders.restore ⟨tag, spans.map render⟩ (render glyphs) =
      render (glyphs.flatMap (unfolded tag spans)) := by
  rw [Placeholders.restore_render ht h, render, List.flatMap_assoc]
  exact congrArg (List.flatMap · glyphs) (funext fun glyph => fill_eq_unfolded tag spans glyph)

theorem unfolded_chars (tag text : List Char) (spans : List (List Glyph)) :
    (text.map .char).flatMap (unfolded tag spans) = text.map .char := by
  induction text with
  | nil => rfl
  | cons c text ih => simp [unfolded, ih]

/-- A part as it is after hiding and filling in: its span with what was written behind the name, or
its glyph with the older spans filled in. -/
def Part.restored (tag suffix : List Char) (old : List (List Glyph)) : Part → List Glyph
  | .glyph single => unfolded tag old single
  | .span glyphs => glyphs ++ suffix.map .char

theorem unfolded_append {tag : List Char} {old : List (List Glyph)} (new : List (List Glyph))
    {glyph : Glyph} (h : ∀ n, glyph = .name tag n → n < old.length) :
    unfolded tag (old ++ new) glyph = unfolded tag old glyph := by
  cases glyph with
  | char c => rfl
  | name t n =>
    by_cases ht : t = tag
    · subst ht
      simp [unfolded, List.getElem?_append_left (h n rfl)]
    · simp [unfolded, ht]

/-- **Filling in undoes hiding**, where the names with the table's tag that stand outside the spans
are older ones. -/
theorem concealed_unfolded {tag : List Char} (suffix : List Char) (old : List (List Glyph))
    {parts : List Part} (h : ∀ n, .glyph (.name tag n) ∈ parts → n < old.length) :
    (concealed tag suffix old.length parts).flatMap (unfolded tag (old ++ hiddenIn parts)) =
      parts.flatMap (Part.restored tag suffix old) := by
  -- the spans hidden before come to the old ones, so the induction is over all of them
  suffices ∀ done : List (List Glyph),
      (concealed tag suffix (old ++ done).length parts).flatMap
        (unfolded tag (old ++ done ++ hiddenIn parts)) =
      parts.flatMap (Part.restored tag suffix old) by simpa using this []
  induction parts with
  | nil => intro done; rfl
  | cons part parts ih =>
    intro done
    have hrest := ih fun n hn => h n (by simp [hn])
    cases part with
    | glyph single =>
      have hsingle : unfolded tag (old ++ (done ++ hiddenIn parts)) single =
          unfolded tag old single := by
        refine unfolded_append _ fun n hn => h n ?_
        simp [hn]
      simp only [concealed, hiddenIn, List.flatMap_cons, hrest done, Part.restored]
      rw [List.append_assoc, hsingle]
    | span glyphs =>
      have hnext := hrest (done ++ [glyphs])
      have hat : (old ++ done ++ glyphs :: hiddenIn parts)[(old ++ done).length]? = some glyphs := by
        simp
      have hsplit : old ++ (done ++ [glyphs]) ++ hiddenIn parts =
          old ++ done ++ glyphs :: hiddenIn parts := by simp
      have hlength : (old ++ (done ++ [glyphs])).length = (old ++ done).length + 1 := by
        simp; omega
      rw [hsplit, hlength] at hnext
      simp only [concealed, hiddenIn, List.flatMap_cons, List.flatMap_append, hnext, unfolded_chars,
        Part.restored, unfolded, if_true, hat, Option.getD_some]
      rw [List.append_assoc]

/-! ## The names among glyphs -/

/-- Whether a glyph is a name. -/
def Glyph.isName : Glyph → Bool
  | .char _ => false
  | .name _ _ => true

/-- The names among glyphs, in their order. -/
def names (glyphs : List Glyph) : List Glyph := glyphs.filter Glyph.isName

@[simp] theorem names_nil : names [] = [] := rfl

@[simp] theorem names_char (c : Char) (glyphs : List Glyph) :
    names (.char c :: glyphs) = names glyphs := rfl

@[simp] theorem names_name (tag : List Char) (n : Nat) (glyphs : List Glyph) :
    names (.name tag n :: glyphs) = .name tag n :: names glyphs := rfl

@[simp] theorem names_append (a b : List Glyph) : names (a ++ b) = names a ++ names b := by
  simp [names]

@[simp] theorem names_chars (text : List Char) : names (text.map .char) = [] := by
  simp [names, Glyph.isName]

theorem mem_names {tag : List Char} {n : Nat} {glyphs : List Glyph} :
    .name tag n ∈ names glyphs ↔ .name tag n ∈ glyphs := by
  simp [names, Glyph.isName]

theorem names_ne_nil_iff {glyphs : List Glyph} :
    names glyphs ≠ [] ↔ ∃ tag n, .name tag n ∈ glyphs := by
  constructor
  · intro hne
    obtain ⟨glyph, hglyph⟩ := List.exists_mem_of_ne_nil _ hne
    obtain ⟨hmem, hname⟩ := List.mem_filter.mp hglyph
    cases glyph with
    | char c => cases hname
    | name tag n => exact ⟨tag, n, hmem⟩
  · rintro ⟨tag, n, hmem⟩
    exact List.ne_nil_of_mem (mem_names.mpr hmem)

/-- The names that come of writing glyphs for each glyph come from the names. -/
theorem names_flatMap {f : Glyph → List Glyph} (hf : ∀ c, names (f (.char c)) = [])
    (glyphs : List Glyph) : names (glyphs.flatMap f) = (names glyphs).flatMap fun x => names (f x) := by
  induction glyphs with
  | nil => rfl
  | cons glyph glyphs ih =>
    cases glyph with
    | char c => rw [List.flatMap_cons, names_append, hf, ih, names_char, List.nil_append]
    | name tag n => rw [List.flatMap_cons, names_append, ih, names_name, List.flatMap_cons]

/-- **A text has the beginning of a name in it just if a name is among its glyphs.** -/
theorem infix_render_iff {glyphs : List Glyph} (h : Clean glyphs) :
    ['@', '^'] <:+: render glyphs ↔ names glyphs ≠ [] := by
  rw [names_ne_nil_iff]
  constructor
  · intro hin
    -- the caret belongs to some glyph, and it is none of its own
    have hcaret : '^' ∈ render glyphs := hin.subset (by simp)
    obtain ⟨glyph, hmem, hc⟩ := List.mem_flatMap.mp hcaret
    cases glyph with
    | char c =>
      rw [Glyph.text, List.mem_singleton] at hc
      exact absurd hc.symm (h _ hmem)
    | name tag n => exact ⟨tag, n, hmem⟩
  · rintro ⟨tag, n, hmem⟩
    obtain ⟨a, b, rfl⟩ := List.append_of_mem hmem
    refine ⟨render a, (spelled tag n).drop 2 ++ render b, ?_⟩
    simp [Glyph.text, spelled_eq]

/-! ## The delimiters of the source -/

/-- A character closes a span, or the closer is searched behind it at some depth. -/
theorem closeFrom_cons (d : Delimiter) (depth : Nat) (previous c : Char) :
    (c = d.closer ∧ ∀ rest, d.closeFrom depth previous (c :: rest) = some 0) ∨
      ∃ inner, ∀ rest,
        d.closeFrom depth previous (c :: rest) = (d.closeFrom inner c rest).map (· + 1) := by
  by_cases hc : c = d.closer
  · by_cases hp : previous = '\\'
    · exact Or.inr ⟨depth, fun rest => by simp [Delimiter.closeFrom, hc, hp]⟩
    · cases depth with
      | zero => exact Or.inl ⟨hc, fun rest => by simp [Delimiter.closeFrom, hc, hp]⟩
      | succ outer => exact Or.inr ⟨outer, fun rest => by simp [Delimiter.closeFrom, hc, hp]⟩
  · by_cases ho : c = d.opener
    · exact Or.inr ⟨depth + 1, fun rest => by
        rw [Delimiter.closeFrom.eq_def]
        simp only [if_neg hc, if_pos ho]⟩
    · exact Or.inr ⟨depth, fun rest => by
        rw [Delimiter.closeFrom.eq_def]
        simp only [if_neg hc, if_neg ho]⟩

/-- Of the character before a text it matters only whether it is a backslash. -/
theorem closeFrom_previous (d : Delimiter) (depth : Nat) {p q : Char} (h : p = '\\' ↔ q = '\\')
    (text : List Char) : d.closeFrom depth p text = d.closeFrom depth q text := by
  cases text with
  | nil => rfl
  | cons c rest => simp only [Delimiter.closeFrom, h]

/-- Where a span closes depends on the text up to its closer. -/
theorem closeFrom_some {d : Delimiter} {depth : Nat} {previous : Char} {text : List Char} {n : Nat}
    (h : d.closeFrom depth previous text = some n) :
    ∃ body after, text = body ++ d.closer :: after ∧ body.length = n ∧
      ∀ other, d.closeFrom depth previous (body ++ d.closer :: other) = some n := by
  induction text generalizing depth previous n with
  | nil => cases h
  | cons c rest ih =>
    rcases closeFrom_cons d depth previous c with ⟨rfl, hclose⟩ | ⟨inner, hinner⟩
    · obtain rfl : n = 0 := by simpa using h.symm.trans (hclose rest)
      exact ⟨[], rest, rfl, rfl, hclose⟩
    · rw [hinner] at h
      obtain ⟨m, hm, rfl⟩ := Option.map_eq_some_iff.mp h
      obtain ⟨body, after, rfl, rfl, hother⟩ := ih hm
      refine ⟨c :: body, after, rfl, rfl, fun other => ?_⟩
      rw [List.cons_append, hinner, hother]
      rfl

theorem outside_look {d : Delimiter} (ho : isSpelling d.opener = false)
    (hc : isSpelling d.closer = false) : Outside d.look where
  plain c rest h := by
    have : c ≠ d.opener := by
      rintro rfl
      rw [h] at ho
      cases ho
    simp [Delimiter.look, this]
  span c rest more h := by
    rw [Delimiter.look] at h
    split at h
    · split at h
      · next n hn =>
        obtain ⟨body, after, rfl, rfl, -⟩ := closeFrom_some hn
        exact ⟨body, d.closer, after, rfl, by simpa using h.symm, hc⟩
      · cases h
    · cases h

theorem outside_quoted : Outside lookQuoted where
  plain c rest h := by
    have : c ≠ '\'' := by
      rintro rfl
      exact absurd h (by decide)
    simp [lookQuoted, this]
  span c rest more h := by
    rw [lookQuoted] at h
    split at h
    · split at h
      · next n hn =>
        split at h
        · cases h
        · obtain ⟨body, after, rfl, rfl, -⟩ := closeFrom_some hn
          exact ⟨body, '\'', after, rfl, by simpa using h.symm, by decide⟩
      · cases h
    · cases h

theorem lookQuoted_ne_unclosed (c : Char) (rest : List Char) : lookQuoted c rest ≠ .unclosed := by
  unfold lookQuoted
  split
  · split
    · split <;> simp
    · simp
  · simp

/-- A literal in single quotes that is not closed is no literal, so such cutting never fails. -/
theorem unclosedText_cutQuoted (text : List Char) : unclosedText (cutQuoted text) = none := by
  rw [cutQuoted]
  generalize 0 = skip
  induction text generalizing skip with
  | nil => cases skip <;> rfl
  | cons c rest ih =>
    cases skip with
    | succ skip => simpa only [cutFrom] using ih skip
    | zero =>
      rw [cutFrom]
      cases hlook : lookQuoted c rest with
      | plain => simpa only [unclosedText] using ih 0
      | span more => simpa only [unclosedText] using ih more
      | unclosed => exact absurd hlook (lookQuoted_ne_unclosed c rest)

/-- What hiding the spans of glyphs gives: the glyphs come in parts, names stand in the place of
the spans among them, and the table remembers those spans. -/
structure Hides (suffix : List Char) (glyphs : List Glyph) (table : Placeholders)
    (parts : List Part) (hidden : List Char × Placeholders) : Prop where
  glyphs_eq : parts.flatMap Part.glyphs = glyphs
  text_eq : hidden.1 = render (concealed table.tag suffix table.size parts)
  table_eq : hidden.2 = ⟨table.tag, table.spans ++ (hiddenIn parts).map render⟩

theorem hide_parts {d : Delimiter} (ho : isSpelling d.opener = false)
    (hc : isSpelling d.closer = false) {suffix : List Char} {glyphs : List Glyph}
    (h : Clean glyphs) {table : Placeholders} {hidden : List Char × Placeholders}
    (hhide : hide d { suffix := suffix } (render glyphs) table = .ok hidden) :
    ∃ parts, Hides suffix glyphs table parts hidden ∧
      ∀ c, .glyph (.char c) ∈ parts → c ≠ d.opener := by
  simp only [hide] at hhide
  split at hhide
  · cases hhide
  · next hclosed =>
    cases hhide
    obtain ⟨parts, hcut, hglyphs, hplain⟩ := cut_parts (outside_look ho hc) glyphs h hclosed
    refine ⟨parts, ⟨hglyphs, ?_, ?_⟩, ?_⟩
    · rw [Delimiter.cut, hcut, conceal_parts]
    · rw [Delimiter.cut, hcut, conceal_parts]
    · rintro c hmem rfl
      obtain ⟨rest, hlook⟩ := hplain _ hmem
      rw [Delimiter.look, if_pos rfl] at hlook
      split at hlook <;> cases hlook

theorem hideQuoted_parts {glyphs : List Glyph} (h : Clean glyphs) (table : Placeholders) :
    ∃ parts, Hides [] glyphs table parts (hideQuoted (render glyphs) table) ∧
      cutQuoted (render glyphs) = parts.flatMap Part.pieces := by
  have hclosed := unclosedText_cutQuoted (render glyphs)
  obtain ⟨parts, hcut, hglyphs, -⟩ := cut_parts outside_quoted glyphs h hclosed
  refine ⟨parts, ⟨hglyphs, ?_, ?_⟩, hcut⟩
  · rw [hideQuoted, cutQuoted, hcut, conceal_parts]
  · rw [hideQuoted, cutQuoted, hcut, conceal_parts]

theorem look_plain {d : Delimiter} {word : List Char} (h : d.opener ∉ word) :
    ∀ c ∈ word, ∀ rest, d.look c rest = .plain := by
  intro c hc rest
  have : c ≠ d.opener := by
    rintro rfl
    exact h hc
  rw [Delimiter.look, if_neg this]

/-- A text without the opening delimiter is left as it is. -/
theorem hide_eq_self {d : Delimiter} {text : List Char} (h : d.opener ∉ text) (style : SpanStyle)
    (table : Placeholders) : hide d style text table = .ok (text, table) := by
  have hcut : d.cut text = text.map .plain ++ [] := by
    simpa [Delimiter.cut, cutFrom] using cutFrom_plain (look_plain h) []
  simp only [hide, hcut, unclosedText_plain, conceal_plain, unclosedText, conceal]
  rw [List.append_nil]

/-- A text without single quotes is left as it is. -/
theorem hideQuoted_eq_self {text : List Char} (h : '\'' ∉ text) (table : Placeholders) :
    hideQuoted text table = (text, table) := by
  have hlook : ∀ c ∈ text, ∀ rest, lookQuoted c rest = .plain := by
    intro c hc rest
    have hne : c ≠ '\'' := by
      rintro rfl
      exact h hc
    rw [lookQuoted, if_neg hne]
  have hcut : cutQuoted text = text.map .plain ++ [] := by
    simpa [cutQuoted, cutFrom] using cutFrom_plain hlook []
  rw [hideQuoted, hcut, conceal_plain, conceal, List.append_nil]

theorem mem_parts {parts : List Part} {glyph : Glyph} (h : .glyph glyph ∈ parts) :
    glyph ∈ parts.flatMap Part.glyphs :=
  List.mem_flatMap.mpr ⟨_, h, by simp [Part.glyphs]⟩

theorem clean_concealed {tag suffix : List Char} (ht : IsTag tag) (hs : '^' ∉ suffix) (index : Nat)
    {parts : List Part} (h : Clean (parts.flatMap Part.glyphs)) :
    Clean (concealed tag suffix index parts) := by
  intro glyph hmem
  rcases mem_concealed hmem with hmem | ⟨c, hc, rfl⟩ | ⟨n, -, rfl⟩
  · exact h _ (mem_parts hmem)
  · rintro rfl
    exact hs hc
  · exact ht

/-! ## Splitting -/

theorem splitOn_ne_nil (mark : Char) (text : List Char) : splitOn mark text ≠ [] := by
  cases text with
  | nil => simp [splitOn]
  | cons c rest =>
    rw [splitOn]
    split
    · simp
    · split <;> simp

theorem splitOn_cons {mark c : Char} (h : c ≠ mark) (rest : List Char) :
    splitOn mark (c :: rest) = (splitOn mark rest).modifyHead (c :: ·) := by
  rw [splitOn, if_neg h]
  cases hsplit : splitOn mark rest with
  | nil => exact absurd hsplit (splitOn_ne_nil mark rest)
  | cons part parts => rfl

theorem splitOn_append {mark : Char} {word : List Char} (h : mark ∉ word) (rest : List Char) :
    splitOn mark (word ++ rest) = (splitOn mark rest).modifyHead (word ++ ·) := by
  induction word with
  | nil =>
    rw [List.nil_append]
    cases splitOn mark rest <;> rfl
  | cons c word ih =>
    have hc : c ≠ mark := fun hc => h (by simp [hc])
    rw [List.cons_append, splitOn_cons hc, ih fun hmem => h (by simp [hmem])]
    cases splitOn mark rest <;> rfl

/-- **A text is split between its glyphs.** -/
theorem splitOn_render {mark : Char} (hmark : isSpelling mark = false) {glyphs : List Glyph}
    (h : Clean glyphs) : ∃ segments : List (List Glyph),
      splitOn mark (render glyphs) = segments.map render ∧
      segments.flatten = glyphs.filter (· ≠ .char mark) := by
  induction glyphs with
  | nil => exact ⟨[[]], rfl, rfl⟩
  | cons glyph glyphs ih =>
    obtain ⟨hg, hrest⟩ := clean_cons.mp h
    obtain ⟨segments, hsplit, hflat⟩ := ih hrest
    by_cases hglyph : glyph = .char mark
    · subst hglyph
      refine ⟨[] :: segments, ?_, by simpa using hflat⟩
      simp [Glyph.text, splitOn, hsplit]
    · -- any other glyph goes to the first of the segments behind it
      have hnot : mark ∉ glyph.text := by
        intro hmem
        cases glyph with
        | char c => exact hglyph (by simpa [Glyph.text, eq_comm] using hmem)
        | name tag n => exact notMem_spelled hmark hg n hmem
      cases segments with
      | nil => exact absurd hsplit (splitOn_ne_nil _ _)
      | cons segment segments =>
        refine ⟨(glyph :: segment) :: segments, ?_, ?_⟩
        · rw [render_cons, splitOn_append hnot, hsplit]
          rfl
        · rw [List.filter_cons_of_pos (by simpa using hglyph), ← hflat]
          rfl

end Cutscene.Text
