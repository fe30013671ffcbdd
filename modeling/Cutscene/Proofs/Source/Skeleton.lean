import Cutscene.Proofs.Source.Expansion
import Cutscene.Proofs.Source.Spacing
import Cutscene.Proofs.Text.Signs

/-!
The skeleton of a source.

The string literals of a text and the text around them go different ways: the literals are kept in a
table, and the layout works on the rest. The skeleton of a text has a sign in the place of each literal,
and literals are filled in for the signs (`fillIn`). Hiding the literals writes names for the signs
(`hide_skeleton`), and the layout does to the names what it does to the signs (`layout_withNames`). So
the text that is laid out is known from the layout of the skeleton (`layOut_eq`), and with its literals
put back it is the filled layout (`restore_withNames`).
-/
namespace Cutscene.Source

open Text

/-! ## Skeletons and literals -/

/-- The spans among pieces. -/
def spansIn : List Piece → List (List Char)
  | [] => []
  | .span text :: pieces => text :: spansIn pieces
  | _ :: pieces => spansIn pieces

/-- The skeleton of a text: signs stand in the places of its string literals. -/
def skeleton (text : List Char) : List Char := (Delimiter.string.cut text).map Piece.sign

/-- The string literals of a text. -/
def literals (text : List Char) : List (List Char) := spansIn (Delimiter.string.cut text)

/-- Every string literal of a text is closed. -/
def LiteralsClosed (text : List Char) : Prop := unclosedText (Delimiter.string.cut text) = none

instance (text : List Char) : Decidable (LiteralsClosed text) :=
  inferInstanceAs (Decidable (unclosedText (Delimiter.string.cut text) = none))

/-- A skeleton with texts in the places of its signs. -/
def fillIn : List Char → List (List Char) → List Char
  | [], _ => []
  | c :: rest, texts =>
    if c = '"' then texts.headD [] ++ fillIn rest texts.tail else c :: fillIn rest texts

/-- A skeleton with the names of literals in the places of its signs, from the number `index` on. -/
def withNames : Nat → List Char → List Glyph
  | _, [] => []
  | index, c :: rest =>
    if c = '"' then .name literalTag index :: withNames (index + 1) rest
    else .char c :: withNames index rest

theorem withNames_sign (index : Nat) (rest : List Char) :
    withNames index ('"' :: rest) = .name literalTag index :: withNames (index + 1) rest := rfl

theorem withNames_cons {c : Char} (h : c ≠ '"') (index : Nat) (rest : List Char) :
    withNames index (c :: rest) = .char c :: withNames index rest := by
  rw [withNames, if_neg h]

theorem withNames_append {word : List Char} (h : '"' ∉ word) (index : Nat) (rest : List Char) :
    withNames index (word ++ rest) = word.map .char ++ withNames index rest := by
  induction word with
  | nil => rfl
  | cons c word ih =>
    have hc : c ≠ '"' := fun heq => h (by simp [heq])
    rw [List.cons_append, withNames_cons hc, ih fun hmem => h (by simp [hmem])]
    rfl

theorem signs_withNames (index : Nat) (bones : List Char) :
    (withNames index bones).map Glyph.sign = bones := by
  induction bones generalizing index with
  | nil => rfl
  | cons c rest ih =>
    by_cases hc : c = '"'
    · rw [hc, withNames_sign, List.map_cons, ih]
      rfl
    · rw [withNames_cons hc, List.map_cons, ih]
      rfl

theorem mem_withNames {glyph : Glyph} {index : Nat} {bones : List Char}
    (h : glyph ∈ withNames index bones) :
    (∃ c ∈ bones, c ≠ '"' ∧ glyph = .char c) ∨
      ∃ n < index + bones.count '"', glyph = .name literalTag n := by
  induction bones generalizing index with
  | nil => cases h
  | cons c rest ih =>
    by_cases hc : c = '"'
    · rw [hc, withNames_sign] at h
      rw [hc, List.count_cons_self]
      rcases List.mem_cons.mp h with rfl | h
      · exact Or.inr ⟨index, by omega, rfl⟩
      · rcases ih h with ⟨d, hd, hne, rfl⟩ | ⟨n, hn, rfl⟩
        · exact Or.inl ⟨d, List.mem_cons_of_mem _ hd, hne, rfl⟩
        · exact Or.inr ⟨n, by omega, rfl⟩
    · rw [withNames_cons hc] at h
      rw [List.count_cons_of_ne hc]
      rcases List.mem_cons.mp h with rfl | h
      · exact Or.inl ⟨c, List.mem_cons_self, hc, rfl⟩
      · rcases ih h with ⟨d, hd, hne, rfl⟩ | hname
        · exact Or.inl ⟨d, List.mem_cons_of_mem _ hd, hne, rfl⟩
        · exact Or.inr hname

theorem clean_withNames {bones : List Char} (h : '^' ∉ bones) (index : Nat) :
    Clean (withNames index bones) := by
  intro glyph hmem
  rcases mem_withNames hmem with ⟨c, hc, -, rfl⟩ | ⟨n, -, rfl⟩
  · rintro rfl
    exact h hc
  · show IsTag literalTag
    decide

/-- The characters of names come into no skeleton, and the others are in the text as they were. -/
theorem notMem_render_withNames {x : Char} (hx : isSpelling x = false) {index : Nat}
    {bones : List Char} (h : x ∉ bones ∨ x = '"') : x ∉ render (withNames index bones) := by
  intro hmem
  obtain ⟨glyph, hglyph, hin⟩ := List.mem_flatMap.mp hmem
  rcases mem_withNames hglyph with ⟨c, hc, hne, rfl⟩ | ⟨n, -, rfl⟩
  · obtain rfl : x = c := List.mem_singleton.mp hin
    rcases h with h | h
    · exact h hc
    · exact hne h
  · exact notMem_spelled hx (by decide) n hin

/-- **Filling the names in is filling the literals in for the signs.** -/
theorem fill_withNames {bones : List Char} {texts : List (List Char)}
    (h : bones.count '"' ≤ texts.length) (done : List (List Char)) :
    (withNames done.length bones).flatMap (Placeholders.fill ⟨literalTag, done ++ texts⟩) =
      fillIn bones texts := by
  induction bones generalizing texts done with
  | nil => rfl
  | cons c rest ih =>
    by_cases hc : c = '"'
    · rw [hc, List.count_cons_self] at h
      cases texts with
      | nil => simp at h
      | cons text texts =>
        have hnext : (withNames (done.length + 1) rest).flatMap
            (Placeholders.fill ⟨literalTag, done ++ text :: texts⟩) = fillIn rest texts := by
          simpa using ih (by simpa using h) (done ++ [text])
        have hget : (done ++ text :: texts)[done.length]? = some text := by simp
        rw [hc, withNames_sign, List.flatMap_cons, hnext, fillIn, if_pos rfl]
        simp only [Placeholders.fill, if_true, hget, Option.getD_some]
        rfl
    · rw [List.count_cons_of_ne hc] at h
      rw [withNames_cons hc, List.flatMap_cons, ih h, fillIn, if_neg hc]
      rfl

theorem restore_withNames {bones : List Char} (hcaret : '^' ∉ bones) {texts : List (List Char)}
    (h : bones.count '"' ≤ texts.length) :
    Placeholders.restore ⟨literalTag, texts⟩ (render (withNames 0 bones)) = fillIn bones texts := by
  have htag : IsTag literalTag := by decide
  rw [Placeholders.restore_render htag (clean_withNames hcaret 0)]
  exact fill_withNames h []

/-! ## Cutting at string literals -/

/-- A piece of a text that is cut at literals: a character that is no quote, or a literal. -/
theorem mem_cut_string {skip : Nat} {text : List Char} {piece : Piece}
    (h : piece ∈ cutFrom Delimiter.string.look skip text) :
    (∃ c ∈ text, c ≠ '"' ∧ piece = .plain c) ∨ (∃ literal, IsLiteral literal ∧ piece = .span literal) ∨
      ∃ rest, piece = .unclosed rest := by
  induction text generalizing skip with
  | nil => cases skip <;> cases h
  | cons c rest ih =>
    -- a piece from further on in the text
    have hlater : ∀ {skip : Nat}, piece ∈ cutFrom Delimiter.string.look skip rest →
        (∃ d ∈ c :: rest, d ≠ '"' ∧ piece = .plain d) ∨
          (∃ literal, IsLiteral literal ∧ piece = .span literal) ∨ ∃ rest, piece = .unclosed rest := by
      intro skip hmem
      rcases ih hmem with ⟨d, hd, hne, heq⟩ | hother
      · exact Or.inl ⟨d, List.mem_cons_of_mem c hd, hne, heq⟩
      · exact Or.inr hother
    cases skip with
    | succ skip => exact hlater h
    | zero =>
      rw [cutFrom] at h
      cases hlook : Delimiter.string.look c rest with
      | plain =>
        simp only [hlook, List.mem_cons] at h
        rcases h with rfl | h
        · exact Or.inl ⟨c, List.mem_cons_self, look_eq_plain.mp hlook, rfl⟩
        · exact hlater h
      | span more =>
        simp only [hlook, List.mem_cons] at h
        rcases h with rfl | h
        · refine Or.inr (Or.inl ⟨_, ?_, rfl⟩)
          obtain ⟨rfl, n, hn, rfl⟩ := close_of_look hlook
          obtain ⟨body, after, rfl, rfl, hother⟩ := closeFrom_some hn
          refine ⟨body, ?_, hother []⟩
          simp [List.take_append, List.take_of_length_le, Delimiter.string]
        · exact hlater h
      | unclosed =>
        simp only [hlook, List.mem_singleton] at h
        exact Or.inr (Or.inr ⟨_, h⟩)

theorem mem_spansIn {pieces : List Piece} {text : List Char} :
    text ∈ spansIn pieces ↔ .span text ∈ pieces := by
  induction pieces with
  | nil => simp [spansIn]
  | cons piece pieces ih => cases piece <;> simp [spansIn, ih]

theorem isLiteral_of_mem {text literal : List Char} (h : literal ∈ literals text) :
    IsLiteral literal := by
  rcases mem_cut_string (mem_spansIn.mp h) with ⟨_, -, -, heq⟩ | ⟨found, hfound, heq⟩ | ⟨_, heq⟩
  · cases heq
  · cases heq
    exact hfound
  · cases heq

theorem notMem_skeleton {x : Char} (hx : x ≠ '"') {text : List Char} (h : x ∉ text) :
    x ∉ skeleton text := by
  intro hmem
  obtain ⟨piece, hpiece, hsign⟩ := List.mem_map.mp hmem
  rcases mem_cut_string hpiece with ⟨c, hc, -, rfl⟩ | ⟨_, -, rfl⟩ | ⟨_, rfl⟩
  · exact h (hsign ▸ hc)
  · exact hx hsign.symm
  · exact hx hsign.symm

/-- The pieces of a text whose literals are closed: characters that are no quotes, and spans. -/
theorem closed_pieces {text : List Char} (h : LiteralsClosed text) :
    ∀ piece ∈ Delimiter.string.cut text,
      (∃ c, c ≠ '"' ∧ piece = .plain c) ∨ ∃ literal, piece = .span literal := by
  have hnone : ∀ {pieces : List Piece}, unclosedText pieces = none →
      ∀ rest, .unclosed rest ∉ pieces := by
    intro pieces hpieces rest
    induction pieces with
    | nil => simp
    | cons piece pieces ih =>
      cases piece with
      | plain c => simpa using ih hpieces
      | span text => simpa using ih hpieces
      | unclosed text => cases hpieces
  intro piece hpiece
  rcases mem_cut_string hpiece with ⟨c, -, hc, heq⟩ | ⟨literal, -, heq⟩ | ⟨rest, rfl⟩
  · exact Or.inl ⟨c, hc, heq⟩
  · exact Or.inr ⟨literal, heq⟩
  · exact absurd hpiece (hnone h rest)

/-- What hiding does with such pieces: names for the signs, from the number of spans on that are
hidden already. -/
theorem conceal_signs {pieces : List Piece}
    (h : ∀ piece ∈ pieces, (∃ c, c ≠ '"' ∧ piece = .plain c) ∨ ∃ literal, piece = .span literal)
    (done : List (List Char)) :
    conceal {} pieces ⟨literalTag, done⟩ =
      (render (withNames done.length (pieces.map Piece.sign)),
        ⟨literalTag, done ++ spansIn pieces⟩) := by
  induction pieces generalizing done with
  | nil => simp [conceal, withNames, spansIn]
  | cons piece pieces ih =>
    obtain ⟨hpiece, hpieces⟩ := List.forall_mem_cons.mp h
    rcases hpiece with ⟨c, hc, rfl⟩ | ⟨literal, rfl⟩
    · rw [conceal, ih hpieces, List.map_cons, Piece.sign, withNames_cons hc]
      rfl
    · have hnext := ih hpieces (done ++ [literal])
      rw [List.length_append, List.length_singleton] at hnext
      simp only [conceal, Placeholders.insert, SpanStyle.hidden, if_true, hnext, List.map_cons]
      rw [Piece.sign, withNames_sign]
      simp [SpanStyle.written, Glyph.text, name_eq_spelled, Placeholders.size, spansIn]

theorem count_signs {pieces : List Piece}
    (h : ∀ piece ∈ pieces, (∃ c, c ≠ '"' ∧ piece = .plain c) ∨ ∃ literal, piece = .span literal) :
    (pieces.map Piece.sign).count '"' = (spansIn pieces).length := by
  induction pieces with
  | nil => rfl
  | cons piece pieces ih =>
    obtain ⟨hpiece, hpieces⟩ := List.forall_mem_cons.mp h
    rw [List.map_cons]
    rcases hpiece with ⟨c, hc, rfl⟩ | ⟨literal, rfl⟩
    · rw [Piece.sign, List.count_cons_of_ne hc, ih hpieces]
      rfl
    · rw [Piece.sign, List.count_cons_self, ih hpieces]
      rfl

theorem count_skeleton {text : List Char} (h : LiteralsClosed text) :
    (skeleton text).count '"' = (literals text).length := count_signs (closed_pieces h)

/-- **Hiding the literals writes names for the signs of the skeleton.** -/
theorem hide_skeleton {text : List Char} (h : LiteralsClosed text) :
    hide .string {} text (.tagged "string") =
      .ok (render (withNames 0 (skeleton text)), ⟨literalTag, literals text⟩) := by
  have hconceal := conceal_signs (closed_pieces h) []
  have htable : Placeholders.tagged "string" = ⟨literalTag, []⟩ := rfl
  have hclosed : unclosedText (Delimiter.string.cut text) = none := h
  simp only [hide, hclosed, htable, hconceal]
  rfl

theorem closed_of_hide_string {text : List Char} {style : SpanStyle} {table : Placeholders}
    {hidden : List Char × Placeholders} (h : hide .string style text table = .ok hidden) :
    LiteralsClosed text := by
  simp only [hide] at h
  split at h
  · cases h
  · next hclosed => exact hclosed

/-! ## The layout of a skeleton -/

/-- A step that does to names what it does to signs. -/
def SignWise (step : List Char → List Char) : Prop :=
  ∀ index bones, step (render (withNames index bones)) = render (withNames index (step bones))

theorem SignWise.comp {f g : List Char → List Char} (hf : SignWise f) (hg : SignWise g) :
    SignWise fun text => g (f text) := by
  intro index bones
  show g (f (render (withNames index bones))) = render (withNames index (g (f bones)))
  rw [hf, hg]

theorem spelling_name {index : Nat} : ∀ c ∈ spelled literalTag index, isSpelling c = true :=
  fun _ hc => isSpelling_of_mem_spelled (by decide) hc

theorem signWise_filter {keep : Char → Bool} (hkeep : ∀ c, isSpelling c = true → keep c = true)
    (hquote : keep '"' = true) : SignWise (List.filter keep) := by
  intro index bones
  induction bones generalizing index with
  | nil => rfl
  | cons c rest ih =>
    by_cases hc : c = '"'
    · have hword : (spelled literalTag index).filter keep = spelled literalTag index :=
        List.filter_eq_self.mpr fun d hd => hkeep d (spelling_name d hd)
      rw [hc, List.filter_cons_of_pos hquote, withNames_sign, withNames_sign, render_cons, render_cons,
        List.filter_append, ih, Glyph.text, hword]
    · rw [withNames_cons hc, render_cons, Glyph.text, List.singleton_append]
      by_cases hkept : keep c = true
      · rw [List.filter_cons_of_pos hkept, List.filter_cons_of_pos hkept, withNames_cons hc, ih]
        rfl
      · rw [List.filter_cons_of_neg hkept, List.filter_cons_of_neg hkept, ih]

theorem head?_withNames {x : Char} (hat : x ≠ '@') (hquote : x ≠ '"') (index : Nat)
    (bones : List Char) :
    (render (withNames index bones)).head? = some x ↔ bones.head? = some x := by
  cases bones with
  | nil => rfl
  | cons c rest =>
    by_cases hc : c = '"'
    · rw [hc, withNames_sign, render_cons, Glyph.text, spelled_eq]
      simp [hat.symm, hquote.symm]
    · rw [withNames_cons hc, render_cons, Glyph.text]
      simp

theorem signWise_squeeze {mark : Char} (hmark : isSpelling mark = false) (hquote : mark ≠ '"') :
    SignWise (squeeze mark) := by
  have hat : mark ≠ '@' := by
    rintro rfl
    exact absurd hmark (by decide)
  intro index bones
  induction bones generalizing index with
  | nil => rfl
  | cons c rest ih =>
    by_cases hc : c = '"'
    · have hkeep : squeeze mark ('"' :: rest) = '"' :: squeeze mark rest :=
        squeeze_cons (by simp [hquote.symm])
      rw [hc, hkeep, withNames_sign, withNames_sign, render_cons, render_cons, Glyph.text,
        squeeze_append (notMem_spelled hmark (by decide) index), ih]
    · rw [withNames_cons hc, render_cons, Glyph.text, List.singleton_append, squeeze, squeeze]
      simp only [head?_withNames hat hquote]
      split
      · exact ih index
      · rw [ih, withNames_cons hc]
        rfl

theorem signWise_tightenFrom (afterComma : Bool) : SignWise (tightenFrom afterComma) := by
  intro index bones
  induction bones generalizing index afterComma with
  | nil => rfl
  | cons c rest ih =>
    by_cases hc : c = '"'
    · have hquote : isBlank '"' = false := by decide
      have hsign : tightenFrom afterComma ('"' :: rest) = '"' :: tightenFrom false rest := by
        simp [tightenFrom, hquote]
      have hne : spelled literalTag index ≠ [] := by simp [spelled_eq]
      rw [hc, hsign, withNames_sign, withNames_sign, render_cons, render_cons, Glyph.text,
        tightenFrom_append spelling_name hne, ih]
    · rw [withNames_cons hc, render_cons, Glyph.text, List.singleton_append, tightenFrom, tightenFrom]
      split
      · exact ih true index
      · rw [ih, withNames_cons hc]
        rfl

/-- A word without `@` ends before the first name. -/
theorem prefix_withNames {word : List Char} (hat : '@' ∉ word) {index : Nat} {bones : List Char}
    (h : word <+: render (withNames index bones)) : word <+: bones := by
  obtain ⟨after, hafter⟩ := h
  obtain ⟨rest, hrest, -⟩ := render_eq_append hat hafter.symm
  have hsigns := congrArg (List.map Glyph.sign) hrest
  rw [signs_withNames, List.map_append, List.map_map] at hsigns
  have hself : word.map (Glyph.sign ∘ Glyph.char) = word := List.map_id word
  rw [hself] at hsigns
  exact ⟨_, hsigns.symm⟩

theorem signWise_conditionElse : SignWise conditionElse := by
  intro index bones
  have hat : ∀ word, IsElse word → '@' ∉ word := fun word h => notMem_else h (by decide) (by decide)
  have hquote : ∀ word, IsElse word → '"' ∉ word := fun word h => notMem_else h (by decide) (by decide)
  induction bones using else_induction generalizing index with
  | nil => rfl
  | word word body hword ih =>
    have harm : '"' ∉ elseArm := by decide
    rw [withNames_append (hquote word hword), render_append, render_map_char, conditionElse_word hword,
      conditionElse_word hword, ih, withNames_append harm, render_append, render_map_char]
  | cons c rest hnone ih =>
    by_cases hc : c = '"'
    · have hkept : ∀ {letters : List Char}, (∀ d ∈ letters, isSpelling d = true) →
          ∀ behind, conditionElse (letters ++ behind) = letters ++ conditionElse behind := by
        intro letters hletters behind
        exact passFrom_name between_conditioningElse hletters behind
      rw [conditionElse_cons hnone, hc, withNames_sign, withNames_sign, render_cons, render_cons,
        Glyph.text, hkept spelling_name, ih]
    · have hcons : conditionElse (c :: render (withNames index rest)) =
          c :: conditionElse (render (withNames index rest)) := by
        apply conditionElse_cons
        intro word hword hp
        have hstart : word <+: render (withNames index (c :: rest)) := by
          rw [withNames_cons hc]
          exact hp
        exact hnone word hword (prefix_withNames (hat word hword) hstart)
      rw [conditionElse_cons hnone, withNames_cons hc, withNames_cons hc, render_cons, render_cons,
        Glyph.text, List.singleton_append, hcons, ih]
      rfl

/-- **The layout does to names what it does to signs.** -/
theorem layout_withNames : SignWise layout := by
  have hinline : ∀ c, isSpelling c = true → isInline c = true := by
    intro c hc
    have hbounds := toNat_of_isSpelling hc
    have hne : ∀ x : Char, x.toNat < 0x24 → c ≠ x := by
      rintro x hx rfl
      omega
    simp [isInline, hne '\r' (by decide), hne '\t' (by decide), hne '\n' (by decide)]
  have hsteps : layout = fun text =>
      conditionElse (tightenFrom false (squeeze ' ' (text.filter isInline))) := by
    funext text
    rw [layout, normalise_eq]
    rfl
  rw [hsteps]
  exact (((signWise_filter hinline (by decide)).comp (signWise_squeeze (by decide) (by decide))).comp
    (signWise_tightenFrom false)).comp signWise_conditionElse

theorem mem_tightenFrom {x : Char} {afterComma : Bool} {text : List Char}
    (h : x ∈ tightenFrom afterComma text) : x ∈ text := by
  induction text generalizing afterComma with
  | nil => cases h
  | cons c rest ih =>
    rw [tightenFrom] at h
    split at h
    · exact List.mem_cons_of_mem c (ih h)
    · rcases List.mem_cons.mp h with rfl | h
      · exact List.mem_cons_self
      · exact List.mem_cons_of_mem c (ih h)

theorem notMem_layout {x : Char} (harm : x ∉ elseArm) {text : List Char} (h : x ∉ text) :
    x ∉ layout text := by
  intro hmem
  rw [layout, normalise_eq] at hmem
  have hwritten : ∀ text e, conditioningElse text = some e → x ∉ e.written := by
    intro text e he
    obtain ⟨word, hword, body, rfl⟩ := word_of_conditioningElse he
    rw [conditioningElse_word hword] at he
    cases he
    exact harm
  exact h (List.mem_filter.mp (mem_squeeze (mem_tightenFrom (mem_passFrom hwritten hmem)))).1

theorem count_withNames (index : Nat) (bones : List Char) :
    (names (withNames index bones)).length = bones.count '"' := by
  induction bones generalizing index with
  | nil => rfl
  | cons c rest ih =>
    by_cases hc : c = '"'
    · rw [hc, withNames_sign, names_name, List.length_cons, ih, List.count_cons_self]
    · rw [withNames_cons hc, names_char, ih, List.count_cons_of_ne hc]

/-- The layout has as many signs as the skeleton. The names of a text that is laid out are read back
as they were written, and the layout keeps the names of a text. -/
theorem count_layout {bones : List Char} (h : '^' ∉ bones) :
    (layout bones).count '"' = bones.count '"' := by
  have hlaid : '^' ∉ layout bones := notMem_layout (by decide) h
  obtain ⟨kept, hclean, heq, hnames⟩ := keeps_layout _ (clean_withNames h 0)
  have hrender : render kept = render (withNames 0 (layout bones)) :=
    heq.symm.trans (layout_withNames 0 bones)
  -- a table that is large enough for all the names
  let table : Placeholders := ⟨literalTag, List.replicate ((layout bones).count '"' + bones.count '"') []⟩
  have hsize : table.size = (layout bones).count '"' + bones.count '"' := List.length_replicate
  have htag : IsTag table.tag := show IsTag literalTag by decide
  have hown : ∀ {bones' : List Char}, bones'.count '"' ≤ table.size →
      ∀ tag n, .name tag n ∈ withNames 0 bones' → tag = table.tag ∧ n < table.size := by
    intro bones' hle tag n hmem
    rcases mem_withNames hmem with ⟨c, -, -, hchar⟩ | ⟨m, hm, hname⟩
    · cases hchar
    · cases hname
      exact ⟨rfl, by omega⟩
  have hread : kept = withNames 0 (layout bones) := by
    rw [← table.read_render_own htag hclean ?_, hrender]
    · apply table.read_render_own htag (clean_withNames hlaid 0)
      exact hown (by omega)
    · intro tag n hmem
      rw [← mem_names, hnames, mem_names] at hmem
      exact hown (by omega) tag n hmem
  rw [← count_withNames 0, ← count_withNames 0, ← hread, hnames]

/-! ## Laying a source out -/

/-- A source without carets, single quotes and the mark of a definition. -/
def IsPlain (source : List Char) : Prop := '^' ∉ source ∧ '\'' ∉ source ∧ '#' ∉ source

instance (source : List Char) : Decidable (IsPlain source) :=
  inferInstanceAs (Decidable ('^' ∉ source ∧ '\'' ∉ source ∧ '#' ∉ source))

section LayOut
variable {source : List Char} (h : IsPlain source)

include h

theorem keyword_stripComments : ¬ Alias.keyword <:+: stripComments source := by
  intro hin
  have hmark : '#' ∉ stripComments source := notMem_stripComments (by decide) h.2.2
  exact hmark (hin.subset (by decide))

theorem caret_skeleton : '^' ∉ skeleton (stripComments source) :=
  notMem_skeleton (by decide) (notMem_stripComments (by decide) h.1)

/-- **A source whose literals are closed is laid out by the layout of its skeleton.** -/
theorem layOut_eq (hclosed : LiteralsClosed (stripComments source)) :
    layOut source = .ok ⟨render (withNames 0 (layout (skeleton (stripComments source)))),
      ⟨literalTag, literals (stripComments source)⟩⟩ := by
  have hkeyword := keyword_stripComments h
  have hquote : '\'' ∉ render (withNames 0 (skeleton (stripComments source))) := by
    apply notMem_render_withNames (by decide)
    exact Or.inl (notMem_skeleton (by decide) (notMem_stripComments (by decide) h.2.1))
  have hstring : Delimiter.string.opener ∉ render (withNames 0 (skeleton (stripComments source))) :=
    notMem_render_withNames (by decide) (Or.inr rfl)
  have hlaid := layout_withNames 0 (skeleton (stripComments source))
  simp only [layOut, strip_eq_self hkeyword, collect_eq_nil hkeyword, hide_skeleton hclosed, bind,
    Except.bind, Alias.substitute, List.foldl_nil, hide_eq_self hstring, hideQuoted_eq_self hquote]
  rw [← hlaid]
  rfl

theorem closed_of_layOut {laid : Laid} (hlaid : layOut source = .ok laid) :
    LiteralsClosed (stripComments source) := by
  have hkeyword := keyword_stripComments h
  rw [layOut, strip_eq_self hkeyword] at hlaid
  obtain ⟨hidden, hhide, -⟩ := bind_eq_ok hlaid
  exact closed_of_hide_string hhide

end LayOut

end Cutscene.Source
