import Cutscene.Proofs.Text.Hiding

/-!
Cutting glyphs by their signs.

A glyph has one sign: a character is its own, and a name has a double quote. Groups and blocks are
delimited by characters that are neither in a name nor a sign of one, so where they close is the same
whether the names are written out or only their signs stand there (`closeFrom_written`). A text is cut
at the parts which the signs of its glyphs show (`cut_render`), and hiding succeeds just if it would on
the signs (`hide_render`, `closed_of_hide`). A text whose spans are closed is cut in the same way whatever
follows it (`cut_append`, `partsFrom_append`).
-/
namespace Cutscene.Text

/-! ## Signs -/

/-- The sign of a glyph. -/
def Glyph.sign : Glyph → Char
  | .char c => c
  | .name _ _ => '"'

/-- The sign of a part. -/
def Part.sign : Part → Char
  | .glyph single => single.sign
  | .span _ => '"'

/-- The sign of a piece. -/
def Piece.sign : Piece → Char
  | .plain c => c
  | .span _ => '"'
  | .unclosed _ => '"'

/-- The characters of names and of their signs. None of them is a backslash. -/
def isQuiet (c : Char) : Bool := isSpelling c || c = '"'

/-- Delimiters that are neither in a name nor a sign of one. -/
structure Delimiter.Bare (d : Delimiter) : Prop where
  opener : isQuiet d.opener = false
  closer : isQuiet d.closer = false

theorem bare_parenthesis : Delimiter.parenthesis.Bare := ⟨by decide, by decide⟩

theorem bare_brace : Delimiter.brace.Bare := ⟨by decide, by decide⟩

/-- A way of writing glyphs: a character as it is, and each of the names as a word of quiet
characters. -/
structure Quiets (write : Glyph → List Char) (glyphs : List Glyph) : Prop where
  char : ∀ c, write (.char c) = [c]
  name : ∀ tag n, .name tag n ∈ glyphs →
    write (.name tag n) ≠ [] ∧ ∀ c ∈ write (.name tag n), isQuiet c = true

theorem Quiets.tail {write : Glyph → List Char} {glyph : Glyph} {glyphs : List Glyph}
    (h : Quiets write (glyph :: glyphs)) : Quiets write glyphs where
  char := h.char
  name tag n hmem := h.name tag n (List.mem_cons_of_mem _ hmem)

theorem quiets_text {glyphs : List Glyph} (h : Clean glyphs) : Quiets Glyph.text glyphs where
  char c := rfl
  name tag n hmem := by
    refine ⟨by simp [Glyph.text, spelled_eq], fun c hc => ?_⟩
    have ht : IsTag tag := h _ hmem
    rw [isQuiet, isSpelling_of_mem_spelled ht hc, Bool.true_or]

theorem close_of_look {d : Delimiter} {c : Char} {rest : List Char} {more : Nat}
    (h : d.look c rest = .span more) : c = d.opener ∧ ∃ n, d.close rest = some n ∧ more = n + 1 := by
  rw [Delimiter.look] at h
  split at h
  · next hc =>
    split at h
    · next n hn => exact ⟨hc, n, hn, by simpa using h.symm⟩
    · cases h
  · cases h

section Bare
variable {d : Delimiter} (bare : d.Bare)

include bare

/-- A quiet word is passed over, and what follows it is not behind a backslash. -/
theorem closeFrom_quiet {word : List Char} (hne : word ≠ []) (h : ∀ c ∈ word, isQuiet c = true)
    (depth : Nat) (previous : Char) (rest : List Char) :
    d.closeFrom depth previous (word ++ rest) =
      (d.closeFrom depth '"' rest).map (· + word.length) := by
  induction word generalizing previous with
  | nil => exact absurd rfl hne
  | cons c word ih =>
    have hquiet := h c (by simp)
    have hopen : c ≠ d.opener := fun heq => by
      rw [heq, bare.opener] at hquiet
      cases hquiet
    have hclose : c ≠ d.closer := fun heq => by
      rw [heq, bare.closer] at hquiet
      cases hquiet
    have hslash : c ≠ '\\' := fun heq => by
      rw [heq] at hquiet
      exact absurd hquiet (by decide)
    have hstep : d.closeFrom depth previous (c :: (word ++ rest)) =
        (d.closeFrom depth c (word ++ rest)).map (· + 1) := by
      rw [Delimiter.closeFrom.eq_def]
      simp only [if_neg hclose, if_neg hopen]
    rw [List.cons_append, hstep]
    cases word with
    | nil =>
      have hsame : d.closeFrom depth c rest = d.closeFrom depth '"' rest :=
        closeFrom_previous d depth (by simp [hslash]) rest
      rw [List.nil_append, hsame, List.length_singleton]
    | cons x word =>
      rw [ih (by simp) fun y hy => h y (by simp [hy]), Option.map_map]
      rfl

/-- **Where a span closes is seen from the signs.** -/
theorem closeFrom_written {write : Glyph → List Char} {glyphs : List Glyph}
    (h : Quiets write glyphs) (depth : Nat) (previous : Char) :
    d.closeFrom depth previous (glyphs.flatMap write) =
      (d.closeFrom depth previous (glyphs.map Glyph.sign)).map
        fun n => ((glyphs.take n).flatMap write).length := by
  induction glyphs generalizing depth previous with
  | nil => rfl
  | cons glyph glyphs ih =>
    have hrest := ih h.tail
    rw [List.flatMap_cons, List.map_cons]
    cases glyph with
    | char c =>
      rw [h.char c, Glyph.sign, List.singleton_append]
      rcases closeFrom_cons d depth previous c with ⟨-, hclose⟩ | ⟨inner, hinner⟩
      · rw [hclose, hclose]
        rfl
      · rw [hinner, hinner, hrest, Option.map_map, Option.map_map]
        congr 1
        funext n
        simp [h.char c, Nat.add_comm]
    | name tag n =>
      obtain ⟨hne, hquiet⟩ := h.name tag n (by simp)
      have hquote : ∀ c ∈ ['"'], isQuiet c = true := by simp [isQuiet]
      have hsign : d.closeFrom depth previous ('"' :: glyphs.map Glyph.sign) =
          (d.closeFrom depth '"' (glyphs.map Glyph.sign)).map (· + 1) :=
        closeFrom_quiet bare (List.cons_ne_nil '"' []) hquote depth previous _
      rw [closeFrom_quiet bare hne hquiet, Glyph.sign, hsign, hrest, Option.map_map, Option.map_map]
      congr 1
      funext m
      simp [Nat.add_comm]

/-- The glyph at which a span closes is the closer itself. -/
theorem take_of_close {glyphs : List Glyph} {n : Nat}
    (h : d.close (glyphs.map Glyph.sign) = some n) :
    glyphs.take (n + 1) = glyphs.take n ++ [.char d.closer] := by
  obtain ⟨body, after, heq, hlength, -⟩ := closeFrom_some h
  obtain ⟨a, b, rfl, rfl, hb⟩ := List.map_eq_append_iff.mp heq
  obtain ⟨x, b, rfl, hx, -⟩ := List.map_eq_cons_iff.mp hb
  have hchar : x = .char d.closer := by
    cases x with
    | char c => rw [← hx]; rfl
    | name tag m =>
      have hquote : d.closer = '"' := hx.symm
      exact absurd bare.closer (by rw [hquote]; decide)
  rw [List.length_map] at hlength
  rw [← hlength, hchar]
  simp [List.take_append, List.take_of_length_le]

/-- What stands at a character is seen from the signs behind it. -/
theorem look_span {write : Glyph → List Char} {glyphs : List Glyph} (h : Quiets write glyphs)
    {c : Char} {more : Nat} (hlook : d.look c (glyphs.map Glyph.sign) = .span more) :
    d.look c (glyphs.flatMap write) = .span ((glyphs.take more).flatMap write).length := by
  obtain ⟨rfl, n, hn, rfl⟩ := close_of_look hlook
  rw [Delimiter.look, if_pos rfl, Delimiter.close, closeFrom_written bare h, ← Delimiter.close, hn,
    take_of_close bare hn]
  simp [h.char]

theorem look_unclosed {write : Glyph → List Char} {glyphs : List Glyph} (h : Quiets write glyphs)
    {c : Char} (hlook : d.look c (glyphs.map Glyph.sign) = .unclosed) :
    d.look c (glyphs.flatMap write) = .unclosed := by
  rw [Delimiter.look] at hlook ⊢
  split at hlook
  · next hc =>
    rw [if_pos hc]
    split at hlook
    · cases hlook
    · next hnone => rw [Delimiter.close, closeFrom_written bare h, ← Delimiter.close, hnone]; rfl
  · cases hlook

end Bare

theorem look_eq_plain {d : Delimiter} {c : Char} {rest : List Char} :
    d.look c rest = .plain ↔ c ≠ d.opener := by
  rw [Delimiter.look]
  split
  · next hc =>
    split
    · simp [hc]
    · simp [hc]
  · next hc => simp [hc]

/-! ## Parts by their signs -/

/-- The parts of glyphs at the spans that their signs show, where the first `skip` glyphs belong to a
span already cut. -/
def Delimiter.partsFrom (d : Delimiter) : Nat → List Glyph → List Part
  | _, [] => []
  | skip + 1, _ :: rest => d.partsFrom skip rest
  | 0, glyph :: rest =>
    match d.look glyph.sign (rest.map Glyph.sign) with
    | .span more => .span (glyph :: rest.take more) :: d.partsFrom more rest
    | _ => .glyph glyph :: d.partsFrom 0 rest

/-- The parts of glyphs at the spans that their signs show. -/
def Delimiter.parts (d : Delimiter) (glyphs : List Glyph) : List Part := d.partsFrom 0 glyphs

/-- Joined again, the parts are the glyphs. -/
theorem glyphs_partsFrom (d : Delimiter) (skip : Nat) (glyphs : List Glyph) :
    (d.partsFrom skip glyphs).flatMap Part.glyphs = glyphs.drop skip := by
  induction glyphs generalizing skip with
  | nil => cases skip <;> rfl
  | cons glyph glyphs ih =>
    cases skip with
    | succ skip => exact ih skip
    | zero =>
      rw [Delimiter.partsFrom]
      split
      · next more _ =>
        rw [List.flatMap_cons, ih, Part.glyphs, List.cons_append, List.take_append_drop]
        rfl
      · rw [List.flatMap_cons, ih]
        rfl

theorem glyphs_parts (d : Delimiter) (glyphs : List Glyph) :
    (d.parts glyphs).flatMap Part.glyphs = glyphs := glyphs_partsFrom d 0 glyphs

/-- The pieces of the signs have the signs of the parts. -/
theorem signs_partsFrom {d : Delimiter} {skip : Nat} {glyphs : List Glyph}
    (h : unclosedText (cutFrom d.look skip (glyphs.map Glyph.sign)) = none) :
    (cutFrom d.look skip (glyphs.map Glyph.sign)).map Piece.sign =
      (d.partsFrom skip glyphs).map Part.sign := by
  induction glyphs generalizing skip with
  | nil => cases skip <;> rfl
  | cons glyph glyphs ih =>
    cases skip with
    | succ skip => exact ih h
    | zero =>
      rw [List.map_cons, cutFrom] at h ⊢
      rw [Delimiter.partsFrom]
      cases hlook : d.look glyph.sign (glyphs.map Glyph.sign) with
      | plain =>
        simp only [hlook, unclosedText] at h ⊢
        rw [List.map_cons, List.map_cons, ih h]
        rfl
      | span more =>
        simp only [hlook, unclosedText] at h ⊢
        rw [List.map_cons, List.map_cons, ih h]
        rfl
      | unclosed => simp [hlook, unclosedText] at h

theorem signs_parts {d : Delimiter} {glyphs : List Glyph}
    (h : unclosedText (d.cut (glyphs.map Glyph.sign)) = none) :
    (d.cut (glyphs.map Glyph.sign)).map Piece.sign = (d.parts glyphs).map Part.sign :=
  signs_partsFrom h

theorem unclosedText_pieces (parts : List Part) :
    unclosedText (parts.flatMap Part.pieces) = none := by
  induction parts with
  | nil => rfl
  | cons part parts ih =>
    cases part with
    | glyph single => rw [List.flatMap_cons, Part.pieces, unclosedText_plain, ih]
    | span glyphs => exact ih

/-- **A text is cut where the signs of its glyphs are.** -/
theorem cut_renderFrom {d : Delimiter} (bare : d.Bare) {glyphs : List Glyph} (h : Clean glyphs)
    (skip : Nat) :
    if unclosedText (cutFrom d.look skip (glyphs.map Glyph.sign)) = none then
      d.cut (render (glyphs.drop skip)) = (d.partsFrom skip glyphs).flatMap Part.pieces
    else unclosedText (d.cut (render (glyphs.drop skip))) ≠ none := by
  induction glyphs generalizing skip with
  | nil =>
    have hnil : cutFrom d.look skip [] = [] := by cases skip <;> rfl
    have hparts : d.partsFrom skip [] = [] := by cases skip <;> rfl
    have hclosed : unclosedText [] = none := rfl
    rw [List.map_nil, hnil, if_pos hclosed, hparts, List.drop_nil]
    rfl
  | cons glyph glyphs ih =>
    obtain ⟨hg, hrest⟩ := clean_cons.mp h
    cases skip with
    | succ skip => exact ih hrest skip
    | zero =>
      rw [List.map_cons, cutFrom, Delimiter.partsFrom, List.drop_zero, render_cons]
      cases glyph with
      | name tag n =>
        have hplain : ∀ x rest, isQuiet x = true → d.look x rest = .plain := by
          intro x rest hx
          apply look_eq_plain.mpr
          intro heq
          rw [heq, bare.opener] at hx
          cases hx
        have hword : ∀ c ∈ spelled tag n, ∀ rest, d.look c rest = .plain := by
          intro c hc rest
          apply hplain
          rw [isQuiet, isSpelling_of_mem_spelled hg hc, Bool.true_or]
        have hnext := ih hrest 0
        rw [List.drop_zero] at hnext
        rw [Glyph.sign, Delimiter.cut, Glyph.text, cutFrom_plain hword,
          hplain '"' _ (by decide), unclosedText_plain]
        simp only [unclosedText, List.flatMap_cons, Part.pieces, Glyph.text]
        rw [List.append_cancel_left_eq]
        exact hnext
      | char c =>
        have hquiet := quiets_text hrest
        rw [Glyph.sign, Glyph.text, List.singleton_append, Delimiter.cut, cutFrom]
        cases hlook : d.look c (glyphs.map Glyph.sign) with
        | plain =>
          have hnext := ih hrest 0
          rw [List.drop_zero] at hnext
          rw [look_eq_plain.mpr (look_eq_plain.mp hlook)]
          simp only [unclosedText, List.flatMap_cons, Part.pieces, Glyph.text, List.map_cons,
            List.map_nil, List.singleton_append, List.cons.injEq, true_and]
          exact hnext
        | span more =>
          have hnext := ih hrest more
          have hwritten := look_span bare hquiet hlook
          have hsplit : render glyphs = render (glyphs.take more) ++ render (glyphs.drop more) := by
            rw [← render_append, List.take_append_drop]
          rw [← render, ← render] at hwritten
          rw [hwritten]
          simp only [unclosedText, List.flatMap_cons, Part.pieces, List.singleton_append]
          rw [hsplit, List.take_left, cutFrom_drop d.look (render _).length, List.drop_left]
          simpa [Glyph.text, Delimiter.cut] using hnext
        | unclosed =>
          have hwritten := look_unclosed bare hquiet hlook
          rw [← render] at hwritten
          simp [hwritten, unclosedText]

section Hide
variable {d : Delimiter} (bare : d.Bare) {glyphs : List Glyph} (h : Clean glyphs)

include bare h

theorem cut_render (hclosed : unclosedText (d.cut (glyphs.map Glyph.sign)) = none) :
    d.cut (render glyphs) = (d.parts glyphs).flatMap Part.pieces := by
  have hcut := cut_renderFrom bare h 0
  rwa [← Delimiter.cut, if_pos hclosed] at hcut

/-- **Hiding writes names for the parts that are spans**, where the signs show that all are closed. -/
theorem hide_render (hclosed : unclosedText (d.cut (glyphs.map Glyph.sign)) = none)
    (tag suffix : List Char) :
    hide d { suffix := suffix } (render glyphs) ⟨tag, []⟩ =
      .ok (render (concealed tag suffix 0 (d.parts glyphs)),
        ⟨tag, (hiddenIn (d.parts glyphs)).map render⟩) := by
  have hcut := cut_render bare h hclosed
  simp only [hide, hcut, unclosedText_pieces, conceal_parts]
  rfl

/-- Where hiding succeeds, the signs show that all spans are closed. -/
theorem closed_of_hide {style : SpanStyle} {table : Placeholders} {hidden : List Char × Placeholders}
    (hhide : hide d style (render glyphs) table = .ok hidden) :
    unclosedText (d.cut (glyphs.map Glyph.sign)) = none := by
  have hcut := cut_renderFrom bare h 0
  rw [← Delimiter.cut] at hcut
  simp only [hide] at hhide
  split at hhide
  · cases hhide
  · next hclosed =>
    apply Decidable.not_not.mp
    intro hopen
    rw [if_neg hopen] at hcut
    exact hcut hclosed

end Hide

theorem signs_concealed (tag : List Char) (index : Nat) (parts : List Part) :
    (concealed tag [] index parts).map Glyph.sign = parts.map Part.sign := by
  induction parts generalizing index with
  | nil => rfl
  | cons part parts ih => cases part <;> simp [concealed, Glyph.sign, Part.sign, ih]

/-! ## One text after another -/

theorem unclosedText_append {a : List Piece} (h : unclosedText a = none) (b : List Piece) :
    unclosedText (a ++ b) = unclosedText b := by
  induction a with
  | nil => rfl
  | cons piece a ih =>
    cases piece with
    | plain c => exact ih h
    | span text => exact ih h
    | unclosed text => cases h

section Cut
variable {d : Delimiter}

/-- What stands at a position of a text whose spans are closed does not depend on what follows the
text. -/
theorem look_append {c : Char} {rest : List Char} (h : d.look c rest ≠ .unclosed) (b : List Char) :
    d.look c (rest ++ b) = d.look c rest ∧ ∀ more, d.look c rest = .span more → more ≤ rest.length := by
  by_cases hc : c = d.opener
  · cases hclose : d.close rest with
    | none =>
      refine absurd ?_ h
      rw [Delimiter.look, if_pos hc, hclose]
    | some n =>
      obtain ⟨body, after, rfl, rfl, hother⟩ := closeFrom_some hclose
      have hsame : d.close (body ++ d.closer :: after ++ b) = some body.length := by
        rw [List.append_assoc]
        exact hother (after ++ b)
      refine ⟨?_, fun more hmore => ?_⟩
      · rw [Delimiter.look, Delimiter.look, hclose, hsame]
      · obtain ⟨-, n, hn, rfl⟩ := close_of_look hmore
        obtain rfl : body.length = n := by simpa [hclose] using hn
        simp
  · have hplain : ∀ rest, d.look c rest = .plain := fun rest => look_eq_plain.mpr hc
    refine ⟨by rw [hplain, hplain], fun more hmore => ?_⟩
    rw [hplain] at hmore
    cases hmore

theorem cutFrom_append {skip : Nat} {a : List Char} (hskip : skip ≤ a.length)
    (h : unclosedText (cutFrom d.look skip a) = none) (b : List Char) :
    cutFrom d.look skip (a ++ b) = cutFrom d.look skip a ++ d.cut b := by
  induction a generalizing skip with
  | nil =>
    obtain rfl : skip = 0 := by simpa using hskip
    rfl
  | cons c a ih =>
    cases skip with
    | succ skip => exact ih (by simpa using hskip) h
    | zero =>
      rw [cutFrom] at h
      rw [List.cons_append, cutFrom, cutFrom]
      have hlook : d.look c a ≠ .unclosed := by
        intro hlook
        simp [hlook, unclosedText] at h
      obtain ⟨hsame, hmore⟩ := look_append hlook b
      rw [hsame]
      cases hsight : d.look c a with
      | unclosed => exact absurd hsight hlook
      | plain =>
        simp only [hsight, unclosedText] at h ⊢
        rw [ih (Nat.zero_le _) h]
        rfl
      | span more =>
        simp only [hsight, unclosedText] at h ⊢
        rw [ih (hmore more hsight) h, List.take_append_of_le_length (hmore more hsight)]
        rfl

/-- **Texts are cut one after the other**, where all spans of the first are closed. -/
theorem cut_append {a : List Char} (h : unclosedText (d.cut a) = none) (b : List Char) :
    d.cut (a ++ b) = d.cut a ++ d.cut b := cutFrom_append (Nat.zero_le _) h b

theorem cut_plain {word : List Char} (h : d.opener ∉ word) : d.cut word = word.map .plain := by
  have hcut := cutFrom_plain (look_plain h) []
  rw [List.append_nil] at hcut
  rw [Delimiter.cut, hcut]
  exact List.append_nil _

theorem closed_plain {word : List Char} (h : d.opener ∉ word) : unclosedText (d.cut word) = none := by
  have hclosed := unclosedText_plain word []
  rw [List.append_nil] at hclosed
  rw [cut_plain h, hclosed]
  rfl

end Cut

theorem partsFrom_append {d : Delimiter} {skip : Nat} {a : List Glyph} (hskip : skip ≤ a.length)
    (h : unclosedText (cutFrom d.look skip (a.map Glyph.sign)) = none) (b : List Glyph) :
    d.partsFrom skip (a ++ b) = d.partsFrom skip a ++ d.parts b := by
  induction a generalizing skip with
  | nil =>
    obtain rfl : skip = 0 := by simpa using hskip
    rfl
  | cons glyph a ih =>
    cases skip with
    | succ skip => exact ih (by simpa using hskip) h
    | zero =>
      rw [List.map_cons, cutFrom] at h
      rw [List.cons_append, Delimiter.partsFrom, Delimiter.partsFrom, List.map_append]
      have hlook : d.look glyph.sign (a.map Glyph.sign) ≠ .unclosed := by
        intro hlook
        simp [hlook, unclosedText] at h
      obtain ⟨hsame, hmore⟩ := look_append hlook (b.map Glyph.sign)
      rw [hsame]
      cases hsight : d.look glyph.sign (a.map Glyph.sign) with
      | unclosed => exact absurd hsight hlook
      | plain =>
        simp only [hsight, unclosedText] at h ⊢
        rw [ih (Nat.zero_le _) h]
        rfl
      | span more =>
        have hle : more ≤ a.length := by simpa using hmore more hsight
        simp only [hsight, unclosedText] at h ⊢
        rw [ih hle h, List.take_append_of_le_length hle]
        rfl

/-- A part with each of its glyphs changed. -/
def Part.mapped (f : Glyph → Glyph) : Part → Part
  | .glyph single => .glyph (f single)
  | .span glyphs => .span (glyphs.map f)

/-- Where the parts are depends on the signs. -/
theorem partsFrom_map {d : Delimiter} {f : Glyph → Glyph} (h : ∀ glyph, (f glyph).sign = glyph.sign)
    (skip : Nat) (glyphs : List Glyph) :
    d.partsFrom skip (glyphs.map f) = (d.partsFrom skip glyphs).map (Part.mapped f) := by
  have hsigns : ∀ glyphs : List Glyph, (glyphs.map f).map Glyph.sign = glyphs.map Glyph.sign := by
    intro glyphs
    rw [List.map_map]
    exact List.map_congr_left fun glyph _ => h glyph
  induction glyphs generalizing skip with
  | nil => cases skip <;> rfl
  | cons glyph glyphs ih =>
    cases skip with
    | succ skip => exact ih skip
    | zero =>
      rw [List.map_cons, Delimiter.partsFrom, Delimiter.partsFrom, h, hsigns]
      split
      · rw [ih, ← List.map_take]
        rfl
      · rw [ih]
        rfl

end Cutscene.Text
