import Cutscene.Proofs.Source.Brackets
import Cutscene.Proofs.Statement.Lifting
import Cutscene.Proofs.Text.RoundTrip
import Cutscene.Statement.Shape

/-!
Statements with their literals and objects hidden.

A statement is split while its literals and objects are hidden. What is left are glyphs (`veiled`),
each of which stands for a text of its own (`unveiled`): put in their places, the texts are the
statement again (`flatMap_unveiled`), and restoring glyphs puts these texts in their places
(`restore_glyphs`), also around the markers of a template (`restore_template`).

The surface of a text has a sign in the place of each of its literals and objects. Texts that are
closed come one after the other on the surface, so the texts of glyphs show their signs and nothing
else (`shows_unveiled`).
-/
namespace Cutscene.Shape

open Text Source

/-! ## What is hidden -/

/-- The tag of objects. -/
def objectTag : List Char := "object".toList

/-- The objects of a text, with the names of its literals between them. -/
def objectParts (text : List Char) : List Part := Delimiter.brace.parts (withNames 0 (skeleton text))

/-- A text with its literals and objects hidden. -/
def veiled (text : List Char) : List Glyph := concealed objectTag [] 0 (objectParts text)

/-- The table of the literals of a text. -/
def literalTable (text : List Char) : Placeholders := ⟨literalTag, literals text⟩

/-- The table of its objects, with the names of the literals in them. -/
def objectTable (text : List Char) : Placeholders :=
  ⟨objectTag, (hiddenIn (objectParts text)).map render⟩

/-- The tables of a text. -/
def tables (text : List Char) : Hidden := ⟨literalTable text, objectTable text⟩

/-- What a glyph stands for in a text whose literals and objects are hidden. -/
def unveiled (text : List Char) (glyph : Glyph) : List Char :=
  (unfolded objectTag (hiddenIn (objectParts text)) glyph).flatMap (literalTable text).fill

/-- All literals of a text are closed, and all its objects. -/
structure Closed (text : List Char) : Prop where
  literals : LiteralsClosed text
  objects : unclosedText (Delimiter.brace.cut (skeleton text)) = none

section Text
variable {text : List Char} (hcaret : '^' ∉ text)

include hcaret

theorem clean_objectParts : Clean ((objectParts text).flatMap Part.glyphs) := by
  rw [objectParts, glyphs_parts]
  exact clean_withNames (notMem_skeleton (by decide) hcaret) 0

theorem clean_veiled : Clean (veiled text) :=
  clean_concealed (show IsTag objectTag by decide) (by simp) 0 (clean_objectParts hcaret)

/-- Restoring glyphs puts the texts in their places that they stand for. -/
theorem restore_glyphs {glyphs : List Glyph} (h : Clean glyphs) :
    (tables text).restore (render glyphs) = glyphs.flatMap (unveiled text) := by
  have hspans : ∀ span ∈ hiddenIn (objectParts text), Clean span :=
    clean_hiddenIn (clean_objectParts hcaret)
  have htag : IsTag (literalTable text).tag := show IsTag literalTag by decide
  rw [Hidden.restore, tables, objectTable, restore_render_unfolded (by decide) _ h,
    Placeholders.restore_render htag (clean_unfolded hspans h), List.flatMap_assoc]
  rfl

end Text

/-- Hiding spans under a new tag is undone by putting them in the places of their names. -/
theorem unfolded_concealed (d : Delimiter) {tag : List Char} {glyphs : List Glyph}
    (h : ∀ n, .name tag n ∉ glyphs) :
    (concealed tag [] 0 (d.parts glyphs)).flatMap (unfolded tag (hiddenIn (d.parts glyphs))) = glyphs := by
  have hnone : ∀ n, .glyph (.name tag n) ∈ d.parts glyphs → n < ([] : List (List Glyph)).length := by
    intro n hmem
    have hin := mem_parts hmem
    rw [glyphs_parts] at hin
    exact absurd hin (h n)
  have hunfolded := concealed_unfolded [] [] hnone
  have hparts : (d.parts glyphs).flatMap (Part.restored tag [] []) = glyphs := by
    refine Eq.trans ?_ (glyphs_parts d glyphs)
    exact List.flatMap_congr fun part _ => restored_eq_glyphs tag part
  rw [List.length_nil, List.nil_append, hparts] at hunfolded
  exact hunfolded

/-- With its objects put back, a text has the names of its literals in it. -/
theorem flatMap_opened (text : List Char) :
    (veiled text).flatMap (unfolded objectTag (hiddenIn (objectParts text))) =
      withNames 0 (skeleton text) := by
  apply unfolded_concealed .brace
  intro n hmem
  rcases mem_withNames hmem with ⟨c, -, -, hchar⟩ | ⟨m, -, hname⟩
  · cases hchar
  · exact absurd (Glyph.name.inj hname).1 (by decide)

/-- With its literals put back as well, it is the text. -/
theorem fill_skeleton {text : List Char} (h : LiteralsClosed text) :
    (withNames 0 (skeleton text)).flatMap (literalTable text).fill = text :=
  (fill_withNames (Nat.le_of_eq (count_skeleton h)) []).trans (fillIn_skeleton h)

/-- **Each glyph unveiled, a text is as it was.** -/
theorem flatMap_unveiled {text : List Char} (h : LiteralsClosed text) :
    (veiled text).flatMap (unveiled text) = text := by
  calc (veiled text).flatMap (unveiled text)
    _ = ((veiled text).flatMap (unfolded objectTag (hiddenIn (objectParts text)))).flatMap
          (literalTable text).fill := List.flatMap_assoc.symm
    _ = (withNames 0 (skeleton text)).flatMap (literalTable text).fill :=
      congrArg (List.flatMap _) (flatMap_opened text)
    _ = text := fill_skeleton h

/-! ## The surface of a text -/

/-- The surface of a text: a sign in the place of each of its literals and of its objects. -/
def surface (text : List Char) : List Char := (Delimiter.brace.cut (skeleton text)).map Piece.sign

/-- A text that is closed, with the given surface. -/
structure Shows (text signs : List Char) : Prop extends Closed text where
  surface_eq : surface text = signs

namespace Shows

theorem append {a b s t : List Char} (ha : Shows a s) (hb : Shows b t) : Shows (a ++ b) (s ++ t) where
  literals := (literalsClosed_append ha.literals b).mpr hb.literals
  objects := by
    rw [skeleton_append ha.literals, cut_append ha.objects, unclosedText_append ha.objects]
    exact hb.objects
  surface_eq := by
    rw [surface, skeleton_append ha.literals, cut_append ha.objects, List.map_append, ← surface,
      ← surface, ha.surface_eq, hb.surface_eq]

theorem plain {word : List Char} (hquote : '"' ∉ word) (hopen : '\x7b' ∉ word) : Shows word word where
  literals := literalsClosed_plain hquote
  objects := by
    rw [skeleton_plain hquote]
    exact closed_plain (d := .brace) hopen
  surface_eq := by
    rw [surface, skeleton_plain hquote, cut_plain (d := .brace) hopen, List.map_map]
    exact List.map_id word

theorem flatMap {α : Type} {write : α → List Char} {sign : α → Char} {xs : List α}
    (h : ∀ x ∈ xs, Shows (write x) [sign x]) : Shows (xs.flatMap write) (xs.map sign) := by
  induction xs with
  | nil => exact plain (by simp) (by simp)
  | cons x xs ih =>
    obtain ⟨hx, hxs⟩ := List.forall_mem_cons.mp h
    exact hx.append (ih hxs)

end Shows

theorem writesLiterals_subset {write : Glyph → List Char} {glyphs more : List Glyph}
    (h : WritesLiterals write glyphs) (hsub : more ⊆ glyphs) : WritesLiterals write more where
  char := h.char
  plain c hmem := h.plain c (hsub hmem)
  name tag n hmem := h.name tag n (hsub hmem)

/-- A text of glyphs that are written with literals for their names has their signs for its
skeleton. -/
theorem skeleton_written {write : Glyph → List Char} {glyphs : List Glyph}
    (h : WritesLiterals write glyphs) :
    LiteralsClosed (glyphs.flatMap write) ∧
      skeleton (glyphs.flatMap write) = glyphs.map Glyph.sign := by
  induction glyphs with
  | nil => exact ⟨rfl, rfl⟩
  | cons glyph glyphs ih =>
    obtain ⟨hclosed, hskeleton⟩ := ih h.tail
    have hfirst : LiteralsClosed (write glyph) ∧ skeleton (write glyph) = [glyph.sign] := by
      cases glyph with
      | char c =>
        have hcode : '"' ∉ [c] := by simpa using (h.plain c (by simp)).symm
        rw [h.char c]
        exact ⟨literalsClosed_plain hcode, skeleton_plain hcode⟩
      | name tag n =>
        have hcut := cut_literal (h.name tag n (by simp)) []
        rw [List.append_nil] at hcut
        rw [LiteralsClosed, skeleton, hcut]
        exact ⟨rfl, rfl⟩
    rw [List.flatMap_cons, literalsClosed_append hfirst.1, skeleton_append hfirst.1, hfirst.2, hskeleton]
    exact ⟨hclosed, rfl⟩

section Parts
variable {d : Delimiter}

/-- A span is cut as one piece. -/
theorem cut_span {glyphs span : List Glyph} {skip : Nat} (h : .span span ∈ d.partsFrom skip glyphs) :
    d.cut (span.map Glyph.sign) = [.span (span.map Glyph.sign)] := by
  induction glyphs generalizing skip with
  | nil => cases skip <;> cases h
  | cons glyph glyphs ih =>
    cases skip with
    | succ skip => exact ih h
    | zero =>
      rw [Delimiter.partsFrom] at h
      split at h
      · next more hlook =>
        rcases List.mem_cons.mp h with hspan | h
        · cases hspan
          obtain ⟨hopen, n, hclose, rfl⟩ := close_of_look hlook
          obtain ⟨body, after, hbody, rfl, hother⟩ := closeFrom_some hclose
          have hinner : (glyphs.take (body.length + 1)).map Glyph.sign = body ++ [d.closer] := by
            rw [List.map_take, hbody]
            simp [List.take_append, List.take_of_length_le]
          have hagain : d.look glyph.sign (body ++ [d.closer]) = .span (body.length + 1) := by
            rw [Delimiter.look, if_pos hopen, Delimiter.close, hother []]
          rw [List.map_cons, hinner, Delimiter.cut, cutFrom, hagain]
          simp only
          rw [cutFrom_drop, List.take_of_length_le (by simp), List.drop_of_length_le (by simp)]
          rfl
        · exact ih h
      · rcases List.mem_cons.mp h with hglyph | h
        · cases hglyph
        · exact ih h

/-- A span begins with the opener and ends with the closer. -/
theorem span_ends (bare : d.Bare) {glyphs span : List Glyph} {skip : Nat}
    (h : .span span ∈ d.partsFrom skip glyphs) :
    ∃ inner, span = .char d.opener :: (inner ++ [.char d.closer]) := by
  induction glyphs generalizing skip with
  | nil => cases skip <;> cases h
  | cons glyph glyphs ih =>
    cases skip with
    | succ skip => exact ih h
    | zero =>
      rw [Delimiter.partsFrom] at h
      split at h
      · next more hlook =>
        rcases List.mem_cons.mp h with hspan | h
        · cases hspan
          obtain ⟨hopen, n, hclose, rfl⟩ := close_of_look hlook
          have hglyph : glyph = .char d.opener := by
            cases glyph with
            | char c => rw [← hopen]; rfl
            | name tag m =>
              have hquote : d.opener = '"' := hopen.symm
              exact absurd bare.opener (by rw [hquote]; decide)
          exact ⟨glyphs.take n, by rw [hglyph, take_of_close bare hclose]⟩
        · exact ih h
      · rcases List.mem_cons.mp h with hglyph | h
        · cases hglyph
        · exact ih h

/-- Where all spans are closed, no opener stands outside them. -/
theorem sign_ne_opener {glyphs : List Glyph} {single : Glyph} {skip : Nat}
    (hclosed : unclosedText (cutFrom d.look skip (glyphs.map Glyph.sign)) = none)
    (h : .glyph single ∈ d.partsFrom skip glyphs) : single.sign ≠ d.opener := by
  induction glyphs generalizing skip with
  | nil => cases skip <;> cases h
  | cons glyph glyphs ih =>
    cases skip with
    | succ skip => exact ih hclosed h
    | zero =>
      rw [List.map_cons, cutFrom] at hclosed
      rw [Delimiter.partsFrom] at h
      cases hlook : d.look glyph.sign (glyphs.map Glyph.sign) with
      | unclosed => simp [hlook, unclosedText] at hclosed
      | plain =>
        simp only [hlook, unclosedText] at hclosed h
        rcases List.mem_cons.mp h with hglyph | h
        · cases hglyph
          exact look_eq_plain.mp hlook
        · exact ih hclosed h
      | span more =>
        simp only [hlook, unclosedText] at hclosed h
        rcases List.mem_cons.mp h with hglyph | h
        · cases hglyph
        · exact ih hclosed h

end Parts

/-- Names that are filled in with the literals of a text stand for literals. -/
theorem writesLiterals {text : List Char} (h : LiteralsClosed text) :
    WritesLiterals (literalTable text).fill (withNames 0 (skeleton text)) :=
  writesLiterals_withNames (Nat.le_of_eq (count_skeleton h)) fun _ => isLiteral_of_mem

/-- A literal begins and ends with a quote, and a character is written as it is. -/
theorem ended_literal {write : Glyph → List Char} {glyphs : List Glyph} (h : WritesLiterals write glyphs)
    {p : Char → Bool} (hquote : p '"' = false) {glyph : Glyph} (hmem : glyph ∈ glyphs) :
    Ended (fun glyph => p glyph.sign) p write glyph := by
  cases glyph with
  | char c => exact Or.inl ⟨c, h.char c, rfl⟩
  | name tag n =>
    obtain ⟨body, hbody, -⟩ := h.name tag n hmem
    exact Or.inr ⟨hquote, ⟨'"', body ++ ['"'], hbody, hquote⟩, '"' :: body, '"', hbody, hquote⟩

/-- Glyphs with their literals filled in show what the blocks of their signs show. -/
theorem shows_filled {text : List Char} (h : LiteralsClosed text) {glyphs : List Glyph}
    (hsub : glyphs ⊆ withNames 0 (skeleton text))
    (hblocks : unclosedText (Delimiter.brace.cut (glyphs.map Glyph.sign)) = none) :
    Shows (glyphs.flatMap (literalTable text).fill)
      ((Delimiter.brace.cut (glyphs.map Glyph.sign)).map Piece.sign) := by
  obtain ⟨hclosed, hskeleton⟩ := skeleton_written (writesLiterals_subset (writesLiterals h) hsub)
  rw [← hskeleton] at hblocks ⊢
  exact ⟨⟨hclosed, hblocks⟩, rfl⟩

/-- A glyph outside the objects stands for a character or a literal. -/
theorem unveiled_outside {text : List Char} {glyph : Glyph} (h : glyph ∈ withNames 0 (skeleton text)) :
    unveiled text glyph = (literalTable text).fill glyph := by
  rcases mem_withNames h with ⟨c, -, -, rfl⟩ | ⟨m, -, rfl⟩
  · rfl
  · have htag : literalTag ≠ objectTag := by decide
    rw [unveiled, unfolded, if_neg htag, List.flatMap_singleton]

/-- **What a glyph stands for shows the sign of the glyph.** -/
theorem shows_unveiled {text : List Char} (h : Closed text) {glyph : Glyph} (hmem : glyph ∈ veiled text) :
    Shows (unveiled text glyph) [glyph.sign] := by
  rcases mem_concealed hmem with hglyph | ⟨c, hc, -⟩ | ⟨n, hn, rfl⟩
  · -- a character or a literal outside the objects
    have hin := mem_parts hglyph
    rw [objectParts, glyphs_parts] at hin
    have hopen : glyph.sign ≠ '\x7b' := by
      apply sign_ne_opener (d := .brace) _ hglyph
      rw [signs_withNames 0 (skeleton text)]
      exact h.objects
    have hword : Delimiter.brace.opener ∉ [glyph].map Glyph.sign :=
      fun hmem => hopen (List.mem_singleton.mp hmem).symm
    have hshows := shows_filled h.literals (by simpa using hin) (closed_plain hword)
    rw [cut_plain hword, List.flatMap_singleton, ← unveiled_outside hin] at hshows
    exact hshows
  · cases hc
  · -- an object with its literals
    rw [Nat.zero_add] at hn
    have hspan : .span (hiddenIn (objectParts text))[n] ∈ objectParts text :=
      mem_hiddenIn.mp (List.getElem_mem hn)
    have hsub : (hiddenIn (objectParts text))[n] ⊆ withNames 0 (skeleton text) := by
      intro glyph hglyph
      rw [← glyphs_parts .brace (withNames 0 (skeleton text))]
      exact List.mem_flatMap.mpr ⟨_, hspan, hglyph⟩
    have hcut := cut_span hspan
    have hshows := shows_filled h.literals hsub (by rw [hcut]; rfl)
    rw [hcut] at hshows
    rw [unveiled, unfolded, if_pos rfl, List.getElem?_eq_getElem hn, Option.getD_some]
    exact hshows

/-- **Seen from its ends, what a glyph stands for is its sign**, for a search that goes over neither
quotes nor braces. -/
theorem ended_unveiled {text : List Char} (h : LiteralsClosed text) {p : Char → Bool}
    (hquote : p '"' = false) (hopen : p '\x7b' = false) (hclose : p '\x7d' = false) {glyph : Glyph}
    (hmem : glyph ∈ veiled text) : Ended (fun glyph => p glyph.sign) p (unveiled text) glyph := by
  rcases mem_concealed hmem with hglyph | ⟨c, hc, -⟩ | ⟨n, hn, rfl⟩
  · have hin := mem_parts hglyph
    rw [objectParts, glyphs_parts] at hin
    have hended := ended_literal (writesLiterals h) hquote hin
    rwa [Ended, ← unveiled_outside hin] at hended
  · cases hc
  · rw [Nat.zero_add] at hn
    obtain ⟨inner, hinner⟩ := span_ends bare_brace (mem_hiddenIn.mp (List.getElem_mem hn))
    have hword : unveiled text (.name objectTag n) =
        '\x7b' :: (inner.flatMap (literalTable text).fill ++ ['\x7d']) := by
      rw [unveiled, unfolded, if_pos rfl, List.getElem?_eq_getElem hn, Option.getD_some, hinner,
        List.flatMap_cons, List.flatMap_append]
      rfl
    exact Or.inr ⟨hquote, ⟨'\x7b', _, hword, hopen⟩, '\x7b' :: _, '\x7d', hword, hclose⟩

/-! ## Texts with their literals whole -/

/-- A text stands in another, and neither of its ends is in a literal there. -/
def StandsWhole (text inner : List Char) : Prop :=
  ∃ before after, text = before ++ (inner ++ after) ∧ LiteralsClosed before ∧ LiteralsClosed inner

namespace StandsWhole
variable {text inner : List Char} (h : StandsWhole text inner)

include h

theorem isInfix : inner <:+: text := by
  obtain ⟨before, after, rfl, -, -⟩ := h
  exact ⟨before, after, by simp⟩

theorem trans {innermost : List Char} (h' : StandsWhole inner innermost) :
    StandsWhole text innermost := by
  obtain ⟨before, after, rfl, hbefore, -⟩ := h
  obtain ⟨front, back, rfl, hfront, hinnermost⟩ := h'
  exact ⟨before ++ front, back ++ after, by simp, (literalsClosed_append hbefore front).mpr hfront,
    hinnermost⟩

theorem tail {c : Char} {rest : List Char} (hinner : inner = c :: rest) (hc : c ≠ '"') :
    StandsWhole text rest := by
  subst hinner
  have hword : LiteralsClosed [c] := literalsClosed_plain (by simpa using hc.symm)
  obtain ⟨before, after, rfl, hbefore, hclosed⟩ := h
  exact ⟨before ++ [c], after, by simp, (literalsClosed_append hbefore [c]).mpr hword,
    (literalsClosed_append hword rest).mp hclosed⟩

theorem skeleton_isInfix : skeleton inner <:+: skeleton text := by
  obtain ⟨before, after, rfl, hbefore, hinner⟩ := h
  rw [skeleton_append hbefore, skeleton_append hinner]
  exact ⟨skeleton before, skeleton after, List.append_assoc _ _ _⟩

end StandsWhole

theorem standsWhole_trim {text : List Char} (h : LiteralsClosed (trim text)) :
    StandsWhole text (trim text) := by
  obtain ⟨before, behind, hbefore, -, heq⟩ := exists_blanks_trim text
  exact ⟨before, behind, heq, literalsClosed_plain (notMem_blanks hbefore (by decide)), h⟩

/-- Some of the glyphs stand in all of them, each name with the literal that it stands for. -/
theorem standsWhole_filled {text : List Char} (h : LiteralsClosed text) {outer inner : List Glyph}
    (hsub : outer ⊆ withNames 0 (skeleton text)) (hin : inner <:+: outer) :
    StandsWhole (outer.flatMap (literalTable text).fill) (inner.flatMap (literalTable text).fill) := by
  have hclosed : ∀ {glyphs}, glyphs ⊆ outer → LiteralsClosed (glyphs.flatMap (literalTable text).fill) :=
    fun hwithin =>
      (skeleton_written (writesLiterals_subset (writesLiterals h) (List.Subset.trans hwithin hsub))).1
  obtain ⟨front, back, rfl⟩ := hin
  refine ⟨front.flatMap (literalTable text).fill, back.flatMap (literalTable text).fill, by simp,
    hclosed (by simp), hclosed (by simp)⟩

/-- What some of the glyphs of a text stand for stands in what all of them stand for. -/
theorem standsWhole_unveiled {text : List Char} (h : LiteralsClosed text) {outer inner : List Glyph}
    (houter : outer <:+: veiled text) (hin : inner <:+: outer) :
    StandsWhole (outer.flatMap (unveiled text)) (inner.flatMap (unveiled text)) := by
  let opened := unfolded objectTag (hiddenIn (objectParts text))
  have hsub : outer.flatMap opened ⊆ withNames 0 (skeleton text) := by
    rw [← flatMap_opened]
    exact (houter.flatMap opened).subset
  have hwhole := standsWhole_filled h hsub (hin.flatMap opened)
  rwa [List.flatMap_assoc, List.flatMap_assoc] at hwhole

/-! ## Templates -/

section Restoring
variable {table : Placeholders} (ht : IsTag table.tag)

include ht

/-- A marker is no name: a digit stands where the name would have a colon. -/
theorem nameAt_marker (n : Nat) (rest : List Char) :
    table.nameAt (Condition.marker n ++ rest) = none := by
  refine Placeholders.nameAt_none_iff.mpr fun m _ hp => ?_
  obtain ⟨more, heq⟩ := hp
  obtain ⟨c, digits, hdigits⟩ := List.exists_cons_of_ne_nil (Nat.toDigits_ne_nil (b := 10) (n := n))
  have hmem : c ∈ Nat.toDigits 10 n := by
    rw [hdigits]
    exact List.mem_cons_self
  have hc : c.isDigit = true := isDigit_of_mem_digits hmem
  have hletter : c.isAlpha = false := by
    rw [Bool.eq_false_iff]
    intro halpha
    simp only [Char.isAlpha, Char.isUpper, Char.isLower, Char.isDigit, Bool.or_eq_true,
      Bool.and_eq_true, decide_eq_true_eq, UInt32.le_iff_toNat_le] at halpha hc
    simp at halpha hc
    omega
  -- behind the letters stands a colon in the name, and a digit in the marker
  have hname := dropWhile_append_cons (p := Char.isAlpha) (x := ':') (by decide) table.tag
    (Nat.toDigits 10 m ++ ['$', '@'] ++ more)
  have hmarker := dropWhile_append_cons (p := Char.isAlpha) (x := c) hletter
    ['s', 't', 'a', 't', 'e', 'm', 'e', 'n', 't'] (digits ++ ['$', '@'] ++ rest)
  have hinner : table.tag ++ ':' :: (Nat.toDigits 10 m ++ ['$', '@'] ++ more) =
      ['s', 't', 'a', 't', 'e', 'm', 'e', 'n', 't'] ++ c :: (digits ++ ['$', '@'] ++ rest) := by
    simpa [spelled_eq, Condition.marker, hdigits] using heq
  rw [← hinner, hname, List.dropWhile_eq_nil_iff.mpr ht] at hmarker
  obtain rfl : ':' = c := (List.cons.inj hmarker).1
  exact absurd hc (by decide)

/-- A marker is restored as it is. -/
theorem restore_marker (n : Nat) {rest : List Char} (hrest : rest.head? ≠ some '^') :
    table.restore (Condition.marker n ++ rest) = Condition.marker n ++ table.restore rest := by
  obtain ⟨inner, hinner, hat⟩ : ∃ inner, Condition.marker n = '@' :: (inner ++ ['@']) ∧ '@' ∉ inner := by
    exact ⟨['^', 's', 't', 'a', 't', 'e', 'm', 'e', 'n', 't'] ++ Nat.toDigits 10 n ++ ['$'],
      by simp [Condition.marker], Condition.notMem_digits (by decide) (by decide) (by decide)⟩
  have hnone := nameAt_marker ht n rest
  have hlast : table.nameAt ('@' :: rest) = none := Placeholders.nameAt_none (Or.inr hrest)
  have hread : table.read (Condition.marker n ++ rest) =
      (Condition.marker n).map .char ++ table.read rest := by
    rw [hinner] at hnone ⊢
    simp only [List.cons_append, List.append_assoc, List.nil_append] at hnone ⊢
    rw [Placeholders.read, Placeholders.readFrom, hnone, ← Placeholders.read,
      Placeholders.read_append hat]
    simp [Placeholders.read, Placeholders.readFrom, hlast]
  have hchars : ∀ text : List Char, (text.map Glyph.char).flatMap table.fill = text := by
    intro text
    induction text with
    | nil => rfl
    | cons c text ih => simp [Placeholders.fill, ih]
  rw [Placeholders.restore_eq_fill, Placeholders.restore_eq_fill, hread, List.flatMap_append, hchars]

/-- **Restoring goes around the markers of a template.** -/
theorem restore_templateFrom {pieces : List (Condition.Stretch Glyph)}
    (h : ∀ piece ∈ pieces, Clean piece.items) (n : Nat) :
    table.restore (Condition.templateFrom n (pieces.map (Condition.Stretch.parted Glyph.text))) =
      Condition.templateFrom n (pieces.map (Condition.Stretch.parted table.fill)) := by
  induction pieces generalizing n with
  | nil => rfl
  | cons piece pieces ih =>
    obtain ⟨hpiece, hpieces⟩ := List.forall_mem_cons.mp h
    have hhead : ∀ n, (Condition.templateFrom n
        (pieces.map (Condition.Stretch.parted Glyph.text))).head? ≠ some '^' := by
      apply Condition.head?_templateFrom
      intro part hpart
      obtain ⟨piece, hmem, rfl⟩ := List.mem_map.mp hpart
      have hne := Placeholders.head?_render_ne_caret (hpieces piece hmem)
      cases piece <;> exact hne
    cases piece with
    | plain items =>
      rw [List.map_cons, List.map_cons]
      exact (Placeholders.restore_render_append ht hpiece (hhead n)).trans
        (congrArg (_ ++ ·) (ih hpieces n))
    | phrase items =>
      rw [List.map_cons, List.map_cons]
      exact (restore_marker ht n (hhead (n + 1))).trans (congrArg (_ ++ ·) (ih hpieces (n + 1)))

end Restoring

theorem parted_written {α β : Type} (f : α → List β) (write : β → List Char)
    (piece : Condition.Stretch α) :
    (piece.written f).parted write = piece.parted fun x => (f x).flatMap write := by
  cases piece with
  | plain items => exact congrArg Condition.Part.plain List.flatMap_assoc
  | phrase items => exact congrArg Condition.Part.phrase List.flatMap_assoc

section Template
variable {text : List Char} {pieces : List (Condition.Stretch Glyph)}

/-- **Restoring a template puts the texts of its glyphs in their places.** -/
theorem restore_template (hcaret : '^' ∉ text) (h : ∀ piece ∈ pieces, Clean piece.items) (n : Nat) :
    (tables text).restore
        (Condition.templateFrom n (pieces.map (Condition.Stretch.parted Glyph.text))) =
      Condition.templateFrom n (pieces.map (Condition.Stretch.parted (unveiled text))) := by
  let opened := unfolded objectTag (hiddenIn (objectParts text))
  have hspans : ∀ span ∈ hiddenIn (objectParts text), Clean span :=
    clean_hiddenIn (clean_objectParts hcaret)
  have hobjects : pieces.map (Condition.Stretch.parted (objectTable text).fill) =
      (pieces.map (Condition.Stretch.written opened)).map (Condition.Stretch.parted Glyph.text) := by
    rw [List.map_map]
    apply List.map_congr_left
    intro piece _
    rw [Function.comp_apply, parted_written]
    congr 1
    funext glyph
    exact fill_eq_unfolded objectTag (hiddenIn (objectParts text)) glyph
  have hopened : ∀ piece ∈ pieces.map (Condition.Stretch.written opened), Clean piece.items := by
    intro piece hmem
    obtain ⟨before, hbefore, rfl⟩ := List.mem_map.mp hmem
    have hclean : Clean (before.items.flatMap opened) := clean_unfolded hspans (h before hbefore)
    cases before <;> exact hclean
  have hliterals : (pieces.map (Condition.Stretch.written opened)).map
      (Condition.Stretch.parted (literalTable text).fill) =
        pieces.map (Condition.Stretch.parted (unveiled text)) := by
    rw [List.map_map]
    exact List.map_congr_left fun piece _ => parted_written opened _ piece
  rw [Hidden.restore, tables, restore_templateFrom (show IsTag objectTag by decide) h, hobjects,
    restore_templateFrom (show IsTag literalTag by decide) hopened, hliterals]

theorem shows_marker (n : Nat) : Shows (Condition.marker n) (Condition.marker n) := by
  have hquote : '"' ∉ Condition.marker n :=
    Condition.notMem_digits (by decide) (by decide) (by decide)
  have hopen : '\x7b' ∉ Condition.marker n :=
    Condition.notMem_digits (by decide) (by decide) (by decide)
  exact Shows.plain hquote hopen

/-- **On the surface, a template has the signs of its glyphs, and its markers.** -/
theorem shows_template (h : Closed text) (hpieces : ∀ piece ∈ pieces, piece.items ⊆ veiled text)
    (n : Nat) :
    Shows (Condition.templateFrom n (pieces.map (Condition.Stretch.parted (unveiled text))))
      (Condition.signTemplate Glyph.sign n pieces) := by
  induction pieces generalizing n with
  | nil =>
    have hshows : Shows [] [] := Shows.plain List.not_mem_nil List.not_mem_nil
    exact hshows
  | cons piece pieces ih =>
    obtain ⟨hpiece, hrest⟩ := List.forall_mem_cons.mp hpieces
    cases piece with
    | plain items =>
      have hitems : Shows (items.flatMap (unveiled text)) (items.map Glyph.sign) :=
        Shows.flatMap fun glyph hmem => shows_unveiled h (hpiece hmem)
      rw [Condition.signTemplate_plain]
      exact hitems.append (ih hrest n)
    | phrase items => exact (shows_marker n).append (ih hrest (n + 1))

end Template

end Cutscene.Shape
