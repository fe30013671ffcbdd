import Cutscene.Proofs.Source.Settled
import Cutscene.Proofs.Source.Single
import Cutscene.Proofs.Statement.Template

/-!
Preparing again what is prepared already.

The body of an arm is prepared when the statement is read that it stands in, so a text that nests deeply
is prepared once for each level. Below a plain source without slashes, all that reading comes to is tidy
(`Comes.tidy`): its literals are closed and the text around them is settled, since it was cut, with its
literals whole, out of a text that had been laid out. Laying a tidy text out trims it and does nothing
else (`Tidy.layOut`).

A fragment is one statement besides, and it is split into itself. So it is its own and only fragment
(`Tidy.fragments_eq`).
-/
namespace Cutscene.Source

open Text Shape

/-! ## Tidy texts -/

/-- A plain text without slashes whose literals are closed, with settled text around them. -/
structure Tidy (text : List Char) : Prop where
  plain : IsPlain text
  slash : '/' ∉ text
  closed : LiteralsClosed text
  settled : Settled (skeleton text)

/-- What stands in a tidy text with its literals whole is tidy. -/
theorem Tidy.within {text inner : List Char} (h : Tidy text) (hin : StandsWhole text inner) :
    Tidy inner where
  plain := isPlain_of_subset h.plain hin.isInfix.subset
  slash hmem := h.slash (hin.isInfix.subset hmem)
  closed := by
    obtain ⟨-, -, -, -, hclosed⟩ := hin
    exact hclosed
  settled := h.settled.within hin.skeleton_isInfix

/-- A group begins and ends with a parenthesis, so blanks at the ends of a text are characters. -/
theorem ended_group {write : Glyph → List Char} {glyphs : List Glyph} (h : WritesLiterals write glyphs)
    {part : Part} (hpart : part ∈ Delimiter.parenthesis.parts glyphs) :
    Ended (fun part : Part => isBlank part.sign) isBlank (fun part => part.glyphs.flatMap write) part := by
  have hquote : isBlank '"' = false := by decide
  cases part with
  | glyph single =>
    have hsingle : single ∈ glyphs := glyphs_parts .parenthesis glyphs ▸ mem_parts hpart
    have hended := ended_literal h hquote hsingle
    simpa [Ended, Part.glyphs, Part.sign] using hended
  | span span =>
    obtain ⟨inner, rfl⟩ := span_ends bare_parenthesis hpart
    have hword : (Part.span (.char '(' :: (inner ++ [.char ')']))).glyphs.flatMap write =
        '(' :: (inner.flatMap write ++ [')']) := by
      simp [Part.glyphs, h.char]
    exact Or.inr ⟨hquote, ⟨'(', _, hword, by decide⟩, '(' :: inner.flatMap write, ')', hword, by decide⟩

theorem literalsClosed_trim {text : List Char} (h : LiteralsClosed text) :
    LiteralsClosed (trim text) := by
  have hsub := (trimBy_isInfix Glyph.sign (withNames 0 (skeleton text))).subset
  have htrim := trim_written fun glyph =>
    ended_literal (writesLiterals h) (show isBlank '"' = false by decide)
  rw [fill_skeleton h] at htrim
  rw [htrim]
  exact (skeleton_written (writesLiterals_subset (writesLiterals h) hsub)).1

namespace Tidy
variable {text : List Char} (h : Tidy text)

include h

theorem trim : Tidy (trim text) := h.within (standsWhole_trim (literalsClosed_trim h.closed))

theorem stripComments_eq : stripComments text = Text.trim text := by
  rw [stripComments, dropComments_eq_self h.slash (by simp)]

theorem layout_eq : layout (skeleton text) = skeleton text := layout_of_settled h.settled

/-- **Laying a tidy text out trims it**, and changes nothing else. -/
theorem layOut : ∃ laid, layOut text = .ok laid ∧
    laid.literals.restore laid.text = Text.trim text := by
  have hclosed : LiteralsClosed (stripComments text) := h.stripComments_eq ▸ h.trim.closed
  have hlaid := layOut_eq h.plain hclosed
  have hrestored := restore_withNames (caret_layout h.plain) (Nat.le_of_eq (count_laid h.plain hclosed))
  rw [h.stripComments_eq, h.trim.layout_eq] at hlaid hrestored
  rw [fillIn_skeleton h.trim.closed] at hrestored
  exact ⟨_, hlaid, hrestored⟩

end Tidy

/-! ## Fragments -/

/-- Parts that are taken out of a text are cut as they were in it. -/
theorem cut_of_parts {d : Delimiter} {glyphs : List Glyph}
    (hclosed : unclosedText (d.cut (glyphs.map Glyph.sign)) = none) {parts : List Part}
    (hsub : parts ⊆ d.parts glyphs) :
    unclosedText (d.cut ((parts.flatMap Part.glyphs).map Glyph.sign)) = none ∧
      (d.cut ((parts.flatMap Part.glyphs).map Glyph.sign)).map Piece.sign = parts.map Part.sign := by
  induction parts with
  | nil => exact ⟨rfl, rfl⟩
  | cons part parts ih =>
    obtain ⟨hpart, hparts⟩ := List.cons_subset.mp hsub
    obtain ⟨hrest, hsigns⟩ := ih hparts
    have hfirst : unclosedText (d.cut (part.glyphs.map Glyph.sign)) = none ∧
        (d.cut (part.glyphs.map Glyph.sign)).map Piece.sign = [part.sign] := by
      cases part with
      | glyph single =>
        have hopen : d.opener ∉ [single.sign] := by
          simpa using (sign_ne_opener hclosed hpart).symm
        exact ⟨closed_plain hopen, by rw [Part.glyphs, List.map_singleton, cut_plain hopen]; rfl⟩
      | span span => rw [Part.glyphs, cut_span hpart]; exact ⟨rfl, rfl⟩
    rw [List.flatMap_cons, List.map_append, cut_append hfirst.1, unclosedText_append hfirst.1,
      List.map_append, hfirst.2, hsigns]
    exact ⟨hrest, rfl⟩

/-- A text that is one statement, without blanks around it. -/
structure OneStatement (text : List Char) : Prop where
  ne_nil : text ≠ []
  trim_eq : trim text = text
  groups : unclosedText (Delimiter.parenthesis.cut (skeleton text)) = none
  single : Single ((Delimiter.parenthesis.cut (skeleton text)).map Piece.sign)

theorem text_tokens (write : Glyph → List Char) (glyphs : List Glyph) :
    (tokens write glyphs).flatMap Token.text = glyphs.flatMap write := by
  conv_rhs => rw [← glyphs_parts .parenthesis glyphs, List.flatMap_assoc]
  rw [tokens, List.flatMap_map]
  rfl

/-- **A tidy text that is one statement is its own and only fragment.** -/
theorem Tidy.fragments_eq {text : List Char} (h : Tidy text) (hone : OneStatement text) :
    fragments text = .ok [text] := by
  have hstrip : stripComments text = text := h.stripComments_eq.trans hone.trim_eq
  have hbalanced : Balanced (skeleton text) := ⟨hone.groups, hone.single.closed⟩
  have hcuts : cuts 0 '\x00' (tokensOf (skeleton text) (literals text)) = [text] ∨
      cuts 0 '\x00' (tokensOf (skeleton text) (literals text)) = [text, []] := by
    have hsigns : (tokensOf (skeleton text) (literals text)).map Token.sign = _ :=
      signs_tokensOf hone.groups
    have htext : (tokensOf (skeleton text) (literals text)).flatMap Token.text = text :=
      (text_tokens _ _).trans (fill_skeleton h.closed)
    rcases Single.statements_eq (hsigns ▸ hone.single) '\x00' with heq | heq
    · exact Or.inl (by rw [cuts, heq, List.map_singleton, htext])
    · exact Or.inr (by rw [cuts, heq, List.map_cons, htext]; rfl)
  have hclosed : LiteralsClosed (stripComments text) := by
    rw [hstrip]
    exact h.closed
  have hlaid : Balanced (layout (skeleton (stripComments text))) := by
    rw [hstrip, h.layout_eq]
    exact hbalanced
  have hfragments := Source.fragments_eq h.plain hclosed hlaid
  rw [hstrip, h.layout_eq] at hfragments
  have hnil : Text.trim [] = [] := rfl
  rw [hfragments]
  rcases hcuts with heq | heq
  · simp [heq, trimmed, hone.trim_eq, hone.ne_nil]
  · simp [heq, trimmed, hone.trim_eq, hone.ne_nil, hnil]

theorem glyphs_isInfix {bones : List Char} {parts : List Part} (h : parts <:+: groupsOf bones) :
    parts.flatMap Part.glyphs <:+: withNames 0 bones := by
  have hwithin := h.flatMap Part.glyphs
  rwa [groupsOf, glyphs_parts] at hwithin

section Cuts
variable {bones : List Char} {texts : List (List Char)}
  (hwrites : WritesLiterals (Placeholders.fill ⟨literalTag, texts⟩) (withNames 0 bones))
  (hbalanced : Balanced bones) {fragment : List Char}
  (hmem : fragment ∈ trimmed (cuts 0 '\x00' (tokensOf bones texts)))

include hwrites hbalanced hmem

/-- A fragment is written for some of the parts of the text that its source is laid out to, one statement
of them. -/
theorem exists_parts_of_mem : ∃ parts, parts <:+: groupsOf bones ∧ Single (parts.map Part.sign) ∧
    fragment = (parts.flatMap Part.glyphs).flatMap (Placeholders.fill ⟨literalTag, texts⟩) := by
  let write := Placeholders.fill ⟨literalTag, texts⟩
  obtain ⟨part, hpart, rfl⟩ := List.mem_map.mp (List.mem_filter.mp hmem).1
  obtain ⟨statement, hstatement, rfl⟩ := List.mem_map.mp hpart
  have htokens : tokensOf bones texts = (groupsOf bones).map (tokenOf write) := rfl
  rw [htokens, statements_map] at hstatement
  obtain ⟨parts, hparts, rfl⟩ := List.mem_map.mp hstatement
  have hwithin : parts <:+: groupsOf bones := infix_of_mem_statements hparts
  have hblocks : unclosedText (cutFrom Delimiter.brace.look 0 ((groupsOf bones).map Part.sign)) = none := by
    rw [signs_groupsOf hbalanced.groups]
    exact hbalanced.blocks
  have hsingle : Single (parts.map Part.sign) := single_of_mem hblocks hparts
  have hended : ∀ part ∈ parts, Ended (fun part : Part => isBlank part.sign) isBlank
      (fun part => part.glyphs.flatMap write) part :=
    fun part hmem => ended_group hwrites (hwithin.subset hmem)
  have hsign : ∀ part ∈ parts, Ended (fun part : Part => isBlank part.sign) isBlank
      (fun part => [part.sign]) part := fun part _ => Or.inl ⟨_, rfl, rfl⟩
  have htrimSigns : trim (parts.flatMap fun part => [part.sign]) =
      (trimBy Part.sign parts).flatMap fun part => [part.sign] := trim_written hsign
  refine ⟨trimBy Part.sign parts, (trimBy_isInfix _ _).trans hwithin, ?_, ?_⟩
  · have htrimmed := hsingle.trim
    rwa [List.map_eq_flatMap, htrimSigns, ← List.map_eq_flatMap] at htrimmed
  · rw [List.flatMap_map]
    exact (trim_written hended).trans List.flatMap_assoc.symm

/-- What stands between the literals of a fragment stood between literals in the text that its source is
laid out to. -/
theorem skeleton_of_mem : LiteralsClosed fragment ∧ skeleton fragment <:+: bones := by
  obtain ⟨parts, hparts, -, rfl⟩ := exists_parts_of_mem hwrites hbalanced hmem
  have hglyphs := glyphs_isInfix hparts
  obtain ⟨hclosed, hskeleton⟩ := skeleton_written (writesLiterals_subset hwrites hglyphs.subset)
  have hsigns := hglyphs.map Glyph.sign
  rw [signs_withNames, ← hskeleton] at hsigns
  exact ⟨hclosed, hsigns⟩

theorem oneStatement_of_mem : OneStatement fragment := by
  obtain ⟨hpart, hkept⟩ := List.mem_filter.mp hmem
  obtain ⟨part, -, htrim⟩ := List.mem_map.mp hpart
  obtain ⟨parts, hparts, hsingle, heq⟩ := exists_parts_of_mem hwrites hbalanced hmem
  have hskeleton :=
    (skeleton_written (writesLiterals_subset hwrites (glyphs_isInfix hparts).subset)).2
  obtain ⟨hgroups, hsigns⟩ := cut_of_parts (closed_groups hbalanced.groups) hparts.subset
  rw [← hskeleton, ← heq] at hgroups hsigns
  refine ⟨by simpa using hkept, ?_, hgroups, hsigns ▸ hsingle⟩
  rw [← htrim, trim_trim]

end Cuts

theorem Ready.writesLiterals {text : List Char} (h : Ready text) :
    WritesLiterals (Placeholders.fill ⟨literalTag, literals text⟩)
      (withNames 0 (layout (skeleton text))) :=
  writesLiterals_withNames (Nat.le_of_eq h.count) fun _ => isLiteral_of_mem

section Fragment
variable {source : List Char} (h : IsPlain source) {pieces : List (List Char)}
  (hok : fragments source = .ok pieces) {fragment : List Char} (hmem : fragment ∈ pieces)

include h hok hmem

/-- A fragment of a plain source is one statement. -/
theorem oneStatement_fragment : OneStatement fragment := by
  obtain ⟨hready, hpieces⟩ := ready_of_fragments h hok
  rw [hpieces] at hmem
  exact oneStatement_of_mem hready.writesLiterals hready.balanced hmem

/-- A fragment of a plain source without slashes is tidy. -/
theorem tidy_fragment (hslash : '/' ∉ source) : Tidy fragment := by
  obtain ⟨hready, hpieces⟩ := ready_of_fragments h hok
  obtain ⟨hclosed, hskeleton⟩ :=
    skeleton_of_mem hready.writesLiterals hready.balanced (hpieces ▸ hmem)
  exact {
    plain := isPlain_fragment h hok hmem
    slash := notMem_fragment h hok (by decide) (by decide) hslash hmem
    closed := hclosed
    settled := (settled_layout _).within hskeleton }

end Fragment

end Cutscene.Source

namespace Cutscene

open Source Text

/-! ## What reading comes to -/

/-- What nests in a tidy statement is tidy. -/
theorem tidy_nested {text : List Char} (h : Tidy text) {shapes : List (Except ScriptFault Shape)}
    (hshapes : Shape.ofFragment text = .ok shapes) {shape : Shape} (hshape : .ok shape ∈ shapes)
    {inner : Nested} (hinner : .ok inner ∈ shape.nested) : Tidy inner.text := by
  obtain ⟨behind, hbehind, hstands⟩ :=
    Shape.inside_of_nested h.plain.1 h.plain.2.1 hshapes hshape hinner
  exact h.within ((hbehind.tail rfl (by decide)).trans hstands.standsWhole)

/-- Below a plain source without slashes, all that reading comes to is tidy. -/
theorem Comes.tidy {source : List Char} (h : IsPlain source) (hslash : '/' ∉ source) {inner : Nested}
    (hcomes : Comes source inner) : inner = .block source ∨ Tidy inner.text := by
  induction hcomes with
  | source => exact Or.inl rfl
  | @fragment block fragment pieces _ hpieces hmem ih =>
    refine Or.inr ?_
    rcases ih with hsource | htidy
    · cases hsource
      exact tidy_fragment h hpieces hmem hslash
    · exact tidy_fragment htidy.plain hpieces hmem htidy.slash
  | @nested text shapes shape inner _ hshapes hshape hinner ih =>
    refine Or.inr ?_
    rcases ih with hsource | htidy
    · cases hsource
    · exact tidy_nested htidy hshapes hshape hinner

/-- The body of a control link, in a statement that reading a source comes to at any depth. -/
inductive NestedBody (source body : List Char) : Prop where
  | of {text : List Char} {shapes : List (Except ScriptFault Shape)} {shape : Shape}
      (comes : Comes source (.statement text)) (hshapes : Shape.ofFragment text = .ok shapes)
      (hshape : .ok shape ∈ shapes) (hbody : .ok (.block body) ∈ shape.nested)

theorem NestedBody.tidy {source body : List Char} (h : IsPlain source) (hslash : '/' ∉ source)
    (hbody : NestedBody source body) : Tidy body := by
  cases hbody with
  | of comes hshapes hshape hbody =>
    exact tidy_nested ((comes.tidy h hslash).resolve_left (by simp)) hshapes hshape hbody

/-- **Preparing again changes nothing.** Each fragment of a plain source without slashes is its own and
only fragment. Laying out a body that nests in the source, at any depth, trims it and does nothing else,
and each of its fragments is its own and only fragment too. -/
theorem fragments_idempotent {source : List Char} (h : IsPlain source) (hslash : '/' ∉ source)
    {pieces : List (List Char)} (hok : fragments source = .ok pieces) :
    (∀ fragment ∈ pieces, fragments fragment = .ok [fragment]) ∧
      ∀ body, NestedBody source body →
        (∃ laid, layOut body = .ok laid ∧ laid.literals.restore laid.text = trim body) ∧
          ∀ inner, fragments body = .ok inner →
            ∀ fragment ∈ inner, fragments fragment = .ok [fragment] := by
  have hown : ∀ {source pieces}, IsPlain source → '/' ∉ source → fragments source = .ok pieces →
      ∀ fragment ∈ pieces, fragments fragment = .ok [fragment] :=
    fun h hslash hok fragment hmem =>
      (tidy_fragment h hok hmem hslash).fragments_eq (oneStatement_fragment h hok hmem)
  refine ⟨hown h hslash hok, fun body hbody => ?_⟩
  have htidy : Tidy body := hbody.tidy h hslash
  exact ⟨htidy.layOut, fun inner hinner => hown htidy.plain htidy.slash hinner⟩

/-- An arm inside another one, with blanks to squeeze, a comma to tighten, a line break to drop, and an
`else` without a condition. -/
def looseArms : List Char :=
  "if(a)\x7b b(\"\x7d  ;\",  2)\n  if(c)\x7b d \x7d  else \x7b e \x7d \x7d f".toList

/-- The outer arm, prepared. -/
def preparedArm : List Char :=
  "if(a)\x7b b(\"\x7d  ;\",2) if(c)\x7b d \x7d else(1) \x7b e \x7d \x7d".toList

/-- The body of that arm. -/
def preparedBody : List Char := " b(\"\x7d  ;\",2) if(c)\x7b d \x7d else(1) \x7b e \x7d ".toList

theorem fragments_idempotent_looseArms :
    IsPlain looseArms ∧ '/' ∉ looseArms ∧ fragments looseArms = .ok [preparedArm, "f".toList] ∧
      NestedBody looseArms preparedBody ∧
      (∀ fragment ∈ [preparedArm, "f".toList], fragments fragment = .ok [fragment]) ∧
      ∀ body, NestedBody looseArms body →
        (∃ laid, layOut body = .ok laid ∧ laid.literals.restore laid.text = trim body) ∧
          ∀ inner, fragments body = .ok inner →
            ∀ fragment ∈ inner, fragments fragment = .ok [fragment] := by
  have hplain : IsPlain looseArms := by decide +kernel
  have hslash : '/' ∉ looseArms := by decide +kernel
  have hok : fragments looseArms = .ok [preparedArm, "f".toList] := by cbv
  have hshapes : Shape.ofFragment preparedArm =
      .ok [.ok (.conditional .ifArm [] "a" (.ok (some preparedBody)))] := by cbv
  have hbody : NestedBody looseArms preparedBody :=
    .of (.fragment .source hok List.mem_cons_self) hshapes List.mem_cons_self List.mem_cons_self
  exact ⟨hplain, hslash, hok, hbody, fragments_idempotent hplain hslash hok⟩

end Cutscene
