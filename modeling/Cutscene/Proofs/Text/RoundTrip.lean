import Mathlib
import Cutscene.Proofs.Text.Hiding

/-!
Hiding spans and putting them back.

One hiding under a new tag is undone by restoring its table (`hide_once`): the names it writes are the
only ones with that tag, so filling them in gives the glyphs of the text again, names of earlier
hidings included. String literals, argument lists and blocks are hidden one inside the other, so the
spans of a later table hold names of the earlier ones, and the tables are restored in the opposite
order (`restore_hidden`).
-/
namespace Cutscene.Text

/-- A character that no name is written with is in a text just if it is one of the glyphs. -/
theorem notMem_render {glyphs : List Glyph} (h : Clean glyphs) {x : Char}
    (hx : isSpelling x = false) (hno : .char x ∉ glyphs) : x ∉ render glyphs := by
  intro hmem
  obtain ⟨before, after, heq⟩ := List.append_of_mem hmem
  obtain ⟨a, b, hab, -, -⟩ := render_eq_append_cons h hx heq
  apply hno
  rw [hab]
  simp

/-- Where nothing was hidden before and nothing is written behind the names, a part is put back as it
was. -/
theorem restored_eq_glyphs (tag : List Char) (part : Part) :
    part.restored tag [] [] = part.glyphs := by
  cases part with
  | span glyphs => simp [Part.restored, Part.glyphs]
  | glyph single =>
    cases single with
    | char c => rfl
    | name t n => simp [Part.restored, Part.glyphs, unfolded]

/-- What one hiding under a tag of its own makes of glyphs: the text `hidden.1` is written with
glyphs `out`, which are those of before without the opening delimiter and names with the new tag, and
restoring the table `hidden.2` undoes it. -/
structure HiddenOnce (d : Delimiter) (tag : List Char) (glyphs out : List Glyph)
    (hidden : List Char × Placeholders) : Prop where
  text : hidden.1 = render out
  clean : Clean out
  chars : ∀ c, .char c ∈ out → .char c ∈ glyphs ∧ c ≠ d.opener
  tags : ∀ t n, .name t n ∈ out → t = tag ∨ .name t n ∈ glyphs
  restored : hidden.2.restore hidden.1 = render glyphs

/-- **One hiding is undone by its table.** -/
theorem hide_once {d : Delimiter} (ho : isSpelling d.opener = false)
    (hc : isSpelling d.closer = false) {tag : List Char} (ht : IsTag tag) {glyphs : List Glyph}
    (h : Clean glyphs) (hnew : ∀ n, .name tag n ∉ glyphs) {hidden : List Char × Placeholders}
    (hhide : hide d {} (render glyphs) ⟨tag, []⟩ = .ok hidden) :
    ∃ out, HiddenOnce d tag glyphs out hidden := by
  obtain ⟨parts, ⟨rfl, htext, htable⟩, hplain⟩ := hide_parts ho hc h hhide
  have hclean : Clean (concealed tag [] 0 parts) := clean_concealed ht (by simp) 0 h
  refine ⟨concealed tag [] 0 parts, htext, hclean, ?_, ?_, ?_⟩
  · intro c hmem
    rcases mem_concealed hmem with hmem | ⟨x, hx, -⟩ | ⟨n, -, hname⟩
    · exact ⟨mem_parts hmem, hplain c hmem⟩
    · cases hx
    · cases hname
  · intro t n hmem
    rcases mem_concealed hmem with hmem | ⟨x, hx, -⟩ | ⟨m, -, hname⟩
    · exact Or.inr (mem_parts hmem)
    · cases hx
    · cases hname
      exact Or.inl rfl
  · -- the table was empty, so every name with its tag is one that was written now
    have hold : ∀ n, .glyph (.name tag n) ∈ parts → n < ([] : List (List Glyph)).length :=
      fun n hn => absurd (mem_parts hn) (hnew n)
    calc hidden.2.restore hidden.1
      _ = Placeholders.restore ⟨tag, (hiddenIn parts).map render⟩
            (render (concealed tag [] 0 parts)) := by rw [htable, htext]; rfl
      _ = render ((concealed tag [] 0 parts).flatMap (unfolded tag (hiddenIn parts))) :=
          restore_render_unfolded ht _ hclean
      _ = render (parts.flatMap (Part.restored tag [] [])) :=
          congrArg render (concealed_unfolded [] [] hold)
      _ = render (parts.flatMap Part.glyphs) := by
          rw [funext (restored_eq_glyphs tag)]

/-- **Hiding string literals, argument lists and blocks, and putting them back.** In a text without
carets the hidden text has none of the three opening delimiters, and restoring blocks, then argument
lists, then string literals gives the text again. -/
theorem restore_hidden {text noStrings noLists noBlocks : List Char}
    {strings lists blocks : Placeholders} (hcaret : '^' ∉ text)
    (hstrings : hide .string {} text (.tagged "string") = .ok (noStrings, strings))
    (hlists : hide .parenthesis {} noStrings (.tagged "params") = .ok (noLists, lists))
    (hblocks : hide .brace {} noLists (.tagged "subscript") = .ok (noBlocks, blocks)) :
    '"' ∉ noBlocks ∧ '(' ∉ noBlocks ∧ '\x7b' ∉ noBlocks ∧
      strings.restore (lists.restore (blocks.restore noBlocks)) = text := by
  rw [← render_map_char text] at hstrings
  have hnoNames : ∀ t n, .name t n ∉ text.map Glyph.char := by
    intro t n hmem
    obtain ⟨c, -, hc⟩ := List.mem_map.mp hmem
    cases hc
  obtain ⟨first, h₁⟩ := hide_once (by decide) (by decide) (by decide) (clean_map_char hcaret)
    (fun n => hnoNames _ n) hstrings
  have htags₁ : ∀ t n, .name t n ∈ first → t = "string".toList := by
    intro t n hmem
    rcases h₁.tags t n hmem with ht | hold
    · exact ht
    · exact absurd hold (hnoNames t n)
  have htext₁ : noStrings = render first := h₁.text
  rw [htext₁] at hlists
  obtain ⟨second, h₂⟩ := hide_once (by decide) (by decide) (by decide) h₁.clean
    (fun n hn => absurd (htags₁ _ n hn) (by decide)) hlists
  have htags₂ : ∀ t n, .name t n ∈ second → t = "params".toList ∨ t = "string".toList := by
    intro t n hmem
    rcases h₂.tags t n hmem with ht | hold
    · exact Or.inl ht
    · exact Or.inr (htags₁ t n hold)
  have htext₂ : noLists = render second := h₂.text
  rw [htext₂] at hblocks
  have hnew₃ : ∀ n, .name "subscript".toList n ∉ second := by
    intro n hn
    rcases htags₂ _ n hn with ht | ht
    · exact absurd ht (by decide)
    · exact absurd ht (by decide)
  obtain ⟨third, h₃⟩ := hide_once (by decide) (by decide) (by decide) h₂.clean hnew₃ hblocks
  have htext₃ : noBlocks = render third := h₃.text
  -- a delimiter that is left after the last hiding was left after the earlier ones, too
  have hquote : .char '"' ∉ third := fun hmem =>
    (h₁.chars _ (h₂.chars _ (h₃.chars _ hmem).1).1).2 rfl
  have hparen : .char '(' ∉ third := fun hmem => (h₂.chars _ (h₃.chars _ hmem).1).2 rfl
  have hbrace : .char '\x7b' ∉ third := fun hmem => (h₃.chars _ hmem).2 rfl
  refine ⟨?_, ?_, ?_, ?_⟩
  · rw [htext₃]
    exact notMem_render h₃.clean (by decide) hquote
  · rw [htext₃]
    exact notMem_render h₃.clean (by decide) hparen
  · rw [htext₃]
    exact notMem_render h₃.clean (by decide) hbrace
  · have hback₃ : blocks.restore noBlocks = render second := h₃.restored
    have hback₂ : lists.restore noLists = render first := h₂.restored
    have hback₁ : strings.restore noStrings = render (text.map .char) := h₁.restored
    rw [hback₃, ← htext₂, hback₂, ← htext₁, hback₁, render_map_char]

/-- Delimiters inside string literals, in an argument list and in a block: `f("("){g("}");}`. -/
def nestedSpans : List Char :=
  ['f', '(', '"', '(', '"', ')', '\x7b', 'g', '(', '"', '\x7d', '"', ')', ';', '\x7d']

/-- Its string literals. -/
def nestedStrings : Placeholders := ⟨"string".toList, [['"', '(', '"'], ['"', '\x7d', '"']]⟩

/-- Its argument lists, with the names of string literals in them. -/
def nestedLists : Placeholders :=
  ⟨"params".toList, [['('] ++ nestedStrings.name 0 ++ [')'], ['('] ++ nestedStrings.name 1 ++ [')']]⟩

/-- Its block, with the name of an argument list in it. -/
def nestedBlocks : Placeholders :=
  ⟨"subscript".toList, [['\x7b', 'g'] ++ nestedLists.name 1 ++ [';', '\x7d']]⟩

theorem restore_hidden_nestedSpans :
    let noStrings := ['f', '('] ++ nestedStrings.name 0 ++ [')', '\x7b', 'g', '('] ++
      nestedStrings.name 1 ++ [')', ';', '\x7d']
    let noLists := ['f'] ++ nestedLists.name 0 ++ ['\x7b', 'g'] ++ nestedLists.name 1 ++ [';', '\x7d']
    let noBlocks := ['f'] ++ nestedLists.name 0 ++ nestedBlocks.name 0
    hide .string {} nestedSpans (.tagged "string") = .ok (noStrings, nestedStrings) ∧
      hide .parenthesis {} noStrings (.tagged "params") = .ok (noLists, nestedLists) ∧
      hide .brace {} noLists (.tagged "subscript") = .ok (noBlocks, nestedBlocks) ∧
      nestedStrings.restore (nestedLists.restore (nestedBlocks.restore noBlocks)) = nestedSpans := by
  intro noStrings noLists noBlocks
  have hstrings : hide .string {} nestedSpans (.tagged "string") = .ok (noStrings, nestedStrings) := by
    cbv
  have hlists : hide .parenthesis {} noStrings (.tagged "params") = .ok (noLists, nestedLists) := by
    cbv
  have hblocks : hide .brace {} noLists (.tagged "subscript") = .ok (noBlocks, nestedBlocks) := by
    cbv
  exact ⟨hstrings, hlists, hblocks, (restore_hidden (by decide) hstrings hlists hblocks).2.2.2⟩

end Cutscene.Text
