import Cutscene.Proofs.Text.Hiding
import Cutscene.Source.Fragment

/-!
The lines of a source, and a source that defines nothing.

Taking comments and the blanks around a source away brings nothing together that was apart: a word
without a line break that occurs in what is left occurs in the source (`infix_of_stripComments`). So
a source without the keyword of a definition has no aliases (`collect_eq_nil`) and keeps all its
lines (`strip_eq_self`).
-/
namespace Cutscene.Source

open Text

/-! ## Comments -/

/-- What is left of a text that begins in a comment begins with a line break. -/
theorem prefix_of_comment {word text : List Char} (hline : '\n' ∉ word)
    (h : word <+: dropComments .comment text) : word = [] := by
  induction text with
  | nil => simpa [dropComments] using h
  | cons c rest ih =>
    rw [dropComments] at h
    split at h
    · next hc =>
      cases word with
      | nil => rfl
      | cons d word =>
        obtain ⟨rfl, -⟩ := List.cons_prefix_cons.mp h
        exact absurd (by simp [hc]) hline
    · exact ih h

/-- A word at the start of what is left stands at the start of the text. -/
theorem prefix_of_dropComments {word text : List Char} {region : Region} (hline : '\n' ∉ word)
    (h : word <+: dropComments region text) : word <+: text := by
  induction text generalizing region word with
  | nil => cases region <;> simpa [dropComments] using h
  | cons c rest ih =>
    cases word with
    | nil => exact List.nil_prefix
    | cons d word =>
      have hword : '\n' ∉ word := fun hmem => hline (by simp [hmem])
      -- in a literal and in code the first character stays, and the rest begins in some region
      have hstays : ∀ {next : Region}, d :: word <+: c :: dropComments next rest →
          d :: word <+: c :: rest := by
        intro next hstart
        obtain ⟨hd, htail⟩ := List.cons_prefix_cons.mp hstart
        exact List.cons_prefix_cons.mpr ⟨hd, ih hword htail⟩
      cases region with
      | literal escaped => exact hstays h
      | comment => cases prefix_of_comment hline h
      | code =>
        rw [dropComments] at h
        split at h
        · cases prefix_of_comment hline h
        · exact hstays h

theorem infix_of_dropComments {word text : List Char} {region : Region} (hline : '\n' ∉ word)
    (h : word <:+: dropComments region text) : word <:+: text := by
  induction text generalizing region with
  | nil => cases region <;> simpa [dropComments] using h
  | cons c rest ih =>
    have hlater : ∀ {next : Region}, word <:+: dropComments next rest → word <:+: c :: rest :=
      fun h => List.infix_cons_iff.mpr (Or.inr (ih h))
    by_cases hstart : word <+: dropComments region (c :: rest)
    · exact (prefix_of_dropComments hline hstart).isInfix
    · cases region with
      | literal escaped => exact hlater ((List.infix_cons_iff.mp h).resolve_left hstart)
      | comment =>
        rw [dropComments] at h hstart
        split at h
        · next hc =>
          rw [if_pos hc] at hstart
          exact hlater ((List.infix_cons_iff.mp h).resolve_left hstart)
        · exact hlater h
      | code =>
        rw [dropComments] at h hstart
        split at h
        · exact hlater h
        · next hc =>
          rw [if_neg hc] at hstart
          exact hlater ((List.infix_cons_iff.mp h).resolve_left hstart)

theorem isInfix_trim (text : List Char) : trim text <:+: text := by
  have hstart : trimStart text <:+ text := List.dropWhile_suffix isBlank
  have hend : trim text <+: trimStart text := by
    have := List.dropWhile_suffix (l := (trimStart text).reverse) isBlank
    simpa [trim, trimEnd] using List.reverse_prefix.mpr this
  exact hend.isInfix.trans hstart.isInfix

theorem infix_of_stripComments {word source : List Char} (hline : '\n' ∉ word)
    (h : word <:+: stripComments source) : word <:+: source :=
  infix_of_dropComments hline (h.trans (isInfix_trim _))

theorem notMem_stripComments {x : Char} (hx : x ≠ '\n') {source : List Char} (h : x ∉ source) :
    x ∉ stripComments source := by
  intro hmem
  obtain ⟨a, b, hab⟩ := List.append_of_mem hmem
  have hin : [x] <:+: stripComments source := ⟨a, b, by simp [hab]⟩
  have hline : '\n' ∉ [x] := by simpa using hx.symm
  exact h ((infix_of_stripComments hline hin).subset (by simp))

/-! ## Lines -/

theorem infix_of_mem_splitOn {mark : Char} {text line : List Char} (h : line ∈ splitOn mark text) :
    line <:+: text := by
  -- the first line stands at the start, which carries a character in front of it
  suffices ∀ {first lines}, splitOn mark text = first :: lines →
      first <+: text ∧ ∀ l ∈ lines, l <:+: text by
    cases hsplit : splitOn mark text with
    | nil => simp [hsplit] at h
    | cons first lines =>
      obtain ⟨hfirst, hlines⟩ := this hsplit
      rw [hsplit] at h
      rcases List.mem_cons.mp h with rfl | hmem
      · exact hfirst.isInfix
      · exact hlines _ hmem
  clear h
  induction text with
  | nil =>
    intro first lines h
    cases h
    simp
  | cons c rest ih =>
    intro first lines h
    by_cases hc : c = mark
    · rw [splitOn, if_pos hc] at h
      cases h
      refine ⟨List.nil_prefix, fun l hl => ?_⟩
      cases hsplit : splitOn mark rest with
      | nil => simp [hsplit] at hl
      | cons next others =>
        obtain ⟨hnext, hothers⟩ := ih hsplit
        rw [hsplit] at hl
        rcases List.mem_cons.mp hl with rfl | hl
        · exact List.infix_cons_iff.mpr (Or.inr hnext.isInfix)
        · exact List.infix_cons_iff.mpr (Or.inr (hothers _ hl))
    · rw [splitOn_cons hc] at h
      cases hsplit : splitOn mark rest with
      | nil => exact absurd hsplit (splitOn_ne_nil mark rest)
      | cons next others =>
        obtain ⟨hnext, hothers⟩ := ih hsplit
        rw [hsplit] at h
        cases h
        exact ⟨List.cons_prefix_cons.mpr ⟨rfl, hnext⟩,
          fun l hl => List.infix_cons_iff.mpr (Or.inr (hothers l hl))⟩

/-- A line ends where the next mark stands. -/
theorem notMem_of_mem_splitOn {mark : Char} {text line : List Char} (h : line ∈ splitOn mark text) :
    mark ∉ line := by
  induction text generalizing line with
  | nil =>
    obtain rfl : line = [] := by simpa [splitOn] using h
    simp
  | cons c rest ih =>
    by_cases hc : c = mark
    · rw [splitOn, if_pos hc] at h
      rcases List.mem_cons.mp h with rfl | hrest
      · simp
      · exact ih hrest
    · rw [splitOn_cons hc] at h
      cases hsplit : splitOn mark rest with
      | nil => exact absurd hsplit (splitOn_ne_nil mark rest)
      | cons first lines =>
        rw [hsplit, List.modifyHead_cons] at h
        rcases List.mem_cons.mp h with rfl | hlines
        · have hfirst : mark ∉ first := ih (by simp [hsplit])
          exact List.not_mem_cons_of_ne_of_not_mem (Ne.symm hc) hfirst
        · exact ih (by simp [hsplit, hlines])

/-- The lines of a text, joined, are the text. -/
theorem joinLines_splitOn (text : List Char) : Alias.joinLines (splitOn '\n' text) = text := by
  induction text with
  | nil => rfl
  | cons c rest ih =>
    cases hsplit : splitOn '\n' rest with
    | nil => exact absurd hsplit (splitOn_ne_nil '\n' rest)
    | cons first lines =>
      rw [hsplit] at ih
      by_cases hc : c = '\n'
      · rw [splitOn, if_pos hc, hsplit, Alias.joinLines, ih, hc]
        · rfl
        · simp
      · rw [splitOn_cons hc, hsplit]
        cases lines with
        | nil => simpa [Alias.joinLines] using ih
        | cons second lines => simpa [Alias.joinLines] using ih

/-! ## Without definitions -/

theorem afterKeyword_eq_none {line : List Char} (h : ¬ Alias.keyword <:+: line) :
    Alias.afterKeyword line = none := by
  have hno : ¬ Alias.keyword <+: line.dropWhile Alias.isGap :=
    fun hp => h (hp.isInfix.trans (List.dropWhile_suffix Alias.isGap).isInfix)
  simp [Alias.afterKeyword, hno]

variable {text : List Char} (h : ¬ Alias.keyword <:+: text)

include h

theorem afterKeyword_of_mem_lines {line : List Char} (hline : line ∈ splitOn '\n' text) :
    Alias.afterKeyword line = none :=
  afterKeyword_eq_none fun hin => h (hin.trans (infix_of_mem_splitOn hline))

theorem collect_eq_nil : Alias.collect text = [] := by
  have hlines : (splitOn '\n' text).filterMap Alias.ofLine = [] := by
    refine List.filterMap_eq_nil_iff.mpr fun line hline => ?_
    rw [Alias.ofLine, afterKeyword_of_mem_lines h hline]
    rfl
  rw [Alias.collect, hlines, List.mergeSort_nil]

omit h in
theorem keepLines_eq_self {lines : List (List Char)}
    (h : ∀ line ∈ lines, Alias.isDefinition line = false) : Alias.keepLines lines = lines := by
  induction lines with
  | nil => rfl
  | cons line lines ih =>
    have hline := h line (by simp)
    have hlines := ih fun l hl => h l (by simp [hl])
    cases lines with
    | nil => simp [Alias.keepLines, hline]
    | cons next lines => rw [Alias.keepLines, hline, hlines] <;> simp

theorem strip_eq_self : Alias.strip text = text := by
  have hkeep : Alias.keepLines (splitOn '\n' text) = splitOn '\n' text := by
    refine keepLines_eq_self fun line hline => ?_
    rw [Alias.isDefinition, afterKeyword_of_mem_lines h hline]
  rw [Alias.strip, hkeep, joinLines_splitOn]

end Cutscene.Source
