import Cutscene.Proofs.Source.Restored

/-!
Sources that define their aliases above a text.

A `Definition` is a line of the form `#define NAME expansion`, taken apart: the blanks between its parts
are kept with it, and what must not stand in a part is ruled out by the type. Such a line is read as its
alias (`ofLine_text`), and it is one of the lines that are taken out of a source (`defines_text`), which
are those that `Defines` holds of.

Aliases with different names stand in one order only: the longer name first, and of two names of one
length the later (`Alias.Precedes`). So it makes no difference in which order they are defined
(`collect_definitions`).
-/
namespace Cutscene.Source

open Text

/-! ## Lines that define -/

/-- A line that defines an alias. -/
structure Definition where
  indent : List Char
  gap : List Char
  name : List Char
  /-- What separates the name from the expansion. -/
  middle : List Char
  expansion : List Char
  /-- The blanks at the end of the line. -/
  behind : List Char
  indent_gap : ∀ c ∈ indent, Alias.isGap c = true
  gap_ne : gap ≠ []
  gap_gap : ∀ c ∈ gap, Alias.isGap c = true
  name_ne : name ≠ []
  name_plain : ∀ c ∈ name, isBlank c = false
  middle_gap : ∀ c ∈ middle, Alias.isGap c = true
  middle_ne : expansion ≠ [] → middle ≠ []
  expansion_line : '\n' ∉ expansion
  expansion_head : ∀ c ∈ expansion.head?, Alias.isGap c = false
  expansion_last : ∀ c ∈ expansion.getLast?, Alias.isLineEnd c = false
  behind_end : ∀ c ∈ behind, Alias.isLineEnd c = true

namespace Definition

/-- What stands behind the name. -/
def ending (d : Definition) : List Char := d.middle ++ (d.expansion ++ d.behind)

/-- The line itself. -/
def text (d : Definition) : List Char :=
  d.indent ++ (Alias.keyword ++ (d.gap ++ (d.name ++ d.ending)))

/-- The alias that the line defines. -/
def toAlias (d : Definition) : Alias := ⟨d.name, d.expansion⟩

/-- Definitions on lines of their own, and a text below them. -/
def above (definitions : List Definition) (following : List Char) : List Char :=
  definitions.flatMap (fun d => d.text ++ ['\n']) ++ following

end Definition

/-- A line that is taken out of a source: behind blanks it begins with the keyword, which is not the
start of a longer word. -/
def Defines (line : List Char) : Prop :=
  ∃ indent rest, line = indent ++ (Alias.keyword ++ rest) ∧
    (∀ c ∈ indent, Alias.isGap c = true) ∧ ∀ c ∈ rest.head?, isWord c = false

/-! ## Reading a line -/

theorem isLineEnd_of_isGap {c : Char} (h : Alias.isGap c = true) : Alias.isLineEnd c = true := by
  simp [Alias.isLineEnd, h]

theorem isBlank_of_isLineEnd {c : Char} (h : Alias.isLineEnd c = true) : isBlank c = true := by
  simp only [Alias.isLineEnd, Alias.isGap, Bool.or_eq_true, decide_eq_true_eq] at h
  rcases h with (rfl | rfl) | rfl <;> decide

/-- A gap between a text and a character that is none is dropped. -/
theorem dropWhile_gap {gap : List Char} (h : ∀ c ∈ gap, Alias.isGap c = true) {c : Char}
    (hc : Alias.isGap c = false) (rest : List Char) :
    (gap ++ c :: rest).dropWhile Alias.isGap = c :: rest := by
  rw [dropWhile_append_cons hc, List.dropWhile_eq_nil_iff.mpr h, List.nil_append]

theorem afterKeyword_indent {indent : List Char} (h : ∀ c ∈ indent, Alias.isGap c = true)
    (rest : List Char) : Alias.afterKeyword (indent ++ (Alias.keyword ++ rest)) = some rest := by
  have hdrop : (indent ++ (Alias.keyword ++ rest)).dropWhile Alias.isGap = Alias.keyword ++ rest :=
    dropWhile_gap h (by decide) _
  simp [Alias.afterKeyword, hdrop]

theorem isDefinition_iff {line : List Char} : Alias.isDefinition line = true ↔ Defines line := by
  constructor
  · intro h
    rw [Alias.isDefinition, Alias.afterKeyword] at h
    split at h
    · next rest hrest =>
      split at hrest
      · next hkeyword =>
        obtain ⟨more, hmore⟩ := List.isPrefixOf_iff_prefix.mp hkeyword
        rw [← hmore, List.drop_left, Option.some.injEq] at hrest
        subst hrest
        refine ⟨line.takeWhile Alias.isGap, more, ?_, ?_, ?_⟩
        · rw [hmore, List.takeWhile_append_dropWhile]
        · exact fun c hc => List.mem_takeWhile_imp hc
        · intro c hc
          simpa [Option.mem_def.mp hc] using h
      · cases hrest
    · cases h
  · rintro ⟨indent, rest, rfl, hindent, hrest⟩
    rw [Alias.isDefinition, afterKeyword_indent hindent]
    cases rest with
    | nil => rfl
    | cons c rest => simpa using hrest c rfl

instance (line : List Char) : Decidable (Defines line) := decidable_of_iff _ isDefinition_iff

section Line
variable (d : Definition)

theorem Definition.name_head : ∃ c rest, d.name = c :: rest ∧ Alias.isGap c = false := by
  obtain ⟨c, rest, hname⟩ := List.exists_cons_of_ne_nil d.name_ne
  refine ⟨c, rest, hname, ?_⟩
  by_contra hgap
  have hblank := isBlank_of_isLineEnd (isLineEnd_of_isGap (Bool.eq_true_of_not_eq_false hgap))
  rw [d.name_plain c (by simp [hname])] at hblank
  cases hblank

/-- What stands behind the name begins with a blank. -/
theorem Definition.ending_head : ∀ c ∈ d.ending.head?, isBlank c = true := by
  intro c hc
  rw [Definition.ending] at hc
  cases hmiddle : d.middle with
  | cons b more =>
    rw [hmiddle] at hc
    obtain rfl : b = c := by simpa using hc
    exact isBlank_of_isLineEnd (isLineEnd_of_isGap (d.middle_gap b (by simp [hmiddle])))
  | nil =>
    have hexpansion : d.expansion = [] := by
      by_contra hne
      exact d.middle_ne hne hmiddle
    rw [hmiddle, hexpansion, List.nil_append, List.nil_append] at hc
    exact isBlank_of_isLineEnd (d.behind_end c (List.mem_of_mem_head? hc))

theorem Definition.span_name :
    (d.name ++ d.ending).takeWhile (fun c => !isBlank c) = d.name ∧
      (d.name ++ d.ending).dropWhile (fun c => !isBlank c) = d.ending := by
  have hname : ∀ c ∈ d.name, (!isBlank c) = true := fun c hc => by simp [d.name_plain c hc]
  rw [List.takeWhile_append_of_pos hname, List.dropWhile_append_of_pos hname]
  cases hending : d.ending with
  | nil => simp
  | cons c rest =>
    have hblank : isBlank c = true := d.ending_head c (by simp [hending])
    simp [hblank]

/-- The expansion is what is left of the ending without the blanks at its ends. -/
theorem Definition.trim_ending (h : d.expansion ≠ []) :
    ((d.ending.dropWhile Alias.isGap).reverse.dropWhile Alias.isLineEnd).reverse = d.expansion := by
  obtain ⟨first, more, hfirst⟩ := List.exists_cons_of_ne_nil h
  have hgap : Alias.isGap first = false := d.expansion_head first (by simp [hfirst])
  have hstart : d.ending.dropWhile Alias.isGap = d.expansion ++ d.behind := by
    rw [Definition.ending, hfirst]
    exact dropWhile_gap d.middle_gap hgap _
  obtain ⟨front, last, hlast⟩ := (List.eq_nil_or_concat' d.expansion).resolve_left h
  have hend : Alias.isLineEnd last = false := d.expansion_last last (by simp [hlast])
  have hbehind : ∀ c ∈ d.behind.reverse, Alias.isLineEnd c = true :=
    fun c hc => d.behind_end c (List.mem_reverse.mp hc)
  rw [hstart, hlast, List.reverse_append, List.dropWhile_append_of_pos hbehind, List.reverse_append]
  simp [hend]

/-- Without an expansion the line ends behind the name. -/
theorem Definition.all_ending_iff : d.ending.all Alias.isLineEnd = true ↔ d.expansion = [] := by
  rw [List.all_eq_true]
  constructor
  · intro hall
    by_contra hne
    obtain ⟨front, last, hlast⟩ := (List.eq_nil_or_concat' d.expansion).resolve_left hne
    have hend : Alias.isLineEnd last = false := d.expansion_last last (by simp [hlast])
    rw [hall last (by simp [Definition.ending, hlast])] at hend
    cases hend
  · intro hexpansion c hc
    rw [Definition.ending, hexpansion, List.nil_append] at hc
    rcases List.mem_append.mp hc with hc | hc
    · exact isLineEnd_of_isGap (d.middle_gap c hc)
    · exact d.behind_end c hc

/-- **A line that defines an alias is read as this alias.** -/
theorem ofLine_text : Alias.ofLine d.text = some d.toAlias := by
  obtain ⟨first, more, hfirst, hgap⟩ := d.name_head
  obtain ⟨htake, hdrop⟩ := d.span_name
  have hkeyword : Alias.afterKeyword d.text = some (d.gap ++ (d.name ++ d.ending)) :=
    afterKeyword_indent d.indent_gap _
  have hname : (d.gap ++ (d.name ++ d.ending)).dropWhile Alias.isGap = d.name ++ d.ending := by
    rw [hfirst]
    exact dropWhile_gap d.gap_gap hgap _
  have hapart : ¬ ((d.gap ++ (d.name ++ d.ending)).length = (d.name ++ d.ending).length ||
      d.name.isEmpty) = true := by
    simp [d.gap_ne, hfirst]
  rw [Alias.ofLine, hkeyword]
  show (if _ then _ else _) = _
  rw [hname, htake, hdrop, if_neg hapart]
  by_cases hexpansion : d.expansion = []
  · rw [if_pos (d.all_ending_iff.mpr hexpansion), Definition.toAlias, hexpansion]
  · have hhead : d.ending.head?.any Alias.isGap = true := by
      obtain ⟨c, rest, hmiddle⟩ := List.exists_cons_of_ne_nil (d.middle_ne hexpansion)
      have hc := d.middle_gap c (by simp [hmiddle])
      simp [Definition.ending, hmiddle, hc]
    rw [if_neg fun hall => hexpansion (d.all_ending_iff.mp hall), if_pos hhead,
      d.trim_ending hexpansion, Definition.toAlias]

/-- A line that defines an alias is taken out of the source. -/
theorem defines_text : Defines d.text := by
  refine ⟨d.indent, d.gap ++ (d.name ++ d.ending), rfl, d.indent_gap, ?_⟩
  intro c hc
  obtain ⟨b, more, hgap⟩ := List.exists_cons_of_ne_nil d.gap_ne
  obtain rfl : b = c := by simpa [hgap] using hc
  have hb := d.gap_gap b (by simp [hgap])
  simp only [Alias.isGap, Bool.or_eq_true, decide_eq_true_eq] at hb
  rcases hb with rfl | rfl <;> decide +kernel

/-- The line has no line break in it. -/
theorem line_notMem_text : '\n' ∉ d.text := by
  have hgap : ∀ {word : List Char}, (∀ c ∈ word, Alias.isGap c = true) → '\n' ∉ word :=
    fun h hmem => absurd (h _ hmem) (by decide)
  have hname : '\n' ∉ d.name := fun hmem => absurd (d.name_plain _ hmem) (by decide)
  have hbehind : '\n' ∉ d.behind := fun hmem => absurd (d.behind_end _ hmem) (by decide)
  have hkeyword : '\n' ∉ Alias.keyword := by decide
  simp [Definition.text, Definition.ending, hgap d.indent_gap, hgap d.gap_gap, hname,
    hgap d.middle_gap, d.expansion_line, hbehind, hkeyword]

end Line

/-- What the line goes on with behind the keyword, if it begins with it. -/
theorem exists_indent {line rest : List Char} (h : Alias.afterKeyword line = some rest) :
    ∃ indent, line = indent ++ (Alias.keyword ++ rest) ∧ ∀ c ∈ indent, Alias.isGap c = true := by
  rw [Alias.afterKeyword] at h
  split at h
  · next hkeyword =>
    obtain ⟨more, hmore⟩ := List.isPrefixOf_iff_prefix.mp hkeyword
    rw [← hmore, List.drop_left, Option.some.injEq] at h
    refine ⟨line.takeWhile Alias.isGap, ?_, fun c hc => List.mem_takeWhile_imp hc⟩
    rw [← h, hmore, List.takeWhile_append_dropWhile]
  · cases h

/-- The ending of a line, taken apart. -/
theorem exists_ending {ending : List Char} (h : ending.head?.any Alias.isGap = true) :
    ∃ middle expansion behind, ending = middle ++ (expansion ++ behind) ∧
      expansion = ((ending.dropWhile Alias.isGap).reverse.dropWhile Alias.isLineEnd).reverse ∧
      middle ≠ [] ∧ (∀ c ∈ middle, Alias.isGap c = true) ∧
      (∀ c ∈ expansion.head?, Alias.isGap c = false) ∧
      (∀ c ∈ expansion.getLast?, Alias.isLineEnd c = false) ∧
      ∀ c ∈ behind, Alias.isLineEnd c = true := by
  obtain ⟨text, htext⟩ : ∃ text, text = ending.dropWhile Alias.isGap := ⟨_, rfl⟩
  have hwhole : text.rdropWhile Alias.isLineEnd ++ text.rtakeWhile Alias.isLineEnd = text :=
    List.rdropWhile_append_rtakeWhile
  refine ⟨ending.takeWhile Alias.isGap, text.rdropWhile Alias.isLineEnd,
    text.rtakeWhile Alias.isLineEnd, ?_, by rw [← htext]; rfl, ?_, ?_, ?_, ?_, ?_⟩
  · rw [hwhole, htext, List.takeWhile_append_dropWhile]
  · cases ending with
    | nil => simp at h
    | cons c rest => simpa using h
  · exact fun c hc => List.mem_takeWhile_imp hc
  · intro c hc
    have hstop := List.head?_dropWhile_not Alias.isGap ending
    rw [← htext, ← hwhole, List.head?_append, Option.mem_def.mp hc] at hstop
    simpa using hstop
  · intro c hc
    obtain ⟨hne, rfl⟩ := List.mem_getLast?_eq_getLast hc
    exact Bool.eq_false_iff.mpr (List.rdropWhile_last_not _ _ hne)
  · exact fun c hc => List.mem_rtakeWhile_imp hc

/-- What a line that is read as an alias consists of. -/
theorem ofLine_some {line : List Char} {a : Alias} (h : Alias.ofLine line = some a) :
    ∃ indent gap ending, line = indent ++ (Alias.keyword ++ (gap ++ (a.name ++ ending))) ∧
      (∀ c ∈ indent, Alias.isGap c = true) ∧ gap ≠ [] ∧ (∀ c ∈ gap, Alias.isGap c = true) ∧
      a.name ≠ [] ∧ (∀ c ∈ a.name, isBlank c = false) ∧
      (ending.all Alias.isLineEnd = true ∧ a.expansion = [] ∨
        ending.head?.any Alias.isGap = true ∧ a.expansion =
          ((ending.dropWhile Alias.isGap).reverse.dropWhile Alias.isLineEnd).reverse) := by
  cases hkeyword : Alias.afterKeyword line with
  | none =>
    rw [Alias.ofLine, hkeyword] at h
    cases h
  | some rest =>
    obtain ⟨indent, hline, hindent⟩ := exists_indent hkeyword
    rw [Alias.ofLine, hkeyword] at h
    change (if _ then _ else _) = _ at h
    have hgap : rest.takeWhile Alias.isGap ++ rest.dropWhile Alias.isGap = rest :=
      List.takeWhile_append_dropWhile
    obtain ⟨text, htext⟩ : ∃ text, rest.dropWhile Alias.isGap = text := ⟨_, rfl⟩
    rw [htext] at h hgap
    have hname : text.takeWhile (fun c => !isBlank c) ++ text.dropWhile (fun c => !isBlank c) = text :=
      List.takeWhile_append_dropWhile
    split at h
    · cases h
    · next hapart =>
      simp only [Bool.or_eq_true, decide_eq_true_eq, List.isEmpty_iff, not_or] at hapart
      obtain ⟨hlength, hne⟩ := hapart
      have hgap_ne : rest.takeWhile Alias.isGap ≠ [] := by
        intro hnil
        rw [hnil, List.nil_append] at hgap
        exact hlength (by rw [hgap])
      have hplain : ∀ c ∈ text.takeWhile (fun c => !isBlank c), isBlank c = false :=
        fun c hc => by simpa using List.mem_takeWhile_imp hc
      refine ⟨indent, rest.takeWhile Alias.isGap, text.dropWhile (fun c => !isBlank c), ?_⟩
      split at h
      · next hall =>
        cases h
        exact ⟨by rw [hname, hgap, hline], hindent, hgap_ne, fun c hc => List.mem_takeWhile_imp hc,
          hne, hplain, .inl ⟨hall, rfl⟩⟩
      · split at h
        · next hhead =>
          cases h
          exact ⟨by rw [hname, hgap, hline], hindent, hgap_ne, fun c hc => List.mem_takeWhile_imp hc,
            hne, hplain, .inr ⟨hhead, rfl⟩⟩
        · cases h

/-- **A line is read as an alias just if it defines it.** -/
theorem ofLine_iff {line : List Char} (hline : '\n' ∉ line) {a : Alias} :
    Alias.ofLine line = some a ↔ ∃ d : Definition, d.text = line ∧ d.toAlias = a := by
  constructor
  · intro h
    obtain ⟨indent, gap, ending, rfl, hindent, hgap_ne, hgap, hname_ne, hname, hending⟩ := ofLine_some h
    obtain ⟨name, expansion⟩ := a
    rcases hending with ⟨hall, hexpansion⟩ | ⟨hhead, hexpansion⟩
    · cases hexpansion
      let d : Definition := {
        indent, gap, name, middle := [], expansion := [], behind := ending
        indent_gap := hindent, gap_ne := hgap_ne, gap_gap := hgap, name_ne := hname_ne
        name_plain := hname, middle_gap := by simp, middle_ne := by simp, expansion_line := by simp
        expansion_head := by simp, expansion_last := by simp
        behind_end := List.all_eq_true.mp hall }
      exact ⟨d, rfl, rfl⟩
    · obtain ⟨middle, text, behind, rfl, htext, hmiddle_ne, hmiddle, hfirst, hlast, hbehind⟩ :=
        exists_ending hhead
      obtain rfl : expansion = text := hexpansion.trans htext.symm
      let d : Definition := {
        indent, gap, name, middle, expansion, behind
        indent_gap := hindent, gap_ne := hgap_ne, gap_gap := hgap, name_ne := hname_ne
        name_plain := hname, middle_gap := hmiddle, middle_ne := fun _ => hmiddle_ne
        expansion_line := fun hmem => hline (by simp [hmem])
        expansion_head := hfirst, expansion_last := hlast, behind_end := hbehind }
      exact ⟨d, rfl, rfl⟩
  · rintro ⟨d, rfl, rfl⟩
    exact ofLine_text d

/-! ## A source with definitions above -/

theorem lines_above (definitions : List Definition) (following : List Char) :
    splitOn '\n' (Definition.above definitions following) =
      definitions.map Definition.text ++ splitOn '\n' following := by
  induction definitions with
  | nil => rfl
  | cons d definitions ih =>
    have habove : Definition.above (d :: definitions) following =
        d.text ++ '\n' :: Definition.above definitions following := by
      simp [Definition.above]
    rw [habove, splitOn_append (line_notMem_text d), splitOn, if_pos rfl, ih]
    simp

/-- **What is left of the source is the text below.** -/
theorem strip_above (definitions : List Definition) {following : List Char}
    (h : ∀ line ∈ splitOn '\n' following, ¬ Defines line) :
    Alias.strip (Definition.above definitions following) = following := by
  have hlines : ∀ line ∈ splitOn '\n' following, Alias.isDefinition line = false :=
    fun line hline => Bool.eq_false_iff.mpr fun htrue => h line hline (isDefinition_iff.mp htrue)
  have hkeep : Alias.keepLines (definitions.map Definition.text ++ splitOn '\n' following) =
      splitOn '\n' following := by
    induction definitions with
    | nil => exact keepLines_eq_self hlines
    | cons d definitions ih =>
      have hd : Alias.isDefinition d.text = true := isDefinition_iff.mpr (defines_text d)
      obtain ⟨line, lines, hrest⟩ := List.exists_cons_of_ne_nil
        (List.append_ne_nil_of_right_ne_nil (definitions.map Definition.text)
          (splitOn_ne_nil '\n' following))
      rw [hrest] at ih
      rw [List.map_cons, List.cons_append, hrest, Alias.keepLines, if_pos hd, ih]
      simp
  rw [Alias.strip, lines_above, hkeep, joinLines_splitOn]

/-- The aliases that the source defines, before they are put in order. -/
theorem aliases_above (definitions : List Definition) {following : List Char}
    (h : ∀ line ∈ splitOn '\n' following, ¬ Defines line) :
    (splitOn '\n' (Definition.above definitions following)).filterMap Alias.ofLine =
      definitions.map Definition.toAlias := by
  have hfollowing : (splitOn '\n' following).filterMap Alias.ofLine = [] := by
    refine List.filterMap_eq_nil_iff.mpr fun line hline => ?_
    cases hline' : Alias.ofLine line with
    | none => rfl
    | some a =>
      obtain ⟨d, rfl, -⟩ := (ofLine_iff (notMem_of_mem_splitOn hline)).mp hline'
      exact absurd (defines_text d) (h _ hline)
  rw [lines_above, List.filterMap_append, hfollowing, List.append_nil, List.filterMap_map]
  have htext : Alias.ofLine ∘ Definition.text = some ∘ Definition.toAlias := funext ofLine_text
  rw [htext, List.filterMap_eq_map]

/-! ## The order of aliases -/

/-- An alias comes before another: its name has more bytes, or as many and is the later one. -/
def Alias.Precedes (a b : Alias) : Prop :=
  byteSize b.name < byteSize a.name ∨ byteSize a.name = byteSize b.name ∧ b.name < a.name

theorem before_iff {a b : Alias} :
    Alias.before a b = true ↔ byteSize b.name < byteSize a.name ∨
      byteSize b.name = byteSize a.name ∧ b.name ≤ a.name := by
  simp [Alias.before]

theorem before_trans (a b c : Alias) (hab : Alias.before a b = true) (hbc : Alias.before b c = true) :
    Alias.before a c = true := by
  rw [before_iff] at hab hbc ⊢
  rcases hab with hab | ⟨hab, hab'⟩ <;> rcases hbc with hbc | ⟨hbc, hbc'⟩
  · exact .inl (by omega)
  · exact .inl (by omega)
  · exact .inl (by omega)
  · exact .inr ⟨by omega, hbc'.trans hab'⟩

theorem before_total (a b : Alias) : (Alias.before a b || Alias.before b a) = true := by
  rw [Bool.or_eq_true, before_iff, before_iff]
  rcases Nat.lt_trichotomy (byteSize a.name) (byteSize b.name) with h | h | h
  · exact .inr (.inl h)
  · rcases le_total a.name b.name with hle | hle
    · exact .inr (.inr ⟨h, hle⟩)
    · exact .inl (.inr ⟨h.symm, hle⟩)
  · exact .inl (.inl h)

theorem Alias.Precedes.not_precedes {a b : Alias} (h : a.Precedes b) : ¬ b.Precedes a := by
  rintro (hba | ⟨hsize, hba⟩) <;> rcases h with hab | ⟨hsize', hab⟩
  · omega
  · omega
  · omega
  · exact lt_asymm hab hba

/-- Aliases with different names are put in the one order in which each precedes the later ones. -/
theorem pairwise_precedes {aliases : List Alias} (h : (aliases.map Alias.name).Nodup) :
    (aliases.mergeSort Alias.before).Pairwise Alias.Precedes := by
  have hsorted := List.pairwise_mergeSort before_trans before_total aliases
  have hnames : ((aliases.mergeSort Alias.before).map Alias.name).Nodup :=
    (((List.mergeSort_perm aliases Alias.before).map Alias.name).nodup_iff).mpr h
  refine (hsorted.and (List.pairwise_map.mp hnames)).imp ?_
  rintro a b ⟨hbefore, hne⟩
  rcases before_iff.mp hbefore with hsize | ⟨hsize, hle⟩
  · exact .inl hsize
  · exact .inr ⟨hsize.symm, lt_of_le_of_ne hle (Ne.symm hne)⟩

/-- **The order of definitions does not matter.** Lines that define different names, above a text that
defines nothing, are taken away and leave the text. Their aliases, each once, are in the order in which
they are substituted, longer names first and of names of one length the later first; and both are the
same for every order of the lines. -/
theorem collect_definitions {definitions : List Definition}
    (hnames : (definitions.map Definition.name).Nodup) {following : List Char}
    (hfollowing : ∀ line ∈ splitOn '\n' following, ¬ Defines line) :
    ∃ aliases : List Alias, aliases.Perm (definitions.map Definition.toAlias) ∧
      aliases.Pairwise Alias.Precedes ∧
      ∀ order : List Definition, order.Perm definitions →
        Alias.strip (Definition.above order following) = following ∧
        Alias.collect (Definition.above order following) = aliases := by
  have hdistinct : ((definitions.map Definition.toAlias).map Alias.name).Nodup := by
    rw [List.map_map]
    exact hnames
  have hcollect : ∀ order : List Definition, Alias.collect (Definition.above order following) =
      (order.map Definition.toAlias).mergeSort Alias.before := by
    intro order
    rw [Alias.collect, aliases_above order hfollowing]
  refine ⟨(definitions.map Definition.toAlias).mergeSort Alias.before, List.mergeSort_perm _ _,
    pairwise_precedes hdistinct, ?_⟩
  intro order hperm
  refine ⟨strip_above order hfollowing, ?_⟩
  have hsame : (order.map Definition.toAlias).Perm (definitions.map Definition.toAlias) :=
    hperm.map Definition.toAlias
  rw [hcollect]
  -- two rows of the same aliases in order are the same row
  refine List.Perm.eq_of_pairwise (fun a b _ _ hab hba => absurd hba hab.not_precedes)
    (pairwise_precedes ?_) (pairwise_precedes hdistinct) ?_
  · exact ((hsame.map Alias.name).nodup_iff).mpr hdistinct
  · exact (List.mergeSort_perm _ _).trans (hsame.trans (List.mergeSort_perm _ _).symm)

/-- A definition with blanks all over, of a name by an expansion that has no blanks at its ends. -/
def spacedDefinition (name expansion : List Char) (hne : name ≠ [])
    (hname : name.all (!isBlank ·) = true) (hline : '\n' ∉ expansion)
    (hhead : ∀ c ∈ expansion.head?, Alias.isGap c = false)
    (hlast : ∀ c ∈ expansion.getLast?, Alias.isLineEnd c = false) : Definition where
  indent := ['\t']
  gap := [' ', ' ']
  name
  middle := [' ']
  expansion
  behind := [' ', '\r']
  indent_gap := by simp [Alias.isGap]
  gap_ne := by simp
  gap_gap := by simp [Alias.isGap]
  name_ne := hne
  name_plain := by simpa using hname
  middle_gap := by simp [Alias.isGap]
  middle_ne := by simp
  expansion_line := hline
  expansion_head := hhead
  expansion_last := hlast
  behind_end := by simp [Alias.isLineEnd, Alias.isGap]

/-- Two names of two bytes each, one of them a single letter, and one of one byte without an
expansion. -/
def severalDefinitions : List Definition :=
  [spacedDefinition ['a', 'b'] ['1', ' ', '2'] (by simp) rfl (by simp) (by simp [Alias.isGap])
      (by simp [Alias.isLineEnd, Alias.isGap]),
    spacedDefinition ['x'] [] (by simp) rfl (by simp) (by simp) (by simp),
    spacedDefinition ['é'] ['#'] (by simp) rfl (by simp) (by simp [Alias.isGap])
      (by simp [Alias.isLineEnd, Alias.isGap])]

/-- A text in which the keyword stands behind something else, or begins a longer word. -/
def keywordInside : List Char := "say(\"#define x\");\n #defined x 1".toList

theorem collect_definitions_severalNames :
    (severalDefinitions.map Definition.name).Nodup ∧
    (∀ line ∈ splitOn '\n' keywordInside, ¬ Defines line) ∧
    ∃ aliases : List Alias, aliases.Perm (severalDefinitions.map Definition.toAlias) ∧
      aliases.Pairwise Alias.Precedes ∧
      ∀ order : List Definition, order.Perm severalDefinitions →
        Alias.strip (Definition.above order keywordInside) = keywordInside ∧
        Alias.collect (Definition.above order keywordInside) = aliases := by
  have hnames : (severalDefinitions.map Definition.name).Nodup := by decide
  have hfollowing : ∀ line ∈ splitOn '\n' keywordInside, ¬ Defines line := by decide +kernel
  exact ⟨hnames, hfollowing, collect_definitions hnames hfollowing⟩

end Cutscene.Source
