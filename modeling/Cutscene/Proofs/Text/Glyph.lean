import Cutscene.Text.Placeholder

/-!
Texts with names of hidden spans in them, read glyph by glyph.

A glyph is a character or a name, and `render` writes glyphs out. A text is read back for the names
of a table by `Placeholders.read`, in the way in which `restore` goes over it: restoring is reading
and then writing every name's span (`restore_eq_fill`). Names are told apart by their tag and their
number (`spelled_known`), and the caret occurs in nothing but names, so glyphs without carets of
their own are read back just as they were written (`restore_render`).
-/
namespace Cutscene.Text

/-- A character that stands for itself, or the name of a hidden span. -/
inductive Glyph where
  | char (c : Char)
  | name (tag : List Char) (index : Nat)
  deriving DecidableEq, Repr

/-- The name of a span with its tag and number. -/
def spelled (tag : List Char) (index : Nat) : List Char := Placeholders.name ⟨tag, []⟩ index

/-- The characters of a glyph. -/
def Glyph.text : Glyph → List Char
  | .char c => [c]
  | .name tag index => spelled tag index

/-- Glyphs written out. -/
def render (glyphs : List Glyph) : List Char := glyphs.flatMap Glyph.text

/-- A tag consists of letters. -/
def IsTag (tag : List Char) : Prop := ∀ c ∈ tag, c.isAlpha = true

instance (tag : List Char) : Decidable (IsTag tag) :=
  decidable_of_iff (tag.all Char.isAlpha = true) List.all_eq_true

/-- The characters that names are made of. -/
def isSpelling (c : Char) : Bool :=
  c.isAlphanum || c = '@' || c = '^' || c = ':' || c = '$'

/-- A glyph without a caret of its own: a caret is part of a name, and its tag consists of
letters. -/
def Glyph.Clean : Glyph → Prop
  | .char c => c ≠ '^'
  | .name tag _ => IsTag tag

/-- Glyphs without carets of their own. -/
def Clean (glyphs : List Glyph) : Prop := ∀ glyph ∈ glyphs, glyph.Clean

@[simp] theorem render_nil : render [] = [] := rfl

@[simp] theorem render_cons (glyph : Glyph) (glyphs : List Glyph) :
    render (glyph :: glyphs) = glyph.text ++ render glyphs := rfl

@[simp] theorem render_append (a b : List Glyph) : render (a ++ b) = render a ++ render b := by
  simp [render]

@[simp] theorem render_map_char (text : List Char) : render (text.map .char) = text := by
  induction text with
  | nil => rfl
  | cons c text ih => simp [Glyph.text, ih]

theorem clean_map_char {text : List Char} (h : '^' ∉ text) : Clean (text.map .char) := by
  intro glyph hg
  obtain ⟨c, hc, rfl⟩ := List.mem_map.mp hg
  rintro rfl
  exact h hc

theorem clean_cons {glyph : Glyph} {glyphs : List Glyph} :
    Clean (glyph :: glyphs) ↔ glyph.Clean ∧ Clean glyphs := by simp [Clean]

theorem clean_append {a b : List Glyph} : Clean (a ++ b) ↔ Clean a ∧ Clean b := by
  simp [Clean, or_imp, forall_and]

/-! ## Names -/

theorem spelled_eq (tag : List Char) (index : Nat) :
    spelled tag index = '@' :: '^' :: (tag ++ ':' :: (Nat.toDigits 10 index ++ ['$', '@'])) := by
  simp [spelled, Placeholders.name]

theorem name_eq_spelled (table : Placeholders) (index : Nat) :
    table.name index = spelled table.tag index := rfl

theorem isDigit_of_mem_digits {index : Nat} {c : Char} (h : c ∈ Nat.toDigits 10 index) :
    c.isDigit = true := Nat.isDigit_of_mem_toDigits (by decide) (by decide) h

/-- What follows the caret of a name has letters, digits, the colon, the dollar and a final `@`. -/
theorem isSpelling_of_mem_spelled {tag : List Char} (ht : IsTag tag) {index : Nat} {c : Char}
    (h : c ∈ spelled tag index) : isSpelling c = true := by
  rw [spelled_eq] at h
  simp only [List.mem_cons, List.mem_append, List.not_mem_nil, or_false] at h
  rcases h with rfl | rfl | h | rfl | h | rfl | rfl
  · decide
  · decide
  · simp [isSpelling, Char.isAlphanum, ht c h]
  · decide
  · simp [isSpelling, Char.isAlphanum, isDigit_of_mem_digits h]
  · decide
  · decide

theorem notMem_spelled {x : Char} (hx : isSpelling x = false) {tag : List Char} (ht : IsTag tag)
    (n : Nat) : x ∉ spelled tag n := by
  intro hmem
  rw [isSpelling_of_mem_spelled ht hmem] at hx
  cases hx

/-- A list is cut in one way at the first place of an element. -/
theorem append_cons_inj {α : Type} {a b c d : List α} {x : α} (ha : x ∉ a) (hc : x ∉ c)
    (h : a ++ x :: b = c ++ x :: d) : a = c ∧ b = d := by
  induction a generalizing c with
  | nil =>
    cases c with
    | nil => exact ⟨rfl, by simpa using h⟩
    | cons y c => simp at h; exact absurd (by simp [h.1]) hc
  | cons y a ih =>
    cases c with
    | nil => simp at h; exact absurd (by simp [h.1]) ha
    | cons z c =>
      simp only [List.cons_append, List.cons.injEq] at h
      obtain ⟨rfl, h⟩ := h
      obtain ⟨rfl, rfl⟩ := ih (fun hx => ha (by simp [hx])) (fun hx => hc (by simp [hx])) h
      exact ⟨rfl, rfl⟩

theorem colon_notMem_tag {tag : List Char} (ht : IsTag tag) : ':' ∉ tag :=
  fun h => absurd (ht _ h) (by decide)

theorem dollar_notMem_digits (index : Nat) : '$' ∉ Nat.toDigits 10 index :=
  fun h => absurd (isDigit_of_mem_digits h) (by decide)

/-- **A name is known by its beginning.** A text that begins with two names begins with one. -/
theorem spelled_known {tag tag' : List Char} (ht : IsTag tag) (ht' : IsTag tag') {m n : Nat}
    {rest : List Char} (h : spelled tag m <+: spelled tag' n ++ rest) : tag = tag' ∧ m = n := by
  obtain ⟨more, h⟩ := h
  rw [spelled_eq, spelled_eq] at h
  simp only [List.cons_append, List.append_assoc, List.cons.injEq, true_and] at h
  obtain ⟨htag, hrest⟩ := append_cons_inj (colon_notMem_tag ht) (colon_notMem_tag ht') h
  obtain ⟨hdigits, -⟩ := append_cons_inj (dollar_notMem_digits m) (dollar_notMem_digits n) hrest
  refine ⟨htag, ?_⟩
  calc m = Nat.ofDigitChars 10 (Nat.toDigits 10 m) 0 := Nat.ofDigitChars_ten_toDigits.symm
    _ = Nat.ofDigitChars 10 (Nat.toDigits 10 n) 0 := by rw [hdigits]
    _ = n := Nat.ofDigitChars_ten_toDigits

/-! ## Reading a text for the names of a table -/

namespace Placeholders

/-- The number of the table's span whose name begins a text. -/
def nameAt (table : Placeholders) (text : List Char) : Option Nat :=
  (List.range table.size).find? fun n => (table.name n).isPrefixOf text

/-- The glyphs of a text whose first `skip` characters have been read. -/
def readFrom (table : Placeholders) : Nat → List Char → List Glyph
  | _, [] => []
  | skip + 1, _ :: rest => readFrom table skip rest
  | 0, c :: rest =>
    match table.nameAt (c :: rest) with
    | some n => .name table.tag n :: readFrom table ((table.name n).length - 1) rest
    | none => .char c :: readFrom table 0 rest

/-- The glyphs of a text: the names of the table's spans, from left to right, and the characters
between them. -/
def read (table : Placeholders) (text : List Char) : List Glyph := table.readFrom 0 text

/-- What restoring writes for a glyph: the span of a name of the table, and every other glyph as it
is. -/
def fill (table : Placeholders) : Glyph → List Char
  | .char c => [c]
  | .name tag n => if tag = table.tag then (table.spans[n]?).getD (spelled tag n) else spelled tag n

variable {table : Placeholders}

theorem nameAt_some {text : List Char} {n : Nat} (h : table.nameAt text = some n) :
    n < table.size ∧ spelled table.tag n <+: text := by
  have hp := List.find?_some h
  exact ⟨List.mem_range.mp (List.mem_of_find?_eq_some h), List.isPrefixOf_iff_prefix.mp hp⟩

theorem nameAt_none_iff {text : List Char} :
    table.nameAt text = none ↔ ∀ n < table.size, ¬ spelled table.tag n <+: text := by
  simp [nameAt, List.find?_eq_none, List.isPrefixOf_iff_prefix, name_eq_spelled]

/-- No name begins where there is no `@` with a caret behind it. -/
theorem nameAt_none {c : Char} {rest : List Char} (h : c ≠ '@' ∨ rest.head? ≠ some '^') :
    table.nameAt (c :: rest) = none := by
  refine nameAt_none_iff.mpr fun n _ hp => ?_
  rw [spelled_eq] at hp
  obtain ⟨rfl, hcaret⟩ := List.cons_prefix_cons.mp hp
  rcases h with h | h
  · exact h rfl
  · obtain ⟨more, rfl⟩ := hcaret
    exact h rfl

theorem spanNamed_eq (text : List Char) (index : Nat) (spans : List (List Char)) :
    table.spanNamed text index spans =
      ((List.range' index spans.length).find? fun n => (table.name n).isPrefixOf text).map
        fun n => ⟨(spans[n - index]?).getD [], (table.name n).length⟩ := by
  induction spans generalizing index with
  | nil => rfl
  | cons span spans ih =>
    simp only [spanNamed, List.length_cons, List.range'_succ, List.find?_cons]
    cases hp : (table.name index).isPrefixOf text with
    | true => simp
    | false =>
      rw [if_neg (by decide), ih]
      -- behind the first span an index is larger than `index`
      cases hf : (List.range' (index + 1) spans.length).find? fun n =>
          (table.name n).isPrefixOf text with
      | none => rfl
      | some n =>
        have hn := List.mem_range'_1.mp (List.mem_of_find?_eq_some hf)
        obtain ⟨k, rfl⟩ : ∃ k, n = index + 1 + k := ⟨n - (index + 1), by omega⟩
        simp [show index + 1 + k - index = k + 1 by omega]

/-- The edit of restoring is that of the name that is read. -/
theorem restoring_eq (text : List Char) : table.restoring text =
    (table.nameAt text).map fun n => ⟨(table.spans[n]?).getD [], (table.name n).length⟩ := by
  unfold restoring
  split
  · rw [spanNamed_eq, nameAt, size, List.range_eq_range']
    rfl
  · next hno =>
    have : table.nameAt text = none := by
      cases text with
      | nil => exact nameAt_none_iff.mpr fun n _ hp => by simp [spelled_eq] at hp
      | cons c rest =>
        refine nameAt_none ?_
        by_cases hc : c = '@'
        · subst hc
          refine Or.inr fun hr => ?_
          cases rest with
          | nil => cases hr
          | cons d rest => cases hr; exact hno rest rfl
        · exact Or.inl hc
    rw [this]; rfl

/-- **Restoring is reading and filling in.** -/
theorem restore_eq_fill (text : List Char) :
    table.restore text = (table.read text).flatMap table.fill := by
  rw [restore, pass, read]
  generalize 0 = skip
  induction text generalizing skip with
  | nil => cases skip <;> rfl
  | cons c rest ih =>
    cases skip with
    | succ skip => simpa only [passFrom, readFrom] using ih skip
    | zero =>
      simp only [passFrom, readFrom, restoring_eq]
      cases hn : table.nameAt (c :: rest) with
      | none => simp [fill, ih]
      | some n =>
        have hlt : n < table.spans.length := (nameAt_some hn).1
        simp [fill, ih, hlt]

theorem readFrom_drop (skip : Nat) (text : List Char) :
    table.readFrom skip text = table.readFrom 0 (text.drop skip) := by
  induction text generalizing skip with
  | nil => cases skip <;> rfl
  | cons c rest ih =>
    cases skip with
    | zero => rfl
    | succ skip => simpa only [readFrom, List.drop_succ_cons] using ih skip

/-- A text without `@` is read character by character. -/
theorem read_append {text rest : List Char} (h : '@' ∉ text) :
    table.read (text ++ rest) = text.map .char ++ table.read rest := by
  induction text with
  | nil => rfl
  | cons c text ih =>
    have hnone : table.nameAt (c :: (text ++ rest)) = none :=
      nameAt_none (Or.inl fun hc => h (by simp [hc]))
    simp only [List.cons_append, read, readFrom, hnone, List.map_cons]
    rw [← read, ih fun hm => h (by simp [hm]), read]

/-- What is read of a glyph that was written: a name of the table as a name, and every other name as
its characters. -/
def seen (table : Placeholders) : Glyph → List Glyph
  | .char c => [.char c]
  | .name tag n =>
    if tag = table.tag ∧ n < table.size then [.name tag n] else (spelled tag n).map .char

theorem head?_render_ne_caret {glyphs : List Glyph} (h : Clean glyphs) :
    (render glyphs).head? ≠ some '^' := by
  cases glyphs with
  | nil => simp
  | cons glyph glyphs =>
    have hg := (clean_cons.mp h).1
    cases glyph with
    | char c => simpa [Glyph.text, Glyph.Clean] using hg
    | name tag n => simp [Glyph.text, spelled_eq]

theorem read_name {n : Nat} (hn : n < table.size) (ht : IsTag table.tag) (rest : List Char) :
    table.read (spelled table.tag n ++ rest) = .name table.tag n :: table.read rest := by
  have hat : table.nameAt (spelled table.tag n ++ rest) = some n := by
    cases hat : table.nameAt (spelled table.tag n ++ rest) with
    | none => exact absurd (List.prefix_append _ _) (nameAt_none_iff.mp hat n hn)
    | some m => rw [(spelled_known ht ht (nameAt_some hat).2).2]
  have hcons : spelled table.tag n ++ rest = '@' :: ((spelled table.tag n).tail ++ rest) := by
    simp [spelled_eq]
  rw [hcons] at hat ⊢
  rw [read, readFrom, hat]
  simp only [List.cons.injEq, true_and]
  rw [readFrom_drop, name_eq_spelled, ← List.length_tail, List.drop_left, read]

theorem read_other {tag : List Char} {n : Nat} (ht : IsTag table.tag) (ht' : IsTag tag)
    (h : ¬(tag = table.tag ∧ n < table.size)) {rest : List Char} (hr : rest.head? ≠ some '^') :
    table.read (spelled tag n ++ rest) = (spelled tag n).map .char ++ table.read rest := by
  have hnone : table.nameAt (spelled tag n ++ rest) = none := by
    refine nameAt_none_iff.mpr fun m hm hp => h ?_
    obtain ⟨rfl, rfl⟩ := spelled_known ht ht' hp
    exact ⟨rfl, hm⟩
  -- behind its first character a name has no `@` but the last one, and that has no caret behind it
  obtain ⟨inner, hinner, hat⟩ : ∃ inner, spelled tag n = '@' :: (inner ++ ['@']) ∧ '@' ∉ inner := by
    refine ⟨'^' :: (tag ++ ':' :: (Nat.toDigits 10 n ++ ['$'])), by simp [spelled_eq], ?_⟩
    simp only [List.mem_cons, List.mem_append, List.not_mem_nil, or_false]
    rintro (h | h | h | h | h)
    · exact absurd h (by decide)
    · exact absurd (ht' _ h) (by decide)
    · exact absurd h (by decide)
    · exact absurd (isDigit_of_mem_digits h) (by decide)
    · exact absurd h (by decide)
  rw [hinner] at hnone ⊢
  simp only [List.cons_append, List.append_assoc, List.nil_append] at hnone ⊢
  have hlast : table.nameAt ('@' :: rest) = none := nameAt_none (Or.inr hr)
  rw [read, readFrom, hnone, ← read, read_append hat]
  simp [read, readFrom, hlast]

/-- Glyphs that were written are read back, and what follows them is read on its own. -/
theorem read_render_append (ht : IsTag table.tag) {glyphs : List Glyph} (h : Clean glyphs)
    {rest : List Char} (hrest : rest.head? ≠ some '^') :
    table.read (render glyphs ++ rest) = glyphs.flatMap table.seen ++ table.read rest := by
  induction glyphs with
  | nil => rfl
  | cons glyph glyphs ih =>
    obtain ⟨hg, hglyphs⟩ := clean_cons.mp h
    have hr : (render glyphs ++ rest).head? ≠ some '^' := by
      rw [List.head?_append]
      cases hhead : (render glyphs).head? with
      | none => exact hrest
      | some c =>
        have hne := head?_render_ne_caret hglyphs
        rwa [hhead] at hne
    rw [render_cons, List.flatMap_cons, List.append_assoc, List.append_assoc, ← ih hglyphs]
    cases glyph with
    | char c => simp [Glyph.text, read, readFrom, nameAt_none (Or.inr hr), seen]
    | name tag n =>
      by_cases hown : tag = table.tag ∧ n < table.size
      · obtain ⟨rfl, hn⟩ := hown
        rw [Glyph.text, read_name hn ht, seen, if_pos ⟨rfl, hn⟩]
        rfl
      · rw [Glyph.text, read_other ht hg hown hr, seen, if_neg hown]

/-- **Reading back what was written.** -/
theorem read_render (ht : IsTag table.tag) {glyphs : List Glyph} (h : Clean glyphs) :
    table.read (render glyphs) = glyphs.flatMap table.seen := by
  have hend : ([] : List Char).head? ≠ some '^' := by simp
  have hread := read_render_append ht h hend
  rw [List.append_nil] at hread
  exact hread.trans (List.append_nil _)

/-- Glyphs whose names are all of the table are read back as they are. -/
theorem read_render_own (ht : IsTag table.tag) {glyphs : List Glyph} (h : Clean glyphs)
    (hown : ∀ tag n, .name tag n ∈ glyphs → tag = table.tag ∧ n < table.size) :
    table.read (render glyphs) = glyphs := by
  rw [read_render ht h]
  clear h
  induction glyphs with
  | nil => rfl
  | cons glyph glyphs ih =>
    rw [List.flatMap_cons, ih fun tag n hmem => hown tag n (by simp [hmem])]
    cases glyph with
    | char c => rfl
    | name tag n => rw [seen, if_pos (hown tag n (by simp))]; rfl

theorem fill_other {tag : List Char} {n : Nat} (h : ¬(tag = table.tag ∧ n < table.size)) :
    table.fill (.name tag n) = spelled tag n := by
  by_cases htag : tag = table.tag
  · have hn : table.spans.length ≤ n := Nat.le_of_not_lt fun hn => h ⟨htag, hn⟩
    rw [fill, if_pos htag, List.getElem?_eq_none hn, Option.getD_none]
  · rw [fill, if_neg htag]

theorem fill_seen (glyph : Glyph) : (table.seen glyph).flatMap table.fill = table.fill glyph := by
  cases glyph with
  | char c => rfl
  | name tag n =>
    by_cases hown : tag = table.tag ∧ n < table.size
    · simp [seen, hown]
    · rw [fill_other hown, seen, if_neg hown]
      induction spelled tag n with
      | nil => rfl
      | cons c text ih => simp [fill, ih]

/-- Restoring what was written fills in the spans of the table's names. -/
theorem restore_render (ht : IsTag table.tag) {glyphs : List Glyph} (h : Clean glyphs) :
    table.restore (render glyphs) = glyphs.flatMap table.fill := by
  rw [restore_eq_fill, read_render ht h, List.flatMap_assoc]
  exact congrArg (List.flatMap · glyphs) (funext fill_seen)

/-- What follows glyphs that were written is restored on its own. -/
theorem restore_render_append (ht : IsTag table.tag) {glyphs : List Glyph} (h : Clean glyphs)
    {rest : List Char} (hrest : rest.head? ≠ some '^') :
    table.restore (render glyphs ++ rest) = glyphs.flatMap table.fill ++ table.restore rest := by
  rw [restore_eq_fill, restore_eq_fill, read_render_append ht h hrest, List.flatMap_append,
    List.flatMap_assoc]
  exact congrArg (· ++ _) (congrArg (List.flatMap · glyphs) (funext fill_seen))

end Placeholders

end Cutscene.Text
