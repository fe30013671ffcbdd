import Cutscene.Proofs.Source.Restored

/-!
Expanding aliases around string literals.

A text whose string literals are all closed is code with literals between its segments
(`exists_weave`). Hiding the literals writes names between the segments (`hide_weave`), and aliases are
then expanded in a text that has these names in it. Expanding should leave the names alone, so that
the literals come back as they were and aliases are expanded in the code only. Whether it does depends
on the names of the aliases: it does just if the expanded text, read for the names of the literals, is
the expanded segments with the names between them (`literals_survive_iff`). Aliases whose names are
apart from those of the literals, and whose expansions have no caret, are always of that kind
(`untouched_of_apart`).
-/
namespace Cutscene.Source

open Text

/-! ## Code and literals -/

/-- A string literal: the quote behind its first one that closes it is its last character. -/
def IsLiteral (literal : List Char) : Prop :=
  ∃ body, literal = '"' :: (body ++ ['"']) ∧
    Delimiter.string.close (body ++ ['"']) = some body.length

/-- Segments of code with literals between them. -/
def weave : List Char → List (List Char) → List (List Char) → List Char
  | first, literal :: literals, code :: codes => first ++ (literal ++ weave code literals codes)
  | first, _, _ => first

/-- Segments of code with the names of literals between them, from the number `index` on. -/
def woven : Nat → List Char → List (List Char) → List Glyph
  | _, first, [] => first.map .char
  | index, first, code :: codes =>
    first.map .char ++ .name literalTag index :: woven (index + 1) code codes

theorem close_literal {body : List Char}
    (h : Delimiter.string.close (body ++ ['"']) = some body.length) (rest : List Char) :
    Delimiter.string.close (body ++ '"' :: rest) = some body.length := by
  obtain ⟨found, after, heq, hlength, hother⟩ := closeFrom_some h
  obtain ⟨rfl, -⟩ := List.append_inj heq hlength.symm
  exact hother rest

theorem cut_literal {literal : List Char} (h : IsLiteral literal) (rest : List Char) :
    Delimiter.string.cut (literal ++ rest) = .span literal :: Delimiter.string.cut rest := by
  obtain ⟨body, rfl, hclose⟩ := h
  have hlook : Delimiter.string.look '"' (body ++ '"' :: rest) = .span (body.length + 1) := by
    have hopen : '"' = Delimiter.string.opener := rfl
    rw [Delimiter.look, if_pos hopen, close_literal hclose rest]
  have htext : ('"' :: (body ++ ['"'])) ++ rest = '"' :: (body ++ '"' :: rest) := by simp
  rw [htext, Delimiter.cut, cutFrom, hlook]
  simp only [cutFrom_drop _ (body.length + 1)]
  simp [Delimiter.cut, List.take_append, List.drop_append, List.take_of_length_le,
    List.drop_eq_nil_of_le]

theorem cut_code {code : List Char} (h : '"' ∉ code) (rest : List Char) :
    Delimiter.string.cut (code ++ rest) = code.map .plain ++ Delimiter.string.cut rest :=
  cutFrom_plain (look_plain h) rest

section Weave
variable {first : List Char} {literals codes : List (List Char)}

/-- The literals are the spans of the text, and their names follow those that are given already. -/
theorem conceal_weave (hlength : literals.length = codes.length) (hfirst : '"' ∉ first)
    (hcodes : ∀ code ∈ codes, '"' ∉ code) (hliterals : ∀ literal ∈ literals, IsLiteral literal)
    (spans : List (List Char)) :
    unclosedText (Delimiter.string.cut (weave first literals codes)) = none ∧
      conceal {} (Delimiter.string.cut (weave first literals codes)) ⟨literalTag, spans⟩ =
        (render (woven spans.length first codes), ⟨literalTag, spans ++ literals⟩) := by
  induction codes generalizing first literals spans with
  | nil =>
    obtain rfl : literals = [] := List.length_eq_zero_iff.mp hlength
    have hcut : Delimiter.string.cut (weave first [] []) = first.map .plain ++ [] := by
      simpa [weave, Delimiter.cut, cutFrom] using cut_code hfirst []
    rw [hcut, unclosedText_plain, conceal_plain]
    simp [unclosedText, conceal, woven]
  | cons code codes ih =>
    cases literals with
    | nil => cases hlength
    | cons literal literals =>
      obtain ⟨hliteral, hliterals⟩ := List.forall_mem_cons.mp hliterals
      obtain ⟨hcode, hcodes⟩ := List.forall_mem_cons.mp hcodes
      obtain ⟨hclosed, hconceal⟩ :=
        ih (by simpa using hlength) hcode hcodes hliterals (spans ++ [literal])
      rw [weave, cut_code hfirst, cut_literal hliteral, unclosedText_plain, conceal_plain]
      refine ⟨hclosed, ?_⟩
      simp only [conceal, Placeholders.insert, SpanStyle.hidden, if_true, hconceal]
      simp [SpanStyle.written, woven, Glyph.text, name_eq_spelled, Placeholders.size]

/-- **Hiding the literals** leaves the code with names between its segments. -/
theorem hide_weave (hlength : literals.length = codes.length) (hfirst : '"' ∉ first)
    (hcodes : ∀ code ∈ codes, '"' ∉ code) (hliterals : ∀ literal ∈ literals, IsLiteral literal) :
    hide .string {} (weave first literals codes) (.tagged "string") =
      .ok (render (woven 0 first codes), ⟨literalTag, literals⟩) := by
  obtain ⟨hclosed, hconceal⟩ := conceal_weave hlength hfirst hcodes hliterals []
  have htable : Placeholders.tagged "string" = ⟨literalTag, []⟩ := rfl
  simp only [hide, hclosed, htable, hconceal, List.length_nil, List.nil_append]

/-- Filling the literals in between the segments. -/
theorem fill_woven (hlength : literals.length = codes.length) (done : List (List Char)) :
    (woven done.length first codes).flatMap (Placeholders.fill ⟨literalTag, done ++ literals⟩) =
      weave first literals codes := by
  have hchars : ∀ (text : List Char) (table : Placeholders),
      (text.map Glyph.char).flatMap table.fill = text := by
    intro text table
    induction text with
    | nil => rfl
    | cons c text ih => simp [Placeholders.fill, ih]
  induction codes generalizing first literals done with
  | nil =>
    obtain rfl : literals = [] := List.length_eq_zero_iff.mp hlength
    simp only [woven, weave, hchars]
  | cons code codes ih =>
    cases literals with
    | nil => cases hlength
    | cons literal literals =>
      have hnext : (woven (done.length + 1) code codes).flatMap
          (Placeholders.fill ⟨literalTag, done ++ literal :: literals⟩) =
          weave code literals codes := by
        simpa using ih (by simpa using hlength) (done ++ [literal])
      have hget : (done ++ literal :: literals)[done.length]? = some literal := by simp
      rw [woven, List.flatMap_append, List.flatMap_cons, hchars, hnext, weave]
      simp only [Placeholders.fill, if_true, hget, Option.getD_some]

end Weave

/-- **Every text whose literals are closed is code with literals between its segments.** The
induction is on the length of the text, since a literal takes several characters at once. -/
theorem exists_weave (text : List Char)
    (h : unclosedText (Delimiter.string.cut text) = none) :
    ∃ first literals codes, text = weave first literals codes ∧ literals.length = codes.length ∧
      '"' ∉ first ∧ (∀ code ∈ codes, '"' ∉ code) ∧ ∀ literal ∈ literals, IsLiteral literal := by
  cases text with
  | nil => exact ⟨[], [], [], rfl, rfl, by simp, by simp, by simp⟩
  | cons c rest =>
    rw [Delimiter.cut, cutFrom] at h
    by_cases hc : c = '"'
    · subst hc
      cases hclose : Delimiter.string.close rest with
      | none =>
        have hlook : Delimiter.string.look '"' rest = .unclosed := by
          rw [Delimiter.look, hclose]; rfl
        simp [hlook, unclosedText] at h
      | some n =>
        have hlook : Delimiter.string.look '"' rest = .span (n + 1) := by
          rw [Delimiter.look, hclose]; rfl
        obtain ⟨body, after, rfl, rfl, hother⟩ := closeFrom_some hclose
        have hdrop : (body ++ Delimiter.string.closer :: after).drop (body.length + 1) = after := by
          simp [List.drop_append, List.drop_eq_nil_of_le]
        simp only [hlook, unclosedText, cutFrom_drop _ (body.length + 1), hdrop] at h
        obtain ⟨first, literals, codes, heq, hlength, hfirst, hcodes, hliterals⟩ :=
          exists_weave after h
        refine ⟨[], ('"' :: (body ++ ['"'])) :: literals, first :: codes, ?_, ?_, by simp, ?_, ?_⟩
        · rw [weave, ← heq]
          simp [Delimiter.string]
        · simp [hlength]
        · exact List.forall_mem_cons.mpr ⟨hfirst, hcodes⟩
        · exact List.forall_mem_cons.mpr ⟨⟨body, rfl, hother []⟩, hliterals⟩
    · have hlook : Delimiter.string.look c rest = .plain := by
        rw [Delimiter.look, if_neg]; exact hc
      simp only [hlook, unclosedText] at h
      obtain ⟨first, literals, codes, rfl, hlength, hfirst, hcodes, hliterals⟩ := exists_weave rest h
      refine ⟨c :: first, literals, codes, ?_, hlength, ?_, hcodes, hliterals⟩
      · cases literals <;> cases codes <;> rfl
      · simp only [List.mem_cons, not_or]
        exact ⟨fun heq => hc heq.symm, hfirst⟩
termination_by text.length
decreasing_by
  all_goals
    subst_vars
    simp only [List.length_cons, List.length_append]
    omega

/-! ## Reading for the names of literals -/

theorem nameAt_congr {a b : Placeholders} (htag : a.tag = b.tag) (hsize : a.size = b.size)
    (text : List Char) : a.nameAt text = b.nameAt text := by
  simp only [Placeholders.nameAt, name_eq_spelled, htag, hsize]

/-- What is read depends on the tag of a table and on how many spans it holds. -/
theorem read_congr {a b : Placeholders} (htag : a.tag = b.tag) (hsize : a.size = b.size)
    (text : List Char) : a.read text = b.read text := by
  rw [Placeholders.read, Placeholders.read]
  generalize 0 = skip
  induction text generalizing skip with
  | nil => cases skip <;> rfl
  | cons c rest ih =>
    cases skip with
    | succ skip => simpa only [Placeholders.readFrom] using ih skip
    | zero =>
      simp only [Placeholders.readFrom, nameAt_congr htag hsize, htag, name_eq_spelled]
      cases b.nameAt (c :: rest) with
      | none => simp only [ih]
      | some n => simp only [ih]

/-- The names that are read are those of the table. -/
theorem name_mem_read {table : Placeholders} {text : List Char} {tag : List Char} {n : Nat}
    (h : .name tag n ∈ table.read text) : tag = table.tag ∧ n < table.size := by
  rw [Placeholders.read] at h
  generalize 0 = skip at h
  induction text generalizing skip with
  | nil => cases skip <;> cases h
  | cons c rest ih =>
    cases skip with
    | succ skip => exact ih _ h
    | zero =>
      rw [Placeholders.readFrom] at h
      cases hat : table.nameAt (c :: rest) with
      | none =>
        simp only [hat, List.mem_cons, reduceCtorEq, false_or] at h
        exact ih _ h
      | some m =>
        simp only [hat, List.mem_cons] at h
        rcases h with heq | h
        · cases heq
          exact ⟨rfl, (Placeholders.nameAt_some hat).1⟩
        · exact ih _ h

theorem name_mem_woven {index : Nat} {first : List Char} {codes : List (List Char)} {tag : List Char}
    {n : Nat} (h : .name tag n ∈ woven index first codes) :
    tag = literalTag ∧ n < index + codes.length := by
  induction codes generalizing index first with
  | nil => simp [woven] at h
  | cons code codes ih =>
    simp only [woven, List.mem_append, List.mem_map, reduceCtorEq, and_false, exists_false, false_or,
      List.mem_cons] at h
    rw [List.length_cons]
    rcases h with heq | h
    · cases heq
      exact ⟨rfl, by omega⟩
    · obtain ⟨htag, hn⟩ := ih h
      exact ⟨htag, by omega⟩

/-! ## Telling glyphs apart by their spans -/

/-- A literal that is longer than `base`, and of another length for every number. -/
def longLiteral (base index : Nat) : List Char := '"' :: (List.replicate (base + index) 'w' ++ ['"'])

theorem isLiteral_longLiteral (base index : Nat) : IsLiteral (longLiteral base index) := by
  refine ⟨List.replicate (base + index) 'w', rfl, ?_⟩
  have hrun : ∀ (k : Nat) (previous : Char), previous ≠ '\\' →
      Delimiter.string.closeFrom 0 previous (List.replicate k 'w' ++ ['"']) = some k := by
    intro k
    induction k with
    | zero =>
      intro previous hp
      simp [Delimiter.closeFrom, Delimiter.string, hp]
    | succ k ih =>
      intro previous _
      have hnext := ih 'w' (by decide)
      simp only [Delimiter.string] at hnext
      simp [List.replicate_succ, Delimiter.closeFrom, Delimiter.string, hnext]
  rw [List.length_replicate]
  exact hrun _ _ (by decide)

theorem caret_notMem_longLiteral (base index : Nat) : '^' ∉ longLiteral base index := by
  simp [longLiteral, List.mem_replicate]

/-- The table of the first `size` long literals. -/
def longTable (base size : Nat) : Placeholders :=
  ⟨literalTag, (List.range size).map (longLiteral base)⟩

theorem fill_longTable {base size n : Nat} (h : n < size) :
    (longTable base size).fill (.name literalTag n) = longLiteral base n := by
  simp [longTable, Placeholders.fill, h]

/-- Glyphs that are filled in to a run of letters are letters themselves. -/
theorem length_of_run {base size : Nat} {glyphs : List Glyph}
    (h : ∀ tag n, .name tag n ∈ glyphs → tag = literalTag ∧ n < size) {k : Nat} {rest : List Char}
    (heq : glyphs.flatMap (longTable base size).fill = List.replicate k 'w' ++ rest) :
    k ≤ glyphs.length := by
  induction glyphs generalizing k with
  | nil =>
    cases k with
    | zero => simp
    | succ k => simp [List.replicate_succ] at heq
  | cons glyph glyphs ih =>
    cases k with
    | zero => simp
    | succ k =>
      rw [List.flatMap_cons, List.replicate_succ, List.cons_append] at heq
      cases glyph with
      | char c =>
        simp only [Placeholders.fill, List.cons_append, List.nil_append, List.cons.injEq] at heq
        have := ih (fun tag n hmem => h tag n (by simp [hmem])) heq.2
        simpa using this
      | name tag n =>
        obtain ⟨rfl, hn⟩ := h tag n (by simp)
        rw [fill_longTable hn] at heq
        simp [longLiteral] at heq

/-- A character and a name are told apart: the literal is longer than what the other glyphs give. -/
theorem char_ne_long {base size : Nat} {glyphs : List Glyph} (hbase : glyphs.length < base)
    (h : ∀ tag n, .name tag n ∈ glyphs → tag = literalTag ∧ n < size) {c : Char} {n : Nat}
    {rest : List Char} :
    c :: glyphs.flatMap (longTable base size).fill ≠ longLiteral base n ++ rest := by
  intro heq
  simp only [longLiteral, List.cons_append, List.append_assoc, List.cons.injEq] at heq
  have := length_of_run h heq.2
  omega

theorem longLiteral_inj {base m n : Nat} {a b : List Char}
    (h : longLiteral base m ++ a = longLiteral base n ++ b) : m = n := by
  have hquote : ∀ k, '"' ∉ List.replicate k 'w' := by simp [List.mem_replicate]
  simp only [longLiteral, List.cons_append, List.append_assoc, List.cons.injEq, true_and,
    List.nil_append] at h
  have hrun := congrArg List.length (append_cons_inj (hquote _) (hquote _) h).1
  simp only [List.length_replicate] at hrun
  omega

/-- **Glyphs are known by what is filled in for long literals.** -/
theorem fill_longTable_inj (base size : Nat) {a b : List Glyph} (ha : a.length < base)
    (hb : b.length < base) (hna : ∀ tag n, .name tag n ∈ a → tag = literalTag ∧ n < size)
    (hnb : ∀ tag n, .name tag n ∈ b → tag = literalTag ∧ n < size)
    (h : a.flatMap (longTable base size).fill = b.flatMap (longTable base size).fill) : a = b := by
  have hne : ∀ glyph, (∀ tag n, glyph = .name tag n → tag = literalTag ∧ n < size) →
      (longTable base size).fill glyph ≠ [] := by
    intro glyph hname
    cases glyph with
    | char c => simp [Placeholders.fill]
    | name tag n =>
      obtain ⟨rfl, hn⟩ := hname tag n rfl
      simp [fill_longTable hn, longLiteral]
  induction a generalizing b with
  | nil =>
    cases b with
    | nil => rfl
    | cons y b =>
      rw [List.flatMap_cons] at h
      exact absurd (List.append_eq_nil_iff.mp h.symm).1 (hne y fun tag n hy => hnb tag n (by simp [hy]))
  | cons x a ih =>
    have hna' : ∀ tag n, .name tag n ∈ a → tag = literalTag ∧ n < size :=
      fun tag n hmem => hna tag n (by simp [hmem])
    rw [List.length_cons] at ha
    cases b with
    | nil =>
      rw [List.flatMap_cons] at h
      exact absurd (List.append_eq_nil_iff.mp h).1 (hne x fun tag n hx => hna tag n (by simp [hx]))
    | cons y b =>
      have hnb' : ∀ tag n, .name tag n ∈ b → tag = literalTag ∧ n < size :=
        fun tag n hmem => hnb tag n (by simp [hmem])
      rw [List.length_cons] at hb
      rw [List.flatMap_cons, List.flatMap_cons] at h
      -- the first glyphs are the same, since what follows cannot make up for a difference
      have hfirst : x = y := by
        cases x with
        | char c =>
          cases y with
          | char d =>
            simp only [Placeholders.fill, List.cons_append, List.cons.injEq] at h
            rw [h.1]
          | name tag n =>
            obtain ⟨rfl, hn⟩ := hnb tag n (by simp)
            rw [fill_longTable hn] at h
            exact absurd h (char_ne_long (by omega) hna')
        | name tag n =>
          obtain ⟨rfl, hn⟩ := hna tag n (by simp)
          rw [fill_longTable hn] at h
          cases y with
          | char d => exact absurd h.symm (char_ne_long (by omega) hnb')
          | name tag' m =>
            obtain ⟨rfl, hm⟩ := hnb tag' m (by simp)
            rw [fill_longTable hm] at h
            rw [longLiteral_inj h]
      subst hfirst
      rw [ih (by omega) (by omega) hna' hnb' (List.append_cancel_left h)]

/-! ## When the literals survive -/

/-- Hiding the literals, expanding the aliases and putting the literals back expands the aliases in
the code and leaves every literal as it is. -/
def Spares (aliases : List Alias) (first : List Char) (literals codes : List (List Char)) : Prop :=
  ∃ hidden, hide .string {} (weave first literals codes) (.tagged "string") = .ok hidden ∧
    hidden.2.restore (Alias.substitute aliases hidden.1) =
      weave (Alias.substitute aliases first) literals (codes.map (Alias.substitute aliases))

/-- Expanding the aliases leaves the names of the literals alone: read for these names, the expanded
text is the expanded code with the names between its segments. -/
def Untouched (aliases : List Alias) (first : List Char) (codes : List (List Char)) : Prop :=
  Placeholders.read ⟨literalTag, codes.map fun _ => []⟩
      (Alias.substitute aliases (render (woven 0 first codes))) =
    woven 0 (Alias.substitute aliases first) (codes.map (Alias.substitute aliases))

/-- Which literals survive is seen when the glyphs that are read are filled in. -/
theorem spares_iff {aliases : List Alias} {first : List Char} {literals codes : List (List Char)}
    (hlength : literals.length = codes.length) (hfirst : '"' ∉ first)
    (hcodes : ∀ code ∈ codes, '"' ∉ code) (hliterals : ∀ literal ∈ literals, IsLiteral literal) :
    Spares aliases first literals codes ↔
      (Placeholders.read ⟨literalTag, codes.map fun _ => []⟩
        (Alias.substitute aliases (render (woven 0 first codes)))).flatMap
          (Placeholders.fill ⟨literalTag, literals⟩) =
      (woven 0 (Alias.substitute aliases first) (codes.map (Alias.substitute aliases))).flatMap
        (Placeholders.fill ⟨literalTag, literals⟩) := by
  have hread : ∀ text, Placeholders.read ⟨literalTag, literals⟩ text =
      Placeholders.read ⟨literalTag, codes.map fun _ => []⟩ text := by
    intro text
    apply read_congr
    · rfl
    · simp [Placeholders.size, hlength]
  have hfill : (woven 0 (Alias.substitute aliases first)
      (codes.map (Alias.substitute aliases))).flatMap (Placeholders.fill ⟨literalTag, literals⟩) =
      weave (Alias.substitute aliases first) literals (codes.map (Alias.substitute aliases)) :=
    fill_woven (by simpa using hlength) []
  rw [Spares, hide_weave hlength hfirst hcodes hliterals, hfill]
  constructor
  · rintro ⟨hidden, hok, hspared⟩
    obtain rfl := Except.ok.inj hok
    rw [← hspared, Placeholders.restore_eq_fill, hread]
  · intro heq
    refine ⟨_, rfl, ?_⟩
    rw [Placeholders.restore_eq_fill, hread, heq]

/-- **When the literals survive.** For segments of code, aliases are expanded in the code only and
every choice of literals between the segments comes back as it was, just if expanding leaves the names
of the literals alone. -/
theorem literals_survive_iff {aliases : List Alias} {first : List Char} {codes : List (List Char)}
    (hfirst : '"' ∉ first) (hcodes : ∀ code ∈ codes, '"' ∉ code) :
    (∀ literals : List (List Char), literals.length = codes.length →
        (∀ literal ∈ literals, IsLiteral literal ∧ '^' ∉ literal) →
        Spares aliases first literals codes) ↔
      Untouched aliases first codes := by
  constructor
  · intro hspares
    -- the literals are chosen longer than all that is read and written
    let base := (Placeholders.read ⟨literalTag, codes.map fun _ => []⟩
        (Alias.substitute aliases (render (woven 0 first codes)))).length +
      (woven 0 (Alias.substitute aliases first) (codes.map (Alias.substitute aliases))).length + 1
    have hlong : ∀ literal ∈ (List.range codes.length).map (longLiteral base),
        IsLiteral literal ∧ '^' ∉ literal := by
      intro literal hmem
      obtain ⟨index, -, rfl⟩ := List.mem_map.mp hmem
      exact ⟨isLiteral_longLiteral base index, caret_notMem_longLiteral base index⟩
    have hspared := hspares _ (by simp) hlong
    rw [spares_iff (by simp) hfirst hcodes fun l hl => (hlong l hl).1] at hspared
    refine fill_longTable_inj base codes.length (by omega) (by omega) ?_ ?_ hspared
    · intro tag n hmem
      simpa [Placeholders.size] using name_mem_read hmem
    · intro tag n hmem
      simpa using name_mem_woven hmem
  · intro huntouched literals hlength hliterals
    rw [spares_iff hlength hfirst hcodes fun l hl => (hliterals l hl).1, huntouched]

/-! ## Aliases apart from the names -/

/-- A name that cannot meet a word in a text: neither holds the other, and neither ends with the
beginning of the other. -/
structure Apart (name word : List Char) : Prop where
  inside : ¬ name <:+: word
  around : ¬ word <:+: name
  front : ∀ shared, shared ≠ [] → shared <:+ name → ¬ shared <+: word
  behind : ∀ shared, shared ≠ [] → shared <+: name → ¬ shared <:+ word

variable {name new word : List Char}

/-- No replacement begins inside a word that is apart. -/
theorem passFrom_apart (h : Apart name word) {ending : List Char} (hending : ending <:+ word)
    (rest : List Char) : passFrom (replacing name new) 0 (ending ++ rest) =
      ending ++ passFrom (replacing name new) 0 rest := by
  induction ending with
  | nil => rfl
  | cons c ending ih =>
    have hno : ¬ name <+: c :: ending ++ rest := by
      intro hp
      rcases List.prefix_or_prefix_of_prefix hp (List.prefix_append _ _) with hname | hover
      · exact h.inside (hname.isInfix.trans hending.isInfix)
      · exact h.behind _ (by simp) hover hending
    rw [List.cons_append, passFrom, ← List.cons_append, replacing_none hno,
      ih ((List.suffix_cons c ending).trans hending)]
    rfl

/-- **Replacing goes around a word that is apart.** -/
theorem passFrom_around (h : Apart name word) (code rest : List Char) {skip : Nat}
    (hskip : skip ≤ code.length) :
    passFrom (replacing name new) skip (code ++ (word ++ rest)) =
      passFrom (replacing name new) skip code ++ (word ++ passFrom (replacing name new) 0 rest) := by
  induction code generalizing skip with
  | nil =>
    obtain rfl : skip = 0 := by simpa using hskip
    exact passFrom_apart h (List.suffix_refl word) rest
  | cons c code ih =>
    cases skip with
    | succ skip => exact ih (by simpa using hskip)
    | zero =>
      -- the name stands at the start of the code, or it does not stand here at all
      by_cases hp : name <+: c :: code
      · cases name with
        | nil => exact absurd (List.nil_infix) h.inside
        | cons d name =>
          have hedit : ∀ text, d :: name <+: text →
              replacing (d :: name) new text = some ⟨new, (d :: name).length⟩ := by
            intro text hp
            simp [replacing, List.isPrefixOf_iff_prefix.mpr hp]
          have hshort : name.length ≤ code.length := by simpa using hp.length_le
          rw [List.cons_append, passFrom, passFrom, hedit _ hp, ← List.cons_append,
            hedit _ (hp.trans (List.prefix_append _ _))]
          simp only [List.length_cons, Nat.add_sub_cancel, ih hshort, List.append_assoc]
      · have hno : ¬ name <+: c :: code ++ (word ++ rest) := by
          intro hp'
          rcases List.prefix_or_prefix_of_prefix hp' (List.prefix_append _ _) with hname | hover
          · exact hp hname
          · obtain ⟨shared, rfl⟩ := hover
            have hne : shared ≠ [] := by
              rintro rfl
              exact hp (by simp)
            have hshared : shared <+: word ++ rest := (List.prefix_append_right_inj _).mp hp'
            rcases List.prefix_or_prefix_of_prefix hshared (List.prefix_append _ _) with hs | hs
            · exact h.front shared hne (List.suffix_append _ _) hs
            · exact h.around (hs.isInfix.trans (List.suffix_append _ _).isInfix)
        rw [List.cons_append, passFrom, passFrom, replacing_none hp, ← List.cons_append,
          replacing_none hno, ih (Nat.zero_le _)]
        rfl

theorem replaceAll_woven {index : Nat} {first : List Char} {codes : List (List Char)}
    (h : ∀ n < index + codes.length, Apart name (spelled literalTag n)) :
    replaceAll name new (render (woven index first codes)) =
      render (woven index (replaceAll name new first) (codes.map (replaceAll name new))) := by
  induction codes generalizing index first with
  | nil => simp [woven]
  | cons code codes ih =>
    rw [List.length_cons] at h
    have hrest : replaceAll name new (render (woven (index + 1) code codes)) =
        render (woven (index + 1) (replaceAll name new code) (codes.map (replaceAll name new))) :=
      ih fun n hn => h n (by omega)
    have hname := h index (by omega)
    simp only [woven, List.map_cons, render_append, render_map_char, render_cons, Glyph.text]
    rw [← hrest]
    exact passFrom_around hname first _ (Nat.zero_le _)

/-- Aliases apart from the names are expanded segment by segment. -/
theorem substitute_woven {aliases : List Alias} {first : List Char} {codes : List (List Char)}
    (h : ∀ a ∈ aliases, ∀ n < codes.length, Apart a.name (spelled literalTag n)) :
    Alias.substitute aliases (render (woven 0 first codes)) =
      render (woven 0 (Alias.substitute aliases first) (codes.map (Alias.substitute aliases))) := by
  induction aliases generalizing first codes with
  | nil =>
    have hsame : Alias.substitute [] = id := rfl
    rw [hsame, List.map_id]
    rfl
  | cons a aliases ih =>
    obtain ⟨ha, haliases⟩ := List.forall_mem_cons.mp h
    have hfirst : replaceAll a.name a.expansion (render (woven 0 first codes)) =
        render (woven 0 (replaceAll a.name a.expansion first)
          (codes.map (replaceAll a.name a.expansion))) :=
      replaceAll_woven (by simpa using ha)
    have hlength : ∀ b ∈ aliases, ∀ n < (codes.map (replaceAll a.name a.expansion)).length,
        Apart b.name (spelled literalTag n) := by simpa using haliases
    calc Alias.substitute (a :: aliases) (render (woven 0 first codes))
      _ = Alias.substitute aliases (render (woven 0 (replaceAll a.name a.expansion first)
          (codes.map (replaceAll a.name a.expansion)))) := by rw [← hfirst]; rfl
      _ = _ := by rw [ih hlength, List.map_map]; rfl

theorem mem_passFrom {edit : List Char → Option Edit} {x : Char} (hedit : ∀ text e,
    edit text = some e → x ∉ e.written) {skip : Nat} {text : List Char}
    (h : x ∈ passFrom edit skip text) : x ∈ text := by
  induction text generalizing skip with
  | nil => cases skip <;> cases h
  | cons c rest ih =>
    cases skip with
    | succ skip => exact List.mem_cons_of_mem _ (ih h)
    | zero =>
      rw [passFrom] at h
      cases he : edit (c :: rest) with
      | none =>
        simp only [he, List.mem_cons] at h
        exact List.mem_cons.mpr (h.imp_right ih)
      | some e =>
        simp only [he, List.mem_append] at h
        exact List.mem_cons_of_mem _ (ih (h.resolve_left (hedit _ e he)))

theorem caret_notMem_substitute {aliases : List Alias} (h : ∀ a ∈ aliases, '^' ∉ a.expansion)
    {text : List Char} (htext : '^' ∉ text) : '^' ∉ Alias.substitute aliases text := by
  induction aliases generalizing text with
  | nil => exact htext
  | cons a aliases ih =>
    obtain ⟨ha, haliases⟩ := List.forall_mem_cons.mp h
    refine ih haliases fun hmem => htext (mem_passFrom ?_ hmem)
    intro text e he
    rw [replacing] at he
    split at he
    · cases he
      exact ha
    · cases he

theorem clean_woven {index : Nat} {first : List Char} {codes : List (List Char)}
    (hfirst : '^' ∉ first) (hcodes : ∀ code ∈ codes, '^' ∉ code) : Clean (woven index first codes) := by
  induction codes generalizing index first with
  | nil => exact clean_map_char hfirst
  | cons code codes ih =>
    obtain ⟨hcode, hcodes⟩ := List.forall_mem_cons.mp hcodes
    have htag : IsTag literalTag := by decide
    exact clean_append.mpr ⟨clean_map_char hfirst, clean_cons.mpr ⟨htag, ih hcode hcodes⟩⟩

/-- **Aliases whose names are apart from those of the literals leave them alone**, when no expansion
has a caret. -/
theorem untouched_of_apart {aliases : List Alias} {first : List Char} {codes : List (List Char)}
    (hfirst : '^' ∉ first) (hcodes : ∀ code ∈ codes, '^' ∉ code)
    (hcaret : ∀ a ∈ aliases, '^' ∉ a.expansion)
    (hapart : ∀ a ∈ aliases, ∀ n < codes.length, Apart a.name (spelled literalTag n)) :
    Untouched aliases first codes := by
  have hclean : Clean (woven 0 (Alias.substitute aliases first)
      (codes.map (Alias.substitute aliases))) := by
    refine clean_woven (caret_notMem_substitute hcaret hfirst) ?_
    exact List.forall_mem_map.mpr fun code hcode => caret_notMem_substitute hcaret (hcodes code hcode)
  have htag : IsTag literalTag := by decide
  rw [Untouched, substitute_woven hapart]
  refine Placeholders.read_render_own htag hclean fun tag n hmem => ?_
  simpa [Placeholders.size] using name_mem_woven hmem

/-- An alias without `@` in its name is apart from the names of literals unless it is part of one:
these begin and end with `@`. -/
theorem apart_spelled {index : Nat} (hat : '@' ∉ name)
    (hinside : ¬ name <:+: spelled literalTag index) : Apart name (spelled literalTag index) where
  inside := hinside
  around h := hat (h.subset (by simp [spelled_eq]))
  front shared hne hname hword := by
    cases shared with
    | nil => exact hne rfl
    | cons c shared =>
      rw [spelled_eq] at hword
      obtain ⟨rfl, -⟩ := List.cons_prefix_cons.mp hword
      exact hat (hname.subset (by simp))
  behind shared hne hname hword := by
    have hreverse : shared.reverse <+: (spelled literalTag index).reverse :=
      List.reverse_prefix.mpr hword
    cases hcase : shared.reverse with
    | nil => exact hne (List.reverse_eq_nil_iff.mp hcase)
    | cons c rest =>
      rw [hcase, spelled_eq] at hreverse
      simp only [List.reverse_cons, List.reverse_append, List.reverse_nil, List.nil_append,
        List.cons_append, List.append_assoc] at hreverse
      obtain ⟨rfl, -⟩ := List.cons_prefix_cons.mp hreverse
      have hmem : '@' ∈ shared := List.mem_reverse.mp (by rw [hcase]; simp)
      exact hat (hname.subset hmem)

/-- The alias `HERO` for `npc(1)`. -/
def hero : Alias := ⟨['H', 'E', 'R', 'O'], ['n', 'p', 'c', '(', '1', ')']⟩

/-- The code of `HERO.say("HERO");` before its literal. -/
def heroSays : List Char := ['H', 'E', 'R', 'O', '.', 's', 'a', 'y', '(']

theorem spares_hero :
    Spares [hero] heroSays [['"', 'H', 'E', 'R', 'O', '"']] [[')', ';']] := by
  have huntouched : Untouched [hero] heroSays [[')', ';']] := by
    apply untouched_of_apart
    · decide
    · decide
    · decide
    · intro a ha n hn
      obtain rfl : a = hero := by simpa using ha
      obtain rfl : n = 0 := by simpa using hn
      have hletter : 'H' ∉ spelled literalTag 0 := by decide
      exact apart_spelled (by decide) fun hinside => hletter (hinside.subset (by decide))
  refine (literals_survive_iff (by decide) (by decide)).mpr huntouched _ rfl ?_
  intro literal hliteral
  obtain rfl := List.mem_singleton.mp hliteral
  exact ⟨⟨['H', 'E', 'R', 'O'], rfl, by decide⟩, by decide⟩

/-- An alias whose name is part of the names of the literals: `string` for `X`. -/
def stringAlias : Alias := ⟨['s', 't', 'r', 'i', 'n', 'g'], ['X']⟩

/-- The code of `say("hi");` before its literal. -/
def sayOpen : List Char := ['s', 'a', 'y', '(']

/-- The literal of `say("hi");`. -/
def greeting : List Char := ['"', 'h', 'i', '"']

/-- The source `#define string X` with `say("hi");` on the next line. -/
def stringDefined : List Char :=
  Alias.keyword ++ ' ' :: stringAlias.name ++ [' ', 'X', '\n'] ++ weave sayOpen [greeting] [[')', ';']]

/-- The alias `string` spoils the name of the literal in `say("hi");`, and the literal is lost. -/
theorem not_spares_greeting :
    IsLiteral greeting ∧ '^' ∉ weave sayOpen [greeting] [[')', ';']] ∧
      ¬ Spares [stringAlias] sayOpen [greeting] [[')', ';']] ∧
      fragments stringDefined =
        .ok [sayOpen ++ ['@', '^', 'X', ':', '0', '$', '@'] ++ [')']] := by
  have hliteral : IsLiteral greeting := ⟨['h', 'i'], rfl, by decide⟩
  refine ⟨hliteral, by decide, fun hspares => ?_, ?_⟩
  · have hfilled :=
      (spares_iff (by rfl) (by decide) (by decide) (by simpa using hliteral)).mp hspares
    exact absurd hfilled (by decide)
  · cbv

end Cutscene.Source
