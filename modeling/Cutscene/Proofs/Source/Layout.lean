import Mathlib
import Cutscene.Proofs.Text.Hiding
import Cutscene.Source.Layout

/-!
Normalising the layout of a text leaves its names alone.

A step `Keeps` the names of a text when it takes glyphs to glyphs with the same names among them.
Steps that keep names compose, and each step of the layout is one: dropping and squeezing characters
that are in no name (`keeps_filter`, `keeps_squeeze`, `keeps_tightenFrom`), and passes of an edit that
takes only characters between names (`keeps_pass`). The whole layout is `keeps_layout`.
-/
namespace Cutscene.Source

open Text

/-- A step that takes glyphs to glyphs and keeps the names among them. -/
def Keeps (step : List Char → List Char) : Prop :=
  ∀ glyphs, Clean glyphs → ∃ kept, Clean kept ∧ step (render glyphs) = render kept ∧
    names kept = names glyphs

theorem Keeps.comp {f g : List Char → List Char} (hf : Keeps f) (hg : Keeps g) :
    Keeps fun text => g (f text) := by
  intro glyphs h
  obtain ⟨first, hfirst, hf_eq, hf_names⟩ := hf glyphs h
  obtain ⟨second, hsecond, hg_eq, hg_names⟩ := hg first hfirst
  refine ⟨second, hsecond, ?_, hg_names.trans hf_names⟩
  calc g (f (render glyphs)) = g (render first) := by rw [hf_eq]
    _ = render second := hg_eq

/-! ## Dropping characters -/

theorem keeps_filter {keep : Char → Bool} (hkeep : ∀ c, isSpelling c = true → keep c = true) :
    Keeps (List.filter keep) := by
  intro glyphs h
  induction glyphs with
  | nil => exact ⟨[], h, rfl, rfl⟩
  | cons glyph glyphs ih =>
    obtain ⟨hg, hrest⟩ := clean_cons.mp h
    obtain ⟨kept, hclean, heq, hnames⟩ := ih hrest
    cases glyph with
    | char c =>
      by_cases hc : keep c = true
      · refine ⟨.char c :: kept, clean_cons.mpr ⟨hg, hclean⟩, ?_, hnames⟩
        simp [Glyph.text, hc, heq]
      · refine ⟨kept, hclean, ?_, hnames⟩
        simp [Glyph.text, hc, heq]
    | name tag n =>
      refine ⟨.name tag n :: kept, clean_cons.mpr ⟨hg, hclean⟩, ?_, by simp [hnames]⟩
      have hword : (spelled tag n).filter keep = spelled tag n :=
        List.filter_eq_self.mpr fun c hc => hkeep c (isSpelling_of_mem_spelled hg hc)
      rw [render_cons, List.filter_append, Glyph.text, hword, heq, render_cons, Glyph.text]

theorem squeeze_append {mark : Char} {word : List Char} (h : mark ∉ word) (rest : List Char) :
    squeeze mark (word ++ rest) = word ++ squeeze mark rest := by
  induction word with
  | nil => rfl
  | cons c word ih =>
    have hc : c ≠ mark := fun hc => h (by simp [hc])
    simp [squeeze, hc, ih fun hmem => h (by simp [hmem])]

theorem keeps_squeeze {mark : Char} (hmark : isSpelling mark = false) : Keeps (squeeze mark) := by
  intro glyphs h
  induction glyphs with
  | nil => exact ⟨[], h, rfl, rfl⟩
  | cons glyph glyphs ih =>
    obtain ⟨hg, hrest⟩ := clean_cons.mp h
    obtain ⟨kept, hclean, heq, hnames⟩ := ih hrest
    cases glyph with
    | char c =>
      by_cases hc : c = mark ∧ (render glyphs).head? = some mark
      · refine ⟨kept, hclean, ?_, hnames⟩
        simp [Glyph.text, squeeze, hc, heq]
      · refine ⟨.char c :: kept, clean_cons.mpr ⟨hg, hclean⟩, ?_, hnames⟩
        simp [Glyph.text, squeeze, hc, heq]
    | name tag n =>
      refine ⟨.name tag n :: kept, clean_cons.mpr ⟨hg, hclean⟩, ?_, by simp [hnames]⟩
      rw [render_cons, Glyph.text, squeeze_append (notMem_spelled hmark hg n), heq, render_cons,
        Glyph.text]

theorem toNat_of_isSpelling {c : Char} (h : isSpelling c = true) :
    0x24 ≤ c.toNat ∧ c.toNat < 0x80 := by
  simp only [isSpelling, Char.isAlphanum, Char.isAlpha, Char.isUpper, Char.isLower, Char.isDigit,
    Bool.or_eq_true, Bool.and_eq_true, decide_eq_true_eq, UInt32.le_iff_toNat_le] at h
  have hval : c.val.toNat = c.toNat := rfl
  rw [hval] at h
  rcases h with (((((⟨h1, h2⟩ | ⟨h1, h2⟩) | ⟨h1, h2⟩) | rfl) | rfl) | rfl) | rfl
  · simp at h1 h2; omega
  · simp at h1 h2; omega
  · simp at h1 h2; omega
  · decide
  · decide
  · decide
  · decide

theorem not_isBlank_of_isSpelling {c : Char} (h : isSpelling c = true) : isBlank c = false := by
  cases hb : isBlank c with
  | false => rfl
  | true =>
    have hin := toNat_of_isSpelling h
    have hout := toNat_of_isBlank hb
    omega

/-- A word of characters that are neither blanks nor commas ends the run of blanks behind a
comma. -/
theorem tightenFrom_append {word : List Char} (h : ∀ c ∈ word, isSpelling c = true)
    (hne : word ≠ []) (afterComma : Bool) (rest : List Char) :
    tightenFrom afterComma (word ++ rest) = word ++ tightenFrom false rest := by
  induction word generalizing afterComma with
  | nil => exact absurd rfl hne
  | cons c word ih =>
    have hc := h c (by simp)
    have hcomma : c ≠ ',' := by
      rintro rfl
      exact absurd hc (by decide)
    simp only [List.cons_append, tightenFrom, not_isBlank_of_isSpelling hc, Bool.and_false,
      hcomma, decide_false, Bool.false_eq_true, if_false]
    cases word with
    | nil => rfl
    | cons d word => rw [ih (fun x hx => h x (by simp [hx])) (by simp)]

theorem keeps_tightenFrom (afterComma : Bool) : Keeps (tightenFrom afterComma) := by
  intro glyphs h
  induction glyphs generalizing afterComma with
  | nil => exact ⟨[], h, rfl, rfl⟩
  | cons glyph glyphs ih =>
    obtain ⟨hg, hrest⟩ := clean_cons.mp h
    cases glyph with
    | char c =>
      by_cases hc : afterComma = true ∧ isBlank c = true
      · obtain ⟨kept, hclean, heq, hnames⟩ := ih true hrest
        refine ⟨kept, hclean, ?_, hnames⟩
        simp [Glyph.text, tightenFrom, hc, heq]
      · obtain ⟨kept, hclean, heq, hnames⟩ := ih (c = ',') hrest
        refine ⟨.char c :: kept, clean_cons.mpr ⟨hg, hclean⟩, ?_, hnames⟩
        simp [Glyph.text, tightenFrom, hc, heq]
    | name tag n =>
      obtain ⟨kept, hclean, heq, hnames⟩ := ih false hrest
      refine ⟨.name tag n :: kept, clean_cons.mpr ⟨hg, hclean⟩, ?_, by simp [hnames]⟩
      have hword : ∀ c ∈ spelled tag n, isSpelling c = true :=
        fun c hc => isSpelling_of_mem_spelled hg hc
      rw [render_cons, Glyph.text, tightenFrom_append hword (by simp [spelled_eq]), heq, render_cons,
        Glyph.text]

/-! ## Passes -/

/-- An edit that applies at no character of a name, takes no `@` behind its first character and
writes no caret. -/
structure Between (edit : List Char → Option Edit) : Prop where
  none : ∀ c rest, isSpelling c = true → edit (c :: rest) = none
  some : ∀ c rest e, edit (c :: rest) = some e → '^' ∉ e.written ∧
    ∃ taken after, rest = taken ++ after ∧ e.taken = taken.length + 1 ∧ '@' ∉ taken

theorem passFrom_name {edit : List Char → Option Edit} (between : Between edit) {word : List Char}
    (h : ∀ c ∈ word, isSpelling c = true) (rest : List Char) :
    passFrom edit 0 (word ++ rest) = word ++ passFrom edit 0 rest := by
  induction word with
  | nil => rfl
  | cons c word ih =>
    rw [List.cons_append, passFrom, between.none c _ (h c (by simp)), ih fun d hd => h d (by simp [hd])]
    rfl

/-- The beginning of a text up to the first `@` consists of characters. -/
theorem render_eq_append {glyphs : List Glyph} {word after : List Char} (h : '@' ∉ word)
    (he : render glyphs = word ++ after) :
    ∃ rest, glyphs = word.map .char ++ rest ∧ render rest = after := by
  induction word generalizing glyphs with
  | nil => exact ⟨glyphs, rfl, he⟩
  | cons c word ih =>
    cases glyphs with
    | nil => simp at he
    | cons glyph glyphs =>
      cases glyph with
      | char d =>
        simp only [render_cons, Glyph.text, List.cons_append, List.nil_append,
          List.cons.injEq] at he
        obtain ⟨rfl, he⟩ := he
        obtain ⟨rest, rfl, hrest⟩ := ih (fun hmem => h (by simp [hmem])) he
        exact ⟨rest, rfl, hrest⟩
      | name tag n =>
        simp only [render_cons, Glyph.text, spelled_eq, List.cons_append, List.cons.injEq] at he
        obtain ⟨rfl, -⟩ := he
        exact absurd (by simp) h

/-- **A pass of an edit between names keeps the names.** The induction is on the number of glyphs,
since an edit takes several at once. -/
theorem keeps_passFrom {edit : List Char → Option Edit} (between : Between edit)
    (glyphs : List Glyph) (h : Clean glyphs) : ∃ kept, Clean kept ∧
      passFrom edit 0 (render glyphs) = render kept ∧ names kept = names glyphs := by
  cases glyphs with
  | nil => exact ⟨[], h, rfl, rfl⟩
  | cons glyph glyphs =>
    obtain ⟨hg, hrest⟩ := clean_cons.mp h
    cases glyph with
    | name tag n =>
      obtain ⟨kept, hclean, heq, hnames⟩ := keeps_passFrom between glyphs hrest
      refine ⟨.name tag n :: kept, clean_cons.mpr ⟨hg, hclean⟩, ?_, by simp [hnames]⟩
      have hword : ∀ c ∈ spelled tag n, isSpelling c = true :=
        fun c hc => isSpelling_of_mem_spelled hg hc
      rw [render_cons, Glyph.text, passFrom_name between hword, heq, render_cons, Glyph.text]
    | char c =>
      rw [render_cons, Glyph.text, List.cons_append, List.nil_append, passFrom]
      cases hedit : edit (c :: render glyphs) with
      | none =>
        obtain ⟨kept, hclean, heq, hnames⟩ := keeps_passFrom between glyphs hrest
        refine ⟨.char c :: kept, clean_cons.mpr ⟨hg, hclean⟩, ?_, hnames⟩
        simp [Glyph.text, heq]
      | some e =>
        -- what is taken ends before the next name, so the pass goes on between glyphs
        obtain ⟨hwritten, taken, after, hsplit, htaken, hat⟩ := between.some c _ e hedit
        obtain ⟨rest, rfl, rfl⟩ := render_eq_append hat hsplit
        obtain ⟨kept, hclean, heq, hnames⟩ :=
          keeps_passFrom between rest (clean_append.mp hrest).2
        refine ⟨e.written.map .char ++ kept,
          clean_append.mpr ⟨clean_map_char hwritten, hclean⟩, ?_, by simp [hnames]⟩
        have hdrop : (render (taken.map .char ++ rest)).drop (e.taken - 1) = render rest := by
          simp [htaken]
        simp only [passFrom_drop edit (e.taken - 1), hdrop, heq]
        rw [render_append, render_map_char]
termination_by glyphs.length
decreasing_by
  all_goals
    subst_vars
    simp only [List.length_cons, List.length_append, List.length_map]
    omega

theorem keeps_pass {edit : List Char → Option Edit} (between : Between edit) : Keeps (pass edit) :=
  fun glyphs h => keeps_passFrom between glyphs h

theorem between_replacing {x : Char} {more new : List Char} (hx : isSpelling x = false)
    (hmore : '@' ∉ more) (hnew : '^' ∉ new) : Between (replacing (x :: more) new) where
  none c rest h := by
    have hne : x ≠ c := by
      rintro rfl
      rw [h] at hx
      cases hx
    simp [replacing, hne]
  some c rest e h := by
    simp only [replacing, List.isEmpty_cons, Bool.not_false, Bool.true_and] at h
    split at h
    · next hp =>
      cases h
      obtain ⟨rfl, after, rfl⟩ := List.cons_prefix_cons.mp (List.isPrefixOf_iff_prefix.mp hp)
      exact ⟨hnew, more, after, rfl, rfl, hmore⟩
    · cases h

/-- The blanks at the start of a text hold no `@`. -/
theorem trimStart_append (text : List Char) :
    ∃ blanks, text = blanks ++ trimStart text ∧ '@' ∉ blanks := by
  refine ⟨text.takeWhile isBlank, List.takeWhile_append_dropWhile.symm, fun hmem => ?_⟩
  have hall := List.all_takeWhile (p := isBlank) (l := text)
  exact absurd (List.all_eq_true.mp hall _ hmem) (by decide)

theorem between_conditioningElse : Between conditioningElse where
  none c rest h := by
    have hne : c ≠ '\x7d' := by
      rintro rfl
      exact absurd h (by decide)
    unfold conditioningElse
    split
    · next heq => exact absurd (List.cons.inj heq).1 hne
    · rfl
  some c rest e h := by
    unfold conditioningElse at h
    split at h
    · next heq =>
      cases heq
      split at h
      · next behind hword =>
        split at h
        · next body hbody =>
          cases h
          obtain ⟨first, hfirst, hat⟩ := trimStart_append rest
          obtain ⟨second, hsecond, hat'⟩ := trimStart_append behind
          rw [hword] at hfirst
          rw [hbody] at hsecond
          have hcaret : '^' ∉ elseArm := by decide
          refine ⟨hcaret, first ++ 'e' :: 'l' :: 's' :: 'e' :: (second ++ ['\x7b']), body, ?_, ?_, ?_⟩
          · rw [hfirst, hsecond]; simp
          · rw [hfirst, hsecond]; simp; omega
          · simp [hat, hat']
        · cases h
      · cases h
    · cases h

/-! ## The whole layout -/

theorem keeps_normalise : Keeps normalise := by
  have hreturn : Keeps (List.filter (· ≠ '\r')) := keeps_filter fun c hc => by
    simpa using fun h => absurd (h ▸ hc) (by decide)
  have hlines : Keeps (squeeze '\n') := keeps_squeeze (by decide)
  have hjoin : ∀ x, isSpelling x = false → '^' ≠ x → Keeps (replaceAll [x, '\n'] [x]) :=
    fun x hx hcaret => keeps_pass (between_replacing hx (by decide) (by simpa using hcaret))
  have hclose : Keeps (replaceAll ['\n', ')'] [')']) :=
    keeps_pass (between_replacing (by decide) (by decide) (by decide))
  have hblanks : Keeps (List.filter fun c => c ≠ '\t' && c ≠ '\n') := keeps_filter fun c hc => by
    have htab : c ≠ '\t' := fun h => absurd (h ▸ hc) (by decide)
    have hline : c ≠ '\n' := fun h => absurd (h ▸ hc) (by decide)
    simp [htab, hline]
  have hspaces : Keeps (squeeze ' ') := keeps_squeeze (by decide)
  exact hreturn.comp <| hlines.comp <| (hjoin '.' (by decide) (by decide)).comp <|
    (hjoin ',' (by decide) (by decide)).comp <| (hjoin '(' (by decide) (by decide)).comp <|
    hclose.comp <| hblanks.comp <| hspaces.comp <| keeps_tightenFrom false

/-- **The layout keeps the names of a text.** -/
theorem keeps_layout : Keeps fun text => conditionElse (normalise text) :=
  keeps_normalise.comp (keeps_pass between_conditioningElse)

end Cutscene.Source
