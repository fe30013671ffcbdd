import Cutscene.Proofs.Source.Skeleton

/-!
Texts that are laid out already.

The layout leaves no line breaks and tabs, no two spaces side by side, no blank behind a comma, and no
`else` between braces that has no condition. A text of which all this is true is settled: the layout
leaves it as it is (`layout_of_settled`), and so it does with whatever is cut out of it
(`Settled.within`). What the layout gives is settled (`settled_layout`), since each of its steps keeps
what the steps before it did: spaces are squeezed before the blanks behind commas go, which brings no two
characters together but a comma and one that is no blank, and an arm that is written for an `else` begins
and ends with the brace that stood there.
-/
namespace Cutscene.Source

open Text

/-- Two characters may stand side by side in a text that is laid out. -/
def Tight (x y : Char) : Prop := ¬(x = ' ' ∧ y = ' ') ∧ ¬(x = ',' ∧ isBlank y = true)

instance (x y : Char) : Decidable (Tight x y) :=
  inferInstanceAs (Decidable (¬(x = ' ' ∧ y = ' ') ∧ ¬(x = ',' ∧ isBlank y = true)))

/-- A text in which the layout has nothing to change. -/
structure Settled (text : List Char) : Prop where
  inline : ∀ c ∈ text, isInline c = true
  tight : text.IsChain Tight
  conditioned : ∀ word, IsElse word → ¬ word <:+: text

theorem Settled.within {text inner : List Char} (h : Settled text) (hin : inner <:+: text) :
    Settled inner where
  inline c hc := h.inline c (hin.subset hc)
  tight := List.IsChain.infix h.tight hin
  conditioned word hword hinner := h.conditioned word hword (hinner.trans hin)

/-! ## Nothing to change -/

theorem squeeze_eq_self {mark : Char} {text : List Char}
    (h : text.IsChain fun x y => ¬(x = mark ∧ y = mark)) : squeeze mark text = text := by
  induction text with
  | nil => rfl
  | cons c rest ih =>
    obtain ⟨hhead, hrest⟩ := List.isChain_cons.mp h
    have hapart : ¬(c = mark ∧ rest.head? = some mark) :=
      fun ⟨hc, hnext⟩ => hhead mark hnext ⟨hc, rfl⟩
    rw [squeeze_cons hapart, ih hrest]

theorem tightenFrom_eq_self {afterComma : Bool} {text : List Char} (h : text.IsChain Tight)
    (hhead : afterComma = true → ∀ y ∈ text.head?, isBlank y = false) :
    tightenFrom afterComma text = text := by
  induction text generalizing afterComma with
  | nil => rfl
  | cons c rest ih =>
    obtain ⟨hnext, hrest⟩ := List.isChain_cons.mp h
    have hkept : (afterComma && isBlank c) = false := by
      cases afterComma with
      | false => rfl
      | true => exact hhead rfl c rfl
    have hbehind : decide (c = ',') = true → ∀ y ∈ rest.head?, isBlank y = false :=
      fun hc y hy => Bool.eq_false_iff.mpr fun hblank =>
        (hnext y hy).2 ⟨of_decide_eq_true hc, hblank⟩
    rw [tightenFrom, hkept, ih hrest hbehind]
    rfl

theorem conditionElse_eq_self {text : List Char} (h : ∀ word, IsElse word → ¬ word <:+: text) :
    conditionElse text = text := by
  induction text with
  | nil => rfl
  | cons c rest ih =>
    have hrest := ih fun word hword hin => h word hword (List.infix_cons hin)
    rw [conditionElse_cons fun word hword hp => h word hword hp.isInfix, hrest]

/-- **A settled text is left as it is.** -/
theorem layout_of_settled {text : List Char} (h : Settled text) : layout text = text := by
  have hinline : text.filter isInline = text := List.filter_eq_self.mpr h.inline
  have hspaces : squeeze ' ' text = text := squeeze_eq_self (h.tight.imp fun _ _ hxy => hxy.1)
  have hcommas : tightenCommas text = text := tightenFrom_eq_self h.tight fun hfalse => nomatch hfalse
  rw [layout, normalise_eq, hinline, hspaces, hcommas, conditionElse_eq_self h.conditioned]

/-! ## What the spacing leaves -/

theorem head?_squeeze (mark : Char) (text : List Char) :
    (squeeze mark text).head? = text.head? := by
  induction text with
  | nil => rfl
  | cons c rest ih =>
    by_cases hc : c = mark ∧ rest.head? = some mark
    · obtain ⟨rfl, hhead⟩ := hc
      rw [squeeze, if_pos (by simp [hhead]), ih, hhead]
      rfl
    · rw [squeeze_cons hc]
      rfl

/-- No two of the character are left side by side. -/
theorem isChain_squeeze (mark : Char) (text : List Char) :
    (squeeze mark text).IsChain fun x y => ¬(x = mark ∧ y = mark) := by
  induction text with
  | nil => exact List.IsChain.nil
  | cons c rest ih =>
    rw [squeeze]
    split
    · exact ih
    · next hc =>
      refine List.isChain_cons.mpr ⟨fun y hy => ?_, ih⟩
      rw [head?_squeeze] at hy
      rintro ⟨rfl, rfl⟩
      exact hc (by simp [Option.mem_def.mp hy])

/-- What is left behind a comma is no blank, and the other characters stay where they stood. -/
theorem isChain_tightenFrom {text : List Char} (h : text.IsChain fun x y => ¬(x = ' ' ∧ y = ' '))
    (afterComma : Bool) :
    (tightenFrom afterComma text).IsChain Tight ∧
      if afterComma then ∀ y ∈ (tightenFrom afterComma text).head?, isBlank y = false
      else (tightenFrom afterComma text).head? = text.head? := by
  induction text generalizing afterComma with
  | nil => cases afterComma <;> simp [tightenFrom]
  | cons c rest ih =>
    obtain ⟨hnext, hrest⟩ := List.isChain_cons.mp h
    rw [tightenFrom]
    by_cases hdropped : (afterComma && isBlank c) = true
    · obtain ⟨rfl, -⟩ := Bool.and_eq_true_iff.mp hdropped
      rw [if_pos hdropped]
      exact ih hrest true
    · obtain ⟨hchain, hhead⟩ := ih hrest (c = ',')
      rw [if_neg hdropped]
      refine ⟨List.isChain_cons.mpr ⟨fun y hy => ?_, hchain⟩, ?_⟩
      · by_cases hc : c = ','
        · simp only [hc, decide_true, if_true] at hhead hy
          exact ⟨by simp [hc], by simp [hhead y hy]⟩
        · simp only [hc, decide_false, Bool.false_eq_true, if_false] at hhead hy
          rw [hhead] at hy
          exact ⟨hnext y hy, by simp [hc]⟩
      · cases afterComma with
        | false => rfl
        | true => simpa using hdropped

theorem tight_normalise (text : List Char) : (normalise text).IsChain Tight := by
  rw [normalise_eq]
  exact (isChain_tightenFrom (isChain_squeeze ' ' _) false).1

theorem inline_normalise (text : List Char) : ∀ c ∈ normalise text, isInline c = true := by
  intro c hc
  rw [normalise_eq] at hc
  exact (List.mem_filter.mp (mem_squeeze (mem_tightenFrom hc))).2

/-! ## What giving conditions leaves -/

theorem IsElse.exists_tail {word : List Char} (h : IsElse word) :
    ∃ tail, word = '\x7d' :: tail ∧ '\x7d' ∉ tail ∧ '\x7b' ∈ tail := by
  obtain ⟨before, behind, hbefore, hbehind, rfl⟩ := h
  have hbrace : isBlank '\x7d' = false := by decide
  exact ⟨_, rfl, by simp [notMem_blanks hbefore hbrace, notMem_blanks hbehind hbrace], by simp⟩

theorem head?_conditionElse (text : List Char) : (conditionElse text).head? = text.head? := by
  induction text using else_induction with
  | nil => rfl
  | word word body hword ih =>
    obtain ⟨tail, rfl, -⟩ := hword.exists_tail
    rw [conditionElse_word hword]
    rfl
  | cons c rest hnone ih =>
    rw [conditionElse_cons hnone]
    rfl

/-- A closing brace is the first of what is written for an `else`, so what comes before the next one
stood there before. -/
theorem prefix_of_conditionElse {word text : List Char} (hbrace : '\x7d' ∉ word)
    (h : word <+: conditionElse text) : word <+: text := by
  induction text using else_induction generalizing word with
  | nil => exact h
  | word found body hfound ih =>
    rw [conditionElse_word hfound] at h
    cases word with
    | nil => exact List.nil_prefix
    | cons d word =>
      obtain ⟨rfl, -⟩ := List.cons_prefix_cons.mp h
      exact absurd List.mem_cons_self hbrace
  | cons c rest hnone ih =>
    rw [conditionElse_cons hnone] at h
    cases word with
    | nil => exact List.nil_prefix
    | cons d word =>
      obtain ⟨rfl, hword⟩ := List.cons_prefix_cons.mp h
      exact List.cons_prefix_cons.mpr ⟨rfl, ih (fun hmem => hbrace (List.mem_cons_of_mem d hmem)) hword⟩

/-- An `else` that begins in an arm with a condition begins behind the arm. -/
theorem infix_of_elseArm {word rest : List Char} (h : IsElse word) (hin : word <:+: elseArm ++ rest) :
    word <:+: rest := by
  obtain ⟨tail, hword, -, hopen⟩ := h.exists_tail
  have hgroup : '(' ∉ word := notMem_else h (by decide) (by decide)
  have hstart : ¬ word <+: elseArm ++ rest := by
    intro hp
    have hbefore : word <+: ['\x7d', ' ', 'e', 'l', 's', 'e'] := prefix_of_append_cons hgroup hp
    have hmem := hbefore.subset (hword ▸ List.mem_cons_of_mem _ hopen)
    exact absurd hmem (by decide)
  -- no brace but the first of the arm begins a word
  subst hword
  rw [elseArm, List.cons_append, List.infix_cons_iff] at hin
  rcases hin with hp | hin
  · exact absurd hp hstart
  · simpa [List.infix_cons_iff, List.cons_prefix_cons] using hin

/-- Giving every `else` its condition keeps the characters inline and apart, and leaves no `else`
without one. -/
theorem settled_conditionElse {text : List Char} (hinline : ∀ c ∈ text, isInline c = true)
    (htight : text.IsChain Tight) : Settled (conditionElse text) := by
  induction text using else_induction with
  | nil =>
    refine ⟨hinline, htight, fun word hword hin => ?_⟩
    obtain ⟨tail, rfl, -⟩ := hword.exists_tail
    exact absurd (List.eq_nil_of_infix_nil hin) (by simp)
  | word word body hword ih =>
    have hbehind : body.IsChain Tight := List.IsChain.infix htight (List.suffix_append word body).isInfix
    obtain ⟨hbody, hchain, hnone⟩ := ih (fun c hc => hinline c (List.mem_append_right _ hc)) hbehind
    rw [conditionElse_word hword]
    refine ⟨fun c hc => ?_, ?_, fun found hfound hin => hnone found hfound (infix_of_elseArm hfound hin)⟩
    · have harm : ∀ c ∈ elseArm, isInline c = true := by simp [elseArm, isInline]
      exact (List.mem_append.mp hc).elim (harm c) (hbody c)
    · refine List.isChain_append.mpr ⟨by decide, hchain, fun x hx y _ => ?_⟩
      obtain rfl : '\x7b' = x := by simpa [elseArm] using hx
      exact ⟨by simp, by simp⟩
  | cons c rest hnone ih =>
    obtain ⟨hnext, htail⟩ := List.isChain_cons.mp htight
    obtain ⟨hrest, hchain, hconditioned⟩ :=
      ih (fun d hd => hinline d (List.mem_cons_of_mem c hd)) htail
    rw [conditionElse_cons hnone]
    refine ⟨List.forall_mem_cons.mpr ⟨hinline c List.mem_cons_self, hrest⟩,
      List.isChain_cons.mpr ⟨fun y hy => hnext y (head?_conditionElse rest ▸ hy), hchain⟩,
      fun word hword hin => ?_⟩
    rcases List.infix_cons_iff.mp hin with hp | hin
    · obtain ⟨tail, rfl, hbrace, -⟩ := hword.exists_tail
      obtain ⟨rfl, htail⟩ := List.cons_prefix_cons.mp hp
      exact hnone _ hword (List.cons_prefix_cons.mpr ⟨rfl, prefix_of_conditionElse hbrace htail⟩)
    · exact hconditioned word hword hin

/-- **The layout of a text is settled.** -/
theorem settled_layout (text : List Char) : Settled (layout text) :=
  settled_conditionElse (inline_normalise text) (tight_normalise text)

/-- **Laying a text out once is enough.** -/
theorem layout_layout (text : List Char) : layout (layout text) = layout text :=
  layout_of_settled (settled_layout text)

end Cutscene.Source
