import Cutscene.Proofs.Source.Restored

/-!
The layout of texts that are put together.

Lines are joined before all line breaks are dropped, so the joining leaves no trace: normalising is
dropping, squeezing and tightening (`normalise_eq`). An `else` between braces is a word of few
characters, and giving it a condition goes over a text word by word (`conditionElse_word`,
`conditionElse_cons`). So a semicolon keeps the layouts of the texts before and behind it apart
(`layout_semicolon`), and blanks around a text give nothing but blanks around its layout
(`keepsBlanks_layout`).
-/
namespace Cutscene.Source

open Text

/-- The layout of a text. -/
def layout (text : List Char) : List Char := conditionElse (normalise text)

/-- The characters that stay when lines are joined and tabs dropped. -/
def isInline (c : Char) : Bool := c ≠ '\r' && c ≠ '\t' && c ≠ '\n'

/-- Blanks and nothing else. -/
def Blanks (word : List Char) : Prop := ∀ c ∈ word, isBlank c = true

/-! ## Normalising without lines -/

/-- A replacement that changes only characters which are dropped afterwards. -/
theorem filter_replaceAll {old new : List Char} {keep : Char → Bool}
    (h : new.filter keep = old.filter keep) (text : List Char) :
    (replaceAll old new text).filter keep = text.filter keep := by
  -- what was taken is passed over, so the induction is on the length
  suffices ∀ n, ∀ text : List Char, text.length = n →
      (replaceAll old new text).filter keep = text.filter keep from this _ text rfl
  intro n
  induction n using Nat.strongRecOn with
  | _ n ih =>
    intro text hn
    cases text with
    | nil => rfl
    | cons c rest =>
      by_cases hold : old ≠ [] ∧ old <+: c :: rest
      · obtain ⟨hne, after, hafter⟩ := hold
        have hshort : after.length < n := by
          have hpos := List.length_pos_iff.mpr hne
          rw [← hn, ← hafter, List.length_append]
          omega
        rw [← hafter, replaceAll_append hne, List.filter_append, List.filter_append, h,
          ih _ hshort after rfl]
      · have hstep : replaceAll old new (c :: rest) = c :: replaceAll old new rest := by
          by_cases hne : old = []
          · have hnone : ∀ text, replacing old new text = none := by simp [replacing, hne]
            rw [replaceAll, Text.pass, passFrom, hnone]
            rfl
          · exact replaceAll_cons new fun hp => hold ⟨hne, hp⟩
        have hshort : rest.length < n := by
          rw [← hn]
          exact Nat.lt_succ_self _
        rw [hstep, List.filter_cons, List.filter_cons, ih _ hshort rest rfl]

theorem filter_squeeze {mark : Char} {keep : Char → Bool} (h : keep mark = false)
    (text : List Char) : (squeeze mark text).filter keep = text.filter keep := by
  induction text with
  | nil => rfl
  | cons c rest ih =>
    rw [squeeze]
    split
    · next hc =>
      have hmark : c = mark := by
        simp only [Bool.and_eq_true, decide_eq_true_eq] at hc
        exact hc.1
      rw [ih, hmark, List.filter_cons_of_neg (by simp [h])]
    · rw [List.filter_cons, List.filter_cons, ih]

/-- **Joining lines leaves no trace**, since all line breaks are dropped behind it. -/
theorem normalise_eq (text : List Char) :
    normalise text = tightenCommas (squeeze ' ' (text.filter isInline)) := by
  have hline : (fun c => c ≠ '\t' && c ≠ '\n' : Char → Bool) '\n' = false := by decide
  have hreturn : (fun c : Char => (c ≠ '\t' && c ≠ '\n') && decide (c ≠ '\r')) = isInline := by
    funext c
    rw [isInline, Bool.and_comm, Bool.and_assoc]
  have hdropped : ∀ old new : List Char, old.filter (· ≠ '\n') = new → ∀ text,
      (replaceAll old new text).filter (fun c => c ≠ '\t' && c ≠ '\n') =
        text.filter fun c => c ≠ '\t' && c ≠ '\n' := by
    intro old new hold text
    apply filter_replaceAll
    rw [← hold, List.filter_filter]
    apply List.filter_congr
    intro c _
    simp
  simp only [normalise]
  rw [hdropped ['\n', ')'] [')'] rfl, hdropped ['(', '\n'] ['('] rfl,
    hdropped [',', '\n'] [','] rfl, hdropped ['.', '\n'] ['.'] rfl, filter_squeeze hline, List.filter_filter, hreturn]

/-! ## An `else` between braces -/

/-- A word that is an `else` between braces, with blanks around it. -/
def IsElse (word : List Char) : Prop :=
  ∃ before behind, Blanks before ∧ Blanks behind ∧
    word = '\x7d' :: (before ++ 'e' :: 'l' :: 's' :: 'e' :: (behind ++ ['\x7b']))

theorem blanks_takeWhile (text : List Char) : Blanks (text.takeWhile isBlank) :=
  fun c hc => List.all_eq_true.mp List.all_takeWhile c hc

theorem notMem_blanks {word : List Char} (h : Blanks word) {x : Char} (hx : isBlank x = false) :
    x ∉ word := by
  intro hmem
  rw [h x hmem] at hx
  cases hx

theorem trimStart_blanks {blanks : List Char} (h : Blanks blanks) {x : Char}
    (hx : isBlank x = false) (rest : List Char) : trimStart (blanks ++ x :: rest) = x :: rest := by
  rw [trimStart, dropWhile_append_cons hx, List.dropWhile_eq_nil_iff.mpr h, List.nil_append]

theorem conditioningElse_word {word : List Char} (h : IsElse word) (body : List Char) :
    conditioningElse (word ++ body) = some ⟨elseArm, word.length⟩ := by
  obtain ⟨before, behind, hbefore, hbehind, rfl⟩ := h
  have hword := trimStart_blanks hbefore (x := 'e') (by decide)
    ('l' :: 's' :: 'e' :: (behind ++ '\x7b' :: body))
  have hbrace := trimStart_blanks hbehind (x := '\x7b') (by decide) body
  simp only [List.cons_append, List.append_assoc, List.nil_append, conditioningElse, hword, hbrace]
  simp
  omega

theorem word_of_conditioningElse {text : List Char} {e : Edit} (h : conditioningElse text = some e) :
    ∃ word, IsElse word ∧ word <+: text := by
  have htrim : ∀ text : List Char, ∃ blanks, Blanks blanks ∧ text = blanks ++ trimStart text :=
    fun text => ⟨_, blanks_takeWhile text, List.takeWhile_append_dropWhile.symm⟩
  unfold conditioningElse at h
  split at h
  · next rest =>
    split at h
    · next behind hword =>
      split at h
      · next body hbody =>
        obtain ⟨first, hfirst, hrest⟩ := htrim rest
        obtain ⟨second, hsecond, hbehind⟩ := htrim behind
        rw [hword] at hrest
        rw [hbody] at hbehind
        refine ⟨_, ⟨first, second, hfirst, hsecond, rfl⟩, body, ?_⟩
        rw [hrest, hbehind]
        simp
      · cases h
    · cases h
  · cases h

/-- **The `else` at the start of a text is given its condition.** -/
theorem conditionElse_word {word : List Char} (h : IsElse word) (body : List Char) :
    conditionElse (word ++ body) = elseArm ++ conditionElse body := by
  have hedit := conditioningElse_word h body
  obtain ⟨before, behind, -, -, rfl⟩ := h
  rw [List.cons_append] at hedit ⊢
  rw [conditionElse, Text.pass, passFrom, hedit]
  simp only [List.length_cons, Nat.add_sub_cancel]
  rw [passFrom_drop, List.drop_left]
  rfl

/-- A character that begins no such `else` is left as it is. -/
theorem conditionElse_cons {c : Char} {rest : List Char}
    (h : ∀ word, IsElse word → ¬ word <+: c :: rest) :
    conditionElse (c :: rest) = c :: conditionElse rest := by
  have hedit : conditioningElse (c :: rest) = none := by
    cases hedit : conditioningElse (c :: rest) with
    | none => rfl
    | some e =>
      obtain ⟨word, hword, hp⟩ := word_of_conditioningElse hedit
      exact absurd hp (h word hword)
  rw [conditionElse, Text.pass, passFrom, hedit]
  rfl

/-- A text is empty, or begins with an `else` between braces, or with a character that begins none. -/
theorem else_induction {motive : List Char → Prop} (nil : motive [])
    (word : ∀ word body, IsElse word → motive body → motive (word ++ body))
    (cons : ∀ c rest, (∀ word, IsElse word → ¬ word <+: c :: rest) → motive rest →
      motive (c :: rest)) (text : List Char) : motive text := by
  suffices ∀ n, ∀ text : List Char, text.length = n → motive text from this _ text rfl
  intro n
  induction n using Nat.strongRecOn with
  | _ n ih =>
    intro text hn
    cases text with
    | nil => exact nil
    | cons c rest =>
      by_cases hword : ∃ word, IsElse word ∧ word <+: c :: rest
      · obtain ⟨found, hfound, body, hbody⟩ := hword
        have hshort : body.length < n := by
          obtain ⟨before, behind, -, -, rfl⟩ := hfound
          rw [← hn, ← hbody, List.length_append, List.length_cons]
          omega
        rw [← hbody]
        exact word found body hfound (ih _ hshort body rfl)
      · have hshort : rest.length < n := by
          rw [← hn]
          exact Nat.lt_succ_self _
        refine cons c rest (fun found hfound hp => hword ⟨found, hfound, hp⟩) ?_
        exact ih _ hshort rest rfl

/-- An `else` between braces has no characters but blanks, braces and its letters. -/
theorem notMem_else {word : List Char} (h : IsElse word) {x : Char} (hblank : isBlank x = false)
    (hx : x ∉ ['\x7d', 'e', 'l', 's', '\x7b']) : x ∉ word := by
  obtain ⟨before, behind, hbefore, hbehind, rfl⟩ := h
  intro hmem
  simp only [List.mem_cons, List.mem_append, List.not_mem_nil, or_false, not_or] at hmem hx
  obtain ⟨h1, h2, h3, h4, h5⟩ := hx
  rcases hmem with h | h | h | h | h | h | h | h
  · exact h1 h
  · exact notMem_blanks hbefore hblank h
  · exact h2 h
  · exact h3 h
  · exact h4 h
  · exact h2 h
  · exact notMem_blanks hbehind hblank h
  · exact h5 h

/-! ## On both sides of a semicolon -/

theorem prefix_of_append_cons {word a b : List Char} {x : Char} (hx : x ∉ word)
    (h : word <+: a ++ x :: b) : word <+: a := by
  rcases List.prefix_or_prefix_of_prefix h (List.prefix_append a (x :: b)) with hp | ⟨more, rfl⟩
  · exact hp
  · have hmore : more <+: x :: b := (List.prefix_append_right_inj a).mp h
    cases more with
    | nil => rw [List.append_nil]
    | cons d more =>
      obtain ⟨rfl, -⟩ := List.cons_prefix_cons.mp hmore
      exact absurd (by simp) hx

theorem squeeze_apart {mark x : Char} (hx : x ≠ mark) (a b : List Char) :
    squeeze mark (a ++ x :: b) = squeeze mark a ++ x :: squeeze mark b := by
  induction a with
  | nil => simp [squeeze, hx]
  | cons c a ih =>
    have hhead : (a ++ x :: b).head? = some mark ↔ a.head? = some mark := by
      cases a with
      | nil => simp [hx]
      | cons d a => simp
    rw [List.cons_append, squeeze, squeeze, ih]
    simp only [hhead]
    split
    · rfl
    · rfl

theorem tightenFrom_apart {x : Char} (hblank : isBlank x = false) (hx : x ≠ ',') (afterComma : Bool)
    (a b : List Char) :
    tightenFrom afterComma (a ++ x :: b) = tightenFrom afterComma a ++ x :: tightenFrom false b := by
  induction a generalizing afterComma with
  | nil => simp [tightenFrom, hblank, hx]
  | cons c a ih =>
    rw [List.cons_append, tightenFrom, tightenFrom]
    split
    · exact ih true
    · rw [ih]
      rfl

theorem conditionElse_apart {x : Char} (hblank : isBlank x = false)
    (hx : x ∉ ['\x7d', 'e', 'l', 's', '\x7b']) (a b : List Char) :
    conditionElse (a ++ x :: b) = conditionElse a ++ x :: conditionElse b := by
  have hno : ∀ word, IsElse word → x ∉ word := fun word h => notMem_else h hblank hx
  induction a using else_induction with
  | nil =>
    apply conditionElse_cons
    intro word hword hp
    obtain ⟨before, behind, -, -, rfl⟩ := hword
    obtain ⟨rfl, -⟩ := List.cons_prefix_cons.mp hp
    exact hx (by simp)
  | word word body hword ih =>
    rw [List.append_assoc, conditionElse_word hword, conditionElse_word hword, ih, List.append_assoc]
  | cons c rest hnone ih =>
    have hcons : conditionElse (c :: (rest ++ x :: b)) = c :: conditionElse (rest ++ x :: b) := by
      apply conditionElse_cons
      intro word hword hp
      rw [← List.cons_append] at hp
      exact hnone word hword (prefix_of_append_cons (hno word hword) hp)
    rw [List.cons_append, hcons, conditionElse_cons hnone, ih]
    rfl

/-- **A semicolon keeps layouts apart.** -/
theorem layout_semicolon (a b : List Char) :
    layout (a ++ ';' :: b) = layout a ++ ';' :: layout b := by
  have hinline : (a ++ ';' :: b).filter isInline =
      a.filter isInline ++ ';' :: b.filter isInline := by
    rw [List.filter_append, List.filter_cons_of_pos (by decide)]
  rw [layout, layout, layout, normalise_eq, normalise_eq, normalise_eq, hinline,
    squeeze_apart (by decide), tightenCommas, tightenCommas, tightenCommas,
    tightenFrom_apart (by decide) (by decide), conditionElse_apart (by decide) (by decide)]

/-! ## Blanks around a text -/

/-- A step that turns blanks before and behind a text into blanks before and behind the result. -/
def KeepsBlanks (step : List Char → List Char) : Prop :=
  ∀ before text behind, Blanks before → Blanks behind → ∃ before' behind', Blanks before' ∧
    Blanks behind' ∧ step (before ++ (text ++ behind)) = before' ++ (step text ++ behind')

theorem KeepsBlanks.comp {f g : List Char → List Char} (hf : KeepsBlanks f) (hg : KeepsBlanks g) :
    KeepsBlanks fun text => g (f text) := by
  intro before text behind hbefore hbehind
  obtain ⟨before₁, behind₁, hbefore₁, hbehind₁, heq₁⟩ := hf before text behind hbefore hbehind
  obtain ⟨before₂, behind₂, hbefore₂, hbehind₂, heq₂⟩ := hg before₁ (f text) behind₁ hbefore₁ hbehind₁
  refine ⟨before₂, behind₂, hbefore₂, hbehind₂, ?_⟩
  show g (f (before ++ (text ++ behind))) = before₂ ++ (g (f text) ++ behind₂)
  rw [heq₁, heq₂]

theorem keepsBlanks_filter (keep : Char → Bool) : KeepsBlanks (List.filter keep) := by
  intro before text behind hbefore hbehind
  refine ⟨before.filter keep, behind.filter keep, ?_, ?_, ?_⟩
  · exact fun c hc => hbefore c (List.mem_filter.mp hc).1
  · exact fun c hc => hbehind c (List.mem_filter.mp hc).1
  · rw [List.filter_append, List.filter_append]

theorem squeeze_twice (mark : Char) (rest : List Char) :
    squeeze mark (mark :: mark :: rest) = squeeze mark (mark :: rest) := by
  rw [squeeze, if_pos (by simp)]

theorem squeeze_cons {mark c : Char} {rest : List Char}
    (h : ¬(c = mark ∧ rest.head? = some mark)) :
    squeeze mark (c :: rest) = c :: squeeze mark rest := by
  rw [squeeze, if_neg (by simpa using h)]

theorem mem_squeeze {mark x : Char} {text : List Char} (h : x ∈ squeeze mark text) : x ∈ text := by
  induction text with
  | nil => cases h
  | cons c rest ih =>
    rw [squeeze] at h
    split at h
    · exact List.mem_cons_of_mem c (ih h)
    · rcases List.mem_cons.mp h with rfl | h
      · exact List.mem_cons_self
      · exact List.mem_cons_of_mem c (ih h)

theorem squeeze_before (mark : Char) (before text : List Char) :
    ∃ kept, (∀ c ∈ kept, c ∈ before) ∧ squeeze mark (before ++ text) = kept ++ squeeze mark text := by
  induction before with
  | nil => exact ⟨[], by simp, rfl⟩
  | cons c before ih =>
    obtain ⟨kept, hkept, heq⟩ := ih
    rw [List.cons_append, squeeze, heq]
    split
    · exact ⟨kept, fun d hd => List.mem_cons_of_mem c (hkept d hd), rfl⟩
    · refine ⟨c :: kept, fun d hd => ?_, rfl⟩
      rcases List.mem_cons.mp hd with rfl | hd
      · exact List.mem_cons_self
      · exact List.mem_cons_of_mem c (hkept d hd)

/-- A run of the character is squeezed to one. -/
theorem squeeze_run (mark : Char) (rest : List Char) :
    ∃ run, squeeze mark (mark :: rest) = mark :: run ∧ ∀ x ∈ run, x ∈ rest := by
  induction rest with
  | nil => exact ⟨[], by simp [squeeze], by simp⟩
  | cons c rest ih =>
    by_cases hc : c = mark
    · obtain ⟨run, hrun, hmem⟩ := ih
      refine ⟨run, ?_, fun x hx => List.mem_cons_of_mem c (hmem x hx)⟩
      rw [hc, squeeze_twice, hrun]
    · exact ⟨squeeze mark (c :: rest), squeeze_cons (by simp [hc]), fun x hx => mem_squeeze hx⟩

theorem squeeze_behind (mark : Char) (text behind : List Char) :
    ∃ kept, (∀ c ∈ kept, c ∈ behind) ∧ squeeze mark (text ++ behind) = squeeze mark text ++ kept := by
  induction text with
  | nil => exact ⟨squeeze mark behind, fun c hc => mem_squeeze hc, rfl⟩
  | cons c text ih =>
    obtain ⟨kept, hkept, heq⟩ := ih
    cases text with
    | cons d text =>
      refine ⟨kept, hkept, ?_⟩
      by_cases hc : c = mark ∧ d = mark
      · obtain ⟨rfl, rfl⟩ := hc
        rw [List.cons_append, List.cons_append, squeeze_twice, squeeze_twice, ← List.cons_append, heq]
      · have hkeep : squeeze mark (c :: d :: text) = c :: squeeze mark (d :: text) :=
          squeeze_cons (by simpa using hc)
        rw [List.cons_append, squeeze_cons (by simpa using hc), heq, hkeep]
        rfl
    | nil =>
      have hone : squeeze mark [c] = [c] := squeeze_cons (by simp)
      rw [hone]
      by_cases hc : c = mark ∧ behind.head? = some mark
      · -- the last character of the text goes, and the first of the run behind it is the same
        obtain ⟨rfl, hhead⟩ := hc
        obtain ⟨rest, rfl⟩ := List.head?_eq_some_iff.mp hhead
        obtain ⟨run, hrun, hmem⟩ := squeeze_run c rest
        refine ⟨run, fun x hx => List.mem_cons_of_mem c (hmem x hx), ?_⟩
        rw [List.singleton_append, squeeze_twice, hrun]
        rfl
      · refine ⟨squeeze mark behind, fun x hx => mem_squeeze hx, ?_⟩
        rw [List.singleton_append, squeeze_cons hc]
        rfl

theorem keepsBlanks_squeeze (mark : Char) : KeepsBlanks (squeeze mark) := by
  intro before text behind hbefore hbehind
  obtain ⟨kept, hkept, heq⟩ := squeeze_before mark before (text ++ behind)
  obtain ⟨kept', hkept', heq'⟩ := squeeze_behind mark text behind
  refine ⟨kept, kept', fun c hc => hbefore c (hkept c hc), fun c hc => hbehind c (hkept' c hc), ?_⟩
  rw [heq, heq']

theorem tightenFrom_blanks {blanks : List Char} (h : Blanks blanks)
    (afterComma : Bool) : tightenFrom afterComma blanks = if afterComma then [] else blanks := by
  induction blanks generalizing afterComma with
  | nil => cases afterComma <;> rfl
  | cons c blanks ih =>
    have hc := h c (by simp)
    have hcomma : c ≠ ',' := by
      rintro rfl
      exact absurd hc (by decide)
    have hrest := ih fun d hd => h d (by simp [hd])
    cases afterComma with
    | true => simp [tightenFrom, hc, hrest]
    | false => simp [tightenFrom, hcomma, hrest]

theorem tightenFrom_behind {behind : List Char} (h : Blanks behind)
    (afterComma : Bool) (text : List Char) :
    ∃ kept, Blanks kept ∧
      tightenFrom afterComma (text ++ behind) = tightenFrom afterComma text ++ kept := by
  induction text generalizing afterComma with
  | nil =>
    refine ⟨tightenFrom afterComma behind, ?_, by simp [tightenFrom]⟩
    rw [tightenFrom_blanks h]
    split
    · simp [Blanks]
    · exact h
  | cons c text ih =>
    rw [List.cons_append, tightenFrom, tightenFrom]
    split
    · exact ih true
    · obtain ⟨kept, hkept, heq⟩ := ih (c = ',')
      refine ⟨kept, hkept, ?_⟩
      rw [heq]
      rfl

theorem tightenFrom_before {before : List Char} (h : Blanks before)
    (text : List Char) : tightenFrom false (before ++ text) = before ++ tightenFrom false text := by
  induction before with
  | nil => rfl
  | cons c before ih =>
    have hcomma : c ≠ ',' := by
      rintro rfl
      exact notMem_blanks h (by decide) List.mem_cons_self
    rw [List.cons_append, tightenFrom]
    simp [hcomma, ih fun d hd => h d (by simp [hd])]

theorem keepsBlanks_tighten : KeepsBlanks tightenCommas := by
  intro before text behind hbefore hbehind
  obtain ⟨kept, hkept, heq⟩ := tightenFrom_behind hbehind false text
  refine ⟨before, kept, hbefore, hkept, ?_⟩
  rw [tightenCommas, tightenFrom_before hbefore, heq]
  rfl

theorem conditionElse_before {before : List Char} (h : Blanks before)
    (text : List Char) : conditionElse (before ++ text) = before ++ conditionElse text := by
  induction before with
  | nil => rfl
  | cons c before ih =>
    have hcons : conditionElse (c :: (before ++ text)) = c :: conditionElse (before ++ text) := by
      apply conditionElse_cons
      intro word hword hp
      obtain ⟨_, _, -, -, rfl⟩ := hword
      obtain ⟨rfl, -⟩ := List.cons_prefix_cons.mp hp
      exact absurd (h '\x7d' (by simp)) (by decide)
    rw [List.cons_append, hcons, ih fun d hd => h d (by simp [hd])]
    rfl

theorem conditionElse_behind {behind : List Char} (h : Blanks behind)
    (text : List Char) : conditionElse (text ++ behind) = conditionElse text ++ behind := by
  induction text using else_induction with
  | nil =>
    have hblanks := conditionElse_before h []
    rw [List.append_nil] at hblanks
    rw [List.nil_append, hblanks, show conditionElse [] = [] from rfl, List.append_nil, List.nil_append]
  | word word body hword ih =>
    rw [List.append_assoc, conditionElse_word hword, conditionElse_word hword, ih, List.append_assoc]
  | cons c rest hnone ih =>
    have hcons : conditionElse (c :: (rest ++ behind)) = c :: conditionElse (rest ++ behind) := by
      apply conditionElse_cons
      intro word hword hp
      -- the word ends with a brace, so it would end before the blanks
      rw [← List.cons_append] at hp
      rcases List.prefix_or_prefix_of_prefix hp (List.prefix_append _ _) with hin | ⟨more, hmore⟩
      · exact hnone word hword hin
      · have hblanks : more <+: behind := by
          rw [← hmore] at hp
          exact (List.prefix_append_right_inj _).mp hp
        cases hlast : more.getLast? with
        | none =>
          rw [List.getLast?_eq_none_iff] at hlast
          rw [hlast, List.append_nil] at hmore
          exact hnone word hword (hmore ▸ List.prefix_rfl)
        | some x =>
          obtain ⟨_, _, -, -, hform⟩ := hword
          have hword_last : word.getLast? = some '\x7b' := by rw [hform]; simp [List.getLast?_cons, List.getLast?_append]
          rw [← hmore, List.getLast?_append, hlast] at hword_last
          obtain rfl : x = '\x7b' := by simpa using hword_last
          have hmem : '\x7b' ∈ behind := hblanks.subset (List.mem_of_getLast? hlast)
          exact absurd (h _ hmem) (by decide)
    rw [List.cons_append, hcons, conditionElse_cons hnone, ih]
    rfl

/-- **Blanks around a text are blanks around its layout.** -/
theorem keepsBlanks_layout : KeepsBlanks layout := by
  have helse : KeepsBlanks conditionElse := by
    intro before text behind hbefore hbehind
    refine ⟨before, behind, hbefore, hbehind, ?_⟩
    rw [conditionElse_before hbefore, conditionElse_behind hbehind]
  have hsteps : layout = fun text =>
      conditionElse (tightenCommas (squeeze ' ' (text.filter isInline))) := by
    funext text
    rw [layout, normalise_eq]
  rw [hsteps]
  exact (((keepsBlanks_filter isInline).comp (keepsBlanks_squeeze ' ')).comp
    keepsBlanks_tighten).comp helse

end Cutscene.Source
