import Mathlib
import Cutscene.Expr.Token
import Cutscene.Text.Delimiter

/-!
Where a literal ends, for the two readers of literals.

A source is cut at its literals by `Delimiter.close`, which looks one character back: a quote right
behind a backslash is text. The literals of a condition are read by `readString`, which takes a
backslash together with the character behind it. Both end a literal at the first quote that is not
escaped, and they differ in how many backslashes before a quote escape it: for the first reader any
number of them (`close_iff`), for the second an odd number (`readString_iff`). So they end a literal
at the same place just if the quote that ends it for the second reader has no backslash before it
(`endings_agree_iff`).
-/
namespace Cutscene.Expr

open Text

/-- The number of backslashes at the end of a text. -/
def slashes (text : List Char) : Nat := (text.reverse.takeWhile (· = '\\')).length

@[simp] theorem slashes_nil : slashes [] = 0 := rfl

@[simp] theorem slashes_append_slash (text : List Char) :
    slashes (text ++ ['\\']) = slashes text + 1 := by
  simp [slashes]

theorem slashes_append {c : Char} (h : c ≠ '\\') (text : List Char) : slashes (text ++ [c]) = 0 := by
  simp [slashes, h]

/-- A quote ends a literal: it is the first one that stands behind a number of backslashes that does
not escape it. The literal is behind `done`, and `before` is what is left of it up to the quote. -/
structure EndsAt (free : Nat → Prop) (quote : Char) (done text before after : List Char) : Prop where
  split : text = before ++ quote :: after
  unescaped : free (slashes (done ++ before))
  first : ∀ a b, before = a ++ quote :: b → ¬ free (slashes (done ++ a))

section EndsAt
variable {free : Nat → Prop} {quote : Char} {done text before after : List Char}

theorem endsAt_nil : ¬ EndsAt free quote done [] before after := by
  intro h
  have hsplit := h.split
  simp at hsplit

/-- A quote that is not escaped ends the literal. -/
theorem endsAt_quote (free : Nat → Prop) (hfree : free (slashes done)) :
    EndsAt free quote done (quote :: text) before after ↔ before = [] ∧ after = text := by
  constructor
  · intro h
    cases before with
    | nil => exact ⟨rfl, by simpa using h.split.symm⟩
    | cons c before =>
      -- the first quote is the one that ends the literal
      have hc : quote = c := by
        have hsplit := h.split
        rw [List.cons_append, List.cons.injEq] at hsplit
        exact hsplit.1
      refine absurd ?_ (h.first [] before (by rw [hc]; rfl))
      rw [List.append_nil]
      exact hfree
  · rintro ⟨rfl, rfl⟩
    exact ⟨rfl, by simpa using hfree, fun a b h => by simp at h⟩

/-- Any other character belongs to the literal. -/
theorem endsAt_cons (free : Nat → Prop) {c : Char} (h : c = quote → ¬ free (slashes done)) :
    EndsAt free quote done (c :: text) before after ↔
      ∃ rest, before = c :: rest ∧ EndsAt free quote (done ++ [c]) text rest after := by
  constructor
  · intro hends
    cases before with
    | nil =>
      have hc : c = quote := by
        have hsplit := hends.split
        rw [List.nil_append, List.cons.injEq] at hsplit
        exact hsplit.1
      have hfree := hends.unescaped
      rw [List.append_nil] at hfree
      exact absurd hfree (h hc)
    | cons d rest =>
      have hsplit := hends.split
      rw [List.cons_append, List.cons.injEq] at hsplit
      obtain ⟨rfl, hsplit⟩ := hsplit
      refine ⟨rest, rfl, hsplit, by simpa using hends.unescaped, fun a b hab => ?_⟩
      have hfirst := hends.first (c :: a) b (by rw [hab]; rfl)
      simpa using hfirst
  · rintro ⟨rest, rfl, hends⟩
    refine ⟨by rw [hends.split]; rfl, by simpa using hends.unescaped, fun a b hab => ?_⟩
    cases a with
    | nil =>
      rw [List.nil_append, List.cons.injEq] at hab
      simpa using h hab.1
    | cons d a =>
      rw [List.cons_append, List.cons.injEq] at hab
      obtain ⟨rfl, hab⟩ := hab
      simpa using hends.first a b hab

/-- Of two quotes that end the literal neither is before the other. -/
theorem EndsAt.not_before (h : EndsAt free quote done text before after) {found rest : List Char}
    (hfound : EndsAt free quote done text found rest) (more : List Char) :
    found ≠ before ++ quote :: more :=
  fun heq => hfound.first before more heq h.unescaped

theorem EndsAt.unique (h : EndsAt free quote done text before after) {found rest : List Char}
    (hfound : EndsAt free quote done text found rest) : found = before := by
  have heq : found ++ quote :: rest = before ++ quote :: after := hfound.split.symm.trans h.split
  rcases List.append_eq_append_iff.mp heq with ⟨more, hmore, hrest⟩ | ⟨more, hmore, hrest⟩
  · cases more with
    | nil => rw [hmore, List.append_nil]
    | cons c more =>
      rw [List.cons_append, List.cons.injEq] at hrest
      rw [← hrest.1] at hmore
      exact absurd hmore (hfound.not_before h more)
  · cases more with
    | nil => rw [hmore, List.append_nil]
    | cons c more =>
      rw [List.cons_append, List.cons.injEq] at hrest
      rw [← hrest.1] at hmore
      exact absurd hmore (h.not_before hfound more)

end EndsAt

/-! ## The two readers -/

/-- A quote right behind a backslash is text: looking back one character sees whether there is any
backslash. -/
theorem closeFrom_iff {quote previous : Char} {done : List Char} (hslash : quote ≠ '\\')
    (h : previous = '\\' ↔ slashes done ≠ 0) (text : List Char) (n : Nat) :
    (Delimiter.mk quote quote).closeFrom 0 previous text = some n ↔
      ∃ before after, EndsAt (· = 0) quote done text before after ∧ before.length = n := by
  induction text generalizing previous done n with
  | nil =>
    constructor
    · intro hclose
      cases hclose
    · rintro ⟨before, after, hends, -⟩
      exact absurd hends endsAt_nil
  | cons c rest ih =>
    have hnext : c = '\\' ↔ slashes (done ++ [c]) ≠ 0 := by
      by_cases hc : c = '\\'
      · simp [hc]
      · simp [hc, slashes_append hc]
    by_cases hend : c = quote ∧ slashes done = 0
    · obtain ⟨rfl, hzero⟩ := hend
      have hprevious : previous ≠ '\\' := fun hp => h.mp hp hzero
      have hclose : (Delimiter.mk c c).closeFrom 0 previous (c :: rest) = some 0 := by
        simp [Delimiter.closeFrom, hprevious]
      rw [hclose]
      simp only [endsAt_quote (· = 0) hzero]
      constructor
      · intro hn
        cases hn
        exact ⟨[], rest, ⟨rfl, rfl⟩, rfl⟩
      · rintro ⟨before, after, ⟨rfl, rfl⟩, rfl⟩
        rfl
    · have hcons : c = quote → ¬ slashes done = 0 := fun hc hzero => hend ⟨hc, hzero⟩
      have hclose : (Delimiter.mk quote quote).closeFrom 0 previous (c :: rest) =
          ((Delimiter.mk quote quote).closeFrom 0 c rest).map (· + 1) := by
        by_cases hc : c = quote
        · have hprevious : previous = '\\' := h.mpr (hcons hc)
          simp [Delimiter.closeFrom, hc, hprevious]
        · simp [Delimiter.closeFrom, hc]
      rw [hclose, Option.map_eq_some_iff]
      simp only [endsAt_cons (· = 0) hcons]
      constructor
      · rintro ⟨m, hm, rfl⟩
        obtain ⟨before, after, hends, rfl⟩ := (ih hnext m).mp hm
        exact ⟨c :: before, after, ⟨before, rfl, hends⟩, rfl⟩
      · rintro ⟨_, after, ⟨before, rfl, hends⟩, rfl⟩
        exact ⟨before.length, (ih hnext _).mpr ⟨before, after, hends, rfl⟩, rfl⟩

/-- **Cutting ends a literal at the first quote without a backslash before it.** -/
theorem close_iff {quote : Char} (hslash : quote ≠ '\\') (body : List Char) (n : Nat) :
    (Delimiter.mk quote quote).close body = some n ↔
      ∃ before after, EndsAt (· = 0) quote [] body before after ∧ before.length = n :=
  closeFrom_iff hslash (by decide) body n

/-- **Reading ends a literal at the first quote behind an even number of backslashes.** What was read
before is whole pairs of a backslash and its character, so it ends in an even number of
backslashes. -/
theorem readString_iff {quote : Char} (hslash : quote ≠ '\\') (done : List Char)
    (heven : Even (slashes done)) (text after : List Char) :
    (readString quote text).closed = true ∧ (readString quote text).rest = after ↔
      ∃ before, EndsAt Even quote done text before after := by
  fun_induction readString quote text generalizing done with
  | case1 => simp [endsAt_nil]
  | case2 =>
    have hcons : '\\' = quote → ¬ Even (slashes done) := fun h => absurd h.symm hslash
    simp [endsAt_cons Even hcons, endsAt_nil]
  | case3 c rest ih =>
    have hodd : ¬ Even (slashes (done ++ ['\\'])) := by
      rw [slashes_append_slash, Nat.even_add_one]
      exact not_not_intro heven
    have hpair : Even (slashes (done ++ ['\\'] ++ [c])) := by
      by_cases hc : c = '\\'
      · rw [hc, slashes_append_slash, Nat.even_add_one]
        exact hodd
      · rw [slashes_append hc]
        exact Even.zero
    have hcons : '\\' = quote → ¬ Even (slashes done) := fun h => absurd h.symm hslash
    have hescaped : c = quote → ¬ Even (slashes (done ++ ['\\'])) := fun _ => hodd
    simp only [endsAt_cons Even hcons, endsAt_cons Even hescaped]
    refine (ih _ hpair).trans ⟨?_, ?_⟩
    · rintro ⟨before, hends⟩
      exact ⟨'\\' :: c :: before, c :: before, rfl, before, rfl, hends⟩
    · rintro ⟨_, _, rfl, before, rfl, hends⟩
      exact ⟨before, hends⟩
  | case4 rest hend hescape =>
    simp only [endsAt_quote Even heven]
    simp [eq_comm]
  | case5 c rest hend hescape hne ih =>
    have hc : c ≠ '\\' := by
      rintro rfl
      cases rest with
      | nil => exact hend rfl rfl
      | cons d rest => exact hescape d rest rfl rfl
    have hzero : Even (slashes (done ++ [c])) := by
      rw [slashes_append hc]
      exact Even.zero
    have hcons : c = quote → ¬ Even (slashes done) := fun h => absurd h hne
    simp only [endsAt_cons Even hcons]
    refine (ih _ hzero).trans ⟨?_, ?_⟩
    · rintro ⟨before, hends⟩
      exact ⟨c :: before, before, rfl, hends⟩
    · rintro ⟨_, before, rfl, hends⟩
      exact ⟨before, hends⟩

/-! ## Byte offsets -/

/-- Reading a literal from the start of a text takes the characters up to and including the one at a
byte offset, and stops there because that is a closing quote. -/
def StopsAt (quote : Char) (text : List Char) (offset : Nat) : Prop :=
  (readString quote text.tail).closed = true ∧ ∃ before,
    text = quote :: (before ++ quote :: (readString quote text.tail).rest) ∧
      byteSize (quote :: before) = offset

/-- A quote of either kind. -/
def IsQuote (quote : Char) : Prop := quote = '"' ∨ quote = '\''

theorem IsQuote.ne_slash {quote : Char} (h : IsQuote quote) : quote ≠ '\\' := by
  rcases h with rfl | rfl
  · decide
  · decide

theorem closeAt_iff {quote : Char} (h : IsQuote quote) (body : List Char) (offset : Nat) :
    (Delimiter.mk quote quote).closeAt (quote :: body) 0 = some offset ↔
      ∃ before after, EndsAt (· = 0) quote [] body before after ∧
        byteSize (quote :: before) = offset := by
  have hclose : (Delimiter.mk quote quote).closeAt (quote :: body) 0 =
      ((Delimiter.mk quote quote).close body).map fun n => byteSize (quote :: body.take n) :=
    Delimiter.closeAt_eq _ [] body
  have htake : ∀ before after, body = before ++ quote :: after → body.take before.length = before := by
    rintro before after rfl
    exact List.take_left
  simp only [hclose, Option.map_eq_some_iff, close_iff h.ne_slash]
  constructor
  · rintro ⟨_, ⟨before, after, hends, rfl⟩, rfl⟩
    exact ⟨before, after, hends, by rw [htake before after hends.split]⟩
  · rintro ⟨before, after, hends, rfl⟩
    exact ⟨before.length, ⟨before, after, hends, rfl⟩, by rw [htake before after hends.split]⟩

theorem stopsAt_iff {quote : Char} (h : IsQuote quote) (body : List Char) (offset : Nat) :
    StopsAt quote (quote :: body) offset ↔
      ∃ before after, EndsAt Even quote [] body before after ∧
        byteSize (quote :: before) = offset := by
  have hread := readString_iff h.ne_slash [] Even.zero body
  constructor
  · rintro ⟨hclosed, before, hsplit, rfl⟩
    obtain ⟨found, hends⟩ := (hread _).mp ⟨hclosed, rfl⟩
    -- the text behind the closing quote says where the quote is
    have hbody : before ++ quote :: (readString quote body).rest =
        found ++ quote :: (readString quote body).rest :=
      (List.cons.inj hsplit).2.symm.trans hends.split
    rw [List.append_cancel_right hbody]
    exact ⟨found, _, hends, rfl⟩
  · rintro ⟨before, after, hends, rfl⟩
    obtain ⟨hclosed, rfl⟩ := (hread after).mpr ⟨before, hends⟩
    exact ⟨hclosed, before, congrArg (quote :: ·) hends.split, rfl⟩

/-! ## Where they agree -/

section Agree
variable {quote : Char} {body before after : List Char}

/-- A quote without a backslash before it that ends the literal for reading ends it for cutting. -/
theorem endsAt_zero_of_even (h : EndsAt Even quote [] body before after)
    (hzero : slashes before = 0) : EndsAt (· = 0) quote [] body before after := by
  refine ⟨h.split, hzero, fun a b hab hfree => h.first a b hab ?_⟩
  rw [hfree]
  exact Even.zero

theorem even_of_unescaped (h : EndsAt (· = 0) quote [] body before after) :
    Even (slashes before) := by
  have hzero : slashes before = 0 := h.unescaped
  rw [hzero]
  exact Even.zero

/-- If some quote is not escaped, there is a first one. The induction is on the length of the text
before the quote. -/
theorem exists_endsAt {free : Nat → Prop} (hsplit : body = before ++ quote :: after)
    (hfree : free (slashes before)) :
    ∃ found rest, EndsAt free quote [] body found rest ∧ found <+: before := by
  induction hn : before.length using Nat.strong_induction_on generalizing before after with
  | _ n ih =>
    by_cases hfirst : ∀ a b, before = a ++ quote :: b → ¬ free (slashes a)
    · exact ⟨before, after, ⟨hsplit, hfree, hfirst⟩, List.prefix_rfl⟩
    · push Not at hfirst
      obtain ⟨a, b, hab, ha⟩ := hfirst
      have hlt : a.length < n := by
        rw [← hn, hab, List.length_append, List.length_cons]
        omega
      have hbody : body = a ++ quote :: (b ++ quote :: after) := by
        rw [hsplit, hab, List.append_assoc, List.cons_append]
      obtain ⟨found, rest, hends, hprefix⟩ := ih a.length hlt hbody ha rfl
      exact ⟨found, rest, hends, hprefix.trans ⟨quote :: b, hab.symm⟩⟩

/-- **The two readers end a literal at the same place just if the first quote behind an even number
of backslashes is behind none.** Cutting ends it at the first quote behind no backslash, and reading
at the first one behind an even number of them. -/
theorem endings_agree_iff (h : IsQuote quote) (body : List Char) :
    (∀ offset, (Delimiter.mk quote quote).closeAt (quote :: body) 0 = some offset ↔
      ∃ before after, EndsAt (· = 0) quote [] body before after ∧
        byteSize (quote :: before) = offset) ∧
    (∀ offset, StopsAt quote (quote :: body) offset ↔
      ∃ before after, EndsAt Even quote [] body before after ∧
        byteSize (quote :: before) = offset) ∧
    ((∀ offset, (Delimiter.mk quote quote).closeAt (quote :: body) 0 = some offset ↔
        StopsAt quote (quote :: body) offset) ↔
      ∀ before after, EndsAt Even quote [] body before after → slashes before = 0) := by
  refine ⟨closeAt_iff h body, stopsAt_iff h body, ?_⟩
  constructor
  · intro hagree before after hends
    have hstops : StopsAt quote (quote :: body) (byteSize (quote :: before)) :=
      (stopsAt_iff h body _).mpr ⟨before, after, hends, rfl⟩
    obtain ⟨cut, rest, hcut, hsize⟩ := (closeAt_iff h body _).mp ((hagree _).mpr hstops)
    -- reading ends the literal where cutting does or before, and the offsets are the same
    have hsame : before = cut := by
      obtain ⟨found, _, hfound, hprefix⟩ := exists_endsAt hcut.split (even_of_unescaped hcut)
      rw [hends.unique hfound] at hprefix
      by_contra hne
      have hlt := byteSize_lt_of_prefix hprefix hne
      rw [byteSize_cons, byteSize_cons] at hsize
      omega
    rw [hsame]
    exact hcut.unescaped
  · intro hnone offset
    rw [closeAt_iff h, stopsAt_iff h]
    constructor
    · rintro ⟨before, after, hends, rfl⟩
      obtain ⟨found, rest, hfound, -⟩ := exists_endsAt hends.split (even_of_unescaped hends)
      have hsame := hends.unique (endsAt_zero_of_even hfound (hnone found rest hfound))
      exact ⟨found, rest, hfound, by rw [hsame]⟩
    · rintro ⟨before, after, hends, rfl⟩
      exact ⟨before, after, endsAt_zero_of_even hends (hnone before after hends), rfl⟩

end Agree

/-- A literal with an escaped quote in it: `'a\'b'`. -/
def escapedQuote : List Char := ['\'', 'a', '\\', '\'', 'b', '\'']

theorem endings_agree_escapedQuote :
    IsQuote '\'' ∧ ∀ offset, (Delimiter.mk '\'' '\'').closeAt escapedQuote 0 = some offset ↔
      StopsAt '\'' escapedQuote offset := by
  refine ⟨Or.inr rfl, (endings_agree_iff (Or.inr rfl) escapedQuote.tail).2.2.mpr ?_⟩
  intro before after hends
  have hslash : '\'' ≠ '\\' := by decide
  obtain ⟨found, hfound⟩ := (readString_iff hslash [] Even.zero escapedQuote.tail []).mp ⟨rfl, rfl⟩
  have hsplit : ['a', '\\', '\'', 'b'] ++ ['\''] = found ++ ['\''] := hfound.split
  rw [← hends.unique hfound, ← List.append_cancel_right hsplit]
  decide

/-- A literal that ends in two backslashes: `'a\\'`. -/
def doubledSlash : List Char := ['\'', 'a', '\\', '\\', '\'']

/-- Reading takes the two backslashes as one pair and stops at the quote behind them; for cutting the
literal is not closed. -/
theorem endings_differ_doubledSlash :
    StopsAt '\'' doubledSlash 4 ∧ (Delimiter.mk '\'' '\'').closeAt doubledSlash 0 = none := by
  refine ⟨⟨rfl, ['a', '\\', '\\'], rfl, rfl⟩, ?_⟩
  decide

end Cutscene.Expr
