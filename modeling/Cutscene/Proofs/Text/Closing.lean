import Mathlib
import Cutscene.Text.Delimiter

/-!
Which closer balances an opener.

The search for a closer keeps a depth and the character before. What it finds can be said without
either. A closer is free if it is not right behind a backslash of the span, and an index of the span is
balanced if a free closer stands there, with as many free closers before it as openers. On its way the
depth is what the openers are ahead of the free closers, so as long as no index was balanced the search
goes on, and it ends at the first index that is (`closeFrom_isLeast`). In bytes of the whole text, it finds
the first offset behind the opener that balances it, and nothing just if there is none
(`closeAt_isLeast`).
-/
namespace Cutscene.Text.Delimiter

/-- Whether the character at an index of a span is right behind a backslash of the span. -/
def IsEscaped (body : List Char) : Nat → Prop
  | 0 => False
  | i + 1 => body[i]? = some '\\'

instance (body : List Char) : DecidablePred (IsEscaped body)
  | 0 => inferInstanceAs (Decidable False)
  | i + 1 => inferInstanceAs (Decidable (body[i]? = some '\\'))

section Balance
variable (d : Delimiter) (body : List Char)

/-- A closer that is not escaped. -/
def IsFree (i : Nat) : Prop := body[i]? = some d.closer ∧ ¬ IsEscaped body i

instance : DecidablePred (d.IsFree body) :=
  fun i => inferInstanceAs (Decidable (body[i]? = some d.closer ∧ ¬ IsEscaped body i))

/-- An opener, escaped or not. -/
def IsOpener (i : Nat) : Prop := body[i]? = some d.opener

instance : DecidablePred (d.IsOpener body) :=
  fun i => inferInstanceAs (Decidable (body[i]? = some d.opener))

/-- A free closer with as many free closers before it as openers. -/
structure Balances (i : Nat) : Prop where
  free : d.IsFree body i
  even : Nat.count (d.IsFree body) i = Nat.count (d.IsOpener body) i

end Balance

/-! ## The search -/

section Search
variable {d : Delimiter} {body : List Char}

/-- Where an index is not balanced, the search goes on behind it. -/
theorem isLeast_behind {start : Nat} (hnot : ¬ d.Balances body start) {found : Option Nat}
    (hbehind : ∀ n, found = some n ↔ IsLeast {i | start + 1 ≤ i ∧ d.Balances body i} (start + 1 + n))
    (n : Nat) : found.map (· + 1) = some n ↔ IsLeast {i | start ≤ i ∧ d.Balances body i} (start + n) := by
  have hsame : {i | start ≤ i ∧ d.Balances body i} = {i | start + 1 ≤ i ∧ d.Balances body i} := by
    ext i
    constructor
    · rintro ⟨hle, hbalances⟩
      have hne : start ≠ i := fun heq => hnot (heq ▸ hbalances)
      exact ⟨by omega, hbalances⟩
    · rintro ⟨hle, hbalances⟩
      exact ⟨by omega, hbalances⟩
  rw [hsame, Option.map_eq_some_iff]
  constructor
  · rintro ⟨m, hm, rfl⟩
    have hleast := (hbehind m).mp hm
    rwa [show start + 1 + m = start + (m + 1) by omega] at hleast
  · intro hleast
    have hle : start + 1 ≤ start + n := hleast.1.1
    refine ⟨n - 1, (hbehind (n - 1)).mpr ?_, by omega⟩
    rwa [show start + 1 + (n - 1) = start + n by omega]

/-- **The search ends at the first balanced index.** `rest` is what is left of the span behind `done`, and
the depth is what the openers in `done` are ahead of the free closers in it. -/
theorem closeFrom_isLeast (hne : d.opener ≠ d.closer) {done rest : List Char} (hbody : body = done ++ rest)
    {previous : Char} (hprevious : previous = '\\' ↔ IsEscaped body done.length) {depth : Nat}
    (hdepth : Nat.count (d.IsFree body) done.length + depth = Nat.count (d.IsOpener body) done.length)
    (n : Nat) :
    d.closeFrom depth previous rest = some n ↔
      IsLeast {i | done.length ≤ i ∧ d.Balances body i} (done.length + n) := by
  induction rest generalizing done previous depth n with
  | nil =>
    have hend : ∀ i, done.length ≤ i → ¬ d.Balances body i := by
      intro i hle hbalances
      have hnone : body[i]? = none := by
        rw [hbody, List.append_nil]
        exact List.getElem?_eq_none hle
      have hcloser := hbalances.free.1
      rw [hnone] at hcloser
      cases hcloser
    constructor
    · intro hfound
      cases hfound
    · intro hleast
      exact absurd hleast.1.2 (hend _ hleast.1.1)
  | cons c rest ih =>
    have hc : body[done.length]? = some c := by
      rw [hbody, List.getElem?_append_right (Nat.le_refl _), Nat.sub_self, List.getElem?_cons_zero]
    have hnext : body = done ++ [c] ++ rest := by rw [hbody, ← List.append_cons]
    have hlength : (done ++ [c]).length = done.length + 1 := by simp
    have hescaped : c = '\\' ↔ IsEscaped body (done ++ [c]).length := by
      rw [hlength, IsEscaped, hc, Option.some.injEq]
    have hopener : d.IsOpener body done.length ↔ c = d.opener := by
      rw [IsOpener, hc, Option.some.injEq]
    have hfree : d.IsFree body done.length ↔ c = d.closer ∧ previous ≠ '\\' := by
      rw [IsFree, hc, Option.some.injEq, ← hprevious]
    -- the search behind `c`, at the depth that `c` leaves
    have hbehind : ∀ deeper, Nat.count (d.IsFree body) (done.length + 1) + deeper =
        Nat.count (d.IsOpener body) (done.length + 1) → ∀ n, d.closeFrom deeper c rest = some n ↔
          IsLeast {i | done.length + 1 ≤ i ∧ d.Balances body i} (done.length + 1 + n) := by
      intro deeper hdeeper n
      rw [← hlength] at hdeeper
      have hfound := ih hnext hescaped hdeeper n
      rwa [hlength] at hfound
    by_cases hcloser : c = d.closer
    · have hother : ¬ d.IsOpener body done.length := by
        rw [hopener, hcloser]
        exact hne.symm
      by_cases hslash : previous = '\\'
      · have hskip : d.closeFrom depth previous (c :: rest) = (d.closeFrom depth c rest).map (· + 1) := by
          simp [closeFrom, hcloser, hslash]
        have hnot : ¬ d.IsFree body done.length := fun h => (hfree.mp h).2 hslash
        rw [hskip]
        refine isLeast_behind (fun h => hnot h.free) (hbehind depth ?_) n
        rw [Nat.count_succ, Nat.count_succ, if_neg hnot, if_neg hother]
        omega
      · have hhere : d.IsFree body done.length := hfree.mpr ⟨hcloser, hslash⟩
        cases depth with
        | zero =>
          have hstop : d.closeFrom 0 previous (c :: rest) = some 0 := by
            simp [closeFrom, hcloser, hslash]
          have hbalances : d.Balances body done.length := ⟨hhere, hdepth⟩
          have hleast : IsLeast {i | done.length ≤ i ∧ d.Balances body i} done.length :=
            ⟨⟨Nat.le_refl _, hbalances⟩, fun i hi => hi.1⟩
          rw [hstop, Option.some.injEq]
          constructor
          · rintro rfl
            exact hleast
          · intro hfound
            have hsame := hleast.unique hfound
            omega
        | succ outer =>
          have hskip : d.closeFrom (outer + 1) previous (c :: rest) =
              (d.closeFrom outer c rest).map (· + 1) := by
            simp [closeFrom, hcloser, hslash]
          have hnot : ¬ d.Balances body done.length := by
            intro hbalances
            have heven := hbalances.even
            omega
          rw [hskip]
          refine isLeast_behind hnot (hbehind outer ?_) n
          rw [Nat.count_succ, Nat.count_succ, if_pos hhere, if_neg hother]
          omega
    · have hnot : ¬ d.IsFree body done.length := fun h => hcloser (hfree.mp h).1
      by_cases hopens : c = d.opener
      · have hskip : d.closeFrom depth previous (c :: rest) =
            (d.closeFrom (depth + 1) c rest).map (· + 1) := by
          rw [closeFrom.eq_def]
          simp only [if_neg hcloser, if_pos hopens]
        rw [hskip]
        refine isLeast_behind (fun h => hnot h.free) (hbehind (depth + 1) ?_) n
        rw [Nat.count_succ, Nat.count_succ, if_neg hnot, if_pos (hopener.mpr hopens)]
        omega
      · have hskip : d.closeFrom depth previous (c :: rest) = (d.closeFrom depth c rest).map (· + 1) := by
          rw [closeFrom.eq_def]
          simp only [if_neg hcloser, if_neg hopens]
        rw [hskip]
        refine isLeast_behind (fun h => hnot h.free) (hbehind depth ?_) n
        rw [Nat.count_succ, Nat.count_succ, if_neg hnot, if_neg (hopens ∘ hopener.mp)]
        omega

/-- An opener is balanced at the first balanced index of the span behind it. -/
theorem close_isLeast (hne : d.opener ≠ d.closer) (n : Nat) :
    d.close body = some n ↔ IsLeast {i | d.Balances body i} n := by
  have hprevious : '\x00' = '\\' ↔ IsEscaped body ([] : List Char).length := by
    simp [IsEscaped]
  have hdepth : Nat.count (d.IsFree body) 0 + 0 = Nat.count (d.IsOpener body) 0 := rfl
  have hfound := closeFrom_isLeast hne (List.nil_append body).symm hprevious hdepth n
  simpa [close] using hfound

end Search

/-! ## In the whole text -/

section Text
variable {d : Delimiter} (before body : List Char)

/-- The byte offsets that balance an opener behind `before`, where `body` is the text behind it. -/
def balancing (d : Delimiter) (before body : List Char) : Set Nat :=
  (fun i => byteSize (before ++ d.opener :: body.take i)) '' {i | d.Balances body i}

/-- The first balanced index is at the first of the offsets. -/
theorem isLeast_balancing {i : Nat} (h : IsLeast {i | d.Balances body i} i) :
    IsLeast (d.balancing before body) (byteSize (before ++ d.opener :: body.take i)) := by
  refine ⟨Set.mem_image_of_mem _ h.1, ?_⟩
  rintro _ ⟨j, hj, rfl⟩
  have hle : i ≤ j := h.2 hj
  apply byteSize_le_of_prefix
  exact (List.prefix_append_right_inj before).mpr
    (List.cons_prefix_cons.mpr ⟨rfl, List.take_prefix_take_left hle⟩)

/-- **An opener closes at the first offset that balances it.** The closer there has no backslash of the
span right before it, and between the two stand as many openers as such closers. There is none just if the
search finds none. -/
theorem closeAt_isLeast (hne : d.opener ≠ d.closer) :
    (∀ offset, d.closeAt (before ++ d.opener :: body) (byteSize before) = some offset ↔
      IsLeast (d.balancing before body) offset) ∧
    (d.closeAt (before ++ d.opener :: body) (byteSize before) = none ↔
      d.balancing before body = ∅) := by
  rw [closeAt_eq]
  rcases Set.eq_empty_or_nonempty {i | d.Balances body i} with hnone | hsome
  · have hclose : d.close body = none := by
      rw [Option.eq_none_iff_forall_ne_some]
      intro n hn
      have hbalances := ((close_isLeast hne n).mp hn).1
      rw [hnone] at hbalances
      exact hbalances
    have hempty : d.balancing before body = ∅ := by rw [balancing, hnone, Set.image_empty]
    rw [hclose, hempty]
    refine ⟨fun offset => ⟨fun h => ?_, fun h => h.1.elim⟩, by simp⟩
    cases h
  · obtain ⟨n, hn⟩ : ∃ n, IsLeast {i | d.Balances body i} n := ⟨_, isLeast_csInf hsome⟩
    have hleast := isLeast_balancing before body hn
    rw [(close_isLeast hne n).mpr hn, Option.map_some]
    refine ⟨fun offset => ?_, ?_⟩
    · rw [Option.some.injEq]
      constructor
      · rintro rfl
        exact hleast
      · exact hleast.unique
    · simpa using (Set.nonempty_of_mem hleast.1).ne_empty

end Text

/-- A span with an escaped closer and a group in it, behind a letter of two bytes: `é(a\)(b)c)d)`. -/
def groupedBody : List Char := ['a', '\\', ')', '(', 'b', ')', 'c', ')', 'd', ')']

theorem closeAt_isLeast_grouped :
    parenthesis.opener ≠ parenthesis.closer ∧
      IsLeast (parenthesis.balancing ['é'] groupedBody) 10 ∧ parenthesis.balancing [] ['('] = ∅ := by
  have hne : parenthesis.opener ≠ parenthesis.closer := by decide
  exact ⟨hne, ((closeAt_isLeast ['é'] groupedBody hne).1 10).mp rfl,
    (closeAt_isLeast [] ['('] hne).2.mp rfl⟩

end Cutscene.Text.Delimiter
