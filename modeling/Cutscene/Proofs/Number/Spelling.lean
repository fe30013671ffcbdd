import Mathlib
import Cutscene.Proofs.Expr.Rows
import Cutscene.Session

/-!
Numbers as they are spelled, and the two readers of them.

A session reads a variable's text as a number, and a condition reads the same text as tokens. What a
session accepts is a sign and a `Spelling` between blanks (`spelled_of_number`), and a condition
reads a spelling as one operand as long as digits follow its point (`Spelling.tokenize_text`). With
a bare point, as in `5.`, the point is a token of its own, and the text is no expression
(`number_parses_iff`).
-/
namespace Cutscene.Number

open Text Cutscene.Expr

/-- Digits alone. -/
def AllDigits (text : List Char) : Prop := ∀ c ∈ text, c.isDigit = true

/-- The sign of a number, which may be missing. -/
def IsSign (text : List Char) : Prop := text = [] ∨ text = ['+'] ∨ text = ['-']

/-- The exponent of a number with its letter, which may be missing. -/
def IsExponent (text : List Char) : Prop :=
  text = [] ∨ ∃ e sign digits, text = e :: (sign ++ digits) ∧ (e = 'e' ∨ e = 'E') ∧ IsSign sign ∧
    digits ≠ [] ∧ AllDigits digits

/-- A number that is spelled in digits, without its sign. -/
structure Spelling where
  whole : List Char
  /-- The digits behind the point, if there is a point. -/
  fraction : Option (List Char)
  exponent : List Char
  whole_digits : AllDigits whole
  fraction_digits : ∀ digits ∈ fraction, AllDigits digits
  exponent_spelled : IsExponent exponent
  some_digit : whole ++ fraction.getD [] ≠ []

namespace Spelling

/-- The digits before the exponent, with the point among them. -/
def mantissa (s : Spelling) : List Char :=
  match s.fraction with
  | none => s.whole
  | some digits => s.whole ++ '.' :: digits

/-- The characters of a number. -/
def text (s : Spelling) : List Char := s.mantissa ++ s.exponent

/-- Whether the point has no digit behind it. -/
def isBare (s : Spelling) : Bool := s.fraction = some []

end Spelling

/-! ## What a session reads -/

theorem allDigits_takeWhile (text : List Char) : AllDigits (text.takeWhile Char.isDigit) :=
  List.all_eq_true.mp List.all_takeWhile

theorem isDigits_iff {text : List Char} : isDigits text = true ↔ text ≠ [] ∧ AllDigits text := by
  simp [isDigits, AllDigits, List.all_eq_true]

theorem splitSign_eq (text : List Char) :
    ∃ sign, IsSign sign ∧ text = sign ++ (splitSign text).2 := by
  unfold splitSign
  split
  · exact ⟨['-'], by simp [IsSign], rfl⟩
  · exact ⟨['+'], by simp [IsSign], rfl⟩
  · exact ⟨[], by simp [IsSign], rfl⟩

theorem isExponent_of_read {text : List Char} (h : (readExponent text).isSome = true) :
    IsExponent text := by
  cases text with
  | nil => exact Or.inl rfl
  | cons e rest =>
    obtain ⟨sign, hsign, heq⟩ := splitSign_eq rest
    simp only [readExponent] at h
    split at h
    · next he =>
      split at h
      · next hdigits =>
        obtain ⟨hne, hall⟩ := isDigits_iff.mp hdigits
        refine Or.inr ⟨e, sign, (splitSign rest).2, by rw [← heq], ?_, hsign, hne, hall⟩
        simpa using he
      · cases h
    · cases h

/-- The parts of what is read as digits. -/
theorem spelled_of_readDigits {text : List Char} (h : (readDigits text).isSome = true) :
    ∃ s : Spelling, text = s.text := by
  have hsplit : text.takeWhile Char.isDigit ++ text.dropWhile Char.isDigit = text :=
    List.takeWhile_append_dropWhile
  rw [readDigits] at h
  generalize hrest : text.dropWhile Char.isDigit = rest at h hsplit
  by_cases hpoint : rest.head? = some '.'
  · -- behind the point come digits and the exponent
    obtain ⟨behind, rfl⟩ : ∃ behind, rest = '.' :: behind := by
      cases rest with
      | nil => cases hpoint
      | cons c behind => cases hpoint; exact ⟨behind, rfl⟩
    have hbehind : behind.takeWhile Char.isDigit ++ behind.dropWhile Char.isDigit = behind :=
      List.takeWhile_append_dropWhile
    simp only [List.head?_cons, if_true, List.drop_succ_cons, List.drop_zero] at h
    cases hexponent : readExponent (behind.dropWhile Char.isDigit) with
    | none => simp [hexponent] at h
    | some n =>
      have hsome : (text.takeWhile Char.isDigit ++ behind.takeWhile Char.isDigit) ≠ [] := by
        intro hnil
        simp [hexponent, hnil] at h
      refine ⟨⟨text.takeWhile Char.isDigit, some (behind.takeWhile Char.isDigit),
        behind.dropWhile Char.isDigit, allDigits_takeWhile text, ?_, ?_, hsome⟩, ?_⟩
      · intro digits hdigits
        cases hdigits
        exact allDigits_takeWhile behind
      · exact isExponent_of_read (by simp [hexponent])
      · simp [Spelling.text, Spelling.mantissa, hbehind, hsplit]
  · simp only [hpoint, if_false] at h
    cases hexponent : readExponent rest with
    | none => simp [hexponent] at h
    | some n =>
      have hsome : text.takeWhile Char.isDigit ≠ [] := by
        intro hnil
        simp [hexponent, hnil] at h
      refine ⟨⟨text.takeWhile Char.isDigit, none, rest, allDigits_takeWhile text, by simp, ?_,
        by simpa using hsome⟩, ?_⟩
      · exact isExponent_of_read (by simp [hexponent])
      · simp [Spelling.text, Spelling.mantissa, hsplit]

theorem spelled_of_readInteger {text : List Char} (h : (readInteger text).isSome = true) :
    ∃ (sign : List Char) (s : Spelling), IsSign sign ∧ text = sign ++ s.text := by
  obtain ⟨sign, hsign, heq⟩ := splitSign_eq text
  simp only [readInteger] at h
  split at h
  · cases h
  · next hdigits =>
    obtain ⟨hne, hall⟩ := isDigits_iff.mp (by simpa using hdigits)
    refine ⟨sign, ⟨(splitSign text).2, none, [], hall, by simp, Or.inl rfl, by simpa using hne⟩,
      hsign, ?_⟩
    simpa [Spelling.text, Spelling.mantissa] using heq

/-- The numbers that have names are not finite. -/
theorem not_finite_of_readName {text : List Char} {x : Float} (h : readName text = some x)
    (negative : Bool) : (withSign negative x).isFinite = false := by
  unfold readName at h
  split at h
  · cases h
    cases negative <;> decide
  · cases h
    cases negative <;> decide
  · cases h
    cases negative <;> decide
  · cases h

theorem spelled_of_readFinite {text : List Char} (h : (readFinite text).isSome = true) :
    ∃ (sign : List Char) (s : Spelling), IsSign sign ∧ text = sign ++ s.text := by
  obtain ⟨sign, hsign, heq⟩ := splitSign_eq text
  cases hreal : readReal text with
  | none => simp [readFinite, hreal] at h
  | some x =>
    have hfinite : x.isFinite = true := by simpa [readFinite, hreal, Option.filter] using h
    simp only [readReal, Option.map_eq_some_iff] at hreal
    obtain ⟨size, hsize, rfl⟩ := hreal
    cases hname : readName (splitSign text).2 with
    | some named =>
      rw [hname, Option.some_or] at hsize
      cases hsize
      rw [not_finite_of_readName hname] at hfinite
      cases hfinite
    | none =>
      rw [hname, Option.none_or] at hsize
      obtain ⟨s, hs⟩ := spelled_of_readDigits (by rw [hsize]; rfl)
      exact ⟨sign, s, hsign, by rw [← hs]; exact heq⟩

/-- A text is what is left of it without the blanks at its ends, between these blanks. -/
theorem exists_trim (text : List Char) : ∃ front back, text = front ++ (trim text ++ back) ∧
    (∀ c ∈ front, isBlank c = true) ∧ ∀ c ∈ back, isBlank c = true := by
  have hstart : text.takeWhile isBlank ++ trimStart text = text := List.takeWhile_append_dropWhile
  have hend : trim text ++ ((trimStart text).reverse.takeWhile isBlank).reverse =
      trimStart text := by
    rw [trim, trimEnd, ← List.reverse_append, List.takeWhile_append_dropWhile, List.reverse_reverse]
  refine ⟨_, _, by rw [hend, hstart], List.all_eq_true.mp List.all_takeWhile, ?_⟩
  intro c hc
  exact List.all_eq_true.mp List.all_takeWhile c (List.mem_reverse.mp hc)

/-- **What a session reads as a number** is a sign and a spelling between blanks. -/
theorem spelled_of_number {raw : String} (h : (Session.number raw).isSome = true) :
    ∃ (front sign : List Char) (s : Spelling) (back : List Char),
      raw.toList = front ++ (sign ++ s.text ++ back) ∧ IsSign sign ∧
      (∀ c ∈ front, isBlank c = true) ∧ ∀ c ∈ back, isBlank c = true := by
  obtain ⟨front, back, htrim, hfront, hback⟩ := exists_trim raw.toList
  have hspelled : ∃ (sign : List Char) (s : Spelling),
      IsSign sign ∧ trim raw.toList = sign ++ s.text := by
    rw [Session.number] at h
    cases hinteger : readInteger (trim raw.toList) with
    | some n => exact spelled_of_readInteger (by rw [hinteger]; rfl)
    | none =>
      cases hfinite : readFinite (trim raw.toList) with
      | some x => exact spelled_of_readFinite (by rw [hfinite]; rfl)
      | none => simp [hinteger, hfinite] at h
  obtain ⟨sign, s, hsign, heq⟩ := hspelled
  exact ⟨front, sign, s, back, by rw [← heq]; exact htrim, hsign, hfront, hback⟩

/-! ## What a condition reads -/

/-- A number ends here: at the end of the text or before a blank. -/
def Ends (rest : List Char) : Prop := ∀ c ∈ rest.head?, isBlank c = true

theorem isBlank_of_isDigit {c : Char} (h : c.isDigit = true) : isBlank c = false := by
  cases hblank : isBlank c with
  | false => rfl
  | true =>
    have hout := toNat_of_isBlank hblank
    simp only [Char.isDigit, Bool.and_eq_true, decide_eq_true_eq, UInt32.le_iff_toNat_le] at h
    have hval : c.val.toNat = c.toNat := rfl
    rw [hval] at h
    obtain ⟨hlow, hhigh⟩ := h
    simp at hlow hhigh
    omega

/-- Digits are taken up to the first character that is none. -/
theorem takeWhile_digits {digits : List Char} (h : AllDigits digits) {rest : List Char}
    (hrest : ∀ c ∈ rest.head?, c.isDigit = false) :
    (digits ++ rest).takeWhile Char.isDigit = digits ∧
      (digits ++ rest).dropWhile Char.isDigit = rest := by
  rw [List.takeWhile_append_of_pos h, List.dropWhile_append_of_pos h]
  cases rest with
  | nil => simp
  | cons c rest => simp [hrest c rfl]

theorem Ends.notDigit {rest : List Char} (h : Ends rest) : ∀ c ∈ rest.head?, c.isDigit = false := by
  intro c hc
  rw [Bool.eq_false_iff]
  intro hdigit
  have := h c hc
  rw [isBlank_of_isDigit hdigit] at this
  cases this

namespace Spelling

theorem exponent_head {text : List Char} (h : IsExponent text) {rest : List Char}
    (hrest : Ends rest) : ∀ c ∈ (text ++ rest).head?, c.isDigit = false ∧ c ≠ '.' := by
  intro c hc
  rcases h with rfl | ⟨e, sign, digits, rfl, he, -⟩
  · refine ⟨hrest.notDigit c hc, ?_⟩
    rintro rfl
    have := hrest _ hc
    cases this
  · cases hc
    rcases he with rfl | rfl <;> decide

variable {s : Spelling} {rest : List Char}

/-- The digits before the exponent are split off, unless the point is bare. -/
theorem splitMantissa_text (hbare : s.isBare = false) (hrest : Ends rest) :
    splitMantissa (s.text ++ rest) = (s.mantissa, s.exponent ++ rest) := by
  have hhead := exponent_head s.exponent_spelled hrest
  cases hfraction : s.fraction with
  | none =>
    have htext : s.text ++ rest = s.whole ++ (s.exponent ++ rest) := by
      simp [text, mantissa, hfraction]
    obtain ⟨htake, hdrop⟩ := takeWhile_digits s.whole_digits fun c hc => (hhead c hc).1
    rw [htext, splitMantissa, htake, hdrop]
    simp only [mantissa, hfraction]
    split
    · next d behind heq =>
      exact absurd rfl (hhead '.' (by rw [heq]; rfl)).2
    · rfl
  | some digits =>
    have hdigits := s.fraction_digits digits (by rw [hfraction]; rfl)
    obtain ⟨d, more, rfl⟩ : ∃ d more, digits = d :: more := by
      cases digits with
      | nil => simp [isBare, hfraction] at hbare
      | cons d more => exact ⟨d, more, rfl⟩
    have htext : s.text ++ rest = s.whole ++ ('.' :: (d :: more ++ (s.exponent ++ rest))) := by
      simp [text, mantissa, hfraction]
    have hpoint : ∀ c ∈ ('.' :: (d :: more ++ (s.exponent ++ rest))).head?, c.isDigit = false := by
      simp
    obtain ⟨htake, hdrop⟩ := takeWhile_digits s.whole_digits hpoint
    obtain ⟨htake', hdrop'⟩ := takeWhile_digits hdigits fun c hc => (hhead c hc).1
    have hd : d.isDigit = true := hdigits d (by simp)
    rw [htext, splitMantissa, htake, hdrop]
    simp only [List.cons_append, hd, if_true]
    rw [← List.cons_append, htake', hdrop']
    simp [mantissa, hfraction]

/-- The exponent is split off, with a small letter. -/
theorem splitExponent_text (hrest : Ends rest) :
    ∃ exponent, splitExponent (s.exponent ++ rest) = (exponent, rest) ∧
      (s.exponent = [] → exponent = []) := by
  rcases s.exponent_spelled with hnone | ⟨e, sign, digits, heq, he, hsign, hne, hdigits⟩
  · refine ⟨[], ?_, fun _ => rfl⟩
    rw [hnone, List.nil_append]
    unfold splitExponent
    split
    · next e c behind =>
      have hblank : isBlank e = true := hrest e rfl
      have hletter : (e = 'e' || e = 'E') = false := by
        rw [Bool.eq_false_iff]
        intro he
        simp only [Bool.or_eq_true, decide_eq_true_eq] at he
        rcases he with rfl | rfl <;> cases hblank
      simp [hletter]
    · rfl
  · obtain ⟨d, more, rfl⟩ := List.exists_cons_of_ne_nil hne
    have hletter : (e = 'e' || e = 'E') = true := by simpa using he
    have hd : d.isDigit = true := hdigits d (by simp)
    have hmore : AllDigits more := fun c hc => hdigits c (by simp [hc])
    obtain ⟨htake, hdrop⟩ := takeWhile_digits hdigits hrest.notDigit
    obtain ⟨htake', hdrop'⟩ := takeWhile_digits hmore hrest.notDigit
    rw [List.cons_append] at htake hdrop
    rw [heq]
    rcases hsign with rfl | rfl | rfl
    · refine ⟨'e' :: d :: more, ?_, by simp⟩
      simp [splitExponent, hletter, hd, htake', hdrop']
    · refine ⟨'e' :: '+' :: d :: more, ?_, by simp⟩
      simp only [List.cons_append, List.nil_append, splitExponent, hletter, htake, hdrop]
      rfl
    · refine ⟨'e' :: '-' :: d :: more, ?_, by simp⟩
      simp only [List.cons_append, List.nil_append, splitExponent, hletter, htake, hdrop]
      rfl

/-- A spelling begins with a digit, or with a point that a digit follows. -/
theorem exists_first (s : Spelling) (rest : List Char) :
    ∃ c behind, s.text ++ rest = c :: behind ∧ isBlank c = false ∧
      (c.isDigit || (c = '.' && behind.head?.any Char.isDigit)) = true := by
  cases hwhole : s.whole with
  | cons c more =>
    have hc : c.isDigit = true := s.whole_digits c (by simp [hwhole])
    refine ⟨c, ?_, ?_, isBlank_of_isDigit hc, by simp [hc]⟩
    · exact (s.text ++ rest).tail
    · cases hfraction : s.fraction <;> simp [text, mantissa, hwhole, hfraction]
  | nil =>
    -- without digits before the point there are digits behind it
    have hsome := s.some_digit
    cases hfraction : s.fraction with
    | none => simp [hwhole, hfraction] at hsome
    | some digits =>
      cases digits with
      | nil => simp [hwhole, hfraction] at hsome
      | cons d more =>
        have hd : d.isDigit = true :=
          s.fraction_digits (d :: more) (by simp [hfraction]) d (by simp)
        refine ⟨'.', d :: (more ++ s.exponent ++ rest), ?_, by decide, by simp [hd]⟩
        simp [text, mantissa, hwhole, hfraction]

/-- **A condition reads a spelling as one token**, unless its point is bare. -/
theorem tokenize_text (hbare : s.isBare = false) (hrest : Ends rest) :
    ∃ exponent, tokenize (s.text ++ rest) = numberToken s.mantissa exponent :: tokenize rest ∧
      (s.exponent = [] → exponent = []) := by
  obtain ⟨exponent, hexponent, hnone⟩ := splitExponent_text (s := s) hrest
  obtain ⟨c, behind, hcons, hblank, hfirst⟩ := s.exists_first rest
  have hnumber : readNumber (c :: behind) = (numberToken s.mantissa exponent, rest) := by
    rw [← hcons, readNumber, splitMantissa_text hbare hrest]
    simp only [hexponent]
  refine ⟨exponent, ?_, hnone⟩
  rw [hcons, tokenize_cons hblank, readToken, if_pos hfirst, hnumber]

/-- A bare point is read as a token of its own. -/
theorem tokenize_bare (hbare : s.isBare = true) (hrest : Ends rest) :
    .unknown '.' ∈ tokenize (s.text ++ rest) := by
  have hfraction : s.fraction = some [] := by simpa [isBare] using hbare
  have hhead := exponent_head s.exponent_spelled hrest
  generalize hbehind : s.exponent ++ rest = behind at hhead
  have hpoint : ∀ c ∈ ('.' :: behind).head?, c.isDigit = false := by simp
  have hafter : behind.head?.any Char.isDigit = false := by
    cases behind with
    | nil => rfl
    | cons c behind => exact (hhead c rfl).1
  have htext : s.text ++ rest = s.whole ++ '.' :: behind := by
    simp [text, mantissa, hfraction, hbehind]
  obtain ⟨htake, hdrop⟩ := takeWhile_digits s.whole_digits hpoint
  have hmantissa : splitMantissa (s.whole ++ '.' :: behind) = (s.whole, '.' :: behind) := by
    rw [splitMantissa, htake, hdrop]
    cases behind with
    | nil => rfl
    | cons c behind => simp [(hhead c rfl).1]
  have hexponent : splitExponent ('.' :: behind) = ([], '.' :: behind) := by
    cases behind <;> simp [splitExponent]
  have hunknown : readToken '.' behind = (.unknown '.', behind) := by
    have hnumber : ('.'.isDigit || ('.' = '.' && behind.head?.any Char.isDigit)) = false := by
      simp [hafter]
    have hmark : Expr.readMark '.' behind = (.unknown '.', behind) := by
      cases behind <;> rfl
    rw [readToken, if_neg (by rw [hnumber]; decide), hmark]
    rfl
  obtain ⟨c, more, hcons, hblank, hfirst⟩ := s.exists_first rest
  have hnumber : readNumber (c :: more) = (numberToken s.whole [], '.' :: behind) := by
    rw [← hcons, htext, readNumber, hmantissa]
    simp only [hexponent]
  rw [hcons, tokenize_cons hblank, readToken, if_pos hfirst, hnumber,
    tokenize_cons (by decide : isBlank '.' = false), hunknown]
  simp

end Spelling

theorem numberToken_literal (mantissa exponent : List Char) :
    ∃ v, (numberToken mantissa exponent).literal? = some v := by
  unfold numberToken
  dsimp only
  split
  · exact ⟨_, rfl⟩
  · split
    · exact ⟨_, rfl⟩
    · exact ⟨_, rfl⟩

theorem tokenize_blanks {blanks : List Char} (h : ∀ c ∈ blanks, isBlank c = true)
    (rest : List Char) : tokenize (blanks ++ rest) = tokenize rest := by
  induction blanks with
  | nil => rfl
  | cons c blanks ih =>
    obtain ⟨hc, hblanks⟩ := List.forall_mem_cons.mp h
    rw [List.cons_append, tokenize_blank hc, ih hblanks]

/-- A sign is a token of its own. -/
theorem tokenize_minus (rest : List Char) :
    tokenize ('-' :: rest) = .mark .minus :: tokenize rest := by
  have hread : readToken '-' rest = (.mark .minus, rest) := by
    cases rest <;> rfl
  rw [tokenize_cons (by decide), hread]

theorem tokenize_plus (rest : List Char) :
    tokenize ('+' :: rest) = .mark .plus :: tokenize rest := by
  have hread : readToken '+' rest = (.mark .plus, rest) := by
    cases rest <;> rfl
  rw [tokenize_cons (by decide), hread]

/-- The expression of a literal with a sign before it. -/
def signed (sign : List Char) (v : Value) : Expr :=
  if sign = ['-'] then .unary .neg (.literal v) else .literal v

theorem parse_signed {sign : List Char} (hsign : IsSign sign) {text : List Char} {t : Token}
    {v : Value} (htokens : tokenize text = [t]) (hv : t.literal? = some v) :
    parse (sign ++ text) = .ok (signed sign v) := by
  rcases hsign with rfl | rfl | rfl
  · rw [parse, List.nil_append, htokens]
    exact parseTokens_operand hv
  · rw [parse, List.singleton_append, tokenize_plus, htokens]
    exact parseTokens_plus hv
  · rw [parse, List.singleton_append, tokenize_minus, htokens]
    exact parseTokens_minus hv

theorem tokenize_signed {sign : List Char} (hsign : IsSign sign) (text : List Char) :
    ∃ marks, tokenize (sign ++ text) = marks ++ tokenize text := by
  rcases hsign with rfl | rfl | rfl
  · exact ⟨[], rfl⟩
  · exact ⟨[.mark .plus], tokenize_plus text⟩
  · exact ⟨[.mark .minus], tokenize_minus text⟩

/-! ## Bare points -/

/-- Whether a text has a point that no digit follows. -/
def hasBarePoint : List Char → Bool
  | [] => false
  | c :: rest => (c = '.' && !rest.head?.any Char.isDigit) || hasBarePoint rest

theorem hasBarePoint_append {text : List Char} (h : '.' ∉ text) (rest : List Char) :
    hasBarePoint (text ++ rest) = hasBarePoint rest := by
  induction text with
  | nil => rfl
  | cons c text ih =>
    have hc : c ≠ '.' := fun heq => h (by simp [heq])
    simp [hasBarePoint, hc, ih fun hmem => h (by simp [hmem])]

theorem point_notMem_digits {digits : List Char} (h : AllDigits digits) : '.' ∉ digits :=
  fun hmem => absurd (h _ hmem) (by decide)

theorem point_notMem_sign {sign : List Char} (h : IsSign sign) : '.' ∉ sign := by
  rcases h with rfl | rfl | rfl <;> decide

theorem point_notMem_blanks {blanks : List Char} (h : ∀ c ∈ blanks, isBlank c = true) :
    '.' ∉ blanks :=
  fun hmem => absurd (h _ hmem) (by decide)

theorem point_notMem_exponent {exponent : List Char} (h : IsExponent exponent) :
    '.' ∉ exponent := by
  rcases h with rfl | ⟨e, sign, digits, rfl, he, hsign, -, hdigits⟩
  · simp
  · intro hmem
    rcases List.mem_cons.mp hmem with rfl | hmem
    · rcases he with he | he <;> cases he
    · rcases List.mem_append.mp hmem with hmem | hmem
      · exact point_notMem_sign hsign hmem
      · exact point_notMem_digits hdigits hmem

/-- The point of a spelling is bare just if the text has a bare point. -/
theorem hasBarePoint_text (s : Spelling) {back : List Char} (hback : ∀ c ∈ back, isBlank c = true) :
    hasBarePoint (s.text ++ back) = s.isBare := by
  have hexponent := point_notMem_exponent s.exponent_spelled
  have hrest : hasBarePoint (s.exponent ++ back) = false := by
    rw [hasBarePoint_append hexponent, ← List.append_nil back,
      hasBarePoint_append (point_notMem_blanks hback)]
    rfl
  have hwhole := point_notMem_digits s.whole_digits
  cases hfraction : s.fraction with
  | none =>
    have htext : s.text ++ back = s.whole ++ (s.exponent ++ back) := by
      simp [Spelling.text, Spelling.mantissa, hfraction]
    rw [htext, hasBarePoint_append hwhole, hrest]
    simp [Spelling.isBare, hfraction]
  | some digits =>
    have hdigits := s.fraction_digits digits (by rw [hfraction]; rfl)
    have htext : s.text ++ back = s.whole ++ '.' :: (digits ++ (s.exponent ++ back)) := by
      simp [Spelling.text, Spelling.mantissa, hfraction]
    rw [htext, hasBarePoint_append hwhole, hasBarePoint,
      hasBarePoint_append (point_notMem_digits hdigits), hrest]
    cases digits with
    | cons d more => simp [Spelling.isBare, hfraction, hdigits d (by simp)]
    | nil =>
      have hends : Ends back := fun c hc => hback c (List.mem_of_mem_head? hc)
      have hhead := Spelling.exponent_head s.exponent_spelled hends
      rw [List.nil_append]
      generalize s.exponent ++ back = behind at hhead
      have hafter : behind.head?.any Char.isDigit = false := by
        cases behind with
        | nil => rfl
        | cons c more => exact (hhead c rfl).1
      simp [Spelling.isBare, hfraction, hafter]

/-- In its default modes a session gives a number as it is spelled, and other text in quotes. -/
theorem valueOf_default {mode : String} (hunwrapped : mode ≠ "unwrapped")
    (hinteger : mode ≠ "integer") (raw : String) : Session.valueOf mode raw =
      .str (if (Session.number raw).isSome then raw else Session.quoted raw) := by
  unfold Session.valueOf
  split
  · exact absurd rfl hunwrapped
  · exact absurd rfl hinteger
  · exact (apply_ite Value.str _ _ _).symm

/-- **When a number of the session is an operand.** In its default modes a session gives a number as
it is spelled, and that is an expression just if a digit follows every point. -/
theorem number_parses_iff {raw : String} (h : (Session.number raw).isSome = true) :
    (∀ mode, mode ≠ "unwrapped" → mode ≠ "integer" → Session.valueOf mode raw = .str raw) ∧
      ((∃ e, parse raw.toList = .ok e) ↔ hasBarePoint raw.toList = false) := by
  constructor
  · intro mode hunwrapped hinteger
    rw [valueOf_default hunwrapped hinteger, if_pos h]
  · obtain ⟨front, sign, s, back, hraw, hsign, hfront, hback⟩ := spelled_of_number h
    have hpoint : hasBarePoint raw.toList = s.isBare := by
      rw [hraw, hasBarePoint_append (point_notMem_blanks hfront), List.append_assoc,
        hasBarePoint_append (point_notMem_sign hsign), hasBarePoint_text s hback]
    have hends : Ends back := fun c hc => hback c (List.mem_of_mem_head? hc)
    have hparse : parse raw.toList = parse (sign ++ (s.text ++ back)) := by
      rw [hraw, parse, parse, tokenize_blanks hfront, List.append_assoc]
    rw [hpoint, hparse]
    constructor
    · rintro ⟨e, he⟩
      cases hbare : s.isBare with
      | false => rfl
      | true =>
        obtain ⟨marks, htokens⟩ := tokenize_signed hsign (s.text ++ back)
        have hunknown : .unknown '.' ∈ tokenize (sign ++ (s.text ++ back)) := by
          rw [htokens]
          exact List.mem_append_right marks (Spelling.tokenize_bare hbare hends)
        exact absurd (admitted_of_parse he _ hunknown) (by decide)
    · intro hbare
      obtain ⟨exponent, htokens, -⟩ := Spelling.tokenize_text hbare hends
      obtain ⟨v, hv⟩ := numberToken_literal s.mantissa exponent
      have hblank : tokenize back = [] := by
        rw [← List.append_nil back, tokenize_blanks hback, tokenize_nil]
      rw [hblank] at htokens
      exact ⟨_, parse_signed hsign htokens hv⟩

/-- A number with a sign, a point and an exponent between blanks. -/
theorem parses_signed_exponent :
    (Session.number " -.5E+1 ").isSome = true ∧ ∃ e, parse " -.5E+1 ".toList = .ok e := by
  have hnumber : (Session.number " -.5E+1 ").isSome = true := by decide +kernel
  exact ⟨hnumber, (number_parses_iff hnumber).2.mpr (by decide)⟩

/-- A session reads `5.` as a number, and gives it as it is; a condition cannot read it. -/
theorem not_parses_bare :
    (Session.number "5.").isSome = true ∧ Session.valueOf "" "5." = .str "5." ∧
      ¬ ∃ e, parse "5.".toList = .ok e := by
  have hnumber : (Session.number "5.").isSome = true := by decide +kernel
  have htokens : tokenize "5.".toList = [.int 5, .unknown '.'] := by cbv
  refine ⟨hnumber, ?_, ?_⟩
  · rw [valueOf_default (by decide) (by decide), if_pos hnumber]
  · rintro ⟨e, he⟩
    have hadmitted := admitted_of_parse he (.unknown '.') (by rw [htokens]; simp)
    cases hadmitted

end Cutscene.Number
