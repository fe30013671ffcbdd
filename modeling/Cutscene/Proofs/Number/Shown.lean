import Mathlib
import Cutscene.Proofs.Number.Decimal
import Cutscene.Proofs.Number.Spelling

/-!
The texts of numbers, read again by a condition.

The text of an integer and that of a finite real are spellings without an exponent, perhaps behind a
minus (`writes_integerText`, `writes_shown`); that of any other real is a name (`shown_named`). A
condition reads a spelling as a number that is not zero if its size is above half of the least
double (`evalCondition_of_writes`), and the size that is written for a double other than zero is
(`half_lt_shortest`).
-/
namespace Cutscene.Number

open Text Cutscene.Expr

/-- The number that a spelling without an exponent stands for. -/
def Spelling.size (s : Spelling) : ℚ :=
  ofDigits (s.whole ++ s.fraction.getD []) * 10 ^ (-((s.fraction.getD []).length : ℤ))

/-- A text is a spelling of the given size without an exponent. -/
def Writes (text : List Char) (size : ℚ) : Prop :=
  ∃ s : Spelling, text = s.text ∧ s.exponent = [] ∧ s.isBare = false ∧ s.size = size

/-- A text is such a spelling, perhaps with a minus before it. -/
def WritesSigned (text : List Char) (size : ℚ) : Prop :=
  ∃ sign body, (sign = [] ∨ sign = ['-']) ∧ text = sign ++ body ∧ Writes body size

/-! ## Rows of digits -/

theorem ofDigits_eq (text : List Char) : ofDigits text = Nat.ofDigitChars 10 text 0 := rfl

theorem ofDigits_append (a b : List Char) :
    ofDigits (a ++ b) = 10 ^ b.length * ofDigits a + ofDigits b := by
  rw [ofDigits_eq, Nat.ofDigitChars_append, Nat.ofDigitChars_eq_ofDigitChars_zero, ← ofDigits_eq,
    ← ofDigits_eq]

theorem ofDigits_zeros (n : Nat) : ofDigits (List.replicate n '0') = 0 := by
  rw [ofDigits_eq, Nat.ofDigitChars_replicate_zero, Nat.mul_zero]

theorem ofDigits_toDigits (n : Nat) : ofDigits (Nat.toDigits 10 n) = n :=
  Nat.ofDigitChars_ten_toDigits

theorem allDigits_toDigits (n : Nat) : AllDigits (Nat.toDigits 10 n) :=
  fun _ h => Nat.isDigit_of_mem_toDigits (by decide) (by decide) h

theorem allDigits_zeros (n : Nat) : AllDigits (List.replicate n '0') := by
  intro c h
  rw [List.eq_of_mem_replicate h]
  rfl

theorem AllDigits.append {a b : List Char} (ha : AllDigits a) (hb : AllDigits b) :
    AllDigits (a ++ b) := by
  intro c h
  rcases List.mem_append.mp h with h | h
  · exact ha c h
  · exact hb c h

theorem toDigits_ne_nil (n : Nat) : Nat.toDigits 10 n ≠ [] :=
  List.ne_nil_of_length_pos Nat.length_toDigits_pos

/-! ## What is written -/

theorem writes_whole {whole : List Char} (h : AllDigits whole) (hne : whole ≠ []) :
    Writes whole (ofDigits whole) := by
  refine ⟨⟨whole, none, [], h, by simp, Or.inl rfl, by simpa using hne⟩, ?_, rfl, rfl, ?_⟩
  · simp [Spelling.text, Spelling.mantissa]
  · simp [Spelling.size]

theorem writes_point {whole fraction : List Char} (h : AllDigits whole) (h' : AllDigits fraction)
    (hne : fraction ≠ []) :
    Writes (whole ++ '.' :: fraction)
      (ofDigits (whole ++ fraction) * 10 ^ (-(fraction.length : ℤ))) := by
  refine ⟨⟨whole, some fraction, [], h, ?_, Or.inl rfl, by simp [hne]⟩, ?_, rfl, ?_, rfl⟩
  · intro digits hdigits
    cases hdigits
    exact h'
  · simp [Spelling.text, Spelling.mantissa]
  · simpa [Spelling.isBare] using hne

theorem writes_positional (d : Decimal) : Writes d.positional.toList d.value := by
  have hdigits := allDigits_toDigits d.digits
  have hread := ofDigits_toDigits d.digits
  have hne := toDigits_ne_nil d.digits
  rw [Decimal.positional]
  dsimp only
  generalize Nat.toDigits 10 d.digits = digits at hdigits hread hne
  split
  · next hwhole =>
    have hvalue : d.value = ofDigits (digits ++ List.replicate d.exponent.toNat '0') := by
      rw [ofDigits_append, ofDigits_zeros, hread, List.length_replicate, Decimal.value]
      nth_rewrite 1 [← Int.toNat_of_nonneg hwhole]
      rw [zpow_natCast]
      push_cast
      ring
    rw [String.toList_ofList, hvalue]
    apply writes_whole (hdigits.append (allDigits_zeros _))
    simp [hne]
  · next hneg =>
    have hvalue : d.value = ofDigits digits * 10 ^ (-((-d.exponent).toNat : ℤ)) := by
      rw [Decimal.value, hread]
      congr 2
      omega
    have hplaces : 0 < (-d.exponent).toNat := by omega
    generalize (-d.exponent).toNat = places at hvalue hplaces
    split
    · next hlt =>
      -- the point stands among the digits
      generalize hwhole : digits.length - places = whole
      have hlength : (digits.drop whole).length = places := by
        rw [List.length_drop]
        omega
      have hwrites : Writes (digits.take whole ++ '.' :: digits.drop whole) _ :=
        writes_point (fun c h => hdigits c (List.mem_of_mem_take h))
          (fun c h => hdigits c (List.mem_of_mem_drop h))
          (List.ne_nil_of_length_pos (by omega))
      rw [List.take_append_drop, hlength, ← hvalue] at hwrites
      rw [String.toList_ofList]
      exact hwrites
    · -- zeros stand between the point and the digits
      have hlength : (List.replicate (places - digits.length) '0' ++ digits).length = places := by
        rw [List.length_append, List.length_replicate]
        omega
      have hzeros : ofDigits (['0'] ++ (List.replicate (places - digits.length) '0' ++ digits)) =
          ofDigits digits := by
        rw [← List.append_assoc, ofDigits_append, ← List.replicate_one, ← List.replicate_add,
          ofDigits_zeros, Nat.mul_zero, Nat.zero_add]
      have hwrites :
          Writes (['0'] ++ '.' :: (List.replicate (places - digits.length) '0' ++ digits)) _ :=
        writes_point (allDigits_zeros 1) ((allDigits_zeros _).append hdigits) (by simp [hne])
      rw [hzeros, hlength, ← hvalue] at hwrites
      rw [String.toList_ofList]
      exact hwrites

/-- Behind a number without a point, a point and a zero change nothing. -/
theorem Writes.pointed {body : List Char} {size : ℚ} (h : Writes body size) (hpoint : '.' ∉ body) :
    Writes (body ++ ['.', '0']) size := by
  obtain ⟨s, rfl, hexponent, -, rfl⟩ := h
  have hfraction : s.fraction = none := by
    cases hfraction : s.fraction with
    | none => rfl
    | some digits => simp [Spelling.text, Spelling.mantissa, hfraction] at hpoint
  have htext : s.text = s.whole := by simp [Spelling.text, Spelling.mantissa, hfraction, hexponent]
  have hsize : s.size = ofDigits (s.whole ++ ['0']) * 10 ^ (-((['0'] : List Char).length : ℤ)) := by
    have hzero : ofDigits ['0'] = 0 := rfl
    simp only [Spelling.size, hfraction, Option.getD_none, List.append_nil, List.length_nil,
      ofDigits_append, hzero, List.length_singleton]
    push_cast
    rw [zpow_neg, add_zero]
    field_simp
  rw [htext, hsize]
  exact writes_point s.whole_digits (allDigits_zeros 1) (by simp)

theorem WritesSigned.pointed {text : String} {size : ℚ} (h : WritesSigned text.toList size) :
    WritesSigned (pointed text).toList size := by
  rw [Number.pointed]
  split
  · exact h
  · next hpoint =>
    obtain ⟨sign, body, hsign, htext, hbody⟩ := h
    have hbare : '.' ∉ body := by
      intro hmem
      exact hpoint (by simp [htext, hmem])
    refine ⟨sign, body ++ ['.', '0'], hsign, ?_, hbody.pointed hbare⟩
    rw [String.toList_append, htext, List.append_assoc]
    rfl

/-- A number is written in digits, with a minus and a point at most. -/
theorem WritesSigned.notMem {text : List Char} {size : ℚ} (h : WritesSigned text size) {c : Char}
    (hdigit : c.isDigit = false) (hpoint : c ≠ '.') (hminus : c ≠ '-') : c ∉ text := by
  obtain ⟨sign, body, hsign, rfl, s, rfl, hexponent, -, -⟩ := h
  have hdigits : ∀ {digits : List Char}, AllDigits digits → c ∉ digits := by
    intro digits hall hmem
    rw [hall c hmem] at hdigit
    cases hdigit
  have hbody : c ∉ s.text := by
    rw [Spelling.text, hexponent, List.append_nil, Spelling.mantissa]
    split
    · exact hdigits s.whole_digits
    · next digits hfraction =>
      simp only [List.mem_append, List.mem_cons, not_or]
      exact ⟨hdigits s.whole_digits, hpoint, hdigits (s.fraction_digits digits hfraction)⟩
  rcases hsign with rfl | rfl
  · exact hbody
  · simpa [hminus] using hbody

theorem writes_natural (n : Nat) : Writes n.repr.toList n := by
  rw [Nat.repr_eq_ofList_toDigits, String.toList_ofList]
  have hwrites := writes_whole (allDigits_toDigits n) (toDigits_ne_nil n)
  rwa [ofDigits_toDigits] at hwrites

theorem writes_integerText (n : Int64) : WritesSigned (integerText n).toList n.toInt.natAbs := by
  rw [integerText]
  cases n.toInt with
  | ofNat m => exact ⟨[], _, Or.inl rfl, rfl, writes_natural m⟩
  | negSucc m =>
    refine ⟨['-'], (m + 1).repr.toList, Or.inr rfl, ?_, writes_natural (m + 1)⟩
    show ("-" ++ (m + 1).repr).toList = _
    rw [String.toList_append]
    rfl

/-- The size that is written for a double. -/
def sizeShown (x : Float) : ℚ := if (binary x).mantissa = 0 then 0 else (shortest (binary x)).value

theorem writes_plain {x : Float} (hnan : x.isNaN = false) (hinf : x.isInf = false) :
    WritesSigned (plain x).toList (sizeShown x) := by
  have hbody : Writes
      (if (binary x).mantissa = 0 then "0" else (shortest (binary x)).positional).toList
      (sizeShown x) := by
    rw [sizeShown]
    split
    · exact writes_natural 0
    · exact writes_positional _
  rw [plain, written, hnan, hinf]
  simp only [Bool.false_eq_true, if_false, String.toList_append]
  refine ⟨_, _, ?_, rfl, hbody⟩
  split
  · exact Or.inr rfl
  · exact Or.inl rfl

theorem writes_shown {x : Float} (hnan : x.isNaN = false) (hinf : x.isInf = false) :
    WritesSigned (shown x).toList (sizeShown x) := by
  rw [shown]
  split
  · exact (writes_plain hnan hinf).pointed
  · exact writes_plain hnan hinf

/-- What is not finite is written by its name. -/
theorem shown_named {x : Float} (h : x.isNaN = true ∨ x.isInf = true) :
    ∃ sign name back, (sign = [] ∨ sign = ['-']) ∧ (name = "NaN" ∨ name = "inf") ∧
      (back = [] ∨ back = ['.', '0']) ∧ (shown x).toList = sign ++ (name.toList ++ back) := by
  have hplain : ∃ sign name, (sign = [] ∨ sign = ['-']) ∧ (name = "NaN" ∨ name = "inf") ∧
      (plain x).toList = sign ++ name.toList := by
    rw [plain, written]
    split
    · exact ⟨[], "NaN", Or.inl rfl, Or.inl rfl, rfl⟩
    · next hnan =>
      have hinf : x.isInf = true := h.resolve_left hnan
      rw [if_pos hinf, String.toList_append]
      refine ⟨_, "inf", ?_, Or.inr rfl, rfl⟩
      split
      · exact Or.inr rfl
      · exact Or.inl rfl
  obtain ⟨sign, name, hsign, hname, hplain⟩ := hplain
  refine ⟨sign, name, ?_⟩
  rw [shown]
  split
  · rw [pointed]
    split
    · exact ⟨[], hsign, hname, Or.inl rfl, by simpa using hplain⟩
    · refine ⟨['.', '0'], hsign, hname, Or.inr rfl, ?_⟩
      rw [String.toList_append, hplain, List.append_assoc]
      rfl
  · exact ⟨[], hsign, hname, Or.inl rfl, by simpa using hplain⟩

/-! ## What is read again -/

theorem toLower_of_isDigit {c : Char} (h : c.isDigit = true) : c.toLower = c := by
  simp only [Char.isDigit, Bool.and_eq_true, decide_eq_true_eq] at h
  rw [Char.toLower, dif_neg]
  intro hupper
  exact absurd (UInt32.le_trans hupper.1 h.2) (by decide)

/-- A spelling begins with a digit or a point. -/
theorem Spelling.mantissa_first (s : Spelling) :
    ∃ c behind, s.mantissa = c :: behind ∧ (c.isDigit = true ∨ c = '.') := by
  cases hwhole : s.whole with
  | cons c more =>
    have hc : c.isDigit = true := s.whole_digits c (by simp [hwhole])
    cases hfraction : s.fraction with
    | none => exact ⟨c, more, by simp [mantissa, hwhole, hfraction], Or.inl hc⟩
    | some digits =>
      exact ⟨c, more ++ '.' :: digits, by simp [mantissa, hwhole, hfraction], Or.inl hc⟩
  | nil =>
    cases hfraction : s.fraction with
    | none => exact absurd s.some_digit (by simp [hwhole, hfraction])
    | some digits => exact ⟨'.', digits, by simp [mantissa, hwhole, hfraction], Or.inr rfl⟩

theorem readName_mantissa (s : Spelling) : readName s.mantissa = none := by
  obtain ⟨c, behind, hcons, hc⟩ := s.mantissa_first
  have hlower : c.toLower = c := by
    rcases hc with hc | rfl
    · exact toLower_of_isDigit hc
    · rfl
  have hnot : ∀ d, d.isDigit = false → d ≠ '.' → c ≠ d := by
    rintro d hdigit hpoint rfl
    rcases hc with hc | hc
    · rw [hdigit] at hc
      cases hc
    · exact hpoint hc
  rw [hcons, readName, List.map_cons, hlower]
  split
  · next heq => exact absurd (List.cons.inj heq).1 (hnot _ rfl (by decide))
  · next heq => exact absurd (List.cons.inj heq).1 (hnot _ rfl (by decide))
  · next heq => exact absurd (List.cons.inj heq).1 (hnot _ rfl (by decide))
  · rfl

theorem splitSign_mantissa (s : Spelling) : splitSign s.mantissa = (false, s.mantissa) := by
  obtain ⟨c, behind, hcons, hc⟩ := s.mantissa_first
  rw [hcons]
  unfold splitSign
  split
  · next heq => cases heq; rcases hc with hc | hc <;> cases hc
  · next heq => cases heq; rcases hc with hc | hc <;> cases hc
  · rfl

theorem readDigits_mantissa (s : Spelling) : readDigits s.mantissa =
    some (ofDecimal (ofDigits (s.whole ++ s.fraction.getD []))
      (-((s.fraction.getD []).length : ℤ))) := by
  have hsome := s.some_digit
  have hnil : ∀ c ∈ ([] : List Char).head?, c.isDigit = false := by simp
  rw [readDigits]
  cases hfraction : s.fraction with
  | none =>
    obtain ⟨htake, hdrop⟩ := takeWhile_digits s.whole_digits hnil
    rw [List.append_nil] at htake hdrop
    have hmantissa : s.mantissa = s.whole := by simp [Spelling.mantissa, hfraction]
    rw [hmantissa, htake, hdrop]
    simp only [hfraction, Option.getD_none, List.append_nil] at hsome
    simp [readExponent, hsome]
  | some digits =>
    have hpoint : ∀ c ∈ ('.' :: digits).head?, c.isDigit = false := by simp
    obtain ⟨htake, hdrop⟩ := takeWhile_digits s.whole_digits hpoint
    have hdigits := s.fraction_digits digits (by rw [hfraction]; rfl)
    obtain ⟨htake', hdrop'⟩ := takeWhile_digits hdigits hnil
    rw [List.append_nil] at htake' hdrop'
    have hmantissa : s.mantissa = s.whole ++ '.' :: digits := by simp [Spelling.mantissa, hfraction]
    rw [hmantissa, htake, hdrop]
    simp only [hfraction, Option.getD_some] at hsome
    simp only [List.head?_cons, if_true, List.drop_succ_cons, List.drop_zero, htake', hdrop']
    simpa [readExponent] using hsome

theorem readReal_mantissa (s : Spelling) : readReal s.mantissa =
    some (ofDecimal (ofDigits (s.whole ++ s.fraction.getD []))
      (-((s.fraction.getD []).length : ℤ))) := by
  rw [readReal, splitSign_mantissa]
  simp only [readName_mantissa, readDigits_mantissa, Option.none_or, Option.map_some, withSign,
    Bool.false_eq_true, if_false]

theorem ofInt_ne_zero {k : Int} (hpos : 0 < k) (hle : k ≤ Int64.maxValue.toInt) :
    Int64.ofInt k ≠ 0 := by
  intro hzero
  have hmax : Int64.maxValue.toInt < 2 ^ 63 := by decide
  have hvalue : (Int64.ofInt k).toInt = k := Int64.toInt_ofInt_of_le (by omega) (by omega)
  rw [hzero] at hvalue
  exact absurd hvalue (by simp only [Int64.toInt_zero]; omega)

/-- An integer that is read from a spelling is what the digits stand for. -/
theorem readInteger_mantissa {s : Spelling} {n : Int64} (hfraction : s.fraction = none)
    (h : readInteger s.mantissa = some n) :
    n = Int64.ofInt (ofDigits s.whole) ∧ (ofDigits s.whole : Int) ≤ Int64.maxValue.toInt := by
  have hmantissa : s.mantissa = s.whole := by simp [Spelling.mantissa, hfraction]
  rw [readInteger, splitSign_mantissa, hmantissa] at h
  simp only [Bool.false_eq_true, if_false] at h
  split at h
  · cases h
  · split at h
    · next hbounds =>
      simp only [Bool.and_eq_true, decide_eq_true_eq] at hbounds
      exact ⟨(Option.some.inj h).symm, hbounds.2⟩
    · cases h

/-- **A size above half of the least double is read as a number that counts as true**, and so does
the opposite of that number. -/
theorem numberToken_truth {s : Spelling} (h : (2 : ℚ) ^ (-1075 : ℤ) < s.size) :
    ∃ v, (numberToken s.mantissa []).literal? = some v ∧ v.truth = true ∧ v.neg.truth = true := by
  have hread := ofDecimal_ne_zero h
  have hreal : ∃ v, (Token.real ((readReal (s.mantissa ++ [])).getD 0)).literal? = some v ∧
      v.truth = true ∧ v.neg.truth = true := by
    rw [List.append_nil, readReal_mantissa]
    refine ⟨_, rfl, ?_, ?_⟩
    · simp only [Option.getD_some, Value.truth, bne, hread, Bool.not_false]
    · simp only [Option.getD_some, Value.neg, Value.truth, bne, neg_beq_zero, hread, Bool.not_false]
  rw [numberToken]
  split
  · exact hreal
  · next hwhole =>
    split
    · next n hn =>
      have hfraction : s.fraction = none := by
        cases hfraction : s.fraction with
        | none => rfl
        | some digits => simp [Spelling.mantissa, hfraction] at hwhole
      obtain ⟨rfl, hle⟩ := readInteger_mantissa hfraction hn
      have hpos : 0 < ofDigits s.whole := by
        rw [Nat.pos_iff_ne_zero]
        intro hzero
        rw [Spelling.size, hfraction, Option.getD_none, List.append_nil, hzero, Nat.cast_zero,
          zero_mul] at h
        exact absurd h (not_lt.mpr (by positivity))
      have hne := ofInt_ne_zero (by exact_mod_cast hpos) hle
      refine ⟨_, rfl, ?_, ?_⟩
      · simpa [Value.truth] using hne
      · simpa [Value.neg, Value.truth] using hne
    · exact hreal

theorem evalCondition_of_writes {text : List Char} {size : ℚ} (h : WritesSigned text size)
    (hsize : (2 : ℚ) ^ (-1075 : ℤ) < size) : evalCondition text = .ok true := by
  obtain ⟨sign, body, hsign, rfl, s, rfl, hexponent, hbare, rfl⟩ := h
  have hends : Ends [] := by simp [Ends]
  obtain ⟨exponent, htokens, hnone⟩ := Spelling.tokenize_text hbare hends
  obtain rfl := hnone hexponent
  rw [List.append_nil, tokenize_nil] at htokens
  obtain ⟨v, hv, htruth, hneg⟩ := numberToken_truth hsize
  have hparse : parse (sign ++ s.text) = .ok (signed sign v) := by
    refine parse_signed ?_ htokens hv
    rcases hsign with rfl | rfl
    · exact Or.inl rfl
    · exact Or.inr (Or.inr rfl)
  rw [evalCondition, evalText, hparse]
  rcases hsign with rfl | rfl
  · show Except.ok v.truth = _
    rw [htruth]
  · show Except.ok v.neg.truth = _
    rw [hneg]

theorem evalCondition_integerText {n : Int64} (h : n ≠ 0) :
    evalCondition (integerText n).toList = .ok true := by
  apply evalCondition_of_writes (writes_integerText n)
  have habs : 1 ≤ n.toInt.natAbs := by
    rw [Nat.one_le_iff_ne_zero, Int.natAbs_ne_zero]
    intro hzero
    exact h (Int64.toInt_inj.mp (by rw [hzero]; rfl))
  calc (2 : ℚ) ^ (-1075 : ℤ) < 1 := zpow_lt_one_of_neg₀ one_lt_two (by decide)
    _ ≤ n.toInt.natAbs := by exact_mod_cast habs

theorem binary_bounds (x : Float) :
    (binary x).mantissa < 2 ^ 53 ∧ leastExponent ≤ (binary x).exponent := by
  have hfraction : x.toBits.toNat % signWeight % exponentWeight < 2 ^ 52 :=
    Nat.mod_lt _ (by decide)
  have hweight : exponentWeight = 2 ^ 52 := rfl
  have hleast : leastExponent = -1074 := rfl
  rw [binary]
  split
  · exact ⟨by simp only; omega, le_refl _⟩
  · next hbiased =>
    have hpos : (1 : ℤ) ≤ (x.toBits.toNat % signWeight / exponentWeight : ℕ) := by
      exact_mod_cast Nat.one_le_iff_ne_zero.mpr hbiased
    exact ⟨by simp only; omega, by simp only; omega⟩

/-- A double is finite, or it has a name. -/
theorem isFinite_iff (x : Float) : x.isFinite = true ↔ x.isNaN = false ∧ x.isInf = false := by
  show x.toModel.unpack.isFinite = true ↔
    x.toModel.unpack.isNaN = false ∧ x.toModel.unpack.isInf = false
  cases x.toModel.unpack with
  | infinity s => exact iff_of_false Bool.false_ne_true fun h => Bool.noConfusion h.2
  | notANumber => exact iff_of_false Bool.false_ne_true fun h => Bool.noConfusion h.1
  | zero s => exact iff_of_true rfl ⟨rfl, rfl⟩
  | finite s m e h => exact iff_of_true rfl ⟨rfl, rfl⟩

theorem evalCondition_shown {x : Float} (hfinite : x.isFinite = true) (hx : (x == 0) = false) :
    evalCondition (shown x).toList = .ok true := by
  obtain ⟨hnan, hinf⟩ := (isFinite_iff x).mp hfinite
  have hpos := mantissa_pos hx
  obtain ⟨hmantissa, hexponent⟩ := binary_bounds x
  have hleast : leastExponent = -1074 := rfl
  apply evalCondition_of_writes (writes_shown hnan hinf)
  rw [sizeShown, if_neg hpos.ne']
  calc (2 : ℚ) ^ (-1075 : ℤ) ≤ 2 ^ ((binary x).exponent - 1) :=
        zpow_le_zpow_right₀ one_le_two (by omega)
    _ < (shortest (binary x)).value := half_lt_shortest hpos hmantissa

end Cutscene.Number
