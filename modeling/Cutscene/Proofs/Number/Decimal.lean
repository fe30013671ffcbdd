import Mathlib
import Cutscene.Number.Shortest
import Cutscene.Proofs.Number.Zero

/-!
Decimals between printing and reading.

A double is printed as the shortest decimal that rounds to it, and seventeen digits always suffice
for one (`nearest_ne_none`): the multiples of that decimal place lie closer together than the reals
that round to the double reach. So the decimal lies among these reals, above half of the last binary
place (`half_lt_shortest`). What lies above half of the least double is not read as zero
(`ofDecimal_ne_zero`), and hence no double but zero is printed as a decimal that is read as zero.
-/
namespace Cutscene.Number

/-- The number that a decimal stands for. -/
def Decimal.value (d : Decimal) : ℚ := d.digits * 10 ^ d.exponent

/-- The number that a size stands for. -/
def Binary.value (b : Binary) : ℚ := b.mantissa * 2 ^ b.exponent

/-- A power with its negative part on the other side. -/
theorem zpow_mul_pow_toNat {a : ℚ} (ha : a ≠ 0) (e : ℤ) : a ^ e * a ^ (-e).toNat = a ^ e.toNat := by
  have hsum : e + ((-e).toNat : ℤ) = (e.toNat : ℤ) := by omega
  rw [← zpow_natCast a (-e).toNat, ← zpow_natCast a e.toNat, ← zpow_add₀ ha, hsum]

/-! ## Digits -/

theorem lt_ten_pow_digitCount (n : Nat) : n < 10 ^ digitCount n :=
  (Nat.length_toDigits_le_iff (by decide) Nat.length_toDigits_pos).mp (Nat.le_refl _)

theorem ten_pow_digitCount_le {n : Nat} (h : 0 < n) : 10 ^ (digitCount n - 1) ≤ n := by
  have hpos : 0 < digitCount n := Nat.length_toDigits_pos
  by_cases hone : digitCount n = 1
  · rw [hone]
    exact h
  · rw [← Nat.not_lt, ← Nat.length_toDigits_le_iff (by decide) (by omega)]
    show ¬ digitCount n ≤ digitCount n - 1
    omega

/-- The place of the decimal point is no greater than it has to be. -/
theorem ten_pow_le_value {b : Binary} (h : 0 < b.mantissa) :
    (10 : ℚ) ^ (pointPlace b - 1) ≤ b.value := by
  rw [pointPlace, Binary.value]
  split
  · next hwhole =>
    -- a whole number
    have hsize : 0 < b.mantissa <<< b.exponent.toNat := by
      rw [Nat.shiftLeft_eq]
      positivity
    have hpos : 0 < digitCount (b.mantissa <<< b.exponent.toNat) := Nat.length_toDigits_pos
    have hle := ten_pow_digitCount_le hsize
    generalize digitCount (b.mantissa <<< b.exponent.toNat) = count at hpos hle
    have hexponent : ((count : ℤ) - 1) = ((count - 1 : ℕ) : ℤ) := by omega
    have htwo : (2 : ℚ) ^ b.exponent = 2 ^ b.exponent.toNat := by
      rw [← zpow_natCast, Int.toNat_of_nonneg hwhole]
    rw [Nat.shiftLeft_eq] at hle
    rw [hexponent, zpow_natCast, htwo]
    exact_mod_cast hle
  · next hneg =>
    have hden : (1 <<< (-b.exponent).toNat : ℕ) = 2 ^ (-b.exponent).toNat := by
      rw [Nat.shiftLeft_eq, Nat.one_mul]
    have htwo : (2 : ℚ) ^ b.exponent = ((2 ^ (-b.exponent).toNat : ℕ) : ℚ)⁻¹ := by
      push_cast
      rw [← zpow_natCast, ← zpow_neg]
      congr 1
      omega
    simp only [hden]
    rw [htwo]
    generalize hd : 2 ^ (-b.exponent).toNat = den
    have hdpos : 0 < den := by rw [← hd]; positivity
    split
    · next hle =>
      -- at least one
      have hquot : 0 < b.mantissa / den := Nat.div_pos hle hdpos
      have hpos : 0 < digitCount (b.mantissa / den) := Nat.length_toDigits_pos
      have hcount := ten_pow_digitCount_le hquot
      generalize digitCount (b.mantissa / den) = count at hpos hcount
      have hexponent : ((count : ℤ) - 1) = ((count - 1 : ℕ) : ℤ) := by omega
      rw [hexponent, zpow_natCast, ← div_eq_mul_inv, le_div_iff₀ (by exact_mod_cast hdpos)]
      have hmul : 10 ^ (count - 1) * den ≤ b.mantissa :=
        (Nat.mul_le_mul_right den hcount).trans (Nat.div_mul_le_self _ _)
      exact_mod_cast hmul
    · next hlt =>
      -- below one
      have hcount := lt_ten_pow_digitCount (den / b.mantissa)
      generalize digitCount (den / b.mantissa) = count at hcount
      have hexponent : (1 - (count : ℤ) - 1) = -(count : ℤ) := by omega
      rw [hexponent, zpow_neg, zpow_natCast, ← div_eq_mul_inv, ← one_div,
        div_le_div_iff₀ (by positivity) (by exact_mod_cast hdpos), one_mul]
      have hmul : den ≤ b.mantissa * 10 ^ count := by
        rw [Nat.mul_comm]
        exact ((Nat.div_lt_iff_lt_mul h).mp hcount).le
      exact_mod_cast hmul

/-! ## The shortest decimal -/

section Interval
variable {b : Binary} {step unit g : Nat}

theorem contains_of_nearest {i : Interval} (h : i.nearest step unit = some g) :
    i.contains step unit g = true := by
  rw [Interval.nearest] at h
  split at h
  · split at h
    · cases h; assumption
    · cases h; assumption
  · cases h; assumption
  · cases h; assumption
  · cases h

/-- What rounds to a size lies above half of its last place. The least mantissa is odd, so the lower
end does not count for it. -/
theorem half_lt_of_contains (hm : 0 < b.mantissa) (hunit : 0 < unit)
    (h : (Interval.of b).contains step unit g = true) : 2 * unit < g * step := by
  by_cases hone : b.mantissa = 1
  · simp [Interval.contains, Interval.of, hone, exponentWeight] at h
    exact h.1
  · have hlow : 6 ≤ (Interval.of b).low := by
      simp only [Interval.of]
      split <;> omega
    have hle : (Interval.of b).low * unit ≤ g * step := by
      rw [Interval.contains] at h
      split at h
      · simp only [Bool.and_eq_true, decide_eq_true_eq] at h
        exact h.1
      · simp only [Bool.and_eq_true, decide_eq_true_eq] at h
        exact h.1.le
    have hsix : 6 * unit ≤ (Interval.of b).low * unit := Nat.mul_le_mul_right unit hlow
    omega

/-- Where no multiple of the step is found, the step is no less than the reach of the interval: the
multiple below the middle falls short of it, and the one above goes beyond. -/
theorem reach_le_step {i : Interval} (hlow : i.low ≤ i.mid) (hhigh : i.mid < i.high)
    (hstep : 0 < step) (hunit : 0 < unit) (h : i.nearest step unit = none) :
    i.high * unit ≤ i.low * unit + step := by
  have hbelow : i.mid * unit / step * step ≤ i.mid * unit := Nat.div_mul_le_self _ _
  have habove : i.mid * unit < (i.mid * unit / step + 1) * step :=
    Nat.lt_mul_of_div_lt (Nat.lt_succ_self _) hstep
  have hless : i.low * unit ≤ i.mid * unit := Nat.mul_le_mul_right unit hlow
  have hmore : i.mid * unit < i.high * unit := Nat.mul_lt_mul_of_pos_right hhigh hunit
  rw [Interval.nearest] at h
  generalize i.mid * unit / step = g at h hbelow habove
  rw [Nat.succ_mul] at habove
  split at h
  · split at h
    · cases h
    · cases h
  · cases h
  · cases h
  · next hg hg' =>
    have hsucc : (g + 1) * step = g * step + step := Nat.succ_mul g step
    cases hclosed : i.closed with
    | true =>
      simp only [Interval.contains, hclosed, if_true, Bool.and_eq_false_iff,
        decide_eq_false_iff_not] at hg hg'
      omega
    | false =>
      simp only [Interval.contains, hclosed, Bool.false_eq_true, if_false, Bool.and_eq_false_iff,
        decide_eq_false_iff_not] at hg hg'
      omega

/-- **Seventeen digits suffice**: what rounds to a size reaches further than 10⁻¹⁶ of it. -/
theorem nearest_ne_none (hm : b.mantissa < 2 ^ 53) (hstep : 0 < step) (hunit : 0 < unit)
    (h : 10 ^ 16 * step ≤ 4 * b.mantissa * unit) : (Interval.of b).nearest step unit ≠ none := by
  intro hnone
  have hreach := reach_le_step (Nat.sub_le _ _) (by simp [Interval.of]) hstep hunit hnone
  have hwide : 4 * b.mantissa + 10 ^ 16 * (Interval.of b).low < 10 ^ 16 * (Interval.of b).high := by
    simp only [Interval.of]
    split
    · next hbelow =>
      simp only [Bool.and_eq_true, decide_eq_true_eq] at hbelow
      have hlead : b.mantissa = 2 ^ 52 := hbelow.1
      omega
    · omega
  have hwide := Nat.mul_lt_mul_of_pos_right hwide hunit
  rw [Nat.add_mul, Nat.mul_assoc (10 ^ 16), Nat.mul_assoc (10 ^ 16)] at hwide
  omega

end Interval

/-- The step and the unit stand for the decimal and the binary place. -/
theorem step_mul_two (e s : ℤ) :
    ((Nat.pow 10 e.toNat <<< (-s).toNat : ℕ) : ℚ) * 2 ^ s =
      ((Nat.pow 10 (-e).toNat <<< s.toNat : ℕ) : ℚ) * 10 ^ e := by
  have hten := zpow_mul_pow_toNat (show (10 : ℚ) ≠ 0 by norm_num) e
  have htwo := zpow_mul_pow_toNat (show (2 : ℚ) ≠ 0 by norm_num) s
  simp only [Nat.shiftLeft_eq, Nat.pow_eq]
  push_cast
  calc (10 : ℚ) ^ e.toNat * 2 ^ (-s).toNat * 2 ^ s
      = 10 ^ e.toNat * (2 ^ s * 2 ^ (-s).toNat) := by ring
    _ = 10 ^ e * 10 ^ (-e).toNat * 2 ^ s.toNat := by rw [htwo, hten]
    _ = 10 ^ (-e).toNat * 2 ^ s.toNat * 10 ^ e := by ring

section Shortest
variable {b : Binary}

theorem half_lt_of_nearest (hm : 0 < b.mantissa) {e : ℤ} {g : Nat}
    (h : (Interval.of b).nearest (Nat.pow 10 e.toNat <<< (-(b.exponent - 2)).toNat)
      (Nat.pow 10 (-e).toNat <<< (b.exponent - 2).toNat) = some g) :
    (2 : ℚ) ^ (b.exponent - 1) < g * 10 ^ e := by
  have hplaces := step_mul_two e (b.exponent - 2)
  have hunit : 0 < Nat.pow 10 (-e).toNat <<< (b.exponent - 2).toNat := by
    rw [Nat.shiftLeft_eq, Nat.pow_eq]
    positivity
  have hhalf := half_lt_of_contains hm hunit (contains_of_nearest h)
  generalize Nat.pow 10 e.toNat <<< (-(b.exponent - 2)).toNat = step at hplaces hhalf
  generalize Nat.pow 10 (-e).toNat <<< (b.exponent - 2).toNat = unit at hplaces hhalf hunit
  have hdouble : (2 : ℚ) ^ (b.exponent - 1) = 2 * 2 ^ (b.exponent - 2) := by
    rw [← zpow_one_add₀ (by norm_num)]
    congr 1
    omega
  have hunit : (0 : ℚ) < unit := by exact_mod_cast hunit
  have hhalf : (2 : ℚ) * unit < g * step := by exact_mod_cast hhalf
  have hpow : (0 : ℚ) < 2 ^ (b.exponent - 2) := by positivity
  have hscaled := mul_lt_mul_of_pos_right hhalf hpow
  rw [hdouble]
  refine lt_of_mul_lt_mul_left ?_ hunit.le
  calc (unit : ℚ) * (2 * 2 ^ (b.exponent - 2))
      = 2 * unit * 2 ^ (b.exponent - 2) := by ring
    _ < g * step * 2 ^ (b.exponent - 2) := hscaled
    _ = unit * (g * 10 ^ e) := by rw [mul_assoc, hplaces]; ring

theorem nearest_at_seventeen (hm : 0 < b.mantissa) (hm' : b.mantissa < 2 ^ 53) {e : ℤ}
    (he : e = pointPlace b - 17) :
    (Interval.of b).nearest (Nat.pow 10 e.toNat <<< (-(b.exponent - 2)).toNat)
      (Nat.pow 10 (-e).toNat <<< (b.exponent - 2).toNat) ≠ none := by
  have hplaces := step_mul_two e (b.exponent - 2)
  have hvalue := ten_pow_le_value hm
  have hstep : 0 < Nat.pow 10 e.toNat <<< (-(b.exponent - 2)).toNat := by
    rw [Nat.shiftLeft_eq, Nat.pow_eq]
    positivity
  have hunit : 0 < Nat.pow 10 (-e).toNat <<< (b.exponent - 2).toNat := by
    rw [Nat.shiftLeft_eq, Nat.pow_eq]
    positivity
  apply nearest_ne_none hm' hstep hunit
  generalize Nat.pow 10 e.toNat <<< (-(b.exponent - 2)).toNat = step at hplaces
  generalize Nat.pow 10 (-e).toNat <<< (b.exponent - 2).toNat = unit at hplaces
  have hten : (10 : ℚ) ^ (pointPlace b - 1) = 10 ^ 16 * 10 ^ e := by
    rw [← zpow_natCast (10 : ℚ) 16, ← zpow_add₀ (by norm_num), he]
    congr 1
    push_cast
    ring
  have hfour : b.value = 4 * b.mantissa * 2 ^ (b.exponent - 2) := by
    rw [Binary.value, zpow_sub₀ (by norm_num)]
    norm_num
    ring
  rw [hten, hfour] at hvalue
  have hpow : (0 : ℚ) < 2 ^ (b.exponent - 2) := by positivity
  have hscaled : (10 ^ 16 * step : ℚ) * 2 ^ (b.exponent - 2) ≤
      4 * b.mantissa * unit * 2 ^ (b.exponent - 2) := by
    calc (10 ^ 16 * step : ℚ) * 2 ^ (b.exponent - 2)
        = unit * (10 ^ 16 * 10 ^ e) := by rw [mul_assoc, hplaces]; ring
      _ ≤ unit * (4 * b.mantissa * 2 ^ (b.exponent - 2)) :=
        mul_le_mul_of_nonneg_left hvalue (Nat.cast_nonneg unit)
      _ = 4 * b.mantissa * unit * 2 ^ (b.exponent - 2) := by ring
  exact_mod_cast le_of_mul_le_mul_right hscaled hpow

/-- A power of ten is written as one digit. -/
theorem value_carried (g count : Nat) (e : ℤ) :
    (if g = Nat.pow 10 count then (⟨1, e + count⟩ : Decimal) else ⟨g, e⟩).value = g * 10 ^ e := by
  split
  · next heq =>
    rw [Decimal.value, heq, zpow_add₀ (by norm_num), zpow_natCast, Nat.pow_eq]
    push_cast
    ring
  · rfl

theorem half_lt_shortestFrom (hm : 0 < b.mantissa) (hm' : b.mantissa < 2 ^ 53) {more count : Nat}
    (hcount : count + more = 17) :
    (2 : ℚ) ^ (b.exponent - 1) < (shortestFrom b count (more + 1)).value := by
  induction more generalizing count with
  | zero =>
    rw [shortestFrom]
    split
    · next g hg =>
      rw [value_carried]
      exact half_lt_of_nearest hm hg
    · next hnone => exact absurd hnone (nearest_at_seventeen hm hm' (by omega))
  | succ more ih =>
    rw [shortestFrom]
    split
    · next g hg =>
      rw [value_carried]
      exact half_lt_of_nearest hm hg
    · exact ih (by omega)

/-- **The shortest decimal of a size lies above half of its last place.** -/
theorem half_lt_shortest (hm : 0 < b.mantissa) (hm' : b.mantissa < 2 ^ 53) :
    (2 : ℚ) ^ (b.exponent - 1) < (shortest b).value :=
  half_lt_shortestFrom hm hm' rfl

end Shortest

/-! ## What is not read as zero -/

theorem roundHalfEven_pos {num den : Nat} (h : den < 2 * num) : 0 < roundHalfEven num den := by
  have hsplit := Nat.div_add_mod num den
  rw [roundHalfEven]
  rcases Nat.eq_zero_or_pos (num / den) with hzero | hpos
  · -- below one, and above a half
    rw [hzero, Nat.mul_zero, Nat.zero_add] at hsplit
    rw [hzero, hsplit, if_neg (by omega), if_neg (by omega)]
    omega
  · split
    · exact hpos
    · split
      · omega
      · omega

theorem ofRatio_ne_zero {num den : Nat} (h : den < num * 2 ^ 1075) :
    (ofRatio num den == 0) = false := by
  have hnum : num ≠ 0 := by
    intro hzero
    rw [hzero, Nat.zero_mul] at h
    exact absurd h (Nat.not_lt_zero den)
  rw [ofRatio, if_neg hnum]
  dsimp only
  generalize hexponent : max (floorLog2 num den - 52) leastExponent = exponent
  have hleast : leastExponent ≤ exponent := by
    rw [← hexponent]
    exact le_max_right _ _
  have hinfinity : infinityBits < signWeight := by decide
  apply ofBits_ne_zero
  · refine lt_min ?_ (by decide)
    rcases eq_or_lt_of_le hleast with heq | hlt
    · -- at the least exponent the mantissa is above a half
      have hround : 0 < roundHalfEven (num <<< 1074) den := by
        apply roundHalfEven_pos
        rw [Nat.shiftLeft_eq]
        omega
      rw [← heq]
      exact Nat.lt_add_left _ hround
    · have hweight : 0 < exponentWeight := by decide
      have hplace : 0 < (exponent - leastExponent).toNat := by omega
      exact Nat.add_pos_left (Nat.mul_pos hplace hweight) _
  · exact lt_of_le_of_lt (min_le_right _ _) hinfinity

theorem ten_pow_lt_half {place : ℤ} (h : place < -330) : (10 : ℚ) ^ place < 2 ^ (-1075 : ℤ) := by
  have hnat : 2 ^ 1075 < 10 ^ 331 := by decide +kernel
  have hrat : (2 : ℚ) ^ 1075 < 10 ^ 331 := by exact_mod_cast hnat
  calc (10 : ℚ) ^ place
      ≤ 10 ^ (-(331 : ℕ) : ℤ) := zpow_le_zpow_right₀ (by norm_num) (by omega)
    _ = (10 ^ 331)⁻¹ := by rw [zpow_neg, zpow_natCast]
    _ < (2 ^ 1075)⁻¹ := inv_strictAnti₀ (by positivity) hrat
    _ = 2 ^ (-(1075 : ℕ) : ℤ) := by rw [zpow_neg, zpow_natCast]

/-- **What lies above half of the least double is not read as zero.** -/
theorem ofDecimal_ne_zero {digits : Nat} {exponent : ℤ}
    (h : (2 : ℚ) ^ (-1075 : ℤ) < digits * 10 ^ exponent) :
    (ofDecimal digits exponent == 0) = false := by
  have hhalf : (0 : ℚ) < 2 ^ (-1075 : ℤ) := by positivity
  have hdigits : digits ≠ 0 := by
    rintro rfl
    rw [Nat.cast_zero, zero_mul] at h
    exact absurd h hhalf.le.not_gt
  have hplace : ¬ exponent + (Nat.toDigits 10 digits).length < -330 := by
    intro hplace
    have hcount : (digits : ℚ) < 10 ^ digitCount digits := by
      exact_mod_cast lt_ten_pow_digitCount digits
    have hpow : (0 : ℚ) < 10 ^ exponent := by positivity
    have hbelow : (digits * 10 ^ exponent : ℚ) < 10 ^ (exponent + digitCount digits) := by
      rw [zpow_add₀ (by norm_num), zpow_natCast, mul_comm]
      exact mul_lt_mul_of_pos_left hcount hpow
    exact absurd (h.trans hbelow) (ten_pow_lt_half hplace).le.not_gt
  rw [ofDecimal]
  simp only [hdigits, hplace, decide_false, Bool.or_self, Bool.false_eq_true, if_false]
  split
  · exact ofBits_ne_zero (by decide) (by decide)
  · split
    · have hsize : 0 < digits * Nat.pow 10 exponent.toNat := by
        have hpow : 0 < Nat.pow 10 exponent.toNat := Nat.pow_pos (by decide)
        exact Nat.mul_pos (Nat.pos_of_ne_zero hdigits) hpow
      have hone : 1 < 2 ^ 1075 := one_lt_pow₀ one_lt_two (by decide)
      exact ofRatio_ne_zero (lt_of_lt_of_le hone (Nat.le_mul_of_pos_left _ hsize))
    · next hneg =>
      have hten : (10 : ℚ) ^ exponent = (10 ^ (-exponent).toNat)⁻¹ := by
        rw [← zpow_natCast, ← zpow_neg]
        congr 1
        omega
      have htwo : (2 : ℚ) ^ (-1075 : ℤ) = (2 ^ 1075)⁻¹ := by
        rw [show (-1075 : ℤ) = -((1075 : ℕ) : ℤ) from rfl, zpow_neg, zpow_natCast]
      rw [hten, htwo, ← div_eq_mul_inv, lt_div_iff₀ (by positivity),
        inv_mul_lt_iff₀ (by positivity), mul_comm] at h
      apply ofRatio_ne_zero
      rw [Nat.pow_eq]
      exact_mod_cast h

end Cutscene.Number
