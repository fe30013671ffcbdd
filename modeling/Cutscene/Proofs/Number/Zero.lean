import Mathlib
import Cutscene.Number.Reader

/-!
Doubles that are not zero.

Whether a double is zero is a matter of its bits: the exponent and the fraction are both zero, and
the sign does not count (`isZero_unpack_iff`). Turning the sign around leaves that as it is
(`neg_beq_zero`), a double whose bits lie between those of the two zeros is not zero
(`ofBits_ne_zero`), and neither is one that has a mantissa (`mantissa_pos`).
-/
namespace Cutscene.Number

open Float.Model Float.Model.UnpackedFloat

/-- Whether an unpacked double is a zero. -/
def IsZero : UnpackedFloat → Prop
  | .zero _ => True
  | _ => False

/-- Whether packing tells a finite size from zero: the mantissa has at most 53 bits, and one that
has all of them does not need an exponent below the least. -/
def Packable : UnpackedFloat → Prop
  | .finite _ m e _ => m < 2 ^ 53 ∧ (2 ^ 52 ≤ m → leastExponent ≤ e)
  | _ => True

theorem compare_zero_iff (u : UnpackedFloat) (s : Sign) :
    u.compare (.zero s) = some .eq ↔ IsZero u := by
  cases u with
  | infinity t => cases t <;> simp [UnpackedFloat.compare, IsZero]
  | notANumber => simp [UnpackedFloat.compare, IsZero]
  | zero t => simp [UnpackedFloat.compare, IsZero]
  | finite t m e hm => cases t <;> simp [UnpackedFloat.compare, IsZero]

theorem beq_zero_iff (x : Float) : (x == 0) = true ↔ IsZero x.toModel.unpack := by
  have hzero : (0 : Float).toModel.unpack = .zero .positive := rfl
  rw [← compare_zero_iff x.toModel.unpack .positive, ← hzero]
  show (x.toModel.unpack.compare (0 : Float).toModel.unpack == some Ordering.eq) = true ↔ _
  rw [beq_iff_eq]

/-! ## Bits -/

/-- The 64 bits of a double. -/
abbrev Bits := BitVec Format.binary64.numBits

theorem unpackExponent_toNat (bits : Bits) :
    (unpackExponent bits).toNat = bits.toNat / 2 ^ 52 % 2 ^ 11 := by
  show (BitVec.cast _ (bits.extractLsb 62 52)).toNat = _
  rw [BitVec.toNat_cast, BitVec.extractLsb_toNat, Nat.shiftRight_eq_div_pow]

theorem unpackMantissa_toNat (bits : Bits) :
    (unpackMantissa bits).toNat = bits.toNat % 2 ^ 52 := by
  show (BitVec.cast _ (bits.extractLsb 51 0)).toNat = _
  rw [BitVec.toNat_cast, BitVec.extractLsb_toNat]
  simp

theorem zero_ne_ones : (0#11) ≠ -1#11 := by decide

/-- A double is zero if neither its exponent nor its fraction has a bit. -/
theorem isZero_unpack_iff (bits : Bits) :
    IsZero (UnpackedFloat.unpack .binary64 bits) ↔
      unpackExponent bits = 0#_ ∧ unpackMantissa bits = 0#_ := by
  rw [UnpackedFloat.unpack]
  by_cases hones : unpackExponent bits = -1#_
  · have hexponent : unpackExponent bits ≠ 0#_ := by
      rw [hones]
      exact zero_ne_ones.symm
    simp only [hones, if_true]
    split <;> simp_all [IsZero]
  · simp only [hones, if_false]
    split
    · split <;> simp_all [IsZero]
    · simp_all [IsZero]

theorem packable_unpack (bits : Bits) : Packable (UnpackedFloat.unpack .binary64 bits) := by
  have hm : (unpackMantissa bits).toNat < 2 ^ 52 := (unpackMantissa bits).isLt
  rw [UnpackedFloat.unpack]
  split
  · split <;> trivial
  · split
    · split
      · trivial
      · refine ⟨by omega, fun h => ?_⟩
        omega
    · next hexponent =>
      have hpos : 0 < (unpackExponent bits).toNat := by
        rcases Nat.eq_zero_or_pos (unpackExponent bits).toNat with h | h
        · exact absurd (BitVec.eq_of_toNat_eq h) hexponent
        · exact h
      have hsize : (1#1 ++ unpackMantissa bits).toNat = 2 ^ 52 + (unpackMantissa bits).toNat := by
        show 2 ^ 52 ||| (unpackMantissa bits).toNat = _
        rw [Nat.or_comm, Nat.or_two_pow_eq_add_of_lt hm, Nat.add_comm]
      refine ⟨by omega, fun _ => ?_⟩
      show (-1074 : Int) ≤ ((unpackExponent bits).toNat : Int) - (1023 + 52)
      omega

theorem packable_neg {u : UnpackedFloat} (h : Packable u) : Packable u.neg := by
  cases u with
  | finite s m e hm => exact h
  | _ => trivial

theorem isZero_neg (u : UnpackedFloat) : IsZero u.neg ↔ IsZero u := by
  cases u <;> simp [UnpackedFloat.neg, IsZero]

theorem isZero_packComponents (s : Sign) (e : BitVec 11) (m : BitVec 52) :
    IsZero (UnpackedFloat.unpack .binary64 (packComponents .binary64 s e m)) ↔
      e = 0#11 ∧ m = 0#52 := by
  rw [isZero_unpack_iff, unpackExponent_packComponents, unpackMantissa_packComponents]

theorem not_isZero_infinity (s : Sign) :
    ¬ IsZero (UnpackedFloat.unpack .binary64 (packedInfinity .binary64 s)) := by
  intro h
  exact zero_ne_ones ((isZero_packComponents s _ _).mp h).1.symm

/-- A size is packed into bits that are not those of a zero: if it has the leading bit then its
exponent is not the least one, and else its mantissa fits the fraction. -/
theorem not_isZero_finite {s : Sign} {m : Nat} {e : Int} {hm : 0 < m}
    (h : Packable (.finite s m e hm)) :
    ¬ IsZero (UnpackedFloat.unpack .binary64
      (UnpackedFloat.pack .binary64 (.finite s m e hm))) := by
  obtain ⟨hsize, hleast⟩ := h
  rw [UnpackedFloat.pack]
  dsimp only
  split
  · exact not_isZero_infinity s
  · next hbound =>
    have hbound : (e + 1023 + 52).toNat + 1 < 2 ^ 11 := Nat.lt_of_not_le hbound
    split
    · next hlog =>
      have hlog : m.log2 = 52 := Nat.succ.inj hlog
      have hlead : 2 ^ 52 ≤ m := by
        rw [← hlog]
        exact Nat.log2_self_le (Nat.pos_iff_ne_zero.mp hm)
      have hexponent : (-1074 : Int) ≤ e := hleast hlead
      intro hzero
      have hbits := congrArg BitVec.toNat ((isZero_packComponents _ _ _).mp hzero).1
      have hvalue : (e + 1023 + 52).toNat % 2 ^ 11 = 0 := hbits
      omega
    · next hlog =>
      have hfraction : m < 2 ^ 52 := by
        have hlog : m.log2 ≠ 52 := fun heq => hlog (congrArg Nat.succ heq)
        have hle : m.log2 < 53 := Nat.log2_lt (Nat.pos_iff_ne_zero.mp hm) |>.mpr hsize
        exact (Nat.log2_lt (Nat.pos_iff_ne_zero.mp hm)).mp (by omega)
      intro hzero
      have hbits := congrArg BitVec.toNat ((isZero_packComponents _ _ _).mp hzero).2
      have hvalue : m % 2 ^ 52 = 0 := hbits
      omega

/-- **Packing keeps a size apart from zero.** -/
theorem isZero_unpack_pack {u : UnpackedFloat} (h : Packable u) :
    IsZero (UnpackedFloat.unpack .binary64 (UnpackedFloat.pack .binary64 u)) ↔ IsZero u := by
  cases u with
  | notANumber =>
    refine iff_of_false (fun hzero => ?_) id
    exact zero_ne_ones ((isZero_packComponents _ _ _).mp hzero).1.symm
  | infinity s => exact iff_of_false (not_isZero_infinity s) id
  | zero s => exact iff_of_true ((isZero_packComponents s 0 0).mpr ⟨rfl, rfl⟩) trivial
  | finite s m e hm => exact iff_of_false (not_isZero_finite h) id

/-! ## Doubles -/

theorem neg_beq_zero (x : Float) : (-x == 0) = (x == 0) := by
  rw [Bool.eq_iff_iff, beq_zero_iff, beq_zero_iff]
  calc IsZero (UnpackedFloat.unpack .binary64 (UnpackedFloat.pack .binary64 x.toModel.unpack.neg))
      ↔ IsZero x.toModel.unpack.neg := isZero_unpack_pack (packable_neg (packable_unpack _))
    _ ↔ IsZero x.toModel.unpack := isZero_neg _

/-- The double of bits between those of the two zeros is not zero. -/
theorem ofBits_ne_zero {bits : Nat} (hpos : 0 < bits) (hlt : bits < signWeight) :
    (Float.ofBits bits.toUInt64 == 0) = false := by
  have hsmall : bits < 2 ^ 63 := hlt
  have hnat : (bits.toUInt64.toBitVec : Bits).toNat = bits := by
    show bits % 2 ^ 64 = bits
    omega
  rw [Bool.eq_false_iff]
  intro h
  rw [beq_zero_iff] at h
  change IsZero (UnpackedFloat.unpack .binary64 (UnpackedFloat.pack .binary64
    (UnpackedFloat.unpack .binary64 bits.toUInt64.toBitVec))) at h
  rw [isZero_unpack_pack (packable_unpack _), isZero_unpack_iff] at h
  have hexponent := congrArg BitVec.toNat h.1
  have hmantissa := congrArg BitVec.toNat h.2
  rw [unpackExponent_toNat, hnat] at hexponent
  rw [unpackMantissa_toNat, hnat] at hmantissa
  simp only [BitVec.toNat_ofNat, Nat.zero_mod] at hexponent hmantissa
  omega

/-- A size without a mantissa has no bit but its sign. -/
theorem bits_of_mantissa {x : Float} (h : (binary x).mantissa = 0) :
    x.toBits.toNat % signWeight = 0 := by
  rw [binary] at h
  split at h
  · next hbiased =>
    have hdiv := Nat.div_add_mod (x.toBits.toNat % signWeight) exponentWeight
    rw [hbiased, show x.toBits.toNat % signWeight % exponentWeight = 0 from h] at hdiv
    simpa using hdiv.symm
  · have hpos : 0 < exponentWeight := by decide
    exact absurd h (by simp only; omega)

/-- A double that is not zero has a mantissa. -/
theorem mantissa_pos {x : Float} (h : (x == 0) = false) : 0 < (binary x).mantissa := by
  rw [Nat.pos_iff_ne_zero]
  intro hmantissa
  have hbits : x.toBits.toBitVec.toNat % 2 ^ 63 = 0 := bits_of_mantissa hmantissa
  have hexponent := unpackExponent_toNat x.toBits.toBitVec
  have hfraction := unpackMantissa_toNat x.toBits.toBitVec
  rw [Bool.eq_false_iff] at h
  refine h ((beq_zero_iff x).mpr ((isZero_unpack_iff _).mpr ⟨?_, ?_⟩))
  · apply BitVec.eq_of_toNat_eq
    exact hexponent.trans (by simp only [BitVec.toNat_ofNat]; omega)
  · apply BitVec.eq_of_toNat_eq
    exact hfraction.trans (by simp only [BitVec.toNat_ofNat]; omega)

end Cutscene.Number
