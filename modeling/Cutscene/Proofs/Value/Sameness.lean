import Cutscene.Play.Value
import Cutscene.Proofs.Number.Zero

/-!
Sameness of values, and lists without repetitions.

A real that is no number is not even the same as itself, so sameness is no equivalence. But it is
transitive: of doubles, since the same doubles are equal or both zero (`compare_eq_iff`), and so of
values, by the recursion of `same` (`same_trans`). Hence a value is the same as an earlier one just if
it is the same as an earlier one that was kept, and taking the values that are the same as one already
kept out of a list is taking out those that are the same as any earlier one (`distinct_eq_firsts`).
-/
namespace Cutscene

/-! ## Doubles -/

namespace Number

open Float.Model Float.Model.UnpackedFloat

/-- Unpacked doubles compare equal if they are numbers, and equal or both zero. -/
theorem compare_eq_iff (u v : UnpackedFloat) :
    u.compare v = some .eq ↔ u ≠ .notANumber ∧ (u = v ∨ (IsZero u ∧ IsZero v)) := by
  cases u with
  | notANumber => simp [UnpackedFloat.compare]
  | infinity s =>
    cases v with
    | infinity t => cases s <;> cases t <;> simp [UnpackedFloat.compare, IsZero] <;> decide
    | _ => cases s <;> simp [UnpackedFloat.compare, IsZero]
  | zero s =>
    cases v with
    | infinity t => cases t <;> simp [UnpackedFloat.compare, IsZero]
    | finite t m e hm => cases t <;> simp [UnpackedFloat.compare, IsZero]
    | _ => simp [UnpackedFloat.compare, IsZero]
  | finite s m e hm =>
    cases v with
    | infinity t => cases s <;> cases t <;> simp [UnpackedFloat.compare, IsZero]
    | notANumber => simp [UnpackedFloat.compare, IsZero]
    | zero t => cases s <;> simp [UnpackedFloat.compare, IsZero]
    | finite t n f hn =>
      cases s <;> cases t <;>
        simp [UnpackedFloat.compare, IsZero, Ordering.swap_eq_eq, Ordering.then_eq_eq, and_comm]

theorem beq_trans {x y z : Float} (h : (x == y) = true) (h' : (y == z) = true) :
    (x == z) = true := by
  have hiff : ∀ a b : Float, (a == b) = true ↔ a.toModel.unpack.compare b.toModel.unpack = some .eq := by
    intro a b
    show (a.toModel.unpack.compare b.toModel.unpack == some Ordering.eq) = true ↔ _
    rw [beq_iff_eq]
  rw [hiff, compare_eq_iff] at *
  obtain ⟨hx, hxy⟩ := h
  obtain ⟨-, hyz⟩ := h'
  refine ⟨hx, ?_⟩
  rcases hxy with heq | ⟨hzx, hzy⟩
  · rw [heq]
    exact hyz
  · rcases hyz with heq | ⟨-, hzz⟩
    · rw [← heq]
      exact Or.inr ⟨hzx, hzy⟩
    · exact Or.inr ⟨hzx, hzz⟩

end Number

/-! ## Values -/

namespace Value

mutual

/-- **Sameness of values is transitive.** The cases are the kinds of the value in the middle, which are
those of the other two. -/
theorem same_trans : ∀ {u v w : Value}, same u v = true → same v w = true → same u w = true
  | u, .int n, w, h, h' => by cases u <;> cases w <;> simp_all [same]
  | u, .str s, w, h, h' => by cases u <;> cases w <;> simp_all [same]
  | u, .handle k, w, h, h' => by cases u <;> cases w <;> simp_all [same]
  | .real x, .real y, .real z, h, h' => Number.beq_trans h h'
  | .list xs, .list ys, .list zs, h, h' => by
    rw [same] at *
    exact sameItems_trans h h'
  | .map xs, .map ys, .map zs, h, h' => by
    rw [same] at *
    exact sameEntries_trans h h'

theorem sameItems_trans : ∀ {xs ys zs : List Value}, sameItems xs ys = true →
    sameItems ys zs = true → sameItems xs zs = true
  | [], [], _, _, h' => h'
  | x :: xs, y :: ys, z :: zs, h, h' => by
    rw [sameItems, Bool.and_eq_true] at *
    exact ⟨same_trans h.1 h'.1, sameItems_trans h.2 h'.2⟩

theorem sameEntries_trans : ∀ {xs ys zs : List (String × Value)}, sameEntries xs ys = true →
    sameEntries ys zs = true → sameEntries xs zs = true
  | [], [], _, _, h' => h'
  | (j, x) :: xs, (k, y) :: ys, (l, z) :: zs, h, h' => by
    rw [sameEntries, Bool.and_eq_true, Bool.and_eq_true, decide_eq_true_eq] at *
    exact ⟨⟨h.1.1.trans h'.1.1, same_trans h.1.2 h'.1.2⟩, sameEntries_trans h.2 h'.2⟩

end

theorem beq_trans {u v w : Value} (h : (u == v) = true) (h' : (v == w) = true) :
    (u == w) = true := same_trans h h'

end Value

/-! ## Lists without repetitions -/

namespace Play

/-- The values of a list that are not the same as an earlier one of the list. -/
def firsts (vs : List Value) : List Value :=
  (vs.zipIdx.filter fun (v, n) => !(vs.take n).any (· == v)).map Prod.fst

theorem firsts_concat (vs : List Value) (v : Value) :
    firsts (vs ++ [v]) = if vs.any (· == v) then firsts vs else firsts vs ++ [v] := by
  have hearlier : vs.zipIdx.filter (fun (w, n) => !((vs ++ [v]).take n).any (· == w)) =
      vs.zipIdx.filter fun (w, n) => !(vs.take n).any (· == w) := by
    apply List.filter_congr
    rintro ⟨w, n⟩ hmem
    have hle : n ≤ vs.length := Nat.le_of_lt (List.snd_lt_of_mem_zipIdx hmem)
    simp only [List.take_append_of_le_length hle]
  have hlast : ((vs ++ [v]).take vs.length).any (· == v) = vs.any (· == v) := by
    rw [List.take_left]
  rw [firsts, List.zipIdx_append, List.filter_append, hearlier]
  by_cases hany : vs.any (· == v) = true
  · simp [firsts, hany]
  · simp [firsts, hany]

theorem distinct_concat (vs : List Value) (v : Value) :
    distinct (vs ++ [v]) =
      if (distinct vs).any (· == v) then distinct vs else distinct vs ++ [v] := by
  rw [distinct, List.foldl_append]
  rfl

/-- A value that is the same as one of a list is the same as one that was kept. -/
theorem any_distinct (vs : List Value) (v : Value) :
    (distinct vs).any (· == v) = vs.any (· == v) := by
  induction vs using List.reverseRecOn generalizing v with
  | nil => rfl
  | append_singleton vs w ih =>
    rw [distinct_concat, List.any_append, ← ih v]
    by_cases hkept : (distinct vs).any (· == w) = true
    · -- a kept value is the same as the last one, and so the same as whatever that one is
      rw [if_pos hkept]
      by_cases hw : (w == v) = true
      · obtain ⟨u, hmem, hu⟩ := List.any_eq_true.mp hkept
        have hany : (distinct vs).any (· == v) = true :=
          List.any_eq_true.mpr ⟨u, hmem, Value.beq_trans hu hw⟩
        rw [hany, Bool.true_or]
      · simp [hw]
    · rw [if_neg hkept, List.any_append]

/-- **A repetition is a value that is the same as any earlier one.** -/
theorem distinct_eq_firsts (vs : List Value) : distinct vs = firsts vs := by
  induction vs using List.reverseRecOn with
  | nil => rfl
  | append_singleton vs v ih => rw [distinct_concat, firsts_concat, any_distinct, ih]

/-- Of values that are all different, all are kept. -/
theorem firsts_eq_self {vs : List Value} (h : vs.Pairwise fun v w => (v == w) = false) :
    firsts vs = vs := by
  induction vs using List.reverseRecOn with
  | nil => rfl
  | append_singleton vs v ih =>
    obtain ⟨hvs, -, hlast⟩ := List.pairwise_append.mp h
    have hnone : vs.any (· == v) = false := by
      apply List.any_eq_false.mpr
      intro w hw
      rw [hlast w hw v (by simp)]
      exact Bool.false_ne_true
    rw [firsts_concat, hnone, ih hvs]
    rfl

end Play

end Cutscene
