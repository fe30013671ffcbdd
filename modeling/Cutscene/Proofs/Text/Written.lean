import Mathlib
import Cutscene.Text.Blank

/-!
Things written as words.

Whatever a word stands for, its ends can be seen: a search from the ends of a text stops at a word
just where it would stop at the thing that the word is written for, if the two are alike for the
search (`Ended`). So dropping characters from the ends of a text drops the things that are written
there (`dropWhile_written`, `rdropWhile_written`), and trimming a text trims the things
(`trim_written`).
-/
namespace Cutscene.Text

variable {α β : Type} {p : α → Bool} {q : β → Bool} {write : α → List β}

/-- How a thing is written, for a search that goes over what `p` or `q` holds of: as one thing like
it, or as a word whose ends stop the search as the thing does. -/
def Ended (p : α → Bool) (q : β → Bool) (write : α → List β) (x : α) : Prop :=
  (∃ y, write x = [y] ∧ q y = p x) ∨ p x = false ∧
    (∃ first more, write x = first :: more ∧ q first = false) ∧
    ∃ front last, write x = front ++ [last] ∧ q last = false

theorem dropWhile_written {xs : List α} (h : ∀ x ∈ xs, Ended p q write x) :
    (xs.flatMap write).dropWhile q = (xs.dropWhile p).flatMap write := by
  induction xs with
  | nil => rfl
  | cons x xs ih =>
    obtain ⟨hx, hxs⟩ := List.forall_mem_cons.mp h
    rw [List.flatMap_cons]
    rcases hx with ⟨y, hsingle, hy⟩ | ⟨hp, ⟨first, more, hword, hfirst⟩, -⟩
    · rw [hsingle, List.singleton_append]
      cases hp : p x with
      | true => rw [List.dropWhile_cons_of_pos (hy.trans hp), ih hxs, List.dropWhile_cons_of_pos hp]
      | false =>
        rw [List.dropWhile_cons_of_neg (by simp [hy, hp]), List.dropWhile_cons_of_neg (by simp [hp]),
          List.flatMap_cons, hsingle, List.singleton_append]
    · rw [hword, List.cons_append, List.dropWhile_cons_of_neg (by simp [hfirst]),
        List.dropWhile_cons_of_neg (by simp [hp]), List.flatMap_cons, hword, List.cons_append]

theorem rdropWhile_written {xs : List α} (h : ∀ x ∈ xs, Ended p q write x) :
    (xs.flatMap write).rdropWhile q = (xs.rdropWhile p).flatMap write := by
  induction xs using List.reverseRecOn with
  | nil => rfl
  | append_singleton xs x ih =>
    have hx := h x (by simp)
    have hxs := ih fun y hy => h y (by simp [hy])
    rw [List.flatMap_append, List.flatMap_singleton]
    rcases hx with ⟨y, hsingle, hy⟩ | ⟨hp, -, front, last, hword, hlast⟩
    · rw [hsingle]
      cases hp : p x with
      | true =>
        rw [List.rdropWhile_concat_pos q _ _ (hy.trans hp), hxs, List.rdropWhile_concat_pos p _ _ hp]
      | false =>
        rw [List.rdropWhile_concat_neg q _ _ (by simp [hy, hp]),
          List.rdropWhile_concat_neg p _ _ (by simp [hp]), List.flatMap_append,
          List.flatMap_singleton, hsingle]
    · rw [hword, ← List.append_assoc, List.rdropWhile_concat_neg q _ _ (by simp [hlast]),
        List.rdropWhile_concat_neg p _ _ (by simp [hp]), List.flatMap_append,
        List.flatMap_singleton, hword, List.append_assoc]

theorem rtakeWhile_written {xs : List α} (h : ∀ x ∈ xs, Ended p q write x) :
    (xs.flatMap write).rtakeWhile q = (xs.rtakeWhile p).flatMap write := by
  have hwhole := List.rdropWhile_append_rtakeWhile (p := q) (l := xs.flatMap write)
  rw [rdropWhile_written h] at hwhole
  have hparts : (xs.rdropWhile p).flatMap write ++ (xs.rtakeWhile p).flatMap write =
      xs.flatMap write := by
    rw [← List.flatMap_append, List.rdropWhile_append_rtakeWhile]
  exact List.append_cancel_left (hwhole.trans hparts.symm)

/-- Things without those at both ends whose signs are blanks. -/
def trimBy (sign : α → Char) (xs : List α) : List α :=
  (xs.dropWhile fun x => isBlank (sign x)).rdropWhile fun x => isBlank (sign x)

theorem trim_written {sign : α → Char} {write : α → List Char} {xs : List α}
    (h : ∀ x ∈ xs, Ended (fun x => isBlank (sign x)) isBlank write x) :
    trim (xs.flatMap write) = (trimBy sign xs).flatMap write := by
  have hrest : ∀ x ∈ xs.dropWhile fun x => isBlank (sign x),
      Ended (fun x => isBlank (sign x)) isBlank write x :=
    fun x hx => h x ((List.dropWhile_sublist _).mem hx)
  show ((xs.flatMap write).dropWhile isBlank).rdropWhile isBlank = _
  rw [dropWhile_written h, rdropWhile_written hrest, trimBy]

theorem trimBy_isInfix (sign : α → Char) (xs : List α) : trimBy sign xs <:+: xs :=
  (List.rdropWhile_prefix _ _).isInfix.trans (List.dropWhile_suffix _).isInfix

end Cutscene.Text
