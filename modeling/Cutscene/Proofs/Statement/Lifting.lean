import Cutscene.Proofs.Text.Glyph
import Cutscene.Proofs.Text.Written
import Cutscene.Statement.Condition

/-!
Lifting the calls out of a condition.

A condition is cut into stretches that stay and stretches that are lifted out of it, by the signs of
the things it is made of (`stretchesFrom`); a condition of characters has the parts of its stretches
(`partsFrom_eq`). Joined again the stretches are the condition (`items_stretchesFrom`), and what the
things are written as does not matter, as long as a search for calls cannot see into the words
(`stretchesFrom_written`).

In the template of a condition no word but a connective stands right before a parenthesis
(`connectives_template`), and the beginnings of markers in it are those of the markers that the
template was given, in their order (`openings_template`).
-/
namespace Cutscene.Condition

open Text

/-! ## Stretches -/

/-- A part of a condition that is made of things with signs. -/
inductive Stretch (α : Type) where
  | plain (items : List α)
  | phrase (items : List α)

variable {α β : Type}

def Stretch.items : Stretch α → List α
  | .plain items => items
  | .phrase items => items

/-- A stretch with each of its things written in some way. -/
def Stretch.written (write : α → List β) : Stretch α → Stretch β
  | .plain items => .plain (items.flatMap write)
  | .phrase items => .phrase (items.flatMap write)

/-- What a stretch that is lifted out is made of. -/
def Stretch.phrase? : Stretch α → Option (List α)
  | .plain _ => none
  | .phrase items => some items

/-- The part of a condition that a stretch of characters is. -/
def Stretch.part : Stretch Char → Part
  | .plain text => .plain text
  | .phrase text => .phrase text

/-- The part of a condition that a stretch is, with each of its things written in some way. -/
def Stretch.parted (write : α → List Char) (stretch : Stretch α) : Part := (stretch.written write).part

theorem text_parted (write : α → List Char) (piece : Stretch α) :
    (piece.parted write).text = piece.items.flatMap write := by
  cases piece <;> rfl

theorem phrases_parted (write : α → List Char) (pieces : List (Stretch α)) :
    phrases (pieces.map (Stretch.parted write)) =
      (pieces.filterMap Stretch.phrase?).map (List.flatMap write) := by
  rw [phrases, List.filterMap_map, List.map_filterMap]
  apply List.filterMap_congr
  intro piece _
  cases piece <;> rfl

/-- What stands before the first word with a parenthesis behind it, the word, and the rest from the
parenthesis on. -/
def headFrom (sign : α → Char) (before word : List α) : List α → Option (List α × List α × List α)
  | [] => none
  | x :: rest =>
    if isWord (sign x) then headFrom sign before (word ++ [x]) rest
    else if sign x = '(' && !word.isEmpty then some (before, word, x :: rest)
    else headFrom sign (before ++ word ++ [x]) [] rest

/-- The chain of calls at the start, at a depth of parentheses, and what stands behind it. -/
def chainFrom (sign : α → Char) : Nat → List α → List α × List α
  | _, [] => ([], [])
  | depth, x :: rest =>
    if sign x = '(' then (chainFrom sign (depth + 1) rest).map (x :: ·) id
    else if sign x = ')' then
      match depth with
      | 0 => ([], x :: rest)
      | outer + 1 => (chainFrom sign outer rest).map (x :: ·) id
    else if depth = 0 && endsChain (sign x) then ([], x :: rest)
    else (chainFrom sign depth rest).map (x :: ·) id

/-- The stretches of a condition, for at most so many calls and connectives. -/
def stretchesFrom (sign : α → Char) : Nat → List α → List (Stretch α)
  | 0, xs => [.plain xs]
  | more + 1, xs =>
    match headFrom sign [] [] xs with
    | none => [.plain xs]
    | some (before, word, rest) =>
      if isConnective (word.map sign) then .plain (before ++ word) :: stretchesFrom sign more rest
      else
        let receiver := before.rtakeWhile fun x => isReceiver (sign x)
        let chain := chainFrom sign 0 (receiver ++ word ++ rest)
        .plain (before.rdropWhile fun x => isReceiver (sign x)) :: .phrase chain.1 ::
          stretchesFrom sign more chain.2

/-! ## A condition of characters -/

theorem callHeadFrom_eq (before word text : List Char) :
    callHeadFrom before word text =
      (headFrom id before word text).map fun (before, word, rest) => ⟨before, word, rest⟩ := by
  fun_induction callHeadFrom before word text with
  | case1 => rfl
  | case2 before word c rest hword ih => simpa [headFrom, hword] using ih
  | case3 before word c rest hword hcall => simp_all [headFrom]
  | case4 before word c rest hword hcall ih =>
    simp only [headFrom, id_eq, hword, hcall]
    exact ih

theorem splitChain_eq (depth : Nat) (text : List Char) :
    splitChain depth text = chainFrom id depth text := by
  fun_induction splitChain depth text <;> simp_all [chainFrom]

theorem partsFrom_eq (more : Nat) (text : List Char) :
    partsFrom more text = (stretchesFrom id more text).map Stretch.part := by
  induction more generalizing text with
  | zero => rfl
  | succ more ih =>
    rw [partsFrom, stretchesFrom, callHead, callHeadFrom_eq]
    cases headFrom id [] [] text with
    | none => rfl
    | some head =>
      obtain ⟨before, word, rest⟩ := head
      simp only [Option.map_some, List.map_id_fun, id_eq]
      split
      · rw [List.map_cons, ih]
        rfl
      · rw [List.map_cons, List.map_cons, ih, splitChain_eq]
        rfl

/-! ## What the stretches are made of -/

section Stretches
variable {sign : α → Char}

theorem headFrom_some {before word xs front name rest : List α}
    (h : headFrom sign before word xs = some (front, name, rest)) :
    front ++ name ++ rest = before ++ word ++ xs ∧ name ≠ [] ∧
      ∃ x behind, rest = x :: behind ∧ sign x = '(' := by
  fun_induction headFrom sign before word xs with
  | case1 => cases h
  | case2 before word x rest hword ih =>
    obtain ⟨hjoin, hname, hrest⟩ := ih h
    exact ⟨by simpa using hjoin, hname, hrest⟩
  | case3 before word x rest hword hcall =>
    simp only [Bool.and_eq_true, decide_eq_true_eq, Bool.not_eq_true', List.isEmpty_eq_false_iff] at hcall
    cases h
    exact ⟨rfl, hcall.2, x, _, rfl, hcall.1⟩
  | case4 before word x rest hword hcall ih =>
    obtain ⟨hjoin, hname, hrest⟩ := ih h
    exact ⟨by simpa using hjoin, hname, hrest⟩

/-- The word before a parenthesis has no character but word characters. -/
theorem headFrom_word {before word xs front name rest : List α}
    (h : headFrom sign before word xs = some (front, name, rest))
    (hword : ∀ x ∈ word, isWord (sign x) = true) : ∀ x ∈ name, isWord (sign x) = true := by
  fun_induction headFrom sign before word xs with
  | case1 => cases h
  | case2 before word x rest hx ih =>
    refine ih h fun y hy => ?_
    rcases List.mem_append.mp hy with hy | hy
    · exact hword y hy
    · rwa [List.mem_singleton.mp hy]
  | case3 before word x rest hx hcall =>
    cases h
    exact hword
  | case4 before word x rest hx hcall ih => exact ih h (by simp)

theorem chainFrom_append (sign : α → Char) (depth : Nat) (xs : List α) :
    (chainFrom sign depth xs).1 ++ (chainFrom sign depth xs).2 = xs := by
  fun_induction chainFrom sign depth xs <;> simp_all

/-- The characters of words and receivers are part of a chain at any depth. -/
theorem chainFrom_cons {x : α} (h : isWord (sign x) = true ∨ isReceiver (sign x) = true)
    (depth : Nat) (rest : List α) :
    chainFrom sign depth (x :: rest) = (chainFrom sign depth rest).map (x :: ·) id := by
  have hne : ∀ c, isWord c = false → isReceiver c = false → sign x ≠ c := by
    rintro c hword hreceiver rfl
    rcases h with h | h
    · rw [hword] at h
      cases h
    · rw [hreceiver] at h
      cases h
  have hends : endsChain (sign x) = false := by
    rw [Bool.eq_false_iff]
    intro hends
    simp only [endsChain, List.contains_eq_mem, List.mem_cons, List.not_mem_nil, or_false,
      decide_eq_true_eq] at hends
    rcases hends with hc | hc | hc | hc | hc | hc | hc | hc | hc | hc | hc | hc <;>
      exact hne _ (by decide) (by decide) hc
  rw [chainFrom.eq_def]
  simp only [if_neg (hne '(' (by decide) (by decide)), if_neg (hne ')' (by decide) (by decide)), hends,
    Bool.and_false, Bool.false_eq_true, if_false]

/-- What is left behind a chain is shorter than the condition. -/
theorem length_chainFrom_lt {xs before word rest : List α}
    (h : headFrom sign [] [] xs = some (before, word, rest)) :
    (chainFrom sign 0 ((before.rtakeWhile fun x => isReceiver (sign x)) ++ word ++ rest)).2.length <
      xs.length := by
  obtain ⟨hjoin, hne, -⟩ := headFrom_some h
  have hword := headFrom_word h (by simp)
  have hlength := congrArg List.length hjoin
  have hbefore := congrArg List.length
    (List.rdropWhile_append_rtakeWhile (p := fun x => isReceiver (sign x)) (l := before))
  have hfirst : ∃ x behind, (before.rtakeWhile fun x => isReceiver (sign x)) ++ word ++ rest =
      x :: behind ∧ (isWord (sign x) = true ∨ isReceiver (sign x) = true) := by
    cases hreceiver : before.rtakeWhile fun x => isReceiver (sign x) with
    | nil =>
      obtain ⟨x, more, rfl⟩ := List.exists_cons_of_ne_nil hne
      exact ⟨x, more ++ rest, rfl, Or.inl (hword x (by simp))⟩
    | cons x more =>
      refine ⟨x, more ++ word ++ rest, rfl, Or.inr ?_⟩
      exact List.mem_rtakeWhile_imp (p := fun x => isReceiver (sign x)) (l := before)
        (by rw [hreceiver]; simp)
  obtain ⟨x, behind, hcons, hx⟩ := hfirst
  have htaken := congrArg List.length (chainFrom_append sign 0 behind)
  have hwhole := congrArg List.length hcons
  rw [hcons, chainFrom_cons hx]
  simp only [Prod.map_snd, id_eq, List.length_append, List.length_cons, List.length_nil] at *
  omega

/-- **Joined again, the stretches are the condition.** -/
theorem items_stretchesFrom (more : Nat) (xs : List α) :
    (stretchesFrom sign more xs).flatMap Stretch.items = xs := by
  induction more generalizing xs with
  | zero => simp [stretchesFrom, Stretch.items]
  | succ more ih =>
    rw [stretchesFrom]
    cases hhead : headFrom sign [] [] xs with
    | none => simp [Stretch.items]
    | some head =>
      obtain ⟨before, word, rest⟩ := head
      have hjoin : before ++ word ++ rest = xs := (headFrom_some hhead).1
      dsimp only
      split
      · rw [List.flatMap_cons, ih]
        exact hjoin
      · have hchain := chainFrom_append sign 0
          ((before.rtakeWhile fun x => isReceiver (sign x)) ++ word ++ rest)
        have hbefore := List.rdropWhile_append_rtakeWhile (p := fun x => isReceiver (sign x))
          (l := before)
        rw [List.flatMap_cons, List.flatMap_cons, ih, Stretch.items, Stretch.items, hchain,
          ← List.append_assoc, ← List.append_assoc, hbefore]
        exact hjoin

end Stretches

/-! ## Conditions that are written -/

/-- How a thing is written, for a search for calls: as one thing with its sign, or, if its sign is a
quote, as a word that a search does not end in. -/
def Sealed (sign : α → Char) (sign' : β → Char) (write : α → List β) (x : α) : Prop :=
  (∃ y, write x = [y] ∧ sign' y = sign x) ∨ sign x = '"' ∧
    ∃ first inner last, write x = first :: (inner ++ [last]) ∧ sign' first = '@' ∧ sign' last = '@' ∧
      ∀ y ∈ inner, isSpelling (sign' y) = true

theorem quiet_of_isSpelling {c : Char} (h : isSpelling c = true) :
    c ≠ '(' ∧ c ≠ ')' ∧ endsChain c = false := by
  have hne : ∀ d, isSpelling d = false → c ≠ d := by
    rintro d hd rfl
    rw [hd] at h
    cases h
  refine ⟨hne '(' (by decide), hne ')' (by decide), ?_⟩
  rw [Bool.eq_false_iff]
  intro hends
  simp only [endsChain, List.contains_eq_mem, List.mem_cons, List.not_mem_nil, or_false,
    decide_eq_true_eq] at hends
  rcases hends with hc | hc | hc | hc | hc | hc | hc | hc | hc | hc | hc | hc <;>
    exact hne _ (by decide) hc

section Written
variable {sign : α → Char} {sign' : β → Char} {write : α → List β}

/-- Where no parenthesis stands, a search for a call goes on behind the last thing that is in no
word. -/
theorem headFrom_pass {ys : List β} (h : ∀ y ∈ ys, sign' y ≠ '(') {last : β}
    (hword : isWord (sign' last) = false) (hlast : sign' last ≠ '(') (before word rest : List β) :
    headFrom sign' before word (ys ++ last :: rest) =
      headFrom sign' (before ++ word ++ ys ++ [last]) [] rest := by
  induction ys generalizing before word with
  | nil =>
    rw [List.nil_append, headFrom]
    simp [hword, hlast]
  | cons y ys ih =>
    obtain ⟨hy, hys⟩ := List.forall_mem_cons.mp h
    rw [List.cons_append, headFrom]
    cases isWord (sign' y) with
    | true =>
      rw [if_pos rfl, ih hys]
      simp
    | false =>
      rw [if_neg (by simp), if_neg (by simp [hy]), ih hys]
      simp

theorem chainFrom_pass {ys : List β}
    (h : ∀ y ∈ ys, sign' y ≠ '(' ∧ sign' y ≠ ')' ∧ endsChain (sign' y) = false) (depth : Nat)
    (rest : List β) :
    chainFrom sign' depth (ys ++ rest) = (chainFrom sign' depth rest).map (ys ++ ·) id := by
  induction ys with
  | nil => rfl
  | cons y ys ih =>
    obtain ⟨⟨hopen, hclose, hends⟩, hys⟩ := List.forall_mem_cons.mp h
    rw [List.cons_append, chainFrom.eq_def]
    simp only [if_neg hopen, if_neg hclose, hends, Bool.and_false, Bool.false_eq_true, if_false, ih hys]
    rfl

theorem Sealed.pass_head {x : α} (h : Sealed sign sign' write x) (hquote : sign x = '"')
    (before word rest : List β) :
    headFrom sign' before word (write x ++ rest) =
      headFrom sign' (before ++ word ++ write x) [] rest := by
  rcases h with ⟨y, hsingle, hy⟩ | ⟨-, first, inner, last, hword, hfirst, hlast, hinner⟩
  · have hsign : sign' y = '"' := hy.trans hquote
    have hquiet : isWord '"' = false := by decide
    rw [hsingle, List.singleton_append, headFrom]
    simp [hsign, hquiet]
  · have hquiet : ∀ y ∈ first :: inner, sign' y ≠ '(' := by
      refine List.forall_mem_cons.mpr ⟨by rw [hfirst]; decide, fun y hy => ?_⟩
      exact (quiet_of_isSpelling (hinner y hy)).1
    have hpass := headFrom_pass hquiet (by rw [hlast]; decide) (by rw [hlast]; decide) before word rest
    rw [hword]
    simpa using hpass

theorem Sealed.pass_chain {x : α} (h : Sealed sign sign' write x) (hquote : sign x = '"')
    (depth : Nat) (rest : List β) :
    chainFrom sign' depth (write x ++ rest) = (chainFrom sign' depth rest).map (write x ++ ·) id := by
  apply chainFrom_pass
  intro z hz
  have hat : ∀ y, sign' y = '@' → sign' y ≠ '(' ∧ sign' y ≠ ')' ∧ endsChain (sign' y) = false := by
    intro y hy
    rw [hy]
    decide
  rcases h with ⟨y, hsingle, hy⟩ | ⟨-, first, inner, last, hword, hfirst, hlast, hinner⟩
  · rw [hsingle, List.mem_singleton] at hz
    rw [hz, hy, hquote]
    decide
  · simp only [hword, List.mem_cons, List.mem_append, List.not_mem_nil, or_false] at hz
    rcases hz with rfl | hz | rfl
    · exact hat z hfirst
    · exact quiet_of_isSpelling (hinner z hz)
    · exact hat z hlast

/-- A thing with another sign than a quote is written as one thing. -/
theorem Sealed.single {x : α} (h : Sealed sign sign' write x) (hquote : sign x ≠ '"') :
    ∃ y, write x = [y] ∧ sign' y = sign x := by
  rcases h with hsingle | ⟨hsign, -⟩
  · exact hsingle
  · exact absurd hsign hquote

/-- A search from the ends of a text stops at the word as it does at a quote. -/
theorem Sealed.ended {p : Char → Bool} {x : α} (h : Sealed sign sign' write x) (hquote : p '"' = false)
    (hat : p '@' = false) : Ended (fun x => p (sign x)) (fun y => p (sign' y)) write x := by
  rcases h with ⟨y, hsingle, hy⟩ | ⟨hsign, first, inner, last, hword, hfirst, hlast, -⟩
  · exact Or.inl ⟨y, hsingle, congrArg p hy⟩
  · refine Or.inr ⟨?_, ⟨first, inner ++ [last], hword, ?_⟩, first :: inner, last, hword, ?_⟩
    · exact (congrArg p hsign).trans hquote
    · exact (congrArg p hfirst).trans hat
    · exact (congrArg p hlast).trans hat

theorem headFrom_written {xs : List α} (h : ∀ x ∈ xs, Sealed sign sign' write x)
    (before word : List α) (hword : (word.flatMap write).isEmpty = word.isEmpty) :
    headFrom sign' (before.flatMap write) (word.flatMap write) (xs.flatMap write) =
      (headFrom sign before word xs).map fun (front, name, rest) =>
        (front.flatMap write, name.flatMap write, rest.flatMap write) := by
  induction xs generalizing before word with
  | nil => rfl
  | cons x xs ih =>
    obtain ⟨hx, hxs⟩ := List.forall_mem_cons.mp h
    have hflush : ∀ word : List α, (before ++ word ++ [x]).flatMap write =
        before.flatMap write ++ word.flatMap write ++ write x := by
      intro word
      simp
    rw [List.flatMap_cons, headFrom]
    by_cases hquote : sign x = '"'
    · have hnext := ih hxs (before ++ word ++ [x]) [] rfl
      rw [hx.pass_head hquote, if_neg (by rw [hquote]; decide), if_neg (by simp [hquote]), ← hnext,
        hflush]
      rfl
    · obtain ⟨y, hsingle, hy⟩ := hx.single hquote
      rw [hsingle, List.singleton_append, headFrom, hy]
      cases hletter : isWord (sign x) with
      | true =>
        have hlonger : ((word ++ [x]).flatMap write).isEmpty = (word ++ [x]).isEmpty := by
          rw [List.flatMap_append, List.flatMap_singleton, hsingle,
            List.isEmpty_eq_false_iff.mpr (by simp), List.isEmpty_eq_false_iff.mpr (by simp)]
        have hnext := ih hxs before (word ++ [x]) hlonger
        rw [if_pos rfl, if_pos rfl, ← hnext]
        simp [hsingle]
      | false =>
        simp only [Bool.false_eq_true, if_false, hword]
        split
        · simp [hsingle]
        · have hnext := ih hxs (before ++ word ++ [x]) [] rfl
          rw [← hnext, hflush, hsingle]
          rfl

theorem chainFrom_written {xs : List α} (h : ∀ x ∈ xs, Sealed sign sign' write x) (depth : Nat) :
    chainFrom sign' depth (xs.flatMap write) =
      (chainFrom sign depth xs).map (List.flatMap write) (List.flatMap write) := by
  induction xs generalizing depth with
  | nil => rfl
  | cons x xs ih =>
    obtain ⟨hx, hxs⟩ := List.forall_mem_cons.mp h
    rw [List.flatMap_cons]
    by_cases hquote : sign x = '"'
    · have hquiet : ∀ y ∈ [x], sign y ≠ '(' ∧ sign y ≠ ')' ∧ endsChain (sign y) = false := by
        rw [List.forall_mem_singleton, hquote]
        decide
      have hpass : chainFrom sign depth (x :: xs) = (chainFrom sign depth xs).map (x :: ·) id :=
        chainFrom_pass hquiet depth xs
      rw [hx.pass_chain hquote, hpass, ih hxs]
      rfl
    · obtain ⟨y, hsingle, hy⟩ := hx.single hquote
      have hput : ∀ depth, (chainFrom sign' depth (xs.flatMap write)).map (y :: ·) id =
          ((chainFrom sign depth xs).map (x :: ·) id).map (List.flatMap write) (List.flatMap write) := by
        intro depth
        rw [ih hxs]
        simp only [Prod.map, List.flatMap_cons, hsingle, List.singleton_append, id_eq]
      have hstop : ([], y :: xs.flatMap write) =
          (([], x :: xs) : List α × List α).map (List.flatMap write) (List.flatMap write) := by
        simp only [Prod.map, List.flatMap_nil, List.flatMap_cons, hsingle, List.singleton_append]
      rw [hsingle, List.singleton_append]
      simp only [chainFrom.eq_def _ _ (_ :: _), hy, hput, hstop]
      split
      · rfl
      · split
        · cases depth <;> rfl
        · split <;> rfl

/-- A word is written with the same signs. -/
theorem map_flatMap_word {word : List α} (h : ∀ x ∈ word, Sealed sign sign' write x)
    (hword : ∀ x ∈ word, isWord (sign x) = true) :
    (word.flatMap write).map sign' = word.map sign := by
  rw [List.map_flatMap, List.map_eq_flatMap]
  apply List.flatMap_congr
  intro x hx
  have hquote : sign x ≠ '"' := by
    intro heq
    have hletter := hword x hx
    rw [heq] at hletter
    exact absurd hletter (by decide)
  obtain ⟨y, hsingle, hy⟩ := (h x hx).single hquote
  rw [hsingle, List.map_singleton, hy]

/-- **What the things of a condition are written as does not matter for its stretches.** -/
theorem stretchesFrom_written {xs : List α} (h : ∀ x ∈ xs, Sealed sign sign' write x) (more : Nat) :
    stretchesFrom sign' more (xs.flatMap write) =
      (stretchesFrom sign more xs).map (Stretch.written write) := by
  induction more generalizing xs with
  | zero => rfl
  | succ more ih =>
    have hhead := headFrom_written h [] [] rfl
    rw [List.flatMap_nil] at hhead
    rw [stretchesFrom, stretchesFrom, hhead]
    cases hfound : headFrom sign [] [] xs with
    | none => rfl
    | some head =>
      obtain ⟨before, word, rest⟩ := head
      obtain ⟨hjoin, -, -⟩ := headFrom_some hfound
      rw [List.nil_append, List.nil_append] at hjoin
      rw [← hjoin] at h
      obtain ⟨hfront, hrest⟩ := List.forall_mem_append.mp h
      obtain ⟨hbefore, hword⟩ := List.forall_mem_append.mp hfront
      have hsigns := map_flatMap_word hword (headFrom_word hfound (by simp))
      simp only [Option.map_some, hsigns]
      split
      · rw [ih hrest, List.map_cons, Stretch.written, List.flatMap_append]
      · have hends : ∀ x ∈ before, Ended (fun x => isReceiver (sign x))
            (fun y => isReceiver (sign' y)) write x :=
          fun x hx => (hbefore x hx).ended (by decide) (by decide)
        have hreceiver : ∀ x ∈ before.rtakeWhile fun x => isReceiver (sign x),
            Sealed sign sign' write x :=
          fun x hx => hbefore x ((List.rtakeWhile_suffix _ _).mem hx)
        have hchain := List.forall_mem_append.mpr ⟨List.forall_mem_append.mpr ⟨hreceiver, hword⟩, hrest⟩
        have hwritten := chainFrom_written hchain 0
        rw [List.flatMap_append, List.flatMap_append] at hwritten
        rw [← chainFrom_append sign 0 (_ ++ word ++ rest)] at hchain
        rw [rdropWhile_written hends, rtakeWhile_written hends, hwritten]
        simp only [Prod.map_fst, Prod.map_snd, List.map_cons, Stretch.written]
        rw [ih (List.forall_mem_append.mp hchain).2]

end Written

/-! ## Words before parentheses -/

/-- The words with a parenthesis right behind them, for a text behind the started `word`. -/
def callWordsFrom (word : List Char) : List Char → List (List Char)
  | [] => []
  | c :: rest =>
    if isWord c then callWordsFrom (word ++ [c]) rest
    else if c = '(' && !word.isEmpty then word :: callWordsFrom [] rest
    else callWordsFrom [] rest

/-- The words of a text with a parenthesis right behind them. -/
def callWords (text : List Char) : List (List Char) := callWordsFrom [] text

/-- The word that a text leaves open at its end, behind the started `word`. -/
def openWord (word text : List Char) : List Char :=
  text.foldl (fun word c => if isWord c then word ++ [c] else []) word

theorem callWordsFrom_append (word a b : List Char) :
    callWordsFrom word (a ++ b) = callWordsFrom word a ++ callWordsFrom (openWord word a) b := by
  induction a generalizing word with
  | nil => rfl
  | cons c a ih =>
    simp only [List.cons_append, callWordsFrom, openWord, List.foldl_cons, ih]
    split
    · rfl
    · split <;> rfl

theorem openWord_append (word a b : List Char) :
    openWord word (a ++ b) = openWord (openWord word a) b := List.foldl_append

/-- A text that begins with no character of a word and no parenthesis ends the word before it. -/
theorem callWordsFrom_apart {c : Char} (hword : isWord c = false) (hcall : c ≠ '(')
    (word rest : List Char) : callWordsFrom word (c :: rest) = callWordsFrom [] (c :: rest) := by
  simp [callWordsFrom, hword, hcall]

theorem callWordsFrom_word {name : List Char} (h : ∀ c ∈ name, isWord c = true) (word : List Char) :
    callWordsFrom word name = [] ∧ openWord word name = word ++ name := by
  induction name generalizing word with
  | nil => exact ⟨rfl, (List.append_nil word).symm⟩
  | cons c name ih =>
    obtain ⟨hc, hname⟩ := List.forall_mem_cons.mp h
    obtain ⟨hcalls, hopen⟩ := ih hname (word ++ [c])
    rw [openWord] at hopen
    simp [callWordsFrom, openWord, hc, hcalls, hopen]

theorem callWordsFrom_nil {text : List Char} (h : '(' ∉ text) (word : List Char) :
    callWordsFrom word text = [] := by
  induction text generalizing word with
  | nil => rfl
  | cons c text ih =>
    obtain ⟨hc, htext⟩ := List.ne_and_not_mem_of_not_mem_cons h
    simp [callWordsFrom, hc.symm, ih htext]

/-- A text that is passed over in a search for a call: no word in it has a parenthesis right behind
it, and it ends no word. -/
def Passed (text : List Char) : Prop := callWords text = [] ∧ openWord [] text = []

section Calls
variable {sign : α → Char}

theorem passed_headFrom {before word xs front name rest : List α}
    (h : headFrom sign before word xs = some (front, name, rest))
    (hword : ∀ x ∈ word, isWord (sign x) = true) (hbefore : Passed (before.map sign)) :
    Passed (front.map sign) := by
  fun_induction headFrom sign before word xs with
  | case1 => cases h
  | case2 before word x rest hx ih =>
    refine ih h (fun y hy => ?_) hbefore
    rcases List.mem_append.mp hy with hy | hy
    · exact hword y hy
    · rwa [List.mem_singleton.mp hy]
  | case3 =>
    cases h
    exact hbefore
  | case4 before word x rest hx hcall ih =>
    refine ih h (by simp) ?_
    obtain ⟨hcalls, hopen⟩ := hbefore
    have hletters : ∀ c ∈ word.map sign, isWord c = true := by simpa using hword
    obtain ⟨hnone, hpending⟩ := callWordsFrom_word hletters []
    have hcut : ¬(sign x = '(' ∧ word.map sign ≠ []) := by simpa using hcall
    rw [Passed, callWords, List.map_append, List.map_append, callWordsFrom_append,
      callWordsFrom_append, openWord_append, openWord_append, ← callWords, hcalls, hopen, hnone,
      hpending]
    simp only [List.nil_append, List.map_cons, List.map_nil, callWordsFrom, openWord, List.foldl_cons,
      List.foldl_nil, hx]
    simpa using hcut

theorem callWordsFrom_none {before word xs : List α} (h : headFrom sign before word xs = none) :
    callWordsFrom (word.map sign) (xs.map sign) = [] := by
  fun_induction headFrom sign before word xs with
  | case1 => rfl
  | case2 before word x rest hx ih =>
    simpa [callWordsFrom, hx] using ih h
  | case3 => cases h
  | case4 before word x rest hx hcall ih =>
    have hcut : ¬(sign x = '(' && !(word.map sign).isEmpty) = true := by simpa using hcall
    simp only [List.map_cons, callWordsFrom, hx, hcut]
    exact ih h

theorem headFrom_prefix {before word xs front name rest : List α}
    (h : headFrom sign before word xs = some (front, name, rest)) : before <+: front := by
  fun_induction headFrom sign before word xs with
  | case1 => cases h
  | case2 before word x rest hx ih => exact ih h
  | case3 =>
    cases h
    exact List.prefix_refl _
  | case4 before word x rest hx hcall ih =>
    have hfront := ih h
    rw [List.append_assoc] at hfront
    exact (List.prefix_append _ _).trans hfront

/-- The template of stretches in which each thing is written as its sign. -/
def signTemplate (sign : α → Char) (n : Nat) (pieces : List (Stretch α)) : List Char :=
  templateFrom n (pieces.map (Stretch.parted fun x => [sign x]))

theorem signTemplate_nil (n : Nat) : signTemplate sign n [] = [] := rfl

theorem signTemplate_plain (n : Nat) (items : List α) (pieces : List (Stretch α)) :
    signTemplate sign n (.plain items :: pieces) = items.map sign ++ signTemplate sign n pieces := by
  rw [List.map_eq_flatMap]
  rfl

theorem signTemplate_phrase (n : Nat) (items : List α) (pieces : List (Stretch α)) :
    signTemplate sign n (.phrase items :: pieces) = marker n ++ signTemplate sign (n + 1) pieces := rfl

/-- A condition that begins with a parenthesis has a template that begins with it. -/
theorem head?_template {x : α} (hx : sign x = '(') (more n : Nat) (rest : List α) :
    (signTemplate sign n (stretchesFrom sign more (x :: rest))).head? = some '(' := by
  cases more with
  | zero => simp [stretchesFrom, signTemplate_plain, hx]
  | succ more =>
    have hword : isWord (sign x) = false := by rw [hx]; decide
    have hstep : headFrom sign [] [] (x :: rest) = headFrom sign [x] [] rest := by
      simp [headFrom, hword]
    rw [stretchesFrom, hstep]
    cases hhead : headFrom sign [x] [] rest with
    | none => simp [signTemplate_plain, hx]
    | some head =>
      obtain ⟨before, word, behind⟩ := head
      obtain ⟨inner, rfl⟩ := headFrom_prefix hhead
      dsimp only
      split
      · simp [signTemplate_plain, hx]
      · -- the parenthesis is in no receiver, so it stays
        have hsplit := List.rdropWhile_append_rtakeWhile (p := fun x => isReceiver (sign x))
          (l := [x] ++ inner)
        cases hplain : ([x] ++ inner).rdropWhile fun x => isReceiver (sign x) with
        | nil =>
          rw [hplain, List.nil_append] at hsplit
          have hreceiver : isReceiver (sign x) = true :=
            List.mem_rtakeWhile_imp (p := fun x => isReceiver (sign x)) (l := [x] ++ inner)
              (by rw [hsplit]; simp)
          rw [hx] at hreceiver
          exact absurd hreceiver (by decide)
        | cons y plain =>
          rw [hplain] at hsplit
          obtain rfl : y = x := (List.cons.inj hsplit).1
          simp [signTemplate_plain, hx]

/-- A character that is no digit is in a number with texts around it only if it is in these. -/
theorem notMem_digits {c : Char} (hdigit : c.isDigit = false) {before behind : List Char}
    (hbefore : c ∉ before) (hbehind : c ∉ behind) {n : Nat} :
    c ∉ before ++ Nat.toDigits 10 n ++ behind := by
  intro hmem
  rcases List.mem_append.mp hmem with hmem | hmem
  · rcases List.mem_append.mp hmem with hmem | hmem
    · exact hbefore hmem
    · rw [isDigit_of_mem_digits hmem] at hdigit
      cases hdigit
  · exact hbehind hmem

/-- The marker of a phrase is no word and ends none. -/
theorem passed_marker (n : Nat) : Passed (marker n) := by
  have hcall : '(' ∉ marker n := notMem_digits (by decide) (by decide) (by decide)
  refine ⟨callWordsFrom_nil hcall [], ?_⟩
  have hlast : marker n = (['@', '^', 's', 't', 'a', 't', 'e', 'm', 'e', 'n', 't'] ++
      Nat.toDigits 10 n ++ ['$']) ++ ['@'] := by simp [marker]
  have hat : isWord '@' = false := by decide
  rw [hlast, openWord_append]
  simp [openWord, hat]

/-- A word with a parenthesis right behind it comes before the words behind the parenthesis. -/
theorem callWords_word {before word text : List Char} (hbefore : Passed before)
    (hword : ∀ c ∈ word, isWord c = true) (hne : word ≠ []) (hcall : text.head? = some '(') :
    callWords (before ++ (word ++ text)) = word :: callWords text := by
  obtain ⟨hcalls, hopen⟩ := hbefore
  obtain ⟨hnone, hpending⟩ := callWordsFrom_word hword []
  obtain ⟨behind, rfl⟩ := List.head?_eq_some_iff.mp hcall
  have hparenthesis : isWord '(' = false := by decide
  have hnonempty : word.isEmpty = false := List.isEmpty_eq_false_iff.mpr hne
  rw [callWords, callWordsFrom_append, ← callWords, hcalls, hopen, callWordsFrom_append, hnone, hpending]
  simp [callWords, callWordsFrom, hparenthesis, hnonempty]

/-- A marker ends the word before it, and is in no word behind it. -/
theorem callWords_marker {plain : List Char} (h : callWords plain = []) (n : Nat) (text : List Char) :
    callWords (plain ++ (marker n ++ text)) = callWords text := by
  obtain ⟨hmark, hends⟩ := passed_marker n
  have hapart : ∀ word, callWordsFrom word (marker n ++ text) = callWordsFrom [] (marker n ++ text) :=
    fun word => callWordsFrom_apart (c := '@') (by decide) (by decide) word _
  rw [callWords, callWordsFrom_append, ← callWords, h, hapart, callWordsFrom_append, ← callWords, hmark,
    hends]
  rfl

/-- **In the template of a condition no word but a connective has a parenthesis right behind it.** -/
theorem connectives_template {more : Nat} {xs : List α} (h : xs.length ≤ more) (n : Nat) :
    ∀ word ∈ callWords (signTemplate sign n (stretchesFrom sign more xs)),
      isConnective word = true := by
  induction more generalizing xs n with
  | zero =>
    obtain rfl : xs = [] := List.length_eq_zero_iff.mp (Nat.le_zero.mp h)
    rw [stretchesFrom, signTemplate_plain, signTemplate_nil]
    exact List.forall_mem_nil _
  | succ more ih =>
    rw [stretchesFrom]
    cases hhead : headFrom sign [] [] xs with
    | none =>
      have hnone : callWords (xs.map sign) = [] := callWordsFrom_none hhead
      simp only [signTemplate_plain, signTemplate_nil, List.append_nil, hnone]
      exact List.forall_mem_nil _
    | some head =>
      obtain ⟨before, word, rest⟩ := head
      obtain ⟨hjoin, hne, x, behind, rfl, hx⟩ := headFrom_some hhead
      have hpassed := passed_headFrom hhead (by simp) ⟨rfl, rfl⟩
      dsimp only
      split
      · next hconnective =>
        -- the rest begins with the parenthesis, and with nothing before it no word does
        have hshorter : (x :: behind).length ≤ more := by
          have hlength := congrArg List.length hjoin
          have hpos := List.length_pos_of_ne_nil hne
          simp only [List.length_append, List.length_nil] at hlength
          omega
        have hletters : ∀ c ∈ word.map sign, isWord c = true := by
          simpa using headFrom_word hhead (by simp)
        rw [signTemplate_plain, List.map_append, List.append_assoc,
          callWords_word hpassed hletters (by simpa using hne) (head?_template hx more n behind)]
        exact List.forall_mem_cons.mpr ⟨hconnective, ih hshorter n⟩
      · have hshorter := Nat.le_of_lt_succ (Nat.lt_of_lt_of_le (length_chainFrom_lt hhead) h)
        have hplain : callWords ((before.rdropWhile fun x => isReceiver (sign x)).map sign) = [] := by
          have hcalls := hpassed.1
          rw [← List.rdropWhile_append_rtakeWhile (p := fun x => isReceiver (sign x)) (l := before),
            List.map_append, callWords, callWordsFrom_append] at hcalls
          exact (List.append_eq_nil_iff.mp hcalls).1
        rw [signTemplate_plain, signTemplate_phrase, callWords_marker hplain]
        exact ih hshorter (n + 1)

end Calls

/-! ## Markers in a template -/

/-- The ends of a text that begin like a marker. -/
def openings (text : List Char) : List (List Char) :=
  text.tails.filter fun ending => ['@', '^'].isPrefixOf ending

theorem openings_cons {c : Char} {rest : List Char} (h : c ≠ '@' ∨ rest.head? ≠ some '^') :
    openings (c :: rest) = openings rest := by
  have hnone : ['@', '^'].isPrefixOf (c :: rest) = false := by
    rw [Bool.eq_false_iff]
    intro hbegins
    obtain ⟨hat, hcaret⟩ := List.cons_prefix_cons.mp (List.isPrefixOf_iff_prefix.mp hbegins)
    obtain ⟨more, rfl⟩ := hcaret
    rcases h with h | h
    · exact h hat.symm
    · exact h rfl
  rw [openings, List.tails_cons, List.filter_cons_of_neg (by simp [hnone])]
  rfl

theorem head?_append_ne {text rest : List Char} (h : '^' ∉ text) (hrest : rest.head? ≠ some '^') :
    (text ++ rest).head? ≠ some '^' := by
  cases text with
  | nil => exact hrest
  | cons c text =>
    intro heq
    exact h (by simp [Option.some.inj heq])

/-- A text without carets holds no beginning of a marker, unless a caret follows it. -/
theorem openings_append {text rest : List Char} (h : '^' ∉ text) (hrest : rest.head? ≠ some '^') :
    openings (text ++ rest) = openings rest := by
  induction text with
  | nil => rfl
  | cons c text ih =>
    obtain ⟨-, htext⟩ := List.ne_and_not_mem_of_not_mem_cons h
    have hnext := head?_append_ne htext hrest
    rw [List.cons_append, openings_cons (Or.inr hnext), ih htext]

theorem openings_marker (n : Nat) {rest : List Char} (hrest : rest.head? ≠ some '^') :
    openings (marker n ++ rest) = (marker n ++ rest) :: openings rest := by
  have hmarker : marker n = '@' :: '^' :: (['s', 't', 'a', 't', 'e', 'm', 'e', 'n', 't'] ++
      Nat.toDigits 10 n ++ ['$', '@']) := by simp [marker]
  have hcaret : '^' ∉ ['s', 't', 'a', 't', 'e', 'm', 'e', 'n', 't'] ++ Nat.toDigits 10 n ++
      ['$', '@'] := notMem_digits (by decide) (by decide) (by decide)
  have hinner := openings_append hcaret hrest
  rw [hmarker, List.cons_append, List.cons_append]
  rw [openings, List.tails_cons, List.filter_cons_of_pos (by rfl), ← openings,
    openings_cons (Or.inl (by decide)), hinner]

theorem head?_templateFrom {parts : List Part} (h : ∀ part ∈ parts, part.text.head? ≠ some '^')
    (n : Nat) : (templateFrom n parts).head? ≠ some '^' := by
  induction parts with
  | nil => simp [templateFrom]
  | cons part parts ih =>
    obtain ⟨hpart, hparts⟩ := List.forall_mem_cons.mp h
    cases part with
    | phrase text => simp [templateFrom, marker]
    | plain text =>
      cases text with
      | nil => exact ih hparts
      | cons c text => exact hpart

/-- **The beginnings of markers in a template are those of its markers, in their order.** -/
theorem openings_template {parts : List Part} (h : ∀ part ∈ parts, '^' ∉ part.text) (n : Nat) :
    List.Forall₂ (fun k ending => marker k <+: ending) (List.range' n (phrases parts).length)
      (openings (templateFrom n parts)) := by
  induction parts generalizing n with
  | nil => exact List.Forall₂.nil
  | cons part parts ih =>
    obtain ⟨hpart, hparts⟩ := List.forall_mem_cons.mp h
    have hhead : ∀ n, (templateFrom n parts).head? ≠ some '^' :=
      head?_templateFrom fun part hmem heq => hparts part hmem (List.mem_of_mem_head? heq)
    cases part with
    | plain text =>
      have hcaret : '^' ∉ text := hpart
      rw [templateFrom, openings_append hcaret (hhead n)]
      exact ih hparts n
    | phrase text =>
      rw [templateFrom, openings_marker n (hhead (n + 1))]
      exact List.Forall₂.cons (List.prefix_append _ _) (ih hparts (n + 1))

/-! ## Putting phrases back -/

/-- A text begins with one marker at most. -/
theorem marker_known {m n : Nat} {rest : List Char} (h : marker m <+: marker n ++ rest) : m = n := by
  obtain ⟨more, heq⟩ := h
  have hdigits : Nat.toDigits 10 m ++ '$' :: ('@' :: more) =
      Nat.toDigits 10 n ++ '$' :: ('@' :: rest) := by
    simpa [marker] using heq
  have hsame := (append_cons_inj (dollar_notMem_digits m) (dollar_notMem_digits n) hdigits).1
  calc m = Nat.ofDigitChars 10 (Nat.toDigits 10 m) 0 := Nat.ofDigitChars_ten_toDigits.symm
    _ = Nat.ofDigitChars 10 (Nat.toDigits 10 n) 0 := by rw [hsame]
    _ = n := Nat.ofDigitChars_ten_toDigits

/-- The edit that writes a phrase where its marker stands; phrases are numbered from one. -/
def puttingBack (phrases : List (List Char)) (text : List Char) : Option Edit :=
  ((List.range phrases.length).find? fun k => (marker (k + 1)).isPrefixOf text).map
    fun k => ⟨(phrases[k]?).getD [], (marker (k + 1)).length⟩

/-- A template with the phrases in the places of their markers. -/
def putBack (phrases : List (List Char)) (text : List Char) : List Char :=
  pass (puttingBack phrases) text

theorem puttingBack_none {phrases : List (List Char)} {c : Char} {rest : List Char}
    (h : c ≠ '@' ∨ rest.head? ≠ some '^') : puttingBack phrases (c :: rest) = none := by
  rw [puttingBack, Option.map_eq_none_iff, List.find?_eq_none]
  intro k _ hbegins
  obtain ⟨hat, more, rfl⟩ := List.cons_prefix_cons.mp (List.isPrefixOf_iff_prefix.mp hbegins)
  rcases h with h | h
  · exact h hat.symm
  · exact h rfl

theorem puttingBack_marker {phrases : List (List Char)} {k : Nat} {phrase : List Char}
    (hphrase : phrases[k]? = some phrase) (rest : List Char) :
    puttingBack phrases (marker (k + 1) ++ rest) = some ⟨phrase, (marker (k + 1)).length⟩ := by
  have hk : k < phrases.length := (List.getElem?_eq_some_iff.mp hphrase).1
  have hfind : ((List.range phrases.length).find? fun j =>
      (marker (j + 1)).isPrefixOf (marker (k + 1) ++ rest)) = some k := by
    cases hfound : (List.range phrases.length).find? fun j =>
        (marker (j + 1)).isPrefixOf (marker (k + 1) ++ rest) with
    | none =>
      refine absurd ?_ (List.find?_eq_none.mp hfound k (List.mem_range.mpr hk))
      exact List.isPrefixOf_iff_prefix.mpr (List.prefix_append _ _)
    | some j =>
      have hholds := List.find?_some hfound
      have hbegins : marker (j + 1) <+: marker (k + 1) ++ rest := List.isPrefixOf_iff_prefix.mp hholds
      obtain rfl : j = k := Nat.succ.inj (marker_known hbegins)
      rfl
  rw [puttingBack, hfind, Option.map_some, hphrase, Option.getD_some]

/-- A pass goes on behind what an edit takes. -/
theorem pass_word {edit : List Char → Option Edit} {word rest written : List Char} (hne : word ≠ [])
    (h : edit (word ++ rest) = some ⟨written, word.length⟩) :
    Text.pass edit (word ++ rest) = written ++ Text.pass edit rest := by
  obtain ⟨c, more, rfl⟩ := List.exists_cons_of_ne_nil hne
  rw [List.cons_append] at h ⊢
  rw [Text.pass, passFrom, h]
  simp only [List.length_cons, Nat.add_sub_cancel]
  rw [passFrom_drop, List.drop_left]
  rfl

theorem putBack_append {phrases : List (List Char)} {text rest : List Char} (h : '^' ∉ text)
    (hrest : rest.head? ≠ some '^') : putBack phrases (text ++ rest) = text ++ putBack phrases rest := by
  induction text with
  | nil => rfl
  | cons c text ih =>
    obtain ⟨-, htext⟩ := List.ne_and_not_mem_of_not_mem_cons h
    have hnext := head?_append_ne htext hrest
    rw [List.cons_append, putBack, Text.pass, passFrom, puttingBack_none (Or.inr hnext)]
    exact congrArg (c :: ·) (ih htext)

/-- **A template with its phrases put back is the condition.** The induction carries the phrases that
are put back already. -/
theorem putBack_templateFrom {parts : List Part} (h : ∀ part ∈ parts, '^' ∉ part.text)
    (done : List (List Char)) :
    putBack (done ++ phrases parts) (templateFrom (done.length + 1) parts) = parts.flatMap Part.text := by
  induction parts generalizing done with
  | nil => rfl
  | cons part parts ih =>
    obtain ⟨hpart, hparts⟩ := List.forall_mem_cons.mp h
    have hhead : ∀ n, (templateFrom n parts).head? ≠ some '^' :=
      head?_templateFrom fun part hmem heq => hparts part hmem (List.mem_of_mem_head? heq)
    cases part with
    | plain text =>
      have hcaret : '^' ∉ text := hpart
      rw [templateFrom, putBack_append hcaret (hhead _)]
      exact congrArg (text ++ ·) (ih hparts done)
    | phrase text =>
      have hnext := ih hparts (done ++ [text])
      rw [List.length_append, List.length_singleton, List.append_assoc, List.singleton_append] at hnext
      have hphrase : (done ++ text :: phrases parts)[done.length]? = some text := by simp
      have hedit := puttingBack_marker hphrase (templateFrom (done.length + 1 + 1) parts)
      rw [List.flatMap_cons, ← hnext]
      exact pass_word (by simp [marker]) hedit

end Cutscene.Condition
