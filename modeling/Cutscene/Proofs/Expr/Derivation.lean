import Cutscene.Expr.Grammar

/-!
The grammar of condition expressions as rules, and the reader that follows it.

`Derives level tokens e` says that a row of tokens is an expression of a level with the tree `e`. Its
rules are written without the reader: which marks are operators of which level (`Level.Has`), which
level the operands of a level have (`Level.Over`), and one rule for every form of an expression.

What the reader takes from a row derives the tree that it gives (`derives_read`). For the converse, a
row that derives is read up to any row behind it that does not go on with an operator of a tighter
level (`reads_of_derives`); the fuel that this takes is at most ten times the number of tokens, with
one more for each level. So reading a whole row succeeds just on the rows that derive, with their
tree (`parseTokens_iff_derives`).
-/
namespace Cutscene.Expr

/-! ## The rules -/

/-- The marks of the binary operators of a level. -/
inductive Level.Has : Level → Mark → BinaryOp → Prop where
  | or : Has .or .or .or
  | and : Has .and .and .and
  | eq : Has .relational .eq .eq
  | ne : Has .relational .ne .ne
  | lt : Has .relational .lt .lt
  | le : Has .relational .le .le
  | gt : Has .relational .gt .gt
  | ge : Has .relational .ge .ge
  | add : Has .additive .plus .add
  | sub : Has .additive .minus .sub
  | mul : Has .multiplicative .star .mul
  | div : Has .multiplicative .slash .div
  | rem : Has .multiplicative .percent .rem

/-- A level of binary operators, and the level of the operands between them. -/
inductive Level.Over : Level → Level → Prop where
  | or : Over .or .and
  | and : Over .and .not
  | relational : Over .relational .additive
  | additive : Over .additive .multiplicative
  | multiplicative : Over .multiplicative .unary

/-- The tokens are an expression of the level with this tree. -/
inductive Derives : Level → List Token → Expr → Prop where
  /-- Binary operators group to the left: the left operand is of the level itself. -/
  | binary {level inner : Level} {m : Mark} {op : BinaryOp} {left right : List Token} {l r : Expr} :
      level.Over inner → level.Has m op → Derives level left l → Derives inner right r →
      Derives level (left ++ .mark m :: right) (.binary op l r)
  | single {level inner : Level} {tokens : List Token} {e : Expr} :
      level.Over inner → Derives inner tokens e → Derives level tokens e
  | not {tokens : List Token} {e : Expr} :
      Derives .not tokens e → Derives .not (.mark .not :: tokens) (.unary .not e)
  | compared {tokens : List Token} {e : Expr} : Derives .relational tokens e → Derives .not tokens e
  | minus {tokens : List Token} {e : Expr} :
      Derives .unary tokens e → Derives .unary (.mark .minus :: tokens) (.unary .neg e)
  | bang {tokens : List Token} {e : Expr} :
      Derives .unary tokens e → Derives .unary (.mark .bang :: tokens) (.unary .not e)
  /-- A plus sign leaves no trace in the tree. -/
  | plus {tokens : List Token} {e : Expr} :
      Derives .unary tokens e → Derives .unary (.mark .plus :: tokens) e
  | signless {tokens : List Token} {e : Expr} : Derives .primary tokens e → Derives .unary tokens e
  | int (n : Int64) : Derives .primary [.int n] (.literal (.int n))
  | real (x : Float) : Derives .primary [.real x] (.literal (.real x))
  | str (s : String) : Derives .primary [.str s] (.literal (.str s))
  | yes {s : String} : s = "True" ∨ s = "true" → Derives .primary [.name s] (.literal (.int 1))
  | no {s : String} : s = "False" ∨ s = "false" → Derives .primary [.name s] (.literal (.int 0))
  | none : Derives .primary [.name "None"] (.literal (.str ""))
  | grouped {tokens : List Token} {e : Expr} :
      Derives .or tokens e → Derives .primary (.mark .leftParen :: tokens ++ [.mark .rightParen]) e

/-! ## The tables of the reader -/

theorem Level.has_of_operator {level : Level} {m : Mark} {op : BinaryOp}
    (h : level.operator m = some op) : level.Has m op := by
  cases level <;> cases m <;> cases h <;> constructor

theorem Level.Has.operator {level : Level} {m : Mark} {op : BinaryOp} (h : level.Has m op) :
    level.operator m = some op := by
  cases h <;> rfl

/-- A mark is an operator of one level only. -/
theorem Level.Has.other {level other : Level} {m : Mark} {op : BinaryOp} (h : level.Has m op)
    (hne : other ≠ level) : other.operator m = Option.none := by
  cases h <;> cases other <;> first | rfl | exact absurd rfl hne

/-- The operands that tokens are: literals and keywords. -/
theorem derives_of_operand {t : Token} {e : Expr} (h : operand t = .ok e) :
    Derives .primary [t] e := by
  cases t with
  | int n => cases h; exact .int n
  | real x => cases h; exact .real x
  | str s => cases h; exact .str s
  | name s =>
    simp only [operand, keyword] at h
    split at h
    · next v hv =>
      cases h
      split at hv
      · cases hv; exact .yes (Or.inl rfl)
      · cases hv; exact .yes (Or.inr rfl)
      · cases hv; exact .no (Or.inl rfl)
      · cases hv; exact .no (Or.inr rfl)
      · cases hv; exact .none
      · cases hv
    · cases h
  | mark m => cases h
  | unknown c => cases h

/-! ## Equations of the reader -/

theorem read_over {level inner : Level} (h : level.Over inner) (fuel : Nat) (tokens : List Token) :
    read (fuel + 1) level tokens =
      (read fuel inner tokens >>= fun taken => readMore fuel level taken.1 taken.2) := by
  cases h <;> rfl

theorem read_not (fuel : Nat) (tokens : List Token) :
    read (fuel + 1) .not (.mark .not :: tokens) =
      (read fuel .not tokens >>= fun taken => pure (.unary .not taken.1, taken.2)) := rfl

theorem read_minus (fuel : Nat) (tokens : List Token) :
    read (fuel + 1) .unary (.mark .minus :: tokens) =
      (read fuel .unary tokens >>= fun taken => pure (.unary .neg taken.1, taken.2)) := rfl

theorem read_bang (fuel : Nat) (tokens : List Token) :
    read (fuel + 1) .unary (.mark .bang :: tokens) =
      (read fuel .unary tokens >>= fun taken => pure (.unary .not taken.1, taken.2)) := rfl

theorem read_compared {tokens : List Token} (h : ∀ rest, tokens ≠ .mark .not :: rest) (fuel : Nat) :
    read (fuel + 1) .not tokens = read fuel .relational tokens := by
  conv => lhs; unfold read
  split
  · exact absurd rfl (h _)
  · rfl

theorem read_signless {tokens : List Token} (hminus : ∀ rest, tokens ≠ .mark .minus :: rest)
    (hbang : ∀ rest, tokens ≠ .mark .bang :: rest) (hplus : ∀ rest, tokens ≠ .mark .plus :: rest)
    (fuel : Nat) : read (fuel + 1) .unary tokens = read fuel .primary tokens := by
  conv => lhs; unfold read
  split
  · exact absurd rfl (hminus _)
  · exact absurd rfl (hbang _)
  · exact absurd rfl (hplus _)
  · rfl

/-- A computation that succeeds has succeeded in its first step. -/
theorem exists_of_bind {α β : Type} {step : Except ExprError α} {next : α → Except ExprError β}
    {result : β} (h : (step >>= next) = .ok result) :
    ∃ mid, step = .ok mid ∧ next mid = .ok result := by
  cases step with
  | error e => cases h
  | ok mid => exact ⟨mid, rfl, h⟩

/-! ## What is read derives -/

/-- The tokens up to `rest` derive the tree. -/
def Yields (level : Level) (tokens : List Token) (e : Expr) (rest : List Token) : Prop :=
  ∃ used, tokens = used ++ rest ∧ Derives level used e

/-- The tokens up to `rest` go on from the tree `left` to the tree `e`. -/
def YieldsMore (level : Level) (left : Expr) (tokens : List Token) (e : Expr) (rest : List Token) :
    Prop :=
  ∃ used, tokens = used ++ rest ∧ ∀ before, Derives level before left → Derives level (before ++ used) e

section Sound
variable {fuel : Nat} {level : Level} {tokens rest : List Token} {e : Expr}

/-- A mark before tokens that are taken. -/
theorem Yields.mark {inner : Level} {inside : Expr} {m : Mark} (h : Yields inner tokens inside rest)
    (hrule : ∀ used, Derives inner used inside → Derives level (.mark m :: used) e) :
    Yields level (.mark m :: tokens) e rest := by
  obtain ⟨used, rfl, hused⟩ := h
  exact ⟨.mark m :: used, rfl, hrule used hused⟩

theorem yields_not (hread : ∀ level tokens e rest, read fuel level tokens = .ok (e, rest) →
      Yields level tokens e rest)
    (h : read (fuel + 1) .not tokens = .ok (e, rest)) : Yields .not tokens e rest := by
  by_cases hnot : ∃ behind, tokens = .mark .not :: behind
  · obtain ⟨behind, rfl⟩ := hnot
    rw [read_not] at h
    obtain ⟨⟨inside, mid⟩, hinside, heq⟩ := exists_of_bind h
    cases heq
    exact (hread _ _ _ _ hinside).mark fun _ => .not
  · rw [read_compared fun behind heq => hnot ⟨behind, heq⟩] at h
    obtain ⟨used, rfl, hused⟩ := hread _ _ _ _ h
    exact ⟨used, rfl, .compared hused⟩

theorem yields_unary (hread : ∀ level tokens e rest, read fuel level tokens = .ok (e, rest) →
      Yields level tokens e rest)
    (h : read (fuel + 1) .unary tokens = .ok (e, rest)) : Yields .unary tokens e rest := by
  unfold read at h
  split at h
  · obtain ⟨⟨inside, mid⟩, hinside, heq⟩ := exists_of_bind h
    cases heq
    exact (hread _ _ _ _ hinside).mark fun _ => .minus
  · obtain ⟨⟨inside, mid⟩, hinside, heq⟩ := exists_of_bind h
    cases heq
    exact (hread _ _ _ _ hinside).mark fun _ => .bang
  · exact (hread _ _ _ _ h).mark fun _ => .plus
  · obtain ⟨used, rfl, hused⟩ := hread _ _ _ _ h
    exact ⟨used, rfl, .signless hused⟩

theorem yields_primary (hread : ∀ level tokens e rest, read fuel level tokens = .ok (e, rest) →
      Yields level tokens e rest)
    (h : read (fuel + 1) .primary tokens = .ok (e, rest)) : Yields .primary tokens e rest := by
  unfold read at h
  split at h
  · obtain ⟨⟨inside, mid⟩, hinside, heq⟩ := exists_of_bind h
    obtain ⟨used, rfl, hused⟩ := hread _ _ _ _ hinside
    dsimp only at heq
    split at heq
    · cases heq
      exact ⟨.mark .leftParen :: used ++ [.mark .rightParen], by simp, .grouped hused⟩
    · cases heq
  · obtain ⟨inside, hinside, heq⟩ := exists_of_bind h
    cases heq
    exact ⟨_, rfl, derives_of_operand hinside⟩
  · cases h

theorem yieldsMore (hread : ∀ level tokens e rest, read fuel level tokens = .ok (e, rest) →
      Yields level tokens e rest) {inner : Level} (hover : level.Over inner)
    (hmore : ∀ left tokens e rest, readMore fuel level left tokens = .ok (e, rest) →
      YieldsMore level left tokens e rest) {left : Expr}
    (h : readMore (fuel + 1) level left tokens = .ok (e, rest)) :
    YieldsMore level left tokens e rest := by
  rw [readMore] at h
  split at h
  · cases h
    exact ⟨[], rfl, fun before hbefore => by rwa [List.append_nil]⟩
  · next op hop =>
    cases tokens with
    | nil => cases hop
    | cons t behind =>
      cases t with
      | mark m =>
        have htighter : level.tighter = inner := by cases hover <;> rfl
        rw [List.tail_cons, htighter] at h
        obtain ⟨⟨right, mid⟩, hright, hbehind⟩ := exists_of_bind h
        obtain ⟨used, rfl, hused⟩ := hread _ _ _ _ hright
        obtain ⟨more, rfl, hrest⟩ := hmore _ _ _ _ hbehind
        refine ⟨.mark m :: used ++ more, by simp, fun before hbefore => ?_⟩
        have hbinary := hrest _ (.binary hover (Level.has_of_operator hop) hbefore hused)
        simpa using hbinary
      | int n => cases hop
      | real x => cases hop
      | str s => cases hop
      | name s => cases hop
      | unknown c => cases hop

end Sound

/-- **What is read derives.** The induction is on the fuel, over reading a level and reading on behind
a tree together. -/
theorem derives_read (fuel : Nat) :
    (∀ level tokens e rest, read fuel level tokens = .ok (e, rest) → Yields level tokens e rest) ∧
    ∀ level inner, level.Over inner → ∀ left tokens e rest,
      readMore fuel level left tokens = .ok (e, rest) → YieldsMore level left tokens e rest := by
  induction fuel with
  | zero =>
    refine ⟨fun level tokens e rest h => ?_, fun level inner hover left tokens e rest h => ?_⟩
    · cases h
    · cases h
  | succ fuel ih =>
    obtain ⟨hread, hmore⟩ := ih
    refine ⟨fun level tokens e rest h => ?_, fun level inner hover left tokens e rest h =>
      yieldsMore hread hover (hmore level inner hover) h⟩
    have hbinary : ∀ inner, level.Over inner → Yields level tokens e rest := by
      intro inner hover
      rw [read_over hover] at h
      obtain ⟨⟨left, mid⟩, hleft, hbehind⟩ := exists_of_bind h
      obtain ⟨used, rfl, hused⟩ := hread _ _ _ _ hleft
      obtain ⟨more, rfl, hrest⟩ := hmore level inner hover _ _ _ _ hbehind
      exact ⟨used ++ more, by simp, hrest used (.single hover hused)⟩
    cases level with
    | not => exact yields_not hread h
    | unary => exact yields_unary hread h
    | primary => exact yields_primary hread h
    | or => exact hbinary .and .or
    | and => exact hbinary .not .and
    | relational => exact hbinary .additive .relational
    | additive => exact hbinary .multiplicative .additive
    | multiplicative => exact hbinary .unary .multiplicative

theorem derives_of_parseTokens {tokens : List Token} {e : Expr} (h : parseTokens tokens = .ok e) :
    Derives .or tokens e := by
  obtain ⟨⟨tree, rest⟩, hread, h⟩ := exists_of_bind h
  cases rest with
  | nil =>
    cases h
    obtain ⟨used, rfl, hused⟩ := (derives_read _).1 _ _ _ _ hread
    rwa [List.append_nil]
  | cons t rest => cases h

/-! ## What derives is read -/

/-- How many levels there are from a level to the tightest one. -/
def Level.rank : Level → Nat
  | .or => 8
  | .and => 7
  | .not => 6
  | .relational => 5
  | .additive => 4
  | .multiplicative => 3
  | .unary => 2
  | .primary => 1

theorem Level.Over.rank {level inner : Level} (h : level.Over inner) :
    level.rank = inner.rank + 1 ∧ 3 ≤ level.rank := by
  cases h <;> decide

/-- The level reads the tree from the tokens up to `rest`, with any fuel that is enough for as many
tokens. -/
def Reads (level : Level) (tokens : List Token) (e : Expr) (rest : List Token) : Prop :=
  ∀ fuel, 10 * tokens.length + level.rank ≤ fuel → read fuel level tokens = .ok (e, rest)

/-- From the tree `left` on, the level reads the tree `e` up to `rest`, with any fuel that is
enough. -/
def ReadsMore (level : Level) (left : Expr) (tokens : List Token) (e : Expr) (rest : List Token) :
    Prop :=
  ∀ fuel, 10 * tokens.length + 1 ≤ fuel → readMore fuel level left tokens = .ok (e, rest)

/-- The tokens do not go on with an operator of a tighter level. -/
def Stops (level : Level) (tokens : List Token) : Prop :=
  ∀ other : Level, other.rank < level.rank → other.leading tokens = Option.none

section Complete
variable {level inner : Level} {tokens rest mid : List Token} {e left right : Expr}

theorem readsMore_stop (h : level.leading tokens = Option.none) (left : Expr) :
    ReadsMore level left tokens left tokens := by
  intro fuel hfuel
  obtain ⟨more, rfl⟩ : ∃ more, fuel = more + 1 := ⟨fuel - 1, by omega⟩
  simp only [readMore, h]

theorem leading_eq_none (hnone : ∀ m, level.operator m = Option.none) (tokens : List Token) :
    level.leading tokens = Option.none := by
  unfold Level.leading
  split
  · exact hnone _
  · rfl

/-- A level without binary operators does not go on. -/
theorem ReadsMore.eq_of_not_over (hnone : ∀ m, level.operator m = Option.none)
    (h : ReadsMore level left tokens e rest) : e = left ∧ rest = tokens := by
  have hstop := readsMore_stop (leading_eq_none hnone tokens) left
  have heq := (h _ (Nat.le_refl _)).symm.trans (hstop _ (Nat.le_refl _))
  cases heq
  exact ⟨rfl, rfl⟩

theorem readsMore_operator {m : Mark} {op : BinaryOp} (hover : level.Over inner) (has : level.Has m op)
    (hright : Reads inner tokens right mid) (hle : mid.length ≤ tokens.length)
    (hmore : ReadsMore level (.binary op left right) mid e rest) :
    ReadsMore level left (.mark m :: tokens) e rest := by
  intro fuel hfuel
  rw [List.length_cons] at hfuel
  obtain ⟨more, rfl⟩ : ∃ more, fuel = more + 1 := ⟨fuel - 1, by omega⟩
  have hleading : level.leading (.mark m :: tokens) = some op := has.operator
  have htighter : level.tighter = inner := by cases hover <;> rfl
  have hrank : inner.rank ≤ 8 := by cases inner <;> decide
  have hinner := hright more (by omega)
  have hbehind := hmore more (by omega)
  simp only [readMore, hleading, List.tail_cons, htighter, hinner]
  exact hbehind

theorem reads_over (hover : level.Over inner) (hread : Reads inner tokens left mid)
    (hle : mid.length ≤ tokens.length) (hmore : ReadsMore level left mid e rest) :
    Reads level tokens e rest := by
  intro fuel hfuel
  obtain ⟨hrank, hlow⟩ := hover.rank
  obtain ⟨more, rfl⟩ : ∃ more, fuel = more + 1 := ⟨fuel - 1, by omega⟩
  rw [read_over hover, hread more (by omega)]
  exact hmore more (by omega)

theorem Level.rank_pos (level : Level) : 0 < level.rank := by
  cases level <;> decide

/-- A mark before an expression of the same level. -/
theorem reads_mark {m : Mark} {tree : Expr} (h : Reads level tokens e rest)
    (hstep : ∀ fuel, read fuel level tokens = .ok (e, rest) →
      read (fuel + 1) level (.mark m :: tokens) = .ok (tree, rest)) :
    Reads level (.mark m :: tokens) tree rest := by
  intro fuel hfuel
  rw [List.length_cons] at hfuel
  obtain ⟨more, rfl⟩ : ∃ more, fuel = more + 1 := ⟨fuel - 1, by omega⟩
  exact hstep more (h more (by omega))

/-- A level that leaves the tokens to a tighter one. -/
theorem reads_tighter (h : Reads inner tokens e rest) (hrank : inner.rank < level.rank)
    (hstep : ∀ fuel, read (fuel + 1) level tokens = read fuel inner tokens) :
    Reads level tokens e rest := by
  intro fuel hfuel
  obtain ⟨more, rfl⟩ : ∃ more, fuel = more + 1 := ⟨fuel - 1, by omega⟩
  rw [hstep]
  exact h more (by omega)

/-- A level that reads the tree in one step. -/
theorem reads_at_once (hstep : ∀ fuel, read (fuel + 1) level tokens = .ok (e, rest)) :
    Reads level tokens e rest := by
  intro fuel hfuel
  have hpos := level.rank_pos
  obtain ⟨more, rfl⟩ : ∃ more, fuel = more + 1 := ⟨fuel - 1, by omega⟩
  exact hstep more

/-- An expression in parentheses. -/
theorem reads_grouped
    (h : Reads .or (tokens ++ .mark .rightParen :: rest) e (.mark .rightParen :: rest)) :
    Reads .primary (.mark .leftParen :: (tokens ++ .mark .rightParen :: rest)) e rest := by
  intro fuel hfuel
  rw [List.length_cons, Level.rank] at hfuel
  obtain ⟨more, rfl⟩ : ∃ more, fuel = more + 1 := ⟨fuel - 1, by omega⟩
  have hinside := h more (by rw [Level.rank]; omega)
  simp only [read, hinside]
  rfl

/-- A level without binary operators has to read up to where it goes on. -/
theorem reads_plain {last : Expr} {behind : List Token} (hnone : ∀ m, level.operator m = Option.none)
    (h : Reads level tokens e rest) (hmore : ReadsMore level e rest last behind) :
    Reads level tokens last behind := by
  obtain ⟨rfl, rfl⟩ := hmore.eq_of_not_over hnone
  exact h

end Complete

/-- The marks with which an expression of a level may begin. -/
def Level.begins (level : Level) : Mark → Bool
  | .leftParen => true
  | .minus | .plus | .bang => 2 ≤ level.rank
  | .not => 6 ≤ level.rank
  | _ => false

/-- What a row of tokens that derives begins with. -/
theorem Derives.head {level : Level} {tokens : List Token} {e : Expr} (h : Derives level tokens e) :
    ∃ t rest, tokens = t :: rest ∧ ∀ m, t = .mark m → level.begins m = true := by
  have hlooser : ∀ {a b : Level} (m : Mark), a.rank ≤ b.rank → a.begins m = true →
      b.begins m = true := by
    intro a b m hle hbegins
    cases m <;> simp only [Level.begins, decide_eq_true_eq] at hbegins ⊢ <;> omega
  induction h with
  | binary hover has hl hr ihl ihr =>
    obtain ⟨t, rest, rfl, ht⟩ := ihl
    exact ⟨t, _, rfl, ht⟩
  | single hover _ ih =>
    obtain ⟨t, rest, rfl, ht⟩ := ih
    exact ⟨t, rest, rfl, fun m hm => hlooser m (by have := hover.rank; omega) (ht m hm)⟩
  | not | minus | bang | plus =>
    refine ⟨_, _, rfl, fun m hm => ?_⟩
    cases hm
    rfl
  | compared _ ih | signless _ ih =>
    obtain ⟨t, rest, rfl, ht⟩ := ih
    exact ⟨t, rest, rfl, fun m hm => hlooser m (by decide) (ht m hm)⟩
  | int | real | str | yes | no | none => exact ⟨_, [], rfl, by simp⟩
  | grouped =>
    refine ⟨_, _, rfl, fun m hm => ?_⟩
    cases hm
    rfl

theorem Derives.ne_mark {level : Level} {tokens : List Token} {e : Expr} (h : Derives level tokens e)
    {m : Mark} (hm : level.begins m = false) (behind rest : List Token) :
    tokens ++ behind ≠ .mark m :: rest := by
  obtain ⟨t, more, rfl, ht⟩ := h.head
  intro heq
  have hbegins := ht m (List.cons.inj heq).1
  rw [hm] at hbegins
  cases hbegins

/-- **What derives is read**, up to a row that does not go on with an operator of a tighter level; and
the level goes on behind it as it does from its tree. The induction is on the derivation: a binary
operator is met when the level reads on behind its left operand. -/
theorem reads_of_derives {level : Level} {used : List Token} {e : Expr} (h : Derives level used e) :
    ∀ {rest : List Token} {last : Expr} {behind : List Token}, Stops level rest →
      ReadsMore level e rest last behind → Reads level (used ++ rest) last behind := by
  induction h with
  | @binary level inner m op left right l r hover has hl hr ihl ihr =>
    intro rest last behind hstops hmore
    have hrank := hover.rank
    have hleading : Stops level (.mark m :: (right ++ rest)) := by
      intro other hother
      apply has.other
      rintro rfl
      omega
    have hright : Reads inner (right ++ rest) r rest := by
      apply ihr
      · exact fun other hother => hstops other (by omega)
      · exact readsMore_stop (hstops inner (by omega)) r
    have hoperator := readsMore_operator hover has hright (by simp) hmore
    have hread := ihl hleading hoperator
    simpa using hread
  | @single level inner tokens e hover h ih =>
    intro rest last behind hstops hmore
    have hrank := hover.rank
    have hinner : Reads inner (tokens ++ rest) e rest := by
      apply ih
      · exact fun other hother => hstops other (by omega)
      · exact readsMore_stop (hstops inner (by omega)) e
    exact reads_over hover hinner (by simp) hmore
  | @not tokens e h ih =>
    intro rest last behind hstops hmore
    have hinner : Reads .not (tokens ++ rest) e rest :=
      ih hstops (readsMore_stop (leading_eq_none (fun m => rfl) rest) e)
    refine reads_plain (fun m => rfl) (reads_mark hinner fun fuel hfuel => ?_) hmore
    rw [read_not, hfuel]
    rfl
  | @compared tokens e h ih =>
    intro rest last behind hstops hmore
    have hinner : Reads .relational (tokens ++ rest) e rest := by
      apply ih
      · exact fun other hother => hstops other (Nat.lt_trans hother (by decide))
      · exact readsMore_stop (hstops .relational (by decide)) e
    refine reads_plain (fun m => rfl) (reads_tighter hinner (by decide) ?_) hmore
    exact read_compared (h.ne_mark rfl rest)
  | @minus tokens e h ih =>
    intro rest last behind hstops hmore
    have hinner : Reads .unary (tokens ++ rest) e rest :=
      ih hstops (readsMore_stop (leading_eq_none (fun m => rfl) rest) e)
    refine reads_plain (fun m => rfl) (reads_mark hinner fun fuel hfuel => ?_) hmore
    rw [read_minus, hfuel]
    rfl
  | @bang tokens e h ih =>
    intro rest last behind hstops hmore
    have hinner : Reads .unary (tokens ++ rest) e rest :=
      ih hstops (readsMore_stop (leading_eq_none (fun m => rfl) rest) e)
    refine reads_plain (fun m => rfl) (reads_mark hinner fun fuel hfuel => ?_) hmore
    rw [read_bang, hfuel]
    rfl
  | @plus tokens e h ih =>
    intro rest last behind hstops hmore
    have hinner : Reads .unary (tokens ++ rest) e rest :=
      ih hstops (readsMore_stop (leading_eq_none (fun m => rfl) rest) e)
    exact reads_plain (fun m => rfl) (reads_mark hinner fun fuel hfuel => hfuel) hmore
  | @signless tokens e h ih =>
    intro rest last behind hstops hmore
    have hinner : Reads .primary (tokens ++ rest) e rest := by
      apply ih
      · exact fun other hother => hstops other (Nat.lt_trans hother (by decide))
      · exact readsMore_stop (leading_eq_none (fun m => rfl) rest) e
    refine reads_plain (fun m => rfl) (reads_tighter hinner (by decide) ?_) hmore
    exact read_signless (h.ne_mark rfl rest) (h.ne_mark rfl rest) (h.ne_mark rfl rest)
  | int | real | str | none =>
    intro rest last behind hstops hmore
    exact reads_plain (fun m => rfl) (reads_at_once fun fuel => rfl) hmore
  | yes hs | no hs =>
    intro rest last behind hstops hmore
    refine reads_plain (fun m => rfl) (reads_at_once fun fuel => ?_) hmore
    rcases hs with rfl | rfl <;> rfl
  | @grouped tokens e h ih =>
    intro rest last behind hstops hmore
    -- a closing parenthesis is no operator
    have hnone : ∀ level : Level, level.leading (.mark .rightParen :: rest) = Option.none := by
      intro level
      cases level <;> rfl
    have hinner : Reads .or (tokens ++ .mark .rightParen :: rest) e (.mark .rightParen :: rest) :=
      ih (fun other _ => hnone other) (readsMore_stop (hnone .or) e)
    have hgrouped := reads_plain (fun m => rfl) (reads_grouped hinner) hmore
    simpa using hgrouped

theorem parseTokens_of_derives {tokens : List Token} {e : Expr} (h : Derives .or tokens e) :
    parseTokens tokens = .ok e := by
  have hnone : ∀ level : Level, level.leading [] = Option.none := fun _ => rfl
  have hreads : Reads .or (tokens ++ []) e [] :=
    reads_of_derives h (fun other _ => hnone other) (readsMore_stop (hnone .or) e)
  rw [List.append_nil] at hreads
  have hread := hreads (depthFor tokens) (by simp [depthFor, Level.rank])
  rw [parseTokens, hread]
  rfl

/-- **The reader accepts the grammar.** A row of tokens is read to a tree, with nothing left over, just
if it derives as an expression with this tree; so a row has one tree at most. -/
theorem parseTokens_iff_derives (tokens : List Token) :
    (∀ e, parseTokens tokens = .ok e ↔ Derives .or tokens e) ∧
    ∀ e e', Derives .or tokens e → Derives .or tokens e' → e = e' := by
  refine ⟨fun e => ⟨derives_of_parseTokens, parseTokens_of_derives⟩, fun e e' h h' => ?_⟩
  exact Except.ok.inj ((parseTokens_of_derives h).symm.trans (parseTokens_of_derives h'))

end Cutscene.Expr
