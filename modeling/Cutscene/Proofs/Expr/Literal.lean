import Cutscene.Expr.ObjectLiteral
import Cutscene.Proofs.Expr.Derivation
import Cutscene.Proofs.Keyed.Entries

/-!
The grammar of object literals as rules, and the reader that follows it.

`Denotes tokens v` says that a row of tokens is an object literal with the value `v`. The parts of a map
and of a list are separated by commas, with one behind the last part if the writer likes
(`Separated`); under a repeated key the last binding counts (`Binds`).

What the reader takes from a row denotes the value that it gives (`denotes_read`). For the converse, a
row that denotes a value is read up to any row behind it, and the fuel that this takes is twice its
length (`reads_of_denotes`). So the reader accepts just the rows that denote a value, with this value
(`parseLiteralTokens_iff_denotes`).
-/
namespace Cutscene.Expr

/-! ## The rules -/

/-- Parts with commas between them. Behind the last one a comma may stand. -/
inductive Separated {α : Type} (Part : List Token → α → Prop) : List Token → List α → Prop where
  | none : Separated Part [] []
  | last {tokens : List Token} {a : α} : Part tokens a → Separated Part tokens [a]
  | more {tokens rest : List Token} {a : α} {as : List α} : Part tokens a → Separated Part rest as →
      Separated Part (tokens ++ .mark .comma :: rest) (a :: as)

/-- The token is a key, with this text. -/
inductive IsKey : Token → String → Prop where
  | name (s : String) : IsKey (.name s) s
  | str (s : String) : IsKey (.str s) s
  | int (n : Int64) : IsKey (.int n) (Number.integerText n)

/-- A key and a value with a colon between them. -/
inductive Binding (Val : List Token → Value → Prop) : List Token → String × Value → Prop where
  | mk {t : Token} {key : String} {tokens : List Token} {v : Value} : IsKey t key → Val tokens v →
      Binding Val (t :: .mark .colon :: tokens) (key, v)

/-- The entries hold under every key what was bound to it last. -/
def Binds (bindings : List (String × Value)) (entries : Keyed Value) : Prop :=
  entries.Ordered ∧ ∀ key, entries.find? key = bindings.reverse.lookup key

/-- The tokens are an object literal with this value. -/
inductive Denotes : List Token → Value → Prop where
  | int (n : Int64) : Denotes [.int n] (.int n)
  | real (x : Float) : Denotes [.real x] (.real x)
  | str (s : String) : Denotes [.str s] (.str s)
  | negInt (n : Int64) : Denotes [.mark .minus, .int n] (.int (-n))
  | negReal (x : Float) : Denotes [.mark .minus, .real x] (.real (-x))
  | yes {s : String} : s = "True" ∨ s = "true" → Denotes [.name s] (.int 1)
  | no {s : String} : s = "False" ∨ s = "false" → Denotes [.name s] (.int 0)
  | none : Denotes [.name "None"] (.str "")
  /-- A name that is no keyword is its own text. -/
  | name {s : String} : s ∉ ["True", "true", "False", "false", "None"] → Denotes [.name s] (.str s)
  | map {tokens : List Token} {bindings : List (String × Value)} {entries : Keyed Value} :
      Separated (Binding Denotes) tokens bindings → Binds bindings entries →
      Denotes (.mark .leftBrace :: tokens ++ [.mark .rightBrace]) (.map entries)
  | list {tokens : List Token} {items : List Value} : Separated Denotes tokens items →
      Denotes (.mark .leftBracket :: tokens ++ [.mark .rightBracket]) (.list items)

/-! ## Tables of the reader -/

theorem key_eq_some_iff {t : Token} {k : String} : key t = some k ↔ IsKey t k := by
  constructor
  · intro h
    cases t <;> cases h <;> constructor
  · rintro (_ | _ | _) <;> rfl

/-- The value of a name, as a keyword or as its own text. -/
theorem denotes_name (s : String) : Denotes [.name s] ((keyword s).getD (.str s)) := by
  unfold keyword
  split
  · exact .yes (Or.inl rfl)
  · exact .yes (Or.inr rfl)
  · exact .no (Or.inl rfl)
  · exact .no (Or.inr rfl)
  · exact .none
  · next h₁ h₂ h₃ h₄ h₅ =>
    refine .name fun hmem => ?_
    simp only [List.mem_cons, List.not_mem_nil, or_false] at hmem
    rcases hmem with h | h | h | h | h
    · exact h₁ h
    · exact h₂ h
    · exact h₃ h
    · exact h₄ h
    · exact h₅ h

theorem keyword_eq_none {s : String} (h : s ∉ ["True", "true", "False", "false", "None"]) :
    keyword s = Option.none := by
  simp only [List.mem_cons, List.not_mem_nil, or_false, not_or] at h
  obtain ⟨h₁, h₂, h₃, h₄, h₅⟩ := h
  simp [keyword]

theorem binds_ofList (bindings : List (String × Value)) : Binds bindings (Keyed.ofList bindings) :=
  ⟨Keyed.ordered_ofList bindings, Keyed.find?_ofList bindings⟩

/-- Bindings say all about the entries. -/
theorem Binds.eq_ofList {bindings : List (String × Value)} {entries : Keyed Value}
    (h : Binds bindings entries) : entries = Keyed.ofList bindings := by
  obtain ⟨hordered, hfind⟩ := h
  apply Keyed.eq_of_find? hordered (Keyed.ordered_ofList bindings)
  intro key
  rw [hfind, Keyed.find?_ofList]

/-! ## Equations of the reader

The loops over the entries of a map and over the items of a list go on in the same way behind a part. -/

/-- What is read behind a part: more parts behind a comma, or the closing mark. -/
def goOn {α : Type} (closing : Mark) (fault : ExprError)
    (more : List Token → Except ExprError (List α × List Token)) (a : α) :
    List Token → Except ExprError (List α × List Token)
  | .mark m :: rest =>
    if m = .comma then more rest >>= fun taken => pure (a :: taken.1, taken.2)
    else if m = closing then pure ([a], rest)
    else throw fault
  | _ => throw fault

theorem readItems_close (fuel : Nat) (rest : List Token) :
    readItems (fuel + 1) (.mark .rightBracket :: rest) = .ok ([], rest) := rfl

theorem readEntries_close (fuel : Nat) (rest : List Token) :
    readEntries (fuel + 1) (.mark .rightBrace :: rest) = .ok ([], rest) := rfl

theorem readItems_open {tokens : List Token} (h : ∀ rest, tokens ≠ .mark .rightBracket :: rest)
    (fuel : Nat) : readItems (fuel + 1) tokens =
      (readValue fuel tokens >>= fun taken =>
        goOn .rightBracket .listSeparator (readItems fuel) taken.1 taken.2) := by
  rw [readItems]
  · cases readValue fuel tokens with
    | error e => rfl
    | ok taken =>
      obtain ⟨v, mid⟩ := taken
      rcases mid with _ | ⟨t, mid⟩
      · rfl
      · cases t with
        | mark m => cases m <;> rfl
        | _ => rfl
  · exact h

theorem readEntries_open {t : Token} {k : String} (h : key t = some k) (tokens : List Token)
    (fuel : Nat) : readEntries (fuel + 1) (t :: .mark .colon :: tokens) =
      (readValue fuel tokens >>= fun taken =>
        goOn .rightBrace .mapSeparator (readEntries fuel) (k, taken.1) taken.2) := by
  have hclose : ∀ rest, t :: .mark .colon :: tokens ≠ .mark .rightBrace :: rest := by
    rintro rest heq
    cases heq
    cases h
  rw [readEntries]
  · simp only [List.head?_cons, Option.bind_some, h, List.tail_cons]
    cases readValue fuel tokens with
    | error e => rfl
    | ok taken =>
      obtain ⟨v, mid⟩ := taken
      rcases mid with _ | ⟨t, mid⟩
      · rfl
      · cases t with
        | mark m => cases m <;> rfl
        | _ => rfl
  · exact hclose

/-- Entries that are read begin with their closing brace, or with a key and a colon. -/
theorem readEntries_ok {fuel : Nat} {tokens rest : List Token} {bindings : List (String × Value)}
    (h : readEntries (fuel + 1) tokens = .ok (bindings, rest)) :
    tokens = .mark .rightBrace :: rest ∧ bindings = [] ∨
      ∃ t k behind, tokens = t :: .mark .colon :: behind ∧ key t = some k := by
  by_cases hclose : ∃ behind, tokens = .mark .rightBrace :: behind
  · obtain ⟨behind, rfl⟩ := hclose
    cases h
    exact .inl ⟨rfl, rfl⟩
  · rw [readEntries] at h
    · split at h
      · cases h
      · next k hkey =>
        cases tokens with
        | nil => cases hkey
        | cons t more =>
          rw [List.tail_cons] at h
          split at h
          · exact .inr ⟨t, k, _, rfl, hkey⟩
          · cases h
    · exact fun behind heq => hclose ⟨behind, heq⟩

/-! ## What is read denotes -/

/-- The tokens up to `rest` are a literal with the value. -/
def Gives (tokens : List Token) (v : Value) (rest : List Token) : Prop :=
  ∃ used, tokens = used ++ rest ∧ Denotes used v

/-- The tokens up to a closing mark, with `rest` behind it, are parts with commas between them. -/
def GivesParts {α : Type} (Part : List Token → α → Prop) (closing : Mark) (tokens : List Token)
    (as : List α) (rest : List Token) : Prop :=
  ∃ used, tokens = used ++ .mark closing :: rest ∧ Separated Part used as

theorem givesParts_goOn {α : Type} {Part : List Token → α → Prop} {closing : Mark}
    {fault : ExprError} {more : List Token → Except ExprError (List α × List Token)}
    (hmore : ∀ tokens as rest, more tokens = .ok (as, rest) → GivesParts Part closing tokens as rest)
    {used tokens rest : List Token} {a : α} {as : List α} (hpart : Part used a)
    (h : goOn closing fault more a tokens = .ok (as, rest)) :
    GivesParts Part closing (used ++ tokens) as rest := by
  unfold goOn at h
  split at h
  · next m behind =>
    split at h
    · next hcomma =>
      subst hcomma
      obtain ⟨⟨others, mid⟩, hread, heq⟩ := exists_of_bind h
      cases heq
      obtain ⟨further, rfl, hfurther⟩ := hmore _ _ _ hread
      exact ⟨used ++ .mark .comma :: further, by simp, .more hpart hfurther⟩
    · split at h
      · next hclosing =>
        subst hclosing
        cases h
        exact ⟨used, rfl, .last hpart⟩
      · cases h
  · cases h

section Sound
variable {fuel : Nat} {tokens rest : List Token}

theorem gives_readValue {v : Value}
    (hentries : ∀ tokens bindings rest, readEntries fuel tokens = .ok (bindings, rest) →
      GivesParts (Binding Denotes) .rightBrace tokens bindings rest)
    (hitems : ∀ tokens items rest, readItems fuel tokens = .ok (items, rest) →
      GivesParts Denotes .rightBracket tokens items rest)
    (h : readValue (fuel + 1) tokens = .ok (v, rest)) : Gives tokens v rest := by
  unfold readValue at h
  split at h
  · cases h; exact ⟨_, rfl, .int _⟩
  · cases h; exact ⟨_, rfl, .real _⟩
  · cases h; exact ⟨_, rfl, .str _⟩
  · cases h; exact ⟨_, rfl, denotes_name _⟩
  · cases h; exact ⟨[.mark .minus, .int _], rfl, .negInt _⟩
  · cases h; exact ⟨[.mark .minus, .real _], rfl, .negReal _⟩
  · cases h
  · obtain ⟨⟨bindings, mid⟩, hread, heq⟩ := exists_of_bind h
    cases heq
    obtain ⟨used, rfl, hused⟩ := hentries _ _ _ hread
    exact ⟨.mark .leftBrace :: used ++ [.mark .rightBrace], by simp, .map hused (binds_ofList bindings)⟩
  · obtain ⟨⟨items, mid⟩, hread, heq⟩ := exists_of_bind h
    cases heq
    obtain ⟨used, rfl, hused⟩ := hitems _ _ _ hread
    exact ⟨.mark .leftBracket :: used ++ [.mark .rightBracket], by simp, .list hused⟩
  · cases h

theorem gives_readEntries {bindings : List (String × Value)}
    (hvalue : ∀ tokens v rest, readValue fuel tokens = .ok (v, rest) → Gives tokens v rest)
    (hentries : ∀ tokens bindings rest, readEntries fuel tokens = .ok (bindings, rest) →
      GivesParts (Binding Denotes) .rightBrace tokens bindings rest)
    (h : readEntries (fuel + 1) tokens = .ok (bindings, rest)) :
    GivesParts (Binding Denotes) .rightBrace tokens bindings rest := by
  rcases readEntries_ok h with ⟨rfl, rfl⟩ | ⟨t, k, behind, rfl, hkey⟩
  · exact ⟨[], rfl, .none⟩
  · rw [readEntries_open hkey] at h
    obtain ⟨⟨v, mid⟩, hread, hnext⟩ := exists_of_bind h
    obtain ⟨used, rfl, hused⟩ := hvalue _ _ _ hread
    have hpart : Binding Denotes (t :: .mark .colon :: used) (k, v) :=
      .mk (key_eq_some_iff.mp hkey) hused
    exact givesParts_goOn hentries hpart hnext

theorem gives_readItems {items : List Value}
    (hvalue : ∀ tokens v rest, readValue fuel tokens = .ok (v, rest) → Gives tokens v rest)
    (hitems : ∀ tokens items rest, readItems fuel tokens = .ok (items, rest) →
      GivesParts Denotes .rightBracket tokens items rest)
    (h : readItems (fuel + 1) tokens = .ok (items, rest)) :
    GivesParts Denotes .rightBracket tokens items rest := by
  by_cases hclose : ∃ behind, tokens = .mark .rightBracket :: behind
  · obtain ⟨behind, rfl⟩ := hclose
    cases h
    exact ⟨[], rfl, .none⟩
  · rw [readItems_open fun behind heq => hclose ⟨behind, heq⟩] at h
    obtain ⟨⟨v, mid⟩, hread, hnext⟩ := exists_of_bind h
    obtain ⟨used, rfl, hused⟩ := hvalue _ _ _ hread
    exact givesParts_goOn hitems hused hnext

end Sound

/-- **What is read denotes.** The induction is on the fuel, over values, entries and items together. -/
theorem denotes_read (fuel : Nat) :
    (∀ tokens v rest, readValue fuel tokens = .ok (v, rest) → Gives tokens v rest) ∧
    (∀ tokens bindings rest, readEntries fuel tokens = .ok (bindings, rest) →
      GivesParts (Binding Denotes) .rightBrace tokens bindings rest) ∧
    ∀ tokens items rest, readItems fuel tokens = .ok (items, rest) →
      GivesParts Denotes .rightBracket tokens items rest := by
  induction fuel with
  | zero =>
    refine ⟨fun tokens v rest h => ?_, fun tokens bindings rest h => ?_, fun tokens items rest h => ?_⟩
    · cases h
    · cases h
    · cases h
  | succ fuel ih =>
    obtain ⟨hvalue, hentries, hitems⟩ := ih
    exact ⟨fun tokens v rest => gives_readValue hentries hitems,
      fun tokens bindings rest => gives_readEntries hvalue hentries,
      fun tokens items rest => gives_readItems hvalue hitems⟩

/-! ## What denotes is read -/

/-- A literal does not begin with a mark that closes one. -/
theorem Denotes.ne_closing {used : List Token} {v : Value} (h : Denotes used v) (behind : List Token) :
    ∀ rest, used ++ behind ≠ .mark .rightBracket :: rest := by
  intro rest heq
  cases h <;> cases heq

/-- The value is read from the tokens up to any row behind them, with fuel for twice as many tokens. -/
def ReadFrom (used : List Token) (v : Value) : Prop :=
  ∀ fuel rest, 2 * used.length ≤ fuel → readValue fuel (used ++ rest) = .ok (v, rest)

/-- **Parts are read one after the other**, if each part is read and the loop goes on behind it. The
induction is on the parts. -/
theorem reads_parts (fault : ExprError) {α : Type} {Part : List Token → α → Prop} {closing : Mark}
    {readParts : Nat → List Token → Except ExprError (List α × List Token)}
    (hcomma : closing ≠ .comma)
    (hclosed : ∀ fuel rest, readParts (fuel + 1) (.mark closing :: rest) = .ok ([], rest))
    {used : List Token} {as : List α} (h : Separated Part used as)
    (hpart : ∀ part a, Part part a → part.length ≤ used.length → ∀ fuel rest,
      2 * part.length ≤ fuel →
      readParts (fuel + 1) (part ++ rest) = goOn closing fault (readParts fuel) a rest) :
    ∀ fuel rest, 2 * used.length + 1 ≤ fuel →
      readParts fuel (used ++ .mark closing :: rest) = .ok (as, rest) := by
  induction h with
  | none =>
    intro fuel rest hfuel
    obtain ⟨more, rfl⟩ : ∃ more, fuel = more + 1 := ⟨fuel - 1, by omega⟩
    exact hclosed more rest
  | @last tokens a ha =>
    intro fuel rest hfuel
    obtain ⟨more, rfl⟩ : ∃ more, fuel = more + 1 := ⟨fuel - 1, by omega⟩
    rw [hpart tokens a ha (Nat.le_refl _) more _ (by omega), goOn, if_neg hcomma, if_pos rfl]
    rfl
  | @more tokens others a as ha _ ih =>
    intro fuel rest hfuel
    rw [List.length_append, List.length_cons] at hfuel
    obtain ⟨more, rfl⟩ : ∃ more, fuel = more + 1 := ⟨fuel - 1, by omega⟩
    have hothers := ih (fun part b hb hle => hpart part b hb (by
      rw [List.length_append, List.length_cons]
      omega)) more rest (by omega)
    rw [List.append_assoc, List.cons_append,
      hpart tokens a ha (by simp) more _ (by omega), goOn, if_pos rfl, hothers]
    rfl

/-- **What denotes is read.** The induction is on the number of tokens: the parts of a map or a list have
fewer. -/
theorem reads_of_denotes {used : List Token} {v : Value} (h : Denotes used v) : ReadFrom used v := by
  induction hlength : used.length using Nat.strong_induction_on generalizing used v with
  | _ n ih =>
    intro fuel rest hfuel
    have hpos : 0 < used.length := by
      cases h <;> simp
    obtain ⟨more, rfl⟩ : ∃ more, fuel = more + 1 := ⟨fuel - 1, by omega⟩
    cases h with
    | int | real | str | negInt | negReal | none => rfl
    | yes hs | no hs => rcases hs with rfl | rfl <;> rfl
    | name hs =>
      rw [List.singleton_append, readValue, keyword_eq_none hs]
      rfl
    | @map tokens bindings entries hparts hbinds =>
      simp only [List.length_append, List.length_cons, List.length_nil] at hlength hfuel
      have hread : readEntries more (tokens ++ .mark .rightBrace :: rest) = .ok (bindings, rest) := by
        apply reads_parts .mapSeparator (by decide) readEntries_close hparts ?_ more rest (by omega)
        rintro part ⟨k, v⟩ ⟨hkey, hval⟩ hle fuel behind hfuel
        simp only [List.length_cons] at hle hfuel
        rw [List.cons_append, List.cons_append, readEntries_open (key_eq_some_iff.mpr hkey),
          ih _ (by omega) hval rfl fuel behind (by omega)]
        rfl
      rw [hbinds.eq_ofList, List.append_assoc, List.cons_append, List.singleton_append, readValue, hread]
      rfl
    | @list tokens items hparts =>
      simp only [List.length_append, List.length_cons, List.length_nil] at hlength hfuel
      have hread : readItems more (tokens ++ .mark .rightBracket :: rest) = .ok (items, rest) := by
        apply reads_parts .listSeparator (by decide) readItems_close hparts ?_ more rest (by omega)
        intro part v hval hle fuel behind hfuel
        rw [readItems_open (hval.ne_closing behind),
          ih _ (by omega) hval rfl fuel behind (by omega)]
        rfl
      rw [List.append_assoc, List.cons_append, List.singleton_append, readValue, hread]
      rfl

theorem denotes_of_parseLiteralTokens {tokens : List Token} {v : Value}
    (h : parseLiteralTokens tokens = .ok v) : Denotes tokens v := by
  obtain ⟨⟨value, rest⟩, hread, h⟩ := exists_of_bind h
  cases rest with
  | nil =>
    cases h
    obtain ⟨used, rfl, hused⟩ := (denotes_read _).1 _ _ _ hread
    rwa [List.append_nil]
  | cons t rest => cases h

theorem parseLiteralTokens_of_denotes {tokens : List Token} {v : Value} (h : Denotes tokens v) :
    parseLiteralTokens tokens = .ok v := by
  have hread := reads_of_denotes h (2 * tokens.length + 2) [] (by omega)
  rw [List.append_nil] at hread
  rw [parseLiteralTokens, hread]
  rfl

/-- **The reader accepts the grammar of object literals.** A row of tokens is read to a value, with
nothing left over, just if it denotes this value; so a row denotes one value at most. -/
theorem parseLiteralTokens_iff_denotes (tokens : List Token) :
    (∀ v, parseLiteralTokens tokens = .ok v ↔ Denotes tokens v) ∧
    ∀ v v', Denotes tokens v → Denotes tokens v' → v = v' := by
  refine ⟨fun v => ⟨denotes_of_parseLiteralTokens, parseLiteralTokens_of_denotes⟩, fun v v' h h' => ?_⟩
  exact Except.ok.inj
    ((parseLiteralTokens_of_denotes h).symm.trans (parseLiteralTokens_of_denotes h'))

end Cutscene.Expr
