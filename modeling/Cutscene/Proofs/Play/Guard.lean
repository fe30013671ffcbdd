import Mathlib
import Cutscene.Play.Run
import Cutscene.Proofs.Expr.Quoting
import Cutscene.Proofs.Play.Splice

/-!
Conditions that are a single call.

The value of the call is put into the condition as text, and the text is read as an expression. So
the condition holds just if the value counts as true and so does what its text is read as
(`meetsAlone_iff`). For integers and finite reals that is the same (`evalCondition_integerText`,
`evalCondition_shown`). The text of a list, of a map or of a real that is not finite is no
expression, and neither is that of a handle, unless a quote in its kind hides the colon
(`colon_mem_tokenize`). A text is read for what it says.
-/
namespace Cutscene.Play

open Text Cutscene.Expr

/-! ## Texts that are no expressions -/

theorem not_ok_of_token {text : List Char} {t : Token} (hmem : t ∈ tokenize text)
    (ht : t.isAdmitted = false) (met : Bool) : evalCondition text ≠ .ok met := by
  intro h
  rw [evalCondition, evalText] at h
  cases hparse : parse text with
  | error fault => rw [hparse] at h; cases h
  | ok e =>
    have hadmitted := admitted_of_parse hparse t hmem
    rw [ht] at hadmitted
    cases hadmitted

theorem not_ok_of_first {c : Char} {rest : List Char} (hblank : isBlank c = false)
    (h : (readToken c rest).1.isAdmitted = false) (met : Bool) :
    evalCondition (c :: rest) ≠ .ok met := by
  have hmem : (readToken c rest).1 ∈ tokenize (c :: rest) := by
    rw [tokenize_cons hblank]
    exact List.mem_cons_self
  exact not_ok_of_token hmem h met

theorem not_ok_list (items : List Value) (met : Bool) :
    evalCondition (Value.list items).text.toList ≠ .ok met := by
  have htext : (Value.list items).text.toList =
      '[' :: (String.intercalate ", " (Value.texts items) ++ "]").toList := by
    simp [Value.text]
  rw [htext]
  generalize (String.intercalate ", " (Value.texts items) ++ "]").toList = rest
  apply not_ok_of_first (by decide)
  cases rest <;> rfl

theorem not_ok_map (entries : List (String × Value)) (met : Bool) :
    evalCondition (Value.map entries).text.toList ≠ .ok met := by
  have htext : (Value.map entries).text.toList =
      '\x7b' :: (String.intercalate ", " (Value.entryTexts entries) ++ "\x7d").toList := by
    simp [Value.text]
  rw [htext]
  generalize (String.intercalate ", " (Value.entryTexts entries) ++ "\x7d").toList = rest
  apply not_ok_of_first (by decide)
  cases rest <;> rfl

/-- A name that is no keyword begins the text of a real that is not finite. -/
theorem not_ok_named {x : Float} (h : x.isFinite = false) (met : Bool) :
    evalCondition (Value.real x).text.toList ≠ .ok met := by
  have hnamed : x.isNaN = true ∨ x.isInf = true := by
    have hnot : ¬ (x.isNaN = false ∧ x.isInf = false) := by
      rw [← Number.isFinite_iff, h]
      decide
    revert hnot
    cases x.isNaN <;> cases x.isInf <;> simp
  obtain ⟨sign, name, back, hsign, hname, hback, htext⟩ := Number.shown_named hnamed
  have hmem : .name name ∈ tokenize (name.toList ++ back) := by
    obtain ⟨c, rest, hcons, hblank, hread⟩ : ∃ c rest, name.toList ++ back = c :: rest ∧
        isBlank c = false ∧ (readToken c rest).1 = .name name := by
      rcases hname with rfl | rfl <;> rcases hback with rfl | rfl <;> exact ⟨_, _, rfl, rfl, rfl⟩
    rw [hcons, tokenize_cons hblank, hread]
    exact List.mem_cons_self
  have hadmitted : (Token.name name).isAdmitted = false := by
    rcases hname with rfl | rfl <;> rfl
  show evalCondition (Number.shown x).toList ≠ .ok met
  rw [htext]
  refine not_ok_of_token (t := .name name) ?_ hadmitted met
  rcases hsign with rfl | rfl
  · exact hmem
  · rw [List.singleton_append, Number.tokenize_minus]
    exact List.mem_cons_of_mem _ hmem

/-- A colon outside quotes is a token of its own. The induction is on the text before it, of which
the tokens take parts. -/
theorem colon_mem_tokenize (front back : List Char) (h : ∀ c ∈ front, isQuote c = false) :
    .mark .colon ∈ tokenize (front ++ ':' :: back) := by
  have hcolon : ∀ rest, .mark .colon ∈ tokenize (':' :: rest) := by
    intro rest
    have hread : readToken ':' rest = (.mark .colon, rest) := by
      cases rest <;> rfl
    rw [tokenize_cons (by decide), hread]
    exact List.mem_cons_self
  cases front with
  | nil => exact hcolon back
  | cons c front =>
    obtain ⟨hc, hfront⟩ := List.forall_mem_cons.mp h
    rw [List.cons_append]
    by_cases hblank : isBlank c = true
    · rw [tokenize_blank hblank]
      exact colon_mem_tokenize front back hfront
    · by_cases heq : c = ':'
      · rw [heq]
        exact hcolon _
      · rw [tokenize_cons (by simpa using hblank)]
        apply List.mem_cons_of_mem
        obtain ⟨taken, htaken, hplain⟩ := takes_readToken hc (front ++ ':' :: back)
        generalize (readToken c (front ++ ':' :: back)).2 = rest at htaken
        obtain ⟨front', rfl, rfl⟩ :
            ∃ front', front = taken ++ front' ∧ rest = front' ++ ':' :: back := by
          rcases List.append_eq_append_iff.mp htaken with ⟨more, rfl, hmore⟩ | ⟨more, rfl, hmore⟩
          · -- nothing that is taken reaches the colon
            cases more with
            | nil => exact ⟨[], by simp, by simpa using hmore.symm⟩
            | cons d more =>
              obtain ⟨rfl, -⟩ := List.cons.inj hmore
              exact absurd rfl (hplain ':' (by simp)).2
          · exact ⟨more, rfl, hmore⟩
        exact colon_mem_tokenize front' back fun c hc => hfront c (List.mem_append_right taken hc)
termination_by front.length
decreasing_by
  all_goals
    subst_vars
    simp only [List.length_cons, List.length_append]
    omega

theorem not_ok_handle {h : Handle} (hdouble : '"' ∉ h.kind.toList) (hsingle : '\'' ∉ h.kind.toList)
    (met : Bool) : evalCondition (Value.handle h).text.toList ≠ .ok met := by
  have htext : (Value.handle h).text.toList = h.kind.toList ++ ':' :: h.id.toList := by
    simp [Value.text, Handle.text]
  have hplain : ∀ c ∈ h.kind.toList, isQuote c = false := by
    intro c hc
    rw [Bool.eq_false_iff]
    intro hquote
    simp only [isQuote, Bool.or_eq_true, decide_eq_true_eq] at hquote
    rcases hquote with rfl | rfl
    · exact hdouble hc
    · exact hsingle hc
  rw [htext]
  exact not_ok_of_token (colon_mem_tokenize _ _ hplain) rfl met

/-! ## The condition of a single call -/

section Condition
variable {σ : Type}

theorem judge_iff (condition : List Char) (stage : Stage σ) :
    ((judge condition).run stage).1 = true ↔ evalCondition condition = .ok true := by
  rw [judge]
  cases evalCondition condition with
  | error fault => exact iff_of_false Bool.false_ne_true (by simp)
  | ok met =>
    show met = true ↔ _
    simp

/-- A template that is a single marker becomes the text of the value. -/
theorem splice_alone (text : List Char) : splice 1 [text] (Condition.marker 1) = text := by
  have halone := replaceAll_append (marker_ne_nil 1) text []
  rw [List.append_nil] at halone
  rw [splice, splice, halone]
  exact List.append_nil text

theorem evalCondition_zero : evalCondition ['0'] = .ok false := by cbv

theorem evalCondition_spliced (v : Value) : evalCondition (splicedText (some v)) = .ok true ↔
    v.truth = true ∧ evalCondition v.text.toList = .ok true := by
  rw [splicedText]
  by_cases htruth : v.truth = true
  · simp [htruth]
  · simp [htruth, evalCondition_zero]

theorem bodyStatus_ne (finished : Bool) : bodyStatus finished ≠ .notMet := by
  cases finished <;> decide

/-- A condition that was not tested before is met just if its test succeeds. -/
theorem met_iff_test (host : Host σ) (arm : Arm) (params : List Statement) (template : String)
    (body : List (List Link)) (links : List Link) (base : Option Value) (frames : Nat)
    (state : BlockState) (stage : Stage σ) :
    ((evaluate host (.conditional arm params template body :: links) base
      ⟨frames, .conditional none state⟩).run stage).1.1 ≠ .notMet ↔
      ((test host base (frames + 1) params template).run stage).1 = true := by
  rw [evaluate]
  generalize hmet : ((test host base (frames + 1) params template).run stage).1 = met
  generalize hafter : ((fixGuard host params template base (frames + 1) none).run stage).2 = after
  have hfixed : (fixGuard host params template base (frames + 1) none).run stage =
      (met, after) := by
    rw [← hmet, ← hafter]
    rfl
  have hplay : ((playConditional host params template (rowsOf host body) base (frames + 1) none
      state).run stage).1.1 =
      if met then bodyStatus ((runRows (rowsOf host body) base state).run after).1.1
      else .notMet := by
    rw [playConditional, StateT.run_bind, hfixed]
    cases met with
    | true => rfl
    | false => rfl
  show ((playConditional host params template (rowsOf host body) base (frames + 1) none
    state).run stage).1.1 ≠ .notMet ↔ met = true
  rw [hplay]
  cases met with
  | true => exact iff_of_true (bodyStatus_ne _) rfl
  | false => exact iff_of_false (fun hne => hne rfl) Bool.false_ne_true

/-- The test of a condition that is a single call. -/
theorem test_alone {host : Host σ} {base : Option Value} {frame : Nat} {p : Statement}
    {stage : Stage σ} {v : Value} (h : ((value host base frame p).run stage).1 = some v) :
    ((test host base frame [p] (String.ofList (Condition.marker 1))).run stage).1 = true ↔
      v.truth = true ∧ evalCondition v.text.toList = .ok true := by
  have hvalues : ((values host base frame [p]).run stage).1 = [some v] := by
    rw [values, values, ← h]
    rfl
  have hrun : (test host base frame [p] (String.ofList (Condition.marker 1))).run stage =
      (judge (splice 1 (((values host base frame [p]).run stage).1.map splicedText)
        (Condition.marker 1))).run ((values host base frame [p]).run stage).2 := by
    rw [test_eq, String.toList_ofList]
    rfl
  rw [hrun, hvalues, judge_iff, List.map_cons, List.map_nil, splice_alone, evalCondition_spliced]

end Condition

/-! ## The values that meet a condition -/

/-- What a condition that is a single call asks of its value: an integer and a real have to count as
true, and the real to be finite; the text of a text or a handle has to be an expression that is
true; a list or a map is never enough. -/
def MeetsAlone : Value → Prop
  | .int n => (Value.int n).truth = true
  | .real x => (Value.real x).truth = true ∧ x.isFinite = true
  | .str s => evalCondition s.toList = .ok true
  | .handle h => evalCondition h.text.toList = .ok true
  | .list _ => False
  | .map _ => False

theorem meetsAlone_int (n : Int64) : MeetsAlone (.int n) ↔
    (Value.int n).truth = true ∧ evalCondition (Value.int n).text.toList = .ok true := by
  refine ⟨fun h => ⟨h, ?_⟩, fun h => h.1⟩
  have hn : n ≠ 0 := by simpa [MeetsAlone, Value.truth] using h
  exact Number.evalCondition_integerText hn

theorem meetsAlone_real (x : Float) : MeetsAlone (.real x) ↔
    (Value.real x).truth = true ∧ evalCondition (Value.real x).text.toList = .ok true := by
  constructor
  · rintro ⟨htruth, hfinite⟩
    have hx : (x == 0) = false := by
      have hne : (!(x == 0)) = true := htruth
      simpa using hne
    exact ⟨htruth, Number.evalCondition_shown hfinite hx⟩
  · rintro ⟨htruth, htext⟩
    refine ⟨htruth, ?_⟩
    rw [← Bool.not_eq_false]
    intro hfinite
    exact not_ok_named hfinite true htext

/-- A text that is an expression with the value true counts as true. -/
theorem meetsAlone_str (s : String) : MeetsAlone (.str s) ↔
    (Value.str s).truth = true ∧ evalCondition (Value.str s).text.toList = .ok true := by
  refine ⟨fun h => ⟨?_, h⟩, fun h => h.2⟩
  have hne : s ≠ "" := by
    rintro rfl
    have hempty : evalCondition "".toList = .error (.unexpected none) := by cbv
    rw [MeetsAlone, hempty] at h
    cases h
  have hzero : s ≠ "0" := by
    rintro rfl
    have hfalse : evalCondition "0".toList = .ok false := evalCondition_zero
    rw [MeetsAlone, hfalse] at h
    cases h
  simp [Value.truth, hne, hzero]

theorem meetsAlone_iff (v : Value) :
    MeetsAlone v ↔ v.truth = true ∧ evalCondition v.text.toList = .ok true := by
  cases v with
  | int n => exact meetsAlone_int n
  | real x => exact meetsAlone_real x
  | str s => exact meetsAlone_str s
  | handle h => exact ⟨fun hmet => ⟨rfl, hmet⟩, fun hmet => hmet.2⟩
  | list items => exact iff_of_false id fun h => not_ok_list items true h.2
  | map entries => exact iff_of_false id fun h => not_ok_map entries true h.2

/-- **When a conditional on a single call is met.** Its value has to count as true, and so has what
the text of the value is read as; for each kind of value that comes to `MeetsAlone`. A handle is
never enough if there is no quote in its kind. -/
theorem single_call_met_iff {σ : Type} (host : Host σ) (arm : Arm) (p : Statement)
    (body : List (List Link)) (links : List Link) (base : Option Value) (frames : Nat)
    (state : BlockState) (stage : Stage σ) (v : Value)
    (hv : ((value host base (frames + 1) p).run stage).1 = some v) :
    (((evaluate host (.conditional arm [p] (String.ofList (Condition.marker 1)) body :: links) base
      ⟨frames, .conditional none state⟩).run stage).1.1 ≠ .notMet ↔ MeetsAlone v) ∧
    (MeetsAlone v ↔ v.truth = true ∧ evalCondition v.text.toList = .ok true) ∧
    ∀ h, v = .handle h → '"' ∉ h.kind.toList → '\'' ∉ h.kind.toList → ¬ MeetsAlone v := by
  refine ⟨?_, meetsAlone_iff v, ?_⟩
  · rw [met_iff_test, test_alone hv, meetsAlone_iff]
  · rintro h rfl hdouble hsingle hmeets
    exact not_ok_handle hdouble hsingle true hmeets

theorem follow_nil {σ : Type} (host : Host σ) (base : Option Value) (frame : Nat)
    (answer : Answer) : follow host base frame [] answer = pure answer := by
  cases answer <;> rw [follow] <;> simp

/-- A host that answers every call with the same value. -/
def answering (v : Value) : Host Unit := ⟨fun _ _ => ⟨.value v, (), []⟩, fun _ _ => ⟨[], (), []⟩⟩

/-- A conditional on a call, with an empty body. -/
def ifCall (p : Statement) : Statement :=
  [.conditional .ifArm [p] (String.ofList (Condition.marker 1)) []]

theorem single_call_met_negative :
    ((value (answering (.int (-7))) none 1 [.method "f" [] false]).run ⟨(), #[]⟩).1 =
      some (.int (-7)) ∧
    ((evaluate (answering (.int (-7))) (ifCall [.method "f" [] false]) none
      ⟨0, .conditional none ⟨0, []⟩⟩).run ⟨(), #[]⟩).1.1 ≠ .notMet := by
  have hv : ((value (answering (.int (-7))) none 1 [.method "f" [] false]).run ⟨(), #[]⟩).1 =
      some (.int (-7)) := by
    simp only [value, chain, values, follow_nil]
    rfl
  have hmet := (single_call_met_iff (answering (.int (-7))) .ifArm [.method "f" [] false] [] []
    none 0 ⟨0, []⟩ ⟨(), #[]⟩ (.int (-7)) hv).1
  exact ⟨hv, hmet.mpr (show (Value.int (-7)).truth = true by decide)⟩

/-- The variable itself, not its value: a handle counts as true, and its text is no expression. -/
theorem variable_not_met :
    ((value Session.registry.host none 1 [.method "session" [[.constant "\"x\""]] false]).run
      ⟨{}, #[]⟩).1 = some (.handle ⟨"session", "x"⟩) ∧
    (Value.handle ⟨"session", "x"⟩).truth = true ∧
    ((evaluate Session.registry.host
      (ifCall [.method "session" [[.constant "\"x\""]] false]) none
      ⟨0, .conditional none ⟨0, []⟩⟩).run ⟨{}, #[]⟩).1.1 = .notMet := by
  have hv : ((value Session.registry.host none 1
      [.method "session" [[.constant "\"x\""]] false]).run ⟨{}, #[]⟩).1 =
      some (.handle ⟨"session", "x"⟩) := by
    simp only [value, chain, values, follow_nil]
    rfl
  refine ⟨hv, rfl, ?_⟩
  by_contra hne
  have htest := (met_iff_test _ _ _ _ _ _ _ _ _ _).mp hne
  have hmeets := ((test_alone hv).mp htest).2
  exact not_ok_handle (by decide) (by decide) true hmeets

end Cutscene.Play
