import Cutscene.Proofs.Play.Ensemble
import Cutscene.Proofs.Session.Names
import Cutscene.Proofs.Session.Printed
import Cutscene.Proofs.Source.Sequence

/-!
Setting all variables of a group.

The source `each(sessions("…")) { this.set("…"); }` is read to an `each` over a group, whose body sets the
variable that stands for `this` (`parse_group`). The members of the group are the variables whose names
begin with its start. They are listed before the first of them is set, and since no two of them are the
same, none is left out (`asking_group`, `firsts_variables`). The body sets its variable and is finished
(`run_setThis`), so the cast of the `each` sets one variable after the other and is finished in its first
frame (`frame_group`). All these variables are there already, so none is added, and the variables that
are set are just those whose names begin with the start (`group_sets`).
-/
namespace Cutscene

open Text Source Play

/-! ## The statement and its source -/

/-- The call that gives a group. -/
def groupCall (literal : List Char) : Statement :=
  [.method "sessions" [[.constant (String.ofList literal)]] false]

/-- The call that sets the variable that stands for `this`. -/
def setThis (literal : List Char) : Statement :=
  [.this, .method "set" [[.constant (String.ofList literal)]] false]

/-- The statement that sets every variable of a group. -/
def setGroup (start text : List Char) : Statement := [.each (groupCall start) [setThis text]]

/-- The start of the source of such a statement, up to the first literal. -/
def groupOpen : List Char := ['e', 'a', 'c', 'h', '(', 's', 'e', 's', 's', 'i', 'o', 'n', 's', '(']

/-- What is between its literals. -/
def groupMiddle : List Char :=
  [')', ')', ' ', '\x7b', ' ', 't', 'h', 'i', 's', '.', 's', 'e', 't', '(']

/-- What is behind them. -/
def groupClose : List Char := [')', ';', ' ', '\x7d']

/-- A source that sets every variable of a group. -/
def groupSource (start text : List Char) : List Char :=
  groupOpen ++ (start ++ (groupMiddle ++ (text ++ groupClose)))

/-- The subject of the source, up to its literal. -/
def subjectOpen : List Char := groupOpen.drop 5

/-- The body of the source, up to its literal. -/
def bodyOpen : List Char := groupMiddle.drop 5

section Reading
variable {start text : List Char}

theorem weavable_group (hstart : IsLiteral start) (htext : IsLiteral text) :
    Weavable groupOpen [start, text] [groupMiddle, groupClose] :=
  ⟨rfl, by decide, by simp [hstart, htext]⟩

theorem trim_group : trim (groupSource start text) = groupSource start text := by
  have htrim := trim_ends (a := groupOpen) (b := groupClose) rfl rfl (start ++ (groupMiddle ++ text))
  simpa only [groupSource, List.append_assoc] using htrim

/-- The source itself is an `each`, with its body between braces. -/
theorem ofFragment_group (hstart : IsLiteral start) (htext : IsLiteral text) :
    Shape.ofFragment (groupSource start text) = .ok [.ok (.each (subjectOpen ++ (start ++ [')']))
      (.ok (some (' ' :: (bodyOpen ++ (text ++ [')', ';', ' ']))))))] := by
  have hobjects : hide .brace {} (render (woven 0 groupOpen [groupMiddle, groupClose]))
        (.tagged "object") =
      .ok (groupOpen ++ spelled literalTag 0 ++ [')', ')', ' '] ++ spelled "object".toList 0,
        ⟨"object".toList, [['\x7b', ' '] ++ bodyOpen ++ spelled literalTag 1 ++ groupClose]⟩) := by cbv
  have hlists : hide .parenthesis {} (groupOpen ++ spelled literalTag 0 ++ [')', ')', ' '] ++
        spelled "object".toList 0) (.tagged "param") =
      .ok (['e', 'a', 'c', 'h'] ++ spelled "param".toList 0 ++ [' '] ++ spelled "object".toList 0,
        ⟨"param".toList, ['(' :: subjectOpen ++ spelled literalTag 0 ++ [')', ')']]⟩) := by cbv
  have hchain : Shape.ofChain (groupSource start text) =
      .ok [.ok (.each (subjectOpen ++ (start ++ [')']))
        (.ok (some (' ' :: (bodyOpen ++ (text ++ [')', ';', ' ']))))))] :=
    ofChain_weave (weavable_group hstart htext) (by decide) hobjects hlists
  rw [Shape.ofFragment, trim_group]
  simp only [hchain]
  rfl

/-! ## The fragments of the body and of the source -/

theorem weavable_body (htext : IsLiteral text) : Weavable bodyOpen [text] [[')', ';']] :=
  ⟨rfl, by decide, by simpa using htext⟩

theorem stripComments_body (htext : IsLiteral text) :
    stripComments (' ' :: (bodyOpen ++ (text ++ [')', ';', ' ']))) = bodyOpen ++ (text ++ [')', ';']) := by
  have hweavable : Weavable (' ' :: bodyOpen) [text] [[')', ';', ' ']] :=
    ⟨rfl, by decide, by simpa using htext⟩
  have hcomments : dropComments .code (' ' :: (bodyOpen ++ (text ++ [')', ';', ' ']))) =
      [' '] ++ (bodyOpen ++ (text ++ [')', ';'])) ++ [' '] := by
    have hsame := dropComments_weave hweavable (by decide)
    simpa [weave] using hsame
  have hblank : Blanks [' '] := List.forall_mem_singleton.mpr rfl
  rw [stripComments, hcomments, trim_behind hblank, trim_before hblank, trim_ends rfl rfl]

theorem fragments_body (htext : IsLiteral text) (hdefine : ¬ Alias.keyword <:+: text) :
    fragments (' ' :: (bodyOpen ++ (text ++ [')', ';', ' ']))) = .ok [bodyOpen ++ (text ++ [')'])] := by
  have hkeyword : ¬ Alias.keyword <:+: weave bodyOpen [text] [[')', ';']] :=
    keyword_weave (weavable_body htext) (by decide) (by simpa using hdefine)
  have hlayout : layout (render (woven 0 bodyOpen [[')', ';']])) =
      render (woven 0 bodyOpen [[')', ';']]) := by cbv
  have hsplit : split ⟨layout (render (woven 0 bodyOpen [[')', ';']])), ⟨literalTag, [text]⟩⟩ =
      .ok ⟨bodyOpen.dropLast ++ spelled paramsTag 0 ++ [';'],
        [trim (bodyOpen ++ (text ++ [')'])), trim []].filter fun fragment => !fragment.isEmpty⟩ := by
    rw [hlayout]
    rfl
  have htrim := trim_ends (a := bodyOpen) (b := [')']) rfl rfl text
  rw [fragments_weave (weavable_body htext) (stripComments_body htext) hkeyword (by decide) (by decide)
    hsplit, htrim]
  rfl

theorem fragments_group (hstart : IsLiteral start) (htext : IsLiteral text)
    (hdefines : ¬ Alias.keyword <:+: start) (hdefinet : ¬ Alias.keyword <:+: text) :
    fragments (groupSource start text) = .ok [groupSource start text] := by
  have hweavable := weavable_group hstart htext
  have hkeyword : ¬ Alias.keyword <:+: weave groupOpen [start, text] [groupMiddle, groupClose] :=
    keyword_weave hweavable (by decide) (by simp [hdefines, hdefinet])
  have hstrip : stripComments (groupSource start text) = groupSource start text := by
    have hcomments : dropComments .code (groupSource start text) = groupSource start text :=
      dropComments_weave hweavable (by decide)
    rw [stripComments, hcomments, trim_group]
  have hlayout : layout (render (woven 0 groupOpen [groupMiddle, groupClose])) =
      render (woven 0 groupOpen [groupMiddle, groupClose]) := by cbv
  have hsplit : split ⟨layout (render (woven 0 groupOpen [groupMiddle, groupClose])),
        ⟨literalTag, [start, text]⟩⟩ =
      .ok ⟨['e', 'a', 'c', 'h'] ++ spelled paramsTag 0 ++ [' '] ++ spelled blockTag 0 ++ [';'],
        [trim (groupSource start text), trim []].filter fun fragment => !fragment.isEmpty⟩ := by
    rw [hlayout]
    rfl
  rw [fragments_weave hweavable hstrip hkeyword (by decide) (by decide) hsplit, trim_group]
  rfl

/-- The reading goes three levels down: to the statement, to those nested in it and to their literals. -/
theorem read_group (hstart : IsLiteral start) (htext : IsLiteral text)
    (hdefine : ¬ Alias.keyword <:+: text) (depth : Nat) :
    Statement.read (depth + 3) (groupSource start text) = .ok (setGroup start text) := by
  have hsubject : Statement.read (depth + 2) (subjectOpen ++ (start ++ [')'])) =
      .ok (groupCall start) := by
    have hpath : ∀ c ∈ subjectOpen.dropLast, isNaming c = true := by
      simp [subjectOpen, groupOpen, isNaming]
    have hshapes : callShapes subjectOpen.dropLast start =
        [].map (fun link => .ok (.leaf link)) ++ [.ok (.method "sessions" false [start ++ []] none)] :=
      rfl
    exact read_call hpath hstart hshapes depth
  have hstatement : Statement.read (depth + 2) (bodyOpen ++ (text ++ [')'])) = .ok (setThis text) := by
    have hpath : ∀ c ∈ bodyOpen.dropLast, isNaming c = true := by
      simp [bodyOpen, groupMiddle, isNaming]
    have hshapes : callShapes bodyOpen.dropLast text =
        [.this].map (fun link => .ok (.leaf link)) ++ [.ok (.method "set" false [text ++ []] none)] :=
      rfl
    exact read_call hpath htext hshapes depth
  have hbody : Block.readWith (Statement.read (depth + 2))
      (' ' :: (bodyOpen ++ (text ++ [')', ';', ' ']))) = .ok [setThis text] := by
    rw [readWith_eq (fragments_body htext hdefine)]
    simp only [List.mapM_cons, List.mapM_nil, hstatement]
    rfl
  have hfill : [.ok (.each (subjectOpen ++ (start ++ [')']))
      (.ok (some (' ' :: (bodyOpen ++ (text ++ [')', ';', ' ']))))))].mapM
        (Shape.fillFound (Statement.read (depth + 2))) = .ok [setGroup start text] := by
    simp only [List.mapM_cons, List.mapM_nil, fillFound_ok, Shape.fill, hsubject, fillBody_some, hbody]
    rfl
  exact readWith_shapes (ofFragment_group hstart htext) hfill

/-- **The source is read to one statement**, with the literals as they were written. -/
theorem parse_group (hstart : IsLiteral start) (htext : IsLiteral text)
    (hdefines : ¬ Alias.keyword <:+: start) (hdefinet : ¬ Alias.keyword <:+: text) :
    Block.parse (groupSource start text) = .ok [setGroup start text] :=
  parse_single (by simp [groupSource, groupOpen]) (fragments_group hstart htext hdefines hdefinet)
    (read_group hstart htext hdefinet)

example : groupSource (literalOf ['p']) (literalOf ['v']) =
    "each(sessions(\"p\")) \x7b this.set(\"v\"); \x7d".toList := by decide

end Reading

/-! ## Setting one variable -/

/-- A variable as a value. -/
def variableNamed (name : String) : Value := .handle ⟨Session.variableKind, name⟩

theorem text_literalOf (text : String) :
    (Value.ofConstant (String.ofList (literalOf text.toList))).text = text := by
  rw [ofConstant_literalOf, String.ofList_toList]
  rfl

/-- A session with a variable set. -/
def Session.setting (session : Session) (text name : String) : Session :=
  { session with vars := session.vars.set name text }

theorem answer_set (name : String) (v : Value) (frame : Nat) (session : Session) :
    Session.registry.host.answer ⟨some ⟨Session.variableKind, name⟩, "set", [v], frame⟩ session =
      ⟨.object ⟨Session.variableKind, name⟩, session.setting v.text name, []⟩ := by rfl

theorem evaluate_setThis (text name : String) (state : StatementState) (stage : Stage Session) :
    ∃ after events,
      evaluate Session.registry.host (setThis (literalOf text.toList)) (some (variableNamed name)) state
        stage = ((.done, after), ⟨stage.host.setting text name, events⟩) := by
  obtain ⟨frames, link⟩ := state
  simp only [setThis, variableNamed, evaluate, playChain, chain, Answer.ofBase, follow, values, valueBy,
    follow_nil, ask, Play.after, bind, StateT.bind, pure, StateT.pure, List.map, Option.getD,
    answer_set, text_literalOf]
  exact ⟨_, _, rfl⟩

/-- The body sets its variable and is finished in its first frame. -/
theorem run_setThis (text name : String) (world : Session) :
    ∃ script events, script.isFinished = true ∧
      (Script.fresh [setThis (literalOf text.toList)]).run Session.registry.host
        (some (variableNamed name)) ⟨world, #[]⟩ =
        ((true, script), ⟨world.setting text name, events⟩) := by
  obtain ⟨after, events, heval⟩ := evaluate_setThis text name
    (.fresh (setThis (literalOf text.toList))) ⟨world, #[]⟩
  obtain ⟨events, hrun⟩ := run_single heval rfl
  exact ⟨_, events, rfl, hrun⟩

/-! ## The members of a group -/

theorem answer_sessions (v : Value) (frame : Nat) (session : Session) :
    Session.registry.host.answer ⟨none, "sessions", [v], frame⟩ session =
      ⟨.object ⟨Session.groupKind, v.text⟩, session, []⟩ := by rfl

theorem members_group (start : String) (session : Session) :
    Session.registry.host.members ⟨Session.groupKind, start⟩ session =
      ⟨(session.vars.namesFrom start).map variableNamed, session, []⟩ := by rfl

theorem asking_group (start : String) (base : Option Value) (stage : Stage Session) :
    ∃ events, Cast.asking Session.registry.host base (groupCall (literalOf start.toList)) stage =
      ((stage.host.vars.namesFrom start).map variableNamed, ⟨stage.host, events⟩) := by
  simp only [Cast.asking, groupCall, value, valueBy, chain, values, follow_nil, ask, Play.after, bind,
    StateT.bind, pure, StateT.pure, List.map, Option.getD, answer_sessions, text_literalOf,
    Answer.toValue?, membersOf, list, members_group]
  exact ⟨_, rfl⟩

/-- Variables with different names are different values. -/
theorem firsts_variables {names : List String} (h : names.Nodup) :
    firsts (names.map variableNamed) = names.map variableNamed := by
  apply firsts_eq_self
  apply List.pairwise_map.mpr
  refine h.imp ?_
  intro a b hne
  have hhandles : (⟨Session.variableKind, a⟩ : Handle) ≠ ⟨Session.variableKind, b⟩ := by
    simpa using hne
  exact decide_eq_false hhandles

/-! ## Setting all of them -/

/-- A session with several variables set to the same text. -/
def Session.settingEach (session : Session) (text : String) (names : List String) : Session :=
  { session with vars := session.vars.setEach text names }

theorem foldl_setting (text : String) (names : List String) (session : Session) :
    names.foldl (fun world name => world.setting text name) session =
      session.settingEach text names := by
  induction names generalizing session with
  | nil => rfl
  | cons name names ih => exact ih _

section Group
variable (start text : String) (base : Option Value) (stage : Stage Session)

/-- **The cast of the `each`** has a role for every name with the start, and sets these variables. -/
theorem frame_group :
    let asked := (Cast.asking Session.registry.host base (groupCall (literalOf start.toList))).run stage
    let played := Cast.frame Session.registry.host
      ((firsts asked.1).map (Role.fresh [setThis (literalOf text.toList)])) asked.2.host
    played.1.ended = true ∧
      played.2 = stage.host.settingEach text (stage.host.vars.namesFrom start) := by
  intro asked played
  let names := stage.host.vars.namesFrom start
  obtain ⟨events, hasking⟩ := asking_group start base stage
  have hasked : asked = (names.map variableNamed, ⟨stage.host, events⟩) := hasking
  have hplayed : played = Cast.frame Session.registry.host (names.map fun name =>
      Role.fresh [setThis (literalOf text.toList)] (variableNamed name)) stage.host := by
    simp only [played, hasked, firsts_variables (stage.host.vars.nodup_namesFrom start), names,
      List.map_map]
    rfl
  rw [hplayed, ← foldl_setting]
  exact Cast.frame_finished variableNamed _ (run_setThis text) names stage.host

theorem evaluate_setGroup :
    ∃ after events,
      let statement := setGroup (literalOf start.toList) (literalOf text.toList)
      evaluate Session.registry.host statement base (.fresh statement) stage = ((.met, after),
        ⟨stage.host.settingEach text (stage.host.vars.namesFrom start), events⟩) := by
  let statement := setGroup (literalOf start.toList) (literalOf text.toList)
  rcases heval : evaluate Session.registry.host statement base (.fresh statement) stage
    with ⟨⟨status, after⟩, left⟩
  have hplayer : (Statement.player statement Session.registry.host base (.fresh statement)).run stage =
      ((decide (status = .met), after), left) := by
    simp only [StateT.run, Statement.player, bind, StateT.bind, heval]
    rfl
  obtain ⟨hended, hworld⟩ := frame_group start text base stage
  obtain ⟨hresult, hhost, -⟩ := run_player_fresh_each (groupCall (literalOf start.toList)) []
    [setThis (literalOf text.toList)] Session.registry.host base stage
  -- the condition of the `each` is met just if all roles are finished
  have hmet : decide (status = .met) = true :=
    (congrArg (fun played => played.1.1) hplayer).symm.trans
      ((congrArg Prod.fst hresult).trans hended)
  have hleft : left.host = stage.host.settingEach text (stage.host.vars.namesFrom start) :=
    (congrArg (fun played => played.2.host) hplayer).symm.trans (hhost.trans hworld)
  refine ⟨after, left.events, ?_⟩
  intro statement
  rw [heval, of_decide_eq_true hmet, ← hleft]

/-- **The block is finished in one frame, and sets the variables whose names have the start.** -/
theorem run_setGroup :
    ∃ script events,
      (Script.fresh [setGroup (literalOf start.toList) (literalOf text.toList)]).run
        Session.registry.host base stage = ((true, script),
          ⟨stage.host.settingEach text (stage.host.vars.namesFrom start), events⟩) := by
  obtain ⟨after, events, heval⟩ := evaluate_setGroup start text base stage
  obtain ⟨events, hrun⟩ := run_single heval rfl
  exact ⟨_, events, hrun⟩

end Group

/-- A text that can be written as a literal of a source: its last character would not escape the closing
quote, and nothing is defined inside. -/
def Quotable (text : List Char) : Prop :=
  text.getLast? ≠ some '\\' ∧ ¬ Alias.keyword <:+: literalOf text

/-- **A group is set as a whole, and nothing else is.** The source `each(sessions("…")) { this.set("…"); }`
is read to a block of one statement, whenever the two texts can be written in it. Whatever the texts and
the variables are, this block is finished in one frame. Then every variable whose name begins with the
start of the group has the new text, every other one has the text that it had, no variable is new and none
is gone, and nothing is written or drawn. -/
theorem group_sets (start text : String) :
    let block : Block := [setGroup (literalOf start.toList) (literalOf text.toList)]
    (Quotable start.toList → Quotable text.toList →
      Block.parse (groupSource (literalOf start.toList) (literalOf text.toList)) = .ok block) ∧
    ∀ (vars : Vars) (chance : Nat → Nat) (base : Option Value), ∃ script after events,
      (Script.fresh block).run Session.registry.host base ⟨⟨vars, [], chance⟩, #[]⟩ =
        ((true, script), ⟨⟨after, [], chance⟩, events⟩) ∧
      after.names = vars.names ∧
      (∀ name ∈ vars.names, start.toList <+: name.toList → after.get? name = some text) ∧
      ∀ name, ¬ start.toList <+: name.toList → after.get? name = vars.get? name := by
  intro block
  constructor
  · rintro ⟨hstart, hdefines⟩ ⟨htext, hdefinet⟩
    exact parse_group (isLiteral_literalOf hstart) (isLiteral_literalOf htext) hdefines hdefinet
  · intro vars chance base
    obtain ⟨script, events, hrun⟩ := run_setGroup start text base ⟨⟨vars, [], chance⟩, #[]⟩
    refine ⟨script, vars.setEach text (vars.namesFrom start), events, hrun, ?_, ?_, ?_⟩
    · exact vars.names_setEach text fun name hname => (vars.mem_namesFrom.mp hname).1
    · intro name hname hstarted
      rw [Vars.get?_setEach, if_pos (vars.mem_namesFrom.mpr ⟨hname, hstarted⟩)]
    · intro name hother
      rw [Vars.get?_setEach, if_neg fun hname => hother (vars.mem_namesFrom.mp hname).2]

/-- Two doors and a hall. -/
def rooms : Vars := Vars.empty.setAll [("door 2", "ajar"), ("hall", "lit"), ("door 1", "it's open")]

/-- The doors get a text with quotes of both kinds in it, and the hall stays as it is. -/
theorem group_sets_doors :
    Quotable "door ".toList ∧ Quotable "it's \"shut\"".toList ∧
    Block.parse (groupSource (literalOf "door ".toList) (literalOf "it's \"shut\"".toList)) =
      .ok [setGroup (literalOf "door ".toList) (literalOf "it's \"shut\"".toList)] ∧
    ∃ script after events,
      (Script.fresh [setGroup (literalOf "door ".toList) (literalOf "it's \"shut\"".toList)]).run
        Session.registry.host none ⟨⟨rooms, [], fun _ => 0⟩, #[]⟩ =
          ((true, script), ⟨⟨after, [], fun _ => 0⟩, events⟩) ∧
      after.names = ["door 1", "door 2", "hall"] ∧
      after.get? "door 1" = some "it's \"shut\"" ∧ after.get? "door 2" = some "it's \"shut\"" ∧
      after.get? "hall" = some "lit" := by
  have hstart : Quotable "door ".toList := ⟨by decide, by decide +kernel⟩
  have htext : Quotable "it's \"shut\"".toList := ⟨by decide, by decide +kernel⟩
  have hnames : rooms.names = ["door 1", "door 2", "hall"] := by decide +kernel
  have hhall : rooms.get? "hall" = some "lit" := by decide +kernel
  obtain ⟨hparse, hruns⟩ := group_sets "door " "it's \"shut\""
  obtain ⟨script, after, events, hrun, hsame, hset, hkept⟩ := hruns rooms (fun _ => 0) none
  refine ⟨hstart, htext, hparse hstart htext, script, after, events, hrun, hsame.trans hnames, ?_, ?_, ?_⟩
  · exact hset "door 1" (by simp [hnames]) (by decide)
  · exact hset "door 2" (by simp [hnames]) (by decide)
  · exact (hkept "hall" (by decide)).trans hhall

end Cutscene
