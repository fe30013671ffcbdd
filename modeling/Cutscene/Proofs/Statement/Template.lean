import Cutscene.Proofs.Statement.Depth

/-!
The templates of the arms in a block.

A shape is filled in to a link and the links behind it, and all that nests in them was read inside the
shape (`filled_of_fill`). Reading a source comes to texts that nest in one another (`Comes`), so every
arm of the block that is read belongs to the shape of one of these texts (`exists_origin`). Its condition
stands in that text, and its template has the calls of the condition lifted out of it
(`conditions_lifted`).
-/
namespace Cutscene

open Source Text

/-! ## Links of a block -/

/-- The statements that nest in a link. -/
def Link.statements : Link → List Statement
  | .method _ params _ => params
  | .this => []
  | .conditional _ params _ body => params ++ body
  | .each subject body => subject :: body
  | .range low high body => low :: high :: body
  | .constant _ => []
  | .object _ => []

/-- A link that stands anywhere in a block: in a statement of it, or in one that nests in a link. -/
inductive Occurs (link : Link) : Block → Prop where
  | here {block : Block} {statement : Statement} (hstatement : statement ∈ block)
      (hlink : link ∈ statement) : Occurs link block
  | inside {block : Block} {statement : Statement} {outer : Link} (hstatement : statement ∈ block)
      (houter : outer ∈ statement) (h : Occurs link outer.statements) : Occurs link block

/-- A link of a block stands in one of its statements. -/
theorem Occurs.exists_statement {link : Link} {block : Block} (h : Occurs link block) :
    ∃ statement ∈ block, Occurs link [statement] := by
  cases h with
  | here hstatement hlink => exact ⟨_, hstatement, .here (List.mem_singleton_self _) hlink⟩
  | inside hstatement houter h => exact ⟨_, hstatement, .inside (List.mem_singleton_self _) houter h⟩

/-- A link of a statement is its first one, nests in it, or stands behind it. -/
theorem Occurs.of_cons {link first : Link} {rest : Statement} (h : Occurs link [first :: rest]) :
    link = first ∨ (∃ statement ∈ first.statements, Occurs link [statement]) ∨ Occurs link [rest] := by
  cases h with
  | here hstatement hlink =>
    rw [List.mem_singleton.mp hstatement] at hlink
    rcases List.mem_cons.mp hlink with heq | hlink
    · exact Or.inl heq
    · exact Or.inr (Or.inr (.here (List.mem_singleton_self _) hlink))
  | inside hstatement houter h =>
    rw [List.mem_singleton.mp hstatement] at houter
    rcases List.mem_cons.mp houter with rfl | houter
    · exact Or.inr (Or.inl h.exists_statement)
    · exact Or.inr (Or.inr (.inside (List.mem_singleton_self _) houter h))

theorem not_occurs_nil {link : Link} : ¬ Occurs link [[]] := by
  intro h
  cases h with
  | here hstatement hlink =>
    rw [List.mem_singleton.mp hstatement] at hlink
    cases hlink
  | inside hstatement houter h =>
    rw [List.mem_singleton.mp hstatement] at houter
    cases houter

/-- A link of a chain of chains stands in one of them. -/
theorem Occurs.of_flatten {link : Link} {chains : List Statement} (h : Occurs link [chains.flatten]) :
    ∃ chain ∈ chains, Occurs link [chain] := by
  cases h with
  | here hstatement hlink =>
    rw [List.mem_singleton.mp hstatement] at hlink
    obtain ⟨chain, hchain, hin⟩ := List.mem_flatten.mp hlink
    exact ⟨chain, hchain, .here (List.mem_singleton_self _) hin⟩
  | inside hstatement houter h =>
    rw [List.mem_singleton.mp hstatement] at houter
    obtain ⟨chain, hchain, hin⟩ := List.mem_flatten.mp houter
    exact ⟨chain, hchain, .inside (List.mem_singleton_self _) hin h⟩

/-! ## What a link was read from -/

/-- The texts that come out of texts, one for each of them. -/
theorem forall₂_of_mapM {α β : Type} {read : α → Except ParseError β} {texts : List α} {values : List β}
    (h : texts.mapM read = .ok values) :
    List.Forall₂ (fun text value => read text = .ok value) texts values := by
  induction texts generalizing values with
  | nil =>
    cases h
    exact .nil
  | cons text texts ih =>
    rw [List.mapM_cons] at h
    obtain ⟨value, hvalue, h⟩ := bind_eq_ok h
    obtain ⟨others, hothers, h⟩ := bind_eq_ok h
    cases h
    exact .cons hvalue (ih hothers)

theorem exists_of_mem_mapM {α β : Type} {read : α → Except ParseError β} {texts : List α}
    {values : List β} (h : texts.mapM read = .ok values) {value : β} (hmem : value ∈ values) :
    ∃ text ∈ texts, read text = .ok value := by
  have hall := forall₂_of_mapM h
  clear h
  induction hall with
  | nil => cases hmem
  | cons hvalue _ ih =>
    rcases List.mem_cons.mp hmem with rfl | hmem
    · exact ⟨_, List.mem_cons_self, hvalue⟩
    · obtain ⟨text, htext, hread⟩ := ih hmem
      exact ⟨text, List.mem_cons_of_mem _ htext, hread⟩

section Fill
variable {read : List Char → Except ParseError Statement}

theorem exists_of_mem_readWith {source : List Char} {block : Block}
    (h : Block.readWith read source = .ok block) {statement : Statement} (hmem : statement ∈ block) :
    ∃ pieces, fragments source = .ok pieces ∧ ∃ piece ∈ pieces, read piece = .ok statement := by
  obtain ⟨pieces, hpieces, hread⟩ := liftM_bind_eq_ok h
  exact ⟨pieces, hpieces, exists_of_mem_mapM hread hmem⟩

/-- The statements of a body were read from the fragments of its text. -/
theorem exists_reads_of_mem_fillBody {shape : Shape} {body : Except ScriptFault (Option (List Char))}
    {block : Block} (hbody : Shape.nestedBody body ⊆ shape.nested)
    (h : Shape.fillBody read body = .ok block) {statement : Statement} (hmem : statement ∈ block) :
    ∃ text, shape.Reads text ∧ read text = .ok statement := by
  obtain ⟨text, rfl, h⟩ := liftM_bind_eq_ok h
  cases text with
  | none =>
    cases h
    cases hmem
  | some text =>
    obtain ⟨pieces, hpieces, piece, hpiece, hread⟩ := exists_of_mem_readWith h hmem
    exact ⟨piece, .fragment (hbody (by simp [Shape.nestedBody])) hpieces hpiece, hread⟩

/-- What a shape is filled in to: a link and the links behind it. All that nests in the link was read
inside the shape, and so were the links behind it. An arm is the arm of the shape. -/
structure Filled (read : List Char → Except ParseError Statement) (shape : Shape) (first : Link)
    (rest : Statement) : Prop where
  nested : ∀ statement ∈ first.statements, ∃ text, shape.Reads text ∧ read text = .ok statement
  behind : rest = [] ∨ ∃ text, shape.Reads text ∧ read text = .ok rest
  arm : ∀ arm params template body, first = .conditional arm params template body →
    ∃ phrases inner, shape = .conditional arm phrases template inner ∧ phrases.mapM read = .ok params

/-- **A shape is filled in to nothing or to a link that is filled**, one case for each kind of link. -/
theorem filled_of_fill {shape : Shape}
    (hleaf : ∀ single, shape = .leaf single → Shape.IsBare (.leaf single)) {chain : Statement}
    (h : shape.fill read = .ok chain) :
    chain = [] ∨ ∃ first rest, chain = first :: rest ∧ Filled read shape first rest := by
  cases shape with
  | empty =>
    cases h
    exact Or.inl rfl
  | leaf single =>
    cases h
    have hbare := hleaf single rfl
    have hnone : single.statements = [] := by
      cases single with
      | this => rfl
      | constant text => rfl
      | object text => rfl
      | method => exact hbare.elim
      | conditional => exact hbare.elim
      | each => exact hbare.elim
      | range => exact hbare.elim
    refine Or.inr ⟨single, [], rfl, ?_, Or.inl rfl, ?_⟩
    · rw [hnone]
      exact List.forall_mem_nil _
    · rintro arm params template body rfl
      exact hbare.elim
  | conditional arm phrases template inner =>
    obtain ⟨params, hparams, h⟩ := bind_eq_ok h
    obtain ⟨block, hblock, h⟩ := bind_eq_ok h
    cases h
    refine Or.inr ⟨_, [], rfl, fun statement hmem => ?_, Or.inl rfl, ?_⟩
    · rcases List.mem_append.mp hmem with hmem | hmem
      · obtain ⟨text, htext, hread⟩ := exists_of_mem_mapM hparams hmem
        exact ⟨text, .statement (by simp [Shape.nested, htext]), hread⟩
      · exact exists_reads_of_mem_fillBody (by simp [Shape.nested]) hblock hmem
    · intro arm' params' template' body' heq
      cases heq
      exact ⟨phrases, inner, rfl, hparams⟩
  | each subject inner =>
    obtain ⟨subject', hsubject, h⟩ := bind_eq_ok h
    obtain ⟨block, hblock, h⟩ := bind_eq_ok h
    cases h
    refine Or.inr ⟨_, [], rfl, fun statement hmem => ?_, Or.inl rfl, fun _ _ _ _ heq => by cases heq⟩
    rcases List.mem_cons.mp hmem with rfl | hmem
    · exact ⟨subject, .statement (by simp [Shape.nested]), hsubject⟩
    · exact exists_reads_of_mem_fillBody (by simp [Shape.nested]) hblock hmem
  | range low high inner =>
    obtain ⟨low', hlow, h⟩ := bind_eq_ok h
    obtain ⟨high', hhigh, h⟩ := bind_eq_ok h
    obtain ⟨block, hblock, h⟩ := bind_eq_ok h
    cases h
    refine Or.inr ⟨_, [], rfl, fun statement hmem => ?_, Or.inl rfl, fun _ _ _ _ heq => by cases heq⟩
    rcases List.mem_cons.mp hmem with rfl | hmem
    · exact ⟨low, .statement (by simp [Shape.nested]), hlow⟩
    · rcases List.mem_cons.mp hmem with rfl | hmem
      · exact ⟨high, .statement (by simp [Shape.nested]), hhigh⟩
      · exact exists_reads_of_mem_fillBody (by simp [Shape.nested]) hblock hmem
  | method name simultaneous arguments trailing =>
    obtain ⟨params, hparams, h⟩ := bind_eq_ok h
    have hnested : ∀ statement ∈ params, ∃ text,
        (Shape.method name simultaneous arguments trailing).Reads text ∧ read text = .ok statement := by
      intro statement hmem
      obtain ⟨text, htext, hread⟩ := exists_of_mem_mapM hparams hmem
      exact ⟨text, .statement (by simp [Shape.nested, htext]), hread⟩
    refine Or.inr ⟨.method name params simultaneous, ?_⟩
    cases trailing with
    | none =>
      cases h
      exact ⟨[], rfl, hnested, Or.inl rfl, fun _ _ _ _ heq => by cases heq⟩
    | some text =>
      obtain ⟨links, hlinks, h⟩ := bind_eq_ok h
      cases h
      refine ⟨links, rfl, hnested, Or.inr ⟨text, ?_, hlinks⟩, fun _ _ _ _ heq => by cases heq⟩
      exact .statement (by simp [Shape.nested])

/-- **Every arm in a statement that fills in a shape is the arm of the shape or was read inside it.** -/
theorem occurs_fill {shape : Shape}
    (hleaf : ∀ single, shape = .leaf single → Shape.IsBare (.leaf single)) {chain : Statement}
    (h : shape.fill read = .ok chain) {arm : Arm} {params : List Statement} {template : String}
    {body : Block} (hlink : Occurs (.conditional arm params template body) [chain]) :
    (∃ phrases inner, shape = .conditional arm phrases template inner ∧ phrases.mapM read = .ok params ∧
      .conditional arm params template body ∈ chain) ∨
    ∃ text statement, shape.Reads text ∧ read text = .ok statement ∧
      Occurs (.conditional arm params template body) [statement] := by
  rcases filled_of_fill hleaf h with rfl | ⟨first, rest, rfl, filled⟩
  · exact absurd hlink not_occurs_nil
  · rcases hlink.of_cons with heq | ⟨statement, hmem, hin⟩ | hin
    · obtain ⟨phrases, inner, hshape, hphrases⟩ := filled.arm _ _ _ _ heq.symm
      exact Or.inl ⟨phrases, inner, hshape, hphrases, heq ▸ List.mem_cons_self⟩
    · obtain ⟨text, hreads, hread⟩ := filled.nested statement hmem
      exact Or.inr ⟨text, statement, hreads, hread, hin⟩
    · rcases filled.behind with rfl | ⟨text, hreads, hread⟩
      · exact absurd hin not_occurs_nil
      · exact Or.inr ⟨text, rest, hreads, hread, hin⟩

end Fill

/-! ## The texts that reading comes to -/

/-- The texts that reading a source comes to: the source, the fragments of a block, and the texts that
nest in a statement. -/
inductive Comes (source : List Char) : Nested → Prop where
  | source : Comes source (.block source)
  | fragment {block fragment : List Char} {pieces : List (List Char)} (h : Comes source (.block block))
      (hpieces : fragments block = .ok pieces) (hmem : fragment ∈ pieces) :
      Comes source (.statement fragment)
  | nested {text : List Char} {shapes : List (Except ScriptFault Shape)} {shape : Shape} {inner : Nested}
      (h : Comes source (.statement text)) (hshapes : Shape.ofFragment text = .ok shapes)
      (hshape : .ok shape ∈ shapes) (hinner : .ok inner ∈ shape.nested) : Comes source inner

theorem Comes.reads {source text inner : List Char} {shapes : List (Except ScriptFault Shape)}
    {shape : Shape} (h : Comes source (.statement text)) (hshapes : Shape.ofFragment text = .ok shapes)
    (hshape : .ok shape ∈ shapes) (hreads : shape.Reads inner) : Comes source (.statement inner) := by
  cases hreads with
  | statement hinner => exact h.nested hshapes hshape hinner
  | fragment hinner hpieces hmem => exact (h.nested hshapes hshape hinner).fragment hpieces hmem

/-- Where an arm of a block comes from: the statement of a plain text that reading the source comes to,
and the shape of an arm in it whose phrases were read. -/
structure Origin (source : List Char) (arm : Arm) (params : List Statement) (template : String)
    (body : Block) (fragment : List Char) : Prop where
  comes : Comes source (.statement fragment)
  plain : IsPlain fragment
  reads : ∃ statement, Statement.parse fragment = .ok statement ∧
    .conditional arm params template body ∈ statement
  shape : ∃ shapes phrases inner, Shape.ofFragment fragment = .ok shapes ∧
    .ok (.conditional arm phrases template inner) ∈ shapes ∧
    List.Forall₂ (fun phrase param => Statement.parse phrase = .ok param) phrases params

section Origin
variable {source : List Char} {arm : Arm} {params : List Statement} {template : String} {body : Block}

theorem exists_origin {depth : Nat} {text : List Char} (hcomes : Comes source (.statement text))
    (hplain : IsPlain text) {statement : Statement} (hread : Statement.read depth text = .ok statement)
    (hlink : Occurs (.conditional arm params template body) [statement]) :
    ∃ fragment, Origin source arm params template body fragment := by
  induction depth generalizing text statement with
  | zero => cases hread
  | succ depth ih =>
    have hparse := parse_of_read hplain hread
    obtain ⟨shapes, hshapes, hread⟩ := liftM_bind_eq_ok hread
    obtain ⟨chains, hchains, hread⟩ := bind_eq_ok hread
    cases hread
    obtain ⟨chain, hchain, hlink⟩ := hlink.of_flatten
    obtain ⟨result, hresult, hfill⟩ := exists_of_mem_mapM hchains hchain
    obtain ⟨shape, rfl, hfill⟩ := liftM_bind_eq_ok hfill
    have hleaf : ∀ single, shape = .leaf single → Shape.IsBare (.leaf single) := by
      rintro single rfl
      exact Shape.isBare_leaf hplain.1 hplain.2.1 hshapes hresult
    rcases occurs_fill hleaf hfill hlink with ⟨phrases, inner, rfl, hphrases, hmem⟩ |
      ⟨inner, statement, hreads, hread, hin⟩
    · refine ⟨text, hcomes, hplain, ⟨_, hparse, List.mem_flatten.mpr ⟨chain, hchain, hmem⟩⟩,
        shapes, phrases, inner, hshapes, hresult, ?_⟩
      refine forall₂_of_mapM (Follows.comparison.mapM (fun phrase hphrase statement hread => ?_) params hphrases)
      have hreads : (Shape.conditional arm phrases template inner).Reads phrase :=
        .statement (by simp [Shape.nested, hphrase])
      exact parse_of_read (reads_load hplain hshapes hresult hreads).1 hread
    · have hinner : IsPlain inner := (reads_load hplain hshapes hresult hreads).1
      exact ih (hcomes.reads hshapes hresult hreads) hinner hread hin

end Origin

/-- An arm that was read from a source, with the calls of its condition lifted out of its template. -/
structure LiftedArm (source : List Char) (arm : Arm) (params : List Statement) (template : String)
    (body : Block) (fragment : List Char) (statement : Statement) (gap inside : List Char)
    (phrases : List (List Char)) : Prop where
  /-- The arm is a link of a statement that reading the source comes to. -/
  comes : Comes source (.statement fragment)
  parse_eq : Statement.parse fragment = .ok statement
  mem : .conditional arm params template body ∈ statement
  /-- The condition stands there behind the name of the arm, between parentheses that are a pair outside
  literals and objects. -/
  blanks : Blanks gap
  stands : arm.name.toList ++ gap ++ '(' :: (inside ++ [')']) <:+: fragment
  closes : Delimiter.parenthesis.close (Shape.surface (inside ++ [')'])) =
    some (Shape.surface inside).length
  /-- What begins like a marker in the template are the markers of the calls, in their order. -/
  markers : List.Forall₂ (fun n ending => Condition.marker n <+: ending)
    (List.range' 1 params.length) (Condition.openings template.toList)
  /-- The phrases are read to the calls, and the template with the phrases put back is the condition. -/
  calls : List.Forall₂ (fun phrase param => Statement.parse phrase = .ok param) phrases params
  condition : Condition.putBack phrases template.toList = trim inside
  /-- Outside literals and objects, no word but a connective has a parenthesis right behind it. -/
  connectives : ∀ word ∈ Condition.callWords (Shape.surface template.toList),
    Condition.isConnective word = true

/-- **The calls of every condition are lifted**, in each arm anywhere in the block that a plain source
is read to. -/
theorem conditions_lifted {source : List Char} (h : IsPlain source) {block : Block}
    (hparse : Block.parse source = .ok block) {arm : Arm} {params : List Statement} {template : String}
    {body : Block} (hlink : Occurs (.conditional arm params template body) block) :
    ∃ fragment statement gap inside phrases,
      LiftedArm source arm params template body fragment statement gap inside phrases := by
  obtain ⟨outer, houter, hin⟩ := hlink.exists_statement
  obtain ⟨pieces, hpieces, piece, hpiece, hread⟩ := exists_of_mem_readWith hparse houter
  obtain ⟨fragment, origin⟩ := exists_origin (Comes.source.fragment hpieces hpiece)
    (isPlain_fragment h hpieces hpiece) hread hin
  obtain ⟨statement, hstatement, hmem⟩ := origin.reads
  obtain ⟨shapes, phrases, inner, hshapes, hshape, hphrases⟩ := origin.shape
  obtain ⟨gap, inside, parts, lifts⟩ :=
    Shape.conditional_lifts origin.plain.1 origin.plain.2.1 hshapes hshape
  have htemplate : template.toList = Condition.template parts := by
    rw [lifts.template_eq, String.toList_ofList]
  have hlength : params.length = (Condition.phrases parts).length := by
    rw [← lifts.phrases_eq]
    exact hphrases.length_eq.symm
  refine ⟨fragment, statement, gap, inside, phrases, ?_⟩
  exact {
    comes := origin.comes
    parse_eq := hstatement
    mem := hmem
    blanks := lifts.blanks
    stands := lifts.stands
    closes := lifts.closes
    markers := by
      rw [htemplate, hlength]
      exact Condition.openings_template lifts.caret 1
    calls := hphrases
    condition := by
      rw [htemplate, lifts.phrases_eq, ← lifts.text_eq]
      exact Condition.putBack_templateFrom lifts.caret []
    connectives := by
      rw [htemplate]
      exact lifts.connectives }

/-- `if(z){x(y) if(not(a.b(")")) or {k: "g("} == c(1).d){}}`: an arm behind a call in the body of
another arm. The literals in its condition have parentheses and a word before one in them. -/
def hiddenCalls : List Char :=
  "if(z)\x7bx(y) if(not(a.b(\")\")) or \x7bk: \"g(\"\x7d == c(1).d)\x7b\x7d\x7d".toList

/-- The calls in the condition of that arm. -/
def hiddenParams : List Statement :=
  [[.constant "a", .method "b" [[.constant "\")\""]] false],
    [.method "c" [[.constant "1"]] false, .constant "d"]]

/-- Its template. -/
def hiddenTemplate : String := "not(@^statement1$@) or \x7bk: \"g(\"\x7d == @^statement2$@"

theorem conditions_lifted_hiddenCalls :
    let hidden : Link := .conditional .ifArm hiddenParams hiddenTemplate []
    let block : Block := [[.conditional .ifArm [] "z" [[.method "x" [[.constant "y"]] false, hidden]]]]
    IsPlain hiddenCalls ∧ Block.parse hiddenCalls = .ok block ∧ Occurs hidden block ∧
      ∃ fragment statement gap inside phrases, LiftedArm hiddenCalls .ifArm hiddenParams hiddenTemplate
        [] fragment statement gap inside phrases := by
  intro hidden block
  have hplain : IsPlain hiddenCalls := by decide +kernel
  have hparse : Block.parse hiddenCalls = .ok block := by cbv
  have hlink : Occurs hidden block := by
    refine .inside (List.mem_singleton_self _) (List.mem_singleton_self _) ?_
    exact .here (List.mem_singleton_self _) (List.mem_cons_of_mem _ (List.mem_singleton_self _))
  exact ⟨hplain, hparse, hlink, conditions_lifted hplain hparse hlink⟩

end Cutscene
