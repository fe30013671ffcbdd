import Cutscene.Statement.Condition
import Cutscene.Statement.Tree
import Cutscene.Text.Blank
import Cutscene.Text.Placeholder

/-!
The shape of a statement: its links with the texts nested in them still unread. Literals, objects
and argument lists of a fragment are hidden while it is split at points; each piece is then a link
of one of the kinds. Texts inside a shape have their literals and objects back.

Correspondence (engine ↔ here):
  `Literals`, `Literals::restore`    ↔ `Hidden`, `Hidden.restore`
  `parse_statement`, up to its links ↔ `Shape.ofFragment`
  `parse_link`, up to what it reads  ↔ `Shape.ofPiece`
  `parse_body`, up to `parse_block`  ↔ `Shape.bodyText`
  `split_top_level`                  ↔ `Shape.splitArguments`
  `is_number`                        ↔ `Shape.isNumber`
-/
namespace Cutscene

open Text

/-- The literals and objects that are hidden while a statement is split. -/
structure Hidden where
  strings : Placeholders
  objects : Placeholders

/-- A text with the objects and then the literals put back. -/
def Hidden.restore (hidden : Hidden) (text : List Char) : List Char :=
  hidden.strings.restore (hidden.objects.restore text)

/-- A link with the texts nested in it still unread. A body that is missing is `none`. -/
inductive Shape where
  /-- Nothing between two points. -/
  | empty
  /-- A link with nothing nested in it. -/
  | leaf (link : Link)
  | conditional (arm : Arm) (phrases : List (List Char)) (template : String)
      (body : Except ScriptFault (Option (List Char)))
  | each (subject : List Char) (body : Except ScriptFault (Option (List Char)))
  | range (low high : List Char) (body : Except ScriptFault (Option (List Char)))
  /-- A call, with the text that follows it in the same piece. -/
  | method (name : String) (simultaneous : Bool) (params : List (List Char))
      (trailing : Option (List Char))

/-- The parts of an argument list between the commas outside its parentheses and brackets, for a
text at a depth of these. -/
def splitArgumentsFrom : Int → List Char → List (List Char)
  | _, [] => [[]]
  | depth, c :: rest =>
    if c = ',' && depth = 0 then [] :: splitArgumentsFrom depth rest
    else
      let deeper : Int :=
        if c = '(' || c = '[' then depth + 1 else if c = ')' || c = ']' then depth - 1 else depth
      match splitArgumentsFrom deeper rest with
      | [] => [[c]]
      | part :: parts => (c :: part) :: parts

/-- The parts of an argument list. There is always at least one. -/
def splitArguments (text : List Char) : List (List Char) := splitArgumentsFrom 0 text

/-- Whether a text is a number on its own: an optional sign and digits with at most one point. -/
def isNumber (text : List Char) : Bool :=
  let digits := if text.head? = some '-' || text.head? = some '+' then text.drop 1 else text
  digits.all (fun c => c.isDigit || c = '.') && digits.any Char.isDigit && digits.count '.' ≤ 1

namespace Shape

/-- The shape of a piece without an argument list. -/
def ofBare (text : List Char) : Shape :=
  if text.isEmpty then .empty
  else if text = ['t', 'h', 'i', 's'] then .leaf .this
  else if text.head? = some '\x7b' then .leaf (.object (String.ofList text))
  else .leaf (.constant (String.ofList text))

/-- The text between the braces that follow the parentheses of a control link, if there are
braces. -/
def bodyText (hidden : Hidden) (rest : List Char) : Except ScriptFault (Option (List Char)) :=
  let text := hidden.objects.restore (trim rest)
  match splitOnce '\x7b' text with
  | none => .ok none
  | some (_, body) =>
    match Delimiter.brace.close body with
    | some n => .ok (some (hidden.strings.restore (body.take n)))
    | none => .error (.unclosed '\x7b' '\x7d' ('\x7b' :: body))

/-- The shape of an arm of a conditional chain. -/
def ofConditional (hidden : Hidden) (arm : Arm) (arguments rest : List Char) : Shape :=
  let parts := Condition.parts (trim arguments)
  .conditional arm ((Condition.phrases parts).map hidden.restore)
    (String.ofList (hidden.restore (Condition.template parts))) (bodyText hidden rest)

/-- The shape of a range, which needs two bounds. -/
def ofRange (hidden : Hidden) (arguments rest : List Char) : Except ScriptFault Shape :=
  match splitArguments arguments with
  | [low, high] => .ok (.range (hidden.restore low) (hidden.restore high) (bodyText hidden rest))
  | _ => .error (.rangeBounds (hidden.restore arguments))

/-- The shape of a call. A leading plus is no part of the name. -/
def ofMethod (hidden : Hidden) (name arguments rest : List Char) : Shape :=
  let simultaneous := name.head? = some '+'
  let name := if simultaneous then trim (name.drop 1) else name
  let params := if (trim arguments).isEmpty then [] else splitArguments arguments
  .method (String.ofList name) simultaneous (params.map hidden.restore)
    (if (trim rest).isEmpty then none else some (hidden.restore rest))

/-- The shape of a link that has an argument list, by the name before it. -/
def ofCall (hidden : Hidden) (name arguments rest : List Char) : Except ScriptFault Shape :=
  match Arm.ofName (String.ofList name) with
  | some arm => .ok (ofConditional hidden arm arguments rest)
  | none =>
    if name = ['e', 'a', 'c', 'h'] then
      .ok (.each (hidden.restore arguments) (bodyText hidden rest))
    else if name = ['r', 'a', 'n', 'g', 'e'] then ofRange hidden arguments rest
    else .ok (ofMethod hidden name arguments rest)

/-- The shape of a piece between points, with its argument lists back in it. -/
def ofPiece (hidden : Hidden) (piece : List Char) : Except ScriptFault Shape :=
  let piece := trim piece
  match splitOnce '(' piece with
  | none => .ok (ofBare (hidden.restore piece))
  | some (name, behind) =>
    match Delimiter.parenthesis.close behind with
    | none => .error (.unclosed '(' ')' ('(' :: behind))
    | some n => ofCall hidden (trim name) (behind.take n) (behind.drop (n + 1))

/-- The shapes of a fragment that is neither blank nor a number. -/
def ofChain (fragment : List Char) : Except ScriptFault (List (Except ScriptFault Shape)) := do
  let (text, strings) ← hide .string {} fragment (.tagged "string")
  let (text, strings) := hideQuoted text strings
  let (text, objects) ← hide .brace {} text (.tagged "object")
  let (text, params) ← hide .parenthesis {} text (.tagged "param")
  return (splitOn '.' text).map fun piece => ofPiece ⟨strings, objects⟩ (params.restore piece)

/-- The shapes of the links of a fragment. A piece that has no shape is found only when the links
before it have been read. -/
def ofFragment (fragment : List Char) : Except ScriptFault (List (Except ScriptFault Shape)) :=
  let fragment := trim fragment
  if fragment.isEmpty then .ok []
  else if isNumber fragment then .ok [.ok (.leaf (.constant (String.ofList fragment)))]
  else ofChain fragment

end Shape

end Cutscene
