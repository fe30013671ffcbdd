import Cutscene.ParseError
import Cutscene.Text.Pass
import Cutscene.Text.Piece

/-!
Placeholders: short names that stand for hidden spans of a text, so that the text can be split
without cutting through a span. A table hands out the names `@^tag:0$@`, `@^tag:1$@`, … and
remembers what each of them stands for; `restore` puts the spans back.

Correspondence (engine ↔ here):
  `PlaceholderTable`                              ↔ `Placeholders`
  `PlaceholderTable::new`, `len`                  ↔ `Placeholders.tagged`, `size`
  `PlaceholderTable::insert`                      ↔ `Placeholders.insert`
  `PlaceholderTable::restore`                     ↔ `Placeholders.restore`
  `extract`, its suffix and whether delimiters go ↔ `hide`, `SpanStyle`
  `hide_quoted`                                   ↔ `hideQuoted`
-/
namespace Cutscene.Text

/-- The spans hidden so far under one tag. The span at index `n` is named after `n`. -/
structure Placeholders where
  tag : List Char
  spans : List (List Char) := []
  deriving DecidableEq, Repr

namespace Placeholders

/-- The empty table of a tag. -/
def tagged (tag : String) : Placeholders := ⟨tag.toList, []⟩

/-- The number of spans that a table holds. -/
def size (table : Placeholders) : Nat := table.spans.length

/-- The name of the span at an index. -/
def name (table : Placeholders) (index : Nat) : List Char :=
  '@' :: '^' :: table.tag ++ ':' :: Nat.toDigits 10 index ++ ['$', '@']

/-- Remember one more span. -/
def insert (table : Placeholders) (span : List Char) : Placeholders :=
  { table with spans := table.spans ++ [span] }

/-- The first of the given spans, numbered from `index` on, whose name begins a text. -/
def spanNamed (table : Placeholders) (text : List Char) : Nat → List (List Char) → Option Edit
  | _, [] => none
  | index, span :: spans =>
    if (table.name index).isPrefixOf text then some ⟨span, (table.name index).length⟩
    else spanNamed table text (index + 1) spans

/-- The edit that writes a span where its name stands. -/
def restoring (table : Placeholders) : List Char → Option Edit
  | '@' :: '^' :: rest => spanNamed table ('@' :: '^' :: rest) 0 table.spans
  | _ => none

/-- A text with every name of the table replaced by its span, in one pass: a name inside a span is
left as it is. -/
def restore (table : Placeholders) (text : List Char) : List Char := pass table.restoring text

end Placeholders

/-- How a hidden span is written. -/
structure SpanStyle where
  /-- Whether the delimiters are hidden along with what they enclose. -/
  inclusive : Bool := true
  /-- The text written behind the name. -/
  suffix : List Char := []

/-- The part of a span that the table remembers. -/
def SpanStyle.hidden (style : SpanStyle) (span : List Char) : List Char :=
  if style.inclusive then span else span.tail.dropLast

/-- What is written in the place of a span. -/
def SpanStyle.written (style : SpanStyle) (name span : List Char) : List Char :=
  if style.inclusive then name ++ style.suffix
  else span.take 1 ++ name ++ style.suffix ++ span.drop (span.length - 1)

/-- Hide the spans of a cut text, and give the text with names in their places together with the
table that remembers them. -/
def conceal (style : SpanStyle) : List Piece → Placeholders → List Char × Placeholders
  | [], table => ([], table)
  | .plain c :: pieces, table =>
    let hidden := conceal style pieces table
    (c :: hidden.1, hidden.2)
  | .span span :: pieces, table =>
    let hidden := conceal style pieces (table.insert (style.hidden span))
    (style.written (table.name table.size) span ++ hidden.1, hidden.2)
  | .unclosed text :: _, table => (text, table)

/-- Hide every outermost span of a pair of delimiters. -/
def hide (d : Delimiter) (style : SpanStyle) (text : List Char) (table : Placeholders) :
    Except ScriptFault (List Char × Placeholders) :=
  let pieces := d.cut text
  match unclosedText pieces with
  | some rest => .error (.unclosed d.opener d.closer rest)
  | none => .ok (conceal style pieces table)

/-- Hide the literals in single quotes. -/
def hideQuoted (text : List Char) (table : Placeholders) : List Char × Placeholders :=
  conceal {} (cutQuoted text) table

end Cutscene.Text
