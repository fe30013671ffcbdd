import Cutscene.Text.Blank
import Cutscene.Text.Pass
import Cutscene.Text.Split
import Cutscene.Text.Word

/-!
Aliases. A line `#define NAME expansion` lets `NAME` stand for its expansion. Lines that define
something are taken out of the source, and the aliases are kept in the order in which they are
substituted: longer names first, so that a name is never eaten by a shorter one inside it.

Correspondence (engine ↔ here):
  `Alias`                                  ↔ `Alias`
  `define_line`, the first alias of a line ↔ `Alias.ofLine`
  `define_any`, whether a line goes        ↔ `Alias.isDefinition`
  `collect_defines`, the aliases           ↔ `Alias.collect`
  `collect_defines`, the rest              ↔ `Alias.strip`
  `substitute`                             ↔ `Alias.substitute`
-/
namespace Cutscene.Source

open Text

/-- A name and the text it stands for. -/
structure Alias where
  name : List Char
  expansion : List Char
  deriving DecidableEq, Repr

namespace Alias

/-- The word that begins a definition. -/
def keyword : List Char := ['#', 'd', 'e', 'f', 'i', 'n', 'e']

/-- The blanks that separate the parts of a definition. -/
def isGap (c : Char) : Bool := c = ' ' || c = '\t'

/-- The blanks that may end a line. -/
def isLineEnd (c : Char) : Bool := isGap c || c = '\r'

/-- The text behind the keyword, if a line begins with it. -/
def afterKeyword (line : List Char) : Option (List Char) :=
  let text := line.dropWhile isGap
  if keyword.isPrefixOf text then some (text.drop keyword.length) else none

/-- Whether a line is a definition, well formed or not: the keyword is not the start of a longer
word. -/
def isDefinition (line : List Char) : Bool :=
  match afterKeyword line with
  | some rest => !(rest.head?.any isWord)
  | none => false

/-- The alias that a line defines. The name is a run of characters that are not blank; it ends the
line, or a gap and the expansion follow it. -/
def ofLine (line : List Char) : Option Alias := do
  let rest ← afterKeyword line
  let text := rest.dropWhile isGap
  let name := text.takeWhile fun c => !isBlank c
  let tail := text.dropWhile fun c => !isBlank c
  if rest.length = text.length || name.isEmpty then none
  else if tail.all isLineEnd then some ⟨name, []⟩
  else if tail.head?.any isGap then
    some ⟨name, ((tail.dropWhile isGap).reverse.dropWhile isLineEnd).reverse⟩
  else none

/-- Whether an alias may be substituted before another: its name has more bytes, or as many and
stands later in the order of names. -/
def before (a b : Alias) : Bool :=
  byteSize b.name < byteSize a.name || (byteSize b.name = byteSize a.name && !(a.name < b.name))

/-- The aliases that a source defines, in the order of their substitution. -/
def collect (source : List Char) : List Alias :=
  ((splitOn '\n' source).filterMap ofLine).mergeSort before

/-- Lines written below one another again. -/
def joinLines : List (List Char) → List Char
  | [] => []
  | [line] => line
  | line :: lines => line ++ '\n' :: joinLines lines

/-- The lines that are no definitions. A definition goes together with its line break, so the last
line leaves an empty one behind. -/
def keepLines : List (List Char) → List (List Char)
  | [] => []
  | [line] => if isDefinition line then [[]] else [line]
  | line :: lines => if isDefinition line then keepLines lines else line :: keepLines lines

/-- A source without the lines that define aliases. -/
def strip (source : List Char) : List Char := joinLines (keepLines (splitOn '\n' source))

/-- A text with every alias expanded, one alias after the other. -/
def substitute (aliases : List Alias) (text : List Char) : List Char :=
  aliases.foldl (fun text a => replaceAll a.name a.expansion text) text

end Alias

end Cutscene.Source
