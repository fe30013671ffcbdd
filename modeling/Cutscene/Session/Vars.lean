import Cutscene.Keyed
import Cutscene.Number.Reader
import Cutscene.Number.Text
import Cutscene.Text.Blank

/-!
Session variables: the texts that scripts remember between cutscenes, under names. They are kept in
the order of their names, so the names with a common start stand side by side. A variable that was
never set reads as the empty text.

Correspondence (engine ↔ here):
  `VarStore`                             ↔ `Vars`
  `VarStore::set`, `get`, `get_or_empty` ↔ `Vars.set`, `get?`, `get`
  `VarStore::increment`                  ↔ `Vars.increment`
  `VarStore::names_with_prefix`          ↔ `Vars.namesFrom`
  `VarStore::len`, `extend`              ↔ `Vars.size`, `setAll`
-/
namespace Cutscene

/-- The variables of a session. -/
structure Vars where
  entries : Keyed String := []
  ordered : entries.Ordered := by exact List.Pairwise.nil

namespace Vars

/-- No variables. -/
def empty : Vars := {}

/-- Set a variable, or replace its text. -/
def set (vars : Vars) (name text : String) : Vars :=
  ⟨vars.entries.insert name text, Keyed.ordered_insert name text vars.ordered⟩

/-- Set several variables, one after the other. -/
def setAll (vars : Vars) (entries : List (String × String)) : Vars :=
  entries.foldl (fun vars e => vars.set e.1 e.2) vars

/-- The text of a variable, if it was ever set. -/
def get? (vars : Vars) (name : String) : Option String := vars.entries.find? name

/-- The text of a variable, empty if it was never set. -/
def get (vars : Vars) (name : String) : String := (vars.get? name).getD ""

/-- The number of variables. -/
def size (vars : Vars) : Nat := vars.entries.length

/-- The text of a variable with an amount added to it. What is no number counts as zero. -/
def incremented (vars : Vars) (name : String) (amount : Float) : String :=
  Number.sumText ((Number.readReal (Text.trim (vars.get name).toList)).getD 0 + amount)

/-- Add an amount to a variable. -/
def increment (vars : Vars) (name : String) (amount : Float) : Vars :=
  vars.set name (vars.incremented name amount)

/-- Whether a name starts with a text. -/
def startsWith (start name : String) : Bool := start.toList.isPrefixOf name.toList

/-- The names that start with a text, in order: they begin where the text itself would stand, and
end at the first name that does not start with it. -/
def namesFrom (vars : Vars) (start : String) : List String :=
  ((vars.entries.map (·.1)).dropWhile (· < start)).takeWhile (startsWith start)

end Vars

end Cutscene
