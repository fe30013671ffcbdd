import Cutscene.Keyed
import Cutscene.Record
import Cutscene.Runner.Document

/-!
The settings of the runner: how many frames to play at most, what to log and where, and the
variables that a session starts with. Each setting is given at most once, and the variables are
given in one table, as a table in braces, under a head or one by one. A moment in place of the table
counts as a table of one variable.

Correspondence (engine ↔ here):
  `Config`, its defaults ↔ `Settings`
  `Config::load_str`     ↔ `Settings.parse`
  `Config::level_filter` ↔ `Settings.threshold`
  `LevelFilter`          ↔ `Threshold`
-/
namespace Cutscene

/-- What a log lets through: the records that are at least as grave as a level, or none. -/
abbrev Threshold := Option Level

/-- Whether a threshold lets a level through. -/
def Threshold.allows (threshold : Threshold) (level : Level) : Bool :=
  threshold.any fun least => level.rank ≤ least.rank

/-- The threshold of a name in any case. An unknown name lets warnings through. -/
def Threshold.ofName (name : String) : Threshold :=
  match String.ofList (name.toList.map Char.toLower) with
  | "off" => none
  | "error" => some .error
  | "warn" => some .warn
  | "info" => some .info
  | "debug" => some .debug
  | "trace" => some .trace
  | _ => some .warn

/-- Settings. -/
structure Settings where
  maxFrames : Nat := 10000
  logLevel : String := "warn"
  logFile : Option String := none
  session : Keyed String := []

namespace Settings

/-- What the settings let through to the log. -/
def threshold (settings : Settings) : Threshold := .ofName settings.logLevel

/-- How the table of variables was begun. -/
inductive Opening where
  | unopened
  /-- By keys that lead into it, which more such keys may follow. -/
  | keys
  /-- By a head or in braces, as a whole. -/
  | whole
  deriving DecidableEq, Repr

/-- Settings gathered from the first lines of a document. -/
structure Draft where
  maxFrames : Option Nat := none
  logLevel : Option String := none
  logFile : Option String := none
  session : Keyed String := []
  opening : Opening := .unopened
  /-- Whether the head of the table was met, so that pairs belong to it. -/
  inside : Bool := false

namespace Draft

/-- A draft with one more variable, which must be new. -/
def setVariable (draft : Draft) (name text : String) : Option Draft :=
  if draft.session.contains name then none
  else some { draft with session := draft.session.insert name text }

/-- A draft with a whole table of variables. -/
def setTable (draft : Draft) (entries : List (String × String)) : Option Draft :=
  if draft.opening ≠ .unopened then none
  else entries.foldlM (fun draft e => draft.setVariable e.1 e.2) { draft with opening := .whole }

/-- The name under which a moment is an entry of a table. -/
def momentName : String := "$__toml_private_datetime"

/-- A draft with one more setting. -/
def setOne (draft : Draft) : String → Document.Scalar → Option Draft
  | "max_frames", .number n =>
    if draft.maxFrames.isSome then none else some { draft with maxFrames := some n }
  | "log_level", .text s =>
    if draft.logLevel.isSome then none else some { draft with logLevel := some s }
  | "log_file", .text s =>
    if draft.logFile.isSome then none else some { draft with logFile := some s }
  | "session", .table entries => draft.setTable entries
  | "session", .moment m => draft.setTable [(momentName, String.ofList m.write)]
  | _, _ => none

/-- A draft with one more line. -/
def add (draft : Draft) : Document.Line → Option Draft
  | .head ["session"] =>
    if draft.opening = .unopened then some { draft with opening := .whole, inside := true }
    else none
  | .head _ => none
  | .pair [key] value =>
    if draft.inside then
      match value with
      | .text s => draft.setVariable key s
      | _ => none
    else draft.setOne key value
  | .pair ["session", name] (.text s) =>
    if draft.inside || draft.opening = .whole then none
    else { draft with opening := .keys }.setVariable name s
  | .pair _ _ => none

/-- The settings of a finished draft. -/
def finish (draft : Draft) : Settings where
  maxFrames := draft.maxFrames.getD ({} : Settings).maxFrames
  logLevel := draft.logLevel.getD ({} : Settings).logLevel
  logFile := draft.logFile
  session := draft.session

end Draft

/-- The settings that a document holds. -/
def parse (text : List Char) : Option Settings := do
  let lines ← Document.lines text
  return (← lines.foldlM Draft.add {}).finish

end Settings

end Cutscene
