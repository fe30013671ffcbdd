/-!
Log records: how grave a record is, which part of the program it comes from, and its text.

Correspondence (engine ↔ here):
  the level of a record  ↔ `Level`
  the target of a record ↔ `Topic`
  `error!` to `trace!`   ↔ `Record`
-/
namespace Cutscene

/-- How grave a record is, gravest first. -/
inductive Level where
  | error | warn | info | debug | trace
  deriving DecidableEq, Repr

/-- A level's place in the order, one for the gravest. -/
def Level.rank : Level → Nat
  | .error => 1
  | .warn => 2
  | .info => 3
  | .debug => 4
  | .trace => 5

/-- A level as the log writes it. -/
def Level.name : Level → String
  | .error => "ERROR"
  | .warn => "WARN"
  | .info => "INFO"
  | .debug => "DEBUG"
  | .trace => "TRACE"

/-- The part of the program that a record comes from. -/
inductive Topic where
  | runner | output | evaluation | preparation | library | queue | registry
  deriving DecidableEq, Repr

/-- A topic as the log writes it. -/
def Topic.name : Topic → String
  | .runner => "cue"
  | .output => "cue::script"
  | .evaluation => "cue::script::eval"
  | .preparation => "cue::script::preprocess"
  | .library => "cue::script::library"
  | .queue => "cue::script::queue"
  | .registry => "cue::bridge"

/-- A log record. -/
structure Record where
  level : Level
  topic : Topic
  text : String
  deriving DecidableEq, Repr

end Cutscene
