import Cutscene.Host
import Cutscene.Runner.Settings

/-!
What a run of the program writes: lines for the player, lines for complaints and the log, and lines
for the log file. A record goes to the complaints and, if there is one, to the log file, provided
that the logger lets its level through.

Correspondence (engine ↔ here):
  `build_config`                  ↔ `Logger`
  `CONSOLE_PATTERN`               ↔ `Record.consoleLine`
  `FILE_PATTERN`, behind the date ↔ `Record.fileLine`
-/
namespace Cutscene

/-- Which records are written, and the path of the log file if there is one. A logger that could
not be set up writes none at all. -/
structure Logger where
  threshold : Threshold
  file : Option String := none

/-- A record as the console shows it, its level on five places. -/
def Record.consoleLine (record : Record) : String :=
  let name := record.level.name
  name ++ String.ofList (List.replicate (5 - name.length) ' ') ++ " " ++ record.topic.name ++ " " ++
    record.text

/-- A record as the log file holds it, without its time. -/
def Record.fileLine (record : Record) : String :=
  record.level.name ++ " " ++ record.topic.name ++ " " ++ record.text

/-- The lines written so far. -/
structure Transcript where
  output : Array String := #[]
  complaints : Array String := #[]
  log : Array String := #[]

namespace Transcript

/-- Write a line for the player. -/
def print (transcript : Transcript) (line : String) : Transcript :=
  { transcript with output := transcript.output.push (line ++ "\n") }

/-- Write text for the player that has its own line ends. -/
def printText (transcript : Transcript) (text : String) : Transcript :=
  { transcript with output := transcript.output.push text }

/-- Write several lines for the player. -/
def printAll (transcript : Transcript) (lines : List String) : Transcript :=
  lines.foldl print transcript

/-- Write a complaint, under the name of the program. -/
def complain (transcript : Transcript) (text : String) : Transcript :=
  { transcript with complaints := transcript.complaints.push ("cue: " ++ text ++ "\n") }

/-- Write a record if the logger lets it through. -/
def record (logger : Logger) (transcript : Transcript) (record : Record) : Transcript :=
  if logger.threshold.allows record.level then
    { transcript with
      complaints := transcript.complaints.push (record.consoleLine ++ "\n")
      log := if logger.file.isSome then transcript.log.push record.fileLine else transcript.log }
  else transcript

/-- Write several records. -/
def recordAll (logger : Logger) (transcript : Transcript) (records : List Record) : Transcript :=
  records.foldl (Transcript.record logger) transcript

end Transcript

/-- The record of an event that is one. -/
def Event.record? : Event → Option Record
  | .noted record => some record
  | _ => none

end Cutscene
