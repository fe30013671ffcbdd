import Cutscene.Runner
import Std.Time.Format

/-!
The command line program. It reads the files that a run may need, lets the runner decide
everything, and then writes what the runner left.

Correspondence (engine ↔ here):
  `main`, its arguments and files ↔ `Main.run`
  `thread_rng`                    ↔ `Main.drawn`
-/
namespace Cutscene.Main

/-- The fault that an error of the system stands for. -/
def faultOf : IO.Error → FileFault
  | .noFileOrDirectory .. => .notFound
  | .alreadyExists .. => .exists
  | .inappropriateType _ code _ => if code = 20 then .notDirectory else .isDirectory
  | e => .other (toString e)

/-- The text of the file at a path. -/
def readFile (path : String) : IO (Except FileFault String) := do
  try
    match String.fromUTF8? (← IO.FS.readBinFile path) with
    | some text => return .ok text
    | none => return .error .invalidText
  catch e => return .error (faultOf e)

/-- Open a file for appending, with the directories above it. -/
def openFile (path : String) : IO (Except FileFault IO.FS.Handle) := do
  try
    let above := "/".intercalate (Path.components path).dropLast
    if above ≠ "" then IO.FS.createDirAll above
    return .ok (← IO.FS.Handle.mk path .append)
  catch e => return .error (faultOf e)

/-- Files of which some have been read. -/
def filesOf (texts : List (String × Except FileFault String)) (log : Except FileFault Unit) :
    Files where
  read path := (texts.lookup path).getD (.error .notFound)
  isFile path :=
    match texts.lookup path with
    | some (.ok _) => true
    | some (.error .invalidText) => true
    | _ => false
  openable _ := log

/-- The path of the user's own settings. -/
def userSettings : IO String := do
  let home := (← IO.getEnv "HOME").getD ""
  let directory := ((← IO.getEnv "XDG_CONFIG_HOME").filter fun d => d.startsWith "/").getD
    (home ++ "/.config")
  return directory ++ "/cue/" ++ Runner.settingsName

/-- The time now, as it stands before a line of the log file. -/
def timestamp : IO String := do
  return (← Std.Time.PlainDateTime.now).format "uuuu-MM-dd HH:mm:ss"

/-- The log file that a command line and the files around ask for. -/
def logFileOf (files : Files) (user : String) (arguments : Arguments) : Option String :=
  match Runner.findSettings files user arguments.config with
  | .ok settings => settings.logFile
  | .error _ => none

/-- The numbers that a generator gives, by their index. -/
def drawn (generator : StdGen) : Nat → Nat
  | 0 => (stdNext generator).1
  | index + 1 => drawn (stdNext generator).2 index

/-- Run the program. -/
def run (texts : List String) : IO UInt32 := do
  let user ← userSettings
  let arguments := ((Arguments.parse texts).toOption).getD {}
  let paths := arguments.config.toList ++ [Runner.settingsName, user] ++ arguments.scripts
  let read ← paths.mapM fun path => return (path, ← readFile path)
  let log ← match logFileOf (filesOf read (.ok ())) user arguments with
    | some path => do pure (some (← openFile path))
    | none => pure none
  let openable := ((log.map fun handle => handle.map fun _ => ()).getD (.ok ()))
  let generator := mkStdGen (← IO.rand 0 0xFFFFFFFF)
  let outcome := Runner.run (filesOf read openable) user texts (drawn generator)
  outcome.transcript.output.forM fun text => IO.print text
  outcome.transcript.complaints.forM fun text => IO.eprint text
  match log with
  | some (.ok handle) => do
    let time ← timestamp
    outcome.transcript.log.forM fun line => handle.putStrLn (time ++ " " ++ line)
  | _ => pure ()
  return outcome.code.toUInt32

end Cutscene.Main

def main (texts : List String) : IO UInt32 := Cutscene.Main.run texts
