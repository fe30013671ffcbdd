import Cutscene.Library
import Cutscene.Queue
import Cutscene.Runner.Arguments
import Cutscene.Runner.Transcript
import Cutscene.Session
import Cutscene.Statement.Outline

/-!
The runner: it reads scripts, queues them in the order of the command line and plays them frame by
frame until all are finished or the limit of frames is reached. No frame is played unless every
script can be read. What the scripts write is printed after each frame.

The exit code is 0 if all scripts finished, 1 if something could not be read, and 2 if the limit of
frames was reached or the command line was refused. A program whose stack overflows while it reads a
script has no exit code of its own: it is aborted.

Correspondence (engine ↔ here):
  `main`                           ↔ `Runner.run`, `Runner.play`
  `main`, one script               ↔ `Runner.loadScript`
  `main`, one frame                ↔ `Runner.playFrame`
  `EXIT_FRAME_LIMIT`               ↔ the code of `Runner.stopped`
  `ConfigError`                    ↔ `SettingsFault`
  `Config::load_file`              ↔ `Runner.readSettings`
  `Config::resolve`, `find_config` ↔ `Runner.findSettings`
  `init_log`                       ↔ `Runner.openLog`
-/
namespace Cutscene

/-- The end of a run of the program: the exit code, what was written, and the path of the log file
that was opened. -/
structure Outcome where
  code : Nat
  transcript : Transcript
  logFile : Option String := none

namespace Runner

/-- The name of the settings file. -/
def settingsName : String := "cue.toml"

/-- Why there are no settings. -/
inductive SettingsFault where
  | unreadable (path : String) (cause : FileFault)
  | invalid (path : String)

/-- The text that reports a fault. -/
def SettingsFault.message : SettingsFault → String
  | .unreadable path cause => "cannot read " ++ path ++ ": " ++ cause.message
  | .invalid path => "invalid config " ++ path ++ ": TOML parse error"

/-- The settings in the file at a path. -/
def readSettings (files : Files) (path : String) : Except SettingsFault Settings :=
  match files.read path with
  | .error cause => .error (.unreadable path cause)
  | .ok text =>
    match Settings.parse text.toList with
    | some settings => .ok settings
    | none => .error (.invalid path)

/-- The settings of a run: of the file that the command line names, or of the one here, or of the
user's own, or the defaults. -/
def findSettings (files : Files) (userSettings : String) (named : Option String) :
    Except SettingsFault Settings :=
  match named with
  | some path => readSettings files path
  | none =>
    if files.isFile settingsName then readSettings files settingsName
    else if files.isFile userSettings then readSettings files userSettings
    else .ok {}

/-- Settings with what the command line says instead. -/
def override (settings : Settings) (arguments : Arguments) : Settings :=
  { settings with
    maxFrames := arguments.maxFrames.getD settings.maxFrames
    logLevel := arguments.logLevel.getD settings.logLevel }

/-- The logger of a run, with a complaint if its file cannot be opened. -/
def openLog (files : Files) (settings : Settings) (transcript : Transcript) :
    Logger × Transcript :=
  match settings.logFile with
  | none => ({ threshold := settings.threshold }, transcript)
  | some path =>
    match files.openable path with
    | .ok _ => ({ threshold := settings.threshold, file := some path }, transcript)
    | .error e =>
      ({ threshold := none },
        transcript.complain ("cannot open log file " ++ path ++ ": " ++ e.message))

/-! ## Scripts -/

/-- Scripts read so far. -/
structure Program where
  library : Library := {}
  queue : Queue := {}
  transcript : Transcript := {}

/-- How a program ends while it reads its scripts, with what was written so far. -/
inductive Halt where
  /-- A script cannot be read, and it says why. -/
  | refused (transcript : Transcript)
  /-- The stack overflowed while a script was read. -/
  | aborted (transcript : Transcript)

/-- The end that a script without a block brings. -/
def Halt.of (transcript : Transcript) (path : String) : LibraryError → Halt
  | .parse _ .tooDeep => .aborted transcript
  | e => .refused (transcript.complain (path ++ ": " ++ e.message))

/-- Read one more script and queue it. -/
def loadScript (files : Files) (logger : Logger) (dump : Bool) (program : Program)
    (path : String) : Except Halt Program :=
  match program.library.addFile path (files.read path) with
  | .error e =>
    .error (.refused (program.transcript.complain ("cannot read " ++ path ++ ": " ++ e.message)))
  | .ok (name, library) =>
    let reply := library.instantiate name
    let transcript := program.transcript.recordAll logger reply.records
    match reply.result with
    | .error e => .error (.of transcript path e)
    | .ok script =>
      let transcript :=
        if dump then (transcript.print ("== " ++ name)).printText script.block.outline
        else transcript
      .ok ⟨reply.state, program.queue.load script, transcript⟩

/-- The code that a shell shows for a program that was aborted. -/
def abortCode : Nat := 134

/-- The end of a run that has not come to its frames. -/
def halted (logger : Logger) : Halt → Outcome
  | .refused transcript => ⟨1, transcript, logger.file⟩
  | .aborted transcript => ⟨abortCode, transcript, logger.file⟩

/-! ## Frames -/

/-- A record of the runner itself. -/
def own (level : Level) (text : String) : Record := ⟨level, .runner, text⟩

/-- The end of a run whose scripts all finished. -/
def finished (logger : Logger) (frames : Nat) (transcript : Transcript) : Outcome :=
  let text := "all scripts finished after " ++ toString frames ++ " frame(s)"
  ⟨0, transcript.record logger (own .info text), logger.file⟩

/-- The end of a run that reached the limit of frames. -/
def stopped (logger : Logger) (limit : Nat) (queue : Queue) (transcript : Transcript) : Outcome :=
  let count := toString queue.size
  let cursor := toString ((queue.current.map Script.cursor).getD 0)
  let transcript := transcript.record logger
    (own .error ("frame limit reached with " ++ count ++ " script(s) queued"))
  ⟨2, transcript.complain ("frame limit (" ++ toString limit ++ ") reached; " ++ count ++
    " script(s) unfinished, stopped at statement " ++ cursor), logger.file⟩

/-- What a run has come to between two frames. -/
structure Scene where
  queue : Queue
  session : Session
  transcript : Transcript

/-- Play one frame, write its records, and print what the scripts wrote in it. -/
def playFrame (logger : Logger) (scene : Scene) : Scene :=
  let ((_, queue), stage) :=
    (scene.queue.runUntilBlocked Session.registry.host none).run { host := scene.session }
  let records := stage.events.toList.filterMap Event.record?
  let transcript := (scene.transcript.recordAll logger records).printAll stage.host.output
  ⟨queue, stage.host.takeOutput, transcript⟩

/-- Play frames until the queue is idle, at most `left` more after the `done` ones played so far. -/
def playFrames (logger : Logger) (limit : Nat) : Nat → Nat → Scene → Outcome
  | left, done, scene =>
    if scene.queue.isIdle then finished logger done scene.transcript
    else
      match left with
      | 0 => stopped logger limit scene.queue scene.transcript
      | left + 1 => playFrames logger limit left (done + 1) (playFrame logger scene)

/-! ## The whole run -/

/-- The session that a run starts with. Variables of the command line come last. -/
def startSession (settings : Settings) (arguments : Arguments) (chance : Nat → Nat) : Session :=
  { vars := (Vars.empty.setAll settings.session).setAll arguments.set, chance }

/-- Play the scripts of a command line with settings found. -/
def play (files : Files) (settings : Settings) (arguments : Arguments) (chance : Nat → Nat) :
    Outcome :=
  let settings := override settings arguments
  let (logger, transcript) := openLog files settings {}
  match arguments.scripts.foldlM (loadScript files logger arguments.dump)
      { transcript := transcript } with
  | .error halt => halted logger halt
  | .ok program =>
    let session := startSession settings arguments chance
    let start := own .info ("session starts with " ++ toString session.vars.size ++ " variable(s)")
    playFrames logger settings.maxFrames settings.maxFrames 0
      ⟨program.queue, session, program.transcript.record logger start⟩

/-- The text that shows how the program is called. -/
def usage : String :=
  "Usage: cue [-c <FILE>] [-n <FRAMES>] [-l <LEVEL>] [-s <KEY=VALUE>]... [-d] <SCRIPTS>..."

/-- The text that names the program and its version. -/
def version : String := "cue 0.1.0"

/-- The end of a run that the command line refuses. -/
def refuse : Refusal → Outcome
  | .help => { code := 0, transcript := Transcript.print {} usage }
  | .version => { code := 0, transcript := Transcript.print {} version }
  | _ => { code := 2, transcript := { complaints := #[usage ++ "\n"] } }

/-- Run the program on a command line. The session draws the given numbers. -/
def run (files : Files) (userSettings : String) (texts : List String)
    (chance : Nat → Nat := fun _ => 0) : Outcome :=
  match Arguments.parse texts with
  | .error refusal => refuse refusal
  | .ok arguments =>
    match findSettings files userSettings arguments.config with
    | .error e => { code := 1, transcript := Transcript.complain {} e.message }
    | .ok settings => play files settings arguments chance

end Runner

end Cutscene
