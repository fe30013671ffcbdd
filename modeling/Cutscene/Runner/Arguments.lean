import Cutscene.Number.Reader
import Cutscene.Text.Blank
import Cutscene.Text.Split

/-!
The arguments of the command line. Arguments are taken from left to right. An option waits for its
value, and what was given is checked only when the next recognised argument or the end settles it,
so an unknown option is found before a bad value that stands before it.

Correspondence (engine ↔ here):
  `CliArgs`                       ↔ `Arguments`
  `parse_assignment`              ↔ `Arguments.parseAssignment`
  `parse_argv`                    ↔ `Arguments.parse`
  the errors that end the program ↔ `Refusal`
-/
namespace Cutscene

/-- Why a command line starts no run. Asking for help or for the version is one of the reasons. -/
inductive Refusal where
  | missingScripts
  | unknownArgument
  | badValue
  | missingValue
  | repeated
  | uncalledForValue
  | help
  | version
  deriving DecidableEq, Repr

/-- What a command line asks for. -/
structure Arguments where
  scripts : List String := []
  config : Option String := none
  maxFrames : Option Nat := none
  logLevel : Option String := none
  set : List (String × String) := []
  dump : Bool := false
  deriving DecidableEq, Repr

/-- A text that gives a variable its value: a name that is not blank, an equals sign, the value. -/
def parseAssignment (text : String) : Except String (String × String) :=
  match Text.splitOnce '=' text.toList with
  | some (key, value) =>
    if (Text.trim key).isEmpty then .error ("expected KEY=VALUE, got `" ++ text ++ "`")
    else .ok (String.ofList (Text.trim key), String.ofList value)
  | none => .error ("expected KEY=VALUE, got `" ++ text ++ "`")

namespace Arguments

/-- An option that takes a value. -/
inductive Choice where
  | config | maxFrames | logLevel | set
  deriving DecidableEq, Repr

/-- An option that takes no value. -/
inductive Flag where
  | dump | help | version
  deriving DecidableEq, Repr

/-- The option that a letter stands for. -/
def ofLetter : Char → Option (Choice ⊕ Flag)
  | 'c' => some (.inl .config)
  | 'n' => some (.inl .maxFrames)
  | 'l' => some (.inl .logLevel)
  | 's' => some (.inl .set)
  | 'd' => some (.inr .dump)
  | 'h' => some (.inr .help)
  | 'V' => some (.inr .version)
  | _ => none

/-- The option that a word stands for. -/
def ofWord : String → Option (Choice ⊕ Flag)
  | "config" => some (.inl .config)
  | "max-frames" => some (.inl .maxFrames)
  | "log-level" => some (.inl .logLevel)
  | "set" => some (.inl .set)
  | "dump" => some (.inr .dump)
  | "help" => some (.inr .help)
  | "version" => some (.inr .version)
  | _ => none

/-- What was given but is not checked yet. -/
inductive Pending where
  | nothing
  | scripts (paths : List String)
  | option (choice : Choice) (value : Option String)

/-- Arguments read so far, and what is not checked yet. -/
structure Reading where
  arguments : Arguments := {}
  pending : Pending := .nothing

/-- Arguments with the value of an option. Only variables may be set more than once, and a path is
never empty. -/
def store (arguments : Arguments) (value : String) : Choice → Except Refusal Arguments
  | .config =>
    if arguments.config.isSome then .error .repeated
    else if value = "" then .error .missingValue
    else .ok { arguments with config := some value }
  | .maxFrames =>
    if arguments.maxFrames.isSome then .error .repeated
    else
      match Number.readNatural value.toList with
      | some n => .ok { arguments with maxFrames := some n }
      | none => .error .badValue
  | .logLevel =>
    if arguments.logLevel.isSome then .error .repeated
    else .ok { arguments with logLevel := some value }
  | .set =>
    match parseAssignment value with
    | .ok entry => .ok { arguments with set := arguments.set ++ [entry] }
    | .error _ => .error .badValue

namespace Reading

/-- Check what is pending. -/
def settle (reading : Reading) : Except Refusal Reading :=
  match reading.pending with
  | .nothing => .ok reading
  | .scripts paths =>
    if paths.contains "" then .error .missingValue
    else
      let arguments := reading.arguments
      .ok ⟨{ arguments with scripts := arguments.scripts ++ paths }, .nothing⟩
  | .option _ none => .error .missingValue
  | .option choice (some value) => do
    return ⟨← reading.arguments.store value choice, .nothing⟩

/-- Take an option with the value that came with it, if one did. -/
def takeChoice (reading : Reading) (choice : Choice) (value : Option String) :
    Except Refusal Reading := do
  let reading ← reading.settle
  match value with
  | some value => return ⟨← reading.arguments.store value choice, .nothing⟩
  | none => return { reading with pending := .option choice none }

/-- Take an option without a value. -/
def takeFlag (reading : Reading) (flag : Flag) : Except Refusal Reading := do
  let reading ← reading.settle
  match flag with
  | .help => throw .help
  | .version => throw .version
  | .dump =>
    if reading.arguments.dump then throw .repeated
    else return { reading with arguments := { reading.arguments with dump := true } }

/-- Take a cluster of letters behind a dash. A letter whose option takes a value takes the rest of
the cluster for it, without an equals sign before it. -/
def takeLetters (reading : Reading) : List Char → Except Refusal Reading
  | [] => .ok reading
  | letter :: rest =>
    match ofLetter letter with
    | none => .error .unknownArgument
    | some (.inr flag) => do (← reading.takeFlag flag).takeLetters rest
    | some (.inl choice) =>
      if rest.isEmpty then reading.takeChoice choice none
      else
        let value := if rest.head? = some '=' then rest.drop 1 else rest
        reading.takeChoice choice (some (String.ofList value))

/-- Take a word behind two dashes. -/
def takeWord (reading : Reading) (text : List Char) : Except Refusal Reading :=
  let (word, value) := match Text.splitOnce '=' text with
    | some (word, value) => (word, some (String.ofList value))
    | none => (text, none)
  match ofWord (String.ofList word), value with
  | none, _ => .error .unknownArgument
  | some (.inl choice), value => reading.takeChoice choice value
  | some (.inr flag), none => reading.takeFlag flag
  | some (.inr _), some _ => .error .uncalledForValue

/-- Take the path of a script. -/
def takeScript (reading : Reading) (path : String) : Except Refusal Reading :=
  match reading.pending with
  | .scripts paths => .ok { reading with pending := .scripts (paths ++ [path]) }
  | _ => do return { ← reading.settle with pending := .scripts [path] }

/-- Take an argument that is no option: a value that is waited for, or the path of a script. -/
def takePlain (reading : Reading) (text : String) : Except Refusal Reading :=
  match reading.pending with
  | .option choice none => .ok { reading with pending := .option choice (some text) }
  | _ => reading.takeScript text

/-- Take all arguments. Behind two dashes alone there are only scripts. -/
def takeAll (reading : Reading) : List String → Except Refusal Reading
  | [] => .ok reading
  | text :: texts =>
    match text.toList with
    | ['-', '-'] => texts.foldlM takeScript reading
    | '-' :: '-' :: word => do (← reading.takeWord word).takeAll texts
    | ['-'] => do (← reading.takePlain text).takeAll texts
    | '-' :: letters => do (← reading.takeLetters letters).takeAll texts
    | _ => do (← reading.takePlain text).takeAll texts

end Reading

/-- The arguments that a command line gives. There must be a script. -/
def parse (texts : List String) : Except Refusal Arguments := do
  let reading ← (← Reading.takeAll {} texts).settle
  if reading.arguments.scripts.isEmpty then throw .missingScripts else return reading.arguments

end Arguments

end Cutscene
