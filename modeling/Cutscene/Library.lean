import Cutscene.File
import Cutscene.Host
import Cutscene.Keyed
import Cutscene.Script
import Cutscene.Statement.Visit

/-!
Named sources and the blocks they were compiled to. A source is compiled when it is first needed,
and its block is kept until another source is imported under the name.

Correspondence (engine ↔ here):
  `LibraryError`                           ↔ `LibraryError`
  `ScriptLibrary::import`, `import_file`   ↔ `Library.add`, `addFile`
  `ScriptLibrary::contains`, `is_compiled` ↔ `Library.contains`, `isCompiled`
  `ScriptLibrary::compile`                 ↔ `Library.compile`
  `ScriptLibrary::instantiate`             ↔ `Library.instantiate`
-/
namespace Cutscene

/-- Why a library has no script of a name. -/
inductive LibraryError where
  | unknown (name : String)
  | parse (name : String) (cause : ParseError)

/-- The text that reports a fault. -/
def LibraryError.message : LibraryError → String
  | .unknown name => "unknown script `" ++ name ++ "`"
  | .parse name cause => "script `" ++ name ++ "`: " ++ cause.message

/-- Sources under names, and the blocks of those that are compiled. -/
structure Library where
  sources : Keyed String := []
  compiled : Keyed Block := []

namespace Library

/-- Put a source under a name. A block compiled from an earlier one is dropped. -/
def add (library : Library) (name source : String) : Library :=
  ⟨library.sources.insert name source, library.compiled.erase name⟩

/-- Put the text of a file under the stem of its path, and give that name. A file that could not be
read leaves the library as it is. -/
def addFile (library : Library) (path : String) (content : Except FileFault String) :
    Except FileFault (String × Library) := do
  let source ← content
  return (Path.stem path, library.add (Path.stem path) source)

/-- Whether there is a source of a name. -/
def contains (library : Library) (name : String) : Bool := library.sources.contains name

/-- Whether the source of a name is compiled. -/
def isCompiled (library : Library) (name : String) : Bool := library.compiled.contains name

/-- The records of preparing a source and the bodies in it. -/
def preparations (source : String) : List Record :=
  (Block.sources source.toList).map fun text =>
    ⟨.trace, .preparation, "preprocessed: " ++ String.ofList text⟩

/-- The block of a name, compiled now if it was not before. -/
def compile (library : Library) (name : String) : Reply Library (Except LibraryError Block) :=
  match library.compiled.find? name, library.sources.find? name with
  | some block, _ => ⟨.ok block, library, []⟩
  | none, none => ⟨.error (.unknown name), library, []⟩
  | none, some source =>
    match Block.parse source.toList with
    | .error e => ⟨.error (.parse name e), library, preparations source⟩
    | .ok block =>
      let text := "compiled `" ++ name ++ "`: " ++ toString block.length ++ " statement(s)"
      ⟨.ok block, { library with compiled := library.compiled.insert name block },
        preparations source ++ [⟨.debug, .library, text⟩]⟩

/-- A run of the script of a name. -/
def instantiate (library : Library) (name : String) :
    Reply Library (Except LibraryError Script) :=
  let reply := library.compile name
  ⟨reply.result.map Script.fresh, reply.state, reply.records⟩

end Library

end Cutscene
