import Cutscene.Text.Split

/-!
Files as the program sees them: a path either gives a text or a reason why it does not. A disk is a
set of files below one directory, and a directory is there if a file lies below it.

Correspondence (engine ↔ here):
  `fs::read_to_string`                 ↔ `Files.read`, `Disk.readText`
  `Path::is_file`                      ↔ `Files.isFile`, `Disk.isFile`
  `Path::file_stem`                    ↔ `Path.stem`
  opening the file of a `FileAppender` ↔ `Files.openable`, `Disk.openForWriting`
-/
namespace Cutscene

/-- Why a file could not be opened or read. -/
inductive FileFault where
  | notFound
  | exists
  | notDirectory
  | isDirectory
  /-- The bytes of the file are no text. -/
  | invalidText
  /-- Any other reason, in the words of the system. -/
  | other (text : String)
  deriving DecidableEq, Repr

/-- The text that reports a fault. -/
def FileFault.message : FileFault → String
  | .notFound => "No such file or directory (os error 2)"
  | .exists => "File exists (os error 17)"
  | .notDirectory => "Not a directory (os error 20)"
  | .isDirectory => "Is a directory (os error 21)"
  | .invalidText => "stream did not contain valid UTF-8"
  | .other text => text

namespace Path

/-- The components of a path between its slashes. -/
def components (path : String) : List String := (Text.splitOn '/' path.toList).map String.ofList

/-- A file name without its extension. A point at the start begins no extension. -/
def stemOf (name : List Char) : List Char :=
  let behind := (name.reverse.takeWhile (· ≠ '.')).length
  if behind + 1 < name.length then name.take (name.length - behind - 1) else name

/-- The name of the file that a path leads to, without its extension; the path itself if it leads
to no file. -/
def stem (path : String) : String :=
  match ((components path).filter fun c => c ≠ "" && c ≠ ".").getLast? with
  | some ".." => path
  | some name => String.ofList (stemOf name.toList)
  | none => path

end Path

/-- What the program can learn of the files around it. -/
structure Files where
  /-- The text of the file at a path. -/
  read : String → Except FileFault String
  /-- Whether a path leads to a file. -/
  isFile : String → Bool
  /-- Whether a file at a path can be opened for writing. -/
  openable : String → Except FileFault Unit

/-- Files with their paths from one directory, given by components. -/
structure Disk where
  files : List (List String × ByteArray) := []

namespace Disk

/-- The disk that holds the given files; of two with one path the later counts. -/
def ofFiles (files : List (String × ByteArray)) : Disk :=
  ⟨(files.map fun (path, bytes) =>
    ((Path.components path).filter fun c => c ≠ "" && c ≠ ".", bytes)).reverse⟩

/-- The bytes of the file at a place. -/
def file? (disk : Disk) (place : List String) : Option ByteArray := disk.files.lookup place

/-- Whether a place is a directory. -/
def isDirectory (disk : Disk) (place : List String) : Bool :=
  place.isEmpty || disk.files.any fun file => place.isPrefixOf file.1 && place ≠ file.1

/-- The place that components lead to from a place. -/
def walk (disk : Disk) (place : List String) : List String → Except FileFault (List String)
  | [] => .ok place
  | name :: names =>
    if !disk.isDirectory place then .error .notDirectory
    else if name = "" || name = "." then disk.walk place names
    else if name = ".." then
      if place.isEmpty then .error .notFound else disk.walk place.dropLast names
    else
      let next := place ++ [name]
      if (disk.file? next).isSome || disk.isDirectory next then disk.walk next names
      else .error .notFound

/-- The place that a path leads to. Nothing outside the directory is there. -/
def locate (disk : Disk) (path : String) : Except FileFault (List String) :=
  if path = "" then .error .notFound
  else if path.toList.all (· = '/') then .ok []
  else if path.toList.head? = some '/' then .error .notFound
  else disk.walk [] (Path.components path)

/-- Whether a path leads to a file. -/
def isFile (disk : Disk) (path : String) : Bool :=
  match disk.locate path with
  | .ok place => (disk.file? place).isSome
  | .error _ => false

/-- The text of the file that a path leads to. -/
def readText (disk : Disk) (path : String) : Except FileFault String := do
  let place ← disk.locate path
  match disk.file? place with
  | none => .error .isDirectory
  | some bytes =>
    match String.fromUTF8? bytes with
    | some text => .ok text
    | none => .error .invalidText

/-- Whether a file can be opened for writing at a path, with the directories above it made where
they are missing. -/
def openForWriting (disk : Disk) (path : String) : Except FileFault Unit :=
  let names := Path.components path
  let above := names.dropLast.filter fun c => c ≠ "" && c ≠ "."
  if path = "" then .error .notFound
  else if (disk.file? above).isSome then .error .exists
  else if (List.range above.length).any fun n => (disk.file? (above.take n)).isSome then
    .error .notDirectory
  else
    match disk.locate path with
    | .ok place => if (disk.file? place).isSome then .ok () else .error .isDirectory
    | .error .notFound => .ok ()
    | .error e => .error e

/-- The files of a disk. -/
def toFiles (disk : Disk) : Files := ⟨disk.readText, disk.isFile, disk.openForWriting⟩

end Disk

end Cutscene
