import Cutscene.Runner
import Cutscene.Proofs.Play.Throughout
import Cutscene.Proofs.Statement.Endless

/-!
What the runner queues, and what it says of files that it cannot queue.

All files of a command line go through one library, under the stems of their paths, and different files
may well have one stem. But each is asked for right after it was taken in, and taking it in drops the
block that was kept under its stem. So whatever the library holds, what comes out is what the file holds
by itself (`blockOf`, `instantiate_add`), and reading a file is one step that only adds (`Loaded`): a
fresh script to the queue, the records of reading it, and its outline where one is asked for. The files
that come after one that holds no block are not read.

`queues_each_file` is what follows for a whole command line: either the frames begin with one fresh
script for each file, or one of the files is the first without a block, and where there is a complaint
about it, all that is written is written by reading. What `QueuesOrFails` says is not true of all command
lines: some name no script, some come with settings that cannot be read, and some files have no complaint
that could be made, since reading them does not end (`not_queuesOrFails`).
-/
namespace Cutscene

/-! ## What is written -/

namespace Logger

/-- The records that are let through. -/
def passed (logger : Logger) (records : List Record) : List Record :=
  records.filter fun record => logger.threshold.allows record.level

/-- The lines that records add to the complaints. -/
def consoleLines (logger : Logger) (records : List Record) : List String :=
  (logger.passed records).map fun record => record.consoleLine ++ "\n"

/-- The lines that records add to the log file. -/
def fileLines (logger : Logger) (records : List Record) : List String :=
  if logger.file.isSome then (logger.passed records).map Record.fileLine else []

theorem consoleLines_append (logger : Logger) (a b : List Record) :
    logger.consoleLines (a ++ b) = logger.consoleLines a ++ logger.consoleLines b := by
  simp [consoleLines, passed]

theorem fileLines_append (logger : Logger) (a b : List Record) :
    logger.fileLines (a ++ b) = logger.fileLines a ++ logger.fileLines b := by
  unfold fileLines
  split <;> simp [passed]

end Logger

namespace Transcript

variable (logger : Logger) (transcript : Transcript)

@[simp] theorem output_print (line : String) :
    (transcript.print line).output.toList = transcript.output.toList ++ [line ++ "\n"] := by
  simp [print]

@[simp] theorem output_printText (text : String) :
    (transcript.printText text).output.toList = transcript.output.toList ++ [text] := by
  simp [printText]

@[simp] theorem output_complain (text : String) :
    (transcript.complain text).output = transcript.output := rfl

@[simp] theorem output_record (record : Record) :
    (transcript.record logger record).output = transcript.output := by
  unfold Transcript.record
  split <;> rfl

/-- Records are written to the complaints and to the log file, and nowhere else. -/
theorem recordAll_eq (records : List Record) :
    transcript.recordAll logger records = ⟨transcript.output,
      transcript.complaints ++ (logger.consoleLines records).toArray,
      transcript.log ++ (logger.fileLines records).toArray⟩ := by
  induction records generalizing transcript with
  | nil => simp [recordAll, Logger.consoleLines, Logger.fileLines, Logger.passed]
  | cons record records ih =>
    rw [recordAll, List.foldl_cons, ← recordAll, ih]
    unfold Transcript.record Logger.consoleLines Logger.fileLines Logger.passed
    by_cases hallowed : logger.threshold.allows record.level = true <;>
      by_cases hfile : logger.file.isSome = true <;> simp [hallowed, hfile]

@[simp] theorem output_recordAll (records : List Record) :
    (transcript.recordAll logger records).output = transcript.output := by
  rw [recordAll_eq]

@[simp] theorem output_printAll (lines : List String) :
    (transcript.printAll lines).output.toList =
      transcript.output.toList ++ lines.map (· ++ "\n") := by
  induction lines generalizing transcript with
  | nil => simp [printAll]
  | cons line lines ih =>
    rw [printAll, List.foldl_cons, ← printAll, ih, output_print, List.map_cons, List.append_assoc]
    rfl

end Transcript

namespace Runner

/-! ## A file by itself -/

/-- Why a file holds no block. -/
inductive Unread where
  /-- It cannot be read or has a fault, and this is said of it. -/
  | complaint (text : String)
  /-- Reading it goes down too deep for the stack. -/
  | overflow
  deriving DecidableEq, Repr

/-- Why a file holds no block whose text was not read. -/
def Unread.of (path : String) : ParseError → Unread
  | .tooDeep => .overflow
  | .fault cause => .complaint (path ++ ": " ++ (LibraryError.parse (Path.stem path) cause).message)

/-- The block that a file holds, or why it holds none. -/
def blockOf (files : Files) (path : String) : Except Unread Block :=
  match files.read path with
  | .error cause => .error (.complaint ("cannot read " ++ path ++ ": " ++ cause.message))
  | .ok source => (Block.parse source.toList).mapError (.of path)

theorem blockOf_of_read {files : Files} {path source : String} (h : files.read path = .ok source) :
    blockOf files path = (Block.parse source.toList).mapError (.of path) := by
  rw [blockOf, h]

theorem blockOf_eq_ok_iff {files : Files} {path : String} {block : Block} :
    blockOf files path = .ok block ↔
      ∃ source, files.read path = .ok source ∧ Block.parse source.toList = .ok block := by
  unfold blockOf
  cases files.read path with
  | error cause => simp
  | ok source => cases hparse : Block.parse source.toList <;> simp [hparse, Except.mapError]

/-- How the program ends over a file that holds no block. -/
def Unread.halt (transcript : Transcript) : Unread → Halt
  | .complaint text => .refused (transcript.complain text)
  | .overflow => .aborted transcript

/-- The records of reading a file: those of a library that holds nothing else. -/
def readingRecords (files : Files) (path : String) : List Record :=
  match files.read path with
  | .error _ => []
  | .ok source => ((({} : Library).add (Path.stem path) source).instantiate (Path.stem path)).records

/-- What is written of the block of a file, if outlines were asked for. -/
def outlineOf (path : String) (block : Block) : List String :=
  ["== " ++ Path.stem path ++ "\n", block.outline]

/-- The same of several files, nothing unless outlines were asked for. -/
def outlines (dump : Bool) (paths : List String) (blocks : List Block) : List String :=
  if dump then (List.zipWith outlineOf paths blocks).flatten else []

/-- The block of a source that was just taken in does not depend on what else a library holds. -/
theorem instantiate_add (library : Library) (name source : String) :
    ((library.add name source).instantiate name).result =
      ((Block.parse source.toList).mapError (.parse name)).map Script.fresh ∧
    ((library.add name source).instantiate name).records =
      ((({} : Library).add name source).instantiate name).records := by
  simp only [Library.instantiate, Library.compile, Library.add, Keyed.find?_erase_self,
    Keyed.find?_insert_self]
  cases Block.parse source.toList <;> exact ⟨rfl, rfl⟩

/-- Reading leaves records of preparing sources and of the library only. -/
theorem topic_of_mem_readingRecords {files : Files} {path : String} {record : Record}
    (h : record ∈ readingRecords files path) :
    record.topic = .preparation ∨ record.topic = .library := by
  have hprepared : ∀ source, record ∈ Library.preparations source → record.topic = .preparation := by
    intro source hmem
    obtain ⟨text, -, rfl⟩ := List.mem_map.mp hmem
    rfl
  unfold readingRecords at h
  split at h
  · cases h
  · next source _ =>
    simp only [Library.instantiate, Library.compile, Library.add, Keyed.find?_erase_self,
      Keyed.find?_insert_self] at h
    cases hparse : Block.parse source.toList with
    | error cause =>
      rw [hparse] at h
      exact Or.inl (hprepared source h)
    | ok block =>
      rw [hparse] at h
      rcases List.mem_append.mp h with h | h
      · exact Or.inl (hprepared source h)
      · rw [List.mem_singleton.mp h]
        exact Or.inr rfl

theorem reset_fresh (block : Block) : (Script.fresh block).reset = .fresh block :=
  congrArg (Script.mk block) (block_reset_eq_fresh (formed_fresh block))

/-! ## One file after the other -/

section Loading
variable (files : Files) (logger : Logger) (dump : Bool)

/-- What reading files that hold blocks adds to what was read before. -/
structure Loaded (paths : List String) (blocks : List Block) (before after : Program) : Prop where
  queue : after.queue.scripts = before.queue.scripts ++ blocks.map Script.fresh
  output : after.transcript.output.toList =
    before.transcript.output.toList ++ outlines dump paths blocks
  complaints : after.transcript.complaints.toList = before.transcript.complaints.toList ++
    logger.consoleLines (paths.flatMap (readingRecords files))
  log : after.transcript.log.toList = before.transcript.log.toList ++
    logger.fileLines (paths.flatMap (readingRecords files))

variable {files logger dump}

theorem loaded_nil (program : Program) : Loaded files logger dump [] [] program program := by
  constructor <;>
    simp [outlines, Logger.consoleLines, Logger.fileLines, Logger.passed]

theorem Loaded.cons {path : String} {block : Block} {paths : List String} {blocks : List Block}
    {before mid after : Program} (h : Loaded files logger dump [path] [block] before mid)
    (h' : Loaded files logger dump paths blocks mid after) :
    Loaded files logger dump (path :: paths) (block :: blocks) before after where
  queue := by simp [h'.queue, h.queue]
  output := by
    rw [h'.output, h.output]
    cases dump <;> simp [outlines]
  complaints := by
    rw [h'.complaints, h.complaints, List.append_assoc, ← Logger.consoleLines_append]
    simp
  log := by
    rw [h'.log, h.log, List.append_assoc, ← Logger.fileLines_append]
    simp

variable (logger dump)

/-- **A file that holds a block adds what it adds by itself.** -/
theorem loadScript_ok {path : String} {block : Block} (h : blockOf files path = .ok block)
    (program : Program) :
    ∃ next, loadScript files logger dump program path = .ok next ∧
      Loaded files logger dump [path] [block] program next := by
  obtain ⟨source, hread, hparse⟩ := blockOf_eq_ok_iff.mp h
  obtain ⟨hresult, hrecords⟩ := instantiate_add program.library (Path.stem path) source
  rw [hparse] at hresult
  have hreading : readingRecords files path =
      ((program.library.add (Path.stem path) source).instantiate (Path.stem path)).records := by
    rw [readingRecords, hread, hrecords]
  have hload : loadScript files logger dump program path =
      .ok ⟨((program.library.add (Path.stem path) source).instantiate (Path.stem path)).state,
        program.queue.load (.fresh block),
        let transcript := program.transcript.recordAll logger (readingRecords files path)
        if dump then (transcript.print ("== " ++ Path.stem path)).printText block.outline
        else transcript⟩ := by
    rw [hreading]
    simp only [loadScript, hread, Library.addFile, bind, Except.bind, pure, Except.pure, hresult]
    rfl
  refine ⟨_, hload, ?_⟩
  rw [Transcript.recordAll_eq]
  constructor
  · simp [Queue.load, reset_fresh]
  · cases dump <;> simp [outlines, outlineOf]
  · cases dump <;> simp [Transcript.print, Transcript.printText]
  · cases dump <;> simp [Transcript.print, Transcript.printText]

/-- A file that holds no block ends the program, behind the records of reading it. -/
theorem loadScript_error {path : String} {cause : Unread} (h : blockOf files path = .error cause)
    (program : Program) :
    loadScript files logger dump program path =
      .error (cause.halt (program.transcript.recordAll logger (readingRecords files path))) := by
  unfold blockOf at h
  split at h
  · next fault hread =>
    cases h
    simp [loadScript, hread, Library.addFile, bind, Except.bind, readingRecords, Transcript.recordAll,
      Unread.halt]
  · next source hread =>
    obtain ⟨hresult, hrecords⟩ := instantiate_add program.library (Path.stem path) source
    cases hparse : Block.parse source.toList with
    | ok other =>
      rw [hparse] at h
      cases h
    | error cause =>
      rw [hparse] at h hresult
      cases h
      simp only [loadScript, hread, Library.addFile, bind, Except.bind, pure, Except.pure, hresult,
        readingRecords, hrecords]
      cases cause <;> rfl

/-- **Files that all hold blocks are queued in their order.** -/
theorem foldlM_loadScript {paths : List String} {blocks : List Block}
    (h : List.Forall₂ (fun path block => blockOf files path = .ok block) paths blocks)
    (program : Program) :
    ∃ next, paths.foldlM (loadScript files logger dump) program = .ok next ∧
      Loaded files logger dump paths blocks program next := by
  induction h generalizing program with
  | nil => exact ⟨program, rfl, loaded_nil program⟩
  | cons hpath _ ih =>
    obtain ⟨mid, hload, hloaded⟩ := loadScript_ok logger dump hpath program
    obtain ⟨next, hrest, hloaded'⟩ := ih mid
    refine ⟨next, ?_, hloaded.cons hloaded'⟩
    rw [List.foldlM_cons, hload]
    exact hrest

/-- The files before the first one that holds no block. -/
theorem exists_first_error {paths : List String}
    (h : ¬∀ path ∈ paths, ∃ block, blockOf files path = .ok block) :
    ∃ before path after blocks cause, paths = before ++ path :: after ∧
      List.Forall₂ (fun path block => blockOf files path = .ok block) before blocks ∧
      blockOf files path = .error cause := by
  induction paths with
  | nil => simp at h
  | cons path paths ih =>
    cases hblock : blockOf files path with
    | error cause => exact ⟨[], path, paths, [], cause, rfl, .nil, hblock⟩
    | ok block =>
      have hrest : ¬∀ path ∈ paths, ∃ block, blockOf files path = .ok block := by
        intro hall
        apply h
        intro other hmem
        rcases List.mem_cons.mp hmem with rfl | hmem
        · exact ⟨block, hblock⟩
        · exact hall other hmem
      obtain ⟨before, failing, after, blocks, cause, rfl, hbefore, herror⟩ := ih hrest
      exact ⟨path :: before, failing, after, block :: blocks, cause, rfl, .cons hblock hbefore, herror⟩

theorem exists_blocks {paths : List String}
    (h : ∀ path ∈ paths, ∃ block, blockOf files path = .ok block) :
    ∃ blocks, List.Forall₂ (fun path block => blockOf files path = .ok block) paths blocks := by
  induction paths with
  | nil => exact ⟨[], .nil⟩
  | cons path paths ih =>
    obtain ⟨block, hblock⟩ := h path List.mem_cons_self
    obtain ⟨blocks, hblocks⟩ := ih fun other hmem => h other (List.mem_cons_of_mem _ hmem)
    exact ⟨block :: blocks, .cons hblock hblocks⟩

end Loading

/-! ## The whole command line -/

section Run
variable {files : Files} {user : String} {texts : List String} {arguments : Arguments}
  {settings : Settings} {chance : Nat → Nat}

/-- The logger of a run, and what was written when it was set up. -/
def opened (files : Files) (settings : Settings) (arguments : Arguments) : Logger × Transcript :=
  openLog files (override settings arguments) {}

/-- What a run begins its frames with when all its scripts are read. -/
def begun (files : Files) (settings : Settings) (arguments : Arguments) (chance : Nat → Nat)
    (program : Program) : Scene :=
  let session := startSession (override settings arguments) arguments chance
  let text := "session starts with " ++ toString session.vars.size ++ " variable(s)"
  ⟨program.queue, session,
    program.transcript.record (opened files settings arguments).1 (own .info text)⟩

theorem play_eq : play files settings arguments chance =
    match arguments.scripts.foldlM
      (loadScript files (opened files settings arguments).1 arguments.dump)
      { transcript := (opened files settings arguments).2 } with
    | .error halt => halted (opened files settings arguments).1 halt
    | .ok program =>
      playFrames (opened files settings arguments).1 (override settings arguments).maxFrames
        (override settings arguments).maxFrames 0 (begun files settings arguments chance program) := rfl

/-- Setting up writes nothing for the player. -/
theorem output_opened : (opened files settings arguments).2.output = #[] := by
  unfold opened openLog
  split
  · rfl
  · split <;> rfl

variable (settings)

/-- **With every file in order the frames begin**, on a fresh script for each. -/
theorem play_of_blocks (chance : Nat → Nat) {blocks : List Block}
    (h : List.Forall₂ (fun path block => blockOf files path = .ok block) arguments.scripts blocks) :
    ∃ transcript,
      play files settings arguments chance =
        playFrames (opened files settings arguments).1 (override settings arguments).maxFrames
          (override settings arguments).maxFrames 0
          ⟨⟨blocks.map Script.fresh⟩, startSession (override settings arguments) arguments chance,
            transcript⟩ ∧
      transcript.output.toList = outlines arguments.dump arguments.scripts blocks := by
  obtain ⟨program, hload, hloaded⟩ := foldlM_loadScript
    (opened files settings arguments).1 arguments.dump h
    { transcript := (opened files settings arguments).2 }
  have hqueue : program.queue = ⟨blocks.map Script.fresh⟩ :=
    congrArg Queue.mk (hloaded.queue.trans (List.nil_append _))
  have hbegun : begun files settings arguments chance program =
      ⟨⟨blocks.map Script.fresh⟩, startSession (override settings arguments) arguments chance,
        (begun files settings arguments chance program).transcript⟩ := by
    rw [← hqueue]
    rfl
  refine ⟨(begun files settings arguments chance program).transcript, ?_, ?_⟩
  · rw [play_eq, hload, ← hbegun]
  · rw [begun, Transcript.output_record, hloaded.output, output_opened]
    rfl

/-- **With a file that is not in order nothing is played.** -/
theorem play_of_error (chance : Nat → Nat) {before after : List String} {path : String} {cause : Unread}
    {blocks : List Block} (hscripts : arguments.scripts = before ++ path :: after)
    (hbefore : List.Forall₂ (fun path block => blockOf files path = .ok block) before blocks)
    (herror : blockOf files path = .error cause) :
    ∃ transcript,
      play files settings arguments chance =
        halted (opened files settings arguments).1 (cause.halt transcript) ∧
      transcript.output.toList = outlines arguments.dump before blocks ∧
      transcript.complaints.toList = (opened files settings arguments).2.complaints.toList ++
        (opened files settings arguments).1.consoleLines
          ((before ++ [path]).flatMap (readingRecords files)) ∧
      transcript.log.toList = (opened files settings arguments).2.log.toList ++
        (opened files settings arguments).1.fileLines
          ((before ++ [path]).flatMap (readingRecords files)) := by
  obtain ⟨program, hload, hloaded⟩ := foldlM_loadScript
    (opened files settings arguments).1 arguments.dump hbefore
    { transcript := (opened files settings arguments).2 }
  have hstop : arguments.scripts.foldlM (loadScript files (opened files settings arguments).1
      arguments.dump) { transcript := (opened files settings arguments).2 } =
      .error (cause.halt (program.transcript.recordAll (opened files settings arguments).1
        (readingRecords files path))) := by
    rw [hscripts, List.foldlM_append, hload]
    simp only [bind, Except.bind, List.foldlM_cons, loadScript_error _ _ herror]
  refine ⟨program.transcript.recordAll (opened files settings arguments).1 (readingRecords files path),
    ?_, ?_, ?_, ?_⟩
  · rw [play_eq, hstop]
  · rw [Transcript.output_recordAll, hloaded.output, output_opened]
    rfl
  · rw [Transcript.recordAll_eq]
    simp [hloaded.complaints, Logger.consoleLines_append]
  · rw [Transcript.recordAll_eq]
    simp [hloaded.log, Logger.fileLines_append]

variable {settings}

/-- **Every file is queued by itself, or nothing is played.** If each path of a command line leads to a
file that can be read and parsed, the frames begin with the queue that holds, in the order of the paths,
one fresh script over what parsing that file gives, whatever the stems of the paths are, and with nothing
written for the player but outlines. Otherwise there is a first path for which this fails. Where there is
a complaint about it, since the file is not there or its text has a fault, the exit code is 1, nothing is
written for the player but the outlines of the scripts before it, and all the rest is written by setting
up, by reading the files up to there, and as that complaint. -/
theorem queues_each_file (hargs : Arguments.parse texts = .ok arguments)
    (hsettings : findSettings files user arguments.config = .ok settings) :
    let logger := (opened files settings arguments).1
    let limit := (override settings arguments).maxFrames
    ((∀ path ∈ arguments.scripts, ∃ block, blockOf files path = .ok block) →
      ∃ blocks transcript,
        List.Forall₂ (fun path block => ∃ source, files.read path = .ok source ∧
          Block.parse source.toList = .ok block) arguments.scripts blocks ∧
        run files user texts chance = playFrames logger limit limit 0 ⟨⟨blocks.map Script.fresh⟩,
          startSession (override settings arguments) arguments chance, transcript⟩ ∧
        transcript.output.toList = outlines arguments.dump arguments.scripts blocks) ∧
    ((¬∀ path ∈ arguments.scripts, ∃ block, blockOf files path = .ok block) →
      ∃ before path after blocks cause,
        arguments.scripts = before ++ path :: after ∧
        List.Forall₂ (fun path block => ∃ source, files.read path = .ok source ∧
          Block.parse source.toList = .ok block) before blocks ∧
        blockOf files path = .error cause ∧
        ∀ text, cause = .complaint text →
          ∃ transcript,
            run files user texts chance = ⟨1, transcript, logger.file⟩ ∧
            transcript.output.toList = outlines arguments.dump before blocks ∧
            ∃ records : List Record,
              (∀ record ∈ records, record.topic = .preparation ∨ record.topic = .library) ∧
              transcript.complaints.toList =
                (opened files settings arguments).2.complaints.toList ++
                  logger.consoleLines records ++ ["cue: " ++ text ++ "\n"] ∧
              transcript.log.toList = (opened files settings arguments).2.log.toList ++
                logger.fileLines records) := by
  have hrun : run files user texts chance = play files settings arguments chance := by
    simp only [run, hargs, hsettings]
  have hholds : ∀ {paths : List String} {blocks : List Block},
      List.Forall₂ (fun path block => blockOf files path = .ok block) paths blocks →
      List.Forall₂ (fun path block => ∃ source, files.read path = .ok source ∧
        Block.parse source.toList = .ok block) paths blocks :=
    fun h => h.imp fun _ _ => blockOf_eq_ok_iff.mp
  refine ⟨?_, ?_⟩
  · intro hall
    obtain ⟨blocks, hblocks⟩ := exists_blocks hall
    obtain ⟨transcript, hplay, houtput⟩ := play_of_blocks settings chance hblocks
    exact ⟨blocks, transcript, hholds hblocks, hrun.trans hplay, houtput⟩
  · intro hsome
    obtain ⟨before, path, after, blocks, cause, hscripts, hbefore, herror⟩ := exists_first_error hsome
    refine ⟨before, path, after, blocks, cause, hscripts, hholds hbefore, herror, ?_⟩
    rintro text rfl
    obtain ⟨transcript, hplay, houtput, hcomplaints, hlog⟩ :=
      play_of_error settings chance hscripts hbefore herror
    refine ⟨transcript.complain text, hrun.trans hplay, houtput, _, ?_, ?_, hlog⟩
    · intro record hmem
      obtain ⟨other, -, hmem⟩ := List.mem_flatMap.mp hmem
      exact topic_of_mem_readingRecords hmem
    · simp [Transcript.complain, hcomplaints]

end Run

/-! ## Two files of one name -/

/-- A file that can be parsed, and another of the same name with a given text. -/
def sameStem (second : String) : Files where
  read path :=
    if path = "old/intro.cue" then .ok "a();"
    else if path = "new/intro.cue" then .ok second
    else .error .notFound
  isFile _ := false
  openable _ := .ok ()

/-- The command line that names them both, and asks for outlines. -/
def bothScenes : List String := ["-d", "old/intro.cue", "new/intro.cue"]

theorem parse_bothScenes : Arguments.parse bothScenes =
    .ok { scripts := ["old/intro.cue", "new/intro.cue"], dump := true } := by cbv

theorem block_a : Block.parse "a();".toList = .ok [[.method "a" [] false]] := by cbv

/-- Each of the two is queued as it is; if the second is cut off, only the first is outlined. -/
theorem queues_each_file_sameStem :
    (∃ transcript, run (sameStem "b();") "" bothScenes =
      playFrames (opened (sameStem "b();") {} { dump := true }).1 10000 10000 0
        ⟨⟨[.fresh [[.method "a" [] false]], .fresh [[.method "b" [] false]]]⟩, {}, transcript⟩) ∧
    (run (sameStem "b(") "" bothScenes).code = 1 ∧
    (run (sameStem "b(") "" bothScenes).transcript.output.toList =
      ["== intro\n", "[0]\n  method a\n"] := by
  have hdefaults : ∀ second, findSettings (sameStem second) "" none = .ok {} := fun _ => rfl
  have hb : Block.parse "b();".toList = .ok [[.method "b" [] false]] := by cbv
  have hcut : Block.parse "b(".toList = .error (.unterminated '(' ')' ['(']) := by cbv
  have hfirst : ∀ second, blockOf (sameStem second) "old/intro.cue" =
      .ok [[.method "a" [] false]] := fun second => blockOf_eq_ok_iff.mpr ⟨"a();", rfl, block_a⟩
  have hreadOld : ∀ second source, (sameStem second).read "old/intro.cue" = .ok source →
      source = "a();" := by
    intro second source h
    simpa [sameStem] using h.symm
  have hreadNew : ∀ second source, (sameStem second).read "new/intro.cue" = .ok source →
      source = second := by
    intro second source h
    simpa [sameStem] using h.symm
  constructor
  · have hsecond : blockOf (sameStem "b();") "new/intro.cue" = .ok [[.method "b" [] false]] :=
      blockOf_eq_ok_iff.mpr ⟨"b();", rfl, hb⟩
    obtain ⟨blocks, transcript, hblocks, hrun, -⟩ :=
      (queues_each_file parse_bothScenes (hdefaults "b();")).1 (by simp [hfirst, hsecond])
    obtain _ | ⟨⟨source, hread, hparse⟩, _ | ⟨⟨source', hread', hparse'⟩, _ | _⟩⟩ := hblocks
    obtain rfl := hreadOld _ _ hread
    obtain rfl := hreadNew _ _ hread'
    cases block_a.symm.trans hparse
    cases hb.symm.trans hparse'
    exact ⟨transcript, hrun⟩
  · obtain ⟨complaint, hcomplaint⟩ :
        ∃ text, blockOf (sameStem "b(") "new/intro.cue" = .error (.complaint text) := by
      have hread : (sameStem "b(").read "new/intro.cue" = .ok "b(" := rfl
      rw [blockOf_of_read hread, hcut]
      exact ⟨_, rfl⟩
    have hbad : ¬∀ path ∈ ["old/intro.cue", "new/intro.cue"],
        ∃ block, blockOf (sameStem "b(") path = .ok block := by
      intro hall
      obtain ⟨block, hblock⟩ := hall "new/intro.cue" (by simp)
      cases hcomplaint.symm.trans hblock
    obtain ⟨before, path, after, blocks, cause, hscripts, hbefore, herror, hend⟩ :=
      (queues_each_file parse_bothScenes (hdefaults "b(")).2 hbad
    -- the first path is read, so it is not the one that fails
    cases hbefore with
    | nil =>
      cases hscripts
      cases (hfirst "b(").symm.trans herror
    | cons hblock hrest =>
      cases hrest with
      | nil =>
        cases hscripts
        obtain ⟨transcript, hrun, houtput, -⟩ :=
          hend complaint (Except.error.inj (herror.symm.trans hcomplaint))
        rw [hrun]
        obtain ⟨source, hread, hparse⟩ := hblock
        obtain rfl := hreadOld _ _ hread
        cases block_a.symm.trans hparse
        exact ⟨rfl, houtput.trans (by cbv)⟩
      | cons _ _ => simp at hscripts

/-! ## Command lines that are not so -/

/-- What might be expected of every list of paths that is given as a command line: the frames begin with
the blocks of the files, or the exit code is 1. -/
def QueuesOrFails (files : Files) (user : String) (paths : List String) : Prop :=
  ((∀ path ∈ paths, ∃ block, blockOf files path = .ok block) →
    ∃ blocks logger limit session transcript,
      List.Forall₂ (fun path block => blockOf files path = .ok block) paths blocks ∧
      run files user paths =
        playFrames logger limit limit 0 ⟨⟨blocks.map Script.fresh⟩, session, transcript⟩) ∧
  ((¬∀ path ∈ paths, ∃ block, blockOf files path = .ok block) → (run files user paths).code = 1)

/-- A run that comes to its frames does not end with 1. -/
theorem code_playFrames (logger : Logger) (limit left done : Nat) (scene : Scene) :
    (playFrames logger limit left done scene).code = 0 ∨
      (playFrames logger limit left done scene).code = 2 := by
  induction left generalizing done scene with
  | zero =>
    rw [playFrames]
    split
    · exact .inl rfl
    · exact .inr rfl
  | succ left ih =>
    rw [playFrames]
    split
    · exact .inl rfl
    · exact ih _ _

/-- A script that could be read, with settings that cannot. -/
def brokenSettings : Files where
  read path := if path = settingsName then .ok "max_frames = \"lots\"\n" else .ok "a();"
  isFile path := path = settingsName
  openable _ := .ok ()

/-- A script whose reading does not end, and no settings. -/
def spiralFiles : Files := ⟨fun _ => .ok (String.ofList spiral), fun _ => false, fun _ => .ok ()⟩

/-- Without a script, the program shows how it is called; without settings, it says so and plays nothing;
and over a script whose reading does not end, it is aborted. -/
theorem not_queuesOrFails :
    ¬ QueuesOrFails brokenSettings "" [] ∧
    ¬ QueuesOrFails brokenSettings "" ["a.cue"] ∧
    ¬ QueuesOrFails spiralFiles "" ["a.cue"] := by
  refine ⟨?_, ?_, ?_⟩
  · rintro ⟨hall, -⟩
    have hcode : (run brokenSettings "" []).code = 2 := by cbv
    obtain ⟨blocks, logger, limit, session, transcript, hblocks, hrun⟩ := hall (by simp)
    cases hblocks
    -- with no scripts the frames would be over at once
    have hidle : (playFrames logger limit limit 0 ⟨⟨[]⟩, session, transcript⟩).code = 0 := by
      cases limit <;> rfl
    rw [hrun] at hcode
    cases hidle.symm.trans hcode
  · rintro ⟨hall, -⟩
    have hcode : (run brokenSettings "" ["a.cue"]).code = 1 := by cbv
    have hblock : blockOf brokenSettings "a.cue" = .ok [[.method "a" [] false]] :=
      blockOf_eq_ok_iff.mpr ⟨"a();", by decide, block_a⟩
    obtain ⟨blocks, logger, limit, session, transcript, -, hrun⟩ := hall (by simp [hblock])
    rw [hrun] at hcode
    rcases code_playFrames logger limit limit 0 ⟨⟨blocks.map Script.fresh⟩, session, transcript⟩ with
      hend | hend <;> cases hend.symm.trans hcode
  · rintro ⟨-, hsome⟩
    have hblock : blockOf spiralFiles "a.cue" = .error .overflow := by
      have hread : spiralFiles.read "a.cue" = .ok (String.ofList spiral) := rfl
      have hparse : Block.parse spiral = .error .tooDeep := read_spiral (nestingLimit spiral)
      rw [blockOf_of_read hread, String.toList_ofList, hparse]
      rfl
    have hfails : ¬∀ path ∈ ["a.cue"], ∃ block, blockOf spiralFiles path = .ok block := by
      simp [hblock]
    have hargs : Arguments.parse ["a.cue"] = .ok { scripts := ["a.cue"] } := by cbv
    have hsettings : findSettings spiralFiles "" none = .ok {} := rfl
    have hscripts : ({ scripts := ["a.cue"] } : Arguments).scripts = [] ++ "a.cue" :: [] := rfl
    obtain ⟨transcript, hplay, -⟩ := play_of_error {} (fun _ => 0) hscripts .nil hblock
    have hcode : (run spiralFiles "" ["a.cue"]).code = abortCode := by
      simp only [run, hargs, hsettings, hplay]
      rfl
    cases hcode.symm.trans (hsome hfails)

end Runner

end Cutscene
