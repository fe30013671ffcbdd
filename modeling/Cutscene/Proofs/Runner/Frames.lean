import Cutscene.Proofs.Runner.Loading
import Cutscene.Proofs.Session.Written

/-!
The frames of a run.

The runner plays one frame after the other, takes the lines that were written in each, and looks in
between whether the queue is idle and whether the limit is reached. Next to it stands the queue played
for as many frames on one account, with nothing taken and no limit (`Queue.runFrames`). What the runner
comes to after any number of frames is that, but for the lines, which it has printed, each once and in
the order of the calls that wrote them (`playFrame_iterate`): the session answers alike whether its lines
were taken or not. And how many frames it plays is a matter of the queue and the limit alone
(`playFrames_cases`).

Together they say how a run ends, whatever numbers its session draws (`plays_until_idle`).
-/
namespace Cutscene

variable {σ : Type}

/-- Play a queue for so many frames, each until it is blocked. -/
def Queue.runFrames (host : Host σ) (base : Option Value) (queue : Queue) : Nat → Play σ Queue
  | 0 => pure queue
  | frames + 1 => do
    let queue ← queue.runFrames host base frames
    let (_, queue) ← queue.runUntilBlocked host base
    return queue

namespace Runner

/-! ## One account of all frames -/

/-- The queue that scenes start with, and the account of its first frames. -/
def accountOf (scene : Scene) (frames : Nat) : Queue × Stage Session :=
  (scene.queue.runFrames Session.registry.host none frames).run { host := scene.session }

/-- **A frame takes what it wrote.** It plays the queue as it would be played with all lines left where
they are. -/
theorem playFrame_takes (logger : Logger) (scene : Scene) (hdrained : scene.session.output = [])
    (output : List String) (events : Array Event) :
    ∃ new : List Event,
      let played := (scene.queue.runUntilBlocked Session.registry.host none).run
        ⟨{ scene.session with output }, events⟩
      let later := playFrame logger scene
      later.queue = played.1.2 ∧ later.session = played.2.host.takeOutput ∧
      played.2.events = events ++ new ∧
      later.transcript.output.toList =
        scene.transcript.output.toList ++ (linesOf new).map (· ++ "\n") := by
  obtain ⟨⟨count, queue⟩, vars, chance, new, hplayed⟩ := Session.talks_writes
    (Play.talks_runUntilBlocked Session.registry.host none scene.queue) scene.session.vars
      scene.session.chance
  have hsession : scene.session = ⟨scene.session.vars, [], scene.session.chance⟩ := by
    rw [← hdrained]
  refine ⟨new, ?_⟩
  rw [playFrame, hsession, hplayed, hplayed]
  simp [Session.takeOutput]

theorem playFrame_iterate (logger : Logger) (scene : Scene) (hdrained : scene.session.output = [])
    (frames : Nat) :
    let account := accountOf scene frames
    let later := (playFrame logger)^[frames] scene
    later.queue = account.1 ∧ later.session = account.2.host.takeOutput ∧
    later.transcript.output.toList =
      scene.transcript.output.toList ++ (linesOf account.2.events.toList).map (· ++ "\n") := by
  induction frames with
  | zero =>
    -- nothing was written so far, so there is nothing to take
    have hsession : scene.session.takeOutput = scene.session := by
      rw [Session.takeOutput, ← hdrained]
    exact ⟨rfl, hsession.symm, (List.append_nil _).symm⟩
  | succ frames ih =>
    obtain ⟨hqueue, hsession, houtput⟩ := ih
    -- the frame is played twice: by the runner with no lines waiting, and with all of them
    have haccount : accountOf scene (frames + 1) =
        let played := (((accountOf scene frames).1.runUntilBlocked Session.registry.host none).run
          (accountOf scene frames).2)
        (played.1.2, played.2) := rfl
    have hstage : (accountOf scene frames).2 =
        ⟨{ ((playFrame logger)^[frames] scene).session with
            output := (accountOf scene frames).2.host.output },
          (accountOf scene frames).2.events⟩ := by
      rw [hsession]
      rfl
    obtain ⟨new, hnext⟩ := playFrame_takes logger ((playFrame logger)^[frames] scene)
      (by rw [hsession]; rfl) (accountOf scene frames).2.host.output (accountOf scene frames).2.events
    rw [← hstage, hqueue] at hnext
    obtain ⟨hqueue', hsession', hevents, houtput'⟩ := hnext
    rw [Function.iterate_succ_apply', haccount]
    refine ⟨hqueue', hsession', ?_⟩
    have hlines : linesOf ((accountOf scene frames).2.events ++ new).toList =
        linesOf (accountOf scene frames).2.events.toList ++ linesOf new := by
      rw [← linesOf_append]
      simp
    rw [houtput', houtput, hevents, hlines, List.map_append, List.append_assoc]

/-! ## The end -/

/-- **How many frames a run plays.** It plays until the queue is idle, or for as many frames as are left
of the limit, and not one more. -/
theorem playFrames_cases (logger : Logger) (limit left done : Nat) (scene : Scene) :
    ∃ frames ≤ left,
      (∀ earlier < frames, ((playFrame logger)^[earlier] scene).queue.isIdle = false) ∧
      (frames < left → ((playFrame logger)^[frames] scene).queue.isIdle = true) ∧
      playFrames logger limit left done scene =
        let last := (playFrame logger)^[frames] scene
        if last.queue.isIdle then finished logger (done + frames) last.transcript
        else stopped logger limit last.queue last.transcript := by
  induction left generalizing done scene with
  | zero =>
    refine ⟨0, Nat.le_refl 0, by simp, by simp, ?_⟩
    rw [playFrames]
    rfl
  | succ left ih =>
    by_cases hidle : scene.queue.isIdle = true
    · refine ⟨0, Nat.zero_le _, by simp, fun _ => hidle, ?_⟩
      rw [playFrames, if_pos hidle]
      exact (if_pos hidle).symm
    · obtain ⟨frames, hle, hearlier, hlast, hplay⟩ := ih (done + 1) (playFrame logger scene)
      refine ⟨frames + 1, Nat.succ_le_succ hle, ?_, ?_, ?_⟩
      · intro earlier hlt
        cases earlier with
        | zero => exact Bool.eq_false_iff.mpr hidle
        | succ earlier => exact hearlier earlier (Nat.lt_of_succ_lt_succ hlt)
      · exact fun hlt => hlast (Nat.lt_of_succ_lt_succ hlt)
      · have hcount : done + 1 + frames = done + (frames + 1) := by omega
        rw [playFrames, if_neg hidle, hplay, hcount]
        rfl

/-- What is idle at last is all that is idle within the limit. -/
theorem idle_iff_within {idle : Nat → Bool} {frames limit : Nat} (hle : frames ≤ limit)
    (hearlier : ∀ earlier < frames, idle earlier = false) (hlast : frames < limit → idle frames = true) :
    idle frames = true ↔ ∃ other ≤ limit, idle other = true := by
  constructor
  · exact fun h => ⟨frames, hle, h⟩
  · rintro ⟨other, hother, h⟩
    rcases Nat.lt_or_ge other frames with hlt | hge
    · cases (hearlier other hlt).symm.trans h
    · rcases Nat.lt_or_ge frames limit with hlt | hge'
      · exact hlast hlt
      · rwa [Nat.le_antisymm hge (Nat.le_trans hother hge')]

theorem output_finished (logger : Logger) (frames : Nat) (transcript : Transcript) :
    (finished logger frames transcript).transcript.output = transcript.output :=
  Transcript.output_record logger transcript _

theorem output_stopped (logger : Logger) (limit : Nat) (queue : Queue) (transcript : Transcript) :
    (stopped logger limit queue transcript).transcript.output = transcript.output :=
  Transcript.output_record logger transcript _

section Run
variable {files : Files} {user : String} {texts : List String} {arguments : Arguments}
  {settings : Settings} {blocks : List Block}

/-- **A run plays until its queue is idle, and prints what was written.** For a command line whose files
all hold blocks, and whatever numbers are drawn in it, look at the queue of their scripts played for so
many frames on one account, with the session of the run. The run plays as many frames as it takes until
that queue is idle, or as many as the limit allows if that is less: each of them, one after the other, and
then it ends. The exit code is 0 just if the queue is idle after at most as many frames as the limit
allows, and 2 otherwise. Behind the outlines, if any, stand the lines of the calls of `debug` that were
made in all these frames, each once and in the order of the calls, whether the limit ended the run or
not. -/
theorem plays_until_idle (chance : Nat → Nat) (hargs : Arguments.parse texts = .ok arguments)
    (hsettings : findSettings files user arguments.config = .ok settings)
    (hblocks : List.Forall₂ (fun path block => ∃ source, files.read path = .ok source ∧
      Block.parse source.toList = .ok block) arguments.scripts blocks) :
    let logger := (opened files settings arguments).1
    let limit := (override settings arguments).maxFrames
    let after : Nat → Queue × Stage Session := fun frames =>
      ((Queue.mk (blocks.map Script.fresh)).runFrames Session.registry.host none frames).run
        { host := startSession (override settings arguments) arguments chance }
    let outcome := run files user texts chance
    (outcome.code = 0 ↔ ∃ frames ≤ limit, (after frames).1.isIdle = true) ∧
    (outcome.code = 2 ↔ ∀ frames ≤ limit, (after frames).1.isIdle = false) ∧
    ∃ frames ≤ limit,
      (∀ earlier < frames, (after earlier).1.isIdle = false) ∧
      (frames < limit → (after frames).1.isIdle = true) ∧
      outcome.transcript.output.toList = outlines arguments.dump arguments.scripts blocks ++
        (linesOf (after frames).2.events.toList).map (· ++ "\n") ∧
      ∃ transcript,
        let start : Scene := ⟨⟨blocks.map Script.fresh⟩,
          startSession (override settings arguments) arguments chance, transcript⟩
        (∀ played ≤ frames, ((playFrame logger)^[played] start).queue = (after played).1) ∧
        outcome =
          let last := (playFrame logger)^[frames] start
          if last.queue.isIdle then finished logger frames last.transcript
          else stopped logger limit last.queue last.transcript := by
  intro logger limit after outcome
  obtain ⟨transcript, hplay, hstart⟩ := play_of_blocks settings chance
    (hblocks.imp fun _ _ => blockOf_eq_ok_iff.mpr)
  let start : Scene := ⟨⟨blocks.map Script.fresh⟩,
    startSession (override settings arguments) arguments chance, transcript⟩
  have hscene := playFrame_iterate logger start rfl
  have hqueue : ∀ frames, ((playFrame logger)^[frames] start).queue = (after frames).1 :=
    fun frames => (hscene frames).1
  obtain ⟨frames, hle, hearlier, hlast, hend⟩ := playFrames_cases logger limit limit 0 start
  have houtcome : outcome = let last := (playFrame logger)^[frames] start
      if last.queue.isIdle then finished logger frames last.transcript
      else stopped logger limit last.queue last.transcript := by
    rw [Nat.zero_add] at hend
    have hrun : outcome = play files settings arguments chance := by
      simp only [outcome, run, hargs, hsettings]
    rw [hrun, hplay, hend]
  simp only [hqueue] at hearlier hlast
  have hcode : outcome.code = if (after frames).1.isIdle then 0 else 2 := by
    rw [houtcome]
    dsimp only
    rw [hqueue]
    split <;> rfl
  have houtput : outcome.transcript.output.toList =
      outlines arguments.dump arguments.scripts blocks ++
        (linesOf (after frames).2.events.toList).map (· ++ "\n") := by
    have hlines := (hscene frames).2.2
    rw [houtcome]
    dsimp only
    split
    · rw [output_finished, hlines, hstart]
      rfl
    · rw [output_stopped, hlines, hstart]
      rfl
  have hidle : (after frames).1.isIdle = true ↔ ∃ other ≤ limit, (after other).1.isIdle = true :=
    idle_iff_within hle hearlier hlast
  have hbusy : (∀ other ≤ limit, (after other).1.isIdle = false) ↔
      ¬(after frames).1.isIdle = true := by
    rw [hidle]
    simp
  refine ⟨?_, ?_, frames, hle, hearlier, hlast, houtput, transcript,
    fun played _ => hqueue played, houtcome⟩
  · rw [hcode, ← hidle]
    cases (after frames).1.isIdle <;> simp
  · rw [hcode, hbusy]
    cases (after frames).1.isIdle <;> simp

end Run

/-! ## One frame too few -/

/-- A script that says by chance whether a lamp is on or off, and lets two frames pass. -/
def lampText : String := "debug(session(\"x\").setRandomly(\"on\",\"off\").get()); sleep(2);"

/-- The block of the script. -/
def lamp : Block :=
  [[.method "debug" [[.method "session" [[.constant "\"x\""]] false,
      .method "setRandomly" [[.constant "\"on\""], [.constant "\"off\""]] false,
      .method "get" [] false]] false],
    [.method "sleep" [[.constant "2"]] false]]

/-- Files that all hold the script, and no settings. -/
def lampFiles : Files := ⟨fun _ => .ok lampText, fun _ => false, fun _ => .ok ()⟩

/-- The script after so many frames, when every draw gives the same number. -/
def lampAfter (drawn frames : Nat) : Queue × Stage Session :=
  ((Queue.mk [.fresh lamp]).runFrames Session.registry.host none frames).run
    ⟨⟨.empty, [], fun _ => drawn⟩, #[]⟩

/-- The script is over in the third frame: with three it comes to its end, and with two it is stopped.
Which line it has written then is a matter of the draw. -/
theorem plays_until_idle_lamp :
    (run lampFiles "" ["-n", "3", "lamp.cue"] fun _ => 0).code = 0 ∧
    (run lampFiles "" ["-n", "3", "lamp.cue"] fun _ => 0).transcript.output.toList = ["'on'\n"] ∧
    (run lampFiles "" ["-n", "2", "lamp.cue"] fun _ => 1).code = 2 ∧
    (run lampFiles "" ["-n", "2", "lamp.cue"] fun _ => 1).transcript.output.toList = ["'off'\n"] := by
  have hlamp : Block.parse lampText.toList = .ok lamp := by cbv
  have hblocks : List.Forall₂ (fun path block => ∃ source, lampFiles.read path = .ok source ∧
      Block.parse source.toList = .ok block) ["lamp.cue"] [lamp] :=
    .cons ⟨lampText, rfl, hlamp⟩ .nil
  have hsettings : findSettings lampFiles "" none = .ok {} := rfl
  have hthree : Arguments.parse ["-n", "3", "lamp.cue"] =
      .ok { scripts := ["lamp.cue"], maxFrames := some 3 } := rfl
  have htwo : Arguments.parse ["-n", "2", "lamp.cue"] =
      .ok { scripts := ["lamp.cue"], maxFrames := some 2 } := rfl
  have hbusyOn : ∀ frames ≤ 2, (lampAfter 0 frames).1.isIdle = false := by decide +kernel
  have hbusyOff : ∀ frames ≤ 2, (lampAfter 1 frames).1.isIdle = false := by decide +kernel
  have hidle : (lampAfter 0 3).1.isIdle = true := by decide +kernel
  have hlinesOn : linesOf (lampAfter 0 3).2.events.toList = ["'on'"] := by decide +kernel
  have hlinesOff : linesOf (lampAfter 1 2).2.events.toList = ["'off'"] := by decide +kernel
  obtain ⟨hdone, -, three, hle, -, hlast, houtput, -⟩ :=
    plays_until_idle (fun _ => 0) hthree hsettings hblocks
  obtain ⟨-, hstopped, two, hle', -, hlast', houtput', -⟩ :=
    plays_until_idle (fun _ => 1) htwo hsettings hblocks
  -- it is busy for two frames, so both runs go on to their limit
  obtain rfl : three = 3 := by
    rcases Nat.lt_or_ge three 3 with hlt | hge
    · cases (hbusyOn three (by omega)).symm.trans (hlast hlt)
    · exact Nat.le_antisymm hle hge
  obtain rfl : two = 2 := by
    rcases Nat.lt_or_ge two 2 with hlt | hge
    · cases (hbusyOff two (by omega)).symm.trans (hlast' hlt)
    · exact Nat.le_antisymm hle' hge
  refine ⟨hdone.mpr ⟨3, Nat.le_refl 3, hidle⟩, ?_, hstopped.mpr hbusyOff, ?_⟩
  · exact houtput.trans (congrArg (fun lines => [] ++ lines.map (· ++ "\n")) hlinesOn)
  · exact houtput'.trans (congrArg (fun lines => [] ++ lines.map (· ++ "\n")) hlinesOff)

end Runner

end Cutscene
