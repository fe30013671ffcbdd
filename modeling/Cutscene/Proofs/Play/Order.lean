import Cutscene.Queue
import Cutscene.Proofs.Play.Throughout

/-!
The order of a queue.

A frame of a queue plays its head (`gives_process`), and playing on while scripts finish is one such
frame after another (`runUntilBlocked_eq`, `Queue.Drains`). Loading rewinds a script, and a script that
can be reached is rewound to the fresh one, so the scripts that were ever loaded stand in one line in
the order of loading: first those that have left, all finished, then the one in play, and behind it
fresh ones (`Queue.InLine`). Every call keeps that line (`inLine_load`, `inLine_process`,
`inLine_drains`), so it is there after every history of calls (`queue_in_order`).
-/
namespace Cutscene

open Play

variable {σ : Type}

/-! ## One script for a frame -/

/-- The script was held up: the statement under its cursor was evaluated last, and the outcome holds
the frame up. -/
def Script.Blocked (host : Host σ) (base : Option Value) (script : Script) : Prop :=
  ∃ before status, before.cursor = script.cursor ∧
    Gives (Script.step host base before) (some status, script) ∧ status.blocks = true

/-- The last step of a frame that is not finished holds it up. -/
theorem blocked_of_run {rows : List (Row σ)} {base : Option Value} {state next : BlockState}
    (h : Gives (runRows rows base state) (false, next)) :
    ∃ before status, before.cursor = next.cursor ∧
      Gives (stepRows rows base before) (some status, next) ∧ status.blocks = true := by
  unfold runRows at h
  generalize rows.length + 1 - state.cursor = more at h
  induction more generalizing state with
  | zero => exact absurd (Prod.mk.inj (gives_pure h)).1 (by decide)
  | succ more ih =>
    obtain ⟨⟨outcome, mid⟩, hstep, hrest⟩ := gives_bind h
    cases outcome with
    | none => exact absurd (Prod.mk.inj (gives_pure hrest)).1 (by decide)
    | some status =>
      rcases gives_ite hrest with ⟨hblocks, hrest⟩ | ⟨-, hrest⟩
      · obtain ⟨-, rfl⟩ := Prod.mk.inj (gives_pure hrest)
        refine ⟨state, status, ?_, hstep, hblocks⟩
        rcases gives_step hstep with ⟨hnone, -, -⟩ | ⟨status', hsome, st⟩
        · cases hnone
        · cases hsome
          rw [st.cursor]
          cases status with
          | pending => rfl
          | metPending => rfl
          | done => cases hblocks
          | met => cases hblocks
          | notMet => cases hblocks
      · exact ih hrest

section Run
variable {host : Host σ} {base : Option Value} {script next : Script} {finished : Bool}

theorem run_of_script (h : Gives (script.run host base) (finished, next)) :
    next.block = script.block ∧
      Gives (runRows (rowsOf host script.block) base script.state) (finished, next.state) := by
  obtain ⟨⟨done, state⟩, hrun, heq⟩ := gives_map h
  cases heq
  exact ⟨rfl, hrun⟩

/-- A script whose frame says that it is finished is finished. -/
theorem isFinished_of_run (hreached : script.Reached script.block)
    (h : Gives (script.run host base) (true, next)) : next.isFinished = true := by
  obtain ⟨hblock, hrun⟩ := run_of_script h
  have hlength : script.state.statements.length = (rowsOf host script.block).length := by
    rw [length_rowsOf]
    exact (lasting_form.reached hreached).2.length
  have hle := finished_of_run hlength hrun
  rw [length_rowsOf] at hle
  simpa [Script.isFinished, Script.size, Script.cursor, hblock] using hle

/-- A script whose frame says that it is not finished has statements left and is held up at one. -/
theorem blocked_of_script (h : Gives (script.run host base) (false, next)) :
    next.isFinished = false ∧ next.Blocked host base := by
  obtain ⟨hblock, hrun⟩ := run_of_script h
  have hlt := held_of_run hrun
  rw [length_rowsOf] at hlt
  refine ⟨by simpa [Script.isFinished, Script.size, Script.cursor, hblock] using hlt, ?_⟩
  obtain ⟨before, status, hcursor, hstep, hblocks⟩ := blocked_of_run hrun
  refine ⟨⟨script.block, before⟩, status, hcursor, ?_, hblocks⟩
  have hgives := gives_mapped (f := fun stepped : Option Status × BlockState =>
    (stepped.1, (⟨script.block, stepped.2⟩ : Script))) hstep
  rw [← hblock] at hgives ⊢
  exact hgives

theorem reached_run (hreached : script.Reached script.block)
    (h : Gives (script.run host base) (finished, next)) : next.Reached next.block := by
  rw [(run_of_script h).1]
  exact .run hreached h

end Run

/-! ## The queue for a frame -/

section Process
variable {host : Host σ} {base : Option Value} {queue next : Queue}

/-- **What a frame of the head does.** There is none, or it is played for a frame and leaves just if
it is finished. -/
theorem gives_process {finished : Bool} (h : Gives (queue.process host base) (finished, next)) :
    (finished = false ∧ queue.scripts = [] ∧ next.scripts = []) ∨
    ∃ head others after, queue.scripts = head :: others ∧
      Gives (head.run host base) (finished, after) ∧
      next.scripts = if finished then others else after :: others := by
  obtain ⟨scripts⟩ := queue
  cases scripts with
  | nil =>
    cases gives_pure h
    exact Or.inl ⟨rfl, rfl, rfl⟩
  | cons head others =>
    obtain ⟨⟨done, after⟩, hrun, h⟩ := gives_bind h
    refine Or.inr ⟨head, others, after, rfl, ?_⟩
    rcases gives_ite h with ⟨hdone, h⟩ | ⟨hdone, h⟩
    · obtain ⟨-, -, h⟩ := gives_bind h
      cases gives_pure h
      have hdone : done = true := hdone
      rw [hdone] at hrun
      exact ⟨hrun, rfl⟩
    · cases gives_pure h
      have hdone : done = false := Bool.eq_false_iff.mpr hdone
      rw [hdone] at hrun
      exact ⟨hrun, rfl⟩

/-- **Playing on while scripts finish** is one frame of the head after another. -/
theorem runUntilBlocked_eq (queue : Queue) : queue.runUntilBlocked host base =
    (queue.process host base >>= fun processed =>
      if processed.1 then processed.2.runUntilBlocked host base >>= fun later =>
        pure (later.1 + 1, later.2)
      else pure (0, processed.2)) := by
  obtain ⟨scripts⟩ := queue
  cases scripts with
  | nil => rfl
  | cons head others =>
    simp only [Queue.runUntilBlocked, Queue.runScripts, Queue.process, bind_assoc]
    apply bind_eq_of_gives
    rintro ⟨finished, after⟩ -
    cases finished with
    | true => simp
    | false => simp

/-- Frames of the head, all but the last of which finish it: how many do, and what is left. -/
inductive Queue.Drains (host : Host σ) (base : Option Value) : Queue → Nat → Queue → Prop where
  | held {queue next : Queue} : Gives (queue.process host base) (false, next) → Drains host base queue 0 next
  | leaves {queue mid next : Queue} {count : Nat} : Gives (queue.process host base) (true, mid) →
      Drains host base mid count next → Drains host base queue (count + 1) next

/-- The induction is on the scripts: one that leaves makes the queue shorter. -/
theorem drains_of_run {count : Nat} (h : Gives (queue.runUntilBlocked host base) (count, next)) :
    queue.Drains host base count next := by
  obtain ⟨size, hsize⟩ : ∃ size, queue.scripts.length = size := ⟨_, rfl⟩
  induction size generalizing queue count with
  | zero =>
    obtain ⟨scripts⟩ := queue
    obtain rfl : scripts = [] := List.length_eq_zero_iff.mp hsize
    obtain ⟨stage, hstage⟩ := h
    cases hstage
    exact .held ⟨stage, rfl⟩
  | succ size ih =>
    rw [runUntilBlocked_eq] at h
    obtain ⟨⟨finished, mid⟩, hprocess, h⟩ := gives_bind h
    rcases gives_ite h with ⟨hfinished, h⟩ | ⟨hfinished, h⟩
    · have hfinished : finished = true := hfinished
      rw [hfinished] at hprocess
      obtain ⟨⟨more, last⟩, hlater, heq⟩ := gives_map h
      cases heq
      have hmid : mid.scripts.length = size := by
        rcases gives_process hprocess with ⟨hfalse, -, -⟩ | ⟨head, others, _, hqueue, -, hothers⟩
        · cases hfalse
        · rw [hqueue, List.length_cons] at hsize
          rw [hothers, if_pos rfl]
          omega
      exact .leaves hprocess (ih hlater hmid)
    · have hfinished : finished = false := Bool.eq_false_iff.mpr hfinished
      rw [hfinished] at hprocess
      cases gives_pure h
      exact .held hprocess

end Process

/-! ## The line of all scripts -/

/-- The scripts that were loaded, in one line in the order of loading: those that are gone, finished,
and those of the queue, where the ones behind the head are fresh. -/
structure Queue.InLine (loaded gone : List Script) (queue : Queue) : Prop where
  order : (gone ++ queue.scripts).map Script.block = loaded.map Script.block
  finished : ∀ script ∈ gone, script.isFinished = true
  reached : ∀ script ∈ gone ++ queue.scripts, script.Reached script.block
  waiting : ∀ script ∈ queue.scripts.tail, script = .fresh script.block

section InLine
variable {host : Host σ} {base : Option Value} {loaded gone : List Script} {queue next : Queue}

theorem inLine_load (h : queue.InLine loaded gone) {script : Script}
    (hreached : script.Reached script.block) : (queue.load script).InLine (loaded ++ [script]) gone := by
  obtain ⟨-, hform⟩ := lasting_form.reached hreached
  have hreset : script.reset = .fresh script.block := by
    rw [Script.reset, Script.fresh, block_reset_eq_fresh hform]
  have hfresh : (Script.fresh script.block).Reached (Script.fresh script.block).block := .fresh
  refine ⟨?_, h.finished, ?_, ?_⟩
  · simp only [Queue.load, hreset, ← List.append_assoc, List.map_append, List.map_singleton]
    rw [← List.map_append, h.order]
    rfl
  · intro other hmem
    simp only [Queue.load, hreset, ← List.append_assoc] at hmem
    rcases List.mem_append.mp hmem with hold | hnew
    · exact h.reached other hold
    · rw [List.mem_singleton.mp hnew]
      exact hfresh
  · intro other hmem
    simp only [Queue.load, hreset] at hmem
    cases hscripts : queue.scripts with
    | nil => simp [hscripts] at hmem
    | cons head others =>
      rw [hscripts, List.cons_append, List.tail_cons] at hmem
      rcases List.mem_append.mp hmem with hold | hnew
      · exact h.waiting other (by rw [hscripts]; exact hold)
      · rw [List.mem_singleton.mp hnew]
        rfl

/-- A frame of the head keeps the line: the head goes on, or goes. -/
theorem inLine_process {finished : Bool} (h : queue.InLine loaded gone)
    (hprocess : Gives (queue.process host base) (finished, next)) :
    ∃ left, next.InLine loaded (gone ++ left) ∧ left.length = finished.toNat ∧
      next.size + finished.toNat = queue.size := by
  rcases gives_process hprocess with ⟨rfl, hqueue, hnext⟩ | ⟨head, others, after, hqueue, hrun, hnext⟩
  · refine ⟨[], ⟨?_, ?_, ?_, ?_⟩, rfl, by simp [Queue.size, hqueue, hnext]⟩
    · simpa [hqueue, hnext] using h.order
    · simpa using h.finished
    · simpa [hqueue, hnext] using h.reached
    · simp [hnext]
  · have horder := h.order
    have hreached := h.reached
    have hwaiting := h.waiting
    rw [hqueue] at horder hreached hwaiting
    have hafter : after.Reached after.block :=
      reached_run (hreached head (by simp)) hrun
    have hblock : after.block = head.block := (run_of_script hrun).1
    cases finished with
    | true =>
      rw [if_pos rfl] at hnext
      refine ⟨[after], ⟨?_, ?_, ?_, ?_⟩, rfl, by simp [Queue.size, hqueue, hnext]⟩
      · rw [hnext, ← horder]
        simp [hblock]
      · intro script hmem
        rcases List.mem_append.mp hmem with hold | hnew
        · exact h.finished script hold
        · rw [List.mem_singleton.mp hnew]
          exact isFinished_of_run (hreached head (by simp)) hrun
      · intro script hmem
        simp only [hnext, List.mem_append, List.mem_singleton] at hmem
        rcases hmem with (hold | rfl) | hold
        · exact hreached script (by simp [hold])
        · exact hafter
        · exact hreached script (by simp [hold])
      · intro script hmem
        rw [hnext] at hmem
        exact hwaiting script (List.mem_of_mem_tail hmem)
    | false =>
      rw [if_neg (by decide)] at hnext
      refine ⟨[], ⟨?_, ?_, ?_, ?_⟩, rfl, by simp [Queue.size, hqueue, hnext]⟩
      · rw [hnext, ← horder]
        simp [hblock]
      · simpa using h.finished
      · intro script hmem
        simp only [hnext, List.append_nil, List.mem_append, List.mem_cons] at hmem
        rcases hmem with hold | rfl | hold
        · exact hreached script (by simp [hold])
        · exact hafter
        · exact hreached script (by simp [hold])
      · rw [hnext]
        exact hwaiting

theorem inLine_drains {count : Nat} (h : queue.InLine loaded gone)
    (hdrains : queue.Drains host base count next) :
    ∃ left, next.InLine loaded (gone ++ left) ∧ left.length = count ∧
      next.size + count = queue.size := by
  induction hdrains generalizing gone with
  | held hprocess => exact inLine_process h hprocess
  | leaves hprocess _ ih =>
    obtain ⟨first, hmid, hfirst, hsize⟩ := inLine_process h hprocess
    obtain ⟨left, hnext, hleft, hrest⟩ := ih hmid
    rw [List.append_assoc] at hnext
    rw [Bool.toNat_true] at hfirst hsize
    exact ⟨first ++ left, hnext, by rw [List.length_append]; omega, by omega⟩

/-- What playing on leaves is held up, if there is anything left. -/
theorem blocked_of_drains {count : Nat} (h : queue.Drains host base count next) :
    next.isIdle = true ∨ ∃ head others, next.scripts = head :: others ∧
      head.isFinished = false ∧ head.Blocked host base := by
  induction h with
  | held hprocess =>
    rcases gives_process hprocess with ⟨-, -, hnext⟩ | ⟨head, others, after, -, hrun, hnext⟩
    · exact Or.inl (by simp [Queue.isIdle, hnext])
    · exact Or.inr ⟨after, others, hnext, blocked_of_script hrun⟩
  | leaves _ _ ih => exact ih

end InLine

/-! ## Histories -/

/-- The queues that loading scripts, processing the head and playing on can lead to: with the scripts
that were loaded, in their order and each as far as it had come, and the number of scripts that the
results of the calls say have finished. Each call may have another host and another value of `this`. -/
inductive Queue.History : List Script → Nat → Queue → Prop where
  | empty : History [] 0 {}
  | load {loaded : List Script} {left : Nat} {queue : Queue} {script : Script} :
      History loaded left queue → script.Reached script.block →
      History (loaded ++ [script]) left (queue.load script)
  | process {σ : Type} {host : Host σ} {base : Option Value} {loaded : List Script} {left : Nat}
      {queue next : Queue} {finished : Bool} : History loaded left queue →
      Gives (queue.process host base) (finished, next) → History loaded (left + finished.toNat) next
  | run {σ : Type} {host : Host σ} {base : Option Value} {loaded : List Script} {left count : Nat}
      {queue next : Queue} : History loaded left queue →
      Gives (queue.runUntilBlocked host base) (count, next) → History loaded (left + count) next

theorem inLine_history {loaded : List Script} {left : Nat} {queue : Queue}
    (h : Queue.History loaded left queue) : ∃ gone, queue.InLine loaded gone ∧ gone.length = left := by
  induction h with
  | empty => exact ⟨[], ⟨rfl, by simp, by simp, by simp⟩, rfl⟩
  | load _ hreached ih =>
    obtain ⟨gone, hline, hlength⟩ := ih
    exact ⟨gone, inLine_load hline hreached, hlength⟩
  | process _ hprocess ih =>
    obtain ⟨gone, hline, hlength⟩ := ih
    obtain ⟨more, hnext, hmore, -⟩ := inLine_process hline hprocess
    exact ⟨gone ++ more, hnext, by rw [List.length_append, hlength, hmore]⟩
  | run _ hrun ih =>
    obtain ⟨gone, hline, hlength⟩ := ih
    obtain ⟨more, hnext, hmore, -⟩ := inLine_drains hline (drains_of_run hrun)
    exact ⟨gone ++ more, hnext, by rw [List.length_append, hlength, hmore]⟩

/-- A script that has been played comes in the line behind finished ones only. -/
theorem Queue.InLine.finished_before {loaded gone : List Script} {queue : Queue}
    (h : queue.InLine loaded gone) {earlier later : List Script} {script : Script}
    (hline : gone ++ queue.scripts = earlier ++ script :: later)
    (hplayed : script ≠ .fresh script.block) : ∀ other ∈ earlier, other.isFinished = true := by
  intro other hother
  apply h.finished
  rcases List.append_eq_append_iff.mp hline with ⟨more, hmore, hscripts⟩ | ⟨more, rfl, -⟩
  · -- a script that is not gone and not fresh is the head
    cases more with
    | nil => simpa [hmore] using hother
    | cons head others =>
      refine absurd (h.waiting script ?_) hplayed
      simp [hscripts]
  · exact List.mem_append_left _ hother

/-- **A queue is played in the order of loading.** After any history of calls, all that was loaded
stands in line: finished scripts that have left, the script in play, and fresh ones behind it. So
nothing of a script is evaluated before all scripts loaded earlier have finished. A frame of the head
takes away just the scripts that it finishes. Playing on is a row of such frames; it counts the scripts
by which the queue gets shorter, and it leaves the queue idle or with a head that is not finished and
held up. -/
theorem queue_in_order {loaded : List Script} {left : Nat} {queue : Queue}
    (h : Queue.History loaded left queue) :
    (∃ gone, gone.length = left ∧ queue.InLine loaded gone ∧
      ∀ earlier script later, gone ++ queue.scripts = earlier ++ script :: later →
        script ≠ .fresh script.block → ∀ other ∈ earlier, other.isFinished = true) ∧
    (∀ {σ : Type} (host : Host σ) (base : Option Value) (finished : Bool) (next : Queue),
      Gives (queue.process host base) (finished, next) →
        next.size + finished.toNat = queue.size) ∧
    ∀ {σ : Type} (host : Host σ) (base : Option Value) (count : Nat) (next : Queue),
      Gives (queue.runUntilBlocked host base) (count, next) →
        queue.Drains host base count next ∧ next.size + count = queue.size ∧
        (next.isIdle = true ∨ ∃ head others, next.scripts = head :: others ∧
          head.isFinished = false ∧ head.Blocked host base) := by
  obtain ⟨gone, hline, hgone⟩ := inLine_history h
  refine ⟨⟨gone, hgone, hline, fun _ _ _ heq hplayed => hline.finished_before heq hplayed⟩, ?_, ?_⟩
  · intro σ host base finished next hprocess
    obtain ⟨-, -, -, hsize⟩ := inLine_process hline hprocess
    exact hsize
  · intro σ host base count next hrun
    have hdrains := drains_of_run hrun
    obtain ⟨-, -, -, hsize⟩ := inLine_drains hline hdrains
    exact ⟨hdrains, hsize, blocked_of_drains hdrains⟩

/-- A script after a frame with the stalling host. -/
def Script.afterFrame (block : Block) : Script :=
  ((Script.run .stalling none (.fresh block)).run ⟨(), #[]⟩).1.2

/-- A script of one statement, played to its end. -/
def passed : Script := .afterFrame [[.this]]

/-- A script of a call that the host has not finished, held up in its first frame. -/
def stalled : Script := .afterFrame [[.method "wait" [] false]]

/-- A queue of both, loaded as far as they had come. -/
def rewound : Queue := (({} : Queue).load passed).load stalled

theorem queue_in_order_rewound :
    Queue.History [passed, stalled] 1 ⟨[stalled]⟩ ∧
    Gives (rewound.runUntilBlocked .stalling none) (1, ⟨[stalled]⟩) ∧
    (∃ gone, gone.length = 1 ∧ Queue.InLine [passed, stalled] gone ⟨[stalled]⟩) ∧
    stalled.isFinished = false ∧ stalled.Blocked .stalling none := by
  have hpassed : passed.Reached passed.block := .run .fresh ⟨⟨(), #[]⟩, rfl⟩
  have hstalled : stalled.Reached stalled.block := .run .fresh ⟨⟨(), #[]⟩, rfl⟩
  have hstart : Queue.History [passed, stalled] 0 rewound := .load (.load .empty hpassed) hstalled
  have hrun : Gives (rewound.runUntilBlocked .stalling none) (1, ⟨[stalled]⟩) := by
    refine ⟨⟨(), #[]⟩, ?_⟩
    simp [rewound, passed, stalled, Script.afterFrame, sleepName, Queue.load, Queue.runUntilBlocked,
      Queue.runScripts, Queue.noteFinished, Script.reset, BlockState.reset, resetStates,
      StatementState.reset, LinkState.reset, Host.stalling, Script.run, Script.fresh, BlockState.run,
      BlockState.fresh, freshStates, StatementState.fresh, rowsOf, runRows, runSteps, stepRows,
      evaluate, chain, follow, Answer.ofBase, playChain, values, ask, Answer.isPending,
      Status.blocks, advance, tickAlong, note, modify, modifyGet, MonadStateOf.modifyGet,
      StateT.modifyGet, StateT.run, StateT.bind, StateT.pure, bind, pure]
  have hend : Queue.History [passed, stalled] 1 ⟨[stalled]⟩ := .run hstart hrun
  obtain ⟨gone, hlength, hline, -⟩ := (queue_in_order hend).1
  obtain ⟨-, -, hidle | ⟨head, others, hscripts, hheld⟩⟩ := (queue_in_order hstart).2.2 _ _ _ _ hrun
  · cases hidle
  · cases hscripts
    exact ⟨hend, hrun, ⟨gone, hlength, hline⟩, hheld⟩

end Cutscene
