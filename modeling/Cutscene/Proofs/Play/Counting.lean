import Cutscene.Proofs.Play.Exchange

/-!
A range is a queue of fresh scripts over its body.

The loop of a range goes on for as long as the counter is below the upper bound, and there the
counter can go up by one without leaving its type (`playCounts_while`). Between two counts the body is
reset, and a reset body is a fresh one; so what is left of a range is the script in play followed by a
fresh script for every further count (`awaiting`). Played for a frame, the loop and that queue keep in
step (`inStep_counts`), and so they show the host the same for as long as they are played
(`range_plays_queue`).
-/
namespace Cutscene

open Play

variable {σ : Type}

/-! ## The loop -/

/-- A counter below another one can go up by one. -/
theorem toInt_succ_of_lt {counter high : Int64} (h : counter < high) :
    (counter + 1).toInt = counter.toInt + 1 := by
  have hlt : counter.toInt < high.toInt := Int64.lt_iff_toInt_lt.mp h
  have hhigh : high.toInt < 2 ^ 63 := Int64.toInt_lt high
  have hlow : -2 ^ 63 ≤ counter.toInt := Int64.le_toInt counter
  rw [Int64.toInt_add]
  exact Int.bmod_eq_of_le (by simp; omega) (by simp; omega)

/-- The counts that a range has left. -/
def countsLeft (counter high : Int64) : Nat := (high.toInt - counter.toInt).toNat

theorem countsLeft_of_not_lt {counter high : Int64} (h : ¬ counter < high) :
    countsLeft counter high = 0 := by
  rw [Int64.lt_iff_toInt_lt] at h
  unfold countsLeft
  omega

theorem countsLeft_of_lt {counter high : Int64} (h : counter < high) :
    countsLeft counter high = countsLeft (counter + 1) high + 1 := by
  have hsucc := toInt_succ_of_lt h
  rw [Int64.lt_iff_toInt_lt] at h
  unfold countsLeft
  omega

/-- While there are counts left, the counter is below the upper bound. -/
theorem lt_of_countsLeft {counter high : Int64} {more : Nat} (h : countsLeft counter high = more + 1) :
    counter < high ∧ countsLeft (counter + 1) high = more := by
  have hlt : counter < high := by
    by_contra hnot
    rw [countsLeft_of_not_lt hnot] at h
    cases h
  rw [countsLeft_of_lt hlt] at h
  exact ⟨hlt, Nat.succ.inj h⟩

/-- **The loop of a range** goes on while the counter is below the upper bound. -/
theorem playCounts_while (rows : List (Row σ)) (base : Option Value) (counter high : Int64)
    (body : BlockState) :
    playCounts rows base (countsLeft counter high) counter body =
      if counter < high then do
        let (finished, body) ← runRows rows base body
        if finished then playCounts rows base (countsLeft (counter + 1) high) (counter + 1) body.reset
        else return (false, counter, body)
      else pure (true, counter, body) := by
  by_cases h : counter < high
  · rw [if_pos h, countsLeft_of_lt h, playCounts]
  · rw [if_neg h, countsLeft_of_not_lt h, playCounts]

/-! ## The queue that a range is -/

/-- The scripts that stand for so many counts of a body: the one in play as far as it has come, and
fresh ones behind it. -/
def awaiting (body : Block) (progress : BlockState) : Nat → List Script
  | 0 => []
  | more + 1 => ⟨body, progress⟩ :: List.replicate more (.fresh body)

theorem awaiting_fresh (body : Block) (counts : Nat) :
    awaiting body (.fresh body) counts = List.replicate counts (.fresh body) := by
  cases counts with
  | zero => rfl
  | succ more => rfl

@[simp] theorem length_awaiting (body : Block) (progress : BlockState) (counts : Nat) :
    (awaiting body progress counts).length = counts := by
  cases counts with
  | zero => rfl
  | succ more => simp [awaiting]

/-- What the loop of a range and the queue come to in a frame: the loop is through just if the queue
is empty, and from the counter `start` it has gone up by one for every script that left. -/
structure Tallied (body : Block) (start high : Int64) (loop : Bool × Int64 × BlockState)
    (queue : Nat × List Script) : Prop where
  ended : loop.1 = queue.2.isEmpty
  formed : loop.2.2.Formed body
  counter : loop.2.1.toInt = start.toInt + queue.1
  counted : queue.1 + queue.2.length = countsLeft start high
  scripts : queue.2 = awaiting body loop.2.2 (countsLeft loop.2.1 high)

/-- One script of the queue is played as the body is. -/
theorem inStep_script (host : Host σ) (base : Option Value) (body : Block) (progress : BlockState) :
    InStep (fun a b => b = (a.1, (⟨body, a.2⟩ : Script))) (runRows (rowsOf host body) base progress)
      (Script.run host base ⟨body, progress⟩) := by
  have hrun : Steady (runRows (rowsOf host body) base progress) :=
    (talks_runRows (talkingRows_rowsOf host body) base progress).steady
  apply InStep.map_right hrun
  rintro a _ _ _ rfl
  rfl

/-- **A frame of the loop and a frame of the queue.** The induction is on the counts that are left. -/
theorem inStep_counts (host : Host σ) (base : Option Value) {body : Block} {counter high : Int64}
    {progress : BlockState} (formed : progress.Formed body) :
    InStep (Tallied body counter high)
      (playCounts (rowsOf host body) base (countsLeft counter high) counter progress)
      (Queue.runScripts host base (awaiting body progress (countsLeft counter high))) := by
  obtain ⟨left, hleft⟩ : ∃ left, countsLeft counter high = left := ⟨_, rfl⟩
  induction left generalizing counter progress with
  | zero =>
    rw [hleft]
    apply InStep.pure
    exact ⟨rfl, formed, by simp, hleft.symm, by rw [hleft]; rfl⟩
  | succ more ih =>
    obtain ⟨hlt, hmore⟩ := lt_of_countsLeft hleft
    rw [playCounts_while, if_pos hlt, hleft, awaiting, Queue.runScripts]
    apply (inStep_script host base body progress).bind
    rintro ⟨finished, after⟩ _ hgives _ rfl
    have hafter : after.Formed body := formed_run formed hgives
    dsimp only
    cases finished with
    | false =>
      rw [if_neg (by decide), if_neg (by decide)]
      apply InStep.pure
      exact ⟨rfl, hafter, by simp, by simp [hleft], by rw [hleft]; rfl⟩
    | true =>
      -- the next count starts from a reset body, and the next script is a fresh one
      rw [if_pos rfl, if_pos rfl, block_reset_eq_fresh hafter, ← awaiting_fresh, ← hmore]
      apply InStep.note_right
      apply InStep.map_right (ih (formed_fresh body) hmore)
      rintro loop queue - - ⟨hended, hformed, hcounter, hcounted, hscripts⟩
      refine ⟨hended, hformed, ?_, ?_, hscripts⟩
      · rw [hcounter, toInt_succ_of_lt hlt]
        push_cast
        omega
      · rw [countsLeft_of_lt hlt, ← hcounted]
        dsimp only
        omega

/-! ## Frame after frame -/

/-- The progress of a range with bounds `low` and `high`, and the queue that stands for it. -/
def Ranging (body : Block) (low high : Int64) (state : StatementState) (queue : Queue) : Prop :=
  ∃ counter progress, state.link = .range (some (low, high)) counter progress ∧
    progress.Formed body ∧ low.toInt ≤ counter.toInt ∧ counter.toInt ≤ max low.toInt high.toInt ∧
    queue.scripts = awaiting body progress (countsLeft counter high)

theorem ranging_start (body : Block) (low high : Int64) (frames : Nat) :
    Ranging body low high ⟨frames, .range (some (low, high)) low (.fresh body)⟩
      ⟨List.replicate (countsLeft low high) (.fresh body)⟩ :=
  ⟨low, .fresh body, rfl, formed_fresh body, by omega, by omega, (awaiting_fresh body _).symm⟩

/-- A range whose bounds are fixed keeps in step with its queue for a frame. -/
theorem inStep_ranging {lower upper : Statement} {body : Block} {tail : List Link} {low high : Int64}
    (host : Host σ) (base : Option Value) (state : StatementState) (queue : Queue)
    (h : Ranging body low high state queue) :
    InStep (fun a b => a.1 = b.1 ∧ Ranging body low high a.2 b.2)
      (Statement.player (.range lower upper body :: tail) host base state)
      (Queue.player host base queue) := by
  obtain ⟨counter, progress, hlink, formed, hlow, hhigh, hscripts⟩ := h
  obtain ⟨frames, link⟩ := state
  obtain ⟨scripts⟩ := queue
  subst hlink hscripts
  have hloop : Statement.player (.range lower upper body :: tail) host base
        ⟨frames, .range (some (low, high)) counter progress⟩ =
      playCounts (rowsOf host body) base (countsLeft counter high) counter progress >>= fun loop =>
        pure (decide (bodyStatus loop.1 = .met),
          ⟨frames + 1, .range (some (low, high)) loop.2.1 loop.2.2⟩) := by
    simp [Statement.player, evaluate, playRange, fixBounds, countsLeft]
  have hqueue : Queue.player host base ⟨awaiting body progress (countsLeft counter high)⟩ =
      Queue.runScripts host base (awaiting body progress (countsLeft counter high)) >>= fun left =>
        pure (left.2.isEmpty, ⟨left.2⟩) := by
    simp [Queue.player, Queue.runUntilBlocked, Queue.isIdle]
  rw [hloop, hqueue]
  apply (inStep_counts host base formed).map
  rintro ⟨finished, last, after⟩ ⟨count, scripts⟩ - - ⟨hended, hformed, hcounter, hcounted, hscripts⟩
  dsimp only at hended hformed hcounter hcounted hscripts ⊢
  refine ⟨?_, last, after, rfl, hformed, by omega, ?_, hscripts⟩
  · rw [← hended]
    cases finished with
    | true => rfl
    | false => rfl
  · unfold countsLeft at hcounted
    omega

/-- The first evaluation of a range evaluates its bounds, and goes on as a range whose bounds are
fixed, with the counter at the lower one. -/
theorem evaluate_fresh_range (host : Host σ) (base : Option Value) (lower upper : Statement)
    (body : Block) (tail : List Link) :
    evaluate host (.range lower upper body :: tail) base (.fresh (.range lower upper body :: tail)) =
      (fixBounds host lower upper base 1 0 none >>= fun fixed =>
        evaluate host (.range lower upper body :: tail) base
          ⟨0, .range (some fixed.1) fixed.1.1 (.fresh body)⟩) := by
  simp [StatementState.fresh, BlockState.fresh, evaluate, playRange, fixBounds]

/-- The queue that a range is: as it is in play, or else with a fresh script over the body for every
count, as soon as the bounds are evaluated. -/
def Queue.ofRange (host : Host σ) (lower upper : Statement) (body : Block) (base : Option Value) :
    Option Queue → Play σ Queue
  | some queue => pure queue
  | none => do
    let (bounds, _) ← fixBounds host lower upper base 1 0 none
    return ⟨List.replicate (countsLeft bounds.1 bounds.2) (.fresh body)⟩

/-- Play a range as a queue for a frame. -/
def Queue.rangePlayer (lower upper : Statement) (body : Block) : Player σ (Option Queue) :=
  fun host base queued => do
    let queue ← Queue.ofRange host lower upper body base queued
    let (ended, queue) ← Queue.player host base queue
    return (ended, some queue)

/-- The progress of a range from its start on, and the queue that stands for it once it is there. -/
def RangingFrom (statement : Statement) (body : Block) (state : StatementState) :
    Option Queue → Prop
  | none => state = .fresh statement
  | some queue => ∃ low high, Ranging body low high state queue

/-- A range keeps in step with its queue for a frame, also in the first one. -/
theorem inStep_rangingFrom {lower upper : Statement} {body : Block} {tail : List Link}
    (host : Host σ) (base : Option Value) (state : StatementState) (queued : Option Queue)
    (h : RangingFrom (.range lower upper body :: tail) body state queued) :
    InStep (fun a b => a.1 = b.1 ∧ RangingFrom (.range lower upper body :: tail) body a.2 b.2)
      (Statement.player (.range lower upper body :: tail) host base state)
      (Queue.rangePlayer lower upper body host base queued) := by
  cases queued with
  | some queue =>
    obtain ⟨low, high, hranging⟩ := h
    rw [Queue.rangePlayer, Queue.ofRange, pure_bind]
    apply (inStep_ranging host base state queue hranging).map_right
    rintro a b - - ⟨hended, hnext⟩
    exact ⟨hended, low, high, hnext⟩
  | none =>
    obtain rfl : state = .fresh (.range lower upper body :: tail) := h
    have hbounds : Steady (fixBounds host lower upper base 1 0 none) :=
      (talks_fixBounds host base 1 lower upper 0 none).steady
    have hplayer : Statement.player (.range lower upper body :: tail) host base
          (.fresh (.range lower upper body :: tail)) =
        (fixBounds host lower upper base 1 0 none >>= fun fixed =>
          Statement.player (.range lower upper body :: tail) host base
            ⟨0, .range (some fixed.1) fixed.1.1 (.fresh body)⟩) := by
      rw [Statement.player, evaluate_fresh_range, bind_assoc]
      rfl
    have hqueue : Queue.rangePlayer lower upper body host base none =
        (fixBounds host lower upper base 1 0 none >>= fun fixed =>
          Queue.player host base
            ⟨List.replicate (countsLeft fixed.1.1 fixed.1.2) (.fresh body)⟩ >>= fun played =>
              pure (played.1, some played.2)) := by
      simp only [Queue.rangePlayer, Queue.ofRange, bind_assoc, pure_bind]
    rw [hplayer, hqueue]
    apply InStep.bind hbounds
    rintro ⟨⟨low, high⟩, start⟩ _ - - rfl
    apply (inStep_ranging host base _ _ (ranging_start body low high 0)).map_right
    rintro a b - - ⟨hended, hnext⟩
    exact ⟨hended, low, high, hnext⟩

/-- **A range is a queue of fresh scripts over its body.** Once the bounds are fixed, frame by frame,
the range exchanges the same with the host as a queue of as many fresh scripts as there are integers
from the lower bound up to the upper one, and it is met in just those frames that leave the queue idle.
The counter stays between the bounds, and it has gone up by one, as an integer, for every script that
left the queue. From the start on, the same holds behind the evaluation of the bounds, which belongs to
the first frame. -/
theorem range_plays_queue (lower upper : Statement) (body : Block) (tail : List Link)
    (turns : List (Turn σ)) (world : σ) :
    (∀ (low high : Int64) (frames : Nat),
      let counts := (high.toInt - low.toInt).toNat
      let range := (Statement.player (.range lower upper body :: tail)).turns turns
        ⟨frames, .range (some (low, high)) low (.fresh body)⟩ world
      let queue := Queue.player.turns turns ⟨List.replicate counts (.fresh body)⟩ world
      range.1 = queue.1 ∧ range.2.2 = queue.2.2 ∧
      ∃ counter progress, range.2.1.link = .range (some (low, high)) counter progress ∧
        low.toInt ≤ counter.toInt ∧ counter.toInt ≤ max low.toInt high.toInt ∧
        counter.toInt + queue.2.1.size = low.toInt + counts) ∧
    ((Statement.player (.range lower upper body :: tail)).turns turns
        (.fresh (.range lower upper body :: tail)) world).1 =
      ((Queue.rangePlayer lower upper body).turns turns none world).1 := by
  constructor
  · intro low high frames counts range queue
    obtain ⟨hscenes, ⟨counter, progress, hlink, -, hlow, hhigh, hscripts⟩, hworld⟩ :=
      Player.turns_eq inStep_ranging (ranging_start body low high frames) turns world
    refine ⟨hscenes, hworld, counter, progress, hlink, hlow, hhigh, ?_⟩
    have hsize : queue.2.1.size = countsLeft counter high :=
      (congrArg List.length hscripts).trans (length_awaiting body progress _)
    rw [hsize]
    simp only [countsLeft, counts]
    omega
  · have hstart : RangingFrom (.range lower upper body :: tail) body
        (.fresh (.range lower upper body :: tail)) none := rfl
    exact (Player.turns_eq inStep_rangingFrom hstart turns world).1

end Cutscene
