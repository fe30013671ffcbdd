import Cutscene.Proofs.Expr.Writing
import Cutscene.Proofs.Play.Joining

/-!
How long a script of pauses takes.

`BlockState.Lasts` counts the frames that a block is held up for before one finishes it, whatever hosts
it is played with. A block behind others lasts as long as it does alone (`Lasts.second`), and a block in
two parts lasts as long as both together, since the second part begins in the very frame that finishes
the first (`Lasts.append`).

A group is a pause with others alongside. All of them count the frames from the start of the group: the
one under the cursor is evaluated, and while it is pending so are all behind it. So when the cursor comes
to a pause, that one has counted as many frames as have passed, and a pause that is over by then is passed
in the same frame (`pausing_lasts`). Hence a group lasts as long as the longest of its pauses, and groups
last as long as all of them together (`groups_last`).
-/
namespace Cutscene

open Play

variable {σ : Type}

/-! ## How long a block lasts -/

namespace BlockState

/-- The state has the form of the block, and the cursor is inside. -/
structure Fits (block : Block) (state : BlockState) : Prop where
  length : state.statements.length = block.length
  cursor : state.cursor ≤ block.length

theorem fits_fresh (block : Block) : (fresh block).Fits block :=
  ⟨(formed_fresh block).length, Nat.zero_le _⟩

theorem Fits.run {host : Host σ} {block : Block} {base : Option Value} {state next : BlockState}
    {finished : Bool} (h : state.Fits block)
    (hrun : Gives (runRows (rowsOf host block) base state) (finished, next)) : next.Fits block := by
  obtain ⟨hlength, hcursor⟩ := within_of_run h.length h.cursor hrun
  exact ⟨hlength, hcursor⟩

/-- From this state on, so many frames of the block say that it is not finished, and the next one says
that it is. -/
def Lasts (block : Block) : Nat → BlockState → Prop
  | 0, state => ∀ {σ : Type} (host : Host σ) (base : Option Value) (finished : Bool)
      (next : BlockState), Gives (runRows (rowsOf host block) base state) (finished, next) →
      finished = true
  | more + 1, state => ∀ {σ : Type} (host : Host σ) (base : Option Value) (finished : Bool)
      (next : BlockState), Gives (runRows (rowsOf host block) base state) (finished, next) →
      finished = false ∧ Lasts block more next

section Lasts
variable {a b block : Block} {state : BlockState} {m n : Nat}

/-- A state lasts as long as those that its first frame passes through. -/
theorem lasts_of_gives (h : ∀ {σ : Type} (host : Host σ) (base : Option Value) (finished : Bool)
    (next : BlockState), Gives (runRows (rowsOf host block) base state) (finished, next) →
      ∃ mid, Lasts block n mid ∧ Gives (runRows (rowsOf host block) base mid) (finished, next)) :
    Lasts block n state := by
  cases n with
  | zero =>
    intro σ host base finished next hrun
    obtain ⟨mid, hmid, hrest⟩ := h host base finished next hrun
    exact hmid host base finished next hrest
  | succ n =>
    intro σ host base finished next hrun
    obtain ⟨mid, hmid, hrest⟩ := h host base finished next hrun
    exact hmid host base finished next hrest

theorem lasts_finished (h : block.length ≤ state.cursor) : Lasts block 0 state := by
  intro σ host base finished next hrun
  have hrows : (rowsOf host block).length ≤ state.cursor := by
    rw [length_rowsOf]
    exact h
  rw [runRows_finished hrows] at hrun
  exact congrArg Prod.fst (gives_pure hrun)

/-- **Behind other statements a block lasts as long as alone.** -/
theorem Lasts.second {done : List StatementState} (hd : done.length = a.length)
    (h : Lasts b n state) : Lasts (a ++ b) n (state.behind done) := by
  have halone : ∀ {σ : Type} {host : Host σ} {base : Option Value} {state : BlockState}
      {finished : Bool} {next : BlockState},
      Gives (runRows (rowsOf host (a ++ b)) base (state.behind done)) (finished, next) →
      ∃ next', next = next'.behind done ∧
        Gives (runRows (rowsOf host b) base state) (finished, next') := by
    rintro σ host base state finished next ⟨stage, hstage⟩
    have hd' : done.length = (rowsOf host a).length := by rw [hd, length_rowsOf]
    have hstep : InStep (fun played alone => played = (alone.1, alone.2.behind done))
        (runRows (rowsOf host a ++ rowsOf host b) base (state.behind done))
        (runRows (rowsOf host b) base state) := inStep_second hd' (steadyRows_rowsOf host b) state
    obtain ⟨hsame, -⟩ := hstep stage stage ⟨rfl, rfl⟩
    rw [← rowsOf_append, hstage] at hsame
    obtain ⟨hfinished, hnext⟩ := Prod.mk.inj hsame
    exact ⟨_, hnext, stage, Prod.ext hfinished.symm rfl⟩
  induction n generalizing state with
  | zero =>
    intro σ host base finished next hrun
    obtain ⟨next', rfl, hrun'⟩ := halone hrun
    exact h host base finished next' hrun'
  | succ n ih =>
    intro σ host base finished next hrun
    obtain ⟨next', rfl, hrun'⟩ := halone hrun
    obtain ⟨hheld, hnext⟩ := h host base finished next' hrun'
    exact ⟨hheld, ih hnext⟩

/-- **A block in two parts lasts as long as both together.** The induction is on the frames that the first
part takes; the frame that finishes it is the first one of the second part. -/
theorem Lasts.append (parted : b.Parted) (hs : state.Fits a) (ha : Lasts a n state)
    (hb : Lasts b m (fresh b)) : Lasts (a ++ b) (n + m) (state.followedBy (freshStates b)) := by
  have hwhole : ∀ {σ : Type} (host : Host σ) (base : Option Value) {state : BlockState},
      state.Fits a → runRows (rowsOf host (a ++ b)) base (state.followedBy (freshStates b)) =
        (runRows (rowsOf host a) base state >>= fun played =>
          if played.1 then runRows (rowsOf host (a ++ b)) base (played.2.followedBy (freshStates b))
          else pure (false, played.2.followedBy (freshStates b))) := by
    intro σ host base state hs
    have hrows := length_rowsOf host a
    rw [rowsOf_append]
    apply runRows_first (parted_rowsOf parted host)
    · rw [hrows, hs.length]
    · rw [hrows]
      exact hs.cursor
  induction n generalizing state with
  | zero =>
    rw [Nat.zero_add]
    apply lasts_of_gives
    intro σ host base finished next hrun
    rw [hwhole host base hs] at hrun
    obtain ⟨⟨through, mid⟩, hmid, hrest⟩ := gives_bind hrun
    obtain rfl : through = true := ha host base through mid hmid
    have hfits : mid.Fits a := hs.run hmid
    have hlength : state.statements.length = (rowsOf host a).length := by
      rw [hs.length, length_rowsOf]
    have hend : a.length ≤ mid.cursor := by
      have h := finished_of_run hlength hmid
      rwa [length_rowsOf] at h
    have hbehind : mid.followedBy (freshStates b) = (fresh b).behind mid.statements := by
      have hcursor : mid.cursor = mid.statements.length + 0 := by
        rw [hfits.length]
        exact Nat.le_antisymm hfits.cursor hend
      rw [followedBy, behind, fresh, hcursor]
    rw [hbehind] at hrest
    exact ⟨_, hb.second hfits.length, hrest⟩
  | succ n ih =>
    rw [Nat.add_right_comm]
    intro σ host base finished next hrun
    rw [hwhole host base hs] at hrun
    obtain ⟨⟨through, mid⟩, hmid, hrest⟩ := gives_bind hrun
    obtain ⟨rfl, hmore⟩ := ha host base through mid hmid
    obtain ⟨rfl, rfl⟩ := Prod.mk.inj (gives_pure hrest)
    exact ⟨rfl, ih (hs.run hmid) hmore⟩

end Lasts

end BlockState

/-! ## Pauses -/

/-- A time to wait for, as it is written: a constant that is a non-negative integer. It is not the largest
of all integers, for then the count of frames that are more would not fit into one. -/
structure Pause where
  text : String
  limit : Int64
  reads : Value.ofConstant text = .int limit
  nonneg : 0 ≤ limit
  bounded : limit < Int64.maxValue

namespace Pause

/-- The pause that the decimal digits of an integer stand for. -/
def ofInteger (limit : Int64) (nonneg : 0 ≤ limit) (bounded : limit < Int64.maxValue) : Pause where
  text := Number.integerText limit
  limit := limit
  nonneg := nonneg
  bounded := bounded
  reads := by
    obtain ⟨size, hdigits, hsize⟩ := Expr.spelling_int nonneg
    have htext : (Number.integerText limit).toList = Nat.toDigits 10 size := hdigits
    have hread := Expr.readInteger_toDigits hsize
    have hquote : ∀ rest, Nat.toDigits 10 size ≠ '"' :: rest := by
      intro rest heq
      have hdigit := Number.allDigits_toDigits size '"' (by simp [heq])
      exact absurd hdigit (by decide)
    rw [Value.ofConstant, htext]
    split
    · next rest heq => exact absurd heq (hquote rest)
    · rw [hread]

/-- The number of frames to wait for. -/
def frames (pause : Pause) : Nat := pause.limit.toInt.toNat

/-- The statement that waits. -/
def statement (pause : Pause) (simultaneous : Bool) : Statement :=
  [.method sleepName [[.constant pause.text]] simultaneous]

/-- One frame more than a pause waits for can still be counted. -/
theorem frames_bounded (pause : Pause) : pause.frames + 1 < 2 ^ 63 := by
  have hbounded : pause.limit.toInt < Int64.maxValue.toInt := Int64.lt_iff_toInt_lt.mp pause.bounded
  have hlargest : Int64.maxValue.toInt = 2 ^ 63 - 1 := by decide
  unfold frames
  omega

/-- A pause holds its frame up for as long as it has not counted more frames than it waits for. -/
theorem evaluate_statement (pause : Pause) (simultaneous : Bool) (host : Host σ)
    (base : Option Value) {passed : Nat} (hpassed : passed + 1 < 2 ^ 63) :
    evaluate host (pause.statement simultaneous) base ⟨passed, .plain⟩ =
      pure (if pause.frames ≤ passed then .done else .pending, ⟨passed + 1, .plain⟩) := by
  have hlimit : pause.limit.toInt = pause.frames :=
    (Int.toNat_of_nonneg (Int64.le_iff_toInt_le.mp pause.nonneg)).symm
  have hcount : (Int64.ofNat (passed + 1)).toInt = passed + 1 := Int64.toInt_ofNat_of_lt hpassed
  have hover : pause.limit < Int64.ofNat passed + 1 ↔ pause.frames ≤ passed := by
    have hnext : Int64.ofNat passed + 1 = Int64.ofNat (passed + 1) := (Int64.ofNat_add passed 1).symm
    rw [hnext, Int64.lt_iff_toInt_lt, hlimit, hcount]
    omega
  by_cases h : pause.frames ≤ passed
  · simp [statement, evaluate, playSleep, value, valueBy, pause.reads, Value.toInteger, hover, h]
  · simp [statement, evaluate, playSleep, value, valueBy, pause.reads, Value.toInteger, hover, h]

end Pause

/-- The longest of some pauses. -/
def Pause.longest (pauses : List Pause) : Nat := (pauses.map Pause.frames).foldr max 0

@[simp] theorem Pause.longest_cons (pause : Pause) (pauses : List Pause) :
    longest (pause :: pauses) = max pause.frames (longest pauses) := rfl

/-! ## Pauses alongside each other -/

/-- The statements of pauses, all but perhaps the first one simultaneous. -/
def pausing (simultaneous : Bool) : List Pause → Block
  | [] => []
  | pause :: pauses => pause.statement simultaneous :: pausing true pauses

/-- The progress of pauses when so many frames have passed for each of them. -/
def passing (pauses : List Pause) (passed : Nat) : List StatementState :=
  pauses.map fun _ => ⟨passed, .plain⟩

theorem freshStates_pausing (simultaneous : Bool) (pauses : List Pause) :
    freshStates (pausing simultaneous pauses) = passing pauses 0 := by
  induction pauses generalizing simultaneous with
  | nil => simp [pausing, passing, freshStates]
  | cons pause pauses ih =>
    have hstatement : StatementState.fresh (pause.statement simultaneous) = ⟨0, .plain⟩ := by
      simp [Pause.statement, StatementState.fresh]
    rw [pausing, freshStates, hstatement, ih]
    rfl

section Pausing
variable {base : Option Value} {host : Host σ}

/-- All simultaneous pauses count the frame. -/
theorem tickAlong_pausing (pauses : List Pause) {passed : Nat} (hpassed : passed + 1 < 2 ^ 63) :
    tickAlong base (rowsOf host (pausing true pauses)) (passing pauses passed) =
      pure (passing pauses (passed + 1)) := by
  induction pauses with
  | nil => simp [pausing, passing, rowsOf, tickAlong]
  | cons pause pauses ih =>
    have hsimultaneous : Statement.isSimultaneous (pause.statement true) = true := rfl
    rw [pausing, rowsOf]
    simp only [passing, List.map_cons, tickAlong, hsimultaneous, if_true,
      pause.evaluate_statement _ _ _ hpassed, pure_bind]
    rw [← passing, ih, pure_bind]
    rfl

variable (simultaneous : Bool) (pause : Pause) (pauses : List Pause) {passed : Nat}

/-- A step evaluates the first pause. While it is not over, the frame counts for all of them. -/
theorem gives_step_pausing (hpassed : passed + 1 < 2 ^ 63) {outcome : Option Status} {next : BlockState}
    (h : Gives (stepRows (rowsOf host (pausing simultaneous (pause :: pauses))) base
      ⟨0, passing (pause :: pauses) passed⟩) (outcome, next)) :
    if pause.frames ≤ passed then outcome = some .done ∧
      next = BlockState.behind ⟨0, passing pauses passed⟩ [⟨passed + 1, .plain⟩]
    else outcome = some .pending ∧ next = ⟨0, passing (pause :: pauses) (passed + 1)⟩ := by
  have hpassing : passing (pause :: pauses) passed = ⟨passed, .plain⟩ :: passing pauses passed := rfl
  rw [pausing, rowsOf, hpassing] at h
  simp only [stepRows, List.getElem?_cons_zero, pause.evaluate_statement _ _ _ hpassed,
    pure_bind, List.set_cons_zero] at h
  obtain ⟨-, -, h⟩ := gives_bind h
  by_cases hover : pause.frames ≤ passed
  · simp only [hover, if_true, advance, pure_bind] at h ⊢
    exact Prod.mk.inj (gives_pure h)
  · simp only [hover, if_false, advance] at h ⊢
    simp only [List.drop_succ_cons, List.drop_zero, tickAlong_pausing pauses hpassed, pure_bind] at h
    exact Prod.mk.inj (gives_pure h)

end Pausing

namespace Pause

/-- **Pauses alongside each other last as long as the longest of them**, less the frames that have passed
already. The induction is on the pauses, and at each of them on the frames that it has left. -/
theorem pausing_lasts (simultaneous : Bool) (pauses : List Pause) {passed : Nat}
    (hpassed : passed + 1 < 2 ^ 63) :
    BlockState.Lasts (pausing simultaneous pauses) (longest pauses - passed)
      ⟨0, passing pauses passed⟩ := by
  induction pauses generalizing simultaneous passed with
  | nil =>
    have hnone : longest [] - passed = 0 := Nat.zero_sub passed
    rw [hnone]
    apply BlockState.lasts_finished
    exact Nat.le_refl 0
  | cons pause pauses ih =>
    -- a pause that is over is passed, and the others are a block of their own
    have hover : ∀ passed, passed + 1 < 2 ^ 63 → pause.frames ≤ passed →
        BlockState.Lasts (pausing simultaneous (pause :: pauses))
          (longest (pause :: pauses) - passed) ⟨0, passing (pause :: pauses) passed⟩ := by
      intro passed hpassed hover
      have hothers : longest (pause :: pauses) - passed = longest pauses - passed := by
        rw [longest_cons]
        omega
      rw [hothers]
      apply BlockState.lasts_of_gives
      intro σ host base finished next hrun
      rw [runRows_eq] at hrun
      obtain ⟨⟨outcome, mid⟩, hstep, hrest⟩ := gives_bind hrun
      have hstepped := gives_step_pausing simultaneous pause pauses hpassed hstep
      rw [if_pos hover] at hstepped
      obtain ⟨rfl, rfl⟩ := hstepped
      have hbehind : BlockState.Lasts (pausing true pauses) (longest pauses - passed)
          ⟨0, passing pauses passed⟩ := ih true hpassed
      exact ⟨_, hbehind.second (a := [pause.statement simultaneous]) rfl, hrest⟩
    obtain ⟨left, hleft⟩ : ∃ left, pause.frames ≤ passed + left := ⟨pause.frames, by omega⟩
    induction left generalizing passed with
    | zero => exact hover passed hpassed hleft
    | succ left ihleft =>
      by_cases hend : pause.frames ≤ passed
      · exact hover passed hpassed hend
      · have hmore : longest (pause :: pauses) - passed =
            (longest (pause :: pauses) - (passed + 1)) + 1 := by
          rw [longest_cons]
          omega
        rw [hmore]
        intro σ host base finished next hrun
        rw [runRows_eq] at hrun
        obtain ⟨⟨outcome, mid⟩, hstep, hrest⟩ := gives_bind hrun
        have hstepped := gives_step_pausing simultaneous pause pauses hpassed hstep
        rw [if_neg hend] at hstepped
        obtain ⟨rfl, rfl⟩ := hstepped
        obtain ⟨rfl, rfl⟩ := Prod.mk.inj (gives_pure hrest)
        -- the pause is not over, so the count is not near its bound
        have hbounded := pause.frames_bounded
        exact ⟨rfl, ihleft (by omega) (by omega)⟩

end Pause

/-! ## Groups -/

/-- A pause with others alongside. -/
structure Group where
  first : Pause
  others : List Pause

namespace Group

/-- The statements of a group: the first one is plain, and the others are simultaneous. -/
def block (group : Group) : Block := pausing false (group.first :: group.others)

/-- The longest pause of a group. -/
def longest (group : Group) : Nat := Pause.longest (group.first :: group.others)

theorem parted_flatMap (groups : List Group) : Block.Parted (groups.flatMap block) := by
  intro statement hhead
  cases groups with
  | nil => cases hhead
  | cons group groups =>
    obtain rfl : group.first.statement false = statement := Option.some.inj hhead
    exact ⟨rfl, rfl⟩

/-- **A group lasts as long as the longest of its pauses.** -/
theorem lasts (group : Group) : BlockState.Lasts group.block group.longest (.fresh group.block) := by
  have h : BlockState.Lasts group.block (group.longest - 0)
      ⟨0, passing (group.first :: group.others) 0⟩ :=
    Pause.pausing_lasts false (group.first :: group.others) (by decide)
  rw [← freshStates_pausing false] at h
  exact h

/-- **Groups last as long as all of them together.** -/
theorem flatMap_lasts (groups : List Group) :
    BlockState.Lasts (groups.flatMap block) (groups.map longest).sum (.fresh (groups.flatMap block)) := by
  induction groups with
  | nil =>
    apply BlockState.lasts_finished
    exact Nat.le_refl 0
  | cons group groups ih =>
    have h := group.lasts.append (parted_flatMap groups) (BlockState.fits_fresh group.block) ih
    rw [BlockState.followedBy, BlockState.fresh, ← freshStates_append] at h
    exact h

end Group

/-! ## Frame after frame -/

/-- The frames of a script say how long it lasts: the first ones, as many as that, that it is not finished,
and all others that it is. -/
theorem turns_of_lasts {block : Block} {state : BlockState} {frames : Nat} (hs : state.Fits block)
    (h : state.Lasts block frames) (turns : List (Turn σ)) (world : σ) :
    (Player.turns Script.run turns ⟨block, state⟩ world).1.map Scene.ended =
      (List.range turns.length).map fun n => decide (frames ≤ n) := by
  induction turns generalizing state frames world with
  | nil => rfl
  | cons turn turns ih =>
    let played := (runRows (rowsOf turn.host block) turn.base state).run ⟨turn.meanwhile world, #[]⟩
    have hrun : Gives (runRows (rowsOf turn.host block) turn.base state) (played.1.1, played.1.2) :=
      ⟨_, rfl⟩
    have hnext : played.1.2.Fits block := hs.run hrun
    rw [List.length_cons, List.range_succ_eq_map, List.map_cons, List.map_map]
    cases frames with
    | zero =>
      have hthrough : played.1.1 = true := h turn.host turn.base _ _ hrun
      -- the frame has left the cursor behind the block, and so do all that follow
      have hdone : BlockState.Lasts block 0 played.1.2 := by
        apply BlockState.lasts_finished
        have hlength : state.statements.length = (rowsOf turn.host block).length := by
          rw [hs.length, length_rowsOf]
        rw [hthrough] at hrun
        have hend := finished_of_run hlength hrun
        rwa [length_rowsOf] at hend
      have hlater := @ih played.1.2 0 hnext hdone played.2.host
      refine congrArg₂ List.cons hthrough (hlater.trans ?_)
      simp
    | succ frames =>
      obtain ⟨hheld, hmore⟩ := h turn.host turn.base _ _ hrun
      have hlater := ih hnext hmore played.2.host
      refine congrArg₂ List.cons hheld (hlater.trans ?_)
      simp

/-- **Pauses take the longest of each group, one group after the other.** A script over groups of pauses,
each a plain one with any number of simultaneous ones behind it, says that it is not finished in as many
frames as the longest pauses of the groups come to together, and from then on that it is, whatever the
frames find. -/
theorem groups_last (groups : List Group) (turns : List (Turn σ)) (world : σ) :
    (Player.turns Script.run turns (.fresh (groups.flatMap Group.block)) world).1.map Scene.ended =
      (List.range turns.length).map fun n => decide ((groups.map Group.longest).sum ≤ n) :=
  turns_of_lasts (BlockState.fits_fresh _) (Group.flatMap_lasts groups) turns world

end Cutscene
