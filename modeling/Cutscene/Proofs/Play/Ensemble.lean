import Cutscene.Proofs.Play.Cursor
import Cutscene.Proofs.Play.Exchange
import Cutscene.Proofs.Value.Sameness

/-!
An `each` is a cast of scripts.

Every member is a role: a script of its own over the body, which a frame runs once, alone with the host
and with the member for `this` (`Cast.playRole`). The roles know nothing of each other, and what they share
is the host, whose state one leaves to the next (`Cast.frame`). The loop over the members runs every body
on the account of all that was said before; since what is exchanged does not depend on the account, a
frame of the loop is a frame of the cast (`playMembers_run`), and so are all frames of a statement whose
members are fixed (`turns_each`).

A role that is finished has nothing left to say: it is run all the same, its share is empty and it stays
as it is (`rests_turns`). The members themselves are those that the subject holds in the first frame,
without the ones that are the same as an earlier one (`evaluate_fresh_each`).
-/
namespace Cutscene

open Play

variable {σ : Type}

/-! ## Roles -/

/-- A member of an `each`, with a script of its own. -/
structure Role where
  member : Value
  script : Script

namespace Role

/-- A member with a script over the body before its first frame. -/
def fresh (body : Block) (member : Value) : Role := ⟨member, .fresh body⟩

/-- What an `each` remembers of a role. -/
def entry (role : Role) : Value × BlockState := (role.member, role.script.state)

/-- The script of a role is over the body, and its cursor is inside. -/
structure Plays (body : Block) (role : Role) : Prop where
  block : role.script.block = body
  within : role.script.state.Throughout BlockState.Within body

theorem plays_fresh (body : Block) (member : Value) : (fresh body member).Plays body :=
  ⟨rfl, lasting_within.throughout_fresh body⟩

end Role

/-- A frame of a cast: what each role exchanged with the host, and how far each has come. -/
structure Performance where
  shares : List (List Event)
  cast : List Role

namespace Performance

/-- Whether all roles are finished. -/
def ended (performance : Performance) : Bool :=
  performance.cast.all fun role => role.script.isFinished

/-- What is seen of a frame from outside: the shares of the roles, one after the other. -/
def scene (performance : Performance) : Scene := ⟨performance.shares.flatten, performance.ended⟩

/-- Whoever was finished in the earlier frame has an empty share in the later one, and is as it was. -/
def Rests (earlier later : Performance) : Prop :=
  ∀ (n : Nat) (role : Role), earlier.cast[n]? = some role → role.script.isFinished = true →
    later.shares[n]? = some [] ∧ later.cast[n]? = some role

end Performance

namespace Cast

/-- Run the script of a role once, alone with the host and with the member for `this`: what they exchange,
the role behind it and the host's state. -/
def playRole (host : Host σ) (role : Role) (world : σ) : List Event × Role × σ :=
  let played := (role.script.run host (some role.member)).run ⟨world, #[]⟩
  (played.2.exchanges, ⟨role.member, played.1.2⟩, played.2.host)

/-- Play a frame: one role after the other, each with the host's state that the one before leaves. -/
def frame (host : Host σ) : List Role → σ → Performance × σ
  | [], world => (⟨[], []⟩, world)
  | role :: roles, world =>
    let played := playRole host role world
    let others := frame host roles played.2.2
    (⟨played.1 :: others.1.shares, played.2.1 :: others.1.cast⟩, others.2)

/-- The frames of a cast, one after the other, and what is left of the cast and the host's state. -/
def turns : List (Turn σ) → List Role → σ → List Performance × List Role × σ
  | [], roles, world => ([], roles, world)
  | turn :: rest, roles, world =>
    let played := frame turn.host roles (turn.meanwhile world)
    let later := turns rest played.1.cast played.2
    (played.1 :: later.1, later.2)

section Roles
variable {body : Block}

/-- A role goes on as the body that it plays. -/
theorem plays_playRole {role : Role} (h : role.Plays body) (host : Host σ) (world : σ) :
    (playRole host role world).2.1.Plays body := by
  obtain ⟨member, block, state⟩ := role
  obtain ⟨rfl, hwithin⟩ := h
  refine ⟨rfl, ?_⟩
  have hrun : Gives (runRows (rowsOf host block) (some member) state)
      ((runRows (rowsOf host block) (some member) state).run ⟨world, #[]⟩).1 := ⟨⟨world, #[]⟩, rfl⟩
  exact lasting_within.run_throughout (fun s _ => lasting_within.evaluate host s) hwithin hrun

theorem plays_frame {roles : List Role} (h : ∀ role ∈ roles, role.Plays body) (host : Host σ)
    (world : σ) : ∀ role ∈ (frame host roles world).1.cast, role.Plays body := by
  induction roles generalizing world with
  | nil =>
    intro role hrole
    cases hrole
  | cons first roles ih =>
    intro role hrole
    rcases List.mem_cons.mp hrole with rfl | hothers
    · exact plays_playRole (h first (by simp)) host world
    · exact ih (fun role hr => h role (by simp [hr])) _ role hothers

/-- The loop says that a body is finished just if its script is. -/
theorem isFinished_of_run {host : Host σ} {base : Option Value} {state next : BlockState}
    {finished : Bool} (h : state.Throughout BlockState.Within body)
    (hrun : Gives (runRows (rowsOf host body) base state) (finished, next)) :
    Script.isFinished ⟨body, next⟩ = finished := by
  have hnext : next.Throughout BlockState.Within body :=
    lasting_within.run_throughout (fun s _ => lasting_within.evaluate host s) h hrun
  have hle : next.cursor ≤ body.length := hnext.1
  have hiff := finished_iff_of_run h hrun
  rw [Bool.eq_iff_iff, hiff, Script.isFinished, decide_eq_true_eq]
  exact ⟨fun hge => Nat.le_antisymm hle hge, fun heq => Nat.le_of_eq heq.symm⟩

/-- **The loop over the members is a frame of the cast.** The induction is on the roles: what the first one
does on the account so far is what it does alone, and the others find the host's state that it leaves. -/
theorem playMembers_run {roles : List Role} (h : ∀ role ∈ roles, role.Plays body) (host : Host σ)
    (stage : Stage σ) :
    let loop := (playMembers (rowsOf host body) (roles.map Role.entry)).run stage
    let played := frame host roles stage.host
    loop.1 = (played.1.ended, played.1.cast.map Role.entry) ∧ loop.2.host = played.2 ∧
      loop.2.exchanges = stage.exchanges ++ played.1.shares.flatten := by
  induction roles generalizing stage with
  | nil => exact ⟨rfl, rfl, (List.append_nil _).symm⟩
  | cons role roles ih =>
    obtain ⟨member, block, state⟩ := role
    obtain ⟨hblock, hwithin⟩ := h ⟨member, block, state⟩ (by simp)
    obtain rfl : block = body := hblock
    let role : Play σ (Bool × BlockState) := runRows (rowsOf host block) (some member) state
    let alone := role.run ⟨stage.host, #[]⟩
    let mid := (role.run stage).2
    let others := (playMembers (rowsOf host block) (roles.map Role.entry)).run mid
    obtain ⟨hresult, hhost, hshare⟩ :=
      (talks_runRows (talkingRows_rowsOf host block) (some member) state).afresh stage
    have hfinished : Script.isFinished ⟨block, alone.1.2⟩ = alone.1.1 :=
      isFinished_of_run hwithin ⟨_, rfl⟩
    obtain ⟨hothers, hworld, hrest⟩ := ih (fun role hr => h role (by simp [hr])) mid
    have hmid : mid.host = alone.2.host := hhost
    rw [hmid] at hothers hworld hrest
    intro loop played
    have hloop : loop.1 = (alone.1.1 && (frame host roles alone.2.host).1.ended,
        (member, alone.1.2) :: (frame host roles alone.2.host).1.cast.map Role.entry) := by
      show ((role.run stage).1.1 && others.1.1, (member, (role.run stage).1.2) :: others.1.2) = _
      rw [hothers, hresult]
    refine ⟨?_, hworld, ?_⟩
    · rw [hloop, ← hfinished]
      rfl
    · calc loop.2.exchanges
          = mid.exchanges ++ (frame host roles alone.2.host).1.shares.flatten := hrest
        _ = stage.exchanges ++ played.1.shares.flatten := by
            rw [hshare, List.append_assoc]
            rfl

end Roles

/-! ## The members stay, and who is finished rests -/

/-- Every member has a share of the frame, and the members are who they were. -/
theorem members_frame (host : Host σ) (roles : List Role) (world : σ) :
    (frame host roles world).1.cast.map Role.member = roles.map Role.member ∧
      (frame host roles world).1.shares.length = roles.length := by
  induction roles generalizing world with
  | nil => exact ⟨rfl, rfl⟩
  | cons role roles ih =>
    obtain ⟨hmembers, hlength⟩ := ih (playRole host role world).2.2
    exact ⟨congrArg (role.member :: ·) hmembers, congrArg Nat.succ hlength⟩

theorem members_turns (turns : List (Turn σ)) (roles : List Role) (world : σ) :
    ∀ played ∈ (Cast.turns turns roles world).1,
      played.cast.map Role.member = roles.map Role.member ∧ played.shares.length = roles.length := by
  induction turns generalizing roles world with
  | nil => simp [Cast.turns]
  | cons turn turns ih =>
    have hframe := members_frame turn.host roles (turn.meanwhile world)
    intro played hplayed
    rcases List.mem_cons.mp hplayed with rfl | hlater
    · exact hframe
    · obtain ⟨hmembers, hlength⟩ := ih _ _ played hlater
      have hcast := congrArg List.length hframe.1
      rw [List.length_map, List.length_map] at hcast
      exact ⟨hmembers.trans hframe.1, hlength.trans hcast⟩

theorem playRole_finished {role : Role} (h : role.script.isFinished = true) (host : Host σ)
    (world : σ) : playRole host role world = ([], role, world) := by
  have hend : role.script.size ≤ role.script.cursor := of_decide_eq_true h
  rw [playRole, run_finished hend]
  rfl

/-- **Roles that are all finished in one frame** change the host's state one after the other, each as its
script does alone. -/
theorem frame_finished {ι : Type} {host : Host σ} {body : Block} (member : ι → Value)
    (effect : σ → ι → σ)
    (h : ∀ item world, ∃ script events, script.isFinished = true ∧
      (Script.fresh body).run host (some (member item)) ⟨world, #[]⟩ =
        ((true, script), ⟨effect world item, events⟩)) (items : List ι) (world : σ) :
    let played := frame host (items.map fun item => Role.fresh body (member item)) world
    played.1.ended = true ∧ played.2 = items.foldl effect world := by
  induction items generalizing world with
  | nil => exact ⟨rfl, rfl⟩
  | cons item items ih =>
    obtain ⟨script, events, hend, hrun⟩ := h item world
    have hplay : playRole host (Role.fresh body (member item)) world =
        ((⟨effect world item, events⟩ : Stage σ).exchanges, ⟨member item, script⟩,
          effect world item) := by
      simp only [playRole, Role.fresh, StateT.run, hrun]
    obtain ⟨hended, hworld⟩ := ih (effect world item)
    simp only [List.map_cons, frame, hplay]
    refine ⟨?_, hworld⟩
    rw [Performance.ended, List.all_cons, hend, Bool.true_and]
    exact hended

/-- A finished role is run all the same, and has nothing to say. -/
theorem rests_frame {roles : List Role} {n : Nat} {role : Role} (hrole : roles[n]? = some role)
    (hend : role.script.isFinished = true) (host : Host σ) (world : σ) :
    (frame host roles world).1.shares[n]? = some [] ∧
      (frame host roles world).1.cast[n]? = some role := by
  induction roles generalizing n world with
  | nil => cases hrole
  | cons first roles ih =>
    cases n with
    | zero =>
      obtain rfl : first = role := Option.some.inj hrole
      rw [frame, playRole_finished hend]
      exact ⟨rfl, rfl⟩
    | succ n => exact ih hrole _

theorem rests_turns {roles : List Role} {n : Nat} {role : Role} (hrole : roles[n]? = some role)
    (hend : role.script.isFinished = true) (turns : List (Turn σ)) (world : σ) :
    ∀ played ∈ (Cast.turns turns roles world).1,
      played.shares[n]? = some [] ∧ played.cast[n]? = some role := by
  induction turns generalizing roles world with
  | nil => simp [Cast.turns]
  | cons turn turns ih =>
    have hframe := rests_frame hrole hend turn.host (turn.meanwhile world)
    intro played hplayed
    rcases List.mem_cons.mp hplayed with rfl | hlater
    · exact hframe
    · exact ih hframe.2 _ played hlater

/-- **Who is finished in a frame rests in all later ones.** -/
theorem pairwise_rests (turns : List (Turn σ)) (roles : List Role) (world : σ) :
    (Cast.turns turns roles world).1.Pairwise Performance.Rests := by
  induction turns generalizing roles world with
  | nil => exact List.Pairwise.nil
  | cons turn turns ih =>
    apply List.Pairwise.cons ?_ (ih _ _)
    intro later hlater n role hrole hend
    exact rests_turns hrole hend turns _ later hlater

end Cast

/-! ## Frame after frame -/

section Each
variable (subject : Statement) {body : Block} (tail : List Link)

/-- An `each` whose members are fixed plays the loop over them. -/
theorem player_each (host : Host σ) (base : Option Value) (frames : Nat)
    (members : List (Value × BlockState)) :
    Statement.player (.each subject body :: tail) host base ⟨frames, .each (some members)⟩ =
      (playMembers (rowsOf host body) members >>= fun loop =>
        pure (decide (bodyStatus loop.1 = .met), ⟨frames + 1, .each (some loop.2)⟩)) := by
  simp [Statement.player, evaluate, playEach, fixMembers]

/-- Its frame is a frame of the cast, behind what was exchanged before. -/
theorem run_player_each {roles : List Role} (h : ∀ role ∈ roles, role.Plays body) (host : Host σ)
    (base : Option Value) (frames : Nat) (stage : Stage σ) :
    let each := (Statement.player (.each subject body :: tail) host base
      ⟨frames, .each (some (roles.map Role.entry))⟩).run stage
    let played := Cast.frame host roles stage.host
    each.1 = (played.1.ended, ⟨frames + 1, .each (some (played.1.cast.map Role.entry))⟩) ∧
      each.2.host = played.2 ∧ each.2.exchanges = stage.exchanges ++ played.1.shares.flatten := by
  obtain ⟨hresult, hhost, hshares⟩ := Cast.playMembers_run h host stage
  have hmet : ∀ finished : Bool, decide (bodyStatus finished = .met) = finished := by decide
  rw [player_each]
  refine ⟨?_, hhost, hshares⟩
  rw [run_bind, hresult, hmet]
  rfl

/-- **With its members fixed, an `each` is its cast**, for as long as they are played. -/
theorem turns_each {roles : List Role} (h : ∀ role ∈ roles, role.Plays body) (frames : Nat)
    (turns : List (Turn σ)) (world : σ) :
    let each := (Statement.player (.each subject body :: tail)).turns turns
      ⟨frames, .each (some (roles.map Role.entry))⟩ world
    let cast := Cast.turns turns roles world
    each.1 = cast.1.map Performance.scene ∧
      each.2.1.link = .each (some (cast.2.1.map Role.entry)) ∧ each.2.2 = cast.2.2 := by
  induction turns generalizing roles frames world with
  | nil => exact ⟨rfl, rfl, rfl⟩
  | cons turn turns ih =>
    obtain ⟨hresult, hhost, hshares⟩ := run_player_each subject tail h turn.host turn.base
      frames ⟨turn.meanwhile world, #[]⟩
    have hplays := Cast.plays_frame h turn.host (turn.meanwhile world)
    simp only [Player.turns, hresult, hhost, hshares]
    obtain ⟨hscenes, hlink, hworld⟩ := ih hplays (frames + 1) _
    exact ⟨congrArg₂ List.cons rfl hscenes, hlink, hworld⟩

/-- What an `each` asks for in its first frame: the value of its subject, and the members of that. -/
def Cast.asking (host : Host σ) (base : Option Value) (subject : Statement) : Play σ (List Value) :=
  value host base 1 subject >>= membersOf host

theorem plays_members (body : Block) (members : List Value) :
    ∀ role ∈ members.map (Role.fresh body), role.Plays body := by
  intro role hrole
  obtain ⟨member, -, rfl⟩ := List.mem_map.mp hrole
  exact Role.plays_fresh body member

/-- **The first evaluation fixes the members**: it asks for them, writes how many there are, and is the
first frame of a cast of them. -/
theorem run_player_fresh_each (body : Block) (host : Host σ) (base : Option Value) (stage : Stage σ) :
    let each := (Statement.player (.each subject body :: tail) host base
      (.fresh (.each subject body :: tail))).run stage
    let asked := (Cast.asking host base subject).run stage
    let played := Cast.frame host ((firsts asked.1).map (Role.fresh body)) asked.2.host
    each.1 = (played.1.ended, ⟨1, .each (some (played.1.cast.map Role.entry))⟩) ∧
      each.2.host = played.2 ∧
      each.2.exchanges = asked.2.exchanges ++ played.1.shares.flatten := by
  intro each asked played
  let count := "each: " ++ toString (distinct asked.1).length ++ " member(s)"
  let counted := ((note .debug .evaluation count).run asked.2).2
  have hfresh : Statement.player (.each subject body :: tail) host base
        (.fresh (.each subject body :: tail)) =
      (fixMembers host subject (.fresh body) base 1 none >>= fun members =>
        Statement.player (.each subject body :: tail) host base ⟨0, .each (some members)⟩) := by
    simp [Statement.player, StatementState.fresh, evaluate, playEach, fixMembers]
  have hmembers : (distinct asked.1).map (fun member => (member, BlockState.fresh body)) =
      ((firsts asked.1).map (Role.fresh body)).map Role.entry := by
    rw [distinct_eq_firsts, List.map_map]
    rfl
  have hfixed : each = (Statement.player (.each subject body :: tail) host base
      ⟨0, .each (some (((firsts asked.1).map (Role.fresh body)).map Role.entry))⟩).run counted := by
    rw [← hmembers]
    simp only [each, hfresh]
    rfl
  obtain ⟨hresult, hhost, hshares⟩ := run_player_each subject tail
    (plays_members body (firsts asked.1)) host base 0 counted
  rw [hfixed]
  refine ⟨hresult, hhost, hshares.trans ?_⟩
  rw [exchanges_note]
  rfl

/-- **An `each` is a cast of scripts over its body.** The first evaluation asks for the values that the
subject holds, and the members are those that are not the same as an earlier one, in their order; they are
the members in all later frames. From then on a frame exchanges with the host what the roles exchange, one
after the other, when each one's script is run once with the member for `this`; in the first frame this
comes behind the asking. The condition of the `each` is met in just those frames that leave all scripts
finished, and whoever is finished exchanges nothing in any later frame. -/
theorem each_plays_cast (subject : Statement) (body : Block) (tail : List Link) (first : Turn σ)
    (turns : List (Turn σ)) (world : σ) :
    let each := (Statement.player (.each subject body :: tail)).turns (first :: turns)
      (.fresh (.each subject body :: tail)) world
    let asked := (Cast.asking first.host first.base subject).run ⟨first.meanwhile world, #[]⟩
    let members := firsts asked.1
    let opening := Cast.frame first.host (members.map (Role.fresh body)) asked.2.host
    let later := Cast.turns turns opening.1.cast opening.2
    (each.1 = ⟨asked.2.exchanges ++ opening.1.shares.flatten, opening.1.ended⟩ ::
        later.1.map Performance.scene ∧
      each.2.1.link = .each (some (later.2.1.map Role.entry)) ∧ each.2.2 = later.2.2) ∧
    (∀ played ∈ opening.1 :: later.1, played.cast.map Role.member = members ∧
      played.shares.length = members.length) ∧
    (opening.1 :: later.1).Pairwise Performance.Rests := by
  intro each asked members opening later
  have hplays := plays_members body members
  -- the frames of the cast are those of a cast that finds the host as the asking leaves it
  let frames := Cast.turns ({ first with meanwhile := fun _ => asked.2.host } :: turns)
    (members.map (Role.fresh body)) world
  have hframes : frames.1 = opening.1 :: later.1 := rfl
  refine ⟨?_, ?_, ?_⟩
  · obtain ⟨hresult, hhost, hshares⟩ := run_player_fresh_each subject tail body
      first.host first.base ⟨first.meanwhile world, #[]⟩
    obtain ⟨hscenes, hlink, hworld⟩ := turns_each subject tail
      (Cast.plays_frame hplays first.host asked.2.host) 1 turns opening.2
    simp only [each, Player.turns, hresult, hhost, hshares]
    exact ⟨congrArg₂ List.cons rfl hscenes, hlink, hworld⟩
  · intro played hplayed
    rw [← hframes] at hplayed
    obtain ⟨hmembers, hlength⟩ := Cast.members_turns _ _ _ played hplayed
    have hfixed : (members.map (Role.fresh body)).map Role.member = members := by
      rw [List.map_map]
      exact List.map_id members
    rw [hfixed] at hmembers
    rw [List.length_map] at hlength
    exact ⟨hmembers, hlength⟩
  · rw [← hframes]
    exact Cast.pairwise_rests _ _ _

end Each

end Cutscene
