import Brainfuck.Proofs.Session.Events
import Brainfuck.Proofs.Tape.Alike
import Brainfuck.Proofs.Transparency

/-! The size of the tape is not seen. Two sessions that differ by it alone give their callers the
same answers and leave the same world behind, as long as the callbacks take no notice of it. -/

namespace Brainfuck.Session

variable {World Result Result' Next Next' : Type} {room : Option Nat} {session session' : Session}
  {listeners : Listeners World}

/-- Sessions whose tapes differ by the number of cells that are set aside, and that differ by
nothing else. -/
inductive Alike (room : Option Nat) (session : Session) : Session → Prop where
  | intro {engine : Engine} (alike : session.engine.Alike room engine) :
      Alike room session { session with engine }

/-- Two actions ended with results that are related, or with the same fault, and left the same
world and sessions that are alike. Where memory is limited, one of them may have failed. -/
inductive Matches (room : Option Nat) (related : Result → Result' → Prop) :
    Except Fault Result × Session × World → Except Fault Result' × Session × World → Prop where
  | ok {result : Result} {result' : Result'} {session session' : Session} {world : World}
      (both : related result result') (alike : session.Alike room session') :
      Matches room related (.ok result, session, world) (.ok result', session', world)
  | error {session session' : Session} {world : World} (fault : Fault)
      (alike : session.Alike room session') :
      Matches room related (.error fault, session, world) (.error fault, session', world)
  | noFirst (limited : room ≠ none) (fault : Fault) (left : Session × World)
      (second : Except Fault Result' × Session × World) :
      Matches room related (.error fault, left) second
  | noSecond (limited : room ≠ none) (fault : Fault) (left : Session × World)
      (first : Except Fault Result × Session × World) :
      Matches room related first (.error fault, left)

/-- Two actions do the same on sessions that are alike, and give related results. -/
def ActsAlike (room : Option Nat) (related : Result → Result' → Prop)
    (action : Action World Result) (action' : Action World Result') : Prop :=
  ∀ session session' world, session.Alike room session' →
    Matches room related (action (session, world)) (action' (session', world))

/-- The action takes no notice of how many cells are set aside. -/
def Unaware (room : Option Nat) (action : Action World Result) : Prop :=
  ActsAlike room Eq action action

namespace Alike

theorem of_tapes {tape tape' : Tape} (alike : tape.Alike room tape') (program : Program)
    (options : Options) : (start program options tape).Alike room (start program options tape') :=
  .intro (.intro alike (Int.le_refl 0))

theorem observe_eq (alike : session.Alike room session') :
    session'.observe = session.observe := by
  obtain ⟨alike, nonneg⟩ := alike
  simp only [Session.observe, alike.window_eq]

theorem engine (alike : session.Alike room session') :
    session.engine.Alike room session'.engine := by
  obtain ⟨alike⟩ := alike
  exact alike

theorem withEngine (alike : session.Alike room session') {engine engine' : Engine}
    (engines : engine.Alike room engine') :
    Alike room { session with engine } { session' with engine := engine' } := by
  obtain ⟨alike⟩ := alike
  exact .intro engines

end Alike

namespace ActsAlike

variable {related : Result → Result' → Prop} {related' : Next → Next' → Prop}

theorem pure {result : Result} {result' : Result'} (both : related result result') :
    ActsAlike room related (Pure.pure result : Action World Result) (Pure.pure result') :=
  fun _ _ _ alike => .ok both alike

theorem raise (fault : Fault) :
    ActsAlike room related (throw fault : Action World Result) (throw fault) :=
  fun _ _ _ alike => .error fault alike

theorem bind {first : Action World Result} {first' : Action World Result'}
    {second : Result → Action World Next} {second' : Result' → Action World Next'}
    (begun : ActsAlike room related first first')
    (later : ∀ result result', related result result' →
      ActsAlike room related' (second result) (second' result')) :
    ActsAlike room related' (first >>= second) (first' >>= second') := by
  intro session session' world alike
  rw [bind_apply, bind_apply]
  have matched := begun session session' world alike
  generalize first (session, world) = outcome at matched ⊢
  generalize first' (session', world) = outcome' at matched ⊢
  cases matched with
  | ok both alike => exact later _ _ both _ _ _ alike
  | error fault alike => exact .error fault alike
  | noFirst limited fault left => exact .noFirst limited fault left _
  | noSecond limited fault left => exact .noSecond limited fault left _

theorem noFirst (limited : room ≠ none) (fault : Fault) (action' : Action World Result') :
    ActsAlike room related (throw fault) action' :=
  fun _ _ _ _ => .noFirst limited fault _ _

theorem noSecond (limited : room ≠ none) (fault : Fault) (action : Action World Result) :
    ActsAlike room related action (throw fault) :=
  fun _ _ _ _ => .noSecond limited fault _ _

end ActsAlike

namespace Unaware

theorem pure (result : Result) : Unaware room (Pure.pure result : Action World Result) :=
  ActsAlike.pure rfl

theorem raise (fault : Fault) : Unaware room (throw fault : Action World Result) :=
  ActsAlike.raise fault

theorem bind {first : Action World Result} {second : Result → Action World Next}
    (begun : Unaware room first) (later : ∀ result, Unaware room (second result)) :
    Unaware room (first >>= second) :=
  ActsAlike.bind begun fun result _ same => same ▸ later result

/-- An action may look at what is the same in sessions that are alike. -/
theorem current_bind {next : Session → Action World Next}
    (same : ∀ {session session' : Session}, session.Alike room session' →
      next session' = next session)
    (later : ∀ session, Unaware room (next session)) : Unaware room (current >>= next) := by
  intro session session' world alike
  change Matches room Eq (next session (session, world)) (next session' (session', world))
  rw [same alike]
  exact later session session session' world alike

theorem update {change : Session → Session} (keeps : ∀ session session' : Session,
      session.Alike room session' → (change session).Alike room (change session')) :
    Unaware room (Session.update change : Action World Unit) :=
  fun session session' _ alike => .ok rfl (keeps session session' alike)

theorem of_world {action : Action World Result} (act : World → Except Fault Result × World)
    (same : ∀ session world,
      action (session, world) = ((act world).1, session, (act world).2)) :
    Unaware room action := by
  intro session session' world alike
  rw [same, same]
  rcases act world with ⟨fault | result, after⟩
  · exact .error fault alike
  · exact .ok rfl alike

end Unaware

theorem unaware_glances : Glances (Session.Alike room)
    fun Result (action _ : Action World Result) => Unaware room action where
  pure := Unaware.pure
  raise := Unaware.raise
  bind := Unaware.bind
  current_bind same continues :=
    Unaware.current_bind (fun alike => (same _ _ alike).1.symm) continues
  observe alike := alike.observe_eq.symm
  breaks := by
    rintro session _ ⟨⟨-, -⟩⟩
    rfl
  options := by
    rintro session _ ⟨⟨-, -⟩⟩
    rfl
  status := by
    rintro session _ ⟨⟨-, -⟩⟩
    rfl
  ip := by
    rintro session _ ⟨⟨-, -⟩⟩
    rfl

theorem unaware_grants : Grants (Session.Alike room)
    fun Result (action _ : Action World Result) => Unaware room action where
  toGlances := unaware_glances
  interrupted := by
    rintro session _ ⟨⟨-, -⟩⟩
    rfl
  grant := .update fun _ _ ⟨alike⟩ => .intro alike

section instructions

variable (unaware : listeners.All fun _ => Unaware room)
include unaware

omit unaware in
theorem actsAlike_install {engine engine' : Engine} (alike : engine.Alike room engine') :
    ActsAlike room Eq (install engine : Action World Status) (install engine') := by
  have same : engine.status = engine'.status := by
    obtain ⟨-, -⟩ := alike
    rfl
  exact fun _ _ _ sessions => .ok same (sessions.withEngine alike)

omit unaware in
theorem ActsAlike.current : ActsAlike room (Session.Alike room) (Session.current : Action World _)
    Session.current :=
  fun _ _ _ alike => .ok alike alike

/-- Engines that are alike are led to engines that are alike. -/
theorem unaware_execute : Unaware room (execute listeners) := by
  refine ActsAlike.current.bind fun session session' alike => ?_
  have reacts := alike.engine.react
  have same : session'.engine.status = session.engine.status := by
    obtain ⟨⟨-, -⟩⟩ := alike
    rfl
  rw [Engine.finished, Engine.finished, same]
  split
  · exact .pure rfl
  · generalize session.engine.react = reaction at reacts ⊢
    generalize session'.engine.react = reaction' at reacts ⊢
    cases reacts with
    | error fault => exact .raise fault
    | noFirst limited fault => exact .noFirst limited fault _
    | noSecond limited fault => exact .noSecond limited fault _
    | ok both =>
      cases both with
      | silent alike => exact actsAlike_install alike
      | write value outcome =>
        exact ActsAlike.bind (unaware.output value) fun _ _ _ =>
          ActsAlike.current.bind fun _ _ left => actsAlike_install (outcome _ _ left.engine)
      | @read next next' outcome =>
        refine ActsAlike.bind unaware.input fun value value' same => ?_
        refine ActsAlike.current.bind fun session session' left => ?_
        cases same
        have accepted := outcome _ _ left.engine value
        generalize next session.engine value = answer at accepted ⊢
        generalize next' session'.engine value = answer' at accepted ⊢
        cases accepted with
        | ok alike => exact actsAlike_install alike
        | error fault => exact .raise fault
        | noFirst limited fault => exact .noFirst limited fault _
        | noSecond limited fault => exact .noSecond limited fault _

theorem unaware_advance (blocking : Bool) : Unaware room (advance listeners blocking) :=
  unaware_glances.advance unaware.related (unaware_execute unaware) blocking

theorem unaware_run (allowance : Nat) : Unaware room (run listeners allowance) :=
  unaware_grants.run unaware.related (unaware_execute unaware) allowance

end instructions

theorem Unaware.exclusively {action : Action World Result} (unaware : Unaware room action)
    (status? : Result → Option Status) : Unaware room (Session.exclusively status? action) := by
  intro session session' world alike
  have same : session'.active = session.active := by
    obtain ⟨alike⟩ := alike
    rfl
  cases active : session.active with
  | true =>
    rw [exclusively_of_active active, exclusively_of_active (same.trans active)]
    exact .error _ alike
  | false =>
    rw [exclusively_of_idle active, exclusively_of_idle (same.trans active)]
    have entered : Session.Alike room { session with active := true }
        { session' with active := true } := by
      obtain ⟨alike⟩ := alike
      exact .intro alike
    have matched := unaware _ _ world entered
    simp only [enter]
    generalize action ({ session with active := true }, world) = outcome at matched ⊢
    generalize action ({ session' with active := true }, world) = outcome' at matched ⊢
    cases matched with
    | ok both alike =>
      obtain ⟨alike⟩ := alike
      cases both
      exact .ok rfl (.intro alike)
    | error fault alike =>
      obtain ⟨alike⟩ := alike
      exact .error fault (.intro alike)
    | noFirst limited fault left => exact .noFirst limited fault _ _
    | noSecond limited fault left => exact .noSecond limited fault _ _

inductive Call.Answer where
  | status (status : Status)
  | observation (observation? : Option Observation)
  | nothing
  deriving DecidableEq

/-- A call gives no answer if it is a run without a limit that the fuel does not suffice for. -/
def Call.perform (listeners : Listeners World) (fuel : Nat) : Call → Action World (Option Answer)
  | resume none => Option.map .status <$> Session.resume listeners fuel
  | resume (some limit) => (fun status => some (.status status)) <$> resumeFor listeners limit.toNat
  | stepOnce => (fun status => some (.status status)) <$> Session.stepOnce listeners
  | interrupt => (fun _ => some .nothing) <$> Session.interrupt
  | observe => (fun session => some (.observation session.observe)) <$> current

/-- A call that returned: its answer, and the session and the world that it left. -/
structure Turn (World : Type) where
  answer : Call.Answer
  session : Session
  world : World

/-- The call returns, and this is what comes of it. -/
def Call.Gives (listeners : Listeners World) (before : Session × World) (call : Call)
    (turn : Turn World) : Prop :=
  ∃ fuel, call.perform listeners fuel before = (.ok (some turn.answer), turn.session, turn.world)

/-- Calls one after another all return, and this is what comes of each. -/
inductive Call.AllGive (listeners : Listeners World) :
    List Call → Session × World → List (Turn World) → Prop where
  | nil (before : Session × World) : AllGive listeners [] before []
  | cons {call : Call} {calls : List Call} {before : Session × World} {turn : Turn World}
      {turns : List (Turn World)} (first : call.Gives listeners before turn)
      (rest : AllGive listeners calls (turn.session, turn.world) turns) :
      AllGive listeners (call :: calls) before (turn :: turns)

def Call.performAll (listeners : Listeners World) (fuel : Nat) :
    List Call → Session × World → Option (List (Turn World))
  | [], _ => some []
  | call :: calls, before =>
    match call.perform listeners fuel before with
    | (.ok (some answer), session, world) =>
      (performAll listeners fuel calls (session, world)).map (⟨answer, session, world⟩ :: ·)
    | _ => none

/-- What can be seen behind a call is the same: its answer, the world with all that the callbacks
were told and gave, what the session shows, and what is read from the tape. -/
structure Turn.SeenAlike (turn other : Turn World) : Prop where
  answer : turn.answer = other.answer
  world : turn.world = other.world
  observation : turn.session.observe = other.session.observe
  status : turn.session.status = other.session.status
  pointer : turn.session.engine.pointer = other.session.engine.pointer
  ip : turn.session.engine.ip = other.session.engine.ip
  steps : turn.session.engine.steps = other.session.engine.steps
  high : turn.session.engine.tape.high = other.session.engine.tape.high
  cells : ∀ address : Nat,
    turn.session.engine.tape.get address = other.session.engine.tape.get address

/-- Calls on two sessions come to the same wherever they return. Without a limit on memory they
return in one session if they do in the other. -/
structure Unseen (listeners : Listeners World) (room : Option Nat) (calls : List Call)
    (before before' : Session × World) : Prop where
  same : ∀ turns turns', Call.AllGive listeners calls before turns →
    Call.AllGive listeners calls before' turns' → List.Forall₂ Turn.SeenAlike turns turns'
  returns : room = none → ∀ turns, Call.AllGive listeners calls before turns →
    ∃ turns', Call.AllGive listeners calls before' turns'

section calls

variable {call : Call} {calls : List Call} {turn turn' : Turn World} {turns : List (Turn World)}
  {world : World} {before after : Session × World} {answer : Call.Answer}

theorem Alike.seenAlike (alike : turn.session.Alike room turn'.session)
    (answer : turn.answer = turn'.answer) (world : turn.world = turn'.world) :
    turn.SeenAlike turn' := by
  obtain ⟨answer', session', world'⟩ := turn'
  have observation := alike.observe_eq
  obtain ⟨⟨tapes, -⟩⟩ := alike
  exact ⟨answer, world, observation.symm, rfl, rfl, rfl, rfl, tapes.high,
    fun address => tapes.get_eq (Int.natCast_nonneg address)⟩

theorem Call.perform_of_le {fuel more : Nat}
    (performed : call.perform listeners fuel before = (.ok (some answer), after))
    (enough : fuel ≤ more) :
    call.perform listeners more before = (.ok (some answer), after) := by
  cases call with
  | resume limit =>
    cases limit with
    | none =>
      rw [perform, map_apply] at performed ⊢
      rcases resumed : Session.resume listeners fuel before with ⟨fault | status?, left⟩
      · rw [resumed] at performed
        cases performed
      · rw [resumed] at performed
        cases status? with
        | none => cases performed
        | some status => rw [resume_of_le resumed enough, performed]
    | some limit => exact performed
  | stepOnce | interrupt | observe => exact performed

theorem Call.AllGive.of_performAll {fuel : Nat}
    (performed : performAll listeners fuel calls before = some turns) :
    AllGive listeners calls before turns := by
  induction calls generalizing before turns with
  | nil =>
    cases performed
    exact .nil before
  | cons call calls ih =>
    rw [performAll] at performed
    split at performed
    · next answer session world returned =>
      obtain ⟨later, rest, rfl⟩ := Option.map_eq_some_iff.mp performed
      exact .cons ⟨fuel, returned⟩ (ih rest)
    · cases performed

variable (unaware : listeners.All fun _ => Unaware room)
include unaware

theorem Call.unaware_perform (fuel : Nat) (call : Call) :
    Unaware room (call.perform listeners fuel) := by
  cases call with
  | resume limit =>
    cases limit with
    | none =>
      exact .bind ((unaware_run unaware fuel).exclusively id) fun _ => .pure _
    | some limit =>
      have limited : Unaware room ((·.getD .running) <$> run listeners limit.toNat) :=
        .bind (unaware_run unaware limit.toNat) fun _ => .pure _
      exact .bind (limited.exclusively some) fun _ => .pure _
  | stepOnce => exact .bind ((unaware_advance unaware false).exclusively some) fun _ => .pure _
  | interrupt => exact .bind (.update fun _ _ ⟨alike⟩ => .intro alike) fun _ => .pure _
  | observe => exact .current_bind (fun alike => by simp only [alike.observe_eq]) fun _ => .pure _

/-- A call that returns in two sessions that are alike gives the same and leaves them alike. -/
theorem Call.Gives.alike (alike : session.Alike room session')
    (gives : call.Gives listeners (session, world) turn)
    (gives' : call.Gives listeners (session', world) turn') :
    turn.answer = turn'.answer ∧ turn.session.Alike room turn'.session ∧
      turn.world = turn'.world := by
  obtain ⟨fuel, performed⟩ := gives
  obtain ⟨fuel', performed'⟩ := gives'
  have matched := call.unaware_perform unaware (max fuel fuel') session session' world alike
  rw [perform_of_le performed (Nat.le_max_left _ _),
    perform_of_le performed' (Nat.le_max_right _ _)] at matched
  obtain ⟨answer, session, world⟩ := turn
  obtain ⟨answer', session', world'⟩ := turn'
  cases matched with
  | ok both alike => exact ⟨Option.some.inj both, alike, rfl⟩

theorem Call.Gives.returns (unlimited : room = none) (alike : session.Alike room session')
    (gives : call.Gives listeners (session, world) turn) :
    ∃ turn', call.Gives listeners (session', world) turn' := by
  obtain ⟨fuel, performed⟩ := gives
  have matched := call.unaware_perform unaware fuel session session' world alike
  rw [performed] at matched
  generalize performed' : call.perform listeners fuel (session', world) = outcome at matched
  cases matched with
  | @ok _ _ _ left _ both alike =>
    cases both
    exact ⟨⟨turn.answer, left, turn.world⟩, fuel, performed'⟩
  | noSecond limited => exact absurd unlimited limited

theorem Alike.unseen (alike : session.Alike room session') (world : World) (calls : List Call) :
    Unseen listeners room calls (session, world) (session', world) := by
  constructor
  · intro turns turns' all all'
    induction calls generalizing session session' world turns turns' with
    | nil =>
      cases all
      cases all'
      exact .nil
    | cons call calls ih =>
      cases all with
      | @cons _ _ _ turn _ first rest =>
        cases all' with
        | @cons _ _ _ turn' _ first' rest' =>
          obtain ⟨answer, alike, worlds⟩ := first.alike unaware alike first'
          exact .cons (alike.seenAlike answer worlds) (ih alike _ _ _ rest (worlds ▸ rest'))
  · intro unlimited turns all
    induction calls generalizing session session' world turns with
    | nil => exact ⟨[], .nil _⟩
    | cons call calls ih =>
      cases all with
      | @cons _ _ _ turn _ first rest =>
        obtain ⟨turn', first'⟩ := first.returns unaware unlimited alike
        obtain ⟨-, alike, worlds⟩ := first.alike unaware alike first'
        obtain ⟨turns', rest'⟩ := ih alike turn.world _ rest
        exact ⟨_, .cons first' (worlds ▸ rest')⟩

/-- Whatever is called on a session, it does not show how many cells were set aside at first. -/
theorem tape_size_unseen (program : Program) (options : Options) (size other : Int) (world : World)
    (calls : List Call) :
    Unseen listeners room calls
      (start program options { Tape.blank size with room }, world)
      (start program options { Tape.blank other with room }, world) :=
  Alike.unseen unaware (.of_tapes (Tape.alike_blank room size other) program options) world calls

end calls

theorem Listeners.logging_unaware : logging.All fun _ => Unaware room where
  output value := .of_world (fun (events, input) =>
    (.ok (), events ++ [.wrote value], input)) fun _ _ => rfl
  input := .of_world (fun (events, input) =>
    (.ok input.head?.join, events ++ [.read input.head?.join], input.tail)) fun _ _ => rfl
  observer := by
    rintro observer ⟨⟩ observation
    exact .of_world (fun (events, input) =>
      (.ok (), events ++ [.showed observation], input)) fun _ _ => rfl
  acknowledge := by
    rintro acknowledge ⟨⟩ observation
    exact .of_world (fun (events, input) =>
      (.ok true, events ++ [.asked observation true], input)) fun _ _ => rfl

/-- A session of `>,>+#.` on one cell, and one on a tape that never grows. -/
theorem tape_size_unseen_logging :
    let program : Program := ⟨#[.move 1, .input, .move 1, .adjust 1, .breakpoint, .output], #[], ""⟩
    let calls : List Call := [.stepOnce, .interrupt, .resume (some 3), .resume none, .observe]
    let state (size : Int) : Session × List Event × List (Option Int) :=
      (start program { mode := .step } { Tape.blank size with room := none }, [], [some 65])
    ∃ turns turns', Call.AllGive Listeners.logging calls (state 1) turns ∧
      Call.AllGive Listeners.logging calls (state 8) turns' ∧
        List.Forall₂ Turn.SeenAlike turns turns' ∧
          turns.map (·.session.engine.tape.size) = [1, 1, 1, 4, 4] ∧
            turns'.map (·.session.engine.tape.size) = [8, 8, 8, 8, 8] := by
  intro program calls state
  have grows : (Call.performAll .logging 9 calls (state 1)).map
      (List.map (·.session.engine.tape.size)) = some [1, 1, 1, 4, 4] := by decide +kernel
  have stays : (Call.performAll .logging 9 calls (state 8)).map
      (List.map (·.session.engine.tape.size)) = some [8, 8, 8, 8, 8] := by decide +kernel
  obtain ⟨turns, performed, sizes⟩ := Option.map_eq_some_iff.mp grows
  obtain ⟨turns', performed', sizes'⟩ := Option.map_eq_some_iff.mp stays
  have all := Call.AllGive.of_performAll performed
  have all' := Call.AllGive.of_performAll performed'
  have unaware : Listeners.logging.All fun _ => Unaware none := Listeners.logging_unaware
  have unseen := tape_size_unseen unaware program { mode := .step } 1 8 ([], [some 65]) calls
  exact ⟨turns, turns', all, all', unseen.same _ _ all all', sizes, sizes'⟩

end Brainfuck.Session
