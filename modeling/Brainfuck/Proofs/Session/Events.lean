import Brainfuck.Proofs.Session.Sound

/-! Events: what the callbacks of a session are told, and what they answer. A world may keep a log
of them. What was read is enough to tell where the engine goes. -/

namespace Brainfuck

inductive Event where
  | wrote (value : UInt8)
  | read (value : Option Int)
  | showed (observation : Observation)
  | asked (observation : Observation) (agreed : Bool)
  deriving DecidableEq

namespace Event

def read? : Event → Option (Option Int)
  | read value => some value
  | _ => none

def showed? : Event → Option Observation
  | showed observation => some observation
  | _ => none

def asked? : Event → Option (Observation × Bool)
  | asked observation agreed => some (observation, agreed)
  | _ => none

def reads (events : List Event) : List (Option Int) := events.filterMap read?

def shown (events : List Event) : List Observation := events.filterMap showed?

/-- What somebody was asked about, with the answers. -/
def answers (events : List Event) : List (Observation × Bool) := events.filterMap asked?

/-- Nothing is shown and nobody is asked: the events are what an instruction writes and reads. -/
structure Traffic (events : List Event) : Prop where
  unshown : shown events = []
  unasked : answers events = []

variable (first second : List Event)

@[simp]
theorem reads_append : reads (first ++ second) = reads first ++ reads second :=
  List.filterMap_append

@[simp]
theorem shown_append : shown (first ++ second) = shown first ++ shown second :=
  List.filterMap_append

@[simp]
theorem answers_append : answers (first ++ second) = answers first ++ answers second :=
  List.filterMap_append

theorem Traffic.nil : Traffic [] := ⟨rfl, rfl⟩

theorem Traffic.shown_eq (traffic : Traffic second) : shown (first ++ second) = shown first := by
  rw [shown_append, traffic.unshown, List.append_nil]

end Event

namespace Session

open Event

variable {World Result : Type}

/-- Where the action returns on a session that executes instructions, it leaves the session as it
is, but may ask it to stop, and an event is added to the log that the world keeps. -/
def Adds (log : World → List Event) (event : Result → Event) (action : Action World Result) :
    Prop :=
  ∀ state result after, state.1.active = true → action state = (.ok result, after) →
    (∃ interrupted, after.1 = { state.1 with interrupted }) ∧
      log after.2 = log state.2 ++ [event result]

/-- The world keeps a log of what its callbacks are told and answer. Apart from that they leave the
session alone. -/
structure Listeners.Logs (listeners : Listeners World) (log : World → List Event) : Prop where
  output : ∀ value, Adds log (fun _ => .wrote value) (listeners.output value)
  input : Adds log .read listeners.input
  observer : ∀ observer ∈ listeners.observer, ∀ observation,
    Adds log (fun _ => .showed observation) (observer observation)
  acknowledge : ∀ acknowledge ∈ listeners.acknowledge, ∀ observation,
    Adds log (.asked observation) (acknowledge observation)

variable {listeners : Listeners World} {log : World → List Event} {engine : Engine}
  {before middle after : Session × World}

theorem Listeners.Logs.still (logs : listeners.Logs log) (active : before.1.active = true) :
    listeners.Still before where
  output _ called := by
    obtain ⟨⟨_, same⟩, -⟩ := logs.output _ before _ _ active called
    rw [same]
  input _ called := by
    obtain ⟨⟨_, same⟩, -⟩ := logs.input before _ _ active called
    rw [same]

/-- Some events were added to the log, and nothing happened to the session, but that it may have
been asked to stop. -/
def Grown (log : World → List Event) (events : List Event) (before after : Session × World) :
    Prop :=
  (∃ interrupted, after.1 = { before.1 with interrupted }) ∧ log after.2 = log before.2 ++ events

theorem Grown.refl (state : Session × World) : Grown log [] state state :=
  ⟨⟨state.1.interrupted, rfl⟩, (List.append_nil _).symm⟩

theorem Grown.trans {first second : List Event} (grown : Grown log first before middle)
    (grown' : Grown log second middle after) :
    Grown log (first ++ second) before after := by
  obtain ⟨⟨_, same⟩, added⟩ := grown
  obtain ⟨⟨interrupted, same'⟩, added'⟩ := grown'
  exact ⟨⟨interrupted, by rw [same', same]⟩, by rw [added', added, List.append_assoc]⟩

/-- Executing an instruction adds the value that it writes or reads. A machine that reads the same
makes the same step. -/
theorem grown_of_step (logs : listeners.Logs log) (active : before.1.active = true)
    (executed : before.1.engine.step listeners.output listeners.input before =
      (.ok engine, middle)) :
    ∃ events, Grown log events before middle ∧ Traffic events ∧
      ∀ more output,
        ∃ output', (⟨before.1.engine, ⟨reads events ++ more, output⟩⟩ : Machine).stepped =
          ⟨engine, ⟨more, output'⟩⟩ := by
  cases finished : before.1.engine.finished with
  | true =>
    rw [Engine.step_of_finished finished] at executed
    cases executed
    exact ⟨[], .refl _, .nil, fun _ _ =>
      ⟨_, congrArg Prod.snd (Machine.step_of_finished finished)⟩⟩
  | false =>
    cases reaction : before.1.engine.react with
    | error fault =>
      rw [Engine.step_of_error finished reaction] at executed
      cases executed
    | ok reacted =>
      cases reacted with
      | silent next =>
        rw [Engine.step_of_silent finished reaction] at executed
        cases executed
        exact ⟨[], .refl _, .nil, fun _ _ =>
          ⟨_, congrArg Prod.snd (Machine.step_of_silent engine finished reaction)⟩⟩
      | write value next =>
        rw [Engine.step_of_write finished reaction] at executed
        obtain ⟨_, _, called, returned⟩ := bind_eq_ok executed
        cases returned
        exact ⟨[.wrote value], logs.output value _ _ _ active called, ⟨rfl, rfl⟩, fun _ _ =>
          ⟨_, congrArg Prod.snd (Machine.step_of_write finished reaction)⟩⟩
      | read next =>
        rw [Engine.step_of_read finished reaction] at executed
        obtain ⟨value, _, called, returned⟩ := bind_eq_ok executed
        cases accepted : next before.1.engine value with
        | error fault =>
          rw [accepted] at returned
          cases returned
        | ok reached =>
          rw [accepted] at returned
          cases returned
          refine ⟨[.read value], logs.input _ _ _ active called, ⟨rfl, rfl⟩, fun more output => ?_⟩
          have stepped : (⟨before.1.engine, ⟨value :: more, output⟩⟩ : Machine).step = _ :=
            Machine.step_of_read next finished reaction accepted
          exact ⟨_, congrArg Prod.snd stepped⟩

theorem apply_of_result {action : Action World Result} {state : Session × World}
    {result : Except Fault Result} (returned : (action state).1 = result) :
    action state = (result, (action state).2) :=
  Prod.ext returned rfl

def note (event : Event) : Action (List Event × List (Option Int)) Unit :=
  modify fun (session, events, input) => (session, events ++ [event], input)

/-- Whoever is asked agrees. -/
def Listeners.logging : Listeners (List Event × List (Option Int)) where
  output value := note (.wrote value)
  input := fun (session, events, input) =>
    (.ok input.head?.join, session, events ++ [.read input.head?.join], input.tail)
  observer := some fun observation => note (.showed observation)
  acknowledge := some fun observation => do
    note (.asked observation true)
    return true

theorem Listeners.logging_logs : logging.Logs Prod.fst where
  output value := by
    intro state result after _ returned
    cases returned
    exact ⟨⟨_, rfl⟩, rfl⟩
  input := by
    intro state result after _ returned
    cases returned
    exact ⟨⟨_, rfl⟩, rfl⟩
  observer := by
    rintro observer ⟨⟩ observation state result after _ returned
    cases returned
    exact ⟨⟨_, rfl⟩, rfl⟩
  acknowledge := by
    rintro acknowledge ⟨⟩ observation state result after _ returned
    cases returned
    exact ⟨⟨_, rfl⟩, rfl⟩

end Session
end Brainfuck
