import Brainfuck.Proofs.Runs
import Brainfuck.Proofs.Session.Executing

/-! A session changes nothing about a run. Whatever is called on it, and whatever its
listeners answer, its engine is where some number of steps leads a machine with the
same program and the same input. -/

namespace Brainfuck.Session

variable {World Result Next : Type}

/-- Where an action returns it leaves the session as it is, but may ask it to stop, and
it changes the streams that a world holds as an effect says. -/
def Affects (streams : World → Streams) (effect : Result → Streams → Streams → Prop)
    (action : Action World Result) : Prop :=
  ∀ session world result after, action (session, world) = (.ok result, after) →
    (∃ interrupted, after.1 = { session with interrupted }) ∧
      effect result (streams world) (streams after.2)

/-- The listeners write to and read from the streams that their world holds, and leave
the rest of the session alone. -/
structure Listeners.Faithful (listeners : Listeners World) (streams : World → Streams) : Prop where
  output : ∀ value, Affects streams (fun _ before after => after = before.write value)
    (listeners.output value)
  input : Affects streams (fun value before after => before.read = (value, after)) listeners.input
  observer : ∀ observer ∈ listeners.observer, ∀ observation,
    Affects streams (fun _ before after => after = before) (observer observation)
  acknowledge : ∀ acknowledge ∈ listeners.acknowledge, ∀ observation,
    Affects streams (fun _ before after => after = before) (acknowledge observation)

theorem Listeners.Faithful.still {listeners : Listeners World} {streams : World → Streams}
    (faithful : listeners.Faithful streams) (before : Session × World) :
    listeners.Still before where
  output _ called := by
    obtain ⟨⟨_, same⟩, -⟩ := faithful.output _ _ _ _ _ called
    rw [same]
  input _ called := by
    obtain ⟨⟨_, same⟩, -⟩ := faithful.input _ _ _ _ called
    rw [same]

/-- An action that returns leads from states of an invariant to states of it. -/
def Keeps (invariant : Session × World → Prop) (action : Action World Result) : Prop :=
  ∀ before result after, invariant before → action before = (.ok result, after) → invariant after

namespace Keeps

variable {invariant : Session × World → Prop} {first : Action World Result}
  {second : Result → Action World Next}

theorem pure (result : Result) : Keeps invariant (Pure.pure result : Action World Result) := by
  intro before result after holds returned
  cases returned
  exact holds

theorem raise (fault : Fault) : Keeps invariant (throw fault : Action World Result) := by
  rintro before result after - ⟨⟩

theorem bind (keeps : Keeps invariant first) (keeps' : ∀ result, Keeps invariant (second result)) :
    Keeps invariant (first >>= second) := by
  intro before result after holds returned
  obtain ⟨value, middle, begun, ended⟩ := bind_eq_ok returned
  exact keeps' value middle result after (keeps before value middle holds begun) ended

theorem of_returned {before after : Session × World} {result : Result}
    (keeps : Keeps invariant first) (holds : invariant before)
    (returned : first before = (.ok result, after)) : invariant after :=
  keeps before result after holds returned

theorem current : Keeps invariant (Session.current : Action World Session) := by
  intro before session after holds returned
  cases returned
  exact holds

theorem look : Keeps invariant (Session.look : Action World Observation) := by
  refine Keeps.current.bind fun session => ?_
  split
  · exact .pure _
  · exact .raise _

theorem update {change : Session → Session}
    (keeps : ∀ session world, invariant (session, world) → invariant (change session, world)) :
    Keeps invariant (Session.update change : Action World Unit) := by
  intro ⟨session, world⟩ result after holds returned
  cases returned
  exact keeps session world holds

end Keeps

/-- What holds of a session that executes instructions comes to what holds of it otherwise, where
it begins and where it ends. -/
structure Spans (inside outside : Session × World → Prop) : Prop where
  enters : ∀ session world, outside (session, world) →
    inside ({ session with active := true }, world)
  leaves : ∀ session world status, inside (session, world) →
    outside ({ session with active := false, status }, world)
  asks : ∀ session world, outside (session, world) →
    outside ({ session with interrupted := true }, world)
  grants : ∀ session world, inside (session, world) →
    inside ({ session with interrupted := false }, world)

namespace Spans

variable {inside outside : Session × World → Prop} {listeners : Listeners World}
  (spans : Spans inside outside)
include spans

theorem keeps_boundary : Keeps inside (boundary : Action World (Option Status)) := by
  refine Keeps.current.bind fun session => ?_
  split
  · exact .pure _
  · split
    · exact (Keeps.update spans.grants).bind fun _ => .pure _
    · exact .pure _

theorem keeps_run (keeps : Keeps inside (advance listeners true)) (allowance : Nat) :
    Keeps inside (run listeners allowance) := by
  induction allowance with
  | zero => exact spans.keeps_boundary
  | succ allowance ih =>
    refine spans.keeps_boundary.bind fun ended => ?_
    split
    · exact .pure _
    · refine keeps.bind fun status => ?_
      split
      · exact .pure _
      · exact ih

theorem keeps_exclusively {action : Action World Result} (keeps : Keeps inside action)
    (status? : Result → Option Status) : Keeps outside (exclusively status? action) := by
  intro ⟨session, world⟩ result after holds returned
  simp only [exclusively] at returned
  split at returned
  · cases returned
  · have entered := spans.enters session world holds
    split at returned
    · next reached =>
      cases returned
      exact spans.leaves _ _ _ (keeps.of_returned entered reached)
    · cases returned

end Spans

/-- What can be called on a session. -/
inductive Call where
  | resume (limit : Option Int)
  | stepOnce
  | interrupt
  | observe

/-- The call returns, and leaves the session and the world like this. -/
def Call.Returns (listeners : Listeners World) (before after : Session × World) : Call → Prop
  | .resume none => ∃ fuel status, Session.resume listeners fuel before = (.ok (some status), after)
  | .resume (some limit) => ∃ status, resumeFor listeners limit.toNat before = (.ok status, after)
  | .stepOnce => ∃ status, Session.stepOnce listeners before = (.ok status, after)
  | .interrupt => Session.interrupt before = (.ok (), after)
  | .observe => after = before

/-- Calls one after another all return. -/
inductive Call.AllReturn (listeners : Listeners World) :
    List Call → Session × World → Session × World → Prop where
  | nil (state : Session × World) : AllReturn listeners [] state state
  | cons {call : Call} {calls : List Call} {before middle after : Session × World}
      (first : call.Returns listeners before middle)
      (rest : AllReturn listeners calls middle after) :
      AllReturn listeners (call :: calls) before after

section calls

variable {inside outside : Session × World → Prop} {listeners : Listeners World}
  {before after : Session × World}

theorem Call.Returns.keeps {call : Call} (returns : call.Returns listeners before after)
    (spans : Spans inside outside)
    (keeps : ∀ blocking, Keeps inside (advance listeners blocking)) (holds : outside before) :
    outside after := by
  have runs (allowance : Nat) := spans.keeps_run (keeps true) allowance
  cases call with
  | resume limit =>
    cases limit with
    | none =>
      obtain ⟨fuel, status, returned⟩ := returns
      exact (spans.keeps_exclusively (runs fuel) id).of_returned holds returned
    | some limit =>
      obtain ⟨status, returned⟩ := returns
      have limited : Keeps inside ((·.getD .running) <$> run listeners limit.toNat) :=
        (runs limit.toNat).bind fun _ => .pure _
      exact (spans.keeps_exclusively limited some).of_returned holds returned
  | stepOnce =>
    obtain ⟨status, returned⟩ := returns
    exact (spans.keeps_exclusively (keeps false) some).of_returned holds returned
  | interrupt => exact (Keeps.update spans.asks).of_returned holds returns
  | observe => exact returns ▸ holds

theorem Call.AllReturn.keeps {calls : List Call}
    (returned : AllReturn listeners calls before after) (spans : Spans inside outside)
    (keeps : ∀ blocking, Keeps inside (advance listeners blocking)) (holds : outside before) :
    outside after := by
  induction returned with
  | nil => exact holds
  | cons first _ ih => exact ih (first.keeps spans keeps holds)

end calls

/-- The engine of a session, and the streams of its world, are where some steps of a
machine lead. -/
def Linked (streams : World → Streams) (start : Machine) (state : Session × World) : Prop :=
  ∃ count machine, Machine.Steps count start machine ∧ state.1.engine = machine.engine ∧
    streams state.2 = machine.streams

namespace Linked

variable {streams : World → Streams} {start : Machine} {session other : Session} {world : World}
  {listeners : Listeners World}

theorem congr (linked : Linked streams start (session, world))
    (same : other.engine = session.engine) : Linked streams start (other, world) := by
  obtain ⟨count, machine, steps, engine, held⟩ := linked
  exact ⟨count, machine, steps, same.trans engine, held⟩

theorem keeps_of_affects {action : Action World Result}
    (affects : Affects streams (fun _ before after => after = before) action) :
    Keeps (Linked streams start) action := by
  intro ⟨session, world⟩ result after linked returned
  obtain ⟨⟨interrupted, same⟩, held⟩ := affects session world result after returned
  obtain ⟨count, machine, steps, engine, held'⟩ := linked
  exact ⟨count, machine, steps, same ▸ engine, held.trans held'⟩

theorem spans : Spans (Linked streams start) (Linked streams start) where
  enters _ _ linked := linked.congr rfl
  leaves _ _ _ linked := linked.congr rfl
  asks _ _ linked := linked.congr rfl
  grants _ _ linked := linked.congr rfl

theorem keeps_report (faithful : listeners.Faithful streams) (mode : DebugMode) :
    Keeps (Linked streams start) (report listeners mode) := by
  have shows {observer : Observation → Action World Unit}
      (heard : listeners.observer = some observer) : Keeps (Linked streams start) (do
        let observation ← look
        observer observation
        return some observation) :=
    Keeps.look.bind fun observation =>
      (keeps_of_affects (faithful.observer observer heard observation)).bind fun _ => .pure _
  unfold report
  split
  · next heard => exact shows heard
  · next heard => exact shows heard
  · exact .pure _

theorem keeps_consult (faithful : listeners.Faithful streams) (blocking : Bool) (index : Int)
    (status : Status) (seen : Option Observation) :
    Keeps (Linked streams start) (consult listeners blocking index status seen) := by
  have sees : Keeps (Linked streams start) (seen.getDM look : Action World Observation) := by
    cases seen with
    | none => exact .look
    | some observation => exact .pure _
  unfold consult
  split
  · next acknowledge asked =>
    refine sees.bind fun observation => ?_
    refine (keeps_of_affects (faithful.acknowledge acknowledge asked observation)).bind ?_
    intro agreed
    split
    · exact .pure _
    · exact .pure _
  · exact .pure _

theorem keeps_settle (faithful : listeners.Faithful streams) (blocking : Bool) (index : Int)
    (status : Status) (mode : DebugMode) (seen : Option Observation) :
    Keeps (Linked streams start) (settle listeners blocking index status mode seen) := by
  refine Keeps.current.bind fun session => ?_
  split
  · exact .raise _
  · exact .pure _
  · split
    · exact .pure _
    · split
      · exact keeps_consult faithful blocking index status seen
      · exact .pure _

theorem keeps_attend (faithful : listeners.Faithful streams) (blocking : Bool) (index : Int)
    (status : Status) : Keeps (Linked streams start) (attend listeners blocking index status) := by
  unfold attend
  split
  · exact .pure _
  · exact Keeps.current.bind fun session => (keeps_report faithful _).bind fun seen =>
      keeps_settle faithful blocking index status _ seen

/-- One instruction of the session's engine is a step of the machine. -/
theorem execute (faithful : listeners.Faithful streams)
    (linked : Linked streams start (session, world)) {engine : Engine} {after : Session × World}
    (executed : session.engine.step listeners.output listeners.input (session, world) =
      (.ok engine, after)) :
    Linked streams start ({ after.1 with engine }, after.2) := by
  obtain ⟨count, machine, steps, same, held⟩ := linked
  have advance {final : Machine} (stepped : machine.step = (.ok final.engine.status, final)) :
      Machine.Steps (count + 1) start final := steps.trans (.next stepped (.refl final))
  rw [same] at executed
  cases finished : machine.engine.finished with
  | true =>
    rw [Engine.step_of_finished finished] at executed
    cases executed
    exact ⟨count, machine, steps, rfl, held⟩
  | false =>
    cases reaction : machine.engine.react with
    | error fault =>
      rw [Engine.step_of_error finished reaction] at executed
      cases executed
    | ok reacted =>
      cases reacted with
      | silent next =>
        have stepped := Machine.step_of_silent next finished reaction
        rw [Engine.step_of_silent finished reaction] at executed
        cases executed
        exact ⟨count + 1, { machine with engine }, advance stepped, rfl, held⟩
      | write value next =>
        have stepped := Machine.step_of_write finished reaction
        rw [Engine.step_of_write finished reaction] at executed
        obtain ⟨_, middle, written, returned⟩ := bind_eq_ok executed
        cases returned
        obtain ⟨-, effect⟩ := faithful.output value session world _ _ written
        refine ⟨count + 1, ⟨_, machine.streams.write value⟩, advance stepped, rfl, ?_⟩
        rw [effect, held]
      | read next =>
        rw [Engine.step_of_read finished reaction] at executed
        obtain ⟨received, middle, taken, returned⟩ := bind_eq_ok executed
        obtain ⟨-, effect⟩ := faithful.input session world _ _ taken
        rw [held] at effect
        cases accepted : next machine.engine received with
        | error fault =>
          rw [accepted] at returned
          cases returned
        | ok reached =>
          rw [accepted] at returned
          cases returned
          have taken' : next machine.engine machine.streams.read.1 = .ok engine := by
            rw [effect, accepted]
          have stepped := Machine.step_of_read next finished reaction taken'
          refine ⟨count + 1, ⟨engine, machine.streams.read.2⟩, advance stepped, rfl, ?_⟩
          rw [effect]

theorem keeps_advance (faithful : listeners.Faithful streams) (blocking : Bool) :
    Keeps (Linked streams start) (advance listeners blocking) := by
  intro ⟨session, world⟩ status after linked returned
  cases finished : session.engine.finished with
  | true =>
    rw [advance_of_finished finished] at returned
    cases returned
    exact linked
  | false =>
    obtain ⟨engine, middle, executed, attended⟩ :=
      (faithful.still (session, world)).stepped_of_advance finished returned
    exact (keeps_attend faithful blocking _ _).of_returned (linked.execute faithful executed)
      attended

end Linked

theorem Call.AllReturn.linked {streams : World → Streams} {start : Machine}
    {listeners : Listeners World} {before after : Session × World} {calls : List Call}
    (returned : AllReturn listeners calls before after)
    (faithful : listeners.Faithful streams) (linked : Linked streams start before) :
    Linked streams start after :=
  returned.keeps Linked.spans (Linked.keeps_advance faithful) linked

/-- Whatever is called on a session, its engine and the streams of its world are those
of a machine after some number of steps. -/
theorem calls_transparent {listeners : Listeners World} {streams : World → Streams}
    (faithful : listeners.Faithful streams) (program : Program) (options : Options) (tape : Tape)
    {input : List (Option Int)} {world last : World} (fresh : streams world = { input })
    {calls : List Call} {session : Session}
    (returned : Call.AllReturn listeners calls (start program options tape, world)
      (session, last)) :
    ∃ count machine, Machine.Steps count (Machine.load program input tape) machine ∧
      session.engine = machine.engine ∧ streams last = machine.streams := by
  have linked : Linked streams (Machine.load program input tape)
      (start program options tape, world) := ⟨0, _, .refl _, rfl, fresh⟩
  exact returned.linked faithful linked

/-- Listeners that keep the streams in memory, and that answer in order what a list says.
The observer asks the session to stop. -/
def Listeners.scripted : Listeners (Streams × List Bool) where
  output value := modify fun (session, streams, answers) => (session, streams.write value, answers)
  input := modifyGet fun (session, streams, answers) =>
    (streams.read.1, session, streams.read.2, answers)
  observer := some fun _ => interrupt
  acknowledge := some fun _ => modifyGet fun (session, streams, answers) =>
    (answers.headD true, session, streams, answers.tail)

theorem Listeners.scripted_faithful : scripted.Faithful Prod.fst where
  output value := by
    intro session world result after returned
    cases returned
    exact ⟨⟨_, rfl⟩, rfl⟩
  input := by
    intro session world result after returned
    cases returned
    exact ⟨⟨_, rfl⟩, rfl⟩
  observer := by
    rintro observer ⟨⟩ observation session world result after returned
    cases returned
    exact ⟨⟨_, rfl⟩, rfl⟩
  acknowledge := by
    rintro acknowledge ⟨⟩ observation session world result after returned
    cases returned
    exact ⟨⟨_, rfl⟩, rfl⟩

/-- A session of `,#.` in step mode is interrupted, asked and continued. -/
theorem calls_transparent_scripted :
    ∃ session last, Call.AllReturn Listeners.scripted
        [.interrupt, .resume none, .resume (some 2), .stepOnce, .observe]
        (start ⟨#[.input, .breakpoint, .output], #[0, 1, 2], ""⟩ { mode := .step } (Tape.blank 4),
          { input := [some 65] }, [true, false]) (session, last) ∧
      ∃ count machine, Machine.Steps count
          (Machine.load ⟨#[.input, .breakpoint, .output], #[0, 1, 2], ""⟩ [some 65] (Tape.blank 4))
          machine ∧
        session.engine = machine.engine ∧ last.1 = machine.streams := by
  have returned : Call.AllReturn Listeners.scripted
      [.interrupt, .resume none, .resume (some 2), .stepOnce, .observe]
      (start ⟨#[.input, .breakpoint, .output], #[0, 1, 2], ""⟩ { mode := .step } (Tape.blank 4),
          { input := [some 65] }, [true, false]) (_, _) :=
    .cons rfl (.cons ⟨9, _, rfl⟩ (.cons ⟨_, rfl⟩ (.cons ⟨_, rfl⟩ (.cons rfl (.nil _)))))
  exact ⟨_, _, returned, calls_transparent Listeners.scripted_faithful _ _ _ rfl returned⟩

end Brainfuck.Session
