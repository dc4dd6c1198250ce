import Brainfuck.Proofs.Session.Calls

/-! What a session does with its callbacks. A property of actions, or a relation between them,
that is kept by actions one after another and that the callbacks have, is one of what a session
does with them. -/

namespace Brainfuck.Session

variable {World : Type}
  {relation : (Result : Type) → Action World Result → Action World Result → Prop}
  {holds : (Result : Type) → Action World Result → Prop} {listeners listeners' : Listeners World}

/-- The relation holds between actions that end at once, and is kept by actions one after
another. -/
structure Sequence
    (relation : (Result : Type) → Action World Result → Action World Result → Prop) : Prop where
  pure : ∀ {Result : Type} (result : Result), relation Result (Pure.pure result) (Pure.pure result)
  raise : ∀ {Result : Type} (fault : Fault), relation Result (throw fault) (throw fault)
  bind : ∀ {First Second : Type} {first first' : Action World First}
    {second second' : First → Action World Second}, relation First first first' →
      (∀ value, relation Second (second value) (second' value)) →
        relation Second (first >>= second) (first' >>= second')

/-- Besides, the relation holds between actions that look at the session, if it makes no difference
to them which one of sessions they look at that are alike. Such sessions show the same after an
instruction, and settle it alike. -/
structure Glances (alike : Session → Session → Prop)
    (relation : (Result : Type) → Action World Result → Action World Result → Prop) : Prop
    extends Sequence relation where
  current_bind : ∀ {Result : Type} {next next' : Session → Action World Result},
    (∀ session other, alike session other →
      next session = next other ∧ next' session = next' other) →
        (∀ session, relation Result (next session) (next' session)) →
          relation Result (current >>= next) (current >>= next')
  observe : ∀ {session other}, alike session other → session.observe = other.observe
  breaks : ∀ {session other}, alike session other → session.breaks = other.breaks
  options : ∀ {session other}, alike session other → session.options = other.options
  status : ∀ {session other}, alike session other → session.engine.status = other.engine.status
  ip : ∀ {session other}, alike session other → session.engine.ip = other.engine.ip

/-- Sessions that are alike have the same engine, and the relation is kept where it is replaced. -/
structure Replaces (alike : Session → Session → Prop)
    (relation : (Result : Type) → Action World Result → Action World Result → Prop) : Prop
    extends Glances alike relation where
  engine : ∀ {session other}, alike session other → session.engine = other.engine
  replace : ∀ engine, relation Unit (update fun session => { session with engine })
    (update fun session => { session with engine })

/-- Sessions that are alike have been asked to stop or not, and the relation is kept where that is
granted. -/
structure Grants (alike : Session → Session → Prop)
    (relation : (Result : Type) → Action World Result → Action World Result → Prop) : Prop
    extends Glances alike relation where
  interrupted : ∀ {session other}, alike session other → session.interrupted = other.interrupted
  grant : relation Unit (update fun session => { session with interrupted := false })
    (update fun session => { session with interrupted := false })

/-- The relation holds between actions that look at all of the session. -/
structure Congruence
    (relation : (Result : Type) → Action World Result → Action World Result → Prop) : Prop
    extends Sequence relation where
  current : relation Session current current

/-- Besides, the relation is kept by what a session changes of itself. -/
structure UpdateCongruence
    (relation : (Result : Type) → Action World Result → Action World Result → Prop) : Prop
    extends Congruence relation where
  replace : ∀ engine, relation Unit (update fun session => { session with engine })
    (update fun session => { session with engine })
  grant : relation Unit (update fun session => { session with interrupted := false })
    (update fun session => { session with interrupted := false })

/-- The relation holds between the callbacks of one session and those of another. -/
structure Listeners.Related
    (relation : (Result : Type) → Action World Result → Action World Result → Prop)
    (listeners listeners' : Listeners World) : Prop where
  output : ∀ value, relation Unit (listeners.output value) (listeners'.output value)
  input : relation (Option Int) listeners.input listeners'.input
  observer : Option.Rel (fun observer observer' => ∀ observation,
    relation Unit (observer observation) (observer' observation))
    listeners.observer listeners'.observer
  acknowledge : Option.Rel (fun acknowledge acknowledge' => ∀ observation,
    relation Bool (acknowledge observation) (acknowledge' observation))
    listeners.acknowledge listeners'.acknowledge

/-- The property holds of all callbacks. -/
structure Listeners.All (holds : (Result : Type) → Action World Result → Prop)
    (listeners : Listeners World) : Prop where
  output : ∀ value, holds Unit (listeners.output value)
  input : holds (Option Int) listeners.input
  observer : ∀ observer ∈ listeners.observer, ∀ observation, holds Unit (observer observation)
  acknowledge : ∀ acknowledge ∈ listeners.acknowledge, ∀ observation,
    holds Bool (acknowledge observation)

namespace Listeners

theorem rel_mono {First : Type} {each each' : First → First → Prop} {first? second? : Option First}
    (related : Option.Rel each first? second?)
    (weaker : ∀ first second, each first second → each' first second) :
    Option.Rel each' first? second? := by
  cases related with
  | none => exact .none
  | some related => exact .some (weaker _ _ related)

theorem rel_self {First : Type} {each : First → First → Prop} {value? : Option First}
    (held : ∀ value ∈ value?, each value value) : Option.Rel each value? value? := by
  cases value? with
  | none => exact .none
  | some value => exact .some (held value rfl)

theorem Related.mono
    {relation' : (Result : Type) → Action World Result → Action World Result → Prop}
    (related : listeners.Related relation listeners')
    (weaker : ∀ {Result : Type} {action other : Action World Result},
      relation Result action other → relation' Result action other) :
    listeners.Related relation' listeners' where
  output value := weaker (related.output value)
  input := weaker related.input
  observer := rel_mono related.observer fun _ _ each observation => weaker (each observation)
  acknowledge := rel_mono related.acknowledge fun _ _ each observation => weaker (each observation)

theorem All.mono {holds' : (Result : Type) → Action World Result → Prop} (all : listeners.All holds)
    (weaker : ∀ {Result : Type} {action : Action World Result},
      holds Result action → holds' Result action) : listeners.All holds' where
  output value := weaker (all.output value)
  input := weaker all.input
  observer observer heard observation := weaker (all.observer observer heard observation)
  acknowledge acknowledge asked observation :=
    weaker (all.acknowledge acknowledge asked observation)

theorem All.related (all : listeners.All holds) :
    listeners.Related (fun Result action _ => holds Result action) listeners where
  output := all.output
  input := all.input
  observer := rel_self all.observer
  acknowledge := rel_self all.acknowledge

end Listeners

/-- An engine calls callbacks one after another, and does not look at the session. -/
theorem Sequence.step (sequence : Sequence relation)
    (related : listeners.Related relation listeners') (engine : Engine) :
    relation Engine (engine.step listeners.output listeners.input)
      (engine.step listeners'.output listeners'.input) := by
  cases finished : engine.finished with
  | true =>
    rw [Engine.step_of_finished finished, Engine.step_of_finished finished]
    exact sequence.pure engine
  | false =>
    cases reaction : engine.react with
    | error fault =>
      rw [Engine.step_of_error finished reaction, Engine.step_of_error finished reaction]
      exact sequence.raise fault
    | ok reacted =>
      cases reacted with
      | silent next =>
        rw [Engine.step_of_silent finished reaction, Engine.step_of_silent finished reaction]
        exact sequence.pure next
      | write value next =>
        rw [Engine.step_of_write finished reaction, Engine.step_of_write finished reaction]
        exact sequence.bind (related.output value) fun _ => sequence.pure (next engine)
      | read next =>
        rw [Engine.step_of_read finished reaction, Engine.step_of_read finished reaction]
        refine sequence.bind related.input fun value => ?_
        cases next engine value with
        | error fault => exact sequence.raise fault
        | ok reached => exact sequence.pure reached

variable {alike : Session → Session → Prop}

namespace Glances

theorem finished (glances : Glances alike relation) {session other : Session}
    (same : alike session other) : session.engine.finished = other.engine.finished :=
  congrArg Status.isFinal (glances.status same)

theorem look (glances : Glances alike relation) :
    relation Observation Session.look Session.look := by
  refine glances.current_bind (fun session other same => ?_) fun session => ?_
  · simp only [glances.observe same, and_self]
  · split
    · exact glances.pure _
    · exact glances.raise _

variable (glances : Glances alike relation) (related : listeners.Related relation listeners')
include glances related

theorem report (mode : DebugMode) :
    relation (Option Observation) (Session.report listeners mode)
      (Session.report listeners' mode) := by
  unfold Session.report
  have heard := related.observer
  generalize listeners.observer = observer? at heard ⊢
  generalize listeners'.observer = observer?' at heard ⊢
  cases heard with
  | none => cases mode <;> exact glances.pure none
  | some heard =>
    cases mode with
    | silent => exact glances.pure none
    | verbose | step =>
      exact glances.bind glances.look fun observation =>
        glances.bind (heard observation) fun _ => glances.pure _

theorem consult (blocking : Bool) (index : Int) (status : Status) (seen : Option Observation) :
    relation Status (Session.consult listeners blocking index status seen)
      (Session.consult listeners' blocking index status seen) := by
  have sees : relation Observation (seen.getDM Session.look) (seen.getDM Session.look) := by
    cases seen with
    | none => exact glances.look
    | some observation => exact glances.pure observation
  unfold Session.consult
  have asked := related.acknowledge
  generalize listeners.acknowledge = acknowledge? at asked ⊢
  generalize listeners'.acknowledge = acknowledge?' at asked ⊢
  cases blocking with
  | false => exact glances.pure _
  | true =>
    cases asked with
    | none => exact glances.pure _
    | some asked =>
      refine glances.bind sees fun observation => ?_
      refine glances.bind (asked observation) fun agreed => ?_
      split
      · exact glances.pure _
      · exact glances.pure _

theorem settle (blocking : Bool) (index : Int) (status : Status) (mode : DebugMode)
    (seen : Option Observation) :
    relation Status (Session.settle listeners blocking index status mode seen)
      (Session.settle listeners' blocking index status mode seen) := by
  refine glances.current_bind (fun session other same => ?_) fun session => ?_
  · simp only [glances.breaks same, and_self]
  · split
    · exact glances.raise _
    · exact glances.pure _
    · split
      · exact glances.pure _
      · split
        · exact glances.consult related blocking index status seen
        · exact glances.pure _

theorem attend (blocking : Bool) (index : Int) (status : Status) :
    relation Status (Session.attend listeners blocking index status)
      (Session.attend listeners' blocking index status) := by
  unfold Session.attend
  split
  · exact glances.pure _
  · refine glances.current_bind (fun session other same => ?_) fun session => ?_
    · simp only [glances.options same, and_self]
    · exact glances.bind (glances.report related _) fun seen =>
        glances.settle related blocking index status _ seen

/-- An instruction is executed, and then it is attended to. -/
theorem advance
    (executes : relation Status (Session.execute listeners) (Session.execute listeners'))
    (blocking : Bool) :
    relation Status (Session.advance listeners blocking) (Session.advance listeners' blocking) := by
  refine glances.current_bind (fun session other same => ?_) fun session => ?_
  · simp only [glances.finished same, glances.status same, glances.ip same, and_self]
  · split
    · exact glances.pure _
    · exact glances.bind executes fun status =>
        glances.attend related blocking session.engine.ip status

end Glances

namespace Replaces

variable (replaces : Replaces alike relation)
include replaces

theorem install (engine : Engine) :
    relation Status (Session.install engine) (Session.install engine) :=
  replaces.bind (replaces.replace engine) fun _ => replaces.pure _

theorem execute (related : listeners.Related relation listeners') :
    relation Status (Session.execute listeners) (Session.execute listeners') := by
  refine replaces.current_bind (fun session other same => ?_) fun session => ?_
  · simp only [replaces.engine same, and_self]
  · split
    · exact replaces.pure _
    · split
      · exact replaces.raise _
      · exact replaces.install _
      · refine replaces.bind (related.output _) fun _ => ?_
        refine replaces.current_bind (fun session other same => ?_) fun left => ?_
        · simp only [replaces.engine same, and_self]
        · exact replaces.install _
      · refine replaces.bind related.input fun value => ?_
        refine replaces.current_bind (fun session other same => ?_) fun left => ?_
        · simp only [replaces.engine same, and_self]
        · split
          · exact replaces.raise _
          · exact replaces.install _

theorem advance (related : listeners.Related relation listeners') (blocking : Bool) :
    relation Status (Session.advance listeners blocking) (Session.advance listeners' blocking) :=
  replaces.toGlances.advance related (replaces.execute related) blocking

end Replaces

namespace Grants

variable (grants : Grants alike relation)
include grants

theorem boundary : relation (Option Status) Session.boundary Session.boundary := by
  refine grants.current_bind (fun session other same => ?_) fun session => ?_
  · simp only [grants.finished same, grants.status same, grants.interrupted same, and_self]
  · split
    · exact grants.pure _
    · split
      · exact grants.bind grants.grant fun _ => grants.pure _
      · exact grants.pure _

/-- A whole run is made of boundaries and instructions. -/
theorem run (related : listeners.Related relation listeners')
    (executes : relation Status (Session.execute listeners) (Session.execute listeners'))
    (allowance : Nat) :
    relation (Option Status) (Session.run listeners allowance)
      (Session.run listeners' allowance) := by
  induction allowance with
  | zero => exact grants.boundary
  | succ allowance ih =>
    refine grants.bind grants.boundary fun ended => ?_
    split
    · exact grants.pure _
    · refine grants.bind (grants.advance related executes true) fun status => ?_
      split
      · exact grants.pure _
      · exact ih

end Grants

/-- Whoever looks at all of the session tells any two of them apart. -/
theorem Congruence.glances (congruence : Congruence relation) : Glances Eq relation where
  toSequence := congruence.toSequence
  current_bind _ continues := congruence.bind congruence.current continues
  observe same := congrArg Session.observe same
  breaks same := congrArg Session.breaks same
  options same := congrArg Session.options same
  status same := congrArg (fun session => session.engine.status) same
  ip same := congrArg (fun session => session.engine.ip) same

namespace UpdateCongruence

variable (congruence : UpdateCongruence relation)
include congruence

theorem replaces : Replaces Eq relation where
  toGlances := congruence.glances
  engine same := congrArg Session.engine same
  replace := congruence.replace

theorem grants : Grants Eq relation where
  toGlances := congruence.glances
  interrupted same := congrArg Session.interrupted same
  grant := congruence.grant

theorem run (related : listeners.Related relation listeners') (allowance : Nat) :
    relation (Option Status) (Session.run listeners allowance)
      (Session.run listeners' allowance) :=
  congruence.grants.run related (congruence.replaces.execute related) allowance

end UpdateCongruence

theorem Maintains.congruence (invariant : Session → Prop) :
    Congruence fun Result (action _ : Action World Result) => Maintains invariant action where
  pure := .pure
  raise _ _ held := held
  current _ held := held
  bind := .bind

end Brainfuck.Session
