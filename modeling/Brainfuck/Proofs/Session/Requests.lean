import Brainfuck.Proofs.Session.Overlooking
import Brainfuck.Proofs.Session.Settling
import Brainfuck.Proofs.Transparency

/-! Requests to stop. A run grants one before its next instruction and forgets it then. A request
that a callback makes is granted behind the instruction in progress, or stays pending if the run
ends there anyway. -/

namespace Brainfuck.Session

variable {World Result : Type} {listeners : Listeners World} {blocking : Bool} {count : Nat}
  {before point middle after left : Session × World} {status : Status} {block : Block}
  {entry : Entry}

def asked (session : Session) : Session := { session with interrupted := true }

theorem asked_marginal : Marginal asked :=
  ⟨fun _ => rfl, fun _ => rfl, fun _ => rfl, fun _ _ => rfl⟩

/-- Whether it returns or raises, a callback leaves the session as it is, but may ask it to stop. It
cannot see whether somebody has asked before. -/
structure Confined (action : Action World Result) : Prop where
  discreet : Discreet action
  blind : Overlooks asked action

/-- On a session that executes instructions the action returns. -/
def Returning (action : Action World Result) : Prop :=
  ∀ state : Session × World, state.1.active = true →
    ∃ result after, action state = (.ok result, after)

/-- A callback is called while the instruction is executed before which a session stands, and leaves
the session like this. -/
inductive Invoked (listeners : Listeners World) (blocking : Bool) (point : Session × World) :
    Session × World → Prop where
  | output {value : UInt8} {next : Engine → Engine}
      (reaction : point.1.engine.react = .ok (.write value next)) :
      Invoked listeners blocking point (listeners.output value point).2
  | input {next : Engine → Option Int → Except Fault Engine}
      (reaction : point.1.engine.react = .ok (.read next)) :
      Invoked listeners blocking point (listeners.input point).2
  | observer {status : Status} {middle : Session × World}
      {observer : Observation → Action World Unit} {observation : Observation}
      (executed : execute listeners point = (.ok status, middle))
      (unfailed : ∀ underflow, status ≠ .failed underflow)
      (shows : middle.1.options.mode ≠ .silent)
      (heard : listeners.observer = some observer)
      (observed : middle.1.observe = some observation) :
      Invoked listeners blocking point (observer observation middle).2
  | acknowledge {status : Status} {seen : Option Observation} {middle shown : Session × World}
      {acknowledge : Observation → Action World Bool} {observation : Observation}
      (executed : execute listeners point = (.ok status, middle))
      (unfailed : ∀ underflow, status ≠ .failed underflow)
      (reported : report listeners middle.1.options.mode middle = (.ok seen, shown))
      (asks : shown.1.Asks status middle.1.options.mode)
      (waits : blocking = true)
      (asked : listeners.acknowledge = some acknowledge)
      (observed : (seen <|> shown.1.observe) = some observation) :
      Invoked listeners blocking point (acknowledge observation shown).2

/-- The session executes instructions, and has been asked to stop. -/
structure Pressed (session : Session) : Prop where
  active : session.active = true
  interrupted : session.interrupted = true

theorem Confined.pressed {action : Action World Result} (confined : Confined action) :
    Maintains Pressed action := by
  rintro ⟨session, world⟩ ⟨active, interrupted⟩
  refine ⟨confined.blind.guarded _ active, ?_⟩
  have same := confined.blind.same (session, world) active
  have unaltered : alter asked (session, world) = (session, world) := by
    simp [alter, asked, ← interrupted]
  rw [unaltered] at same
  rw [same]
  rfl

/-- An action goes on as an invariant says from where its first part leaves the session. -/
theorem holds_of_bind {Next : Type} {invariant : Session → Prop} {first : Action World Result}
    {second : Result → Action World Next} (left : invariant (first before).2.1)
    (continues : ∀ value, Maintains invariant (second value)) :
    invariant ((first >>= second) before).2.1 := by
  rw [bind_apply]
  rcases ended : first before with ⟨fault | value, middle⟩
  · simpa [ended] using left
  · rw [ended] at left
    exact continues value middle left

/-- A request that is made while an instruction is executed is pending behind it. -/
theorem Invoked.interrupted (invoked : Invoked listeners blocking point left)
    (confined : listeners.All fun _ => Confined) (active : point.1.active = true)
    (running : point.1.engine.finished = false) (requested : left.1.interrupted = true) :
    (advance listeners blocking point).2.1.interrupted = true := by
  have discreet : listeners.Discreet := confined.mono fun each => each.discreet
  have guarded : listeners.All fun _ => Maintains (·.active = true) :=
    confined.mono fun each => each.blind.guarded
  have pressed : listeners.All fun _ => Maintains Pressed := confined.mono fun each => each.pressed
  have congruence : Congruence fun Result (action _ : Action World Result) =>
      Maintains Pressed action := Maintains.congruence Pressed
  have installs (engine : Engine) : Maintains Pressed (install engine : Action World Status) :=
    fun _ held => ⟨held.active, held.interrupted⟩
  have executed_pressed (left : Pressed (execute listeners point).2.1) :
      (advance listeners blocking point).2.1.interrupted = true := by
    rw [advance_of_running running]
    exact (holds_of_bind left fun status =>
      congruence.glances.attend pressed.related blocking point.1.engine.ip status).interrupted
  cases invoked with
  | output reaction =>
    apply executed_pressed
    rw [execute_of_write running reaction]
    exact holds_of_bind ⟨guarded.output _ point active, requested⟩ fun _ =>
      congruence.current.bind fun session => installs _
  | input reaction =>
    apply executed_pressed
    rw [execute_of_read running reaction]
    refine holds_of_bind ⟨guarded.input point active, requested⟩ fun value => ?_
    refine congruence.current.bind fun session => ?_
    split
    · exact congruence.raise _
    · exact installs _
  | @observer status middle observer observation executed unfailed shows heard observed =>
    have active' := active_of_execute discreet active executed
    have left : Pressed (report listeners middle.1.options.mode middle).2.1 := by
      rw [report_of_observed shows heard observed]
      exact holds_of_bind ⟨guarded.observer _ heard _ _ active', requested⟩ fun _ => .pure _
    rw [advance_of_executed running executed, attend_of_unfailed unfailed]
    exact (holds_of_bind left fun seen =>
      congruence.glances.settle pressed.related blocking _ status _ seen).interrupted
  | @acknowledge status seen middle shown acknowledge observation executed unfailed reported asks
      waits asked observed =>
    have active' := active_of_report discreet (active_of_execute discreet active executed) reported
    have left : Pressed (acknowledge observation shown).2.1 :=
      ⟨guarded.acknowledge _ asked _ _ active', requested⟩
    rw [advance_of_executed running executed, attend_of_unfailed unfailed, bind_apply, reported]
    change (settle listeners blocking _ status _ seen shown).2.1.interrupted = true
    rw [settle_of_asks asks, waits, consult_of_asked asked observed]
    refine (holds_of_bind left fun agreed => ?_).interrupted
    split
    · exact .pure _
    · exact .pure _

theorem exists_returned (discreet : listeners.Discreet)
    (returning : listeners.All fun _ => Returning) (active : point.1.active = true)
    (placed : point.1.engine.Placed block) (running : point.1.engine.finished = false) :
    ∃ status middle, advance listeners blocking point = (.ok status, middle) := by
  have unraised {Result : Type} {action : Action World Result} {state left : Session × World}
      {fault : Fault} (returns : Returning action) (active : state.1.active = true) :
      action state ≠ (.error fault, left) := by
    obtain ⟨result, after, returned⟩ := returns state active
    rw [returned]
    rintro ⟨⟩
  rcases advances : advance listeners blocking point with ⟨fault | status, middle⟩
  · rcases raised_of_advance running advances with ⟨engine, raised⟩ | faults
    · cases raised with
      | output _ raised => exact absurd raised (unraised (returning.output _) active)
      | input _ raised => exact absurd raised (unraised returning.input active)
      | observer executed _ _ heard _ raised =>
        have active' := active_of_execute discreet active executed
        exact absurd raised (unraised (returning.observer _ heard _) active')
      | acknowledge executed _ reported _ _ asked _ raised =>
        have active' := active_of_report discreet (active_of_execute discreet active executed)
          reported
        exact absurd raised (unraised (returning.acknowledge _ asked _) active')
    · exact absurd faults (not_faults discreet active running placed)
  · exact ⟨status, middle, rfl⟩

def withdraw (state : Session × World) : Session × World :=
  ({ state.1 with interrupted := false }, state.2)

theorem boundary_of_pending (running : before.1.engine.finished = false)
    (pending : before.1.interrupted = true) :
    boundary before = (.ok (some .running), withdraw before) := by
  rw [boundary_apply, running, pending]
  rfl

theorem run_of_pending (running : before.1.engine.finished = false)
    (pending : before.1.interrupted = true) (allowance : Nat) :
    run listeners allowance before = (.ok (some .running), withdraw before) := by
  have unready : ¬ before.1.Ready := fun ready => by simp [ready.eager] at pending
  rw [run_of_not_ready unready, boundary_of_pending running pending]

theorem Entry.body_of_run {allowance : Nat} (allowed : entry.allowance? = some allowance)
    (ran : run listeners allowance before = (.ok (some status), after)) :
    entry.body listeners before = (.ok (some status), after) := by
  cases entry with
  | resume fuel =>
    cases allowed
    exact ran
  | resumeFor limit =>
    cases allowed
    rw [body, map_apply, ran]
    rfl
  | stepOnce => cases allowed

/-- What becomes of a run in which a callback asked the session to stop, while the instruction was
executed before which the session stood. No further instruction is executed. -/
structure Obeyed (listeners : Listeners World) (entry : Entry) (before point : Session × World)
    (status : Status) (middle : Session × World) : Prop where
  /-- The instruction in progress is brought to its end, with the request pending then. -/
  advanced : advance listeners true point = (.ok status, middle)
  pending : middle.1.interrupted = true
  /-- The request is granted if the run would go on. -/
  granted : status.isPause = false → middle.1.engine.finished = false →
    entry.perform listeners before =
      (.ok (some .running), leave (withdraw middle) (some .running))
  /-- It stays pending if the run ends here anyway, with a pause or with the status of the
  engine. -/
  ended : status.isPause = true ∨ middle.1.engine.finished = true →
    entry.perform listeners before = (.ok (some status), leave middle (some status)) ∧
      (status.isPause = false → status = middle.1.engine.status)

theorem obeyed (discreet : listeners.Discreet) (idle : before.1.active = false)
    (placed : before.1.engine.Placed block) (waits : entry.waits = true)
    (stands : entry.Stands listeners before count point)
    (advances : advance listeners true point = (.ok status, middle))
    (pending : middle.1.interrupted = true) :
    Obeyed listeners entry before point status middle := by
  obtain ⟨allowance, allowed⟩ := Option.isSome_iff_exists.mp waits
  have further := stands.further discreet placed
  obtain ⟨within, completed, ready⟩ := (Entry.stands_iff_of_allowed allowed).mp stands
  obtain ⟨more, rfl⟩ := Nat.exists_eq_add_of_lt within
  have active : point.1.active = true := further.active_eq
  have settled := settled_of_advance discreet active further.placed ready.running advances
  have ran : run listeners (count + more + 1) (enter before) =
      (if status.isPause then return some status else run listeners more) middle := by
    rw [Nat.add_assoc, completed.run, run_succ_of_ready ready, bind_apply, advances]
  have performed {result : Status} {left : Session × World}
      (ended : run listeners (count + more + 1) (enter before) = (.ok (some result), left)) :
      entry.perform listeners before = (.ok (some result), leave left (some result)) := by
    rw [entry.perform_of_idle idle, Entry.body_of_run allowed ended]
    rfl
  refine ⟨advances, pending, fun goesOn running => ?_, fun ends => ⟨?_, fun goesOn => ?_⟩⟩
  · apply performed
    rw [ran, goesOn]
    exact run_of_pending running pending more
  · apply performed
    rw [ran]
    cases goesOn : status.isPause with
    | true => rfl
    | false =>
      have finished : middle.1.engine.finished = true := by simpa [goesOn] using ends
      have unready : ¬ middle.1.Ready := fun ready => by simp [ready.eager] at pending
      change run listeners more middle = _
      rw [run_of_not_ready unready, boundary_apply, if_pos finished, settled.status_eq goesOn]
  · exact (settled.status_eq goesOn).symm

theorem stepOnce_asked (blind : listeners.All fun _ => Overlooks asked)
    (state : Session × World) :
    stepOnce listeners (alter asked state) =
      ((stepOnce listeners state).1, alter asked (stepOnce listeners state).2) := by
  cases active : state.1.active with
  | true =>
    have active' : (alter asked state).1.active = true := active
    rw [stepOnce, exclusively_of_active active, exclusively_of_active active']
  | false =>
    have idle' : (alter asked state).1.active = false := active
    have entered : enter (alter asked state) = alter asked (enter state) := rfl
    have same := (Overlooks.advance asked_marginal blind false).same (enter state) rfl
    rw [stepOnce_of_idle active, stepOnce_of_idle idle', entered, same]
    rcases advance listeners false (enter state) with ⟨fault | status, left⟩ <;> rfl

theorem interrupts_iff (state after : Session × World) :
    Call.AllReturn listeners (List.replicate (count + 1) .interrupt) state after ↔
      after = alter asked state := by
  have once {before after : Session × World} :
      Call.interrupt.Returns listeners before after ↔ after = alter asked before := by
    constructor
    · intro returned
      cases returned
      rfl
    · rintro rfl
      rfl
  induction count generalizing state with
  | zero =>
    constructor
    · rintro (_ | ⟨first, ⟨⟩⟩)
      exact once.mp first
    · rintro rfl
      exact .cons (once.mpr rfl) (.nil _)
  | succ count ih =>
    constructor
    · rintro (_ | ⟨first, rest⟩)
      cases once.mp first
      exact (ih (alter asked state)).mp rest
    · rintro rfl
      exact .cons (once.mpr rfl) ((ih (alter asked state)).mpr rfl)

/-- A pending request ends the next run of an idle session before its first instruction, whatever
the callbacks are and however long the run may be, and is forgotten then. Any number of requests
counts as one, and `stepOnce` neither grants a request nor forgets it. A request that a callback
makes in a run ends the run behind the instruction in progress, as `Obeyed` says; for that the
program has to be a built one, whose instructions always have an answer. -/
theorem request_granted_once {listeners : Listeners World}
    (confined : listeners.All fun _ => Confined) :
    (∀ state : Session × World, state.1.active = false → state.1.engine.finished = false →
      state.1.interrupted = true →
        ∀ (entry : Entry) (others : Listeners World), entry.waits = true →
          entry.perform others state = (.ok (some .running),
            ({ state.1 with interrupted := false, status := .running }, state.2))) ∧
    (∀ (state : Session × World) count after,
      Call.AllReturn listeners (List.replicate (count + 1) .interrupt) state after ↔
        after = alter asked state) ∧
    (∀ state : Session × World, stepOnce listeners (alter asked state) =
      ((stepOnce listeners state).1, alter asked (stepOnce listeners state).2)) ∧
    (listeners.All (fun _ => Returning) →
      ∀ {tokens : List Token} {source : String} {program : Program},
        Program.ofTokens tokens source = .ok program → ∀ options size world state,
          Reached listeners (start program options (Tape.blank size), world) state →
            ∀ (entry : Entry) count point left, entry.waits = true →
              entry.Stands listeners state count point → Invoked listeners true point left →
                left.1.interrupted = true →
                  ∃ status middle, Obeyed listeners entry state point status middle) := by
  have discreet : listeners.Discreet := confined.mono fun each => each.discreet
  refine ⟨fun state idle running pending entry others waits => ?_,
    fun state count after => interrupts_iff state after,
    stepOnce_asked (confined.mono fun each => each.blind),
    fun returning tokens source program built options size world state reached entry count point
      left waits stands invoked requested => ?_⟩
  · obtain ⟨allowance, allowed⟩ := Option.isSome_iff_exists.mp waits
    have running' : (enter state).1.engine.finished = false := running
    have ran : run others allowance (enter state) = _ :=
      run_of_pending running' pending allowance
    rw [entry.perform_of_idle idle, Entry.body_of_run allowed ran]
    simp [closed, leave, withdraw, enter, idle]
  · obtain ⟨block, started⟩ := start_placed built options size
    have placed : state.1.engine.Placed block := reached.placed discreet rfl started
    have further := stands.further discreet placed
    obtain ⟨_, _, stood⟩ := further.left
    have active : point.1.active = true := by rw [stood]; rfl
    obtain ⟨status, middle, advances⟩ :=
      exists_returned discreet returning active further.placed stands.running
    have pending := invoked.interrupted confined active stands.running requested
    rw [advances] at pending
    exact ⟨status, middle, obeyed discreet (reached.idle rfl) placed waits stands advances pending⟩

/-- Behind each instruction the session is asked to stop. -/
def Listeners.impatient : Listeners Unit where
  output _ := return
  input := return none
  observer := some fun _ => interrupt

theorem Listeners.impatient_confined : impatient.All fun _ => Confined where
  output _ := ⟨fun state _ => ⟨state.1.interrupted, rfl⟩, .pure _⟩
  input := ⟨fun state _ => ⟨state.1.interrupted, rfl⟩, .pure _⟩
  observer := by
    rintro observer ⟨⟩ observation
    exact ⟨fun _ _ => ⟨true, rfl⟩, .update (fun _ => rfl) fun _ => rfl⟩
  acknowledge := by rintro _ ⟨⟩

theorem Listeners.impatient_returning : impatient.All fun _ => Returning where
  output _ state _ := ⟨(), state, rfl⟩
  input state _ := ⟨none, state, rfl⟩
  observer := by
    rintro observer ⟨⟩ observation state _
    exact ⟨(), alter asked state, rfl⟩
  acknowledge := by rintro _ ⟨⟩

/-- A verbose session of `+#+` is stopped behind its first instruction. Then it pauses at the
breakpoint, with one more request pending, which ends the next run at once. -/
theorem request_granted_once_impatient :
    let program : Program := ⟨#[.adjust 1, .breakpoint, .adjust 1], #[0, 1, 2], "+#+"⟩
    let fresh : Session × Unit := (start program { mode := .verbose } (Tape.blank 1), ())
    ∃ stopped paused,
      Program.ofTokens [.ofSymbol .increment 0, .ofSymbol .breakpoint 1, .ofSymbol .increment 2]
        "+#+" = .ok program ∧
      (Entry.resume 9).perform .impatient fresh = (.ok (some .running), stopped) ∧
      (Entry.resumeFor 1).perform .impatient stopped =
        (.ok (some (.pausedAtBreakpoint 1)), paused) ∧
      paused.1.engine.finished = false ∧ paused.1.interrupted = true ∧
      (Entry.resumeFor 5).perform .impatient paused = (.ok (some .running),
        ({ paused.1 with interrupted := false, status := .running }, paused.2)) ∧
      (Entry.resume 9).Stands .impatient fresh 0 (enter fresh) ∧
      ∃ left, Invoked .impatient true (enter fresh) left ∧ left.1.interrupted = true ∧
        ∃ status middle, Obeyed .impatient (.resume 9) fresh (enter fresh) status middle := by
  intro program fresh
  have built : Program.ofTokens
      [.ofSymbol .increment 0, .ofSymbol .breakpoint 1, .ofSymbol .increment 2] "+#+" =
    .ok program := rfl
  let stopped := ((Entry.resume 9).perform .impatient fresh).2
  let paused := ((Entry.resumeFor 1).perform .impatient stopped).2
  have stops : (Entry.resume 9).perform .impatient fresh = (.ok (some .running), stopped) := rfl
  have pauses : (Entry.resumeFor 1).perform .impatient stopped =
    (.ok (some (.pausedAtBreakpoint 1)), paused) := rfl
  have reached : Reached .impatient fresh paused := .returned (.returned .fresh stops) pauses
  have stands : (Entry.resume 9).Stands .impatient fresh 0 (enter fresh) :=
    .run rfl (by decide) (.refl _) ⟨rfl, rfl⟩
  have invoked : Invoked .impatient true (enter fresh) _ :=
    .observer rfl (by rintro _ ⟨⟩) (by rintro ⟨⟩) rfl rfl
  obtain ⟨granted, -, -, obeys⟩ := request_granted_once Listeners.impatient_confined
  have begun : Reached .impatient fresh fresh := .fresh
  exact ⟨stopped, paused, built, stops, pauses, rfl, rfl,
    granted paused rfl rfl rfl (.resumeFor 5) .impatient rfl, stands, _, invoked, rfl,
    obeys Listeners.impatient_returning built { mode := .verbose } 1 () fresh begun (.resume 9) 0
      (enter fresh) _ rfl stands invoked rfl⟩

end Brainfuck.Session
