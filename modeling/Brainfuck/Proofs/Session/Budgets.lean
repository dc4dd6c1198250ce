import Brainfuck.Proofs.Budgets
import Brainfuck.Proofs.Session.Endings
import Brainfuck.Proofs.Session.Limits

namespace Brainfuck

/-- Where nothing pauses a session, its status says that the engine runs as long as it does. -/
theorem Status.TrueOf.eq_running {options : Session.Options} {engine : Engine} {status : Status}
    (truth : status.TrueOf options engine) (running : engine.finished = false)
    (unbroken : options.breakpoints = false) (unasked : options.mode ≠ .step) :
    status = .running := by
  cases status with
  | running => rfl
  | halted =>
    rw [Engine.finished, truth] at running
    cases running
  | failed underflow =>
    rw [Engine.finished, truth] at running
    cases running
  | pausedAtBreakpoint index =>
    rw [truth.1] at unbroken
    cases unbroken
  | pausedForStep index => exact absurd truth.1 unasked

namespace Session

variable {World : Type} {listeners : Listeners World} {holds : World → Streams → Prop}
  {fresh state before point after : Session × World} {status : Status} {block : Block}
  {options : Options} {allowance count : Nat} {machine : Machine}

/-- A session that executes instructions, and that neither pauses nor is stopped. -/
structure Flowing (block : Block) (session : Session) : Prop extends Steady block session where
  unbroken : session.options.breakpoints = false
  unasked : session.options.mode ≠ .step

/-- Behind each instruction the session goes on, and its status is that of the engine. -/
theorem Flowing.of_advance (flowing : Flowing block before.1) (discreet : listeners.Discreet)
    (patient : listeners.Patient) (running : before.1.engine.finished = false)
    (advances : advance listeners true before = (.ok status, after)) :
    Flowing block after.1 ∧ status.isPause = false := by
  obtain ⟨engine, advanced⟩ := exists_advanced discreet flowing.active running advances
  obtain ⟨interrupted, left⟩ := advanced.left
  have options : after.1.options = before.1.options := by rw [left]
  refine ⟨⟨flowing.toSteady.of_advance discreet patient advances, ?_, ?_⟩, ?_⟩
  · rw [options]
    exact flowing.unbroken
  · rw [options]
    exact flowing.unasked
  · cases settled_of_advance discreet flowing.active flowing.placed running advances with
    | failed | halted | running => rfl
    | broken enabled _ =>
      rw [flowing.unbroken] at enabled
      cases enabled
    | stepped mode _ => exact absurd mode flowing.unasked

theorem Completed.flowing (completed : Completed listeners count before after)
    (flowing : Flowing block before.1) (discreet : listeners.Discreet)
    (patient : listeners.Patient) : Flowing block after.1 := by
  induction completed with
  | refl => exact flowing
  | next ready advances _ _ ih =>
    exact ih (flowing.of_advance discreet patient ready.running advances).1

theorem completed_of_run (flowing : Flowing block before.1) (discreet : listeners.Discreet)
    (patient : listeners.Patient)
    (ended : run listeners allowance before = (.ok (some status), after)) :
    ∃ steps ≤ allowance, Completed listeners steps before after ∧
      after.1.engine.finished = true ∧ after.1.engine.status = status := by
  have unready {before : Session × World} (flowing : Flowing block before.1)
      (ended : boundary before = (.ok (some status), after)) :
      Completed listeners 0 before after ∧ after.1.engine.finished = true ∧
        after.1.engine.status = status := by
    rw [boundary_apply, flowing.eager] at ended
    split at ended
    · next finished =>
      cases ended
      exact ⟨.refl _, finished, rfl⟩
    · cases ended
  induction allowance generalizing before with
  | zero => exact ⟨0, Nat.le_refl 0, unready flowing ended⟩
  | succ allowance ih =>
    by_cases ready : before.1.Ready
    · rw [run_succ_of_ready ready] at ended
      obtain ⟨status', middle, advances, later⟩ := bind_eq_ok ended
      obtain ⟨flowing', goesOn⟩ := flowing.of_advance discreet patient ready.running advances
      rw [goesOn] at later
      obtain ⟨steps, within, completed, finished⟩ := ih flowing' later
      exact ⟨steps + 1, Nat.succ_le_succ within, .next ready advances goesOn completed, finished⟩
    · rw [run_of_not_ready ready] at ended
      exact ⟨0, Nat.zero_le _, unready flowing ended⟩

/-- The session is idle and will not pause. As long as its engine runs, it says so. -/
structure Free (block : Block) (options : Options) (session : Session) : Prop
    extends Waiting block session where
  options_eq : session.options = options
  unbroken : options.breakpoints = false
  unasked : options.mode ≠ .step
  truth : session.engine.finished = false → session.status = .running

theorem Free.flowing (free : Free block options before.1) (eager : before.1.interrupted = false) :
    Flowing block (enter before).1 :=
  ⟨⟨rfl, eager, free.placed⟩, by rw [enter, free.options_eq]; exact free.unbroken,
    by rw [enter, free.options_eq]; exact free.unasked⟩

/-- While it executes instructions, a session keeps its options and the status that the last call
left. -/
theorem kept_of_body (discreet : listeners.Discreet) (entry : Entry) (state : Session × World) :
    (entry.body listeners (enter state)).2.1.options = state.1.options ∧
      (entry.body listeners (enter state)).2.1.status = state.1.status := by
  let kept (session : Session) : Prop :=
    session.active = true ∧ session.options = state.1.options ∧ session.status = state.1.status
  have congruence : UpdateCongruence fun Result (action _ : Action World Result) =>
      Maintains kept action :=
    { Maintains.congruence kept with
      replace := fun _ _ held => held
      grant := fun _ held => held }
  have callbacks : listeners.All fun _ => Maintains kept := by
    refine discreet.mono fun alone state held => ?_
    obtain ⟨interrupted, left⟩ := alone state held.1
    rw [left]
    exact held
  have body : Maintains kept (entry.body listeners) := by
    cases entry with
    | resume fuel => exact congruence.run callbacks.related fuel
    | resumeFor count => exact (congruence.run callbacks.related count).bind fun _ => .pure _
    | stepOnce => exact (congruence.replaces.advance callbacks.related false).bind fun _ => .pure _
  exact (body (enter state) ⟨rfl, rfl, rfl⟩).2

theorem Free.perform (free : Free block options state.1) (discreet : listeners.Discreet)
    (entry : Entry) : Free block options (entry.perform listeners state).2.1 := by
  have waiting := free.toWaiting.perform discreet entry
  have unfinished (running : (entry.perform listeners state).2.1.engine.finished = false) :
      state.1.status = .running := by
    cases finished : state.1.engine.finished with
    | false => exact free.truth finished
    | true =>
      rw [entry.perform_of_finished listeners free.idle finished] at running
      cases finished.symm.trans running
  obtain ⟨same, kept⟩ := kept_of_body discreet entry state
  rw [free.options_eq] at same
  rcases performed : entry.perform listeners state with ⟨result, after⟩
  rw [performed] at waiting unfinished
  rw [entry.perform_of_idle free.idle] at performed
  rcases ended : entry.body listeners (enter state) with ⟨fault | status?, left⟩
  · rw [ended] at performed kept same
    cases performed
    exact ⟨waiting, same, free.unbroken, free.unasked,
      fun running => kept.trans (unfinished running)⟩
  · rw [ended] at performed kept same
    cases performed
    refine ⟨waiting, same, free.unbroken, free.unasked, fun running => ?_⟩
    cases status? with
    | none => exact kept.trans (unfinished running)
    | some status =>
      have returned : entry.perform listeners state =
          (.ok (some status), leave left (some status)) := by
        rw [entry.perform_of_idle free.idle, ended]
        rfl
      obtain ⟨-, truthful⟩ := truthful_of_perform discreet free.idle free.placed returned
      have truth := truthful.truth
      rw [free.options_eq] at truth
      exact truth.eq_running running free.unbroken free.unasked

theorem Free.call (free : Free block options state.1) (discreet : listeners.Discreet) (fuel : Nat)
    (call : Call) : Free block options (call.perform listeners fuel state).2.1 := by
  cases found : call.entry? fuel with
  | some entry =>
    rw [Call.perform_of_entry found, snd_map]
    exact free.perform discreet entry
  | none =>
    cases call with
    | resume limit => cases limit <;> cases found
    | stepOnce => cases found
    | interrupt =>
      exact ⟨⟨free.idle, free.placed⟩, free.options_eq, free.unbroken, free.unasked, free.truth⟩
    | observe => exact free

theorem Free.step {interrupted : Bool} (free : Free block options state.1)
    (alone : (state.1.engine.step listeners.output listeners.input state).2.1 =
      { state.1 with interrupted }) : Free block options (execute listeners state).2.1 := by
  have waiting := free.toWaiting.step alone
  have unfinished (running : (execute listeners state).2.1.engine.finished = false) :
      state.1.status = .running := by
    cases finished : state.1.engine.finished with
    | false => exact free.truth finished
    | true =>
      rw [execute_of_finished finished] at running
      cases finished.symm.trans running
  rw [execute_of_alone alone] at waiting unfinished ⊢
  rcases stepped : state.1.engine.step listeners.output listeners.input state
    with ⟨fault | engine, left⟩
  · rw [stepped] at waiting unfinished alone
    change left.1 = _ at alone
    change Waiting block left.1 at waiting
    change Free block options left.1
    rw [alone] at waiting ⊢
    exact ⟨waiting, free.options_eq, free.unbroken, free.unasked, free.truth⟩
  · rw [stepped] at waiting unfinished alone
    change left.1 = _ at alone
    change Waiting block (withEngine left engine).1 at waiting
    change Free block options (withEngine left engine).1
    rw [withEngine, alone] at waiting ⊢
    exact ⟨waiting, free.options_eq, free.unbroken, free.unasked, unfinished⟩

theorem Arrived.free (arrived : Arrived listeners fresh state) (discreet : listeners.Discreet)
    (free : Free block options fresh.1) : Free block options state.1 := by
  induction arrived with
  | fresh => exact free
  | called _ fuel call ih => exact ih.call discreet fuel call
  | stepped _ alone ih => exact ih.step alone

/-- What a limited run leaves to the runs after it, which make the same of it as of the whole. -/
inductive Spent (listeners : Listeners World) (before : Session × World) (budget : Nat) : Prop where
  | raised {fault : Fault} {left : Session × World}
      (returned : resumeFor listeners budget before = (.error fault, leave left none))
      (whole : ∀ more, run listeners (budget + more) (enter before) = (.error fault, left))
  | ended {left : Session × World} (finished : left.1.engine.finished = true)
      (returned : resumeFor listeners budget before =
        (.ok left.1.engine.status, leave left (some left.1.engine.status)))
      (whole : ∀ more, run listeners (budget + more) (enter before) =
        (.ok (some left.1.engine.status), left))
  | goesOn {point : Session × World}
      (returned : resumeFor listeners budget before =
        (.ok .running, leave point (some .running)))
      (again : enter (leave point (some .running)) = point)
      (whole : ∀ more, run listeners (budget + more) (enter before) = run listeners more point)

theorem Free.spent (free : Free block options before.1) (eager : before.1.interrupted = false)
    (discreet : listeners.Discreet) (patient : listeners.Patient) (budget : Nat) :
    Spent listeners before budget := by
  have flowing := free.flowing eager
  have accepted : resumeFor listeners budget before = _ := resumeFor_of_idle free.idle budget
  rcases ran : run listeners budget (enter before) with ⟨fault | status?, left⟩
  · rw [ran] at accepted
    exact .raised accepted fun more => run_of_le ran (by simp) (Nat.le_add_right budget more)
  · rw [ran] at accepted
    cases status? with
    | some status =>
      obtain ⟨_, -, -, finished, rfl⟩ := completed_of_run flowing discreet patient ran
      exact .ended finished accepted fun more =>
        run_of_le ran (by simp) (Nat.le_add_right budget more)
    | none =>
      obtain ⟨completed, ready⟩ := run_eq_none_iff.mp ran
      refine .goesOn accepted ?_ completed.run
      have further := completed.further discreet rfl free.placed
      obtain ⟨engine, interrupted, same⟩ := further.left
      have status : before.1.status = .running :=
        free.truth (further.steps ready.running).1
      have session : (enter (leave left (some .running))).1 = left.1 := by
        change { left.1 with active := true, status := .running } = left.1
        rw [same, ← status]
        rfl
      exact Prod.ext session rfl

theorem resumeFor_of_finished {left : Session × World} (finished : left.1.engine.finished = true)
    (budget : Nat) :
    resumeFor listeners budget (leave left (some left.1.engine.status)) =
      (.ok left.1.engine.status, leave left (some left.1.engine.status)) := by
  have entered : (enter (leave left (some left.1.engine.status))).1.engine.finished = true :=
    finished
  rw [resumeFor_of_idle rfl, run_of_finished entered]
  rfl

theorem resume_of_finished {left : Session × World} (finished : left.1.engine.finished = true)
    (fuel : Nat) :
    resume listeners fuel (leave left (some left.1.engine.status)) =
      (.ok (some left.1.engine.status), leave left (some left.1.engine.status)) := by
  have entered : (enter (leave left (some left.1.engine.status))).1.engine.finished = true :=
    finished
  rw [resume_of_idle rfl, run_of_finished entered]
  rfl

theorem Spent.resumeFor_add (spent : Spent listeners before count)
    (idle : before.1.active = false) (more : Nat) :
    (do let _ ← resumeFor listeners count; resumeFor listeners more) before =
      resumeFor listeners (count + more) before := by
  rw [bind_apply, resumeFor_of_idle idle (count + more)]
  cases spent with
  | raised returned whole => rw [returned, whole]; rfl
  | ended finished returned whole =>
    rw [returned, whole]
    exact resumeFor_of_finished finished more
  | goesOn returned again whole =>
    rw [returned, whole]
    change resumeFor listeners more _ = _
    rw [resumeFor_of_idle rfl, again]

theorem Spent.resume_add (spent : Spent listeners before count)
    (idle : before.1.active = false) (fuel : Nat) :
    (do let _ ← resumeFor listeners count; resume listeners fuel) before =
      resume listeners (count + fuel) before := by
  rw [bind_apply, resume_of_idle idle (count + fuel)]
  cases spent with
  | raised returned whole => rw [returned, whole]
  | ended finished returned whole =>
    rw [returned, whole]
    exact resume_of_finished finished fuel
  | goesOn returned again whole =>
    rw [returned, whole]
    change resume listeners fuel _ = _
    rw [resume_of_idle rfl, again]

/-- The instructions that a limited run completes: as many as its budget allows, or all that the
program has left. -/
inductive Spends (listeners : Listeners World) (before : Session × World) (budget steps : Nat)
    (point : Session × World) : Prop where
  | all (completed : Completed listeners steps before point) (used : steps = budget)
  | left (completed : Completed listeners steps before point) (within : steps < budget)
      (finished : point.1.engine.finished = true)

theorem Free.resumeFor_iff (free : Free block options before.1)
    (eager : before.1.interrupted = false) (discreet : listeners.Discreet)
    (patient : listeners.Patient) {budget : Nat} :
    resumeFor listeners budget before = (.ok status, after) ↔
      ∃ steps point, Spends listeners (enter before) budget steps point ∧
        point.1.engine.status = status ∧ after = leave point (some status) := by
  have flowing := free.flowing eager
  rw [resumeFor_of_idle free.idle]
  constructor
  · intro returned
    rcases ran : run listeners budget (enter before) with ⟨fault | status?, left⟩
    · rw [ran] at returned
      cases returned
    · rw [ran] at returned
      cases returned
      cases status? with
      | some status =>
        obtain ⟨steps, within, completed, finished, same⟩ :=
          completed_of_run flowing discreet patient ran
        rcases Nat.lt_or_eq_of_le within with less | used
        · exact ⟨steps, left, .left completed less finished, same, rfl⟩
        · exact ⟨steps, left, .all completed used, same, rfl⟩
      | none =>
        obtain ⟨completed, ready⟩ := run_eq_none_iff.mp ran
        have placed := (completed.flowing flowing discreet patient).placed
        exact ⟨budget, left, .all completed rfl, placed.running_of_unfinished ready.running, rfl⟩
  · rintro ⟨steps, point, spends, rfl, rfl⟩
    cases spends with
    | all completed used =>
      subst used
      have there := completed.flowing flowing discreet patient
      have ran := completed.run 0
      rw [Nat.add_zero, run, boundary_apply, there.eager] at ran
      rw [ran]
      split
      · rfl
      · next unfinished =>
        rw [there.placed.running_of_unfinished (by simpa using unfinished)]
        rfl
    | left completed within finished =>
      obtain ⟨more, rfl⟩ := Nat.exists_eq_add_of_lt within
      rw [Nat.add_assoc, completed.run, run_of_finished finished]
      rfl

/-- A limited run of a session that follows a machine does what the machine does. -/
theorem Follows.runFor (follows : Follows holds options machine state)
    (obliging : listeners.Obliging options.mode holds) (unbroken : options.breakpoints = false)
    (placed : machine.Placed (block.instructions 0)) (budget : Nat) :
    Yields (Session.run listeners budget) state fun status? after =>
      status?.getD .running = (machine.afterCalls budget).engine.status ∧
        Follows holds options (machine.afterCalls budget) after := by
  induction budget generalizing machine state with
  | zero =>
    rw [Session.run, Yields, follows.boundary]
    refine Yields.pure ⟨?_, follows⟩
    cases finished : machine.engine.finished with
    | true => rfl
    | false => exact (placed.running_iff.mpr finished).symm
  | succ budget ih =>
    rw [Session.run, Yields, bind_apply, follows.boundary]
    cases finished : machine.engine.finished with
    | true =>
      have stays : machine.afterCalls (budget + 1) = machine.afterCalls 0 :=
        Machine.afterCalls_of_finished finished (Nat.zero_le _)
      rw [stays]
      exact Yields.pure ⟨rfl, follows⟩
    | false =>
      refine (follows.advance obliging placed finished).bind fun status after told => ?_
      obtain ⟨rfl, follows'⟩ := told
      have placed' := placed.step.2.placed
      have goesOn : (machine.outcome options.breakpoints).isPause = false := by
        rw [Machine.outcome, unbroken, Bool.false_and]
        exact placed'.not_isPause
      rw [goesOn, ← Machine.afterCalls_stepped]
      exact ih follows' placed'

/-- A session with a budget does what a machine does with it. -/
theorem Follows.resumeFor (follows : Follows holds options machine (enter before))
    (idle : before.1.active = false) (obliging : listeners.Obliging options.mode holds)
    (unbroken : options.breakpoints = false) (placed : machine.Placed (block.instructions 0))
    (budget : Nat) :
    ∃ status after reached, Session.resumeFor listeners budget before = (.ok status, after) ∧
      Machine.runFor budget machine = (.ok status, reached) ∧
        after.1.engine = reached.engine ∧ holds after.2 reached.streams := by
  obtain ⟨status?, left, ran, same, follows'⟩ :=
    follows.runFor obliging unbroken placed budget
  have returned : Session.resumeFor listeners budget before =
      (.ok (machine.afterCalls budget).engine.status,
        leave left (some (machine.afterCalls budget).engine.status)) := by
    rw [resumeFor_of_idle idle, ran, ← same]
    rfl
  exact ⟨_, _, _, returned, placed.runFor_eq budget, follows'.engine, follows'.streams⟩

/-- What a session does with its budgets. -/
structure Budgeted (listeners : Listeners World) (options : Options) (before : Session × World) :
    Prop where
  /-- The answer, the session and the world are the same, with all that its callbacks were told. -/
  adds : ∀ first second : Nat,
    (do let _ ← resumeFor listeners first; resumeFor listeners second) before =
      resumeFor listeners (first + second) before
  /-- With a budget, and then without one, a run ends as it does without one. -/
  ends : ∀ (budget : Nat) (status : Status) (after : Session × World),
    (∃ fuel, (do let _ ← resumeFor listeners budget; resume listeners fuel) before =
      (.ok (some status), after)) ↔
        ∃ fuel, resume listeners fuel before = (.ok (some status), after)
  returns_iff : ∀ (budget : Nat) (status : Status) (after : Session × World),
    resumeFor listeners budget before = (.ok status, after) ↔
      ∃ steps point, Spends listeners (enter before) budget steps point ∧
        point.1.engine.status = status ∧ after = leave point (some status)
  running_iff : ∀ (budget : Nat) (status : Status) (after : Session × World),
    resumeFor listeners budget before = (.ok status, after) →
      (status = .running ↔ after.1.engine.finished = false)
  /-- A machine with the same engine and the same streams is led to the same engine. -/
  runs_alike : ∀ (holds : World → Streams → Prop) (streams : Streams),
    listeners.Obliging options.mode holds → holds before.2 streams → ∀ budget,
      ∃ status after reached, resumeFor listeners budget before = (.ok status, after) ∧
        Machine.runFor budget ⟨before.1.engine, streams⟩ = (.ok status, reached) ∧
          after.1.engine = reached.engine ∧ holds after.2 reached.streams

theorem Free.budgeted (free : Free block options before.1) (eager : before.1.interrupted = false)
    (discreet : listeners.Discreet) (patient : listeners.Patient) :
    Budgeted listeners options before where
  adds first second := (free.spent eager discreet patient first).resumeFor_add free.idle second
  ends budget status after := by
    have add (fuel : Nat) :=
      (free.spent eager discreet patient budget).resume_add free.idle fuel
    constructor
    · rintro ⟨fuel, ended⟩
      rw [add] at ended
      exact ⟨budget + fuel, ended⟩
    · rintro ⟨fuel, ended⟩
      refine ⟨fuel, ?_⟩
      rw [add]
      exact resume_of_le ended (Nat.le_add_left fuel budget)
  returns_iff budget status after := free.resumeFor_iff eager discreet patient
  running_iff budget status after returned := by
    obtain ⟨steps, point, spends, rfl, rfl⟩ :=
      (free.resumeFor_iff eager discreet patient).mp returned
    have completed : Completed listeners steps (enter before) point := by
      cases spends with
      | all completed _ => exact completed
      | left completed _ _ => exact completed
    have placed := (completed.flowing (free.flowing eager) discreet patient).placed
    exact (placed {}).running_iff
  runs_alike holds streams obliging held budget :=
    Follows.resumeFor ⟨rfl, free.options_eq, eager, rfl, held⟩ free.idle obliging free.unbroken
      (free.placed streams) budget

/-- Budgets add up: those of a machine, and those of a session that neither pauses nor is asked to
stop. -/
theorem budgets_add {tokens : List Token} {source : String} {program : Program}
    (built : Program.ofTokens tokens source = .ok program) (size : Int) :
    (∀ input count,
      ((Machine.load program input (Tape.blank size)).afterCalls count).Budgeted) ∧
    ∀ {World : Type} {listeners : Listeners World}, listeners.Discreet → listeners.Patient →
      ∀ options : Options, options.breakpoints = false → options.mode ≠ .step →
        ∀ world before,
          Arrived listeners (start program options (Tape.blank size), world) before →
            before.1.interrupted = false → Budgeted listeners options before := by
  constructor
  · intro input count
    obtain ⟨block, -, rfl⟩ := Program.ofTokens_eq_ok_iff.mp built
    have begins := Machine.Begins.load (Program.ofBlock block tokens source) input size
    exact (begins.placed_afterCalls count : Machine.Placed (block.instructions 0) _).budgeted
  · intro World listeners discreet patient options unbroken unasked world before arrived eager
    obtain ⟨block, placed⟩ := start_placed built options size
    have fresh : Free block options (start program options (Tape.blank size)) :=
      ⟨⟨rfl, placed⟩, rfl, unbroken, unasked, placed.running_of_unfinished⟩
    exact (arrived.free discreet fresh).budgeted eager discreet patient

theorem Listeners.logging_all {property : (Result : Type) →
      Action (List Event × List (Option Int)) Result → Prop}
    (of_unchanged : ∀ {Result : Type} {action : Action (List Event × List (Option Int)) Result},
      (∀ state, (action state).2.1 = state.1) → property Result action) :
    logging.All property where
  output value := of_unchanged fun _ => rfl
  input := of_unchanged fun _ => rfl
  observer := by
    rintro observer ⟨⟩ observation
    exact of_unchanged fun _ => rfl
  acknowledge := by
    rintro acknowledge ⟨⟩ observation
    exact of_unchanged fun _ => rfl

theorem Listeners.logging_obliging (mode : DebugMode) :
    logging.Obliging mode fun world streams => streams.input = world.2 where
  output _ _ _ _ held := ⟨(), _, rfl, trivial, rfl, held⟩
  input := by
    rintro ⟨session, events, _ | ⟨value, input⟩⟩ streams - held
    · refine ⟨none, _, rfl, ?_, rfl, ?_⟩
      · rw [Streams.read, held]
      · rw [Streams.read, held]
        exact held
    · refine ⟨value, _, rfl, ?_, rfl, ?_⟩
      · rw [Streams.read, held]
      · rw [Streams.read, held]
        rfl
  observer := by
    rintro observer ⟨⟩ observation - state streams - held
    exact ⟨(), _, rfl, trivial, rfl, held⟩
  acknowledge _ := ⟨_, rfl, fun _ _ _ _ _ held => ⟨true, _, rfl, rfl, rfl, held⟩⟩

/-- `,.<` behind its first instruction. The last step that the budget allows fails. -/
theorem budgets_add_logging :
    let program : Program := ⟨#[.input, .output, .move (-1)], #[0, 1, 2], ",.<"⟩
    let options : Options := { breakpoints := false, mode := .verbose }
    let fresh := (start program options (Tape.blank 1), [], [some 65])
    let before := (Call.perform .logging 0 .stepOnce fresh).2
    let machine := (Machine.load program [some 65] (Tape.blank 1)).afterCalls 1
    Program.ofTokens [.ofSymbol .input 0, .ofSymbol .output 1, .ofSymbol .left 2] ",.<" =
        .ok program ∧
      machine.Budgeted ∧ before.1.interrupted = false ∧ Budgeted .logging options before ∧
      (resumeFor .logging 1 before).1 = .ok .running ∧
      (do let _ ← resumeFor .logging 1; resumeFor .logging 1) before =
        resumeFor .logging 2 before ∧
      (resumeFor .logging 2 before).1 = .ok (.failed ⟨2, 0⟩) ∧
      ∃ status after reached, resumeFor .logging 2 before = (.ok status, after) ∧
        Machine.runFor 2 ⟨before.1.engine, { input := [] }⟩ = (.ok status, reached) ∧
          after.1.engine = reached.engine ∧ reached.streams.input = after.2.2 := by
  intro program options fresh before machine
  have built : Program.ofTokens
      [.ofSymbol .input 0, .ofSymbol .output 1, .ofSymbol .left 2] ",.<" = .ok program := rfl
  have discreet : Listeners.logging.Discreet :=
    Listeners.logging_all fun unchanged state _ => ⟨state.1.interrupted, unchanged state⟩
  have patient : Listeners.logging.Patient :=
    Listeners.logging_all fun unchanged state eager => by rw [unchanged state]; exact eager
  have arrived : Arrived .logging fresh before := .called .fresh 0 .stepOnce
  obtain ⟨machines, sessions⟩ := budgets_add built 1
  have eager : before.1.interrupted = false := by decide +kernel
  have budgeted := sessions discreet patient options rfl nofun ([], [some 65]) before arrived eager
  have goesOn : (resumeFor .logging 1 before).1 = .ok .running := by decide +kernel
  have fails : (resumeFor .logging 2 before).1 = .ok (.failed ⟨2, 0⟩) := by decide +kernel
  have unread : before.2.2 = [] := by decide +kernel
  exact ⟨built, machines [some 65] 1, eager, budgeted, goesOn, budgeted.adds 1 1, fails,
    budgeted.runs_alike _ { input := [] } (Listeners.logging_obliging .verbose) unread.symm 2⟩

end Session
end Brainfuck
