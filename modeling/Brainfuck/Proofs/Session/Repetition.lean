import Brainfuck.Proofs.Session.Events
import Brainfuck.Proofs.Session.Limits
import Brainfuck.Proofs.Session.Overlooking

/-! Runs as repeated single instructions. Where nobody is asked in step mode and the callbacks keep
away from the session, a run comes to what single instructions come to, one call after another. -/

namespace Brainfuck.Session

variable {World Result : Type} {listeners : Listeners World} {blocking : Bool} {index : Int}
  {before middle after point : Session × World} {status : Status} {allowance : Nat}

/-- Call `stepOnce` until an instruction does not leave the program running, or there have been
`more + 1` calls. -/
def stepRepeatedly (listeners : Listeners World) : Nat → Action World Status
  | 0 => stepOnce listeners
  | more + 1 => do
    let status ← stepOnce listeners
    if status = .running then stepRepeatedly listeners more else return status

def mark (status : Status) (session : Session) : Session := { session with status }

theorem mark_marginal (status : Status) : Marginal (mark status) :=
  ⟨fun _ => rfl, fun _ => rfl, fun _ => rfl, fun _ _ => rfl⟩

/-- Whether it returns or raises, a callback leaves the session as it is, engine included, and it
does not see the status that the last call left. -/
structure Aloof (action : Action World Result) : Prop where
  undisturbed : ∀ state : Session × World, state.1.active = true → (action state).2.1 = state.1
  blind : ∀ status, Overlooks (mark status) action

theorem Aloof.of_world {action : Action World Result} (act : World → Except Fault Result × World)
    (same : ∀ state, action state = ((act state.2).1, state.1, (act state.2).2)) :
    Aloof action := by
  refine ⟨fun state _ => by rw [same], fun status => ⟨fun state active => ?_, ?_⟩⟩
  · rw [same]
    exact active
  · rintro state -
    rw [same, same]
    rfl

/-- The session executes instructions, nobody has asked it to stop, and nobody is asked whether it
should go on. -/
structure Unattended (listeners : Listeners World) (session : Session) : Prop where
  active : session.active = true
  eager : session.interrupted = false
  unasked : session.options.mode = .step → listeners.acknowledge = none

theorem Aloof.unattended {action : Action World Result} (aloof : Aloof action) :
    Maintains (Unattended listeners) action := by
  intro state unattended
  rw [aloof.undisturbed state unattended.active]
  exact unattended

theorem unattended_congruence : UpdateCongruence fun Result (action _ : Action World Result) =>
    Maintains (Unattended listeners) action where
  toCongruence := Maintains.congruence _
  replace _ _ held := ⟨held.active, held.eager, held.unasked⟩
  grant _ held := ⟨held.active, rfl, held.unasked⟩

theorem unattended_related (aloof : listeners.All fun _ => Aloof) :
    listeners.Related (fun _ action _ => Maintains (Unattended listeners) action) listeners := by
  have guarded : listeners.All fun _ => Maintains (Unattended listeners) :=
    aloof.mono fun each => each.unattended
  exact guarded.related

theorem Unattended.of_advance (unattended : Unattended listeners before.1)
    (aloof : listeners.All fun _ => Aloof)
    (advances : advance listeners blocking before = (.ok status, after)) :
    Unattended listeners after.1 := by
  have left := unattended_congruence.replaces.advance (unattended_related aloof) blocking before
    unattended
  rwa [advances] at left

theorem Unattended.of_execute (unattended : Unattended listeners before.1)
    (aloof : listeners.All fun _ => Aloof)
    (executed : execute listeners before = (.ok status, after)) :
    Unattended listeners after.1 := by
  have left := unattended_congruence.replaces.execute (unattended_related aloof) before unattended
  rwa [executed] at left

section unasked

variable {mode : DebugMode} {seen : Option Observation}

theorem settle_of_unasked (unasked : mode = .step → listeners.acknowledge = none) :
    settle listeners blocking index status mode seen =
      settle listeners false index status mode seen := by
  funext state
  rw [settle_apply, settle_apply]
  by_cases asks : mode = .step
  · rw [consult_of_unasked (.inr (unasked asks)), consult_of_unasked (.inl rfl)]
  · simp only [if_neg asks]

theorem attend_of_unasked (unasked : point.1.options.mode = .step → listeners.acknowledge = none) :
    attend listeners blocking index status point = attend listeners false index status point := by
  rcases failed_or_unfailed status with ⟨underflow, rfl⟩ | unfailed
  · rfl
  · rw [attend_of_unfailed unfailed, attend_of_unfailed unfailed]
    exact congrArg (fun next => (report listeners point.1.options.mode >>= next) point)
      (funext fun seen => settle_of_unasked unasked)

end unasked

/-- A call that may wait for the operator does the same as one that may not. -/
theorem advance_of_unattended (aloof : listeners.All fun _ => Aloof)
    (unattended : Unattended listeners point.1) :
    advance listeners blocking point = advance listeners false point := by
  cases finished : point.1.engine.finished with
  | true => rw [advance_of_finished finished, advance_of_finished finished]
  | false =>
    rw [advance_of_running finished, advance_of_running finished, bind_apply, bind_apply]
    rcases executed : execute listeners point with ⟨fault | status, middle⟩
    · rfl
    · exact attend_of_unasked (unattended.of_execute aloof executed).unasked

theorem status_of_settle {left : Status} {mode : DebugMode} {seen : Option Observation}
    (settled : settle listeners false index left mode seen before = (.ok status, after)) :
    status.isPause = true ∨ status = left := by
  rw [settle_apply] at settled
  rcases broken : before.1.breaks with fault | _ | _ <;> rw [broken] at settled
  · cases settled
  · by_cases halted : left = .halted
    · simp only [if_pos halted] at settled
      cases settled
      exact .inr halted.symm
    · simp only [if_neg halted] at settled
      by_cases asks : mode = .step
      · rw [if_pos asks, consult_of_unasked (.inl rfl)] at settled
        cases settled
        exact .inl rfl
      · rw [if_neg asks] at settled
        cases settled
        exact .inr rfl
  · cases settled
    exact .inl rfl

theorem status_of_attend {left : Status}
    (attended : attend listeners false index left before = (.ok status, after)) :
    status.isPause = true ∨ status = left := by
  rcases failed_or_unfailed left with ⟨underflow, rfl⟩ | unfailed
  · cases attended
    exact .inr rfl
  · rw [attend_of_unfailed unfailed] at attended
    obtain ⟨_, shown, -, settled⟩ := bind_eq_ok attended
    exact status_of_settle settled

theorem Aloof.still (aloof : listeners.All fun _ => Aloof) (active : before.1.active = true) :
    listeners.Still before where
  output {value} _ _ _ called := by
    have same := (aloof.output value).undisturbed before active
    rw [called] at same
    rw [same]
  input _ called := by
    have same := aloof.input.undisturbed before active
    rw [called] at same
    rw [same]

theorem left_of_attend {left : Status} (aloof : listeners.All fun _ => Aloof)
    (active : before.1.active = true)
    (attended : attend listeners blocking index left before = (.ok status, after)) :
    after.1 = before.1 := by
  have undisturbed : listeners.All fun _ => Maintains (· = before.1) :=
    aloof.mono fun each state same => by rw [each.undisturbed state (same ▸ active), same]
  have same := (Maintains.congruence (· = before.1)).glances.attend undisturbed.related blocking
    index left before rfl
  rwa [attended] at same

/-- A single instruction returns that the session pauses, or the status of the engine. -/
theorem status_of_advance (aloof : listeners.All fun _ => Aloof)
    (unattended : Unattended listeners before.1)
    (advances : advance listeners false before = (.ok status, after)) :
    status.isPause = true ∨ after.1.engine.status = status := by
  cases finished : before.1.engine.finished with
  | true =>
    rw [advance_of_finished finished] at advances
    cases advances
    exact .inr rfl
  | false =>
    obtain ⟨_, middle, executed, attended⟩ := executed_of_advance finished advances
    have unattended' := unattended.of_execute aloof executed
    obtain ⟨engine, _, -, rfl, rfl⟩ := (Aloof.still aloof unattended.active).stepped executed
    rw [left_of_attend aloof unattended'.active attended]
    rcases status_of_attend attended with pauses | rfl
    · exact .inl pauses
    · exact .inr rfl

theorem final_of_run (aloof : listeners.All fun _ => Aloof)
    (unattended : Unattended listeners before.1)
    (ended : run listeners allowance before = (.ok (some status), after)) : status ≠ .running := by
  have final {before : Session × World} (unattended : Unattended listeners before.1)
      (ended : boundary before = (.ok (some status), after)) : status ≠ .running := by
    have isFinal := (final_of_boundary unattended.eager ended).1
    rintro rfl
    cases isFinal
  induction allowance generalizing before with
  | zero => exact final unattended ended
  | succ allowance ih =>
    by_cases ready : before.1.Ready
    · rw [run_succ_of_ready ready] at ended
      obtain ⟨status', middle, advances, later⟩ := bind_eq_ok ended
      split at later
      · next pauses =>
        cases later
        rintro rfl
        cases pauses
      · exact ih (unattended.of_advance aloof advances) later
    · rw [run_of_not_ready ready] at ended
      exact final unattended ended

section behind

variable {fault : Fault} {left : Session × World} (aloof : listeners.All fun _ => Aloof)
  (unattended : Unattended listeners point.1)
include aloof unattended

theorem run_of_raised (raised : advance listeners false point = (.error fault, left)) (more : Nat) :
    run listeners (more + 1) point = (.error fault, left) := by
  rw [run_succ_of_ready ⟨running_of_raised raised, unattended.eager⟩, bind_apply,
    advance_of_unattended aloof unattended, raised]

/-- A run ends behind an instruction that does not leave the program running. -/
theorem run_of_ended (advances : advance listeners false point = (.ok status, left))
    (ended : status ≠ .running) (more : Nat) :
    run listeners (more + 1) point = (.ok (some status), left) := by
  cases finished : point.1.engine.finished with
  | true =>
    rw [advance_of_finished finished] at advances
    cases advances
    have unready : ¬ point.1.Ready := fun ready => by simp [ready.running] at finished
    rw [run_of_not_ready unready, boundary_apply, if_pos finished]
  | false =>
    rw [run_succ_of_ready ⟨finished, unattended.eager⟩, bind_apply,
      advance_of_unattended aloof unattended, advances]
    change (if status.isPause then return some status else run listeners more) left = _
    cases pauses : status.isPause with
    | true => rfl
    | false =>
      have same : left.1.engine.status = status :=
        (status_of_advance aloof unattended advances).resolve_left (by simp [pauses])
      have final : left.1.engine.finished = true := by
        rw [Engine.finished, same]
        cases status with
        | running => exact absurd rfl ended
        | halted | failed => rfl
        | pausedAtBreakpoint | pausedForStep => cases pauses
      have unready : ¬ left.1.Ready := fun ready => by simp [ready.running] at final
      change run listeners more left = _
      rw [run_of_not_ready unready, boundary_apply, if_pos final, same]

theorem run_of_running (advances : advance listeners false point = (.ok .running, left))
    (more : Nat) :
    run listeners (more + 1) point = run listeners more left ∧ left.1.Ready := by
  have same : left.1.engine.status = .running :=
    (status_of_advance aloof unattended advances).resolve_left (by simp [Status.isPause])
  have running : point.1.engine.finished = false := by
    cases finished : point.1.engine.finished with
    | false => rfl
    | true =>
      have halted : point.1.engine.status = .running := by
        rw [advance_of_finished finished] at advances
        exact Except.ok.inj (congrArg Prod.fst advances)
      rw [Engine.finished, halted] at finished
      cases finished
  refine ⟨?_, by rw [Engine.finished, same]; rfl, (unattended.of_advance aloof advances).eager⟩
  rw [run_succ_of_ready ⟨running, unattended.eager⟩, bind_apply,
    advance_of_unattended aloof unattended, advances]
  rfl

end behind

/-- Either a single instruction is all that a run does, or the run goes on behind it. -/
theorem stepOnce_ends_or_goes_on (aloof : listeners.All fun _ => Aloof)
    (idle : before.1.active = false) (unattended : Unattended listeners (enter before).1) :
    (∃ outcome, stepOnce listeners before = outcome ∧ outcome.1 ≠ .ok .running ∧
        ∀ more, resumeFor listeners (more + 1) before = outcome) ∨
      ∃ middle, stepOnce listeners before = (.ok .running, leave middle (some .running)) ∧
        Unattended listeners middle.1 ∧ middle.1.Ready ∧
          ∀ more, resumeFor listeners (more + 1) before = limited (run listeners more middle) := by
  rw [stepOnce_of_idle idle]
  simp only [resumeFor_of_idle idle]
  rcases advances : advance listeners false (enter before) with ⟨fault | status, middle⟩
  · refine .inl ⟨_, rfl, nofun, fun more => ?_⟩
    rw [run_of_raised aloof unattended advances]
    rfl
  · by_cases goesOn : status = .running
    · subst goesOn
      have ran := run_of_running aloof unattended advances
      exact .inr ⟨middle, rfl, unattended.of_advance aloof advances, (ran 0).2,
        fun more => by rw [(ran more).1]⟩
    · refine .inl ⟨_, rfl, fun running => goesOn (Except.ok.inj running), fun more => ?_⟩
      rw [run_of_ended aloof unattended advances goesOn]
      rfl

theorem stepRepeatedly_of_ended {outcome : Except Fault Status × Session × World}
    (stepped : stepOnce listeners before = outcome) (ended : outcome.1 ≠ .ok .running)
    (more : Nat) : stepRepeatedly listeners more before = outcome := by
  cases more with
  | zero => exact stepped
  | succ more =>
    rw [stepRepeatedly, bind_apply, stepped]
    obtain ⟨fault | status, middle⟩ := outcome
    · rfl
    · have goesOn : status ≠ .running := fun running => ended (congrArg _ running)
      change (if status = .running then _ else return status : Action World Status) middle = _
      rw [if_neg goesOn]
      rfl

theorem stepRepeatedly_of_running (stepped : stepOnce listeners before = (.ok .running, middle))
    (more : Nat) :
    stepRepeatedly listeners (more + 1) before = stepRepeatedly listeners more middle := by
  rw [stepRepeatedly, bind_apply, stepped]
  rfl

/-- The status that a session carries when it goes on is lost as soon as a call returns. -/
theorem limited_mark (result : Except Fault (Option Status)) (status' : Status) :
    limited (result, alter (mark status') middle) = (.ok status, after) ↔
      limited (result, middle) = (.ok status, after) := by
  cases result with
  | ok status? => exact Iff.rfl
  | error fault =>
    constructor
    · rintro ⟨⟩
    · rintro ⟨⟩

theorem resumeFor_leave_iff (aloof : listeners.All fun _ => Aloof)
    (active : middle.1.active = true) (status' : Status) {count : Nat} :
    resumeFor listeners count (leave middle (some status')) = (.ok status, after) ↔
      limited (run listeners count middle) = (.ok status, after) := by
  have blind : listeners.All fun _ => Overlooks (mark status') :=
    aloof.mono fun each => each.blind status'
  have entered : enter (leave middle (some status')) = alter (mark status') middle := by
    simp [enter, leave, alter, mark, active]
  have same := (Overlooks.run (mark_marginal status') blind (fun _ => rfl) (fun _ => rfl)
    count).same middle active
  rw [resumeFor_of_idle rfl, entered, same]
  exact limited_mark _ status'

theorem resume_eq_ok_iff (idle : before.1.active = false) {fuel : Nat} {status? : Option Status} :
    resume listeners fuel before = (.ok status?, after) ↔
      ∃ left, run listeners fuel (enter before) = (.ok status?, left) ∧
        after = leave left status? := by
  have performed : resume listeners fuel before = closed (run listeners fuel (enter before)) :=
    (Entry.resume fuel).perform_of_idle idle
  rw [performed]
  exact closed_eq_ok_iff

/-- The induction is on the number of calls that may follow the first. -/
theorem resumeFor_iff_stepRepeatedly (aloof : listeners.All fun _ => Aloof)
    (idle : before.1.active = false) (unattended : Unattended listeners (enter before).1)
    (more : Nat) :
    resumeFor listeners (more + 1) before = (.ok status, after) ↔
      stepRepeatedly listeners more before = (.ok status, after) := by
  induction more generalizing before with
  | zero =>
    rcases stepOnce_ends_or_goes_on aloof idle unattended with
      ⟨outcome, stepped, ended, same⟩ | ⟨middle, stepped, -, ready, same⟩
    · rw [same, stepRepeatedly_of_ended stepped ended]
    · rw [same, run, boundary_of_ready ready, stepRepeatedly, stepped]
      exact Iff.rfl
  | succ more ih =>
    rcases stepOnce_ends_or_goes_on aloof idle unattended with
      ⟨outcome, stepped, ended, same⟩ | ⟨middle, stepped, unattended', -, same⟩
    · rw [same, stepRepeatedly_of_ended stepped ended]
    · rw [same, stepRepeatedly_of_running stepped,
        ← resumeFor_leave_iff aloof unattended'.active .running]
      exact ih rfl ⟨rfl, unattended'.eager, unattended'.unasked⟩

/-- Where nobody is asked in step mode, and no callback stops the session, edits its engine or looks
at its status, a run comes to what single instructions come to that are executed until one does not
leave the program running, or the allowance is used up: the same status, of the call and of the
session, the same engine, and the same world. As the world may be a record of what the callbacks
were told and of what they answered, that includes the outputs, inputs and observations and their
order. -/
theorem resume_repeats {listeners : Listeners World} (aloof : listeners.All fun _ => Aloof)
    {before : Session × World} (eager : before.1.interrupted = false)
    (unasked : before.1.options.mode = .step → listeners.acknowledge = none) :
    (∀ more status after, resumeFor listeners (more + 1) before = (.ok status, after) ↔
      stepRepeatedly listeners more before = (.ok status, after)) ∧
    (∀ status after, (∃ fuel, resume listeners fuel before = (.ok (some status), after)) ↔
      status ≠ .running ∧ ∃ more, stepRepeatedly listeners more before = (.ok status, after)) := by
  have unattended : Unattended listeners (enter before).1 := ⟨rfl, eager, unasked⟩
  cases idle : before.1.active with
  | true =>
    have refused (more : Nat) : stepRepeatedly listeners more before = _ :=
      stepRepeatedly_of_ended (exclusively_of_active idle) (by rintro ⟨⟩) more
    constructor
    · intro more status after
      rw [refused, resumeFor, exclusively_of_active idle]
    · intro status after
      simp only [refused, resume, exclusively_of_active idle]
      constructor
      · rintro ⟨_, ⟨⟩⟩
      · rintro ⟨-, _, ⟨⟩⟩
  | false =>
    have limits {more : Nat} {status : Status} {after : Session × World} :
        resumeFor listeners (more + 1) before = (.ok status, after) ↔
          stepRepeatedly listeners more before = (.ok status, after) :=
      resumeFor_iff_stepRepeatedly aloof idle unattended more
    refine ⟨fun more status after => limits, fun status after => ⟨?_, ?_⟩⟩
    · rintro ⟨fuel, resumed⟩
      obtain ⟨left, ran, rfl⟩ := (resume_eq_ok_iff idle).mp resumed
      refine ⟨final_of_run aloof unattended ran, fuel, limits.mp ?_⟩
      rw [resumeFor_of_idle idle, run_of_le ran (by simp) (Nat.le_succ fuel)]
      rfl
    · rintro ⟨final, more, repeated⟩
      have resumed := limits.mpr repeated
      rw [resumeFor_of_idle idle] at resumed
      refine ⟨more + 1, (resume_eq_ok_iff idle).mpr ?_⟩
      rcases ran : run listeners (more + 1) (enter before) with ⟨fault | _ | status', left⟩
      · rw [ran] at resumed
        cases resumed
      · rw [ran] at resumed
        cases resumed
        exact absurd rfl final
      · rw [ran] at resumed
        cases resumed
        exact ⟨left, rfl, rfl⟩

theorem Listeners.logging_aloof : logging.All fun _ => Aloof where
  output value := .of_world (fun (events, input) => (.ok (), events ++ [.wrote value], input))
    fun _ => rfl
  input := .of_world (fun (events, input) =>
    (.ok input.head?.join, events ++ [.read input.head?.join], input.tail)) fun _ => rfl
  observer := by
    rintro observer ⟨⟩ observation
    exact .of_world (fun (events, input) => (.ok (), events ++ [.showed observation], input))
      fun _ => rfl
  acknowledge := by
    rintro acknowledge ⟨⟩ observation
    exact .of_world (fun (events, input) =>
      (.ok true, events ++ [.asked observation true], input)) fun _ => rfl

/-- In verbose mode, `,.#` reads a value, writes it, and pauses at the breakpoint, which is its last
instruction: in one run, or in three calls, with the same events. -/
theorem resume_repeats_logging :
    let fresh := (start ⟨#[.input, .output, .breakpoint], #[0, 1, 2], ",.#"⟩ { mode := .verbose }
      (Tape.blank 1), ([], [some 65]))
    ∃ paused, fresh.1.interrupted = false ∧
      resumeFor .logging 3 fresh = (.ok (.pausedAtBreakpoint 2), paused) ∧
      stepRepeatedly .logging 2 fresh = (.ok (.pausedAtBreakpoint 2), paused) ∧
      ∃ fuel, resume .logging fuel fresh = (.ok (some (.pausedAtBreakpoint 2)), paused) := by
  intro fresh
  have repeats := resume_repeats Listeners.logging_aloof
    (show fresh.1.interrupted = false from rfl) nofun
  have paused : resumeFor .logging 3 fresh = (.ok (.pausedAtBreakpoint 2), _) := rfl
  have repeated := (repeats.1 2 _ _).mp paused
  exact ⟨_, rfl, paused, repeated, (repeats.2 _ _).mpr ⟨nofun, 2, repeated⟩⟩

/-- Whoever is asked for a value looks at the status that the last call left. -/
def Listeners.prying : Listeners (List Event × List (Option Int)) where
  output value := note (.wrote value)
  input := do
    let value := if (← current).status = .running then some 65 else some 66
    note (.read value)
    return value

/-- Whoever is shown the state halts the engine. -/
def Listeners.meddling : Listeners Unit where
  output _ := return
  input := return none
  observer := some fun _ =>
    update fun session => { session with engine := { session.engine with status := .halted } }

/-- Callbacks that look at the status find another one in a run than in single instructions: behind
the breakpoint of `#+,.`, other values are read and written. Callbacks that edit the engine may end
a run where a single instruction has already been judged to go on. -/
theorem resume_differs_from_steps :
    (Listeners.prying.All (fun _ action =>
        ∀ state, ∃ result world, action state = (.ok result, state.1, world)) ∧
      let fresh := (start ⟨#[.breakpoint, .adjust 1, .input, .output], #[0, 1, 2, 3], "#+,."⟩ {}
        (Tape.blank 1), ([], []))
      ∃ paused resumed repeated,
        resume .prying 1 fresh = (.ok (some (.pausedAtBreakpoint 0)), paused) ∧
        paused.1.interrupted = false ∧ paused.1.options.mode = .silent ∧
        resume .prying 3 paused = (.ok (some .halted), resumed) ∧
        resumed.2.1 = [.read (some 66), .wrote 66] ∧
        stepRepeatedly .prying 2 paused = (.ok .halted, repeated) ∧
        repeated.2.1 = [.read (some 65), .wrote 65]) ∧
    (Listeners.meddling.All (fun _ action => ∀ state, ∃ result after,
        action state = (.ok result, after) ∧ after.1.interrupted = state.1.interrupted) ∧
      let fresh := (start ⟨#[.adjust 1, .adjust 1], #[0, 1], "++"⟩ { mode := .verbose }
        (Tape.blank 1), ())
      ∃ resumed repeated,
        resumeFor .meddling 1 fresh = (.ok .halted, resumed) ∧
        stepRepeatedly .meddling 0 fresh = (.ok .running, repeated)) := by
  constructor
  · constructor
    · exact
        { output := fun _ _ => ⟨_, _, rfl⟩
          input := fun _ => ⟨_, _, rfl⟩
          observer := by rintro _ ⟨⟩
          acknowledge := by rintro _ ⟨⟩ }
    · intro fresh
      let paused := (resume .prying 1 fresh).2
      exact ⟨paused, (resume .prying 3 paused).2, (stepRepeatedly .prying 2 paused).2, rfl, rfl,
        rfl, apply_of_result (by decide +kernel), by decide +kernel,
        apply_of_result (by decide +kernel), by decide +kernel⟩
  · constructor
    · exact
        { output := fun _ _ => ⟨_, _, rfl, rfl⟩
          input := fun _ => ⟨_, _, rfl, rfl⟩
          observer := by
            rintro observer ⟨⟩ observation state
            exact ⟨_, _, rfl, rfl⟩
          acknowledge := by rintro _ ⟨⟩ }
    · intro fresh
      exact ⟨(resumeFor .meddling 1 fresh).2, (stepRepeatedly .meddling 0 fresh).2, rfl, rfl⟩

end Brainfuck.Session
