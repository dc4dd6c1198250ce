import Brainfuck.Proofs.Command.Course
import Brainfuck.Proofs.Command.Result
import Brainfuck.Proofs.Session.Limits

/-! The allowance of a command. It bounds each burst of the session, but the bursts behind a
breakpoint get it anew. So it bounds the whole only if the first burst uses it up, or if it is
enough for all of them. -/

namespace Brainfuck.Command

open Session (enter leave Steady Ends)

variable {block : Block} {limit : Option (Value Int)} {count fuel : Nat}
  {before middle after final point state : Session × Console} {status : Status} {code : Nat}

theorem listeners_all {property : (Result : Type) → Action Result → Prop}
    (of_unchanged : ∀ {Result : Type} {action : Action Result},
      (∀ state, (action state).2.1 = state.1) → property Result action) :
    listeners.All property where
  output value := of_unchanged fun _ => rfl
  input := of_unchanged fun _ => rfl
  observer := by
    rintro observer ⟨⟩ observation
    exact of_unchanged (display_session observation)
  acknowledge := by
    rintro acknowledge ⟨⟩ observation
    exact of_unchanged fun _ => rfl

theorem listeners_discreet : listeners.Discreet :=
  listeners_all fun unchanged state _ => ⟨state.1.interrupted, unchanged state⟩

theorem listeners_patient : listeners.Patient :=
  listeners_all fun unchanged state eager => by rw [unchanged state]; exact eager

/-- Between its calls a session is idle, nobody has asked it to stop, and it always has an
answer. -/
structure Resting (block : Block) (session : Session) : Prop where
  idle : session.active = false
  eager : session.interrupted = false
  placed : session.engine.Placed block

theorem Resting.enter (resting : Resting block state.1) : Steady block (Session.enter state).1 :=
  ⟨rfl, resting.eager, resting.placed⟩

/-- What a burst leaves whose run left a state, with the status that ended it. -/
def closing (before : Session × Console) (status : Status) (left : Session × Console) :
    Session × Console :=
  let after := leave left (some status)
  (after.1, if before.1.engine.finished then after.2 else note after.2 after.1 status)

theorem burst_none (idle : before.1.active = false) (fuel : Nat) :
    burst none fuel before =
      match Session.run listeners fuel (enter before) with
      | (.ok (some status), left) => (.ok (some status), closing before status left)
      | (.ok none, left) => (.ok none, leave left none)
      | (.error fault, left) => (.error fault, leave left none) := by
  have accepted : Command.resume none fuel before =
      Session.closed (Session.run listeners fuel (enter before)) :=
    (Session.Entry.resume fuel).perform_of_idle idle
  rw [burst_apply, accepted]
  rcases Session.run listeners fuel (enter before) with ⟨fault | _ | status, left⟩ <;> rfl

theorem burst_given (idle : before.1.active = false) (count fuel : Nat) :
    burst (some (.given count)) fuel before =
      match Session.run listeners count (enter before) with
      | (.ok status?, left) =>
        let status := status?.getD .running
        (.ok (some status), closing before status left)
      | (.error fault, left) => (.error fault, leave left none) := by
  have accepted : Command.resume (some (.given count)) fuel before =
      Session.closed ((Session.Entry.resumeFor count).body listeners (enter before)) :=
    (Session.Entry.resumeFor count).perform_of_idle idle
  rw [burst_apply, accepted, Session.Entry.body, map_apply]
  rcases Session.run listeners count (enter before) with ⟨fault | status?, left⟩ <;> rfl

theorem bursts_none_iff (idle : before.1.active = false) :
    Bursts none before status after ↔
      ∃ fuel left, Session.run listeners fuel (enter before) = (.ok (some status), left) ∧
        after = closing before status left := by
  constructor
  · rintro ⟨fuel, ran⟩
    have ran := ran fuel (Nat.le_refl fuel)
    rw [burst_none idle] at ran
    rcases ended : Session.run listeners fuel (enter before) with ⟨fault | _ | status, left⟩ <;>
      rw [ended] at ran <;> cases ran
    exact ⟨fuel, left, ended, rfl⟩
  · rintro ⟨fuel, left, ended, rfl⟩
    have ran : burst none fuel before = (.ok (some status), closing before status left) := by
      rw [burst_none idle, ended]
    exact bursts_of_burst ran

theorem bursts_given_iff (idle : before.1.active = false) :
    Bursts (some (.given count)) before status after ↔
      ∃ status? left, Session.run listeners count (enter before) = (.ok status?, left) ∧
        status = status?.getD .running ∧ after = closing before status left := by
  constructor
  · rintro ⟨fuel, ran⟩
    have ran := ran fuel (Nat.le_refl fuel)
    rw [burst_given idle] at ran
    rcases ended : Session.run listeners count (enter before) with ⟨fault | status?, left⟩ <;>
      rw [ended] at ran <;> cases ran
    exact ⟨status?, left, rfl, rfl, rfl⟩
  · rintro ⟨status?, left, ended, rfl, rfl⟩
    exact ⟨0, fun fuel _ => by rw [burst_given idle, ended]⟩

namespace Bursts

theorem resting (ran : Bursts limit before status after) (rests : Resting block before.1) :
    Resting block after.1 ∧ before.1.engine.steps ≤ after.1.engine.steps := by
  obtain ⟨fuel, ran⟩ := ran
  have ran := ran fuel (Nat.le_refl fuel)
  rw [burst_apply] at ran
  rcases resumed : Command.resume limit fuel before with ⟨fault | _ | status, left⟩ <;>
    rw [resumed] at ran <;> cases ran
  obtain ⟨entry, performed⟩ := exists_entry resumed
  have idle : (entry.perform listeners before).2.1.active = false := entry.idle_perform rests.idle
  have eager := entry.eager_perform listeners_patient rests.idle rests.eager
  have placed := entry.placed_perform listeners_discreet rests.idle rests.placed
  rw [performed] at idle eager placed
  exact ⟨⟨idle, eager, placed.1⟩, placed.2⟩

theorem ends (ran : Bursts none before status after) (rests : Resting block before.1) :
    Ends before after status := by
  obtain ⟨fuel, left, ended, rfl⟩ := (bursts_none_iff rests.idle).mp ran
  cases Session.ends_of_run listeners_discreet listeners_patient rests.enter ended with
  | finished isFinal finished => exact .finished isFinal finished
  | paused isPause further => exact .paused isPause further

theorem not_running (rests : Resting block before.1) : ¬ Bursts none before .running after := by
  intro ran
  cases ran.ends rests with
  | finished isFinal => cases isFinal
  | paused isPause => cases isPause

end Bursts

/-- The session has executed as many instructions as it may, and would go on. -/
def Exhausts (count : Nat) (before point : Session × Console) : Prop :=
  Session.run listeners count (enter before) = (.ok none, point)

theorem Exhausts.spent (exhausts : Exhausts count before point) (rests : Resting block before.1) :
    point.1.engine.finished = false ∧
      point.1.engine.steps = before.1.engine.steps + count :=
  (Session.steps_of_exhausted listeners_discreet rests.enter exhausts :)

namespace Bursts

/-- A burst makes no difference between no limit and one that it does not use up. -/
theorem limited_or (ran : Bursts none before status after) (rests : Resting block before.1)
    (count : Nat) :
    (∃ point, Exhausts count before point) ∨ Bursts (some (.given count)) before status after := by
  obtain ⟨fuel, left, ended, rfl⟩ := (bursts_none_iff rests.idle).mp ran
  rcases Session.run_limited ended count with same | ⟨point, exhausts, -⟩
  · exact .inr ((bursts_given_iff rests.idle).mpr ⟨some status, left, same, rfl, rfl⟩)
  · exact .inl ⟨point, exhausts⟩

theorem unlimited_or (ran : Bursts (some (.given count)) before status after)
    (rests : Resting block before.1) :
    (∃ point, Exhausts count before point ∧ status = .running ∧
      after = closing before .running point) ∨ Bursts none before status after := by
  obtain ⟨status?, left, ended, rfl, rfl⟩ := (bursts_given_iff rests.idle).mp ran
  cases status? with
  | none => exact .inl ⟨left, ended, rfl, rfl⟩
  | some status => exact .inr ((bursts_none_iff rests.idle).mpr ⟨count, left, ended, rfl⟩)

theorem steps_le_add (ran : Bursts (some (.given count)) before status after)
    (rests : Resting block before.1) :
    after.1.engine.steps ≤ before.1.engine.steps + count := by
  obtain ⟨_, left, ended, -, rfl⟩ := (bursts_given_iff rests.idle).mp ran
  exact (Session.steps_le_add_of_run listeners_discreet listeners_patient rests.enter ended :)

/-- Without a limit a burst goes on from where the limit would have ended it. -/
theorem steps_ge (ran : Bursts none before status after) (rests : Resting block before.1)
    (exhausts : Exhausts count before point) :
    before.1.engine.steps + count ≤ after.1.engine.steps := by
  obtain ⟨fuel, left, ended, rfl⟩ := (bursts_none_iff rests.idle).mp ran
  rcases Session.run_limited ended count with same | ⟨point', exhausts', later⟩
  · cases exhausts.symm.trans same
  · cases exhausts.symm.trans exhausts'
    have steady := Steady.run listeners_discreet listeners_patient count (enter before) rests.enter
    rw [exhausts] at steady
    have further := Session.steps_le_of_run listeners_discreet steady later
    rwa [(exhausts.spent rests).2] at further

end Bursts

theorem session_of_question {index : Int} {agreed : Bool}
    (asked : question index after = (.ok agreed, final)) : final.1 = after.1 := by
  have same := question_session index after
  rwa [asked] at same

namespace Course

theorem steps_le (course : Course limit before code final) (rests : Resting block before.1) :
    before.1.engine.steps ≤ final.1.engine.steps := by
  induction course with
  | halted ran | failed ran | stopped ran | declined ran => exact (ran.resting rests).2
  | quit ran asked =>
    rw [session_of_question asked]
    exact (ran.resting rests).2
  | resumed ran asked rest ih =>
    obtain ⟨rests', further⟩ := ran.resting rests
    rw [← session_of_question asked] at rests' further
    exact Nat.le_trans further (ih rests')

/-- A course without a limit goes on from where the limit would have ended its first burst. -/
theorem steps_ge (course : Course none before code final) (rests : Resting block before.1)
    (exhausts : Exhausts count before point) :
    before.1.engine.steps + count ≤ final.1.engine.steps := by
  cases course with
  | halted ran | failed ran | stopped ran | declined ran => exact ran.steps_ge rests exhausts
  | quit ran asked =>
    rw [session_of_question asked]
    exact ran.steps_ge rests exhausts
  | resumed ran asked rest =>
    have further := ran.steps_ge rests exhausts
    obtain ⟨rests', -⟩ := ran.resting rests
    rw [← session_of_question asked] at rests' further
    exact Nat.le_trans further (rest.steps_le rests')

theorem steps_lt {index : Int} {agreed : Bool}
    (ran : Bursts none before (.pausedAtBreakpoint index) after) (rests : Resting block before.1)
    (asked : question index after = (.ok agreed, final)) :
    Resting block final.1 ∧ before.1.engine.steps < final.1.engine.steps := by
  rw [session_of_question asked]
  refine ⟨(ran.resting rests).1, ?_⟩
  cases ran.ends rests with
  | finished isFinal => cases isFinal
  | paused _ further => exact further

/-- A course that the limit is enough for is the same with the limit, unless the first burst uses
it up. -/
theorem limited_or (course : Course none before code final) (rests : Resting block before.1)
    (within : final.1.engine.steps ≤ before.1.engine.steps + count) :
    (∃ point, Exhausts count before point) ∨ Course (some (.given count)) before code final := by
  induction course with
  | halted ran => exact (ran.limited_or rests count).imp_right .halted
  | failed ran => exact (ran.limited_or rests count).imp_right .failed
  | stopped ran => exact absurd ran (Bursts.not_running rests)
  | declined ran => exact (ran.limited_or rests count).imp_right .declined
  | quit ran asked => exact (ran.limited_or rests count).imp_right (.quit · asked)
  | resumed ran asked rest ih =>
    obtain ⟨rests', further⟩ := steps_lt ran rests asked
    rcases ih rests' (by omega) with ⟨point, exhausts⟩ | rest'
    · have beyond := rest.steps_ge rests' exhausts
      omega
    · exact (ran.limited_or rests count).imp_right (.resumed · asked rest')

theorem steps_of_exhausts (course : Course (some (.given count)) before code final)
    (rests : Resting block before.1) (exhausts : Exhausts count before point) :
    final.1.engine.steps = before.1.engine.steps + count := by
  have running {status : Status} {after : Session × Console}
      (ran : Bursts (some (.given count)) before status after) :
      status = .running ∧ after = closing before .running point := by
    obtain ⟨status?, left, ended, rfl, rfl⟩ := (bursts_given_iff rests.idle).mp ran
    cases exhausts.symm.trans ended
    exact ⟨rfl, rfl⟩
  have spent := (exhausts.spent rests).2
  cases course with
  | stopped ran =>
    obtain ⟨-, rfl⟩ := running ran
    exact spent
  | halted ran | failed ran | declined ran | quit ran _ | resumed ran _ _ =>
    cases (running ran).1

/-- A course within the limit is the same without it, unless the first burst uses it up. -/
theorem unlimited_or (course : Course (some (.given count)) before code final)
    (rests : Resting block before.1)
    (within : final.1.engine.steps ≤ before.1.engine.steps + count) :
    (∃ point, Exhausts count before point) ∨ Course none before code final := by
  have burst {before after : Session × Console} {status : Status} (rests : Resting block before.1)
      (ran : Bursts (some (.given count)) before status after) :
      (∃ point, Exhausts count before point) ∨ Bursts none before status after :=
    (ran.unlimited_or rests).imp_left fun ⟨point, exhausts, _⟩ => ⟨point, exhausts⟩
  induction course with
  | halted ran => exact (burst rests ran).imp_right .halted
  | failed ran => exact (burst rests ran).imp_right .failed
  | stopped ran =>
    rcases burst rests ran with exhausted | ran'
    · exact .inl exhausted
    · exact absurd ran' (Bursts.not_running rests)
  | declined ran => exact (burst rests ran).imp_right .declined
  | quit ran asked => exact (burst rests ran).imp_right (.quit · asked)
  | resumed ran asked rest ih =>
    rcases burst rests ran with exhausted | ran'
    · exact .inl exhausted
    · obtain ⟨rests', further⟩ := steps_lt ran' rests asked
      rcases ih rests' (by omega) with ⟨point, exhausts⟩ | rest'
      · have spent := rest.steps_of_exhausts rests' exhausts
        omega
      · exact .inr (.resumed ran' asked rest')

/-- Without a limit the command only ends where the program does, or where the operator stops
it. -/
theorem ends (course : Course none before code final) (rests : Resting block before.1) :
    code ≠ 3 ∧ (final.1.engine.finished = true ∨ final.1.status.isPause = true) := by
  induction course with
  | halted ran =>
    cases ran.ends rests with
    | finished _ finished => exact ⟨by decide, .inl finished⟩
    | paused isPause => cases isPause
  | failed ran =>
    cases ran.ends rests with
    | finished _ finished => exact ⟨by decide, .inl finished⟩
    | paused isPause => cases isPause
  | stopped ran => exact absurd ran (Bursts.not_running rests)
  | declined ran =>
    obtain ⟨_, _, _, rfl⟩ := (bursts_none_iff rests.idle).mp ran
    exact ⟨by decide, .inr rfl⟩
  | quit ran asked =>
    rw [session_of_question asked]
    obtain ⟨_, _, _, rfl⟩ := (bursts_none_iff rests.idle).mp ran
    exact ⟨by decide, .inr rfl⟩
  | resumed ran asked rest ih => exact ih (steps_lt ran rests asked).1

end Course

/-- The command ends when a number of instructions has been executed at the latest. It exits with
3 exactly if it has executed as many, and neither the program has come to its end nor has the
operator stopped it. -/
def Bounded (count : Nat) (state : Session × Console) : Prop :=
  ∃ code final, Returns (some (.given count)) state code final ∧
    final.1.engine.steps ≤ count ∧
    (code = 3 ↔ final.1.engine.steps = count ∧ final.1.engine.finished = false ∧
      final.1.status.isPause = false)

theorem bounded_of_exhausts (rests : Resting block state.1) (fresh : state.1.engine.steps = 0)
    (exhausts : Exhausts count state point) : Bounded count state := by
  obtain ⟨running, spent⟩ := exhausts.spent rests
  rw [fresh, Nat.zero_add] at spent
  have ran : Bursts (some (.given count)) state .running (closing state .running point) :=
    (bursts_given_iff rests.idle).mpr ⟨none, point, exhausts, rfl, rfl⟩
  exact ⟨3, _, returns_iff_course.mpr (.stopped ran), Nat.le_of_eq spent,
    iff_of_true rfl ⟨spent, running, rfl⟩⟩

/-- A limited call returns that the program is still running exactly if it has used up its
allowance. -/
theorem exists_exhausts_iff (rests : Resting block state.1) :
    (∃ point, Exhausts count state point) ↔
      ∃ after, Session.resumeFor listeners count state = (.ok .running, after) := by
  constructor
  · rintro ⟨point, exhausts⟩
    refine ⟨leave point (some .running), ?_⟩
    rw [Session.resumeFor_of_idle rests.idle, exhausts]
    rfl
  · rintro ⟨after, running⟩
    rw [Session.resumeFor_of_idle rests.idle] at running
    rcases ended : Session.run listeners count (enter state) with ⟨fault | _ | status, left⟩
    · rw [ended] at running
      cases running
    · exact ⟨left, ended⟩
    · rw [ended] at running
      cases running
      have ran := (bursts_none_iff rests.idle).mpr ⟨count, left, ended, rfl⟩
      exact absurd ran (Bursts.not_running rests)

/-- A session that has executed nothing yet is bounded by an allowance exactly if its first burst
uses it up, or if without a limit it ends within the allowance. -/
theorem bounded_iff (rests : Resting block state.1) (fresh : state.1.engine.steps = 0) :
    Bounded count state ↔
      (∃ point, Exhausts count state point) ∨
        ∃ code final, Returns none state code final ∧ final.1.engine.steps ≤ count := by
  constructor
  · rintro ⟨code, final, returns, within, -⟩
    have course := returns_iff_course.mp returns
    rcases course.unlimited_or rests (by omega) with exhausted | course'
    · exact .inl exhausted
    · exact .inr ⟨code, final, returns_iff_course.mpr course', within⟩
  · rintro (⟨point, exhausts⟩ | ⟨code, final, returns, within⟩)
    · exact bounded_of_exhausts rests fresh exhausts
    · have course := returns_iff_course.mp returns
      have within' : final.1.engine.steps ≤ state.1.engine.steps + count := by omega
      rcases course.limited_or rests within' with ⟨point, exhausts⟩ | course'
      · exact bounded_of_exhausts rests fresh exhausts
      · obtain ⟨other, ended⟩ := course.ends rests
        refine ⟨code, final, returns_iff_course.mpr course', within, iff_of_false other ?_⟩
        rintro ⟨-, running, goesOn⟩
        simp [running, goesOn] at ended

/-- Where the command breaks its bound, its first call has paused at a breakpoint, or it has
raised. -/
theorem pauses_or_raises_of_not_bounded (rests : Resting block state.1)
    (fresh : state.1.engine.steps = 0) (unbounded : ¬ Bounded count state) :
    (state.1.options.breakpoints = true ∧ ∃ index after,
        Session.resumeFor listeners count state = (.ok (.pausedAtBreakpoint index), after)) ∨
      ∃ fault after, Session.resumeFor listeners count state = (.error fault, after) := by
  rw [bounded_iff rests fresh, not_or] at unbounded
  rcases ended : Session.run listeners count (enter state) with ⟨fault | _ | status, left⟩
  · exact .inr ⟨fault, leave left none, by rw [Session.resumeFor_of_idle rests.idle, ended]; rfl⟩
  · exact absurd ⟨left, ended⟩ unbounded.1
  · have ran : Bursts none state status (closing state status left) :=
      (bursts_none_iff rests.idle).mpr ⟨count, left, ended, rfl⟩
    have within : (closing state status left).1.engine.steps ≤ count := by
      have limited : Bursts (some (.given count)) state status (closing state status left) :=
        (bursts_given_iff rests.idle).mpr ⟨some status, left, ended, rfl, rfl⟩
      have kept := limited.steps_le_add rests
      omega
    have unended {code : Nat} {final : Session × Console} (course : Course none state code final)
        (same : final.1 = (closing state status left).1) : False :=
      unbounded.2 ⟨code, final, returns_iff_course.mpr course, same ▸ within⟩
    cases status with
    | pausedAtBreakpoint index =>
      have enabled := Session.breakpoints_of_run listeners_discreet listeners_patient rests.enter
        ended
      exact .inl ⟨enabled, index, leave left (some (.pausedAtBreakpoint index)),
        by rw [Session.resumeFor_of_idle rests.idle, ended]; rfl⟩
    | running => exact absurd ran (Bursts.not_running rests)
    | halted => exact (unended (.halted ran) rfl).elim
    | failed underflow => exact (unended (.failed ran) rfl).elim
    | pausedForStep index => exact (unended (.declined ran) rfl).elim

/-- The console at which a program is run, once it was built. -/
def opening (settings : Settings) (level : Level) (clock : String) (stdin : ByteArray)
    (source : String) (program : Program) : Except Fault Console := do
  let console ← connect settings (load { level, clock, bytes := stdin.toList } source).2
  return console.log .info s!"running {settings.file} ({program.size} instructions)"

/-- A command runs a program that was built: it drives the session of the program from a state. -/
structure Launches (lookUp : String → Entry) (arguments : List String) (stdin : ByteArray)
    (clock : String) (settings : Settings) (state : Session × Console) : Prop where
  read : Settings.ofArguments arguments = .ok settings
  unexpanded : settings.expand = false
  opened : ∃ contents source program level options,
    lookUp settings.file = .file contents ∧ sourceOfFile .utf8 contents = .ok source ∧
      build source = .ok program ∧ settings.level = .ok level ∧
      settings.options = .ok options ∧ state.1 = Session.start program options ∧
      opening settings level clock stdin source program = .ok state.2

/-- How the command ends that has driven a session. -/
def conclude : Except Fault (Option Nat) × Session × Console → Option Outcome
  | (.ok none, _) => none
  | (.ok (some code), (_, console)) => some (finish console (.exit code))
  | (.error fault, (_, console)) => some (finish console (.raised fault))

section launching

variable {lookUp : String → Entry} {arguments : List String} {stdin : ByteArray} {clock : String}
  {settings : Settings}

theorem Launches.run_eq (launches : Launches lookUp arguments stdin clock settings state)
    (fuel : Nat) :
    run lookUp arguments stdin clock fuel =
      conclude (drive settings.maxSteps fuel fuel state) := by
  obtain ⟨contents, source, program, level, options, found, decoded, built, leveled, framed,
    started, opened⟩ := launches.opened
  let fresh : Console := { level, clock, bytes := stdin.toList }
  have loaded : load fresh source = (.ok program, (load fresh source).2) :=
    Prod.ext ((load_fst fresh source).trans built) rfl
  have executed : run lookUp arguments stdin clock fuel =
      execute settings program (load fresh source).2 fuel := by
    simp only [run, launches.read, leveled, found, process, decoded]
    rw [loaded]
    simp only [launches.unexpanded, Bool.false_eq_true, if_false]
  rw [opening] at opened
  rcases connected : connect settings (load fresh source).2 with fault | joined
  · rw [connected] at opened
    cases opened
  · rw [connected] at opened
    have reached : (Session.start program options,
        joined.log .info s!"running {settings.file} ({program.size} instructions)") = state :=
      Prod.ext started.symm (Except.ok.inj opened)
    rw [executed, execute, framed, connected]
    dsimp only
    rw [reached]
    rcases drive settings.maxSteps fuel fuel state with ⟨fault | _ | code, final⟩ <;> rfl

theorem Launches.resting (launches : Launches lookUp arguments stdin clock settings state) :
    (∃ block, Resting block state.1) ∧ state.1.engine.steps = 0 := by
  obtain ⟨contents, source, program, level, options, -, -, built, -, -, started, -⟩ :=
    launches.opened
  obtain ⟨tokens, -, made⟩ := build_eq_ok_iff.mp built
  obtain ⟨block, placed⟩ := Session.start_placed made options Tape.defaultSize
  rw [started]
  exact ⟨⟨block, rfl, rfl, placed⟩, rfl⟩

theorem Launches.breakpoints_eq
    (launches : Launches lookUp arguments stdin clock settings state) :
    state.1.options.breakpoints = settings.breakpoints := by
  obtain ⟨_, _, _, _, options, -, -, -, -, framed, started, -⟩ := launches.opened
  rw [started]
  change options.breakpoints = settings.breakpoints
  unfold Settings.options at framed
  split at framed
  · cases framed
    rfl
  · cases framed

/-- A command with an allowance drives a session. It keeps to the allowance exactly if the first
burst of the session uses it up, or if without it the session comes to its end within it. So it
can only break it where the first call pauses at a breakpoint, or where it raises. -/
theorem run_bounded_iff (launches : Launches lookUp arguments stdin clock settings state)
    (limited : settings.maxSteps = some (.given count)) :
    (∀ fuel, run lookUp arguments stdin clock fuel =
      conclude (drive (some (.given count)) fuel fuel state)) ∧
    (Bounded count state ↔
      (∃ after, Session.resumeFor listeners count state = (.ok .running, after)) ∨
        ∃ code final, Returns none state code final ∧ final.1.engine.steps ≤ count) ∧
    (¬ Bounded count state →
      (settings.breakpoints = true ∧ ∃ index after,
        Session.resumeFor listeners count state = (.ok (.pausedAtBreakpoint index), after)) ∨
      ∃ fault after, Session.resumeFor listeners count state = (.error fault, after)) := by
  obtain ⟨⟨block, rests⟩, fresh⟩ := launches.resting
  refine ⟨fun fuel => limited ▸ launches.run_eq fuel, ?_, fun unbounded => ?_⟩
  · rw [bounded_iff rests fresh, exists_exhausts_iff rests]
  · rw [← launches.breakpoints_eq]
    exact pauses_or_raises_of_not_bounded rests fresh unbounded

end launching

/-- The settings of a command line with an allowance of two instructions and nothing to read. -/
def brief : Settings :=
  { file := "brief.bf", maxSteps := some (.given 2), input := some (.given "") }

theorem load_of_quiet {console : Console} (quiet : Level.debug.rank < console.level.rank)
    (source : String) : (load console source).2 = console := by
  have dropped (message : String) : console.log .debug message = console :=
    if_neg (Nat.not_le_of_lt quiet)
  unfold load
  simp only [dropped]
  split
  · rfl
  · split
    · rfl
    · split <;> rfl

theorem launches_brief {source : String} {program : Program}
    (decoded : sourceOfFile .utf8 source.toUTF8 = .ok source) (built : build source = .ok program) :
    Launches (fun _ => .file source.toUTF8) ["brief.bf", "--max-steps", "2", "--input="] "".toUTF8
      "" brief (Session.start program {}, { clock := "", feed := some {}, bytes := [] }) where
  read := by decide +kernel
  unexpanded := rfl
  opened := by
    have empty : "".toUTF8.toList = [] := by decide +kernel
    refine ⟨source.toUTF8, source, program, .warning, {}, rfl, decoded, built, by decide +kernel,
      rfl, rfl, ?_⟩
    rw [opening, empty, load_of_quiet (by decide)]
    rfl

/-- The loop of `+[#]` would go on for ever, but it does not come to its first breakpoint. -/
theorem run_bounded_iff_loop :
    ∃ state,
      Launches (fun _ => .file "+[#]".toUTF8) ["brief.bf", "--max-steps", "2", "--input="]
          "".toUTF8 "" brief state ∧
        brief.maxSteps = some (.given 2) ∧ Bounded 2 state := by
  let program : Program :=
    ⟨#[.adjust 1, .jumpIfZero 3, .breakpoint, .jumpIfNonzero 1], #[0, 1, 2, 3], "+[#]"⟩
  have decoded : sourceOfFile .utf8 "+[#]".toUTF8 = .ok "+[#]" :=
    sourceOfFile_eq (by decide +kernel) rfl
  have built : build "+[#]" = .ok program := by cbv
  have launches := launches_brief decoded built
  have exhausts : ∃ after, Session.resumeFor listeners 2 (Session.start program {},
      { clock := "", feed := some {}, bytes := [] }) = (.ok .running, after) := ⟨_, rfl⟩
  exact ⟨_, launches, rfl, (run_bounded_iff launches rfl).2.1.mpr (.inl exhausts)⟩

/-- Behind its breakpoint `#..` writes twice. With an allowance of two instructions it comes to its
end after three. -/
theorem not_bounded_behind_breakpoint :
    ∃ state,
      Launches (fun _ => .file "#..".toUTF8) ["brief.bf", "--max-steps", "2", "--input="]
          "".toUTF8 "" brief state ∧
        brief.maxSteps = some (.given 2) ∧
        (∃ final, Returns (some (.given 2)) state 0 final ∧ final.1.engine.steps = 3) ∧
        ¬ Bounded 2 state := by
  let program : Program := ⟨#[.breakpoint, .output, .output], #[0, 1, 2], "#.."⟩
  have decoded : sourceOfFile .utf8 "#..".toUTF8 = .ok "#.." :=
    sourceOfFile_eq (by decide +kernel) rfl
  have built : build "#.." = .ok program := by cbv
  let opened : Session × Console :=
    (Session.start program {}, { clock := "", feed := some {}, bytes := [] })
  have told : (drive (some (.given 2)) 4 4 opened).1.toOption = some (some 0) ∧
      (drive (some (.given 2)) 4 4 opened).2.1.engine.steps = 3 := by
    decide +kernel
  have launches : Launches _ _ _ _ _ opened := launches_brief decoded built
  generalize opened = state at told launches
  rcases driven : drive (some (.given 2)) 4 4 state with ⟨fault | code?, final⟩
  · rw [driven] at told
    cases told.1
  · rw [driven] at told
    obtain ⟨code, three⟩ : _ ∧ final.1.engine.steps = 3 := told
    cases code
    have returns := returns_iff_course.mpr (course_of_drive driven)
    refine ⟨state, launches, rfl, ⟨final, returns, three⟩, ?_⟩
    rintro ⟨_, final', returns', within, -⟩
    obtain ⟨-, rfl⟩ := returns.unique returns'
    omega

end Brainfuck.Command
