import Brainfuck.Proofs.Session.Settling

namespace Brainfuck.Session

variable {World : Type} {listeners : Listeners World} {before after point : Session × World}
  {status : Status} {block : Block} {allowance : Nat}

/-- Callbacks that do not ask the session to stop. -/
def Listeners.Patient (listeners : Listeners World) : Prop :=
  listeners.All fun _ => Maintains (·.interrupted = false)

theorem patient_congruence : UpdateCongruence fun Result (action _ : Action World Result) =>
    Maintains (·.interrupted = false) action where
  toCongruence := Maintains.congruence _
  replace _ _ eager := eager
  grant _ _ := rfl

/-- A session that executes instructions, that always has an answer and that nobody stops. -/
structure Steady (block : Block) (session : Session) : Prop where
  active : session.active = true
  eager : session.interrupted = false
  placed : session.engine.Placed block

theorem Steady.advance (discreet : listeners.Discreet) (patient : listeners.Patient)
    (blocking : Bool) :
    Maintains (Steady block) (Session.advance listeners blocking) := by
  rintro state ⟨active, eager, placed⟩
  have sound := Sound.advance discreet blocking state ⟨active, placed, Nat.zero_le _⟩
  exact ⟨sound.active, patient_congruence.replaces.advance patient.related blocking state eager,
    sound.placed⟩

theorem Steady.of_advance {blocking : Bool} (steady : Steady block before.1)
    (discreet : listeners.Discreet) (patient : listeners.Patient)
    (advances : Session.advance listeners blocking before = (.ok status, after)) :
    Steady block after.1 := by
  have left := Steady.advance discreet patient blocking before steady
  rwa [advances] at left

theorem Steady.run (discreet : listeners.Discreet) (patient : listeners.Patient)
    (allowance : Nat) : Maintains (Steady block) (Session.run listeners allowance) := by
  rintro state ⟨active, eager, placed⟩
  have sound := Sound.run discreet allowance state ⟨active, placed, Nat.zero_le _⟩
  exact ⟨sound.active, patient_congruence.run patient.related allowance state eager, sound.placed⟩

/-- A run that comes to its end is finished, or it has paused behind an instruction. -/
inductive Ends (before after : Session × World) : Status → Prop where
  | finished {status : Status} (isFinal : status.isFinal = true)
      (finished : after.1.engine.finished = true) : Ends before after status
  | paused {status : Status} (isPause : status.isPause = true)
      (further : before.1.engine.steps < after.1.engine.steps) : Ends before after status

theorem final_of_boundary (eager : before.1.interrupted = false)
    (ended : boundary before = (.ok (some status), after)) :
    status.isFinal = true ∧ after.1.engine.finished = true := by
  rw [boundary_apply, eager] at ended
  split at ended
  · next finished =>
    cases ended
    exact ⟨finished, finished⟩
  · cases ended

theorem ends_of_boundary (eager : before.1.interrupted = false)
    (ended : boundary before = (.ok (some status), after)) : Ends before after status :=
  have final := final_of_boundary eager ended
  .finished final.1 final.2

theorem ends_of_run (discreet : listeners.Discreet) (patient : listeners.Patient)
    (steady : Steady block before.1)
    (ended : run listeners allowance before = (.ok (some status), after)) :
    Ends before after status := by
  induction allowance generalizing before with
  | zero => exact ends_of_boundary steady.eager ended
  | succ allowance ih =>
    by_cases ready : before.1.Ready
    · rw [run_succ_of_ready ready] at ended
      obtain ⟨status', middle, advances, later⟩ := bind_eq_ok ended
      obtain ⟨engine, advanced⟩ := exists_advanced discreet steady.active ready.running advances
      cases pauses : status'.isPause with
      | true =>
        rw [pauses] at later
        cases later
        refine .paused pauses ?_
        rw [advanced.steps_eq steady.placed ready.running]
        · exact Nat.lt_succ_self _
        · intro underflow failed
          rw [advanced.failed underflow (advanced.engine_eq ▸ failed)] at pauses
          cases pauses
      | false =>
        rw [pauses] at later
        have steady' := steady.of_advance discreet patient advances
        have more := advanced.steps_le steady.placed
        cases ih steady' later with
        | finished isFinal finished => exact .finished isFinal finished
        | paused isPause further => exact .paused isPause (by omega)
    · rw [run_of_not_ready ready] at ended
      exact ends_of_boundary steady.eager ended

theorem breakpoints_of_advance {blocking : Bool} {broken : Int} (discreet : listeners.Discreet)
    (steady : Steady block before.1)
    (paused : advance listeners blocking before = (.ok (.pausedAtBreakpoint broken), after)) :
    before.1.options.breakpoints = true := by
  cases finished : before.1.engine.finished with
  | true =>
    rw [advance_of_finished finished] at paused
    have status : before.1.engine.status = .pausedAtBreakpoint broken :=
      Except.ok.inj (congrArg Prod.fst paused)
    rw [Engine.finished, status] at finished
    cases finished
  | false =>
    cases settled_of_advance discreet steady.active steady.placed finished paused with
    | broken enabled _ => exact enabled

/-- A run only pauses at breakpoints if it pays attention to them. -/
theorem breakpoints_of_run {broken : Int} (discreet : listeners.Discreet)
    (patient : listeners.Patient) (steady : Steady block before.1)
    (ended : run listeners allowance before = (.ok (some (.pausedAtBreakpoint broken)), after)) :
    before.1.options.breakpoints = true := by
  have unended {before : Session × World} (steady : Steady block before.1) :
      boundary before ≠ (.ok (some (.pausedAtBreakpoint broken)), after) := by
    intro ended
    cases (final_of_boundary steady.eager ended).1
  induction allowance generalizing before with
  | zero => exact absurd ended (unended steady)
  | succ allowance ih =>
    by_cases ready : before.1.Ready
    · rw [run_succ_of_ready ready] at ended
      obtain ⟨status, middle, advances, later⟩ := bind_eq_ok ended
      split at later
      · cases later
        exact breakpoints_of_advance discreet steady advances
      · obtain ⟨engine, advanced⟩ := exists_advanced discreet steady.active ready.running advances
        obtain ⟨interrupted, left⟩ := advanced.left
        have steady' := steady.of_advance discreet patient advances
        have enabled := ih steady' later
        rwa [left] at enabled
    · rw [run_of_not_ready ready] at ended
      exact absurd ended (unended steady)

theorem steps_of_exhausted (discreet : listeners.Discreet) (steady : Steady block before.1)
    (exhausted : run listeners allowance before = (.ok none, point)) :
    point.1.engine.finished = false ∧
      point.1.engine.steps = before.1.engine.steps + allowance := by
  obtain ⟨completed, ready⟩ := run_eq_none_iff.mp exhausted
  have further := completed.further discreet steady.active steady.placed
  exact ⟨ready.running, (further.steps ready.running).2⟩

theorem engine_of_boundary {status? : Option Status}
    (ended : boundary before = (.ok status?, after)) : after.1.engine = before.1.engine := by
  rw [boundary_apply] at ended
  split at ended
  · cases ended
    rfl
  · split at ended <;> cases ended <;> rfl

/-- A run executes no more instructions than its allowance. -/
theorem steps_le_add_of_run {status? : Option Status} (discreet : listeners.Discreet)
    (patient : listeners.Patient) (steady : Steady block before.1)
    (ended : run listeners allowance before = (.ok status?, after)) :
    after.1.engine.steps ≤ before.1.engine.steps + allowance := by
  induction allowance generalizing before with
  | zero => exact Nat.le_of_eq (congrArg Engine.steps (engine_of_boundary ended))
  | succ allowance ih =>
    by_cases ready : before.1.Ready
    · rw [run_succ_of_ready ready] at ended
      obtain ⟨status, middle, advances, later⟩ := bind_eq_ok ended
      obtain ⟨engine, advanced⟩ := exists_advanced discreet steady.active ready.running advances
      have one := advanced.steps_le_succ steady.placed
      split at later
      · cases later
        omega
      · have steady' := steady.of_advance discreet patient advances
        have more := ih steady' later
        omega
    · rw [run_of_not_ready ready] at ended
      rw [engine_of_boundary ended]
      exact Nat.le_add_right _ _

theorem steps_le_of_run {result : Except Fault (Option Status)} (discreet : listeners.Discreet)
    (steady : Steady block before.1) (ended : run listeners allowance before = (result, after)) :
    before.1.engine.steps ≤ after.1.engine.steps := by
  have sound : Sound block before.1.engine.steps before.1 :=
    ⟨steady.active, steady.placed, Nat.le_refl _⟩
  have left := Sound.run discreet allowance before sound
  rw [ended] at left
  exact left.steps

theorem Entry.eager_perform (patient : listeners.Patient) (idle : before.1.active = false)
    (eager : before.1.interrupted = false) (entry : Entry) :
    (entry.perform listeners before).2.1.interrupted = false := by
  have runs (allowance : Nat) := patient_congruence.run patient.related allowance
  have left : Maintains (·.interrupted = false) (entry.body listeners) := by
    cases entry with
    | resume fuel => exact runs fuel
    | resumeFor count => exact (runs count).bind fun _ => .pure _
    | stepOnce =>
      exact (patient_congruence.replaces.advance patient.related false).bind fun _ => .pure _
  rw [entry.perform_of_idle idle, closed_interrupted]
  exact left (enter before) eager

end Brainfuck.Session
