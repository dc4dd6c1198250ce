import Brainfuck.Proofs.Stepping

namespace Brainfuck.Machine

/-- A number of calls of `step`, each of which returns. -/
inductive Steps : Nat → Machine → Machine → Prop where
  | refl (machine : Machine) : Steps 0 machine machine
  | next {count : Nat} {machine middle final : Machine} {status : Status}
      (first : machine.step = (.ok status, middle)) (rest : Steps count middle final) :
      Steps (count + 1) machine final

variable {count more fuel : Nat} {machine middle final other : Machine}

theorem Steps.trans (first : Steps count machine middle) (second : Steps more middle final) :
    Steps (count + more) machine final := by
  induction first with
  | refl => simpa using second
  | next step rest ih =>
    rw [Nat.add_right_comm]
    exact .next step (ih second)

theorem Steps.rest_of_step {status : Status} (whole : Steps (count + 1) machine final)
    (step : machine.step = (.ok status, middle)) : Steps count middle final := by
  cases whole with
  | next step' rest =>
    rw [step] at step'
    cases step'
    exact rest

theorem Steps.unique (first : Steps count machine final) (second : Steps count machine other) :
    final = other := by
  induction first with
  | refl => cases second; rfl
  | next step rest ih =>
    exact ih (second.rest_of_step step)

theorem Steps.of_finished (steps : Steps count machine final)
    (finished : machine.engine.finished = true) : final = machine := by
  induction steps with
  | refl => rfl
  | next step rest ih =>
    rw [step_of_finished finished] at step
    cases step
    exact ih finished

theorem Steps.stay (finished : machine.engine.finished = true) (count : Nat) :
    Steps count machine machine := by
  induction count with
  | zero => exact .refl machine
  | succ count ih => exact .next (step_of_finished finished) ih

theorem Steps.final_unique (first : Steps count machine final) (second : Steps more machine other)
    (finished : final.engine.finished = true) (finished' : other.engine.finished = true) :
    final = other := by
  rcases Nat.le_total count more with bound | bound
  · obtain ⟨extra, rfl⟩ := Nat.exists_eq_add_of_le bound
    exact (first.trans (.stay finished extra)).unique second
  · obtain ⟨extra, rfl⟩ := Nat.exists_eq_add_of_le bound
    exact first.unique (second.trans (.stay finished' extra))

theorem Steps.tail {status : Status} (whole : Steps count machine final)
    (step : machine.step = (.ok status, middle)) (running : machine.engine.finished = false)
    (finished : final.engine.finished = true) : ∃ fewer < count, Steps fewer middle final := by
  cases whole with
  | refl =>
    rw [finished] at running
    cases running
  | next step' rest => exact ⟨_, Nat.lt_succ_self _, (Steps.next step' rest).rest_of_step step⟩

/-- What is left of a chain to the end after a chain that does not reach it. -/
theorem Steps.remainder (first : Steps count machine middle) (whole : Steps more machine final)
    (running : middle.engine.finished = false) (finished : final.engine.finished = true) :
    ∃ fewer ≤ more, Steps fewer middle final := by
  induction first generalizing more with
  | refl => exact ⟨more, Nat.le_refl more, whole⟩
  | @next count start middle last status step rest ih =>
    cases ended : start.engine.finished with
    | true =>
      rw [step_of_finished ended] at step
      cases step
      rw [rest.of_finished ended, ended] at running
      cases running
    | false =>
      obtain ⟨fewer, less, whole'⟩ := whole.tail step ended finished
      obtain ⟨left, bound, remaining⟩ := ih whole' running
      exact ⟨left, by omega, remaining⟩

theorem run_of_finished (finished : machine.engine.finished = true) (fuel : Nat) :
    run fuel machine = (.ok true, machine) := by
  cases fuel with
  | zero =>
    change (Except.ok machine.engine.finished, machine) = _
    rw [finished]
  | succ fuel =>
    change (if machine.engine.finished = true then return true else _ : Action Bool) machine = _
    rw [if_pos finished]
    rfl

theorem run_succ (running : machine.engine.finished = false) (fuel : Nat) :
    run (fuel + 1) machine = (step >>= fun _ => run fuel) machine := by
  change (if machine.engine.finished = true then return true else _ : Action Bool) machine = _
  rw [if_neg (by simp [running])]

theorem runToEnd_apply (fuel : Nat) (machine : Machine) :
    runToEnd fuel machine =
      match run fuel machine with
      | (.ok true, after) => (.ok (some after.engine.status), after)
      | (.ok false, after) => (.ok none, after)
      | (.error fault, after) => (.error fault, after) := by
  rw [runToEnd, bind_apply]
  obtain ⟨result, after⟩ := run fuel machine
  cases result with
  | error fault => rfl
  | ok finished => cases finished <;> rfl

theorem Steps.run (steps : Steps count machine final) (finished : final.engine.finished = true)
    (enough : count ≤ fuel) : Machine.run fuel machine = (.ok true, final) := by
  induction steps generalizing fuel with
  | refl => exact run_of_finished finished fuel
  | @next count start middle final status step rest ih =>
    cases ended : start.engine.finished with
    | true =>
      rw [step_of_finished ended] at step
      cases step
      rw [rest.of_finished ended, run_of_finished ended]
    | false =>
      obtain ⟨fuel, rfl⟩ : ∃ less, fuel = less + 1 := ⟨fuel - 1, by omega⟩
      rw [run_succ ended, bind_apply, step]
      exact ih finished (by omega)

/-- What `run` leaves without a fault is the end of a chain; a machine that has
finished early has stayed as it was. -/
theorem steps_of_run {ended : Bool} (ran : Machine.run fuel machine = (.ok ended, final)) :
    Steps fuel machine final ∧ final.engine.finished = ended := by
  induction fuel generalizing machine with
  | zero =>
    cases ran
    exact ⟨.refl _, rfl⟩
  | succ fuel ih =>
    cases halt : machine.engine.finished with
    | true =>
      rw [run_of_finished halt] at ran
      cases ran
      exact ⟨.stay halt _, halt⟩
    | false =>
      rw [run_succ halt, bind_apply] at ran
      cases stepped : machine.step with
      | mk result middle =>
        rw [stepped] at ran
        cases result with
        | error fault => cases ran
        | ok status =>
          obtain ⟨rest, agrees⟩ := ih ran
          exact ⟨.next stepped rest, agrees⟩

/-- The run to the end returns a status and leaves a machine. -/
def EndsWith (machine : Machine) (status : Status) (final : Machine) : Prop :=
  ∃ fuel, runToEnd fuel machine = (.ok (some status), final)

/-- However many instructions are allowed, the run to the end has not ended. -/
def RunsForever (machine : Machine) : Prop :=
  ∀ fuel, ∃ after, runToEnd fuel machine = (.ok none, after)

theorem runToEnd_eq_some_iff {status : Status} :
    runToEnd fuel machine = (.ok (some status), final) ↔
      run fuel machine = (.ok true, final) ∧ final.engine.status = status := by
  rw [runToEnd_apply]
  obtain ⟨result, after⟩ := run fuel machine
  constructor
  · intro ended
    cases result with
    | error fault => cases ended
    | ok finished => cases finished <;> cases ended; exact ⟨rfl, rfl⟩
  · rintro ⟨ran, rfl⟩
    cases ran
    rfl

theorem runToEnd_eq_none_iff :
    runToEnd fuel machine = (.ok none, final) ↔ run fuel machine = (.ok false, final) := by
  rw [runToEnd_apply]
  obtain ⟨result, after⟩ := run fuel machine
  constructor
  · intro ended
    cases result with
    | error fault => cases ended
    | ok finished => cases finished <;> cases ended; rfl
  · intro ran
    cases ran
    rfl

/-- A run ends exactly where a chain of steps reaches a machine that has finished. -/
theorem endsWith_iff {status : Status} :
    machine.EndsWith status final ↔
      ∃ count, Steps count machine final ∧ final.engine.finished = true ∧
        final.engine.status = status := by
  constructor
  · intro ending
    obtain ⟨fuel, ended⟩ := ending
    obtain ⟨ran, same⟩ := runToEnd_eq_some_iff.mp ended
    obtain ⟨steps, finished⟩ := steps_of_run ran
    exact ⟨fuel, steps, finished, same⟩
  · intro reached
    obtain ⟨count, steps, finished, same⟩ := reached
    exact ⟨count, runToEnd_eq_some_iff.mpr ⟨steps.run finished (Nat.le_refl count), same⟩⟩

theorem EndsWith.status_eq {status : Status} (ends : machine.EndsWith status final) :
    final.engine.status = status := by
  obtain ⟨fuel, ended⟩ := ends
  exact (runToEnd_eq_some_iff.mp ended).2

theorem EndsWith.unique {status status' : Status} (ends : machine.EndsWith status final)
    (ends' : machine.EndsWith status' other) : final = other := by
  obtain ⟨count, steps, finished, -⟩ := endsWith_iff.mp ends
  obtain ⟨more, steps', finished', -⟩ := endsWith_iff.mp ends'
  exact steps.final_unique steps' finished finished'

end Brainfuck.Machine
