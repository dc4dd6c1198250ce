import Mathlib.Order.Nat
import Brainfuck.Proofs.Invariant

namespace Brainfuck.Machine

variable {start machine final : Machine} {block : Block} {status : Status}

theorem afterCalls_add (start : Machine) (count more : Nat) :
    (start.afterCalls count).afterCalls more = start.afterCalls (count + more) := by
  induction more with
  | zero => rfl
  | succ more ih => exact congrArg stepped ih

theorem afterCalls_stepped (start : Machine) (count : Nat) :
    start.stepped.afterCalls count = start.afterCalls (count + 1) := by
  rw [Nat.add_comm]
  exact start.afterCalls_add 1 count

namespace Placed

theorem afterCalls (placed : machine.Placed (block.instructions 0)) (count : Nat) :
    (machine.afterCalls count).Placed (block.instructions 0) := by
  induction count with
  | zero => exact placed
  | succ count ih => exact ih.step.2.placed

theorem run_eq (placed : machine.Placed (block.instructions 0)) (count : Nat) :
    run count machine =
      (.ok (machine.afterCalls count).engine.finished, machine.afterCalls count) := by
  induction count generalizing machine with
  | zero => rfl
  | succ count ih =>
    cases finished : machine.engine.finished with
    | true =>
      have stays : machine.afterCalls (count + 1) = machine.afterCalls 0 :=
        afterCalls_of_finished finished (Nat.zero_le _)
      rw [run_of_finished finished, stays]
      exact congrArg (fun ended => (Except.ok ended, machine)) finished.symm
    | false =>
      obtain ⟨step, turn⟩ := placed.step
      rw [run_succ finished, bind_apply, step, ← afterCalls_stepped]
      exact ih turn.placed

theorem runFor_eq (placed : machine.Placed (block.instructions 0)) (count : Nat) :
    runFor count machine =
      (.ok (machine.afterCalls count).engine.status, machine.afterCalls count) := by
  rw [runFor, bind_apply, placed.run_eq]
  rfl

theorem runToEnd_eq (placed : machine.Placed (block.instructions 0)) (fuel : Nat) :
    runToEnd fuel machine =
      (.ok (if (machine.afterCalls fuel).engine.finished then
        some (machine.afterCalls fuel).engine.status else none), machine.afterCalls fuel) := by
  rw [runToEnd_apply, placed.run_eq]
  cases (machine.afterCalls fuel).engine.finished <;> rfl

theorem running_iff (placed : machine.Placed (block.instructions 0)) :
    machine.engine.status = .running ↔ machine.engine.finished = false := by
  rcases placed.status_cases with ⟨-, status⟩ | ⟨-, status | ⟨underflow, status⟩⟩ <;>
    simp [Engine.finished, status, Status.isFinal]

end Placed

/-- So many steps are left until the machine has finished. -/
def Left (machine : Machine) (left : Nat) : Prop :=
  IsLeast {count | (machine.afterCalls count).engine.finished = true} left

/-- A machine that is given a budget makes a number of steps: each of them attempts an instruction,
and the status behind them is returned. -/
structure Makes (machine : Machine) (budget steps : Nat) : Prop where
  returns : runFor budget machine =
    (.ok (machine.afterCalls steps).engine.status, machine.afterCalls steps)
  attempts : ∀ earlier < steps, (machine.afterCalls earlier).attempts = true

/-- What a machine does with its budgets. -/
structure Budgeted (machine : Machine) : Prop where
  adds : ∀ first second : Nat,
    (do let _ ← runFor first; runFor second) machine = runFor (first + second) machine
  /-- With a budget, and then without one, a run ends as it does without one. -/
  ends : ∀ (budget : Nat) (status : Status) (final : Machine),
    (∃ fuel, (do let _ ← runFor budget; runToEnd fuel) machine = (.ok (some status), final)) ↔
      machine.EndsWith status final
  makes : ∀ budget left : Nat, machine.Left left → machine.Makes budget (min budget left)
  makes_all : (∀ left, ¬ machine.Left left) → ∀ budget, machine.Makes budget budget
  running_iff : ∀ (budget : Nat) (status : Status) (final : Machine),
    runFor budget machine = (.ok status, final) →
      (status = .running ↔ final.engine.finished = false)

theorem attempts_of_least {steps : Nat}
    (unfinished : ∀ earlier < steps, (machine.afterCalls earlier).engine.finished ≠ true) :
    ∀ earlier < steps, (machine.afterCalls earlier).attempts = true := by
  intro earlier less
  have running := unfinished earlier less
  simpa [attempts] using running

namespace Placed

variable (placed : machine.Placed (block.instructions 0))
include placed

theorem endsWith_iff :
    machine.EndsWith status final ↔
      ∃ count, (machine.afterCalls count).engine.finished = true ∧
        (machine.afterCalls count).engine.status = status ∧ machine.afterCalls count = final := by
  constructor
  · rintro ⟨fuel, ended⟩
    rw [placed.runToEnd_eq] at ended
    split at ended
    · next finished =>
      cases ended
      exact ⟨fuel, finished, rfl, rfl⟩
    · cases ended
  · rintro ⟨count, finished, rfl, rfl⟩
    exact ⟨count, by rw [placed.runToEnd_eq, if_pos finished]⟩

theorem budgeted : machine.Budgeted where
  adds first second := by
    rw [bind_apply, placed.runFor_eq, placed.runFor_eq, ← afterCalls_add]
    exact (placed.afterCalls first).runFor_eq second
  ends budget status final := by
    have further (count : Nat) : (machine.afterCalls budget).afterCalls count =
      machine.afterCalls (budget + count) := afterCalls_add machine budget count
    have later : (∃ fuel, (do let _ ← runFor budget; runToEnd fuel) machine =
        (.ok (some status), final)) ↔ (machine.afterCalls budget).EndsWith status final := by
      simp only [bind_apply, placed.runFor_eq]
      rfl
    rw [later, (placed.afterCalls budget).endsWith_iff, placed.endsWith_iff]
    constructor
    · rintro ⟨count, ended⟩
      rw [further] at ended
      exact ⟨budget + count, ended⟩
    · rintro ⟨count, finished, same, here⟩
      have stays : machine.afterCalls (budget + count) = machine.afterCalls count :=
        afterCalls_of_finished finished (Nat.le_add_left count budget)
      exact ⟨count, by rw [further, stays]; exact ⟨finished, same, here⟩⟩
  makes budget left least := by
    have same : machine.afterCalls budget = machine.afterCalls (min budget left) := by
      rcases Nat.le_total budget left with within | beyond
      · rw [Nat.min_eq_left within]
      · rw [Nat.min_eq_right beyond]
        exact afterCalls_of_finished least.1 beyond
    refine ⟨same ▸ placed.runFor_eq budget, attempts_of_least fun earlier less finished => ?_⟩
    have bound := least.2 finished
    omega
  makes_all endless budget := by
    refine ⟨placed.runFor_eq budget, attempts_of_least fun earlier _ finished => ?_⟩
    exact endless _ (Nat.isLeast_find ⟨earlier, finished⟩)
  running_iff budget status final returned := by
    rw [placed.runFor_eq] at returned
    cases returned
    exact (placed.afterCalls budget).running_iff

end Placed
end Brainfuck.Machine
