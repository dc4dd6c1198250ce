import Brainfuck.Proofs.Session.Related

namespace Brainfuck

/-- Computations one after another never raise what neither of them raises. -/
theorem bind_ne_error {First Second : Type} {first : Except Fault First}
    {second : First → Except Fault Second} {fault : Fault} (never : first ≠ .error fault)
    (never' : ∀ value, second value ≠ .error fault) : (first >>= second) ≠ .error fault := by
  cases first with
  | error reason => exact fun raised => never (Except.error.inj raised ▸ rfl)
  | ok value => exact never' value

theorem pure_ne_error {Result : Type} (result : Result) (fault : Fault) :
    (pure result : Except Fault Result) ≠ .error fault := by
  rintro ⟨⟩

namespace Tape

theorem fromEnd_ne_alreadyStepping (tape : Tape) (back : Nat) :
    tape.fromEnd back ≠ .error .alreadyStepping := by
  unfold fromEnd
  split <;> simp

theorem get_ne_alreadyStepping (tape : Tape) (address : Int) :
    tape.get address ≠ .error .alreadyStepping := by
  cases address with
  | ofNat place => exact pure_ne_error _ _
  | negSucc back =>
    exact bind_ne_error (tape.fromEnd_ne_alreadyStepping back) fun _ => pure_ne_error _ _

theorem checkFits_ne_alreadyStepping (tape : Tape) (place : Nat) :
    tape.checkFits place ≠ .error .alreadyStepping := by
  unfold checkFits checkRoom
  split
  · simp
  · split
    · simp
    · split
      · simp
      · split <;> simp

theorem put_ne_alreadyStepping (tape : Tape) (address : Int) (value : UInt8) :
    tape.put address value ≠ .error .alreadyStepping := by
  cases address with
  | ofNat place =>
    exact bind_ne_error (tape.checkFits_ne_alreadyStepping place) fun _ => pure_ne_error _ _
  | negSucc back =>
    exact bind_ne_error (tape.fromEnd_ne_alreadyStepping back) fun _ => pure_ne_error _ _

end Tape

namespace Engine

variable {engine : Engine}

theorem receive_ne_alreadyStepping (engine : Engine) (value : Option Int) :
    engine.receive value ≠ .error .alreadyStepping := by
  cases value with
  | none => exact pure_ne_error _ _
  | some value =>
    exact bind_ne_error (engine.tape.put_ne_alreadyStepping _ _) fun _ => pure_ne_error _ _

theorem adjust_ne_alreadyStepping (engine : Engine) (delta : Int) :
    engine.adjust delta ≠ .error .alreadyStepping := by
  refine bind_ne_error ?_ fun _ => pure_ne_error _ _
  refine bind_ne_error (engine.tape.get_ne_alreadyStepping _) fun _ => ?_
  exact bind_ne_error (engine.tape.put_ne_alreadyStepping _ _) fun _ => pure_ne_error _ _

theorem jump_ne_alreadyStepping (engine : Engine) (target : Int) (test : UInt8 → Bool) :
    engine.jump target test ≠ .error .alreadyStepping :=
  bind_ne_error (engine.tape.get_ne_alreadyStepping _) fun _ => pure_ne_error _ _

theorem silent_ne_alreadyStepping {next : Except Fault Engine}
    (never : next ≠ .error .alreadyStepping) :
    Reaction.silent <$> next ≠ .error .alreadyStepping := by
  cases next with
  | error reason => simpa [Functor.map, Except.map] using never
  | ok engine => exact pure_ne_error _ _

theorem react_ne_alreadyStepping (engine : Engine) :
    engine.react ≠ .error .alreadyStepping := by
  unfold react
  split
  · exact fun raised => Fault.noConfusion (Except.error.inj raised)
  · exact silent_ne_alreadyStepping (engine.adjust_ne_alreadyStepping _)
  · exact pure_ne_error _ _
  · exact silent_ne_alreadyStepping (engine.jump_ne_alreadyStepping _ _)
  · exact silent_ne_alreadyStepping (engine.jump_ne_alreadyStepping _ _)
  · exact bind_ne_error (engine.tape.get_ne_alreadyStepping _) fun _ => pure_ne_error _ _
  · exact pure_ne_error _ _
  · exact pure_ne_error _ _
  · exact fun raised => Fault.noConfusion (Except.error.inj raised)

theorem eq_receive_of_react {next : Engine → Option Int → Except Fault Engine}
    (reaction : engine.react = .ok (.read next)) :
    next = fun left => { left with ip := engine.ip }.receive := by
  have silent {reached : Except Fault Engine} :
      Reaction.silent <$> reached ≠ .ok (.read next) := by
    cases reached <;> rintro ⟨⟩
  unfold react at reaction
  split at reaction
  · cases reaction
  · exact absurd reaction silent
  · cases reaction
  · exact absurd reaction silent
  · exact absurd reaction silent
  · cases found : engine.cell <;> rw [found] at reaction <;> cases reaction
  · cases reaction
    rfl
  · cases reaction
  · cases reaction

end Engine
namespace Session

variable {World Result Next : Type}

theorem Faults.ne_alreadyStepping {listeners : Listeners World} {point : Session × World}
    {fault : Fault} (faults : Faults listeners point fault) : fault ≠ .alreadyStepping := by
  rintro rfl
  cases faults with
  | execute reaction => exact point.1.engine.react_ne_alreadyStepping reaction
  | store reaction called refused =>
    rw [Engine.eq_receive_of_react reaction] at refused
    exact Engine.receive_ne_alreadyStepping _ _ refused

/-- A session that executes instructions still does so behind the action, whether it returns or
raises. -/
def Guarded (action : Action World Result) : Prop := Maintains (·.active = true) action

/-- The outcome of an action as a value: what it raises is caught. -/
def attempt (action : Action World Result) : Action World (Except Fault Result) :=
  fun state => (.ok (action state).1, (action state).2)

/-- The second action does what the first does, but in between it calls a session wherever it
likes, and goes on as it likes when it knows what came of the call. It is the first action that
it comes to if each of these calls is refused and changes nothing. -/
inductive Reenters : {Result : Type} → Action World Result → Action World Result → Prop where
  | plain {Result : Type} {action : Action World Result} (guarded : Guarded action) :
      Reenters action action
  | call {Result : Type} {action : Action World Result} (entry : Entry) (inner : Listeners World)
      {rest : Except Fault (Option Status) → Action World Result}
      (refused : Reenters action (rest (.error .alreadyStepping))) :
      Reenters action (attempt (entry.perform inner) >>= rest)
  | bind {First Result : Type} {first first' : Action World First}
      {second second' : First → Action World Result} (begins : Reenters first first')
      (continues : ∀ value, Reenters (second value) (second' value)) :
      Reenters (first >>= second) (first' >>= second')

/-- Callbacks that make calls on the session, beside callbacks that make none. -/
def Listeners.Reenter (listeners reentrant : Listeners World) : Prop :=
  listeners.Related (fun _ => Reenters) reentrant

/-- On a session that executes instructions both actions do the same, and it goes on doing so. -/
structure Interchangeable (action other : Action World Result) : Prop where
  guarded : Guarded action
  same : ∀ state : Session × World, state.1.active = true → other state = action state

namespace Interchangeable

theorem refl {action : Action World Result} (guarded : Guarded action) :
    Interchangeable action action :=
  ⟨guarded, fun _ _ => rfl⟩

theorem bind {first first' : Action World Result} {second second' : Result → Action World Next}
    (begins : Interchangeable first first')
    (continues : ∀ value, Interchangeable (second value) (second' value)) :
    Interchangeable (first >>= second) (first' >>= second') := by
  refine ⟨begins.guarded.bind fun value => (continues value).guarded, fun state active => ?_⟩
  have left := begins.guarded state active
  rw [bind_apply, bind_apply, begins.same state active]
  rcases ended : first state with ⟨fault | value, middle⟩
  · rfl
  · rw [ended] at left
    exact (continues value).same middle left

theorem congruence :
    UpdateCongruence fun _ (action other : Action World _) => Interchangeable action other where
  pure _ := refl fun _ active => active
  raise _ := refl fun _ active => active
  current := refl fun _ active => active
  bind := bind
  replace _ := refl fun _ active => active
  grant := refl fun _ active => active

/-- What a callback makes of a call, it makes of the refusal of it. -/
theorem of_reenters {action other : Action World Result} (reenters : Reenters action other) :
    Interchangeable action other := by
  induction reenters with
  | plain guarded => exact refl guarded
  | call entry inner _ ih =>
    refine ⟨ih.guarded, fun state active => ?_⟩
    rw [bind_apply, attempt, entry.perform_of_active active]
    exact ih.same state active
  | bind _ _ ih ih' => exact bind ih ih'

theorem exclusively {action other : Action World Result} (status? : Result → Option Status)
    (interchangeable : Interchangeable action other) :
    Session.exclusively status? other = Session.exclusively status? action := by
  funext state
  cases active : state.1.active with
  | true => rw [exclusively_of_active active, exclusively_of_active active]
  | false =>
    rw [exclusively_of_idle active, exclusively_of_idle active,
      interchangeable.same (enter state) rfl]

end Interchangeable

/-- A call does the same, whether or not its callbacks make calls that are refused. -/
theorem Entry.perform_reentrant {listeners reentrant : Listeners World}
    (reenter : listeners.Reenter reentrant) (entry : Entry) :
    entry.perform reentrant = entry.perform listeners := by
  have related : listeners.Related (fun _ => Interchangeable) reentrant :=
    reenter.mono Interchangeable.of_reenters
  have runs (allowance : Nat) := Interchangeable.congruence.run related allowance
  cases entry with
  | resume fuel => exact (runs fuel).exclusively id
  | resumeFor count =>
    have mapped : Interchangeable ((·.getD .running) <$> run listeners count)
        ((·.getD .running) <$> run reentrant count) :=
      (runs count).bind fun ended => .refl fun _ active => active
    exact congrArg (some <$> ·) (mapped.exclusively some)
  | stepOnce =>
    have advances := Interchangeable.congruence.replaces.advance related false
    exact congrArg (some <$> ·) (advances.exclusively some)

/-- A session that executes instructions refuses further calls and is left as it was. So all calls
do the same with callbacks that make further calls as with callbacks that make none. A call that
no other one encloses is accepted, whatever was called before: a refusal only comes out of it where
a callback lets out the refusal of a call of its own. -/
theorem reentry_refused {listeners reentrant : Listeners World}
    (reenter : listeners.Reenter reentrant) {fresh : Session × World}
    (idle : fresh.1.active = false) :
    (∀ (entry : Entry) (inner : Listeners World) (state : Session × World),
      state.1.active = true → entry.perform inner state = (.error .alreadyStepping, state)) ∧
    (∀ entry : Entry, entry.perform reentrant = entry.perform listeners) ∧
    (∀ state, Reached reentrant fresh state → ∀ (entry : Entry) (after : Session × World),
      entry.perform reentrant state = (.error .alreadyStepping, after) →
        ∃ count point engine left, entry.Stands reentrant state count point ∧
          Raised reentrant entry.waits point .alreadyStepping engine left) := by
  refine ⟨fun entry inner state active => entry.perform_of_active active,
    fun entry => entry.perform_reentrant reenter, fun state reached entry after refused => ?_⟩
  obtain ⟨count, point, left, stands, stuck, -⟩ :=
    (entry.perform_eq_error_iff (reached.idle idle)).mp refused
  rcases raised_of_advance stands.running stuck with ⟨engine, raised⟩ | faults
  · exact ⟨count, point, engine, left, stands, raised⟩
  · exact absurd rfl faults.ne_alreadyStepping

abbrev Diary := List (Except Fault (Option Status))

def Diary.record (outcome : Except Fault (Option Status)) : Action Diary Unit :=
  modify fun (session, diary) => (session, outcome :: diary)

theorem Diary.record_guarded (outcome : Except Fault (Option Status)) : Guarded (record outcome) :=
  fun _ active => active

/-- After each instruction two refusals are recorded. -/
def Listeners.recording : Listeners Diary where
  output _ := return
  input := return none
  observer := some fun _ => do
    Diary.record (.error .alreadyStepping)
    Diary.record (.error .alreadyStepping)

/-- After each instruction two calls are made on the session, and what comes of them is
recorded. -/
def Listeners.inquiring : Listeners Diary :=
  { recording with
    observer := some fun _ => do
      let first ← attempt (Entry.stepOnce.perform recording)
      Diary.record first
      let second ← attempt ((Entry.resumeFor 2).perform recording)
      Diary.record second }

theorem Listeners.recording_reenter : recording.Reenter inquiring where
  output _ := .plain fun _ active => active
  input := .plain fun _ active => active
  observer := by
    refine .some fun _ => .call _ _ (.bind (.plain (Diary.record_guarded _)) fun _ => ?_)
    exact .call _ _ (.plain (Diary.record_guarded _))
  acknowledge := .none

/-- A session that is called again after each instruction runs to its end as if it were not. -/
theorem reentry_refused_inquiring :
    let program : Program := ⟨#[.adjust 1, .output], #[0, 1], ""⟩
    let fresh : Session × Diary := (start program { mode := .verbose } (Tape.blank 1), [])
    let refusals := List.replicate 4 (Except.error Fault.alreadyStepping)
    (Entry.resume 3).perform .inquiring fresh = (Entry.resume 3).perform .recording fresh ∧
      (∃ after, (Entry.resume 3).perform .inquiring fresh = (.ok (some .halted), after) ∧
        after.2 = refusals ∧ Reached .inquiring fresh after ∧
        ∀ (entry : Entry) (last : Session × Diary),
          entry.perform .inquiring after = (.error .alreadyStepping, last) →
            ∃ count point engine left, entry.Stands .inquiring after count point ∧
              Raised .inquiring entry.waits point .alreadyStepping engine left) := by
  intro program fresh refusals
  have idle : fresh.1.active = false := rfl
  have refused := reentry_refused Listeners.recording_reenter idle
  have ended : (Entry.resume 3).perform .inquiring fresh = (.ok (some .halted), (_, refusals)) :=
    rfl
  have reached : Reached .inquiring fresh (_, refusals) := .returned .fresh ended
  exact ⟨congrFun (refused.2.1 (.resume 3)) fresh, _, ended, rfl, reached, refused.2.2 _ reached⟩

end Session
end Brainfuck
