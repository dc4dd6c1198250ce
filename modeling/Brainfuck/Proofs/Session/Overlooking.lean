import Brainfuck.Proofs.Session.Related

namespace Brainfuck.Session

variable {World Result Next : Type} {change : Session → Session} {listeners : Listeners World}

def alter (change : Session → Session) (state : Session × World) : Session × World :=
  (change state.1, state.2)

/-- A change of the session that concerns neither its engine nor its options. -/
structure Marginal (change : Session → Session) : Prop where
  active : ∀ session, (change session).active = session.active
  options : ∀ session, (change session).options = session.options
  engine : ∀ session, (change session).engine = session.engine
  replace : ∀ session engine, change { session with engine } = { change session with engine }

theorem Marginal.observe (marginal : Marginal change) (session : Session) :
    (change session).observe = session.observe := by
  simp only [Session.observe, marginal.engine, marginal.options]

theorem Marginal.breaks (marginal : Marginal change) (session : Session) :
    (change session).breaks = session.breaks := by
  simp only [Session.breaks, marginal.engine, marginal.options]

/-- On a session that executes instructions, and goes on doing so, the action takes no notice of a
change, and leaves it. -/
structure Overlooks (change : Session → Session) (action : Action World Result) : Prop where
  guarded : Maintains (·.active = true) action
  same : ∀ state : Session × World, state.1.active = true →
    action (alter change state) = ((action state).1, alter change (action state).2)

namespace Overlooks

variable {first : Action World Result} {second : Result → Action World Next}

theorem pure (result : Result) : Overlooks change (Pure.pure result : Action World Result) :=
  ⟨.pure result, fun _ _ => rfl⟩

theorem bind (begins : Overlooks change first)
    (continues : ∀ value, Overlooks change (second value)) :
    Overlooks change (first >>= second) := by
  refine ⟨begins.guarded.bind fun value => (continues value).guarded, fun state active => ?_⟩
  have left := begins.guarded state active
  rw [bind_apply, bind_apply, begins.same state active]
  rcases ended : first state with ⟨fault | value, middle⟩
  · rfl
  · rw [ended] at left
    exact (continues value).same middle left

theorem raise (fault : Fault) : Overlooks change (throw fault : Action World Result) :=
  ⟨fun _ active => active, fun _ _ => rfl⟩

/-- An action may look at the session where it comes to the same with the change. -/
theorem current_bind {next : Session → Action World Next}
    (same : ∀ session, next (change session) = next session)
    (continues : ∀ session, Overlooks change (next session)) :
    Overlooks change (current >>= next) := by
  refine ⟨fun state active => (continues state.1).guarded state active, fun state active => ?_⟩
  change next (change state.1) (alter change state) = _
  rw [same]
  exact (continues state.1).same state active

theorem update {other : Session → Session}
    (guarded : ∀ session, (other session).active = session.active)
    (same : ∀ session, change (other session) = other (change session)) :
    Overlooks change (Session.update other : Action World Unit) := by
  refine ⟨fun state active => (guarded state.1).trans active, fun state _ => ?_⟩
  change (Except.ok (), other (change state.1), state.2) = _
  rw [← same]
  rfl

section marginal

variable (marginal : Marginal change)
include marginal

theorem replaces : Replaces (fun session other => other = change session)
    fun Result (action _ : Action World Result) => Overlooks change action where
  pure := pure
  raise := raise
  bind := bind
  current_bind same continues := current_bind (fun session => (same session _ rfl).1.symm) continues
  observe := by
    rintro session _ rfl
    exact (marginal.observe session).symm
  breaks := by
    rintro session _ rfl
    exact (marginal.breaks session).symm
  options := by
    rintro session _ rfl
    exact (marginal.options session).symm
  status := by
    rintro session _ rfl
    rw [marginal.engine]
  ip := by
    rintro session _ rfl
    rw [marginal.engine]
  engine := by
    rintro session _ rfl
    exact (marginal.engine session).symm
  replace engine := update (fun _ => rfl) fun session => marginal.replace session engine

variable (blind : listeners.All fun _ => Overlooks change)
include blind

/-- Callbacks that take no notice of the change are called alike with it and without. -/
theorem advance (blocking : Bool) : Overlooks change (Session.advance listeners blocking) :=
  (replaces marginal).advance blind.related blocking

theorem run (unasked : ∀ session, (change session).interrupted = session.interrupted)
    (granted : ∀ session,
      change { session with interrupted := false } = { change session with interrupted := false })
    (allowance : Nat) : Overlooks change (Session.run listeners allowance) := by
  have grants : Grants (fun session other => other = change session)
      fun Result (action _ : Action World Result) => Overlooks change action :=
    { (replaces marginal).toGlances with
      interrupted := by
        rintro session _ rfl
        exact (unasked session).symm
      grant := update (fun _ => rfl) granted }
  exact grants.run blind.related ((replaces marginal).execute blind.related) allowance

end marginal
end Overlooks
end Brainfuck.Session
