import Brainfuck.Proofs.Macro.Walk

namespace Brainfuck.Macro.Table

/-- Each token that is no call stands for itself, and each call for what the body of the
macro that it names stands for. -/
inductive Substitutes (table : Table) : List Token → List Token → Prop where
  | nil : Substitutes table [] []
  | plain {token : Token} {tokens out : List Token} (kept : token.isCall = false)
      (rest : Substitutes table tokens out) : Substitutes table (token :: tokens) (token :: out)
  | call {token : Token} {callee : Definition} {tokens body out : List Token}
      (called : token.isCall = true) (found : table.callee? token = some callee)
      (inner : Substitutes table callee.body body) (rest : Substitutes table tokens out) :
      Substitutes table (token :: tokens) (body ++ out)

/-- A call stands among the tokens, or in a body that a call among them leads to. -/
inductive Reaches (table : Table) : List Token → Token → Prop where
  | here {tokens : List Token} {call : Token} (member : call ∈ tokens)
      (called : call.isCall = true) : Reaches table tokens call
  | through {tokens : List Token} {outer call : Token} {callee : Definition}
      (member : outer ∈ tokens) (called : outer.isCall = true)
      (found : table.callee? outer = some callee) (inner : Reaches table callee.body call) :
      Reaches table tokens call

/-- The body of a definition reaches a call of that definition. -/
def Cyclic (table : Table) (definition : Definition) : Prop :=
  ∃ again, table.Reaches definition.body again ∧ table.callee? again = some definition

/-- A call of the second definition stands in the body of the first. -/
def Calls (table : Table) (outer inner : Definition) : Prop :=
  ∃ call ∈ outer.body, call.isCall = true ∧ table.callee? call = some inner

variable {table : Table} {trail opened : List String} {token call last : Token}
  {callee definition : Definition} {tokens out other : List Token} {flaw : Flaw}

namespace Reaches

theorem of_subset {more : List Token} (reaches : table.Reaches tokens call)
    (subset : tokens ⊆ more) : table.Reaches more call := by
  cases reaches with
  | here member called => exact .here (subset member) called
  | through member called found inner => exact .through (subset member) called found inner

theorem trans {final : Token} (first : table.Reaches tokens call)
    (found : table.callee? call = some callee) (second : table.Reaches callee.body final) :
    table.Reaches tokens final := by
  induction first with
  | here member called => exact .through member called found second
  | through member called found' _ ih => exact .through member called found' (ih found)

end Reaches

/-- What is passed is substituted; that no open name was met does not matter. -/
theorem Passes.substitutes (passes : table.Passes trail tokens out) :
    table.Substitutes tokens out := by
  induction passes with
  | nil => exact .nil
  | plain kept _ ih => exact .plain kept ih
  | call called found _ _ _ ihInner ihRest => exact .call called found ihInner ihRest

namespace Substitutes

theorem unique (first : table.Substitutes tokens out) (second : table.Substitutes tokens other) :
    out = other := by
  induction first generalizing other with
  | nil => cases second; rfl
  | plain kept _ ih =>
    cases second with
    | plain _ rest => rw [ih rest]
    | call called => simp [kept] at called
  | call called found _ _ ihInner ihRest =>
    cases second with
    | plain kept => simp [called] at kept
    | call _ found' inner rest =>
      cases found.symm.trans found'
      rw [ihInner inner, ihRest rest]

theorem call_free (substitutes : table.Substitutes tokens out) :
    ∀ token ∈ out, token.isCall = false := by
  induction substitutes with
  | nil => simp
  | plain kept _ ih =>
    intro token member
    rcases List.mem_cons.mp member with rfl | later
    · exact kept
    · exact ih token later
  | call _ _ _ _ ihInner ihRest =>
    intro token member
    rcases List.mem_append.mp member with inner | later
    · exact ihInner token inner
    · exact ihRest token later

theorem of_call_free (call_free : ∀ token ∈ tokens, token.isCall = false) :
    table.Substitutes tokens tokens := by
  induction tokens with
  | nil => exact .nil
  | cons token tokens ih =>
    obtain ⟨kept, later⟩ := List.forall_mem_cons.mp call_free
    exact .plain kept (ih later)

theorem of_mem (substitutes : table.Substitutes tokens out) (member : call ∈ tokens)
    (called : call.isCall = true) :
    ∃ callee body, table.callee? call = some callee ∧ table.Substitutes callee.body body := by
  induction substitutes with
  | nil => cases member
  | plain kept _ ih =>
    rcases List.mem_cons.mp member with rfl | later
    · simp [kept] at called
    · exact ih later
  | call _ found inner _ _ ihRest =>
    rcases List.mem_cons.mp member with rfl | later
    · exact ⟨_, _, found, inner⟩
    · exact ihRest later

theorem of_reaches (substitutes : table.Substitutes tokens out)
    (reaches : table.Reaches tokens call) :
    ∃ callee body, table.callee? call = some callee ∧ table.Substitutes callee.body body := by
  induction reaches generalizing out with
  | here member called => exact substitutes.of_mem member called
  | through member called found _ ih =>
    obtain ⟨callee, body, found', inner⟩ := substitutes.of_mem member called
    cases found.symm.trans found'
    exact ih inner

/-- There is no endless sequence of calls, each in the body of the one before. -/
theorem accessible (substitutes : table.Substitutes tokens out) (member : call ∈ tokens)
    (called : call.isCall = true) (found : table.callee? call = some callee) :
    Acc (fun inner outer => table.Calls outer inner) callee := by
  induction substitutes generalizing call callee with
  | nil => cases member
  | plain kept _ ih =>
    rcases List.mem_cons.mp member with rfl | later
    · simp [kept] at called
    · exact ih later called found
  | call _ found' _ _ ihInner ihRest =>
    rcases List.mem_cons.mp member with rfl | later
    · cases found.symm.trans found'
      refine Acc.intro _ fun next calls => ?_
      obtain ⟨further, member', called', found''⟩ := calls
      exact ihInner member' called' found''
    · exact ihRest later called found

end Substitutes

/-- A cycle is entered anew behind each of its calls. -/
theorem not_cyclic_of_acc
    (accessible : Acc (fun inner outer => table.Calls outer inner) definition) :
    ¬ table.Cyclic definition := by
  induction accessible with
  | intro definition _ ih =>
    intro cyclic
    obtain ⟨again, reaches, found⟩ := cyclic
    cases reaches with
    | here member called =>
      have calls : table.Calls definition definition := ⟨again, member, called, found⟩
      exact ih definition calls ⟨again, .here member called, found⟩
    | @through _ outer _ next member called found' inner =>
      have calls : table.Calls definition next := ⟨outer, member, called, found'⟩
      exact ih next calls ⟨outer, inner.trans found (.here member called), found'⟩

theorem Substitutes.not_cyclic (substitutes : table.Substitutes tokens out)
    (reaches : table.Reaches tokens call) (found : table.callee? call = some callee) :
    ¬ table.Cyclic callee := by
  induction reaches generalizing out with
  | here member called => exact not_cyclic_of_acc (substitutes.accessible member called found)
  | through member called found' _ ih =>
    obtain ⟨next, body, found'', inner⟩ := substitutes.of_mem member called
    cases found'.symm.trans found''
    exact ih inner found

/-- The calls reached from tokens are defined, and none of them leads into a cycle. -/
structure Sound (table : Table) (tokens : List Token) : Prop where
  defined : ∀ call, table.Reaches tokens call → table.callee? call ≠ none
  acyclic : ∀ call callee, table.Reaches tokens call → table.callee? call = some callee →
    ¬ table.Cyclic callee

theorem Substitutes.sound (substitutes : table.Substitutes tokens out) : table.Sound tokens where
  defined call reaches := by
    obtain ⟨callee, body, found, -⟩ := substitutes.of_reaches reaches
    simp [found]
  acyclic call callee reaches found := substitutes.not_cyclic reaches found

namespace Stops

theorem reaches (stops : table.Stops trail tokens opened last flaw) :
    table.Reaches tokens last := by
  induction stops with
  | here called _ => exact .here List.mem_cons_self called
  | plain _ _ ih => exact ih.of_subset (List.subset_cons_self _ _)
  | inside called found _ _ ih => exact .through List.mem_cons_self called found ih
  | behind _ _ _ _ _ ih => exact ih.of_subset (List.subset_cons_self _ _)

/-- A name that is open where the walk stops was open before, or its call was reached on
the way, and its body reaches the call at which the walk stops. -/
theorem opened_reached {name : String} (stops : table.Stops trail tokens opened last flaw)
    (member : name ∈ opened) :
    name ∈ trail ∨ ∃ call callee, table.Reaches tokens call ∧ table.callee? call = some callee ∧
      callee.name = name ∧ table.Reaches callee.body last := by
  induction stops with
  | here => exact .inl member
  | plain _ _ ih =>
    rcases ih member with before | ⟨call, callee, reaches, rest⟩
    · exact .inl before
    · exact .inr ⟨call, callee, reaches.of_subset (List.subset_cons_self _ _), rest⟩
  | inside called found _ inner ih =>
    rcases ih member with before | ⟨call, callee, reaches, rest⟩
    · rcases List.mem_cons.mp before with rfl | before
      · exact .inr ⟨_, _, .here List.mem_cons_self called, found, rfl, inner.reaches⟩
      · exact .inl before
    · exact .inr ⟨call, callee, .through List.mem_cons_self called found reaches, rest⟩
  | behind _ _ _ _ _ ih =>
    rcases ih member with before | ⟨call, callee, reaches, rest⟩
    · exact .inl before
    · exact .inr ⟨call, callee, reaches.of_subset (List.subset_cons_self _ _), rest⟩

theorem not_sound (stops : table.Stops [] tokens opened last flaw) : ¬ table.Sound tokens := by
  intro sound
  cases stops.offence with
  | undefined missing => exact sound.defined last stops.reaches missing
  | @recursive again inner outer found parts nearest =>
    have member : again.name ∈ opened := by simp [parts]
    rcases stops.opened_reached member with before | ⟨call, callee, reaches, found', same, inside⟩
    · cases before
    · have present := (callee?_name found).2
      rw [← same, (callee?_name found').2] at present
      cases present
      exact sound.acyclic call _ reaches found' ⟨last, inside, found⟩

end Stops

theorem passes_iff_substitutes : table.Passes [] tokens out ↔ table.Substitutes tokens out := by
  constructor
  · exact Passes.substitutes
  · intro substitutes
    rcases passes_or_stops (.nil table) tokens with ⟨found, passes⟩ | ⟨opened, last, flaw, stops⟩
    · cases passes.substitutes.unique substitutes
      exact passes
    · exact absurd substitutes.sound stops.not_sound

theorem expand_eq_ok_iff_substitutes :
    table.expand tokens = .ok out ↔ table.Substitutes tokens out := by
  rw [expand_eq_ok_iff, passes_iff_substitutes]

theorem exists_substitutes_iff : (∃ out, table.Substitutes tokens out) ↔ table.Sound tokens := by
  constructor
  · intro substituted
    obtain ⟨out, substitutes⟩ := substituted
    exact substitutes.sound
  · intro sound
    rcases passes_or_stops (.nil table) tokens with ⟨out, passes⟩ | ⟨opened, last, flaw, stops⟩
    · exact ⟨out, passes.substitutes⟩
    · exact absurd sound stops.not_sound

end Brainfuck.Macro.Table
