import Mathlib.Data.List.Forall2
import Brainfuck.Proofs.Macro.Agreement

namespace Brainfuck

/-- The same token, maybe at another place. -/
structure Token.Alike (first second : Token) : Prop where
  glyph : first.glyph = second.glyph
  name : first.name = second.name

theorem Token.Alike.refl (token : Token) : token.Alike token := ⟨rfl, rfl⟩

theorem Token.Alike.isCall {first second : Token} (alike : first.Alike second) :
    second.isCall = first.isCall := by
  rw [Token.isCall, Token.isCall, alike.glyph]

theorem Token.glyphs_eq_of_alike {tokens others : List Token}
    (alike : List.Forall₂ Token.Alike tokens others) :
    others.map (·.glyph) = tokens.map (·.glyph) := by
  induction alike with
  | nil => rfl
  | cons first _ ih => rw [List.map_cons, List.map_cons, ih, first.glyph]

namespace Macro.Table

theorem callee?_of_alike {first second : Token} (table : Table) (alike : first.Alike second) :
    table.callee? second = table.callee? first := by
  rw [callee?, callee?, alike.name]

/-- Tokens with some of the calls among them replaced by the body of the macro that they
name, where calls may be replaced again. -/
inductive Pastes (table : Table) : List Token → List Token → Prop where
  | nil : Pastes table [] []
  | keep {first second : Token} {tokens pasted : List Token} (alike : first.Alike second)
      (rest : Pastes table tokens pasted) : Pastes table (first :: tokens) (second :: pasted)
  | paste {token : Token} {callee : Definition} {tokens body pasted : List Token}
      (called : token.isCall = true) (found : table.callee? token = some callee)
      (inner : Pastes table callee.body body) (rest : Pastes table tokens pasted) :
      Pastes table (token :: tokens) (body ++ pasted)

/-- A definition of the same name, with calls in its body replaced. -/
structure PastesBody (table : Table) (definition changed : Definition) : Prop where
  name : definition.name = changed.name
  body : table.Pastes definition.body changed.body

/-- The definitions of the second table are those of the first with calls in their bodies
replaced. -/
def PastesInto (table other : Table) : Prop :=
  List.Forall₂ table.PastesBody table.definitions other.definitions

variable {table other : Table} {token : Token} {tokens more pasted others out : List Token}
  {definition : Definition} {definitions changed : List Definition} {name : String}

namespace Pastes

theorem of_alike (alike : List.Forall₂ Token.Alike tokens more) : table.Pastes tokens more := by
  induction alike with
  | nil => exact .nil
  | cons first _ ih => exact .keep first ih

theorem refl (table : Table) (tokens : List Token) : table.Pastes tokens tokens :=
  of_alike (List.forall₂_same.mpr fun token _ => .refl token)

theorem append (first : table.Pastes tokens pasted) (second : table.Pastes more others) :
    table.Pastes (tokens ++ more) (pasted ++ others) := by
  induction first with
  | nil => exact second
  | keep alike _ ih => exact .keep alike ih
  | paste called found inner _ _ ih =>
    rw [List.cons_append, List.append_assoc]
    exact .paste called found inner ih

end Pastes

theorem names_eq_of_pastes (pastes : List.Forall₂ table.PastesBody definitions changed) :
    changed.map (·.name) = definitions.map (·.name) := by
  induction pastes with
  | nil => rfl
  | cons first _ ih => rw [List.map_cons, List.map_cons, ih, first.name]

theorem find?_of_pastes (pastes : List.Forall₂ table.PastesBody definitions changed)
    (found : definitions.find? (·.name == name) = some definition) :
    ∃ other, changed.find? (·.name == name) = some other ∧ table.PastesBody definition other := by
  induction pastes with
  | nil => cases found
  | @cons head next definitions changed first _ ih =>
    rw [List.find?_cons] at found ⊢
    rw [← first.name]
    split at found
    · cases found
      exact ⟨next, rfl, first⟩
    · exact ih found

theorem PastesInto.callee? (pastes : table.PastesInto other)
    (found : table.callee? token = some definition) :
    ∃ changed, other.callee? token = some changed ∧ table.PastesBody definition changed := by
  obtain ⟨name, named, found⟩ := Option.bind_eq_some_iff.mp found
  obtain ⟨changed, found', related⟩ := find?_of_pastes pastes found
  exact ⟨changed, by rw [Table.callee?, named, Option.bind_some, find?, found'], related⟩

theorem Substitutes.append (first : table.Substitutes tokens out)
    (second : table.Substitutes more others) :
    table.Substitutes (tokens ++ more) (out ++ others) := by
  induction first with
  | nil => exact second
  | plain kept _ ih => exact .plain kept ih
  | call called found inner _ _ ih =>
    rw [List.cons_append, List.append_assoc]
    exact .call called found inner ih

/-- What tokens stand for does not change if calls give way to bodies. -/
theorem Substitutes.of_pastes (substitutes : table.Substitutes tokens out)
    (pastes : table.Pastes tokens pasted) (changes : table.PastesInto other) :
    ∃ same, other.Substitutes pasted same ∧ List.Forall₂ Token.Alike out same := by
  induction substitutes generalizing pasted with
  | nil =>
    cases pastes
    exact ⟨[], .nil, .nil⟩
  | plain kept _ ih =>
    cases pastes with
    | keep alike rest =>
      obtain ⟨same, substitutes, alikes⟩ := ih rest
      exact ⟨_, .plain (alike.isCall.trans kept) substitutes, .cons alike alikes⟩
    | paste called => simp [kept] at called
  | call called found _ _ ihInner ihRest =>
    cases pastes with
    | keep alike rest =>
      obtain ⟨changed, found', related⟩ := changes.callee? found
      obtain ⟨inside, inner, alikes⟩ := ihInner related.body
      obtain ⟨behind, substitutes, alikes'⟩ := ihRest rest
      rw [← callee?_of_alike other alike] at found'
      exact ⟨inside ++ behind, .call (alike.isCall.trans called) found' inner substitutes,
        List.rel_append alikes alikes'⟩
    | paste _ found' inner' rest =>
      cases found.symm.trans found'
      obtain ⟨inside, inner, alikes⟩ := ihInner inner'
      obtain ⟨behind, substitutes, alikes'⟩ := ihRest rest
      exact ⟨inside ++ behind, inner.append substitutes, List.rel_append alikes alikes'⟩

theorem PastesInto.calls_eq (changes : table.PastesInto other) : other.calls = table.calls := by
  rw [calls, calls, sortedNames, sortedNames, names, names, names_eq_of_pastes changes]

theorem PastesInto.check (changes : table.PastesInto other) (checked : table.check = .ok ()) :
    other.check = .ok () := by
  obtain ⟨out, substitutes⟩ := check_eq_ok_iff.mp checked
  obtain ⟨same, substitutes', -⟩ := substitutes.of_pastes (.refl table table.calls) changes
  exact check_eq_ok_iff.mpr ⟨same, changes.calls_eq ▸ substitutes'⟩

end Macro.Table
end Brainfuck
