import Brainfuck.Proofs.Macro.Pasting
import Brainfuck.Proofs.Scan.Origins

namespace Brainfuck.Scan

/-- Items with some of the calls among them replaced by pieces that say what the called
body says. -/
inductive Pasted (table : Macro.Table) : List Item → List Item → Prop where
  | nil : Pasted table [] []
  | keep {items pasted : List Item} (item : Item) (rest : Pasted table items pasted) :
      Pasted table (item :: items) (item :: pasted)
  | paste {name : Word} {callee : Macro.Definition} {items pasted : List Item}
      (inner : List Piece) (found : table.find? name.text = some callee)
      (alike : ∀ place, List.Forall₂ Token.Alike callee.body (tokensOf place inner))
      (rest : Pasted table items pasted) :
      Pasted table (.piece (.call name) :: items) (inner.map .piece ++ pasted)

/-- A body that is being read, with calls replaced. -/
structure Opening.Pastes (table : Macro.Table) (opening changed : Opening) : Prop where
  name : opening.name = changed.name
  body : table.Pastes opening.body.toList changed.body.toList

/-- The second state has read what the first has, with calls replaced. -/
structure State.Pastes (table : Macro.Table) (state changed : State) : Prop where
  tokens : table.Pastes state.tokens.toList changed.tokens.toList
  definitions : List.Forall₂ table.PastesBody state.definitions.toList changed.definitions.toList
  opening : Option.Rel (Opening.Pastes table) state.opening changed.opening

/-- The same of what is read in the end. -/
structure Pastes (table : Macro.Table) (scan changed : Scan) : Prop where
  tokens : table.Pastes scan.tokens changed.tokens
  definitions : List.Forall₂ table.PastesBody scan.table.definitions changed.table.definitions

variable {table : Macro.Table} {state changed opened : State} {opening : Opening}
  {offset place : Nat} {name : String} {tokens others : List Token} {items pasted : List Item}
  {scan : Scan}

theorem wordTokens_alike (first second : Nat) (run : List Char) :
    List.Forall₂ Token.Alike (wordTokens first run) (wordTokens second run) := by
  induction run generalizing first second with
  | nil => exact .nil
  | cons char run ih =>
    rw [wordTokens_cons, wordTokens_cons]
    cases Symbol.ofChar? char with
    | none => exact ih _ _
    | some symbol => exact .cons ⟨rfl, rfl⟩ (ih _ _)

theorem Piece.tokens_alike (first second : Nat) (piece : Piece) :
    List.Forall₂ Token.Alike (piece.tokens first) (piece.tokens second) := by
  cases piece with
  | blanks _ => exact .nil
  | call _ => exact .cons ⟨rfl, rfl⟩ .nil
  | word run => exact wordTokens_alike first second run.chars

theorem tokensOf_alike (first second : Nat) (inner : List Piece) :
    List.Forall₂ Token.Alike (tokensOf first inner) (tokensOf second inner) := by
  induction inner generalizing first second with
  | nil => exact .nil
  | cons piece inner ih => exact List.rel_append (piece.tokens_alike first second) (ih _ _)

namespace Pasted

theorem refl (table : Macro.Table) (items : List Item) : Pasted table items items := by
  induction items with
  | nil => exact .nil
  | cons item _ ih => exact .keep item ih

theorem append_left (before : List Item) (rest : Pasted table items pasted) :
    Pasted table (before ++ items) (before ++ pasted) := by
  induction before with
  | nil => exact rest
  | cons item _ ih => exact .keep item ih

end Pasted

namespace State

namespace Pastes

theorem nil (table : Macro.Table) : State.Pastes table {} {} := ⟨.nil, .nil, .none⟩

theorem emit (pastes : state.Pastes table changed) (both : table.Pastes tokens others) :
    (state.emit tokens).Pastes table (changed.emit others) := by
  obtain ⟨outer, definitions, inside⟩ := pastes
  obtain ⟨read, known, opening⟩ := state
  obtain ⟨read', known', opening'⟩ := changed
  cases inside with
  | none => exact ⟨by simpa [State.emit] using outer.append both, definitions, .none⟩
  | some inner =>
    exact ⟨outer, definitions, .some ⟨inner.name, by simpa using inner.body.append both⟩⟩

theorem opening_eq_none (pastes : state.Pastes table changed) (outside : state.opening = none) :
    changed.opening = none := by
  have inside := pastes.opening
  generalize changed.opening = opening at inside ⊢
  rw [outside] at inside
  cases inside
  rfl

theorem define (pastes : state.Pastes table changed)
    (fresh : state.define name offset = .ok opened) (place : Nat) :
    ∃ opened', changed.define name place = .ok opened' ∧ opened.Pastes table opened' := by
  obtain ⟨absent, rfl⟩ := define_eq_ok_iff.mp fresh
  rw [← Macro.Table.names_eq_of_pastes pastes.definitions] at absent
  exact ⟨_, define_eq_ok_iff.mpr ⟨absent, rfl⟩, pastes.tokens, pastes.definitions,
    .some ⟨rfl, .nil⟩⟩

theorem close (pastes : state.Pastes table changed) (inside : state.opening = some opening) :
    ∃ opening', changed.opening = some opening' ∧
      (state.close opening).Pastes table (changed.close opening') := by
  have both := pastes.opening
  rw [inside] at both
  cases found : changed.opening with
  | none =>
    rw [found] at both
    cases both
  | some opening' =>
    rw [found] at both
    cases both with
    | some inner =>
      refine ⟨opening', rfl, pastes.tokens, ?_, .none⟩
      have closed : table.PastesBody ⟨opening.name, opening.body.toList, opening.offset⟩
          ⟨opening'.name, opening'.body.toList, opening'.offset⟩ := ⟨inner.name, inner.body⟩
      simpa [State.close] using List.rel_append pastes.definitions (.cons closed .nil)

end Pastes
end State

theorem Reads.paste (reads : Reads state offset items scan) (pastes : state.Pastes table changed)
    (replaced : Pasted table items pasted) (place : Nat) :
    ∃ scan', Reads changed place pasted scan' ∧ scan.Pastes table scan' := by
  induction reads generalizing changed pasted place with
  | done outside =>
    cases replaced
    exact ⟨_, .done (pastes.opening_eq_none outside), pastes.tokens, pastes.definitions⟩
  | @piece state offset content items scan _ ih =>
    cases replaced with
    | keep _ rest =>
      obtain ⟨scan', reads, both⟩ :=
        ih (pastes.emit (.of_alike (content.tokens_alike offset place))) rest _
      exact ⟨scan', .piece reads, both⟩
    | @paste name callee items pasted inner found alike rest =>
      have called : table.Pastes [.callOf name.text offset] (tokensOf place inner ++ []) :=
        .paste rfl found (.of_alike (alike place)) .nil
      rw [List.append_nil] at called
      obtain ⟨scan', reads, both⟩ := ih (pastes.emit called) rest _
      exact ⟨scan', (reads_pieces_iff inner).mpr reads, both⟩
  | opening outside fresh _ ih =>
    cases replaced with
    | keep _ rest =>
      obtain ⟨opened', fresh', pastes'⟩ := pastes.define fresh place
      obtain ⟨scan', reads, both⟩ := ih pastes' rest _
      exact ⟨scan', .opening (pastes.opening_eq_none outside) fresh' reads, both⟩
  | closing inside _ ih =>
    cases replaced with
    | keep _ rest =>
      obtain ⟨opening', inside', pastes'⟩ := pastes.close inside
      obtain ⟨scan', reads, both⟩ := ih pastes' rest _
      exact ⟨scan', .closing inside' reads, both⟩

end Brainfuck.Scan
