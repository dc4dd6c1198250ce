import Brainfuck.Proofs.Macro.Loop
import Brainfuck.Proofs.Macro.OpenCalls
import Brainfuck.Proofs.Macro.Substitution

namespace Brainfuck.Macro.Table

/-- Expansion of tokens is substitution in them, as far as there is one. -/
structure ExpandsExactly (table : Table) (tokens : List Token) : Prop where
  ends : ∃ turns, ∀ fuel ≥ turns,
    Loop.run table fuel (Loop.start tokens) = some (table.expand tokens)
  succeeds : (∃ out, table.expand tokens = .ok out) ↔ table.Sound tokens
  substitutes : ∀ out, table.expand tokens = .ok out ↔ table.Substitutes tokens out
  call_free : ∀ out, table.expand tokens = .ok out → ∀ token ∈ out, token.isCall = false
  /-- The first call that must not be entered is reported, and what is wrong with it. -/
  refuses : ∀ diagnostic, table.expand tokens = .error diagnostic ↔
    ∃ opened last flaw, table.Stops [] tokens opened last flaw ∧
      table.Offence opened last flaw ∧ diagnostic = ⟨flaw, last.offset⟩
  cycle : ∀ chain offset, table.expand tokens = .error ⟨.recursiveCall chain, offset⟩ →
    table.Cycle chain

theorem expand_exact (table : Table) (tokens : List Token) : table.ExpandsExactly tokens where
  ends := Loop.run_start table tokens
  succeeds := by
    simp only [expand_eq_ok_iff, passes_iff_substitutes]
    exact exists_substitutes_iff
  substitutes out := by rw [expand_eq_ok_iff, passes_iff_substitutes]
  call_free out expanded := (expand_eq_ok_iff.mp expanded).substitutes.call_free
  refuses diagnostic := by
    rw [expand_eq_error_iff]
    constructor
    · intro refused
      obtain ⟨opened, last, flaw, stops, same⟩ := refused
      exact ⟨opened, last, flaw, stops, stops.offence, same⟩
    · rintro ⟨opened, last, flaw, stops, -, same⟩
      exact ⟨opened, last, flaw, stops, same⟩
  cycle chain offset refused := by
    obtain ⟨opened, last, flaw, stops, same⟩ := expand_eq_error_iff.mp refused
    cases same
    exact stops.cycle (.nil table tokens)

end Brainfuck.Macro.Table
