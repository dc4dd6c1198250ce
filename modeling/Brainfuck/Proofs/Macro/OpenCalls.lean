import Mathlib.Data.List.Chain
import Brainfuck.Proofs.Macro.Walk

namespace Brainfuck.Macro.Table

/-- The second name is called in the body that the first is defined as. -/
def CallsName (table : Table) (outer inner : String) : Prop :=
  ∃ definition call, table.find? outer = some definition ∧ call ∈ definition.body ∧
    call.isCall = true ∧ call.name = some inner

/-- Open calls, the innermost first, and tokens of the body that the innermost entered. -/
structure Linked (table : Table) (trail : List String) (tokens : List Token) : Prop where
  distinct : trail.Nodup
  chained : trail.IsChain fun inner outer => table.CallsName outer inner
  within : ∀ name ∈ trail.head?, ∃ definition, table.find? name = some definition ∧
    tokens ⊆ definition.body

/-- A chain that begins and ends with one name. The names before its end are distinct,
and each name behind its beginning is called in the body of the name before. -/
structure Cycle (table : Table) (chain : List String) : Prop where
  closed : ∃ name inner, chain = name :: inner ++ [name]
  distinct : chain.dropLast.Nodup
  linked : chain.IsChain table.CallsName

variable {table : Table} {trail opened : List String} {token last : Token} {callee : Definition}
  {tokens more : List Token} {flaw : Flaw}

namespace Linked

theorem nil (table : Table) (tokens : List Token) : table.Linked [] tokens :=
  ⟨.nil, .nil, by simp⟩

theorem of_subset (linked : table.Linked trail tokens) (subset : more ⊆ tokens) :
    table.Linked trail more where
  distinct := linked.distinct
  chained := linked.chained
  within name outermost := by
    obtain ⟨definition, found, body⟩ := linked.within name outermost
    exact ⟨definition, found, List.Subset.trans subset body⟩

theorem chained_cons (linked : table.Linked trail tokens) (member : token ∈ tokens)
    (called : token.isCall = true) {name : String} (named : token.name = some name) :
    (name :: trail).IsChain fun inner outer => table.CallsName outer inner := by
  refine linked.chained.cons fun outer innermost => ?_
  obtain ⟨definition, found, body⟩ := linked.within outer innermost
  exact ⟨definition, token, found, body member, called, named⟩

theorem enter (linked : table.Linked trail tokens) (member : token ∈ tokens)
    (called : token.isCall = true) (found : table.callee? token = some callee)
    (fresh : callee.name ∉ trail) : table.Linked (callee.name :: trail) callee.body := by
  obtain ⟨named, present⟩ := callee?_name found
  refine ⟨List.nodup_cons.mpr ⟨fresh, linked.distinct⟩, linked.chained_cons member called named, ?_⟩
  intro name innermost
  cases innermost
  exact ⟨callee, present, List.Subset.refl _⟩

end Linked

/-- The calls that are open where a walk stops are linked to the call at which it stops. -/
theorem Stops.linked (stops : table.Stops trail tokens opened last flaw)
    (linked : table.Linked trail tokens) :
    last.isCall = true ∧ table.Linked opened [last] := by
  induction stops with
  | here called _ => exact ⟨called, linked.of_subset (by simp)⟩
  | plain _ _ ih => exact ih (linked.of_subset (List.subset_cons_self _ _))
  | inside called found fresh _ ih => exact ih (linked.enter List.mem_cons_self called found fresh)
  | behind _ _ _ _ _ ih => exact ih (linked.of_subset (List.subset_cons_self _ _))

/-- The chain of a recursive call is a cycle. -/
theorem Stops.cycle {chain : List String}
    (stops : table.Stops trail tokens opened last (.recursiveCall chain))
    (linked : table.Linked trail tokens) : table.Cycle chain := by
  obtain ⟨called, linked⟩ := stops.linked linked
  cases stops.offence with
  | @recursive callee inner outer found parts nearest =>
    obtain ⟨named, -⟩ := callee?_name found
    have chained := linked.chained_cons (List.mem_singleton.mpr rfl) called named
    have distinct := linked.distinct
    rw [parts] at chained distinct
    have split : callee.name :: (inner ++ callee.name :: outer) =
        (callee.name :: inner ++ [callee.name]) ++ outer := by simp
    rw [split] at chained
    have turned : callee.name :: inner.reverse ++ [callee.name] =
        (callee.name :: inner ++ [callee.name]).reverse := by simp
    refine ⟨⟨callee.name, inner.reverse, rfl⟩, ?_, ?_⟩
    · rw [List.dropLast_concat]
      have kept : inner.Nodup := (List.nodup_append.mp distinct).1
      refine List.nodup_cons.mpr ⟨by simpa using nearest, ?_⟩
      exact (List.reverse_perm inner).nodup_iff.mpr kept
    · rw [turned, List.isChain_reverse]
      exact chained.left_of_append

end Brainfuck.Macro.Table
