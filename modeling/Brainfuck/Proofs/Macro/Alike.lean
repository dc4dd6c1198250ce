import Brainfuck.Build
import Brainfuck.Proofs.Macro.Pasting

namespace Brainfuck

/-- Results that are related, or errors that are. -/
inductive Agree {Error Result Result' : Type} (blame : Error → Error → Prop)
    (related : Result → Result' → Prop) : Except Error Result → Except Error Result' → Prop where
  | ok {first : Result} {second : Result'} (both : related first second) :
      Agree blame related (.ok first) (.ok second)
  | error {first second : Error} (both : blame first second) :
      Agree blame related (.error first) (.error second)

namespace Agree

variable {Error First First' Second Second' Item Item' : Type} {blame : Error → Error → Prop}
  {related : First → First' → Prop} {related' : Second → Second' → Prop}
  {each : Item → Item' → Prop}

theorem bind {first : Except Error First} {first' : Except Error First'}
    {next : First → Except Error Second} {next' : First' → Except Error Second'}
    (begun : Agree blame related first first')
    (later : ∀ value value', related value value' →
      Agree blame related' (next value) (next' value')) :
    Agree blame related' (first >>= next) (first' >>= next') := by
  cases begun with
  | ok both => exact later _ _ both
  | error both => exact .error both

theorem foldlM {step : First → Item → Except Error First}
    {step' : First' → Item' → Except Error First'}
    (steps : ∀ value value' item item', related value value' → each item item' →
      Agree blame related (step value item) (step' value' item'))
    {items : List Item} {items' : List Item'} (alike : List.Forall₂ each items items')
    {value : First} {value' : First'} (begun : related value value') :
    Agree blame related (items.foldlM step value) (items'.foldlM step' value') := by
  induction alike generalizing value value' with
  | nil => exact .ok begun
  | cons first _ ih =>
    rw [List.foldlM_cons, List.foldlM_cons]
    exact (steps _ _ _ _ begun first).bind fun _ _ => ih

end Agree

/-- The same flaw, maybe at another place. -/
def Diagnostic.Alike (first second : Diagnostic) : Prop := first.flaw = second.flaw

namespace Macro

/-- The same name and the same body, maybe at another place. -/
structure Definition.Alike (first second : Definition) : Prop where
  name : first.name = second.name
  body : List.Forall₂ Token.Alike first.body second.body

namespace Table

/-- The same definitions in the same order, maybe at other places. -/
def Alike (table other : Table) : Prop :=
  List.Forall₂ Definition.Alike table.definitions other.definitions

variable {table other : Table} {trail opened : List String} {token token' last : Token}
  {tokens tokens' out : List Token} {callee : Definition} {flaw : Flaw}

theorem Alike.pastesInto (alike : table.Alike other) : table.PastesInto other :=
  alike.imp fun _ _ both => ⟨both.name, .of_alike both.body⟩

namespace Alike

theorem find? (alike : table.Alike other) (name : String) :
    Option.Rel Definition.Alike (table.find? name) (other.find? name) := by
  unfold Alike at alike
  unfold Table.find?
  generalize table.definitions = definitions at alike
  generalize other.definitions = others at alike
  induction alike with
  | nil => exact .none
  | cons first _ ih =>
    rw [List.find?_cons, List.find?_cons, ← first.name]
    split
    · exact .some first
    · exact ih

theorem callee? (alike : table.Alike other) (both : token.Alike token') :
    Option.Rel Definition.Alike (table.callee? token) (other.callee? token') := by
  unfold Table.callee?
  rw [← both.name]
  cases token.name with
  | none => exact .none
  | some name => exact alike.find? name

theorem exists_callee (alike : table.Alike other) (both : token.Alike token')
    (found : table.callee? token = some callee) :
    ∃ callee', other.callee? token' = some callee' ∧ callee.Alike callee' := by
  have called := alike.callee? both
  rw [found] at called
  generalize other.callee? token' = callee'? at called
  cases called with
  | some same => exact ⟨_, rfl, same⟩

theorem offence (alike : table.Alike other) (both : token.Alike token')
    (offence : table.Offence trail token flaw) : other.Offence trail token' flaw := by
  cases offence with
  | undefined missing =>
    rw [both.name]
    refine .undefined ?_
    have called := alike.callee? both
    rw [missing] at called
    generalize other.callee? token' = callee'? at called
    cases called
    rfl
  | recursive found parts nearest =>
    obtain ⟨callee', found', same⟩ := alike.exists_callee both found
    rw [same.name] at parts nearest ⊢
    exact .recursive found' parts nearest

end Alike

theorem Passes.of_alike (passes : table.Passes trail tokens out) (alike : table.Alike other)
    (both : List.Forall₂ Token.Alike tokens tokens') :
    ∃ out', other.Passes trail tokens' out' ∧ List.Forall₂ Token.Alike out out' := by
  induction passes generalizing tokens' with
  | nil =>
    cases both
    exact ⟨[], .nil, .nil⟩
  | plain kept _ ih =>
    obtain - | ⟨first, rest⟩ := both
    obtain ⟨out', passes, same⟩ := ih rest
    exact ⟨_, .plain (first.isCall.trans kept) passes, .cons first same⟩
  | call called found fresh _ _ ihInner ihRest =>
    obtain - | ⟨first, rest⟩ := both
    obtain ⟨callee', found', callees⟩ := alike.exists_callee first found
    obtain ⟨body', inner, same⟩ := ihInner callees.body
    obtain ⟨out', passes, same'⟩ := ihRest rest
    rw [callees.name] at fresh inner
    exact ⟨_, .call (first.isCall.trans called) found' fresh inner passes,
      List.rel_append same same'⟩

/-- The walk stops for the same flaw. -/
theorem Stops.of_alike (stops : table.Stops trail tokens opened last flaw)
    (alike : table.Alike other) (both : List.Forall₂ Token.Alike tokens tokens') :
    ∃ last', other.Stops trail tokens' opened last' flaw := by
  induction stops generalizing tokens' with
  | here called offence =>
    obtain - | ⟨first, rest⟩ := both
    exact ⟨_, .here (first.isCall.trans called) (alike.offence first offence)⟩
  | plain kept _ ih =>
    obtain - | ⟨first, rest⟩ := both
    obtain ⟨last', later⟩ := ih rest
    exact ⟨last', .plain (first.isCall.trans kept) later⟩
  | inside called found fresh _ ih =>
    obtain - | ⟨first, rest⟩ := both
    obtain ⟨callee', found', callees⟩ := alike.exists_callee first found
    obtain ⟨last', inner⟩ := ih callees.body
    rw [callees.name] at fresh inner
    exact ⟨last', .inside (first.isCall.trans called) found' fresh inner⟩
  | behind called found fresh inner _ ih =>
    obtain - | ⟨first, rest⟩ := both
    obtain ⟨callee', found', callees⟩ := alike.exists_callee first found
    obtain ⟨body', inner', -⟩ := inner.of_alike alike callees.body
    obtain ⟨last', later⟩ := ih rest
    rw [callees.name] at fresh inner'
    exact ⟨last', .behind (first.isCall.trans called) found' fresh inner' later⟩

theorem Alike.check (alike : table.Alike other) :
    Agree Diagnostic.Alike Eq table.check other.check := by
  have calls : List.Forall₂ Token.Alike table.calls other.calls := by
    rw [alike.pastesInto.calls_eq]
    exact List.forall₂_same.mpr fun token _ => .refl token
  rcases passes_or_stops (.nil table) table.calls with ⟨out, passes⟩ | ⟨opened, last, flaw, stops⟩
  · obtain ⟨out', passes', -⟩ := passes.of_alike alike calls
    rw [check_of_passes passes, check_of_passes passes']
    exact .ok rfl
  · obtain ⟨last', stops'⟩ := stops.of_alike alike calls
    rw [check_of_stops stops, check_of_stops stops']
    exact .error rfl

theorem Alike.expand (alike : table.Alike other)
    (both : List.Forall₂ Token.Alike tokens tokens') :
    Agree Diagnostic.Alike (List.Forall₂ Token.Alike) (table.expand tokens)
      (other.expand tokens') := by
  rcases passes_or_stops (.nil table) tokens with ⟨out, passes⟩ | ⟨opened, last, flaw, stops⟩
  · obtain ⟨out', passes', same⟩ := passes.of_alike alike both
    rw [expand_of_passes passes, expand_of_passes passes']
    exact .ok same
  · obtain ⟨last', stops'⟩ := stops.of_alike alike both
    rw [expand_of_stops stops, expand_of_stops stops']
    exact .error rfl

end Table
end Macro

/-- The same tokens and the same definitions, maybe at other places. -/
structure Scan.Alike (first second : Scan) : Prop where
  tokens : List.Forall₂ Token.Alike first.tokens second.tokens
  table : first.table.Alike second.table

theorem Scan.Alike.flatten {first second : Scan} (alike : first.Alike second) :
    Agree Diagnostic.Alike (List.Forall₂ Token.Alike) first.flatten second.flatten :=
  alike.table.check.bind fun _ _ _ => alike.table.expand alike.tokens

end Brainfuck
