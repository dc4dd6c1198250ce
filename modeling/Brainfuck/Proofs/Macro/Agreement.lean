import Mathlib.Data.List.Permutation
import Brainfuck.Proofs.Macro.Substitution

namespace Brainfuck.Macro.Table

variable {table : Table} {trail sound reached opened : List String} {token last : Token}
  {callee : Definition} {tokens out body : List Token} {flaw : Flaw} {depth : Nat}

theorem Substitutes.passes (substitutes : table.Substitutes tokens out)
    (apart : ∀ call callee, table.Reaches tokens call → table.callee? call = some callee →
      callee.name ∉ trail) : table.Passes trail tokens out := by
  induction substitutes generalizing trail with
  | nil => exact .nil
  | plain kept _ ih =>
    refine .plain kept (ih fun call callee reaches => apart call callee ?_)
    exact reaches.of_subset (List.subset_cons_self _ _)
  | @call token callee tokens body out called found inner rest ihInner ihRest =>
    have fresh := apart token callee (.here List.mem_cons_self called) found
    refine .call called found fresh (ihInner ?_) (ihRest ?_)
    · intro call other reaches found' member
      rcases List.mem_cons.mp member with same | opened
      · have present := (callee?_name found').2
        rw [same, (callee?_name found).2] at present
        cases present
        have whole := Substitutes.call called found inner rest
        exact whole.not_cyclic (.here List.mem_cons_self called) found ⟨call, reaches, found'⟩
      · exact apart call other (.through List.mem_cons_self called found reaches) found' opened
    · intro call other reaches
      exact apart call other (reaches.of_subset (List.subset_cons_self _ _))

/-- The definitions that calls among the tokens lead to at once are known to be sound. -/
def CallsKnown (table : Table) (sound : List String) (tokens : List Token) : Prop :=
  ∀ call ∈ tokens, call.isCall = true → ∀ callee, table.callee? call = some callee →
    callee.name ∈ sound

/-- Names that were found sound: their bodies stand for something, they call only names of
their own kind, and none of them is open. -/
structure Settled (table : Table) (trail sound : List String) : Prop where
  substituted : ∀ name ∈ sound, ∃ definition body, table.find? name = some definition ∧
    table.Substitutes definition.body body
  closed : ∀ name ∈ sound, ∀ definition, table.find? name = some definition →
    table.CallsKnown sound definition.body
  apart : ∀ name ∈ sound, name ∉ trail

theorem CallsKnown.mono {more : List String} (known : table.CallsKnown sound tokens)
    (subset : sound ⊆ more) : table.CallsKnown more tokens :=
  fun call member called callee found => subset (known call member called callee found)

namespace Settled

theorem nil (table : Table) (trail : List String) : table.Settled trail [] :=
  ⟨by simp, by simp, by simp⟩

theorem reached_mem {call : Token} (settled : table.Settled trail sound)
    (known : table.CallsKnown sound tokens) (reaches : table.Reaches tokens call)
    (found : table.callee? call = some callee) : callee.name ∈ sound := by
  induction reaches with
  | here member called => exact known _ member called callee found
  | @through _ outer _ next member called found' _ ih =>
    have inner := known outer member called next found'
    exact ih (settled.closed next.name inner next (callee?_name found').2) found

/-- Following a macro that was found sound once more would not stop. -/
theorem passes_body (settled : table.Settled trail sound) (called : token.isCall = true)
    (found : table.callee? token = some callee) (known : callee.name ∈ sound) :
    ∃ body, table.Passes (callee.name :: trail) callee.body body := by
  obtain ⟨definition, body, present, substitutes⟩ := settled.substituted callee.name known
  cases (callee?_name found).2.symm.trans present
  have whole : table.Substitutes [token] (body ++ []) := .call called found substitutes .nil
  have knowsCall : table.CallsKnown sound [token] := by
    intro call member _ other found'
    cases List.mem_singleton.mp member
    cases found.symm.trans found'
    exact known
  have passes : ∃ out, table.Passes trail [token] out := by
    refine ⟨_, whole.passes fun call other reaches found' => ?_⟩
    exact settled.apart other.name (settled.reached_mem knowsCall reaches found')
  obtain ⟨out, passes⟩ := passes
  cases passes with
  | plain kept _ => simp [called] at kept
  | call _ found' _ inner _ =>
    cases found.symm.trans found'
    exact ⟨_, inner⟩

theorem enter (settled : table.Settled trail sound) (unknown : callee.name ∉ sound) :
    table.Settled (callee.name :: trail) sound where
  substituted := settled.substituted
  closed := settled.closed
  apart name member opened := by
    rcases List.mem_cons.mp opened with rfl | opened
    · exact unknown member
    · exact settled.apart name member opened

/-- A macro is sound once its body was followed to the end. -/
theorem leave (settled : table.Settled (callee.name :: trail) reached)
    (present : table.find? callee.name = some callee) (fresh : callee.name ∉ trail)
    (substitutes : table.Substitutes callee.body body)
    (known : table.CallsKnown reached callee.body) :
    table.Settled trail (callee.name :: reached) where
  substituted name member := by
    rcases List.mem_cons.mp member with rfl | before
    · exact ⟨callee, body, present, substitutes⟩
    · exact settled.substituted name before
  closed name member definition found := by
    rcases List.mem_cons.mp member with rfl | before
    · cases present.symm.trans found
      exact known.mono (List.subset_cons_self _ _)
    · exact (settled.closed name before definition found).mono (List.subset_cons_self _ _)
  apart name member opened := by
    rcases List.mem_cons.mp member with rfl | before
    · exact fresh opened
    · exact settled.apart name before (List.mem_cons_of_mem _ opened)

end Settled

theorem visit_plain (kept : token.isCall = false) :
    table.visit depth trail sound token = .ok sound := by
  cases depth <;> simp [visit, kept]

theorem visit_offence (called : token.isCall = true) (offence : table.Offence trail token flaw) :
    table.visit depth trail sound token = .error ⟨flaw, token.offset⟩ := by
  cases depth <;> rw [visit, if_pos called, enter_of_offence offence]

theorem visit_known (called : token.isCall = true) (found : table.callee? token = some callee)
    (fresh : callee.name ∉ trail) (known : callee.name ∈ sound) :
    table.visit depth trail sound token = .ok sound := by
  cases depth <;> simp [visit, called, enter_eq_ok_iff.mpr ⟨found, fresh⟩, known]

theorem visit_call (called : token.isCall = true) (found : table.callee? token = some callee)
    (fresh : callee.name ∉ trail) (unknown : callee.name ∉ sound) :
    table.visit (depth + 1) trail sound token =
      match callee.body.foldlM (table.visit depth (callee.name :: trail)) sound with
      | .error diagnostic => .error diagnostic
      | .ok reached => .ok (callee.name :: reached) := by
  rw [visit, if_pos called, enter_eq_ok_iff.mpr ⟨found, fresh⟩]
  exact if_neg unknown

theorem Passes.visit (passes : table.Passes trail tokens out) (opens : table.Opens trail)
    (room : table.definitions.length ≤ depth + trail.length)
    (settled : table.Settled trail sound) :
    ∃ reached, tokens.foldlM (table.visit depth trail) sound = .ok reached ∧
      table.Settled trail reached ∧ sound ⊆ reached ∧ table.CallsKnown reached tokens := by
  induction passes generalizing depth sound with
  | nil => exact ⟨sound, rfl, settled, List.Subset.refl _, by simp [CallsKnown]⟩
  | @plain trail token tokens out kept _ ih =>
    obtain ⟨reached, visited, settled', grown, known⟩ := ih opens room settled
    refine ⟨reached, ?_, settled', grown, ?_⟩
    · rw [List.foldlM_cons, visit_plain kept]
      exact visited
    · intro call member called
      rcases List.mem_cons.mp member with rfl | later
      · simp [kept] at called
      · exact known call later called
  | @call trail token callee tokens body out called found fresh inner _ ihInner ihRest =>
    have first : ∃ middle, table.visit depth trail sound token = .ok middle ∧
        table.Settled trail middle ∧ sound ⊆ middle ∧ callee.name ∈ middle := by
      by_cases before : callee.name ∈ sound
      · exact ⟨sound, visit_known called found fresh before, settled, List.Subset.refl _, before⟩
      · obtain ⟨less, rfl, room'⟩ := opens.exists_depth found fresh room
        obtain ⟨reached, visited, settled', grown, known⟩ :=
          ihInner (opens.cons found fresh) room' (settled.enter before)
        refine ⟨callee.name :: reached, ?_, ?_, fun name member =>
          List.mem_cons_of_mem _ (grown member), List.mem_cons_self⟩
        · rw [visit_call called found fresh before, visited]
        · exact settled'.leave (callee?_name found).2 fresh inner.substitutes known
    obtain ⟨middle, visited, settled', grown, sound'⟩ := first
    obtain ⟨reached, visited', settled'', grown', known⟩ := ihRest opens room settled'
    refine ⟨reached, ?_, settled'', List.Subset.trans grown grown', ?_⟩
    · rw [List.foldlM_cons, visited]
      exact visited'
    · intro call member called' other found'
      rcases List.mem_cons.mp member with rfl | later
      · cases found.symm.trans found'
        exact grown' sound'
      · exact known call later called' other found'

theorem Passes.not_stops (passes : table.Passes trail tokens out) (opens : table.Opens trail) :
    ¬ table.Stops trail tokens opened last flaw := by
  intro stops
  have room : table.definitions.length ≤ table.definitions.length + trail.length := by omega
  have passed : tokens.foldlM (table.expandToken table.definitions.length trail) #[] =
      .ok (#[] ++ out) := passes.expand opens room
  rw [stops.expand opens room] at passed
  cases passed

/-- The check stops where the walk stops, and says the same. -/
theorem Stops.visit (stops : table.Stops trail tokens opened last flaw)
    (opens : table.Opens trail) (room : table.definitions.length ≤ depth + trail.length)
    (settled : table.Settled trail sound) :
    tokens.foldlM (table.visit depth trail) sound = .error ⟨flaw, last.offset⟩ := by
  induction stops generalizing depth sound with
  | here called offence =>
    rw [List.foldlM_cons, visit_offence called offence]
    rfl
  | plain kept _ ih =>
    rw [List.foldlM_cons, visit_plain kept]
    exact ih opens room settled
  | @inside trail opened token last callee tokens flaw called found fresh stopped ih =>
    have opens' := opens.cons found fresh
    have unknown : callee.name ∉ sound := by
      intro known
      obtain ⟨body, passes⟩ := settled.passes_body called found known
      exact passes.not_stops opens' stopped
    obtain ⟨less, rfl, room'⟩ := opens.exists_depth found fresh room
    rw [List.foldlM_cons, visit_call called found fresh unknown,
      ih opens' room' (settled.enter unknown)]
    rfl
  | @behind trail opened token last callee tokens body flaw called found fresh inner _ ih =>
    have passed : table.Passes trail [token] (body ++ []) := .call called found fresh inner .nil
    obtain ⟨reached, visited, settled', -⟩ := passed.visit opens room settled
    rw [← List.singleton_append, List.foldlM_append, visited]
    exact ih opens room settled'

theorem check_of_passes (passes : table.Passes [] table.calls out) : table.check = .ok () := by
  obtain ⟨reached, visited, -⟩ :=
    passes.visit (.nil table) (Nat.le_refl table.definitions.length) (.nil table [])
  rw [check, visited]

theorem check_of_stops (stops : table.Stops [] table.calls opened last flaw) :
    table.check = .error ⟨flaw, last.offset⟩ := by
  rw [check, stops.visit (.nil table) (Nat.le_refl table.definitions.length) (.nil table [])]

theorem check_eq_ok_iff : table.check = .ok () ↔ ∃ out, table.Substitutes table.calls out := by
  constructor
  · intro checked
    rcases passes_or_stops (.nil table) table.calls with ⟨out, passes⟩ | ⟨_, _, _, stops⟩
    · exact ⟨out, passes.substitutes⟩
    · cases (check_of_stops stops).symm.trans checked
  · intro substituted
    obtain ⟨out, substitutes⟩ := substituted
    exact check_of_passes (passes_iff_substitutes.mpr substitutes)

theorem sortedNames_perm (table : Table) : table.sortedNames.Perm table.names :=
  List.mergeSort_perm _ _

theorem exists_callee {call : Token} {definition : Definition} (checked : table.check = .ok ())
    (distinct : table.names.Nodup) (member : definition ∈ table.definitions)
    (inside : call ∈ definition.body) (called : call.isCall = true) :
    ∃ callee, table.callee? call = some callee := by
  obtain ⟨out, substitutes⟩ := check_eq_ok_iff.mp checked
  have named : definition.name ∈ table.sortedNames :=
    (sortedNames_perm table).mem_iff.mpr (List.mem_map_of_mem member)
  have among : Token.callOf definition.name 0 ∈ table.calls := List.mem_map_of_mem named
  have found : table.callee? (.callOf definition.name 0) = some definition :=
    find?_of_mem distinct member
  obtain ⟨callee, -, found', -⟩ :=
    substitutes.of_reaches (.through among rfl found (.here inside called))
  exact ⟨callee, found'⟩

theorem check_eq_error_iff {diagnostic : Diagnostic} :
    table.check = .error diagnostic ↔ table.expand table.calls = .error diagnostic := by
  rcases passes_or_stops (.nil table) table.calls with ⟨out, passes⟩ | ⟨_, _, _, stops⟩
  · simp [check_of_passes passes, expand_of_passes passes]
  · rw [check_of_stops stops, expand_of_stops stops]
    simp

theorem sortedNames_pairwise (table : Table) : table.sortedNames.Pairwise (· ≤ ·) := by
  have sorted : table.sortedNames.Pairwise fun first second => decide (first ≤ second) = true := by
    apply List.pairwise_mergeSort
    · intro first second third
      simpa using String.le_trans
    · intro first second
      simpa using String.le_total first second
  simpa using sorted

/-- Where the calls of the names of a table stand makes no difference: none of them is at
fault itself. -/
theorem expand_calls (table : Table) (offset : String → Int) :
    table.expand (table.sortedNames.map fun name => .callOf name (offset name)) =
      table.expand table.calls := by
  have entered : ∀ name ∈ table.sortedNames, ∀ output,
      table.expandToken table.definitions.length [] output (.callOf name (offset name)) =
        table.expandToken table.definitions.length [] output (.callOf name 0) := by
    intro name member output
    obtain ⟨callee, present⟩ := Option.isSome_iff_exists.mp
      (find?_isSome_iff.mpr ((sortedNames_perm table).mem_iff.mp member))
    have found (place : Int) : table.callee? (.callOf name place) = some callee := present
    obtain ⟨less, depth, -⟩ := (Opens.nil table).exists_depth (found 0) List.not_mem_nil
      (Nat.le_refl table.definitions.length)
    rw [depth, expandToken_call rfl (found _) List.not_mem_nil,
      expandToken_call rfl (found 0) List.not_mem_nil]
  have folded : ∀ names : List String, names ⊆ table.sortedNames → ∀ output,
      (names.map fun name => Token.callOf name (offset name)).foldlM
          (table.expandToken table.definitions.length []) output =
        (names.map (Token.callOf · 0)).foldlM
          (table.expandToken table.definitions.length []) output := by
    intro names
    induction names with
    | nil => simp
    | cons name names ih =>
      intro subset output
      obtain ⟨member, others⟩ := List.cons_subset.mp subset
      rw [List.map_cons, List.map_cons, List.foldlM_cons, List.foldlM_cons,
        entered name member output]
      exact bind_congr fun after => ih others after
  rw [expand, expand, calls, folded _ (List.Subset.refl _)]

/-- A table is checked as tokens are expanded: both succeed, or both fail with the same
diagnostic, and so with the same report against every text. -/
structure ChecksAs (table : Table) (tokens : List Token) : Prop where
  succeeds : table.check = .ok () ↔ ∃ out, table.expand tokens = .ok out
  fails : ∀ diagnostic, table.check = .error diagnostic ↔ table.expand tokens = .error diagnostic
  reports : ∀ source error, table.check.mapError (·.report source) = .error error ↔
    (table.expand tokens).mapError (·.report source) = .error error

/-- A table is checked as a call of each of its names is expanded, in ascending order of
the names and wherever the calls stand. -/
theorem check_as_expansion (table : Table) (offset : String → Int) :
    table.sortedNames.Pairwise (· ≤ ·) ∧ table.sortedNames.Perm table.names ∧
      table.ChecksAs (table.sortedNames.map fun name => .callOf name (offset name)) := by
  refine ⟨sortedNames_pairwise table, sortedNames_perm table, ?_⟩
  constructor
  · rw [expand_calls, check_eq_ok_iff]
    simp only [expand_eq_ok_iff_substitutes]
  · intro diagnostic
    rw [expand_calls, check_eq_error_iff]
  · intro source error
    rw [expand_calls]
    cases checked : table.check with
    | error diagnostic =>
      rw [check_eq_error_iff.mp checked]
      constructor <;> (intro same; cases same; rfl)
    | ok done =>
      obtain ⟨out, substitutes⟩ := check_eq_ok_iff.mp checked
      rw [expand_eq_ok_iff_substitutes.mpr substitutes]
      constructor <;> (intro same; cases same)

end Brainfuck.Macro.Table
