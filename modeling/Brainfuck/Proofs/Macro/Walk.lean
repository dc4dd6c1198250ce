import Brainfuck.Macro.Expansion

/-! The walk that expansion makes, depth first and from left to right. It carries the
names of the open calls, the innermost first. Either it passes all tokens and leaves
what they stand for, or it stops at the first call that must not be entered. -/

namespace Brainfuck.Macro.Table

variable {table : Table} {trail opened : List String} {token last : Token} {callee : Definition}
  {tokens out : List Token} {flaw : Flaw}

/-- What is wrong with a call: nobody defined its name, or the name is open. Then the
chain is the part of the open calls from that name on, and that name again. -/
inductive Offence (table : Table) (trail : List String) (token : Token) : Flaw → Prop where
  | undefined (missing : table.callee? token = none) :
      Offence table trail token (.undefinedMacro token.name)
  | recursive {callee : Definition} {inner outer : List String}
      (found : table.callee? token = some callee) (parts : trail = inner ++ callee.name :: outer)
      (nearest : callee.name ∉ inner) :
      Offence table trail token
        (.recursiveCall (callee.name :: inner.reverse ++ [callee.name]))

/-- The walk passes the tokens and leaves what they stand for. -/
inductive Passes (table : Table) : List String → List Token → List Token → Prop where
  | nil {trail : List String} : Passes table trail [] []
  | plain {trail : List String} {token : Token} {tokens out : List Token}
      (kept : token.isCall = false) (rest : Passes table trail tokens out) :
      Passes table trail (token :: tokens) (token :: out)
  | call {trail : List String} {token : Token} {callee : Definition} {tokens body out : List Token}
      (called : token.isCall = true) (found : table.callee? token = some callee)
      (fresh : callee.name ∉ trail) (inner : Passes table (callee.name :: trail) callee.body body)
      (rest : Passes table trail tokens out) :
      Passes table trail (token :: tokens) (body ++ out)

/-- The walk stops at a call that must not be entered from the calls open there. What
comes before that call it passes. -/
inductive Stops (table : Table) :
    List String → List Token → List String → Token → Flaw → Prop where
  | here {trail : List String} {token : Token} {tokens : List Token} {flaw : Flaw}
      (called : token.isCall = true) (offence : table.Offence trail token flaw) :
      Stops table trail (token :: tokens) trail token flaw
  | plain {trail opened : List String} {token last : Token} {tokens : List Token} {flaw : Flaw}
      (kept : token.isCall = false) (later : Stops table trail tokens opened last flaw) :
      Stops table trail (token :: tokens) opened last flaw
  | inside {trail opened : List String} {token last : Token} {callee : Definition}
      {tokens : List Token} {flaw : Flaw} (called : token.isCall = true)
      (found : table.callee? token = some callee) (fresh : callee.name ∉ trail)
      (inner : Stops table (callee.name :: trail) callee.body opened last flaw) :
      Stops table trail (token :: tokens) opened last flaw
  | behind {trail opened : List String} {token last : Token} {callee : Definition}
      {tokens body : List Token} {flaw : Flaw} (called : token.isCall = true)
      (found : table.callee? token = some callee) (fresh : callee.name ∉ trail)
      (inner : Passes table (callee.name :: trail) callee.body body)
      (later : Stops table trail tokens opened last flaw) :
      Stops table trail (token :: tokens) opened last flaw

theorem callee?_name (found : table.callee? token = some callee) :
    token.name = some callee.name ∧ table.find? callee.name = some callee := by
  obtain ⟨name, named, found⟩ := Option.bind_eq_some_iff.mp found
  cases find?_some_name found
  exact ⟨named, found⟩

theorem chain_append {inner outer : List String} {name : String} (nearest : name ∉ inner) :
    chain (inner ++ name :: outer) name = name :: inner.reverse ++ [name] := by
  have before : (inner ++ name :: outer).takeWhile (· != name) = inner := by
    rw [List.takeWhile_append_of_pos]
    · simp
    · intro other member
      simp only [bne_iff_ne]
      rintro rfl
      exact nearest member
  rw [chain, before]

theorem enter_of_offence (offence : table.Offence trail token flaw) :
    table.enter trail token = .error ⟨flaw, token.offset⟩ := by
  cases offence with
  | undefined missing => simp [enter, missing]
  | recursive found parts nearest => simp [enter, found, parts, recursion, chain_append nearest]

theorem exists_offence {diagnostic : Diagnostic}
    (refused : table.enter trail token = .error diagnostic) :
    ∃ flaw, table.Offence trail token flaw ∧ diagnostic = ⟨flaw, token.offset⟩ := by
  cases found : table.callee? token with
  | none =>
    have offence : table.Offence trail token _ := .undefined found
    rw [enter_of_offence offence] at refused
    exact ⟨_, offence, (Except.error.inj refused).symm⟩
  | some callee =>
    by_cases opened : callee.name ∈ trail
    · obtain ⟨inner, outer, parts, nearest⟩ := List.eq_append_cons_of_mem opened
      have offence : table.Offence trail token _ := .recursive found parts nearest
      rw [enter_of_offence offence] at refused
      exact ⟨_, offence, (Except.error.inj refused).symm⟩
    · rw [enter_eq_ok_iff.mpr ⟨found, opened⟩] at refused
      cases refused

theorem Stops.offence (stops : table.Stops trail tokens opened last flaw) :
    table.Offence opened last flaw := by
  induction stops with
  | here _ offence => exact offence
  | plain _ _ ih => exact ih
  | inside _ _ _ _ ih => exact ih
  | behind _ _ _ _ _ ih => exact ih

/-- The names of open calls are distinct, and all of them are defined. -/
structure Opens (table : Table) (trail : List String) : Prop where
  distinct : trail.Nodup
  defined : trail ⊆ table.names

namespace Opens

theorem nil (table : Table) : table.Opens [] := ⟨.nil, List.nil_subset _⟩

theorem cons (opens : table.Opens trail) (found : table.callee? token = some callee)
    (fresh : callee.name ∉ trail) : table.Opens (callee.name :: trail) := by
  obtain ⟨-, present⟩ := callee?_name found
  refine ⟨List.nodup_cons.mpr ⟨fresh, opens.distinct⟩, List.cons_subset.mpr ⟨?_, opens.defined⟩⟩
  exact find?_isSome_iff.mp (by rw [present]; rfl)

theorem length_le (opens : table.Opens trail) : trail.length ≤ table.definitions.length := by
  have bound := opens.distinct.length_le_of_subset opens.defined
  rwa [names, List.length_map] at bound

end Opens

theorem passes_or_stops (opens : table.Opens trail) (tokens : List Token) :
    (∃ out, table.Passes trail tokens out) ∨
      ∃ opened last flaw, table.Stops trail tokens opened last flaw := by
  generalize left : table.definitions.length - trail.length = distance
  induction distance using Nat.strongRecOn generalizing trail tokens with
  | ind distance deeper =>
    induction tokens with
    | nil => exact .inl ⟨[], .nil⟩
    | cons token rest ih =>
      cases called : token.isCall with
      | false =>
        rcases ih with ⟨out, passes⟩ | ⟨opened, last, flaw, stops⟩
        · exact .inl ⟨_, .plain called passes⟩
        · exact .inr ⟨opened, last, flaw, .plain called stops⟩
      | true =>
        cases entered : table.enter trail token with
        | error diagnostic =>
          obtain ⟨flaw, offence, -⟩ := exists_offence entered
          exact .inr ⟨trail, token, flaw, .here called offence⟩
        | ok callee =>
          obtain ⟨found, fresh⟩ := enter_eq_ok_iff.mp entered
          have opens' := opens.cons found fresh
          have bound := opens'.length_le
          rw [List.length_cons] at bound
          have inside := deeper (table.definitions.length - (callee.name :: trail).length)
            (by rw [List.length_cons]; omega) opens' callee.body rfl
          rcases inside with ⟨body, inner⟩ | ⟨opened, last, flaw, stops⟩
          · rcases ih with ⟨out, passes⟩ | ⟨opened, last, flaw, stops⟩
            · exact .inl ⟨_, .call called found fresh inner passes⟩
            · exact .inr ⟨opened, last, flaw, .behind called found fresh inner stops⟩
          · exact .inr ⟨opened, last, flaw, .inside called found fresh stops⟩

variable {depth : Nat} {output : Array Token}

theorem expandToken_plain (kept : token.isCall = false) :
    table.expandToken depth trail output token = .ok (output.push token) := by
  cases depth <;> simp [expandToken, kept]

theorem expandToken_call (called : token.isCall = true) (found : table.callee? token = some callee)
    (fresh : callee.name ∉ trail) :
    table.expandToken (depth + 1) trail output token =
      callee.body.foldlM (table.expandToken depth (callee.name :: trail)) output := by
  rw [expandToken, if_pos called, enter_eq_ok_iff.mpr ⟨found, fresh⟩]

theorem expandToken_offence (called : token.isCall = true)
    (offence : table.Offence trail token flaw) :
    table.expandToken depth trail output token = .error ⟨flaw, token.offset⟩ := by
  cases depth <;> rw [expandToken, if_pos called, enter_of_offence offence]

theorem Opens.exists_depth (opens : table.Opens trail)
    (found : table.callee? token = some callee) (fresh : callee.name ∉ trail)
    (room : table.definitions.length ≤ depth + trail.length) :
    ∃ less, depth = less + 1 ∧
      table.definitions.length ≤ less + (callee.name :: trail).length := by
  have bound := (opens.cons found fresh).length_le
  rw [List.length_cons] at bound ⊢
  exact ⟨depth - 1, by omega, by omega⟩

theorem Passes.expand (passes : table.Passes trail tokens out) (opens : table.Opens trail)
    (room : table.definitions.length ≤ depth + trail.length) :
    tokens.foldlM (table.expandToken depth trail) output = .ok (output ++ out) := by
  induction passes generalizing depth output with
  | nil => simp [pure, Except.pure]
  | plain kept _ ih =>
    rw [List.foldlM_cons, expandToken_plain kept]
    refine (ih opens room).trans ?_
    simp
  | call called found fresh _ _ ihInner ihRest =>
    obtain ⟨less, rfl, room'⟩ := opens.exists_depth found fresh room
    rw [List.foldlM_cons, expandToken_call called found fresh,
      ihInner (opens.cons found fresh) room']
    refine (ihRest opens room).trans ?_
    simp [← Array.toList_inj]

theorem Stops.expand (stops : table.Stops trail tokens opened last flaw)
    (opens : table.Opens trail) (room : table.definitions.length ≤ depth + trail.length) :
    tokens.foldlM (table.expandToken depth trail) output = .error ⟨flaw, last.offset⟩ := by
  induction stops generalizing depth output with
  | here called offence =>
    rw [List.foldlM_cons, expandToken_offence called offence]
    rfl
  | plain kept _ ih =>
    rw [List.foldlM_cons, expandToken_plain kept]
    exact ih opens room
  | inside called found fresh _ ih =>
    obtain ⟨less, rfl, room'⟩ := opens.exists_depth found fresh room
    rw [List.foldlM_cons, expandToken_call called found fresh, ih (opens.cons found fresh) room']
    rfl
  | behind called found fresh inner _ ih =>
    obtain ⟨less, rfl, room'⟩ := opens.exists_depth found fresh room
    rw [List.foldlM_cons, expandToken_call called found fresh,
      inner.expand (opens.cons found fresh) room']
    exact ih opens room

theorem expand_of_passes (passes : table.Passes [] tokens out) :
    table.expand tokens = .ok out := by
  have ran : tokens.foldlM (table.expandToken table.definitions.length []) #[] = .ok (#[] ++ out) :=
    passes.expand (.nil table) (Nat.le_refl _)
  simp [expand, ran]

theorem expand_of_stops (stops : table.Stops [] tokens opened last flaw) :
    table.expand tokens = .error ⟨flaw, last.offset⟩ := by
  have ran : tokens.foldlM (table.expandToken table.definitions.length []) #[] =
      .error ⟨flaw, last.offset⟩ := stops.expand (.nil table) (Nat.le_refl _)
  simp [expand, ran]

theorem expand_eq_ok_iff : table.expand tokens = .ok out ↔ table.Passes [] tokens out := by
  constructor
  · intro expanded
    rcases passes_or_stops (.nil table) tokens with ⟨found, passes⟩ | ⟨opened, last, flaw, stops⟩
    · cases (expand_of_passes passes).symm.trans expanded
      exact passes
    · cases (expand_of_stops stops).symm.trans expanded
  · exact expand_of_passes

theorem expand_eq_error_iff {diagnostic : Diagnostic} :
    table.expand tokens = .error diagnostic ↔ ∃ opened last flaw,
      table.Stops [] tokens opened last flaw ∧ diagnostic = ⟨flaw, last.offset⟩ := by
  constructor
  · intro refused
    rcases passes_or_stops (.nil table) tokens with ⟨found, passes⟩ | ⟨opened, last, flaw, stops⟩
    · cases (expand_of_passes passes).symm.trans refused
    · cases (expand_of_stops stops).symm.trans refused
      exact ⟨opened, last, flaw, stops, rfl⟩
  · rintro ⟨opened, last, flaw, stops, rfl⟩
    exact expand_of_stops stops

end Brainfuck.Macro.Table
