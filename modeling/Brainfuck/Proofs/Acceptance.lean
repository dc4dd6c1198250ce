import Brainfuck.Build
import Brainfuck.Proofs.Layout
import Brainfuck.Proofs.Macro.Acyclic
import Brainfuck.Proofs.Scan.Account

namespace Brainfuck

namespace BuildError

/-- The details that an error of a kind has; a kind that no program text can cause has none. -/
def Detail.Fits : ErrorKind → Detail → Prop
  | .duplicateMacroDefinition, .name _ | .unterminatedMacroBody, .name _ | .undefinedMacro, .name _
  | .recursiveMacroCall, .chain _ | .unmatchedBracket, .position _ | .malformedMacro, .nothing =>
    True
  | _, _ => False

end BuildError

theorem Flaw.detail_fits (flaw : Flaw) : flaw.detail.Fits flaw.kind := by
  cases flaw <;> trivial

/-- The symbols among the tokens. -/
def symbolsOf (tokens : List Token) : List Symbol :=
  tokens.filterMap fun token =>
    match token.glyph with
    | .symbol symbol => some symbol
    | .call | .foreign _ => none

/-- What makes a program of a text that was read. -/
structure Scan.Buildable (scan : Scan) : Prop where
  bodies : scan.table.BodiesResolve
  acyclic : scan.table.Acyclic
  calls : ∀ call ∈ scan.tokens, call.isCall = true → scan.table.Resolves call
  balanced : ∃ tokens, scan.table.Substitutes scan.tokens tokens ∧ Balanced (symbolsOf tokens)

/-- A text is built exactly if it is read and there is a program in it. -/
structure BuildsExactly (source : String) : Prop where
  succeeds : (∃ program, build source = .ok program) ↔
    ∃ scan, Scan.ofSource source = .ok scan ∧ scan.Buildable
  /-- A text that is not built is refused with a build error whose details fit its kind. -/
  fails : ∀ fault, build source = .error fault →
    ∃ error, fault = .build error ∧ error.detail.Fits error.kind

/-- Why a text is not built: it is not read, its calls are not replaced, or one of its brackets
belongs to no other. -/
inductive Refused (source : String) : Diagnostic → Prop where
  | unread {diagnostic : Diagnostic} (failed : Scan.ofSource source = .error diagnostic) :
      Refused source diagnostic
  | calls {scan : Scan} {diagnostic : Diagnostic} (read : Scan.ofSource source = .ok scan)
      (failed : scan.flatten = .error diagnostic) : Refused source diagnostic
  | loopStart {scan : Scan} {tokens : List Token} {token : Token}
      (read : Scan.ofSource source = .ok scan)
      (substitutes : scan.table.Substitutes scan.tokens tokens) (member : token ∈ tokens)
      (glyph : token.glyph = .symbol .loopStart) (position : Nat) :
      Refused source ⟨.unmatchedLoopStart position, token.offset⟩
  | loopEnd {scan : Scan} {tokens : List Token} {token : Token}
      (read : Scan.ofSource source = .ok scan)
      (substitutes : scan.table.Substitutes scan.tokens tokens) (member : token ∈ tokens)
      (glyph : token.glyph = .symbol .loopEnd) (position : Nat) :
      Refused source ⟨.unmatchedLoopEnd position, token.offset⟩

variable {tokens : List Token} {symbols : List Symbol} {source : String} {fault : Fault}
  {table : Macro.Table}

/-- The tokens are symbols. -/
def AllSymbols (tokens : List Token) : Prop :=
  ∀ token ∈ tokens, ∃ symbol, token.glyph = .symbol symbol

namespace Program

theorem spells_symbolsOf (spelling : AllSymbols tokens) : Spells tokens (symbolsOf tokens) := by
  induction tokens with
  | nil => rfl
  | cons token tokens ih =>
    obtain ⟨⟨symbol, glyph⟩, later⟩ := List.forall_mem_cons.mp spelling
    have rest := ih later
    rw [Spells] at rest ⊢
    simpa [symbolsOf, glyph] using rest

theorem exists_ofTokens_iff (spelling : AllSymbols tokens) :
    (∃ program, ofTokens tokens source = .ok program) ↔ Balanced (symbolsOf tokens) :=
  (spells_symbolsOf spelling).exists_ofTokens_iff source

theorem Spells.glyph_eq {place : Nat} {token : Token} {symbol : Symbol}
    (spelled : Spells tokens symbols) (found : tokens[place]? = some token)
    (here : symbols[place]? = some symbol) : token.glyph = .symbol symbol := by
  have same := congrArg (·[place]?) spelled
  simpa [found, here] using same

theorem ofTokens_error (spelling : AllSymbols tokens)
    (failed : ofTokens tokens source = .error fault) :
    ∃ token ∈ tokens, ∃ position,
      (token.glyph = .symbol .loopStart ∧
        fault = .build (Diagnostic.report source ⟨.unmatchedLoopStart position, token.offset⟩)) ∨
      (token.glyph = .symbol .loopEnd ∧
        fault = .build (Diagnostic.report source ⟨.unmatchedLoopEnd position, token.offset⟩)) := by
  have spelled := spells_symbolsOf spelling
  rcases Block.exists_or_unmatched (symbolsOf tokens) with block | stray | unclosed
  · obtain ⟨block, same⟩ := block
    rw [← same] at spelled
    cases failed.symm.trans (ofTokens_of_spells source spelled)
  · obtain ⟨head, rest, same⟩ := stray
    rw [← same] at spelled
    obtain ⟨token, found, rejected⟩ := ofTokens_loopEnd source spelled
    cases failed.symm.trans rejected
    have here : (head.symbols ++ .loopEnd :: rest)[head.size]? = some .loopEnd := by
      simp [← Block.length_symbols]
    have glyph := spelled.glyph_eq found here
    exact ⟨token, List.mem_of_getElem? found, _, .inr ⟨glyph, rfl⟩⟩
  · obtain ⟨head, others, last, same⟩ := unclosed
    rw [← same] at spelled
    obtain ⟨token, found, rejected⟩ := ofTokens_loopStart source spelled
    cases failed.symm.trans rejected
    have here (front rest : List Symbol) :
        (front ++ .loopStart :: rest)[front.length]? = some .loopStart := by simp
    have glyph := spelled.glyph_eq found (here _ _)
    exact ⟨token, List.mem_of_getElem? found, _, .inl ⟨glyph, rfl⟩⟩

end Program

/-- What holds of the tokens and of all bodies holds of what the tokens stand for. -/
theorem Macro.Table.Substitutes.forall_mem {out : List Token} {test : Token → Prop}
    (substitutes : table.Substitutes tokens out) (outside : ∀ token ∈ tokens, test token)
    (inside : ∀ definition ∈ table.definitions, ∀ token ∈ definition.body, test token) :
    ∀ token ∈ out, test token := by
  induction substitutes with
  | nil => simp
  | plain _ _ ih =>
    obtain ⟨first, later⟩ := List.forall_mem_cons.mp outside
    exact List.forall_mem_cons.mpr ⟨first, ih later⟩
  | call _ found _ _ ihInner ihRest =>
    have member := find?_some_mem (callee?_name found).2
    exact List.forall_mem_append.mpr ⟨ihInner (inside _ member),
      ihRest fun token held => outside token (List.mem_cons_of_mem _ held)⟩

theorem Scan.names_nodup {scan : Scan} (read : ofSource source = .ok scan) :
    scan.table.names.Nodup := by
  obtain ⟨items, -, -, reads⟩ := ofSource_eq_ok_iff.mp read
  exact reads.names_nodup List.nodup_nil

/-- Tokens that were read, once their calls are replaced, stand in the text. -/
theorem Scan.standsIn_of_substitutes {scan : Scan} (read : ofSource source = .ok scan)
    (substitutes : scan.table.Substitutes scan.tokens tokens) :
    ∀ token ∈ tokens, token.StandsIn source.toList := by
  obtain ⟨parts, splits, -, rfl⟩ := ofSource_eq_ok_iff_splits.mp read
  exact substitutes.forall_mem (fun token held => splits.accounts.stands token (.inl held))
    fun definition known token held => splits.accounts.stands token (.inr ⟨_, known, held⟩)

theorem Scan.allSymbols {scan : Scan} (read : ofSource source = .ok scan)
    (substitutes : scan.table.Substitutes scan.tokens tokens) : AllSymbols tokens := by
  intro token member
  have plain := substitutes.call_free token member
  cases standsIn_of_substitutes read substitutes token member with
  | symbol => exact ⟨_, rfl⟩
  | call => cases plain

theorem exists_build_iff : (∃ program, build source = .ok program) ↔
    ∃ scan, Scan.ofSource source = .ok scan ∧ scan.Buildable := by
  constructor
  · rintro ⟨program, built⟩
    obtain ⟨tokens, done, made⟩ := build_eq_ok_iff.mp built
    obtain ⟨scan, read, flat⟩ := preprocess_eq_ok_iff.mp done
    obtain ⟨checked, expanded⟩ := Scan.flatten_eq_ok_iff.mp flat
    have substitutes := Macro.Table.expand_eq_ok_iff_substitutes.mp expanded
    obtain ⟨bodies, acyclic⟩ :=
      (Macro.Table.check_eq_ok_iff_acyclic (Scan.names_nodup read)).mp checked
    have balanced := (Program.exists_ofTokens_iff (Scan.allSymbols read substitutes)).mp
      ⟨program, made⟩
    refine ⟨scan, read, bodies, acyclic, fun call member called => ?_, tokens, substitutes,
      balanced⟩
    obtain ⟨callee, _, found, -⟩ := substitutes.of_mem member called
    exact Macro.Table.resolves_iff.mpr (by simp [found])
  · rintro ⟨scan, read, buildable⟩
    obtain ⟨tokens, substitutes, balanced⟩ := buildable.balanced
    obtain ⟨program, made⟩ :=
      (Program.exists_ofTokens_iff (Scan.allSymbols read substitutes)).mpr balanced
    have checked := (Macro.Table.check_eq_ok_iff_acyclic (Scan.names_nodup read)).mpr
      ⟨buildable.bodies, buildable.acyclic⟩
    have expanded := Macro.Table.expand_eq_ok_iff_substitutes.mpr substitutes
    have done := preprocess_eq_ok_iff.mpr
      ⟨scan, read, Scan.flatten_eq_ok_iff.mpr ⟨checked, expanded⟩⟩
    exact ⟨program, build_eq_ok_iff.mpr ⟨tokens, done, made⟩⟩

theorem preprocess_error {refused : BuildError} (failed : preprocess source = .error refused) :
    ∃ diagnostic : Diagnostic, Refused source diagnostic ∧ refused = diagnostic.report source := by
  rw [preprocess] at failed
  split at failed
  · cases failed
  · next diagnostic stopped =>
    cases failed
    refine ⟨diagnostic, ?_, rfl⟩
    cases read : Scan.ofSource source with
    | error unread =>
      rw [read] at stopped
      cases stopped
      exact .unread read
    | ok scan =>
      rw [read] at stopped
      exact .calls read stopped

theorem exists_refused (failed : build source = .error fault) :
    ∃ diagnostic : Diagnostic, Refused source diagnostic ∧
      fault = .build (diagnostic.report source) := by
  cases done : preprocess source with
  | ok tokens =>
    obtain ⟨scan, read, flat⟩ := preprocess_eq_ok_iff.mp done
    have expanded := (Scan.flatten_eq_ok_iff.mp flat).2
    have substitutes := Macro.Table.expand_eq_ok_iff_substitutes.mp expanded
    rw [build, done] at failed
    obtain ⟨token, member, position, ⟨glyph, rfl⟩ | ⟨glyph, rfl⟩⟩ :=
      Program.ofTokens_error (Scan.allSymbols read substitutes) failed
    · exact ⟨_, .loopStart read substitutes member glyph position, rfl⟩
    · exact ⟨_, .loopEnd read substitutes member glyph position, rfl⟩
  | error refused =>
    rw [build, done] at failed
    cases failed
    obtain ⟨diagnostic, reason, rfl⟩ := preprocess_error done
    exact ⟨diagnostic, reason, rfl⟩

/-- A text that is not built is refused with a diagnostic. -/
theorem build_error (failed : build source = .error fault) :
    ∃ diagnostic : Diagnostic, fault = .build (diagnostic.report source) := by
  obtain ⟨diagnostic, -, same⟩ := exists_refused failed
  exact ⟨diagnostic, same⟩

theorem build_exact (source : String) : BuildsExactly source where
  succeeds := exists_build_iff
  fails fault failed := by
    obtain ⟨diagnostic, rfl⟩ := build_error failed
    exact ⟨_, rfl, diagnostic.flaw.detail_fits⟩

end Brainfuck
