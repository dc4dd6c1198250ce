import Brainfuck.Proofs.Acceptance
import Brainfuck.Proofs.Scan.Spacing

namespace Brainfuck

/-- The same fault, or build errors that say the same of different texts. -/
inductive Fault.Alike : Fault → Fault → Prop where
  | build {first second : BuildError} (kind : first.kind = second.kind)
      (headline : first.headline = second.headline) (detail : first.detail = second.detail) :
      Alike (.build first) (.build second)
  | same (fault : Fault) : Alike fault fault

theorem Diagnostic.Alike.report {first second : Diagnostic} (alike : first.Alike second)
    (source source' : String) :
    Fault.Alike (.build (first.report source)) (.build (second.report source')) :=
  .build (congrArg Flaw.kind alike) (congrArg Flaw.headline alike) (congrArg Flaw.detail alike)

namespace Program

/-- The same instructions, maybe from other places of other texts. -/
def SameInstructions (first second : Program) : Prop := first.instructions = second.instructions

variable {source source' : String} {tokens tokens' : List Token} {token token' : Token}

namespace Assembly

/-- The same instructions with the same loops open, maybe from other places. -/
structure Alike (first second : Assembly) : Prop where
  code : first.code = second.code
  pending : first.pending.map Prod.fst = second.pending.map Prod.fst

variable {first second : Assembly}

theorem Alike.push (alike : first.Alike second) (instruction : Instruction) (offset place : Int) :
    (first.push instruction offset).Alike (second.push instruction place) where
  code := by rw [Assembly.push, Assembly.push, alike.code]
  pending := alike.pending

theorem reject_alike (flaw : Flaw) (offset place : Int) :
    Fault.Alike (reject source flaw offset) (reject source' flaw place) := by
  have same : Diagnostic.Alike ⟨flaw, offset⟩ ⟨flaw, place⟩ := rfl
  exact same.report source source'

theorem Alike.addSymbol (alike : first.Alike second) (symbol : Symbol) (offset place : Int) :
    Agree Fault.Alike Alike (first.addSymbol source symbol offset)
      (second.addSymbol source' symbol place) := by
  cases symbol with
  | loopStart =>
    have pushed := alike.push (.jumpIfZero (-1)) offset place
    exact .ok ⟨pushed.code, by simp [alike.code, alike.pending]⟩
  | loopEnd =>
    obtain ⟨code, offsets, pending⟩ := first
    obtain ⟨code', offsets', pending'⟩ := second
    obtain ⟨rfl, starts⟩ := alike
    match pending, pending', starts with
    | [], [], _ => exact .error (reject_alike _ offset place)
    | (start, _) :: outer, (start', _) :: outer', starts =>
      simp only [List.map_cons, List.cons.injEq] at starts
      obtain ⟨rfl, outers⟩ := starts
      exact .ok ⟨rfl, outers⟩
  | _ => exact .ok (alike.push _ _ _)

theorem Alike.addToken (alike : first.Alike second) (both : token.Alike token') :
    Agree Fault.Alike Alike (Assembly.addToken source first token)
      (Assembly.addToken source' second token') := by
  unfold Assembly.addToken
  rw [← both.glyph, ← both.name]
  split
  · exact .error (.same _)
  · exact .error (.same _)
  · exact alike.addSymbol _ _ _

theorem Alike.finish (alike : first.Alike second) :
    Agree Fault.Alike SameInstructions (first.finish source) (second.finish source') := by
  obtain ⟨code, offsets, pending⟩ := first
  obtain ⟨code', offsets', pending'⟩ := second
  obtain ⟨rfl, starts⟩ := alike
  match pending, pending', starts with
  | [], [], _ => exact .ok rfl
  | (start, offset) :: _, (start', place) :: _, starts =>
    simp only [List.map_cons, List.cons.injEq] at starts
    obtain ⟨rfl, -⟩ := starts
    exact .error (reject_alike _ offset place)

end Assembly

/-- Tokens that differ by their places make the same instructions, or are refused alike. -/
theorem ofTokens_agree (alike : List.Forall₂ Token.Alike tokens tokens') :
    Agree Fault.Alike SameInstructions (ofTokens tokens source) (ofTokens tokens' source') := by
  have folded : Agree Fault.Alike Assembly.Alike
      (tokens.foldlM (Assembly.addToken source) {})
      (tokens'.foldlM (Assembly.addToken source') {}) :=
    .foldlM (fun _ _ _ _ assemblies both => assemblies.addToken both) alike ⟨rfl, rfl⟩
  exact folded.bind fun _ _ assemblies => assemblies.finish

end Program

/-- Two texts are read alike and make the same instructions, or are refused alike. -/
structure BuildAlike (first second : String) : Prop where
  read : Agree Diagnostic.Alike Scan.Alike (Scan.ofSource first) (Scan.ofSource second)
  built : (∃ program program', build first = .ok program ∧ build second = .ok program' ∧
      program.instructions = program'.instructions) ∨
    ∃ error error', build first = .error (.build error) ∧ build second = .error (.build error') ∧
      error.kind = error'.kind ∧ error.headline = error'.headline ∧ error.detail = error'.detail

theorem build_agree {first second : String}
    (read : Agree Diagnostic.Alike Scan.Alike (Scan.ofSource first) (Scan.ofSource second)) :
    Agree Fault.Alike Program.SameInstructions (build first) (build second) := by
  have flat := read.bind fun _ _ => Scan.Alike.flatten
  unfold build preprocess
  generalize Scan.ofSource first >>= Scan.flatten = result at flat
  generalize Scan.ofSource second >>= Scan.flatten = result' at flat
  cases flat with
  | ok both => exact Program.ofTokens_agree both
  | error both => exact .error (both.report first second)

/-- Texts that consist of the same runs of characters between blanks are built alike. -/
theorem build_alike_of_chunks {first second : String}
    (same : Text.chunks first.toList = Text.chunks second.toList) : BuildAlike first second := by
  have read := Scan.ofSource_agree same
  refine ⟨read, ?_⟩
  have built := build_agree read
  generalize result : build first = built? at built
  generalize result' : build second = built?' at built
  cases built with
  | ok both => exact .inl ⟨_, _, rfl, rfl, both⟩
  | error both =>
    cases both with
    | build kind headline detail => exact .inr ⟨_, _, rfl, rfl, kind, headline, detail⟩
    | same fault =>
      obtain ⟨diagnostic, rfl⟩ := build_error result
      exact .inr ⟨_, _, rfl, rfl, rfl, rfl, rfl⟩

/-- A call and its definition on one line and on several, and a loop without an end. -/
theorem build_alike_of_chunks_lines :
    (∃ program, build "\n a\t\t\x7b+\x7d\n\n@a@ " = .ok program ∧
        program.instructions = #[.adjust 1]) ∧
      ∃ error, build "\n\n- [\n" = .error (.build error) ∧
        error.kind = .unmatchedBracket ∧ error.detail = .position 1 := by
  have lines : Text.chunks "a \x7b+\x7d @a@".toList =
      Text.chunks "\n a\t\t\x7b+\x7d\n\n@a@ ".toList := by decide
  have loop : Text.chunks "- [".toList = Text.chunks "\n\n- [\n".toList := by decide
  have built : build "a \x7b+\x7d @a@" = .ok ⟨#[.adjust 1], #[3], "a \x7b+\x7d @a@"⟩ := by cbv
  have tokens : preprocess "- [" = .ok [.ofSymbol .decrement 0, .ofSymbol .loopStart 2] := by cbv
  obtain ⟨error, refused, kind, detail⟩ : ∃ error, build "- [" = .error (.build error) ∧
      error.kind = .unmatchedBracket ∧ error.detail = .position 1 := by
    rw [build, tokens]
    exact ⟨_, rfl, rfl, rfl⟩
  constructor
  · rcases (build_alike_of_chunks lines).built with
      ⟨program, program', found, found', same⟩ | ⟨other, other', found, -⟩
    · cases built.symm.trans found
      exact ⟨program', found', same.symm⟩
    · cases built.symm.trans found
  · rcases (build_alike_of_chunks loop).built with
      ⟨program, program', found, -⟩ | ⟨other, other', found, found', kind', -, detail'⟩
    · cases refused.symm.trans found
    · cases refused.symm.trans found
      exact ⟨other', found', kind'.symm.trans kind, detail'.symm.trans detail⟩

end Brainfuck
