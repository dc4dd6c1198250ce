import Brainfuck.Command.Execution
import Brainfuck.Proofs.Macro.Agreement
import Brainfuck.Proofs.Scan.Items
import Brainfuck.Proofs.StructuredRun

namespace Brainfuck

variable {symbols : List Symbol} {tokens : List Token} {gap : List Char} {block : Block}
  {source : String} {program : Program}

namespace Program.Spells

theorem wordTokens (offset : Nat) (symbols : List Symbol) :
    Spells (Scan.wordTokens offset (symbols.map Symbol.toChar)) symbols := by
  induction symbols generalizing offset with
  | nil => rfl
  | cons symbol symbols ih =>
    rw [List.map_cons, Scan.wordTokens_cons, Symbol.ofChar?_toChar]
    exact congrArg (Glyph.symbol symbol :: ·) (ih (offset + 1))

theorem call_free (spelled : Spells tokens symbols) : ∀ token ∈ tokens, token.isCall = false := by
  intro token member
  have glyph : token.glyph ∈ symbols.map Glyph.symbol := spelled ▸ List.mem_map_of_mem member
  obtain ⟨symbol, -, same⟩ := List.mem_map.mp glyph
  rw [Token.isCall, ← same]
  rfl

theorem format (spelled : Spells tokens symbols) :
    Token.format tokens = String.ofList (symbols.map Symbol.toChar) := by
  induction symbols generalizing tokens with
  | nil =>
    cases List.map_eq_nil_iff.mp spelled
    rfl
  | cons symbol symbols ih =>
    obtain ⟨token, rest, rfl, glyph, spelled⟩ := spelled.cons
    have text : token.text = symbol.toChar.toString := by
      rw [Token.text, glyph]
      rfl
    rw [Token.format, List.map_cons, String.join_cons, ← Token.format, ih spelled, text]
    apply String.toList_inj.mp
    simp

end Program.Spells

namespace Scan

theorem readFrom_trailing_blanks {state : State} (offset : Nat) (outside : state.opening = none)
    (blank : ∀ char ∈ gap, Text.isBlank char = true) :
    readFrom state offset (Lexeme.ofChars gap) =
      .ok ⟨state.tokens.toList, ⟨state.definitions.toList⟩⟩ := by
  have skipped : readFrom state offset (Lexeme.ofChars (gap ++ [])) =
      readFrom state (offset + gap.length) (Lexeme.ofChars []) := readFrom_blanks blank
  rw [List.append_nil] at skipped
  rw [skipped]
  simp [Lexeme.ofChars, readFrom, outside]

/-- Symbols with blanks behind them are read as one word that names nothing. -/
theorem ofSource_symbols (symbols : List Symbol) (blank : ∀ char ∈ gap, Text.isBlank char = true) :
    ofSource (String.ofList (symbols.map Symbol.toChar ++ gap)) =
      .ok ⟨wordTokens 0 (symbols.map Symbol.toChar), .empty⟩ := by
  rw [ofSource, String.toList_ofList]
  cases symbols with
  | nil => exact readFrom_trailing_blanks 0 rfl blank
  | cons symbol symbols =>
    have passes : ∀ char ∈ (symbol :: symbols).map Symbol.toChar, isWordChar char = true := by
      intro char member
      obtain ⟨other, -, rfl⟩ := List.mem_map.mp member
      exact other.isWordChar_toChar
    have boundary : ∀ char ∈ gap.head?, isWordChar char = false := by
      intro char first
      exact isWordChar_eq_false_of_isBlank (blank char (List.mem_of_mem_head? first))
    have unnamed : (gap.dropWhile Text.isBlank).head? ≠ some '\x7b' := by
      rw [← List.append_nil gap, List.dropWhile_append_of_pos blank]
      simp
    refine (readFrom_word ⟨_, by simp, passes⟩ boundary fun _ => unnamed).trans ?_
    refine (readFrom_trailing_blanks _ rfl blank).trans ?_
    simp [State.emit, Macro.Table.empty]

theorem flatten_of_call_free (call_free : ∀ token ∈ tokens, token.isCall = false) :
    flatten ⟨tokens, .empty⟩ = .ok tokens := by
  have calls : Macro.Table.empty.calls = [] :=
    List.map_eq_nil_iff.mpr (Macro.Table.sortedNames_perm .empty).eq_nil
  apply flatten_eq_ok_iff.mpr
  constructor
  · refine Macro.Table.check_eq_ok_iff.mpr ⟨[], ?_⟩
    rw [calls]
    exact .nil
  · exact Macro.Table.expand_eq_ok_iff_substitutes.mpr (.of_call_free call_free)

end Scan

theorem preprocess_symbols (symbols : List Symbol)
    (blank : ∀ char ∈ gap, Text.isBlank char = true) :
    preprocess (String.ofList (symbols.map Symbol.toChar ++ gap)) =
      .ok (Scan.wordTokens 0 (symbols.map Symbol.toChar)) := by
  have kept := (Program.Spells.wordTokens 0 symbols).call_free
  exact preprocess_eq_ok_iff.mpr
    ⟨_, Scan.ofSource_symbols symbols blank, Scan.flatten_of_call_free kept⟩

/-- The text of a block, maybe with blanks behind it, is built as that block. -/
theorem exists_build_text (block : Block) (blank : ∀ char ∈ gap, Text.isBlank char = true) :
    ∃ program, build (block.text ++ String.ofList gap) = .ok program ∧
      program.instructions = (block.instructions 0).toArray ∧
      program.flatten = .ok block.text := by
  rw [Block.text, ← String.ofList_append]
  have made := Program.ofTokens_of_spells (String.ofList (block.symbols.map Symbol.toChar ++ gap))
    (Program.Spells.wordTokens 0 block.symbols)
  have built := build_eq_ok_iff.mpr ⟨_, preprocess_symbols block.symbols blank, made⟩
  exact ⟨_, built, rfl, Program.flatten_ofBlock _ _ _⟩

/-- A program is printed as the tokens that it was made of, and this text, with a line feed
behind it or without, is built as the same instructions and printed as the same text. -/
structure Program.Rebuilds (source : String) (program : Program) (text : String) : Prop where
  flattened : program.flatten = .ok text
  formatted : ∃ tokens, preprocess source = .ok tokens ∧ Token.format tokens = text
  shown : ∀ console, Command.expand program console =
    Command.finish { console with output := console.output ++ text ++ "\n" } (.exit 0)
  rebuilt : ∀ printed ∈ [text, text ++ "\n"], ∃ again, build printed = .ok again ∧
    again.instructions = program.instructions ∧ again.flatten = .ok text

theorem build_rebuilds (built : build source = .ok program) :
    ∃ text, program.Rebuilds source text := by
  obtain ⟨tokens, done, made⟩ := build_eq_ok_iff.mp built
  obtain ⟨block, spelled, rfl⟩ := Program.ofTokens_eq_ok_iff.mp made
  have flattened := Program.flatten_ofBlock block tokens source
  refine ⟨block.text, flattened, ⟨tokens, done, spelled.format⟩, ?_, ?_⟩
  · intro console
    rw [Command.expand, flattened]
  · intro printed member
    have blanks : ∃ gap : List Char, printed = block.text ++ String.ofList gap ∧
        ∀ char ∈ gap, Text.isBlank char = true := by
      rcases List.mem_cons.mp member with rfl | later
      · exact ⟨[], by simp, by simp⟩
      · cases List.mem_singleton.mp later
        exact ⟨['\n'], rfl, List.forall_mem_singleton.mpr (by decide)⟩
    obtain ⟨gap, rfl, blank⟩ := blanks
    exact exists_build_text block blank

/-- A text with a macro, a comment and a breakpoint. -/
theorem build_rebuilds_macro :
    ∃ program, build "m {[-]#} two, @m@." = .ok program ∧
      ∃ text, program.Rebuilds "m {[-]#} two, @m@." text := by
  have done : preprocess "m {[-]#} two, @m@." =
      .ok [.ofSymbol .input 12, .ofSymbol .loopStart 3, .ofSymbol .decrement 4,
        .ofSymbol .loopEnd 5, .ofSymbol .breakpoint 6, .ofSymbol .output 17] := by cbv
  have built := build_eq_ok_iff.mpr ⟨_, done, rfl⟩
  exact ⟨_, built, build_rebuilds built⟩

end Brainfuck
