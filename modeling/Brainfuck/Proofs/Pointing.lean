import Brainfuck.Proofs.Acceptance
import Brainfuck.Proofs.Scan.Extending
import Brainfuck.Proofs.Text.Lines

/-! Where build errors point. Whatever a text is refused for stands in the text at the offset of
the diagnostic. The error means the line there and shows it among its neighbours. -/

namespace Brainfuck

/-- What a flaw is about, as it is written in the text. -/
inductive Flaw.About : Flaw → List Char → Prop where
  | duplicate (name : String) : About (.duplicateDefinition name) name.toList
  | unterminated (name : String) : About (.unterminatedBody name) name.toList
  | malformed : About .malformedCall [callMark]
  | nested (outer : String) : About (.nestedDefinition outer) ['\x7b']
  | nameless : About .namelessDefinition ['\x7b']
  | stray : About .strayClosingBrace ['\x7d']
  | undefined (name : String) :
      About (.undefinedMacro (some name)) (callMark :: name.toList ++ [callMark])
  | recursive {chain : List String} {name : String} (last : chain.getLast? = some name) :
      About (.recursiveCall chain) (callMark :: name.toList ++ [callMark])
  | loopStart (position : Nat) : About (.unmatchedLoopStart position) ['[']
  | loopEnd (position : Nat) : About (.unmatchedLoopEnd position) [']']

/-- What is wrong stands in the text at the offset of the diagnostic, on one line. -/
def Diagnostic.StandsIn (text : List Char) (diagnostic : Diagnostic) : Prop :=
  ∃ (place : Nat) (chars : List Char), diagnostic.offset = place ∧ diagnostic.flaw.About chars ∧
    chars <+: text.drop place ∧ '\n' ∉ chars

namespace BuildError

/-- A line holds what an error of its kind names. -/
def Names (error : BuildError) (line : List Char) : Prop :=
  match error.kind, error.detail with
  | .undefinedMacro, .name (some name) => callMark :: name.toList ++ [callMark] <:+: line
  | .recursiveMacroCall, .chain names =>
    ∃ name, names.getLast? = some name ∧ callMark :: name.toList ++ [callMark] <:+: line
  | .duplicateMacroDefinition, .name (some name) | .unterminatedMacroBody, .name (some name) =>
    name.toList <:+: line
  | .unmatchedBracket, .position position =>
    ∃ bracket ∈ ['[', ']'], bracket ∈ line ∧
      error.headline = s!"Unmatched '{bracket}' at instruction {position}"
  | .malformedMacro, .nothing => ∃ mark ∈ ['@', '\x7b', '\x7d'], mark ∈ line
  | _, _ => False

/-- An error means a line of the text that holds what it names. Its excerpt shows that line,
marked, with its number, between the lines at most two away with theirs. -/
structure PointsAt (source : String) (error : BuildError) (line : List Char) : Prop where
  first : 1 ≤ error.line
  last : error.line ≤ (Text.lines source.toList).length
  found : (Text.lines source.toList)[error.line - 1]? = some line
  shown : Text.lines error.excerpt.toList =
    Text.shownLines (error.line - 3 + 1)
        (((Text.lines source.toList).take (error.line - 1)).drop (error.line - 3)) ++
      Text.shownLine '>' error.line line ::
        Text.shownLines (error.line + 1) (((Text.lines source.toList).drop error.line).take 2)
  marked : (Text.lines error.excerpt.toList).countP (·.head? = some '>') = 1
  names : error.Names line

end BuildError

variable {text line chars : List Char} {diagnostic : Diagnostic} {source : String}

namespace Scan

variable {state next : State} {offset : Nat} {behind : List Char} {item : Item}
  {first last point : Point} {scan : Scan} {call : Token}

theorem toList_text (name : Word) : name.text.toList = name.chars := String.toList_ofList

theorem not_mem_text (name : Word) : '\n' ∉ name.text.toList := by
  intro member
  rw [toList_text] at member
  cases name.passes '\n' member

/-- The name of the body that is open stands in the text where the body was opened. -/
def State.Named (text : List Char) (state : State) : Prop :=
  ∀ opening ∈ state.opening,
    opening.name.toList <+: text.drop opening.offset ∧ '\n' ∉ opening.name.toList

theorem prefix_opening (name : Word) (gap : Option Blanks) (behind : List Char) :
    name.text.toList <+: (Item.opening name gap).chars ++ behind := by
  rw [toList_text, Item.chars, List.append_assoc, List.append_assoc]
  exact List.prefix_append _ _

theorem State.Named.emit (named : state.Named text) (tokens : List Token) :
    (state.emit tokens).Named text := by
  intro opening inside
  rw [State.opening_emit] at inside
  obtain ⟨outer, held, rfl⟩ := Option.map_eq_some_iff.mp inside
  exact named outer held

theorem Takes.named (takes : Takes offset behind state item next) (named : state.Named text)
    (located : item.chars ++ behind = text.drop offset) : next.Named text := by
  cases takes with
  | blanks run => exact named
  | call name => exact named.emit _
  | word run ends unnamed => exact named.emit _
  | opening name gap outside fresh =>
    obtain ⟨-, rfl⟩ := State.define_eq_ok_iff.mp fresh
    rintro opening ⟨⟩
    exact ⟨located ▸ prefix_opening name gap behind, not_mem_text name⟩
  | closing inside => rintro opening ⟨⟩

theorem Leads.named (leads : Leads first last) (named : first.state.Named text)
    (located : first.rest = text.drop first.offset) : last.state.Named text := by
  induction leads with
  | here => exact named
  | take takes _ ih =>
    refine ih (takes.named named located) ?_
    rw [← List.drop_drop, ← located, List.drop_left]

theorem Stuck.standsIn (stuck : Stuck point diagnostic) (named : point.state.Named text)
    (located : point.rest = text.drop point.offset) : diagnostic.StandsIn text := by
  have mark {char : Char} {rest : List Char} (here : char :: rest = text.drop point.offset) :
      [char] <+: text.drop point.offset := ⟨rest, here⟩
  cases stuck with
  | unterminated inside =>
    obtain ⟨found, plain⟩ := named _ inside
    exact ⟨_, _, rfl, .unterminated _, found, plain⟩
  | call => exact ⟨_, _, rfl, .malformed, mark located, by decide⟩
  | nameless => exact ⟨_, _, rfl, .nameless, mark located, by decide⟩
  | nested => exact ⟨_, _, rfl, .nested _, mark located, by decide⟩
  | stray => exact ⟨_, _, rfl, .stray, mark located, by decide⟩
  | duplicate name gap =>
    exact ⟨_, _, rfl, .duplicate _, located ▸ prefix_opening name gap _, not_mem_text name⟩

theorem standsIn_of_ofSource (failed : ofSource source = .error diagnostic) :
    diagnostic.StandsIn source.toList := by
  obtain ⟨last, leads, stuck⟩ := ofSource_eq_error_iff.mp failed
  exact stuck.standsIn (leads.named (by rintro opening ⟨⟩) rfl) leads.drop_eq.1

theorem exists_call_in (read : ofSource source = .ok scan) (held : scan.Holds call)
    (called : call.isCall = true) : ∃ (name : String) (place : Nat), call = .callOf name place ∧
      callMark :: name.toList ++ [callMark] <+: source.toList.drop place ∧
        '\n' ∉ callMark :: name.toList ++ [callMark] := by
  obtain ⟨items, same, -, reads⟩ := ofSource_eq_ok_iff.mp read
  obtain ⟨before, name, after, rfl, rfl⟩ := reads.calledAmong held called
  have plain := not_mem_text name
  refine ⟨name.text, _, rfl, ⟨spell after, ?_⟩, by simp [plain, callMark]⟩
  rw [← same, spell_append, List.drop_left, toList_text]
  simp [Item.chars, Piece.chars]

end Scan

namespace Macro.Table

variable {table : Table} {trail opened : List String} {tokens : List Token} {last : Token}
  {flaw : Flaw}

/-- A walk stops among the tokens where it began, with no further calls open, or in a body. -/
theorem Stops.stands (stops : table.Stops trail tokens opened last flaw) :
    (opened = trail ∧ last ∈ tokens) ∨
      ∃ definition ∈ table.definitions, last ∈ definition.body := by
  induction stops with
  | here => exact .inl ⟨rfl, List.mem_cons_self⟩
  | plain _ _ ih | behind _ _ _ _ _ ih =>
    exact ih.imp_left (And.imp_right (List.mem_cons_of_mem _))
  | inside _ found _ _ ih =>
    rcases ih with ⟨-, member⟩ | body
    · exact .inr ⟨_, find?_some_mem (callee?_name found).2, member⟩
    · exact .inr body

theorem Stops.stands_of_calls (stops : table.Stops [] table.calls opened last flaw) :
    ∃ definition ∈ table.definitions, last ∈ definition.body := by
  rcases stops.stands with ⟨rfl, member⟩ | body
  · cases stops.offence with
    | undefined missing => exact absurd missing (resolves_iff.mp (resolves_of_mem_calls member))
    | recursive found parts nearest => simp at parts
  · exact body

theorem Offence.about {name : String} (offence : table.Offence opened last flaw)
    (named : last.name = some name) : flaw.About (callMark :: name.toList ++ [callMark]) := by
  cases offence with
  | undefined missing => exact named ▸ .undefined name
  | recursive found parts nearest =>
    cases named.symm.trans (callee?_name found).1
    exact .recursive List.getLast?_concat

end Macro.Table

namespace Scan

variable {scan : Scan}

/-- The calls of a text are refused for a call that must not be entered where it was read. -/
theorem exists_offence_of_flatten (failed : scan.flatten = .error diagnostic) :
    ∃ opened last flaw, diagnostic = ⟨flaw, last.offset⟩ ∧ scan.table.Offence opened last flaw ∧
      last.isCall = true ∧ scan.Holds last := by
  cases checked : scan.table.check with
  | error refused =>
    obtain rfl : refused = diagnostic := by
      simpa [flatten, checked, bind, Except.bind] using failed
    obtain ⟨opened, last, flaw, stops, same⟩ :=
      Macro.Table.expand_eq_error_iff.mp (Macro.Table.check_eq_error_iff.mp checked)
    exact ⟨opened, last, flaw, same, stops.offence, (stops.linked (.nil _ _)).1,
      .inr stops.stands_of_calls⟩
  | ok done =>
    have refused : scan.table.expand scan.tokens = .error diagnostic := by
      simpa [flatten, checked, bind, Except.bind] using failed
    obtain ⟨opened, last, flaw, stops, same⟩ := Macro.Table.expand_eq_error_iff.mp refused
    exact ⟨opened, last, flaw, same, stops.offence, (stops.linked (.nil _ _)).1,
      stops.stands.imp_left And.right⟩

theorem standsIn_of_flatten (read : ofSource source = .ok scan)
    (failed : scan.flatten = .error diagnostic) : diagnostic.StandsIn source.toList := by
  obtain ⟨opened, last, flaw, rfl, offence, called, held⟩ := exists_offence_of_flatten failed
  obtain ⟨name, place, rfl, found, plain⟩ := exists_call_in read held called
  exact ⟨place, _, rfl, offence.about rfl, found, plain⟩

end Scan

theorem Token.StandsIn.exists_symbol {token : Token} {symbol : Symbol}
    (stands : token.StandsIn text) (glyph : token.glyph = .symbol symbol) :
    ∃ place : Nat, token.offset = place ∧ [symbol.toChar] <+: text.drop place := by
  cases stands with
  | symbol found =>
    cases glyph
    obtain ⟨inside, same⟩ := List.getElem?_eq_some_iff.mp found
    exact ⟨_, rfl, _, by rw [List.drop_eq_getElem_cons inside, same, List.singleton_append]⟩
  | call => cases glyph

theorem Token.StandsIn.of_flaw {token : Token} {symbol : Symbol} {flaw : Flaw}
    (stands : token.StandsIn text) (glyph : token.glyph = .symbol symbol)
    (about : flaw.About [symbol.toChar]) : Diagnostic.StandsIn text ⟨flaw, token.offset⟩ := by
  obtain ⟨place, offset, found⟩ := stands.exists_symbol glyph
  have plain : '\n' ∉ [symbol.toChar] := by cases symbol <;> decide
  exact ⟨place, _, offset, about, found, plain⟩

theorem Refused.standsIn (refused : Refused source diagnostic) :
    diagnostic.StandsIn source.toList := by
  cases refused with
  | unread failed => exact Scan.standsIn_of_ofSource failed
  | calls read failed => exact Scan.standsIn_of_flatten read failed
  | loopStart read substitutes member glyph position =>
    exact (Scan.standsIn_of_substitutes read substitutes _ member).of_flaw glyph
      (.loopStart position)
  | loopEnd read substitutes member glyph position =>
    exact (Scan.standsIn_of_substitutes read substitutes _ member).of_flaw glyph
      (.loopEnd position)

theorem Flaw.About.names (about : diagnostic.flaw.About chars) (found : chars <:+: line)
    (source : String) : (diagnostic.report source).Names line := by
  obtain ⟨flaw, offset⟩ := diagnostic
  have mark {char : Char} (single : [char] <:+: line) : char ∈ line :=
    single.subset List.mem_cons_self
  cases about with
  | duplicate | unterminated | undefined => exact found
  | recursive last => exact ⟨_, last, found⟩
  | malformed => exact ⟨'@', by decide, mark found⟩
  | nested | nameless => exact ⟨'\x7b', by decide, mark found⟩
  | stray => exact ⟨'\x7d', by decide, mark found⟩
  | loopStart position => exact ⟨'[', by decide, mark found, rfl⟩
  | loopEnd position => exact ⟨']', by decide, mark found, rfl⟩

theorem countP_shownLines (first : Nat) (all : List (List Char)) :
    (Text.shownLines first all).countP (·.head? = some '>') = 0 := by
  refine List.countP_eq_zero.mpr fun row member => ?_
  obtain ⟨entry, -, rfl⟩ := List.mem_map.mp member
  simp [Text.shownLine]

/-- What stands in a text at an offset, on one line, stands on the line that is reported. -/
theorem Diagnostic.StandsIn.exists_line (stands : diagnostic.StandsIn source.toList) :
    ∃ line, (diagnostic.report source).PointsAt source line := by
  obtain ⟨place, chars, offset, about, located, plain⟩ := stands
  obtain ⟨line, found, part⟩ := Text.exists_line located plain
  obtain ⟨number, same⟩ : ∃ number, Text.lineOf source.toList diagnostic.offset = number + 1 :=
    ⟨_, rfl⟩
  have here : (diagnostic.report source).line = number + 1 := same
  rw [← offset, same, Nat.add_sub_cancel] at found
  have shown : Text.lines (diagnostic.report source).excerpt.toList = _ :=
    same ▸ Text.lines_excerpt found 2
  refine ⟨line, ?_, ?_, ?_, ?_, ?_, about.names part source⟩
  · omega
  · exact Text.lineOf_le source.toList diagnostic.offset
  · rw [here, Nat.add_sub_cancel]
    exact found
  · have near : number + 1 - 3 = number - 2 := Nat.add_sub_add_right number 1 2
    rw [shown, same, here, near, Nat.add_sub_cancel]
  · rw [shown, List.countP_append, List.countP_cons, countP_shownLines, countP_shownLines]
    simp [Text.shownLine]

/-- A text that is not built is refused with an error that points at what is wrong with it. -/
theorem build_points {fault : Fault} (failed : build source = .error fault) :
    ∃ error line, fault = .build error ∧ error.PointsAt source line := by
  obtain ⟨diagnostic, refused, rfl⟩ := exists_refused failed
  obtain ⟨line, points⟩ := refused.standsIn.exists_line
  exact ⟨_, line, rfl, points⟩

/-- A macro that calls itself on the third of four lines. -/
theorem build_points_recursive :
    let source := "+\n-@a@\na\x7b>@a@\x7d\n."
    ∃ error, build source = .error (.build error) ∧ error.line = 3 ∧
      error.PointsAt source "a\x7b>@a@\x7d".toList ∧
        Text.lines error.excerpt.toList = ["     1 | +".toList, "     2 | -@a@".toList,
          ">    3 | a\x7b>@a@\x7d".toList, "     4 | .".toList] := by
  intro source
  have refused : Scan.ofSource source >>= Scan.flatten =
      .error ⟨.recursiveCall ["a", "a"], 10⟩ := by decide +kernel
  have failed : build source = .error (.build (Diagnostic.report source
      ⟨.recursiveCall ["a", "a"], 10⟩)) := by rw [build, preprocess, refused]
  obtain ⟨error, line, same, points⟩ := build_points failed
  have number : error.line = 3 := by
    have meant : Text.lineOf source.toList 10 = 3 := by decide +kernel
    cases same
    exact meant
  have found := points.found
  have shown := points.shown
  rw [number] at found shown
  have here : (Text.lines source.toList)[3 - 1]? = some "a\x7b>@a@\x7d".toList := by decide +kernel
  cases found.symm.trans here
  refine ⟨error, same ▸ failed, number, points, shown.trans ?_⟩
  decide +kernel

end Brainfuck
