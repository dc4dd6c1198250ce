import Brainfuck.Proofs.Scan.Grammar

/-! Reading as a loop. A reader stands at a point of a text, with what was read before and the
rest of the text. A move takes it behind the next item, whatever comes later. The moves end where
nothing is left, or at a point from where the text cannot be read on. -/

namespace Brainfuck.Scan

/-- What was read up to an offset, and the text from there on. -/
structure Point where
  state : State
  offset : Nat
  rest : List Char

/-- What has been read is all that is read. -/
def State.scan (state : State) : Scan := ⟨state.tokens.toList, ⟨state.definitions.toList⟩⟩

/-- An item at an offset, with a text behind it, is read as that item and changes the state. -/
inductive Takes (offset : Nat) (behind : List Char) : State → Item → State → Prop where
  | blanks {state : State} (run : Blanks) : Takes offset behind state (.piece (.blanks run)) state
  | call {state : State} (name : Word) :
      Takes offset behind state (.piece (.call name)) (state.emit [.callOf name.text offset])
  | word {state : State} (run : Word) (ends : ∀ char ∈ behind.head?, isWordChar char = false)
      (unnamed : state.opening = none → (behind.dropWhile Text.isBlank).head? ≠ some '\x7b') :
      Takes offset behind state (.piece (.word run)) (state.emit (wordTokens offset run.chars))
  | opening {state opened : State} (name : Word) (gap : Option Blanks)
      (outside : state.opening = none) (fresh : state.define name.text offset = .ok opened) :
      Takes offset behind state (.opening name gap) opened
  | closing {state : State} {opening : Opening} (inside : state.opening = some opening) :
      Takes offset behind state .closing (state.close opening)

/-- What is wrong at a point from where the text cannot be read on. -/
inductive Stuck : Point → Diagnostic → Prop where
  | unterminated {state : State} {opening : Opening} {offset : Nat}
      (inside : state.opening = some opening) :
      Stuck ⟨state, offset, []⟩ ⟨.unterminatedBody opening.name, opening.offset⟩
  /-- The longest run of word characters behind the call mark is empty, or has no second call
  mark behind it. -/
  | call {state : State} {offset : Nat} {run behind : List Char}
      (word : ∀ char ∈ run, isWordChar char = true)
      (ends : ∀ char ∈ behind.head?, isWordChar char = false)
      (malformed : run = [] ∨ behind.head? ≠ some callMark) :
      Stuck ⟨state, offset, callMark :: (run ++ behind)⟩ ⟨.malformedCall, offset⟩
  | nameless {state : State} {offset : Nat} {behind : List Char}
      (outside : state.opening = none) :
      Stuck ⟨state, offset, '\x7b' :: behind⟩ ⟨.namelessDefinition, offset⟩
  | nested {state : State} {opening : Opening} {offset : Nat} {behind : List Char}
      (inside : state.opening = some opening) :
      Stuck ⟨state, offset, '\x7b' :: behind⟩ ⟨.nestedDefinition opening.name, offset⟩
  | stray {state : State} {offset : Nat} {behind : List Char} (outside : state.opening = none) :
      Stuck ⟨state, offset, '\x7d' :: behind⟩ ⟨.strayClosingBrace, offset⟩
  | duplicate {state : State} {offset : Nat} {behind : List Char} (name : Word)
      (gap : Option Blanks) (outside : state.opening = none) (known : name.text ∈ state.names) :
      Stuck ⟨state, offset, (Item.opening name gap).chars ++ behind⟩
        ⟨.duplicateDefinition name.text, offset⟩

/-- Moves lead from a point to a point. -/
inductive Leads : Point → Point → Prop where
  | here (point : Point) : Leads point point
  | take {state next : State} {offset : Nat} {behind : List Char} {item : Item} {last : Point}
      (takes : Takes offset behind state item next)
      (later : Leads ⟨next, offset + item.chars.length, behind⟩ last) :
      Leads ⟨state, offset, item.chars ++ behind⟩ last

namespace Point

/-- What comes of reading on. -/
def read (point : Point) : Except Diagnostic Scan :=
  readFrom point.state point.offset (Lexeme.ofChars point.rest)

/-- Nothing is left to be read, and no body is open. -/
structure Done (point : Point) : Prop where
  rest : point.rest = []
  outside : point.state.opening = none

/-- Where the reading of a text begins. -/
def start (text : List Char) : Point := ⟨{}, 0, text⟩

theorem ofSource_eq_read (source : String) : ofSource source = (start source.toList).read := rfl

end Point

variable {state next : State} {offset : Nat} {behind : List Char} {item : Item}
  {first last point : Point} {diagnostic : Diagnostic} {scan : Scan} {name : String}
  {items others : List Item}

theorem State.define_eq_error_iff :
    state.define name offset = .error diagnostic ↔
      name ∈ state.names ∧ diagnostic = ⟨.duplicateDefinition name, offset⟩ := by
  have known : state.definitions.any (·.name == name) = true ↔ name ∈ state.names := by
    rw [State.names, ← Array.any_toList, List.any_eq_true]
    simp
  unfold State.define
  split
  · next present => simp [known.mp present, eq_comm]
  · next absent => simp [mt known.mpr absent]

/-- A move does not change what comes of reading on. -/
theorem Takes.read (takes : Takes offset behind state item next) :
    (Point.mk state offset (item.chars ++ behind)).read =
      (Point.mk next (offset + item.chars.length) behind).read := by
  cases takes with
  | blanks run => exact readFrom_blanks run.passes
  | call name => exact readFrom_call name
  | word run ends unnamed => exact readFrom_word run ends unnamed
  | opening name gap outside fresh => exact readFrom_opening name gap outside fresh
  | closing inside => exact readFrom_closing inside

theorem Leads.read (leads : Leads first last) : first.read = last.read := by
  induction leads with
  | here => rfl
  | take takes _ ih => exact takes.read.trans ih

theorem Point.Done.read (done : point.Done) : point.read = .ok point.state.scan := by
  obtain ⟨state, offset, rest⟩ := point
  obtain ⟨rfl, outside⟩ := done
  simp only at outside
  simp [Point.read, Lexeme.ofChars, readFrom, outside, State.scan]

theorem readFrom_malformed {run : List Char} (word : ∀ char ∈ run, isWordChar char = true)
    (ends : ∀ char ∈ behind.head?, isWordChar char = false)
    (malformed : run = [] ∨ behind.head? ≠ some callMark) :
    readFrom state offset (Lexeme.ofChars (callMark :: (run ++ behind))) =
      .error ⟨.malformedCall, offset⟩ := by
  have cut : Lexeme.ofChars (callMark :: (run ++ behind)) =
      .callMark :: Lexeme.ofChars (run ++ behind) := by simp [Lexeme.join]
  rw [cut, readFrom]
  intro name rest found
  obtain ⟨after, same, marked, proper, -⟩ := Lexeme.ofChars_eq_cons found
  obtain ⟨further, rfl, -⟩ := Lexeme.ofChars_eq_cons marked.symm
  obtain ⟨rfl, rfl⟩ := longest_run_unique same word proper.2 ends (by simp [Lexeme.chars]; decide)
  rcases malformed with empty | unmarked
  · exact proper.1 empty
  · exact unmarked rfl

theorem readFrom_duplicate (name : Word) (gap : Option Blanks) (outside : state.opening = none)
    (known : name.text ∈ state.names) :
    readFrom state offset (Lexeme.ofChars ((Item.opening name gap).chars ++ behind)) =
      .error ⟨.duplicateDefinition name.text, offset⟩ := by
  have refused : state.define (String.ofList name.chars) offset =
      .error ⟨.duplicateDefinition name.text, offset⟩ := State.define_eq_error_iff.mpr ⟨known, rfl⟩
  cases gap with
  | none =>
    rw [ofChars_opening_none]
    simp [readFrom, outside, refused]
  | some gap =>
    rw [ofChars_opening_some]
    simp [readFrom, outside, refused]

theorem Stuck.read (stuck : Stuck point diagnostic) : point.read = .error diagnostic := by
  cases stuck with
  | unterminated inside => simp [Point.read, Lexeme.ofChars, readFrom, inside]
  | call word ends malformed => exact readFrom_malformed word ends malformed
  | nameless outside => simp [Point.read, Lexeme.join, readFrom, outside]
  | nested inside => simp [Point.read, Lexeme.join, readFrom, inside]
  | stray outside => simp [Point.read, Lexeme.join, readFrom, outside]
  | duplicate name gap outside known => exact readFrom_duplicate name gap outside known

/-- There is a move from the point, or something is wrong there. -/
def Point.GoesOn (point : Point) : Prop :=
  (∃ diagnostic, Stuck point diagnostic) ∨
    ∃ item next behind, point.rest = item.chars ++ behind ∧
      Takes point.offset behind point.state item next

theorem exists_gap (braced : (behind.dropWhile Text.isBlank).head? = some '\x7b') :
    ∃ gap further, behind = Item.gapChars gap ++ '\x7b' :: further := by
  obtain ⟨further, found⟩ := List.head?_eq_some_iff.mp braced
  have whole : behind.takeWhile Text.isBlank ++ '\x7b' :: further = behind := by
    rw [← found, List.takeWhile_append_dropWhile]
  by_cases empty : behind.takeWhile Text.isBlank = []
  · exact ⟨none, further, by rw [← whole, empty]; rfl⟩
  · exact ⟨some ⟨_, empty, fun char => List.mem_takeWhile_imp⟩, further, whole.symm⟩

namespace Point.GoesOn

theorem callMark (state : State) (offset : Nat) (rest : List Char) :
    GoesOn ⟨state, offset, callMark :: rest⟩ := by
  obtain ⟨run, behind, rfl, word, ends⟩ := exists_longest_run isWordChar rest
  by_cases whole : run ≠ [] ∧ behind.head? = some Brainfuck.callMark
  · obtain ⟨nonempty, marked⟩ := whole
    obtain ⟨behind, rfl⟩ := List.head?_eq_some_iff.mp marked
    exact .inr ⟨.piece (.call ⟨run, nonempty, word⟩), _, behind,
      by simp [Item.chars, Piece.chars], .call _⟩
  · exact .inl ⟨_, .call word ends (by tauto)⟩

theorem word {char : Char} (state : State) (offset : Nat) (passes : isWordChar char = true)
    (rest : List Char) : GoesOn ⟨state, offset, char :: rest⟩ := by
  obtain ⟨run, behind, same, ends⟩ := exists_longest_run_cons passes rest
  rw [same]
  by_cases names : state.opening = none ∧
      (behind.dropWhile Text.isBlank).head? = some '\x7b'
  · obtain ⟨outside, braced⟩ := names
    obtain ⟨gap, further, rfl⟩ := exists_gap braced
    have chars : run.chars ++ (Item.gapChars gap ++ '\x7b' :: further) =
        (Item.opening run gap).chars ++ further := by simp [Item.chars]
    rw [chars]
    by_cases known : run.text ∈ state.names
    · exact .inl ⟨_, .duplicate run gap outside known⟩
    · exact .inr ⟨_, _, further, rfl,
        .opening run gap outside (State.define_eq_ok_iff.mpr ⟨known, rfl⟩)⟩
  · exact .inr ⟨.piece (.word run), _, behind, rfl, .word run ends (by tauto)⟩

end Point.GoesOn

/-- Where something is left or a body is open, there is a move, or something is wrong. -/
theorem Point.goesOn (point : Point) (unfinished : ¬ point.Done) : point.GoesOn := by
  obtain ⟨state, offset, rest⟩ := point
  cases rest with
  | nil =>
    cases inside : state.opening with
    | none => exact absurd ⟨rfl, inside⟩ unfinished
    | some opening => exact .inl ⟨_, .unterminated inside⟩
  | cons char rest =>
    rcases char_cases char with blank | rfl | rfl | rfl | word
    · have passes : ∀ other ∈ [char], Text.isBlank other = true :=
        List.forall_mem_singleton.mpr blank
      exact .inr ⟨.piece (.blanks ⟨[char], List.cons_ne_nil _ _, passes⟩), _, rest, rfl, .blanks _⟩
    · exact .callMark state offset rest
    · cases inside : state.opening with
      | none => exact .inl ⟨_, .nameless inside⟩
      | some opening => exact .inl ⟨_, .nested inside⟩
    · cases inside : state.opening with
      | none => exact .inl ⟨_, .stray inside⟩
      | some opening => exact .inr ⟨.closing, _, rest, rfl, .closing inside⟩
    · exact .word state offset word rest

/-- The moves come to an end, and what is wrong there, if anything, is what is reported. -/
theorem Point.exists_leads (point : Point) :
    ∃ last, Leads point last ∧ (last.Done ∨ ∃ diagnostic, Stuck last diagnostic) := by
  generalize length : point.rest.length = distance
  induction distance using Nat.strongRecOn generalizing point with
  | ind distance shorter =>
    by_cases done : point.Done
    · exact ⟨point, .here point, .inl done⟩
    · obtain ⟨diagnostic, stuck⟩ | ⟨item, next, behind, same, takes⟩ := point.goesOn done
      · exact ⟨point, .here point, .inr ⟨diagnostic, stuck⟩⟩
      · obtain ⟨state, offset, rest⟩ := point
        simp only at same takes length
        subst same
        obtain ⟨char, chars, nonempty, -⟩ := item.chars_eq_cons
        have less : behind.length < distance := by
          rw [← length, nonempty, List.length_append, List.length_cons]
          omega
        obtain ⟨last, leads, ends⟩ :=
          shorter behind.length less ⟨next, offset + item.chars.length, behind⟩ rfl
        exact ⟨last, .take takes leads, ends⟩

theorem Point.read_eq_error_iff :
    point.read = .error diagnostic ↔ ∃ last, Leads point last ∧ Stuck last diagnostic := by
  constructor
  · intro failed
    obtain ⟨last, leads, done | ⟨other, stuck⟩⟩ := point.exists_leads
    · cases failed.symm.trans (leads.read.trans done.read)
    · cases failed.symm.trans (leads.read.trans stuck.read)
      exact ⟨last, leads, stuck⟩
  · rintro ⟨last, leads, stuck⟩
    exact leads.read.trans stuck.read

/-- A text is refused if moves from its beginning lead to where something is wrong. -/
theorem ofSource_eq_error_iff {source : String} : ofSource source = .error diagnostic ↔
    ∃ last, Leads (.start source.toList) last ∧ Stuck last diagnostic := by
  rw [Point.ofSource_eq_read, Point.read_eq_error_iff]

theorem Leads.cons {next last : State} {item : Item}
    (takes : Takes offset (spell (items ++ others)) state item next)
    (leads : Leads ⟨next, offset + item.chars.length, spell (items ++ others)⟩
      ⟨last, offset + item.chars.length + (spell items).length, spell others⟩) :
    Leads ⟨state, offset, spell (item :: items ++ others)⟩
      ⟨last, offset + (spell (item :: items)).length, spell others⟩ := by
  rw [Nat.add_assoc, ← List.length_append] at leads
  exact .take takes leads

theorem Reads.leads (reads : Reads state offset items scan)
    (separated : Separated (items ++ others)) :
    ∃ last : State, last.opening = none ∧ last.scan = scan ∧
      Leads ⟨state, offset, spell (items ++ others)⟩
        ⟨last, offset + (spell items).length, spell others⟩ := by
  induction reads with
  | @done state offset outside => exact ⟨state, outside, rfl, .here _⟩
  | @piece state offset content items scan _ ih =>
    obtain ⟨last, outside, same, leads⟩ := ih separated.tail
    refine ⟨last, outside, same, .cons ?_ leads⟩
    cases content with
    | blanks run =>
      rw [Piece.tokens, emit_nil]
      exact .blanks run
    | call name => exact .call name
    | word run => exact .word run (separated.boundary rfl) fun _ => head_dropWhile_spell _
  | opening outside' fresh _ ih =>
    obtain ⟨last, outside, same, leads⟩ := ih separated.tail
    exact ⟨last, outside, same, .cons (.opening _ _ outside' fresh) leads⟩
  | closing inside _ ih =>
    obtain ⟨last, outside, same, leads⟩ := ih separated.tail
    exact ⟨last, outside, same, .cons (.closing inside) leads⟩

end Brainfuck.Scan
