import Mathlib.Data.List.TakeWhile
import Brainfuck.Lexeme

namespace Brainfuck

/-- The characters that words are made of. -/
def isWordChar (char : Char) : Bool :=
  !Text.isBlank char && char != '\x7b' && char != '\x7d' && char != callMark

/-- A run of characters that pass a test, with at least one of them. -/
structure Run (test : Char → Bool) where
  chars : List Char
  nonempty : chars ≠ []
  passes : ∀ char ∈ chars, test char = true

@[simp]
theorem Run.chars_inj {test : Char → Bool} {first second : Run test} :
    first.chars = second.chars ↔ first = second := by
  cases first
  cases second
  simp

abbrev Word := Run isWordChar

abbrev Blanks := Run Text.isBlank

/-- The words as a name in a table. -/
def Run.text {test : Char → Bool} (run : Run test) : String := String.ofList run.chars

theorem isBlank_eq_false_of_isWordChar {char : Char} (word : isWordChar char = true) :
    Text.isBlank char = false := by
  simp only [isWordChar, Bool.and_eq_true, Bool.not_eq_true'] at word
  exact word.1.1.1

theorem isWordChar_eq_false_of_isBlank {char : Char} (blank : Text.isBlank char = true) :
    isWordChar char = false := by
  simp [isWordChar, blank]

/-- A text begins with a longest run of characters that pass a test, maybe an empty one. -/
theorem exists_longest_run (test : Char → Bool) (text : List Char) :
    ∃ run rest, text = run ++ rest ∧ (∀ char ∈ run, test char = true) ∧
      ∀ char ∈ rest.head?, test char = false := by
  refine ⟨text.takeWhile test, text.dropWhile test, List.takeWhile_append_dropWhile.symm,
    fun char => List.mem_takeWhile_imp, fun char first => ?_⟩
  have ends := List.head?_dropWhile_not test text
  rw [Option.mem_def.mp first] at ends
  exact ends

/-- A character more at the beginning of a run. -/
def Run.cons {test : Char → Bool} (char : Char) (passes : test char = true) (run : Run test) :
    Run test :=
  ⟨char :: run.chars, List.cons_ne_nil _ _, List.forall_mem_cons.mpr ⟨passes, run.passes⟩⟩

theorem exists_longest_run_cons {test : Char → Bool} {char : Char} (passes : test char = true)
    (text : List Char) : ∃ (run : Run test) (rest : List Char), char :: text = run.chars ++ rest ∧
      ∀ char ∈ rest.head?, test char = false := by
  obtain ⟨run, rest, rfl, others, ends⟩ := exists_longest_run test text
  exact ⟨⟨char :: run, List.cons_ne_nil _ _, List.forall_mem_cons.mpr ⟨passes, others⟩⟩, rest, rfl,
    ends⟩

theorem longest_run_unique {test : Char → Bool} {run run' rest rest' : List Char}
    (same : run ++ rest = run' ++ rest') (passes : ∀ char ∈ run, test char = true)
    (passes' : ∀ char ∈ run', test char = true) (ends : ∀ char ∈ rest.head?, test char = false)
    (ends' : ∀ char ∈ rest'.head?, test char = false) : run = run' ∧ rest = rest' := by
  have stops {rest : List Char} (ends : ∀ char ∈ rest.head?, test char = false) :
      rest.takeWhile test = [] := by
    cases rest with
    | nil => rfl
    | cons char rest => simp [ends char rfl]
  have front := congrArg (List.takeWhile test) same
  rw [List.takeWhile_append_of_pos passes, List.takeWhile_append_of_pos passes', stops ends,
    stops ends', List.append_nil, List.append_nil] at front
  subst front
  exact ⟨rfl, List.append_cancel_left same⟩

theorem char_cases (char : Char) : Text.isBlank char = true ∨ char = callMark ∨ char = '\x7b' ∨
    char = '\x7d' ∨ isWordChar char = true := by
  simp only [isWordChar, Bool.and_eq_true, Bool.not_eq_true', bne_iff_ne]
  grind

theorem Symbol.isWordChar_toChar (symbol : Symbol) : isWordChar symbol.toChar = true := by
  cases symbol <;> decide

namespace Lexeme

variable {char : Char} {text run after : List Char} {lexeme : Lexeme} {rest : List Lexeme}

theorem ofChar_of_isBlank (isBlank : Text.isBlank char = true) : ofChar char = .blank [char] := by
  simp [ofChar, isBlank]

theorem ofChar_of_isWordChar (word : isWordChar char = true) : ofChar char = .word [char] := by
  simp only [isWordChar, Bool.and_eq_true, Bool.not_eq_true', bne_iff_ne] at word
  obtain ⟨⟨⟨filled, opening⟩, closing⟩, mark⟩ := word
  simp [ofChar, filled, opening, closing, mark]

@[simp]
theorem ofChar_openingBrace : ofChar '\x7b' = openingBrace := by decide

@[simp]
theorem ofChar_closingBrace : ofChar '\x7d' = closingBrace := by decide

@[simp]
theorem ofChar_callMark : ofChar Brainfuck.callMark = callMark := by decide

/-- Each lexeme is a run of its class, or a mark. -/
def Proper : Lexeme → Prop
  | blank run => run ≠ [] ∧ ∀ char ∈ run, Text.isBlank char = true
  | word run => run ≠ [] ∧ ∀ char ∈ run, isWordChar char = true
  | openingBrace | closingBrace | callMark => True

theorem proper_ofChar (char : Char) : (ofChar char).Proper := by
  unfold ofChar
  split
  · next blank => simp [Proper, blank]
  · next filled =>
    split
    · trivial
    · split
      · trivial
      · split
        · trivial
        · next opening closing mark => simp [Proper, isWordChar, filled, opening, closing, mark]

/-- Two runs of one class are one run. -/
inductive Joins : Lexeme → Lexeme → Lexeme → Prop where
  | blanks (run more : List Char) : Joins (blank run) (blank more) (blank (run ++ more))
  | words (run more : List Char) : Joins (word run) (word more) (word (run ++ more))

namespace Joins

variable {first second joined : Lexeme}

theorem chars_eq (joins : Joins first second joined) :
    joined.chars = first.chars ++ second.chars := by
  cases joins <;> rfl

theorem proper (joins : Joins first second joined) (front : first.Proper) (back : second.Proper) :
    joined.Proper := by
  cases joins with
  | blanks run more =>
    refine ⟨by simp [front.1], fun char member => ?_⟩
    exact (List.mem_append.mp member).elim (front.2 char) (back.2 char)
  | words run more =>
    refine ⟨by simp [front.1], fun char member => ?_⟩
    exact (List.mem_append.mp member).elim (front.2 char) (back.2 char)

/-- What the second cannot be joined with, the joined lexeme cannot be joined with. -/
theorem apart (joins : Joins first second joined) (alone : join second rest = second :: rest) :
    join joined rest = joined :: rest := by
  cases joins <;> (unfold join at alone ⊢; split <;> simp_all)

end Joins

theorem join_cases (lexeme : Lexeme) (following : List Lexeme) :
    join lexeme following = lexeme :: following ∨
      ∃ next rest joined, following = next :: rest ∧ Joins lexeme next joined ∧
        join lexeme following = joined :: rest := by
  unfold join
  split
  · next run more rest => exact .inr ⟨_, rest, _, rfl, .blanks run more, rfl⟩
  · next run more rest => exact .inr ⟨_, rest, _, rfl, .words run more, rfl⟩
  · exact .inl rfl

theorem ofChars_eq_cons (cut : ofChars text = lexeme :: rest) :
    ∃ after, text = lexeme.chars ++ after ∧ rest = ofChars after ∧ lexeme.Proper ∧
      join lexeme rest = lexeme :: rest := by
  induction text generalizing lexeme rest with
  | nil => cases cut
  | cons char text ih =>
    rw [ofChars_cons] at cut
    rcases join_cases (ofChar char) (ofChars text) with
      alone | ⟨next, more, joined, found, joins, same⟩
    · rw [alone] at cut
      cases cut
      exact ⟨text, by simp, rfl, proper_ofChar char, alone⟩
    · rw [same] at cut
      cases cut
      obtain ⟨after, rfl, rfl, proper, apart⟩ := ih found
      exact ⟨after, by simp [joins.chars_eq], rfl, joins.proper (proper_ofChar char) proper,
        joins.apart apart⟩

/-- The runs of a class of characters are lexemes of one kind, and only they are joined. -/
structure Cuts (test : Char → Bool) (make : List Char → Lexeme) : Prop where
  single : ∀ char, test char = true → ofChar char = make [char]
  joined : ∀ front more rest, join (make front) (make more :: rest) = make (front ++ more) :: rest
  only : ∀ front next whole, Joins (make front) next whole → ∃ more, next = make more
  proper : ∀ run, (make run).Proper → run ≠ [] ∧ ∀ char ∈ run, test char = true
  chars : ∀ run, (make run).chars = run

theorem cuts_word : Cuts isWordChar word where
  single _ := ofChar_of_isWordChar
  joined _ _ _ := rfl
  only
    | _, _, _, .words _ more => ⟨more, rfl⟩
  proper _ := id
  chars _ := rfl

theorem cuts_blank : Cuts Text.isBlank blank where
  single _ := ofChar_of_isBlank
  joined _ _ _ := rfl
  only
    | _, _, _, .blanks _ more => ⟨more, rfl⟩
  proper _ := id
  chars _ := rfl

namespace Cuts

variable {test : Char → Bool} {make : List Char → Lexeme}

theorem join_ofChars (cuts : Cuts test make) (front : List Char)
    (boundary : ∀ char ∈ after.head?, test char = false) :
    join (make front) (ofChars after) = make front :: ofChars after := by
  rcases join_cases (make front) (ofChars after) with alone | ⟨next, rest, whole, found, joins, -⟩
  · exact alone
  · obtain ⟨more, rfl⟩ := cuts.only _ _ _ joins
    obtain ⟨behind, rfl, -, proper, -⟩ := ofChars_eq_cons found
    obtain ⟨nonempty, passes⟩ := cuts.proper more proper
    obtain ⟨char, more, rfl⟩ := List.exists_cons_of_ne_nil nonempty
    have here := boundary char (by simp [cuts.chars])
    rw [passes char List.mem_cons_self] at here
    cases here

/-- A run is cut off whole if no character of its class follows it. -/
theorem ofChars_append (cuts : Cuts test make) (run : Run test)
    (boundary : ∀ char ∈ after.head?, test char = false) :
    ofChars (run.chars ++ after) = make run.chars :: ofChars after := by
  obtain ⟨chars, nonempty, passes⟩ := run
  induction chars with
  | nil => exact absurd rfl nonempty
  | cons char chars ih =>
    rw [List.cons_append, ofChars_cons, cuts.single char (passes char List.mem_cons_self)]
    cases chars with
    | nil => exact cuts.join_ofChars [char] boundary
    | cons next chars =>
      have rest := ih (by simp) fun other member => passes other (List.mem_cons_of_mem _ member)
      rw [rest, cuts.joined]
      rfl

theorem exists_ofChars (cuts : Cuts test make) (passes : test char = true) (after : List Char) :
    ∃ more rest, ofChars (char :: after) = make more :: rest := by
  rw [ofChars_cons, cuts.single char passes]
  rcases join_cases (make [char]) (ofChars after) with alone | ⟨next, rest, whole, found, joins, -⟩
  · exact ⟨_, _, alone⟩
  · obtain ⟨more, rfl⟩ := cuts.only _ _ _ joins
    exact ⟨_, rest, by rw [found, cuts.joined]⟩

theorem boundary_of_join (cuts : Cuts test make)
    (apart : join (make run) (ofChars after) = make run :: ofChars after) :
    ∀ char ∈ after.head?, test char = false := by
  cases after with
  | nil => simp
  | cons char after =>
    rintro other ⟨⟩
    cases passes : test char with
    | false => rfl
    | true =>
      obtain ⟨more, rest, same⟩ := cuts.exists_ofChars passes after
      rw [same, cuts.joined] at apart
      simpa using congrArg List.length apart

end Cuts
end Lexeme
end Brainfuck
