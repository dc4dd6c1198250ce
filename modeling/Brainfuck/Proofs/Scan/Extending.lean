import Mathlib.Data.List.Permutation
import Brainfuck.Proofs.Scan.Moves

namespace Brainfuck

/-- What is wrong with a text may be mended behind its end: a body that is not closed, or a call
whose name goes on to the end. -/
def Diagnostic.Mendable (text : List Char) (diagnostic : Diagnostic) : Prop :=
  (∃ name, diagnostic.flaw = .unterminatedBody name) ∨
    diagnostic.flaw = .malformedCall ∧
      ∀ char ∈ text.drop (diagnostic.offset.toNat + 1), isWordChar char = true

namespace Scan

/-- What is wrong with a text is reported where no text behind it helps any more, and not before. -/
structure Foresees (source : String) (diagnostic : Diagnostic) : Prop where
  mendable : diagnostic.Mendable source.toList →
    ∃ more scan, ofSource (source ++ more) = .ok scan
  /-- The report stays the same, but for the lines that are shown around the line meant. -/
  hopeless : ¬ diagnostic.Mendable source.toList → ∀ more,
    ofSource (source ++ more) = .error diagnostic ∧
      diagnostic.report (source ++ more) =
        { diagnostic.report source with excerpt := (diagnostic.report (source ++ more)).excerpt }

variable {state next : State} {offset : Nat} {behind more : List Char} {item : Item}
  {first last point : Point} {diagnostic : Diagnostic}

/-- A text that goes on from the rest does not change what stands before the rest: something is
left that separates them, or the text goes on neither with a word nor with a body. -/
def Apart (rest more : List Char) : Prop :=
  (∃ char ∈ rest, Text.isBlank char = false) ∨
    (∀ char ∈ more.head?, isWordChar char = false) ∧
      (more.dropWhile Text.isBlank).head? ≠ some '\x7b'

namespace Apart

theorem of_suffix {rest : List Char} (apart : Apart rest more) (front : List Char) :
    Apart (front ++ rest) more := by
  rcases apart with ⟨char, member, filled⟩ | ends
  · exact .inl ⟨char, List.mem_append_right _ member, filled⟩
  · exact .inr ends

theorem word_ends {rest : List Char} (apart : Apart rest more)
    (ends : ∀ char ∈ rest.head?, isWordChar char = false) :
    ∀ char ∈ (rest ++ more).head?, isWordChar char = false := by
  cases rest with
  | nil =>
    rcases apart with ⟨char, member, -⟩ | ⟨ends', -⟩
    · cases member
    · exact ends'
  | cons char rest => exact ends

theorem not_braced {rest : List Char} (apart : Apart rest more)
    (unnamed : (rest.dropWhile Text.isBlank).head? ≠ some '\x7b') :
    ((rest ++ more).dropWhile Text.isBlank).head? ≠ some '\x7b' := by
  rw [List.dropWhile_append]
  cases left : rest.dropWhile Text.isBlank with
  | nil =>
    rcases apart with ⟨char, member, filled⟩ | ⟨-, unbraced⟩
    · rw [List.dropWhile_eq_nil_iff.mp left char member] at filled
      cases filled
    · exact unbraced
  | cons char others =>
    rw [left] at unnamed
    exact unnamed

end Apart

theorem Takes.extend (takes : Takes offset behind state item next) (apart : Apart behind more) :
    Takes offset (behind ++ more) state item next := by
  cases takes with
  | blanks run => exact .blanks run
  | call name => exact .call name
  | word run ends unnamed =>
    exact .word run (apart.word_ends ends) fun outside => apart.not_braced (unnamed outside)
  | opening name gap outside fresh => exact .opening name gap outside fresh
  | closing inside => exact .closing inside

/-- The point with a text that goes on. -/
def Point.extend (point : Point) (more : List Char) : Point :=
  { point with rest := point.rest ++ more }

/-- Moves lead on in a text: what is left is the end of it. -/
theorem Leads.located (leads : Leads first last) :
    ∃ chars, first.rest = chars ++ last.rest ∧ last.offset = first.offset + chars.length := by
  induction leads with
  | here => exact ⟨[], rfl, rfl⟩
  | @take _ _ _ _ item _ _ _ ih =>
    obtain ⟨chars, rfl, place⟩ := ih
    exact ⟨item.chars ++ chars, (List.append_assoc _ _ _).symm, by simp [place, Nat.add_assoc]⟩

theorem Leads.extend (leads : Leads first last) (apart : Apart last.rest more) :
    Leads (first.extend more) (last.extend more) := by
  induction leads with
  | here => exact .here _
  | @take state next offset behind item last takes later ih =>
    obtain ⟨chars, same, -⟩ := later.located
    simp only at same
    have extended := takes.extend (same ▸ apart.of_suffix chars : Apart behind more)
    have whole := Leads.take extended (ih apart)
    rwa [← List.append_assoc] at whole

theorem Leads.drop_eq {text : List Char} (leads : Leads (.start text) last) :
    last.rest = text.drop last.offset ∧ last.offset ≤ text.length := by
  obtain ⟨chars, same, place⟩ := leads.located
  simp only [Point.start, Nat.zero_add] at same place
  simp [same, place]

theorem exists_end (state : State) (offset : Nat) :
    ∃ more scan, Apart [] more ∧ (Point.mk state offset more).read = .ok scan := by
  cases inside : state.opening with
  | none =>
    have done : (Point.mk state offset []).Done := ⟨rfl, inside⟩
    exact ⟨[], _, .inr (by simp), done.read⟩
  | some opening =>
    have done : (Point.mk (state.close opening) (offset + 1) []).Done := ⟨rfl, rfl⟩
    have takes : Takes offset [] state .closing (state.close opening) := .closing inside
    have apart : Apart [] ['\x7d'] := .inr ⟨by rintro _ ⟨⟩; rfl, by decide⟩
    exact ⟨['\x7d'], _, apart, takes.read.trans done.read⟩

theorem exists_call_end {run : List Char} (state : State) (offset : Nat)
    (word : ∀ char ∈ run, isWordChar char = true) :
    ∃ more scan, (Point.mk state offset (callMark :: (run ++ more))).read = .ok scan := by
  have name : ∃ (name : Word) (rest : List Char), name.chars = run ++ rest := by
    cases run with
    | nil => exact ⟨⟨['a'], List.cons_ne_nil _ _, List.forall_mem_singleton.mpr rfl⟩, ['a'], rfl⟩
    | cons char run => exact ⟨⟨_, List.cons_ne_nil _ _, word⟩, [], (List.append_nil _).symm⟩
  obtain ⟨name, rest, same⟩ := name
  obtain ⟨more, scan, -, read⟩ := exists_end (state.emit [.callOf name.text offset])
    (offset + (Item.piece (.call name)).chars.length)
  have takes : Takes offset more state (.piece (.call name)) _ := .call name
  have chars : callMark :: (run ++ (rest ++ callMark :: more)) =
      (Item.piece (.call name)).chars ++ more := by
    simp [Item.chars, Piece.chars, same]
  exact ⟨rest ++ callMark :: more, scan, by rw [chars, takes.read, read]⟩

theorem tail_eq_drop {text tail : List Char} {char : Char}
    (located : char :: tail = text.drop offset) : tail = text.drop (offset + 1) := by
  rw [← List.tail_drop, ← located]
  rfl

theorem Stuck.mend {text : List Char} (stuck : Stuck point diagnostic)
    (located : point.rest = text.drop point.offset) (mendable : diagnostic.Mendable text) :
    ∃ more scan, Apart point.rest more ∧ (point.extend more).read = .ok scan := by
  rcases mendable with ⟨name, flaw⟩ | ⟨flaw, word⟩
  · cases stuck <;> cases flaw
    exact exists_end _ _
  · cases stuck <;> cases flaw
    rename_i state offset run behind passes ends malformed
    have inside : ∀ char ∈ run ++ behind, isWordChar char = true := by
      rw [tail_eq_drop located]
      exact word
    obtain ⟨more, scan, read⟩ := exists_call_end state offset inside
    exact ⟨more, scan, .inl ⟨callMark, List.mem_cons_self, by decide⟩, read⟩

theorem Stuck.extend {text : List Char} (stuck : Stuck point diagnostic)
    (located : point.rest = text.drop point.offset) (hopeless : ¬ diagnostic.Mendable text)
    (more : List Char) :
    diagnostic.offset = point.offset ∧ Apart point.rest more ∧
      Stuck (point.extend more) diagnostic := by
  cases stuck with
  | unterminated inside => exact absurd (.inl ⟨_, rfl⟩) hopeless
  | @call state offset run behind word ends malformed =>
    refine ⟨rfl, .inl ⟨_, List.mem_cons_self, by decide⟩, ?_⟩
    cases behind with
    | nil =>
      rw [List.append_nil] at located
      exact absurd (.inr ⟨rfl, tail_eq_drop located ▸ word⟩) hopeless
    | cons char behind =>
      have stuck : Stuck ⟨state, offset, callMark :: (run ++ (char :: behind ++ more))⟩
          ⟨.malformedCall, offset⟩ := .call word ends malformed
      rwa [← List.append_assoc] at stuck
  | nameless outside => exact ⟨rfl, .inl ⟨_, List.mem_cons_self, by decide⟩, .nameless outside⟩
  | nested inside => exact ⟨rfl, .inl ⟨_, List.mem_cons_self, by decide⟩, .nested inside⟩
  | stray outside => exact ⟨rfl, .inl ⟨_, List.mem_cons_self, by decide⟩, .stray outside⟩
  | @duplicate state offset behind name gap outside known =>
    obtain ⟨char, others, same⟩ := List.exists_cons_of_ne_nil name.nonempty
    have filled : Text.isBlank char = false :=
      isBlank_eq_false_of_isWordChar (name.passes char (by simp [same]))
    have member : char ∈ (Item.opening name gap).chars ++ behind := by simp [Item.chars, same]
    have stuck : Stuck ⟨state, offset, (Item.opening name gap).chars ++ (behind ++ more)⟩
        ⟨.duplicateDefinition name.text, offset⟩ := .duplicate name gap outside known
    rw [← List.append_assoc] at stuck
    exact ⟨rfl, .inl ⟨char, member, filled⟩, stuck⟩

theorem lineOf_append {text : List Char} (inside : offset ≤ text.length) :
    Text.lineOf (text ++ more) offset = Text.lineOf text offset := by
  rw [Text.lineOf, Text.lineOf, Int.toNat_natCast, List.take_append_of_le_length inside]

/-- Every error is reported at the first point where the text cannot be mended any more. -/
theorem ofSource_foresees {source : String} (failed : ofSource source = .error diagnostic) :
    Foresees source diagnostic := by
  obtain ⟨last, leads, stuck⟩ := ofSource_eq_error_iff.mp failed
  obtain ⟨located, inside⟩ := leads.drop_eq
  have extend (more : String) : ofSource (source ++ more) =
      ((Point.start source.toList).extend more.toList).read := by
    rw [Point.ofSource_eq_read, String.toList_append]
    rfl
  constructor
  · intro mendable
    obtain ⟨more, scan, apart, read⟩ := stuck.mend located mendable
    refine ⟨String.ofList more, scan, ?_⟩
    rw [extend, String.toList_ofList, (leads.extend apart).read, read]
  · intro hopeless more
    obtain ⟨place, apart, stuck'⟩ := stuck.extend located hopeless more.toList
    refine ⟨?_, ?_⟩
    · rw [extend, (leads.extend apart).read, stuck'.read]
    · have line : Text.lineOf (source ++ more).toList diagnostic.offset =
          Text.lineOf source.toList diagnostic.offset := by
        rw [place, String.toList_append, lineOf_append inside]
      simp only [Diagnostic.report, BuildError.locate, line]

/-- A call that ends in a blank, and one that does not end. -/
theorem ofSource_foresees_call :
    ofSource "a\x7b@b " = .error ⟨.malformedCall, 2⟩ ∧
      (∀ more, ofSource ("a\x7b@b " ++ more) = .error ⟨.malformedCall, 2⟩) ∧
      ofSource "a\x7b@b" = .error ⟨.malformedCall, 2⟩ ∧
        ∃ more scan, ofSource ("a\x7b@b" ++ more) = .ok scan := by
  have ended : ofSource "a\x7b@b " = .error ⟨.malformedCall, 2⟩ := by cbv
  have cut : ofSource "a\x7b@b" = .error ⟨.malformedCall, 2⟩ := by cbv
  refine ⟨ended, fun more => ?_, cut, ?_⟩
  · refine ((ofSource_foresees ended).hopeless ?_ more).1
    rintro (⟨name, flaw⟩ | ⟨-, word⟩)
    · cases flaw
    · cases word ' ' (by decide)
  · have word : ∀ char ∈ ['b'], isWordChar char = true := List.forall_mem_singleton.mpr rfl
    exact (ofSource_foresees cut).mendable (.inr ⟨rfl, word⟩)

end Scan
end Brainfuck
