import Brainfuck.Proofs.Macro.Alike
import Brainfuck.Proofs.Scan.Moves
import Brainfuck.Proofs.Scan.Pasting

namespace Brainfuck

/-- The longest runs of characters that are not blank, one after another. -/
def Text.chunks (text : List Char) : List (List Char) :=
  (text.splitOnP isBlank).filter (· ≠ [])

/-- The same lexemes, but for what runs of blanks consist of, and for one at the end. -/
inductive Lexeme.Respaced : List Lexeme → List Lexeme → Prop where
  | nil : Respaced [] []
  | lost (run : List Char) : Respaced [.blank run] []
  | gained (run : List Char) : Respaced [] [.blank run]
  | blank {lexemes others : List Lexeme} (run more : List Char) (rest : Respaced lexemes others) :
      Respaced (.blank run :: lexemes) (.blank more :: others)
  | keep {lexemes others : List Lexeme} (lexeme : Lexeme) (rest : Respaced lexemes others) :
      Respaced (lexeme :: lexemes) (lexeme :: others)

namespace Text

variable {char : Char} {text gap behind chunk : List Char} {others : List (List Char)}

theorem chunks_cons_of_isBlank (blank : isBlank char = true) :
    chunks (char :: text) = chunks text := by
  rw [chunks, List.splitOnP_cons_eq_if_modifyHead, if_pos blank, List.filter_cons_of_neg (by simp),
    chunks]

theorem chunks_append_of_isBlank (blank : ∀ char ∈ gap, isBlank char = true) :
    chunks (gap ++ text) = chunks text := by
  induction gap with
  | nil => rfl
  | cons char gap ih =>
    obtain ⟨first, others⟩ := List.forall_mem_cons.mp blank
    rw [List.cons_append, chunks_cons_of_isBlank first, ih others]

theorem chunks_run_append (run : Run (!isBlank ·))
    (ends : ∀ char ∈ behind.head?, isBlank char = true) :
    chunks (run.chars ++ behind) = run.chars :: chunks behind := by
  have filled : ∀ char ∈ run.chars, isBlank char = false := fun char member => by
    simpa using run.passes char member
  have kept : decide (run.chars ≠ []) = true := by simpa using run.nonempty
  cases behind with
  | nil =>
    rw [List.append_nil, chunks, List.splitOnP_eq_singleton filled, List.filter_cons, if_pos kept]
    rfl
  | cons char behind =>
    have blank := ends char rfl
    rw [chunks_cons_of_isBlank blank, chunks,
      List.splitOnP_append_cons_of_forall_mem filled _ blank, List.filter_cons, if_pos kept, chunks]

theorem exists_chunk (nonempty : text ≠ []) (begins : ∀ char ∈ text.head?, isBlank char = false) :
    ∃ (run : Run (!isBlank ·)) (behind : List Char), text = run.chars ++ behind ∧
      chunks text = run.chars :: chunks behind ∧ ∀ char ∈ behind.head?, isBlank char = true := by
  obtain ⟨char, text, rfl⟩ := List.exists_cons_of_ne_nil nonempty
  have filled : (!isBlank char) = true := by simpa using begins char rfl
  obtain ⟨run, behind, same, ends⟩ := @exists_longest_run_cons (!isBlank ·) char filled text
  simp only [Bool.not_eq_false'] at ends
  exact ⟨run, behind, same, same ▸ chunks_run_append run ends, ends⟩

theorem eq_nil_of_chunks (none_left : chunks text = [])
    (begins : ∀ char ∈ text.head?, isBlank char = false) : text = [] := by
  by_contra nonempty
  obtain ⟨run, behind, -, split, -⟩ := exists_chunk nonempty begins
  cases none_left.symm.trans split

end Text

namespace Lexeme

variable {text behind : List Char} {lexemes others : List Lexeme}

/-- Only the first of the lexemes behind it is joined with a lexeme. -/
theorem join_append (lexeme : Lexeme)
    (apart : lexemes = [] → join lexeme others = lexeme :: others) :
    join lexeme (lexemes ++ others) = join lexeme lexemes ++ others := by
  cases lexemes with
  | nil => cases lexeme <;> exact apart rfl
  | cons first lexemes => cases lexeme <;> cases first <;> rfl

theorem ofChars_append (filled : ∀ char ∈ text, Text.isBlank char = false)
    (ends : ∀ char ∈ behind.head?, Text.isBlank char = true) :
    ofChars (text ++ behind) = ofChars text ++ ofChars behind := by
  induction text with
  | nil => rfl
  | cons char text ih =>
    obtain ⟨first, others⟩ := List.forall_mem_cons.mp filled
    rw [List.cons_append, ofChars_cons, ofChars_cons, ih others, join_append]
    intro _
    cases behind with
    | nil => cases ofChar char <;> rfl
    | cons next behind =>
      obtain ⟨more, rest, same⟩ := cuts_blank.exists_ofChars (ends next rfl) behind
      rw [same]
      unfold ofChar
      split
      · next blank => simp [first] at blank
      · repeat' split
        all_goals rfl

namespace Respaced

theorem append_left (front : List Lexeme) (rest : Respaced lexemes others) :
    Respaced (front ++ lexemes) (front ++ others) := by
  induction front with
  | nil => exact rest
  | cons lexeme _ ih => exact .keep lexeme ih

theorem symm (respaced : Respaced lexemes others) : Respaced others lexemes := by
  induction respaced with
  | nil => exact .nil
  | lost run => exact .gained run
  | gained run => exact .lost run
  | blank run more _ ih => exact .blank more run ih
  | keep lexeme _ ih => exact .keep lexeme ih

theorem kept {lexeme : Lexeme} (respaced : Respaced (lexeme :: lexemes) others)
    (filled : ∀ run, lexeme ≠ .blank run) :
    ∃ rest, others = lexeme :: rest ∧ Respaced lexemes rest := by
  cases respaced with
  | lost run => exact absurd rfl (filled run)
  | blank run more _ => exact absurd rfl (filled run)
  | keep _ rest => exact ⟨_, rfl, rest⟩

theorem spaced {run : List Char} (respaced : Respaced (.blank run :: lexemes) others)
    (more : lexemes ≠ []) : ∃ run' rest, others = .blank run' :: rest ∧ Respaced lexemes rest := by
  cases respaced with
  | lost => exact absurd rfl more
  | blank _ run' rest => exact ⟨run', _, rfl, rest⟩
  | keep _ rest => exact ⟨run, _, rfl, rest⟩

end Respaced

theorem exists_blanks (nonempty : text ≠ [])
    (begins : ∀ char ∈ text.head?, Text.isBlank char = true) :
    ∃ (gap : Blanks) (rest : List Char), ofChars text = .blank gap.chars :: ofChars rest ∧
      Text.chunks rest = Text.chunks text ∧ ∀ char ∈ rest.head?, Text.isBlank char = false := by
  obtain ⟨char, text, rfl⟩ := List.exists_cons_of_ne_nil nonempty
  obtain ⟨gap, rest, same, ends⟩ := exists_longest_run_cons (begins char rfl) text
  rw [same]
  exact ⟨gap, rest, cuts_blank.ofChars_append gap ends,
    (Text.chunks_append_of_isBlank gap.passes).symm, ends⟩

/-- Where two texts go on with gaps, or end, their lexemes differ by blanks if those behind the
gaps do. -/
theorem Respaced.gaps {first second : List Char} (same : Text.chunks first = Text.chunks second)
    (begins : ∀ char ∈ first.head?, Text.isBlank char = true)
    (begins' : ∀ char ∈ second.head?, Text.isBlank char = true)
    (behind : ∀ rest rest', Text.chunks rest = Text.chunks first →
      Text.chunks rest' = Text.chunks second → (∀ char ∈ rest.head?, Text.isBlank char = false) →
        (∀ char ∈ rest'.head?, Text.isBlank char = false) →
          Respaced (ofChars rest) (ofChars rest')) :
    Respaced (ofChars first) (ofChars second) := by
  by_cases ended : first = [] <;> by_cases ended' : second = []
  · rw [ended, ended']
    exact .nil
  · obtain ⟨gap, rest, cut, split, starts⟩ := exists_blanks ended' begins'
    rw [← same, ended] at split
    rw [cut, ended, Text.eq_nil_of_chunks split starts]
    exact .gained _
  · obtain ⟨gap, rest, cut, split, starts⟩ := exists_blanks ended begins
    rw [same, ended'] at split
    rw [cut, ended', Text.eq_nil_of_chunks split starts]
    exact .lost _
  · obtain ⟨gap, rest, cut, split, starts⟩ := exists_blanks ended begins
    obtain ⟨gap', rest', cut', split', starts'⟩ := exists_blanks ended' begins'
    rw [cut, cut']
    exact .blank _ _ (behind rest rest' split split' starts starts')

/-- Texts of the same chunks are cut into lexemes that differ by blanks. -/
theorem respaced_of_chunks {first second : List Char}
    (same : Text.chunks first = Text.chunks second)
    (begins : ∀ char ∈ first.head?, Text.isBlank char = false)
    (begins' : ∀ char ∈ second.head?, Text.isBlank char = false) :
    Respaced (ofChars first) (ofChars second) := by
  generalize split : Text.chunks first = chunks at same
  induction chunks generalizing first second with
  | nil =>
    rw [Text.eq_nil_of_chunks split begins, Text.eq_nil_of_chunks same.symm begins']
    exact .nil
  | cons chunk chunks ih =>
    have nonempty {text : List Char} (split : Text.chunks text = chunk :: chunks) : text ≠ [] := by
      rintro rfl
      cases split
    obtain ⟨run, behind, rfl, cut, ends⟩ := Text.exists_chunk (nonempty split) begins
    obtain ⟨run', behind', rfl, cut', ends'⟩ := Text.exists_chunk (nonempty same.symm) begins'
    obtain ⟨rfl, rest⟩ := List.cons.inj (cut.symm.trans split)
    obtain ⟨chars, rest'⟩ := List.cons.inj (cut'.symm.trans same.symm)
    have filled : ∀ char ∈ run.chars, Text.isBlank char = false := fun char member => by
      simpa using run.passes char member
    rw [chars, ofChars_append filled ends, ofChars_append filled ends']
    refine .append_left _ (.gaps (rest.trans rest'.symm) ends ends' ?_)
    intro further further' left left' starts starts'
    exact ih starts starts' (left.trans rest) (left'.trans rest').symm

end Lexeme

/-- Without macros there is nothing to paste, and tokens differ by their places only. -/
theorem Macro.Table.Pastes.alike {tokens others : List Token}
    (pastes : Table.empty.Pastes tokens others) : List.Forall₂ Token.Alike tokens others := by
  induction pastes with
  | nil => exact .nil
  | keep alike _ ih => exact .cons alike ih
  | @paste token _ _ _ _ _ found =>
    unfold Table.callee? at found
    cases named : token.name <;> simp [named, Table.find?, Table.empty] at found

namespace Scan

variable {state changed : State} {offset place : Nat} {name : String} {lexemes others : List Lexeme}
  {scan scan' : Scan}

theorem Pastes.alike (pastes : scan.Pastes .empty scan') : scan.Alike scan' where
  tokens := pastes.tokens.alike
  table := pastes.definitions.imp fun _ _ both => ⟨both.name, both.body.alike⟩

namespace State.Pastes

variable {opening : Opening}

theorem opening_eq_some (pastes : state.Pastes .empty changed)
    (inside : state.opening = some opening) :
    ∃ opening', changed.opening = some opening' ∧ opening.name = opening'.name := by
  have both := pastes.opening
  rw [inside] at both
  generalize changed.opening = opening'? at both
  cases both with
  | some same => exact ⟨_, rfl, same.name⟩

theorem outside_of_outside (pastes : state.Pastes .empty changed)
    (outside : changed.opening = none) : state.opening = none := by
  cases inside : state.opening with
  | none => rfl
  | some opening =>
    obtain ⟨_, inside', -⟩ := pastes.opening_eq_some inside
    cases outside.symm.trans inside'

theorem refuse {diagnostic : Diagnostic} (pastes : state.Pastes .empty changed)
    (refused : state.define name offset = .error diagnostic) (place : Nat) :
    ∃ diagnostic', changed.define name place = .error diagnostic' ∧
      diagnostic.Alike diagnostic' := by
  obtain ⟨known, rfl⟩ := define_eq_error_iff.mp refused
  have known' : name ∈ changed.names := by
    rwa [names, Macro.Table.names_eq_of_pastes pastes.definitions]
  exact ⟨_, define_eq_error_iff.mpr ⟨known', rfl⟩, rfl⟩

end State.Pastes

theorem readFrom_end (respaced : Lexeme.Respaced [] others) :
    ∃ last, readFrom changed place others = readFrom changed last [] := by
  cases respaced with
  | nil => exact ⟨place, rfl⟩
  | gained run => exact ⟨place + run.length, by simp [readFrom]⟩

/-- What is read does not depend on the blanks, but for its places. -/
theorem readFrom_respaced (respaced : Lexeme.Respaced lexemes others)
    (pastes : state.Pastes .empty changed) :
    Agree Diagnostic.Alike Scan.Alike (readFrom state offset lexemes)
      (readFrom changed place others) := by
  fun_induction readFrom state offset lexemes generalizing changed place others with
  | case1 state offset outside =>
    obtain ⟨last, read⟩ := readFrom_end respaced
    rw [read]
    simpa [readFrom, pastes.opening_eq_none outside] using
      .ok (Pastes.alike ⟨pastes.tokens, pastes.definitions⟩)
  | case2 state offset opening inside =>
    obtain ⟨opening', inside', same⟩ := pastes.opening_eq_some inside
    obtain ⟨last, read⟩ := readFrom_end respaced
    rw [read]
    simpa [readFrom, inside'] using .error (congrArg Flaw.unterminatedBody same)
  | case3 state offset run rest ih =>
    cases respaced with
    | lost => exact ih .nil pastes
    | blank _ _ respaced | keep _ respaced =>
      rw [readFrom]
      exact ih respaced pastes
  | case4 state offset run rest ih =>
    obtain ⟨_, rfl, word⟩ := respaced.kept (by simp)
    obtain ⟨_, rfl, mark⟩ := word.kept (by simp)
    obtain ⟨_, rfl, behind⟩ := mark.kept (by simp)
    rw [readFrom]
    exact ih behind (pastes.emit (.of_alike (.cons ⟨rfl, rfl⟩ .nil)))
  | case5 state offset rest malformed =>
    obtain ⟨_, rfl, word⟩ := respaced.kept (by simp)
    rw [readFrom]
    · exact .error rfl
    · rintro run more rfl
      obtain ⟨_, rfl, mark⟩ := word.symm.kept (by simp)
      obtain ⟨_, rfl, -⟩ := mark.kept (by simp)
      exact malformed _ _ rfl
  | case6 state offset rest outside | case8 state offset rest outside =>
    obtain ⟨_, rfl, -⟩ := respaced.kept (by simp)
    simpa [readFrom, pastes.opening_eq_none outside] using .error rfl
  | case7 state offset rest opening inside =>
    obtain ⟨_, rfl, -⟩ := respaced.kept (by simp)
    obtain ⟨opening', inside', same⟩ := pastes.opening_eq_some inside
    simpa [readFrom, inside'] using .error (congrArg Flaw.nestedDefinition same)
  | case9 state offset rest opening inside ih =>
    obtain ⟨_, rfl, behind⟩ := respaced.kept (by simp)
    obtain ⟨opening', inside', pastes'⟩ := pastes.close inside
    simpa [readFrom, inside'] using ih behind pastes'
  | case10 state offset run rest outside diagnostic refused =>
    obtain ⟨_, rfl, brace⟩ := respaced.kept (by simp)
    obtain ⟨_, rfl, -⟩ := brace.kept (by simp)
    obtain ⟨diagnostic', refused', same⟩ := pastes.refuse refused place
    simpa [readFrom, pastes.opening_eq_none outside, refused'] using .error same
  | case11 state offset run rest outside opened fresh ih =>
    obtain ⟨_, rfl, brace⟩ := respaced.kept (by simp)
    obtain ⟨_, rfl, behind⟩ := brace.kept (by simp)
    obtain ⟨opened', fresh', pastes'⟩ := pastes.define fresh place
    simpa [readFrom, pastes.opening_eq_none outside, fresh'] using ih behind pastes'
  | case12 state offset run gap rest outside diagnostic refused =>
    obtain ⟨_, rfl, blank⟩ := respaced.kept (by simp)
    obtain ⟨gap', _, rfl, brace⟩ := blank.spaced (List.cons_ne_nil _ _)
    obtain ⟨_, rfl, -⟩ := brace.kept (by simp)
    obtain ⟨diagnostic', refused', same⟩ := pastes.refuse refused place
    simpa [readFrom, pastes.opening_eq_none outside, refused'] using .error same
  | case13 state offset run gap rest outside opened fresh ih =>
    obtain ⟨_, rfl, blank⟩ := respaced.kept (by simp)
    obtain ⟨gap', _, rfl, brace⟩ := blank.spaced (List.cons_ne_nil _ _)
    obtain ⟨_, rfl, behind⟩ := brace.kept (by simp)
    obtain ⟨opened', fresh', pastes'⟩ := pastes.define fresh place
    simpa [readFrom, pastes.opening_eq_none outside, fresh'] using ih behind pastes'
  | case14 state offset run rest unbraced unspaced ih =>
    obtain ⟨_, rfl, behind⟩ := respaced.kept (by simp)
    rw [readFrom_word_cons]
    · exact ih behind (pastes.emit (.of_alike (wordTokens_alike offset place run)))
    · intro outside
      have outside' := pastes.outside_of_outside outside
      constructor
      · rintro more rfl
        obtain ⟨_, rfl, -⟩ := behind.symm.kept (by simp)
        exact unbraced _ outside' rfl
      · rintro gap more rfl
        obtain ⟨_, _, rfl, brace⟩ := behind.symm.spaced (List.cons_ne_nil _ _)
        obtain ⟨_, rfl, -⟩ := brace.kept (by simp)
        exact unspaced _ _ outside' rfl

theorem exists_ofSource_eq (source : String) : ∃ (offset : Nat) (text : List Char),
    ofSource source = readFrom {} offset (Lexeme.ofChars text) ∧
      Text.chunks source.toList = Text.chunks text ∧
        ∀ char ∈ text.head?, Text.isBlank char = false := by
  obtain ⟨gap, text, same, blank, begins⟩ := exists_longest_run Text.isBlank source.toList
  refine ⟨0 + gap.length, text, ?_, ?_, begins⟩
  · rw [ofSource, same, readFrom_blanks blank]
  · rw [same, Text.chunks_append_of_isBlank blank]

/-- Texts of the same chunks are read alike, or refused for the same flaw. -/
theorem ofSource_agree {first second : String}
    (same : Text.chunks first.toList = Text.chunks second.toList) :
    Agree Diagnostic.Alike Scan.Alike (ofSource first) (ofSource second) := by
  obtain ⟨offset, text, read, chunks, begins⟩ := exists_ofSource_eq first
  obtain ⟨place, text', read', chunks', begins'⟩ := exists_ofSource_eq second
  rw [read, read']
  refine readFrom_respaced ?_ (.nil .empty)
  exact Lexeme.respaced_of_chunks (chunks ▸ chunks' ▸ same) begins begins'

end Scan
end Brainfuck
