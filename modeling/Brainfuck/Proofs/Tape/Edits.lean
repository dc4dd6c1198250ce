import Mathlib.Algebra.Group.Nat.Defs
import Mathlib.Data.List.Induction
import Mathlib.Order.Bounds.Basic
import Brainfuck.Tape

/-! A tape beside an array of bytes without end. Whatever is stored, added and touched from
address 0 on, the tape answers as the array does. How many cells are set aside depends on nothing
but the addresses at which something was stored. -/

namespace Brainfuck.Tape

/-- What is done to a tape at an address. -/
inductive Edit where
  | set (address : Nat) (number : Int)
  | add (address : Nat) (delta : Int)
  | touch (address : Nat)
  deriving DecidableEq, Repr

namespace Edit

def address : Edit → Nat
  | set address _ | add address _ | touch address => address

/-- Nothing is stored at an address that is only touched. -/
def stores : Edit → Bool
  | set _ _ | add _ _ => true
  | touch _ => false

/-- The byte that the edit leaves at an address of an array. -/
def byteAt (address : Nat) (old : Int) : Edit → Int
  | set place number => if place = address then number % 256 else old
  | add place delta => if place = address then (old + delta) % 256 else old
  | touch _ => old

end Edit

/-- The byte at an address of an array behind edits: the number that was stored there last, modulo
256, or zero. -/
def byteBehind (edits : List Edit) (address : Nat) : Int := edits.foldl (Edit.byteAt address) 0

def edit (tape : Tape) : Edit → Except Fault Tape
  | .set address number => tape.set address number
  | .add address delta => Prod.snd <$> tape.add address delta
  | .touch address => .ok (tape.touch address)

def editAll (tape : Tape) (edits : List Edit) : Except Fault Tape := edits.foldlM edit tape

/-- The address is 0, or edits reach it. -/
def Reached (edits : List Edit) (address : Nat) : Prop :=
  address = 0 ∨ ∃ edit ∈ edits, edit.address = address

/-- An initial size leads by doublings to a length that fits all addresses at which edits store
something. -/
def Fits (size : Int) (edits : List Edit) (length : Nat) : Prop :=
  (∃ doublings, length = (max 1 size).toNat * 2 ^ doublings) ∧
    ∀ edit ∈ edits, edit.stores = true → edit.address < length

/-- The size that an address fits, reached by doubling a size again and again; none if that takes
more turns than given. -/
def doubled (address : Nat) : Nat → Nat → Option Nat
  | 0, size => if address < size then some size else none
  | turns + 1, size => if address < size then some size else doubled address turns (size * 2)

/-- A tape answers as an array of bytes does behind edits. -/
structure Mirrors (tape : Tape) (size : Int) (edits : List Edit) : Prop where
  get : ∀ address : Nat, ∃ value, tape.get address = .ok value ∧
    (value.toNat : Int) = byteBehind edits address
  add : ∀ (address : Nat) (delta : Int), ∃ sum after, tape.add address delta = .ok (sum, after) ∧
    (sum.toNat : Int) = (byteBehind edits address + delta) % 256 ∧ after.get address = .ok sum
  window_start : ∀ center radius : Nat,
    ((tape.window center radius).1 : Int) = max 0 ((center : Int) - radius)
  window_values : ∀ center radius : Nat,
    (tape.window center radius).2.map (fun value => (value.toNat : Int)) =
      (List.range' (center - radius) (center + radius + 1 - (center - radius))).map
        (byteBehind edits)
  high : IsGreatest {address | Reached edits address} tape.high
  size : IsLeast {length | Fits size edits length} tape.size
  /-- One more edit does not make the tape smaller, and the doubling for it comes to an end. -/
  grows : ∀ edit, ∃ after, tape.edit edit = .ok after ∧ tape.size ≤ after.size ∧
    (edit.stores = true → ∃ turns, ∀ fuel ≥ turns,
      doubled edit.address fuel tape.size = some after.size)

variable {tape after : Tape} {edit : Edit} {edits : List Edit} {size : Int}
  {address length doublings : Nat}

theorem toNat_ofInt (number : Int) : ((UInt8.ofInt number).toNat : Int) = number % 256 := by
  simp only [UInt8.ofInt, UInt8.toNat_ofNat']
  omega

theorem toNat_add_ofInt (value : UInt8) (delta : Int) :
    ((value + .ofInt delta).toNat : Int) = ((value.toNat : Int) + delta) % 256 := by
  have bound := toNat_ofInt delta
  rw [UInt8.toNat_add]
  omega

theorem add_natCast (unlimited : tape.room = none) (address : Nat) (delta : Int) :
    tape.add address delta = .ok (tape.read address + .ofInt delta,
      (tape.store address (tape.read address + .ofInt delta)).touch address) := by
  rw [Tape.add, get_natCast]
  change (do return (_, ← tape.put address _) : Except Fault (UInt8 × Tape)) = _
  rw [put_natCast unlimited]
  rfl

theorem exists_sizeFor (positive : 0 < length) (address : Nat) :
    ∃ doublings, sizeFor length address = length * 2 ^ doublings ∧
      ∀ fewer, address < length * 2 ^ fewer → doublings ≤ fewer := by
  unfold sizeFor
  split
  · exact ⟨0, by simp, fun fewer _ => Nat.zero_le fewer⟩
  · next beyond =>
    refine ⟨_, Nat.shiftLeft_eq _ _, fun fewer fits => ?_⟩
    have quotient : address / length ≠ 0 := by
      have := Nat.div_pos (Nat.le_of_not_lt beyond) positive
      omega
    rw [Nat.mul_comm] at fits
    exact (Nat.log2_lt quotient).mpr ((Nat.div_lt_iff_lt_mul positive).mpr fits)

theorem doubled_eq_some (fits : address < length * 2 ^ doublings)
    (least : ∀ fewer, address < length * 2 ^ fewer → doublings ≤ fewer) {fuel : Nat}
    (enough : doublings ≤ fuel) :
    doubled address fuel length = some (length * 2 ^ doublings) := by
  induction doublings generalizing length fuel with
  | zero =>
    rw [Nat.pow_zero, Nat.mul_one] at fits ⊢
    cases fuel <;> exact if_pos fits
  | succ doublings ih =>
    obtain ⟨fuel, rfl⟩ := Nat.exists_eq_add_of_le enough
    have beyond : ¬ address < length := fun inside =>
      absurd (least 0 (by simpa using inside)) (Nat.not_succ_le_zero doublings)
    have twice (count : Nat) : length * 2 * 2 ^ count = length * 2 ^ (count + 1) := by
      rw [Nat.pow_succ']
      ac_rfl
    rw [Nat.add_right_comm, doubled, if_neg beyond, ← twice]
    refine ih (twice doublings ▸ fits) (fun fewer fits => ?_) (Nat.le_add_right _ _)
    exact Nat.le_of_succ_le_succ (least _ (twice fewer ▸ fits))

theorem le_sizeFor (positive : 0 < length) (address : Nat) : length ≤ sizeFor length address := by
  obtain ⟨doublings, same, -⟩ := exists_sizeFor positive address
  rw [same]
  exact Nat.le_mul_of_pos_right _ (Nat.two_pow_pos _)

/-- Doubling until an address fits ends, and it ends with the size that the tape takes. -/
theorem exists_doubled (positive : 0 < length) (address : Nat) :
    ∃ turns, ∀ fuel ≥ turns, doubled address fuel length = some (sizeFor length address) := by
  obtain ⟨doublings, same, least⟩ := exists_sizeFor positive address
  have fits := lt_sizeFor positive address
  rw [same] at fits ⊢
  exact ⟨doublings, fun fuel => doubled_eq_some fits least⟩

/-- The tape with an edit done. -/
structure Edited (tape : Tape) (edit : Edit) (after : Tape) : Prop where
  room : after.room = none
  read : ∀ address, ((after.read address).toNat : Int) =
    edit.byteAt address (tape.read address).toNat
  high : after.high = max tape.high edit.address
  size : after.size = if edit.stores then sizeFor tape.size edit.address else tape.size

theorem exists_edited (unlimited : tape.room = none) (edit : Edit) :
    ∃ after, tape.edit edit = .ok after ∧ tape.Edited edit after := by
  have stored (address : Nat) (value : UInt8) (other : Nat) :
      (((tape.store address value).touch address).read other).toNat =
        if address = other then value.toNat else (tape.read other).toNat := by
    rw [read_touch, read_store]
    split <;> rfl
  cases edit with
  | set address number =>
    refine ⟨_, put_natCast unlimited address _, unlimited, fun other => ?_, rfl, rfl⟩
    rw [stored, Edit.byteAt]
    split
    · exact toNat_ofInt number
    · rfl
  | add address delta =>
    refine ⟨(tape.store address (tape.read address + .ofInt delta)).touch address, ?_, unlimited,
      fun other => ?_, rfl, rfl⟩
    · rw [Tape.edit, add_natCast unlimited]
      rfl
    · rw [stored, Edit.byteAt]
      split
      · next same => rw [← same, toNat_add_ofInt]
      · rfl
  | touch address => exact ⟨_, rfl, unlimited, fun other => rfl, rfl, rfl⟩

/-- What is known of a tape of an initial size behind edits. -/
structure Behind (size : Int) (edits : List Edit) (tape : Tape) : Prop where
  room : tape.room = none
  read : ∀ address, ((tape.read address).toNat : Int) = byteBehind edits address
  high : IsGreatest {address | Reached edits address} tape.high
  size : IsLeast {length | Fits size edits length} tape.size

theorem byteBehind_concat (edits : List Edit) (edit : Edit) (address : Nat) :
    byteBehind (edits ++ [edit]) address = edit.byteAt address (byteBehind edits address) := by
  simp [byteBehind]

theorem reached_concat :
    Reached (edits ++ [edit]) address ↔ Reached edits address ∨ edit.address = address := by
  simp only [Reached, List.mem_append, List.mem_singleton]
  grind

theorem fits_concat : Fits size (edits ++ [edit]) length ↔
    Fits size edits length ∧ (edit.stores = true → edit.address < length) := by
  simp only [Fits, List.mem_append, List.mem_singleton]
  grind

theorem isGreatest_concat {high : Nat}
    (greatest : IsGreatest {address | Reached edits address} high) (edit : Edit) :
    IsGreatest {address | Reached (edits ++ [edit]) address} (max high edit.address) := by
  refine ⟨reached_concat.mpr ?_, fun address member => ?_⟩
  · rcases Nat.le_total high edit.address with below | above
    · exact .inr (Nat.max_eq_right below).symm
    · rw [Nat.max_eq_left above]
      exact .inl greatest.1
  · rcases reached_concat.mp member with before | rfl
    · exact Nat.le_trans (greatest.2 before) (Nat.le_max_left _ _)
    · exact Nat.le_max_right _ _

/-- A size that is doubled until an address fits is the least that fits it too. -/
theorem isLeast_concat (least : IsLeast {length | Fits size edits length} length)
    (stores : edit.stores = true) :
    IsLeast {length | Fits size (edits ++ [edit]) length} (sizeFor length edit.address) := by
  obtain ⟨⟨doublings, same⟩, fits⟩ := least.1
  have positive : 0 < length := by
    rw [same]
    exact Nat.mul_pos (by omega) (Nat.two_pow_pos doublings)
  obtain ⟨more, found, fewest⟩ := exists_sizeFor positive edit.address
  refine ⟨fits_concat.mpr ⟨⟨⟨doublings + more, ?_⟩, ?_⟩, fun _ =>
    lt_sizeFor positive edit.address⟩, fun other member => ?_⟩
  · rw [found, same, Nat.pow_add, Nat.mul_assoc]
  · exact fun early member stored =>
      Nat.lt_of_lt_of_le (fits early member stored) (le_sizeFor positive edit.address)
  · obtain ⟨before, behind⟩ := fits_concat.mp member
    have bound := least.2 before
    obtain ⟨⟨total, rfl⟩, -⟩ := before
    have ordered : doublings ≤ total := by
      rw [same] at bound
      exact (Nat.pow_le_pow_iff_right (by decide)).mp (Nat.le_of_mul_le_mul_left bound (by omega))
    obtain ⟨further, rfl⟩ := Nat.exists_eq_add_of_le ordered
    rw [Nat.pow_add, ← Nat.mul_assoc, ← same] at behind ⊢
    rw [found]
    exact Nat.mul_le_mul_left _ (Nat.pow_le_pow_right (by decide) (fewest further (behind stores)))

namespace Behind

theorem blank (size : Int) : Behind size [] (blank size) where
  room := rfl
  read address := by
    rw [read_blank]
    rfl
  high := by
    refine ⟨.inl rfl, ?_⟩
    rintro address (rfl | ⟨edit, member, -⟩)
    · exact Nat.le_refl 0
    · cases member
  size := by
    have same : (Tape.blank size).size = (max 1 size).toNat := by
      simp only [Tape.blank]
      omega
    rw [same]
    refine ⟨⟨⟨0, (Nat.mul_one _).symm⟩, fun edit member => absurd member List.not_mem_nil⟩, ?_⟩
    rintro length ⟨⟨doublings, rfl⟩, -⟩
    exact Nat.le_mul_of_pos_right _ (Nat.two_pow_pos doublings)

theorem concat (behind : Behind size edits tape) (edited : tape.Edited edit after) :
    Behind size (edits ++ [edit]) after where
  room := edited.room
  read address := by rw [edited.read, behind.read, byteBehind_concat]
  high := edited.high ▸ isGreatest_concat behind.high edit
  size := by
    rw [edited.size]
    split
    · next stores => exact isLeast_concat behind.size stores
    · next touched =>
      have same (length : Nat) : Fits size (edits ++ [edit]) length ↔ Fits size edits length :=
        fits_concat.trans (by simp [touched])
      simpa only [same] using behind.size

end Behind

theorem editAll_concat (tape : Tape) (edits : List Edit) (edit : Edit) :
    tape.editAll (edits ++ [edit]) = tape.editAll edits >>= fun after => after.edit edit := by
  simp [editAll, List.foldlM_append]

theorem exists_behind (size : Int) (edits : List Edit) :
    ∃ tape, (blank size).editAll edits = .ok tape ∧ Behind size edits tape := by
  induction edits using List.reverseRecOn with
  | nil => exact ⟨_, rfl, .blank size⟩
  | append_singleton edits edit ih =>
    obtain ⟨tape, done, behind⟩ := ih
    obtain ⟨after, next, edited⟩ := exists_edited behind.room edit
    exact ⟨after, by rw [editAll_concat, done]; exact next, behind.concat edited⟩

namespace Behind

theorem exists_add (behind : Behind size edits tape) (address : Nat) (delta : Int) :
    ∃ sum after, tape.add address delta = .ok (sum, after) ∧
      (sum.toNat : Int) = (byteBehind edits address + delta) % 256 ∧
        after.get address = .ok sum := by
  refine ⟨tape.read address + .ofInt delta,
    (tape.store address (tape.read address + .ofInt delta)).touch address, ?_, ?_, ?_⟩
  · exact add_natCast behind.room address delta
  · rw [toNat_add_ofInt, behind.read]
  · rw [get_natCast, read_touch, read_store, if_pos rfl]

theorem window_values (behind : Behind size edits tape) (center radius : Nat) :
    (tape.window center radius).2.map (fun value => (value.toNat : Int)) =
      (List.range' (center - radius) (center + radius + 1 - (center - radius))).map
        (byteBehind edits) := by
  have start : ((center : Int) - radius).toNat = center - radius := by omega
  have count : (((center : Int) + radius + 1) - ((center - radius : Nat) : Int)).toNat =
      center + radius + 1 - (center - radius) := by omega
  simp only [window, start, count, List.map_map]
  exact List.map_congr_left fun address _ => behind.read address

theorem grows (behind : Behind size edits tape) (edit : Edit) :
    ∃ after, tape.edit edit = .ok after ∧ tape.size ≤ after.size ∧
      (edit.stores = true → ∃ turns, ∀ fuel ≥ turns,
        doubled edit.address fuel tape.size = some after.size) := by
  obtain ⟨after, done, edited⟩ := exists_edited behind.room edit
  refine ⟨after, done, ?_, fun stores => ?_⟩
  · rw [edited.size]
    split
    · exact le_sizeFor tape.size_pos edit.address
    · exact Nat.le_refl _
  · rw [edited.size, if_pos stores]
    exact exists_doubled tape.size_pos edit.address

theorem mirrors (behind : Behind size edits tape) : tape.Mirrors size edits where
  get address := ⟨_, get_natCast tape address, behind.read address⟩
  add := behind.exists_add
  window_start center radius := by
    simp only [window]
    omega
  window_values := behind.window_values
  high := behind.high
  size := behind.size
  grows := behind.grows

end Behind

/-- Whatever is done to it from address 0 on, a tape of any initial size does it, and answers as an
array of bytes without end. -/
theorem editAll_mirrors (size : Int) (edits : List Edit) :
    ∃ tape, (blank size).editAll edits = .ok tape ∧ tape.Mirrors size edits := by
  obtain ⟨tape, done, behind⟩ := exists_behind size edits
  exact ⟨tape, done, behind.mirrors⟩

/-- A sum beyond 255 on a tape that is doubled twice for it, and an address that is only touched. -/
example : ∃ tape, (blank (-3)).editAll [.set 3 255, .add 3 258, .touch 9] = .ok tape ∧
    (tape.size, tape.high, tape.read 3, tape.read 9) = (4, 9, 1, 0) :=
  ⟨_, rfl, by cbv⟩

end Brainfuck.Tape
