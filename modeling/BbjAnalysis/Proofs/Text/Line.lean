import BbjAnalysis.Proofs.Text.LineSearch

/-! # Lines of bytes

Lines and columns count bytes, and an offset may lie inside a character. Only a line feed has the
byte of a line feed, so that the lines of a text are those of its bytes (`ofText_outline`). From
this follows what the place of any offset is, and how it leads back (`position_counts`), and what
becomes of a place that need not be in the text (`locate_exact`).
-/

namespace BbjAnalysis

open Token (byteSize byteSize_append)

/-- The bytes of a text. -/
def bytesOf (text : String) : List UInt8 := text.toByteArray.data.toList

/-- The byte of a line feed. -/
def feed : UInt8 := 10

/-- One character of one byte in place of each byte, a line feed for a line feed. -/
def outline (bytes : List UInt8) : List Char := bytes.map fun b => if b = feed then '\n' else ' '

/-- Places in the order of a text. -/
instance : LT Position where
  lt a b := a.line < b.line ∨ a.line = b.line ∧ a.col < b.col

/-- The line of the given number, between what stands before and behind it. -/
structure IsLine (bytes : List UInt8) (n : Nat) (before line behind : List UInt8) : Prop where
  whole : before ++ line ++ behind = bytes
  number : before.count feed = n
  begins : before = [] ∨ before.getLast? = some feed
  ends : behind = [] ∨ behind.head? = some feed
  single : feed ∉ line

namespace LineIndex

variable {text : String} {bytes : List UInt8}

/-! ## Bytes in place of characters -/

theorem bytesOf_eq (text : String) : bytesOf text = text.toList.flatMap String.utf8EncodeChar := by
  rw [bytesOf, ← String.utf8Encode_toList, List.utf8Encode]
  simp

theorem length_bytesOf (text : String) : (bytesOf text).length = text.utf8ByteSize := by
  simp [bytesOf]

/-- Only a line feed has the byte of one. -/
theorem feed_notMem_utf8EncodeChar {c : Char} (other : c ≠ '\n') :
    feed ∉ String.utf8EncodeChar c := by
  have value : c.val.toNat ≠ 10 := fun same => other (Char.ext (UInt32.toNat_inj.mp same))
  have number {n : Nat} (small : n < 256) (same : feed = UInt8.ofNat n) : n = 10 := by
    have same := congrArg UInt8.toNat same
    rw [UInt8.toNat_ofNat', Nat.mod_eq_of_lt small] at same
    exact same.symm
  fun_cases String.utf8EncodeChar c with
  | case1 v single =>
      intro member
      exact value (number (by omega) (List.mem_singleton.mp member))
  | _ =>
      -- the bytes of a longer character are not less than 128
      simp only [List.mem_cons, List.not_mem_nil, or_false, not_or]
      and_intros
      all_goals
        intro same
        have := number (by omega) same
        omega

theorem outline_append (bs cs : List UInt8) : outline (bs ++ cs) = outline bs ++ outline cs :=
  List.map_append

theorem byteSize_outline (bytes : List UInt8) : byteSize (outline bytes) = bytes.length := by
  induction bytes with
  | nil => rfl
  | cons b bytes ih =>
      have one : byteSize [if b = feed then '\n' else ' '] = 1 := by
        rw [byteSize_singleton]
        split <;> rfl
      rw [outline, List.map_cons, ← List.singleton_append, byteSize_append, one, ← outline, ih,
        List.length_cons, Nat.add_comm]

theorem count_outline (bytes : List UInt8) : (outline bytes).count '\n' = bytes.count feed := by
  rw [outline, List.count, List.countP_map, List.count]
  congr 1
  funext b
  by_cases feeds : b = feed <;> simp [feeds]

theorem rtakeWhile_outline (bytes : List UInt8) : (outline bytes).rtakeWhile (· != '\n') =
    outline (bytes.rtakeWhile (· != feed)) := by
  induction bytes using List.reverseRecOn with
  | nil => rfl
  | append_singleton bytes b ih =>
      rw [outline_append]
      by_cases feeds : b = feed
      · rw [List.rtakeWhile_concat_neg _ _ _ (by simp [feeds])]
        exact List.rtakeWhile_concat_neg _ _ _ (by simp [feeds])
      · rw [List.rtakeWhile_concat_pos _ _ _ (by simp [feeds]), outline_append, ← ih]
        exact List.rtakeWhile_concat_pos _ _ _ (by simp [feeds])

theorem startsBehind_outline (offset : Nat) (cs : List Char) :
    startsBehind offset (outline (cs.flatMap String.utf8EncodeChar)) = startsBehind offset cs := by
  induction cs generalizing offset with
  | nil => rfl
  | cons c cs ih =>
      have size : byteSize (outline (String.utf8EncodeChar c)) = c.utf8Size := by
        rw [byteSize_outline, String.length_utf8EncodeChar]
      rw [List.flatMap_cons, outline_append, startsBehind_append, size, ih, startsBehind]
      by_cases feeds : c = '\n'
      · subst feeds
        rfl
      · have none : '\n' ∉ outline (String.utf8EncodeChar c) := by
          rw [← List.count_eq_zero, count_outline, List.count_eq_zero]
          exact feed_notMem_utf8EncodeChar feeds
        rw [startsBehind_eq_nil none, if_neg feeds]
        rfl

/-- A text has the lines of its outline. -/
theorem ofText_outline (text : String) :
    ofText (String.ofList (outline (bytesOf text))) = ofText text := by
  have size : (String.ofList (outline (bytesOf text))).utf8ByteSize = text.utf8ByteSize := by
    rw [← length_bytesOf]
    exact byteSize_outline _
  rw [ofText, ofText, size, String.toList_ofList, bytesOf_eq, startsBehind_outline]

/-! ## The place of any offset -/

theorem position_min (text : String) (offset : Nat) :
    (ofText text).position (min offset text.utf8ByteSize) = (ofText text).position offset := by
  have least : min (min offset text.utf8ByteSize) (ofText text).length =
      min offset (ofText text).length := Nat.min_eq_left (Nat.min_le_right _ _)
  simp only [position, least]

/-- The place of an offset is told by the bytes before it. -/
theorem position_bytes (text : String) (offset : Nat) :
    let before := (bytesOf text).take offset
    (ofText text).position offset =
      ⟨before.count feed, (before.rtakeWhile (· != feed)).length⟩ := by
  intro before
  have split : outline before ++ outline ((bytesOf text).drop offset) =
      (String.ofList (outline (bytesOf text))).toList := by
    rw [String.toList_ofList, ← outline_append, List.take_append_drop]
  have place := position_ofText split
  have clamped : byteSize (outline before) = min offset text.utf8ByteSize := by
    rw [byteSize_outline, List.length_take, length_bytesOf]
  rw [ofText_outline, clamped, position_min] at place
  rw [place, Position.behind, count_outline, rtakeWhile_outline, byteSize_outline]

theorem count_starts (text : String) :
    (ofText text).starts.length = (bytesOf text).count feed + 1 := by
  rw [← ofText_outline, ofText, List.length_cons, length_startsBehind, String.toList_ofList,
    count_outline]

/-! ## Lines -/

/-- Behind the line feeds there are as many lines, and one before them. -/
theorem exists_isLine {n : Nat} (inside : n ≤ bytes.count feed) :
    ∃ before line behind, IsLine bytes n before line behind := by
  induction n generalizing bytes with
  | zero =>
      refine ⟨[], bytes.takeWhile (· != feed), bytes.dropWhile (· != feed), ?_⟩
      refine ⟨by simp, rfl, .inl rfl, ?_, ?_⟩
      · cases rest : bytes.dropWhile (· != feed) with
        | nil => exact .inl rfl
        | cons b bs =>
            have stops := List.head?_dropWhile_not (· != feed) bytes
            rw [rest] at stops
            exact .inr (by simpa using stops)
      · intro member
        simpa using List.mem_takeWhile_imp member
  | succ n ih =>
      have member : feed ∈ bytes := List.count_pos_iff.mp (by omega)
      obtain ⟨first, rest, rfl, single⟩ := List.eq_append_cons_of_mem member
      have fewer : n ≤ rest.count feed := by
        rw [List.count_append, List.count_eq_zero.mpr single, List.count_cons_self] at inside
        omega
      obtain ⟨before, line, behind, isLine⟩ := ih fewer
      refine ⟨first ++ feed :: before, line, behind, ?_, ?_, ?_, isLine.ends, isLine.single⟩
      · rw [← isLine.whole]
        simp
      · rw [List.count_append, List.count_eq_zero.mpr single, List.count_cons_self, isLine.number]
        omega
      · right
        rcases isLine.begins with none | last
        · simp [none]
        · rw [← List.singleton_append, ← List.append_assoc, List.getLast?_append, last]
          rfl

variable {n : Nat} {before line behind : List UInt8}

theorem rtakeWhile_of_isLine (isLine : IsLine bytes n before line behind) :
    before.rtakeWhile (· != feed) = [] := by
  rcases isLine.begins with rfl | last
  · rfl
  · obtain ⟨first, rfl⟩ := List.getLast?_eq_some_iff.mp last
    exact List.rtakeWhile_concat_neg _ _ _ (by simp)

/-- The place of an offset in a line, or right behind it. -/
theorem position_inLine (isLine : IsLine (bytesOf text) n before line behind) {col : Nat}
    (inside : col ≤ line.length) :
    (ofText text).position (before.length + col) = ⟨n, col⟩ := by
  have taken : (bytesOf text).take (before.length + col) = before ++ line.take col := by
    rw [← isLine.whole, List.append_assoc, List.take_length_add_append,
      List.take_append_of_le_length inside]
  have single : feed ∉ line.take col := fun member => isLine.single (List.mem_of_mem_take member)
  have part : (before ++ line.take col).rtakeWhile (· != feed) = line.take col := by
    have all : ∀ b ∈ (line.take col).reverse, (b != feed) = true := by
      intro b member
      simp only [bne_iff_ne]
      rintro rfl
      exact single (List.mem_reverse.mp member)
    have none := rtakeWhile_of_isLine isLine
    rw [List.rtakeWhile, List.reverse_eq_nil_iff] at none
    rw [List.rtakeWhile, List.reverse_append, List.takeWhile_append_of_pos all, none,
      List.append_nil, List.reverse_reverse]
  rw [position_bytes, taken, part, List.count_append, List.count_eq_zero.mpr single,
    isLine.number, List.length_take, Nat.min_eq_left inside, Nat.add_zero]

/-- Behind the end of a line an offset is on a later one. -/
theorem position_behindLine (isLine : IsLine (bytesOf text) n before line behind) {offset : Nat}
    (further : before.length + line.length < offset) (within : offset ≤ text.utf8ByteSize) :
    n < ((ofText text).position offset).line := by
  have size : before.length + line.length + behind.length = text.utf8ByteSize := by
    rw [← length_bytesOf, ← isLine.whole, List.length_append, List.length_append]
  obtain ⟨rest, rfl⟩ : ∃ rest, behind = feed :: rest := by
    rcases isLine.ends with rfl | first
    · rw [List.length_nil] at size
      omega
    · exact List.head?_eq_some_iff.mp first
  obtain ⟨more, whole⟩ : before ++ line ++ [feed] <+: (bytesOf text).take offset := by
    apply List.prefix_take_iff.mpr
    constructor
    · exact ⟨rest, by rw [← isLine.whole]; simp⟩
    · simp
      omega
  rw [position_bytes]
  show n < ((bytesOf text).take offset).count feed
  rw [← whole, List.count_append, List.count_append, List.count_append, isLine.number]
  simp only [List.count_cons_self]
  omega

/-- A line begins behind what is before it. -/
theorem starts_of_isLine (isLine : IsLine (bytesOf text) n before line behind) :
    (ofText text).starts[n]? = some before.length := by
  have within : before.length ≤ text.utf8ByteSize := by
    rw [← length_bytesOf, ← isLine.whole, List.length_append, List.length_append]
    omega
  obtain ⟨start, there, sum⟩ := exists_start_position text before.length
  have place := position_inLine isLine (Nat.zero_le line.length)
  rw [Nat.add_zero] at place
  rw [place] at there sum
  rw [Nat.min_eq_left within, Nat.add_zero] at sum
  rw [there, sum]

/-- A column is counted on from the start of its line. -/
theorem locate_of_isLine {place : Position} (small : text.utf8ByteSize < offsetBound)
    (isLine : IsLine (bytesOf text) place.line before line behind) :
    ((ofText text).locate place = .error .overflow ↔ offsetBound ≤ before.length + place.col) ∧
      ∀ offset, (ofText text).locate place = .ok offset ↔
        offset = before.length + place.col ∧ offset ≤ text.utf8ByteSize := by
  have located : (ofText text).locate place =
      if offsetBound ≤ before.length + place.col then .error .overflow
      else if before.length + place.col ≤ text.utf8ByteSize then .ok (before.length + place.col)
      else .error .behindText := by
    simp only [locate, starts_of_isLine isLine]
    rfl
  rw [located]
  by_cases high : offsetBound ≤ before.length + place.col
  · rw [if_pos high]
    refine ⟨iff_of_true rfl high, fun offset => ?_⟩
    constructor
    · intro found
      cases found
    · omega
  · rw [if_neg high]
    by_cases within : before.length + place.col ≤ text.utf8ByteSize
    · rw [if_pos within]
      refine ⟨iff_of_false (by intro found; cases found) high, fun offset => ?_⟩
      rw [Except.ok.injEq]
      omega
    · rw [if_neg within]
      refine ⟨iff_of_false (by intro found; cases found) high, fun offset => ?_⟩
      constructor
      · intro found
        cases found
      · omega

/-! ## From an offset to its place and back -/

/-- What comes first in the text has the lesser place. -/
theorem position_lt {offset later : Nat} (further : offset < later)
    (within : later ≤ text.utf8ByteSize) :
    (ofText text).position offset < (ofText text).position later := by
  have lines : ((ofText text).position offset).line ≤ ((ofText text).position later).line := by
    rw [position_bytes, position_bytes]
    exact (List.take_sublist_take_left (Nat.le_of_lt further)).count_le feed
  obtain ⟨start, there, sum⟩ := exists_start_position text offset
  obtain ⟨start', there', sum'⟩ := exists_start_position text later
  rw [Nat.min_eq_left (Nat.le_trans (Nat.le_of_lt further) within)] at sum
  rw [Nat.min_eq_left within] at sum'
  rcases Nat.lt_or_eq_of_le lines with before | same
  · exact .inl before
  · -- on one line both columns count from one start
    rw [same, there'] at there
    cases there
    exact .inr ⟨same, by omega⟩

/-- The place of an offset has the number of line feeds before it and the number of bytes since the
last of them; halving finds it with no number taken from a lesser one, its parts fit where the
offset does, and it leads back to the offset, or to the end of the text from behind it. What comes
first in the text has the lesser place. -/
theorem position_counts (text : String) (small : text.utf8ByteSize < offsetBound) (offset : Nat) :
    let index := ofText text
    let before := (bytesOf text).take offset
    let place : Position := ⟨before.count feed, (before.rtakeWhile (· != feed)).length⟩
    index.position? offset = some place ∧ index.position offset = place ∧
      place.line < offsetBound ∧ place.col < offsetBound ∧
      index.offset? place = some (min offset text.utf8ByteSize) ∧
      ∀ later, offset < later → later ≤ text.utf8ByteSize → place < index.position later := by
  intro index before place
  have here : index.position offset = place := position_bytes text offset
  have fewer : before.length ≤ text.utf8ByteSize := by
    rw [← length_bytesOf]
    exact List.length_take_le' _ _
  refine ⟨here ▸ position?_ofText text offset, here, ?_, ?_, ?_, ?_⟩
  · exact Nat.lt_of_le_of_lt (Nat.le_trans List.count_le_length fewer) small
  · have part : (before.rtakeWhile (· != feed)).length ≤ before.length :=
      (List.rtakeWhile_suffix _ _).length_le
    exact Nat.lt_of_le_of_lt (Nat.le_trans part fewer) small
  · have within := Nat.min_le_right offset text.utf8ByteSize
    rw [← here, ← position_min]
    exact offset?_position text within (Nat.lt_of_le_of_lt within small)
  · intro later further within
    rw [← here]
    exact position_lt further within

/-- The end of a text with several bytes in its characters, on its last line, which is empty. -/
theorem position_counts_lastLine :
    let text := "é\nü\n"
    text.utf8ByteSize < offsetBound ∧ (ofText text).position? 6 = some ⟨2, 0⟩ ∧
      (ofText text).offset? ⟨2, 0⟩ = some 6 ∧ (⟨1, 1⟩ : Position) < (ofText text).position 6 := by
  intro text
  have small : text.utf8ByteSize < offsetBound := by decide
  have last := position_counts text small 6
  have inside := position_counts text small 4
  exact ⟨small, last.1, last.2.2.2.2.1, inside.2.2.2.2.2 6 (by decide) (by decide)⟩

/-! ## From a place to an offset -/

/-- A place on a line that is not there has no offset. On any other line its column is counted on
from the start of the line; the sum is an offset if it lies in the text, and is none that fits into
its bits exactly if it reaches their bound. The offset has the place from which it was counted
exactly if the column is not behind the end of the line; else it is on a later line. -/
theorem locate_exact (text : String) (small : text.utf8ByteSize < offsetBound) (place : Position) :
    let index := ofText text
    ((bytesOf text).count feed < place.line ∧ index.locate place = .error .noSuchLine) ∨
      ∃ before line behind, IsLine (bytesOf text) place.line before line behind ∧
        (index.locate place = .error .overflow ↔ offsetBound ≤ before.length + place.col) ∧
        (∀ offset, index.locate place = .ok offset ↔
          offset = before.length + place.col ∧ offset ≤ text.utf8ByteSize) ∧
        ∀ offset, index.locate place = .ok offset →
          (index.position offset = place ↔ place.col ≤ line.length) ∧
            (line.length < place.col → place.line < (index.position offset).line) := by
  intro index
  by_cases inside : place.line ≤ (bytesOf text).count feed
  · right
    obtain ⟨before, line, behind, isLine⟩ := exists_isLine inside
    have located := locate_of_isLine small isLine
    refine ⟨before, line, behind, isLine, located.1, located.2, fun offset found => ?_⟩
    obtain ⟨rfl, within⟩ := (located.2 offset).mp found
    have later (further : line.length < place.col) :=
      position_behindLine isLine (Nat.add_lt_add_left further before.length) within
    refine ⟨⟨fun same => ?_, position_inLine isLine⟩, later⟩
    by_contra further
    have := later (Nat.lt_of_not_le further)
    rw [same] at this
    exact Nat.lt_irrefl _ this
  · left
    have none : index.starts[place.line]? = none := by
      rw [List.getElem?_eq_none_iff, count_starts]
      omega
    refine ⟨Nat.lt_of_not_le inside, ?_⟩
    rw [locate, none]

/-- A column behind the end of the first line leads to the second one, and a column may be too great
to be counted on from there. -/
theorem locate_exact_nextLine :
    let index := ofText "ab\ncd\n"
    "ab\ncd\n".utf8ByteSize < offsetBound ∧ index.locate ⟨0, 4⟩ = .ok 4 ∧
      0 < (index.position 4).line ∧ index.locate ⟨1, offsetBound - 1⟩ = .error .overflow := by
  intro index
  have small : "ab\ncd\n".utf8ByteSize < offsetBound := by decide
  have found : index.locate ⟨0, 4⟩ = .ok 4 := by decide
  refine ⟨small, found, ?_, ?_⟩
  · obtain ⟨absent, -⟩ | ⟨before, line, behind, -, -, -, back⟩ :=
      locate_exact "ab\ncd\n" small ⟨0, 4⟩
    · exact absurd absent (Nat.not_lt_zero _)
    · obtain ⟨same, later⟩ := back 4 found
      exact later (Nat.lt_of_not_le fun inside => absurd (same.mpr inside) (by decide))
  · obtain ⟨absent, -⟩ | ⟨before, line, behind, isLine, overflow, -⟩ :=
      locate_exact "ab\ncd\n" small ⟨1, offsetBound - 1⟩
    · exact absurd absent (by decide)
    · have filled : 0 < before.length := by
        rw [List.length_pos_iff]
        rintro rfl
        cases isLine.number
      have bound : 0 < offsetBound := by decide
      apply overflow.mpr
      show offsetBound ≤ before.length + (offsetBound - 1)
      omega

end LineIndex

end BbjAnalysis
