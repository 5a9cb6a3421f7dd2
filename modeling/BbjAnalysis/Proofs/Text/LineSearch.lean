import BbjAnalysis.Proofs.Text.LineIndex
import BbjAnalysis.Text.LineSearch

/-! # Searching by halving

Halving keeps the last number that is not greater in sight, so that the search ends at it
(`search_eq`). The line it finds is then the one that is found one start after the other, and every
place of a text can be found by it (`position?_ofText`).
-/

namespace BbjAnalysis

variable {numbers : List Nat} {n : Nat}

/-- How many of some numbers at the front are not greater than the given one. -/
def countUpTo (numbers : List Nat) (n : Nat) : Nat := (numbers.takeWhile (· ≤ n)).length

/-- Of ascending numbers, those at the front and no others are not greater. -/
theorem le_iff_lt_countUpTo (ascending : numbers.Pairwise (· < ·)) {i m : Nat}
    (there : numbers[i]? = some m) : m ≤ n ↔ i < countUpTo numbers n := by
  induction numbers generalizing i with
  | nil => cases there
  | cons first rest ih =>
      obtain ⟨least, ascending⟩ := List.pairwise_cons.mp ascending
      by_cases le : first ≤ n
      · have front : countUpTo (first :: rest) n = countUpTo rest n + 1 := by
          simp [countUpTo, List.takeWhile_cons_of_pos, le]
        rw [front]
        cases i with
        | zero =>
            cases there
            omega
        | succ i =>
            rw [ih ascending there]
            omega
      · have front : countUpTo (first :: rest) n = 0 := by
          simp [countUpTo, List.takeWhile_cons_of_neg, le]
        have greater : first ≤ m := by
          cases i with
          | zero =>
              cases there
              exact Nat.le_refl m
          | succ i => exact Nat.le_of_lt (least m (List.mem_of_getElem? there))
        rw [front]
        omega

theorem countUpTo_le_length : countUpTo numbers n ≤ numbers.length :=
  (List.takeWhile_prefix _).length_le

/-- What the search comes to, told by the numbers that are not greater. -/
def searched (numbers : List Nat) (n : Nat) : SearchResult :=
  if n ∈ numbers then .found (countUpTo numbers n - 1) else .missing (countUpTo numbers n)

/-- A number that is there is the last one that is not greater. -/
theorem mem_iff_of_last (ascending : numbers.Pairwise (· < ·)) {base m : Nat}
    (there : numbers[base]? = some m) (last : countUpTo numbers n ≤ base + 1)
    (first : base = 0 ∨ base < countUpTo numbers n) : n ∈ numbers ↔ m = n := by
  constructor
  · intro member
    obtain ⟨i, inside, found⟩ := List.mem_iff_getElem.mp member
    have found : numbers[i]? = some n := List.getElem?_eq_some_iff.mpr ⟨inside, found⟩
    have before := (le_iff_lt_countUpTo (n := n) ascending found).mp (Nat.le_refl n)
    have same : i = base := by
      by_contra other
      have earlier : i < base := by omega
      have low := (le_iff_lt_countUpTo (n := n) ascending there).mpr (by omega)
      have up := List.pairwise_iff_getElem.mp ascending i base inside
        (List.getElem?_eq_some_iff.mp there).1 earlier
      have here := (List.getElem?_eq_some_iff.mp found).2
      have there := (List.getElem?_eq_some_iff.mp there).2
      omega
    cases found.symm.trans (same ▸ there)
    rfl
  · rintro rfl
    exact List.mem_of_getElem? there

/-- As long as the last number that is not greater is among those left, the search ends at it. -/
theorem searchFrom_eq (ascending : numbers.Pairwise (· < ·)) {base size : Nat} (left : 0 < size)
    (inside : base + size ≤ numbers.length) (last : countUpTo numbers n ≤ base + size)
    (first : base = 0 ∨ base < countUpTo numbers n) :
    searchFrom numbers n base size = some (searched numbers n) := by
  rw [searchFrom]
  by_cases several : 1 < size
  · have middle : base + size / 2 < numbers.length := by omega
    have there := List.getElem?_eq_getElem middle
    have half := le_iff_lt_countUpTo (n := n) ascending there
    simp only [if_pos several, there, Option.bind_some]
    by_cases greater : n < numbers[base + size / 2]
    · rw [if_pos greater]
      exact searchFrom_eq ascending (by omega) (by omega) (by omega) first
    · rw [if_neg greater]
      exact searchFrom_eq ascending (by omega) (by omega) (by omega) (by omega)
  · have one : size = 1 := by omega
    subst one
    have there := List.getElem?_eq_getElem (show base < numbers.length by omega)
    have half := le_iff_lt_countUpTo (n := n) ascending there
    have member := mem_iff_of_last ascending there last first
    rw [if_neg several, there, Option.map_some, searched]
    by_cases same : numbers[base] = n
    · rw [if_pos same, if_pos (member.mpr same)]
      congr 2
      omega
    · rw [if_neg same, if_neg (fun found => same (member.mp found))]
      congr 2
      split <;> omega
termination_by size

theorem search_eq (ascending : numbers.Pairwise (· < ·)) :
    search numbers n = some (searched numbers n) := by
  rw [search]
  cases numbers with
  | nil => rfl
  | cons first rest =>
      rw [if_neg (by simp)]
      apply searchFrom_eq ascending
      · exact Nat.succ_pos _
      · omega
      · rw [Nat.zero_add]
        exact countUpTo_le_length
      · exact .inl rfl

namespace LineIndex

/-! ## Places by halving -/

theorem ascending_startsBehind (offset : Nat) (cs : List Char) :
    (offset :: startsBehind offset cs).Pairwise (· < ·) := by
  induction cs generalizing offset with
  | nil => exact List.pairwise_singleton _ _
  | cons c cs ih =>
      refine List.pairwise_cons.mpr ⟨fun start member => (mem_startsBehind member).1, ?_⟩
      have rest := ih (offset + c.utf8Size)
      simp only [startsBehind]
      split
      · exact rest
      · exact (List.pairwise_cons.mp rest).2

theorem ascending_starts (text : String) : (ofText text).starts.Pairwise (· < ·) :=
  ascending_startsBehind 0 text.toList

variable (text : String) (offset : Nat)

theorem countUpTo_starts_pos : 0 < countUpTo (ofText text).starts offset := by
  have first : countUpTo (ofText text).starts offset =
      countUpTo (startsBehind 0 text.toList) offset + 1 := by
    simp [countUpTo, ofText, List.takeWhile_cons_of_pos]
  omega

/-- The last line that begins at or before an offset. -/
theorem line?_ofText :
    (ofText text).line? offset = some (countUpTo (ofText text).starts offset - 1) := by
  have positive := countUpTo_starts_pos text offset
  rw [line?, search_eq (ascending_starts text), Option.bind_some, searched]
  split
  · next found =>
    split at found
    · cases found
      rfl
    · cases found
  · next missing =>
    split at missing
    · cases missing
    · cases missing
      exact if_pos positive

/-- The start of the last line that begins at or before an offset is there, and not behind it. -/
theorem exists_start : ∃ start,
    (ofText text).starts[countUpTo (ofText text).starts offset - 1]? = some start ∧
      start ≤ offset := by
  have positive := countUpTo_starts_pos text offset
  have most : countUpTo (ofText text).starts offset ≤ _ := countUpTo_le_length
  have there := List.getElem?_eq_getElem
    (show countUpTo (ofText text).starts offset - 1 < (ofText text).starts.length by omega)
  exact ⟨_, there, (le_iff_lt_countUpTo (ascending_starts text) there).mpr (by omega)⟩

theorem position_of_start {start : Nat} (there : (ofText text).starts[countUpTo (ofText text).starts
      (min offset (ofText text).length) - 1]? = some start) : (ofText text).position offset =
    ⟨countUpTo (ofText text).starts (min offset (ofText text).length) - 1,
      min offset (ofText text).length - start⟩ := by
  rw [countUpTo] at there
  simp only [position, there, Option.getD_some, countUpTo]

/-- Every offset has a place, which the search by halving finds. -/
theorem position?_ofText :
    (ofText text).position? offset = some ((ofText text).position offset) := by
  obtain ⟨start, there, before⟩ := exists_start text (min offset (ofText text).length)
  rw [position_of_start text offset there, position?]
  simp only [line?_ofText, there, Option.bind_some, subtract?, if_pos before, Option.map_some]

/-- The start of the line of a place and its column add up to the offset. -/
theorem exists_start_position : ∃ start,
    (ofText text).starts[((ofText text).position offset).line]? = some start ∧
      start + ((ofText text).position offset).col = min offset text.utf8ByteSize := by
  obtain ⟨start, there, before⟩ := exists_start text (min offset (ofText text).length)
  rw [position_of_start text offset there]
  exact ⟨start, there, Nat.add_sub_cancel' before⟩

end LineIndex

end BbjAnalysis
