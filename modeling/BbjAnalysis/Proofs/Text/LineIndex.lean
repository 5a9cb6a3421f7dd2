import BbjAnalysis.Proofs.Token.Row
import BbjAnalysis.Text.LineIndex
import Mathlib.Data.List.DropRight

/-! # Places of a text

The place of an offset is told by the text before it: by the line feeds, and by what stands behind
the last one (`position_ofText`). Going from an offset to its place and back leads to the offset
(`offset?_position`).
-/

namespace BbjAnalysis

open Token (byteSize byteSize_append)

/-- The place right behind some characters at the front of a text. -/
def Position.behind (before : List Char) : Position :=
  ⟨before.count '\n', byteSize (before.rtakeWhile (· != '\n'))⟩

namespace LineIndex

theorem byteSize_singleton (c : Char) : byteSize [c] = c.utf8Size := by
  simp [byteSize]

/-! ## Starts of lines -/

theorem startsBehind_append (offset : Nat) (cs ds : List Char) :
    startsBehind offset (cs ++ ds) =
      startsBehind offset cs ++ startsBehind (offset + byteSize cs) ds := by
  induction cs generalizing offset with
  | nil => simp [startsBehind, byteSize]
  | cons c cs ih =>
      have size : byteSize (c :: cs) = c.utf8Size + byteSize cs := by
        rw [← List.singleton_append, byteSize_append, byteSize_singleton]
      simp only [List.cons_append, startsBehind, ih, size, Nat.add_assoc]
      split <;> rfl

theorem length_startsBehind (offset : Nat) (cs : List Char) :
    (startsBehind offset cs).length = cs.count '\n' := by
  induction cs generalizing offset with
  | nil => rfl
  | cons c cs ih =>
      simp only [startsBehind, List.count_cons]
      split <;> simp_all

theorem startsBehind_eq_nil {offset : Nat} {cs : List Char} (none : '\n' ∉ cs) :
    startsBehind offset cs = [] := by
  rw [← List.length_eq_zero_iff, length_startsBehind, List.count_eq_zero]
  exact none

/-- Lines begin behind the offset and not behind the text. -/
theorem mem_startsBehind {offset start : Nat} {cs : List Char}
    (member : start ∈ startsBehind offset cs) : offset < start ∧ start ≤ offset + byteSize cs := by
  induction cs generalizing offset with
  | nil => cases member
  | cons c cs ih =>
      have size : byteSize (c :: cs) = c.utf8Size + byteSize cs := by
        rw [← List.singleton_append, byteSize_append, byteSize_singleton]
      have positive := c.utf8Size_pos
      simp only [startsBehind] at member
      split at member
      · rcases List.mem_cons.mp member with rfl | member
        · omega
        · have := ih member
          omega
      · have := ih member
        omega

/-- Behind the start of the last line stands what no line feed ends. -/
theorem getLast_startsBehind (offset : Nat) (cs : List Char) :
    ∃ start, (offset :: startsBehind offset cs).getLast? = some start ∧
      start + byteSize (cs.rtakeWhile (· != '\n')) = offset + byteSize cs := by
  induction cs using List.reverseRecOn with
  | nil => exact ⟨offset, rfl, rfl⟩
  | append_singleton cs c ih =>
      obtain ⟨start, last, ends⟩ := ih
      rw [startsBehind_append, ← List.cons_append]
      by_cases feed : c = '\n'
      · subst feed
        refine ⟨offset + byteSize (cs ++ ['\n']), ?_, ?_⟩
        · rw [byteSize_append, byteSize_singleton]
          simp only [startsBehind, if_true, Nat.add_assoc, List.getLast?_concat]
        · rw [List.rtakeWhile_concat_neg _ _ _ (by simp)]
          rfl
      · refine ⟨start, ?_, ?_⟩
        · simp only [startsBehind, if_neg feed, List.append_nil]
          exact last
        · rw [List.rtakeWhile_concat_pos _ _ _ (by simpa using feed), byteSize_append,
            byteSize_append]
          omega

/-! ## Places and offsets -/

/-- The lines that begin at or before an offset are those of the text before it. -/
theorem takeWhile_starts {text : String} {before behind : List Char}
    (split : before ++ behind = text.toList) :
    (ofText text).starts.takeWhile (· ≤ byteSize before) = 0 :: startsBehind 0 before := by
  have inside : ∀ start ∈ startsBehind 0 before, decide (start ≤ byteSize before) = true := by
    intro start member
    have := mem_startsBehind member
    exact decide_eq_true (by omega)
  rw [ofText, ← split, startsBehind_append, List.takeWhile_cons_of_pos (by simp),
    List.takeWhile_append_of_pos inside]
  cases further : startsBehind (0 + byteSize before) behind with
  | nil => simp
  | cons start rest =>
      have := mem_startsBehind (further ▸ List.mem_cons_self)
      rw [List.takeWhile_cons_of_neg (by simp; omega), List.append_nil]

theorem position_ofText {text : String} {before behind : List Char}
    (split : before ++ behind = text.toList) :
    (ofText text).position (byteSize before) = .behind before := by
  have within : min (byteSize before) (ofText text).length = byteSize before := by
    have size : (ofText text).length = byteSize before + byteSize behind := by
      rw [← byteSize_append, split, byteSize, String.ofList_toList]
      rfl
    omega
  obtain ⟨start, last, ends⟩ := getLast_startsBehind 0 before
  have line := takeWhile_starts split
  have count : (0 :: startsBehind 0 before).length - 1 = before.count '\n' := by
    rw [List.length_cons, length_startsBehind, Nat.add_sub_cancel]
  have starts : (ofText text).starts[before.count '\n']? = some start := by
    obtain ⟨more, whole⟩ : 0 :: startsBehind 0 before <+: (ofText text).starts :=
      line ▸ List.takeWhile_prefix _
    rw [← whole, List.getElem?_append_left (by rw [List.length_cons, length_startsBehind]; omega),
      ← count, ← List.getLast?_eq_getElem?, last]
  simp only [position, within, line, count, starts, Option.getD_some, Position.behind,
    Position.mk.injEq, true_and]
  omega

theorem offset?_position (text : String) {offset : Nat} (within : offset ≤ text.utf8ByteSize)
    (small : offset < offsetBound) :
    (ofText text).offset? ((ofText text).position offset) = some offset := by
  have least : min offset (ofText text).length = offset := Nat.min_eq_left within
  let begun := (ofText text).starts.takeWhile (· ≤ offset)
  -- The line of the offset is the last of those that begin before, and the first one does.
  obtain ⟨more, whole⟩ : begun <+: (ofText text).starts := List.takeWhile_prefix _
  have nonempty : 0 < begun.length := by
    have first : begun = 0 :: (startsBehind 0 text.toList).takeWhile (· ≤ offset) :=
      List.takeWhile_cons_of_pos (by simp)
    rw [first, List.length_cons]
    exact Nat.succ_pos _
  have inside : begun.length - 1 < begun.length := Nat.sub_lt nonempty Nat.one_pos
  have start : (ofText text).starts[begun.length - 1]? = some begun[begun.length - 1] := by
    rw [← whole, List.getElem?_append_left inside, List.getElem?_eq_getElem inside]
  have before : begun[begun.length - 1] ≤ offset := by
    have member := List.getElem_mem inside
    simpa using List.mem_takeWhile_imp member
  have sum : begun[begun.length - 1] + (offset - begun[begun.length - 1]) = offset :=
    Nat.add_sub_cancel' before
  have place : (ofText text).position offset =
      ⟨begun.length - 1, offset - begun[begun.length - 1]⟩ := by
    simp only [position, least]
    rw [show (ofText text).starts[begun.length - 1]? = _ from start, Option.getD_some]
  have within : offset ≤ (ofText text).length := within
  rw [place, offset?, locate, start]
  simp only [sum, if_neg (Nat.not_le.mpr small), if_pos within]
  rfl

end LineIndex

end BbjAnalysis
