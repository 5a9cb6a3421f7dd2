import BbjAnalysis.Proofs.Token.Lexer

/-! # Tokens in a row

The tokens of a text stand in a row: each begins where the one before it ends or later, and none
is empty. The text of a token is the piece of the text at its span.
-/

namespace BbjAnalysis.Token

/-- The tokens stand one behind the other, from `lo` on and up to `hi`, and none of them is
empty. -/
def Row (lo : Nat) : List Token → Nat → Prop
  | [], hi => lo ≤ hi
  | t :: ts, hi => lo ≤ t.start ∧ t.start < t.stop ∧ Row t.stop ts hi

/-- Where the last of several tokens ends, or else where those before them end. -/
def endOf (ts : List Token) (before : Nat) : Nat := (ts.getLast?.map Token.stop).getD before

theorem endOf_cons (t : Token) (ts : List Token) (before : Nat) :
    endOf (t :: ts) before = endOf ts t.stop := by
  rw [endOf, endOf, List.getLast?_cons, Option.map_some, Option.getD_some, Option.getD_map]

namespace Row

variable {lo lo' hi : Nat} {ts us : List Token}

theorem le (row : Row lo ts hi) : lo ≤ hi := by
  induction ts generalizing lo with
  | nil => exact row
  | cons t ts ih =>
      obtain ⟨before, nonempty, rest⟩ := row
      have := ih rest
      omega

/-- No token is empty, so that there are not more of them than bytes. -/
theorem length_le (row : Row lo ts hi) : lo + ts.length ≤ hi := by
  induction ts generalizing lo with
  | nil => exact row
  | cons t ts ih =>
      obtain ⟨before, nonempty, rest⟩ := row
      have := ih rest
      rw [List.length_cons]
      omega

theorem mono (row : Row lo ts hi) (h : lo' ≤ lo) : Row lo' ts hi := by
  cases ts with
  | nil => exact Nat.le_trans h row
  | cons t ts => exact ⟨Nat.le_trans h row.1, row.2⟩

theorem filter (row : Row lo ts hi) (p : Token → Bool) : Row lo (ts.filter p) hi := by
  induction ts generalizing lo with
  | nil => exact row
  | cons t ts ih =>
      obtain ⟨before, nonempty, rest⟩ := row
      rw [List.filter_cons]
      split
      · exact ⟨before, nonempty, ih rest⟩
      · exact (ih rest).mono (by omega)

/-- The row goes on behind some of its tokens. -/
theorem behind (row : Row lo (ts ++ us) hi) : lo ≤ endOf ts lo ∧ Row (endOf ts lo) us hi := by
  induction ts generalizing lo with
  | nil => exact ⟨Nat.le_refl lo, row⟩
  | cons t ts ih =>
      obtain ⟨before, nonempty, rest⟩ := row
      obtain ⟨further, row⟩ := ih rest
      rw [endOf_cons]
      exact ⟨by omega, row⟩

theorem within (row : Row lo (ts ++ us) hi) {t : Token} (member : t ∈ ts) :
    lo ≤ t.start ∧ t.start < t.stop ∧ t.stop ≤ endOf ts lo := by
  induction ts generalizing lo with
  | nil => cases member
  | cons u ts ih =>
      obtain ⟨before, nonempty, rest⟩ := row
      rw [endOf_cons]
      rcases List.mem_cons.mp member with rfl | member
      · exact ⟨before, nonempty, rest.behind.1⟩
      · have := ih rest member
        omega

end Row

/-! ## The tokens of a text -/

theorem byteSize_cons_pos (c : Char) (cs : List Char) : 0 < byteSize (c :: cs) := by
  apply Nat.pos_of_ne_zero
  intro empty
  have : String.ofList (c :: cs) = "" := String.utf8ByteSize_eq_zero_iff.mp empty
  simpa using congrArg String.toList this

/-- The first token is a piece of the text, and scanning goes on behind it. -/
theorem split_firstToken (c : Char) (cs : List Char) (offset : Nat) :
    c :: cs = (firstToken offset c cs).text.toList ++ cs.drop (munch c cs).2 := by
  simp [firstToken]

theorem stop_firstToken (offset : Nat) (c : Char) (cs : List Char) :
    (firstToken offset c cs).stop = offset + byteSize (firstToken offset c cs).text.toList := by
  rw [byteSize, String.ofList_toList]
  rfl

theorem row_scan (offset : Nat) (cs : List Char) :
    Row offset (scan offset cs) (offset + byteSize cs) := by
  match cs with
  | [] =>
      rw [scan]
      exact Nat.le_add_right _ _
  | c :: cs =>
      have shorter : (cs.drop (munch c cs).2).length < (c :: cs).length := by
        rw [List.length_drop, List.length_cons]
        omega
      have rest := row_scan (firstToken offset c cs).stop (cs.drop (munch c cs).2)
      have ends := stop_firstToken offset c cs
      have size : byteSize (c :: cs) =
          byteSize (firstToken offset c cs).text.toList + byteSize (cs.drop (munch c cs).2) := by
        rw [← byteSize_append, ← split_firstToken]
      have nonempty : 0 < byteSize (firstToken offset c cs).text.toList := by
        rw [firstToken, String.toList_ofList]
        exact byteSize_cons_pos _ _
      rw [scan_cons, size, ← Nat.add_assoc, ← ends]
      refine ⟨Nat.le_refl _, ?_, rest⟩
      show offset < (firstToken offset c cs).stop
      omega
termination_by cs.length

theorem row_tokenize (text : String) : Row 0 (tokenize text) text.utf8ByteSize := by
  have row := row_scan 0 text.toList
  rw [byteSize, String.ofList_toList, Nat.zero_add] at row
  exact row

/-- Every token is a piece of the text, behind as many bytes as its start says. -/
theorem exists_piece (offset : Nat) (cs : List Char) {t : Token} (member : t ∈ scan offset cs) :
    ∃ before behind, before ++ t.text.toList ++ behind = cs ∧
      t.start = offset + byteSize before := by
  match cs with
  | [] =>
      rw [scan] at member
      cases member
  | c :: cs =>
      have shorter : (cs.drop (munch c cs).2).length < (c :: cs).length := by
        rw [List.length_drop, List.length_cons]
        omega
      rw [scan_cons] at member
      rcases List.mem_cons.mp member with rfl | member
      · exact ⟨[], _, (split_firstToken c cs offset).symm, rfl⟩
      · obtain ⟨before, behind, piece, start⟩ := exists_piece _ _ member
        refine ⟨(firstToken offset c cs).text.toList ++ before, behind, ?_, ?_⟩
        · rw [split_firstToken c cs offset, ← piece]
          simp only [List.append_assoc]
        · rw [start, byteSize_append, stop_firstToken, Nat.add_assoc]
termination_by cs.length

/-- The bytes of a piece of a text. -/
theorem extract_piece (before piece behind : String) :
    (before ++ (piece ++ behind)).toByteArray.extract before.utf8ByteSize
      (before.utf8ByteSize + piece.utf8ByteSize) = piece.toByteArray := by
  have inner := ByteArray.extract_append_size_add (a := before.toByteArray)
    (b := piece.toByteArray ++ behind.toByteArray) (i := 0) (j := piece.toByteArray.size)
  rw [Nat.add_zero, String.size_toByteArray, String.size_toByteArray] at inner
  rw [String.toByteArray_append, String.toByteArray_append, inner]
  exact ByteArray.extract_append_eq_left piece.size_toByteArray.symm

/-- The bytes of a text at the span of a token are those of the token. -/
theorem extract_tokenize {text : String} {t : Token} (member : t ∈ tokenize text) :
    text.toByteArray.extract t.start t.stop = t.text.toByteArray := by
  obtain ⟨before, behind, piece, start⟩ := exists_piece 0 _ member
  have whole : text = String.ofList before ++ (t.text ++ String.ofList behind) := by
    apply String.toList_injective
    simp [← piece]
  rw [whole, stop, start, Nat.zero_add, byteSize]
  exact extract_piece ..

end BbjAnalysis.Token
