import BbjAnalysis.Token.Lexer
import Mathlib.Tactic.SplitIfs

/-! # Tokens and lines

No token but a string that is not closed depends on what is behind the end of its line, and
that one depends on nothing behind it either. So the tokens of a text that ends with a line end
are the same whatever follows, and the tokens that follow are those of the rest, moved behind
(`scan_line`).
-/

namespace BbjAnalysis

namespace Token

/-! ## Pieces of tokens -/

theorem runLength_le (p : Char → Bool) (cs : List Char) : runLength p cs ≤ cs.length :=
  (List.takeWhile_sublist p).length_le

/-- A run of characters ends with the line, unless line ends belong to it. -/
theorem runLength_line {p : Char → Bool} (stops : p '\n' = false) (cs rest : List Char) :
    runLength p (cs ++ '\n' :: rest) = runLength p cs := by
  unfold runLength
  induction cs with
  | nil => simp [stops]
  | cons c cs ih =>
      cases pass : p c with
      | true => simp [pass, ih]
      | false => simp [pass]

theorem exponentDigits_le {cs : List Char} {n : Nat} (digits : exponentDigits cs = some n) :
    n ≤ cs.length := by
  have bound := runLength_le Char.isDigit cs
  unfold exponentDigits at digits
  split at digits
  · cases digits
  · next m run =>
    cases digits
    omega

theorem exponentDigits_line (cs rest : List Char) :
    exponentDigits (cs ++ '\n' :: rest) = exponentDigits cs := by
  rw [exponentDigits, runLength_line (by decide), exponentDigits]

theorem exponentLength_le (cs : List Char) : exponentLength cs ≤ cs.length := by
  fun_cases exponentLength cs with
  | case1 e sign rest _ _ =>
      cases digits : exponentDigits rest with
      | none => simp
      | some n =>
          have := exponentDigits_le digits
          simp only [Option.map_some, Option.getD_some, List.length_cons]
          omega
  | case2 e sign rest _ _ =>
      cases digits : exponentDigits (sign :: rest) with
      | none => simp
      | some n =>
          have := exponentDigits_le digits
          simp only [Option.map_some, Option.getD_some, List.length_cons] at *
          omega
  | case3 => exact Nat.zero_le _
  | case4 => exact Nat.zero_le _

theorem exponentLength_line (cs rest : List Char) :
    exponentLength (cs ++ '\n' :: rest) = exponentLength cs := by
  match cs with
  | [] => cases rest <;> rfl
  | [e] =>
      have none : exponentDigits ('\n' :: rest) = none := exponentDigits_line [] rest
      simp [exponentLength, none]
  | e :: sign :: cs =>
      have digits := exponentDigits_line (sign :: cs) rest
      simp only [List.cons_append] at digits
      simp only [List.cons_append, exponentLength, exponentDigits_line, digits]

/-- What a piece leaves of a line. -/
theorem drop_line {cs : List Char} {n : Nat} (within : n ≤ cs.length) (rest : List Char) :
    (cs ++ '\n' :: rest).drop n = cs.drop n ++ '\n' :: rest :=
  List.drop_append_of_le_length within

theorem numberTail_le (cs : List Char) : numberTail cs ≤ cs.length := by
  have whole := runLength_le Char.isDigit cs
  have left : (cs.drop (runLength Char.isDigit cs)).length =
      cs.length - runLength Char.isDigit cs := List.length_drop
  simp only [numberTail]
  split
  · next fraction point =>
    have digits := runLength_le Char.isDigit fraction
    have exponent := exponentLength_le (fraction.drop (runLength Char.isDigit fraction))
    rw [List.length_drop] at exponent
    rw [point, List.length_cons] at left
    omega
  · have exponent := exponentLength_le (cs.drop (runLength Char.isDigit cs))
    omega

theorem numberTail_line (cs rest : List Char) :
    numberTail (cs ++ '\n' :: rest) = numberTail cs := by
  simp only [numberTail]
  rw [runLength_line (by decide), drop_line (runLength_le _ _)]
  cases behind : cs.drop (runLength Char.isDigit cs) with
  | nil => exact congrArg (_ + ·) (exponentLength_line [] rest)
  | cons c more =>
      by_cases point : c = '.'
      · subst point
        simp only [List.cons_append, runLength_line (p := Char.isDigit) (by decide),
          drop_line (runLength_le _ _), exponentLength_line]
      · have exponent := exponentLength_line (c :: more) rest
        rw [List.cons_append] at exponent
        simp only [List.cons_append]
        split
        · next h => exact absurd (List.cons.inj h).1 point
        · split
          · next h => exact absurd (List.cons.inj h).1 point
          · rw [exponent]

theorem stringTail_le (cs : List Char) : (stringTail cs).2 ≤ cs.length := by
  fun_induction stringTail cs <;> simp_all

theorem stringTail_line (cs rest : List Char) :
    stringTail (cs ++ '\n' :: rest) = stringTail cs := by
  -- a quote at the end of the line has no second one behind it
  have single {c : Char} {cs : List Char} (h : ∀ more, c = '"' → cs = '"' :: more → False) :
      ∀ more, c = '"' → cs ++ '\n' :: rest = '"' :: more → False := by
    intro more quote next
    cases cs with
    | nil => cases next
    | cons d ds => exact h ds quote (by rw [(List.cons.inj next).1])
  fun_induction stringTail cs with
  | case1 => rfl
  | case2 cs closed n eq ih => simp only [List.cons_append, stringTail, ih, eq]
  | case3 c cs alone closes =>
      rw [List.cons_append, stringTail.eq_3 _ _ (single alone), if_pos closes]
  | case4 c cs alone other ends =>
      rw [List.cons_append, stringTail.eq_3 _ _ (single alone), if_neg other, if_pos ends]
  | case5 c cs alone other inside closed n eq ih =>
      rw [List.cons_append, stringTail.eq_3 _ _ (single alone), if_neg other, if_neg inside, ih, eq]

/-! ## Tokens -/

theorem munch_le (c : Char) (cs : List Char) : (munch c cs).2 ≤ cs.length := by
  fun_cases munch c cs with
  | case1 => exact runLength_le isSpace cs
  | case2 _ _ _ _ run m more behind =>
      have left : (cs.drop run).length = cs.length - run := List.length_drop
      rw [behind, List.length_cons] at left
      show (if isTypeMark m = true then run + 1 else run) ≤ cs.length
      split_ifs <;> omega
  | case3 => exact runLength_le isIdentChar cs
  | case4 => exact numberTail_le cs
  | case7 _ closed n tail =>
      have bound := stringTail_le cs
      rwa [tail] at bound
  | case8 d more _ run =>
      have digits := runLength_le Char.isDigit more
      have exponent := exponentLength_le (more.drop run)
      rw [List.length_drop] at exponent
      show 1 + run + exponentLength (more.drop run) ≤ more.length + 1
      omega
  | case6 | case11 | case13 | case14 | case16 => exact Nat.succ_le_succ (Nat.zero_le _)
  | _ => exact Nat.zero_le _

/-- A token is the same whatever is behind the end of its line, but that a carriage return and a
line feed are one line end. -/
theorem munch_line {c : Char} {cs : List Char} (apart : c ≠ '\r' ∨ cs ≠ []) (rest : List Char) :
    munch c (cs ++ '\n' :: rest) = munch c cs := by
  simp only [munch, runLength_line (p := isSpace) (by decide),
    runLength_line (p := isIdentChar) (by decide), numberTail_line]
  split
  · rfl
  split
  · rw [drop_line (runLength_le _ _)]
    cases cs.drop (runLength isIdentChar cs) <;> rfl
  split
  · rfl
  by_cases quote : c = '"'
  · subst quote
    simp only [stringTail_line]
  by_cases point : c = '.'
  · subst point
    cases cs with
    | nil => rfl
    | cons d ds =>
        simp only [List.cons_append, runLength_line (p := Char.isDigit) (by decide),
          drop_line (runLength_le _ _), exponentLength_line]
  -- what is left looks at one more character at most, and at none that ends a line
  cases cs with
  | nil =>
      have other : c ≠ '\r' := apart.elim id (absurd rfl)
      simp only [List.nil_append]
      split <;> simp_all
  | cons d ds =>
      simp only [List.cons_append]
      split <;> simp_all

/-! ## Texts -/

/-- The same token behind `bytes` more bytes. -/
def moved (bytes : Nat) (t : Token) : Token := { t with start := t.start + bytes }

theorem stop_moved (bytes : Nat) (t : Token) : (t.moved bytes).stop = t.stop + bytes :=
  Nat.add_right_comm ..

/-- The token at the front of a text. -/
def firstToken (offset : Nat) (c : Char) (cs : List Char) : Token :=
  ⟨(munch c cs).1, String.ofList (c :: cs.take (munch c cs).2), offset⟩

theorem scan_cons (offset : Nat) (c : Char) (cs : List Char) :
    scan offset (c :: cs) =
      firstToken offset c cs :: scan (firstToken offset c cs).stop (cs.drop (munch c cs).2) := by
  rw [scan]
  rfl

/-- Where a text begins is no matter to its tokens. -/
theorem scan_moved (bytes offset : Nat) (cs : List Char) :
    scan (offset + bytes) cs = (scan offset cs).map (moved bytes) := by
  match cs with
  | [] => rw [scan, scan, List.map_nil]
  | c :: cs =>
      have first : firstToken (offset + bytes) c cs = (firstToken offset c cs).moved bytes := rfl
      have shorter : (cs.drop (munch c cs).2).length < (c :: cs).length := by
        rw [List.length_drop, List.length_cons]
        omega
      rw [scan_cons, scan_cons, List.map_cons, first, stop_moved, scan_moved]
termination_by cs.length

/-- The bytes of the characters in the UTF-8 form of a text. -/
def byteSize (cs : List Char) : Nat := (String.ofList cs).utf8ByteSize

theorem byteSize_append (cs ds : List Char) : byteSize (cs ++ ds) = byteSize cs + byteSize ds := by
  rw [byteSize, String.ofList_append, String.utf8ByteSize_append, byteSize, byteSize]

/-- The last token of a text that ends with a line end is a line end, and the tokens of what
follows are those of a text that begins there. -/
theorem scan_line (offset : Nat) (cs : List Char) :
    ∃ ts t, t.kind = .newline ∧ t.stop = offset + byteSize (cs ++ ['\n']) ∧
      ∀ rest, scan offset (cs ++ '\n' :: rest) = ts ++ t :: scan t.stop rest := by
  match cs with
  | [] =>
      refine ⟨[], ⟨.newline, "\n", offset⟩, rfl, rfl, fun rest => ?_⟩
      rw [List.nil_append, scan_cons]
      rfl
  | c :: cs =>
      by_cases apart : c ≠ '\r' ∨ cs ≠ []
      · have length := munch_le c cs
        have shorter : (cs.drop (munch c cs).2).length < (c :: cs).length := by
          rw [List.length_drop, List.length_cons]
          omega
        obtain ⟨ts, t, newline, stop, tokens⟩ :=
          scan_line (firstToken offset c cs).stop (cs.drop (munch c cs).2)
        refine ⟨firstToken offset c cs :: ts, t, newline, ?_, fun rest => ?_⟩
        · have split : c :: cs ++ ['\n'] =
              (c :: cs.take (munch c cs).2) ++ (cs.drop (munch c cs).2 ++ ['\n']) := by
            rw [← List.append_assoc, List.cons_append, List.cons_append, List.take_append_drop,
              List.cons_append]
          rw [stop, split, byteSize_append (c :: cs.take _), ← Nat.add_assoc]
          rfl
        · have first : firstToken offset c (cs ++ '\n' :: rest) = firstToken offset c cs := by
            rw [firstToken, munch_line apart, List.take_append_of_le_length length, firstToken]
          rw [List.cons_append, scan_cons, first, munch_line apart, drop_line length, tokens,
            List.cons_append]
      · obtain ⟨rfl, rfl⟩ : c = '\r' ∧ cs = [] := by
          simpa only [ne_eq, not_or, Decidable.not_not] using apart
        refine ⟨[], ⟨.newline, "\r\n", offset⟩, rfl, rfl, fun rest => ?_⟩
        rw [List.cons_append, List.nil_append, scan_cons]
        rfl
termination_by cs.length

end Token

/-- The tokens of a text that ends with a line, whatever follows. -/
theorem tokenize_line {text : String} (closed : text.toList.getLast? = some '\n') :
    ∃ ts line, line.kind = .newline ∧ line.stop = text.utf8ByteSize ∧
      tokenize text = ts ++ [line] ∧
      ∀ more : String, tokenize (text ++ more) =
        ts ++ line :: (tokenize more).map (Token.moved text.utf8ByteSize) := by
  obtain ⟨cs, chars⟩ := List.getLast?_eq_some_iff.mp closed
  obtain ⟨ts, line, newline, stop, tokens⟩ := Token.scan_line 0 cs
  have size : line.stop = text.utf8ByteSize := by
    rw [stop, ← chars, Token.byteSize, String.ofList_toList, Nat.zero_add]
  refine ⟨ts, line, newline, size, ?_, fun more => ?_⟩
  · rw [tokenize, chars, tokens, Token.scan]
  · rw [tokenize, String.toList_append, chars, List.append_assoc]
    show Token.scan 0 (cs ++ '\n' :: more.toList) = _
    rw [tokens, size, ← Nat.zero_add text.utf8ByteSize, Token.scan_moved, Nat.zero_add]
    rfl

end BbjAnalysis
