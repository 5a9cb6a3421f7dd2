import BbjAnalysis.Proofs.Token.Pattern

/-! # The longest piece

A text is cut without loss, and at each place in one way (`Cuts`): the longest piece that some
pattern allows is taken, or one character where no pattern allows any. A double quote is different:
if no single quote closes it on its line, the rest of the line is one error, even where a shorter
piece, such as `""`, would be a string.

That the longest piece is taken is proved in two steps: what is taken for a token of a kind is
allowed by its pattern (`munch_mem`), and an allowed piece is taken unless a longer one is
(`munch_of_mem`).
-/

namespace BbjAnalysis.Token

open scoped Computability
open Piece

/-! ## Strings -/

/-- What a closed string consists of. -/
theorem stringTail_closed {cs : List Char} {n : Nat} (closed : stringTail cs = (true, n)) :
    ∃ body behind, cs = body ++ '"' :: behind ∧ body ∈ quoted ∧ n = body.length + 1 ∧
      behind.head? ≠ some '"' := by
  fun_induction stringTail cs generalizing n with
  | case1 => cases closed
  | case2 rest closed' m eq ih =>
      cases closed
      obtain ⟨body, behind, rfl, inside, rfl, alone⟩ := ih eq
      exact ⟨'"' :: '"' :: body, behind, rfl, append_mem_kstar (v := ['"', '"']) (.inr rfl) inside,
        rfl, alone⟩
  | case3 c rest alone closes =>
      cases closed
      have quote : c = '"' := by simpa using closes
      refine ⟨[], rest, by rw [quote, List.nil_append], Language.nil_mem_kstar _, rfl, ?_⟩
      intro head
      obtain ⟨more, rfl⟩ := List.head?_eq_some_iff.mp head
      exact alone more quote rfl
  | case4 => cases closed
  | case5 c rest alone other inside closed' m eq ih =>
      cases closed
      obtain ⟨body, behind, rfl, quoted, rfl, single⟩ := ih eq
      refine ⟨c :: body, behind, rfl, append_mem_kstar (v := [c]) (.inl ⟨c, ?_, rfl⟩) quoted, rfl,
        single⟩
      simp_all

/-- A string whose closing quote stands alone is closed there. -/
theorem stringTail_append {body behind : List Char} (inside : body ∈ quoted)
    (alone : behind.head? ≠ some '"') :
    stringTail (body ++ '"' :: behind) = (true, body.length + 1) := by
  obtain ⟨pieces, rfl, each⟩ := Language.mem_kstar.mp inside
  induction pieces with
  | nil =>
      rw [List.flatten_nil, List.nil_append, stringTail.eq_3]
      · rfl
      · rintro more - rfl
        exact alone rfl
  | cons piece pieces ih =>
      obtain ⟨first, rest⟩ := List.forall_mem_cons.mp each
      have ih := ih rest (Language.join_mem_kstar rest)
      rcases first with ⟨c, ⟨other, noReturn, noNewline⟩, rfl⟩ | rfl
      · simp only [List.flatten_cons, List.cons_append, List.length_cons]
        rw [stringTail.eq_3 _ _ (by simp [other])]
        simp [other, noReturn, noNewline, ih]
      · simp [stringTail, ih]

/-- What belongs to a closed string. -/
theorem take_closed (body behind : List Char) :
    (body ++ '"' :: behind).take (body.length + 1) = body ++ ['"'] :=
  List.take_length_add_append 1

/-- A string that is not closed goes on to the end of the line. -/
theorem stringTail_open {cs : List Char} {n : Nat} (unclosed : stringTail cs = (false, n)) :
    n = (cs.takeWhile fun c => c ≠ '\r' && c ≠ '\n').length := by
  fun_induction stringTail cs generalizing n with
  | case1 =>
      cases unclosed
      rfl
  | case2 rest closed' m eq ih =>
      cases unclosed
      simp [ih eq]
  | case3 => cases unclosed
  | case4 c rest alone other ends =>
      cases unclosed
      rcases Bool.or_eq_true_iff.mp ends with same | same
      · simp [beq_iff_eq.mp same]
      · simp [beq_iff_eq.mp same]
  | case5 c rest alone other inside closed' m eq ih =>
      cases unclosed
      simp_all

/-- What belongs to a string that is not closed. -/
theorem take_open {cs : List Char} {n : Nat} (unclosed : stringTail cs = (false, n)) :
    cs.take n = cs.takeWhile fun c => c ≠ '\r' && c ≠ '\n' := by
  rw [stringTail_open unclosed]
  exact (List.prefix_iff_eq_take.mp (List.takeWhile_prefix _)).symm

/-! ## Tokens -/

section FirstCharacter

variable {c : Char}

theorem isSpace_of_isIdentStart (start : isIdentStart c = true) : isSpace c = false := by
  rw [Bool.eq_false_iff, ne_eq, isSpace_iff]
  rintro (rfl | rfl | rfl) <;> simp [isIdentStart] at start

theorem isSpace_of_isDigit (digit : c.isDigit = true) : isSpace c = false := by
  rw [Bool.eq_false_iff, ne_eq, isSpace_iff]
  rintro (rfl | rfl | rfl) <;> simp at digit

theorem isIdentStart_of_isDigit (digit : c.isDigit = true) : isIdentStart c = false := by
  have bounds : 48 ≤ c.val.toNat ∧ c.val.toNat ≤ 57 := by
    simpa [Char.isDigit, UInt32.le_iff_toNat_le] using digit
  rw [Bool.eq_false_iff, ne_eq, isIdentStart_iff]
  rintro ((⟨upper, -⟩ | ⟨lower, -⟩) | rfl)
  · have : 65 ≤ c.val.toNat := upper
    omega
  · have : 97 ≤ c.val.toNat := lower
    omega
  · simp at digit

theorem munch_of_isIdentStart (start : isIdentStart c = true) (cs : List Char) :
    munch c cs = (.ident, identTail cs) := by
  simp only [munch, isSpace_of_isIdentStart start, start, identTail]
  cases cs.drop (runLength isIdentChar cs) <;> rfl

theorem munch_of_isDigit (digit : c.isDigit = true) (cs : List Char) :
    munch c cs = (.number, numberTail cs) := by
  simp [munch, isSpace_of_isDigit digit, isIdentStart_of_isDigit digit, digit]

theorem munch_point (digit : c.isDigit = true) (cs : List Char) :
    munch '.' (c :: cs) = (.number, 1 + digitsLength cs) := by
  simp [munch, isSpace, isIdentStart, digit, digitsLength, Nat.add_assoc]

theorem munch_quote (cs : List Char) :
    munch '"' cs = (if (stringTail cs).1 then .string else .error, (stringTail cs).2) := by
  simp [munch, isSpace, isIdentStart]

end FirstCharacter

/-- What is taken for a token of a kind is one. -/
theorem munch_mem {c : Char} {cs : List Char} (known : (munch c cs).1 ≠ .error) :
    c :: cs.take (munch c cs).2 ∈ (munch c cs).1.pattern := by
  by_cases start : isIdentStart c = true
  · rw [munch_of_isIdentStart start]
    exact mem_ident.mpr ⟨(isIdentStart_iff c).mp start, take_identTail cs⟩
  revert known
  fun_cases munch c cs with
  | case1 _ _ space =>
      intro _
      exact mem_whitespace.mpr ⟨(isSpace_iff c).mp space, take_runLength isSpace_iff cs⟩
  | case2 _ _ _ ident => exact absurd ident start
  | case3 _ _ _ ident => exact absurd ident start
  | case4 _ _ _ _ digit =>
      intro _
      exact mem_number.mpr (.inl ⟨(isDigit_iff c).mp digit, take_numberTail cs⟩)
  | case5 => exact fun _ => mem_newline.mpr (.inl ⟨rfl, rfl⟩)
  | case6 => exact fun _ => mem_newline.mpr (.inr ⟨rfl, rfl⟩)
  | case7 cs closed n tail =>
      cases closed with
      | false => simp
      | true =>
          intro _
          obtain ⟨body, behind, rfl, inside, rfl, -⟩ := stringTail_closed tail
          exact mem_string.mpr ⟨rfl, body, inside, take_closed body behind⟩
  | case8 d rest digit n =>
      intro _
      refine mem_number.mpr (.inr ⟨rfl, ?_⟩)
      show (d :: rest).take (1 + n + exponentLength (rest.drop n)) ∈ _
      rw [repeated, mul_assoc, Nat.add_assoc, Nat.add_comm 1, List.take_succ_cons]
      exact cons_mem_oneOf_mul.mpr ⟨(isDigit_iff d).mp digit, take_digitsLength rest⟩
  | case31 => exact absurd rfl
  | _ => exact fun _ => rfl

/-- A piece that some pattern allows is taken, or a longer one is. -/
theorem munch_of_mem {kind : TokenKind} {c : Char} {w : List Char} (unquoted : c ≠ '"')
    (allowed : c :: w ∈ kind.pattern) (rest : List Char) :
    (munch c (w ++ rest)).1 = kind ∧ w.length ≤ (munch c (w ++ rest)).2 ∨
      (munch c (w ++ rest)).1 ≠ .error ∧ w.length < (munch c (w ++ rest)).2 := by
  cases kind with
  | whitespace =>
      obtain ⟨space, more⟩ := mem_whitespace.mp allowed
      have length := runLength_append isSpace_iff more rest
      left
      simp [munch, (isSpace_iff c).mpr space, length]
  | newline =>
      left
      rcases mem_newline.mp allowed with ⟨rfl, rfl⟩ | ⟨rfl, rfl⟩
      · simp [munch, isSpace, isIdentStart]
      · simp [munch, isSpace, isIdentStart]
  | ident =>
      obtain ⟨first, more⟩ := mem_ident.mp allowed
      rw [munch_of_isIdentStart ((isIdentStart_iff c).mpr first)]
      exact .inl ⟨rfl, le_identTail more rest⟩
  | number =>
      left
      rcases mem_number.mp allowed with ⟨first, more⟩ | ⟨rfl, more⟩
      · rw [munch_of_isDigit ((isDigit_iff c).mpr first)]
        exact ⟨rfl, le_numberTail more rest⟩
      · rw [repeated, mul_assoc] at more
        obtain ⟨d, first, v, behind, rfl⟩ := mem_oneOf_mul.mp more
        have longest := le_digitsLength behind rest
        rw [List.cons_append, munch_point ((isDigit_iff d).mpr first)]
        refine ⟨rfl, ?_⟩
        simp only [List.length_cons]
        omega
  | string => exact absurd (mem_string.mp allowed).1 unquoted
  | error => exact absurd allowed (Language.notMem_zero _)
  | dot =>
      cases allowed
      cases rest with
      | nil => exact .inl ⟨rfl, Nat.le_refl 0⟩
      | cons d rest =>
          by_cases digit : d.isDigit = true
          · right
            rw [List.nil_append, munch_point digit]
            exact ⟨by simp, Nat.lt_of_lt_of_le Nat.zero_lt_one (Nat.le_add_right 1 _)⟩
          · left
            simp [munch, isSpace, isIdentStart, digit]
  | colon =>
      -- here and for the comparisons, a second character may make a longer token
      cases allowed
      cases rest with
      | nil => exact .inl ⟨rfl, Nat.le_refl 0⟩
      | cons d rest =>
          by_cases second : d = ':'
          · simp [munch, isSpace, isIdentStart, second]
          · simp [munch, isSpace, isIdentStart, second]
  | lt =>
      cases allowed
      cases rest with
      | nil => exact .inl ⟨rfl, Nat.le_refl 0⟩
      | cons d rest =>
          by_cases greater : d = '>'
          · simp [munch, isSpace, isIdentStart, greater]
          · by_cases equal : d = '='
            · simp [munch, isSpace, isIdentStart, equal]
            · simp [munch, isSpace, isIdentStart, greater, equal]
  | gt =>
      cases allowed
      cases rest with
      | nil => exact .inl ⟨rfl, Nat.le_refl 0⟩
      | cons d rest =>
          by_cases equal : d = '='
          · simp [munch, isSpace, isIdentStart, equal]
          · simp [munch, isSpace, isIdentStart, equal]
  | _ =>
      cases allowed
      simp [munch, isSpace, isIdentStart]

theorem munch_reaches {kind : TokenKind} {c : Char} {w : List Char} (unquoted : c ≠ '"')
    (allowed : c :: w ∈ kind.pattern) (rest : List Char) :
    (munch c (w ++ rest)).1 ≠ .error ∧ w.length ≤ (munch c (w ++ rest)).2 := by
  rcases munch_of_mem unquoted allowed rest with ⟨rfl, reaches⟩ | ⟨known, shorter⟩
  · refine ⟨?_, reaches⟩
    intro unknown
    rw [unknown] at allowed
    exact Language.notMem_zero _ allowed
  · exact ⟨known, Nat.le_of_lt shorter⟩

/-- Where nothing is recognized, one character is taken, and no pattern allows any piece. -/
theorem munch_error {c : Char} {cs : List Char} (unquoted : c ≠ '"')
    (unknown : (munch c cs).1 = .error) : (munch c cs).2 = 0 ∧
      ∀ (kind : TokenKind) (w : List Char), w <+: c :: cs → w ∉ kind.pattern := by
  constructor
  · revert unknown
    fun_cases munch c cs with
    | case7 => exact absurd rfl unquoted
    | case31 => exact fun _ => rfl
    | _ => simp
  · intro kind w front allowed
    cases w with
    | nil => exact nil_notMem_pattern kind allowed
    | cons d w =>
        obtain ⟨rfl, rest, rfl⟩ := List.cons_prefix_cons.mp front
        exact (munch_reaches unquoted allowed rest).1 unknown

/-! ## The piece that is taken -/

/-- How a text is cut: `piece`, of the given kind, is taken from the front of `ahead`. -/
inductive Cuts (ahead : List Char) (kind : TokenKind) (piece : List Char) : Prop where
  /-- The longest piece that a pattern allows, with the kind of that pattern. -/
  | longest (unquoted : ahead.head? ≠ some '"') (front : piece <+: ahead)
      (allowed : piece ∈ kind.pattern)
      (longest : ∀ (other : TokenKind) (w : List Char), w <+: ahead → w ∈ other.pattern →
        w.length < piece.length ∨ w = piece ∧ other = kind)
  /-- One character, as no pattern allows any piece. -/
  | stray (c : Char) (unquoted : c ≠ '"') (single : piece = [c]) (front : piece <+: ahead)
      (unknown : kind = .error)
      (none : ∀ (other : TokenKind) (w : List Char), w <+: ahead → w ∉ other.pattern)
  /-- A string up to the quote that stands alone. -/
  | closed (body behind : List Char) (inside : body ∈ quoted) (alone : behind.head? ≠ some '"')
      (front : ahead = '"' :: (body ++ '"' :: behind)) (string : kind = .string)
      (whole : piece = '"' :: (body ++ ['"']))
  /-- A quote that no quote closes, and the rest of its line. -/
  | unclosed (cs : List Char) (front : ahead = '"' :: cs)
      (open_ : ∀ body ∈ quoted, ∀ behind, cs = body ++ '"' :: behind → behind.head? = some '"')
      (unknown : kind = .error)
      (whole : piece = '"' :: cs.takeWhile fun c => c ≠ '\r' && c ≠ '\n')

/-- What is taken behind the first character is as long as it says. -/
theorem length_take_munch (c : Char) (cs : List Char) :
    (cs.take (munch c cs).2).length = (munch c cs).2 :=
  List.length_take_of_le (munch_le c cs)

theorem cuts_munch (c : Char) (cs : List Char) :
    Cuts (c :: cs) (munch c cs).1 (c :: cs.take (munch c cs).2) := by
  by_cases quote : c = '"'
  · subst quote
    rw [munch_quote]
    cases tail : stringTail cs with
    | mk closed n =>
        cases closed with
        | true =>
            obtain ⟨body, behind, rfl, inside, rfl, alone⟩ := stringTail_closed tail
            exact .closed body behind inside alone rfl rfl (congrArg _ (take_closed body behind))
        | false =>
            refine .unclosed cs rfl ?_ rfl ?_
            · intro body inside behind same
              by_contra alone
              rw [same, stringTail_append inside alone] at tail
              cases tail
            · exact congrArg _ (take_open tail)
  · have front : c :: cs.take (munch c cs).2 <+: c :: cs :=
      List.prefix_cons_inj c |>.mpr (List.take_prefix _ cs)
    by_cases unknown : (munch c cs).1 = .error
    · obtain ⟨alone, none⟩ := munch_error quote unknown
      exact .stray c quote (by rw [alone, List.take_zero]) front unknown none
    · refine .longest (by simpa using quote) front (munch_mem unknown) ?_
      intro other w isFront allowed
      cases w with
      | nil => exact absurd allowed (nil_notMem_pattern other)
      | cons d w =>
          obtain ⟨rfl, rest, rfl⟩ := List.cons_prefix_cons.mp isFront
          rw [List.length_cons, List.length_cons, length_take_munch]
          rcases munch_of_mem quote allowed rest with ⟨same, reaches⟩ | ⟨-, shorter⟩
          · rcases Nat.lt_or_eq_of_le reaches with shorter | whole
            · left
              omega
            · right
              rw [← whole, List.take_left]
              exact ⟨rfl, same.symm⟩
          · left
            omega

/-- A text is cut in one way. -/
theorem cuts_iff {c : Char} {cs : List Char} {kind : TokenKind} {piece : List Char} :
    Cuts (c :: cs) kind piece ↔ kind = (munch c cs).1 ∧ piece = c :: cs.take (munch c cs).2 := by
  constructor
  · intro cut
    have taken : c :: cs.take (munch c cs).2 <+: c :: cs :=
      (List.prefix_cons_inj c).mpr (List.take_prefix _ cs)
    cases cut with
    | longest unquoted front allowed longest =>
        cases piece with
        | nil => exact absurd allowed (nil_notMem_pattern kind)
        | cons d w =>
            obtain ⟨rfl, rest, rfl⟩ := List.cons_prefix_cons.mp front
            have quote : d ≠ '"' := by simpa using unquoted
            obtain ⟨known, reaches⟩ := munch_reaches quote allowed rest
            rcases longest _ _ taken (munch_mem known) with shorter | ⟨same, sameKind⟩
            · rw [List.length_cons, List.length_cons, length_take_munch] at shorter
              omega
            · exact ⟨sameKind.symm, same.symm⟩
    | stray d unquoted single front unknown none =>
        subst single unknown
        obtain ⟨rfl, -⟩ := List.cons_prefix_cons.mp front
        have unknown : (munch d cs).1 = .error := by
          by_contra known
          exact none _ _ taken (munch_mem known)
        rw [unknown, (munch_error unquoted unknown).1]
        exact ⟨rfl, rfl⟩
    | closed body behind inside alone front string whole =>
        subst string whole
        obtain ⟨rfl, rfl⟩ := List.cons.inj front
        rw [munch_quote, stringTail_append inside alone]
        exact ⟨rfl, congrArg _ (take_closed body behind).symm⟩
    | unclosed line front open_ unknown whole =>
        subst unknown whole
        obtain ⟨rfl, rfl⟩ := List.cons.inj front
        rw [munch_quote]
        cases tail : stringTail cs with
        | mk closed n =>
            cases closed with
            | true =>
                obtain ⟨body, behind, same, inside, -, alone⟩ := stringTail_closed tail
                exact absurd (open_ body inside behind same) alone
            | false =>
                exact ⟨rfl, congrArg _ (take_open tail).symm⟩
  · rintro ⟨rfl, rfl⟩
    exact cuts_munch c cs

/-! ## Texts -/

/-- The texts of tokens, one behind the other. -/
def joined (ts : List Token) : String := String.join (ts.map text)

theorem joined_cons (t : Token) (ts : List Token) : joined (t :: ts) = t.text ++ joined ts :=
  String.join_cons

theorem joined_append (ts us : List Token) : joined (ts ++ us) = joined ts ++ joined us := by
  rw [joined, List.map_append, String.join_append, joined, joined]

/-- Nothing of a text is lost. -/
theorem joined_scan (offset : Nat) (cs : List Char) :
    joined (scan offset cs) = String.ofList cs := by
  match cs with
  | [] =>
      rw [scan]
      rfl
  | c :: cs =>
      have shorter : (cs.drop (munch c cs).2).length < (c :: cs).length := by
        rw [List.length_drop, List.length_cons]
        omega
      rw [scan_cons, joined_cons, joined_scan, firstToken, ← String.ofList_append, List.cons_append,
        List.take_append_drop]
termination_by cs.length

theorem joined_tokenize (text : String) : joined (tokenize text) = text := by
  rw [tokenize, joined_scan, String.ofList_toList]

/-- Behind some tokens, what is left of the text is scanned. -/
theorem scan_behind {offset : Nat} {cs : List Char} {before behind : List Token} {t : Token}
    (tokens : scan offset cs = before ++ t :: behind) :
    t.start = offset + (joined before).utf8ByteSize ∧
      ∃ c ds, t = firstToken t.start c ds ∧ joined (t :: behind) = String.ofList (c :: ds) := by
  induction before generalizing offset cs with
  | nil =>
      cases cs with
      | nil =>
          rw [scan] at tokens
          cases tokens
      | cons c cs =>
          have whole := joined_scan offset (c :: cs)
          rw [tokens] at whole
          rw [scan_cons] at tokens
          cases tokens
          exact ⟨rfl, c, cs, rfl, whole⟩
  | cons u before ih =>
      cases cs with
      | nil =>
          rw [scan] at tokens
          cases tokens
      | cons c cs =>
          rw [scan_cons, List.cons_append] at tokens
          obtain ⟨rfl, rest⟩ := List.cons.inj tokens
          obtain ⟨start, following⟩ := ih rest
          refine ⟨?_, following⟩
          rw [start, joined_cons, String.utf8ByteSize_append, ← Nat.add_assoc]
          rfl

/-- A token begins and stops behind as many bytes as the tokens up to there have. -/
theorem offsets_of_tokens {text : String} {before behind : List Token} {t : Token}
    (tokens : tokenize text = before ++ t :: behind) :
    t.start = (joined before).utf8ByteSize ∧ t.stop = (joined (before ++ [t])).utf8ByteSize := by
  have start : t.start = (joined before).utf8ByteSize := by
    rw [(scan_behind tokens).1, Nat.zero_add]
  refine ⟨start, ?_⟩
  rw [stop, start, joined_append, String.utf8ByteSize_append, joined_cons,
    String.utf8ByteSize_append]
  rfl

/-- A token has one of the texts that its kind allows. -/
theorem text_mem_pattern {offset : Nat} {cs : List Char} {t : Token}
    (member : t ∈ scan offset cs) (known : t.kind ≠ .error) :
    t.text.toList ∈ t.kind.pattern := by
  obtain ⟨before, behind, tokens⟩ := List.append_of_mem member
  obtain ⟨-, c, ds, first, -⟩ := scan_behind tokens
  rw [first] at known ⊢
  simpa [firstToken] using munch_mem known

/-- The tokens of a text are its pieces in order, and none is empty. They begin and end between
characters, each as many bytes behind the start of the text as the tokens before it have. Each is
what `Cuts` takes from the text that is left, and nothing else is. -/
theorem tokenize_cuts (text : String) :
    joined (tokenize text) = text ∧
      ∀ before t behind, tokenize text = before ++ t :: behind →
        t.text ≠ "" ∧ t.start = (joined before).utf8ByteSize ∧
          String.Pos.Raw.IsValid text ⟨t.start⟩ ∧ String.Pos.Raw.IsValid text ⟨t.stop⟩ ∧
            ∀ kind piece, Cuts (joined (t :: behind)).toList kind piece ↔
              kind = t.kind ∧ piece = t.text.toList := by
  have whole : joined (tokenize text) = text := by
    rw [tokenize, joined_scan, String.ofList_toList]
  refine ⟨whole, ?_⟩
  intro before t behind tokens
  obtain ⟨start, c, ds, first, ahead⟩ := scan_behind tokens
  rw [Nat.zero_add] at start
  have split : text = joined before ++ (t.text ++ joined behind) := by
    rw [← joined_cons]
    calc text = joined (before ++ t :: behind) := by rw [← tokens, whole]
      _ = joined before ++ joined (t :: behind) := by
        rw [joined, List.map_append, String.join_append, joined, joined]
  refine ⟨?_, start, ?_, ?_, ?_⟩
  · rw [first]
    simp [firstToken]
  · exact String.Pos.Raw.isValid_iff_exists_append.mpr
      ⟨_, _, split, congrArg String.Pos.Raw.mk start⟩
  · refine String.Pos.Raw.isValid_iff_exists_append.mpr
      ⟨joined before ++ t.text, joined behind, by rw [String.append_assoc]; exact split, ?_⟩
    rw [stop, start]
    simp [String.rawEndPos]
  · intro kind piece
    rw [ahead, String.toList_ofList, cuts_iff, first, firstToken, String.toList_ofList]

/-- An exponent without digits is not part of the number before it. -/
theorem tokenize_cuts_exponent :
    tokenize "é1e+" =
        [⟨.error, "é", 0⟩] ++ ⟨.number, "1", 2⟩ :: [⟨.ident, "e", 3⟩, ⟨.plus, "+", 4⟩] ∧
      Cuts ['1', 'e', '+'] .number ['1'] := by
  have tokens : tokenize "é1e+" =
      [⟨.error, "é", 0⟩] ++ ⟨.number, "1", 2⟩ :: [⟨.ident, "e", 3⟩, ⟨.plus, "+", 4⟩] := by
    decide +kernel
  obtain ⟨-, -, -, -, cuts⟩ := (tokenize_cuts "é1e+").2 _ _ _ tokens
  exact ⟨tokens, (cuts .number ['1']).mpr ⟨rfl, by decide +kernel⟩⟩

end BbjAnalysis.Token
