import BbjAnalysis.Proofs.Token.Row
import Mathlib.Computability.Language
import Mathlib.Data.Char
import Mathlib.Order.Interval.Set.Defs

/-! # What tokens look like

The pieces of text that the kinds of tokens allow, as languages over characters. The reader of
tokens counts the characters of a piece. What it counts is a piece of the language, and no piece of
the language at the front of the text is longer (`take_numberTail`, `le_numberTail`).
-/

namespace BbjAnalysis

open scoped Computability

/-! ## Languages of pieces -/

namespace Piece

/-- One of the given characters. -/
def oneOf (s : Set Char) : Language Char := {w | ∃ c ∈ s, w = [c]}

/-- A piece that may be left out. -/
def optional (l : Language Char) : Language Char := 1 + l

/-- One or more of the given characters. -/
def repeated (s : Set Char) : Language Char := oneOf s * (oneOf s)∗

def digits : Set Char := Set.Icc '0' '9'

def letters : Set Char := Set.Icc 'A' 'Z' ∪ Set.Icc 'a' 'z'

def exponent : Language Char := oneOf {'e', 'E'} * optional (oneOf {'+', '-'}) * repeated digits

/-- What may stand between the quotes of a string. -/
def quoted : Language Char := (oneOf {c | c ≠ '"' ∧ c ≠ '\r' ∧ c ≠ '\n'} + {['"', '"']})∗

end Piece

open Piece in
/-- The texts that a token of the kind can have. -/
def TokenKind.pattern : TokenKind → Language Char
  | .whitespace => repeated {' ', '\t', '\x0c'}
  | .newline => optional (oneOf {'\r'}) * oneOf {'\n'}
  | .ident => oneOf (letters ∪ {'_'}) * (oneOf (letters ∪ digits ∪ {'_'}))∗ *
      optional (oneOf {'$', '%', '!'})
  | .number => repeated digits * optional (oneOf {'.'} * (oneOf digits)∗) * optional exponent +
      oneOf {'.'} * repeated digits * optional exponent
  | .string => oneOf {'"'} * quoted * oneOf {'"'}
  | .colonColon => {[':', ':']}
  | .colon => {[':']}
  | .semicolon => {[';']}
  | .comma => {[',']}
  | .dot => {['.']}
  | .hash => {['#']}
  | .lparen => {['(']}
  | .rparen => {[')']}
  | .lbracket => {['[']}
  | .rbracket => {[']']}
  | .eq => {['=']}
  | .notEq => {['<', '>']}
  | .ltEq => {['<', '=']}
  | .gtEq => {['>', '=']}
  | .lt => {['<']}
  | .gt => {['>']}
  | .plus => {['+']}
  | .minus => {['-']}
  | .star => {['*']}
  | .slash => {['/']}
  | .caret => {['^']}
  | .error => 0

namespace Piece

variable {s : Set Char} {l m : Language Char} {c : Char} {w : List Char}

theorem mem_oneOf : w ∈ oneOf s ↔ ∃ c ∈ s, w = [c] := Iff.rfl

@[simp] theorem mem_only {v : List Char} : w ∈ ({v} : Language Char) ↔ w = v := Iff.rfl

theorem mem_optional : w ∈ optional l ↔ w = [] ∨ w ∈ l := Iff.rfl

theorem nil_mem_optional : [] ∈ optional l := mem_optional.mpr (.inl rfl)

theorem mem_oneOf_mul : w ∈ oneOf s * l ↔ ∃ c ∈ s, ∃ v ∈ l, w = c :: v := by
  rw [Language.mem_mul]
  constructor
  · rintro ⟨_, ⟨c, inside, rfl⟩, v, rest, rfl⟩
    exact ⟨c, inside, v, rest, rfl⟩
  · rintro ⟨c, inside, v, rest, rfl⟩
    exact ⟨[c], ⟨c, inside, rfl⟩, v, rest, rfl⟩

theorem cons_mem_oneOf_mul : c :: w ∈ oneOf s * l ↔ c ∈ s ∧ w ∈ l := by
  rw [mem_oneOf_mul]
  constructor
  · rintro ⟨_, inside, _, rest, same⟩
    cases same
    exact ⟨inside, rest⟩
  · rintro ⟨inside, rest⟩
    exact ⟨c, inside, w, rest, rfl⟩

/-- A piece goes on by one of those that it may consist of. -/
theorem append_mem_kstar {v : List Char} (first : v ∈ l) (rest : w ∈ l∗) : v ++ w ∈ l∗ := by
  rw [← Language.one_add_self_mul_kstar_eq_kstar]
  exact .inr (Language.append_mem_mul first rest)

theorem mem_kstar_oneOf : w ∈ (oneOf s)∗ ↔ ∀ c ∈ w, c ∈ s := by
  constructor
  · intro member
    obtain ⟨pieces, rfl, each⟩ := Language.mem_kstar.mp member
    intro c inside
    obtain ⟨piece, isPiece, here⟩ := List.mem_flatten.mp inside
    obtain ⟨d, allowed, rfl⟩ := each piece isPiece
    rwa [List.mem_singleton.mp here]
  · intro all
    induction w with
    | nil => exact Language.nil_mem_kstar _
    | cons c w ih =>
        obtain ⟨first, rest⟩ := List.forall_mem_cons.mp all
        exact append_mem_kstar (v := [c]) ⟨c, first, rfl⟩ (ih rest)

theorem mem_repeated : w ∈ repeated s ↔ w ≠ [] ∧ w ∈ (oneOf s)∗ := by
  cases w with
  | nil => simp [repeated, mem_oneOf_mul]
  | cons c w =>
      rw [repeated, cons_mem_oneOf_mul, mem_kstar_oneOf, mem_kstar_oneOf, List.forall_mem_cons]
      simp

end Piece

namespace Token

open Piece

/-! ## Characters -/

theorem isDigit_iff (c : Char) : c.isDigit = true ↔ c ∈ digits := by
  simp [Char.isDigit, digits, Char.le_def]

theorem isAlpha_iff (c : Char) : c.isAlpha = true ↔ c ∈ letters := by
  have upper : c.isUpper = true ↔ c ∈ Set.Icc 'A' 'Z' := decide_eq_true_iff
  have lower : c.isLower = true ↔ c ∈ Set.Icc 'a' 'z' := by
    show (decide _ && decide _) = true ↔ _
    rw [Bool.and_eq_true, decide_eq_true_iff, decide_eq_true_iff]
    rfl
  show (c.isUpper || c.isLower) = true ↔ _
  rw [Bool.or_eq_true, upper, lower]
  rfl

theorem isSpace_iff (c : Char) : isSpace c = true ↔ c ∈ ({' ', '\t', '\x0c'} : Set Char) := by
  simp [isSpace, or_assoc]

theorem isIdentStart_iff (c : Char) : isIdentStart c = true ↔ c ∈ letters ∪ {'_'} := by
  simp [isIdentStart, isAlpha_iff, or_comm]

theorem isIdentChar_iff (c : Char) : isIdentChar c = true ↔ c ∈ letters ∪ digits ∪ {'_'} := by
  simp [isIdentChar, Char.isAlphanum, isAlpha_iff, isDigit_iff, or_comm]

theorem isTypeMark_iff (c : Char) : isTypeMark c = true ↔ c ∈ ({'$', '%', '!'} : Set Char) := by
  simp [isTypeMark, or_assoc]

/-! ## Runs -/

section Run

variable {p : Char → Bool} {s : Set Char} (same : ∀ c, p c = true ↔ c ∈ s)
include same

theorem take_runLength (cs : List Char) : cs.take (runLength p cs) ∈ (oneOf s)∗ := by
  rw [mem_kstar_oneOf, runLength, ← List.prefix_iff_eq_take.mp (List.takeWhile_prefix p)]
  intro c inside
  exact (same c).mp (List.all_eq_true.mp List.all_takeWhile c inside)

theorem runLength_append {w : List Char} (inside : w ∈ (oneOf s)∗) (rest : List Char) :
    runLength p (w ++ rest) = w.length + runLength p rest := by
  have passes : ∀ c ∈ w, p c = true := by
    intro c member
    exact (same c).mpr (mem_kstar_oneOf.mp inside c member)
  rw [runLength, List.takeWhile_append_of_pos passes, List.length_append, runLength]

theorem runLength_cons_of_notMem {c : Char} (outside : c ∉ s) (rest : List Char) :
    runLength p (c :: rest) = 0 := by
  have stops : p c = false := Bool.eq_false_iff.mpr (mt (same c).mp outside)
  simp [runLength, stops]

end Run

/-! ## Identifiers -/

/-- The length of what follows the first character of an identifier. -/
def identTail (cs : List Char) : Nat :=
  let n := runLength isIdentChar cs
  match cs.drop n with
  | m :: _ => if isTypeMark m then n + 1 else n
  | [] => n

/-- What may follow the first character of an identifier. -/
def furtherIdent : Language Char :=
  (oneOf (letters ∪ digits ∪ {'_'}))∗ * optional (oneOf {'$', '%', '!'})

theorem take_identTail (cs : List Char) : cs.take (identTail cs) ∈ furtherIdent := by
  have run := take_runLength isIdentChar_iff cs
  have unmarked : cs.take (runLength isIdentChar cs) ∈ furtherIdent := by
    rw [← List.append_nil (cs.take _)]
    exact Language.append_mem_mul run nil_mem_optional
  unfold identTail
  cases behind : cs.drop (runLength isIdentChar cs) with
  | nil => simpa only [behind] using unmarked
  | cons m rest =>
      by_cases mark : isTypeMark m = true
      · simp only [behind, mark, if_true, List.take_add]
        exact Language.append_mem_mul run (.inr ⟨m, (isTypeMark_iff m).mp mark, rfl⟩)
      · simpa only [behind, if_neg mark] using unmarked

theorem le_identTail {w : List Char} (allowed : w ∈ furtherIdent) (rest : List Char) :
    w.length ≤ identTail (w ++ rest) := by
  obtain ⟨run, all, mark, marked, rfl⟩ := Language.mem_mul.mp allowed
  have length := runLength_append isIdentChar_iff all (mark ++ rest)
  rw [← List.append_assoc] at length
  rcases mem_optional.mp marked with rfl | ⟨m, isMark, rfl⟩
  · simp only [identTail, List.append_nil] at length ⊢
    split
    · split <;> omega
    · omega
  · have outside : m ∉ letters ∪ digits ∪ {'_'} := by
      rcases isMark with rfl | rfl | rfl <;> simp [letters, digits]
    rw [List.singleton_append, runLength_cons_of_notMem isIdentChar_iff outside, Nat.add_zero]
      at length
    have behind : (run ++ [m] ++ rest).drop run.length = m :: rest := by simp
    simp only [identTail, length, behind, (isTypeMark_iff m).mpr isMark]
    simp

/-! ## Exponents -/

theorem exponentDigits_eq_some {cs : List Char} {n : Nat} :
    exponentDigits cs = some n ↔ n ≠ 0 ∧ runLength Char.isDigit cs = n := by
  unfold exponentDigits
  split <;> simp_all <;> omega

theorem take_exponentDigits {cs : List Char} {n : Nat} (found : exponentDigits cs = some n) :
    cs.take n ∈ repeated digits := by
  obtain ⟨nonempty, rfl⟩ := exponentDigits_eq_some.mp found
  refine mem_repeated.mpr ⟨?_, take_runLength isDigit_iff cs⟩
  cases cs with
  | nil => exact absurd rfl nonempty
  | cons c cs => simpa using nonempty

theorem exponentDigits_append {w : List Char} (inside : w ∈ repeated digits) (rest : List Char) :
    ∃ n, exponentDigits (w ++ rest) = some n ∧ w.length ≤ n := by
  obtain ⟨nonempty, all⟩ := mem_repeated.mp inside
  have length := runLength_append isDigit_iff all rest
  have := List.length_pos_of_ne_nil nonempty
  exact ⟨_, exponentDigits_eq_some.mpr ⟨by omega, length⟩, Nat.le_add_right _ _⟩

/-- An exponent that is counted is one. -/
theorem take_exponentLength (cs : List Char) :
    cs.take (exponentLength cs) ∈ optional exponent := by
  fun_cases exponentLength cs with
  | case1 e sign rest mark signed =>
      cases found : exponentDigits rest with
      | none => exact nil_mem_optional
      | some n =>
          have signs : [sign] ∈ optional (oneOf {'+', '-'}) := by
            simpa [mem_optional, mem_oneOf] using signed
          right
          rw [exponent, mul_assoc]
          refine cons_mem_oneOf_mul.mpr ⟨by simpa using mark, ?_⟩
          exact Language.append_mem_mul signs (take_exponentDigits found)
  | case2 e sign rest mark _ =>
      cases found : exponentDigits (sign :: rest) with
      | none => exact nil_mem_optional
      | some n =>
          right
          rw [exponent, mul_assoc]
          refine cons_mem_oneOf_mul.mpr ⟨by simpa using mark, ?_⟩
          exact Language.append_mem_mul nil_mem_optional (take_exponentDigits found)
  | case3 => exact nil_mem_optional
  | case4 => exact nil_mem_optional

/-- An exponent at the front is counted. -/
theorem le_exponentLength {w : List Char} (allowed : w ∈ optional exponent) (rest : List Char) :
    w.length ≤ exponentLength (w ++ rest) := by
  rcases mem_optional.mp allowed with rfl | complete
  · exact Nat.zero_le _
  · rw [exponent, mul_assoc] at complete
    obtain ⟨e, mark, v, behind, rfl⟩ := mem_oneOf_mul.mp complete
    obtain ⟨signs, signed, d, counted, rfl⟩ := Language.mem_mul.mp behind
    obtain ⟨n, found, longest⟩ := exponentDigits_append counted rest
    have marked : (e == 'e' || e == 'E') = true := by simpa using mark
    rcases mem_optional.mp signed with rfl | ⟨sign, inside, rfl⟩
    · obtain ⟨c, digit, d, -, rfl⟩ := mem_oneOf_mul.mp counted
      have unsigned : (c == '+' || c == '-') = false := by
        have plus : c ≠ '+' := ne_of_mem_of_not_mem digit (by simp [digits])
        have minus : c ≠ '-' := ne_of_mem_of_not_mem digit (by simp [digits])
        simp [plus, minus]
      simp only [List.cons_append] at found
      simp only [List.nil_append, List.cons_append, exponentLength, marked, unsigned, found]
      simpa using longest
    · have isSign : (sign == '+' || sign == '-') = true := by simpa using inside
      simp only [List.nil_append, List.cons_append, exponentLength, marked, isSign, found]
      simpa using longest

/-! ## Numbers -/

/-- The length of digits at the front and of the exponent behind them. -/
def digitsLength (cs : List Char) : Nat :=
  runLength Char.isDigit cs + exponentLength (cs.drop (runLength Char.isDigit cs))

theorem take_digitsLength (cs : List Char) :
    cs.take (digitsLength cs) ∈ (oneOf digits)∗ * optional exponent := by
  rw [digitsLength, List.take_add]
  exact Language.append_mem_mul (take_runLength isDigit_iff cs) (take_exponentLength _)

/-- No digit begins an exponent. -/
theorem runLength_exponent {w : List Char} (allowed : w ∈ exponent) (rest : List Char) :
    runLength Char.isDigit (w ++ rest) = 0 := by
  rw [exponent, mul_assoc] at allowed
  obtain ⟨e, mark, v, -, rfl⟩ := mem_oneOf_mul.mp allowed
  apply runLength_cons_of_notMem isDigit_iff
  rcases mark with rfl | rfl <;> simp [digits]

theorem le_digitsLength {w : List Char} (allowed : w ∈ (oneOf digits)∗ * optional exponent)
    (rest : List Char) : w.length ≤ digitsLength (w ++ rest) := by
  obtain ⟨d, all, e, scaled, rfl⟩ := Language.mem_mul.mp allowed
  have length := runLength_append isDigit_iff all (e ++ rest)
  rw [digitsLength, List.append_assoc, length, List.length_append]
  rcases mem_optional.mp scaled with rfl | present
  · simp only [List.length_nil]
    omega
  · have behind := le_exponentLength scaled rest
    rw [runLength_exponent present, Nat.add_zero, List.drop_left]
    omega

/-- What may follow the first digit of a number. -/
def furtherDigits : Language Char :=
  (oneOf digits)∗ * optional (oneOf {'.'} * (oneOf digits)∗) * optional exponent

theorem numberTail_of_point {cs rest : List Char}
    (point : cs.drop (runLength Char.isDigit cs) = '.' :: rest) :
    numberTail cs = runLength Char.isDigit cs + (1 + digitsLength rest) := by
  simp only [numberTail, point, digitsLength]
  omega

theorem numberTail_of_plain {cs : List Char}
    (plain : ∀ rest, cs.drop (runLength Char.isDigit cs) ≠ '.' :: rest) :
    numberTail cs = digitsLength cs := by
  simp only [numberTail, digitsLength]

theorem digitsLength_le_numberTail (cs : List Char) : digitsLength cs ≤ numberTail cs := by
  by_cases point : ∃ rest, cs.drop (runLength Char.isDigit cs) = '.' :: rest
  · obtain ⟨rest, point⟩ := point
    have none : exponentLength ('.' :: rest) = 0 := by
      cases rest <;> simp [exponentLength]
    rw [numberTail_of_point point, digitsLength, point, none]
    omega
  · rw [numberTail_of_plain (not_exists.mp point)]

theorem take_numberTail (cs : List Char) : cs.take (numberTail cs) ∈ furtherDigits := by
  rw [furtherDigits, mul_assoc]
  by_cases point : ∃ rest, cs.drop (runLength Char.isDigit cs) = '.' :: rest
  · obtain ⟨rest, point⟩ := point
    obtain ⟨d, all, e, scaled, parts⟩ := Language.mem_mul.mp (take_digitsLength rest)
    have fraction : ['.'] ++ d ∈ optional (oneOf {'.'} * (oneOf digits)∗) :=
      .inr (cons_mem_oneOf_mul.mpr ⟨rfl, all⟩)
    rw [numberTail_of_point point, List.take_add, point, Nat.add_comm 1, List.take_succ_cons,
      ← parts]
    exact Language.append_mem_mul (take_runLength isDigit_iff cs)
      (Language.append_mem_mul fraction scaled)
  · obtain ⟨d, all, e, scaled, parts⟩ := Language.mem_mul.mp (take_digitsLength cs)
    rw [numberTail_of_plain (not_exists.mp point), ← parts]
    exact Language.append_mem_mul all (Language.append_mem_mul (a := []) nil_mem_optional scaled)

theorem le_numberTail {w : List Char} (allowed : w ∈ furtherDigits) (rest : List Char) :
    w.length ≤ numberTail (w ++ rest) := by
  rw [furtherDigits, mul_assoc] at allowed
  obtain ⟨whole, all, v, behind, rfl⟩ := Language.mem_mul.mp allowed
  obtain ⟨b, fraction, e, scaled, rfl⟩ := Language.mem_mul.mp behind
  rcases mem_optional.mp fraction with rfl | present
  · have longest := le_digitsLength (Language.append_mem_mul all scaled) rest
    exact Nat.le_trans longest (digitsLength_le_numberTail _)
  · obtain ⟨_, rfl, d, more, rfl⟩ := mem_oneOf_mul.mp present
    have longest := le_digitsLength (Language.append_mem_mul more scaled) rest
    have length := runLength_append isDigit_iff all ('.' :: (d ++ e ++ rest))
    rw [runLength_cons_of_notMem isDigit_iff (by simp [digits]), Nat.add_zero] at length
    have parts : whole ++ ('.' :: d ++ e) ++ rest = whole ++ '.' :: (d ++ e ++ rest) := by simp
    have point : (whole ++ '.' :: (d ++ e ++ rest)).drop whole.length = '.' :: (d ++ e ++ rest) :=
      List.drop_left
    rw [← length] at point
    rw [parts, numberTail_of_point point, length]
    simp only [List.length_append, List.length_cons] at longest ⊢
    omega

/-! ## The kinds by their first characters -/

section Kinds

variable {c : Char} {w : List Char}

theorem nil_notMem_pattern (kind : TokenKind) : [] ∉ kind.pattern := by
  cases kind with
  | number =>
      rw [TokenKind.pattern, repeated, Language.mem_add, mul_assoc, mul_assoc, mul_assoc,
        mem_oneOf_mul, mem_oneOf_mul]
      simp
  | newline => simp [TokenKind.pattern, Language.mem_mul, mem_oneOf]
  | _ => simp [TokenKind.pattern, repeated, mul_assoc, mem_oneOf_mul]

theorem mem_whitespace : c :: w ∈ TokenKind.whitespace.pattern ↔
    c ∈ ({' ', '\t', '\x0c'} : Set Char) ∧ w ∈ (oneOf {' ', '\t', '\x0c'})∗ :=
  cons_mem_oneOf_mul

theorem mem_newline :
    c :: w ∈ TokenKind.newline.pattern ↔ c = '\n' ∧ w = [] ∨ c = '\r' ∧ w = ['\n'] := by
  rw [TokenKind.pattern, Language.mem_mul]
  constructor
  · rintro ⟨o, carriage, _, ⟨_, rfl, rfl⟩, same⟩
    rcases mem_optional.mp carriage with rfl | ⟨_, rfl, rfl⟩
    · cases same
      exact .inl ⟨rfl, rfl⟩
    · cases same
      exact .inr ⟨rfl, rfl⟩
  · rintro (⟨rfl, rfl⟩ | ⟨rfl, rfl⟩)
    · exact ⟨[], nil_mem_optional, ['\n'], ⟨'\n', rfl, rfl⟩, rfl⟩
    · exact ⟨['\r'], .inr ⟨'\r', rfl, rfl⟩, ['\n'], ⟨'\n', rfl, rfl⟩, rfl⟩

theorem mem_ident :
    c :: w ∈ TokenKind.ident.pattern ↔ c ∈ letters ∪ {'_'} ∧ w ∈ furtherIdent := by
  rw [TokenKind.pattern, mul_assoc, cons_mem_oneOf_mul, furtherIdent]

theorem mem_number : c :: w ∈ TokenKind.number.pattern ↔ c ∈ digits ∧ w ∈ furtherDigits ∨
    c = '.' ∧ w ∈ repeated digits * optional exponent := by
  rw [TokenKind.pattern, Language.mem_add, repeated, mul_assoc, mul_assoc, cons_mem_oneOf_mul,
    mul_assoc, cons_mem_oneOf_mul, ← mul_assoc, Set.mem_singleton_iff]
  rfl

theorem mem_string : c :: w ∈ TokenKind.string.pattern ↔
    c = '"' ∧ ∃ body ∈ quoted, w = body ++ ['"'] := by
  rw [TokenKind.pattern, mul_assoc, cons_mem_oneOf_mul, Set.mem_singleton_iff]
  simp [Language.mem_mul, mem_oneOf, eq_comm]

end Kinds

end Token

end BbjAnalysis
