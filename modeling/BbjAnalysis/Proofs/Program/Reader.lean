import BbjAnalysis.Program.Parser.Statement

/-! # What the reader does at a token

The functions that look at the next token, by what they find there.
-/

namespace BbjAnalysis.Parser

open Cursor

namespace Cursor

variable {c : Cursor}

/-- What comes behind the next token. -/
theorem kindAt_bump (c : Cursor) (n : Nat) : c.bump.kindAt n = c.kindAt (n + 1) := by
  unfold kindAt bump
  cases h : c.rest with
  | nil => simp only [List.getElem?_nil]
  | cons t rest => simp only [List.getElem?_cons_succ]

theorem isAt_of_atPair {kind next : TokenKind} (pair : c.atPair kind next = true) :
    c.isAt kind = true := (Bool.and_eq_true_iff.mp pair).1

theorem isAt_bump_of_atPair {kind next : TokenKind} (pair : c.atPair kind next = true) :
    c.bump.isAt next = true := by
  rw [isAt, kindAt_bump]
  exact (Bool.and_eq_true_iff.mp pair).2

theorem size_bump_bump_lt {kind : TokenKind} (next : c.isAt kind = true) :
    c.bump.bump.size < c.size :=
  Nat.lt_of_le_of_lt c.bump.size_bump_le (size_bump_lt_of_isAt next)

theorem isAt_iff_head {t : Token} {ts : List Token} (next : c.rest = t :: ts) (kind : TokenKind) :
    c.isAt kind = true ↔ t.kind = kind := by
  simp only [isAt, kindAt, next, List.getElem?_cons_zero, Option.map_some, beq_iff_eq,
    Option.some.injEq]

/-- No token was read where no fewer tokens are left. -/
theorem Behind.rest_eq {d : Cursor} (behind : d.Behind c) (stuck : ¬ d.size < c.size) :
    d.rest = c.rest :=
  behind.rest.eq_of_length (Nat.le_antisymm behind.size_le (Nat.le_of_not_lt stuck))

end Cursor

/-! ## Where a statement ends -/

theorem endsStatement_skipUntil (c : Cursor) (p : Token → Bool) (t : Token) :
    (c.skipUntil p).endsStatement t = c.endsStatement t := rfl

theorem atStatementEnd_skipToStatementEnd (c : Cursor) :
    c.skipToStatementEnd.atStatementEnd = true := by
  unfold atStatementEnd
  split
  · next t ts rest =>
    have found : (c.rest.dropWhile (!c.endsStatement ·)).head? = some t :=
      List.head?_eq_some_iff.mpr ⟨ts, rest⟩
    have ends := List.head?_dropWhile_not (!c.endsStatement ·) c.rest
    rw [found] at ends
    exact (endsStatement_skipUntil ..).trans (by simpa using ends)
  · rfl

theorem atStatementEnd_endStatement (c : Cursor) :
    (endStatement c).next.atStatementEnd = true := by
  unfold endStatement
  split
  · assumption
  · exact atStatementEnd_skipToStatementEnd _

/-- At the end of a statement no token needs to be passed over by force. -/
theorem forceProgress_of_atStatementEnd (d : Cursor) {c : Cursor}
    (ends : c.atStatementEnd = true) : forceProgress d c = .pure c () := by
  simp only [forceProgress, ends, Bool.not_true, Bool.and_false, Bool.false_eq_true, if_false]

/-- A statement is read without a token passed over by force. -/
theorem labelledStatement_eq (c : Cursor) :
    labelledStatement c =
      (label c).andThen fun found d _ =>
        if found.isSome && d.atStatementEnd then .pure d found.toList
        else
          (statement d).andThen fun more e _ =>
            (endStatement e).map fun _ => found.toList ++ more.toList := by
  rw [labelledStatement]
  congr 1
  funext found d _
  split
  · rfl
  · congr 1
    funext more e _
    simp only [Step.andThen, forceProgress_of_atStatementEnd _ (atStatementEnd_endStatement e)]
    rfl

/-! ## Where reading begins -/

/-- The tokens of a text that are read. -/
def withoutBlanks (tokens : List Token) : List Token := tokens.filter (·.kind != .whitespace)

/-- The cursor before a whole text. -/
def startOf (text : String) : Cursor := start (tokenize text) text.utf8ByteSize

theorem rest_startOf (text : String) : (startOf text).rest = withoutBlanks (tokenize text) := rfl

theorem parse_statements (text : String) :
    (parse text).program.statements = (statements [] (startOf text)).value.statements := by
  show (block [] (startOf text)).value.statements = _
  rw [block]
  rfl

/-- The identity of the next node behind the program of a text. -/
def freeId (text : String) : NodeId := (block [] (startOf text)).next.nextId

theorem freeId_eq (text : String) : freeId text = (statements [] (startOf text)).next.nextId := by
  rw [freeId, block]
  rfl

theorem parse_errors (text : String) :
    (parse text).errors = (statements [] (startOf text)).next.errors.reverse := by
  show (block [] (startOf text)).next.errors.reverse = _
  rw [block]
  rfl

theorem withoutBlanks_append (ts us : List Token) :
    withoutBlanks (ts ++ us) = withoutBlanks ts ++ withoutBlanks us := List.filter_append ..

theorem withoutBlanks_cons {t : Token} (visible : t.kind ≠ .whitespace) (ts : List Token) :
    withoutBlanks (t :: ts) = t :: withoutBlanks ts :=
  List.filter_cons_of_pos (bne_iff_ne.mpr visible)

/-! ## Blocks

The statements of a block end with the text, or with a closing word, or begin with one more
statement.
-/

section Statements

variable {c : Cursor} {closers : List String} {t : Token} {ts : List Token}

theorem statements_of_end (ends : c.skipSeparators.rest = []) :
    statements closers c =
      (Step.pure c.skipSeparators ⟨[], none⟩).widen (c.skipUntil_behind _) := by
  rw [statements]
  split
  · rfl
  · next h => cases ends.symm.trans h

theorem statements_of_closer {word : String} (next : c.skipSeparators.rest = t :: ts)
    (closer : closers.find? t.isKeyword = some word) :
    statements closers c =
      (Step.pure c.skipSeparators ⟨[], some word⟩).widen (c.skipUntil_behind _) := by
  rw [statements]
  split
  · next h => cases next.symm.trans h
  · next h =>
    cases next.symm.trans h
    rw [closer]

theorem statements_of_statement (next : c.skipSeparators.rest = t :: ts)
    (noCloser : closers.find? t.isKeyword = none) :
    statements closers c =
      ((labelledStatement c.skipSeparators).andThen fun found d _ =>
        if d.size < c.skipSeparators.size then
          (statements closers d).map fun more =>
            { more with statements := found ++ more.statements }
        else
          ((statements closers (d.report .unexpectedToken).bump).map fun more =>
            { more with statements := found ++ more.statements }).widen
              ((d.report _).bump_behind.trans (d.report_behind _))).widen
        (c.skipUntil_behind _) := by
  rw [statements]
  split
  · next h => cases next.symm.trans h
  · next h =>
    cases next.symm.trans h
    rw [noCloser]
    rfl

/-- Reading is over after less tokens than there were, also if the statement had none. -/
theorem size_bump_report_lt {d : Cursor} (next : c.skipSeparators.rest = t :: ts)
    (stuck : ¬ d.size < c.skipSeparators.size) :
    (d.report .unexpectedToken).bump.size < d.size :=
  size_bump_lt (c := d.report .unexpectedToken)
    (rest_ne_nil_of_size (by rw [next]; exact List.cons_ne_nil _ _) stuck)

end Statements

end BbjAnalysis.Parser
