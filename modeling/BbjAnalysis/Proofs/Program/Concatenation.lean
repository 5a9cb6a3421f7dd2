import BbjAnalysis.Proofs.Program.Comparison.Statement
import BbjAnalysis.Proofs.Token.Lexer
import Mathlib.Data.List.TakeWhile

/-! # A text behind another

Where a text without faults ends with a line, nothing of it reaches over that line: what follows
is read as if it stood alone, only with other identities and at other places.
-/

namespace BbjAnalysis

open BbjAnalysis.Parser Cursor

namespace Parser

/-- The statements of a block do not depend on the line ends and semicolons passed before them. -/
theorem statements_congr {c d : Cursor} (closers : List String)
    (same : c.skipSeparators = d.skipSeparators) :
    (statements closers c).value = (statements closers d).value ∧
      (statements closers c).next = (statements closers d).next := by
  cases next : c.skipSeparators.rest with
  | nil =>
      rw [statements_of_end next, statements_of_end (same ▸ next)]
      exact ⟨rfl, same⟩
  | cons t ts =>
      cases closer : closers.find? t.isKeyword with
      | some word =>
          rw [statements_of_closer next closer, statements_of_closer (same ▸ next) closer]
          exact ⟨rfl, same⟩
      | none =>
          rw [statements_of_statement next closer, statements_of_statement (same ▸ next) closer]
          simp only [Step.widen]
          rw [same]
          exact ⟨rfl, rfl⟩

end Parser

namespace Comparison

variable {K : Comparison}

/-- Where a skip passes all that is left of the first text, it passes the line end in the second
that goes on. -/
theorem Tokens.passed {ts us : List Token} (h : K.Tokens ts us) {p q : Token → Bool}
    (test : ∀ {t u}, K.SameToken t u → p t = q u) (passed : ts.dropWhile (!p ·) = [])
    {line : Token} {tail : List Token} (goesOn : K.tail = some (line :: tail)) :
    ∃ before, us = before ++ line :: tail ∧ ∀ u ∈ before ++ [line], q u = false := by
  have fails (t : Token) (member : t ∈ ts) : p t = false := by
    simpa only [Bool.not_eq_true'] using List.dropWhile_eq_nil_iff.mp passed t member
  clear passed
  induction h with
  | nil last => cases last.symm.trans goesOn
  | @line t u us same newline goesOn' =>
      cases goesOn.symm.trans goesOn'
      refine ⟨[], rfl, fun v member => ?_⟩
      rw [List.mem_singleton.mp member, ← test same, fails t List.mem_cons_self]
  | @cons t u ts us same _ ih =>
      obtain ⟨before, rfl, all⟩ := ih fun v member => fails v (List.mem_cons_of_mem _ member)
      refine ⟨u :: before, rfl, fun v member => ?_⟩
      rcases List.mem_cons.mp member with rfl | member
      · rw [← test same, fails t List.mem_cons_self]
      · exact all v member

/-- To pass over more tokens is to begin behind them. -/
theorem skipUntil_passed {d : Cursor} {q : Token → Bool} {before tail : List Token} {line : Token}
    (rest : d.rest = before ++ line :: tail) (all : ∀ u ∈ before ++ [line], q u = false) :
    d.skipUntil q = Cursor.skipUntil
      { d with rest := tail, pos := d.pos + (before.length + 1), lastStop := line.stop } q := by
  have split : d.rest = (before ++ [line]) ++ tail := by rw [rest, List.append_cons]
  have pass : ∀ u ∈ before ++ [line], (!q u) = true := fun u member => by rw [all u member]; rfl
  unfold skipUntil
  rw [split, List.dropWhile_append_of_pos pass, List.takeWhile_append_of_pos pass]
  congr 1
  · rw [List.length_append, List.length_append, ← Nat.add_assoc]
    rfl
  · rw [List.getLast?_append, List.getLast?_append]
    cases ((tail.takeWhile (!q ·)).getLast?) <;> rfl

/-- Where the run over the second text goes on behind the line that the first ends with. -/
structure Resumes (K : Comparison) (line : Token) (tail : List Token) (c e : Cursor) : Prop where
  rest : e.rest = tail
  lastStop : e.lastStop = line.stop
  nextId : K.SameId c.nextId e.nextId
  inlineDepth : c.inlineDepth = e.inlineDepth
  errors : K.Alike c.errors e.errors

/-- The statements of the second text are those of the first, and then those behind its last
line. -/
theorem statements_resume {c d : Cursor} (h : K.Cursors c d) {line : Token} {tail : List Token}
    (goesOn : K.tail = some (line :: tail)) (covers : K.Covers (statements [] c).next) :
    ∃ e found, K.Resumes line tail (statements [] c).next e ∧ e.stop = d.stop ∧
      K.Alike (statements [] c).value.statements found ∧
      (statements [] d).value.statements = found ++ (statements [] e).value.statements ∧
      (statements [] d).next.errors = (statements [] e).next.errors := by
  have before : c.skipSeparators.size ≤ c.size := c.size_skipUntil_le _
  have lines : K.tail ≠ none := by
    rw [goesOn]
    exact Option.some_ne_none _
  cases next : c.skipSeparators.rest with
  | nil =>
      obtain ⟨passed, rest, all⟩ := h.rest.passed (fun same => by rw [same.kind]) next goesOn
      let e : Cursor :=
        { d with rest := tail, pos := d.pos + (passed.length + 1), lastStop := line.stop }
      obtain ⟨value, behind⟩ := statements_congr (d := e) [] (skipUntil_passed rest all)
      rw [statements_of_end next]
      refine ⟨e, [], ⟨rfl, rfl, h.nextId, h.inlineDepth, h.errors⟩, rfl, rfl, ?_, ?_⟩
      · rw [value, List.nil_append]
      · rw [behind]
  | cons t ts =>
      have skipped := skipSeparators h (.inr (by rw [next]; exact List.cons_ne_nil _ _))
      rcases skipped.cases with ⟨ends, -, -⟩ | ⟨_, _, u, us, next₁, next', -, -⟩
      · cases next.symm.trans ends
      have behind := (labelledStatement c.skipSeparators).size_le
      rw [statements_of_statement next rfl] at covers ⊢
      rw [statements_of_statement next' rfl]
      simp only [Step.andThen, Step.widen] at covers ⊢
      split at covers
      · next shorter =>
        obtain ⟨alike, after⟩ := labelledStatement_steps skipped (covers.before (Step.behind _))
        obtain ⟨e, found, resumes, stop, same, value, errors⟩ :=
          statements_resume after goesOn covers
        rw [if_pos shorter, if_pos (by rw [after.size, skipped.size]; omega)]
        refine ⟨e, (labelledStatement d.skipSeparators).value ++ found, resumes, ?_, ?_, ?_, errors⟩
        · rw [stop, (labelledStatement d.skipSeparators).behind.stop]
          rfl
        · exact alike.append same
        · show _ ++ (statements [] _).value.statements = _
          rw [value, List.append_assoc]
      · next stuck =>
        have reported := (statements [] _).behind.trans
          (((labelledStatement c.skipSeparators).next.report .unexpectedToken).bump_behind)
        exact absurd covers (not_covers_report lines reported)
termination_by c.size

end Comparison

namespace Comparison

/-- Compares a text with one that goes on with `tail` behind its last line. -/
def goingOn (tail : List Token) : Comparison := ⟨.identity, .identity, some tail⟩

/-- Compares a text with the same one behind `bytes` other bytes and `ids` other nodes. -/
def shifted (ids bytes : Nat) : Comparison := ⟨.shift ids bytes, .identity, none⟩

theorem tokens_goingOn (ts : List Token) {line : Token} (newline : line.kind = .newline)
    (tail : List Token) :
    (goingOn (line :: tail)).Tokens (ts ++ [line]) (ts ++ line :: tail) := by
  induction ts with
  | nil => exact .line ⟨rfl, rfl, rfl, rfl⟩ newline rfl
  | cons t ts ih => exact .cons ⟨rfl, rfl, rfl, rfl⟩ ih

theorem tokens_shifted (ids bytes : Nat) (ts : List Token) :
    (shifted ids bytes).Tokens ts (ts.map (Token.moved bytes)) := by
  induction ts with
  | nil => exact .nil rfl
  | cons t ts ih =>
      have text : (shifted ids bytes).Alike t.text t.text := rfl
      exact .cons ⟨rfl, text, rfl, (Token.stop_moved bytes t).symm⟩ ih

theorem withoutBlanks_moved (bytes : Nat) (ts : List Token) :
    withoutBlanks (ts.map (.moved bytes)) = (withoutBlanks ts).map (.moved bytes) :=
  List.filter_map

theorem start_goingOn {text : String} (closed : text.toList.getLast? = some '\n') (more : String) :
    ∃ line : Token, line.stop = text.utf8ByteSize ∧
      (goingOn (line :: (withoutBlanks (tokenize more)).map (.moved text.utf8ByteSize))).Cursors
        (startOf text) (startOf (text ++ more)) := by
  obtain ⟨ts, line, newline, stop, tokens, further⟩ := tokenize_line closed
  refine ⟨line, stop, ⟨?_, rfl, fun last => (Option.some_ne_none _ last).elim, rfl, rfl, rfl⟩⟩
  have visible : line.kind ≠ .whitespace := by
    rw [newline]
    decide
  rw [rest_startOf, rest_startOf, tokens, further, withoutBlanks_append, withoutBlanks_append,
    withoutBlanks_cons visible, withoutBlanks_cons visible, withoutBlanks_moved]
  exact tokens_goingOn _ newline _

/-- The rest of a text that goes on is read as it is alone. -/
theorem start_shifted {text more : String} {line : Token} {c e : Cursor}
    (size : line.stop = text.utf8ByteSize) {tail : List Token}
    (resumes : (goingOn (line :: tail)).Resumes line tail c e)
    (same : tail = (withoutBlanks (tokenize more)).map (.moved text.utf8ByteSize))
    (stop : e.stop = (text ++ more).utf8ByteSize) (clean : c.errors = [])
    (depth : c.inlineDepth = 0) (positive : 1 ≤ c.nextId) :
    (shifted (c.nextId - 1) text.utf8ByteSize).Cursors (startOf more) e where
  rest := by
    rw [resumes.rest, same]
    exact tokens_shifted _ _ _
  lastStop := by
    rw [resumes.lastStop, size]
    exact Nat.zero_add _
  stop _ := by
    rw [stop, String.utf8ByteSize_append, Nat.add_comm]
    rfl
  nextId := (Nat.add_sub_of_le positive).trans resumes.nextId
  inlineDepth := depth.symm.trans resumes.inlineDepth
  errors := by
    have same : relabel .identity c.errors = relabel .identity e.errors := resumes.errors
    rw [relabel_identity, relabel_identity, clean] at same
    rw [← same]
    rfl

end Comparison

/-- Behind a text without faults that ends with a line, what is read is what the rest alone would
be read as, at its place and with the next identities; and the errors are those of the rest. -/
theorem parse_append (text more : String) (closed : text.toList.getLast? = some '\n')
    (clean : (parse text).isClean = true) :
    (parse (text ++ more)).program.statements =
        (parse text).program.statements ++
          relabel (.shift (freeId text - 1) text.utf8ByteSize) (parse more).program.statements ∧
      (parse (text ++ more)).errors =
        relabel (.shift (freeId text - 1) text.utf8ByteSize) (parse more).errors := by
  obtain ⟨line, size, cursors⟩ := Comparison.start_goingOn closed more
  have errors : (statements [] (startOf text)).next.errors = [] := by
    rw [← List.reverse_eq_nil_iff, ← parse_errors]
    exact List.isEmpty_iff.mp clean
  obtain ⟨e, found, resumes, stop, same, value, behind⟩ :=
    Comparison.statements_resume cursors rfl (.inr errors)
  have begun := (statements [] (startOf text)).behind
  have rest := Comparison.start_shifted size resumes rfl stop errors begun.inlineDepth begun.nextId
  obtain ⟨alike, -, after, -⟩ := Comparison.statements_blocks rest [] (.inl rfl) (.inl rfl)
  rw [← freeId_eq] at alike after
  have first : (statements [] (startOf text)).value.statements = found :=
    (relabel_identity _).symm.trans (same.trans (relabel_identity _))
  have second := alike.trans (relabel_identity _)
  have faults := after.errors.trans (relabel_identity _)
  rw [parse_statements, parse_statements, parse_statements, parse_errors, parse_errors, value,
    behind, first, ← second, ← faults, ← Labelled.relabel_reverse]
  exact ⟨rfl, rfl⟩

/-- A class is followed by statements that go wrong. -/
theorem parse_append_brokenRest :
    let text :=
      "class public A\r\nmethod public m(int x!)\nif x! then\nx! = 1\nfi\nmethodend\nclassend\n"
    let more := "next: print a, (b ; goto\nif a then rem"
    text.toList.getLast? = some '\n' ∧ (parse text).isClean = true ∧ (parse more).isClean = false ∧
      (parse (text ++ more)).program.statements =
        (parse text).program.statements ++
          relabel (.shift (freeId text - 1) text.utf8ByteSize) (parse more).program.statements ∧
      (parse (text ++ more)).errors =
        relabel (.shift (freeId text - 1) text.utf8ByteSize) (parse more).errors :=
  ⟨by decide +kernel, by decide +kernel, by decide +kernel,
    parse_append _ _ (by decide +kernel) (by decide +kernel)⟩

end BbjAnalysis
