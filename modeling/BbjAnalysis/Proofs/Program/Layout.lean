import BbjAnalysis.Proofs.Program.Comparison.Statement

/-! # Layout and letter case

A program is read the same wherever its tokens stand and however its words are written. Two
texts with the same kinds of tokens that are spelled the same up to letter case have the
same programs up to spans and spelling, and what is wrong with them is reported in the same
words.
-/

namespace BbjAnalysis

/-- All of a token that reading it can depend on. -/
def Token.reading (t : Token) : TokenKind × String := (t.kind, t.text.toLower)

/-- The tokens of a text without blanks, by kind and small letters. -/
def readings (text : String) : List (TokenKind × String) :=
  (Parser.withoutBlanks (tokenize text)).map Token.reading

/-- Compares two runs up to spans and letter case. -/
def Comparison.upToShape : Comparison := ⟨.shape, .shape, none⟩

namespace Comparison

theorem sameToken_of_reading {t u : Token} (same : t.reading = u.reading) :
    upToShape.SameToken t u :=
  ⟨congrArg Prod.fst same, congrArg Prod.snd same, rfl, rfl⟩

theorem tokens_of_readings {ts us : List Token}
    (same : ts.map Token.reading = us.map Token.reading) : upToShape.Tokens ts us := by
  induction ts generalizing us with
  | nil =>
      obtain rfl : us = [] := List.map_eq_nil_iff.mp same.symm
      exact .nil rfl
  | cons t ts ih =>
      cases us with
      | nil => cases same
      | cons u us =>
          obtain ⟨first, rest⟩ := List.cons.inj same
          exact .cons (sameToken_of_reading first) (ih rest)

theorem start_upToShape {text text' : String} (same : readings text = readings text') :
    upToShape.Cursors (Parser.startOf text) (Parser.startOf text') :=
  ⟨tokens_of_readings same, rfl, fun _ => rfl, rfl, rfl, rfl⟩

/-- Errors that are alike are reported in the same words. -/
theorem messages_alike {K : Comparison} {es es' : List SyntaxError} (alike : K.Alike es es') :
    es.map (·.message) = es'.map (·.message) := by
  have kept (ρ : Relabelling) (es : List SyntaxError) :
      (relabel ρ es).map (·.message) = es.map (·.message) := by
    induction es with
    | nil => rfl
    | cons e rest ih =>
        rw [Labelled.relabel_cons, List.map_cons, List.map_cons, ih]
        exact congrArg (· :: _) (e.fault.message_relabel ρ)
  rw [← kept K.first, alike, kept]

end Comparison

/-- Texts whose tokens agree in kind and, up to letter case, in spelling are read alike: the
programs have the same shape, with the same identities, and the errors the same messages. -/
theorem parse_shape {text text' : String} (same : readings text = readings text') :
    relabel .shape (parse text).program.statements =
        relabel .shape (parse text').program.statements ∧
      (parse text).errors.map (·.message) = (parse text').errors.map (·.message) := by
  obtain ⟨statements, -, cursors, -⟩ :=
    Comparison.statements_blocks (Comparison.start_upToShape same) [] (.inl rfl) (.inl rfl)
  rw [Parser.parse_statements, Parser.parse_statements, Parser.parse_errors, Parser.parse_errors,
    List.map_reverse, List.map_reverse, Comparison.messages_alike cursors.errors]
  exact ⟨statements, rfl⟩

/-- A program with faults, and the same one in capitals with other blanks. -/
theorem parse_shape_capitals :
    let text := "if a then print \"x\" : wend"
    let text' := "IF A\tTHEN  Print\"X\":WEND "
    readings text = readings text' ∧ (parse text).isClean = false ∧
      relabel .shape (parse text).program.statements =
        relabel .shape (parse text').program.statements ∧
      (parse text).errors.map (·.message) = (parse text').errors.map (·.message) := by
  intro text text'
  have same : readings text = readings text' := by
    have small : readings text =
        [(.ident, "if"), (.ident, "a"), (.ident, "then"), (.ident, "print"), (.string, "\"x\""),
          (.colon, ":"), (.ident, "wend")] := by
      decide +kernel
    have capital : readings text' =
        [(.ident, "if"), (.ident, "a"), (.ident, "then"), (.ident, "print"), (.string, "\"x\""),
          (.colon, ":"), (.ident, "wend")] := by
      decide +kernel
    rw [small, capital]
  exact ⟨same, by decide +kernel, parse_shape same⟩

end BbjAnalysis
