import BbjAnalysis.Proofs.Program.Grouping
import BbjAnalysis.Proofs.Program.Reader
import BbjAnalysis.Proofs.Token.Munch

/-! # String literals

What may stand between the quotes of a string is what comes out when the quotes of a text in one
line are doubled (`mem_quoted_iff`). So the literals for such texts are the strings that there are,
and each text has one literal and each literal one text.
-/

namespace BbjAnalysis

open Piece Quoted Token

/-! ## Between the quotes -/

namespace Quoted

/-- The text has no line end in it. -/
def OneLine (cs : List Char) : Prop := '\r' ∉ cs ∧ '\n' ∉ cs

variable {c : Char} {cs body : List Char}

theorem oneLine_cons : OneLine (c :: cs) ↔ (c ≠ '\r' ∧ c ≠ '\n') ∧ OneLine cs := by
  simp only [OneLine, List.mem_cons, not_or, ne_eq, eq_comm (a := c)]
  tauto

theorem double_quote (cs : List Char) : double ('"' :: cs) = '"' :: '"' :: double cs := rfl

theorem double_cons (other : c ≠ '"') (cs : List Char) : double (c :: cs) = c :: double cs :=
  double.eq_3 c cs other

theorem double_mem_quoted (line : OneLine cs) : double cs ∈ quoted := by
  induction cs with
  | nil => exact Language.nil_mem_kstar _
  | cons c cs ih =>
      obtain ⟨⟨noReturn, noFeed⟩, rest⟩ := oneLine_cons.mp line
      by_cases quote : c = '"'
      · subst quote
        exact append_mem_kstar (v := ['"', '"']) (.inr rfl) (ih rest)
      · rw [double_cons quote]
        exact append_mem_kstar (v := [c]) (.inl ⟨c, ⟨quote, noReturn, noFeed⟩, rfl⟩) (ih rest)

/-- Between the quotes of a string stands a text with its quotes doubled. -/
theorem mem_quoted_iff : body ∈ quoted ↔ ∃ cs, OneLine cs ∧ double cs = body := by
  constructor
  · intro inside
    obtain ⟨pieces, rfl, each⟩ := Language.mem_kstar.mp inside
    clear inside
    induction pieces with
    | nil => exact ⟨[], ⟨nofun, nofun⟩, rfl⟩
    | cons piece pieces ih =>
        obtain ⟨first, rest⟩ := List.forall_mem_cons.mp each
        obtain ⟨cs, line, doubled⟩ := ih rest
        rcases first with ⟨c, ⟨other, noReturn, noFeed⟩, rfl⟩ | rfl
        · refine ⟨c :: cs, oneLine_cons.mpr ⟨⟨noReturn, noFeed⟩, line⟩, ?_⟩
          rw [double_cons other, doubled]
          rfl
        · refine ⟨'"' :: cs, oneLine_cons.mpr ⟨by decide, line⟩, ?_⟩
          rw [double_quote, doubled]
          rfl
  · rintro ⟨cs, line, rfl⟩
    exact double_mem_quoted line

theorem toList_quote (s : String) : (quote s).toList = '"' :: (double s.toList ++ ['"']) := by
  rw [quote, String.toList_ofList, List.cons_append]

/-- The texts that strings have are the literals for texts in one line. -/
theorem mem_string_iff {text : String} :
    text.toList ∈ TokenKind.string.pattern ↔ ∃ s, OneLine s.toList ∧ text = quote s := by
  constructor
  · intro allowed
    cases chars : text.toList with
    | nil => exact absurd (chars ▸ allowed) (nil_notMem_pattern _)
    | cons c w =>
        rw [chars] at allowed
        obtain ⟨rfl, body, inside, rfl⟩ := mem_string.mp allowed
        obtain ⟨cs, line, rfl⟩ := mem_quoted_iff.mp inside
        refine ⟨String.ofList cs, by rwa [String.toList_ofList], ?_⟩
        rw [← String.toList_inj, toList_quote, String.toList_ofList, chars]
  · rintro ⟨s, line, rfl⟩
    rw [toList_quote]
    exact mem_string.mpr ⟨rfl, _, double_mem_quoted line, rfl⟩

/-- A string is the literal for what it stands for. -/
theorem quote_unquote {text : String} (allowed : text.toList ∈ TokenKind.string.pattern) :
    quote (unquote text) = text := by
  obtain ⟨s, -, rfl⟩ := mem_string_iff.mp allowed
  rw [unquote_quote]

end Quoted

/-! ## Literals as tokens -/

/-- A literal is one token where no further quote follows it. -/
theorem Token.scan_quote {s : String} (line : OneLine s.toList) (offset : Nat) {rest : List Char}
    (alone : rest.head? ≠ some '"') :
    scan offset ((quote s).toList ++ rest) =
      ⟨.string, quote s, offset⟩ :: scan (offset + (quote s).utf8ByteSize) rest := by
  have chars : (quote s).toList ++ rest = '"' :: (double s.toList ++ '"' :: rest) := by
    rw [toList_quote, List.cons_append, List.append_assoc, List.singleton_append]
  have taken : munch '"' (double s.toList ++ '"' :: rest) =
      (.string, (double s.toList).length + 1) := by
    rw [munch_quote, stringTail_append (double_mem_quoted line) alone]
    rfl
  have first : firstToken offset '"' (double s.toList ++ '"' :: rest) =
      ⟨.string, quote s, offset⟩ := by
    rw [firstToken, taken, take_closed, ← toList_quote, String.ofList_toList]
  have behind : (double s.toList ++ '"' :: rest).drop ((double s.toList).length + 1) = rest := by
    rw [List.drop_length_add_append]
    rfl
  rw [chars, scan_cons, first, taken, behind]
  rfl

namespace Parser

open Cursor

/-! ## Literals as expressions -/

/-- Where a string is next, it is read as what it stands for. -/
theorem primaryExpr_of_string {c : Cursor} {t : Token} {ts : List Token}
    (next : c.rest = t :: ts) (isString : t.kind = .string) :
    (primaryExpr c).Ensures fun e d =>
      e = .str (c.bump.nodeFrom t.start) (unquote t.text) ∧ d = c.bump.skipId := by
  have starts : c.offset = t.start := by rw [offset, next]
  rw [primaryExpr.eq_def]
  split
  · next none => cases next.symm.trans none
  · next rest =>
    cases next.symm.trans rest
    rw [isString, starts]
    exact ⟨rfl, rfl⟩

/-- Behind an operand that no access follows, reading of it is over. -/
theorem accesses_of_accessed {c : Cursor} (ends : c.Accessed) (start : Nat) (base : Expr) :
    accesses start base c = .pure c base := by
  rw [accesses.eq_def, dif_neg (by simp [ends.member]), dif_neg (by simp [ends.bracket])]

/-- Where no operator follows, the expression is its first operand. -/
theorem operands_of_none {c : Cursor} {least : Nat} (ends : operatorAt c least = none)
    (start : Nat) (lhs : Expr) : operands least start lhs c = .pure c lhs := by
  rw [operands.eq_def]
  split
  · next found => cases ends.symm.trans found
  · rfl

/-- A string that nothing goes on is an expression of its own. -/
theorem expr_of_string {c : Cursor} {t : Token} {ts : List Token} (next : c.rest = t :: ts)
    (isString : t.kind = .string) (ends : c.bump.Climbed 1) :
    (expr c).Ensures fun e d =>
      e = .str (c.bump.nodeFrom t.start) (unquote t.text) ∧ d = c.bump.skipId := by
  have unsigned : unaryExpr c = postfixExpr c := by
    rw [unaryExpr.eq_def]
    split
    · next rest =>
      cases next.symm.trans rest
      rw [unaryOpOf, isString]
    · rfl
  have accessed : c.bump.skipId.Accessed := ⟨ends.member, ends.bracket⟩
  rw [expr, exprFrom, unsigned, postfixExpr]
  refine Step.Ensures.andThen (Step.Ensures.andThen (primaryExpr_of_string next isString) ?_) ?_
    (P := fun e d => e = .str (c.bump.nodeFrom t.start) (unquote t.text) ∧ d = c.bump.skipId)
  · rintro _ _ _ ⟨rfl, rfl⟩
    rw [accesses_of_accessed accessed]
    exact ⟨rfl, rfl⟩
  · rintro _ _ _ ⟨rfl, rfl⟩
    rw [operands_of_none (show operatorAt c.bump.skipId 1 = none from ends.operator)]
    exact ⟨rfl, rfl⟩

/-- From the token at the cursor the literal for a text was read, and nothing else. -/
structure IsLiteral (c : Cursor) (t : Token) (s : String) (e : Expr) (d : Cursor) : Prop where
  value : e = .str ⟨c.nextId, t.span⟩ s
  rest : t :: d.rest = c.rest
  errors : d.errors = c.errors

theorem isLiteral_of_string {c : Cursor} {t : Token} {ts : List Token} {s : String}
    (next : c.rest = t :: ts) (text : t.text = quote s) :
    IsLiteral c t s (.str (c.bump.nodeFrom t.start) (unquote t.text)) c.bump.skipId := by
  have last : c.bump.lastStop = t.stop ∧ c.bump.nextId = c.nextId ∧ c.bump.rest = ts ∧
      c.bump.errors = c.errors := by
    simp [bump, next]
  obtain ⟨stop, nextId, rest, errors⟩ := last
  refine ⟨?_, by rw [next]; exact congrArg (t :: ·) rest, errors⟩
  have ordered : max t.stop t.start = t.stop := Nat.max_eq_left (Nat.le_add_right _ _)
  rw [text, unquote_quote, nodeFrom, spanFrom, stop, nextId, ordered]
  rfl

/-- The literal for a text in one line is one token wherever it begins one and no further quote
follows, and is read as an expression that stands for the text; it is the whole expression where
no operator and no access goes it on. And every token that is a string is the literal for the text
that it stands for. -/
theorem string_literals :
    (∀ (s : String) (offset : Nat) (rest : List Char), '\r' ∉ s.toList → '\n' ∉ s.toList →
      rest.head? ≠ some '"' →
        scan offset ((quote s).toList ++ rest) =
          ⟨.string, quote s, offset⟩ :: scan (offset + (quote s).utf8ByteSize) rest ∧
        ∀ c : Cursor, c.rest.head? = some ⟨.string, quote s, offset⟩ →
          (primaryExpr c).Ensures (IsLiteral c ⟨.string, quote s, offset⟩ s) ∧
          (c.bump.Climbed 1 → (expr c).Ensures (IsLiteral c ⟨.string, quote s, offset⟩ s))) ∧
    ∀ (text : String), ∀ t ∈ tokenize text, t.kind = .string → quote (unquote t.text) = t.text := by
  constructor
  · intro s offset rest noReturn noFeed alone
    refine ⟨scan_quote ⟨noReturn, noFeed⟩ offset alone, fun c next => ?_⟩
    obtain ⟨ts, next⟩ := List.head?_eq_some_iff.mp next
    constructor
    · apply (primaryExpr_of_string next rfl).imp
      rintro _ _ ⟨rfl, rfl⟩
      exact isLiteral_of_string next rfl
    · intro ends
      apply (expr_of_string next rfl ends).imp
      rintro _ _ ⟨rfl, rfl⟩
      exact isLiteral_of_string next rfl
  · intro text t member isString
    have allowed := text_mem_pattern member (by rw [isString]; decide)
    rw [isString] at allowed
    exact quote_unquote allowed

/-- A text with quotes in it, one of them at its end. -/
theorem string_literals_doubled :
    quote "say \"hi\"" = "\"say \"\"hi\"\"\"" ∧
      tokenize (quote "say \"hi\"") = [⟨.string, quote "say \"hi\"", 0⟩] ∧
      (expr (startOf (quote "say \"hi\""))).Ensures
        (IsLiteral (startOf (quote "say \"hi\"")) ⟨.string, quote "say \"hi\"", 0⟩
          "say \"hi\"") ∧
      quote (unquote (quote "say \"hi\"")) = quote "say \"hi\"" := by
  obtain ⟨tokens, reads⟩ :=
    string_literals.1 "say \"hi\"" 0 [] (by decide +kernel) (by decide +kernel) (by decide)
  rw [List.append_nil, scan] at tokens
  refine ⟨by decide +kernel, tokens, (reads _ (by decide +kernel)).2 ?_, ?_⟩
  · exact ⟨⟨by decide +kernel, by decide +kernel⟩, by decide +kernel⟩
  · refine string_literals.2 (quote "say \"hi\"") ⟨.string, quote "say \"hi\"", 0⟩ ?_ rfl
    rw [tokenize, tokens]
    exact List.mem_singleton_self _

end Parser
end BbjAnalysis
