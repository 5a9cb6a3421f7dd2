import BbjAnalysis.Proofs.Program.Flattening
import BbjAnalysis.Proofs.Program.Literal
import BbjAnalysis.Proofs.Program.Soundness

/-! # What expressions are read from

Each function that reads a part of an expression yields a tree that is written with the tokens
read. So an expression in which nothing is wrong is the tree for its tokens: the tokens are the
lexemes of the tree, its operators group as they bind, and it ends where no operator and no access
goes it on.
-/

namespace BbjAnalysis.Parser

open Cursor
open Lexeme (comma dot equals lparen rparen)

variable {place : Node → Nat} {b c d : Cursor}

/-! ## Tokens, names and types -/

/-- What was found is written with the tokens read, or something was found wrong. -/
def Yields {α : Type} (lexemes : α → List Lexeme) (b : Cursor) : Option α → Cursor → Prop
  | some a, d => Written b d (lexemes a)
  | none, d => Failed b d

theorem expect_writes {kind : TokenKind} (text : String) (what : Expectation) (c : Cursor)
    (pattern : kind.pattern = {text.toList}) :
    (expect kind what c).Ensures fun isRead d => Written c d [.mark kind text] ∧
      (isRead = false → Failed c d) := by
  unfold expect
  split
  · next next => exact ⟨.mark text next pattern, nofun⟩
  · exact ⟨.failed (failed_report c _) _, fun _ => failed_report c _⟩

theorem ident_writes (what : Expectation) (c : Cursor) :
    (ident what c).Ensures (Yields (fun name => [.name name.text]) c) := by
  unfold ident
  split
  · next t ts rest =>
    split
    · next isName => exact (Written.token rest (.name isName)).skipId
    · exact failed_report c _
  · exact failed_report c _

theorem dottedNames_writes (c : Cursor) (isName : c.isAt .ident = true) :
    (dottedNames c).Ensures fun segments d => segments ≠ [] ∧
      Written c d ([dot].intercalate (segments.map ([.name ·]))) := by
  rw [dottedNames.eq_def]
  split
  · next t ts rest =>
    have first := Written.token rest (.name ((isAt_iff_head rest _).mp isName))
    split
    · next pair =>
      have shorter : c.bump.bump.size < c.size := size_bump_bump_lt isName
      have point := Written.mark "." (isAt_of_atPair pair) rfl
      refine Step.Ensures.widen ?_ _
      apply (dottedNames_writes c.bump.bump (isAt_bump_of_atPair pair)).map
      rintro segments d ⟨nonempty, rest⟩
      refine ⟨List.cons_ne_nil _ _, ?_⟩
      rw [List.map_cons, List.intercalate_cons_of_ne_nil (by simpa using nonempty)]
      exact (first.append point).append rest
    · exact ⟨List.cons_ne_nil _ _, first⟩
  · next none => exact absurd none (rest_ne_nil_of_isAt isName)
termination_by c.size

theorem skipArraySuffixes_spells (c : Cursor) : (skipArraySuffixes c).Ensures fun _ d =>
    ∃ ts, ts ++ d.rest = c.rest ∧ Lexeme.suffixes.SpelledBy ts := by
  rw [skipArraySuffixes]
  split
  · next pair =>
    have opens := isAt_of_atPair pair
    have closes := isAt_bump_of_atPair pair
    have shorter := size_bump_bump_lt opens
    refine Step.Ensures.widen ?_ _
    apply (skipArraySuffixes_spells c.bump.bump).imp
    rintro _ d ⟨ts, rest, spelled⟩
    obtain ⟨t, us, first⟩ := List.exists_cons_of_ne_nil (rest_ne_nil_of_isAt opens)
    have second : c.bump.rest = us := by simp only [bump, first]
    obtain ⟨u, vs, behind⟩ := List.exists_cons_of_ne_nil (rest_ne_nil_of_isAt closes)
    have third : c.bump.bump.rest = vs := by rw [bump, behind]
    refine ⟨t :: u :: ts, ?_, .suffix ((isAt_iff_head first _).mp opens)
      ((isAt_iff_head behind _).mp closes) spelled⟩
    rw [first, ← second, behind, ← third, ← rest, List.cons_append, List.cons_append]
  · exact ⟨[], rfl, .noSuffix⟩
termination_by c.size

theorem skipArraySuffixes_writes (c : Cursor) :
    (skipArraySuffixes c).Ensures fun _ d => Written c d [.suffixes] := by
  obtain ⟨ts, rest, spelled⟩ := skipArraySuffixes_spells c
  exact ⟨(skipArraySuffixes c).behind, fun _ => ⟨ts, rest, .single spelled⟩⟩

theorem typeRef_writes (c : Cursor) : (typeRef c).Ensures (Yields TypeRef.lexemes c) := by
  unfold typeRef
  split
  · next isName =>
    apply (dottedNames_writes c isName).andThen
    rintro segments d _ ⟨-, names⟩
    apply (skipArraySuffixes_writes d).andThen
    intro _ e _ suffixes
    exact (names.append suffixes).skipId
  · exact failed_report c _

/-- The token that stands for an operator spells it. -/
theorem binaryOpOf_spells {t : Token} {op : BinaryOp} (operator : binaryOpOf t = some op) :
    op.lexeme.SpelledBy [t] := by
  unfold binaryOpOf at operator
  split at operator
  case h_12 isName =>
    split at operator
    · next isAnd =>
      cases operator
      exact .word isAnd
    · split at operator
      · next isOr =>
        cases operator
        exact .word isOr
      · cases operator
  case h_13 => cases operator
  all_goals
    cases operator
    exact .only _ ‹_› rfl

theorem unaryOpOf_spells {t : Token} {op : UnaryOp} (sign : unaryOpOf t = some op) :
    op.lexeme.SpelledBy [t] := by
  unfold unaryOpOf at sign
  split at sign
  case h_3 => cases sign
  all_goals
    cases sign
    exact .only _ ‹_› rfl

/-- The operator that is next. -/
theorem operatorAt_writes {least : Nat} {op : BinaryOp} (operator : operatorAt c least = some op) :
    Written c c.bump [op.lexeme] := by
  obtain ⟨⟨t, next, stands⟩, -⟩ := operatorAt_eq_some.mp operator
  obtain ⟨ts, rest⟩ := List.head?_eq_some_iff.mp next
  exact .token rest (binaryOpOf_spells stands)

/-! ## Expressions -/

/-- A node is closed around what was read since it began. -/
theorem built_reads {start : Nat} (make : Node → Expr) (starts : start = b.offset)
    (own : ∀ n, (make n).node = n)
    (written : Written b d ((make (d.nodeFrom start)).lexemes place)) :
    (built start d make).Ensures (IsRead place b) := by
  refine ⟨written.skipId, ?_⟩
  show Between b d.skipId (make (d.nodeFrom start)).node
  rw [own]
  exact ⟨starts, written.behind.nextId, Nat.lt_succ_self _⟩

/-- A sign and a name behind it. -/
theorem named_reads (what : Expectation) {make : Node → Ident → Expr} {sign : Lexeme}
    (written : Written b c [sign]) (own : ∀ n i, (make n i).node = n)
    (lexemes : ∀ n i, (make n i).lexemes place = [sign, .name i.text]) :
    ((ident what c).andThen fun found d _ =>
      built b.offset d (found.elim .missing fun name node => make node name)).Ensures
        (IsRead place b) := by
  apply (ident_writes what c).andThen
  intro found d _ named
  cases found with
  | none => exact built_reads .missing rfl (fun _ => rfl) (.failed (named.early written.behind) _)
  | some name =>
      refine built_reads (make · name) rfl (own · name) ?_
      rw [lexemes]
      exact written.append named

theorem absentExpr_reads (c : Cursor) : (absentExpr c).Ensures (IsRead place c) := by
  refine ⟨(Written.failed (failed_report c _) _).skipId, rfl, Nat.le_refl _, ?_⟩
  exact Nat.lt_succ_self _

/-! ## Reading -/

mutual

theorem exprFrom_reads (least : Nat) (c : Cursor) (orders : Orders place c) :
    (exprFrom least c).Ensures (IsRead place c) := by
  rw [exprFrom]
  apply (unaryExpr_reads c orders).andThen
  intro lhs d _ read
  exact operands_read least lhs d rfl read orders
termination_by c.size * 8 + 3

theorem operands_read {b : Cursor} (least : Nat) {start : Nat} (lhs : Expr) (c : Cursor)
    (starts : start = b.offset) (read : IsRead place b lhs c) (orders : Orders place b) :
    (operands least start lhs c).Ensures (IsRead place b) := by
  have behind := read.written.behind
  rw [operands.eq_def]
  split
  · next op operator =>
    have shorter : c.bump.size < c.size := size_bump_lt (rest_ne_nil_of_operatorAt operator)
    refine .widen ?_ _
    apply (exprFrom_reads op.rightPrecedence c.bump
      (orders.behind (c.bump_behind.trans behind))).andThen
    intro rhs d _ right
    have both := read.written.append ((operatorAt_writes operator).append right.written)
    apply (built_reads (.binary · op lhs rhs) starts (fun _ => rfl) both).andThen
    intro e d' _ whole
    exact operands_read least e d' starts whole orders
  · exact read
termination_by c.size * 8

theorem unaryExpr_reads (c : Cursor) (orders : Orders place c) :
    (unaryExpr c).Ensures (IsRead place c) := by
  rw [unaryExpr.eq_def]
  split
  · next t ts rest =>
    have shorter : c.bump.size < c.size := size_bump_lt (by simp [rest])
    split
    · next op sign =>
      refine .widen ?_ _
      apply (unaryExpr_reads c.bump (orders.behind c.bump_behind)).andThen
      intro operand d _ read
      exact built_reads (.unary · op operand) rfl (fun _ => rfl)
        ((Written.token rest (unaryOpOf_spells sign)).append read.written)
    · exact postfixExpr_reads c orders
  · exact postfixExpr_reads c orders
termination_by c.size * 8 + 2

theorem postfixExpr_reads (c : Cursor) (orders : Orders place c) :
    (postfixExpr c).Ensures (IsRead place c) := by
  rw [postfixExpr]
  apply (primaryExpr_reads c orders).andThen
  intro e d _ read
  exact accesses_read e d rfl read orders
termination_by c.size * 8 + 1

theorem accesses_read {b : Cursor} {start : Nat} (base : Expr) (c : Cursor)
    (starts : start = b.offset) (read : IsRead place b base c) (orders : Orders place b) :
    (accesses start base c).Ensures (IsRead place b) := by
  have behind := read.written.behind
  rw [accesses.eq_def]
  split
  · next pair =>
    have shorter : c.bump.size < c.size := size_bump_lt (rest_ne_nil_of_atPair pair)
    have point := Written.mark "." (isAt_of_atPair pair) rfl
    refine .widen ?_ _
    apply (ident_writes .memberName c.bump).andThen
    intro found d _ named
    cases found with
    | none =>
        have failed : Failed b d := named.early (c.bump_behind.trans behind)
        exact ⟨.failed failed _, read.node.mono (named.behind.trans c.bump_behind)⟩
    | some name =>
        have reached : d.Behind b := named.behind.trans (c.bump_behind.trans behind)
        dsimp only
        split
        · next opened =>
          apply (arguments_read d opened (orders.behind reached)).andThen
          intro args e _ inner
          have whole := read.written.append (point.append (named.append inner))
          apply (built_reads (.methodCall · base name args.positional args.options) starts
            (fun _ => rfl) whole).andThen
          intro call e' _ access
          exact accesses_read call e' starts access orders
        · have whole := read.written.append (point.append named)
          apply (built_reads (.member · base name) starts (fun _ => rfl) whole).andThen
          intro member d' _ access
          exact accesses_read member d' starts access orders
  · split
    · next bracket =>
      have shorter : c.bump.size < c.size := size_bump_lt_of_isAt bracket
      have opened := Written.mark "[" bracket rfl
      refine .widen ?_ _
      apply (exprList_reads c.bump (orders.behind (c.bump_behind.trans behind))).andThen
      rintro indices d _ ⟨-, inner⟩
      apply (expect_writes "]" .closeBracket d rfl).andThen
      rintro _ e _ ⟨closed, -⟩
      have whole := read.written.append (opened.append (inner.append closed))
      apply (built_reads (.index · base indices) starts (fun _ => rfl) whole).andThen
      intro access e' _ access
      exact accesses_read _ e' starts access orders
    · exact read
termination_by c.size * 8

theorem exprList_reads (c : Cursor) (orders : Orders place c) :
    (exprList c).Ensures fun es d => es ≠ [] ∧
      Written c d ([comma].intercalate ((Expr.listed place es).map (·.2))) := by
  rw [exprList]
  apply (exprFrom_reads 1 c orders).andThen
  intro e d _ first
  split
  · next next =>
    have shorter : d.bump.size < d.size := size_bump_lt_of_isAt next
    have point := Written.mark "," next rfl
    refine .widen ?_ _
    apply (exprList_reads d.bump (orders.behind (point.behind.trans first.written.behind))).map
    rintro es d' ⟨nonempty, rest⟩
    refine ⟨List.cons_ne_nil _ _, ?_⟩
    obtain ⟨e', es', rfl⟩ := List.exists_cons_of_ne_nil nonempty
    show Written c d' ([comma].intercalate (e.lexemes place :: e'.lexemes place :: _))
    rw [List.intercalate_cons_cons]
    exact (first.written.append point).append rest
  · refine ⟨List.cons_ne_nil _ _, ?_⟩
    show Written c d ([comma].intercalate [e.lexemes place])
    rw [List.intercalate_singleton]
    exact first.written
termination_by c.size * 8 + 4

theorem primaryExpr_reads (c : Cursor) (orders : Orders place c) :
    (primaryExpr c).Ensures (IsRead place c) := by
  rw [primaryExpr.eq_def]
  split
  · exact absentExpr_reads c
  · next t ts rest =>
    have shorter : c.bump.size < c.size := size_bump_lt (by simp [rest])
    have orders := orders.behind c.bump_behind
    split
    · next isNumber =>
      have read := Written.token rest (.number isNumber)
      exact built_reads (.number · t.text) rfl (fun _ => rfl) read
    · next isString =>
      have quoted (allowed : t.text.toList ∈ TokenKind.string.pattern) :=
        (Quoted.quote_unquote allowed).symm
      have read := Written.token rest (.literal isString quoted)
      exact built_reads (.str · (Quoted.unquote t.text)) rfl (fun _ => rfl) read
    · next isHash =>
      have sign := Written.token rest (.only "#" isHash rfl)
      exact (named_reads .fieldName sign (fun _ _ => rfl) (fun _ _ => rfl)).widen _
    · next isStar =>
      have sign := Written.token rest (.only "*" isStar rfl)
      split
      · exact (named_reads .label sign (fun _ _ => rfl) (fun _ _ => rfl)).widen _
      · exact absentExpr_reads c
    · next isParen =>
      have opened := Written.token rest (.only "(" isParen rfl)
      refine .widen ?_ _
      apply (exprFrom_reads 1 c.bump orders).andThen
      intro inner d _ read
      apply (expect_writes ")" .closeParen d rfl).andThen
      rintro _ e _ ⟨closed, -⟩
      have whole := opened.append (read.written.append closed)
      exact built_reads (.paren · inner) rfl (fun _ => rfl) whole
    · next isName =>
      split
      · next isNew =>
        have word := Written.token rest (.word (Bool.and_eq_true_iff.mp isNew).1)
        refine .widen ?_ _
        apply (typeRef_writes c.bump).andThen
        intro found d _ named
        cases found with
        | none =>
            exact built_reads .missing rfl (fun _ => rfl) (.failed (named.early c.bump_behind) _)
        | some type =>
            have behind : d.Behind c.bump := named.behind
            apply (optionalArguments_read d (orders.behind behind)).andThen
            intro args e _ inner
            have whole := word.append (named.append inner)
            exact built_reads (.new · type args.positional args.options) rfl (fun _ => rfl) whole
      · have named := (Written.token rest (.name isName)).skipId
        refine .widen ?_ _
        split
        · next opened =>
          apply (arguments_read c.bump.skipId opened
            (orders.behind c.bump.skipId_behind)).andThen
          intro args e _ inner
          have whole := named.append inner
          exact built_reads (.call · _ args.positional args.options) rfl (fun _ => rfl) whole
        · exact built_reads (.var · _) rfl (fun _ => rfl) named
    · exact absentExpr_reads c
termination_by c.size * 8

theorem optionalArguments_read (c : Cursor) (orders : Orders place c) :
    (optionalArguments c).Ensures fun args d =>
      Written c d (inOptionalParens (args.items place)) := by
  rw [optionalArguments]
  split
  · next opened =>
    apply (arguments_read c opened orders).imp
    exact Written.optional
  · show Written c c (inOptionalParens (Args.empty.items place))
    rw [items_empty]
    exact ⟨.refl c, fun _ => ⟨[], rfl, .single .noParens⟩⟩
termination_by c.size * 8 + 7

theorem arguments_read (c : Cursor) (opened : c.isAt .lparen = true) (orders : Orders place c) :
    (arguments c).Ensures fun args d => Written c d (inParens (args.items place)) := by
  have shorter : c.bump.size ≤ c.size := c.size_bump_le
  have opens := Written.mark "(" opened rfl
  rw [arguments]
  refine .widen ?_ _
  split
  · next closed =>
    show Written c c.bump.bump (inParens (Args.empty.items place))
    rw [items_empty]
    exact opens.append (.mark ")" closed rfl)
  · apply (argumentList_read c.bump (orders.behind c.bump_behind)).andThen
    intro args d _ inner
    apply (expect_writes ")" .closeParen d rfl).map
    rintro _ e ⟨closed, -⟩
    exact opens.append (inner.written.append closed)
termination_by c.size * 8 + 6

theorem argumentList_read (c : Cursor) (orders : Orders place c) :
    (argumentList c).Ensures (ListRead place c) := by
  rw [argumentList]
  split
  · apply (keyedValue_reads c orders).andThen
    intro found d _ first
    cases found with
    | none => exact ListRead.failed first
    | some option =>
        have behind : d.Behind c := first.written.behind
        apply (furtherArguments_read d (orders.behind behind)).map
        exact ListRead.option orders first
  · apply (exprFrom_reads 1 c orders).andThen
    intro e d _ first
    apply (furtherArguments_read d (orders.behind first.written.behind)).map
    exact ListRead.positional orders first
termination_by c.size * 8 + 5

theorem furtherArguments_read (c : Cursor) (orders : Orders place c) :
    (furtherArguments c).Ensures (FurtherRead place c) := by
  rw [furtherArguments]
  split
  · next next =>
    have shorter : c.bump.size < c.size := size_bump_lt_of_isAt next
    refine .widen ?_ _
    apply (argumentList_read c.bump (orders.behind c.bump_behind)).imp
    exact FurtherRead.comma next
  · exact .nothing place c
termination_by c.size * 8

theorem keyedValue_reads (c : Cursor) (orders : Orders place c) :
    (keyedValue c).Ensures fun found d =>
      match found with
      | some o => OptionRead place c o d
      | none => Failed c d := by
  rw [keyedValue]
  refine .widen ?_ _
  apply (ident_writes .optionName c.skipId).ifSome
  · exact fun failed => Failed.outside failed
  intro key d l named
  have shorter : d.size ≤ c.size := l
  have key_ : Written c d [.name key.text] := (Written.start c).skipId.append named
  apply (expect_writes "=" .equals d rfl).ifTrue
  · exact fun ⟨_, failed⟩ => (failed rfl).early key_.behind
  intro e l' ⟨equals_, _⟩
  have reached := equals_.behind.trans key_.behind
  apply (exprFrom_reads 1 e (orders.behind reached)).andThen
  intro value f _ read
  have inside := read.written.behind.trans (equals_.behind.trans named.behind)
  refine ⟨key_.append (equals_.append read.written), rfl, Nat.le_refl _, ?_⟩
  exact Nat.lt_of_lt_of_le (Nat.lt_succ_self _) inside.nextId
termination_by c.size * 8 + 4

end

/-- An expression in which nothing is wrong is the tree for the tokens that were read. They are its
lexemes from left to right, with arguments and options in the order of reading, which is that of
their starts where the tokens stand in a row. In the tree no operator takes for an operand what
binds less tight than it does, but in parentheses. And the next token goes the expression on neither
as an operator nor as an access. -/
theorem expr_grammatical (c : Cursor) (clean : (expr c).next.errors = c.errors) :
    (∃ read, read ++ (expr c).next.rest = c.rest ∧
      Spelled ((expr c).value.lexemes Node.id) read ∧
      (c.Laid → Spelled ((expr c).value.lexemes (·.span.start)) read)) ∧
    (∀ e ∈ (expr c).value.walk, e.Grouped) ∧
    (∀ t ∈ (expr c).next.rest.head?, binaryOpOf t = none) ∧
    (expr c).next.isAt .lbracket = false ∧ (expr c).next.atPair .dot .ident = false := by
  obtain ⟨read, rest, spelled⟩ := (exprFrom_reads 1 c (orders_id c)).written.spelled clean
  have reached := exprFrom_reaches 1 c
  refine ⟨⟨read, rest, spelled, fun laid => ?_⟩, reached.grouped, ?_, reached.climbed.bracket,
    reached.climbed.member⟩
  · obtain ⟨read', rest', spelled'⟩ :=
      (exprFrom_reads 1 c (orders_start laid)).written.spelled clean
    rwa [List.append_cancel_right (rest.trans rest'.symm)]
  · exact fun t next => reached.climbed.binaryOpOf_eq_none next

/-- A sum in parentheses to a power: a constructor with an option between its arguments. -/
theorem expr_grammatical_power :
    (expr (startOf "-(a+1)^NEW T[](x,err=b,\"q\")")).next.rest = [] ∧
      Spelled [.mark .minus "-", lparen, .name "a", .mark .plus "+", .number "1", rparen,
        .mark .caret "^", .word "new", .name "T", .suffixes, lparen, .name "x", comma, .name "err",
        equals, .name "b", comma, .literal "q", rparen]
        (startOf "-(a+1)^NEW T[](x,err=b,\"q\")").rest ∧
      ∀ e ∈ (expr (startOf "-(a+1)^NEW T[](x,err=b,\"q\")")).value.walk, e.Grouped := by
  obtain ⟨⟨read, rest, -, spelled⟩, grouped, -⟩ :=
    expr_grammatical (startOf "-(a+1)^NEW T[](x,err=b,\"q\")") (by decide +kernel)
  have ends : (expr (startOf "-(a+1)^NEW T[](x,err=b,\"q\")")).next.rest = [] := by
    decide +kernel
  have spelled := spelled (laid_startOf _)
  rw [ends, List.append_nil] at rest
  refine ⟨ends, ?_, grouped⟩
  rw [← rest]
  convert spelled using 1
  decide +kernel

end BbjAnalysis.Parser
