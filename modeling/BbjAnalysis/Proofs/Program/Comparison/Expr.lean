import BbjAnalysis.Proofs.Program.Comparison

/-! # Two runs that read an expression

The reading of single tokens, of types and of expressions passes the comparison. The theorems
on expressions follow the recursion of the functions they are about.
-/

namespace BbjAnalysis.Comparison

open BbjAnalysis.Parser Cursor
open Relabelling (relabel_expr)

variable {K : Comparison} {c d : Cursor}

/-! ## Tokens and types -/

theorem fail_steps {α : Type} [Labelled α] (h : K.Cursors c d) (fault : Fault)
    (same : K.Alike fault fault) : K.Steps (fail (α := α) c fault) (fail d fault) :=
  fun _ => ⟨rfl, h.report same⟩

theorem eat_steps (h : K.Cursors c d) {kind : TokenKind} (line : kind ≠ .newline) :
    K.Steps (eat kind c) (eat kind d) :=
  .ite (by rw [h.isAt]) (fun next _ => ⟨rfl, h.bumpAt next line⟩)
    (fun _ => .pure h rfl)

theorem eatKeyword_steps (h : K.Cursors c d) (word : String) :
    K.Steps (eatKeyword word c) (eatKeyword word d) :=
  .ite (by rw [h.atKeyword]) (fun next _ => ⟨rfl, h.bumpKeyword next⟩)
    (fun _ => .pure h rfl)

theorem expect_steps (h : K.Cursors c d) {kind : TokenKind} (line : kind ≠ .newline)
    (what : Expectation) : K.Steps (expect kind what c) (expect kind what d) :=
  .ite (by rw [h.isAt]) (fun next _ => ⟨rfl, h.bumpAt next line⟩)
    (fun _ _ => ⟨rfl, h.report rfl⟩)

theorem ident_steps (h : K.Cursors c d) (what : Expectation) :
    K.Steps (ident what c) (ident what d) := by
  rcases h.cases with ⟨ends, ends', -⟩ | ⟨t, ts, u, us, next, next', same, -⟩
  · simp only [ident, ends, ends']
    exact fail_steps h _ rfl
  · simp only [ident, next, next']
    refine .ite (by rw [same.kind]) (fun isIdent _ => ?_) (fun _ => fail_steps h _ rfl)
    have bumped := h.bumpAt ((isAt_iff_head next .ident).mpr isIdent) (by decide)
    exact ⟨congrArg some ((Ident.mk.injEq ..).mpr ⟨h.nextId, same.text, same.span⟩),
      bumped.skipId⟩

theorem dottedNames_steps {c d : Cursor} (h : K.Cursors c d) (next : c.isAt .ident = true) :
    K.Steps (dottedNames c) (dottedNames d) := by
  have bumped := h.bumpAt next (by decide)
  rw [dottedNames.eq_def d]
  split
  · next u us hd =>
    rw [dottedNames.eq_def c]
    split
    · next t ts hc =>
      have same := h.sameToken hc hd
      refine .ite (by rw [bumped.atPair (by decide)]) (fun pair => ?_) (fun _ _ => ?_)
      · have second := bumped.bumpAt (isAt_of_atPair pair) (by decide)
        have l := size_bump_bump_lt next
        exact ((dottedNames_steps second (isAt_bump_of_atPair pair)).map
          (.cons same.text)).widen _ _
      · exact ⟨.cons same.text rfl, bumped⟩
    · next hc => exact absurd hc (rest_ne_nil_of_isAt next)
  · next hd => exact absurd (h.rest_eq_nil_iff.mpr hd) (rest_ne_nil_of_isAt next)
termination_by c.size

theorem skipArraySuffixes_steps {c d : Cursor} (h : K.Cursors c d) :
    K.Steps (skipArraySuffixes c) (skipArraySuffixes d) := by
  unfold skipArraySuffixes
  refine .dite (by rw [h.atPair (by decide)]) (fun pair _ => ?_) (fun _ _ => .pure h rfl)
  have opened := h.bumpAt (isAt_of_atPair pair) (by decide)
  have closed := opened.bumpAt (isAt_bump_of_atPair pair) (by decide)
  have l := size_bump_bump_lt (isAt_of_atPair pair)
  exact (skipArraySuffixes_steps closed).widen _ _
termination_by c.size

theorem typeRef_steps (h : K.Cursors c d) : K.Steps (typeRef c) (typeRef d) :=
  .ite (by rw [h.isAt])
    (fun next => (dottedNames_steps h next).andThen fun _ _ segments e =>
      (skipArraySuffixes_steps e).andThen fun _ _ _ f _ =>
        ⟨congrArg some ((TypeRef.mk.injEq ..).mpr ⟨f.nextId, segments, e.spanFrom h.offset⟩),
          f.skipId⟩)
    (fun _ => fail_steps h _ rfl)

/-! ## Expressions -/

instance : Labelled Args where
  relabel ρ a := ⟨relabel ρ a.positional, relabel ρ a.options⟩
  relabel_identity a := by simp only [relabel_identity]

theorem Alike.positional {a b : Args} (h : K.Alike a b) : K.Alike a.positional b.positional :=
  congrArg Args.positional h

theorem Alike.options {a b : Args} (h : K.Alike a b) : K.Alike a.options b.options :=
  congrArg Args.options h

theorem Alike.consPositional {e e' : Expr} {a b : Args} (first : K.Alike e e') (h : K.Alike a b) :
    K.Alike (a.consPositional e) (b.consPositional e') :=
  (Args.mk.injEq ..).mpr ⟨Alike.cons first h.positional, h.options⟩

theorem Alike.consOption {o o' : StatementOption} {a b : Args} (first : K.Alike o o')
    (h : K.Alike a b) : K.Alike (a.consOption o) (b.consOption o') :=
  (Args.mk.injEq ..).mpr ⟨h.positional, Alike.cons first h.options⟩

theorem built_steps (h : K.Cursors c d) {start start' : Nat} (same : K.SameOffset start start')
    {make make' : Node → Expr}
    (alike : ∀ {n n' : Node}, K.Alike n n' → K.Alike (make n) (make' n')) :
    K.Steps (built start c make) (built start' d make') :=
  fun _ => ⟨alike (h.nodeFrom same), h.skipId⟩

theorem absentExpr_steps (h : K.Cursors c d) : K.Steps (absentExpr c) (absentExpr d) := by
  have offset : K.Alike (Span.empty c.offset) (Span.empty d.offset) :=
    (Span.mk.injEq ..).mpr ⟨h.offset, h.offset⟩
  have node : K.Alike (⟨c.nextId, .empty c.offset⟩ : Node) ⟨d.nextId, .empty d.offset⟩ :=
    (Node.mk.injEq ..).mpr ⟨h.nextId, offset⟩
  exact fun _ => ⟨congrArg Expr.missing node, (h.report rfl).skipId⟩

theorem binaryOpOf_alike {t u : Token} (same : K.SameToken t u) : binaryOpOf t = binaryOpOf u := by
  unfold binaryOpOf
  simp only [same.kind, same.isKeyword]

theorem operatorAt_alike (h : K.Cursors c d) (least : Nat) :
    operatorAt c least = operatorAt d least := by
  rcases h.cases with ⟨ends, ends', -⟩ | ⟨t, ts, u, us, next, next', same, -⟩
  · simp only [operatorAt, ends, ends']
  · simp only [operatorAt, next, next', binaryOpOf_alike same]

theorem within_of_operatorAt {least : Nat} {op : BinaryOp} (next : operatorAt c least = some op) :
    K.Within c := by
  refine .inr fun t head newline => ?_
  obtain ⟨rest, hc⟩ := List.head?_eq_some_iff.mp head
  simp [operatorAt, hc, binaryOpOf, newline] at next

theorem within_of_unaryOpOf {t : Token} {ts : List Token} {op : UnaryOp} (next : c.rest = t :: ts)
    (sign : unaryOpOf t = some op) : K.Within c := by
  refine .inr fun t' head newline => ?_
  rw [next] at head
  cases head
  simp [unaryOpOf, newline] at sign

theorem unaryOpOf_alike {t u : Token} (same : K.SameToken t u) : unaryOpOf t = unaryOpOf u := by
  unfold unaryOpOf
  rw [same.kind]

theorem atOption_alike (h : K.Cursors c d) : atOption c = atOption d := h.atPair (by decide)

theorem atArgumentOption_alike (h : K.Cursors c d) :
    atArgumentOption c = atArgumentOption d := by
  simp only [atArgumentOption, atOption_alike h, funext h.atKeyword]

theorem unquote_alike {s s' : String} (same : K.Alike s s') :
    K.Alike (Quoted.unquote s) (Quoted.unquote s') :=
  calc K.first.text (Quoted.unquote s) = Quoted.unquote (K.first.text s) :=
        (K.first.unquote_text s).symm
    _ = Quoted.unquote (K.second.text s') := congrArg Quoted.unquote same
    _ = K.second.text (Quoted.unquote s') := K.second.unquote_text s'

/-- A node that consists of a name, or of nothing if there is none. -/
theorem named_steps (h : K.Cursors c d) (what : Expectation) {start start' : Nat}
    (same : K.SameOffset start start') {make : Node → Ident → Expr}
    (alike : ∀ {n n' : Node} {i i' : Ident}, K.Alike n n' → K.Alike i i' →
      K.Alike (make n i) (make n' i')) :
    K.Steps
      ((ident what c).andThen fun found e _ =>
        built start e (found.elim .missing fun name node => make node name))
      ((ident what d).andThen fun found e _ =>
        built start' e (found.elim .missing fun name node => make node name)) := by
  apply (ident_steps h what).andThen
  intro found found' e e' l l' both after
  refine built_steps after same fun {n n'} node => ?_
  rcases both.option with ⟨rfl, rfl⟩ | ⟨i, i', rfl, rfl, name⟩
  · exact congrArg Expr.missing node
  · exact alike node name

mutual

theorem exprFrom_steps {c d : Cursor} (h : K.Cursors c d) (least : Nat) :
    K.Steps (exprFrom least c) (exprFrom least d) := by
  rw [exprFrom, exprFrom]
  apply (unaryExpr_steps h).andThen
  intro lhs lhs' e e' l l' alike after
  exact operands_steps after least h.offset alike
termination_by c.size * 8 + 3

theorem operands_steps {c d : Cursor} (h : K.Cursors c d) (least : Nat) {start start' : Nat}
    (same : K.SameOffset start start') {lhs lhs' : Expr} (left : K.Alike lhs lhs') :
    K.Steps (operands least start lhs c) (operands least start' lhs' d) := by
  have both := operatorAt_alike h least
  rw [operands.eq_def least start' lhs' d]
  split
  · next op hd =>
    rw [operands.eq_def least start lhs c]
    split
    · next op' hc =>
      obtain rfl : op' = op := Option.some.inj (hc.symm.trans (both.trans hd))
      have shorter : c.bump.size < c.size := size_bump_lt (rest_ne_nil_of_operatorAt hc)
      have bumped := h.bump (within_of_operatorAt hc)
      refine .widen ?_ _ _
      apply (exprFrom_steps bumped op'.rightPrecedence).andThen
      intro rhs rhs' e e' l l' right after
      apply (built_steps after same ?_).andThen
      · intro e₂ e₂' f f' m m' expr further
        exact operands_steps further least same expr
      · intro n n' node
        rw [Alike, relabel_expr, relabel_expr]
        simp only [node, left, right]
    · next hc => cases hd.symm.trans (both.symm.trans hc)
  · next hd =>
    rw [operands.eq_def least start lhs c]
    split
    · next op' hc => cases hd.symm.trans (both.symm.trans hc)
    · exact .pure h left
termination_by c.size * 8

theorem unaryExpr_steps {c d : Cursor} (h : K.Cursors c d) :
    K.Steps (unaryExpr c) (unaryExpr d) := by
  rw [unaryExpr.eq_def d]
  split
  · next u us hd =>
    rw [unaryExpr.eq_def c]
    split
    · next t ts hc =>
      rw [← unaryOpOf_alike (h.sameToken hc hd)]
      cases sign : unaryOpOf t with
      | some op =>
          have shorter : c.bump.size < c.size := size_bump_lt (by simp [hc])
          have bumped := h.bump (within_of_unaryOpOf hc sign)
          refine .widen ?_ _ _
          apply (unaryExpr_steps bumped).andThen
          intro operand operand' e e' l l' alike after
          refine built_steps after h.offset fun {n n'} node => ?_
          rw [Alike, relabel_expr, relabel_expr]
          simp only [node, alike]
      | none => exact postfixExpr_steps h
    · next hc => cases hd.symm.trans (h.rest_eq_nil_iff.mp hc)
  · next hd =>
    rw [unaryExpr.eq_def c]
    split
    · next hc => cases hc.symm.trans (h.rest_eq_nil_iff.mpr hd)
    · exact postfixExpr_steps h
termination_by c.size * 8 + 2

theorem postfixExpr_steps {c d : Cursor} (h : K.Cursors c d) :
    K.Steps (postfixExpr c) (postfixExpr d) := by
  rw [postfixExpr, postfixExpr]
  apply (primaryExpr_steps h).andThen
  intro e e' f f' l l' base after
  exact accesses_steps after h.offset base
termination_by c.size * 8 + 1

theorem accesses_steps {c d : Cursor} (h : K.Cursors c d) {start start' : Nat}
    (same : K.SameOffset start start') {base base' : Expr} (alike : K.Alike base base') :
    K.Steps (accesses start base c) (accesses start' base' d) := by
  rw [accesses.eq_def start base c, accesses.eq_def start' base' d]
  refine .dite (by rw [h.atPair (by decide)]) (fun pair _ => ?_) (fun _ _ => ?_)
  · -- a member or a method, behind a dot
    have shorter : c.bump.size < c.size := size_bump_lt (rest_ne_nil_of_atPair pair)
    refine .widen ?_ _ _
    apply (ident_steps (h.bumpAt (isAt_of_atPair pair) (by decide)) .memberName).andThen
    intro found found' e e' l l' both after
    rcases both.option with ⟨rfl, rfl⟩ | ⟨i, i', rfl, rfl, name⟩
    · exact .pure after alike
    · refine .ite (by rw [after.isAt]) (fun opened => ?_) (fun _ => ?_)
      · apply (arguments_steps after opened).andThen
        intro args args' f f' m m' given further
        apply (built_steps further same ?_).andThen
        · intro call call' g g' k k' called more
          exact accesses_steps more same called
        · intro n n' node
          rw [Alike, relabel_expr, relabel_expr]
          simp only [node, alike, name, given.positional, given.options]
      · apply (built_steps after same ?_).andThen
        · intro access access' g g' k k' accessed more
          exact accesses_steps more same accessed
        · intro n n' node
          rw [Alike, relabel_expr, relabel_expr]
          simp only [node, alike, name]
  · refine .dite (by rw [h.isAt]) (fun next _ => ?_) (fun _ _ => .pure h alike)
    have shorter : c.bump.size < c.size := size_bump_lt_of_isAt next
    refine .widen ?_ _ _
    apply (exprList_steps (h.bumpAt next (by decide))).andThen
    intro indices indices' e e' l l' inside after
    apply (expect_steps after (by decide) .closeBracket).andThen
    intro _ _ f f' m m' _ closed
    apply (built_steps closed same ?_).andThen
    · intro access access' g g' k k' accessed more
      exact accesses_steps more same accessed
    · intro n n' node
      rw [Alike, relabel_expr, relabel_expr]
      simp only [node, alike, inside]
termination_by c.size * 8

theorem exprList_steps {c d : Cursor} (h : K.Cursors c d) :
    K.Steps (exprList c) (exprList d) := by
  rw [exprList, exprList]
  apply (exprFrom_steps h 1).andThen
  intro e e' f f' l l' alike after
  refine .dite (by rw [after.isAt]) (fun next _ => ?_) (fun _ _ => ?_)
  · have shorter : f.bump.size < f.size := size_bump_lt_of_isAt next
    exact .widen (.map (exprList_steps (after.bumpAt next (by decide))) (.cons alike)) _ _
  · exact .pure after (.cons alike rfl)
termination_by c.size * 8 + 4

theorem primaryExpr_steps {c d : Cursor} (h : K.Cursors c d) :
    K.Steps (primaryExpr c) (primaryExpr d) := by
  rw [primaryExpr.eq_def d]
  split
  · next hd =>
    rw [primaryExpr.eq_def c]
    split
    · exact absentExpr_steps h
    · next hc => cases hc.symm.trans (h.rest_eq_nil_iff.mpr hd)
  · next u us hd =>
    rw [primaryExpr.eq_def c]
    split
    · next hc => cases hd.symm.trans (h.rest_eq_nil_iff.mp hc)
    · next t ts hc =>
      have same := h.sameToken hc hd
      have shorter : c.bump.size < c.size := size_bump_lt (by simp [hc])
      have within (line : t.kind ≠ .newline) : K.Within c :=
        within_of_isAt ((isAt_iff_head hc t.kind).mpr rfl) line
      have bumped (line : t.kind ≠ .newline) : K.Cursors c.bump d.bump := h.bump (within line)
      rw [← same.kind]
      cases kind : t.kind with
      | number =>
          refine .widen (built_steps (bumped (by simp [kind])) h.offset fun {n n'} node => ?_) _ _
          exact (Expr.number.injEq ..).mpr ⟨node, same.text⟩
      | string =>
          refine .widen (built_steps (bumped (by simp [kind])) h.offset fun {n n'} node => ?_) _ _
          exact (Expr.str.injEq ..).mpr ⟨node, unquote_alike same.text⟩
      | hash =>
          refine .widen (named_steps (bumped (by simp [kind])) .fieldName h.offset ?_) _ _
          exact fun node name => (Expr.field.injEq ..).mpr ⟨node, name⟩
      | star =>
          refine .ite (by rw [h.kindAt_one (within (by simp [kind]))]) (fun _ => ?_)
            (fun _ => absentExpr_steps h)
          refine .widen (named_steps (bumped (by simp [kind])) .label h.offset ?_) _ _
          exact fun node name => (Expr.starLabel.injEq ..).mpr ⟨node, name⟩
      | lparen =>
          refine .widen ?_ _ _
          apply (exprFrom_steps (bumped (by simp [kind])) 1).andThen
          intro inner inner' e e' l l' alike after
          apply (expect_steps after (by decide) .closeParen).andThen
          intro _ _ f f' m m' _ closed
          refine built_steps closed h.offset fun {n n'} node => ?_
          exact (Expr.paren.injEq ..).mpr ⟨node, alike⟩
      | ident =>
          have behind := bumped (by simp [kind])
          have name : K.Alike (⟨c.nextId, t.text, t.span⟩ : Ident) ⟨d.nextId, u.text, u.span⟩ :=
            (Ident.mk.injEq ..).mpr ⟨h.nextId, same.text, same.span⟩
          refine .ite (by rw [same.isKeyword, h.kindAt_one (within (by simp [kind]))]) (fun _ => ?_)
            (fun _ => ?_)
          · refine .widen ?_ _ _
            apply (typeRef_steps behind).andThen
            intro found found' e e' l l' both after
            rcases both.option with ⟨rfl, rfl⟩ | ⟨i, i', rfl, rfl, type⟩
            · exact built_steps after h.offset fun node => congrArg Expr.missing node
            · apply (optionalArguments_steps after).andThen
              intro args args' f f' m m' given further
              refine built_steps further h.offset fun {n n'} node => ?_
              rw [Alike, relabel_expr, relabel_expr]
              simp only [node, type, given.positional, given.options]
          · refine .widen ?_ _ _
            refine .ite (by rw [behind.skipId.isAt]) (fun opened => ?_) (fun _ => ?_)
            · apply (arguments_steps behind.skipId opened).andThen
              intro args args' e e' l l' given after
              refine built_steps after h.offset fun {n n'} node => ?_
              rw [Alike, relabel_expr, relabel_expr]
              simp only [node, name, given.positional, given.options]
            · refine built_steps behind.skipId h.offset fun {n n'} node => ?_
              exact (Expr.var.injEq ..).mpr ⟨node, name⟩
      | _ => exact absentExpr_steps h
termination_by c.size * 8

theorem optionalArguments_steps {c d : Cursor} (h : K.Cursors c d) :
    K.Steps (optionalArguments c) (optionalArguments d) := by
  rw [optionalArguments, optionalArguments]
  exact .ite (by rw [h.isAt]) (fun next => arguments_steps h next) (fun _ => .pure h rfl)
termination_by c.size * 8 + 7

theorem arguments_steps {c d : Cursor} (h : K.Cursors c d) (next : c.isAt .lparen = true) :
    K.Steps (arguments c) (arguments d) := by
  have bumped := h.bumpAt next (by decide)
  have shorter : c.bump.size ≤ c.size := c.size_bump_le
  rw [arguments, arguments]
  refine .widen ?_ _ _
  refine .ite (by rw [bumped.isAt]) (fun closed _ => ⟨rfl, bumped.bumpAt closed (by decide)⟩)
    (fun _ => ?_)
  apply (argumentList_steps bumped).andThen
  intro args args' e e' l l' given after
  exact (expect_steps after (by decide) .closeParen).map fun _ => given
termination_by c.size * 8 + 6

theorem argumentList_steps {c d : Cursor} (h : K.Cursors c d) :
    K.Steps (argumentList c) (argumentList d) := by
  rw [argumentList, argumentList]
  refine .ite (by rw [atArgumentOption_alike h]) (fun _ => ?_) (fun _ => ?_)
  · apply (keyedValue_steps h).andThen
    intro found found' e e' l l' both after
    rcases both.option with ⟨rfl, rfl⟩ | ⟨o, o', rfl, rfl, option⟩
    · exact .pure after rfl
    · exact (furtherArguments_steps after).map (.consOption option)
  · apply (exprFrom_steps h 1).andThen
    intro e e' f f' l l' alike after
    exact (furtherArguments_steps after).map (.consPositional alike)
termination_by c.size * 8 + 5

theorem furtherArguments_steps {c d : Cursor} (h : K.Cursors c d) :
    K.Steps (furtherArguments c) (furtherArguments d) := by
  rw [furtherArguments, furtherArguments]
  refine .dite (by rw [h.isAt]) (fun next _ => ?_) (fun _ _ => .pure h rfl)
  have shorter : c.bump.size < c.size := size_bump_lt_of_isAt next
  exact (argumentList_steps (h.bumpAt next (by decide))).widen _ _
termination_by c.size * 8

theorem keyedValue_steps {c d : Cursor} (h : K.Cursors c d) :
    K.Steps (keyedValue c) (keyedValue d) := by
  rw [keyedValue, keyedValue]
  refine .widen ?_ _ _
  apply (ident_steps h.skipId .optionName).ifSome
  intro key key' e e' l l' name after
  have shorter : e.size ≤ c.size := l
  apply (expect_steps after (by decide) .equals).ifTrue
  intro f f' m m' behind
  apply (exprFrom_steps behind 1).andThen
  intro value value' g g' k k' alike last
  exact .pure last (congrArg some ((Keyed.mk.injEq ..).mpr
    ⟨h.nextId, name, alike, last.spanFrom h.offset⟩))
termination_by c.size * 8 + 4

end

theorem expr_steps (h : K.Cursors c d) : K.Steps (expr c) (expr d) := exprFrom_steps h 1

end BbjAnalysis.Comparison
