import BbjAnalysis.Program.Walk
import BbjAnalysis.Proofs.Program.Ensures
import Mathlib.Tactic.ByContra

/-! # How operators group

An operator takes for its operands what binds tighter than it does. Of several with one precedence
the last one is outermost, but of several powers the first one. Signs bind tighter than all binary
operators, and accesses tighter than signs. Only parentheses lead to other trees, and they stay in
the tree.

What is read behind an operator binds at least as tight as its right precedence, and reading ends
where no such operator follows (`Climbed`). Hence an operator that follows all the same binds less
tight, and may take all that was read for its left operand.
-/

namespace BbjAnalysis

namespace Expr

/-- The operator that an expression outside of parentheses is made with. -/
def op? : Expr → Option BinaryOp
  | binary _ op _ _ => some op
  | _ => none

/-- Whether the expression is one that an access can follow: no operator stands outside of
parentheses. -/
def isOperand : Expr → Bool
  | binary _ _ _ _ | unary _ _ _ => false
  | _ => true

/-- The expression takes for its operands and receivers what binds tight enough. -/
def Grouped : Expr → Prop
  | binary _ op lhs rhs =>
      (∀ o ∈ lhs.op?, op ≠ .pow ∧ op.precedence ≤ o.precedence) ∧
        ∀ o ∈ rhs.op?, op.precedence < o.precedence ∨ op = .pow ∧ o = .pow
  | unary _ _ operand => operand.op? = none
  | methodCall _ receiver _ _ _ | member _ receiver _ => receiver.isOperand = true
  | index _ base _ => base.isOperand = true
  | _ => True

theorem op?_of_isOperand {e : Expr} (operand : e.isOperand = true) : e.op? = none := by
  cases e with
  | binary => cases operand
  | _ => rfl

/-- The expression and all expressions in it are grouped. -/
def WellGrouped (e : Expr) : Prop := ∀ x ∈ e.walk, x.Grouped

/-- So are several expressions. -/
def WellGroupedList (es : List Expr) : Prop := ∀ x ∈ walkList es, x.Grouped

/-- So are the values of several options. -/
def WellGroupedOptions (os : List (Keyed Expr)) : Prop := ∀ x ∈ walkOptions os, x.Grouped

theorem WellGrouped.enclose {e : Expr} {inner : List Expr} (walk : e.walk = e :: inner)
    (grouped : e.Grouped) (rest : ∀ x ∈ inner, x.Grouped) : e.WellGrouped := by
  unfold WellGrouped
  rw [walk]
  exact List.forall_mem_cons.mpr ⟨grouped, rest⟩

theorem WellGrouped.leaf {e : Expr} (walk : e.walk = [e]) (grouped : e.Grouped) : e.WellGrouped :=
  .enclose walk grouped nofun

theorem WellGrouped.beside {e : Expr} {es : List Expr} (first : e.WellGrouped)
    (rest : WellGroupedList es) : WellGroupedList (e :: es) :=
  List.forall_mem_append.mpr ⟨first, rest⟩

end Expr

theorem BinaryOp.precedence_le_pow (op : BinaryOp) : op.precedence ≤ BinaryOp.pow.precedence := by
  cases op <;> decide

theorem BinaryOp.eq_pow {op : BinaryOp} (tightest : BinaryOp.pow.precedence ≤ op.precedence) :
    op = .pow := by
  cases op with
  | pow => rfl
  | _ => exact absurd tightest (by decide)

theorem BinaryOp.precedence_pos (op : BinaryOp) : 1 ≤ op.precedence := by cases op <;> decide

/-- What may stand to the right of an operator. -/
theorem BinaryOp.tighter_of_rightPrecedence_le {op o : BinaryOp}
    (tight : op.rightPrecedence ≤ o.precedence) :
    op.precedence < o.precedence ∨ op = .pow ∧ o = .pow := by
  unfold rightPrecedence at tight
  split at tight
  · next power =>
    subst power
    exact .inr ⟨rfl, eq_pow tight⟩
  · exact .inl tight

/-- What may stand to the left of an operator that did not go on the right operand of another. -/
theorem BinaryOp.looser_of_lt_rightPrecedence {op o : BinaryOp}
    (loose : op.precedence < o.rightPrecedence) : op ≠ .pow ∧ op.precedence ≤ o.precedence := by
  have most := o.precedence_le_pow
  unfold rightPrecedence at loose
  split at loose
  · refine ⟨?_, Nat.le_of_lt loose⟩
    rintro rfl
    omega
  · next other =>
    refine ⟨?_, by omega⟩
    rintro rfl
    exact other (eq_pow (by omega))

namespace Parser

open Cursor BbjAnalysis.Expr

/-! ## Where expressions end -/

namespace Cursor

/-- No access follows: neither a dot with a name behind it nor an opening bracket. -/
structure Accessed (c : Cursor) : Prop where
  member : c.atPair .dot .ident = false
  bracket : c.isAt .lbracket = false

/-- No operator follows that binds at least as tight as `least`, and no access. -/
structure Climbed (least : Nat) (c : Cursor) : Prop extends c.Accessed where
  operator : operatorAt c least = none

/-- The operator that follows is the one that the next token stands for. -/
theorem operatorAt_eq_some {c : Cursor} {least : Nat} {op : BinaryOp} :
    operatorAt c least = some op ↔
      (∃ t ∈ c.rest.head?, binaryOpOf t = some op) ∧ least ≤ op.precedence := by
  unfold operatorAt
  cases c.rest with
  | nil => simp
  | cons t ts => simp [Option.filter_eq_some_iff]

/-- An operator that was left behind binds less tight than those that were looked for. -/
theorem precedence_lt_of_operatorAt {c : Cursor} {least more : Nat} {op : BinaryOp}
    (left : operatorAt c more = none) (next : operatorAt c least = some op) :
    op.precedence < more := by
  by_contra tight
  have found := operatorAt_eq_some.mpr ⟨(operatorAt_eq_some.mp next).1, Nat.le_of_not_lt tight⟩
  rw [left] at found
  cases found

/-- Where no operator binds tight enough to go on, no other one does, either. -/
theorem Climbed.binaryOpOf_eq_none {c : Cursor} (ends : c.Climbed 1) {t : Token}
    (next : t ∈ c.rest.head?) : binaryOpOf t = none := by
  by_contra isOperator
  obtain ⟨op, operator⟩ := Option.ne_none_iff_exists'.mp isOperator
  have found := operatorAt_eq_some.mpr ⟨⟨t, next, operator⟩, op.precedence_pos⟩
  rw [ends.operator] at found
  cases found

end Cursor

/-! ## Reading -/

/-- What an expression is whose operators bind at least as tight as `least`, and where it ends. -/
structure Reached (least : Nat) (e : Expr) (d : Cursor) : Prop where
  grouped : e.WellGrouped
  tight : ∀ o ∈ e.op?, least ≤ o.precedence
  climbed : d.Climbed least

/-- A left operand, behind which an operator may follow. -/
structure Waiting (lhs : Expr) (d : Cursor) : Prop where
  grouped : lhs.WellGrouped
  accessed : d.Accessed
  looser : ∀ o ∈ lhs.op?, operatorAt d o.rightPrecedence = none

/-- All arguments are grouped. -/
def Args.WellGrouped (args : Args) : Prop :=
  WellGroupedList args.positional ∧ WellGroupedOptions args.options

theorem Args.WellGrouped.empty : Args.empty.WellGrouped := ⟨nofun, nofun⟩

theorem Args.WellGrouped.consPositional {args : Args} {e : Expr} (rest : args.WellGrouped)
    (first : e.WellGrouped) : (args.consPositional e).WellGrouped :=
  ⟨first.beside rest.1, rest.2⟩

theorem Args.WellGrouped.consOption {args : Args} {o : StatementOption} (rest : args.WellGrouped)
    (first : o.value.WellGrouped) : (args.consOption o).WellGrouped :=
  ⟨rest.1, List.forall_mem_append.mpr ⟨first, rest.2⟩⟩

/-- Where a name is next, it is read. -/
theorem ident_of_isAt (what : Expectation) {c : Cursor} (isName : c.isAt .ident = true) :
    ∃ name, (ident what c).Ensures fun found d => found = some name ∧ d = c.bump.skipId := by
  obtain ⟨t, ts, rest⟩ := List.exists_cons_of_ne_nil (rest_ne_nil_of_isAt isName)
  have kind := (isAt_iff_head rest _).mp isName
  refine ⟨⟨c.nextId, t.text, t.span⟩, ?_⟩
  unfold ident
  split
  · next next =>
    cases rest.symm.trans next
    rw [if_pos kind]
    exact ⟨rfl, rfl⟩
  · next next => cases rest.symm.trans next

variable {c : Cursor}

theorem absentExpr_groups (c : Cursor) :
    (absentExpr c).Ensures fun e _ => e.WellGrouped ∧ e.isOperand = true :=
  ⟨.leaf rfl trivial, rfl⟩

mutual

theorem exprFrom_reaches (least : Nat) (c : Cursor) :
    (exprFrom least c).Ensures (Reached least) := by
  rw [exprFrom]
  apply (unaryExpr_groups c).andThen
  rintro lhs d _ ⟨grouped, unjoined, accessed⟩
  apply operands_reach
  · exact ⟨grouped, accessed, by simp [unjoined]⟩
  · simp [unjoined]
termination_by c.size * 8 + 3

theorem operands_reach (least start : Nat) {lhs : Expr} (c : Cursor) (waiting : Waiting lhs c)
    (tight : ∀ o ∈ lhs.op?, least ≤ o.precedence) :
    (operands least start lhs c).Ensures (Reached least) := by
  rw [operands.eq_def]
  split
  · next op operator =>
    have shorter : c.bump.size < c.size := size_bump_lt (rest_ne_nil_of_operatorAt operator)
    refine .widen ?_ _
    apply (exprFrom_reaches op.rightPrecedence c.bump).andThen
    rintro rhs d _ ⟨right, tighter, climbed⟩
    have node : Grouped (.binary (d.nodeFrom start) op lhs rhs) := by
      refine ⟨fun o left => ?_, fun o member => ?_⟩
      -- the operator was there before, and did not go on the right operand of `o`
      · have less := precedence_lt_of_operatorAt (waiting.looser o left) operator
        exact BinaryOp.looser_of_lt_rightPrecedence less
      · exact BinaryOp.tighter_of_rightPrecedence_le (tighter o member)
    apply operands_reach least start d.skipId
    · refine ⟨.enclose rfl node (List.forall_mem_append.mpr ⟨waiting.grouped, right⟩), ?_, ?_⟩
      · exact ⟨climbed.member, climbed.bracket⟩
      · rintro o ⟨⟩
        exact climbed.operator
    · rintro o ⟨⟩
      exact (operatorAt_eq_some.mp operator).2
  · next none => exact ⟨waiting.grouped, tight, waiting.accessed, none⟩
termination_by c.size * 8

theorem unaryExpr_groups (c : Cursor) :
    (unaryExpr c).Ensures fun e d => e.WellGrouped ∧ e.op? = none ∧ d.Accessed := by
  have plain := (postfixExpr_groups c).imp fun ⟨grouped, operand, accessed⟩ =>
    And.intro grouped (And.intro (op?_of_isOperand operand) accessed)
  rw [unaryExpr.eq_def]
  split
  · next t ts rest =>
    have shorter : c.bump.size < c.size := size_bump_lt (by simp [rest])
    split
    · refine .widen ?_ _
      apply (unaryExpr_groups c.bump).andThen
      rintro operand d _ ⟨grouped, unjoined, accessed⟩
      exact ⟨.enclose rfl unjoined grouped, rfl, accessed.member, accessed.bracket⟩
    · exact plain
  · exact plain
termination_by c.size * 8 + 2

theorem postfixExpr_groups (c : Cursor) :
    (postfixExpr c).Ensures fun e d => e.WellGrouped ∧ e.isOperand = true ∧ d.Accessed := by
  rw [postfixExpr]
  apply (primaryExpr_groups c).andThen
  rintro e d _ ⟨grouped, operand⟩
  exact accesses_groups c.offset d grouped operand
termination_by c.size * 8 + 1

theorem accesses_groups (start : Nat) {base : Expr} (c : Cursor) (grouped : base.WellGrouped)
    (operand : base.isOperand = true) :
    (accesses start base c).Ensures fun e d => e.WellGrouped ∧ e.isOperand = true ∧ d.Accessed := by
  rw [accesses.eq_def]
  split
  · next pair =>
    have shorter : c.bump.size < c.size := size_bump_lt (rest_ne_nil_of_atPair pair)
    obtain ⟨name, named⟩ := ident_of_isAt .memberName (isAt_bump_of_atPair pair)
    refine .widen ?_ _
    apply Step.Ensures.andThen named
    rintro _ d _ ⟨rfl, -⟩
    dsimp only
    split
    · apply (arguments_groups d).andThen
      intro args e _ inner
      refine accesses_groups start e.skipId (.enclose rfl operand ?_) rfl
      exact List.forall_mem_append.mpr ⟨List.forall_mem_append.mpr ⟨grouped, inner.1⟩, inner.2⟩
    · exact accesses_groups start d.skipId (.enclose rfl operand grouped) rfl
  · next apart =>
    split
    · next bracket =>
      have shorter : c.bump.size < c.size := size_bump_lt_of_isAt bracket
      refine .widen ?_ _
      apply (exprList_groups c.bump).andThen
      intro indices d _ inner
      apply (Step.Ensures.any (expect .rbracket .closeBracket d)).andThen
      intro _ e _ _
      refine accesses_groups start e.skipId (.enclose rfl operand ?_) rfl
      exact List.forall_mem_append.mpr ⟨grouped, inner⟩
    · next noBracket =>
      exact ⟨grouped, operand, Bool.eq_false_iff.mpr apart, Bool.eq_false_iff.mpr noBracket⟩
termination_by c.size * 8

theorem exprList_groups (c : Cursor) : (exprList c).Ensures fun es _ => WellGroupedList es := by
  rw [exprList]
  apply (exprFrom_reaches 1 c).andThen
  intro e d _ first
  split
  · next comma =>
    have shorter : d.bump.size < d.size := size_bump_lt_of_isAt comma
    apply ((exprList_groups d.bump).map _).widen
    exact first.grouped.beside
  · exact first.grouped.beside nofun
termination_by c.size * 8 + 4

theorem primaryExpr_groups (c : Cursor) :
    (primaryExpr c).Ensures fun e _ => e.WellGrouped ∧ e.isOperand = true := by
  rw [primaryExpr.eq_def]
  split
  · exact absentExpr_groups c
  · next t ts rest =>
    have shorter : c.bump.size < c.size := size_bump_lt (by simp [rest])
    split
    · exact ⟨.leaf rfl trivial, rfl⟩
    · exact ⟨.leaf rfl trivial, rfl⟩
    · refine .widen ?_ _
      apply (Step.Ensures.any (ident .fieldName c.bump)).andThen
      intro found d _ _
      cases found <;> exact ⟨.leaf rfl trivial, rfl⟩
    · split
      · refine .widen ?_ _
        apply (Step.Ensures.any (ident .label c.bump)).andThen
        intro found d _ _
        cases found <;> exact ⟨.leaf rfl trivial, rfl⟩
      · exact absentExpr_groups c
    · refine .widen ?_ _
      apply (exprFrom_reaches 1 c.bump).andThen
      intro inner d _ reached
      exact ⟨.enclose rfl trivial reached.grouped, rfl⟩
    · split
      · refine .widen ?_ _
        apply (Step.Ensures.any (typeRef c.bump)).andThen
        intro found d _ _
        cases found with
        | none => exact ⟨.leaf rfl trivial, rfl⟩
        | some type =>
            apply (optionalArguments_groups d).andThen
            intro args e _ inner
            exact ⟨.enclose rfl trivial (List.forall_mem_append.mpr inner), rfl⟩
      · dsimp only
        split
        · refine .widen ?_ _
          apply (arguments_groups c.bump.skipId).andThen
          intro args e _ inner
          exact ⟨.enclose rfl trivial (List.forall_mem_append.mpr inner), rfl⟩
        · exact ⟨.leaf rfl trivial, rfl⟩
    · exact absentExpr_groups c
termination_by c.size * 8

theorem optionalArguments_groups (c : Cursor) :
    (optionalArguments c).Ensures fun args _ => args.WellGrouped := by
  rw [optionalArguments]
  split
  · exact arguments_groups c
  · exact .empty
termination_by c.size * 8 + 7

theorem arguments_groups (c : Cursor) : (arguments c).Ensures fun args _ => args.WellGrouped := by
  have shorter : c.bump.size ≤ c.size := c.size_bump_le
  rw [arguments]
  refine .widen ?_ _
  split
  · exact Args.WellGrouped.empty
  · apply (argumentList_groups c.bump).andThen
    intro args d _ inner
    exact inner
termination_by c.size * 8 + 6

theorem argumentList_groups (c : Cursor) :
    (argumentList c).Ensures fun args _ => args.WellGrouped := by
  rw [argumentList]
  split
  · apply (keyedValue_groups c).andThen
    intro found d _ inner
    split
    · exact (furtherArguments_groups d).map (·.consOption (inner _ rfl))
    · exact Args.WellGrouped.empty
  · apply (exprFrom_reaches 1 c).andThen
    intro e d _ first
    exact (furtherArguments_groups d).map (·.consPositional first.grouped)
termination_by c.size * 8 + 5

theorem furtherArguments_groups (c : Cursor) :
    (furtherArguments c).Ensures fun args _ => args.WellGrouped := by
  rw [furtherArguments]
  split
  · next comma =>
    have shorter : c.bump.size < c.size := size_bump_lt_of_isAt comma
    exact (argumentList_groups c.bump).widen _
  · exact Args.WellGrouped.empty
termination_by c.size * 8

theorem keyedValue_groups (c : Cursor) :
    (keyedValue c).Ensures fun found _ => ∀ o ∈ found, o.value.WellGrouped := by
  rw [keyedValue]
  refine .widen ?_ _
  apply (Step.Ensures.any (ident .optionName c.skipId)).ifSome
  · exact fun _ => nofun
  intro key d l _
  have shorter : d.size ≤ c.size := l
  apply (Step.Ensures.any (expect .eq .equals d)).ifTrue
  · exact fun _ => nofun
  intro e _ _
  apply (exprFrom_reaches 1 e).andThen
  rintro value f _ reached o ⟨⟩
  exact reached.grouped
termination_by c.size * 8 + 4

end

end Parser
end BbjAnalysis
