import BbjAnalysis.Proofs.Program.Grouping
import BbjAnalysis.Proofs.Program.Progress

/-! # The course of reading an expression

Each function that reads a part of an expression takes its course, also where nothing that could
be an expression is left. An operand pays for itself; only where none is read does an identity go
to the expression that is missing.
-/

namespace BbjAnalysis.Parser

open Cursor

variable {c d : Cursor}

/-- What is read pays for itself; an identity is given to what is absent. -/
def Step.Pays {α : Type} (r : Step c α) : Prop :=
  r.Ensures fun _ d => Leads c 0 d 0 ∨ d.rest = c.rest ∧ Leads c 1 d 0

theorem Step.Pays.runs {α : Type} {r : Step c α} (h : r.Pays) : r.Runs 1 :=
  h.elim (·.mono (Nat.le_succ 0) (Nat.le_refl 0)) (·.2)

theorem Step.Pays.of_runs {α : Type} {r : Step c α} (h : r.Runs 0) : r.Pays := .inl h

theorem absentExpr_pays (c : Cursor) : (absentExpr c).Pays :=
  .inr ⟨rfl, (leads_report c 1 (expected_ne .expression)).trans (leads_skipId _ 0)⟩

theorem built_runs (start : Nat) (c : Cursor) (make : Node → Expr) :
    (built start c make).Runs 1 := leads_skipId c 0

mutual

theorem exprFrom_runs (least : Nat) (c : Cursor) : (exprFrom least c).Runs 1 := by
  rw [exprFrom]
  apply (unaryExpr_runs c).andThen
  intro lhs d _
  exact operands_runs least c.offset lhs d
termination_by c.size * 8 + 3

theorem operands_runs (least start : Nat) (lhs : Expr) (c : Cursor) :
    (operands least start lhs c).Runs 0 := by
  rw [operands.eq_def]
  split
  · next op operator =>
    have next := rest_ne_nil_of_operatorAt operator
    have shorter : c.bump.size < c.size := size_bump_lt next
    refine .widen ?_ (leads_bump next)
    apply (exprFrom_runs op.rightPrecedence c.bump).andThen
    intro rhs d _
    apply (built_runs start d _).andThen
    intro e d' _
    exact operands_runs least start e d'
  · exact .pure c lhs
termination_by c.size * 8

theorem unaryExpr_runs (c : Cursor) : (unaryExpr c).Runs 1 := by
  rw [unaryExpr.eq_def]
  split
  · next t ts rest =>
    have shorter : c.bump.size < c.size := size_bump_lt (by simp [rest])
    split
    · refine .widen ?_ (leads_bump_of_cons rest)
      apply (unaryExpr_runs c.bump).andThen
      intro operand d _
      exact (built_runs c.offset d _).mono (Nat.le_succ 1)
    · exact postfixExpr_runs c
  · exact postfixExpr_runs c
termination_by c.size * 8 + 2

theorem postfixExpr_runs (c : Cursor) : (postfixExpr c).Runs 1 := by
  rw [postfixExpr]
  apply (primaryExpr_pays c).runs.andThen
  intro e d _
  exact accesses_runs c.offset e d
termination_by c.size * 8 + 1

theorem accesses_runs (start : Nat) (base : Expr) (c : Cursor) :
    (accesses start base c).Runs 0 := by
  rw [accesses.eq_def]
  split
  · next pair =>
    have dot := isAt_of_atPair pair
    have shorter : c.bump.size < c.size := size_bump_lt_of_isAt dot
    refine .widen ?_ (leads_bump_of_isAt dot)
    apply (ident_runs .memberName c.bump).andThen
    intro found d _
    split
    · split
      · next opened =>
        apply (arguments_runs d opened).andThen
        intro args e _
        apply (built_runs start e _).andThen
        intro call e' _
        exact (accesses_runs start call e').free
      · apply (built_runs start d _).andThen
        intro access d' _
        exact (accesses_runs start access d').free
    · exact .pure d base
  · split
    · next bracket =>
      have shorter : c.bump.size < c.size := size_bump_lt_of_isAt bracket
      refine .widen ?_ (leads_bump_of_isAt bracket)
      apply (exprList_runs c.bump).andThen
      intro indices d _
      apply (expect_runs .rbracket .closeBracket d).andThen
      intro _ e _
      apply (built_runs start e _).andThen
      intro access e' _
      exact accesses_runs start access e'
    · exact .pure c base
termination_by c.size * 8

theorem exprList_runs (c : Cursor) : (exprList c).Runs 1 := by
  rw [exprList]
  apply (exprFrom_runs 1 c).andThen
  intro e d _
  split
  · next comma =>
    have shorter : d.bump.size < d.size := size_bump_lt_of_isAt comma
    exact (((exprList_runs d.bump).map _).mono (Nat.le_succ 1)).widen (leads_bump_of_isAt comma)
  · exact .pure d [e]
termination_by c.size * 8 + 4

theorem primaryExpr_pays (c : Cursor) : (primaryExpr c).Pays := by
  rw [primaryExpr.eq_def]
  split
  · exact absentExpr_pays c
  · next t ts rest =>
    have first : Leads c 0 c.bump 2 := leads_bump_of_cons rest
    have shorter : c.bump.size < c.size := size_bump_lt (by simp [rest])
    split
    · exact .of_runs (((built_runs c.offset c.bump _).mono (Nat.le_succ 1)).widen first)
    · exact .of_runs (((built_runs c.offset c.bump _).mono (Nat.le_succ 1)).widen first)
    · refine .of_runs (.widen ?_ first)
      apply (ident_runs .fieldName c.bump).andThen
      intro found d _
      exact (built_runs c.offset d _).mono (Nat.le_succ 1)
    · split
      · refine .of_runs (.widen ?_ first)
        apply (ident_runs .label c.bump).andThen
        intro found d _
        exact (built_runs c.offset d _).mono (Nat.le_succ 1)
      · exact absentExpr_pays c
    · refine .of_runs (.widen ?_ first)
      apply (exprFrom_runs 1 c.bump).andThen
      intro inner d _
      apply (expect_runs .rparen .closeParen d).andThen
      intro _ e _
      exact built_runs c.offset e _
    · split
      · refine .of_runs (.widen ?_ first)
        apply (typeRef_runs c.bump).andThen
        intro found d _
        split
        · apply (optionalArguments_runs d).andThen
          intro args e _
          exact (built_runs c.offset e _).mono (Nat.le_succ 1)
        · exact (built_runs c.offset d _).mono (Nat.le_succ 1)
      · refine .of_runs (.widen ?_ (first.trans (leads_skipId c.bump 1)))
        split
        · next opened =>
          apply (arguments_runs c.bump.skipId opened).andThen
          intro args e _
          exact built_runs c.offset e _
        · exact built_runs c.offset c.bump.skipId _
    · exact absentExpr_pays c
termination_by c.size * 8

theorem optionalArguments_runs (c : Cursor) : (optionalArguments c).Runs 0 := by
  rw [optionalArguments]
  split
  · next opened => exact arguments_runs c opened
  · exact .pure c Args.empty
termination_by c.size * 8 + 7

theorem arguments_runs (c : Cursor) (opened : c.isAt .lparen = true) : (arguments c).Runs 0 := by
  have shorter : c.bump.size ≤ c.size := c.size_bump_le
  rw [arguments]
  refine .widen ?_ (leads_bump_of_isAt opened)
  split
  · next closed => exact (runs_bump Args.empty (rest_ne_nil_of_isAt closed)).free
  · apply (argumentList_runs c.bump).andThen
    intro args d _
    exact (expect_runs .rparen .closeParen d).map _
termination_by c.size * 8 + 6

theorem argumentList_runs (c : Cursor) : (argumentList c).Runs 2 := by
  rw [argumentList]
  split
  · apply (keyedValue_runs c).andThen
    intro found d _
    split
    · exact (furtherArguments_runs d).map _
    · exact .pure d Args.empty
  · apply (exprFrom_runs 1 c).andThen
    intro e d _
    exact ((furtherArguments_runs d).map _).free
termination_by c.size * 8 + 5

theorem furtherArguments_runs (c : Cursor) : (furtherArguments c).Runs 0 := by
  rw [furtherArguments]
  split
  · next comma =>
    have shorter : c.bump.size < c.size := size_bump_lt_of_isAt comma
    exact (argumentList_runs c.bump).widen (leads_bump_of_isAt comma)
  · exact .pure c Args.empty
termination_by c.size * 8

theorem keyedValue_runs (c : Cursor) : (keyedValue c).Runs 2 := by
  rw [keyedValue]
  refine .widen ?_ (leads_skipId c 1)
  apply (ident_runs .optionName c.skipId).ifSome
  intro key d l
  have shorter : d.size ≤ c.size := l
  apply (expect_runs .eq .equals d).ifTrue
  intro e _
  apply (exprFrom_runs 1 e).andThen
  intro value f _
  exact .pure f _
termination_by c.size * 8 + 4

end

theorem expr_runs (c : Cursor) : (expr c).Runs 1 := exprFrom_runs 1 c

/-! ## Expressions one behind the other

Where an expression ends no operator follows, and nothing that belongs to its last operand. So the
next one does not begin with an operator whose left operand is missing: it pays for itself, unless
nothing is read for it.
-/

theorem Step.Pays.andThen {α β : Type} {r : Step c α} (h : r.Pays)
    {f : (a : α) → (d : Cursor) → d.size ≤ c.size → Step d β}
    (next : ∀ (a : α) (d : Cursor) (l : d.size ≤ c.size), (f a d l).Runs 0)
    (still : ∀ (a : α) (d : Cursor) (l : d.size ≤ c.size), d.rest = c.rest →
      (f a d l).Ensures fun _ e => e = d) : (r.andThen f).Pays := by
  refine Ensures.andThen h fun a d l paid => ?_
  rcases paid with leads | ⟨rest, leads⟩
  · exact .inl (leads.add (next a d l))
  · have same : (f a d l).next = d := still a d l rest
    exact .inr (same.symm ▸ ⟨rest, leads⟩)

theorem accesses_still (start : Nat) (base : Expr) (ends : c.Accessed) (rest : d.rest = c.rest) :
    (accesses start base d).Ensures fun _ e => e = d := by
  have member : d.atPair .dot .ident = false := by
    simpa only [atPair, isAt, kindAt, rest] using ends.member
  have bracket : d.isAt .lbracket = false := by
    simpa only [isAt, kindAt, rest] using ends.bracket
  rw [accesses.eq_def, dif_neg (by simp [member]), dif_neg (by simp [bracket])]
  rfl

theorem operands_still (least start : Nat) (lhs : Expr) (ends : c.Climbed least)
    (rest : d.rest = c.rest) : (operands least start lhs d).Ensures fun _ e => e = d := by
  have none : operatorAt d least = none := by
    simpa only [operatorAt, rest] using ends.operator
  rw [operands.eq_def]
  split
  · next operator => cases none.symm.trans operator
  · rfl

theorem postfixExpr_pays (ends : c.Accessed) : (postfixExpr c).Pays := by
  rw [postfixExpr]
  apply (primaryExpr_pays c).andThen
  · exact fun e d _ => accesses_runs c.offset e d
  · exact fun e d _ => accesses_still c.offset e ends

/-- A sign pays for the operand that may be missing behind it. -/
theorem unaryExpr_pays (ends : c.Accessed) : (unaryExpr c).Pays := by
  rw [unaryExpr.eq_def]
  split
  · next t ts rest =>
    split
    · refine .of_runs (.widen ?_ (leads_bump_of_cons rest))
      apply (unaryExpr_runs c.bump).andThen
      intro operand d _
      exact built_runs c.offset d _
    · exact postfixExpr_pays ends
  · exact postfixExpr_pays ends

theorem expr_pays (ends : c.Climbed 1) : (expr c).Pays := by
  rw [expr, exprFrom]
  apply (unaryExpr_pays ends.toAccessed).andThen
  · exact fun lhs d _ => operands_runs 1 c.offset lhs d
  · exact fun lhs d _ => operands_still 1 c.offset lhs ends

end BbjAnalysis.Parser
