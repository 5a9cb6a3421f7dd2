import BbjAnalysis.Program.Walk
import BbjAnalysis.Proofs.Program.Part

/-! # Walks and parts

The walks over expressions and statements visit exactly those among the parts, in the same order.
-/

namespace BbjAnalysis

open HasParts BbjAnalysis.Part

namespace Part

/-- The expression that a part is. -/
def expr? : Part → Option Expr
  | .expr e => some e
  | _ => none

/-- The statement that a part is. -/
def statement? : Part → Option Statement
  | .statement s => some s
  | _ => none

theorem statement?_eq_some {p : Part} {s : Statement} :
    p.statement? = some s ↔ p = .statement s := by
  cases p <;> simp [statement?]

/-- Where more is picked from each part, more is picked from all of them. -/
theorem filterMap_sublist {α : Type} {f g : Part → Option α}
    (more : ∀ p a, f p = some a → g p = some a) (ps : List Part) :
    (ps.filterMap f).Sublist (ps.filterMap g) := by
  induction ps with
  | nil => exact .slnil
  | cons p ps ih =>
      cases here : f p with
      | none =>
          rw [List.filterMap_cons_none here]
          cases there : g p with
          | none => rwa [List.filterMap_cons_none there]
          | some a =>
              rw [List.filterMap_cons_some there]
              exact ih.cons a
      | some a =>
          rw [List.filterMap_cons_some here, List.filterMap_cons_some (more p a here)]
          exact ih.cons_cons a

section Picked

variable {α : Type} (f : Part → Option α)

/-- What is picked among all that is in several parts. -/
def picked (ps : List Part) : List α := (allOf ps).filterMap f

@[simp] theorem picked_nil : picked f [] = [] := rfl

@[simp] theorem picked_append (ps qs : List Part) :
    picked f (ps ++ qs) = picked f ps ++ picked f qs := by
  rw [picked, allOf_append, List.filterMap_append, picked, picked]

theorem picked_cons (p : Part) (ps : List Part) :
    picked f (p :: ps) = (f p).toList ++ (picked f p.children ++ picked f ps) := by
  have first : allOf (p :: ps) = p :: (allOf p.children ++ allOf ps) := by
    rw [← List.singleton_append, allOf_append, allOf_singleton, List.cons_append]
  rw [picked, first, List.filterMap_cons, List.filterMap_append]
  cases f p <;> rfl

end Picked

theorem mem_parts_list {α : Type} [SizeOf α] [HasParts α] {as : List α} {q : Part} :
    q ∈ parts as ↔ ∃ a ∈ as, q ∈ parts a := List.mem_flatMap

theorem mem_parts_option {α : Type} [SizeOf α] [HasParts α] {a? : Option α} {q : Part} :
    q ∈ parts a? ↔ ∃ a ∈ a?, q ∈ parts a := by
  cases a? <;> simp

/-- Only statements have statements in them. -/
theorem children_plain {p : Part} (plain : ∀ s, p ≠ .statement s) (s : Statement) :
    .statement s ∉ p.children := by
  cases p with
  | statement s => exact absurd rfl (plain s)
  | expr e => cases e <;> simp [children, Expr.children, mem_parts_list]
  | option o => simp [children]
  | _ => exact List.not_mem_nil

theorem statement_not_mem_all {p : Part} (plain : ∀ s, p ≠ .statement s) (s : Statement) :
    .statement s ∉ p.all := by
  intro member
  rw [all_eq] at member
  rcases List.mem_cons.mp member with rfl | member
  · exact plain s rfl
  · obtain ⟨q, child, member⟩ := List.mem_flatMap.mp member
    have smaller := weight_lt_of_mem_children child
    exact statement_not_mem_all (fun s' same => children_plain plain s' (same ▸ child)) s member
termination_by p.weight

theorem statement_not_mem_allOf {ps : List Part} (plain : ∀ s, .statement s ∉ ps)
    (s : Statement) : .statement s ∉ allOf ps := by
  intro member
  obtain ⟨p, among, member⟩ := List.mem_flatMap.mp member
  exact statement_not_mem_all (fun s' same => plain s' (same ▸ among)) s member

theorem picked_statement_nil {ps : List Part} (plain : ∀ s, .statement s ∉ ps) :
    picked statement? ps = [] := by
  rw [picked, List.filterMap_eq_nil_iff]
  intro q member
  cases q with
  | statement s => exact absurd member (statement_not_mem_allOf plain s)
  | _ => rfl

end Part

/-! ## Walks -/

mutual

/-- The walk visits the expressions among the parts. -/
theorem Expr.walk_eq (e : Expr) : e.walk = picked expr? [.expr e] := by
  rw [picked_cons]
  cases e with
  | number | str | var | field | starLabel | missing =>
      simp [Expr.walk, Part.children, Expr.children, expr?, picked_cons]
  | call _ callee args options =>
      simp [Expr.walk, Part.children, Expr.children, expr?, picked_cons, Expr.walkList_eq args,
        Expr.walkOptions_eq options]
  | methodCall _ receiver name args options =>
      simp [Expr.walk, Part.children, Expr.children, expr?, picked_cons, Expr.walk_eq receiver,
        Expr.walkList_eq args, Expr.walkOptions_eq options]
  | member _ receiver name =>
      simp [Expr.walk, Part.children, Expr.children, expr?, picked_cons, Expr.walk_eq receiver]
  | index _ base indices =>
      simp [Expr.walk, Part.children, Expr.children, expr?, picked_cons, Expr.walk_eq base,
        Expr.walkList_eq indices]
  | new _ type args options =>
      simp [Expr.walk, Part.children, Expr.children, expr?, picked_cons, Expr.walkList_eq args,
        Expr.walkOptions_eq options]
  | unary _ op operand =>
      simp [Expr.walk, Part.children, Expr.children, expr?, picked_cons, Expr.walk_eq operand]
  | binary _ op lhs rhs =>
      simp [Expr.walk, Part.children, Expr.children, expr?, picked_cons, Expr.walk_eq lhs,
        Expr.walk_eq rhs]
  | paren _ inner =>
      simp [Expr.walk, Part.children, Expr.children, expr?, picked_cons, Expr.walk_eq inner]

theorem Expr.walkList_eq (es : List Expr) : walkList es = picked expr? (parts es) := by
  cases es with
  | nil => rfl
  | cons e es =>
      rw [walkList, Expr.walk_eq e, Expr.walkList_eq es, parts_cons, picked_append, parts_expr]

theorem Expr.walkOptions_eq (os : List StatementOption) :
    walkOptions os = picked expr? (parts os) := by
  cases os with
  | nil => rfl
  | cons o os =>
      obtain ⟨id, key, value, span⟩ := o
      simp [walkOptions, Expr.walk_eq value, Expr.walkOptions_eq os, picked_cons, Part.children,
        expr?]

end

/-- Only a body has statements in it. -/
theorem picked_behind {α : Type} [SizeOf α] [HasParts α] {head : α}
    (plain : ∀ s, .statement s ∉ parts head) (ps : List Part) :
    picked statement? (parts head ++ ps) = picked statement? ps := by
  rw [picked_append, picked_statement_nil plain, List.nil_append]

mutual

/-- The walk visits the statements among the parts. -/
theorem Statement.walk_eq (s : Statement) : s.walk = picked statement? [.statement s] := by
  rw [picked_cons, picked_nil, List.append_nil]
  cases s with
  | classDecl _ head body =>
      rw [Part.children, Statement.children, picked_behind (by simp [mem_parts_list]),
        ← Statement.walkList_eq body]
      rfl
  | method _ head body | procedure _ head body =>
      rw [Part.children, Statement.children,
        picked_behind (by simp [mem_parts_list, mem_parts_option]), ← Statement.walkList_eq body]
      rfl
  | whileLoop _ condition body =>
      rw [Part.children, Statement.children, picked_behind (by simp), ← Statement.walkList_eq body]
      rfl
  | forLoop _ head body next =>
      have last : picked statement? (parts next) = [] :=
        picked_statement_nil (by simp [mem_parts_option])
      rw [Part.children, Statement.children, picked_behind (by simp [mem_parts_option]),
        picked_append, last, List.append_nil, ← Statement.walkList_eq body]
      rfl
  | branch _ condition thenBranch elseBranch =>
      rw [Part.children, Statement.children, picked_behind (by simp), picked_append,
        ← Statement.walkList_eq thenBranch, ← Statement.walkList_eq elseBranch]
      rfl
  | assign _ explicitLet target value =>
      rw [picked_statement_nil]
      · rfl
      · cases target <;> simp [Part.children, Statement.children]
  | _ =>
      rw [picked_statement_nil]
      · rfl
      · simp [Part.children, Statement.children, mem_parts_list, mem_parts_option]

theorem Statement.walkList_eq (ss : List Statement) :
    walkList ss = picked statement? (parts ss) := by
  cases ss with
  | nil => rfl
  | cons s ss =>
      rw [walkList, Statement.walk_eq s, Statement.walkList_eq ss, parts_cons, picked_append,
        parts_statement]

end

/-- The statements among the parts of a program are those that its walk visits. -/
theorem Program.allStatements_eq (p : Program) :
    p.allStatements = p.parts.filterMap statement? := Statement.walkList_eq p.statements

theorem Program.mem_allStatements {p : Program} {s : Statement} :
    s ∈ p.allStatements ↔ .statement s ∈ p.parts := by
  simp only [p.allStatements_eq, List.mem_filterMap, statement?_eq_some, exists_eq_right]

end BbjAnalysis
