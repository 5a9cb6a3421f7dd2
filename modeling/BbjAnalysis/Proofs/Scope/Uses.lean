import BbjAnalysis.Proofs.Program.Walk
import BbjAnalysis.Scope.Collect

/-! # The names used in an expression

The walk that notes references goes through an expression on its own, with a case of its own for
the value of a branch option. What it notes is what one sees on the walk that visits every
expression (`Expr.placedWalk`), whatever the nesting.
-/

namespace BbjAnalysis

open HasParts BbjAnalysis.Part

/-! ## Expressions and their places -/

namespace Part

/-- The option that a part is. -/
def option? : Part → Option StatementOption
  | .option o => some o
  | _ => none

end Part

namespace Expr

mutual

/-- The expression and every expression in it, each with whether it is the value of a branch
option. -/
def placedWalk (isTarget : Bool) : Expr → List (Expr × Bool)
  | e@(call _ _ args options) | e@(new _ _ args options) =>
      (e, isTarget) :: (placedList args ++ placedOptions options)
  | e@(methodCall _ receiver _ args options) =>
      (e, isTarget) :: (placedWalk false receiver ++ placedList args ++ placedOptions options)
  | e@(member _ receiver _) => (e, isTarget) :: placedWalk false receiver
  | e@(index _ base indices) => (e, isTarget) :: (placedWalk false base ++ placedList indices)
  | e@(unary _ _ operand) => (e, isTarget) :: placedWalk false operand
  | e@(binary _ _ lhs rhs) => (e, isTarget) :: (placedWalk false lhs ++ placedWalk false rhs)
  | e@(paren _ inner) => (e, isTarget) :: placedWalk false inner
  | e@(number _ _) | e@(str _ _) | e@(var _ _) | e@(field _ _) | e@(starLabel _ _)
  | e@(missing _) => [(e, isTarget)]

def placedList : List Expr → List (Expr × Bool)
  | [] => []
  | e :: rest => placedWalk false e ++ placedList rest

def placedOptions : List StatementOption → List (Expr × Bool)
  | [] => []
  | ⟨id, key, value, span⟩ :: rest =>
      placedWalk (isBranchOption ⟨id, key, value, span⟩) value ++ placedOptions rest

end

/-- The identity of the name that the expression uses itself, apart from those in it. -/
def used? : Expr → Option NodeId
  | var _ name | field _ name => some name.id
  | call _ callee _ _ =>
      if isProcedureName callee.text || callee.text.toList.getLast? == some '$' then some callee.id
      else none
  | new _ created _ _ =>
      if created.isQualified || !isBuiltinType created.text then some created.id else none
  | _ => none

mutual

theorem map_placedWalk (isTarget : Bool) (e : Expr) :
    (e.placedWalk isTarget).map (·.1) = e.walk := by
  cases e with
  | number | str | var | field | starLabel | missing => rfl
  | call _ _ args options | new _ _ args options =>
      simp [placedWalk, walk, map_placedList args, map_placedOptions options]
  | methodCall _ receiver _ args options =>
      simp [placedWalk, walk, map_placedWalk false receiver, map_placedList args,
        map_placedOptions options]
  | index _ base indices =>
      simp [placedWalk, walk, map_placedWalk false base, map_placedList indices]
  | binary _ _ lhs rhs =>
      simp [placedWalk, walk, map_placedWalk false lhs, map_placedWalk false rhs]
  | member _ inner _ | unary _ _ inner | paren _ inner =>
      simp [placedWalk, walk, map_placedWalk false inner]

theorem map_placedList (es : List Expr) : (placedList es).map (·.1) = walkList es := by
  cases es with
  | nil => rfl
  | cons e es => simp [placedList, walkList, map_placedWalk false e, map_placedList es]

theorem map_placedOptions (os : List StatementOption) :
    (placedOptions os).map (·.1) = walkOptions os := by
  cases os with
  | nil => rfl
  | cons o os =>
      obtain ⟨id, key, value, span⟩ := o
      simp [placedOptions, walkOptions, map_placedWalk _ value, map_placedOptions os]

end

/-- The values of branch options among placed expressions. -/
def targets (placed : List (Expr × Bool)) : List Expr := (placed.filter (·.2)).map (·.1)

theorem targets_cons (e : Expr) (isTarget : Bool) (placed : List (Expr × Bool)) :
    targets ((e, isTarget) :: placed) = (if isTarget then [e] else []) ++ targets placed := by
  cases isTarget <;> rfl

theorem targets_append (placed placed' : List (Expr × Bool)) :
    targets (placed ++ placed') = targets placed ++ targets placed' := by
  simp [targets]

/-- The values of the branch options in several parts. -/
def branchValues (ps : List Part) : List Expr :=
  ((picked option? ps).filter isBranchOption).map (·.value)

@[simp] theorem branchValues_nil : branchValues [] = [] := rfl

@[simp] theorem branchValues_append (ps qs : List Part) :
    branchValues (ps ++ qs) = branchValues ps ++ branchValues qs := by
  simp [branchValues]

@[simp] theorem branchValues_ident (name : Ident) (ps : List Part) :
    branchValues (.ident name :: ps) = branchValues ps := by
  simp [branchValues, picked_cons, option?, Part.children]

@[simp] theorem branchValues_type (t : TypeRef) (ps : List Part) :
    branchValues (.type t :: ps) = branchValues ps := by
  simp [branchValues, picked_cons, option?, Part.children]

@[simp] theorem branchValues_expr (e : Expr) (ps : List Part) :
    branchValues (.expr e :: ps) = branchValues e.children ++ branchValues ps := by
  simp [branchValues, picked_cons, option?, Part.children]

@[simp] theorem branchValues_option (o : StatementOption) (ps : List Part) :
    branchValues (.option o :: ps) = (if isBranchOption o then [o.value] else []) ++
      (branchValues o.value.children ++ branchValues ps) := by
  cases isBranch : isBranchOption o <;>
    simp [branchValues, picked_cons, option?, Part.children, isBranch]

mutual

theorem targets_placedWalk (isTarget : Bool) (e : Expr) :
    targets (e.placedWalk isTarget) =
      (if isTarget then [e] else []) ++ branchValues e.children := by
  cases e with
  | number | str | var | field | starLabel | missing =>
      simp [placedWalk, targets_cons, Expr.children]
      rfl
  | call _ _ args options | new _ _ args options =>
      simp [placedWalk, targets_cons, targets_append, Expr.children, targets_placedList args,
        targets_placedOptions options]
  | methodCall _ receiver _ args options =>
      simp [placedWalk, targets_cons, targets_append, Expr.children,
        targets_placedWalk false receiver, targets_placedList args, targets_placedOptions options]
  | index _ base indices =>
      simp [placedWalk, targets_cons, targets_append, Expr.children, targets_placedWalk false base,
        targets_placedList indices]
  | binary _ _ lhs rhs =>
      simp [placedWalk, targets_cons, targets_append, Expr.children, targets_placedWalk false lhs,
        targets_placedWalk false rhs]
  | member _ inner _ | unary _ _ inner | paren _ inner =>
      simp [placedWalk, targets_cons, Expr.children, targets_placedWalk false inner]

theorem targets_placedList (es : List Expr) :
    targets (placedList es) = branchValues (parts es) := by
  cases es with
  | nil => rfl
  | cons e es =>
      simp [placedList, targets_append, targets_placedWalk false e, targets_placedList es]

theorem targets_placedOptions (os : List StatementOption) :
    targets (placedOptions os) = branchValues (parts os) := by
  cases os with
  | nil => rfl
  | cons o os =>
      obtain ⟨id, key, value, span⟩ := o
      simp [placedOptions, targets_append, targets_placedWalk _ value, targets_placedOptions os]

end

end Expr

/-! ## References -/

/-- A reference under the canonical name of its text. -/
def Surroundings.site (s : Surroundings) (node : NodeId) (text : String) (span : Span)
    (kind : ReferenceKind) : ReferenceSite :=
  ⟨node, text, canonicalName text kind.nameKind, span, kind, s.scope⟩

/-- The reference that an expression in its place is, apart from those in it. -/
def cited? (s : Surroundings) : Expr × Bool → Option ReferenceSite
  | (.var _ name, isTarget) =>
      some (s.site name.id name.text name.span (if isTarget then .label else .variable))
  | (.field _ name, _) => some (s.site name.id name.text name.span (.field s.classHasSupertype))
  | (.call _ callee _ _, _) =>
      if isProcedureName callee.text then
        some (s.site callee.id callee.text callee.span .procedure)
      else if callee.text.toList.getLast? = some '$' then
        some (s.site callee.id callee.text callee.span .variable)
      else none
  | (.new _ created _ _, _) =>
      if created.isQualified then
        some ⟨created.id, created.text, created.text, created.span, .javaClass, s.scope⟩
      else if isBuiltinType created.text then none
      else some (s.site created.id created.text created.span .type)
  | _ => none

theorem cited?_node (s : Surroundings) (e : Expr) (isTarget : Bool) :
    (cited? s (e, isTarget)).map (·.node) = e.used? := by
  cases e with
  | call _ callee _ _ =>
      by_cases isProcedure : isProcedureName callee.text
      · simp [cited?, Expr.used?, isProcedure, Surroundings.site]
      · by_cases isText : callee.text.toList.getLast? = some '$' <;>
          simp [cited?, Expr.used?, isProcedure, isText, Surroundings.site]
  | new _ created _ _ =>
      by_cases isQualified : created.isQualified
      · simp [cited?, Expr.used?, isQualified]
      · by_cases isBuiltin : isBuiltinType created.text <;>
          simp [cited?, Expr.used?, isQualified, isBuiltin, Surroundings.site]
  | _ => rfl

/-- Between `f` and `g` the references that the placed expressions are were noted, and no other. -/
def Notes (s : Surroundings) (placed : List (Expr × Bool)) (f g : Findings) : Prop :=
  g.references = f.references ++ placed.filterMap (cited? s)

namespace Notes

variable {s : Surroundings} {f g h : Findings} {placed placed' : List (Expr × Bool)}

theorem append (first : Notes s placed f g) (second : Notes s placed' g h) :
    Notes s (placed ++ placed') f h := by
  rw [Notes, second, first, List.append_assoc, List.filterMap_append]

/-- An expression that is noted ahead of those in it. -/
theorem cons {p : Expr × Bool} (first : g.references = f.references ++ (cited? s p).toList)
    (rest : Notes s placed g h) : Notes s (p :: placed) f h := by
  rw [Notes, rest, first, List.filterMap_cons]
  cases cited? s p <;> simp

/-- An expression that is no name itself. -/
theorem skip {p : Expr × Bool} (nameless : cited? s p = none) (rest : Notes s placed f g) :
    Notes s (p :: placed) f g := cons (by simp [nameless]) rest

/-- Only of a variable does it matter what stands around it. -/
theorem anywhere {e : Expr} (notes : Notes s (e.placedWalk false) f g)
    (other : ∀ node name, e = .var node name → False) (isTarget : Bool) :
    Notes s (e.placedWalk isTarget) f g := by
  cases e with
  | var node name => exact (other node name rfl).elim
  | _ => exact notes

end Notes

mutual

theorem notes_collectExpr (s : Surroundings) (f : Findings) (e : Expr) :
    Notes s (e.placedWalk false) f (collectExpr s f e) := by
  cases e with
  | number | str | starLabel | missing => exact (List.append_nil _).symm
  | var _ name | field _ name => rfl
  | call node callee args options =>
      refine .cons ?_ ((notes_collectExprs s _ args).append (notes_collectOptions s _ options))
      by_cases isProcedure : isProcedureName callee.text
      · simp only [cited?, if_pos isProcedure]
        rfl
      · by_cases isText : callee.text.toList.getLast? = some '$'
        · simp only [cited?, if_neg isProcedure, if_pos isText]
          rfl
        · simp only [cited?, if_neg isProcedure, if_neg isText]
          exact (List.append_nil _).symm
  | new node created args options =>
      refine .cons ?_ ((notes_collectExprs s _ args).append (notes_collectOptions s _ options))
      by_cases isQualified : created.isQualified
      · simp only [cited?, Findings.referType, if_pos isQualified]
        rfl
      · by_cases isBuiltin : isBuiltinType created.text
        · simp only [cited?, Findings.referType, if_neg isQualified, if_pos isBuiltin]
          exact (List.append_nil _).symm
        · simp only [cited?, Findings.referType, if_neg isQualified, if_neg isBuiltin]
          rfl
  | methodCall _ receiver _ args options =>
      exact .skip rfl (((notes_collectExpr s f receiver).append
        (notes_collectExprs s _ args)).append (notes_collectOptions s _ options))
  | index _ base indices =>
      exact .skip rfl ((notes_collectExpr s f base).append (notes_collectExprs s _ indices))
  | binary _ _ lhs rhs =>
      exact .skip rfl ((notes_collectExpr s f lhs).append (notes_collectExpr s _ rhs))
  | member _ inner _ | unary _ _ inner | paren _ inner =>
      exact .skip rfl (notes_collectExpr s f inner)

theorem notes_collectExprs (s : Surroundings) (f : Findings) (es : List Expr) :
    Notes s (Expr.placedList es) f (collectExprs s f es) := by
  cases es with
  | nil => exact (List.append_nil _).symm
  | cons e es => exact (notes_collectExpr s f e).append (notes_collectExprs s _ es)

theorem notes_collectOptions (s : Surroundings) (f : Findings) (os : List StatementOption) :
    Notes s (Expr.placedOptions os) f (collectOptions s f os) := by
  cases os with
  | nil => exact (List.append_nil _).symm
  | cons o os =>
      obtain ⟨id, key, value, span⟩ := o
      rw [Expr.placedOptions, collectOptions.eq_def]
      refine Notes.append ?_ (notes_collectOptions s _ os)
      have plain := notes_collectExpr s f value
      split
      · next name =>
        -- the one place where what stands around an expression decides what it is
        split <;> rename_i isTarget
        · rw [isTarget]
          rfl
        · rw [Bool.eq_false_iff.mpr isTarget]
          exact plain
      · next other => exact plain.anywhere other _

end

/-- The references noted in an expression are the names used in it, in the order in which its walk
visits them, each of the kind of its position: a variable is a label where it is the value of a
branch option, and nowhere else. -/
theorem references_collectExpr (s : Surroundings) (f : Findings) (e : Expr) :
    let placed := e.placedWalk false
    let sites := placed.filterMap (cited? s)
    (collectExpr s f e).references = f.references ++ sites ∧
      sites.map (·.node) = e.walk.filterMap Expr.used? ∧
      placed.map (·.1) = e.walk ∧
      (placed.filter (·.2)).map (·.1) =
        ((picked option? [.expr e]).filter isBranchOption).map (·.value) := by
  intro placed sites
  have visited : placed.map (·.1) = e.walk := e.map_placedWalk false
  refine ⟨notes_collectExpr s f e, ?_, visited, ?_⟩
  · rw [← visited, List.map_filterMap, List.filterMap_map]
    exact congrArg (List.filterMap · placed) (funext fun p => cited?_node s p.1 p.2)
  · have values := e.targets_placedWalk false
    rw [← List.append_nil (Expr.branchValues e.children)] at values
    exact values.trans (Expr.branchValues_expr e []).symm

end BbjAnalysis
