import BbjAnalysis.Proofs.Renaming.Basic
import BbjAnalysis.Proofs.Scope.Visit

/-! # Renaming the findings of a walk

The walk over a program writes the identity of its document into what it declares and
never looks at it. The findings for a renamed document are therefore the renamed
findings (`collect_rename`), along any function at all. Along a constant function this
says that everything a document exports is declared in it (`collect_exports_document`).
-/

namespace BbjAnalysis

def Findings.rename (σ : DocumentId → DocumentId) (f : Findings) : Findings :=
  { f with tree := f.tree.rename σ, exports := f.exports.map (.rename σ) }

theorem ScopeTree.declare_rename (σ : DocumentId → DocumentId) (t : ScopeTree) (id : ScopeId)
    (s : Symbol) : (t.declare id s).rename σ = (t.rename σ).declare id (s.rename σ) := by
  simp only [declare, rename, Array.map_push, Array.size_map, Symbol.name_rename]

namespace Findings

variable (σ : DocumentId → DocumentId) (f : Findings)

theorem tree_rename : (f.rename σ).tree = f.tree.rename σ := rfl

theorem declare_rename (scope : ScopeId) (raw : String) (kind : SymbolKind) (node : NodeId)
    (span : Span) (exported : Bool) (detail : Option String) :
    (f.declare scope raw kind node span exported detail).rename σ =
      (f.rename σ).declare scope raw kind node span exported detail := by
  cases exported with
  | false => simp only [declare, rename, ScopeTree.declare_rename]; rfl
  | true =>
      simp only [declare, rename, ScopeTree.declare_rename, if_true, List.map_append]
      rfl

theorem declareIdent_rename (scope : ScopeId) (name : Ident) (kind : SymbolKind)
    (exported : Bool) :
    (f.declareIdent scope name kind exported).rename σ =
      (f.rename σ).declareIdent scope name kind exported := declare_rename σ f _ _ _ _ _ _ _

theorem referIdent_rename (s : Surroundings) (name : Ident) (kind : ReferenceKind) :
    (f.referIdent s name kind).rename σ = (f.rename σ).referIdent s name kind := rfl

theorem referJava_rename (s : Surroundings) (type : TypeRef) :
    (f.referJava s type).rename σ = (f.rename σ).referJava s type := rfl

theorem referType_rename (s : Surroundings) (type : TypeRef) :
    (f.referType s type).rename σ = (f.rename σ).referType s type := by
  unfold referType
  split
  · rfl
  · split <;> rfl

theorem assignVariable_rename (s : Surroundings) (name : Ident) :
    (f.assignVariable s name).rename σ = (f.rename σ).assignVariable s name := by
  unfold assignVariable
  simp only [tree_rename, ScopeTree.seesVariable_rename, ScopeTree.hoistTarget_rename]
  split
  · rfl
  · rw [declareIdent_rename]
    rfl

theorem enter_rename (s : Surroundings) (o : Option Opening) :
    (f.enter s o).rename σ = (f.rename σ).enter s o := by
  cases o <;> rfl

end Findings

theorem Surroundings.enter_rename (σ : DocumentId → DocumentId) (s : Surroundings)
    (f : Findings) (o : Option Opening) : s.enter (f.rename σ) o = s.enter f o := by
  cases o with
  | none => rfl
  | some o => cases o <;> rfl

open Findings

section Walk

variable (σ : DocumentId → DocumentId)

mutual
theorem collectExpr_rename (s : Surroundings) (f : Findings) (e : Expr) :
    (collectExpr s f e).rename σ = collectExpr s (f.rename σ) e := by
  cases e with
  | var | field => simp only [collectExpr, referIdent_rename]
  | call node callee args options =>
      simp only [collectExpr]
      rw [collectOptions_rename s _ options, collectExprs_rename s _ args]
      split
      · rfl
      · split <;> rfl
  | methodCall node receiver name args options =>
      simp only [collectExpr, collectOptions_rename s _ options, collectExprs_rename s _ args,
        collectExpr_rename s _ receiver]
  | member node receiver name => simp only [collectExpr, collectExpr_rename s _ receiver]
  | index node base indices =>
      simp only [collectExpr, collectExprs_rename s _ indices, collectExpr_rename s _ base]
  | new node type args options =>
      simp only [collectExpr, collectOptions_rename s _ options, collectExprs_rename s _ args,
        referType_rename]
  | unary node op operand => simp only [collectExpr, collectExpr_rename s _ operand]
  | binary node op lhs rhs =>
      simp only [collectExpr, collectExpr_rename s _ rhs, collectExpr_rename s _ lhs]
  | paren node inner => simp only [collectExpr, collectExpr_rename s _ inner]
  | number | str | starLabel | missing => simp only [collectExpr]
termination_by sizeOf e

theorem collectExprs_rename (s : Surroundings) (f : Findings) (es : List Expr) :
    (collectExprs s f es).rename σ = collectExprs s (f.rename σ) es := by
  cases es with
  | nil => simp only [collectExprs]
  | cons e rest =>
      simp only [collectExprs, collectExprs_rename s _ rest, collectExpr_rename s _ e]
termination_by sizeOf es

theorem collectOptions_rename (s : Surroundings) (f : Findings) (os : List StatementOption) :
    (collectOptions s f os).rename σ = collectOptions s (f.rename σ) os := by
  cases os with
  | nil => simp only [collectOptions]
  | cons o rest =>
      obtain ⟨id, key, value, span⟩ := o
      have inner := collectExpr_rename s f value
      have later := fun f => collectOptions_rename s f rest
      cases value with
      | var node name =>
          simp only [collectOptions, later]
          split
          · rfl
          · rw [inner]
      | _ => simp only [collectOptions, later, inner]
termination_by sizeOf os
end

theorem note_rename (s : Surroundings) (f : Findings) (r : Referral) :
    (r.note s f).rename σ = r.note s (f.rename σ) := by
  cases r with
  | expr e => exact collectExpr_rename σ s f e
  | options os => exact collectOptions_rename σ s f os
  | type name => exact referType_rename σ f s name
  | javaClass name => exact referJava_rename σ f s name
  | ident name kind => exact referIdent_rename σ f s name kind
  | access name => exact referIdent_rename σ f s name _

theorem visit_rename (s : Surroundings) (f : Findings) (v : Visit) :
    (v.run s f).rename σ = v.run s (f.rename σ) := by
  cases v with
  | refer r => exact note_rename σ s f r
  | write name => exact assignVariable_rename σ f s name
  | label name =>
      simp only [Visit.run, declareIdent_rename, tree_rename, ScopeTree.hoistTarget_rename]
  | declare | share => exact declareIdent_rename ..
  | imports => exact declare_rename ..

theorem visitAll_rename (s : Surroundings) (f : Findings) (vs : List Visit) :
    (visitAll s f vs).rename σ = visitAll s (f.rename σ) vs := by
  induction vs generalizing f with
  | nil => rfl
  | cons v vs ih => rw [visitAll_cons, ih, visit_rename, visitAll_cons]

theorem collectScope_rename {sts : List Statement} (inner : ∀ s f,
      (collectStatements s f sts).rename σ = collectStatements s (f.rename σ) sts)
    (s : Surroundings) (f : Findings) (o : Option Opening) (entry : List Visit) :
    (collectScope s f o entry sts).rename σ = collectScope s (f.rename σ) o entry sts := by
  rw [collectScope, inner, visitAll_rename, Findings.enter_rename, collectScope,
    Surroundings.enter_rename]

theorem collectStatements_rename (s : Surroundings) (f : Findings) (sts : List Statement) :
    (collectStatements s f sts).rename σ = collectStatements s (f.rename σ) sts := by
  refine collectStatements_induction
    (R := fun s sts f g => g.rename σ = collectStatements s (f.rename σ) sts)
    ?nil ?cons ?single sts s f
  case nil => exact fun s f => (collectStatements_nil ..).symm
  case cons =>
    intro s st rest f g h first others
    rw [collectStatements_cons, ← first, others]
  case single =>
    intro st body other s f
    rw [collectStatements_singleton, visitAll_rename, collectScope_rename σ other,
      collectScope_rename σ body, visitAll_rename]

/-- The walk never looks at the identity of its document. -/
theorem collect_rename (document : DocumentId) (p : Program) :
    (collect document p).rename σ = collect (σ document) p := by
  have start : (ScopeTree.ofModule document Program.rootId p.span).rename σ =
      ScopeTree.ofModule (σ document) Program.rootId p.span := by
    simp only [ScopeTree.rename, ScopeTree.ofModule, Array.map_empty]
  rw [collect, collectStatements_rename, collect, ← start]
  rfl

end Walk

theorem computeScopes_rename (σ : DocumentId → DocumentId) (document : DocumentId)
    (uri : String) (p : Program) :
    (computeScopes document uri p).rename σ = computeScopes (σ document) uri p := by
  simp only [computeScopes, ← collect_rename σ document p]
  rfl

theorem collect_exports_document {document d : DocumentId} {p : Program} {s : Symbol}
    (exported : s ∈ (collect document p).exports) (declared : s.document = some d) :
    d = document := by
  have fixed := collect_rename (fun _ => document) document p
  rw [← fixed, Findings.rename, List.mem_map] at exported
  obtain ⟨t, -, rfl⟩ := exported
  rw [Symbol.document_rename, Option.map_eq_some_iff] at declared
  obtain ⟨_, -, same⟩ := declared
  exact same.symm

end BbjAnalysis
