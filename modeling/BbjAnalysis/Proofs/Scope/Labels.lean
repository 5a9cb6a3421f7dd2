import BbjAnalysis.Proofs.Program.Occurrence
import BbjAnalysis.Proofs.Scope.Tree
import BbjAnalysis.Proofs.Scope.Visit

/-! # Labels and branch targets in the scopes

The walk over a program declares each label in the nearest procedure around it, or in the module,
and notes each branch target in the scope it stands in. What part of the program adds to the
findings is said by `Adds`: the labels of the part in their order, its branch targets, and the
procedures that open scopes. All else that the walk declares and notes is as nothing to labels
(`Quiet`).
-/

namespace BbjAnalysis

open HasParts BbjAnalysis.Part

/-! ## References to labels -/

/-- The name under which a label is declared and looked for. -/
def labelKey (name : Ident) : String := canonicalName name.text .label

/-- A branch target in a scope. -/
def labelSite (scope : ScopeId) (name : Ident) : ReferenceSite :=
  ⟨name.id, name.text, labelKey name, name.span, .label, scope⟩

/-- The branch targets among the references, in the order in which they were noted. -/
def Findings.labelSites (f : Findings) : List ReferenceSite :=
  f.references.filter (·.kind == .label)

/-- The names of the branch targets among all that is in several parts. -/
def branchNames (ps : List Part) : List Ident := (allOf ps).flatMap branchTargets

section BranchNames

@[simp] theorem branchNames_nil : branchNames [] = [] := rfl

@[simp] theorem branchNames_append (ps qs : List Part) :
    branchNames (ps ++ qs) = branchNames ps ++ branchNames qs := by
  rw [branchNames, allOf_append, List.flatMap_append, branchNames, branchNames]

theorem branchNames_singleton (p : Part) :
    branchNames [p] = p.branchTargets ++ branchNames p.children := by
  rw [branchNames, allOf_singleton, List.flatMap_cons, branchNames]

theorem branchNames_cons (p : Part) (ps : List Part) :
    branchNames (p :: ps) = p.branchTargets ++ branchNames p.children ++ branchNames ps := by
  rw [← List.singleton_append, branchNames_append, branchNames_singleton]

/-- Parts without children: names, types, and what has no node. -/
def Leaves (ps : List Part) : Prop := ∀ p ∈ ps, p.children = [] ∧ p.branchTargets = []

theorem Leaves.branchNames {ps : List Part} (leaves : Leaves ps) : branchNames ps = [] := by
  induction ps with
  | nil => rfl
  | cons p ps ih =>
      obtain ⟨children, targets⟩ := leaves p List.mem_cons_self
      rw [← List.singleton_append, branchNames_append, branchNames_singleton, children, targets,
        ih fun q member => leaves q (List.mem_cons_of_mem p member)]
      rfl

theorem leaves_ident (name : Ident) : Leaves (parts name) := by
  intro p member
  rw [List.mem_singleton.mp member]
  exact ⟨rfl, rfl⟩

theorem leaves_next (name? : Option Ident) : Leaves (parts name?) := by
  intro p member
  obtain ⟨name, -, member⟩ := mem_parts_option.mp member
  exact leaves_ident name p member

theorem leaves_idents (names : List Ident) : Leaves (parts names) := by
  intro p member
  obtain ⟨name, -, member⟩ := mem_parts_list.mp member
  exact leaves_ident name p member

theorem leaves_types (types : List TypeRef) : Leaves (parts types) := by
  intro p member
  obtain ⟨type, -, member⟩ := mem_parts_list.mp member
  rw [List.mem_singleton.mp member]
  exact ⟨rfl, rfl⟩

theorem leaves_type (type : Option TypeRef) : Leaves (parts type) := by
  intro p member
  obtain ⟨type, -, member⟩ := mem_parts_option.mp member
  rw [List.mem_singleton.mp member]
  exact ⟨rfl, rfl⟩

theorem Leaves.append {ps qs : List Part} (first : Leaves ps) (second : Leaves qs) :
    Leaves (ps ++ qs) := by
  intro p member
  exact (List.mem_append.mp member).elim (first p) (second p)

theorem leaves_params (params : List Param) : Leaves (parts params) := by
  intro p member
  obtain ⟨param, -, member⟩ := mem_parts_list.mp member
  rcases List.mem_cons.mp member with rfl | member
  · exact ⟨rfl, rfl⟩
  · rcases List.mem_append.mp member with member | member
    · exact leaves_type param.type p member
    · exact leaves_ident param.name p member

end BranchNames

/-- Between `f` and `g` nothing but references was noted, those to labels under the given names in
the scope where the walk is. -/
structure Refers (s : Surroundings) (names : List Ident) (f g : Findings) : Prop where
  tree : g.tree = f.tree
  exports : g.exports = f.exports
  sites : g.labelSites = f.labelSites ++ names.map (labelSite s.scope)

namespace Refers

variable {s : Surroundings} {f g h : Findings} {names names' : List Ident} {ps qs : List Part}

theorem skip : Refers s [] f f := ⟨rfl, rfl, (List.append_nil _).symm⟩

theorem trans (first : Refers s names f g) (second : Refers s names' g h) :
    Refers s (names ++ names') f h where
  tree := second.tree.trans first.tree
  exports := second.exports.trans first.exports
  sites := by rw [second.sites, first.sites, List.map_append, List.append_assoc]

theorem append (first : Refers s (branchNames ps) f g) (second : Refers s (branchNames qs) g h) :
    Refers s (branchNames (ps ++ qs)) f h := by
  rw [branchNames_append]
  exact first.trans second

/-- A part that is no branch target itself. -/
theorem inside {p : Part} (refers : Refers s (branchNames p.children) f g)
    (plain : p.branchTargets = []) : Refers s (branchNames [p]) f g := by
  rwa [branchNames_singleton, plain]

theorem ofLeaves (refers : Refers s [] f g) (leaves : Leaves ps) :
    Refers s (branchNames ps) f g := by
  rwa [leaves.branchNames]

end Refers

section Refer

variable (s : Surroundings) (f : Findings)

theorem refers_label (name : Ident) : Refers s [name] f (f.referIdent s name .label) where
  tree := rfl
  exports := rfl
  sites := by
    rw [Findings.labelSites, Findings.referIdent, Findings.refer, List.filter_append]
    rfl

/-- A reference to something else than a label. -/
theorem refers_other (site : ReferenceSite) (other : site.kind ≠ .label) (asked : List String) :
    Refers s [] f { f with references := f.references ++ [site], asked } where
  tree := rfl
  exports := rfl
  sites := by
    have none : [site].filter (·.kind == .label) = [] := by simp [other]
    rw [Findings.labelSites, List.filter_append, none, List.append_nil]
    exact (List.append_nil _).symm

theorem refers_referIdent (name : Ident) (kind : ReferenceKind) (other : kind ≠ .label) :
    Refers s [] f (f.referIdent s name kind) := refers_other s f _ other _

theorem refers_referType (type : TypeRef) : Refers s [] f (f.referType s type) := by
  unfold Findings.referType
  split
  · exact refers_other s f _ (by simp) _
  · split
    · exact .skip
    · exact refers_other s f _ (by simp) _

end Refer

theorem branchTargets_option_of_branch {id : NodeId} {key name : Ident} {node : Node} {span : Span}
    (branch : isBranchOption ⟨id, key, .var node name, span⟩ = true) :
    branchTargets (.option ⟨id, key, .var node name, span⟩) = [name] := by
  rw [branchTargets, if_pos]
  simpa [isBranchOption, branchOptionKeys] using branch

theorem branchTargets_option_of_not_branch {id : NodeId} {key name : Ident} {node : Node}
    {span : Span} (plain : ¬ isBranchOption ⟨id, key, .var node name, span⟩ = true) :
    branchTargets (.option ⟨id, key, .var node name, span⟩) = [] := by
  rw [branchTargets, if_neg]
  simpa [isBranchOption, branchOptionKeys] using plain

mutual

theorem refers_collectExpr (s : Surroundings) (f : Findings) (e : Expr) :
    Refers s (branchNames (parts e)) f (collectExpr s f e) := by
  refine Refers.inside ?_ rfl
  have leaf (name : Ident) {f g : Findings} (refers : Refers s [] f g) :
      Refers s (branchNames (parts name)) f g := refers.ofLeaves (leaves_ident name)
  cases e with
  | var node name => exact leaf name (refers_referIdent s f name _ (by simp))
  | field node name => exact leaf name (refers_referIdent s f name _ (by simp))
  | call node callee args options =>
      have rest (f : Findings) :=
        (refers_collectExprs s f args).append (refers_collectOptions s _ options)
      simp only [collectExpr]
      split
      · exact (leaf callee (refers_referIdent s f callee _ (by simp))).append (rest _)
      · split
        · exact (leaf callee (refers_referIdent s f callee _ (by simp))).append (rest _)
        · exact (leaf callee .skip).append (rest f)
  | methodCall node receiver name args options =>
      exact (refers_collectExpr s f receiver).append ((leaf name .skip).append
        ((refers_collectExprs s _ args).append (refers_collectOptions s _ options)))
  | member node receiver name =>
      exact (refers_collectExpr s f receiver).append (leaf name .skip)
  | index node base indices =>
      exact (refers_collectExpr s f base).append (refers_collectExprs s _ indices)
  | new node type args options =>
      have type := (refers_referType s f type).ofLeaves (leaves_type (some type))
      exact type.append ((refers_collectExprs s _ args).append (refers_collectOptions s _ options))
  | unary node op operand => exact refers_collectExpr s f operand
  | binary node op lhs rhs =>
      exact (refers_collectExpr s f lhs).append (refers_collectExpr s _ rhs)
  | paren node inner => exact refers_collectExpr s f inner
  | starLabel node name => exact leaf name .skip
  | number | str | missing => exact .skip
termination_by sizeOf e

theorem refers_collectExprs (s : Surroundings) (f : Findings) (es : List Expr) :
    Refers s (branchNames (parts es)) f (collectExprs s f es) := by
  cases es with
  | nil => exact .skip
  | cons e es => exact (refers_collectExpr s f e).append (refers_collectExprs s _ es)
termination_by sizeOf es

theorem refers_collectOptions (s : Surroundings) (f : Findings) (os : List StatementOption) :
    Refers s (branchNames (parts os)) f (collectOptions s f os) := by
  cases os with
  | nil => exact .skip
  | cons o os =>
      obtain ⟨id, key, value, span⟩ := o
      have key_ : Refers s (branchNames (parts key)) f f := Refers.skip.ofLeaves (leaves_ident key)
      have plain := key_.append (refers_collectExpr s f value)
      have rest (f : Findings) := refers_collectOptions s f os
      simp only [collectOptions]
      split
      · next node name =>
        split
        · next branch =>
          have label : Refers s (branchNames (parts (⟨id, key, .var node name, span⟩ :
              StatementOption))) f (f.referIdent s name .label) := by
            have children : branchNames (Part.option ⟨id, key, .var node name, span⟩).children =
                [] := by
              show branchNames (parts key ++ parts (Expr.var node name)) = []
              rw [branchNames_append, (leaves_ident key).branchNames, parts_expr,
                branchNames_singleton]
              exact (leaves_ident name).branchNames
            rw [parts_option, branchNames_singleton, branchTargets_option_of_branch branch,
              children]
            exact refers_label s f name
          exact label.append (rest _)
        · next other =>
          exact Refers.append
            (Refers.inside plain (branchTargets_option_of_not_branch other)) (rest _)
      · next noVariable =>
        have noTarget : branchTargets (.option ⟨id, key, value, span⟩) = [] := by
          cases value <;> first | rfl | exact absurd rfl (noVariable _ _)
        exact Refers.append (Refers.inside plain noTarget) (rest _)
termination_by sizeOf os

end

/-- The names that are noted as those of labels. -/
def Referral.branchNames : Referral → List Ident
  | .expr e => BbjAnalysis.branchNames (HasParts.parts e)
  | .options os => BbjAnalysis.branchNames (HasParts.parts os)
  | .ident name kind => if kind = .label then [name] else []
  | .type _ | .javaClass _ | .access _ => []

theorem refers_note (s : Surroundings) (f : Findings) (r : Referral) :
    Refers s r.branchNames f (r.note s f) := by
  cases r with
  | expr e => exact refers_collectExpr s f e
  | options os => exact refers_collectOptions s f os
  | type name => exact refers_referType s f name
  | javaClass name => exact refers_other s f _ (by simp) _
  | ident name kind =>
      simp only [Referral.branchNames]
      split
      · next label => exact label ▸ refers_label s f name
      · next other => exact refers_referIdent s f name kind other
  | access name => exact refers_referIdent s f name _ (by simp)

/-! ## What the walk adds -/

namespace ScopeTree

/-- The labels declared in a scope under a name. -/
def labelsAt (t : ScopeTree) (i : ScopeId) (name : String) : List Symbol :=
  (t.lookupLocal i name).filter (·.kind == .label)

/-- All labels of a tree, in the order of their declaration. -/
def labels (t : ScopeTree) : List Symbol := t.symbols.toList.filter (·.kind == .label)

/-- A scope lies in the procedures around a name. -/
structure Holds (t : ScopeTree) (n : ScopeId × PlacedName) : Prop where
  small : n.1 < t.scopes.size
  bodies : t.bodies n.1 = n.2.procedures

theorem Holds.grow {t t' : ScopeTree} {n : ScopeId × PlacedName} (holds : t.Holds n)
    (grows : t.Grows t') (wf : t.WellFormed) (wf' : t'.WellFormed) : t'.Holds n where
  small := grows.lt holds.small
  bodies := (grows.bodies wf wf' holds.small).trans holds.bodies

end ScopeTree

/-- A label as it is declared in a scope. -/
def labelSymbol (document : DocumentId) (n : ScopeId × PlacedName) : Symbol :=
  ⟨labelKey n.2.name, .label, n.1 == ScopeTree.moduleId, .declared document n.2.name.id,
    n.2.name.span, none⟩

/-- Between `f` and `g` the given labels were declared, in their order, each in a scope that labels
belong to; the given branch targets were noted; and the given procedures opened scopes. -/
structure Adds (labels branches : List PlacedName) (procedures : List NodeId) (f g : Findings) :
    Prop where
  before : f.tree.WellFormed
  after : g.tree.WellFormed
  grows : f.tree.Grows g.tree
  procedures : g.tree.procedures = f.tree.procedures ++ procedures
  labels : ∃ placed : List (ScopeId × PlacedName), placed.map (·.2) = labels ∧
    (∀ n ∈ placed, g.tree.Holds n ∧ g.tree.isHoistTarget n.1 = true) ∧
    g.tree.labels = f.tree.labels ++ placed.map (labelSymbol f.tree.document) ∧
    ∀ i name, g.tree.labelsAt i name = f.tree.labelsAt i name ++
      (placed.filter fun n => n.1 = i ∧ labelKey n.2.name = name).map
        (labelSymbol f.tree.document)
  branches : ∃ placed : List (ScopeId × PlacedName), (placed.map (·.2)).Perm branches ∧
    (∀ n ∈ placed, g.tree.Holds n) ∧
    g.labelSites = f.labelSites ++ placed.map fun n => labelSite n.1 n.2.name
  exports : ∀ e ∈ g.exports, e.kind = .label →
    e ∈ f.exports ∨ e ∈ g.tree.labelsAt ScopeTree.moduleId e.name

/-- Nothing that matters to labels was found. -/
abbrev Quiet (f g : Findings) : Prop := Adds [] [] [] f g

/-- The procedure that a scope is opened for. -/
def Opening.procedure? : Option Opening → Option NodeId
  | some (.procedure owner) => some owner.id
  | _ => none

/-- The walk is in a scope that lies in the given procedures. -/
structure Stands (s : Surroundings) (around : List NodeId) (f : Findings) : Prop where
  wellFormed : f.tree.WellFormed
  small : s.scope < f.tree.scopes.size
  bodies : f.tree.bodies s.scope = around

namespace Adds

variable {labels labels' branches branches' : List PlacedName}
  {procedures procedures' around : List NodeId} {f g h : Findings} {s : Surroundings}

theorem append (first : Adds labels branches procedures f g)
    (second : Adds labels' branches' procedures' g h) :
    Adds (labels ++ labels') (branches ++ branches') (procedures ++ procedures') f h where
  before := first.before
  after := second.after
  grows := first.grows.trans second.grows
  procedures := by rw [second.procedures, first.procedures, List.append_assoc]
  labels := by
    obtain ⟨placed, same, holds, all, each⟩ := first.labels
    obtain ⟨placed', same', holds', all', each'⟩ := second.labels
    rw [first.grows.document] at all' each'
    refine ⟨placed ++ placed', by rw [List.map_append, same, same'], ?_, ?_, ?_⟩
    · intro n member
      rcases List.mem_append.mp member with member | member
      · obtain ⟨inside, target⟩ := holds n member
        exact ⟨inside.grow second.grows first.after second.after,
          (second.grows.isHoistTarget inside.small).trans target⟩
      · exact holds' n member
    · rw [all', all, List.map_append, List.append_assoc]
    · intro i name
      rw [each', each, List.filter_append, List.map_append, List.append_assoc]
  branches := by
    obtain ⟨placed, same, holds, all⟩ := first.branches
    obtain ⟨placed', same', holds', all'⟩ := second.branches
    refine ⟨placed ++ placed', ?_, ?_, ?_⟩
    · rw [List.map_append]
      exact same.append same'
    · intro n member
      rcases List.mem_append.mp member with member | member
      · exact (holds n member).grow second.grows first.after second.after
      · exact holds' n member
    · rw [all', all, List.map_append, List.append_assoc]
  exports := by
    intro e member label
    refine (second.exports e member label).elim (fun earlier => ?_) .inr
    refine (first.exports e earlier label).imp_right fun declared => ?_
    obtain ⟨placed, -, -, -, each⟩ := second.labels
    rw [each]
    exact List.mem_append_left _ declared

theorem perm (adds : Adds labels branches procedures f g) (same : branches.Perm branches') :
    Adds labels branches' procedures f g where
  before := adds.before
  after := adds.after
  grows := adds.grows
  procedures := adds.procedures
  labels := adds.labels
  branches := by
    obtain ⟨placed, perm, rest⟩ := adds.branches
    exact ⟨placed, perm.trans same, rest⟩
  exports := adds.exports

end Adds

/-- Declaring something else than a label. -/
theorem quiet_declare {f : Findings} (wellFormed : f.tree.WellFormed) {scope : ScopeId}
    (small : scope < f.tree.scopes.size) (raw : String) (kind : SymbolKind) (other : kind ≠ .label)
    (node : NodeId) (span : Span) (exported : Bool) (detail : Option String) :
    Quiet f (f.declare scope raw kind node span exported detail) where
  before := wellFormed
  after := wellFormed.declare _ _
  grows := ScopeTree.grows_declare
  procedures := by
    rw [List.append_nil]
    exact ScopeTree.procedures_declare _ _
  labels := by
    refine ⟨[], rfl, by simp, ?_, fun i name => ?_⟩
    · simp [Findings.declare, ScopeTree.declare, ScopeTree.labels, other]
    · rw [ScopeTree.labelsAt, Findings.declare, ScopeTree.lookupLocal_declare wellFormed small]
      split <;> simp [ScopeTree.labelsAt, other]
  branches := ⟨[], .nil, by simp, (List.append_nil _).symm⟩
  exports := by
    intro e member label
    refine .inl ?_
    simp only [Findings.declare] at member
    split at member
    · rcases List.mem_append.mp member with member | member
      · exact member
      · rw [List.mem_singleton.mp member] at label
        exact absurd label other
    · exact member

namespace Stands

variable {s : Surroundings} {around : List NodeId} {f g : Findings}

theorem grow {labels branches : List PlacedName} {procedures : List NodeId}
    (stands : Stands s around f) (adds : Adds labels branches procedures f g) :
    Stands s around g where
  wellFormed := adds.after
  small := adds.grows.lt stands.small
  bodies := (adds.grows.bodies adds.before adds.after stands.small).trans stands.bodies

/-- The walk in a scope that is opened next. -/
theorem inside (stands : Stands s around f) (kind : ScopeKind) (plain : kind ≠ .module)
    (owner : Node) : Stands (s.inside f) ((if kind = .procedure then [owner.id] else []) ++ around)
      (f.openScope s kind owner) where
  wellFormed := stands.wellFormed.openScope stands.small plain owner.id owner.span
  small := by
    have more : (f.openScope s kind owner).tree.scopes.size = f.tree.scopes.size + 1 :=
      Array.size_push ..
    rw [more]
    exact Nat.lt_succ_self _
  bodies := by
    rw [← stands.bodies]
    exact ScopeTree.bodies_openScope stands.wellFormed stands.small plain owner.id owner.span

/-- Where only references are noted, they stand in the procedures around the walk. -/
theorem refers (stands : Stands s around f) {names : List Ident} (refers : Refers s names f g) :
    Adds [] (names.map (⟨·, around⟩)) [] f g where
  before := stands.wellFormed
  after := refers.tree ▸ stands.wellFormed
  grows := refers.tree ▸ .refl _
  procedures := by rw [refers.tree, List.append_nil]
  labels := ⟨[], rfl, by simp, by simp [refers.tree], by simp [refers.tree]⟩
  branches := by
    refine ⟨names.map fun name => (s.scope, ⟨name, around⟩), ?_, ?_, ?_⟩
    · rw [List.map_map]
      exact .refl _
    · intro n member
      obtain ⟨name, -, rfl⟩ := List.mem_map.mp member
      rw [refers.tree]
      exact ⟨stands.small, stands.bodies⟩
    · rw [refers.sites, List.map_map]
      rfl
  exports e member _ := .inl (refers.exports ▸ member)

theorem quiet (stands : Stands s around f) (refers : Refers s [] f g) : Quiet f g :=
  stands.refers refers

/-- Opening a scope. -/
theorem opens (stands : Stands s around f) (kind : ScopeKind) (plain : kind ≠ .module)
    (owner : Node) : Adds [] [] (if kind = .procedure then [owner.id] else []) f
      (f.openScope s kind owner) where
  before := stands.wellFormed
  after := (stands.inside kind plain owner).wellFormed
  grows := ScopeTree.grows_openScope
  procedures := ScopeTree.procedures_openScope kind s.scope owner.id owner.span
  labels := by
    refine ⟨[], rfl, by simp, (List.append_nil _).symm, fun i name => ?_⟩
    rw [ScopeTree.labelsAt, Findings.openScope, ScopeTree.lookupLocal_openScope]
    exact (List.append_nil _).symm
  branches := ⟨[], .nil, by simp, (List.append_nil _).symm⟩
  exports e member _ := .inl member

/-- The walk in what is opened next, if something is. -/
theorem enter (stands : Stands s around f) (o : Option Opening) :
    Stands (s.enter f o) ((Opening.procedure? o).toList ++ around) (f.enter s o) := by
  cases o with
  | none => exact stands
  | some o =>
      have inside := stands.inside o.kind o.kind_ne_module o.owner
      cases o with
      | classBody => exact ⟨inside.wellFormed, inside.small, inside.bodies⟩
      | procedure | block => exact inside

theorem enters (stands : Stands s around f) (o : Option Opening) :
    Adds [] [] (Opening.procedure? o).toList f (f.enter s o) := by
  cases o with
  | none => exact stands.quiet .skip
  | some o =>
      have opened := stands.opens o.kind o.kind_ne_module o.owner
      cases o <;> exact opened

/-- Declaring a label. -/
theorem declaresLabel (stands : Stands s around f) (name : Ident) :
    Adds [⟨name, around⟩] [] [] f (f.declareIdent (f.tree.hoistTarget s.scope) name .label
      (f.tree.hoistTarget s.scope == ScopeTree.moduleId)) where
  before := stands.wellFormed
  after := stands.wellFormed.declare _ _
  grows := ScopeTree.grows_declare
  procedures := by
    rw [List.append_nil]
    exact ScopeTree.procedures_declare _ _
  labels := by
    obtain ⟨small, target, bodies⟩ := ScopeTree.hoistTarget_spec stands.wellFormed stands.small
    have wf := stands.wellFormed
    refine ⟨[(f.tree.hoistTarget s.scope, ⟨name, around⟩)], rfl, ?_, ?_, fun i key => ?_⟩
    · intro n member
      rw [List.mem_singleton.mp member]
      have holds : f.tree.Holds (f.tree.hoistTarget s.scope, ⟨name, around⟩) :=
        ⟨small, bodies.trans stands.bodies⟩
      exact ⟨holds.grow ScopeTree.grows_declare wf (wf.declare _ _),
        (ScopeTree.grows_declare.isHoistTarget small).trans target⟩
    · simp only [Findings.declareIdent, Findings.declare, ScopeTree.declare, ScopeTree.labels,
        Array.toList_push, List.filter_append]
      rfl
    · rw [ScopeTree.labelsAt, Findings.declareIdent, Findings.declare,
        ScopeTree.lookupLocal_declare wf small, List.filter_append, ScopeTree.labelsAt]
      congr 1
      by_cases here : f.tree.hoistTarget s.scope = i ∧ labelKey name = key
      · have here' : f.tree.hoistTarget s.scope = i ∧ key = canonicalName name.text .label :=
          ⟨here.1, here.2.symm⟩
        simp only [here', and_self, if_true, here, decide_true, List.filter_cons]
        rfl
      · have here' : ¬ (f.tree.hoistTarget s.scope = i ∧ key = canonicalName name.text .label) :=
          fun both => here ⟨both.1, both.2.symm⟩
        simp [here', here]
  branches := ⟨[], .nil, by simp, (List.append_nil _).symm⟩
  exports := by
    intro e member label
    obtain ⟨small, -, -⟩ := ScopeTree.hoistTarget_spec stands.wellFormed stands.small
    simp only [Findings.declareIdent, Findings.declare] at member
    split at member
    · next module =>
      rcases List.mem_append.mp member with member | member
      · exact .inl member
      · refine .inr (List.mem_filter.mpr ⟨?_, by simp [label]⟩)
        rw [Findings.declareIdent, Findings.declare,
          ScopeTree.lookupLocal_declare stands.wellFormed small, List.mem_append]
        rw [List.mem_singleton.mp member]
        right
        rw [if_pos ⟨beq_iff_eq.mp module, rfl⟩]
        exact List.mem_cons_self
    · exact .inl member

end Stands

end BbjAnalysis
