import BbjAnalysis.Proofs.Program.Soundness
import BbjAnalysis.Proofs.Scope.Labels

/-! # Labels and branch targets of a program

Every visit adds the labels and branch targets that it is for, and procedures are what the walk
enters (`adds_visit`, `Stands.enters`). So the walk over a program finds every label, in the order
of the text, and every branch target where it stands (`adds_collect`).
-/

namespace BbjAnalysis

open HasParts BbjAnalysis.Part

/-! ## Visits -/

namespace Visit

def label? : Visit → Option Ident
  | label name => some name
  | _ => none

def branchNames : Visit → List Ident
  | refer r => r.branchNames
  | _ => []

end Visit

section Visits

variable {s : Surroundings} {around : List NodeId} {f : Findings}

theorem quiet_assignVariable (stands : Stands s around f) (name : Ident) :
    Quiet f (f.assignVariable s name) := by
  have asked : Refers s [] f { f with asked := name.text :: f.asked } :=
    ⟨rfl, rfl, (List.append_nil _).symm⟩
  unfold Findings.assignVariable
  split
  · exact stands.quiet (asked.trans (refers_referIdent s _ name _ (by simp)))
  · have first := stands.quiet asked
    have target := (ScopeTree.hoistTarget_spec stands.wellFormed stands.small).1
    exact first.append (quiet_declare first.after target _ _ (by simp) _ _ _ _)

theorem adds_visit (stands : Stands s around f) (v : Visit) :
    Adds (v.label?.toList.map (⟨·, around⟩)) (v.branchNames.map (⟨·, around⟩)) [] f
      (v.run s f) := by
  have module := stands.wellFormed.pos
  cases v with
  | refer r => exact stands.refers (refers_note s f r)
  | write name => exact quiet_assignVariable stands name
  | label name => exact stands.declaresLabel name
  | declare name role =>
      exact quiet_declare stands.wellFormed stands.small _ _ (by cases role <;> simp [Role.kind]) ..
  | share name => exact quiet_declare stands.wellFormed module _ _ (by simp) ..
  | imports name isJava detail =>
      exact quiet_declare stands.wellFormed module _ _
        (by cases isJava <;> simp [Visit.importKind]) ..

theorem adds_visitAll (stands : Stands s around f) (vs : List Visit) :
    Adds ((vs.filterMap Visit.label?).map (⟨·, around⟩))
      ((vs.flatMap Visit.branchNames).map (⟨·, around⟩)) [] f (visitAll s f vs) := by
  induction vs generalizing f with
  | nil => exact stands.quiet .skip
  | cons v vs ih =>
      have first := adds_visit stands v
      have whole := first.append (ih (stands.grow first))
      rw [← List.map_append, ← List.map_append] at whole
      have labels : (v :: vs).filterMap Visit.label? =
          v.label?.toList ++ vs.filterMap Visit.label? := by
        rw [List.filterMap_cons]
        cases v.label? <;> rfl
      rw [labels]
      exact whole

end Visits

/-! ## Statements -/

namespace Visit

theorem label?_map {α : Type} {visit : α → Visit} (none : ∀ a, (visit a).label? = none)
    (as : List α) : (as.map visit).filterMap label? = [] := by
  rw [List.filterMap_map, List.filterMap_eq_nil_iff]
  exact fun a _ => none a

section Lists

variable (es : List Expr) (value : Option Expr) (types : List TypeRef) (names : List Ident)

@[simp] theorem label?_exprs : (exprs es).filterMap label? = [] := label?_map (fun _ => rfl) es

@[simp] theorem label?_optional : (optional value).filterMap label? = [] := label?_exprs _

@[simp] theorem label?_types : (Visit.types types).filterMap label? = [] :=
  label?_map (fun _ => rfl) types

@[simp] theorem label?_targets : (targets names).filterMap label? = [] :=
  label?_map (fun _ => rfl) names

@[simp] theorem label?_shares : (shares names).filterMap label? = [] :=
  label?_map (fun _ => rfl) names

@[simp] theorem branchNames_exprs :
    (exprs es).flatMap branchNames = BbjAnalysis.branchNames (HasParts.parts es) := by
  induction es with
  | nil => rfl
  | cons e es ih =>
      rw [parts_cons, branchNames_append, ← ih]
      rfl

@[simp] theorem branchNames_optional :
    (optional value).flatMap branchNames = BbjAnalysis.branchNames (HasParts.parts value) := by
  rw [optional, branchNames_exprs, parts_toList]

@[simp] theorem branchNames_types : (Visit.types types).flatMap branchNames = [] :=
  flatMap_map_eq_nil (fun _ => rfl) types

@[simp] theorem branchNames_targets : (targets names).flatMap branchNames = names := by
  rw [targets, List.flatMap_map]
  exact List.flatMap_singleton' names

@[simp] theorem branchNames_shares : (shares names).flatMap branchNames = [] :=
  flatMap_map_eq_nil (fun _ => rfl) names

end Lists

end Visit

namespace Statement

variable (st : Statement)

theorem procedure?_eq : (Part.statement st).procedure? = Opening.procedure? st.opening? := by
  cases st with
  | branch _ _ body | forLoop _ _ body | whileLoop _ _ body => cases body <;> rfl
  | _ => rfl

theorem declaredLabels_eq :
    (Part.statement st).declaredLabels = st.visits.filterMap Visit.label? := by
  cases st with
  | assign _ _ target => cases target <;> rfl
  | _ => simp [declaredLabels, visits, Visit.label?, List.filterMap_cons]

theorem label?_entry : st.entry.filterMap Visit.label? = [] := by
  cases st <;> simp [entry, Param.visits, Visit.label?, List.filterMap_flatMap]

theorem label?_closing : st.closing.filterMap Visit.label? = [] := by
  cases st <;> simp [closing, Visit.label?]

theorem plain_ahead : ∀ s, .statement s ∉ st.aheadParts := by
  cases st with
  | assign _ _ target => cases target <;> simp [aheadParts, children]
  | _ => simp [aheadParts, children, mem_parts_list, mem_parts_option]

theorem plain_entry : ∀ s, .statement s ∉ st.entryParts := by
  cases st <;> simp [entryParts, mem_parts_list, mem_parts_option]

theorem plain_closing : ∀ s, .statement s ∉ st.closingParts := by
  cases st <;> simp [closingParts, mem_parts_option]

theorem branchNames_ahead :
    ((Part.statement st).branchTargets ++ branchNames st.aheadParts).Perm
      (st.visits.flatMap Visit.branchNames) := by
  have idents (names : List Ident) := (leaves_idents names).branchNames
  have types (names : List TypeRef) := (leaves_types names).branchNames
  have type (name : Option TypeRef) := (leaves_type name).branchNames
  cases st with
  | jump _ _ selector targets =>
      simpa [branchTargets, aheadParts, children, visits, idents] using List.perm_append_comm
  | assign _ _ target =>
      cases target <;>
        simp [branchTargets, aheadParts, children, visits, branchNames_cons, Part.children,
          Visit.branchNames, Referral.branchNames]
  | _ =>
      simp [branchTargets, aheadParts, children, visits, idents, types, type, branchNames_cons,
        Part.children, Visit.branchNames, Referral.branchNames]

theorem branchNames_entry : branchNames st.entryParts = st.entry.flatMap Visit.branchNames := by
  have params (params : List Param) :
      (params.flatMap Param.visits).flatMap Visit.branchNames = [] := by
    rw [List.flatMap_assoc, List.flatMap_eq_nil_iff]
    simp [Param.visits, Visit.branchNames, -List.flatMap_eq_nil_iff]
  have leaves (params : List Param) := (leaves_params params).branchNames
  cases st <;> simp [entryParts, entry, leaves, params, Visit.branchNames, Referral.branchNames]

theorem branchNames_closing :
    branchNames st.closingParts = st.closing.flatMap Visit.branchNames := by
  cases st with
  | forLoop _ _ _ next =>
      rw [closingParts, (leaves_next next).branchNames]
      cases next <;> rfl
  | _ => rfl

/-- The names ahead of a procedure are no branch targets, so they may count to it. -/
theorem namesIn_ahead (around : List NodeId) :
    namesIn branchTargets ((Part.statement st).procedure?.toList ++ around) st.aheadParts =
      (branchNames st.aheadParts).map (⟨·, around⟩) := by
  rw [namesIn_plain _ _ st.plain_ahead]
  cases st with
  | method _ head =>
      have leaves := (leaves_type head.returnType).append (leaves_ident head.name)
      rw [aheadParts, ← branchNames, leaves.branchNames]
      rfl
  | procedure _ head | inlineProcedure _ head =>
      rw [aheadParts, ← branchNames, (leaves_ident head.name).branchNames]
      rfl
  | _ => rfl

end Statement

/-- What is found between `f` and `g` is what is in the given parts. -/
abbrev Records (around : List NodeId) (ps : List Part) (f g : Findings) : Prop :=
  Adds (namesIn declaredLabels around ps) (namesIn branchTargets around ps) (picked procedure? ps)
    f g

namespace Records

variable {s : Surroundings} {around : List NodeId} {f g h : Findings} {ps qs : List Part}

theorem append (first : Records around ps f g) (second : Records around qs g h) :
    Records around (ps ++ qs) f h := by
  rw [Records, namesIn_append, namesIn_append, picked_append]
  exact Adds.append first second

/-- Parts without statements, and visits for the same branch targets. -/
theorem ofVisits (stands : Stands s around f) (plain : ∀ st, .statement st ∉ ps) {vs : List Visit}
    (labels : vs.filterMap Visit.label? = [])
    (targets : branchNames ps = vs.flatMap Visit.branchNames) :
    Records around ps f (visitAll s f vs) := by
  have adds := adds_visitAll stands vs
  rw [labels, ← targets, branchNames, ← namesIn_plain branchTargets around plain] at adds
  rwa [Records, declaredLabels_plain around plain, picked_procedure_plain plain]

end Records

/-- What is opened, and all that is found in it. -/
theorem adds_collectScope {s : Surroundings} {around : List NodeId} {f : Findings}
    (stands : Stands s around f) (o : Option Opening) (entryParts : List Part) (entry : List Visit)
    (plain : ∀ st, .statement st ∉ entryParts) (labels : entry.filterMap Visit.label? = [])
    (targets : branchNames entryParts = entry.flatMap Visit.branchNames) {sts : List Statement}
    (inner : ∀ s f around, Stands s around f →
      Records around (parts sts) f (collectStatements s f sts)) :
    Adds
      (namesIn declaredLabels ((Opening.procedure? o).toList ++ around) (entryParts ++ parts sts))
      (namesIn branchTargets ((Opening.procedure? o).toList ++ around) (entryParts ++ parts sts))
      ((Opening.procedure? o).toList ++ picked procedure? (entryParts ++ parts sts)) f
      (collectScope s f o entry sts) := by
  have inside := stands.enter o
  have entry := Records.ofVisits inside plain labels targets
  exact (stands.enters o).append (entry.append (inner _ _ _ (inside.grow entry)))

namespace Statement

theorem procedure?_elseOpening (st : Statement) : Opening.procedure? st.elseOpening? = none := by
  rw [elseOpening?]
  cases st.elseBranch <;> rfl

/-- What is around the `else` of a branch and what is behind it is around the branch. -/
theorem namesIn_behind (pick : Part → List Ident) (around : List NodeId) (st : Statement) :
    namesIn pick ((Part.statement st).procedure?.toList ++ around)
        (parts st.elseBranch ++ st.closingParts) =
      namesIn pick around (parts st.elseBranch ++ st.closingParts) := by
  cases st <;> rfl

end Statement

theorem records_collectStatements (s : Surroundings) (f : Findings) (sts : List Statement) :
    ∀ around, Stands s around f → Records around (parts sts) f (collectStatements s f sts) := by
  refine collectStatements_induction
    (R := fun s sts f g => ∀ around, Stands s around f → Records around (parts sts) f g)
    ?nil ?cons ?single sts s f
  case nil =>
    intro s f around stands
    exact stands.quiet .skip
  case cons =>
    intro s st rest f g h first others around stands
    have first := first around stands
    rw [parts_cons, ← parts_singleton]
    exact first.append (others around (stands.grow first))
  case single =>
    intro st body other s f around stands
    have ahead := (adds_visitAll stands st.visits).perm
      (st.branchNames_ahead.symm.map (⟨·, around⟩ : Ident → PlacedName))
    have stands := stands.grow ahead
    have opened := adds_collectScope stands st.opening? st.entryParts st.entry st.plain_entry
      st.label?_entry st.branchNames_entry body
    have stands := stands.grow opened
    have else_ := adds_collectScope stands st.elseOpening? [] [] (by simp) rfl rfl other
    have closing := Records.ofVisits (stands.grow else_) st.plain_closing st.label?_closing
      st.branchNames_closing
    rw [← st.procedure?_eq] at opened
    simp only [st.procedure?_elseOpening, Option.toList_none, List.nil_append] at else_
    have behind := else_.append closing
    rw [← namesIn_append, ← namesIn_append, ← st.namesIn_behind declaredLabels,
      ← st.namesIn_behind branchTargets] at behind
    have whole := ahead.append (opened.append behind)
    rw [parts_singleton, parts_statement, Records, namesIn_singleton, namesIn_singleton,
      picked_cons, Part.children, st.children_eq, st.declaredLabels_eq]
    simpa only [namesIn_append, picked_append, List.map_append, st.namesIn_ahead,
      declaredLabels_plain _ st.plain_ahead, picked_procedure_plain st.plain_ahead, picked_nil,
      List.append_nil, List.nil_append, List.append_assoc] using whole

/-! ## Programs -/

/-- The walk over a program finds its labels, its branch targets and its procedures. -/
theorem adds_collect (document : DocumentId) (p : Program) :
    Adds p.labels p.branches (p.parts.filterMap procedure?)
      ⟨ScopeTree.ofModule document Program.rootId p.span, [], [], []⟩ (collect document p) := by
  have wf := ScopeTree.wellFormed_ofModule document Program.rootId p.span
  exact records_collectStatements _ _ p.statements [] ⟨wf, wf.pos, ScopeTree.bodies_zero wf⟩

end BbjAnalysis
