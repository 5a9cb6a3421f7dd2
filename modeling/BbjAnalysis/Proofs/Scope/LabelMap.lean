import BbjAnalysis.Proofs.Scope.Citation
import BbjAnalysis.Proofs.Scope.Labels.Statement
import BbjAnalysis.Proofs.Symbol.Name

/-! # Where the labels of a text are declared

A label belongs to the scope of the innermost procedure around it, or of the module
(`exists_labelMap`). So it is seen from wherever that procedure is around (`LabelMap.seen_iff`), and
shares its scope with the labels that are its rivals (`LabelMap.scope_eq_iff`).
-/

namespace BbjAnalysis

open HasParts BbjAnalysis.Part

/-! ## Names that are picked -/

section Picked

variable {pick : Part → List Ident} {around : List NodeId}

theorem fst_mem_all {around : List NodeId} {p : Part} {o : Part × List NodeId}
    (member : o ∈ p.occurrences around) : o.1 ∈ p.all := by
  rw [occurrences_eq] at member
  rcases List.mem_cons.mp member with rfl | member
  · exact mem_all_self p
  · obtain ⟨q, child, member⟩ := List.mem_flatMap.mp member
    have smaller := weight_lt_of_mem_children child
    exact mem_all_of_mem_children child (fst_mem_all member)
termination_by p.weight

theorem exists_of_mem_namesIn {ps : List Part} {n : PlacedName}
    (member : n ∈ namesIn pick around ps) : ∃ p ∈ allOf ps, n.name ∈ pick p := by
  obtain ⟨o, among, member⟩ := List.mem_flatMap.mp member
  obtain ⟨p, inside, occurs⟩ := List.mem_flatMap.mp among
  obtain ⟨name, picked, rfl⟩ := List.mem_map.mp member
  exact ⟨o.1, List.mem_flatMap.mpr ⟨p, inside, fst_mem_all occurs⟩, picked⟩

theorem ident_mem_of_declared {p : Part} {name : Ident} (declared : name ∈ p.declaredLabels) :
    .ident name ∈ allOf p.children := by
  cases p with
  | statement s =>
      cases s with
      | label node name' =>
          rw [List.mem_singleton.mp declared]
          exact mem_allOf_of_mem List.mem_cons_self
      | _ => cases declared
  | _ => cases declared

theorem ident_mem_of_target {p : Part} {name : Ident} (target : name ∈ p.branchTargets) :
    .ident name ∈ allOf p.children := by
  cases p with
  | statement s =>
      cases s with
      | jump node verb selector targets =>
          refine mem_allOf_of_mem (List.mem_append_right _ ?_)
          exact mem_parts_list.mpr ⟨name, target, List.mem_cons_self⟩
      | _ => cases target
  | option o =>
      obtain ⟨id, key, value, span⟩ := o
      cases value with
      | var node name' =>
          simp only [branchTargets] at target
          split at target
          · rw [List.mem_singleton.mp target]
            refine List.mem_flatMap.mpr ⟨.expr (.var node name'), ?_, ?_⟩
            · exact List.mem_append_right _ List.mem_cons_self
            · exact mem_all_of_mem_children List.mem_cons_self (mem_all_self _)
          · cases target
      | _ => cases target
  | _ => cases target

theorem ident_mem_parts {p : Program} {n : PlacedName}
    (member : n ∈ p.labels ∨ n ∈ p.branches) : .ident n.name ∈ p.parts := by
  rcases member with member | member
  · obtain ⟨q, among, declared⟩ := exists_of_mem_namesIn member
    exact (allOf_children_sublist among).subset (ident_mem_of_declared declared)
  · obtain ⟨q, among, target⟩ := exists_of_mem_namesIn member
    exact (allOf_children_sublist among).subset (ident_mem_of_target target)

end Picked

/-! ## Labels in their scopes -/

/-- The labels of a document, each with the scope it is declared in. -/
structure LabelMap (t : ScopeTree) (document : DocumentId) (labels : List PlacedName)
    (placed : List (ScopeId × PlacedName)) : Prop where
  wellFormed : t.WellFormed
  procedures : t.procedures.Nodup
  names : placed.map (·.2) = labels
  holds : ∀ n ∈ placed, t.Holds n ∧ t.isHoistTarget n.1 = true
  ids : (labels.map (·.name.id)).Nodup
  each : ∀ i name, t.labelsAt i name =
    (placed.filter fun n => n.1 = i ∧ labelKey n.2.name = name).map (labelSymbol document)

theorem procedures_nodup (text : String) :
    ((parse text).program.parts.filterMap procedure?).Nodup := by
  refine (filterMap_sublist (g := id?) (fun p owner opens => ?_) _).nodup (ids_nodup text)
  unfold procedure? at opens
  split at opens <;> cases opens <;> rfl

/-- The labels of a tree are different nodes. -/
theorem labelNodes_nodup (text : String) (document : DocumentId) :
    ((collect document (parse text).program).tree.labels.filterMap (·.node)).Nodup := by
  obtain ⟨used, -⟩ := computeScopes_cites document "" (parse text).program
  have once := Multiset.coe_nodup.mp
    (Multiset.nodup_of_le (Multiset.coe_le.mpr used) (Multiset.coe_nodup.mpr (ids_nodup text)))
  exact (List.filter_sublist.filterMap _).nodup (List.nodup_append'.mp once).2.1

theorem exists_labelMap (text : String) (document : DocumentId) :
    ∃ placed, LabelMap (collect document (parse text).program).tree document
      (parse text).program.labels placed := by
  have adds := adds_collect document (parse text).program
  obtain ⟨placed, names, holds, all, each⟩ := adds.labels
  refine ⟨placed, adds.after, ?_, names, holds, ?_, fun i name => ?_⟩
  · rw [adds.procedures]
    have none : (ScopeTree.ofModule document Program.rootId
        (parse text).program.span).procedures = [] := by
      rfl
    rw [none]
    exact procedures_nodup text
  · have nodes := labelNodes_nodup text document
    rw [all] at nodes
    have same : (placed.map (labelSymbol document)).filterMap (·.node) =
        (parse text).program.labels.map (·.name.id) := by
      rw [← names, List.filterMap_map, List.map_map, ← List.filterMap_eq_map]
      rfl
    rw [← same]
    exact nodes
  · have none : (ScopeTree.ofModule document Program.rootId
        (parse text).program.span).labelsAt i name = [] := by
      cases i <;> rfl
    rw [each, none, List.nil_append]
    rfl

namespace LabelMap

variable {t : ScopeTree} {document : DocumentId} {labels : List PlacedName}
  {placed : List (ScopeId × PlacedName)} {n m : ScopeId × PlacedName}

theorem mem_labels (map : LabelMap t document labels placed) (member : n ∈ placed) :
    n.2 ∈ labels := map.names ▸ List.mem_map_of_mem member

theorem nodes_nodup (map : LabelMap t document labels placed) :
    (placed.map (·.2.name.id)).Nodup := by
  have ids := map.ids
  rwa [← map.names, List.map_map] at ids

/-- A label is told by its node. -/
theorem unique (map : LabelMap t document labels placed) (first : n ∈ placed) (second : m ∈ placed)
    (same : n.2.name.id = m.2.name.id) : n = m :=
  List.inj_on_of_nodup_map map.nodes_nodup first second same

/-- From a place in the procedures around `b`, a label of a name is seen if there is one whose
innermost procedure is among them. -/
theorem seen_iff (map : LabelMap t document labels placed) {i : ScopeId} {b : PlacedName}
    (here : t.Holds (i, b)) (name : String) : (∃ h ∈ t.ancestors i, t.labelsAt h name ≠ []) ↔
      ∃ l ∈ labels, labelKey l.name = name ∧ ∀ p ∈ l.procedures.head?, p ∈ b.procedures := by
  have reaches (n : ScopeId × PlacedName) (member : n ∈ placed) :
      n.1 ∈ t.ancestors i ↔ ∀ p ∈ n.2.procedures.head?, p ∈ b.procedures := by
    obtain ⟨holds, target⟩ := map.holds n member
    rw [ScopeTree.mem_ancestors_iff map.wellFormed map.procedures holds.small target here.small,
      holds.bodies, here.bodies]
  constructor
  · rintro ⟨h, around, some⟩
    obtain ⟨symbol, declared⟩ := List.exists_mem_of_ne_nil _ some
    rw [map.each] at declared
    obtain ⟨n, found, -⟩ := List.mem_map.mp declared
    obtain ⟨member, found⟩ := List.mem_filter.mp found
    obtain ⟨rfl, key⟩ := of_decide_eq_true found
    exact ⟨n.2, map.mem_labels member, key, (reaches n member).mp around⟩
  · rintro ⟨l, listed, key, inside⟩
    rw [← map.names] at listed
    obtain ⟨n, member, rfl⟩ := List.mem_map.mp listed
    refine ⟨n.1, (reaches n member).mpr inside, ?_⟩
    rw [map.each]
    refine List.ne_nil_of_mem (List.mem_map_of_mem (a := n) (List.mem_filter.mpr ⟨member, ?_⟩))
    exact decide_eq_true ⟨rfl, key⟩

/-- Labels share a scope if the innermost procedure around them is the same. -/
theorem scope_eq_iff (map : LabelMap t document labels placed) (first : n ∈ placed)
    (second : m ∈ placed) : n.1 = m.1 ↔ n.2.procedures.head? = m.2.procedures.head? := by
  obtain ⟨holds, target⟩ := map.holds n first
  obtain ⟨holds', target'⟩ := map.holds m second
  rw [ScopeTree.hoistTarget_unique map.wellFormed map.procedures holds.small target holds'.small
    target', holds.bodies, holds'.bodies]

end LabelMap

end BbjAnalysis
