import BbjAnalysis.Proofs.Program.Walk
import Mathlib.Data.List.Basic

/-! # Labels, branch targets and the procedures around them

A part of a program stands in the procedures and methods around it, innermost first. That decides
which labels a branch reaches, and which labels of one name stand in each other's way.
-/

namespace BbjAnalysis

open HasParts BbjAnalysis.Part

namespace Part

/-- The identity of a procedure or method. -/
def procedure? : Part → Option NodeId
  | .statement (.method node _ _) | .statement (.procedure node _ _)
  | .statement (.inlineProcedure node _ _) => some node.id
  | _ => none

/-- The part itself and all that is in it, with the procedures around it. -/
def occurrences (around : List NodeId) (p : Part) : List (Part × List NodeId) :=
  (p, around) ::
    p.children.attach.flatMap fun q => q.1.occurrences (p.procedure?.toList ++ around)
termination_by p.weight
decreasing_by exact weight_lt_of_mem_children q.2

theorem occurrences_eq (around : List NodeId) (p : Part) : p.occurrences around =
    (p, around) :: p.children.flatMap (occurrences (p.procedure?.toList ++ around)) := by
  rw [occurrences, List.flatMap_subtype (fun _ _ => rfl), List.unattach_attach]

/-- The name of a label where it is declared. -/
def declaredLabels : Part → List Ident
  | .statement (.label _ name) => [name]
  | _ => []

/-- The names of labels to go to: the targets of a jump, or a bare variable as the value of an
option that names a branch. -/
def branchTargets : Part → List Ident
  | .statement (.jump _ _ _ targets) => targets
  | .option ⟨_, key, .var _ name, _⟩ =>
      if key.text.toLower ∈ ["err", "end", "dom"] then [name] else []
  | _ => []

end Part

/-- A name with the procedures around it, innermost first. -/
structure PlacedName where
  name : Ident
  procedures : List NodeId
deriving DecidableEq

namespace PlacedName

/-- One name in any letter case. -/
def SameName (a b : PlacedName) : Prop := a.name.text.toLower = b.name.text.toLower

/-- A label is reached by the branches to its name in the innermost procedure around it, or from
everywhere if it stands in no procedure. -/
def IsReachedBy (label branch : PlacedName) : Prop :=
  label.SameName branch ∧ ∀ p ∈ label.procedures.head?, p ∈ branch.procedures

/-- Two labels of one name are rivals if the innermost procedure around them is the same, or if both
stand in none. -/
def IsRivalOf (a b : PlacedName) : Prop :=
  a.SameName b ∧ a.procedures.head? = b.procedures.head?

instance (a b : PlacedName) : Decidable (a.SameName b) :=
  inferInstanceAs (Decidable (_ = _))

instance (a b : PlacedName) : Decidable (a.IsReachedBy b) :=
  inferInstanceAs (Decidable (_ ∧ _))

instance (a b : PlacedName) : Decidable (a.IsRivalOf b) :=
  inferInstanceAs (Decidable (_ ∧ _))

theorem IsRivalOf.refl (a : PlacedName) : a.IsRivalOf a := ⟨rfl, rfl⟩

end PlacedName

/-- The names that are picked from several parts and from all that is in them. -/
def namesIn (pick : Part → List Ident) (around : List NodeId) (ps : List Part) :
    List PlacedName :=
  (ps.flatMap (occurrences around)).flatMap fun o => (pick o.1).map (⟨·, o.2⟩)

/-- All labels of a program. -/
def Program.labels (p : Program) : List PlacedName :=
  namesIn declaredLabels [] (HasParts.parts p.statements)

/-- All branch targets of a program. -/
def Program.branches (p : Program) : List PlacedName :=
  namesIn branchTargets [] (HasParts.parts p.statements)

section NamesIn

variable (pick : Part → List Ident) (around : List NodeId)

@[simp] theorem namesIn_nil : namesIn pick around [] = [] := rfl

@[simp] theorem namesIn_append (ps qs : List Part) :
    namesIn pick around (ps ++ qs) = namesIn pick around ps ++ namesIn pick around qs := by
  rw [namesIn, List.flatMap_append, List.flatMap_append, namesIn, namesIn]

theorem namesIn_flatMap (ps : List Part) :
    namesIn pick around ps = ps.flatMap fun p => namesIn pick around [p] := by
  induction ps with
  | nil => rfl
  | cons p ps ih => rw [← List.singleton_append, namesIn_append, ih, List.flatMap_append,
      List.flatMap_singleton]

theorem namesIn_singleton (p : Part) : namesIn pick around [p] =
    (pick p).map (⟨·, around⟩) ++ namesIn pick (p.procedure?.toList ++ around) p.children := by
  rw [namesIn, List.flatMap_singleton, occurrences_eq, List.flatMap_cons, namesIn]

theorem occurrences_plain {p : Part} (plain : ∀ s, p ≠ .statement s) :
    p.occurrences around = p.all.map (·, around) := by
  have outside : p.procedure?.toList ++ around = around := by
    cases p with
    | statement s => exact absurd rfl (plain s)
    | _ => rfl
  rw [occurrences_eq, all_eq, List.map_cons, List.map_flatMap, outside]
  congr 1
  apply List.flatMap_congr
  intro q child
  have smaller := weight_lt_of_mem_children child
  exact occurrences_plain fun s same => children_plain plain s (same ▸ child)
termination_by p.weight

/-- No procedure is in what is no statement. -/
theorem namesIn_plain {ps : List Part} (plain : ∀ s, .statement s ∉ ps) :
    namesIn pick around ps = ((allOf ps).flatMap pick).map (⟨·, around⟩) := by
  have all : ps.flatMap (occurrences around) = (allOf ps).map (·, around) := by
    rw [allOf, List.map_flatMap]
    apply List.flatMap_congr
    exact fun p member => occurrences_plain around fun s same => plain s (same ▸ member)
  rw [namesIn, all, List.flatMap_map, List.map_flatMap]

theorem declaredLabels_plain {ps : List Part} (plain : ∀ s, .statement s ∉ ps) :
    namesIn declaredLabels around ps = [] := by
  rw [namesIn_plain declaredLabels around plain, List.map_eq_nil_iff, List.flatMap_eq_nil_iff]
  intro q member
  cases q with
  | statement s => exact absurd member (statement_not_mem_allOf plain s)
  | _ => rfl

theorem picked_procedure_plain {ps : List Part} (plain : ∀ s, .statement s ∉ ps) :
    picked procedure? ps = [] := by
  rw [picked, List.filterMap_eq_nil_iff]
  intro q member
  cases q with
  | statement s => exact absurd member (statement_not_mem_allOf plain s)
  | _ => rfl

end NamesIn

/-! ## The order of labels -/

/-- A label lies in each part that it is in. -/
theorem label_within {around : List NodeId} {p : Part} (neat : ∀ q ∈ p.all, q.Neat)
    {l : PlacedName} (member : l ∈ namesIn declaredLabels around [p]) {n : Node}
    (node : p.node? = some n) :
    n.span.start ≤ l.name.span.start ∧ l.name.span.stop ≤ n.span.stop := by
  rw [namesIn_singleton, List.mem_append] at member
  have own := neat p (mem_all_self p)
  rcases member with member | member
  · obtain ⟨name, declared, rfl⟩ := List.mem_map.mp member
    cases p with
    | statement s =>
        cases s with
        | label node' name' =>
            cases List.mem_singleton.mp declared
            exact own.inside (.ident name) List.mem_cons_self _ rfl n node
        | _ => cases declared
    | _ => cases declared
  · rw [namesIn_flatMap] at member
    obtain ⟨q, child, member⟩ := List.mem_flatMap.mp member
    have smaller := weight_lt_of_mem_children child
    have inside : ∀ r ∈ q.all, r.Neat := fun r among =>
      neat r (mem_all_of_mem_children child among)
    cases q with
    | statement s =>
        have within := label_within inside member rfl
        have place := own.inside (.statement s) child _ rfl n node
        exact ⟨Nat.le_trans place.1 within.1, Nat.le_trans within.2 place.2⟩
    | _ =>
        rw [declaredLabels_plain _ (by simp)] at member
        cases member
termination_by p.weight

/-- Labels follow one another, in the order of the text. -/
def InOrder (labels : List PlacedName) : Prop :=
  labels.Pairwise fun l m => l.name.span.stop ≤ m.name.span.start

theorem inOrder_of_each {around : List NodeId} {ps : List Part} (neat : ∀ q ∈ allOf ps, q.Neat)
    (beside : ps.Pairwise Beside) (each : ∀ p ∈ ps, InOrder (namesIn declaredLabels around [p])) :
    InOrder (namesIn declaredLabels around ps) := by
  rw [InOrder, namesIn_flatMap, List.pairwise_flatMap]
  refine ⟨each, beside.imp_of_mem fun {p q} here there beside l first m second => ?_⟩
  have insideOf {p : Part} (member : p ∈ ps) : ∀ r ∈ p.all, r.Neat := fun r among =>
    neat r (List.mem_flatMap.mpr ⟨p, member, among⟩)
  -- labels are in statements alone, and statements follow one another
  cases p with
  | statement s =>
      cases q with
      | statement s' =>
          have first := label_within (insideOf here) first rfl
          have second := label_within (insideOf there) second rfl
          exact Nat.le_trans first.2 (Nat.le_trans beside second.1)
      | _ =>
          rw [declaredLabels_plain _ (by simp)] at second
          cases second
  | _ =>
      rw [declaredLabels_plain _ (by simp)] at first
      cases first

theorem inOrder_singleton {around : List NodeId} {p : Part} (neat : ∀ q ∈ p.all, q.Neat) :
    InOrder (namesIn declaredLabels around [p]) := by
  have own := neat p (mem_all_self p)
  have inside : ∀ q ∈ allOf p.children, q.Neat := fun q member =>
    neat q ((allOf_children_sublist_all p).subset member)
  have children : InOrder (namesIn declaredLabels (p.procedure?.toList ++ around) p.children) := by
    refine inOrder_of_each inside own.beside fun q child => ?_
    have smaller := weight_lt_of_mem_children child
    exact inOrder_singleton fun r among => inside r (List.mem_flatMap.mpr ⟨q, child, among⟩)
  rw [namesIn_singleton]
  cases p with
  | statement s =>
      cases s with
      | label node name =>
          show InOrder ([⟨name, around⟩] ++ namesIn declaredLabels around (parts name))
          rw [declaredLabels_plain _ (by simp), List.append_nil]
          exact List.pairwise_singleton _ _
      | _ => exact children
  | _ => exact children
termination_by p.weight

/-- Labels are listed in the order of the text. -/
theorem inOrder_labels {around : List NodeId} {ps : List Part} (neat : ∀ q ∈ allOf ps, q.Neat)
    (beside : ps.Pairwise Beside) : InOrder (namesIn declaredLabels around ps) :=
  inOrder_of_each neat beside fun p member =>
    inOrder_singleton fun q among => neat q (List.mem_flatMap.mpr ⟨p, member, among⟩)

end BbjAnalysis
