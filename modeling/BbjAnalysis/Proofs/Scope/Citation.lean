import BbjAnalysis.Proofs.Program.Soundness
import BbjAnalysis.Proofs.Scope.Walk
import Mathlib.Data.Multiset.AddSub

/-! # Each name is noted once

The walk over a program comes to every part at most once, and notes the identity of each name at
most once, as that of a reference or of a declaration. It does not keep to the order of the text:
the value of an assignment comes before its target, the types of a class before its name. So
identities are counted (`Cites`), and that no two parts have one identity (`ids_nodup`) makes
the references different (`references_apart`).
-/

namespace BbjAnalysis

open HasParts BbjAnalysis.Part

/-- The identities of all references and of all declarations. -/
def Findings.used (f : Findings) : Multiset NodeId :=
  ↑(f.references.map (·.node)) + ↑(f.tree.symbols.toList.filterMap (·.node))

/-- What is found between `f` and `g` is found in the given parts: no identity is used more often
than there are parts with it, and a reference has the identity and the span of a name. -/
structure Cites (ps : List Part) (f g : Findings) : Prop where
  used : g.used ≤ f.used + ↑(picked id? ps)
  named : ∀ site ∈ g.references, site ∈ f.references ∨
    ⟨site.node, site.span⟩ ∈ picked name? ps

namespace Cites

variable {f g h : Findings} {ps qs : List Part}

theorem append (first : Cites ps f g) (second : Cites qs g h) : Cites (ps ++ qs) f h where
  used := by
    rw [picked_append, ← Multiset.coe_add, ← Multiset.add_assoc]
    exact second.used.trans (Multiset.add_le_add_right first.used)
  named site member := by
    rw [picked_append, List.mem_append]
    rcases second.named site member with earlier | later
    · exact (first.named site earlier).imp_right .inl
    · exact .inr (.inr later)

theorem perm (cites : Cites ps f g) (same : ps.Perm qs) : Cites qs f g where
  used := by
    have ids : (picked id? ps).Perm (picked id? qs) := (allOf_perm same).filterMap _
    rw [← Multiset.coe_eq_coe.mpr ids]
    exact cites.used
  named site member := by
    have names : (picked name? ps).Perm (picked name? qs) := (allOf_perm same).filterMap _
    exact (cites.named site member).imp_right names.mem_iff.mp

/-- What is found in the children of a part is found in the part. -/
theorem inside {p : Part} (cites : Cites p.children f g) : Cites [p] f g where
  used := by
    rw [picked_cons, picked_nil, List.append_nil, ← Multiset.coe_add]
    refine cites.used.trans (Multiset.add_le_add_left ?_)
    exact Multiset.le_add_left _ _
  named site member := by
    rw [picked_cons, picked_nil, List.append_nil, List.mem_append]
    exact (cites.named site member).imp_right .inr

end Cites

/-! ## Steps of the walk -/

section Steps

variable {scope : ScopeId} {span : Span} {f g : Findings} {ps : List Part}

/-- Names have identities of parts. -/
theorem names_sublist_ids (ps : List Part) :
    ((picked name? ps).map Node.id).Sublist (picked id? ps) := by
  have ids : (picked name? ps).map Node.id =
      (allOf ps).filterMap fun p => p.name?.map Node.id := List.map_filterMap
  rw [ids]
  refine filterMap_sublist (fun p n given => ?_) _
  obtain ⟨m, named, rfl⟩ := Option.map_eq_some_iff.mp given
  exact id?_of_name? named

theorem Mentions.cites (mentions : Mentions scope ps f g) : Cites ps f g := by
  obtain ⟨sites, references, -, names⟩ := mentions.noted
  constructor
  · have nodes : (sites.map (·.node)).Subperm (picked id? ps) := by
      obtain ⟨among, same, sublist⟩ := names
      have mapped := same.map Node.id
      rw [List.map_map] at mapped
      exact ⟨among.map Node.id, mapped, (sublist.map Node.id).trans (names_sublist_ids ps)⟩
    have once : g.used = f.used + ↑(sites.map (·.node)) := by
      rw [Findings.used, Findings.used, references, mentions.tree, List.map_append,
        ← Multiset.coe_add, Multiset.add_assoc, Multiset.add_assoc]
      exact congrArg _ (Multiset.add_comm _ _)
    rw [once]
    exact Multiset.add_le_add_left (Multiset.coe_le.mpr nodes)
  · intro site member
    rw [references, List.mem_append] at member
    exact member.imp_right fun inside => names.subset (List.mem_map_of_mem inside)

theorem picked_id_singleton {p : Part} {n : NodeId} (given : p.id? = some n) :
    (↑(picked id? [p]) : Multiset NodeId) = {n} + ↑(picked id? p.children) := by
  rw [picked_cons, given, picked_nil, List.append_nil, Option.toList_some, ← Multiset.coe_add]
  rfl

/-- A part declares something when all in it was noted. -/
theorem cites_declare {p : Part} (cites : Cites p.children f g) (scope : ScopeId)
    (raw : String) (kind : SymbolKind) {node : NodeId} (given : p.id? = some node) (span : Span)
    (exported : Bool) (detail : Option String) :
    Cites [p] f (g.declare scope raw kind node span exported detail) where
  used := by
    have once : (g.declare scope raw kind node span exported detail).used = g.used + {node} := by
      simp [Findings.used, Findings.declare, ScopeTree.declare, Symbol.node, ← Multiset.coe_add,
        Multiset.add_assoc]
    rw [once, picked_id_singleton given, Multiset.add_comm {node}, ← Multiset.add_assoc]
    exact Multiset.add_le_add_right cites.used
  named := cites.inside.named

theorem Walk.cites (walk : Walk span scope ps f g) : Cites ps f g := by
  induction walk with
  | mention mentions => exact mentions.cites
  | @declare _ _ _ p n i _ _ _ _ _ node id _ _ _ mentions =>
      have given : p.id? = some i.id := by
        rw [← id]
        cases p <;> simp_all [id?, node?]
      exact cites_declare mentions.cites _ _ _ given _ _ _
  | append _ _ first second => exact first.append second
  | swap _ _ ih => exact ih.perm List.perm_append_comm
  | inside _ _ _ ih => exact ih.inside
  | opening _ _ ih => exact ⟨ih.used, ih.named⟩

end Steps

/-! ## Programs -/

/-- The identities of references and of declarations are among those of the parts, none of them
more often than there. References are names of the program. -/
theorem computeScopes_cites (document : DocumentId) (uri : String) (p : Program) :
    let scopes := computeScopes document uri p
    (scopes.references.map (·.node) ++ scopes.tree.symbols.toList.filterMap (·.node)).Subperm
        (p.parts.filterMap id?) ∧
      ∀ site ∈ scopes.references, ⟨site.node, site.span⟩ ∈ p.parts.filterMap name? := by
  have cites := (walk_collect document p).cites
  constructor
  · have used : (collect document p).used ≤ 0 + ↑(picked id? (parts p.statements)) := cites.used
    rw [Multiset.zero_add, Findings.used, Multiset.coe_add, Multiset.coe_le] at used
    exact used
  · intro site member
    rcases cites.named site member with none | named
    · cases none
    · exact named

/-- Two references neither are one node nor overlap, and no reference is the name of a
declaration. -/
theorem references_apart (text : String) (document : DocumentId) (uri : String) :
    let scopes := computeScopes document uri (parse text).program
    (scopes.references.map (·.node)).Nodup ∧
      scopes.references.Pairwise (fun x y =>
        x.span.stop ≤ y.span.start ∨ y.span.stop ≤ x.span.start) ∧
      ∀ site ∈ scopes.references, ∀ symbol ∈ scopes.tree.symbols,
        symbol.node ≠ some site.node := by
  intro scopes
  obtain ⟨used, named⟩ := computeScopes_cites document uri (parse text).program
  have once := Multiset.coe_nodup.mp
    (Multiset.nodup_of_le (Multiset.coe_le.mpr used) (Multiset.coe_nodup.mpr (ids_nodup text)))
  obtain ⟨references, -, disjoint⟩ := List.nodup_append'.mp once
  refine ⟨references, ?_, ?_⟩
  · have different := List.pairwise_map.mp references
    have symmetric : Std.Symm fun m n : Node =>
        m.span.stop ≤ n.span.start ∨ n.span.stop ≤ m.span.start := ⟨fun _ _ => Or.symm⟩
    refine different.imp_of_mem ?_
    intro x y here there other
    exact (names_disjoint text).forall (named x here) (named y there) fun same =>
      other (congrArg Node.id same)
  · intro site member symbol declared same
    refine disjoint (List.mem_map_of_mem member) (List.mem_filterMap.mpr ⟨symbol, ?_, same⟩)
    exact Array.mem_def.mp declared

end BbjAnalysis
