import BbjAnalysis.Link.Linking
import BbjAnalysis.Proofs.Diagnostic.Listing
import BbjAnalysis.Proofs.Ordered.Map
import BbjAnalysis.Proofs.Scope.Citation

/-! # What comes of each reference

Every reference of a document has one outcome: it is bound, or ambiguous, or unresolved
(`link_computeScopes`). Since no two references are one node, no outcome replaces another one, and
no two reports are equal, so that all of them are listed.

What was noted for the references so far is kept by each further reference (`Links.Noted.note`), and
so for all of them (`Links.link_noted`).
-/

namespace BbjAnalysis

/-! ## Reports -/

namespace Links

/-- What is to be reported of a reference: that it is ambiguous (`E0002`), or that it is unresolved.
Of dotted names this is only reported on request (`E0003`), of others (`E0001`) if they are names of
functions or classes, or of fields that cannot be inherited. -/
def report (l : Links) (ctx : LinkContext) (reportJava : Bool) (site : ReferenceSite) :
    Option Diagnostic :=
  match l.ambiguous.get? site.node with
  | some symbols =>
      some (.ambiguous ctx.document site.node site.span site.text symbols ctx.index.uriOf)
  | none =>
      if site.node ∈ l.unresolved then
        match site.kind with
        | .procedure | .type | .classImport _ | .field false =>
            some (.unresolved ctx.document site.node site.span site.kind.display site.text)
        | .javaClass =>
            if reportJava then
              some (.unknownJavaName ctx.document site.node site.span site.text)
            else none
        | .variable | .label | .field true => none
      else none

variable {l : Links} {ctx : LinkContext} {reportJava : Bool} {site : ReferenceSite}

theorem report_of_ambiguous {symbols : List Symbol}
    (ambiguous : l.ambiguous.get? site.node = some symbols) :
    l.report ctx reportJava site = some (.ambiguous ctx.document site.node site.span site.text
      symbols ctx.index.uriOf) := by
  simp only [report, ambiguous]

theorem report_of_resolved (unambiguous : l.ambiguous.get? site.node = none)
    (resolved : site.node ∉ l.unresolved) : l.report ctx reportJava site = none := by
  simp only [report, unambiguous, resolved, if_false]

theorem report_of_unresolved (unambiguous : l.ambiguous.get? site.node = none)
    (unresolved : site.node ∈ l.unresolved) :
    l.report ctx reportJava site = unresolvedDiagnostic ctx.document reportJava site := by
  simp only [report, unambiguous, unresolved, unresolvedDiagnostic]
  cases site.kind with
  | field classHasSupertype => cases classHasSupertype <;> rfl
  | _ => rfl

theorem node_of_unresolvedDiagnostic {document : DocumentId} {d : Diagnostic}
    (reported : unresolvedDiagnostic document reportJava site = some d) : d.node = site.node := by
  unfold unresolvedDiagnostic at reported
  split at reported
  · cases reported
  · cases reported
  · cases reported
  · split at reported
    · cases reported
      rfl
    · cases reported
  · cases reported
    rfl

theorem node_of_report {d : Diagnostic} (reported : l.report ctx reportJava site = some d) :
    d.node = site.node := by
  cases ambiguous : l.ambiguous.get? site.node with
  | some symbols =>
      rw [report_of_ambiguous ambiguous] at reported
      cases reported
      rfl
  | none =>
      by_cases unresolved : site.node ∈ l.unresolved
      · rw [report_of_unresolved ambiguous unresolved] at reported
        exact node_of_unresolvedDiagnostic reported
      · rw [report_of_resolved ambiguous unresolved] at reported
        cases reported

/-! ## One reference after the other -/

/-- What was noted for the given references: one outcome for each, what is to be reported for it,
and the other documents that bindings point into. -/
structure Noted (ctx : LinkContext) (reportJava : Bool) (sites : List ReferenceSite) (l : Links) :
    Prop where
  keys : (l.bindings.keys ++ (l.unresolved.toList ++ l.ambiguous.keys)).Perm
    (sites.map (·.node))
  diagnostics : l.diagnostics = sites.filterMap (l.report ctx reportJava)
  documents : ∀ d, d ∈ l.boundDocuments ↔ d ≠ ctx.document ∧ ∃ node symbol,
    l.bindings.get? node = some symbol ∧ symbol.document = some d

namespace Noted

variable {sites : List ReferenceSite}

theorem empty : Noted ctx reportJava [] Links.empty where
  keys := .nil
  diagnostics := rfl
  documents d := by
    constructor
    · intro member
      cases member
    · rintro ⟨-, node, symbol, bound, -⟩
      cases bound

theorem consult (noted : Noted ctx reportJava sites l) (name : String) :
    Noted ctx reportJava sites (l.consult name) :=
  ⟨noted.keys, noted.diagnostics, noted.documents⟩

/-- Nothing is noted of a new node. -/
theorem free (noted : Noted ctx reportJava sites l) {node : NodeId}
    (fresh : node ∉ sites.map (·.node)) :
    l.bindings.get? node = none ∧ node ∉ l.unresolved ∧ l.ambiguous.get? node = none := by
  rw [← noted.keys.mem_iff, List.mem_append, List.mem_append, not_or, not_or,
    OrderedMap.mem_keys, OrderedMap.mem_keys] at fresh
  obtain ⟨bindings, unresolved, ambiguous⟩ := fresh
  exact ⟨by simpa [Option.eq_none_iff_forall_ne_some] using bindings, unresolved,
    by simpa [Option.eq_none_iff_forall_ne_some] using ambiguous⟩

/-- One more node has an outcome. -/
theorem keys_append {l' : Links} (noted : Noted ctx reportJava sites l)
    (keys : (l'.bindings.keys ++ (l'.unresolved.toList ++ l'.ambiguous.keys)).Perm
      (site.node :: (l.bindings.keys ++ (l.unresolved.toList ++ l.ambiguous.keys)))) :
    (l'.bindings.keys ++ (l'.unresolved.toList ++ l'.ambiguous.keys)).Perm
      ((sites ++ [site]).map (·.node)) := by
  rw [List.map_append]
  exact keys.trans ((noted.keys.cons site.node).trans (List.perm_append_singleton _ _).symm)

/-- What is reported of earlier references stays as it is. -/
theorem diagnostics_append {l' : Links} (noted : Noted ctx reportJava sites l)
    (same : ∀ node, node ≠ site.node → l'.ambiguous.get? node = l.ambiguous.get? node ∧
      (node ∈ l'.unresolved ↔ node ∈ l.unresolved))
    (fresh : site.node ∉ sites.map (·.node))
    (diagnostics : l'.diagnostics = l.diagnostics ++ (l'.report ctx reportJava site).toList) :
    l'.diagnostics = (sites ++ [site]).filterMap (l'.report ctx reportJava) := by
  have others : sites.filterMap (l'.report ctx reportJava) =
      sites.filterMap (l.report ctx reportJava) := by
    apply List.filterMap_congr
    intro other member
    have different : other.node ≠ site.node := by
      intro same
      exact fresh (List.mem_map.mpr ⟨other, member, same⟩)
    obtain ⟨ambiguous, unresolved⟩ := same other.node different
    simp only [report, ambiguous, unresolved]
  rw [List.filterMap_append, others, ← noted.diagnostics, diagnostics, List.filterMap_cons]
  cases l'.report ctx reportJava site <;> rfl

/-- The documents that bindings point into, when one more is bound. -/
theorem points_insert (noted : Noted ctx reportJava sites l)
    (fresh : site.node ∉ sites.map (·.node)) (symbol : Symbol) (d : DocumentId) :
    (∃ node s, (l.bindings.insert site.node symbol).get? node = some s ∧ s.document = some d) ↔
      symbol.document = some d ∨
        ∃ node s, l.bindings.get? node = some s ∧ s.document = some d := by
  simp only [OrderedMap.get?_insert]
  constructor
  · rintro ⟨node, s, bound, points⟩
    split at bound
    · cases bound
      exact .inl points
    · exact .inr ⟨node, s, bound, points⟩
  · rintro (points | ⟨node, s, bound, points⟩)
    · exact ⟨site.node, symbol, if_pos rfl, points⟩
    · have other : node ≠ site.node := by
        rintro rfl
        rw [(noted.free fresh).1] at bound
        cases bound
      exact ⟨node, s, (if_neg other).trans bound, points⟩

theorem bound (noted : Noted ctx reportJava sites l) (fresh : site.node ∉ sites.map (·.node))
    (symbol : Symbol) :
    Noted ctx reportJava (sites ++ [site]) (l.note ctx reportJava site (.bound symbol)) where
  keys := by
    obtain ⟨unbound, -, -⟩ := noted.free fresh
    exact noted.keys_append ((OrderedMap.keys_insert unbound symbol).append_right _)
  diagnostics := by
    obtain ⟨-, resolved, unambiguous⟩ := noted.free fresh
    have silent : (l.note ctx reportJava site (.bound symbol)).report ctx reportJava site = none :=
      report_of_resolved unambiguous resolved
    refine noted.diagnostics_append (fun _ _ => ⟨rfl, Iff.rfl⟩) fresh ?_
    rw [silent]
    exact (List.append_nil _).symm
  documents d := by
    show _ ↔ _ ∧ ∃ node s, (l.bindings.insert site.node symbol).get? node = some s ∧ _
    rw [noted.points_insert fresh, and_or_left, ← noted.documents]
    simp only [Links.note]
    cases symbol.document with
    | none => simp
    | some e =>
        by_cases own : e = ctx.document
        · simp only [own, if_true]
          constructor
          · exact .inr
          · rintro (⟨other, same⟩ | member)
            · exact absurd (Option.some.inj same).symm other
            · exact member
        · simp only [own, if_false, OrderedSet.mem_insert]
          constructor
          · rintro (rfl | member)
            · exact .inl ⟨own, rfl⟩
            · exact .inr member
          · rintro (⟨-, same⟩ | member)
            · exact .inl (Option.some.inj same).symm
            · exact .inr member

theorem ambiguous (noted : Noted ctx reportJava sites l) (fresh : site.node ∉ sites.map (·.node))
    (symbols : List Symbol) :
    Noted ctx reportJava (sites ++ [site]) (l.note ctx reportJava site (.ambiguous symbols)) where
  keys := by
    obtain ⟨-, -, unambiguous⟩ := noted.free fresh
    have keys := ((OrderedMap.keys_insert unambiguous symbols).append_left
      l.unresolved.toList).trans List.perm_middle
    exact noted.keys_append ((keys.append_left _).trans List.perm_middle)
  diagnostics := by
    have reported : (l.note ctx reportJava site (.ambiguous symbols)).report ctx reportJava site =
        some (.ambiguous ctx.document site.node site.span site.text symbols ctx.index.uriOf) :=
      report_of_ambiguous ((OrderedMap.get?_insert _ _ _ _).trans (if_pos rfl))
    refine noted.diagnostics_append ?_ fresh ?_
    · intro node other
      exact ⟨(OrderedMap.get?_insert _ _ _ _).trans (if_neg other), Iff.rfl⟩
    · rw [reported]
      rfl
  documents := noted.documents

theorem unresolved (noted : Noted ctx reportJava sites l) (fresh : site.node ∉ sites.map (·.node)) :
    Noted ctx reportJava (sites ++ [site]) (l.note ctx reportJava site .unresolved) where
  keys := by
    obtain ⟨-, resolved, -⟩ := noted.free fresh
    have keys := (OrderedSet.perm_insert resolved).append_right l.ambiguous.keys
    exact noted.keys_append ((keys.append_left _).trans List.perm_middle)
  diagnostics := by
    obtain ⟨-, -, unambiguous⟩ := noted.free fresh
    have reported : (l.note ctx reportJava site .unresolved).report ctx reportJava site =
        unresolvedDiagnostic ctx.document reportJava site :=
      report_of_unresolved unambiguous (OrderedSet.mem_insert.mpr (.inl rfl))
    refine noted.diagnostics_append ?_ fresh ?_
    · intro node other
      exact ⟨rfl, OrderedSet.mem_insert.trans (or_iff_right other)⟩
    · rw [reported]
      rfl
  documents := noted.documents

theorem note (noted : Noted ctx reportJava sites l) (fresh : site.node ∉ sites.map (·.node))
    (outcome : LinkOutcome) :
    Noted ctx reportJava (sites ++ [site]) (l.note ctx reportJava site outcome) := by
  cases outcome with
  | bound symbol => exact noted.bound fresh symbol
  | ambiguous symbols => exact noted.ambiguous fresh symbols
  | unresolved => exact noted.unresolved fresh

theorem linkSite (noted : Noted ctx reportJava sites l) (fresh : site.node ∉ sites.map (·.node))
    (r : Java.Resolver) :
    Noted ctx reportJava (sites ++ [site]) (Links.linkSite ctx reportJava (l, r) site).1 := by
  cases found : ctx.candidates r site with
  | mk candidates asked =>
      simp only [Links.linkSite, found]
      split
      · exact (noted.consult site.name).note fresh candidates.outcome
      · exact noted.note fresh candidates.outcome

theorem foldl {more : List ReferenceSite} (noted : Noted ctx reportJava sites l)
    (distinct : ((sites ++ more).map (·.node)).Nodup) (r : Java.Resolver) :
    Noted ctx reportJava (sites ++ more)
      (more.foldl (Links.linkSite ctx reportJava) (l, r)).1 := by
  induction more generalizing sites l r with
  | nil =>
      rw [List.append_nil]
      exact noted
  | cons site more ih =>
      rw [← List.singleton_append, ← List.append_assoc] at distinct ⊢
      have fresh : site.node ∉ sites.map (·.node) := by
        rw [List.map_append, List.map_append] at distinct
        have first := (List.nodup_append'.mp distinct).1
        intro member
        exact (List.nodup_append'.mp first).2.2 member List.mem_cons_self
      exact ih (noted.linkSite fresh r) distinct _

end Noted

/-! ## All references -/

/-- Each of several references with different nodes has one outcome, and all that is to be reported
is. -/
theorem link_noted (ctx : LinkContext) (reportJava : Bool) (r : Java.Resolver)
    {sites : List ReferenceSite} (distinct : (sites.map (·.node)).Nodup) :
    let l := (link ctx reportJava r sites).1
    (l.bindings.keys ++ (l.unresolved.toList ++ l.ambiguous.keys)).Perm (sites.map (·.node)) ∧
      l.diagnostics.Perm (sites.filterMap (l.report ctx reportJava)) ∧
      ∀ d, d ∈ l.boundDocuments ↔ d ≠ ctx.document ∧ ∃ node symbol,
        l.bindings.get? node = some symbol ∧ symbol.document = some d := by
  intro l
  have start : Noted ctx reportJava [] Links.empty := .empty
  have noted := start.foldl distinct r
  refine ⟨noted.keys, ?_, noted.documents⟩
  have once : (sites.filterMap (l.report ctx reportJava)).Nodup := by
    refine (List.pairwise_map.mp distinct).filterMap _ ?_
    rintro site site' different d reported _ reported' rfl
    exact different ((node_of_report reported).symm.trans (node_of_report reported'))
  have listed : l.diagnostics = Diagnostic.finish (sites.filterMap (l.report ctx reportJava)) :=
    congrArg Diagnostic.finish noted.diagnostics
  rw [listed]
  exact Diagnostic.finish_perm once

end Links

/-- No two references of a document are one node or overlap, and none is a declaration. Each of them
is bound, unresolved or ambiguous, and only one of the three. Reported is what `Links.report` says
of each, and nothing else. The documents that bindings point into are listed, but for the document
itself. -/
theorem link_computeScopes (text : String) (document : DocumentId) (uri : String)
    (index : WorkspaceIndex) (packages : List String) (resolver : Java.Resolver)
    (reportJava : Bool) :
    let scopes := computeScopes document uri (parse text).program
    let ctx : LinkContext := ⟨document, scopes.tree, scopes.exports, index, packages⟩
    let l := (Links.link ctx reportJava resolver scopes.references).1
    ((scopes.references.map (·.node)).Nodup ∧
      scopes.references.Pairwise (fun x y =>
        x.span.stop ≤ y.span.start ∨ y.span.stop ≤ x.span.start) ∧
      ∀ site ∈ scopes.references, ∀ symbol ∈ scopes.tree.symbols,
        symbol.node ≠ some site.node) ∧
    ((l.bindings.keys ++ (l.unresolved.toList ++ l.ambiguous.keys)).Perm
        (scopes.references.map (·.node)) ∧
      l.bindings.size + l.unresolved.size + l.ambiguous.size = scopes.references.length) ∧
    l.diagnostics.Perm (scopes.references.filterMap (l.report ctx reportJava)) ∧
    ∀ d, d ∈ l.boundDocuments ↔ d ≠ document ∧ ∃ node symbol,
      l.bindings.get? node = some symbol ∧ symbol.document = some d := by
  intro scopes ctx l
  have apart := references_apart text document uri
  obtain ⟨keys, diagnostics, documents⟩ := Links.link_noted ctx reportJava resolver apart.1
  refine ⟨apart, ⟨keys, ?_⟩, diagnostics, documents⟩
  have sizes := keys.length_eq
  simp only [List.length_append, List.length_map, OrderedMap.keys] at sizes
  rw [OrderedMap.size, OrderedSet.size, OrderedMap.size, Nat.add_assoc]
  exact sizes

end BbjAnalysis
