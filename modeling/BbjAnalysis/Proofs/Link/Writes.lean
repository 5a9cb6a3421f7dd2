import BbjAnalysis.Proofs.Link.Meaning
import BbjAnalysis.Proofs.Scope.Implicit

/-! # What writes of variables are bound to

The walk lets a write declare its variable if it sees none up to the nearest procedure, and the
linker looks for variables up to the nearest procedure. Since nothing that was declared goes away, a
write that is a reference finds what the walk saw, or something nearer that was declared later, and
so is bound within its procedure in every workspace (`Links.link_writes`).
-/

namespace BbjAnalysis

/-- The scopes in which a variable is looked for lie in the same procedures. -/
theorem ScopeTree.bodies_of_mem_searched {t : ScopeTree} (wf : t.WellFormed) {i j : ScopeId}
    (small : i < t.scopes.size) (member : j ∈ t.searched .variable (t.ancestors i)) :
    t.bodies j = t.bodies i := by
  obtain rfl | ⟨s, p, found, plain, parent, before⟩ := wf.eq_zero_or small
  · rw [ancestors_zero wf] at member
    simp only [searched, ReferenceKind.looksInto, if_true, ite_self, List.mem_singleton] at member
    rw [member]
  · rw [ancestors_eq_cons wf found parent before] at member
    have kind : (t.kindOf i).getD .module = s.kind := by rw [kindOf, found]; rfl
    simp only [searched, ReferenceKind.looksInto, if_true, List.mem_cons, kind] at member
    rcases member with rfl | member
    · rfl
    · split at member
      · cases member
      · next goesOn =>
        have none : s.procedure? = none :=
          if_neg fun procedure => goesOn (by rw [procedure]; rfl)
        rw [bodies_eq_append wf found parent before, none,
          bodies_of_mem_searched wf (Nat.lt_trans before small) member]
        rfl
termination_by i

namespace LinkContext

variable (ctx : LinkContext) {site : ReferenceSite}

/-- A variable that a scope up to the procedure around a reference has is found there, or something
nearer is. -/
theorem candidates_of_variable (kind : site.kind = .variable) {i : ScopeId} {x : Symbol}
    (near : i ∈ ctx.tree.upToHoistTarget (ctx.tree.ancestors site.scope))
    (listed : x ∈ ctx.tree.lookupLocal i site.name) (isVariable : x.kind = .variable)
    (r : Java.Resolver) : ∃ first, (ctx.candidates r site).1.source = some .lexical ∧
      (ctx.candidates r site).1.outcome = .bound first ∧
      ∃ j ∈ ctx.tree.searched .variable (ctx.tree.ancestors site.scope),
        first ∈ ctx.tree.lookupLocal j site.name := by
  have starts : site.kind.startsInDocument = true := by rw [kind]; rfl
  have searched : i ∈ ctx.tree.searched site.kind (ctx.tree.ancestors site.scope) := by
    rw [kind]
    exact ctx.tree.mem_searched_variable near
  have legal : x ∈ ctx.legalIn site i := by
    refine List.mem_filter.mpr ⟨listed, ?_⟩
    rw [ReferenceSite.accepts, kind, isVariable]
    rfl
  have found : ctx.lexical site ≠ [] := fun none =>
    List.ne_nil_of_mem legal (lexicalIn_eq_nil.mp none i searched)
  rw [candidates_of_startsInDocument starts, if_pos found]
  cases all : ctx.lexical site with
  | nil => exact absurd all found
  | cons first more =>
      have member : first ∈ ctx.lexical site := all ▸ List.mem_cons_self
      obtain ⟨j, around, legal⟩ := exists_of_mem_lexicalIn member
      rw [kind] at around
      refine ⟨first, rfl, ?_, j, around, (List.mem_filter.mp legal).1⟩
      simp [Candidates.outcome]

end LinkContext

open HasParts in
theorem Statement.ident_mem_children {st : Statement} {name : Ident}
    (writes : st.written? = some name) : .ident name ∈ st.children := by
  cases st with
  | assign _ _ target _ =>
      cases target <;> cases writes
      exact List.mem_cons_self
  | forLoop _ head _ _ =>
      cases writes
      exact List.mem_cons_self
  | _ => cases writes

/-- Of two writes one is before the other in the text exactly if its identity is the lesser one. -/
theorem Write.id_lt_iff {text : String} {v w : Write} (first : v ∈ (parse text).program.writes)
    (second : w ∈ (parse text).program.writes) :
    v.name.id < w.name.id ↔ v.name.span.stop ≤ w.name.span.start := by
  have named {w : Write} (member : w ∈ (parse text).program.writes) :
      w.name.node ∈ (parse text).program.parts.filterMap Part.name? := by
    have written : w.name ∈ (parse text).program.allStatements.filterMap Statement.written? := by
      rw [← Program.map_writes]
      exact List.mem_map_of_mem member
    obtain ⟨st, among, writes⟩ := List.mem_filterMap.mp written
    have child := Program.mem_parts_of_mem_children (Program.mem_allStatements.mp among)
      (Statement.ident_mem_children writes)
    exact List.mem_filterMap.mpr ⟨_, child, rfl⟩
  exact names_ordered text (named first) (named second)

namespace Links

/-- A write that is a reference is bound to a symbol of its own procedure, in every workspace. -/
theorem link_seen (text : String) (document : DocumentId) (uri : String) {site : ReferenceSite}
    {name : Ident} (written : site = writtenSite name site.scope)
    (member : site ∈ (computeScopes document uri (parse text).program).references)
    (sees : (computeScopes document uri (parse text).program).tree.SeesBefore site.scope name)
    (index : WorkspaceIndex) (packages : List String) (resolver : Java.Resolver)
    (reportJava : Bool) :
    let scopes := computeScopes document uri (parse text).program
    let t := scopes.tree
    let ctx : LinkContext := ⟨document, t, scopes.exports, index, packages⟩
    let l := (Links.link ctx reportJava resolver scopes.references).1
    (ctx.candidates resolver site).1.source = some .lexical ∧
      l.ambiguous.get? site.node = none ∧ site.node ∉ l.unresolved ∧
      ∃ i x, l.bindings.get? site.node = some x ∧ x ∈ t.lookupLocal i site.name ∧
        t.bodies i = t.bodies site.scope ∧ x.document = some document := by
  intro scopes t ctx l
  have tidy := Findings.tidy_collect document (parse text).program
  have kind : site.kind = .variable := by rw [written, writtenSite]
  have key : site.name = variableKey name := by rw [written, writtenSite]
  obtain ⟨i, near, x, listed, isVariable, -⟩ := sees
  rw [← key] at listed
  obtain ⟨first, source, outcome, j, around, found⟩ :=
    ctx.candidates_of_variable kind near listed isVariable resolver
  have noted : l.noted site.node = (some first, none, False) := by
    rw [noted_link ctx reportJava resolver (references_apart text document uri).1 member, outcome]
    rfl
  simp only [Links.noted, Prod.mk.injEq, eq_iff_iff, iff_false] at noted
  obtain ⟨bound, unambiguous, resolved⟩ := noted
  have ours : first ∈ (computeScopes document uri (parse text).program).tree.symbols :=
    ScopeTree.mem_symbols_of_mem_lookupLocal found
  exact ⟨source, unambiguous, resolved, j, first, bound, found,
    ScopeTree.bodies_of_mem_searched tidy.wellFormed (tidy.references site member) around,
    document_of_mem_symbols ours⟩

/-- A variable is written where it is declared by the write, for the nearest procedure or the
module, or where it was seen before: then the write is a reference, and in every workspace it is
bound to a symbol of its own document that is declared in the same procedure, or in the module if it
is in none. At most one variable of a name in such a scope is declared by a write, and by the first
one that saw none. -/
theorem link_writes (text : String) (document : DocumentId) (uri : String) :
    let p := (parse text).program
    let scopes := computeScopes document uri p
    let t := scopes.tree
    p.writes.map (·.name) = p.allStatements.filterMap Statement.written? ∧
    ∃ scopeOf : Write → ScopeId,
      (∀ w ∈ p.writes, scopeOf w < t.scopes.size ∧ t.regions (scopeOf w) = w.around) ∧
      (∀ w ∈ p.writes,
        (¬ t.SeesBefore (scopeOf w) w.name ∧
          ∃ x ∈ t.lookupLocal (t.hoistTarget (scopeOf w)) (variableKey w.name),
            x.kind = .variable ∧ x.node = some w.name.id) ∨
        (t.SeesBefore (scopeOf w) w.name ∧
          let site := writtenSite w.name (scopeOf w)
          site ∈ scopes.references ∧
          ∀ (index : WorkspaceIndex) (packages : List String) (resolver : Java.Resolver)
            (reportJava : Bool),
            let ctx : LinkContext := ⟨document, t, scopes.exports, index, packages⟩
            let l := (Links.link ctx reportJava resolver scopes.references).1
            (ctx.candidates resolver site).1.source = some .lexical ∧
            l.ambiguous.get? site.node = none ∧ site.node ∉ l.unresolved ∧
            ∃ i x, l.bindings.get? site.node = some x ∧ x ∈ t.lookupLocal i site.name ∧
              t.bodies i = t.bodies site.scope ∧ x.document = some document)) ∧
      ∀ i key,
        (t.introduced p.writes i key).length ≤ 1 ∧
        ∀ x ∈ t.introduced p.writes i key, ∃ w ∈ p.writes, x.node = some w.name.id ∧
          t.hoistTarget (scopeOf w) = i ∧ variableKey w.name = key ∧
          ¬ t.SeesBefore (scopeOf w) w.name ∧
          ∀ v ∈ p.writes, v.name.span.stop ≤ w.name.span.start →
            t.hoistTarget (scopeOf v) = i → variableKey v.name = key →
            t.SeesBefore (scopeOf v) v.name := by
  intro p scopes t
  have tidy := Findings.tidy_collect document p
  have each (w : Write) : ∃ i, w ∈ p.writes → w.Settled t scopes.references i := by
    by_cases member : w ∈ p.writes
    · obtain ⟨i, settled⟩ := exists_settled text document member
      exact ⟨i, fun _ => settled⟩
    · exact ⟨0, fun inside => absurd inside member⟩
  choose scopeOf settled using each
  refine ⟨p.map_writes, scopeOf, fun w member => ?_, fun w member => ?_,
    fun i key => ⟨?_, fun x introduced => ?_⟩⟩
  · exact ⟨(settled w member).small, (settled w member).place⟩
  · by_cases sees : t.SeesBefore (scopeOf w) w.name
    · have cited := (settled w member).refers sees
      exact .inr ⟨sees, cited, link_seen text document uri rfl cited sees⟩
    · exact .inl ⟨sees, (settled w member).declares sees⟩
  · exact ScopeTree.length_introduced_le tidy.wellFormed (lookupLocal_before text document i key)
      settled
  · obtain ⟨w, member, node, place, name, blind, first⟩ :=
      ScopeTree.first_of_mem_introduced tidy.wellFormed settled introduced
    exact ⟨w, member, node, place, name, blind, fun v among earlier =>
      first v among ((Write.id_lt_iff among member).mpr earlier)⟩

end Links

end BbjAnalysis
