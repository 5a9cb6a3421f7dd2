import BbjAnalysis.Proofs.Link.Meaning
import BbjAnalysis.Proofs.Scope.Shape

/-! # Classes of a document before those of others

Classes are declared in the scope of the module, which is around everything. So a type whose name is
that of a class of its document means this class, or a nearer one, whatever the other documents
export. Where a variable may stand, such as the receiver of a static method, a class is found as
well, but variables are looked for no further than up to the procedure around them, and in what the
document exports: a class that is not exported is not found from within a procedure
(`Links.link_ownClass`).
-/

namespace BbjAnalysis

namespace LinkContext

variable {ctx : LinkContext} {site : ReferenceSite} {s : Symbol}

/-- A class is legal where a type or a variable may stand. -/
theorem accepts_class (kind : site.kind = .type ∨ site.kind = .variable)
    (isClass : s.kind = .classType ∨ s.kind = .externalClass) : site.accepts s = true := by
  rcases kind with kind | kind <;> rcases isClass with isClass | isClass <;>
    simp [ReferenceSite.accepts, kind, ReferenceKind.legalKinds, isClass]

/-- Types are looked for as far out as the module, and so are variables that are in no procedure. -/
theorem moduleId_mem_searched (wf : ctx.tree.WellFormed) (small : site.scope < ctx.tree.scopes.size)
    (place : site.kind = .type ∨ site.kind = .variable ∧
      ∀ i ∈ ctx.tree.ancestors site.scope, ctx.tree.kindOf i ≠ some .procedure) :
    ScopeTree.moduleId ∈ ctx.tree.searched site.kind (ctx.tree.ancestors site.scope) := by
  have all : ctx.tree.searched site.kind (ctx.tree.ancestors site.scope) =
      ctx.tree.ancestors site.scope := by
    rcases place with kind | ⟨kind, outside⟩
    · rw [kind]
      exact ctx.tree.searched_eq_self (fun _ => rfl) fun _ _ => rfl
    · rw [kind]
      refine ctx.tree.searched_eq_self (fun _ => rfl) fun i among => ?_
      have other := outside i among
      cases kindOf : ctx.tree.kindOf i with
      | none => rfl
      | some scope =>
          rw [kindOf] at other
          cases scope <;> simp_all [ReferenceKind.stopsAt]
  rw [all]
  exact ScopeTree.zero_mem_ancestors wf small

theorem lexical_ne_nil {i : ScopeId}
    (searched : i ∈ ctx.tree.searched site.kind (ctx.tree.ancestors site.scope))
    (legal : ctx.legalIn site i ≠ []) : ctx.lexical site ≠ [] :=
  fun none => legal (lexicalIn_eq_nil.mp none i searched)

/-- A reference that the document itself has a legal symbol for is bound to the first one. -/
theorem noted_of_found (starts : site.kind.startsInDocument = true)
    (found : ctx.lexical site ≠ [] ∨ ctx.ownExports site ≠ []) (r : Java.Resolver) :
    ∃ s ∈ ctx.lexical site ++ ctx.ownExports site,
      (ctx.candidates r site).1.outcome.noted = (some s, none, False) := by
  rw [← not_and_or, ← List.append_eq_nil_iff] at found
  rw [outcome_of_startsInDocument starts, if_neg fun nothing => found nothing.1]
  cases all : ctx.lexical site ++ ctx.ownExports site with
  | nil => exact absurd all found
  | cons first more => exact ⟨first, List.mem_cons_self, rfl⟩

end LinkContext

namespace Links

/-- Where the module declares a class, or imports one, under the name of a type or of a variable in
no procedure, the reference is not ambiguous, and it is bound to a symbol of its own document. A
variable in a procedure is, too, if a scope up to the procedure declares a legal symbol of the name
or the document exports one. -/
theorem link_ownClass (text : String) (document : DocumentId) (uri : String)
    (index : WorkspaceIndex) (packages : List String) (resolver : Java.Resolver)
    (reportJava : Bool) :
    let scopes := computeScopes document uri (parse text).program
    let t := scopes.tree
    let ctx : LinkContext := ⟨document, t, scopes.exports, index, packages⟩
    let l := (Links.link ctx reportJava resolver scopes.references).1
    ∀ site ∈ scopes.references,
      (∃ s ∈ t.lookupLocal ScopeTree.moduleId site.name,
        s.kind = .classType ∨ s.kind = .externalClass) →
      (site.kind = .type ∨ site.kind = .variable ∧
        ((∀ i ∈ t.ancestors site.scope, t.kindOf i ≠ some .procedure) ∨
          (∃ i ∈ t.upToHoistTarget (t.ancestors site.scope),
            ∃ s ∈ t.lookupLocal i site.name, site.accepts s = true) ∨
          ∃ s ∈ scopes.exports.lookup site.name, site.accepts s = true)) →
      l.ambiguous.get? site.node = none ∧
        ∃ s, l.bindings.get? site.node = some s ∧ s.document = some document := by
  intro scopes t ctx l site member ⟨own, declared, isClass⟩ place
  have tidy := Findings.tidy_collect document (parse text).program
  have position : site.kind = .type ∨ site.kind = .variable := place.imp_right And.left
  have starts : site.kind.startsInDocument = true := by
    rcases position with kind | kind <;> rw [kind] <;> rfl
  have inModule : ctx.legalIn site ScopeTree.moduleId ≠ [] :=
    List.ne_nil_of_mem (List.mem_filter.mpr ⟨declared, LinkContext.accepts_class position isClass⟩)
  have reached (place : site.kind = .type ∨ site.kind = .variable ∧
      ∀ i ∈ t.ancestors site.scope, t.kindOf i ≠ some .procedure) : ctx.lexical site ≠ [] :=
    LinkContext.lexical_ne_nil (LinkContext.moduleId_mem_searched tidy.wellFormed
      (tidy.references site member) place) inModule
  have found : ctx.lexical site ≠ [] ∨ ctx.ownExports site ≠ [] := by
    rcases place with kind | ⟨kind, outside | ⟨i, near, s, named, legal⟩ | ⟨s, named, legal⟩⟩
    · exact .inl (reached (.inl kind))
    · exact .inl (reached (.inr ⟨kind, outside⟩))
    · have searched : i ∈ t.searched site.kind (t.ancestors site.scope) :=
        kind ▸ t.mem_searched_variable near
      have legal : s ∈ ctx.legalIn site i := List.mem_filter.mpr ⟨named, legal⟩
      exact .inl (LinkContext.lexical_ne_nil searched (List.ne_nil_of_mem legal))
    · exact .inr (List.ne_nil_of_mem (List.mem_filter.mpr ⟨named, legal⟩))
  obtain ⟨s, among, noted⟩ := LinkContext.noted_of_found starts found resolver
  have linked : l.noted site.node = (some s, none, False) :=
    (noted_link ctx reportJava resolver (references_apart text document uri).1 member).trans noted
  have ours : s ∈ t.symbols := by
    rcases List.mem_append.mp among with lexical | exported
    · exact LinkContext.mem_symbols_of_mem_lexicalIn lexical
    · exact mem_symbols_of_mem_exports (List.mem_filter.mp (List.mem_filter.mp exported).1).1
  exact ⟨congrArg (·.2.1) linked, s, congrArg Prod.fst linked, document_of_mem_symbols ours⟩

/-- The receiver of a static method in a function, whose class is exported by the document and by
two other ones. -/
theorem link_ownClass_public :
    let exportsOf (d : DocumentId) (uri text : String) : ExportSet :=
      (computeScopes d uri (parse text).program).exports
    let index := ([exportsOf 1 "a.bbj" "class public Helper\nclassend\n",
      exportsOf 2 "b.bbj" "class public Helper\nclassend\n"]).foldl (fun i e => (i.upsert e).2)
        WorkspaceIndex.empty
    let text := "class public Helper\nclassend\ndef fnuse(n)\nreturn Helper.make(n)\nfnend\n"
    let scopes := computeScopes 0 "main.bbj" (parse text).program
    let t := scopes.tree
    let ctx : LinkContext := ⟨0, t, scopes.exports, index, []⟩
    let l := (Links.link ctx true (.ofCatalog .empty) scopes.references).1
    let site : ReferenceSite := ⟨8, "Helper", "Helper", ⟨49, 55⟩, .variable, 2⟩
    site ∈ scopes.references ∧
      (∃ s ∈ t.lookupLocal ScopeTree.moduleId site.name,
        s.kind = .classType ∨ s.kind = .externalClass) ∧
      (∃ i ∈ t.ancestors site.scope, t.kindOf i = some .procedure) ∧
      l.ambiguous.get? site.node = none ∧
        ∃ s, l.bindings.get? site.node = some s ∧ s.document = some 0 := by
  intro exportsOf index text scopes t ctx l site
  have member : site ∈ scopes.references := by decide +kernel
  have declared : ∃ s ∈ t.lookupLocal ScopeTree.moduleId site.name,
      s.kind = .classType ∨ s.kind = .externalClass := by decide +kernel
  have exported : ∃ s ∈ scopes.exports.lookup site.name, site.accepts s = true := by decide +kernel
  exact ⟨member, declared, by decide +kernel,
    link_ownClass text 0 "main.bbj" index [] (.ofCatalog .empty) true site member declared
      (.inr ⟨rfl, .inr (.inr exported)⟩)⟩

/-- The same receiver where the document does not export the class: it is bound to the class of
another document. -/
theorem link_ownClass_private :
    let lib := computeScopes 1 "lib.bbj" (parse "class public Helper\nclassend\n").program
    let text := "class Helper\nclassend\ndef fnuse(n)\nreturn Helper.make(n)\nfnend\n"
    let scopes := computeScopes 0 "main.bbj" (parse text).program
    let t := scopes.tree
    let ctx : LinkContext :=
      ⟨0, t, scopes.exports, (WorkspaceIndex.empty.upsert lib.exports).2, []⟩
    let l := (Links.link ctx true (.ofCatalog .empty) scopes.references).1
    let site : ReferenceSite := ⟨8, "Helper", "Helper", ⟨42, 48⟩, .variable, 2⟩
    site ∈ scopes.references ∧
      (∃ s ∈ t.lookupLocal ScopeTree.moduleId site.name,
        s.kind = .classType ∨ s.kind = .externalClass) ∧
      ∃ s, l.bindings.get? site.node = some s ∧ s.document = some 1 := by
  intro lib text scopes t ctx l site
  have bound : (l.bindings.get? site.node).bind (·.document) = some 1 := by decide +kernel
  exact ⟨by decide +kernel, by decide +kernel, Option.bind_eq_some_iff.mp bound⟩

end Links

end BbjAnalysis
