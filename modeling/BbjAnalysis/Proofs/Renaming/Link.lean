import BbjAnalysis.Proofs.Link.Search
import BbjAnalysis.Proofs.Renaming.Basic
import Mathlib.Data.List.Basic

/-! # Linking in a renamed workspace

What comes of linking a document depends on its own scopes and exports, on the answers
of the Java catalog, and on what the index finds under the names that are looked up in
it. If all of these correspond along an order-preserving renaming of documents, then
the links correspond (`link_rename`). Along the identity this says which changes of an
index a document can notice: those under the names that it looked up.
-/

namespace BbjAnalysis

namespace WorkspaceIndex

/-- Two indexes know a document and the renamed one by the same URI. An identity without a URI
stands for itself in a message, so that it has to be kept. -/
def KnowsAlike (σ : DocumentId → DocumentId) (i j : WorkspaceIndex) (d : DocumentId) : Prop :=
  j.uriOf (σ d) = i.uriOf d ∧ (i.uriOf d = none → σ d = d)

theorem KnowsAlike.getD_display {σ : DocumentId → DocumentId} {i j : WorkspaceIndex}
    {d : DocumentId} (known : KnowsAlike σ i j d) :
    (j.uriOf (σ d)).getD (σ d).display = (i.uriOf d).getD d.display := by
  rw [known.1]
  cases uri : i.uriOf d with
  | some uri => rfl
  | none => rw [known.2 uri]

/-- What `j` finds under a name is what `i` finds, renamed, and both know the documents of the
findings by the same URIs. -/
structure AnswersAlike (σ : DocumentId → DocumentId) (i j : WorkspaceIndex) (name : String) :
    Prop where
  lookup : j.lookup name = (i.lookup name).map (.rename σ)
  uri : ∀ s ∈ i.lookup name, ∀ d, s.document = some d → KnowsAlike σ i j d

end WorkspaceIndex

namespace LinkContext

/-- Whether the workspace is asked for a reference. That depends on the document alone. -/
def consults (ctx : LinkContext) (site : ReferenceSite) : Bool :=
  match site.kind with
  | .javaClass => false
  | .classImport _ => true
  | kind => !kind.staysInDocument && (ctx.lexical site).isEmpty && (ctx.ownExports site).isEmpty

theorem consults_of_startsInDocument {ctx : LinkContext} {site : ReferenceSite}
    (starts : site.kind.startsInDocument = true) : ctx.consults site =
      (!site.kind.staysInDocument && (ctx.lexical site).isEmpty &&
        (ctx.ownExports site).isEmpty) := by
  unfold consults
  cases kind : site.kind with
  | javaClass => simp [kind, ReferenceKind.startsInDocument] at starts
  | classImport path => simp [kind, ReferenceKind.startsInDocument] at starts
  | _ => rfl

theorem candidates_consultedWorkspace (ctx : LinkContext) (r : Java.Resolver)
    (site : ReferenceSite) :
    (ctx.candidates r site).1.consultedWorkspace = ctx.consults site := by
  obtain starts | kind | ⟨path, kind⟩ := site.kind.startsInDocument_or
  · have outside : (ctx.candidatesOutside r site).1.consultedWorkspace = true := by
      rw [candidatesOutside_eq]
      split
      · rfl
      · split <;> rfl
    rw [candidates_of_startsInDocument starts, consults_of_startsInDocument starts]
    cases ctx.lexical site with
    | cons first rest => simp
    | nil =>
        cases ctx.ownExports site with
        | cons first rest => simp
        | nil => cases stays : site.kind.staysInDocument <;> simp [outside]
  · rw [(candidates_javaClass kind r).1, consults, kind]
  · rw [candidates_classImport kind, consults, kind]

/-- One document under two names, before and after a renaming. -/
structure RenamesTo (σ : DocumentId → DocumentId) (ctx ctx' : LinkContext) : Prop where
  document : ctx'.document = σ ctx.document
  tree : ctx'.tree = ctx.tree.rename σ
  exports : ctx'.exports = ctx.exports.rename σ
  packages : ctx'.packages = ctx.packages

section Rename

variable {c : Java.ClassSource} {σ : DocumentId → DocumentId} {ctx ctx' : LinkContext}

theorem filter_accepts_rename (site : ReferenceSite) (l : List Symbol) :
    (l.map (.rename σ)).filter site.accepts = (l.filter site.accepts).map (.rename σ) := by
  rw [List.filter_map]
  rfl

theorem RenamesTo.lexicalIn (renames : RenamesTo σ ctx ctx') (site : ReferenceSite)
    (ids : List ScopeId) : ctx'.lexicalIn site ids = (ctx.lexicalIn site ids).map (.rename σ) := by
  induction ids with
  | nil => rfl
  | cons id rest ih =>
      simp only [LinkContext.lexicalIn, renames.tree, ScopeTree.kindOf_rename,
        ScopeTree.lookupLocal_rename, filter_accepts_rename]
      split
      · cases (ctx.tree.lookupLocal id site.name).filter site.accepts with
        | nil =>
            simp only [List.map_nil]
            split
            · rfl
            · exact ih
        | cons first later => rfl
      · exact ih

theorem RenamesTo.lexical (renames : RenamesTo σ ctx ctx') (site : ReferenceSite) :
    ctx'.lexical site = (ctx.lexical site).map (.rename σ) := by
  rw [LinkContext.lexical, renames.lexicalIn, renames.tree, ScopeTree.ancestors_rename]
  rfl

theorem RenamesTo.ownExports (renames : RenamesTo σ ctx ctx') (site : ReferenceSite) :
    ctx'.ownExports site = (ctx.ownExports site).map (.rename σ) := by
  rw [LinkContext.ownExports, renames.exports, ExportSet.lookup_rename, filter_accepts_rename]
  rfl

theorem RenamesTo.inWorkspace (renames : RenamesTo σ ctx ctx') (injective : Function.Injective σ)
    {site : ReferenceSite} (alike : ctx.index.AnswersAlike σ ctx'.index site.name)
    (path : Option String) :
    ctx'.inWorkspace site path = (ctx.inWorkspace site path).map (.rename σ) := by
  simp only [LinkContext.inWorkspace, alike.lookup, List.filter_map]
  refine congrArg (List.map (Symbol.rename σ)) (List.filter_congr fun s member => ?_)
  have known := alike.uri s (List.mem_filter.mp member).1
  simp only [Function.comp_apply, Symbol.document_rename, renames.document]
  cases declared : s.document with
  | none =>
      simp only [LinkContext.inFile, Symbol.document_rename, declared]
      cases path <;> rfl
  | some d =>
      have same : (some (σ d) != some (σ ctx.document)) = (some d != some ctx.document) := by
        simp only [bne, beq_eq_decide, Option.some.injEq, injective.eq_iff]
      simp only [Option.map_some, same, LinkContext.inFile, Symbol.document_rename, declared]
      cases path with
      | none => rfl
      | some path => simp only [(known d declared).1]

/-- Candidates that correspond, with resolvers that still agree. -/
def Alike (c : Java.ClassSource) (σ : DocumentId → DocumentId) (x y : Candidates × Java.Resolver) :
    Prop :=
  y.1 = x.1.rename σ ∧ Java.Resolver.Agrees c x.2 y.2

theorem agrees_candidates {r r' : Java.Resolver} (agrees : Java.Resolver.Agrees c r r')
    (site : ReferenceSite) :
    Java.Resolver.Agrees c (ctx.candidates r site).2 (ctx'.candidates r' site).2 := by
  have keeps (ctx : LinkContext) {r : Java.Resolver} (catalog : r.catalog = c)
      (faithful : r.Faithful) :
      (ctx.candidates r site).2.catalog = c ∧ (ctx.candidates r site).2.Faithful :=
    candidates_keeps (P := fun r => r.catalog = c ∧ r.Faithful)
      (fun r name holds => ⟨(r.resolve_catalog name).trans holds.1, holds.2.resolve name⟩)
      ⟨catalog, faithful⟩
  have left := keeps ctx agrees.catalog agrees.faithful
  have right := keeps ctx' agrees.catalog' agrees.faithful'
  exact ⟨left.1, right.1, left.2, right.2⟩

/-- What the catalog knows is not renamed. -/
theorem rename_of_java {found : Option Symbol} (outside : ∀ s, found = some s → s.document = none) :
    found.toList.map (Symbol.rename σ) = found.toList := by
  cases found with
  | none => rfl
  | some s =>
      simp only [Option.toList_some, List.map_cons, List.map_nil,
        Symbol.rename_of_document_eq_none σ (outside s rfl)]

theorem RenamesTo.candidatesOutside (renames : RenamesTo σ ctx ctx')
    (injective : Function.Injective σ) {r : Java.Resolver} (faithful : r.Faithful)
    {site : ReferenceSite} (alike : ctx.index.AnswersAlike σ ctx'.index site.name) :
    (ctx'.candidatesOutside r site).1 = (ctx.candidatesOutside r site).1.rename σ := by
  rw [candidatesOutside_eq, candidatesOutside_eq, renames.inWorkspace injective alike,
    renames.packages]
  simp only [ne_eq, List.map_eq_nil_iff]
  split
  · rfl
  · split
    · rw [Candidates.rename, rename_of_java]
      intro s first
      obtain ⟨package, -, found⟩ := List.exists_of_findSome?_eq_some first
      exact faithful.document_of_resolve found
    · rfl

theorem RenamesTo.candidates (renames : RenamesTo σ ctx ctx') (injective : Function.Injective σ)
    {r r' : Java.Resolver} (agrees : Java.Resolver.Agrees c r r') {site : ReferenceSite}
    (alike : ctx.consults site = true → ctx.index.AnswersAlike σ ctx'.index site.name) :
    Alike c σ (ctx.candidates r site) (ctx'.candidates r' site) := by
  refine ⟨?_, agrees_candidates agrees site⟩
  rw [candidates_congr agrees.resolve_answer]
  obtain starts | kind | ⟨path, kind⟩ := site.kind.startsInDocument_or
  · rw [consults_of_startsInDocument starts] at alike
    rw [candidates_of_startsInDocument starts, candidates_of_startsInDocument starts,
      renames.lexical, renames.ownExports]
    simp only [ne_eq, List.map_eq_nil_iff]
    split
    · rfl
    · next lexical =>
      split
      · rfl
      · next exports =>
        split
        · rfl
        · next leaves =>
          refine renames.candidatesOutside injective agrees.faithful (alike ?_)
          simp [not_not.mp lexical, not_not.mp exports, leaves]
  · rw [(candidates_javaClass kind r).1, (candidates_javaClass kind r).1, Candidates.rename,
      rename_of_java fun s found => agrees.faithful.document_of_resolve found]
  · have consulted : ctx.consults site = true := by rw [consults, kind]
    rw [candidates_classImport kind, candidates_classImport kind,
      renames.inWorkspace injective (alike consulted)]
    simp only [List.map_eq_nil_iff]
    rfl

end Rename

end LinkContext

/-! ## Outcomes -/

def LinkOutcome.rename (σ : DocumentId → DocumentId) : LinkOutcome → LinkOutcome
  | .bound symbol => .bound (symbol.rename σ)
  | .ambiguous symbols => .ambiguous (symbols.map (.rename σ))
  | .unresolved => .unresolved

section Rename

variable {σ : DocumentId → DocumentId}

theorem size_documentsOf_rename (mono : StrictMono σ) (symbols : List Symbol) :
    (documentsOf (symbols.map (.rename σ))).size = (documentsOf symbols).size := by
  have image : documentsOf (symbols.map (.rename σ)) = (documentsOf symbols).image σ := by
    refine OrderedSet.ext_mem fun d => ?_
    simp only [documentsOf, OrderedSet.mem_image, OrderedSet.mem_ofList, List.mem_filterMap,
      List.mem_map, exists_exists_and_eq_and, Symbol.document_rename, Option.map_eq_some_iff]
    constructor
    · rintro ⟨s, member, d', declared, rfl⟩
      exact ⟨d', ⟨s, member, declared⟩, rfl⟩
    · rintro ⟨d', ⟨s, member, declared⟩, rfl⟩
      exact ⟨s, member, d', declared, rfl⟩
  rw [image, OrderedSet.size, OrderedSet.toList_image mono, List.length_map]
  rfl

theorem outcome_rename (mono : StrictMono σ) (c : Candidates) :
    (c.rename σ).outcome = c.outcome.rename σ := by
  obtain ⟨symbols, source, consulted⟩ := c
  cases symbols with
  | nil => rfl
  | cons first rest =>
      have same := size_documentsOf_rename mono (first :: rest)
      rw [List.map_cons] at same
      simp only [Candidates.outcome, Candidates.rename, List.map_cons, same]
      split <;> rfl

/-- An ambiguity lists the URIs of its documents. -/
theorem ambiguous_rename {i j : WorkspaceIndex} {symbols : List Symbol}
    (known : ∀ s ∈ symbols, ∀ d, s.document = some d → i.KnowsAlike σ j d)
    (document : DocumentId) (node : NodeId) (span : Span) (name : String) :
    Diagnostic.ambiguous (σ document) node span name (symbols.map (.rename σ)) j.uriOf =
      (Diagnostic.ambiguous document node span name symbols i.uriOf).rename σ := by
  have uris : ((symbols.map (.rename σ)).filterMap fun s : Symbol =>
        s.document.map fun d => (j.uriOf d).getD d.display) =
      symbols.filterMap fun s => s.document.map fun d => (i.uriOf d).getD d.display := by
    rw [List.filterMap_map]
    refine List.filterMap_congr fun s member => ?_
    rw [Function.comp_apply, Symbol.document_rename]
    cases declared : s.document with
    | none => rfl
    | some d => simp only [Option.map_some, (known s member d declared).getD_display]
  have places : (symbols.map (.rename σ)).filterMap Diagnostic.candidatePlace =
      (symbols.filterMap Diagnostic.candidatePlace).map (.rename σ) := by
    rw [List.filterMap_map, List.map_filterMap]
    refine List.filterMap_congr fun s _ => ?_
    simp only [Function.comp_apply, Diagnostic.candidatePlace, Symbol.document_rename,
      Option.map_map]
    rfl
  unfold Diagnostic.ambiguous
  simp only [uris, places]
  rfl

theorem unresolvedDiagnostic_rename (document : DocumentId) (reportJava : Bool)
    (site : ReferenceSite) :
    unresolvedDiagnostic (σ document) reportJava site =
      (unresolvedDiagnostic document reportJava site).map (.rename σ) := by
  unfold unresolvedDiagnostic
  split
  · rfl
  · rfl
  · rfl
  · split <;> rfl
  · rfl

namespace Links

theorem note_rename {ctx ctx' : LinkContext} (document : ctx'.document = σ ctx.document)
    (injective : Function.Injective σ) {outcome : LinkOutcome}
    (known : ∀ symbols, outcome = .ambiguous symbols → ∀ s ∈ symbols, ∀ d, s.document = some d →
      ctx.index.KnowsAlike σ ctx'.index d)
    (reportJava : Bool) (site : ReferenceSite) (l : Links) :
    (l.rename σ).note ctx' reportJava site (outcome.rename σ) =
      (l.note ctx reportJava site outcome).rename σ := by
  cases outcome with
  | bound symbol =>
      simp only [note, rename, LinkOutcome.rename, OrderedMap.insert_mapValues,
        Symbol.document_rename]
      congr 1
      cases symbol.document with
      | none => rfl
      | some d =>
          simp only [Option.map_some, document, injective.eq_iff]
          split
          · rfl
          · rw [OrderedSet.image_insert]
  | ambiguous symbols =>
      simp only [note, rename, LinkOutcome.rename, OrderedMap.insert_mapValues, document,
        ambiguous_rename (known symbols rfl), List.map_append, List.map_cons, List.map_nil]
  | unresolved =>
      simp only [note, rename, LinkOutcome.rename, document, unresolvedDiagnostic_rename,
        List.map_append]
      cases unresolvedDiagnostic ctx.document reportJava site <;> rfl

theorem rename_empty : empty.rename σ = empty := rfl

theorem consult_rename (l : Links) (name : String) :
    (l.consult name).rename σ = (l.rename σ).consult name := rfl

theorem mem_symbols_of_ambiguous {c : Candidates} {symbols : List Symbol}
    (ambiguous : c.outcome = .ambiguous symbols) :
    symbols = c.symbols ∧ c.source = some .workspace := by
  obtain ⟨found, source, consulted⟩ := c
  unfold Candidates.outcome at ambiguous
  split at ambiguous
  · cases ambiguous
  · next first rest same =>
      split at ambiguous
      · next spread =>
          cases ambiguous
          exact ⟨same.symm, spread.1⟩
      · cases ambiguous

end Links

end Rename

namespace LinkContext

theorem candidates_of_source_eq_workspace {ctx : LinkContext} {r : Java.Resolver}
    {site : ReferenceSite} (source : (ctx.candidates r site).1.source = some .workspace) :
    ∃ path, (ctx.candidates r site).1 = ⟨ctx.inWorkspace site path, some .workspace, true⟩ := by
  obtain starts | kind | ⟨path, kind⟩ := site.kind.startsInDocument_or
  · rw [candidates_of_startsInDocument starts] at source ⊢
    by_cases lexical : ctx.lexical site = []
    · by_cases exports : ctx.ownExports site = []
      · cases stays : site.kind.staysInDocument with
        | true => simp [lexical, exports, stays] at source
        | false =>
            simp only [lexical, exports, stays, ne_eq, not_true, if_false, Bool.false_eq_true,
              candidatesOutside_eq] at source ⊢
            by_cases nothing : ctx.inWorkspace site none = []
            · by_cases type : site.kind = .type <;> simp [nothing, type] at source
            · exact ⟨none, if_pos nothing⟩
      · simp [lexical, exports] at source
    · simp [lexical] at source
  · simp [(candidates_javaClass kind r).1] at source
  · rw [candidates_classImport kind] at source ⊢
    by_cases nothing : ctx.inWorkspace site path = []
    · simp [nothing] at source
    · exact ⟨path, by rw [if_neg nothing]⟩

/-- Candidates from the workspace are among what the index finds under the name, which is then
looked up. -/
theorem mem_lookup_of_source_eq_workspace {ctx : LinkContext} {r : Java.Resolver}
    {site : ReferenceSite} (source : (ctx.candidates r site).1.source = some .workspace) :
    ctx.consults site = true ∧
      ∀ s ∈ (ctx.candidates r site).1.symbols, s ∈ ctx.index.lookup site.name := by
  rw [← candidates_consultedWorkspace ctx r site]
  obtain ⟨path, found⟩ := candidates_of_source_eq_workspace source
  rw [found]
  exact ⟨rfl, fun s => mem_lookup_of_mem_inWorkspace⟩

end LinkContext

namespace Links

variable {c : Java.ClassSource} {σ : DocumentId → DocumentId} {ctx ctx' : LinkContext}

/-- Links that correspond, with resolvers that still agree. -/
def Alike (c : Java.ClassSource) (σ : DocumentId → DocumentId) (x y : Links × Java.Resolver) :
    Prop :=
  y.1 = x.1.rename σ ∧ Java.Resolver.Agrees c x.2 y.2

theorem linkSite_alike (renames : LinkContext.RenamesTo σ ctx ctx') (mono : StrictMono σ)
    {x y : Links × Java.Resolver} (alike : Alike c σ x y) (reportJava : Bool)
    {site : ReferenceSite}
    (answers : ctx.consults site = true → ctx.index.AnswersAlike σ ctx'.index site.name) :
    Alike c σ (linkSite ctx reportJava x site) (linkSite ctx' reportJava y site) := by
  obtain ⟨l, r⟩ := x
  obtain ⟨l', r'⟩ := y
  obtain ⟨rfl, agrees⟩ := alike
  have candidates := renames.candidates mono.injective agrees answers
  refine ⟨?_, candidates.2⟩
  -- Ambiguity is reported with the URIs of all candidates, which are the same in both indexes.
  have known : ∀ symbols, (ctx.candidates r site).1.outcome = .ambiguous symbols →
      ∀ s ∈ symbols, ∀ d, s.document = some d → ctx.index.KnowsAlike σ ctx'.index d := by
    intro symbols ambiguous
    obtain ⟨rfl, source⟩ := mem_symbols_of_ambiguous ambiguous
    obtain ⟨consulted, among⟩ := LinkContext.mem_lookup_of_source_eq_workspace source
    exact fun s member d declared => (answers consulted).uri s (among s member) d declared
  simp only [linkSite, candidates.1, outcome_rename mono]
  rw [← note_rename renames.document mono.injective known]
  congr 1
  rw [apply_ite (rename σ), consult_rename]
  rfl

theorem foldl_linkSite_alike (renames : LinkContext.RenamesTo σ ctx ctx') (mono : StrictMono σ)
    (reportJava : Bool) {sites : List ReferenceSite}
    (answers : ∀ site ∈ sites, ctx.consults site = true →
      ctx.index.AnswersAlike σ ctx'.index site.name)
    {x y : Links × Java.Resolver} (alike : Alike c σ x y) :
    Alike c σ (sites.foldl (linkSite ctx reportJava) x)
      (sites.foldl (linkSite ctx' reportJava) y) := by
  induction sites generalizing x y with
  | nil => exact alike
  | cons site rest ih =>
      exact ih (fun later member => answers later (.tail _ member))
        (linkSite_alike renames mono alike reportJava (answers site (.head _)))

/-- Linking in a renamed workspace yields the renamed links. -/
theorem link_rename (renames : LinkContext.RenamesTo σ ctx ctx') (mono : StrictMono σ)
    (reportJava : Bool) {sites : List ReferenceSite}
    (answers : ∀ site ∈ sites, ctx.consults site = true →
      ctx.index.AnswersAlike σ ctx'.index site.name)
    {r r' : Java.Resolver} (agrees : Java.Resolver.Agrees c r r') :
    Alike c σ (link ctx reportJava r sites) (link ctx' reportJava r' sites) := by
  have folded := foldl_linkSite_alike renames mono reportJava answers
    (x := (empty, r)) (y := (empty, r')) ⟨rename_empty.symm, agrees⟩
  refine ⟨?_, folded.2⟩
  simp only [link, folded.1, rename, Diagnostic.finish_rename mono.injective]

/-! ## What was looked up -/

theorem mem_workspaceNames_linkSite (reportJava : Bool) (x : Links × Java.Resolver)
    (site : ReferenceSite) (name : String) :
    name ∈ (linkSite ctx reportJava x site).1.workspaceNames ↔
      name ∈ x.1.workspaceNames ∨ ctx.consults site = true ∧ name = site.name := by
  have kept (l : Links) (outcome : LinkOutcome) :
      (l.note ctx reportJava site outcome).workspaceNames = l.workspaceNames := by
    cases outcome <;> rfl
  simp only [linkSite, kept, LinkContext.candidates_consultedWorkspace]
  split
  · next consulted =>
      simp only [consult, OrderedSet.mem_insert, consulted, true_and]
      exact or_comm
  · next not => simp [not]

/-- The names that are noted are those for which the workspace was asked. -/
theorem mem_workspaceNames_link (reportJava : Bool) (r : Java.Resolver)
    (sites : List ReferenceSite) (name : String) :
    name ∈ (link ctx reportJava r sites).1.workspaceNames ↔
      ∃ site ∈ sites, ctx.consults site = true ∧ name = site.name := by
  have folded (x : Links × Java.Resolver) :
      name ∈ (sites.foldl (linkSite ctx reportJava) x).1.workspaceNames ↔
        name ∈ x.1.workspaceNames ∨
          ∃ site ∈ sites, ctx.consults site = true ∧ name = site.name := by
    induction sites generalizing x with
    | nil => simp
    | cons site rest ih =>
        rw [List.foldl_cons, ih, mem_workspaceNames_linkSite, or_assoc]
        simp only [List.mem_cons, exists_eq_or_imp]
  refine (folded (empty, r)).trans (or_iff_right ?_)
  exact List.not_mem_nil

end Links

end BbjAnalysis
