import BbjAnalysis.Proofs.Link.Meaning
import BbjAnalysis.Proofs.Scope.Shape
import BbjAnalysis.Proofs.Workspace.Refinement

/-! # References to other documents

What a reference means that its document has nothing for depends on how many other documents export
anything legal under its name: none, one or several (`Links.link_exporters`). The workspace has for
it what these documents export, one document after the other (`LinkContext.inWorkspace_eq`). Every
symbol belongs to the document that exports it, so that the documents of the candidates are the
exporting ones (`documentsOf_exporters`).
-/

namespace BbjAnalysis

/-- The path that documents must match whose class an import may mean. -/
def ReferenceKind.importPath : ReferenceKind → Option String
  | .classImport path => path
  | _ => none

namespace ExportSet

/-- Every symbol belongs to the document that exports it. -/
def IsOwn (e : ExportSet) : Prop := ∀ s ∈ e.symbols, s.document = some e.document

/-- What a document exports that a reference may mean, in the order of declaration. -/
def legal (e : ExportSet) (site : ReferenceSite) : List Symbol :=
  (e.lookup site.name).filter site.accepts

/-- Whether a reference may mean what the document exports if it is another one: the URI must match
the path of an import. -/
def isAdmitted (e : ExportSet) (document : DocumentId) (site : ReferenceSite) : Bool :=
  e.document != document && site.kind.importPath.all (uriMatches e.uri)

variable {e : ExportSet} {site : ReferenceSite}

theorem IsOwn.document (own : e.IsOwn) {s : Symbol} (member : s ∈ e.legal site) :
    s.document = some e.document :=
  own s (List.mem_filter.mp (List.mem_filter.mp member).1).1

/-- What is read off a text is exported by its own document. -/
theorem isOwn_computeScopes (document : DocumentId) (uri : String) (p : Program) :
    (computeScopes document uri p).exports.IsOwn :=
  fun _ member => document_of_mem_symbols (mem_symbols_of_mem_exports member)

end ExportSet

namespace ExportMap

/-! ## What is exported -/

/-- Every export set is kept under its own document, and all of its symbols belong to it. -/
def Owned (m : ExportMap) : Prop := ∀ d e, m.get? d = some e → e.document = d ∧ e.IsOwn

theorem owned_empty : Owned ∅ := fun _ _ => nofun

theorem Owned.perform {m : ExportMap} (owned : m.Owned) {op : IndexOperation}
    (own : ∀ e, op = .upsert e → e.IsOwn) : (m.perform op).Owned := by
  intro d e present
  cases op with
  | upsert exports =>
      rw [ExportMap.perform, OrderedMap.get?_insert] at present
      split at present
      · next here =>
        cases present
        exact ⟨here.symm, own _ rfl⟩
      · exact owned d e present
  | remove document =>
      rw [ExportMap.perform, OrderedMap.get?_erase] at present
      split at present
      · cases present
      · exact owned d e present
  | markInvalid document => exact owned d e present

theorem Owned.run {m : ExportMap} (owned : m.Owned) {ops : List IndexOperation}
    (own : ∀ e, .upsert e ∈ ops → e.IsOwn) : (m.run ops).Owned := by
  induction ops generalizing m with
  | nil => exact owned
  | cons op rest ih =>
      refine ih (owned.perform fun e same => own e ?_) fun e later => own e (.tail op later)
      exact same ▸ List.mem_cons_self

section Owned

variable {m : ExportMap} (owned : m.Owned)
include owned

theorem Owned.of_mem_values {e : ExportSet} (member : e ∈ m.values) :
    m.get? e.document = some e ∧ e.IsOwn := by
  obtain ⟨⟨d, e⟩, entry, rfl⟩ := List.mem_map.mp member
  have present : m.get? d = some e := OrderedMap.get?_eq_some_iff.mpr entry
  obtain ⟨rfl, own⟩ := owned d e present
  exact ⟨present, own⟩

theorem Owned.ascending : m.values.Pairwise (·.document < ·.document) := by
  refine List.pairwise_map.mpr (m.ascending.imp_of_mem fun {a b} first second less => ?_)
  rw [(owned _ _ (OrderedMap.get?_eq_some_iff.mpr first)).1,
    (owned _ _ (OrderedMap.get?_eq_some_iff.mpr second)).1]
  exact less

end Owned

/-- The other documents that export anything that a reference may mean. -/
def exporters (m : ExportMap) (document : DocumentId) (site : ReferenceSite) : List ExportSet :=
  m.values.filter fun e => e.isAdmitted document site && e.legal site ≠ []

theorem flatMap_exporters (m : ExportMap) (document : DocumentId) (site : ReferenceSite) :
    (m.exporters document site).flatMap (·.legal site) =
      m.values.flatMap fun e => if e.isAdmitted document site then e.legal site else [] := by
  rw [exporters]
  induction m.values with
  | nil => rfl
  | cons e rest ih =>
      rw [List.flatMap_cons, ← ih, List.filter_cons]
      cases admitted : e.isAdmitted document site <;> by_cases none : e.legal site = [] <;>
        simp [none]

end ExportMap

/-! ## What the workspace has -/

section Exporters

variable {site : ReferenceSite} {exporters : List ExportSet}
  (own : ∀ e ∈ exporters, e.IsOwn ∧ e.legal site ≠ [])
  (ascending : exporters.Pairwise (·.document < ·.document))

include own ascending in
/-- The candidates that documents export are in these documents. -/
theorem documentsOf_exporters :
    (documentsOf (exporters.flatMap (·.legal site))).toList = exporters.map (·.document) := by
  refine OrderedMap.eq_of_mem_iff (R := (· < ·)) (fun _ => Nat.lt_irrefl _)
    (fun _ _ _ => Nat.lt_trans) (OrderedSet.ascending _) (List.pairwise_map.mpr ascending)
    fun d => ?_
  refine OrderedSet.mem_ofList.trans ?_
  simp only [List.mem_filterMap, List.mem_flatMap, List.mem_map]
  constructor
  · rintro ⟨s, ⟨e, member, legal⟩, declared⟩
    rw [(own e member).1.document legal] at declared
    exact ⟨e, member, Option.some.inj declared⟩
  · rintro ⟨e, member, rfl⟩
    obtain ⟨s, legal⟩ := List.exists_mem_of_ne_nil _ (own e member).2
    exact ⟨s, ⟨e, member, legal⟩, (own e member).1.document legal⟩

include own ascending in
/-- What comes of candidates of the workspace depends on how many documents export them. -/
theorem outcome_exporters : (⟨exporters.flatMap (·.legal site), some .workspace, true⟩ :
    Candidates).outcome = if 1 < exporters.length
      then .ambiguous (exporters.flatMap (·.legal site))
      else .ofOption (exporters.flatMap (·.legal site)).head? := by
  have size : (documentsOf (exporters.flatMap (·.legal site))).size = exporters.length := by
    rw [OrderedSet.size, documentsOf_exporters own ascending, List.length_map]
  rw [← size, Candidates.outcome]
  cases exporters.flatMap (·.legal site) with
  | nil => rfl
  | cons first rest => simp only [true_and]; rfl

end Exporters

namespace LinkContext

variable {ctx : LinkContext} {site : ReferenceSite}

theorem inFile_of_document {s : Symbol} {d : DocumentId} (declared : s.document = some d)
    (path : Option String) : ctx.inFile path s =
      path.all fun path => (ctx.index.uriOf d).any (uriMatches · path) := by
  cases path <;> simp [inFile, declared]

/-- The workspace has for a reference what the other documents export, one after the other. -/
theorem inWorkspace_eq {m : ExportMap} (refines : ctx.index.Refines m) (owned : m.Owned) :
    ctx.inWorkspace site site.kind.importPath =
      (m.exporters ctx.document site).flatMap (·.legal site) := by
  obtain ⟨exact_, same⟩ := refines
  rw [ExportMap.flatMap_exporters, inWorkspace, exact_.lookup_eq, same, ExportMap.lookup,
    List.filter_flatMap, List.filter_flatMap]
  refine List.flatMap_congr fun e member => ?_
  obtain ⟨present, own⟩ := owned.of_mem_values member
  have uri : ctx.index.uriOf e.document = some e.uri := by
    rw [WorkspaceIndex.uriOf, ← WorkspaceIndex.get?_exportMap, same, present, Option.map_some]
  -- whether a symbol is found depends on its document alone
  have admitted : ∀ s ∈ e.legal site,
      (s.document != some ctx.document && ctx.inFile site.kind.importPath s) =
        e.isAdmitted ctx.document site := by
    intro s legal
    rw [ExportSet.isAdmitted, inFile_of_document (own.document legal), own.document legal, uri]
    rfl
  change (e.legal site).filter _ = _
  rw [List.filter_congr admitted]
  cases e.isAdmitted ctx.document site <;> simp

/-- Whether it is for other documents to say what a reference means: the import of a class, or the
name of a type, function or variable that its own document has nothing for. -/
def IsOpen (ctx : LinkContext) (site : ReferenceSite) : Prop :=
  (∃ path, site.kind = .classImport path) ∨
    (site.kind = .type ∨ site.kind = .procedure ∨ site.kind = .variable) ∧
      ctx.lexical site = [] ∧ ctx.ownExports site = []

/-- Only where the workspace has nothing, packages are asked, and only for types. -/
theorem outcome_of_isOpen (isOpen : ctx.IsOpen site) (r : Java.Resolver) :
    (ctx.candidates r site).1.outcome =
      if ctx.inWorkspace site site.kind.importPath = [] then
        .ofOption (if site.kind = .type then firstInPackages r site.text ctx.packages else none)
      else (⟨ctx.inWorkspace site site.kind.importPath, some .workspace, true⟩ :
        Candidates).outcome := by
  rcases isOpen with ⟨path, kind⟩ | ⟨kind, lexical, ownExports⟩
  · have same : site.kind.importPath = path := by rw [kind]; rfl
    rw [candidates_classImport kind, same]
    by_cases nothing : ctx.inWorkspace site path = []
    · simp [nothing, kind, Candidates.outcome, LinkOutcome.ofOption]
    · simp [nothing]
  · have open_ : site.kind.startsInDocument = true ∧ site.kind.staysInDocument = false ∧
        site.kind.importPath = none := by
      rcases kind with kind | kind | kind <;> rw [kind] <;> decide
    obtain ⟨starts, leaves, path⟩ := open_
    rw [outcome_of_startsInDocument starts, lexical, ownExports, leaves, path,
      candidatesOutside_eq]
    by_cases nothing : ctx.inWorkspace site none = []
    · by_cases type : site.kind = .type
      · cases found : firstInPackages r site.text ctx.packages <;>
          simp [nothing, type, Candidates.outcome, LinkOutcome.ofOption]
      · simp [nothing, type, Candidates.outcome, LinkOutcome.ofOption]
    · simp [nothing]

/-- Looking through the scopes asks no other document. -/
theorem lexical_congr {ctx' : LinkContext} (tree : ctx'.tree = ctx.tree) :
    ctx'.lexical site = ctx.lexical site := by
  have legal : ctx'.legalIn site = ctx.legalIn site := by
    funext i
    rw [legalIn, legalIn, tree]
  rw [lexical, lexical, lexicalIn_eq, lexicalIn_eq, legal, tree]

theorem candidates_of_staysInDocument (stays : site.kind.staysInDocument = true)
    (r : Java.Resolver) : (ctx.candidates r site).1 =
      if ctx.lexical site ≠ [] then ⟨ctx.lexical site, some .lexical, false⟩
      else if ctx.ownExports site ≠ [] then ⟨ctx.ownExports site, some .documentExports, false⟩
      else ⟨[], none, false⟩ := by
  have starts := ReferenceKind.startsInDocument_of_stays stays
  rw [candidates_of_startsInDocument starts, stays]
  split
  · rfl
  · split <;> rfl

/-- Labels and fields are looked for in their own document alone. -/
theorem candidates_eq_of_staysInDocument (stays : site.kind.staysInDocument = true)
    (index : WorkspaceIndex) (packages : List String) (r r' : Java.Resolver) :
    (({ ctx with index, packages } : LinkContext).candidates r' site).1 =
      (ctx.candidates r site).1 := by
  have lexical : ({ ctx with index, packages } : LinkContext).lexical site = ctx.lexical site :=
    lexical_congr rfl
  rw [candidates_of_staysInDocument stays, candidates_of_staysInDocument stays, lexical]
  rfl

end LinkContext

namespace Links

/-- In a workspace where documents export what is their own, the exporters for a reference are the
other documents that export anything legal under its name, in ascending order. Where it is for them
to say what the reference means, it is ambiguous if there are several, with all that they export for
it; it means the first that the only one exports for it; and if there is none, it is unresolved, but
for a type that the Java catalog has behind a package. A label or field means what its own document
has, whatever there is elsewhere. This is what linking notes of the reference. -/
theorem link_exporters (ops : List IndexOperation) (own : ∀ e, .upsert e ∈ ops → e.IsOwn)
    (document : DocumentId) (tree : ScopeTree) (exports : ExportSet) (packages : List String)
    (r : Java.Resolver) (site : ReferenceSite) :
    let ctx : LinkContext := ⟨document, tree, exports, WorkspaceIndex.empty.run ops, packages⟩
    let exporters := (ExportMap.run ∅ ops).exporters document site
    let outcome := (ctx.candidates r site).1.outcome
    exporters.Pairwise (·.document < ·.document) ∧
    (ctx.IsOpen site →
      (1 < exporters.length → outcome = .ambiguous (exporters.flatMap (·.legal site))) ∧
      (∀ e, exporters = [e] → ∃ s, (e.legal site).head? = some s ∧ outcome = .bound s) ∧
      (exporters = [] → outcome = .ofOption
        (if site.kind = .type then LinkContext.firstInPackages r site.text packages else none))) ∧
    (site.kind = .label ∨ (∃ inherits, site.kind = .field inherits) →
      outcome = .ofOption (ctx.lexical site ++ ctx.ownExports site).head? ∧
      ∀ index packages r', (({ ctx with index, packages } : LinkContext).candidates r' site).1 =
        (ctx.candidates r site).1) ∧
    ∀ reportJava sites, (sites.map (·.node)).Nodup → site ∈ sites →
      (link ctx reportJava r sites).1.noted site.node = outcome.noted := by
  intro ctx exporters outcome
  have owned : (ExportMap.run ∅ ops).Owned := ExportMap.owned_empty.run own
  have ascending : exporters.Pairwise (·.document < ·.document) := owned.ascending.filter _
  have each : ∀ e ∈ exporters, e.IsOwn ∧ e.legal site ≠ [] := by
    intro e member
    obtain ⟨value, exports⟩ := List.mem_filter.mp member
    exact ⟨(owned.of_mem_values value).2, by simpa using (Bool.and_eq_true_iff.mp exports).2⟩
  have workspace : ctx.inWorkspace site site.kind.importPath =
      exporters.flatMap (·.legal site) :=
    LinkContext.inWorkspace_eq (WorkspaceIndex.refines_empty.run ops) owned
  refine ⟨ascending, fun isOpen => ?_, fun kind => ?_,
    fun reportJava sites distinct member => noted_link ctx reportJava r distinct member⟩
  · have decided := LinkContext.outcome_of_isOpen isOpen r
    rw [workspace, outcome_exporters each ascending] at decided
    refine ⟨fun several => ?_, fun e only => ?_, fun none => ?_⟩
    · have some : exporters.flatMap (·.legal site) ≠ [] := by
        obtain ⟨e, member⟩ := List.exists_mem_of_length_pos (Nat.zero_lt_of_lt several)
        exact fun nothing => (each e member).2 (List.flatMap_eq_nil_iff.mp nothing e member)
      rwa [if_neg some, if_pos several] at decided
    · have some : e.legal site ≠ [] := (each e (only ▸ List.mem_singleton_self e)).2
      rw [only, List.flatMap_singleton, List.length_singleton, if_neg some,
        if_neg (Nat.lt_irrefl 1)] at decided
      obtain ⟨first, rest, legal⟩ := List.exists_cons_of_ne_nil some
      rw [legal] at decided ⊢
      exact ⟨first, rfl, decided⟩
    · rwa [none, List.flatMap_nil, if_pos rfl] at decided
  · have stays : site.kind.staysInDocument = true := by
      rcases kind with kind | ⟨inherits, kind⟩ <;> rw [kind] <;> rfl
    refine ⟨LinkContext.outcome_of_staysInDocument stays r, fun index packages r' => ?_⟩
    exact LinkContext.candidates_eq_of_staysInDocument stays index packages r r'

/-- An import whose class the only matching document declares twice, and a class that two documents
export, one of which cannot be read any more. -/
theorem link_exporters_bill :
    let exportsOf (d : DocumentId) (uri text : String) : ExportSet :=
      (computeScopes d uri (parse text).program).exports
    let order := "class public Order\nclassend\n"
    let bill := "class public Bill\nclassend\n"
    let ops : List IndexOperation := [.upsert (exportsOf 3 "b.bbj" (bill ++ order)),
      .upsert (exportsOf 2 "a.bbj" bill), .upsert (exportsOf 1 "lib/order.bbj" (order ++ order)),
      .upsert (exportsOf 4 "c.bbj" bill), .markInvalid 3, .remove 4]
    let scopes := computeScopes 0 "main.bbj"
      (parse "use ::order.bbj::Order\nb = new Bill()\n").program
    let ctx : LinkContext := ⟨0, scopes.tree, scopes.exports, WorkspaceIndex.empty.run ops, []⟩
    let l := (link ctx true (.ofCatalog .empty) scopes.references).1
    let exporters := (ExportMap.run ∅ ops).exporters 0
    let imported : ReferenceSite :=
      ⟨2, "Order", "Order", ⟨17, 22⟩, .classImport (some "order.bbj"), 0⟩
    let created : ReferenceSite := ⟨5, "Bill", "Bill", ⟨31, 35⟩, .type, 0⟩
    (∀ e, .upsert e ∈ ops → e.IsOwn) ∧ scopes.references = [imported, created] ∧
      (exporters imported).map (·.document) = [1] ∧ ctx.IsOpen imported ∧
      (exporters created).map (·.document) = [2, 3] ∧ ctx.IsOpen created ∧
      (∃ s, l.noted imported.node = (some s, none, False) ∧ s.span = ⟨13, 18⟩) ∧
      l.noted created.node =
        (none, some ((exporters created).flatMap (·.legal created)), False) := by
  intro exportsOf order bill ops scopes ctx l exporters imported created
  have own : ∀ e, .upsert e ∈ ops → e.IsOwn := by
    intro e put
    simp only [ops, List.mem_cons, IndexOperation.upsert.injEq, reduceCtorEq, List.not_mem_nil,
      or_false] at put
    rcases put with rfl | rfl | rfl | rfl <;> exact ExportSet.isOwn_computeScopes _ _ _
  have references : scopes.references = [imported, created] := by decide +kernel
  have distinct := (references_apart "use ::order.bbj::Order\nb = new Bill()\n" 0 "main.bbj").1
  have first : (exporters imported).map (·.document) = [1] := by decide +kernel
  have second : (exporters created).map (·.document) = [2, 3] := by decide +kernel
  have outside : ctx.IsOpen created := .inr ⟨.inl rfl, by decide +kernel, by decide +kernel⟩
  obtain ⟨-, unique, -, noted⟩ := link_exporters ops own 0 scopes.tree scopes.exports []
    (.ofCatalog .empty) imported
  obtain ⟨-, several, -, noted'⟩ := link_exporters ops own 0 scopes.tree scopes.exports []
    (.ofCatalog .empty) created
  refine ⟨own, references, first, .inl ⟨_, rfl⟩, second, outside, ?_, ?_⟩
  · obtain ⟨e, only, -⟩ := List.map_eq_singleton_iff.mp first
    obtain ⟨s, head, bound⟩ := (unique (.inl ⟨_, rfl⟩)).2.1 e only
    have written : ∀ e ∈ exporters imported,
        (e.legal imported).head?.map (·.span) = some ⟨13, 18⟩ := by decide +kernel
    have place := written e (only ▸ List.mem_singleton_self e)
    rw [head] at place
    refine ⟨s, ?_, Option.some.inj place⟩
    rw [noted true scopes.references distinct (by rw [references]; decide), bound]
    rfl
  · have count : 1 < (exporters created).length := by
      rw [← List.length_map (f := (·.document)), second]
      decide
    rw [noted' true scopes.references distinct (by rw [references]; decide),
      (several outside).1 count]
    rfl

end Links

end BbjAnalysis
