import BbjAnalysis.Proofs.Build.Coherence

/-! # Runs of a builder

Whatever is done with a builder, it stays coherent, as long as nothing is cancelled: its
links are those of linking every document afresh (`run_linked`). What follows from the
texts alone does not depend on how the documents of a pass are spread over several
passes, and so neither do the links (`run_rebuild_batches`).
-/

namespace BbjAnalysis

/-- What can be done with a builder. -/
inductive Operation where
  | openDocument (uri text : String)
  | rebuild (ids : List DocumentId)
  | rebuildAll
  | removeDocument (id : DocumentId)
  | reloadCatalog
  | replaceCatalog (catalog : Java.ClassSource)

/-- The catalog that Java names are looked up in afterwards. -/
def Operation.catalogAfter (former : Java.ClassSource) : Operation → Java.ClassSource
  | .replaceCatalog catalog => catalog
  | _ => former

namespace Builder

/-- The builder after an operation. What fails changes nothing. -/
def perform (b : Builder) : Operation → Builder
  | .openDocument uri text => (b.openDocument uri text).2
  | .rebuild ids => (b.rebuild ids).1
  | .rebuildAll => b.rebuildAll.1
  | .removeDocument id =>
      match b.removeDocument id with
      | .ok (b, _) => b
      | .error _ => b
  | .reloadCatalog => b.reloadCatalog.1
  | .replaceCatalog catalog => (b.replaceCatalog catalog).1

def run (b : Builder) (ops : List Operation) : Builder := ops.foldl perform b

/-! ## Coherence -/

theorem coherent_new (config : BuildConfig) (packages : List String) (rules : RuleSet)
    (catalog : Java.ClassSource) :
    ((new config rules catalog).withPackages packages).Coherent where
  quiet := ⟨rfl, rfl, nofun⟩
  index := WorkspaceIndex.exact_empty
  dependencies := Dependencies.exact_empty
  resolver := Java.Resolver.faithful_ofCatalog catalog
  entry _ := rfl
  scopes := nofun
  below := nofun
  registered := ⟨nofun, nofun⟩
  settled _ := settled_of_absent rfl

theorem Coherent.perform {b : Builder} (coherent : b.Coherent) (op : Operation) :
    (b.perform op).Coherent := by
  cases op with
  | openDocument uri text => exact coherent.openDocument uri text
  | rebuild ids => exact coherent.rebuild ids
  | rebuildAll => exact coherent.rebuild b.documents.keys
  | removeDocument id =>
      simp only [Builder.perform]
      cases removed : b.removeDocument id with
      | ok r => exact coherent.removeDocument removed
      | error e => exact coherent
  | reloadCatalog => exact coherent.reloadCatalog
  | replaceCatalog catalog => exact coherent.replaceCatalog catalog

theorem Coherent.run {b : Builder} (coherent : b.Coherent) (ops : List Operation) :
    (b.run ops).Coherent := by
  induction ops generalizing b with
  | nil => exact coherent
  | cons op rest ih => exact ih (coherent.perform op)

/-! ## What stays as it was at the start -/

/-- Whether linking in `b'` takes place with the configuration of `b` and with the given catalog. -/
structure Configured (b : Builder) (catalog : Java.ClassSource) (b' : Builder) : Prop where
  config : b'.config = b.config
  packages : b'.packages = b.packages
  rules : b'.rules = b.rules
  catalog : b'.resolver.catalog = catalog

theorem Configured.of_setting {b b₁ b₂ : Builder} {catalog : Java.ClassSource}
    (configured : b.Configured catalog b₁) (setting : b₂.setting = b₁.setting) :
    b.Configured catalog b₂ where
  config := (congrArg Setting.config setting).trans configured.config
  packages := (congrArg Setting.packages setting).trans configured.packages
  rules := (congrArg Setting.rules setting).trans configured.rules
  catalog := (congrArg Setting.catalog setting).trans configured.catalog

theorem Configured.between {b b₁ b₂ : Builder} {catalog : Java.ClassSource}
    (one : b.Configured catalog b₁) (other : b.Configured catalog b₂) :
    b₁.Configured b₁.resolver.catalog b₂ where
  config := other.config.trans one.config.symm
  packages := other.packages.trans one.packages.symm
  rules := other.rules.trans one.rules.symm
  catalog := other.catalog.trans one.catalog.symm

theorem Configured.perform {b b' : Builder} {catalog : Java.ClassSource}
    (configured : b.Configured catalog b') (coherent : b'.Coherent) (op : Operation) :
    b.Configured (op.catalogAfter catalog) (b'.perform op) := by
  cases op with
  | openDocument uri text =>
      simp only [Builder.perform, Builder.openDocument]
      split <;> exact ⟨configured.config, configured.packages, configured.rules, configured.catalog⟩
  | rebuild ids => exact configured.of_setting (coherent.setting_rebuild ids)
  | rebuildAll => exact configured.of_setting (coherent.setting_rebuild b'.documents.keys)
  | removeDocument id =>
      simp only [Builder.perform]
      cases present : b'.document? id with
      | none =>
          simp only [removeDocument, present]
          exact configured
      | some d =>
          rw [removeDocument_of_open present]
          have linking := (coherent.toSound.forget present).linking_foldl .empty
            (b'.dependencies.dependents id ((b'.index.remove id).1.getD [])).toList
          refine Configured.of_setting ?_ linking.setting
          exact ⟨configured.config, configured.packages, configured.rules, configured.catalog⟩
  | reloadCatalog =>
      refine Configured.of_setting ?_ (coherent.withReload.linking_foldl .empty _).setting
      exact ⟨configured.config, configured.packages, configured.rules, configured.catalog⟩
  | replaceCatalog next =>
      refine Configured.of_setting ?_ ((coherent.withCatalog next).linking_foldl .empty _).setting
      exact ⟨configured.config, configured.packages, configured.rules, rfl⟩

theorem Configured.run {b b' : Builder} {catalog : Java.ClassSource}
    (configured : b.Configured catalog b') (coherent : b'.Coherent) (ops : List Operation) :
    b.Configured (ops.foldl Operation.catalogAfter catalog) (b'.run ops) := by
  induction ops generalizing b' catalog with
  | nil => exact configured
  | cons op rest ih => exact ih (configured.perform coherent op) (coherent.perform op)

/-! ## Incremental building is building from scratch -/

/-- The links of a document of a coherent builder whose latest text has no syntax errors are those
of linking it afresh, and its diagnostics are those of the links and of the rules. -/
theorem Configured.links_eq {b b' : Builder} {catalog : Java.ClassSource}
    (configured : b.Configured catalog b') (coherent : b'.Coherent) {id : DocumentId}
    {d : OpenDocument} {a : Analysed} (present : b'.document? id = some d)
    (clean : d.readCleanly = true) (analysed : d.analysed = some a) :
    d.links =
        (Links.link ⟨id, a.scopes.tree, a.scopes.exports, b'.index, b.packages⟩
          b.config.reportUnresolvedJava (.ofCatalog catalog) a.scopes.references).1 ∧
      d.diagnostics =
        Diagnostic.sort (d.links.diagnostics ++
          b.rules.validate ⟨id, a.program, a.scopes.tree, a.scopes.references, d.links⟩) := by
  have linkable : d.linkable = some a := by rw [OpenDocument.linkable, if_pos clean, analysed]
  have fixed := (coherent.settled id).eq present linkable |>.1
  rw [settle_of_linkable linkable] at fixed
  have links := congrArg OpenDocument.links fixed
  have diagnostics := congrArg OpenDocument.diagnostics fixed
  dsimp only at links diagnostics
  refine ⟨?_, ?_⟩
  · rw [← links, linkedAfresh, linkContext, configured.config, configured.packages,
      configured.catalog]
  · rw [← links, ← diagnostics, linkedAfresh, configured.rules]

/-- After any run, the links of a document whose latest text has no syntax errors are those of
linking its references against the present index, with nothing kept of what the present catalog
answered before; and its diagnostics are those of the links and of the rules. -/
theorem run_linked (config : BuildConfig) (packages : List String) (rules : RuleSet)
    (catalog : Java.ClassSource) (ops : List Operation) {id : DocumentId} {d : OpenDocument}
    {a : Analysed}
    (present : (((new config rules catalog).withPackages packages).run ops).document? id = some d)
    (clean : d.readCleanly = true) (analysed : d.analysed = some a) :
    d.links =
        (Links.link
          ⟨id, a.scopes.tree, a.scopes.exports,
            (((new config rules catalog).withPackages packages).run ops).index, packages⟩
          config.reportUnresolvedJava (.ofCatalog (ops.foldl Operation.catalogAfter catalog))
          a.scopes.references).1 ∧
      d.diagnostics =
        Diagnostic.sort (d.links.diagnostics ++
          rules.validate ⟨id, a.program, a.scopes.tree, a.scopes.references, d.links⟩) := by
  have start := coherent_new config packages rules catalog
  have configured := Configured.run ⟨rfl, rfl, rfl, rfl⟩ start ops
  exact configured.links_eq (start.run ops) present clean analysed

/-- A document that names a class, and is built before the document that declares the class. -/
def classBuiltLate : List Operation :=
  [.openDocument "a.bbj" "class public A\nclassend\n", .openDocument "b.bbj" "x! = new A()\n",
    .rebuild [1], .rebuild [0]]

theorem run_linked_classBuiltLate :
    ∃ d a, (((new .standard .standard .empty).withPackages []).run classBuiltLate).document? 1 =
        some d ∧
      d.readCleanly = true ∧ d.analysed = some a ∧
      d.links =
        (Links.link
          ⟨1, a.scopes.tree, a.scopes.exports,
            (((new .standard .standard .empty).withPackages []).run classBuiltLate).index, []⟩
          true (.ofCatalog .empty) a.scopes.references).1 ∧
      d.diagnostics =
        Diagnostic.sort (d.links.diagnostics ++
          RuleSet.standard.validate
            ⟨1, a.program, a.scopes.tree, a.scopes.references, d.links⟩) := by
  have readable : ((((new .standard .standard .empty).withPackages []).run
      classBuiltLate).document? 1).any (fun d => d.readCleanly && d.analysed.isSome) = true := by
    decide +kernel
  obtain ⟨d, present, known⟩ := Option.any_eq_true _ _ |>.mp readable
  obtain ⟨clean, analysed⟩ := Bool.and_eq_true_iff.mp known
  obtain ⟨a, analysed⟩ := Option.isSome_iff_exists.mp analysed
  obtain ⟨links, diagnostics⟩ := run_linked .standard [] .standard .empty classBuiltLate present
    clean analysed
  exact ⟨d, a, present, clean, analysed, links, diagnostics⟩

/-! ## Spreading a pass over several passes -/

section Batches

variable (b b' : Builder) (x : DocumentId) (d : OpenDocument)

theorem settle_with_links {a : Analysed} (linkable : d.linkable = some a) (links : Links)
    (diagnostics : List Diagnostic) :
    b.settle x { d with links, diagnostics } = b.settle x d := by
  have again : { d with links, diagnostics }.linkable = some a := linkable
  rw [settle_of_linkable again, settle_of_linkable linkable]

theorem settle_settle : b'.settle x (b.settle x d) = b'.settle x d := by
  cases linkable : d.linkable with
  | none => rw [settle_of_not_linkable linkable]
  | some a => rw [settle_of_linkable linkable, settle_with_links b' x d linkable]

/-- A text that is read again leaves nothing of former links once it is linked. -/
theorem settle_reread_settle :
    b'.settle x ((b.settle x d).reread x) = b'.settle x (d.reread x) := by
  -- A text without errors is linked again, and one with errors loses its links when it is read.
  cases linkable : d.linkable with
  | none => rw [settle_of_not_linkable linkable]
  | some a =>
      rw [settle_of_linkable linkable]
      cases clean : (parse d.text).isClean with
      | true =>
          have again := OpenDocument.linkable_reread x clean
          refine Eq.trans (congrArg (b'.settle x) ?_)
            (settle_with_links b' x _ again (b.linkedAfresh x a).1 (b.linkedAfresh x a).2)
          rw [OpenDocument.reread_of_clean x clean]
          exact OpenDocument.reread_of_clean x clean
      | false =>
          rw [OpenDocument.reread_of_broken x clean]
          exact congrArg (b'.settle x) (OpenDocument.reread_of_broken x clean)

end Batches

/-- Several passes, one after the other. -/
def rebuildEach (b : Builder) (batches : List (List DocumentId)) : Builder :=
  batches.foldl (fun b ids => (b.rebuild ids).1) b

/-- Several passes come to reading all their documents, and linking everything in the end. -/
theorem Coherent.rebuildEach {b : Builder} (coherent : b.Coherent)
    (batches : List (List DocumentId)) :
    (b.rebuildEach batches).Coherent ∧ (b.rebuildEach batches).setting = b.setting ∧
      ∀ x, (b.rebuildEach batches).document? x =
        (b.document? x).map fun d =>
          (b.rebuildEach batches).settle x (if x ∈ batches.flatten then d.reread x else d) := by
  induction batches generalizing b with
  | nil => exact ⟨coherent, rfl, fun x => (coherent.settled x).map_settle.symm⟩
  | cons ids rest ih =>
      -- The closed form of the later passes, applied to what the first one leaves.
      obtain ⟨final, setting, documents⟩ := ih (coherent.rebuild ids)
      refine ⟨final, setting.trans (coherent.setting_rebuild ids), fun x => ?_⟩
      refine (documents x).trans ?_
      rw [coherent.document?_rebuild ids x, Option.map_map]
      refine congrArg (Option.map · _) (funext fun d => ?_)
      simp only [Function.comp_apply, List.flatten_cons, List.mem_append]
      by_cases later : x ∈ rest.flatten
      · by_cases now : x ∈ ids
        · rw [if_pos later, if_pos now, if_pos (.inl now), settle_reread_settle,
            OpenDocument.reread_reread]
          rfl
        · rw [if_pos later, if_neg now, if_pos (.inr later), settle_reread_settle]
          rfl
      · by_cases now : x ∈ ids
        · rw [if_neg later, if_pos now, if_pos (.inl now), settle_settle]
          rfl
        · rw [if_neg later, if_neg now, if_neg (not_or.mpr ⟨now, later⟩), settle_settle]
          rfl

/-- Coherent builders whose documents differ in their links alone do not differ. -/
theorem Coherent.eq_of_settle {b b' : Builder} (coherent : b.Coherent) (coherent' : b'.Coherent)
    (setting : b'.setting = b.setting) (unlinked : DocumentId → Option OpenDocument)
    (documents : ∀ x, b.document? x = (unlinked x).map (b.settle x))
    (documents' : ∀ x, b'.document? x = (unlinked x).map (b'.settle x)) :
    b'.documents = b.documents ∧ b'.index = b.index := by
  have entries (c : Builder) (x : DocumentId) :
      ((unlinked x).map (c.settle x)).bind (·.entry) = (unlinked x).bind (·.entry) := by
    rw [Option.bind_map]
    refine congrArg (Option.bind _) (funext fun d => ?_)
    have known := known_settle c x d
    simp only [Prod.mk.injEq] at known
    simp only [Function.comp_apply, OpenDocument.entry, OpenDocument.readCleanly, known.2.1,
      known.2.2]
  have index : b'.index = b.index := by
    refine coherent'.index.ext_documents coherent.index (OrderedMap.ext_get? fun x => ?_)
    rw [coherent'.entry, coherent.entry, documents x, documents' x, entries, entries]
  refine ⟨OrderedMap.ext_get? fun x => ?_, index⟩
  refine (documents' x).trans (Eq.trans ?_ (documents x).symm)
  rw [settle_eq setting index]

/-- Passes over the same documents, in whatever batches and order and however often, leave the
same documents and the same index as one pass over all of them; so does the pass made again. -/
theorem run_rebuild_batches (config : BuildConfig) (packages : List String) (rules : RuleSet)
    (catalog : Java.ClassSource) (ops : List Operation) (ids : List DocumentId)
    (batches : List (List DocumentId)) (same : ∀ x, x ∈ batches.flatten ↔ x ∈ ids) :
    let b := ((new config rules catalog).withPackages packages).run ops
    (b.rebuildEach batches).documents = (b.rebuild ids).1.documents ∧
      (b.rebuildEach batches).index = (b.rebuild ids).1.index ∧
      ((b.rebuild ids).1.rebuild ids).1.documents = (b.rebuild ids).1.documents ∧
      ((b.rebuild ids).1.rebuild ids).1.index = (b.rebuild ids).1.index := by
  intro b
  have coherent : b.Coherent := (coherent_new config packages rules catalog).run ops
  have once := coherent.rebuild ids
  have documents := coherent.document?_rebuild ids
  obtain ⟨final, setting, spread⟩ := coherent.rebuildEach batches
  obtain ⟨final₂, setting₂, twice⟩ := coherent.rebuildEach [ids, ids]
  simp only [same] at spread
  have repeated (x : DocumentId) : x ∈ [ids, ids].flatten ↔ x ∈ ids := by simp
  simp only [repeated] at twice
  have settled {b' : Builder} (c : b'.Coherent) (setting : b'.setting = b.setting)
      (documents' : ∀ x, b'.document? x =
        (b.document? x).map fun d => b'.settle x (if x ∈ ids then d.reread x else d)) :
      b'.documents = (b.rebuild ids).1.documents ∧ b'.index = (b.rebuild ids).1.index := by
    refine once.eq_of_settle c (setting.trans (coherent.setting_rebuild ids).symm)
      (fun x => (b.document? x).map fun d => if x ∈ ids then d.reread x else d)
      (fun x => ?_) fun x => ?_
    · rw [documents x, Option.map_map]
      rfl
    · rw [documents' x, Option.map_map]
      rfl
  obtain ⟨sameDocuments, sameIndex⟩ := settled final setting spread
  obtain ⟨sameDocuments₂, sameIndex₂⟩ := settled final₂ setting₂ twice
  exact ⟨sameDocuments, sameIndex, sameDocuments₂, sameIndex₂⟩

/-- Two documents that name one another's classes, where the text of one is broken when both are
built together. -/
def brokenPair : List Operation :=
  [.openDocument "a.bbj" "class public A\nclassend\ny! = new B()\n",
    .openDocument "b.bbj" "class public B\nclassend\nx! = new A()\n", .rebuildAll,
    .openDocument "b.bbj" "class public\n"]

theorem run_rebuild_batches_brokenPair :
    let b := ((new .standard .standard .empty).withPackages []).run brokenPair
    (b.rebuildEach [[1], [0], [1, 7]]).documents = (b.rebuild [0, 1, 7]).1.documents ∧
      (b.rebuildEach [[1], [0], [1, 7]]).index = (b.rebuild [0, 1, 7]).1.index :=
  have same := run_rebuild_batches .standard [] .standard .empty brokenPair [0, 1, 7]
    [[1], [0], [1, 7]] (by simp)
  ⟨same.1, same.2.1⟩

end Builder

end BbjAnalysis
