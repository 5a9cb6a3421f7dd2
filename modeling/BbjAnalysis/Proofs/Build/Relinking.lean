import BbjAnalysis.Proofs.Build.Reading
import BbjAnalysis.Proofs.Renaming.Link

/-! # Linking afresh

What linking yields depends neither on the answers that the resolver keeps nor on names
that the document never looked up (`linkedAfresh_congr`). A document is settled if its
links and diagnostics are those of linking it afresh against the present index, and
what it looked up is recorded. A quiet fold of relinking settles the documents of its
list and unsettles no other.
-/

namespace BbjAnalysis

/-! ## Indexes that answer alike -/

namespace WorkspaceIndex

/-- The symbols that a document exports are declared in it. -/
def Owned (i : WorkspaceIndex) : Prop :=
  ∀ {d e s d'}, i.documents.get? d = some e → s ∈ e.exports.symbols → s.document = some d' → d' = d

/-- Two indexes answer alike under a name if the documents that export it correspond, and so do
their exports. -/
theorem Exact.answersAlike_rename {i j : WorkspaceIndex} (exact_ : i.Exact) (exact_' : j.Exact)
    (owned : i.Owned) {σ : DocumentId → DocumentId} (mono : StrictMono σ) {name : String}
    (forth : ∀ d, name ∈ (i.exportedNames d).getD [] →
      j.exportsOf (σ d) = (i.exportsOf d).map (.rename σ))
    (back : ∀ d', name ∈ (j.exportedNames d').getD [] →
      ∃ d, d' = σ d ∧ j.exportsOf (σ d) = (i.exportsOf d).map (.rename σ)) :
    AnswersAlike σ i j name := by
  have exported {k : WorkspaceIndex} {p : ExportPlace} {s : Symbol} (at_ : k.symbolAt p = some s)
      (named : s.name = name) : name ∈ (k.exportedNames p.document).getD [] := by
    obtain ⟨e, present, inside⟩ := symbolAt_eq_some.mp at_
    rw [exportedNames, present]
    exact named ▸ List.mem_map_of_mem (List.mem_of_getElem? inside)
  have moved {p : ExportPlace}
      (same : j.exportsOf (σ p.document) = (i.exportsOf p.document).map (.rename σ)) :
      j.symbolAt (p.rename σ) = (i.symbolAt p).map (.rename σ) := by
    simp only [symbolAt, ExportPlace.rename, same, Option.bind_map, Option.map_bind]
    refine congrArg (Option.bind _) (funext fun e => ?_)
    exact List.getElem?_map ..
  refine ⟨exact_.lookup_rename exact_' mono (fun p s at_ named => ?_) (fun q t at_ named => ?_),
    fun s member d declared => ?_⟩
  · rw [moved (forth p.document (exported at_ named)), at_]
    rfl
  · obtain ⟨d, document, same⟩ := back q.document (exported at_ named)
    have renamed : q = ExportPlace.rename σ ⟨d, q.position⟩ := by
      cases q
      exact congrArg (ExportPlace.mk · _) document
    have at' := at_
    rw [renamed, moved same, Option.map_eq_some_iff] at at'
    obtain ⟨s, inside, rfl⟩ := at'
    exact ⟨_, s, renamed, inside, named⟩
  · obtain ⟨p, at_, named⟩ := exact_.mem_lookup.mp member
    obtain ⟨e, present, inside⟩ := symbolAt_eq_some.mp at_
    obtain rfl := owned present (List.mem_of_getElem? inside) declared
    have exports : i.exportsOf p.document = some e.exports := by
      rw [exportsOf, present, Option.map_some]
    refine ⟨?_, fun unknown => ?_⟩
    · rw [uriOf, uriOf, forth p.document (exported at_ named), exports]
      rfl
    · rw [uriOf, exports] at unknown
      cases unknown

/-- Two indexes find the same under a name if every document that exports it in one of them
exports the same in both. -/
theorem Exact.answersAlike {i j : WorkspaceIndex} (exact_ : i.Exact) (exact_' : j.Exact)
    (owned : i.Owned) {name : String}
    (same : ∀ d, name ∈ (i.exportedNames d).getD [] ∨ name ∈ (j.exportedNames d).getD [] →
      i.exportsOf d = j.exportsOf d) : AnswersAlike id i j name := by
  have unmoved (d : DocumentId) (same : i.exportsOf d = j.exportsOf d) :
      j.exportsOf (id d) = (i.exportsOf d).map (.rename id) := by
    rw [funext ExportSet.rename_id, Option.map_id', same]
    rfl
  refine exact_.answersAlike_rename exact_' owned strictMono_id
    (fun d exported => unmoved d (same d (.inl exported))) fun d exported => ?_
  exact ⟨d, rfl, unmoved d (same d (.inr exported))⟩

end WorkspaceIndex

/-! ## Linking afresh -/

/-- The scopes by which a document is linked, if its latest text has no syntax errors. -/
def OpenDocument.linkable (d : OpenDocument) : Option Analysed :=
  if d.readCleanly then d.analysed else none

theorem OpenDocument.linkable_reread (x : DocumentId) {d : OpenDocument}
    (clean : (parse d.text).isClean = true) : (d.reread x).linkable = some (d.analysis x) := by
  rw [linkable, readCleanly_reread, clean, if_pos rfl, reread_of_clean x clean]

namespace Builder

/-- The links of a document against the present workspace, and its diagnostics, with nothing kept
of what the Java catalog answered before. -/
def linkedAfresh (b : Builder) (id : DocumentId) (a : Analysed) : Links × List Diagnostic :=
  let l := (Links.link (b.linkContext id a.scopes) b.config.reportUnresolvedJava
    (.ofCatalog b.resolver.catalog) a.scopes.references).1
  (l, Diagnostic.sort (l.diagnostics ++
    b.rules.validate ⟨id, a.program, a.scopes.tree, a.scopes.references, l⟩))

/-- What a document depends on by its links. -/
def dependence (b : Builder) (id : DocumentId) (a : Analysed) : Dependence :=
  ⟨(b.linkedAfresh id a).1.workspaceNames, (b.linkedAfresh id a).1.boundDocuments⟩

section Congr

variable {c : Java.ClassSource} {b b' : Builder} {x : DocumentId} {a : Analysed}

/-- Linking against indexes that answer alike, with resolvers that agree. -/
theorem link_congr (packages : b'.packages = b.packages) {r r' : Java.Resolver}
    (agrees : Java.Resolver.Agrees c r r') (reportJava : Bool)
    (answers : ∀ site ∈ a.scopes.references, (b.linkContext x a.scopes).consults site = true →
      WorkspaceIndex.AnswersAlike id b.index b'.index site.name) :
    (Links.link (b'.linkContext x a.scopes) reportJava r' a.scopes.references).1 =
      (Links.link (b.linkContext x a.scopes) reportJava r a.scopes.references).1 ∧
    Java.Resolver.Agrees c
      (Links.link (b.linkContext x a.scopes) reportJava r a.scopes.references).2
      (Links.link (b'.linkContext x a.scopes) reportJava r' a.scopes.references).2 := by
  have renames : LinkContext.RenamesTo id (b.linkContext x a.scopes) (b'.linkContext x a.scopes) :=
    ⟨rfl, (ScopeTree.rename_id _).symm, (ExportSet.rename_id _).symm, packages⟩
  obtain ⟨links, resolvers⟩ := Links.link_rename renames strictMono_id reportJava answers agrees
  exact ⟨links.trans (Links.rename_id _), resolvers⟩

/-- A document notices no change of the index but under the names that it looked up. -/
theorem linkedAfresh_congr (config : b'.config = b.config) (packages : b'.packages = b.packages)
    (rules : b'.rules = b.rules) (catalog : b'.resolver.catalog = b.resolver.catalog)
    (answers : ∀ name ∈ (b.dependence x a).names,
      WorkspaceIndex.AnswersAlike id b.index b'.index name) :
    b'.linkedAfresh x a = b.linkedAfresh x a := by
  have fresh := Java.Resolver.faithful_ofCatalog b.resolver.catalog
  have same := (link_congr packages ⟨rfl, rfl, fresh, fresh⟩ b.config.reportUnresolvedJava
    (fun site member consulted => answers site.name
      ((Links.mem_workspaceNames_link _ _ _ _).mpr ⟨site, member, consulted, rfl⟩))).1
  simp only [linkedAfresh, config, rules, catalog, same]

/-- What the resolver keeps makes no difference. -/
theorem linked_eq_linkedAfresh (index : b.index.Exact) (owned : b.index.Owned)
    (faithful : b.resolver.Faithful) :
    (b.linked x a).1 = (b.linkedAfresh x a).1 ∧ (b.linked x a).2.1 = (b.linkedAfresh x a).2 ∧
      (b.linked x a).2.2.Faithful ∧ (b.linked x a).2.2.catalog = b.resolver.catalog := by
  have agrees : Java.Resolver.Agrees b.resolver.catalog b.resolver
      (.ofCatalog b.resolver.catalog) :=
    ⟨rfl, rfl, faithful, Java.Resolver.faithful_ofCatalog _⟩
  obtain ⟨links, resolvers⟩ := link_congr (b := b) (x := x) (a := a) rfl agrees
    b.config.reportUnresolvedJava fun site _ _ => index.answersAlike index owned fun _ _ => rfl
  refine ⟨links.symm, ?_, resolvers.faithful, resolvers.catalog⟩
  simp only [linked, linkedAfresh, links]

end Congr

/-! ## Relinking -/

/-- The document with the links and diagnostics of linking it afresh. -/
def settle (b : Builder) (x : DocumentId) (d : OpenDocument) : OpenDocument :=
  match d.linkable with
  | some a => { d with links := (b.linkedAfresh x a).1, diagnostics := (b.linkedAfresh x a).2 }
  | none => d

section Settle

variable {b : Builder} {x : DocumentId} {d : OpenDocument} {a : Analysed}

theorem settle_of_linkable (linkable : d.linkable = some a) :
    b.settle x d =
      { d with links := (b.linkedAfresh x a).1, diagnostics := (b.linkedAfresh x a).2 } := by
  rw [settle, linkable]

theorem settle_of_not_linkable (none : d.linkable = none) : b.settle x d = d := by
  rw [settle, none]

theorem linkable_settle : (b.settle x d).linkable = d.linkable := by
  cases linkable : d.linkable with
  | none => rw [settle_of_not_linkable linkable, linkable]
  | some a =>
      rw [settle_of_linkable linkable]
      exact linkable

theorem source_settle : (b.settle x d).source = d.source := by
  cases linkable : d.linkable with
  | none => rw [settle_of_not_linkable linkable]
  | some a => rw [settle_of_linkable linkable]; rfl

/-- A document whose text is read without errors and linked. -/
theorem settle_reread_of_clean (clean : (parse d.text).isClean = true) :
    b.settle x (d.reread x) =
      { d with
        latest := some (parse d.text)
        analysed := some (d.analysis x)
        links := (b.linkedAfresh x (d.analysis x)).1
        diagnostics := (b.linkedAfresh x (d.analysis x)).2 } := by
  rw [settle_of_linkable (OpenDocument.linkable_reread x clean),
    OpenDocument.reread_of_clean x clean]

end Settle

/-- A document and what is recorded that it depends on. -/
def linkState (b : Builder) (x : DocumentId) : Option OpenDocument × Option Dependence :=
  (b.document? x, b.dependencies.forward.get? x)

/-- What relinking does to a document and its record. -/
def relinked (b : Builder) (x : DocumentId) :
    Option OpenDocument × Option Dependence → Option OpenDocument × Option Dependence
  | (none, g) => (none, g)
  | (some d, g) => (some (b.settle x d), (d.linkable.map (b.dependence x)).or g)

theorem relinked_relinked (b : Builder) (x : DocumentId)
    (s : Option OpenDocument × Option Dependence) :
    b.relinked x (b.relinked x s) = b.relinked x s := by
  obtain ⟨d, g⟩ := s
  cases d with
  | none => rfl
  | some d =>
      simp only [relinked, linkable_settle]
      cases linkable : d.linkable with
      | none => rw [settle_of_not_linkable linkable, settle_of_not_linkable linkable]; rfl
      | some a =>
          have again : (b.settle x d).linkable = some a := linkable_settle.trans linkable
          rw [settle_of_linkable again, settle_of_linkable linkable]
          rfl

/-- The state `b'` of a quiet pass that links against the workspace of `b`. -/
structure Linking (b b' : Builder) : Prop where
  setting : b'.setting = b.setting
  sources : ∀ x, (b'.document? x).map (·.source) = (b.document? x).map (·.source)
  quiet : b'.Quiet
  index : b'.index = b.index
  dependencies : b'.dependencies.Exact
  resolver : b'.resolver.Faithful

section Relink

variable {b : Builder} {s : Builder × BuildReport} {x : DocumentId} {d : OpenDocument}
  {a : Analysed}

theorem Quiet.relink_of_linkable (quiet : s.1.Quiet) (present : s.1.document? x = some d)
    (linkable : d.linkable = some a) :
    relink s x = (s.1.storeLinks x (s.1.linked x a), s.2.addRelinked x) := by
  unfold OpenDocument.linkable at linkable
  split at linkable
  · next clean =>
      simp only [relink, present, clean, Bool.not_true, Bool.false_eq_true, if_false, quiet.arrive,
        quiet.isCancelled present, linkable, quiet.onClasses]
  · cases linkable

theorem Quiet.relink_of_not_linkable (quiet : s.1.Quiet) (present : s.1.document? x = some d)
    (none : d.linkable = none) : relink s x = s := by
  unfold OpenDocument.linkable at none
  split at none
  · next clean =>
      simp only [relink, present, clean, Bool.not_true, Bool.false_eq_true, if_false, quiet.arrive,
        quiet.isCancelled present, none]
  · next broken =>
      simp only [relink, present, broken, Bool.not_false, if_true]

theorem relink_of_absent (absent : s.1.document? x = none) : relink s x = s := by
  simp only [relink, absent]

theorem linkedAfresh_eq {b' : Builder} (setting : b'.setting = b.setting)
    (index : b'.index = b.index) : b'.linkedAfresh = b.linkedAfresh := by
  have config : b'.config = b.config := congrArg Setting.config setting
  have packages : b'.packages = b.packages := congrArg Setting.packages setting
  have rules : b'.rules = b.rules := congrArg Setting.rules setting
  have catalog : b'.resolver.catalog = b.resolver.catalog := congrArg Setting.catalog setting
  funext x a
  simp only [linkedAfresh, linkContext, config, packages, rules, catalog, index]

theorem linkState_storeLinks (b' : Builder) (x y : DocumentId)
    (found : Links × List Diagnostic × Java.Resolver) :
    (b'.storeLinks x found).linkState y =
      if y = x then
        ((b'.document? y).map fun d => { d with links := found.1, diagnostics := found.2.1 },
          some ⟨found.1.workspaceNames, found.1.boundDocuments⟩)
      else b'.linkState y := by
  refine Prod.ext ((document?_update _ x y _).trans ?_)
    ((Dependencies.get?_record _ x y _).trans ?_) <;> split <;> rfl

theorem setting_storeLinks {b' : Builder} (x : DocumentId)
    {found : Links × List Diagnostic × Java.Resolver}
    (catalog : found.2.2.catalog = b'.resolver.catalog) :
    (b'.storeLinks x found).setting = b'.setting := by
  simp only [setting, storeLinks, update, catalog]

theorem source_storeLinks (b' : Builder) (x : DocumentId)
    (found : Links × List Diagnostic × Java.Resolver) (y : DocumentId) :
    ((b'.storeLinks x found).document? y).map (·.source) = (b'.document? y).map (·.source) := by
  refine (source_update ?_ y).trans rfl
  exact fun _ => rfl

/-- One relinking amid a quiet pass. -/
theorem Linking.relink_spec (linking : Linking b s.1) (exact_ : b.index.Exact)
    (owned : b.index.Owned) (x : DocumentId) :
    Linking b (relink s x).1 ∧
      ∀ y, (relink s x).1.linkState y =
        if y = x then b.relinked y (s.1.linkState y) else s.1.linkState y := by
  cases present : s.1.document? x with
  | none =>
      rw [relink_of_absent present]
      refine ⟨linking, fun y => ?_⟩
      split
      · next same => simp only [linkState, same, present, relinked]
      · rfl
  | some d =>
      cases linkable : d.linkable with
      | none =>
          rw [linking.quiet.relink_of_not_linkable present linkable]
          refine ⟨linking, fun y => ?_⟩
          split
          · next same =>
              simp only [linkState, same, present, relinked, linkable, settle_of_not_linkable,
                Option.map_none, Option.none_or]
          · rfl
      | some a =>
          rw [linking.quiet.relink_of_linkable present linkable]
          have afresh := linkedAfresh_eq linking.setting linking.index
          obtain ⟨links, diagnostics, faithful, catalog⟩ :=
            linked_eq_linkedAfresh (b := s.1) (x := x) (a := a) (linking.index ▸ exact_)
              (linking.index ▸ owned) linking.resolver
          rw [afresh] at links diagnostics
          have kept := setting_storeLinks x catalog
          have sources := source_storeLinks s.1 x (s.1.linked x a)
          refine ⟨⟨kept.trans linking.setting, fun y => (sources y).trans (linking.sources y),
            linking.quiet.of_sources kept sources, linking.index,
            linking.dependencies.record _ _, faithful⟩, fun y => ?_⟩
          rw [linkState_storeLinks]
          split
          · next same =>
              subst same
              simp only [linkState, present, relinked, linkable, settle_of_linkable linkable,
                Option.map_some, Option.some_or, links, diagnostics, dependence]
          · rfl

/-- A quiet fold of relinking. -/
theorem Linking.foldl_relink (linking : Linking b s.1) (exact_ : b.index.Exact)
    (owned : b.index.Owned) (ids : List DocumentId) :
    Linking b (ids.foldl relink s).1 ∧
      ∀ y, (ids.foldl relink s).1.linkState y =
        if y ∈ ids then b.relinked y (s.1.linkState y) else s.1.linkState y :=
  foldl_view (fun s : Builder × BuildReport => s.1.linkState) (fun s => Linking b s.1)
    (fun _ x linking => (linking.relink_spec exact_ owned x).1)
    (fun _ x y linking => (linking.relink_spec exact_ owned x).2 y) b.relinked_relinked ids linking

end Relink

end Builder

end BbjAnalysis
