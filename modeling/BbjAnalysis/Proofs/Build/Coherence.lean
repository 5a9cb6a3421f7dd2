import BbjAnalysis.Proofs.Build.Relinking
import BbjAnalysis.Proofs.Renaming.Scope

/-! # Coherent builders

A builder is sound if its tables say of every document what the document itself says,
and coherent if besides every document is settled. All operations keep builders
coherent, as long as nothing is cancelled: whatever an operation changes in the index,
it links those again who looked up a name that is affected.
-/

namespace BbjAnalysis

namespace Builder

/-- The tables of a quiet builder belong together. -/
structure Sound (b : Builder) : Prop where
  quiet : b.Quiet
  index : b.index.Exact
  dependencies : b.dependencies.Exact
  resolver : b.resolver.Faithful
  entry : ∀ x, b.index.documents.get? x = (b.document? x).bind (·.entry)
  scopes : ∀ {x d a}, b.document? x = some d → d.analysed = some a →
    a.scopes = computeScopes x d.uri a.program
  below : ∀ {x uri}, b.uriOf x = some uri → x < b.nextId
  registered : ∀ {uri x}, b.byUri.get? uri = some x ↔ b.uriOf x = some uri

/-- Linking a document again would change neither its links nor its record. -/
def Settled (b : Builder) (x : DocumentId) : Prop := b.relinked x (b.linkState x) = b.linkState x

structure Coherent (b : Builder) : Prop extends b.Sound where
  settled : ∀ x, b.Settled x

section Sound

variable {b b' : Builder} {x : DocumentId} {d : OpenDocument}

theorem Sound.owned (sound : b.Sound) : b.index.Owned := by
  intro y e s d' present member declared
  rw [sound.entry, Option.bind_eq_some_iff] at present
  obtain ⟨d, open_, known⟩ := present
  obtain ⟨a, analysed, rfl⟩ := Option.map_eq_some_iff.mp known
  dsimp only at member
  rw [sound.scopes open_ analysed] at member
  exact collect_exports_document member declared

/-- A builder is sound if it has the tables of a sound one and documents that differ in their
links and diagnostics alone. -/
theorem Sound.of_documents (sound : b.Sound) (setting : b'.setting = b.setting) (quiet : b'.Quiet)
    (index : b'.index = b.index) (dependencies : b'.dependencies.Exact)
    (resolver : b'.resolver.Faithful)
    (documents : ∀ y, (b'.document? y).map (fun d => (d.uri, d.latest, d.analysed)) =
      (b.document? y).map fun d => (d.uri, d.latest, d.analysed)) : b'.Sound := by
  have uris (y : DocumentId) : b'.uriOf y = b.uriOf y := by
    have same := congrArg (Option.map (·.1)) (documents y)
    simp only [Option.map_map] at same
    exact same
  refine ⟨quiet, index ▸ sound.index, dependencies, resolver, fun y => ?_, ?_, ?_, ?_⟩
  · rw [index, sound.entry]
    have same := congrArg
      (Option.bind · fun s =>
        s.2.2.map fun a => IndexEntry.mk a.scopes.exports (s.2.1.any (·.isClean)))
      (documents y)
    simp only [Option.bind_map] at same
    exact same.symm
  · intro y d a present analysed
    have same := documents y
    rw [present, Option.map_some, eq_comm, Option.map_eq_some_iff] at same
    obtain ⟨d', present', same⟩ := same
    simp only [Prod.mk.injEq] at same
    rw [← same.1]
    exact sound.scopes present' (same.2.2.trans analysed)
  · intro y uri known
    rw [show b'.nextId = b.nextId from congrArg Setting.nextId setting]
    exact sound.below ((uris y).symm.trans known)
  · intro uri y
    rw [show b'.byUri = b.byUri from congrArg Setting.byUri setting, sound.registered, uris]

theorem Sound.linking (sound : b.Sound) : Linking b b :=
  ⟨rfl, fun _ => rfl, sound.quiet, rfl, sound.dependencies, sound.resolver⟩

end Sound

/-! ## Settled documents -/

section Settled

variable {b b' : Builder} {x : DocumentId}

theorem settled_of_absent (absent : b.document? x = none) : b.Settled x := by
  simp only [Settled, linkState, absent, relinked]

theorem settled_of_not_linkable {d : OpenDocument} (present : b.document? x = some d)
    (none : d.linkable = none) : b.Settled x := by
  simp only [Settled, linkState, present, relinked, none, settle_of_not_linkable, Option.map_none,
    Option.none_or]

/-- What a settled document that can be linked has. -/
theorem Settled.eq {d : OpenDocument} {a : Analysed} (settled : b.Settled x)
    (present : b.document? x = some d) (linkable : d.linkable = some a) :
    b.settle x d = d ∧ b.dependencies.forward.get? x = some (b.dependence x a) := by
  simp only [Settled, linkState, present, relinked, linkable, Option.map_some, Option.some_or,
    Prod.mk.injEq, Option.some.injEq] at settled
  exact ⟨settled.1, settled.2.symm⟩

theorem Settled.map_settle (settled : b.Settled x) :
    (b.document? x).map (b.settle x) = b.document? x := by
  have same := congrArg Prod.fst settled
  cases present : b.document? x with
  | none => rfl
  | some d =>
      simp only [linkState, present, relinked] at same
      exact same

/-- A document stays settled if it keeps its links and its record, and linking it afresh yields
what it did. -/
theorem Settled.of_links (settled : b.Settled x)
    (documents : ∀ d', b'.document? x = some d' → ∃ d, b.document? x = some d ∧
      d'.linkable = d.linkable ∧ d'.links = d.links ∧ d'.diagnostics = d.diagnostics)
    (recorded : b'.dependencies.forward.get? x = b.dependencies.forward.get? x)
    (afresh : ∀ d a, b.document? x = some d → d.linkable = some a →
      b'.linkedAfresh x a = b.linkedAfresh x a) : b'.Settled x := by
  cases present' : b'.document? x with
  | none => exact settled_of_absent present'
  | some d' =>
      obtain ⟨d, present, linkable', links, diagnostics⟩ := documents d' present'
      cases linkable : d.linkable with
      | none => exact settled_of_not_linkable present' (linkable'.trans linkable)
      | some a =>
          obtain ⟨fixed, former⟩ := settled.eq present linkable
          have same := afresh d a present linkable
          rw [settle_of_linkable linkable] at fixed
          have ownLinks : (b.linkedAfresh x a).1 = d'.links :=
            (congrArg OpenDocument.links fixed).trans links.symm
          have ownDiagnostics : (b.linkedAfresh x a).2 = d'.diagnostics :=
            (congrArg OpenDocument.diagnostics fixed).trans diagnostics.symm
          have fixed' : b'.settle x d' = d' := by
            rw [settle_of_linkable (linkable'.trans linkable), same, ownLinks, ownDiagnostics]
          simp only [Settled, linkState, present', recorded.trans former, relinked,
            linkable'.trans linkable, Option.map_some, Option.some_or, fixed', dependence, same]

/-- A document stays settled if nothing changes of it, of the setting, and under the names that
it looked up. -/
theorem Settled.of_untouched (settled : b.Settled x) (state : b'.linkState x = b.linkState x)
    (config : b'.config = b.config) (packages : b'.packages = b.packages)
    (rules : b'.rules = b.rules) (catalog : b'.resolver.catalog = b.resolver.catalog)
    (answers : ∀ e, b.dependencies.forward.get? x = some e → ∀ name ∈ e.names,
      WorkspaceIndex.AnswersAlike id b.index b'.index name) : b'.Settled x := by
  refine settled.of_links (fun d present => ?_) (congrArg Prod.snd state)
    fun d a present linkable => ?_
  · exact ⟨d, (congrArg Prod.fst state).symm.trans present, rfl, rfl, rfl⟩
  · exact linkedAfresh_congr config packages rules catalog
      (answers _ (settled.eq present linkable).2)

end Settled

/-! ## Folds of relinking -/

section Relink

variable {b b' : Builder}

theorem settle_eq (setting : b'.setting = b.setting) (index : b'.index = b.index) :
    b'.settle = b.settle := by
  funext x d
  simp only [settle, linkedAfresh_eq setting index]

theorem Linking.relinked_eq (linking : Linking b b') (x : DocumentId)
    (s : Option OpenDocument × Option Dependence) : b'.relinked x s = b.relinked x s := by
  have same : b'.dependence x = b.dependence x := by
    funext a
    simp only [dependence, linkedAfresh_eq linking.setting linking.index]
  obtain ⟨d, g⟩ := s
  cases d with
  | none => rfl
  | some d => simp only [relinked, settle_eq linking.setting linking.index, same]

theorem known_settle (b : Builder) (x : DocumentId) (d : OpenDocument) :
    ((b.settle x d).uri, (b.settle x d).latest, (b.settle x d).analysed) =
      (d.uri, d.latest, d.analysed) := by
  cases linkable : d.linkable with
  | none => rw [settle_of_not_linkable linkable]
  | some a => rw [settle_of_linkable linkable]

variable (sound : b.Sound) (report : BuildReport) (ids : List DocumentId)
include sound

theorem Sound.linking_foldl : Linking b (ids.foldl relink (b, report)).1 :=
  (Linking.foldl_relink (s := (b, report)) sound.linking sound.index sound.owned ids).1

theorem Sound.linkState_foldl (y : DocumentId) :
    (ids.foldl relink (b, report)).1.linkState y =
      if y ∈ ids then b.relinked y (b.linkState y) else b.linkState y :=
  (Linking.foldl_relink (s := (b, report)) sound.linking sound.index sound.owned ids).2 y

theorem Sound.document?_foldl (y : DocumentId) :
    (ids.foldl relink (b, report)).1.document? y =
      if y ∈ ids then (b.document? y).map (b.settle y) else b.document? y := by
  refine (congrArg Prod.fst (sound.linkState_foldl report ids y)).trans ?_
  split
  · cases present : b.document? y with
    | none => simp only [linkState, present, relinked, Option.map_none]
    | some d => simp only [linkState, present, relinked, Option.map_some]
  · rfl

theorem Sound.foldl_relink : (ids.foldl relink (b, report)).1.Sound := by
  have linking := sound.linking_foldl report ids
  refine sound.of_documents linking.setting linking.quiet linking.index linking.dependencies
    linking.resolver fun y => ?_
  rw [sound.document?_foldl report ids y]
  split
  · rw [Option.map_map]
    exact congrArg (Option.map · _) (funext (known_settle b y))
  · rfl

/-- Relinking settles the documents of the list, and no other document is unsettled by it. -/
theorem Sound.settled_foldl {y : DocumentId} (either : y ∈ ids ∨ b.Settled y) :
    (ids.foldl relink (b, report)).1.Settled y := by
  have linking := sound.linking_foldl report ids
  rw [Settled, linking.relinked_eq, sound.linkState_foldl report ids y]
  by_cases member : y ∈ ids
  · rw [if_pos member, relinked_relinked]
  · rw [if_neg member]
    exact either.resolve_left member

end Relink

/-! ## Passes -/

section Rebuild

variable {b : Builder} {ids : List DocumentId} {s : Indexed}

theorem Replaces.document? (replaces : b.Replaces ids s) (x : DocumentId) :
    s.builder.document? x =
      if x ∈ ids then (b.document? x).map (·.reread x) else b.document? x := by
  refine (congrArg Prod.fst (replaces.seen x)).trans ?_
  split
  · exact Seen.document_reread x _
  · rfl

/-- Of the documents of a pass, those with syntax errors are not changed. -/
theorem Replaces.broken_of_unchanged (replaces : b.Replaces ids s) {x : DocumentId}
    {d : OpenDocument} (member : x ∈ ids) (unchanged : x ∉ s.changed)
    (present : b.document? x = some d) : (parse d.text).isClean = false := by
  have unread : (b.readingOf x).isSome = false := by
    simpa only [member, true_and, Bool.not_eq_true] using mt (replaces.changed x).mpr unchanged
  cases clean : (parse d.text).isClean with
  | false => rfl
  | true =>
      rw [readingOf, present, Option.bind_some, if_pos clean] at unread
      cases unread

theorem Replaces.exportsOf_of_unchanged (replaces : b.Replaces ids s) {x : DocumentId}
    (unchanged : x ∉ s.changed) : s.builder.index.exportsOf x = b.index.exportsOf x := by
  refine (congrArg (fun s : Seen => s.2.map (·.exports)) (replaces.seen x)).trans ?_
  split
  · next member =>
      exact Seen.exports_of_broken fun d => replaces.broken_of_unchanged member unchanged
  · rfl

theorem Replaces.exportedNames_of_changed (replaces : b.Replaces ids s) {x : DocumentId}
    (changed : x ∈ s.changed) {name : String}
    (exported : name ∈ (s.builder.index.exportedNames x).getD []) :
    name ∈ b.affectedNames b.index x := by
  obtain ⟨member, found⟩ := (replaces.changed x).mp changed
  obtain ⟨r, found⟩ := Option.isSome_iff_exists.mp found
  obtain ⟨-, d, present, clean, rfl⟩ := readingOf_document found
  have entry : s.builder.index.documents.get? x = some ⟨(d.analysis x).scopes.exports, true⟩ := by
    have seen := (replaces.seen x).trans (if_pos member)
    refine (congrArg Prod.snd seen).trans ?_
    simp only [Builder.seen, present, Seen.read, Seen.analyse, OpenDocument.text_read, clean,
      if_true]
    simp only [OpenDocument.analysis, OpenDocument.read, clean, if_true]
  rw [WorkspaceIndex.exportedNames, entry] at exported
  rw [affectedNames, found]
  exact List.mem_append_right _ exported

theorem Sound.indexAll (sound : b.Sound) (replaces : b.Replaces ids s) : s.builder.Sound where
  quiet := replaces.amid.quiet
  index := replaces.amid.index
  dependencies := replaces.amid.dependencies ▸ sound.dependencies
  resolver := replaces.amid.resolver ▸ sound.resolver
  entry x := by
    rw [replaces.document? x]
    refine (congrArg Prod.snd (replaces.seen x)).trans ?_
    split
    · exact Seen.entry_reread (sound.entry x)
    · exact sound.entry x
  scopes {x d a} present analysed := by
    rw [replaces.document? x] at present
    split at present
    · obtain ⟨d', former, rfl⟩ := Option.map_eq_some_iff.mp present
      cases clean : (parse d'.text).isClean with
      | true =>
          rw [OpenDocument.reread_of_clean x clean] at analysed ⊢
          cases analysed
          rfl
      | false =>
          rw [OpenDocument.reread_of_broken x clean] at analysed ⊢
          exact sound.scopes (d := d') former analysed
    · exact sound.scopes present analysed
  below {x uri} known := by
    rw [show s.builder.nextId = b.nextId from congrArg Setting.nextId replaces.amid.setting]
    exact sound.below ((uriOf_eq replaces.amid.sources x).symm.trans known)
  registered {uri x} := by
    rw [show s.builder.byUri = b.byUri from congrArg Setting.byUri replaces.amid.setting,
      sound.registered, uriOf_eq replaces.amid.sources]

/-- Who is neither changed nor a dependent of a change cannot notice the pass. -/
theorem Coherent.settled_indexAll (coherent : b.Coherent) (replaces : b.Replaces ids s)
    {x : DocumentId} (unchanged : x ∉ s.changed) (independent : x ∉ s.dependents) :
    s.builder.Settled x := by
  have opened := replaces.document? x
  by_cases member : x ∈ ids
  · -- A document of the pass that is not changed has syntax errors, and is not linked.
    rw [if_pos member] at opened
    cases present : b.document? x with
    | none => exact settled_of_absent (by rw [opened, present, Option.map_none])
    | some d =>
        rw [present, Option.map_some] at opened
        refine settled_of_not_linkable opened ?_
        have broken := replaces.broken_of_unchanged member unchanged present
        rw [OpenDocument.linkable, OpenDocument.readCleanly_reread, broken]
        exact if_neg Bool.false_ne_true
  · rw [if_neg member] at opened
    have state : s.builder.linkState x = b.linkState x :=
      Prod.ext opened (congrArg (·.forward.get? x) replaces.amid.dependencies)
    refine (coherent.settled x).of_untouched state
      (congrArg Setting.config replaces.amid.setting)
      (congrArg Setting.packages replaces.amid.setting)
      (congrArg Setting.rules replaces.amid.setting)
      (congrArg Setting.catalog replaces.amid.setting) fun e recorded name looked => ?_
    refine coherent.index.answersAlike replaces.amid.index coherent.owned fun y exported => ?_
    -- A changed document that exports the name, before or now, would have made `x` a dependent.
    by_cases changed : y ∈ s.changed
    · have affected : name ∈ b.affectedNames b.index y :=
        exported.elim (List.mem_append_left _) (replaces.exportedNames_of_changed changed)
      have other : x ≠ y := by
        rintro rfl
        exact unchanged changed
      exact absurd (replaces.dependents y changed x (coherent.dependencies.mem_dependents.mpr
        ⟨other, e, recorded, .inr ⟨name, affected, looked⟩⟩)) independent
    · exact (replaces.exportsOf_of_unchanged changed).symm

end Rebuild

section Rebuild

variable {b : Builder} (coherent : b.Coherent) (ids : List DocumentId)
include coherent

theorem Coherent.replaces : b.Replaces ids (b.indexAll ids) :=
  coherent.quiet.replaces_indexAll coherent.index ids

theorem Coherent.sound_indexAll : (b.indexAll ids).builder.Sound :=
  coherent.toSound.indexAll (coherent.replaces ids)

theorem Coherent.rebuild : (b.rebuild ids).1.Coherent := by
  have sound := coherent.sound_indexAll ids
  rw [rebuild_eq]
  refine ⟨sound.foldl_relink _ _, fun x => sound.settled_foldl _ _ ?_⟩
  by_cases changed : x ∈ (b.indexAll ids).changed
  · exact .inl (List.mem_append_left _ changed)
  · by_cases dependent : x ∈ (b.indexAll ids).dependents
    · refine .inl (List.mem_append_right _ (List.mem_filter.mpr ⟨dependent, ?_⟩))
      exact decide_eq_true changed
    · exact .inr (coherent.settled_indexAll (coherent.replaces ids) changed dependent)

theorem Coherent.setting_rebuild : (b.rebuild ids).1.setting = b.setting := by
  rw [rebuild_eq]
  exact ((coherent.sound_indexAll ids).linking_foldl _ _).setting.trans
    (coherent.replaces ids).amid.setting

theorem Coherent.document?_rebuild (x : DocumentId) :
    (b.rebuild ids).1.document? x =
      (b.document? x).map fun d =>
        (b.rebuild ids).1.settle x (if x ∈ ids then d.reread x else d) := by
  have sound := coherent.sound_indexAll ids
  have fixed := ((coherent.rebuild ids).settled x).map_settle
  have linking := sound.linking_foldl (b.indexAll ids).report (b.relinkedBy ids)
  have final := sound.document?_foldl (b.indexAll ids).report (b.relinkedBy ids) x
  rw [← rebuild_eq] at linking final
  have settled : (b.rebuild ids).1.document? x =
      ((b.indexAll ids).builder.document? x).map ((b.rebuild ids).1.settle x) := by
    split at final
    · rw [final, settle_eq linking.setting linking.index]
    · rw [← final, fixed]
  rw [settled, (coherent.replaces ids).document? x]
  split
  · rw [Option.map_map]
    rfl
  · rfl

end Rebuild

/-! ## Other operations -/

section Operations

variable {b : Builder}

/-- Linking every document again settles them all. -/
theorem Sound.relinkAll (sound : b.Sound) : b.relinkAll.1.Coherent := by
  refine ⟨sound.foldl_relink _ _, fun x => sound.settled_foldl _ _ ?_⟩
  cases present : b.document? x with
  | none => exact .inr (settled_of_absent present)
  | some d => exact .inl (OrderedMap.mem_keys.mpr ⟨d, present⟩)

theorem Sound.withResolver (sound : b.Sound) {resolver : Java.Resolver} {interrupts : Interrupts}
    (faithful : resolver.Faithful) (silent : interrupts = .silent) :
    Sound { b with resolver, interrupts } where
  quiet := ⟨sound.quiet.elsewhere, silent, sound.quiet.live⟩
  index := sound.index
  dependencies := sound.dependencies
  resolver := faithful
  entry := sound.entry
  scopes := sound.scopes
  below := sound.below
  registered := sound.registered

theorem Sound.withReload (sound : b.Sound) : Sound { b with resolver := b.resolver.reload } :=
  sound.withResolver b.resolver.faithful_reload sound.quiet.interrupts

theorem Sound.withCatalog (sound : b.Sound) (catalog : Java.ClassSource) :
    Sound { b with
      resolver := b.resolver.replaceCatalog catalog
      interrupts := { b.interrupts with onClasses := fun _ _ => [] } } := by
  refine sound.withResolver (b.resolver.setCatalog catalog).faithful_reload ?_
  rw [sound.quiet.interrupts]
  rfl

theorem Sound.reloadCatalog (sound : b.Sound) : b.reloadCatalog.1.Coherent :=
  sound.withReload.relinkAll

theorem Sound.replaceCatalog (sound : b.Sound) (catalog : Java.ClassSource) :
    (b.replaceCatalog catalog).1.Coherent :=
  (sound.withCatalog catalog).relinkAll

variable (coherent : b.Coherent)
include coherent

/-! ## Closing -/

/-- The builder without a document, before its dependents are linked again. -/
def forget (b : Builder) (id : DocumentId) (d : OpenDocument) : Builder :=
  { b.retire id with
    documents := b.documents.erase id
    byUri := b.byUri.erase d.uri
    index := (b.index.remove id).2
    dependencies := b.dependencies.remove id }

omit coherent in
theorem removeDocument_of_open {id : DocumentId} {d : OpenDocument}
    (present : b.document? id = some d) :
    b.removeDocument id =
      .ok ((b.dependencies.dependents id ((b.index.remove id).1.getD [])).toList.foldl relink
        (b.forget id d, .empty)) := by
  simp only [removeDocument, present, forget]

omit coherent in
theorem document?_forget (id : DocumentId) (d : OpenDocument) (x : DocumentId) :
    (b.forget id d).document? x = if x = id then none else b.document? x :=
  OrderedMap.get?_erase _ _ _

omit coherent in
theorem idOf_forget (id : DocumentId) (d : OpenDocument) (uri : String) :
    (b.forget id d).idOf uri = if uri = d.uri then none else b.idOf uri :=
  OrderedMap.get?_erase _ _ _

omit coherent in
theorem uriOf_forget (id : DocumentId) (d : OpenDocument) (x : DocumentId) :
    (b.forget id d).uriOf x = if x = id then none else b.uriOf x := by
  rw [uriOf, document?_forget]
  split <;> rfl

omit coherent in
theorem registered_forget (registered : ∀ {uri x}, b.idOf uri = some x ↔ b.uriOf x = some uri)
    {id : DocumentId} {d : OpenDocument} (present : b.document? id = some d) {uri : String}
    {x : DocumentId} : (b.forget id d).idOf uri = some x ↔ (b.forget id d).uriOf x = some uri := by
  have own := uriOf_of_open present
  rw [uriOf_forget, idOf_forget]
  by_cases named : uri = d.uri
  · subst named
    rw [if_pos rfl]
    refine iff_of_false nofun fun known => ?_
    split at known
    · cases known
    · next other =>
        refine other (Option.some.inj ?_)
        exact (registered.mpr known).symm.trans (registered.mpr own)
  · rw [if_neg named]
    refine registered.trans ?_
    split
    · next same =>
        rw [same, own]
        exact iff_of_false (fun e => named (Option.some.inj e).symm) nofun
    · rfl

omit coherent in
theorem Sound.forget (sound : b.Sound) {id : DocumentId} {d : OpenDocument}
    (present : b.document? id = some d) : (b.forget id d).Sound where
  quiet := ⟨sound.quiet.elsewhere, sound.quiet.interrupts, fun {x e} opened => by
    rw [document?_forget] at opened
    split at opened
    · cases opened
    · exact sound.quiet.live opened⟩
  index := sound.index.unlink id
  dependencies := sound.dependencies.remove id
  resolver := sound.resolver
  entry x := by
    rw [document?_forget]
    refine (WorkspaceIndex.get?_unlink b.index id x).trans ?_
    split
    · rfl
    · exact sound.entry x
  scopes {x e a} opened analysed := by
    rw [document?_forget] at opened
    split at opened
    · cases opened
    · exact sound.scopes opened analysed
  below {x uri} known := by
    rw [uriOf_forget] at known
    split at known
    · cases known
    · exact sound.below known
  registered := registered_forget sound.registered present

/-- Who depends on no name of a document cannot notice that it is closed. -/
theorem Coherent.settled_forget {id : DocumentId} (d : OpenDocument)
    {x : DocumentId}
    (independent : x ∉ b.dependencies.dependents id ((b.index.remove id).1.getD [])) :
    (b.forget id d).Settled x := by
  by_cases same : x = id
  · exact settled_of_absent (by rw [document?_forget, if_pos same])
  · have state : (b.forget id d).linkState x = b.linkState x := by
      refine Prod.ext ?_ ((Dependencies.get?_remove b.dependencies id x).trans (if_neg same))
      exact (document?_forget id d x).trans (if_neg same)
    refine (coherent.settled x).of_untouched state rfl rfl rfl rfl fun e recorded name looked => ?_
    refine coherent.index.answersAlike (coherent.index.unlink id) coherent.owned
      fun y exported => ?_
    have exports : (b.index.unlink id).exportsOf y =
        if y = id then none else b.index.exportsOf y := by
      rw [WorkspaceIndex.exportsOf, WorkspaceIndex.get?_unlink]
      split <;> rfl
    by_cases removed : y = id
    · subst removed
      have former : name ∈ (b.index.exportedNames y).getD [] := by
        refine exported.resolve_right fun later => ?_
        rw [WorkspaceIndex.exportedNames, WorkspaceIndex.get?_unlink, if_pos rfl] at later
        exact List.not_mem_nil later
      exact absurd (coherent.dependencies.mem_dependents.mpr
        ⟨same, e, recorded, .inr ⟨name, former, looked⟩⟩) independent
    · rw [exports, if_neg removed]

theorem Coherent.removeDocument {id : DocumentId} {r : Builder × BuildReport}
    (removed : b.removeDocument id = .ok r) : r.1.Coherent := by
  cases present : b.document? id with
  | none =>
      simp only [Builder.removeDocument, present] at removed
      cases removed
  | some d =>
      rw [removeDocument_of_open present] at removed
      cases removed
      have sound := coherent.toSound.forget present
      refine ⟨sound.foldl_relink _ _, fun x => sound.settled_foldl _ _ ?_⟩
      by_cases dependent : x ∈ b.dependencies.dependents id ((b.index.remove id).1.getD [])
      · exact .inl dependent
      · exact .inr (coherent.settled_forget d dependent)

/-! ## Opening -/

omit coherent in
theorem Sound.openDocument_again (sound : b.Sound) {uri : String} {id : DocumentId}
    (known : b.byUri.get? uri = some id) (text : String) : (b.openDocument uri text).2.Sound := by
  simp only [Builder.openDocument, known]
  have quiet : ((b.retire id).update id fun d => { d with text, cancelled := false }).Quiet := by
    refine ⟨sound.quiet.elsewhere, sound.quiet.interrupts, fun {x d} present => ?_⟩
    rw [document?_update] at present
    split at present
    · obtain ⟨d', -, rfl⟩ := Option.map_eq_some_iff.mp present
      rfl
    · exact sound.quiet.live present
  refine sound.of_documents rfl quiet rfl sound.dependencies sound.resolver fun y => ?_
  rw [document?_update]
  split
  · rw [Option.map_map]
    rfl
  · rfl

omit coherent in
theorem absent_nextId (below : ∀ {x uri}, b.uriOf x = some uri → x < b.nextId) :
    b.document? b.nextId = none := by
  cases present : b.document? b.nextId with
  | none => rfl
  | some d => exact absurd (below (uriOf_of_open present)) (Nat.lt_irrefl _)

/-- The builder with one more document. -/
def openNew (b : Builder) (uri text : String) : Builder :=
  { b with
    documents := b.documents.insert b.nextId (.fresh uri text)
    byUri := b.byUri.insert uri b.nextId
    nextId := b.nextId + 1 }

omit coherent in
theorem openDocument_of_unknown {uri : String} (unknown : b.byUri.get? uri = none)
    (text : String) : b.openDocument uri text = (b.nextId, b.openNew uri text) := by
  simp only [openDocument, unknown, openNew]

omit coherent in
theorem openDocument_of_known {uri : String} {id : DocumentId}
    (known : b.byUri.get? uri = some id) (text : String) :
    b.openDocument uri text =
      (id, (b.retire id).update id fun d => { d with text, cancelled := false }) := by
  simp only [openDocument, known]

omit coherent in
theorem document?_openNew (uri text : String) (x : DocumentId) :
    (b.openNew uri text).document? x =
      if x = b.nextId then some (.fresh uri text) else b.document? x :=
  OrderedMap.get?_insert _ _ _ _

omit coherent in
theorem idOf_openNew (uri text other : String) :
    (b.openNew uri text).idOf other = if other = uri then some b.nextId else b.idOf other :=
  OrderedMap.get?_insert _ _ _ _

omit coherent in
theorem uriOf_openNew (uri text : String) (x : DocumentId) :
    (b.openNew uri text).uriOf x = if x = b.nextId then some uri else b.uriOf x := by
  rw [uriOf, document?_openNew]
  split <;> rfl

omit coherent in
theorem registered_openNew (registered : ∀ {uri x}, b.idOf uri = some x ↔ b.uriOf x = some uri)
    (below : ∀ {x uri}, b.uriOf x = some uri → x < b.nextId) {uri : String}
    (unknown : b.byUri.get? uri = none) (text : String) {other : String} {x : DocumentId} :
    (b.openNew uri text).idOf other = some x ↔ (b.openNew uri text).uriOf x = some other := by
  rw [idOf_openNew, uriOf_openNew]
  by_cases named : other = uri
  · subst named
    rw [if_pos rfl]
    split
    · next same => exact iff_of_true (congrArg some same.symm) rfl
    · next different =>
        refine iff_of_false (fun e => different (Option.some.inj e).symm) fun known => ?_
        have found : b.byUri.get? other = some x := registered.mpr known
        rw [found] at unknown
        cases unknown
  · rw [if_neg named]
    refine registered.trans ?_
    split
    · next same =>
        refine iff_of_false (fun known => ?_) fun e => named (Option.some.inj e).symm
        exact Nat.lt_irrefl _ (same ▸ below known)
    · rfl

omit coherent in
theorem Sound.openNew (sound : b.Sound) {uri : String} (unknown : b.byUri.get? uri = none)
    (text : String) : (b.openNew uri text).Sound where
  quiet := ⟨sound.quiet.elsewhere, sound.quiet.interrupts, fun {x d} present => by
    rw [document?_openNew] at present
    split at present
    · cases present
      rfl
    · exact sound.quiet.live present⟩
  index := sound.index
  dependencies := sound.dependencies
  resolver := sound.resolver
  entry x := by
    rw [document?_openNew]
    refine (sound.entry x).trans ?_
    split
    · next same =>
        rw [same, absent_nextId sound.below]
        rfl
    · rfl
  scopes {x d a} present analysed := by
    rw [document?_openNew] at present
    split at present
    · cases present
      cases analysed
    · exact sound.scopes present analysed
  below {x uri'} known := by
    rw [uriOf_openNew] at known
    split at known
    · next same => exact same ▸ Nat.lt_succ_self _
    · exact Nat.lt_succ_of_lt (sound.below known)
  registered := registered_openNew sound.registered sound.below unknown text

theorem Coherent.openDocument (uri text : String) : (b.openDocument uri text).2.Coherent := by
  cases known : b.byUri.get? uri with
  | some id =>
      refine ⟨coherent.openDocument_again known text, fun x => ?_⟩
      rw [openDocument_of_known known]
      refine (coherent.settled x).of_links (fun d' present => ?_) rfl fun _ _ _ _ => rfl
      rw [document?_update] at present
      split at present
      · obtain ⟨d, former, rfl⟩ := Option.map_eq_some_iff.mp present
        exact ⟨d, former, rfl, rfl, rfl⟩
      · exact ⟨d', present, rfl, rfl, rfl⟩
  | none =>
      rw [openDocument_of_unknown known]
      refine ⟨coherent.openNew known text, fun x => ?_⟩
      have documents := document?_openNew (b := b) uri text x
      split at documents
      · exact settled_of_not_linkable documents rfl
      · refine (coherent.settled x).of_links (fun d present => ?_) rfl fun _ _ _ _ => rfl
        exact ⟨d, documents.symm.trans present, rfl, rfl, rfl⟩

end Operations

end Builder

end BbjAnalysis
