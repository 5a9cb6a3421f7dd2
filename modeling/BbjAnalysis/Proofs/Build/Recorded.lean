import BbjAnalysis.Proofs.Build.Accounting
import BbjAnalysis.Proofs.Build.Run
import BbjAnalysis.Proofs.Diagnostic.Listing

/-! # What is recorded of a document

A builder says in several tables what it knows of its documents, and no step writes all of them.
What they are to say of a document follows from two texts: the one that was read last, and the one
that was indexed last (`Recorded`). Most steps write nothing of it (`Builder.KeepsTables`); reading
and indexing write it anew (`Recorded.read`, `Recorded.analyse`).
-/

namespace BbjAnalysis

/-- A value that no step of a fold changes is not changed by the fold. -/
theorem foldl_keeps {σ α β : Type} {step : σ → α → σ} (value : σ → β)
    (keeps : ∀ s a, value (step s a) = value s) (l : List α) (s : σ) :
    value (l.foldl step s) = value s := by
  induction l generalizing s with
  | nil => rfl
  | cons a rest ih => exact (ih (step s a)).trans (keeps s a)

/-- What the tables are to say of a document. Its mark is left out, and its links and diagnostics
too if its latest text has no syntax errors. -/
def OpenDocument.told (d : OpenDocument) :
    String × Option Parse × Option Analysed × Option (Links × List Diagnostic) :=
  (d.uri, d.latest, d.analysed, if d.readCleanly then none else some (d.links, d.diagnostics))

namespace Builder

/-! ## Steps that keep the tables -/

/-- The mark of a text that goes is set, whatever it was. -/
theorem isCancelled_cancel (b : Builder) (id : DocumentId) :
    (b.cancel id).isCancelled id = true := by
  rw [isCancelled, cancel, document?_update, if_pos rfl]
  cases b.document? id <;> rfl

/-- All texts that were retired between two builders had their mark set. -/
def RetiresMarked (b b' : Builder) : Prop :=
  ∃ marks, b'.retired = marks ++ b.retired ∧ ∀ mark ∈ marks, mark = true

theorem RetiresMarked.of_eq {b b' : Builder} (same : b'.retired = b.retired) :
    b.RetiresMarked b' := ⟨[], same, nofun⟩

theorem RetiresMarked.trans {b b' b'' : Builder} (first : b.RetiresMarked b')
    (second : b'.RetiresMarked b'') : b.RetiresMarked b'' := by
  obtain ⟨earlier, retired, marked⟩ := first
  obtain ⟨later, retired', marked'⟩ := second
  refine ⟨later ++ earlier, by rw [retired', retired, List.append_assoc], fun mark among => ?_⟩
  exact (List.mem_append.mp among).elim (marked' mark) (marked mark)

theorem retiresMarked_retire (b : Builder) (id : DocumentId) : b.RetiresMarked (b.retire id) := by
  refine ⟨[(b.cancel id).isCancelled id], rfl, fun mark among => ?_⟩
  rw [List.mem_singleton.mp among, isCancelled_cancel]

/-- The tables say in `b'` of every document what they say in `b`. -/
structure KeepsTables (b b' : Builder) : Prop where
  retired : b.RetiresMarked b'
  byUri : b'.byUri = b.byUri
  nextId : b'.nextId = b.nextId
  told : ∀ x, (b'.document? x).map (·.told) = (b.document? x).map (·.told)
  index : b'.index = b.index
  dependencies : b.dependencies.Exact → b'.dependencies.Exact

section KeepsTables

variable {b b' b'' : Builder}

theorem KeepsTables.refl (b : Builder) : b.KeepsTables b :=
  ⟨.of_eq rfl, rfl, rfl, fun _ => rfl, rfl, fun exact_ => exact_⟩

theorem KeepsTables.trans (first : b.KeepsTables b') (second : b'.KeepsTables b'') :
    b.KeepsTables b'' where
  retired := first.retired.trans second.retired
  byUri := second.byUri.trans first.byUri
  nextId := second.nextId.trans first.nextId
  told x := (second.told x).trans (first.told x)
  index := second.index.trans first.index
  dependencies exact_ := second.dependencies (first.dependencies exact_)

theorem KeepsTables.idOf_eq (keeps : b.KeepsTables b') (uri : String) :
    b'.idOf uri = b.idOf uri := congrArg (OrderedMap.get? · uri) keeps.byUri

theorem KeepsTables.uriOf_eq (keeps : b.KeepsTables b') (x : DocumentId) :
    b'.uriOf x = b.uriOf x := by
  have same := congrArg (Option.map (·.1)) (keeps.told x)
  simp only [Option.map_map] at same
  exact same

theorem keepsTables_foldl {σ α : Type} (builder : σ → Builder) {step : σ → α → σ}
    (one : ∀ s a, KeepsTables (builder s) (builder (step s a))) (l : List α) (s : σ) :
    (builder s).KeepsTables (builder (l.foldl step s)) := by
  induction l generalizing s with
  | nil => exact .refl _
  | cons a rest ih => exact (one s a).trans (ih (step s a))

/-- A change of one document that the tables do not show. -/
theorem keepsTables_update (b : Builder) (id : DocumentId) {f : OpenDocument → OpenDocument}
    (told : ∀ d, b.document? id = some d → (f d).told = d.told) :
    b.KeepsTables (b.update id f) := by
  refine ⟨.of_eq rfl, rfl, rfl, fun x => ?_, rfl, fun exact_ => exact_⟩
  rw [document?_update]
  split
  · next same =>
      subst same
      cases present : b.document? x with
      | none => rfl
      | some d => exact congrArg some (told d present)
  · rfl

theorem keepsTables_cancel (b : Builder) (id : DocumentId) : b.KeepsTables (b.cancel id) :=
  keepsTables_update b id fun _ _ => rfl

theorem keepsTables_arrive (b : Builder) (stage : Stage) (id : DocumentId) :
    b.KeepsTables (b.arrive stage id) := keepsTables_foldl (fun b => b) keepsTables_cancel _ b

theorem keepsTables_cancelUris (b : Builder) (uris : List String) :
    b.KeepsTables (b.cancelUris uris) := by
  refine keepsTables_foldl (fun b => b) (fun b uri => ?_) uris b
  split
  · exact keepsTables_cancel b _
  · exact .refl b

/-- The links of a document are stored only if its latest text has no syntax errors. -/
theorem keepsTables_storeLinks (b : Builder) (id : DocumentId)
    (found : Links × List Diagnostic × Java.Resolver)
    (clean : ∀ d, b.document? id = some d → d.readCleanly = true) :
    b.KeepsTables (b.storeLinks id found) := by
  let stored : Builder :=
    { b with
      resolver := found.2.2
      dependencies := b.dependencies.record id ⟨found.1.workspaceNames, found.1.boundDocuments⟩ }
  have kept : b.KeepsTables stored :=
    ⟨.of_eq rfl, rfl, rfl, fun _ => rfl, rfl, fun exact_ => exact_.record id _⟩
  refine kept.trans (keepsTables_update stored id fun d present => ?_)
  have own : d.readCleanly = true := clean d present
  have again : { d with links := found.1, diagnostics := found.2.1 }.readCleanly = true := own
  simp only [OpenDocument.told, own, again, if_true]

theorem keepsTables_relink (s : Builder × BuildReport) (x : DocumentId) :
    s.1.KeepsTables (relink s x).1 := by
  simp only [relink]
  split
  · exact .refl _
  · next d present =>
      split
      · exact .refl _
      · next readable =>
          have clean : d.readCleanly = true := by simpa using readable
          have arrived := keepsTables_arrive s.1 .linking x
          split
          · exact arrived
          · split
            · exact arrived
            · refine (arrived.trans (keepsTables_storeLinks _ x _ fun d' present' => ?_)).trans
                (keepsTables_cancelUris _ _)
              have same := arrived.told x
              rw [present', present, Option.map_some, Option.map_some, Option.some.injEq] at same
              have latest : d'.latest = d.latest := congrArg (·.2.1) same
              rw [OpenDocument.readCleanly, latest]
              exact clean

theorem keepsTables_foldl_relink (ids : List DocumentId) (s : Builder × BuildReport) :
    s.1.KeepsTables (ids.foldl relink s).1 := keepsTables_foldl (·.1) keepsTables_relink ids s

/-- Everything is linked again with another resolver. -/
theorem keepsTables_relinkAll (b : Builder) (resolver : Java.Resolver) (interrupts : Interrupts) :
    b.KeepsTables (b.documents.keys.foldl relink
      ({ b with resolver := resolver, interrupts := interrupts }, .empty)).1 := by
  let changed : Builder := { b with resolver := resolver, interrupts := interrupts }
  have kept : b.KeepsTables changed :=
    ⟨.of_eq rfl, rfl, rfl, fun _ => rfl, rfl, fun exact_ => exact_⟩
  exact kept.trans (keepsTables_foldl_relink b.documents.keys (changed, .empty))

theorem keepsTables_reloadCatalog (b : Builder) : b.KeepsTables b.reloadCatalog.1 :=
  keepsTables_relinkAll b b.resolver.reload b.interrupts

theorem keepsTables_replaceCatalog (b : Builder) (catalog : Java.ClassSource) :
    b.KeepsTables (b.replaceCatalog catalog).1 :=
  keepsTables_relinkAll b (b.resolver.replaceCatalog catalog)
    { b.interrupts with onClasses := fun _ _ => [] }

theorem keepsTables_interrupted (b : Builder) (interrupts : Interrupts)
    (elsewhere : Stage → DocumentId → List DocumentId) :
    b.KeepsTables ((b.withInterrupts interrupts).withElsewhere elsewhere) :=
  ⟨.of_eq rfl, rfl, rfl, fun _ => rfl, rfl, fun exact_ => exact_⟩

/-- The text of a document is in no table until a pass reads it. -/
theorem keepsTables_openDocument {uri : String} {id : DocumentId}
    (known : b.byUri.get? uri = some id) (text : String) :
    b.KeepsTables (b.openDocument uri text).2 := by
  have retire : b.KeepsTables (b.retire id) :=
    ⟨retiresMarked_retire b id, rfl, rfl, fun _ => rfl, rfl, fun exact_ => exact_⟩
  rw [openDocument_of_known known]
  exact retire.trans (keepsTables_update (b.retire id) id fun _ _ => rfl)

end KeepsTables

/-! ## What a pass reads and indexes -/

/-- What reading one document does to the report. -/
inductive ParseStep (s s' : Reads) (id : DocumentId) : Prop where
  | absent (closed : s.builder.document? id = none) (parsed : s'.report.parsed = s.report.parsed)
      (cancelled : s'.report.cancelled = s.report.cancelled)
  | cancelled (parsed : s'.report.parsed = s.report.parsed)
      (cancelled : s'.report.cancelled = s.report.cancelled ++ [id])
  | parsed (opened : (s.builder.document? id).isSome = true)
      (parsed : s'.report.parsed = s.report.parsed ++ [id])
      (cancelled : s'.report.cancelled = s.report.cancelled)

theorem parseStep (s : Reads) (x : DocumentId) : ParseStep s (readOne s x) x := by
  cases present : s.builder.document? x with
  | none =>
      rw [readOne_of_absent present]
      exact .absent present rfl rfl
  | some d =>
      have opened : (s.builder.document? x).isSome = true := by rw [present, Option.isSome_some]
      simp only [readOne, present]
      split
      · exact .cancelled rfl rfl
      · split <;> exact .parsed opened rfl rfl

section Pass

variable (b : Builder) (ids : List DocumentId) (x : DocumentId)

/-- A pass reads the open documents that it is asked for, but those that it finds cancelled. -/
theorem mem_parsed_readAll : x ∈ (b.readAll ids).report.parsed ↔
    x ∈ ids ∧ (b.document? x).isSome = true ∧ x ∉ (b.readAll ids).report.cancelled := by
  have folded := foldl_prefix readOne (l := (OrderedSet.ofList ids).toList)
    (s := ⟨b, .empty, []⟩)
    (fun done s => ReadSoFar b done s ∧ ∀ x, x ∈ s.report.parsed ↔
      x ∈ done ∧ (b.document? x).isSome = true ∧ x ∉ s.report.cancelled)
    ⟨⟨nofun, nofun, fun _ _ => rfl, rfl⟩, fun x => by simp [BuildReport.empty]⟩ ?_
  · exact (folded.2 x).trans (and_congr_left fun _ => OrderedSet.mem_ofList)
  · rintro done y rest s split ⟨known, parsed⟩
    have ascending := (OrderedSet.ofList ids).ascending
    rw [split, List.pairwise_append] at ascending
    have fresh : y ∉ done := fun member =>
      absurd (ascending.2.2 y member y (.head _)) (Nat.lt_irrefl _)
    have unlisted : y ∉ s.report.cancelled := fun member => fresh (known.reported y member).1
    have opened : (s.builder.document? y).isSome = (b.document? y).isSome := by
      have same := congrArg (·.1.isSome) (known.later y fresh)
      simpa only [facts, Option.isSome_map] using same
    refine ⟨known.next fresh, fun x => ?_⟩
    cases parseStep s y with
    | absent closed same same' =>
        rw [closed] at opened
        rw [same, same', parsed, mem_concat]
        by_cases last : x = y
        · subst last
          simp [← opened]
        · simp [last]
    | cancelled same listed =>
        rw [same, listed, parsed, mem_concat, mem_concat]
        by_cases last : x = y
        · simp [last, fresh]
        · simp [last]
    | parsed present listed same =>
        rw [listed, same, mem_concat, mem_concat, parsed]
        by_cases last : x = y
        · subst last
          simp [← opened, present, unlisted]
        · simp [last]

theorem parsed_indexAll : (b.indexAll ids).report.parsed = (b.readAll ids).report.parsed := by
  refine foldl_keeps (fun s : Indexed => s.report.parsed) (fun s c => ?_) (b.scopeAll ids).2
    ⟨(b.scopeAll ids).1, (b.readAll ids).report, ∅, ∅⟩
  simp only [indexOne]
  split <;> rfl

theorem parsed_rebuild : (b.rebuild ids).2.parsed = (b.readAll ids).report.parsed := by
  rw [rebuild_eq, ← parsed_indexAll]
  refine foldl_keeps (fun s : Builder × BuildReport => s.2.parsed) (fun s y => ?_) _ _
  cases relinkDeals s y with
  | leftOut report => rw [report]
  | cancelled report => rw [report]; rfl
  | relinked report => rw [report]; rfl

/-- Of the documents that a pass reads, it indexes those without syntax errors, but those that it
finds cancelled. -/
theorem mem_changed_indexAll : x ∈ (b.indexAll ids).changed ↔
    x ∈ (b.readAll ids).report.parsed ∧ x ∉ (b.indexAll ids).report.cancelled ∧
      (b.readingOf x).isSome = true := by
  have indexed := indexedSoFar_indexAll b ids
  have clean := mem_clean_readAll b ids (x := x)
  rw [mem_parsed_readAll]
  constructor
  · intro changed
    obtain ⟨late, unreported, -⟩ := indexed.changed x changed
    obtain ⟨listed, early, found⟩ := clean.mp late
    obtain ⟨r, reading⟩ := Option.isSome_iff_exists.mp found
    obtain ⟨-, d, present, -⟩ := readingOf_document reading
    exact ⟨⟨listed, by rw [present, Option.isSome_some], early⟩, unreported, found⟩
  · rintro ⟨⟨listed, -, early⟩, unreported, found⟩
    exact (indexed.finished x (clean.mpr ⟨listed, early, found⟩)).resolve_left unreported

theorem facts_readAll : (b.readAll ids).builder.facts x =
    if x ∈ (b.readAll ids).report.parsed then (b.facts x).read x else b.facts x := by
  have read := readSoFar_readAll b ids
  have parsed := mem_parsed_readAll b ids x
  by_cases listed : x ∈ ids
  · by_cases cancelled : x ∈ (b.readAll ids).report.cancelled
    · rw [if_neg fun found => (parsed.mp found).2.2 cancelled]
      exact (read.reported x cancelled).2.2
    · have stored := read.read x (OrderedSet.mem_ofList.mpr listed) cancelled
      split
      · exact stored
      · next unread =>
          cases present : b.document? x with
          | none => rw [stored, facts, present]; rfl
          | some d =>
              exact absurd (parsed.mpr ⟨listed, by rw [present, Option.isSome_some], cancelled⟩)
                unread
  · rw [if_neg fun found => listed (parsed.mp found).1]
    exact read.later x (mt OrderedSet.mem_ofList.mp listed)

theorem facts_indexAll : (b.indexAll ids).builder.facts x =
    if x ∈ (b.indexAll ids).changed then ((b.readAll ids).builder.facts x).analyse x
    else (b.readAll ids).builder.facts x := by
  have indexed := indexedSoFar_indexAll b ids
  split
  · next changed => exact (indexed.changed x changed).2.2
  · next unchanged =>
      by_cases late : x ∈ (b.readAll ids).clean.map (·.document)
      · exact (indexed.reported x ((indexed.finished x late).resolve_right unchanged)).2.2
      · exact indexed.later x late

end Pass

/-- What a pass does not change before the linking. -/
structure Registry where
  byUri : OrderedMap String DocumentId
  nextId : DocumentId
  retired : List Bool
  dependencies : Dependencies

def registry (b : Builder) : Registry := ⟨b.byUri, b.nextId, b.retired, b.dependencies⟩

theorem registry_arrive (b : Builder) (stage : Stage) (id : DocumentId) :
    (b.arrive stage id).registry = b.registry :=
  foldl_keeps registry (fun b id => (rfl : (b.cancel id).registry = b.registry)) _ b

theorem registry_cancelUris (b : Builder) (uris : List String) :
    (b.cancelUris uris).registry = b.registry := by
  refine foldl_keeps registry (fun b uri => ?_) uris b
  split <;> rfl

theorem registry_readOne (s : Reads) (x : DocumentId) :
    (readOne s x).builder.registry = s.builder.registry := by
  have arrived := registry_arrive s.builder .reading x
  simp only [readOne]
  split
  · rfl
  · split
    · exact arrived
    · split <;> exact arrived

theorem registry_scopeOne (s : Builder × List Scoped) (r : Reading) :
    (scopeOne s r).1.registry = s.1.registry := by
  have arrived := registry_arrive s.1 .scoping r.document
  simp only [scopeOne]
  split
  · exact arrived
  · exact (registry_cancelUris _ _).trans arrived

theorem registry_indexOne (s : Indexed) (c : Scoped) :
    (indexOne s c).builder.registry = s.builder.registry := by
  have arrived := registry_arrive s.builder .indexing c.reading.document
  simp only [indexOne]
  split <;> exact arrived

theorem registry_indexAll (b : Builder) (ids : List DocumentId) :
    (b.indexAll ids).builder.registry = b.registry := by
  have read : (b.readAll ids).builder.registry = b.registry :=
    foldl_keeps (fun s : Reads => s.builder.registry) registry_readOne _ _
  have computed : (b.scopeAll ids).1.registry = (b.readAll ids).builder.registry :=
    foldl_keeps (fun s : Builder × List Scoped => s.1.registry) registry_scopeOne _ _
  have indexed : (b.indexAll ids).builder.registry = (b.scopeAll ids).1.registry :=
    foldl_keeps (fun s : Indexed => s.builder.registry) registry_indexOne (b.scopeAll ids).2
      ⟨(b.scopeAll ids).1, (b.readAll ids).report, ∅, ∅⟩
  rw [indexed, computed, read]

theorem exact_readOne {s : Reads} (exact_ : s.builder.index.Exact) (x : DocumentId) :
    (readOne s x).builder.index.Exact := by
  have arrived := (keepsTables_arrive s.builder .reading x).index ▸ exact_
  simp only [readOne]
  split
  · exact exact_
  · split
    · exact arrived
    · split
      · exact arrived
      · exact arrived.markInvalid x

theorem index_scopeOne (s : Builder × List Scoped) (r : Reading) :
    (scopeOne s r).1.index = s.1.index := by
  have arrived := (keepsTables_arrive s.1 .scoping r.document).index
  simp only [scopeOne]
  split
  · exact arrived
  · exact (keepsTables_cancelUris _ _).index.trans arrived

theorem exact_indexOne {s : Indexed} (exact_ : s.builder.index.Exact) (c : Scoped) :
    (indexOne s c).builder.index.Exact := by
  have arrived := (keepsTables_arrive s.builder .indexing c.reading.document).index ▸ exact_
  simp only [indexOne]
  split
  · exact arrived
  · exact arrived.upsert _

/-- The table of names goes with the exports at every step of a pass. -/
theorem exact_indexAll {b : Builder} (exact_ : b.index.Exact) (ids : List DocumentId) :
    (b.indexAll ids).builder.index.Exact := by
  have read : (b.readAll ids).builder.index.Exact :=
    List.foldlRecOn (motive := fun s : Reads => s.builder.index.Exact) _ readOne exact_
      fun _ known x _ => exact_readOne known x
  have computed : (b.scopeAll ids).1.index = (b.readAll ids).builder.index :=
    foldl_keeps (fun s : Builder × List Scoped => s.1.index) index_scopeOne _ _
  exact List.foldlRecOn (motive := fun s : Indexed => s.builder.index.Exact) (b.scopeAll ids).2
    indexOne (computed ▸ read) fun _ known c _ => exact_indexOne known c

/-- A pass opens and closes no document. -/
theorem uriOf_indexAll (b : Builder) (ids : List DocumentId) (x : DocumentId) :
    (b.indexAll ids).builder.uriOf x = b.uriOf x := by
  have uris (c : Builder) : c.uriOf x = (c.facts x).1.map (·.uri) := by
    rw [uriOf, facts, Option.map_map]
    rfl
  have read (s : Seen) : (s.read x).1.map (·.uri) = s.1.map (·.uri) := by
    obtain ⟨d, e⟩ := s
    cases d with
    | none => rfl
    | some d => exact congrArg (fun d => some (Prod.fst d)) (OpenDocument.source_read x d)
  have analyse (s : Seen) : (s.analyse x).1.map (·.uri) = s.1.map (·.uri) := by
    obtain ⟨d, e⟩ := s
    cases d with
    | none => rfl
    | some d => exact congrArg (fun d => some (Prod.fst d)) (OpenDocument.source_analyse x d)
  rw [uris, uris, facts_indexAll, facts_readAll]
  split <;> split <;> simp only [read, analyse]

end Builder

/-! ## What a document is to have -/

/-- What is known of a text without syntax errors. -/
def Analysed.ofText (id : DocumentId) (uri text : String) : Analysed :=
  (OpenDocument.fresh uri text).analysis id

theorem OpenDocument.analysis_eq (id : DocumentId) (d : OpenDocument) :
    d.analysis id = .ofText id d.uri d.text := rfl

/-- A listing of diagnostics: ordered, and each of them once. -/
structure Diagnostic.Lists (listing found : List Diagnostic) : Prop where
  mem : ∀ d, d ∈ listing ↔ d ∈ found
  ordered : listing.Pairwise fun a b => (a.order b).isLE
  nodup : listing.Nodup

/-- The tables say of a document what follows from the text that was read last, and from the text
that was indexed last. -/
structure Recorded (x : DocumentId) (readText indexedText : Option String) (s : Seen) : Prop where
  closed : s.1 = none → readText = none ∧ indexedText = none ∧ s.2 = none
  clean : ∀ {text}, indexedText = some text → (parse text).isClean = true
  latest : ∀ {d}, s.1 = some d → d.latest = readText.map parse
  analysed : ∀ {d}, s.1 = some d → d.analysed = indexedText.map (.ofText x d.uri)
  exports : ∀ {d}, s.1 = some d → s.2.map (·.exports) = d.analysed.map (·.scopes.exports)
  failed : ∀ {d text}, s.1 = some d → readText = some text → (parse text).isClean = false →
    s.2.map (·.valid) ≠ some true ∧ d.links = .empty ∧
      Diagnostic.Lists d.diagnostics
        ((parse text).errors.map fun e => .ofSyntaxError x e.message e.span)

section Recorded

variable {x : DocumentId} {readText indexedText : Option String} {s s' : Seen}

/-- Of a document that is not open nothing is known. -/
theorem recorded_closed (x : DocumentId) : Recorded x none none (none, none) where
  closed _ := ⟨rfl, rfl, rfl⟩
  clean indexed := by cases indexed
  latest present := by cases present
  analysed present := by cases present
  exports present := by cases present
  failed present := by cases present

/-- What the tables are to say of an open document. -/
theorem Recorded.ofOpen {d : OpenDocument} {e : Option IndexEntry}
    (clean : ∀ text, indexedText = some text → (parse text).isClean = true)
    (latest : d.latest = readText.map parse)
    (analysed : d.analysed = indexedText.map (.ofText x d.uri))
    (exports : e.map (·.exports) = d.analysed.map (·.scopes.exports))
    (failed : ∀ text, readText = some text → (parse text).isClean = false →
      e.map (·.valid) ≠ some true ∧ d.links = .empty ∧
        Diagnostic.Lists d.diagnostics
          ((parse text).errors.map fun e => .ofSyntaxError x e.message e.span)) :
    Recorded x readText indexedText (some d, e) where
  closed absent := by cases absent
  clean := clean _
  latest present := by
    cases present
    exact latest
  analysed present := by
    cases present
    exact analysed
  exports present := by
    cases present
    exact exports
  failed present known broken := by
    cases present
    exact failed _ known broken

/-- Only the tables matter. -/
theorem Recorded.of_told (recorded : Recorded x readText indexedText s)
    (told : s'.1.map (·.told) = s.1.map (·.told)) (entry : s'.2 = s.2) :
    Recorded x readText indexedText s' := by
  obtain ⟨d', e'⟩ := s'
  obtain ⟨d, e⟩ := s
  dsimp only at told entry
  subst entry
  cases d with
  | none =>
      rw [Option.map_none, Option.map_eq_none_iff] at told
      subst told
      exact recorded
  | some d =>
      obtain ⟨d', rfl, same⟩ := Option.map_eq_some_iff.mp told
      simp only [OpenDocument.told, Prod.mk.injEq] at same
      obtain ⟨uri, latest, analysed, failed⟩ := same
      refine .ofOpen (fun _ => recorded.clean) (latest.trans (recorded.latest rfl)) ?_ ?_ ?_
      · rw [uri]
        exact analysed.trans (recorded.analysed rfl)
      · rw [analysed]
        exact recorded.exports rfl
      · intro text known broken
        have unclean {e : OpenDocument} (last : e.latest = d.latest) : e.readCleanly = false := by
          rw [OpenDocument.readCleanly, last, recorded.latest rfl, known]
          exact broken
        rw [unclean latest, unclean rfl] at failed
        simp only [Bool.false_eq_true, if_false, Option.some.injEq, Prod.mk.injEq] at failed
        rw [failed.1, failed.2]
        exact recorded.failed rfl known broken

/-- The syntax errors of a text are listed in order, and each of them once. -/
theorem lists_syntaxDiagnostics (x : DocumentId) (errors : List SyntaxError) :
    Diagnostic.Lists (Builder.syntaxDiagnostics x errors)
      (errors.map fun e => .ofSyntaxError x e.message e.span) := by
  refine ⟨fun d => Diagnostic.mem_finish, Diagnostic.pairwise_finish _,
    Diagnostic.nodup_finish fun a here b there same => ?_⟩
  obtain ⟨e, -, rfl⟩ := List.mem_map.mp here
  obtain ⟨e', -, rfl⟩ := List.mem_map.mp there
  obtain ⟨span, -, message, -⟩ := Diagnostic.order_eq_iff.mp same
  exact congrArg₂ (Diagnostic.ofSyntaxError x) message span

theorem Recorded.read (recorded : Recorded x readText indexedText s) {d : OpenDocument}
    (present : s.1 = some d) : Recorded x (some d.text) indexedText (s.read x) := by
  obtain ⟨_, e⟩ := s
  dsimp only at present
  subst present
  simp only [Seen.read, OpenDocument.read]
  cases clean : (parse d.text).isClean with
  | true =>
      simp only [if_true]
      refine .ofOpen (fun _ => recorded.clean) rfl (recorded.analysed (d := d) rfl)
        (recorded.exports (d := d) rfl) ?_
      rintro _ ⟨⟩ broken
      rw [clean] at broken
      cases broken
  | false =>
      simp only [Bool.false_eq_true, if_false]
      refine .ofOpen (fun _ => recorded.clean) rfl (recorded.analysed (d := d) rfl) ?_ ?_
      · rw [Option.map_map]
        exact recorded.exports (d := d) rfl
      · rintro _ ⟨⟩ -
        refine ⟨?_, rfl, lists_syntaxDiagnostics x _⟩
        rw [Option.map_map]
        cases e <;> simp

theorem Recorded.analyse {d : OpenDocument} (recorded : Recorded x (some d.text) indexedText s)
    (clean : (parse d.text).isClean = true) {d' : OpenDocument} (present : s.1 = some d')
    (text : d'.text = d.text) : Recorded x (some d.text) (some d.text) (s.analyse x) := by
  obtain ⟨_, e⟩ := s
  dsimp only at present
  subst present
  simp only [Seen.analyse, OpenDocument.analyse, text, clean, if_true]
  refine .ofOpen ?_ (recorded.latest (d := d') rfl) ?_ rfl ?_
  · rintro _ ⟨⟩
    exact clean
  · rw [OpenDocument.analysis_eq, text]
    rfl
  · rintro _ ⟨⟩ broken
    rw [clean] at broken
    cases broken

end Recorded

end BbjAnalysis
