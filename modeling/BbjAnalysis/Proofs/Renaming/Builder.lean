import BbjAnalysis.Proofs.Build.Run
import BbjAnalysis.Proofs.Build.UpToDate
import BbjAnalysis.Proofs.Renaming.Rule

/-! # Renamed builders

A builder is finished if it is coherent, its documents are up to date, and none of their
texts has syntax errors. Then everything it knows follows from the texts. Two finished
builders with the same texts, whose documents correspond in order, know the same of
corresponding documents (`SameTexts.renamesTo`).
-/

namespace BbjAnalysis

def Analysed.rename (σ : DocumentId → DocumentId) (a : Analysed) : Analysed :=
  { a with scopes := a.scopes.rename σ }

def OpenDocument.rename (σ : DocumentId → DocumentId) (d : OpenDocument) : OpenDocument :=
  { d with
    analysed := d.analysed.map (.rename σ)
    links := d.links.rename σ
    diagnostics := d.diagnostics.map (.rename σ) }

namespace OpenDocument

theorem analysis_fresh (id : DocumentId) (d : OpenDocument) :
    (fresh d.uri d.text).analysis id = d.analysis id := rfl

theorem analysis_rename (σ : DocumentId → DocumentId) (id : DocumentId) (d : OpenDocument) :
    (d.analysis id).rename σ = d.analysis (σ id) := by
  simp only [Analysed.rename, analysis, computeScopes_rename]

theorem UpToDate.entry {id : DocumentId} {d : OpenDocument} (upToDate : d.UpToDate id)
    (clean : (parse d.text).isClean = true) :
    d.entry = some ⟨(d.analysis id).scopes.exports, true⟩ := by
  rw [OpenDocument.entry, (upToDate.known clean).2, upToDate.readCleanly, clean, Option.map_some]

end OpenDocument

namespace Builder

structure Finished (b : Builder) : Prop extends b.Coherent where
  upToDate : ∀ x, b.UpToDate x
  clean : ∀ {x d}, b.document? x = some d → (parse d.text).isClean = true

/-- The document as it is when its text was read and linked for the first time. -/
def firstBuilt (b : Builder) (x : DocumentId) (uri text : String) : OpenDocument :=
  b.settle x ((OpenDocument.fresh uri text).reread x)

/-- Nothing is left in a finished builder of how it came about. -/
theorem Finished.eq_firstBuilt {b : Builder} (finished : b.Finished) {x : DocumentId}
    {d : OpenDocument} (present : b.document? x = some d) : d = b.firstBuilt x d.uri d.text := by
  have clean := finished.clean present
  have upToDate : d.reread x = d := finished.upToDate x d present
  have linkable := (finished.upToDate x d present).linkable clean
  have linked : b.settle x (d.reread x) = d := by
    rw [upToDate]
    exact ((finished.settled x).eq present linkable).1
  have live := finished.quiet.live present
  rw [settle_reread_of_clean clean, live] at linked
  rw [firstBuilt, settle_reread_of_clean (d := .fresh d.uri d.text) clean]
  exact linked.symm

/-- Two builders with the same texts, whose documents correspond in order. -/
structure SameTexts (σ : DocumentId → DocumentId) (b b' : Builder) : Prop where
  mono : StrictMono σ
  sources : ∀ x, (b'.document? (σ x)).map (·.source) = (b.document? x).map (·.source)
  onto : ∀ {y d}, b'.document? y = some d → ∃ x, σ x = y

/-- What `b'` knows is what `b` knows, renamed. -/
structure RenamesTo (σ : DocumentId → DocumentId) (b b' : Builder) : Prop where
  mono : StrictMono σ
  document? : ∀ x, b'.document? (σ x) = (b.document? x).map (.rename σ)
  onto : ∀ {y d}, b'.document? y = some d → ∃ x, σ x = y
  idOf : ∀ uri, b'.idOf uri = (b.idOf uri).map σ
  entries : b'.index.documents.entries =
    b.index.documents.entries.map fun e => (σ e.1, e.2.rename σ)

section SameTexts

variable {σ : DocumentId → DocumentId} {b b' : Builder} (same : SameTexts σ b b')
include same

theorem SameTexts.absent {x : DocumentId} (absent : b.document? x = none) :
    b'.document? (σ x) = none := by
  have sources := same.sources x
  rw [absent, Option.map_none, Option.map_eq_none_iff] at sources
  exact sources

theorem SameTexts.present {x : DocumentId} {d : OpenDocument} (present : b.document? x = some d) :
    ∃ d', b'.document? (σ x) = some d' ∧ d'.uri = d.uri ∧ d'.text = d.text := by
  have sources := same.sources x
  rw [present, Option.map_some, Option.map_eq_some_iff] at sources
  obtain ⟨d', present', source⟩ := sources
  exact ⟨d', present', congrArg (·.1) source, congrArg (·.2.1) source⟩

theorem SameTexts.idOf (sound : b.Sound) (sound' : b'.Sound) (uri : String) :
    b'.idOf uri = (b.idOf uri).map σ := by
  apply Option.ext
  intro y
  rw [Option.map_eq_some_iff]
  constructor
  · intro known
    obtain ⟨d', present', named⟩ := sound'.idOf_eq_some.mp known
    obtain ⟨x, rfl⟩ := same.onto present'
    refine ⟨x, ?_, rfl⟩
    cases present : b.document? x with
    | none =>
        rw [same.absent present] at present'
        cases present'
    | some d =>
        obtain ⟨e, again, uris, -⟩ := same.present present
        rw [present'] at again
        cases again
        exact sound.idOf_eq_some.mpr ⟨d, present, uris.symm.trans named⟩
  · rintro ⟨x, known, rfl⟩
    obtain ⟨d, present, named⟩ := sound.idOf_eq_some.mp known
    obtain ⟨d', present', uris, -⟩ := same.present present
    exact sound'.idOf_eq_some.mpr ⟨d', present', uris.trans named⟩

theorem SameTexts.onto_entry (sound' : b'.Sound) {y : DocumentId} {e : IndexEntry}
    (known : b'.index.documents.get? y = some e) : ∃ x, σ x = y := by
  rw [sound'.entry, Option.bind_eq_some_iff] at known
  obtain ⟨d, present, -⟩ := known
  exact same.onto present

variable (finished : b.Finished) (finished' : b'.Finished)
include finished finished'

/-- The index knows the same of corresponding documents. -/
theorem SameTexts.entry (x : DocumentId) :
    b'.index.documents.get? (σ x) = (b.index.documents.get? x).map (.rename σ) := by
  rw [finished'.entry, finished.entry]
  cases present : b.document? x with
  | none =>
      rw [same.absent present]
      rfl
  | some d =>
      obtain ⟨d', present', uris, texts⟩ := same.present present
      have entry := (finished.upToDate x d present).entry (finished.clean present)
      have entry' := (finished'.upToDate _ d' present').entry (finished'.clean present')
      have analyses : d'.analysis (σ x) = (d.analysis x).rename σ := by
        rw [OpenDocument.analysis_rename]
        simp only [OpenDocument.analysis, uris, texts]
      rw [present', Option.bind_some, Option.bind_some, entry, entry', analyses]
      rfl

theorem SameTexts.exportsOf (x : DocumentId) :
    b'.index.exportsOf (σ x) = (b.index.exportsOf x).map (.rename σ) := by
  simp only [WorkspaceIndex.exportsOf, same.entry finished finished' x, Option.map_map]
  rfl

theorem SameTexts.answers (name : String) :
    WorkspaceIndex.AnswersAlike σ b.index b'.index name := by
  refine finished.index.answersAlike_rename finished'.index finished.owned same.mono
    (fun d _ => same.exportsOf finished finished' d) fun d' exported => ?_
  cases known : b'.index.documents.get? d' with
  | none =>
      rw [WorkspaceIndex.exportedNames, known] at exported
      cases exported
  | some e =>
      obtain ⟨d, rfl⟩ := same.onto_entry finished'.toSound known
      exact ⟨d, rfl, same.exportsOf finished finished' d⟩

variable (configured : b.Configured b.resolver.catalog b')
include configured

theorem SameTexts.linkedAfresh (x : DocumentId) (a : Analysed) :
    b'.linkedAfresh (σ x) (a.rename σ) =
      ((b.linkedAfresh x a).1.rename σ, (b.linkedAfresh x a).2.map (.rename σ)) := by
  have renames : LinkContext.RenamesTo σ (b.linkContext x a.scopes)
      (b'.linkContext (σ x) (a.rename σ).scopes) := ⟨rfl, rfl, rfl, configured.packages⟩
  have faithful := Java.Resolver.faithful_ofCatalog b.resolver.catalog
  -- The document looks up nothing that the two indexes answer differently.
  have links : (Links.link (b'.linkContext (σ x) (a.rename σ).scopes) b.config.reportUnresolvedJava
      (.ofCatalog b.resolver.catalog) (a.rename σ).scopes.references).1 = _ :=
    (Links.link_rename renames same.mono b.config.reportUnresolvedJava
      (fun site _ _ => same.answers finished finished' site.name) ⟨rfl, rfl, faithful, faithful⟩).1
  have found := RuleSet.validate_rename same.mono.injective b.rules
    ⟨x, a.program, a.scopes.tree, a.scopes.references, (b.linkedAfresh x a).1⟩
  simp only [Builder.linkedAfresh, configured.config, configured.rules, configured.catalog, links]
  refine Prod.ext rfl ?_
  show _ = List.map (Diagnostic.rename σ) (Diagnostic.sort _)
  rw [← Diagnostic.sort_rename, List.map_append]
  exact congrArg (fun l => Diagnostic.sort (_ ++ l)) found

/-- Whatever two finished builders with the same texts know, they know alike. -/
theorem SameTexts.renamesTo : RenamesTo σ b b' where
  mono := same.mono
  document? x := by
    cases present : b.document? x with
    | none => exact same.absent present
    | some d =>
        obtain ⟨d', present', uris, texts⟩ := same.present present
        have clean := finished.clean present
        have first := finished.eq_firstBuilt present
        have first' := finished'.eq_firstBuilt present'
        have linked := same.linkedAfresh finished finished' configured x (d.analysis x)
        rw [OpenDocument.analysis_rename] at linked
        rw [uris, texts, firstBuilt,
          settle_reread_of_clean (d := .fresh d.uri d.text) clean] at first'
        rw [firstBuilt, settle_reread_of_clean (d := .fresh d.uri d.text) clean] at first
        rw [present', Option.map_some]
        refine congrArg some (first'.trans ?_)
        refine Eq.trans ?_ (congrArg (OpenDocument.rename σ) first.symm)
        simp only [OpenDocument.rename, OpenDocument.analysis_fresh, linked, Option.map_some,
          OpenDocument.analysis_rename]
  onto := same.onto
  idOf := same.idOf finished.toSound finished'.toSound
  entries := OrderedMap.entries_eq_map same.mono (same.entry finished finished')
    fun y e known => (same.onto_entry finished'.toSound known).imp fun _ => Eq.symm

end SameTexts

/-! ## Numbering the documents -/

/-- The identity of the document at a place among the documents, or one that was never given to
a document. -/
def numbering (b : Builder) (i : Nat) : DocumentId :=
  (b.documents.keys[i]?).getD (b.nextId + i)

section Numbering

variable {b : Builder} (sound : b.Sound)
include sound

theorem Sound.lt_nextId {x : DocumentId} {d : OpenDocument} (present : b.document? x = some d) :
    x < b.nextId :=
  sound.below (uriOf_of_open present)

omit sound in
theorem document?_of_keys {i : Nat} {x : DocumentId} (at_ : b.documents.keys[i]? = some x) :
    ∃ d, b.document? x = some d ∧ b.documents.values[i]? = some d := by
  rw [OrderedMap.keys, List.getElem?_map, Option.map_eq_some_iff] at at_
  obtain ⟨⟨y, d⟩, at_, rfl⟩ := at_
  refine ⟨d, OrderedMap.get?_eq_some_iff.mpr (List.mem_of_getElem? at_), ?_⟩
  rw [OrderedMap.values, List.getElem?_map, at_, Option.map_some]

theorem Sound.strictMono_numbering : StrictMono b.numbering := by
  intro i j less
  have ascending : b.documents.keys.Pairwise (· < ·) :=
    List.pairwise_map.mpr b.documents.ascending
  unfold numbering
  cases first : b.documents.keys[i]? with
  | none =>
      have beyond : b.documents.keys[j]? = none := by
        rw [List.getElem?_eq_none_iff] at first ⊢
        exact Nat.le_trans first (Nat.le_of_lt less)
      rw [beyond]
      exact Nat.add_lt_add_left less b.nextId
  | some x =>
      obtain ⟨d, present, -⟩ := document?_of_keys first
      cases second : b.documents.keys[j]? with
      | none => exact Nat.lt_of_lt_of_le (sound.lt_nextId present) (Nat.le_add_right _ _)
      | some y =>
          obtain ⟨early, rfl⟩ := List.getElem?_eq_some_iff.mp first
          obtain ⟨late, rfl⟩ := List.getElem?_eq_some_iff.mp second
          exact List.pairwise_iff_getElem.mp ascending i j early late less

theorem Sound.document?_numbering (i : Nat) :
    b.document? (b.numbering i) = b.documents.values[i]? := by
  unfold numbering
  cases at_ : b.documents.keys[i]? with
  | none =>
      have beyond : b.documents.values[i]? = none := by
        rw [OrderedMap.keys, List.getElem?_map, Option.map_eq_none_iff] at at_
        rw [OrderedMap.values, List.getElem?_map, at_, Option.map_none]
      rw [beyond, Option.getD_none]
      cases present : b.document? (b.nextId + i) with
      | none => rfl
      | some d => exact absurd (sound.lt_nextId present) (Nat.not_lt.mpr (Nat.le_add_right _ _))
  | some x =>
      obtain ⟨d, present, value⟩ := document?_of_keys at_
      rw [value, Option.getD_some, present]

omit sound in
theorem numbering_onto {x : DocumentId} {d : OpenDocument} (present : b.document? x = some d) :
    ∃ i, b.numbering i = x := by
  obtain ⟨i, at_⟩ := List.getElem?_of_mem (OrderedMap.mem_keys.mpr ⟨d, present⟩)
  exact ⟨i, by rw [numbering, at_, Option.getD_some]⟩

end Numbering

end Builder

end BbjAnalysis
