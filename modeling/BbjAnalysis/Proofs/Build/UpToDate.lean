import BbjAnalysis.Proofs.Build.Coherence

/-! # Documents that need not be read again

A document is up to date if reading its present text again would change nothing. Only
taking a new text can put a document out of date, and a pass over it puts it right.
Passes never change texts, so that the files of a builder and their texts are what was
opened and not closed since.
-/

namespace BbjAnalysis

namespace OpenDocument

/-- Reading the text again would change nothing. -/
def UpToDate (id : DocumentId) (d : OpenDocument) : Prop := d.reread id = d

variable {id : DocumentId} {d : OpenDocument}

theorem upToDate_reread (id : DocumentId) (d : OpenDocument) : (d.reread id).UpToDate id :=
  reread_reread id d

theorem UpToDate.readCleanly (upToDate : d.UpToDate id) :
    d.readCleanly = (parse d.text).isClean := by
  rw [← readCleanly_reread id d, upToDate]

/-- What is known of a text without syntax errors follows from it. -/
theorem UpToDate.known (upToDate : d.UpToDate id) (clean : (parse d.text).isClean = true) :
    d.latest = some (parse d.text) ∧ d.analysed = some (d.analysis id) := by
  have same := reread_of_clean id clean
  rw [upToDate] at same
  exact ⟨congrArg OpenDocument.latest same, congrArg OpenDocument.analysed same⟩

theorem UpToDate.linkable (upToDate : d.UpToDate id) (clean : (parse d.text).isClean = true) :
    d.linkable = some (d.analysis id) := by
  rw [OpenDocument.linkable, upToDate.readCleanly, clean, if_pos rfl, (upToDate.known clean).2]

theorem UpToDate.settle (upToDate : d.UpToDate id) (b : Builder) :
    (b.settle id d).UpToDate id := by
  cases linkable : d.linkable with
  | none =>
      rw [Builder.settle_of_not_linkable linkable]
      exact upToDate
  | some a =>
      have clean : (parse d.text).isClean = true := by
        rw [← upToDate.readCleanly]
        by_contra broken
        rw [OpenDocument.linkable, if_neg broken] at linkable
        cases linkable
      obtain ⟨latest, analysed⟩ := upToDate.known clean
      rw [Builder.settle_of_linkable linkable]
      -- Reading leaves links and diagnostics alone unless the text has syntax errors.
      let linked : OpenDocument :=
        { d with links := (b.linkedAfresh id a).1, diagnostics := (b.linkedAfresh id a).2 }
      have again : linked.reread id =
          { linked with latest := some (parse d.text), analysed := some (d.analysis id) } :=
        reread_of_clean (d := linked) id clean
      rw [← latest, ← analysed] at again
      exact again

end OpenDocument

namespace Builder

/-- The document with the given identity is up to date if it is open. -/
def UpToDate (b : Builder) (x : DocumentId) : Prop := ∀ d, b.document? x = some d → d.UpToDate x

/-- The text of the document with the given URI. -/
def textOf (b : Builder) (uri : String) : Option String :=
  (b.idOf uri).bind fun id => (b.document? id).map (·.text)

section UpToDate

variable {b b' : Builder} {x : DocumentId}

theorem UpToDate.of_document?_eq (upToDate : b.UpToDate x)
    (same : b'.document? x = b.document? x) : b'.UpToDate x := by
  intro d present
  exact upToDate d (same.symm.trans present)

theorem UpToDate.of_settle (upToDate : b.UpToDate x)
    (settled : b'.document? x = (b.document? x).map (b.settle x)) : b'.UpToDate x := by
  intro d present
  rw [settled, Option.map_eq_some_iff] at present
  obtain ⟨former, present, rfl⟩ := present
  exact (upToDate former present).settle b

theorem textOf_eq (byUri : b'.byUri = b.byUri)
    (sources : ∀ x, (b'.document? x).map (·.source) = (b.document? x).map (·.source))
    (uri : String) : b'.textOf uri = b.textOf uri := by
  have texts (x : DocumentId) : (b'.document? x).map (·.text) = (b.document? x).map (·.text) := by
    have same := congrArg (Option.map (·.2.1)) (sources x)
    simp only [Option.map_map] at same
    exact same
  simp only [textOf, idOf, byUri, texts]

end UpToDate

/-! ## Folds of relinking -/

section Relink

variable {b : Builder} (sound : b.Sound) (report : BuildReport) (ids : List DocumentId)
include sound

theorem Sound.upToDate_foldl {x : DocumentId} (upToDate : b.UpToDate x) :
    (ids.foldl relink (b, report)).1.UpToDate x := by
  have documents := sound.document?_foldl report ids x
  split at documents
  · exact upToDate.of_settle documents
  · exact upToDate.of_document?_eq documents

theorem Sound.textOf_foldl (uri : String) :
    (ids.foldl relink (b, report)).1.textOf uri = b.textOf uri := by
  have linking := sound.linking_foldl report ids
  exact textOf_eq (congrArg Setting.byUri linking.setting) linking.sources uri

end Relink

/-! ## Passes -/

section Rebuild

variable {b : Builder} (coherent : b.Coherent) (ids : List DocumentId)
include coherent

theorem Coherent.source_rebuild (x : DocumentId) :
    ((b.rebuild ids).1.document? x).map (·.source) = (b.document? x).map (·.source) := by
  rw [coherent.document?_rebuild ids x, Option.map_map]
  refine congrArg (Option.map · _) (funext fun d => ?_)
  rw [Function.comp_apply, source_settle]
  split
  · exact OpenDocument.source_reread x d
  · rfl

theorem Coherent.textOf_rebuild (uri : String) : (b.rebuild ids).1.textOf uri = b.textOf uri :=
  textOf_eq (congrArg Setting.byUri (coherent.setting_rebuild ids)) (coherent.source_rebuild ids)
    uri

theorem Coherent.upToDate_rebuild {x : DocumentId} (either : x ∈ ids ∨ b.UpToDate x) :
    (b.rebuild ids).1.UpToDate x := by
  intro d present
  rw [coherent.document?_rebuild ids x, Option.map_eq_some_iff] at present
  obtain ⟨former, present, rfl⟩ := present
  refine OpenDocument.UpToDate.settle ?_ _
  split
  · exact OpenDocument.upToDate_reread x former
  · next other => exact either.resolve_left other former present

theorem Coherent.upToDate_reloadCatalog {x : DocumentId} (upToDate : b.UpToDate x) :
    b.reloadCatalog.1.UpToDate x :=
  coherent.withReload.upToDate_foldl .empty _ upToDate

theorem Coherent.textOf_reloadCatalog (uri : String) :
    b.reloadCatalog.1.textOf uri = b.textOf uri :=
  coherent.withReload.textOf_foldl .empty _ uri

end Rebuild

/-! ## Opening and closing -/

theorem textOf_of_document?_eq {b b' : Builder} {uri : String} (idOf : b'.idOf uri = b.idOf uri)
    (documents : ∀ x, b.idOf uri = some x → b'.document? x = b.document? x) :
    b'.textOf uri = b.textOf uri := by
  rw [textOf, idOf, textOf]
  cases known : b.idOf uri with
  | none => rfl
  | some x => rw [Option.bind_some, Option.bind_some, documents x known]

section Documents

variable {b : Builder} (sound : b.Sound)
include sound

theorem Sound.idOf_eq_some {uri : String} {x : DocumentId} :
    b.idOf uri = some x ↔ ∃ d, b.document? x = some d ∧ d.uri = uri := by
  rw [idOf, sound.registered, uriOf, Option.map_eq_some_iff]

theorem Sound.idOf_injective {uri uri' : String} {x : DocumentId} (known : b.idOf uri = some x)
    (known' : b.idOf uri' = some x) : uri = uri' := by
  have same := (sound.registered.mp known).symm.trans (sound.registered.mp known')
  exact Option.some.inj same

theorem Sound.textOf_openDocument (uri text other : String) :
    (b.openDocument uri text).2.textOf other =
      if other = uri then some text else b.textOf other := by
  cases known : b.byUri.get? uri with
  | some id =>
      rw [openDocument_of_known known]
      split
      · next same =>
          subst same
          obtain ⟨d, present, -⟩ := sound.idOf_eq_some.mp known
          have found : ((b.retire id).update id
              fun d => { d with text, cancelled := false }).idOf other = some id := known
          have former : (b.retire id).document? id = some d := present
          rw [textOf, found, Option.bind_some, document?_update, if_pos rfl, former]
          rfl
      · next different =>
          refine textOf_of_document?_eq rfl fun x found => ?_
          rw [document?_update]
          refine if_neg ?_
          rintro rfl
          exact different (sound.idOf_injective found known)
  | none =>
      have table := idOf_openNew (b := b) uri text other
      rw [openDocument_of_unknown known]
      split
      · next same =>
          rw [if_pos same] at table
          rw [textOf, table, Option.bind_some, document?_openNew, if_pos rfl]
          rfl
      · next different =>
          rw [if_neg different] at table
          refine textOf_of_document?_eq table fun x found => ?_
          rw [document?_openNew, if_neg]
          rintro rfl
          exact Nat.lt_irrefl _ (sound.below (sound.registered.mp found))

omit sound in
theorem document?_openDocument_of_ne (uri text : String) {x : DocumentId}
    (other : x ≠ (b.openDocument uri text).1) :
    (b.openDocument uri text).2.document? x = b.document? x := by
  cases known : b.byUri.get? uri with
  | some id =>
      rw [openDocument_of_known known] at other ⊢
      exact (document?_update _ _ _ _).trans (if_neg other)
  | none =>
      rw [openDocument_of_unknown known] at other ⊢
      exact (document?_openNew uri text x).trans (if_neg other)

theorem Sound.textOf_forget {id : DocumentId} {d : OpenDocument}
    (present : b.document? id = some d) (other : String) :
    (b.forget id d).textOf other = if other = d.uri then none else b.textOf other := by
  have table := idOf_forget (b := b) id d other
  split
  · next same =>
      rw [if_pos same] at table
      rw [textOf, table]
      rfl
  · next different =>
      rw [if_neg different] at table
      refine textOf_of_document?_eq table fun x found => ?_
      rw [document?_forget, if_neg]
      rintro rfl
      exact different (sound.idOf_injective found (sound.idOf_eq_some.mpr ⟨d, present, rfl⟩))

/-- Closing a document takes its text away and leaves those of the others, and puts no document
out of date. -/
theorem Sound.removeDocument_spec {id : DocumentId} {d : OpenDocument}
    (present : b.document? id = some d) :
    ∃ r, b.removeDocument id = .ok r ∧
      (∀ other, r.1.textOf other = if other = d.uri then none else b.textOf other) ∧
      ∀ x, x = id ∨ b.UpToDate x → r.1.UpToDate x := by
  refine ⟨_, removeDocument_of_open present, fun other => ?_, fun x either => ?_⟩
  · exact ((sound.forget present).textOf_foldl .empty _ other).trans
      (sound.textOf_forget present other)
  · refine (sound.forget present).upToDate_foldl .empty _ fun e opened => ?_
    rw [document?_forget] at opened
    split at opened
    · cases opened
    · next other => exact either.resolve_left other e opened

end Documents

end Builder

end BbjAnalysis
