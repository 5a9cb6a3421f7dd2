import BbjAnalysis.Proofs.Build.Quiet
import BbjAnalysis.Proofs.Workspace.Dependencies
import BbjAnalysis.Proofs.Workspace.Index

/-! # Reading and indexing without interruption

Up to the linking, a pass over a quiet builder replaces what is known of each of its
documents by what follows from the present text (`OpenDocument.reread`). Whoever
depends on a name that a document exported before, or exports now, is among the
dependents of the pass.
-/

namespace BbjAnalysis

namespace OpenDocument

/-- What the index is to know of a document. -/
def entry (d : OpenDocument) : Option IndexEntry :=
  d.analysed.map fun a => ⟨a.scopes.exports, d.readCleanly⟩

/-- What follows from the present text, if it has no syntax errors. -/
def analysis (id : DocumentId) (d : OpenDocument) : Analysed :=
  let p := (parse d.text).program
  ⟨p, .ofText d.text, computeScopes id d.uri p⟩

/-- The document after its text was read, and before its scopes were computed. -/
def read (id : DocumentId) (d : OpenDocument) : OpenDocument :=
  let p := parse d.text
  if p.isClean then { d with latest := some p }
  else
    { d with
      latest := some p
      links := .empty
      diagnostics := Builder.syntaxDiagnostics id p.errors }

/-- The document after its scopes were computed, if its text was read without errors. -/
def analyse (id : DocumentId) (d : OpenDocument) : OpenDocument :=
  if (parse d.text).isClean then { d with analysed := some (d.analysis id) } else d

/-- The document after all of that. -/
def reread (id : DocumentId) (d : OpenDocument) : OpenDocument := (d.read id).analyse id

section Reread

variable (id : DocumentId) (d : OpenDocument)

@[simp] theorem source_read : (d.read id).source = d.source := by
  simp only [read]
  split <;> rfl

@[simp] theorem text_read : (d.read id).text = d.text := by
  simp only [read]
  split <;> rfl

@[simp] theorem text_analyse : (d.analyse id).text = d.text := by
  unfold analyse
  split <;> rfl

@[simp] theorem source_analyse : (d.analyse id).source = d.source := by
  unfold analyse
  split <;> rfl

@[simp] theorem source_reread : (d.reread id).source = d.source := by
  rw [reread, source_analyse, source_read]

theorem reread_of_clean {d : OpenDocument} (clean : (parse d.text).isClean = true) :
    d.reread id = { d with latest := some (parse d.text), analysed := some (d.analysis id) } := by
  simp only [reread, analyse, clean, if_true, read]
  rfl

theorem reread_of_broken {d : OpenDocument} (broken : (parse d.text).isClean = false) :
    d.reread id =
      { d with
        latest := some (parse d.text)
        links := .empty
        diagnostics := Builder.syntaxDiagnostics id (parse d.text).errors } := by
  simp only [reread, analyse, broken, if_false, read, Bool.false_eq_true]

theorem latest_reread : (d.reread id).latest = some (parse d.text) := by
  cases clean : (parse d.text).isClean with
  | true => rw [reread_of_clean id clean]
  | false => rw [reread_of_broken id clean]

theorem readCleanly_reread : (d.reread id).readCleanly = (parse d.text).isClean := by
  rw [readCleanly, latest_reread]
  rfl

theorem reread_reread : (d.reread id).reread id = d.reread id := by
  cases clean : (parse d.text).isClean with
  | true =>
      rw [reread_of_clean id clean]
      exact reread_of_clean id clean
  | false =>
      rw [reread_of_broken id clean]
      exact reread_of_broken id clean

theorem read_read : (d.read id).read id = d.read id := by
  simp only [read]
  split <;> simp_all

theorem analyse_analyse : (d.analyse id).analyse id = d.analyse id := by
  unfold analyse
  split <;> simp_all [analysis]

end Reread

end OpenDocument

/-! ## What is seen of a document -/

/-- A document, and what the index knows of it. -/
abbrev Seen := Option OpenDocument × Option IndexEntry

namespace Seen

/-- What reading does to a document and its entry. -/
def read (id : DocumentId) : Seen → Seen
  | (none, e) => (none, e)
  | (some d, e) =>
      (some (d.read id),
        if (parse d.text).isClean then e else e.map fun e => { e with valid := false })

/-- What computing scopes and putting exports into the index do to a document and its entry. -/
def analyse (id : DocumentId) : Seen → Seen
  | (none, e) => (none, e)
  | (some d, e) =>
      (some (d.analyse id),
        if (parse d.text).isClean then some ⟨(d.analysis id).scopes.exports, true⟩ else e)

theorem read_read (id : DocumentId) (s : Seen) : read id (read id s) = read id s := by
  obtain ⟨d, e⟩ := s
  cases d with
  | none => rfl
  | some d =>
      simp only [read, OpenDocument.read_read, OpenDocument.text_read]
      split
      · rfl
      · rw [Option.map_map]
        rfl

/-- Reading changes no exports. -/
theorem names_read (id : DocumentId) (s : Seen) :
    (read id s).2.map (·.exports.names) = s.2.map (·.exports.names) := by
  obtain ⟨d, e⟩ := s
  cases d with
  | none => rfl
  | some d =>
      simp only [read]
      split
      · rfl
      · rw [Option.map_map]
        rfl

theorem analyse_analyse (id : DocumentId) (s : Seen) :
    analyse id (analyse id s) = analyse id s := by
  obtain ⟨d, e⟩ := s
  cases d with
  | none => rfl
  | some d =>
      simp only [analyse, OpenDocument.analyse_analyse, OpenDocument.text_analyse]
      by_cases clean : (parse d.text).isClean = true
      · simp only [clean, if_true, OpenDocument.analyse]
        rfl
      · simp only [clean, if_false, Bool.false_eq_true]

theorem document_reread (id : DocumentId) (s : Seen) :
    (analyse id (read id s)).1 = s.1.map (·.reread id) := by
  obtain ⟨d, e⟩ := s
  cases d <;> rfl

/-- If the index knew of a document what the document says, then it does so afterwards. -/
theorem entry_reread {id : DocumentId} {s : Seen} (known : s.2 = s.1.bind (·.entry)) :
    (analyse id (read id s)).2 = (s.1.map (·.reread id)).bind (·.entry) := by
  obtain ⟨d, e⟩ := s
  dsimp only at known
  subst known
  cases d with
  | none => rfl
  | some d =>
      simp only [Option.map_some, Option.bind_some, read, analyse, OpenDocument.text_read,
        OpenDocument.entry, OpenDocument.readCleanly_reread]
      cases clean : (parse d.text).isClean with
      | true =>
          simp only [OpenDocument.reread_of_clean id clean, if_true, Option.map_some]
          simp only [OpenDocument.analysis, OpenDocument.read, clean, if_true]
      | false =>
          simp only [OpenDocument.reread_of_broken id clean, Bool.false_eq_true, if_false]
          rw [Option.map_map]
          rfl

/-- A text with errors changes no exports. -/
theorem exports_of_broken {id : DocumentId} {s : Seen}
    (broken : ∀ d, s.1 = some d → (parse d.text).isClean = false) :
    (analyse id (read id s)).2.map (·.exports) = s.2.map (·.exports) := by
  obtain ⟨d, e⟩ := s
  cases d with
  | none => rfl
  | some d =>
      simp only [read, analyse, OpenDocument.text_read, broken d rfl, Bool.false_eq_true, if_false]
      rw [Option.map_map]
      rfl

end Seen

namespace Builder

def seen (b : Builder) (x : DocumentId) : Seen := (b.document? x, b.index.documents.get? x)

theorem seen_update (b : Builder) (i : WorkspaceIndex) (id x : DocumentId)
    (f : OpenDocument → OpenDocument) :
    ({ b with index := i }.update id f).seen x =
      (if x = id then (b.document? x).map f else b.document? x, i.documents.get? x) :=
  Prod.ext (document?_update _ id x f) rfl

/-- What reading finds in a document, if its text has no syntax errors. -/
def readingOf (b : Builder) (id : DocumentId) : Option Reading :=
  (b.document? id).bind fun d =>
    if (parse d.text).isClean then some ⟨id, d.uri, (parse d.text).program, .ofText d.text⟩
    else none

/-- The state `b'` of a pass over `b` before the linking. -/
structure Amid (b b' : Builder) : Prop where
  setting : b'.setting = b.setting
  sources : ∀ x, (b'.document? x).map (·.source) = (b.document? x).map (·.source)
  quiet : b'.Quiet
  index : b'.index.Exact
  dependencies : b'.dependencies = b.dependencies
  resolver : b'.resolver = b.resolver

section Amid

variable {b b' : Builder}

theorem Quiet.amid (quiet : b.Quiet) (index : b.index.Exact) : Amid b b :=
  ⟨rfl, fun _ => rfl, quiet, index, rfl, rfl⟩

/-- A step that changes one document and the index. -/
theorem Amid.of_update (amid : Amid b b') {i : WorkspaceIndex} (index : i.Exact) (id : DocumentId)
    {f : OpenDocument → OpenDocument} (keeps : ∀ d, (f d).source = d.source) :
    Amid b ({ b' with index := i }.update id f) where
  setting := amid.setting
  sources x := (source_update keeps x).trans (amid.sources x)
  quiet := amid.quiet.of_sources rfl (source_update keeps)
  index := index
  dependencies := amid.dependencies
  resolver := amid.resolver

theorem Amid.readingOf_eq (amid : Amid b b') (x : DocumentId) :
    b'.readingOf x = b.readingOf x := by
  have same := amid.sources x
  simp only [readingOf]
  cases former : b.document? x with
  | none =>
      rw [former, Option.map_none, Option.map_eq_none_iff] at same
      rw [same]
  | some d =>
      rw [former, Option.map_some, Option.map_eq_some_iff] at same
      obtain ⟨d', present, same⟩ := same
      have uri : d'.uri = d.uri := congrArg (·.1) same
      have text : d'.text = d.text := congrArg (·.2.1) same
      rw [present, Option.bind_some, Option.bind_some, uri, text]

theorem Amid.stays_open (amid : Amid b b') {x : DocumentId} {d : OpenDocument}
    (present : b.document? x = some d) : ∃ d', b'.document? x = some d' ∧ d'.source = d.source := by
  have same := amid.sources x
  rw [present, Option.map_some, Option.map_eq_some_iff] at same
  exact same

theorem readingOf_document {x : DocumentId} {r : Reading} (found : b.readingOf x = some r) :
    r.document = x ∧ ∃ d, b.document? x = some d ∧ (parse d.text).isClean = true ∧
      r = ⟨x, d.uri, (parse d.text).program, .ofText d.text⟩ := by
  obtain ⟨d, present, found⟩ := Option.bind_eq_some_iff.mp found
  split at found
  · next clean =>
      cases found
      exact ⟨rfl, d, present, clean, rfl⟩
  · cases found

end Amid

/-! ## Reading -/

section Reading

variable {b : Builder} {s : Reads} {id : DocumentId} {d : OpenDocument}

theorem readOne_of_absent (absent : s.builder.document? id = none) :
    readOne s id = { s with report := s.report.addFailed (.unknownDocument id) } := by
  simp only [readOne, absent]

theorem Quiet.readOne_of_clean (quiet : s.builder.Quiet)
    (present : s.builder.document? id = some d) (clean : (parse d.text).isClean = true) :
    readOne s id =
      ⟨s.builder.update id fun d' => { d' with latest := some (parse d.text) },
        s.report.addParsed id,
        s.clean ++ [⟨id, d.uri, (parse d.text).program, .ofText d.text⟩]⟩ := by
  simp only [readOne, present, quiet.arrive, quiet.isCancelled present, Bool.false_eq_true,
    if_false, clean, if_true]

theorem Quiet.readOne_of_broken (quiet : s.builder.Quiet)
    (present : s.builder.document? id = some d) (broken : (parse d.text).isClean = false) :
    readOne s id =
      ⟨{ s.builder with index := s.builder.index.markInvalid id }.update id fun d' =>
          { d' with
            latest := some (parse d.text)
            links := .empty
            diagnostics := syntaxDiagnostics id (parse d.text).errors },
        (s.report.addParsed id).addFailed (.parseFailure id d.uri (parse d.text).errors.length),
        s.clean⟩ := by
  simp only [readOne, present, quiet.arrive, quiet.isCancelled present, Bool.false_eq_true,
    if_false, broken, recordFailure, update_update]
  rfl

/-- One reading amid a quiet pass. -/
theorem Amid.readOne_spec (amid : Amid b s.builder) (id : DocumentId) :
    Amid b (readOne s id).builder ∧ (readOne s id).clean = s.clean ++ (b.readingOf id).toList ∧
      ∀ x, (readOne s id).builder.seen x =
        if x = id then (s.builder.seen x).read x else s.builder.seen x := by
  rw [← amid.readingOf_eq id, readingOf]
  cases present : s.builder.document? id with
  | none =>
      rw [readOne_of_absent present]
      refine ⟨amid, (List.append_nil _).symm, fun x => ?_⟩
      split
      · next same => simp only [seen, same, present, Seen.read]
      · rfl
  | some d =>
      cases clean : (parse d.text).isClean with
      | true =>
          rw [amid.quiet.readOne_of_clean present clean]
          refine ⟨amid.of_update amid.index id fun _ => rfl, ?_, fun x => ?_⟩
          · rw [Option.bind_some, if_pos clean, Option.toList_some]
          · refine (seen_update s.builder s.builder.index id x _).trans ?_
            split
            · next same =>
                subst same
                simp only [seen, present, Option.map_some, Seen.read, OpenDocument.read, clean,
                  if_true]
            · rfl
      | false =>
          rw [amid.quiet.readOne_of_broken present clean]
          refine ⟨amid.of_update (amid.index.markInvalid id) id fun _ => rfl, ?_, fun x => ?_⟩
          · rw [Option.bind_some, if_neg (by rw [clean]; exact Bool.false_ne_true),
              Option.toList_none, List.append_nil]
          · rw [seen_update, WorkspaceIndex.get?_markInvalid]
            split
            · next same =>
                subst same
                simp only [seen, present, Option.map_some, Seen.read, OpenDocument.read, clean,
                  Bool.false_eq_true, if_false]
            · rfl

theorem Amid.foldl_readOne (amid : Amid b s.builder) (ids : List DocumentId) :
    Amid b (ids.foldl readOne s).builder ∧
      ∀ x, (ids.foldl readOne s).builder.seen x =
        if x ∈ ids then (s.builder.seen x).read x else s.builder.seen x :=
  foldl_view (fun s : Reads => s.builder.seen) (fun s => Amid b s.builder)
    (fun _ id amid => (amid.readOne_spec id).1)
    (fun _ id x amid => (amid.readOne_spec id).2.2 x) Seen.read_read ids amid

theorem Amid.clean_foldl_readOne (amid : Amid b s.builder) (ids : List DocumentId) :
    (ids.foldl readOne s).clean = s.clean ++ ids.filterMap b.readingOf := by
  induction ids generalizing s with
  | nil => exact (List.append_nil _).symm
  | cons id rest ih =>
      obtain ⟨kept, clean, -⟩ := amid.readOne_spec id
      rw [List.foldl_cons, ih kept, clean, List.append_assoc]
      cases found : b.readingOf id <;> simp [found]

end Reading

/-! ## Computing scopes -/

namespace Reading

def scopes (r : Reading) : DocumentScopes := computeScopes r.document r.uri r.program

def withScopes (r : Reading) : Scoped := ⟨r, some r.scopes⟩

end Reading

section Indexing

variable {b : Builder}

theorem Quiet.foldl_scopeOne {b' : Builder} (quiet : b'.Quiet) {readings : List Reading}
    (present : ∀ r ∈ readings, ∃ d, b'.document? r.document = some d) (done : List Scoped) :
    readings.foldl scopeOne (b', done) = (b', done ++ readings.map (·.withScopes)) := by
  induction readings generalizing done with
  | nil => simp only [List.foldl_nil, List.map_nil, List.append_nil]
  | cons r rest ih =>
      obtain ⟨d, found⟩ := present r (.head _)
      have step : scopeOne (b', done) r = (b', done ++ [r.withScopes]) := by
        simp only [scopeOne, quiet.arrive, quiet.isCancelled found, quiet.onNames,
          Bool.false_eq_true, if_false]
        rfl
      rw [List.foldl_cons, step, ih fun later member => present later (.tail _ member),
        List.append_assoc]
      rfl

/-! ## Indexing -/

/-- Puts the exports of a document into the index, if its text was read without errors. -/
def indexReading (b : Builder) (s : Indexed) (id : DocumentId) : Indexed :=
  match b.readingOf id with
  | some r => indexOne s r.withScopes
  | none => s

theorem foldl_indexOne (ids : List DocumentId) (s : Indexed) :
    ((ids.filterMap b.readingOf).map (·.withScopes)).foldl indexOne s =
      ids.foldl (indexReading b) s := by
  rw [List.foldl_map]
  induction ids generalizing s with
  | nil => rfl
  | cons id rest ih =>
      rw [List.foldl_cons, indexReading]
      cases found : b.readingOf id with
      | none => rw [List.filterMap_cons_none found, ih]
      | some r => rw [List.filterMap_cons_some found, List.foldl_cons, ih]

variable {s : Indexed} {id : DocumentId} {r : Reading}

/-- The names that a document exports, before or after what reading found. -/
def affectedNames (b : Builder) (i : WorkspaceIndex) (id : DocumentId) : List String :=
  (i.exportedNames id).getD [] ++ ((b.readingOf id).map (·.scopes.exports.names)).getD []

theorem Amid.indexReading_of_some (amid : Amid b s.builder) (found : b.readingOf id = some r) :
    indexReading b s id =
      ⟨s.builder.storeScopes r r.scopes, s.report, s.changed.insert id,
        s.dependents.union
          (b.dependencies.dependents id (b.affectedNames s.builder.index id))⟩ := by
  obtain ⟨rfl, d, present, -⟩ := readingOf_document found
  obtain ⟨d', present', -⟩ := amid.stays_open present
  simp only [indexReading, found, indexOne, Reading.withScopes, amid.quiet.arrive,
    amid.quiet.isCancelled present', Bool.false_eq_true, if_false, amid.dependencies,
    affectedNames, Option.map_some, Option.getD_some]
  rfl

theorem indexReading_of_none (none : b.readingOf id = none) : indexReading b s id = s := by
  rw [indexReading, none]

theorem seen_storeScopes (b' : Builder) (r : Reading) (x : DocumentId) :
    (b'.storeScopes r r.scopes).seen x =
      if x = r.document then
        ((b'.document? x).map fun d => { d with analysed := some ⟨r.program, r.lines, r.scopes⟩ },
          some ⟨r.scopes.exports, true⟩)
      else b'.seen x := by
  have own : r.scopes.exports.document = r.document := rfl
  rw [storeScopes, seen_update, WorkspaceIndex.get?_upsert, own]
  split <;> rfl

theorem Amid.indexReading_spec (amid : Amid b s.builder) (id : DocumentId) :
    Amid b (indexReading b s id).builder ∧
      ∀ x, (indexReading b s id).builder.seen x =
        if x = id then (s.builder.seen x).analyse x else s.builder.seen x := by
  cases found : b.readingOf id with
  | none =>
      rw [indexReading_of_none found]
      refine ⟨amid, fun x => ?_⟩
      split
      · next same =>
          subst same
          rw [← amid.readingOf_eq x, readingOf] at found
          cases present : s.builder.document? x with
          | none => simp only [seen, present, Seen.analyse]
          | some d =>
              rw [present, Option.bind_some] at found
              split at found
              · cases found
              · next broken =>
                  simp only [seen, present, Seen.analyse, OpenDocument.analyse, if_neg broken]
      · rfl
  | some r =>
      rw [amid.indexReading_of_some found]
      refine ⟨amid.of_update (amid.index.upsert _) r.document fun _ => rfl, fun x => ?_⟩
      rw [← amid.readingOf_eq id] at found
      obtain ⟨-, d, present, clean, rfl⟩ := readingOf_document found
      rw [seen_storeScopes]
      split
      · next same =>
          subst same
          simp only [seen, present, Option.map_some, Seen.analyse, OpenDocument.analyse,
            if_pos clean]
          rfl
      · rfl

theorem Amid.foldl_indexReading (amid : Amid b s.builder) (ids : List DocumentId) :
    Amid b (ids.foldl (indexReading b) s).builder ∧
      ∀ x, (ids.foldl (indexReading b) s).builder.seen x =
        if x ∈ ids then (s.builder.seen x).analyse x else s.builder.seen x :=
  foldl_view (fun s : Indexed => s.builder.seen) (fun s => Amid b s.builder)
    (fun _ id amid => (amid.indexReading_spec id).1)
    (fun _ id x amid => (amid.indexReading_spec id).2 x) Seen.analyse_analyse ids amid

theorem Amid.mem_changed_foldl (amid : Amid b s.builder) (ids : List DocumentId) (x : DocumentId) :
    x ∈ (ids.foldl (indexReading b) s).changed ↔
      x ∈ s.changed ∨ x ∈ ids ∧ (b.readingOf x).isSome = true := by
  induction ids generalizing s with
  | nil => simp only [List.foldl_nil, List.not_mem_nil, false_and, or_false]
  | cons id rest ih =>
      rw [List.foldl_cons, ih (amid.indexReading_spec id).1, List.mem_cons]
      cases found : b.readingOf id with
      | none =>
          rw [indexReading_of_none found]
          by_cases same : x = id
          · simp [same, found]
          · simp [same]
      | some r =>
          rw [amid.indexReading_of_some found, OrderedSet.mem_insert]
          by_cases same : x = id
          · simp [same, found]
          · simp [same]

theorem Amid.dependents_mono (amid : Amid b s.builder) (ids : List DocumentId) {x : DocumentId}
    (member : x ∈ s.dependents) : x ∈ (ids.foldl (indexReading b) s).dependents := by
  induction ids generalizing s with
  | nil => exact member
  | cons id rest ih =>
      refine ih (amid.indexReading_spec id).1 ?_
      cases found : b.readingOf id with
      | none => rwa [indexReading_of_none found]
      | some r =>
          rw [amid.indexReading_of_some found]
          exact OrderedSet.mem_union.mpr (.inl member)

/-- Each document whose exports are replaced adds the users of its former and its new names. The
former ones still stand in the index when its turn comes. -/
theorem Amid.mem_dependents_foldl (amid : Amid b s.builder) {ids : List DocumentId}
    (member : id ∈ ids) (found : b.readingOf id = some r) {x : DocumentId}
    (depends : x ∈ b.dependencies.dependents id (b.affectedNames s.builder.index id)) :
    x ∈ (ids.foldl (indexReading b) s).dependents := by
  induction ids generalizing s with
  | nil => cases member
  | cons first rest ih =>
      obtain ⟨kept, seen⟩ := amid.indexReading_spec first
      by_cases same : id = first
      · subst same
        -- Dependents are only ever added, so the ones found here are there in the end.
        refine kept.dependents_mono rest ?_
        rw [amid.indexReading_of_some found]
        exact OrderedSet.mem_union.mpr (.inr depends)
      · refine ih kept ((List.mem_cons.mp member).resolve_left same) ?_
        have entry : (indexReading b s first).builder.index.documents.get? id =
            s.builder.index.documents.get? id := by
          have unseen := seen id
          rw [if_neg same] at unseen
          exact congrArg Prod.snd unseen
        rwa [affectedNames, WorkspaceIndex.exportedNames, entry]

end Indexing

/-! ## Both together -/

/-- What the steps of a quiet pass up to the linking come to. -/
structure Replaces (b : Builder) (ids : List DocumentId) (s : Indexed) : Prop where
  amid : Amid b s.builder
  seen : ∀ x, s.builder.seen x =
    if x ∈ ids then ((b.seen x).read x).analyse x else b.seen x
  changed : ∀ x, x ∈ s.changed ↔ x ∈ ids ∧ (b.readingOf x).isSome = true
  dependents : ∀ id ∈ s.changed, ∀ x ∈ b.dependencies.dependents id (b.affectedNames b.index id),
    x ∈ s.dependents

/-- The state of a pass when its texts were read. -/
def readAll (b : Builder) (ids : List DocumentId) : Reads :=
  (OrderedSet.ofList ids).toList.foldl readOne ⟨b, .empty, []⟩

theorem Quiet.readAll_spec {b : Builder} (quiet : b.Quiet) (index : b.index.Exact)
    (ids : List DocumentId) :
    Amid b (b.readAll ids).builder ∧
      (b.readAll ids).clean = (OrderedSet.ofList ids).toList.filterMap b.readingOf ∧
        ∀ x, (b.readAll ids).builder.seen x = if x ∈ ids then (b.seen x).read x else b.seen x := by
  have start : Amid b (Reads.mk b .empty []).builder := quiet.amid index
  obtain ⟨read, seen⟩ := start.foldl_readOne (OrderedSet.ofList ids).toList
  refine ⟨read, start.clean_foldl_readOne _, fun x => (seen x).trans ?_⟩
  exact if_congr OrderedSet.mem_ofList rfl rfl

theorem Quiet.indexAll_eq {b : Builder} (quiet : b.Quiet) (index : b.index.Exact)
    (ids : List DocumentId) :
    b.indexAll ids =
      (OrderedSet.ofList ids).toList.foldl (indexReading b)
        ⟨(b.readAll ids).builder, (b.readAll ids).report, ∅, ∅⟩ := by
  obtain ⟨read, clean, -⟩ := quiet.readAll_spec index ids
  have present : ∀ r ∈ (OrderedSet.ofList ids).toList.filterMap b.readingOf, ∃ d,
      (b.readAll ids).builder.document? r.document = some d := by
    intro r member
    obtain ⟨id, -, found⟩ := List.mem_filterMap.mp member
    obtain ⟨rfl, d, present, -⟩ := readingOf_document found
    obtain ⟨d', present', -⟩ := read.stays_open present
    exact ⟨d', present'⟩
  rw [Builder.indexAll, ← readAll, clean]
  simp only [read.quiet.foldl_scopeOne present [], List.nil_append]
  exact foldl_indexOne _ _

theorem Quiet.replaces_indexAll {b : Builder} (quiet : b.Quiet) (index : b.index.Exact)
    (ids : List DocumentId) : b.Replaces ids (b.indexAll ids) := by
  obtain ⟨read, -, seenRead⟩ := quiet.readAll_spec index ids
  have start : Amid b (Indexed.mk (b.readAll ids).builder (b.readAll ids).report ∅ ∅).builder :=
    read
  obtain ⟨indexed, seen⟩ := start.foldl_indexReading (OrderedSet.ofList ids).toList
  have changed := start.mem_changed_foldl (OrderedSet.ofList ids).toList
  have fresh (id : DocumentId) : ¬ id ∈ (∅ : OrderedSet DocumentId) := OrderedSet.not_mem_empty id
  rw [quiet.indexAll_eq index]
  refine ⟨indexed, fun x => (seen x).trans ?_, fun x => ?_, fun id member x depends => ?_⟩
  · refine (if_congr OrderedSet.mem_ofList rfl rfl).trans ?_
    dsimp only
    rw [seenRead x]
    split <;> rfl
  · exact ((changed x).trans (or_iff_right (fresh x))).trans
      (and_congr_left fun _ => OrderedSet.mem_ofList)
  · obtain ⟨listed, found⟩ := (changed id).mp member |>.resolve_left (fresh id)
    obtain ⟨r, found⟩ := Option.isSome_iff_exists.mp found
    refine start.mem_dependents_foldl listed found ?_
    have names : (b.readAll ids).builder.index.exportedNames id = b.index.exportedNames id := by
      refine (congrArg (fun s : Seen => s.2.map (·.exports.names)) (seenRead id)).trans ?_
      split
      · exact Seen.names_read id _
      · rfl
    rwa [affectedNames, names]

/-! ## Whole passes -/

/-- The documents that a pass links, in order. -/
def relinkedBy (b : Builder) (ids : List DocumentId) : List DocumentId :=
  (b.indexAll ids).changed.toList ++
    ((b.indexAll ids).dependents.diff (b.indexAll ids).changed).toList

theorem rebuild_eq (b : Builder) (ids : List DocumentId) :
    b.rebuild ids =
      (b.relinkedBy ids).foldl relink ((b.indexAll ids).builder, (b.indexAll ids).report) := by
  rw [relinkedBy, List.foldl_append]
  rfl

theorem nodup_relinkedBy (b : Builder) (ids : List DocumentId) : (b.relinkedBy ids).Nodup := by
  have nodup (s : OrderedSet DocumentId) : s.toList.Nodup :=
    s.ascending.imp fun less same => absurd (same ▸ less) (Nat.lt_irrefl _)
  refine List.nodup_append.mpr ⟨nodup _, nodup _, fun x changed y dependent same => ?_⟩
  obtain ⟨-, unchanged⟩ := List.mem_filter.mp dependent
  exact absurd (same ▸ changed) (of_decide_eq_true unchanged)

end Builder

end BbjAnalysis
