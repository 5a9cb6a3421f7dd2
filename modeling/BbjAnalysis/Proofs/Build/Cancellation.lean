import BbjAnalysis.Proofs.Build.Reading

/-! # Cancelled work

Marks may be set at any time, and by anything that a pass asks for. Nothing takes a mark
off during a pass, so that a document that is reported as cancelled goes through no
later step. Its links and diagnostics are always those from before the pass. What is
indexed of it, though, may have been replaced already: the mark is read once more after
that, before the linking (`rebuild_cancelled`).
-/

namespace BbjAnalysis

/-- Let `P` hold at the start, and let each step of a fold over `l` carry it on to one more element.
Then it holds in the end. -/
theorem foldl_prefix {σ α : Type} (step : σ → α → σ) (P : List α → σ → Prop) {l : List α} {s : σ}
    (start : P [] s)
    (next : ∀ done a rest s, l = done ++ a :: rest → P done s → P (done ++ [a]) (step s a)) :
    P l (l.foldl step s) := by
  have from_ (rest done : List α) (s : σ) (split : l = done ++ rest) (reached : P done s) :
      P l (rest.foldl step s) := by
    induction rest generalizing done s with
    | nil => rwa [split, List.append_nil]
    | cons a rest ih =>
        refine ih (done ++ [a]) (step s a) ?_ (next done a rest s split reached)
        rw [split, List.append_assoc, List.singleton_append]
  exact from_ l [] s rfl start

theorem mem_concat {α : Type} {l : List α} {a b : α} : a ∈ l ++ [b] ↔ a ∈ l ∨ a = b := by
  rw [List.mem_append, List.mem_singleton]

/-- A document as if it were not cancelled. -/
def OpenDocument.unmarked (d : OpenDocument) : OpenDocument := { d with cancelled := false }

namespace Builder

/-- What is stored of a document, whether it is cancelled or not. -/
def facts (b : Builder) (x : DocumentId) : Seen :=
  ((b.document? x).map (·.unmarked), b.index.documents.get? x)

/-! ## Marks -/

/-- From `b` to `b'`, some marks may have been set, and nothing else has happened to documents and
their entries. -/
structure Marks (b b' : Builder) : Prop where
  facts : ∀ x, b'.facts x = b.facts x
  marked : ∀ x, b.isCancelled x = true → b'.isCancelled x = true

section Marks

variable {b b' b'' : Builder}

theorem Marks.refl (b : Builder) : b.Marks b := ⟨fun _ => rfl, fun _ => id⟩

theorem Marks.trans (first : b.Marks b') (second : b'.Marks b'') : b.Marks b'' :=
  ⟨fun x => (second.facts x).trans (first.facts x), fun x => second.marked x ∘ first.marked x⟩

theorem marks_cancel (b : Builder) (id : DocumentId) : b.Marks (b.cancel id) where
  facts x := by
    refine Prod.ext ?_ rfl
    simp only [facts, cancel, document?_update]
    split
    · rw [Option.map_map]
      rfl
    · rfl
  marked x set := by
    simp only [isCancelled, cancel, document?_update] at set ⊢
    split
    · cases b.document? x <;> rfl
    · exact set

theorem marks_foldl {α : Type} {step : Builder → α → Builder} (one : ∀ b a, Marks b (step b a))
    (l : List α) (b : Builder) : b.Marks (l.foldl step b) := by
  induction l generalizing b with
  | nil => exact .refl b
  | cons a rest ih => exact (one b a).trans (ih (step b a))

theorem marks_arrive (b : Builder) (stage : Stage) (id : DocumentId) :
    b.Marks (b.arrive stage id) :=
  marks_foldl marks_cancel _ b

theorem marks_cancelUris (b : Builder) (uris : List String) : b.Marks (b.cancelUris uris) := by
  refine marks_foldl (fun b uri => ?_) uris b
  split
  · exact marks_cancel b _
  · exact .refl b

end Marks

/-! ## Stored changes -/

section Update

variable (b : Builder) (id x : DocumentId) {f : OpenDocument → OpenDocument}

/-- A change that neither reads nor writes marks. -/
theorem facts_update (blind : ∀ d, (f d).unmarked = f d.unmarked) :
    (b.update id f).facts x =
      if x = id then ((b.facts x).1.map f, (b.facts x).2) else b.facts x := by
  rw [facts, document?_update]
  split
  · refine Prod.ext ?_ rfl
    simp only [facts, Option.map_map]
    exact congrArg (Option.map · _) (funext blind)
  · rfl

theorem isCancelled_update (keeps : ∀ d, (f d).cancelled = d.cancelled) :
    (b.update id f).isCancelled x = b.isCancelled x := by
  rw [isCancelled, document?_update]
  split
  · rw [Option.all_map]
    exact congrArg (Option.all · _) (funext keeps)
  · rfl

end Update

theorem readingOf_eq_of_facts {b b' : Builder} {x : DocumentId} (same : b'.facts x = b.facts x) :
    b'.readingOf x = b.readingOf x := by
  have texts (c : Builder) : c.readingOf x = (c.facts x).1.bind fun d =>
      if (parse d.text).isClean then some ⟨x, d.uri, (parse d.text).program, .ofText d.text⟩
      else none := by
    rw [readingOf, facts, Option.bind_map]
    rfl
  rw [texts, texts, same]

/-! ## Reading -/

/-- What reading one document may come to: its mark is found set, or the text is read. -/
inductive ReadStep (s s' : Reads) (id : DocumentId) : Prop where
  | reported (marks : s.builder.Marks s'.builder) (set : s'.builder.isCancelled id = true)
      (report : s'.report.cancelled = s.report.cancelled ++ [id]) (clean : s'.clean = s.clean)
  | read (facts : ∀ x, s'.builder.facts x =
        if x = id then (s.builder.facts x).read x else s.builder.facts x)
      (marked : ∀ x, s.builder.isCancelled x = true → s'.builder.isCancelled x = true)
      (report : s'.report.cancelled = s.report.cancelled)
      (clean : s'.clean = s.clean ++ (s.builder.readingOf id).toList)

theorem facts_recordFailure (b : Builder) (id x : DocumentId) (p : Parse) :
    ((b.recordFailure id p.errors).update id fun d => { d with latest := some p }).facts x =
      if x = id then
        ((b.facts x).1.map fun d =>
            { d with
              latest := some p
              links := .empty
              diagnostics := syntaxDiagnostics id p.errors },
          (b.facts x).2.map fun e => { e with valid := false })
      else b.facts x := by
  have entry : ({ b with index := b.index.markInvalid id } : Builder).facts x =
      ((b.facts x).1, if x = id then (b.facts x).2.map fun e => { e with valid := false }
        else (b.facts x).2) := Prod.ext rfl (WorkspaceIndex.get?_markInvalid b.index id x)
  rw [recordFailure, update_update, facts_update, entry]
  · split <;> rfl
  · exact fun _ => rfl

section ReadStep

variable {s : Reads} {b : Builder} {x : DocumentId} {d : OpenDocument}
  (present : s.builder.document? x = some d) (marks : s.builder.Marks b)
include present marks

theorem facts_of_marks_of_open :
    b.facts x = (some d.unmarked, s.builder.index.documents.get? x) := by
  rw [marks.facts, facts, present, Option.map_some]

theorem readStep_of_clean (clean : (parse d.text).isClean = true) :
    ReadStep s
      ⟨b.update x fun d' => { d' with latest := some (parse d.text) }, s.report.addParsed x,
        s.clean ++ [⟨x, d.uri, (parse d.text).program, .ofText d.text⟩]⟩ x := by
  have stored := facts_of_marks_of_open present marks
  refine .read (fun y => ?_) (fun y found => ?_) rfl ?_
  · rw [facts_update]
    · split
      · next same =>
          rw [same, ← marks.facts, stored]
          simp only [Option.map_some, Seen.read, OpenDocument.read, OpenDocument.unmarked, clean,
            if_true]
      · exact marks.facts y
    · exact fun _ => rfl
  · rw [isCancelled_update]
    · exact marks.marked y found
    · exact fun _ => rfl
  · rw [readingOf, present, Option.bind_some, if_pos clean, Option.toList_some]

theorem readStep_of_broken (clean : (parse d.text).isClean = false) (error : BuildError) :
    ReadStep s
      ⟨(b.recordFailure x (parse d.text).errors).update x fun d' =>
          { d' with latest := some (parse d.text) },
        (s.report.addParsed x).addFailed error, s.clean⟩ x := by
  have stored := facts_of_marks_of_open present marks
  refine .read (fun y => ?_) (fun y found => ?_) rfl ?_
  · rw [facts_recordFailure]
    split
    · next same =>
        rw [same, ← marks.facts, stored]
        simp only [Option.map_some, Seen.read, OpenDocument.read, OpenDocument.unmarked, clean,
          Bool.false_eq_true, if_false]
    · exact marks.facts y
  · rw [recordFailure, update_update, isCancelled_update]
    · exact marks.marked y found
    · exact fun _ => rfl
  · rw [readingOf, present, Option.bind_some, clean, if_neg Bool.false_ne_true, Option.toList_none,
      List.append_nil]

end ReadStep

theorem readStep (s : Reads) (x : DocumentId) : ReadStep s (readOne s x) x := by
  cases present : s.builder.document? x with
  | none =>
      rw [readOne_of_absent present]
      refine .read (fun y => ?_) (fun _ => id) rfl ?_
      · split
        · next same => simp only [facts, same, present, Option.map_none, Seen.read]
        · rfl
      · rw [readingOf, present, Option.bind_none, Option.toList_none, List.append_nil]
  | some d =>
      have marks := marks_arrive s.builder .reading x
      simp only [readOne, present]
      cases set : (s.builder.arrive .reading x).isCancelled x with
      | true =>
          simp only [if_true]
          exact .reported marks set rfl rfl
      | false =>
          simp only [Bool.false_eq_true, if_false]
          cases clean : (parse d.text).isClean with
          | true =>
              simp only [if_true]
              exact readStep_of_clean present marks clean
          | false =>
              simp only [Bool.false_eq_true, if_false]
              exact readStep_of_broken present marks clean _

/-- What is known when the documents `done` of a pass over `b` were read. -/
structure ReadSoFar (b : Builder) (done : List DocumentId) (s : Reads) : Prop where
  reported : ∀ x ∈ s.report.cancelled,
    x ∈ done ∧ s.builder.isCancelled x = true ∧ s.builder.facts x = b.facts x
  read : ∀ x ∈ done, x ∉ s.report.cancelled → s.builder.facts x = (b.facts x).read x
  later : ∀ x ∉ done, s.builder.facts x = b.facts x
  clean : s.clean = (done.filter (· ∉ s.report.cancelled)).filterMap b.readingOf

section ReadSoFar

variable {b : Builder} {done : List DocumentId} {s s' : Reads} (known : ReadSoFar b done s)
  {x : DocumentId} (fresh : x ∉ done)
include known fresh

theorem ReadSoFar.next_reported (marks : s.builder.Marks s'.builder)
    (set : s'.builder.isCancelled x = true)
    (report : s'.report.cancelled = s.report.cancelled ++ [x]) (clean : s'.clean = s.clean) :
    ReadSoFar b (done ++ [x]) s' := by
  have listed {y : DocumentId} : y ∈ s'.report.cancelled ↔ y ∈ s.report.cancelled ∨ y = x := by
    rw [report, mem_concat]
  refine ⟨fun y member => ?_, fun y member other => ?_, fun y other => ?_, ?_⟩
  · rw [mem_concat, marks.facts]
    rcases listed.mp member with earlier | rfl
    · obtain ⟨early, marked, same⟩ := known.reported y earlier
      exact ⟨.inl early, marks.marked y marked, same⟩
    · exact ⟨.inr rfl, set, known.later y fresh⟩
  · rw [marks.facts]
    obtain ⟨unlisted, differs⟩ := not_or.mp (mt listed.mpr other)
    exact known.read y ((mem_concat.mp member).resolve_right differs) unlisted
  · rw [marks.facts]
    exact known.later y fun early => other (mem_concat.mpr (.inl early))
  · have kept : (done ++ [x]).filter (· ∉ s.report.cancelled ++ [x]) =
        done.filter (· ∉ s.report.cancelled) := by
      have last : [x].filter (· ∉ s.report.cancelled ++ [x]) = [] := by simp
      rw [List.filter_append, last, List.append_nil]
      refine List.filter_congr fun y member => ?_
      have differs : y ≠ x := fun same => fresh (same ▸ member)
      simp [differs]
    rw [report, kept, clean, known.clean]

theorem ReadSoFar.next_read
    (facts : ∀ y, s'.builder.facts y =
      if y = x then (s.builder.facts y).read y else s.builder.facts y)
    (marked : ∀ y, s.builder.isCancelled y = true → s'.builder.isCancelled y = true)
    (report : s'.report.cancelled = s.report.cancelled)
    (clean : s'.clean = s.clean ++ (s.builder.readingOf x).toList) :
    ReadSoFar b (done ++ [x]) s' := by
  have unreported : x ∉ s.report.cancelled := fun member => fresh (known.reported x member).1
  have same := known.later x fresh
  refine ⟨fun y member => ?_, fun y member other => ?_, fun y other => ?_, ?_⟩
  · rw [report] at member
    obtain ⟨early, set, kept⟩ := known.reported y member
    have differs : y ≠ x := fun same => fresh (same ▸ early)
    rw [mem_concat, facts, if_neg differs]
    exact ⟨.inl early, marked y set, kept⟩
  · rw [report] at other
    rw [facts]
    split
    · next last => rw [last, same]
    · next differs => exact known.read y ((mem_concat.mp member).resolve_right differs) other
  · obtain ⟨early, differs⟩ := not_or.mp (mt mem_concat.mpr other)
    rw [facts, if_neg differs]
    exact known.later y early
  · have kept : [x].filter (· ∉ s.report.cancelled) = [x] := by simp [unreported]
    rw [report, clean, known.clean, List.filter_append, kept, List.filterMap_append,
      readingOf_eq_of_facts same]
    cases found : b.readingOf x <;> simp [found]

theorem ReadSoFar.next : ReadSoFar b (done ++ [x]) (readOne s x) := by
  cases readStep s x with
  | reported marks set report clean => exact known.next_reported fresh marks set report clean
  | read facts marked report clean => exact known.next_read fresh facts marked report clean

end ReadSoFar

/-- What is known when all texts were read. -/
theorem readSoFar_readAll (b : Builder) (ids : List DocumentId) :
    ReadSoFar b (OrderedSet.ofList ids).toList (b.readAll ids) := by
  refine foldl_prefix readOne (ReadSoFar b) ?_ fun done x rest s split known => known.next ?_
  · exact ⟨nofun, nofun, fun _ _ => rfl, rfl⟩
  · have ascending := (OrderedSet.ofList ids).ascending
    rw [split, List.pairwise_append] at ascending
    exact fun member => absurd (ascending.2.2 x member x (.head _)) (Nat.lt_irrefl _)

/-! ## Computing scopes -/

/-- Whether what came of computing the scopes of a text is right, given the marks of a builder: the
scopes are there, or the mark was found set. -/
def Scoped.RightIn (b : Builder) (c : Scoped) : Prop :=
  c.scopes = some c.reading.scopes ∨ c.scopes = none ∧ b.isCancelled c.reading.document = true

/-- What is known when the scopes of the readings `done` were computed. -/
structure ScopedSoFar (b : Builder) (done : List Reading) (s : Builder × List Scoped) : Prop where
  marks : b.Marks s.1
  readings : s.2.map (·.reading) = done
  right : ∀ c ∈ s.2, c.RightIn s.1

theorem ScopedSoFar.next {b : Builder} {done : List Reading} {s : Builder × List Scoped}
    (known : ScopedSoFar b done s) (r : Reading) : ScopedSoFar b (done ++ [r]) (scopeOne s r) := by
  have arrived := marks_arrive s.1 .scoping r.document
  have one {b' : Builder} {o : Option DocumentScopes} (marks : s.1.Marks b')
      (right : Scoped.RightIn b' ⟨r, o⟩) : ScopedSoFar b (done ++ [r]) (b', s.2 ++ [⟨r, o⟩]) := by
    refine ⟨known.marks.trans marks, ?_, fun c member => ?_⟩
    · rw [List.map_append, known.readings]
      rfl
    · rcases List.mem_append.mp member with earlier | last
      · exact (known.right c earlier).imp_right (And.imp_right (marks.marked _))
      · rw [List.mem_singleton.mp last]
        exact right
  simp only [scopeOne]
  cases set : (s.1.arrive .scoping r.document).isCancelled r.document with
  | true =>
      rw [if_pos rfl]
      exact one arrived (.inr ⟨rfl, set⟩)
  | false =>
      rw [if_neg Bool.false_ne_true]
      exact one (arrived.trans (marks_cancelUris _ _)) (.inl rfl)

theorem scopedSoFar_foldl (b : Builder) (readings : List Reading) :
    ScopedSoFar b readings (readings.foldl scopeOne (b, [])) :=
  foldl_prefix scopeOne (ScopedSoFar b) ⟨.refl b, rfl, nofun⟩ fun _ r _ _ _ known => known.next r

/-! ## Indexing -/

/-- What indexing one document may come to: its mark was or is set, or its exports are stored. -/
inductive IndexStep (s s' : Indexed) (r : Reading) : Prop where
  | reported (marks : s.builder.Marks s'.builder) (set : s'.builder.isCancelled r.document = true)
      (report : s'.report.cancelled = s.report.cancelled ++ [r.document])
      (changed : s'.changed = s.changed)
  | stored (facts : ∀ x, s'.builder.facts x =
        if x = r.document then
          ((s.builder.facts x).1.map fun d =>
              { d with analysed := some ⟨r.program, r.lines, r.scopes⟩ },
            some ⟨r.scopes.exports, true⟩)
        else s.builder.facts x)
      (marked : ∀ x, s.builder.isCancelled x = true → s'.builder.isCancelled x = true)
      (report : s'.report.cancelled = s.report.cancelled)
      (changed : s'.changed = s.changed.insert r.document)

theorem IndexStep.marked {s s' : Indexed} {r : Reading} (step : IndexStep s s' r)
    (x : DocumentId) (set : s.builder.isCancelled x = true) : s'.builder.isCancelled x = true := by
  cases step with
  | reported marks => exact marks.marked x set
  | stored facts marked => exact marked x set

theorem facts_storeScopes (b : Builder) (r : Reading) (x : DocumentId) :
    (b.storeScopes r r.scopes).facts x =
      if x = r.document then
        ((b.facts x).1.map fun d => { d with analysed := some ⟨r.program, r.lines, r.scopes⟩ },
          some ⟨r.scopes.exports, true⟩)
      else b.facts x := by
  have own : r.scopes.exports.document = r.document := rfl
  have entry : ({ b with index := (b.index.upsert r.scopes.exports).2 } : Builder).facts x =
      ((b.facts x).1, if x = r.document then some ⟨r.scopes.exports, true⟩ else (b.facts x).2) :=
    Prod.ext rfl (own ▸ WorkspaceIndex.get?_upsert b.index r.scopes.exports x)
  rw [storeScopes, facts_update, entry]
  · split <;> rfl
  · exact fun _ => rfl

theorem isCancelled_storeScopes (b : Builder) (r : Reading) (scopes : DocumentScopes)
    (x : DocumentId) : (b.storeScopes r scopes).isCancelled x = b.isCancelled x := by
  rw [storeScopes, isCancelled_update]
  · rfl
  · exact fun _ => rfl

theorem indexStep (s : Indexed) {c : Scoped} (right : c.RightIn s.builder) :
    IndexStep s (indexOne s c) c.reading := by
  have marks := marks_arrive s.builder .indexing c.reading.document
  simp only [indexOne]
  cases set : (s.builder.arrive .indexing c.reading.document).isCancelled c.reading.document with
  | true =>
      simp only [if_true]
      exact .reported marks set rfl rfl
  | false =>
      simp only [Bool.false_eq_true, if_false]
      rcases right with known | ⟨-, earlier⟩
      · rw [known]
        refine .stored (fun x => ?_) (fun x found => ?_) rfl rfl
        · rw [facts_storeScopes, marks.facts]
        · exact (isCancelled_storeScopes _ _ _ x).trans (marks.marked x found)
      · rw [marks.marked _ earlier] at set
        cases set

/-- Storing what reading found is the second half of reading the document again. -/
theorem facts_analyse {b : Builder} {x : DocumentId} {r : Reading}
    (found : b.readingOf x = some r) :
    (((b.facts x).read x).1.map fun d =>
        { d with analysed := some ⟨r.program, r.lines, r.scopes⟩ },
      some (IndexEntry.mk r.scopes.exports true)) = ((b.facts x).read x).analyse x := by
  obtain ⟨-, d, present, clean, rfl⟩ := readingOf_document found
  have stored : b.facts x = (some d.unmarked, b.index.documents.get? x) := by
    rw [facts, present, Option.map_some]
  have text : d.unmarked.text = d.text := rfl
  rw [stored]
  simp only [Seen.read, Seen.analyse, OpenDocument.analyse, OpenDocument.text_read, text, clean,
    if_true, Option.map_some]
  simp only [OpenDocument.read, OpenDocument.analysis, text, clean, if_true]
  rfl

/-- What is known when the documents `done` were indexed after all texts were read. -/
structure IndexedSoFar (reads : Reads) (done : List DocumentId) (s : Indexed) : Prop where
  reported : ∀ x ∈ s.report.cancelled, (x ∈ reads.report.cancelled ∨ x ∈ done) ∧
    s.builder.isCancelled x = true ∧ s.builder.facts x = reads.builder.facts x
  earlier : ∀ x ∈ reads.report.cancelled, x ∈ s.report.cancelled
  finished : ∀ x ∈ done, x ∈ s.report.cancelled ∨ x ∈ s.changed
  changed : ∀ x ∈ s.changed, x ∈ done ∧ x ∉ s.report.cancelled ∧
    s.builder.facts x = (reads.builder.facts x).analyse x
  later : ∀ x ∉ done, s.builder.facts x = reads.builder.facts x

section IndexedSoFar

variable {reads : Reads} {done : List DocumentId} {s s' : Indexed} {r : Reading}
  (known : IndexedSoFar reads done s) (fresh : r.document ∉ done)
include known fresh

theorem IndexedSoFar.next_reported (marks : s.builder.Marks s'.builder)
    (set : s'.builder.isCancelled r.document = true)
    (report : s'.report.cancelled = s.report.cancelled ++ [r.document])
    (changed : s'.changed = s.changed) : IndexedSoFar reads (done ++ [r.document]) s' := by
  have unchanged : r.document ∉ s.changed := fun member => fresh (known.changed _ member).1
  have listed {y : DocumentId} : y ∈ s'.report.cancelled ↔
      y ∈ s.report.cancelled ∨ y = r.document := by
    rw [report, mem_concat]
  refine ⟨fun y member => ?_, fun y member => listed.mpr (.inl (known.earlier y member)),
    fun y member => ?_, fun y member => ?_, fun y other => ?_⟩
  · rw [mem_concat, marks.facts]
    rcases listed.mp member with early | rfl
    · obtain ⟨origin, marked, same⟩ := known.reported y early
      exact ⟨origin.imp_right .inl, marks.marked y marked, same⟩
    · exact ⟨.inr (.inr rfl), set, known.later _ fresh⟩
  · rw [listed, changed]
    rcases mem_concat.mp member with early | last
    · exact (known.finished y early).imp_left .inl
    · exact .inl (.inr last)
  · rw [changed] at member
    obtain ⟨early, absent, stored⟩ := known.changed y member
    have differs : y ≠ r.document := fun same => unchanged (same ▸ member)
    rw [mem_concat, listed, marks.facts]
    exact ⟨.inl early, not_or.mpr ⟨absent, differs⟩, stored⟩
  · rw [marks.facts]
    exact known.later y fun early => other (mem_concat.mpr (.inl early))

variable (unreported : r.document ∉ reads.report.cancelled)
include unreported

/-- The exports of the next document are stored, and with them the rest of reading it again. -/
theorem IndexedSoFar.next_stored
    (facts : ∀ y, s'.builder.facts y =
      if y = r.document then (reads.builder.facts y).analyse y else s.builder.facts y)
    (marked : ∀ y, s.builder.isCancelled y = true → s'.builder.isCancelled y = true)
    (report : s'.report.cancelled = s.report.cancelled)
    (changed : s'.changed = s.changed.insert r.document) :
    IndexedSoFar reads (done ++ [r.document]) s' := by
  have unlisted : r.document ∉ s.report.cancelled := fun member =>
    (known.reported _ member).1.elim unreported fresh
  refine ⟨fun y member => ?_, fun y member => report ▸ known.earlier y member,
    fun y member => ?_, fun y member => ?_, fun y other => ?_⟩
  · rw [report] at member
    obtain ⟨origin, set, same⟩ := known.reported y member
    have differs : y ≠ r.document := fun same => unlisted (same ▸ member)
    rw [mem_concat, facts, if_neg differs]
    exact ⟨origin.imp_right .inl, marked y set, same⟩
  · rw [report, changed, OrderedSet.mem_insert]
    rcases mem_concat.mp member with early | last
    · exact (known.finished y early).imp_right .inr
    · exact .inr (.inl last)
  · rw [changed, OrderedSet.mem_insert] at member
    rw [mem_concat, report, facts]
    by_cases last : y = r.document
    · subst last
      rw [if_pos rfl]
      exact ⟨.inr rfl, unlisted, rfl⟩
    · obtain ⟨early, absent, stored⟩ := known.changed y (member.resolve_left last)
      rw [if_neg last]
      exact ⟨.inl early, absent, stored⟩
  · obtain ⟨early, differs⟩ := not_or.mp (mt mem_concat.mpr other)
    rw [facts, if_neg differs]
    exact known.later y early

theorem IndexedSoFar.next (step : IndexStep s s' r)
    (analyse : ((reads.builder.facts r.document).1.map fun d =>
        { d with analysed := some ⟨r.program, r.lines, r.scopes⟩ },
      some (IndexEntry.mk r.scopes.exports true)) =
        (reads.builder.facts r.document).analyse r.document) :
    IndexedSoFar reads (done ++ [r.document]) s' := by
  cases step with
  | reported marks set report changed => exact known.next_reported fresh marks set report changed
  | stored facts marked report changed =>
      refine known.next_stored fresh unreported (fun y => ?_) marked report changed
      rw [facts]
      split
      · next last => rw [last, known.later _ fresh, analyse]
      · rfl

end IndexedSoFar

/-- What the steps of a pass up to the linking come to, whatever is cancelled meanwhile. -/
structure IndexesInPart (b : Builder) (ids : List DocumentId) (s : Indexed) : Prop where
  reported : ∀ x ∈ s.report.cancelled, x ∈ ids ∧ s.builder.isCancelled x = true ∧
    ((s.builder.facts x = b.facts x) ∨
      (b.readingOf x).isSome = true ∧ s.builder.facts x = (b.facts x).read x)
  changed : ∀ x ∈ s.changed, x ∈ ids ∧ x ∉ s.report.cancelled ∧ (b.readingOf x).isSome = true ∧
    s.builder.facts x = ((b.facts x).read x).analyse x
  broken : ∀ x ∈ ids, x ∉ s.report.cancelled → x ∉ s.changed → b.readingOf x = none ∧
    s.builder.facts x = (b.facts x).read x
  others : ∀ x ∉ ids, s.builder.facts x = b.facts x

section IndexAll

variable (b : Builder) (ids : List DocumentId)

/-- The documents whose texts were read without errors, in a state where all texts were read. -/
theorem mem_clean_readAll {x : DocumentId} :
    x ∈ (b.readAll ids).clean.map (·.document) ↔
      x ∈ ids ∧ x ∉ (b.readAll ids).report.cancelled ∧ (b.readingOf x).isSome = true := by
  rw [(readSoFar_readAll b ids).clean, List.mem_map]
  simp only [List.mem_filterMap, List.mem_filter, decide_eq_true_eq]
  constructor
  · rintro ⟨r, ⟨y, ⟨member, unreported⟩, found⟩, rfl⟩
    obtain ⟨rfl, -⟩ := readingOf_document found
    exact ⟨OrderedSet.mem_ofList.mp member, unreported, by rw [found, Option.isSome_some]⟩
  · rintro ⟨member, unreported, found⟩
    obtain ⟨r, found⟩ := Option.isSome_iff_exists.mp found
    exact ⟨r, ⟨x, ⟨OrderedSet.mem_ofList.mpr member, unreported⟩, found⟩,
      (readingOf_document found).1⟩

theorem readingOf_of_mem_clean {r : Reading} (member : r ∈ (b.readAll ids).clean) :
    b.readingOf r.document = some r := by
  rw [(readSoFar_readAll b ids).clean, List.mem_filterMap] at member
  obtain ⟨x, -, found⟩ := member
  rw [(readingOf_document found).1, found]

theorem ascending_clean_readAll :
    (b.readAll ids).clean.Pairwise fun r r' => r.document < r'.document := by
  rw [(readSoFar_readAll b ids).clean]
  have ascending := (OrderedSet.ofList ids).ascending.filter (· ∉ (b.readAll ids).report.cancelled)
  refine ascending.filterMap _ fun x y less r found r' found' => ?_
  rw [(readingOf_document found).1, (readingOf_document found').1]
  exact less

/-- The state of a pass when all scopes were computed. -/
def scopeAll : Builder × List Scoped :=
  (b.readAll ids).clean.foldl scopeOne ((b.readAll ids).builder, [])

theorem indexedSoFar_indexAll :
    IndexedSoFar (b.readAll ids) ((b.readAll ids).clean.map (·.document)) (b.indexAll ids) := by
  have read := readSoFar_readAll b ids
  have computed : ScopedSoFar (b.readAll ids).builder (b.readAll ids).clean (b.scopeAll ids) :=
    scopedSoFar_foldl _ _
  have documents : (b.readAll ids).clean.map (·.document) =
      (b.scopeAll ids).2.map (·.reading.document) := by
    rw [← computed.readings, List.map_map]
    rfl
  -- Scopes are missing where a mark was set before the first step, and marks are never taken off:
  -- that has to be carried along beside what is known of the documents.
  have folded := foldl_prefix indexOne (l := (b.scopeAll ids).2)
    (s := ⟨(b.scopeAll ids).1, (b.readAll ids).report, ∅, ∅⟩)
    (fun done s => IndexedSoFar (b.readAll ids) (done.map (·.reading.document)) s ∧
      ∀ x, (b.scopeAll ids).1.isCancelled x = true → s.builder.isCancelled x = true)
    ?_ ?_
  · rw [documents]
    exact folded.1
  · refine ⟨⟨fun x member => ?_, fun x => id, nofun, nofun, fun x _ => computed.marks.facts x⟩,
      fun _ => id⟩
    obtain ⟨-, set, -⟩ := read.reported x member
    exact ⟨.inl member, computed.marks.marked x set, computed.marks.facts x⟩
  · rintro done c rest s split ⟨known, marked⟩
    have member : c ∈ (b.scopeAll ids).2 := split ▸ List.mem_append_right _ (.head _)
    have right : c.RightIn s.builder :=
      (computed.right c member).imp_right (And.imp_right (marked _))
    have clean : c.reading ∈ (b.readAll ids).clean :=
      computed.readings ▸ List.mem_map_of_mem member
    have found := readingOf_of_mem_clean b ids clean
    obtain ⟨listed, unreported, -⟩ :=
      (mem_clean_readAll b ids).mp (List.mem_map_of_mem (f := (·.document)) clean)
    have ascending := ascending_clean_readAll b ids
    rw [← computed.readings, List.pairwise_map, split, List.pairwise_append] at ascending
    have fresh : c.reading.document ∉ done.map (·.reading.document) := by
      intro earlier
      obtain ⟨c', member', same⟩ := List.mem_map.mp earlier
      have less := ascending.2.2 c' member' c (.head _)
      rw [same] at less
      exact absurd less (Nat.lt_irrefl _)
    have stored := read.read _ (OrderedSet.mem_ofList.mpr listed) unreported
    have step := indexStep s right
    refine ⟨?_, fun x set => step.marked x (marked x set)⟩
    rw [List.map_append]
    exact known.next fresh unreported step (by rw [stored, facts_analyse found])

/-- What the steps of a pass up to the linking come to, whatever is cancelled meanwhile. -/
theorem indexesInPart : b.IndexesInPart ids (b.indexAll ids) := by
  have read := readSoFar_readAll b ids
  have indexed := indexedSoFar_indexAll b ids
  have clean {x : DocumentId} := mem_clean_readAll b ids (x := x)
  have readFacts {x : DocumentId} (member : x ∈ ids)
      (unreported : x ∉ (b.readAll ids).report.cancelled) :
      (b.readAll ids).builder.facts x = (b.facts x).read x :=
    read.read x (OrderedSet.mem_ofList.mpr member) unreported
  refine ⟨fun x member => ?_, fun x member => ?_, fun x member unreported unchanged => ?_,
    fun x other => ?_⟩
  · obtain ⟨origin, set, same⟩ := indexed.reported x member
    rcases origin with early | late
    · obtain ⟨listed, -, kept⟩ := read.reported x early
      exact ⟨OrderedSet.mem_ofList.mp listed, set, .inl (same.trans kept)⟩
    · obtain ⟨listed, unreported, found⟩ := clean.mp late
      exact ⟨listed, set, .inr ⟨found, same.trans (readFacts listed unreported)⟩⟩
  · obtain ⟨late, unreported, same⟩ := indexed.changed x member
    obtain ⟨listed, early, found⟩ := clean.mp late
    exact ⟨listed, unreported, found, by rw [same, readFacts listed early]⟩
  · have early := mt (indexed.earlier x) unreported
    have absent : x ∉ (b.readAll ids).clean.map (·.document) := fun late =>
      (indexed.finished x late).elim unreported unchanged
    refine ⟨?_, (indexed.later x absent).trans (readFacts member early)⟩
    cases found : b.readingOf x with
    | none => rfl
    | some r => exact absurd (clean.mpr ⟨member, early, by rw [found, Option.isSome_some]⟩) absent
  · have absent : x ∉ (b.readAll ids).clean.map (·.document) := fun late => other (clean.mp late).1
    rw [indexed.later x absent]
    exact read.later x (mt OrderedSet.mem_ofList.mp other)

end IndexAll

/-! ## Linking -/

/-- What relinking one document may come to: its mark is found set, or it is linked or left alone.
A document whose mark was set before is not linked. -/
inductive RelinkStep (s s' : Builder × BuildReport) (id : DocumentId) : Prop where
  | reported (marks : s.1.Marks s'.1) (set : s'.1.isCancelled id = true)
      (clean : (s.1.facts id).1.any (·.readCleanly) = true)
      (report : s'.2.cancelled = s.2.cancelled ++ [id])
  | worked (others : ∀ x, x ≠ id → s'.1.facts x = s.1.facts x)
      (own : s.1.isCancelled id = true → s'.1.facts id = s.1.facts id)
      (marked : ∀ x, s.1.isCancelled x = true → s'.1.isCancelled x = true)
      (report : s'.2.cancelled = s.2.cancelled)

theorem facts_storeLinks (b : Builder) (id : DocumentId)
    (found : Links × List Diagnostic × Java.Resolver) {x : DocumentId} (other : x ≠ id) :
    (b.storeLinks id found).facts x = b.facts x := by
  rw [storeLinks, facts_update, if_neg other]
  · rfl
  · exact fun _ => rfl

theorem isCancelled_storeLinks (b : Builder) (id : DocumentId)
    (found : Links × List Diagnostic × Java.Resolver) (x : DocumentId) :
    (b.storeLinks id found).isCancelled x = b.isCancelled x := by
  rw [storeLinks, isCancelled_update]
  · rfl
  · exact fun _ => rfl

theorem relinkStep (s : Builder × BuildReport) (x : DocumentId) : RelinkStep s (relink s x) x := by
  have idle : RelinkStep s s x := .worked (fun _ _ => rfl) (fun _ => rfl) (fun _ => id) rfl
  cases present : s.1.document? x with
  | none =>
      simp only [relink, present]
      exact idle
  | some d =>
      cases clean : d.readCleanly with
      | false =>
          simp only [relink, present, clean, Bool.not_false, if_true]
          exact idle
      | true =>
          have marks := marks_arrive s.1 .linking x
          simp only [relink, present, clean, Bool.not_true, Bool.false_eq_true, if_false]
          cases set : (s.1.arrive .linking x).isCancelled x with
          | true =>
              simp only [if_true]
              refine .reported marks set ?_ rfl
              rw [facts, present, Option.map_some, Option.any_some]
              exact clean
          | false =>
              have free : s.1.isCancelled x = true → False := by
                intro earlier
                rw [marks.marked x earlier] at set
                cases set
              simp only [Bool.false_eq_true, if_false]
              cases d.analysed with
              | none =>
                  exact .worked (fun y _ => marks.facts y) (fun _ => marks.facts x) marks.marked rfl
              | some a =>
                  have later := marks_cancelUris
                    ((s.1.arrive .linking x).storeLinks x ((s.1.arrive .linking x).linked x a))
                  refine .worked (fun y other => ?_) (fun set => (free set).elim)
                    (fun y set => ?_) rfl
                  · exact ((later _).facts y).trans
                      ((facts_storeLinks _ x _ other).trans (marks.facts y))
                  · exact (later _).marked y
                      ((isCancelled_storeLinks _ x _ y).trans (marks.marked y set))

/-- What is known when the documents `done` were linked, from a state where all were indexed. -/
structure RelinkedSoFar (start : Builder × BuildReport) (done : List DocumentId)
    (s : Builder × BuildReport) : Prop where
  reported : ∀ x ∈ s.2.cancelled, s.1.isCancelled x = true ∧ s.1.facts x = start.1.facts x ∧
    (x ∈ start.2.cancelled ∨ (start.1.facts x).1.any (·.readCleanly) = true)
  later : ∀ x ∉ done, s.1.facts x = start.1.facts x

theorem RelinkedSoFar.next {start s : Builder × BuildReport} {done : List DocumentId}
    (known : RelinkedSoFar start done s) {x : DocumentId} (fresh : x ∉ done) :
    RelinkedSoFar start (done ++ [x]) (relink s x) := by
  cases relinkStep s x with
  | reported marks set clean report =>
      refine ⟨fun y member => ?_, fun y other => ?_⟩
      · rw [report, mem_concat] at member
        rw [marks.facts]
        rcases member with early | rfl
        · obtain ⟨marked, same, origin⟩ := known.reported y early
          exact ⟨marks.marked y marked, same, origin⟩
        · have same := known.later y fresh
          exact ⟨set, same, .inr (same ▸ clean)⟩
      · rw [marks.facts]
        exact known.later y fun early => other (mem_concat.mpr (.inl early))
  | worked others own marked report =>
      refine ⟨fun y member => ?_, fun y other => ?_⟩
      · rw [report] at member
        obtain ⟨set, same, origin⟩ := known.reported y member
        refine ⟨marked y set, Eq.trans ?_ same, origin⟩
        by_cases last : y = x
        · exact last ▸ own (last ▸ set)
        · exact others y last
      · obtain ⟨early, differs⟩ := not_or.mp (mt mem_concat.mpr other)
        rw [others y differs]
        exact known.later y early

theorem relinkedSoFar_foldl (start : Builder × BuildReport) {ids : List DocumentId}
    (nodup : ids.Nodup) (marked : ∀ x ∈ start.2.cancelled, start.1.isCancelled x = true) :
    RelinkedSoFar start ids (ids.foldl relink start) := by
  refine foldl_prefix relink (RelinkedSoFar start) ?_ fun done x rest s split known => known.next ?_
  · exact ⟨fun x member => ⟨marked x member, rfl, .inl member⟩, fun _ _ => rfl⟩
  · rw [split, List.nodup_append] at nodup
    exact fun member => nodup.2.2 x member x (.head _) rfl

/-! ## Whole passes -/

/-- The links, the diagnostics, the syntax with its scopes, and the index entry. -/
def stored (s : Seen) :
    Option Links × Option (List Diagnostic) × Option Analysed × Option IndexEntry :=
  (s.1.map (·.links), s.1.map (·.diagnostics), s.1.bind (·.analysed), s.2)

theorem stored_facts (b : Builder) (x : DocumentId) :
    stored (b.facts x) =
      (b.linksOf x, b.diagnosticsOf x, b.analysedOf x, b.index.documents.get? x) := by
  simp only [stored, facts, Option.map_map, Option.bind_map]
  rfl

/-- Reading a text without syntax errors stores none of these. -/
theorem stored_read {b : Builder} {x : DocumentId} (found : (b.readingOf x).isSome = true) :
    stored ((b.facts x).read x) = stored (b.facts x) := by
  obtain ⟨r, found⟩ := Option.isSome_iff_exists.mp found
  obtain ⟨-, d, present, clean, -⟩ := readingOf_document found
  have text : d.unmarked.text = d.text := rfl
  simp only [stored, facts, present, Option.map_some, Seen.read, OpenDocument.read, text, clean,
    if_true]
  rfl

theorem stored_analyse {b : Builder} {x : DocumentId} (found : (b.readingOf x).isSome = true) :
    stored (((b.facts x).read x).analyse x) =
      (b.linksOf x, b.diagnosticsOf x, (b.document? x).map (·.analysis x),
        (b.document? x).map fun d => ⟨(d.analysis x).scopes.exports, true⟩) := by
  obtain ⟨r, found⟩ := Option.isSome_iff_exists.mp found
  obtain ⟨-, d, present, clean, rfl⟩ := readingOf_document found
  have kept := (stored_read (by rw [found, Option.isSome_some])).trans (stored_facts b x)
  simp only [stored, Prod.mk.injEq] at kept
  rw [← facts_analyse found, stored, ← kept.1, ← kept.2.1, present]
  simp only [facts, present, Option.map_some, Seen.read, Option.bind_some]
  rfl

/-- A text with syntax errors is not read without. -/
theorem not_readCleanly_of_broken {b : Builder} {x : DocumentId} (broken : b.readingOf x = none) :
    ((b.facts x).read x).1.any (·.readCleanly) = false := by
  cases present : b.document? x with
  | none => simp only [facts, present, Option.map_none, Seen.read, Option.any_none]
  | some d =>
      rw [readingOf, present, Option.bind_some] at broken
      split at broken
      · cases broken
      · next unclean =>
          have text : d.unmarked.text = d.text := rfl
          simp only [facts, present, Option.map_some, Seen.read, OpenDocument.read, text, unclean,
            Bool.false_eq_true, if_false, Option.any_some, OpenDocument.readCleanly]

/-- A document that a pass reports as cancelled keeps its links and diagnostics. It keeps its
syntax, scopes and index entry as well, unless it was asked for and its mark was not yet set when it
was indexed: then these are those of its present text, and belong to other links than it has. -/
theorem rebuild_cancelled (b : Builder) (ids : List DocumentId) {id : DocumentId}
    (cancelled : id ∈ (b.rebuild ids).2.cancelled) :
    (b.rebuild ids).1.linksOf id = b.linksOf id ∧
      (b.rebuild ids).1.diagnosticsOf id = b.diagnosticsOf id ∧
      (b.rebuild ids).1.analysedOf id =
        (if id ∈ ids ∧ id ∉ (b.indexAll ids).report.cancelled then
          (b.document? id).map (·.analysis id)
        else b.analysedOf id) ∧
      (b.rebuild ids).1.index.documents.get? id =
        if id ∈ ids ∧ id ∉ (b.indexAll ids).report.cancelled then
          (b.document? id).map fun d => ⟨(d.analysis id).scopes.exports, true⟩
        else b.index.documents.get? id := by
  have part := b.indexesInPart ids
  have linked := relinkedSoFar_foldl ((b.indexAll ids).builder, (b.indexAll ids).report)
    (nodup_relinkedBy b ids) fun x member => (part.reported x member).2.1
  rw [← rebuild_eq] at linked
  obtain ⟨-, same, origin⟩ := linked.reported id cancelled
  have final := stored_facts (b.rebuild ids).1 id
  rw [same] at final
  have whole : stored ((b.indexAll ids).builder.facts id) =
      (b.linksOf id, b.diagnosticsOf id,
        if id ∈ ids ∧ id ∉ (b.indexAll ids).report.cancelled then
          (b.document? id).map (·.analysis id)
        else b.analysedOf id,
        if id ∈ ids ∧ id ∉ (b.indexAll ids).report.cancelled then
          (b.document? id).map fun d => ⟨(d.analysis id).scopes.exports, true⟩
        else b.index.documents.get? id) := by
    by_cases early : id ∈ (b.indexAll ids).report.cancelled
    · rw [if_neg fun c => c.2 early, if_neg fun c => c.2 early, ← stored_facts]
      obtain ⟨-, -, kept | ⟨found, read⟩⟩ := part.reported id early
      · rw [kept]
      · rw [read, stored_read found]
    · have clean := origin.resolve_left early
      by_cases listed : id ∈ ids
      · rw [if_pos ⟨listed, early⟩, if_pos ⟨listed, early⟩]
        have changed : id ∈ (b.indexAll ids).changed := by
          by_contra unchanged
          obtain ⟨broken, read⟩ := part.broken id listed early unchanged
          rw [read, not_readCleanly_of_broken broken] at clean
          cases clean
        obtain ⟨-, -, found, facts⟩ := part.changed id changed
        rw [facts, stored_analyse found]
      · rw [if_neg fun c => listed c.1, if_neg fun c => listed c.1, ← stored_facts,
          part.others id listed]
  rw [whole] at final
  simp only [Prod.mk.injEq] at final
  exact ⟨final.1.symm, final.2.1.symm, final.2.2.1.symm, final.2.2.2.symm⟩

/-- A builder in which asking for the Java class `a.B`, as linking document 0 does, cancels the work
on document 1, whose class was given another name since it was last built. -/
def cancelledAmidLinking : Builder :=
  let b := (new .standard .standard .empty).withInterrupts
    ⟨fun _ _ => [], fun _ asked => if asked.contains "a.B" then ["b.bbj"] else []⟩
  let b := (b.openDocument "a.bbj" "").2
  let b := (b.openDocument "b.bbj" "class public Old\nclassend\n").2
  let b := (b.rebuild [1]).1
  let b := (b.openDocument "a.bbj" "use a.B\n").2
  (b.openDocument "b.bbj" "class public Fresh\nclassend\n").2

theorem rebuild_cancelled_amidLinking :
    1 ∈ (cancelledAmidLinking.rebuild [0, 1]).2.cancelled ∧
      (cancelledAmidLinking.rebuild [0, 1]).1.linksOf 1 = cancelledAmidLinking.linksOf 1 ∧
      (cancelledAmidLinking.rebuild [0, 1]).1.index.documents.get? 1 =
        (cancelledAmidLinking.document? 1).map
          (fun d => ⟨(d.analysis 1).scopes.exports, true⟩) ∧
      (cancelledAmidLinking.rebuild [0, 1]).1.index.documents.get? 1 ≠
        cancelledAmidLinking.index.documents.get? 1 := by
  have cancelled : 1 ∈ (cancelledAmidLinking.rebuild [0, 1]).2.cancelled := by decide +kernel
  have late : 1 ∉ (cancelledAmidLinking.indexAll [0, 1]).report.cancelled := by decide +kernel
  obtain ⟨links, -, -, entry⟩ := rebuild_cancelled cancelledAmidLinking [0, 1] cancelled
  rw [if_pos ⟨by decide, late⟩] at entry
  exact ⟨cancelled, links, entry, by decide +kernel⟩

end Builder

end BbjAnalysis
