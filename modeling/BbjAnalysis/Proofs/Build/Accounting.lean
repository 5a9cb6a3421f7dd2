import BbjAnalysis.Proofs.Build.Cancellation
import Mathlib.Data.List.Count

/-! # What a report tells of each document

Up to the linking, every requested document is dealt out once: it failed, was found
cancelled, or had its exports replaced. The linking goes over every document at most once
and lists it as relinked, as cancelled, or not at all. So there is one way only for a
document to be listed twice: it is found cancelled before the linking, and once more by
the linking, which comes to it because it depends on another document of the pass
(`rebuild_listed`).
-/

namespace BbjAnalysis

namespace BuildReport

variable (r : BuildReport)

/-- The documents that a pass gave up, once for each time. -/
def dropped : List DocumentId := r.failed.map (·.document) ++ r.cancelled

/-- The documents that a report lists as failed, cancelled or relinked, once for each time. -/
def listed : List DocumentId := r.dropped ++ r.relinked

theorem dropped_addFailed (e : BuildError) :
    (r.addFailed e).dropped.Perm (e.document :: r.dropped) := by
  simp only [dropped, addFailed, List.map_append, List.map_singleton, List.append_assoc]
  exact List.perm_middle

theorem dropped_addCancelled (d : DocumentId) :
    (r.addCancelled d).dropped.Perm (d :: r.dropped) := by
  rw [dropped, addCancelled, ← List.append_assoc]
  exact List.perm_append_singleton d _

/-- Failures are unknown documents and syntax errors. -/
def Proper : Prop := ∀ d, BuildError.cancelled d ∉ r.failed

variable {r}

theorem Proper.addFailed (proper : r.Proper) {e : BuildError} (other : ∀ d, .cancelled d ≠ e) :
    (r.addFailed e).Proper := by
  intro d member
  exact (mem_concat.mp member).elim (proper d) (other d)

/-- Then the errors that name a cancelled document are those of the list of cancelled ones. -/
theorem Proper.count_errors (proper : r.Proper) (d : DocumentId) :
    r.errors.count (.cancelled d) = r.cancelled.count d := by
  have one (l : List DocumentId) : (l.map BuildError.cancelled).count (.cancelled d) = l.count d :=
    List.count_map_of_injective l _ (fun _ _ => BuildError.cancelled.inj) d
  rw [errors, List.count_append, List.count_eq_zero_of_not_mem (proper d), one, Nat.zero_add]

end BuildReport

namespace Builder

/-! ## Reading -/

/-- The documents that reading has dealt with, by what became of them. -/
def Reads.dealt (s : Reads) : List DocumentId := s.report.dropped ++ s.clean.map (·.document)

/-- What reading one document does to the report. -/
structure ReadDeals (s s' : Reads) (id : DocumentId) : Prop where
  dealt : s'.dealt.Perm (id :: s.dealt)
  relinked : s'.report.relinked = s.report.relinked
  proper : s.report.Proper → s'.report.Proper

theorem readDeals (s : Reads) (x : DocumentId) : ReadDeals s (readOne s x) x := by
  cases present : s.builder.document? x with
  | none =>
      rw [readOne_of_absent present]
      exact ⟨(s.report.dropped_addFailed _).append_right _, rfl,
        fun p => p.addFailed fun _ e => by cases e⟩
  | some d =>
      simp only [readOne, present]
      cases set : (s.builder.arrive .reading x).isCancelled x with
      | true =>
          rw [if_pos rfl]
          exact ⟨(s.report.dropped_addCancelled x).append_right _, rfl, fun p => p⟩
      | false =>
          rw [if_neg Bool.false_ne_true]
          cases clean : (parse d.text).isClean with
          | true =>
              rw [if_pos rfl]
              refine ⟨?_, rfl, fun p => p⟩
              rw [Reads.dealt, List.map_append, ← List.append_assoc]
              exact List.perm_append_singleton x _
          | false =>
              rw [if_neg Bool.false_ne_true]
              refine ⟨?_, rfl, fun p => ?_⟩
              · exact ((s.report.addParsed x).dropped_addFailed _).append_right _
              · exact BuildReport.Proper.addFailed (r := s.report.addParsed x) p
                  fun _ e => by cases e

theorem readDeals_foldl (ids : List DocumentId) (s : Reads) :
    (ids.foldl readOne s).dealt.Perm (ids ++ s.dealt) ∧
      (ids.foldl readOne s).report.relinked = s.report.relinked ∧
        (s.report.Proper → (ids.foldl readOne s).report.Proper) := by
  induction ids generalizing s with
  | nil => exact ⟨.refl _, rfl, fun p => p⟩
  | cons x rest ih =>
      have step := readDeals s x
      obtain ⟨dealt, relinked, proper⟩ := ih (readOne s x)
      refine ⟨dealt.trans ?_, relinked.trans step.relinked, fun p => proper (step.proper p)⟩
      exact (step.dealt.append_left rest).trans List.perm_middle

/-! ## Indexing -/

/-- The documents that were dealt with before the linking, by what became of them. -/
def Indexed.dealt (s : Indexed) : List DocumentId := s.report.dropped ++ s.changed.toList

/-- What indexing one document does to the report. -/
structure IndexDeals (s s' : Indexed) (id : DocumentId) : Prop where
  dealt : s'.dealt.Perm (id :: s.dealt)
  relinked : s'.report.relinked = s.report.relinked
  failed : s'.report.failed = s.report.failed
  changed : ∀ x ∈ s'.changed, x = id ∨ x ∈ s.changed

theorem indexDeals (s : Indexed) (c : Scoped) (fresh : c.reading.document ∉ s.changed) :
    IndexDeals s (indexOne s c) c.reading.document := by
  simp only [indexOne]
  split
  · exact ⟨(s.report.dropped_addCancelled _).append_right _, rfl, rfl, fun _ => .inr⟩
  · refine ⟨?_, rfl, rfl, fun x => OrderedSet.mem_insert.mp⟩
    exact ((OrderedSet.perm_insert fresh).append_left _).trans List.perm_middle

theorem indexDeals_foldl (l : List Scoped) (s : Indexed)
    (distinct : (l.map (·.reading.document)).Nodup)
    (fresh : ∀ c ∈ l, c.reading.document ∉ s.changed) :
    (l.foldl indexOne s).dealt.Perm (l.map (·.reading.document) ++ s.dealt) ∧
      (l.foldl indexOne s).report.relinked = s.report.relinked ∧
        (l.foldl indexOne s).report.failed = s.report.failed := by
  induction l generalizing s with
  | nil => exact ⟨.refl _, rfl, rfl⟩
  | cons c rest ih =>
      have step := indexDeals s c (fresh c (.head _))
      obtain ⟨first, distinct⟩ := List.nodup_cons.mp distinct
      have later : ∀ c' ∈ rest, c'.reading.document ∉ (indexOne s c).changed := by
        intro c' member changed
        rcases step.changed _ changed with same | earlier
        · exact first (List.mem_map.mpr ⟨c', member, same⟩)
        · exact fresh c' (.tail _ member) earlier
      obtain ⟨dealt, relinked, failed⟩ := ih (indexOne s c) distinct later
      refine ⟨dealt.trans ?_, relinked.trans step.relinked, failed.trans step.failed⟩
      exact (step.dealt.append_left _).trans List.perm_middle

/-- Before the linking, every requested document is dealt with once. -/
theorem dealt_indexAll (b : Builder) (ids : List DocumentId) :
    (b.indexAll ids).dealt.Perm (OrderedSet.ofList ids).toList ∧
      (b.indexAll ids).report.relinked = [] ∧ (b.indexAll ids).report.Proper := by
  obtain ⟨read, unlinked, proper⟩ :=
    readDeals_foldl (OrderedSet.ofList ids).toList ⟨b, .empty, []⟩
  have computed : (b.scopeAll ids).2.map (·.reading) = (b.readAll ids).clean :=
    (scopedSoFar_foldl _ _).readings
  have documents : (b.scopeAll ids).2.map (·.reading.document) =
      (b.readAll ids).clean.map (·.document) := by
    rw [← computed, List.map_map]
    rfl
  have distinct : ((b.scopeAll ids).2.map (·.reading.document)).Nodup := by
    rw [documents]
    exact List.pairwise_map.mpr ((ascending_clean_readAll b ids).imp fun less => Nat.ne_of_lt less)
  obtain ⟨indexed, relinked, failed⟩ := indexDeals_foldl (b.scopeAll ids).2
    ⟨(b.scopeAll ids).1, (b.readAll ids).report, ∅, ∅⟩ distinct
    fun _ _ => OrderedSet.not_mem_empty _
  refine ⟨indexed.trans ?_, relinked.trans unlinked, fun d member => ?_⟩
  · rw [documents]
    refine List.perm_append_comm.trans (.trans (.of_eq ?_) (read.trans (.of_eq ?_)))
    · simp only [Indexed.dealt, Reads.dealt, readAll]
      exact congrArg (· ++ _) (List.append_nil _)
    · exact List.append_nil _
  · exact proper (fun _ => List.not_mem_nil) d (failed ▸ member)

/-! ## Linking -/

/-- Whether the latest text of a document was read without syntax errors. -/
def isReadable (b : Builder) (x : DocumentId) : Bool := (b.document? x).any (·.readCleanly)

/-- Whether the syntax and scopes of some text of a document are stored. -/
def isAnalysed (b : Builder) (x : DocumentId) : Bool := (b.document? x).any (·.analysed.isSome)

theorem isReadable_facts (b : Builder) (x : DocumentId) :
    b.isReadable x = (b.facts x).1.any (·.readCleanly) := by
  rw [isReadable, facts, Option.any_map]
  rfl

theorem isAnalysed_facts (b : Builder) (x : DocumentId) :
    b.isAnalysed x = (b.facts x).1.any (·.analysed.isSome) := by
  rw [isAnalysed, facts, Option.any_map]
  rfl

/-- What relinking one document does to the report. A document that is left out has syntax errors,
or nothing of it is stored and it is not cancelled either. -/
inductive RelinkDeals (s s' : Builder × BuildReport) (x : DocumentId) : Prop where
  | leftOut (report : s'.2 = s.2)
      (why : s.1.isReadable x = true → s.1.isAnalysed x = false ∧ s.1.isCancelled x = false)
  | cancelled (report : s'.2 = s.2.addCancelled x) (readable : s.1.isReadable x = true)
  | relinked (report : s'.2 = s.2.addRelinked x) (readable : s.1.isReadable x = true)
      (unmarked : s.1.isCancelled x = false)

theorem relinkDeals (s : Builder × BuildReport) (x : DocumentId) :
    RelinkDeals s (relink s x) x := by
  cases present : s.1.document? x with
  | none =>
      simp only [relink, present]
      refine .leftOut rfl fun readable => ?_
      rw [isReadable, present] at readable
      cases readable
  | some d =>
      have readable : s.1.isReadable x = d.readCleanly := by
        rw [isReadable, present, Option.any_some]
      cases clean : d.readCleanly with
      | false =>
          simp only [relink, present, clean, Bool.not_false, if_true]
          exact .leftOut rfl fun c => by cases clean.symm.trans (readable.symm.trans c)
      | true =>
          rw [clean] at readable
          simp only [relink, present, clean, Bool.not_true, Bool.false_eq_true, if_false]
          cases set : (s.1.arrive .linking x).isCancelled x with
          | true =>
              rw [if_pos rfl]
              exact .cancelled rfl readable
          | false =>
              have unmarked : s.1.isCancelled x = false := by
                refine Bool.eq_false_iff.mpr fun earlier => ?_
                rw [(marks_arrive s.1 .linking x).marked x earlier] at set
                cases set
              rw [if_neg Bool.false_ne_true]
              cases stored : d.analysed with
              | none =>
                  refine .leftOut rfl fun _ => ⟨?_, unmarked⟩
                  rw [isAnalysed, present, Option.any_some, stored, Option.isSome_none]
              | some a => exact .relinked rfl readable unmarked

/-- How the linking of the documents `done`, from the state `start`, deals them out. -/
structure LinkDeals (start : Builder) (done cancelled relinked : List DocumentId) : Prop where
  cancelled_sublist : cancelled.Sublist done
  relinked_sublist : relinked.Sublist done
  disjoint : ∀ x ∈ cancelled, x ∉ relinked
  readable : ∀ x, x ∈ cancelled ∨ x ∈ relinked → start.isReadable x = true
  unmarked : ∀ x ∈ relinked, start.isCancelled x = false
  complete : ∀ x ∈ done, start.isReadable x = true →
    start.isAnalysed x = true ∨ start.isCancelled x = true → x ∈ cancelled ∨ x ∈ relinked

section LinkDeals

variable {start : Builder} {done cancelled relinked : List DocumentId}
  (deals : LinkDeals start done cancelled relinked) {x : DocumentId}
include deals

theorem LinkDeals.next_leftOut (why : start.isReadable x = true →
      start.isAnalysed x = false ∧ start.isCancelled x = false) :
    LinkDeals start (done ++ [x]) cancelled relinked where
  cancelled_sublist := deals.cancelled_sublist.trans (List.sublist_append_left ..)
  relinked_sublist := deals.relinked_sublist.trans (List.sublist_append_left ..)
  disjoint := deals.disjoint
  readable := deals.readable
  unmarked := deals.unmarked
  complete y member readable known := by
    rcases mem_concat.mp member with early | rfl
    · exact deals.complete y early readable known
    · obtain ⟨unknown, unmarked⟩ := why readable
      rw [unknown, unmarked] at known
      exact known.elim nofun nofun

theorem LinkDeals.next_cancelled (fresh : x ∉ done) (readable : start.isReadable x = true) :
    LinkDeals start (done ++ [x]) (cancelled ++ [x]) relinked where
  cancelled_sublist := deals.cancelled_sublist.append (.refl _)
  relinked_sublist := deals.relinked_sublist.trans (List.sublist_append_left ..)
  disjoint y member := by
    rcases mem_concat.mp member with early | rfl
    · exact deals.disjoint y early
    · exact fun other => fresh (deals.relinked_sublist.mem other)
  readable y member := by
    rw [mem_concat, or_right_comm] at member
    rcases member with early | rfl
    · exact deals.readable y early
    · exact readable
  unmarked := deals.unmarked
  complete y member readable known := by
    rw [mem_concat, or_right_comm]
    exact (mem_concat.mp member).imp_left fun early => deals.complete y early readable known

theorem LinkDeals.next_relinked (fresh : x ∉ done) (readable : start.isReadable x = true)
    (unmarked : start.isCancelled x = false) :
    LinkDeals start (done ++ [x]) cancelled (relinked ++ [x]) where
  cancelled_sublist := deals.cancelled_sublist.trans (List.sublist_append_left ..)
  relinked_sublist := deals.relinked_sublist.append (.refl _)
  disjoint y member other := by
    rcases mem_concat.mp other with early | rfl
    · exact deals.disjoint y member early
    · exact fresh (deals.cancelled_sublist.mem member)
  readable y member := by
    rw [mem_concat, ← or_assoc] at member
    rcases member with early | rfl
    · exact deals.readable y early
    · exact readable
  unmarked y member := by
    rcases mem_concat.mp member with early | rfl
    · exact deals.unmarked y early
    · exact unmarked
  complete y member readable known := by
    rw [mem_concat, ← or_assoc]
    exact (mem_concat.mp member).imp_left fun early => deals.complete y early readable known

end LinkDeals

/-- What is known of the report when the documents `done` were linked. -/
structure LinkedSoFar (start : Builder × BuildReport) (done : List DocumentId)
    (s : Builder × BuildReport) : Prop where
  later : ∀ x ∉ done, s.1.facts x = start.1.facts x
  marked : ∀ x, start.1.isCancelled x = true → s.1.isCancelled x = true
  deals : ∃ cancelled relinked, LinkDeals start.1 done cancelled relinked ∧
    s.2 = { start.2 with
      cancelled := start.2.cancelled ++ cancelled
      relinked := start.2.relinked ++ relinked }

theorem LinkedSoFar.next {start s : Builder × BuildReport} {done : List DocumentId}
    (known : LinkedSoFar start done s) {x : DocumentId} (fresh : x ∉ done) :
    LinkedSoFar start (done ++ [x]) (relink s x) := by
  have same := known.later x fresh
  refine ⟨fun y other => ?_, fun y set => ?_, ?_⟩
  · obtain ⟨early, differs⟩ := not_or.mp (mt mem_concat.mpr other)
    refine Eq.trans ?_ (known.later y early)
    cases relinkStep s x with
    | reported marks => exact marks.facts y
    | worked others => exact others y differs
  · have set := known.marked y set
    cases relinkStep s x with
    | reported marks => exact marks.marked y set
    | worked _ _ marked => exact marked y set
  · obtain ⟨cancelled, relinked, deals, report⟩ := known.deals
    have unmarked (free : s.1.isCancelled x = false) : start.1.isCancelled x = false :=
      Bool.eq_false_iff.mpr fun set => by rw [known.marked x set] at free; cases free
    cases relinkDeals s x with
    | leftOut idle why =>
        rw [isReadable_facts, isAnalysed_facts, same, ← isReadable_facts, ← isAnalysed_facts] at why
        refine ⟨cancelled, relinked, deals.next_leftOut fun readable => ?_, idle.trans report⟩
        exact (why readable).imp_right unmarked
    | cancelled added readable =>
        rw [isReadable_facts, same, ← isReadable_facts] at readable
        refine ⟨_, relinked, deals.next_cancelled fresh readable, ?_⟩
        rw [added, report, BuildReport.addCancelled, List.append_assoc]
    | relinked added readable free =>
        rw [isReadable_facts, same, ← isReadable_facts] at readable
        refine ⟨cancelled, _, deals.next_relinked fresh readable (unmarked free), ?_⟩
        rw [added, report, BuildReport.addRelinked, List.append_assoc]

theorem linkedSoFar_foldl (start : Builder × BuildReport) {ids : List DocumentId}
    (nodup : ids.Nodup) : LinkedSoFar start ids (ids.foldl relink start) := by
  refine foldl_prefix relink (LinkedSoFar start) ?_ fun done x rest s split known => known.next ?_
  · refine ⟨fun _ _ => rfl, fun _ => id, [], [], ⟨.refl _, .refl _, nofun, ?_, nofun, nofun⟩, ?_⟩
    · rintro x (c | c) <;> cases c
    · rw [List.append_nil, List.append_nil]
  · rw [split, List.nodup_append] at nodup
    exact fun member => nodup.2.2 x member x (.head _) rfl

/-! ## Whole passes -/

/-- Whether a pass finds a document cancelled twice: before the linking, and by the linking, which
comes to it as to one that depends on another document of the pass. -/
def foundTwice (b : Builder) (ids : List DocumentId) (x : DocumentId) : Bool :=
  x ∈ (b.indexAll ids).report.cancelled && x ∈ (b.indexAll ids).dependents &&
    (b.indexAll ids).builder.isReadable x

section Rebuild

variable (b : Builder) (ids : List DocumentId) {x : DocumentId}

/-- No document is dealt with twice before the linking. -/
theorem nodup_dealt : (b.indexAll ids).dealt.Nodup :=
  (dealt_indexAll b ids).1.nodup_iff.mpr
    ((OrderedSet.ofList ids).ascending.imp fun less => Nat.ne_of_lt less)

theorem mem_dealt : x ∈ (b.indexAll ids).dealt ↔ x ∈ ids :=
  (dealt_indexAll b ids).1.mem_iff.trans OrderedSet.mem_ofList

/-- A failed document is left out by the linking: it is not open, or its text has syntax errors. -/
theorem not_isReadable_of_failed
    (failed : x ∈ (b.indexAll ids).report.failed.map (·.document)) :
    (b.indexAll ids).builder.isReadable x = false := by
  have nodup := nodup_dealt b ids
  rw [Indexed.dealt, BuildReport.dropped, List.append_assoc] at nodup
  have others := (List.nodup_append.mp nodup).2.2 x failed
  obtain ⟨broken, read⟩ := (b.indexesInPart ids).broken x
    ((mem_dealt b ids).mp (List.mem_append_left _ (List.mem_append_left _ failed)))
    (fun c => others x (List.mem_append_left _ c) rfl)
    (fun c => others x (List.mem_append_right _ c) rfl)
  rw [isReadable_facts, read, not_readCleanly_of_broken broken]

/-- A document whose exports were replaced is not left out by the linking. -/
theorem isReadable_of_changed (changed : x ∈ (b.indexAll ids).changed) :
    (b.indexAll ids).builder.isReadable x = true ∧
      (b.indexAll ids).builder.isAnalysed x = true := by
  obtain ⟨-, -, found, same⟩ := (b.indexesInPart ids).changed x changed
  obtain ⟨r, found⟩ := Option.isSome_iff_exists.mp found
  obtain ⟨-, d, present, clean, -⟩ := readingOf_document found
  have text : d.unmarked.text = d.text := rfl
  rw [isReadable_facts, isAnalysed_facts, same, ← facts_analyse found]
  simp only [facts, present, Option.map_some, Seen.read, OpenDocument.read, text, clean, if_true,
    Option.any_some, Option.isSome_some, and_true]
  exact clean

/-- How a whole pass deals its documents out: `cancelled` is what the linking adds to those that
were found cancelled before. -/
theorem linkDeals_rebuild : ∃ cancelled relinked,
    LinkDeals (b.indexAll ids).builder (b.relinkedBy ids) cancelled relinked ∧
      (b.rebuild ids).2 = { (b.indexAll ids).report with
        cancelled := (b.indexAll ids).report.cancelled ++ cancelled
        relinked := relinked } := by
  have linked := linkedSoFar_foldl ((b.indexAll ids).builder, (b.indexAll ids).report)
    (nodup_relinkedBy b ids)
  obtain ⟨cancelled, relinked, deals, report⟩ := linked.deals
  refine ⟨cancelled, relinked, deals, ?_⟩
  rw [rebuild_eq, report, (dealt_indexAll b ids).2.1, List.nil_append]

variable {cancelled relinked : List DocumentId}
  (deals : LinkDeals (b.indexAll ids).builder (b.relinkedBy ids) cancelled relinked)
include deals

/-- What the linking comes to and does not leave out is changed, or a dependent. -/
theorem LinkDeals.mem_relinkedBy (member : x ∈ cancelled ∨ x ∈ relinked) :
    x ∈ (b.indexAll ids).changed ∨
      x ∈ (b.indexAll ids).dependents ∧ x ∉ (b.indexAll ids).changed := by
  have visited : x ∈ b.relinkedBy ids :=
    member.elim (fun c => deals.cancelled_sublist.mem c) fun c => deals.relinked_sublist.mem c
  refine (List.mem_append.mp visited).imp_right fun later => ?_
  obtain ⟨dependent, unchanged⟩ := List.mem_filter.mp later
  exact ⟨dependent, of_decide_eq_true unchanged⟩

/-- The linking does not come back to a failed document. -/
theorem LinkDeals.not_failed (member : x ∈ cancelled ∨ x ∈ relinked) :
    x ∉ (b.indexAll ids).report.failed.map (·.document) := by
  intro failed
  have unread := not_isReadable_of_failed b ids failed
  rw [deals.readable x member] at unread
  cases unread

/-- A document that was found cancelled before is not relinked. -/
theorem LinkDeals.not_early (member : x ∈ relinked) :
    x ∉ (b.indexAll ids).report.cancelled := by
  intro early
  have marked := ((b.indexesInPart ids).reported x early).2.1
  rw [deals.unmarked x member] at marked
  cases marked

theorem LinkDeals.foundTwice_iff :
    b.foundTwice ids x = true ↔ x ∈ (b.indexAll ids).report.cancelled ∧ x ∈ cancelled := by
  simp only [foundTwice, Bool.and_eq_true, decide_eq_true_eq]
  constructor
  · rintro ⟨⟨early, dependent⟩, readable⟩
    have unchanged : x ∉ (b.indexAll ids).changed := fun changed =>
      ((b.indexesInPart ids).changed x changed).2.1 early
    have visited : x ∈ b.relinkedBy ids :=
      List.mem_append_right _ (List.mem_filter.mpr ⟨dependent, decide_eq_true unchanged⟩)
    have marked := ((b.indexesInPart ids).reported x early).2.1
    refine ⟨early, (deals.complete x visited readable (.inr marked)).resolve_right fun c => ?_⟩
    exact deals.not_early b ids c early
  · rintro ⟨early, later⟩
    refine ⟨⟨early, ?_⟩, deals.readable x (.inl later)⟩
    refine (deals.mem_relinkedBy b ids (.inl later)).elim (fun changed => ?_) fun c => c.1
    exact absurd early ((b.indexesInPart ids).changed x changed).2.1

theorem LinkDeals.count_cancelled (listed : x ∈ (b.indexAll ids).report.cancelled ++ cancelled) :
    ((b.indexAll ids).report.cancelled ++ cancelled).count x =
      if b.foundTwice ids x then 2 else 1 := by
  have nodup := nodup_dealt b ids
  rw [Indexed.dealt, BuildReport.dropped] at nodup
  have early := (List.nodup_append.mp (List.nodup_append.mp nodup).1).2.1
  have later := deals.cancelled_sublist.nodup (nodup_relinkedBy b ids)
  rw [List.count_append, early.count, later.count]
  by_cases first : x ∈ (b.indexAll ids).report.cancelled <;>
    by_cases second : x ∈ cancelled <;>
      simp_all [deals.foundTwice_iff b ids]

theorem LinkDeals.count_listed
    (listed : x ∈ (b.indexAll ids).report.failed.map (·.document) ++
      ((b.indexAll ids).report.cancelled ++ cancelled) ++ relinked) :
    ((b.indexAll ids).report.failed.map (·.document) ++
      ((b.indexAll ids).report.cancelled ++ cancelled) ++ relinked).count x =
        if b.foundTwice ids x then 2 else 1 := by
  have nodup := nodup_dealt b ids
  rw [Indexed.dealt, BuildReport.dropped] at nodup
  obtain ⟨failures, -, apart⟩ := List.nodup_append.mp (List.nodup_append.mp nodup).1
  have relinks := deals.relinked_sublist.nodup (nodup_relinkedBy b ids)
  rw [List.count_append, List.count_append, failures.count, relinks.count]
  by_cases given : x ∈ (b.indexAll ids).report.cancelled ++ cancelled
  · -- A cancelled document is listed nowhere else.
    have unfailed : x ∉ (b.indexAll ids).report.failed.map (·.document) := fun failed =>
      (List.mem_append.mp given).elim (fun early => apart x failed x early rfl)
        fun later => deals.not_failed b ids (.inl later) failed
    have unlinked : x ∉ relinked := fun linked =>
      (List.mem_append.mp given).elim (deals.not_early b ids linked)
        fun later => deals.disjoint x later linked
    rw [if_neg unfailed, if_neg unlinked, deals.count_cancelled b ids given]
    omega
  · have once : ¬ b.foundTwice ids x = true := fun twice =>
      given (List.mem_append_left _ ((deals.foundTwice_iff b ids).mp twice).1)
    rw [List.count_eq_zero_of_not_mem given, if_neg once]
    by_cases linked : x ∈ relinked
    · rw [if_neg (deals.not_failed b ids (.inr linked)), if_pos linked]
    · have failed : x ∈ (b.indexAll ids).report.failed.map (·.document) :=
        (List.mem_append.mp ((List.mem_append.mp listed).resolve_right linked)).resolve_right given
      rw [if_pos failed, if_neg linked]

/-- Every requested document is listed. -/
theorem LinkDeals.mem_listed (asked : x ∈ ids) :
    x ∈ (b.indexAll ids).report.failed.map (·.document) ++
      ((b.indexAll ids).report.cancelled ++ cancelled) ++ relinked := by
  rcases List.mem_append.mp ((mem_dealt b ids).mpr asked) with dropped | changed
  · refine List.mem_append_left _ ((List.mem_append.mp dropped).elim ?_ fun early => ?_)
    · exact List.mem_append_left _
    · exact List.mem_append_right _ (List.mem_append_left _ early)
  · obtain ⟨readable, analysed⟩ := isReadable_of_changed b ids changed
    rcases deals.complete x (List.mem_append_left _ changed) readable (.inl analysed) with c | r
    · exact List.mem_append_left _ (List.mem_append_right _ (List.mem_append_right _ c))
    · exact List.mem_append_right _ r

/-- The relinked documents are requested ones and then others, each in ascending order. -/
theorem LinkDeals.relinked_eq : ∃ own others, relinked = own ++ others ∧
    own.Pairwise (· < ·) ∧ (∀ x ∈ own, x ∈ ids) ∧
    others.Pairwise (· < ·) ∧ ∀ x ∈ others, x ∉ ids ∧ x ∈ (b.indexAll ids).dependents := by
  obtain ⟨own, others, rfl, changed, dependent⟩ := List.sublist_append_iff.mp deals.relinked_sublist
  refine ⟨own, others, rfl, (b.indexAll ids).changed.ascending.sublist changed,
    fun x member => ((b.indexesInPart ids).changed x (changed.mem member)).1,
    ((b.indexAll ids).dependents.diff _).ascending.sublist dependent, fun x member => ?_⟩
  have linked : x ∈ own ++ others := List.mem_append_right _ member
  obtain ⟨dependent, unchanged⟩ := List.mem_filter.mp (dependent.mem member)
  refine ⟨fun asked => ?_, dependent⟩
  rcases List.mem_append.mp ((mem_dealt b ids).mpr asked) with dropped | changed
  · exact (List.mem_append.mp dropped).elim (deals.not_failed b ids (.inr linked))
      (deals.not_early b ids linked)
  · exact of_decide_eq_true unchanged changed

end Rebuild

/-- A pass lists every requested document, and no document twice, unless it finds it cancelled
twice. The relinked documents are first requested ones and then dependents, each in ascending
order. And there is one error for each time that a document was found cancelled. -/
theorem rebuild_listed (b : Builder) (ids : List DocumentId) :
    (∀ x ∈ ids, x ∈ (b.rebuild ids).2.listed) ∧
      (∀ x ∈ (b.rebuild ids).2.listed,
        (b.rebuild ids).2.listed.count x = if b.foundTwice ids x then 2 else 1) ∧
      (∃ own others, (b.rebuild ids).2.relinked = own ++ others ∧
        own.Pairwise (· < ·) ∧ (∀ x ∈ own, x ∈ ids) ∧
        others.Pairwise (· < ·) ∧ ∀ x ∈ others, x ∉ ids ∧ x ∈ (b.indexAll ids).dependents) ∧
      ∀ x ∈ (b.rebuild ids).2.cancelled,
        (b.rebuild ids).2.errors.count (.cancelled x) = if b.foundTwice ids x then 2 else 1 := by
  obtain ⟨cancelled, relinked, deals, report⟩ := linkDeals_rebuild b ids
  have proper : (b.rebuild ids).2.Proper := report ▸ (dealt_indexAll b ids).2.2
  refine ⟨fun x asked => ?_, fun x listed => ?_, ?_, fun x listed => ?_⟩
  · rw [report]
    exact deals.mem_listed b ids asked
  · rw [report] at listed ⊢
    exact deals.count_listed b ids listed
  · rw [report]
    exact deals.relinked_eq b ids
  · rw [proper.count_errors]
    rw [report] at listed ⊢
    exact deals.count_cancelled b ids listed

/-- A builder in which the work on document 1, which names the class of document 0, is cancelled
after both were built. -/
def dependentCancelled : Builder :=
  let b := new .standard .standard .empty
  let b := (b.openDocument "a.bbj" "class public A\nclassend\n").2
  let b := (b.openDocument "b.bbj" "declare A a!\n").2
  (b.rebuild [0, 1]).1.cancel 1

theorem rebuild_listed_dependentCancelled :
    1 ∈ (dependentCancelled.rebuild [0, 1]).2.cancelled ∧
      (dependentCancelled.rebuild [0, 1]).2.listed.count 1 = 2 ∧
      (dependentCancelled.rebuild [0, 1]).2.errors.count (.cancelled 1) = 2 := by
  have twice : dependentCancelled.foundTwice [0, 1] 1 = true := by decide +kernel
  have cancelled : 1 ∈ (dependentCancelled.rebuild [0, 1]).2.cancelled := by decide +kernel
  obtain ⟨every, count, -, errors⟩ := rebuild_listed dependentCancelled [0, 1]
  refine ⟨cancelled, ?_, ?_⟩
  · rw [count 1 (every 1 (by decide)), if_pos twice]
  · rw [errors 1 cancelled, if_pos twice]

end Builder

end BbjAnalysis
