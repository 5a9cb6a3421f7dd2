import BbjAnalysis.Proofs.Build.Recorded

/-! # The tables of a builder

What the tables of a builder say follows from its history: for each document, from the text that was
read last and from the text that was indexed last (`History`). Whatever is done with a builder, and
whatever is cancelled meanwhile, the tables say just that (`follow_consistent`).
-/

namespace BbjAnalysis

/-! ## Histories -/

/-- What can happen to a builder. Marks may be set between operations, and it can be changed what
will set marks during passes. -/
inductive Event where
  | operate (op : Operation)
  | cancel (id : DocumentId)
  | interrupt (interrupts : Interrupts) (elsewhere : Stage → DocumentId → List DocumentId)

/-- A builder with the texts of its open documents that passes over it read last, and indexed
last. -/
structure History where
  builder : Builder
  read : DocumentId → Option String
  indexed : DocumentId → Option String

namespace History

def start (b : Builder) : History := ⟨b, fun _ => none, fun _ => none⟩

/-- The history after a pass. A text that the pass read is indexed too, if it has no syntax errors
and the work on it was not found cancelled before that. -/
def build (h : History) (ids : List DocumentId) : History where
  builder := (h.builder.rebuild ids).1
  read x :=
    if x ∈ (h.builder.rebuild ids).2.parsed then (h.builder.document? x).map (·.text) else h.read x
  indexed x :=
    if x ∈ (h.builder.rebuild ids).2.parsed ∧
        x ∉ (h.builder.indexAll ids).report.cancelled ∧ (h.builder.readingOf x).isSome then
      (h.builder.document? x).map (·.text)
    else h.indexed x

/-- The history without a document. -/
def close (h : History) (id : DocumentId) : History where
  builder := h.builder.perform (.removeDocument id)
  read x := if x = id then none else h.read x
  indexed x := if x = id then none else h.indexed x

def next (h : History) : Event → History
  | .operate (.rebuild ids) => h.build ids
  | .operate .rebuildAll => h.build h.builder.documents.keys
  | .operate (.removeDocument id) => h.close id
  | .operate op => { h with builder := h.builder.perform op }
  | .cancel id => { h with builder := h.builder.cancel id }
  | .interrupt interrupts elsewhere =>
      { h with builder := (h.builder.withInterrupts interrupts).withElsewhere elsewhere }

def follow (h : History) (events : List Event) : History := events.foldl next h

/-- The tables are consistent: URIs and open documents correspond, each document is recorded as its
history tells, and what is kept beside the exports and beside the dependencies goes with them. -/
structure Consistent (h : History) : Prop where
  registered : ∀ {uri x}, h.builder.idOf uri = some x ↔ h.builder.uriOf x = some uri
  below : ∀ {x uri}, h.builder.uriOf x = some uri → x < h.builder.nextId
  recorded : ∀ x, Recorded x (h.read x) (h.indexed x) (h.builder.seen x)
  index : h.builder.index.Exact
  dependencies : h.builder.dependencies.Exact

section Consistent

variable {h : History}

theorem Consistent.of_keeps (consistent : h.Consistent) {b : Builder}
    (keeps : h.builder.KeepsTables b) : Consistent { h with builder := b } where
  registered {uri x} := by
    rw [keeps.idOf_eq, keeps.uriOf_eq]
    exact consistent.registered
  below {x uri} known := by
    rw [keeps.nextId]
    exact consistent.below ((keeps.uriOf_eq x).symm.trans known)
  recorded x :=
    (consistent.recorded x).of_told (keeps.told x) (congrArg (·.documents.get? x) keeps.index)
  index := keeps.index ▸ consistent.index
  dependencies := keeps.dependencies consistent.dependencies

/-! ### Opening -/

theorem Consistent.openDocument (consistent : h.Consistent) (uri text : String) :
    Consistent { h with builder := (h.builder.openDocument uri text).2 } := by
  cases known : h.builder.byUri.get? uri with
  | some id => exact consistent.of_keeps (Builder.keepsTables_openDocument known text)
  | none =>
      rw [Builder.openDocument_of_unknown known]
      refine ⟨?_, ?_, fun x => ?_, consistent.index, consistent.dependencies⟩
      · exact Builder.registered_openNew consistent.registered consistent.below known text
      · intro x uri' found
        rw [Builder.uriOf_openNew] at found
        split at found
        · next same =>
            rw [same]
            exact Nat.lt_succ_self h.builder.nextId
        · exact Nat.lt_succ_of_lt (consistent.below found)
      · have recorded := consistent.recorded x
        simp only [Builder.seen, Builder.document?_openNew]
        split
        · next same =>
            subst same
            obtain ⟨unread, unindexed, absent⟩ :=
              recorded.closed (Builder.absent_nextId consistent.below)
            have absent : h.builder.index.documents.get? h.builder.nextId = none := absent
            have absent' : (h.builder.openNew uri text).index.documents.get? h.builder.nextId =
                none := absent
            simp only [unread, unindexed, absent']
            refine .ofOpen ?_ rfl rfl rfl ?_ <;> rintro _ ⟨⟩
        · exact recorded

/-! ### Closing -/

theorem Consistent.close (consistent : h.Consistent) (id : DocumentId) :
    (h.close id).Consistent := by
  cases present : h.builder.document? id with
  | none =>
      have same : h.close id = h := by
        obtain ⟨unread, unindexed, -⟩ := (consistent.recorded id).closed present
        have kept {f : DocumentId → Option String} (none : f id = none) :
            (fun x => if x = id then Option.none else f x) = f := by
          funext x
          split
          · next same => rw [same, none]
          · rfl
        simp only [History.close, Builder.perform, Builder.removeDocument, present,
          kept unread, kept unindexed]
      rw [same]
      exact consistent
  | some d =>
      have forgotten : Consistent
          { h.close id with builder := h.builder.forget id d } := by
        refine ⟨?_, ?_, fun x => ?_, consistent.index.unlink id,
          consistent.dependencies.remove id⟩
        · exact Builder.registered_forget consistent.registered present
        · intro x uri found
          rw [Builder.uriOf_forget] at found
          split at found
          · cases found
          · exact consistent.below found
        · have entry : (h.builder.forget id d).index.documents.get? x =
              if x = id then none else h.builder.index.documents.get? x :=
            WorkspaceIndex.get?_unlink h.builder.index id x
          simp only [Builder.seen, Builder.document?_forget, entry, History.close]
          split
          · exact recorded_closed x
          · exact consistent.recorded x
      have closed := forgotten.of_keeps (Builder.keepsTables_foldl_relink
        (h.builder.dependencies.dependents id ((h.builder.index.remove id).1.getD [])).toList
        (h.builder.forget id d, .empty))
      simp only [History.close, Builder.perform, Builder.removeDocument_of_open present]
      exact closed

/-! ### Passes -/

/-- A mark is no part of what is recorded. -/
theorem recorded_facts {b : Builder} {x : DocumentId} {readText indexedText : Option String} :
    Recorded x readText indexedText (b.facts x) ↔ Recorded x readText indexedText (b.seen x) := by
  have same : (b.facts x).1.map (·.told) = (b.seen x).1.map (·.told) := by
    rw [Builder.facts, Option.map_map]
    rfl
  exact ⟨fun recorded => recorded.of_told same.symm rfl, fun recorded => recorded.of_told same rfl⟩

theorem recorded_indexAll (h : History) (ids : List DocumentId) {x : DocumentId}
    (recorded : Recorded x (h.read x) (h.indexed x) (h.builder.seen x)) :
    Recorded x ((h.build ids).read x) ((h.build ids).indexed x)
      ((h.builder.indexAll ids).builder.seen x) := by
  have changed := h.builder.mem_changed_indexAll ids x
  have parsed := h.builder.mem_parsed_readAll ids x
  have former := recorded_facts.mpr recorded
  rw [← recorded_facts, Builder.facts_indexAll, Builder.facts_readAll]
  simp only [build, Builder.parsed_rebuild, ← changed]
  by_cases read : x ∈ (h.builder.readAll ids).report.parsed
  · obtain ⟨d, present⟩ := Option.isSome_iff_exists.mp (parsed.mp read).2.1
    have known : (h.builder.facts x).1 = some d.unmarked := by
      rw [Builder.facts, present, Option.map_some]
    have afterwards : Recorded x (some d.unmarked.text) (h.indexed x)
        ((h.builder.facts x).read x) := former.read known
    simp only [if_pos read, present, Option.map_some]
    split
    · next indexed =>
        obtain ⟨r, found⟩ := Option.isSome_iff_exists.mp (changed.mp indexed).2.2
        obtain ⟨-, d', present', clean, -⟩ := Builder.readingOf_document found
        obtain rfl := Option.some.inj (present.symm.trans present')
        obtain ⟨d', opened, text⟩ : ∃ d', ((h.builder.facts x).read x).1 = some d' ∧
            d'.text = d.text := by
          rw [Builder.facts, present]
          exact ⟨_, rfl, OpenDocument.text_read x d.unmarked⟩
        exact afterwards.analyse clean opened text
    · exact afterwards
  · have unindexed : x ∉ (h.builder.indexAll ids).changed := fun found => read (changed.mp found).1
    simp only [if_neg read, if_neg unindexed]
    exact former

theorem Consistent.build (consistent : h.Consistent) (ids : List DocumentId) :
    (h.build ids).Consistent := by
  have registry := h.builder.registry_indexAll ids
  have byUri : (h.builder.indexAll ids).builder.byUri = h.builder.byUri :=
    congrArg Builder.Registry.byUri registry
  have nextId : (h.builder.indexAll ids).builder.nextId = h.builder.nextId :=
    congrArg Builder.Registry.nextId registry
  have dependencies : (h.builder.indexAll ids).builder.dependencies = h.builder.dependencies :=
    congrArg Builder.Registry.dependencies registry
  have linked := Builder.keepsTables_foldl_relink (h.builder.relinkedBy ids)
    ((h.builder.indexAll ids).builder, (h.builder.indexAll ids).report)
  rw [← Builder.rebuild_eq] at linked
  have indexed : Consistent { h.build ids with builder := (h.builder.indexAll ids).builder } := by
    refine ⟨fun {uri x} => ?_, fun {x uri} known => ?_, fun x => ?_,
      Builder.exact_indexAll consistent.index ids, dependencies ▸ consistent.dependencies⟩
    · simp only [Builder.idOf, byUri, Builder.uriOf_indexAll]
      exact consistent.registered
    · rw [Builder.uriOf_indexAll] at known
      simp only [nextId]
      exact consistent.below known
    · exact recorded_indexAll h ids (consistent.recorded x)
  exact indexed.of_keeps linked

/-! ### Whole histories -/

theorem consistent_start (config : BuildConfig) (packages : List String) (rules : RuleSet)
    (catalog : Java.ClassSource) :
    (start ((Builder.new config rules catalog).withPackages packages)).Consistent where
  registered := ⟨nofun, nofun⟩
  below := nofun
  recorded x := recorded_closed x
  index := WorkspaceIndex.exact_empty
  dependencies := Dependencies.exact_empty

theorem Consistent.next (consistent : h.Consistent) (e : Event) : (h.next e).Consistent := by
  cases e with
  | operate op =>
      cases op with
      | openDocument uri text => exact consistent.openDocument uri text
      | rebuild ids => exact consistent.build ids
      | rebuildAll => exact consistent.build h.builder.documents.keys
      | removeDocument id => exact consistent.close id
      | reloadCatalog => exact consistent.of_keeps h.builder.keepsTables_reloadCatalog
      | replaceCatalog catalog =>
          exact consistent.of_keeps (h.builder.keepsTables_replaceCatalog catalog)
  | cancel id => exact consistent.of_keeps (Builder.keepsTables_cancel _ id)
  | interrupt interrupts elsewhere =>
      exact consistent.of_keeps (h.builder.keepsTables_interrupted interrupts elsewhere)

theorem Consistent.follow (consistent : h.Consistent) (events : List Event) :
    (h.follow events).Consistent := by
  induction events generalizing h with
  | nil => exact consistent
  | cons e rest ih => exact ih (consistent.next e)

end Consistent

theorem follow_append (h : History) (earlier later : List Event) :
    h.follow (earlier ++ later) = (h.follow earlier).follow later := List.foldl_append

end History

/-! ## Identities -/

namespace Builder

/-- An identity that was given away by `b` is in `b'` that of the same document, or of none. At
most one identity was given away in each of the events in between. -/
structure KeepsIds (events : Nat) (b b' : Builder) : Prop where
  retired : b.RetiresMarked b'
  nextId : b.nextId ≤ b'.nextId
  given : b'.nextId ≤ b.nextId + events
  uriOf : ∀ x < b.nextId, b'.uriOf x = b.uriOf x ∨ b'.uriOf x = none

section KeepsIds

variable {b b' b'' : Builder}

theorem KeepsIds.trans {earlier later : Nat} (first : KeepsIds earlier b b')
    (second : KeepsIds later b' b'') : KeepsIds (earlier + later) b b'' where
  retired := first.retired.trans second.retired
  nextId := first.nextId.trans second.nextId
  given := calc
    b''.nextId ≤ b'.nextId + later := second.given
    _ ≤ b.nextId + earlier + later := Nat.add_le_add_right first.given later
    _ = b.nextId + (earlier + later) := Nat.add_assoc _ _ _
  uriOf x given := by
    rcases second.uriOf x (Nat.lt_of_lt_of_le given first.nextId) with same | closed
    · rw [same]
      exact first.uriOf x given
    · exact .inr closed

theorem KeepsTables.keepsIds (keeps : b.KeepsTables b') (events : Nat) :
    KeepsIds events b b' :=
  ⟨keeps.retired, keeps.nextId.ge, keeps.nextId.le.trans (Nat.le_add_right _ _),
    fun x _ => .inl (keeps.uriOf_eq x)⟩

theorem keepsIds_openDocument (b : Builder) (uri text : String) :
    KeepsIds 1 b (b.openDocument uri text).2 := by
  cases known : b.byUri.get? uri with
  | some id => exact (keepsTables_openDocument known text).keepsIds 1
  | none =>
      rw [openDocument_of_unknown known]
      refine ⟨.of_eq rfl, Nat.le_succ _, Nat.le_refl _, fun x given => .inl ?_⟩
      rw [uriOf_openNew, if_neg (Nat.ne_of_lt given)]

theorem keepsIds_rebuild (b : Builder) (ids : List DocumentId) :
    KeepsIds 1 b (b.rebuild ids).1 := by
  have registry := b.registry_indexAll ids
  have nextId : (b.indexAll ids).builder.nextId = b.nextId := congrArg Registry.nextId registry
  have indexed : KeepsIds 1 b (b.indexAll ids).builder :=
    ⟨.of_eq (congrArg Registry.retired registry), nextId.ge, nextId.le.trans (Nat.le_succ _),
      fun x _ => .inl (b.uriOf_indexAll ids x)⟩
  rw [rebuild_eq]
  exact indexed.trans ((keepsTables_foldl_relink (b.relinkedBy ids)
    ((b.indexAll ids).builder, (b.indexAll ids).report)).keepsIds 0)

theorem keepsIds_removeDocument (b : Builder) (id : DocumentId) :
    KeepsIds 1 b (b.perform (.removeDocument id)) := by
  cases present : b.document? id with
  | none =>
      simp only [perform, removeDocument, present]
      exact (KeepsTables.refl b).keepsIds 1
  | some d =>
      have forgotten : KeepsIds 1 b (b.forget id d) := by
        refine ⟨retiresMarked_retire b id, Nat.le_refl _, Nat.le_succ _, fun x _ => ?_⟩
        rw [uriOf_forget]
        split
        · exact .inr rfl
        · exact .inl rfl
      simp only [perform, removeDocument_of_open present]
      exact forgotten.trans ((keepsTables_foldl_relink _ (b.forget id d, .empty)).keepsIds 0)

end KeepsIds

end Builder

namespace History

theorem keepsIds_next (h : History) (e : Event) :
    Builder.KeepsIds 1 h.builder (h.next e).builder := by
  cases e with
  | operate op =>
      cases op with
      | openDocument uri text => exact h.builder.keepsIds_openDocument uri text
      | rebuild ids => exact h.builder.keepsIds_rebuild ids
      | rebuildAll => exact h.builder.keepsIds_rebuild h.builder.documents.keys
      | removeDocument id => exact h.builder.keepsIds_removeDocument id
      | reloadCatalog => exact h.builder.keepsTables_reloadCatalog.keepsIds 1
      | replaceCatalog catalog => exact (h.builder.keepsTables_replaceCatalog catalog).keepsIds 1
  | cancel id => exact (Builder.keepsTables_cancel _ id).keepsIds 1
  | interrupt interrupts elsewhere =>
      exact (h.builder.keepsTables_interrupted interrupts elsewhere).keepsIds 1

theorem keepsIds_follow (h : History) (events : List Event) :
    Builder.KeepsIds events.length h.builder (h.follow events).builder := by
  induction events generalizing h with
  | nil => exact (Builder.KeepsTables.refl _).keepsIds 0
  | cons e rest ih =>
      rw [List.length_cons, Nat.add_comm]
      exact (h.keepsIds_next e).trans (ih (h.next e))

/-- Whoever works on a text that was replaced or closed finds the work cancelled. -/
theorem retired_follow (config : BuildConfig) (rules : RuleSet) (catalog : Java.ClassSource)
    (events : List Event) :
    ∀ mark ∈ ((start (.new config rules catalog)).follow events).builder.retired, mark = true := by
  obtain ⟨marks, retired, marked⟩ :=
    ((start (.new config rules catalog)).keepsIds_follow events).retired
  rw [retired]
  simpa [start, Builder.new] using marked

/-- A workspace gives away at most one identity of a document in each event. -/
theorem nextId_follow_le (config : BuildConfig) (rules : RuleSet) (catalog : Java.ClassSource)
    (events : List Event) :
    ((start (.new config rules catalog)).follow events).builder.nextId ≤ events.length := by
  have given := ((start (.new config rules catalog)).keepsIds_follow events).given
  rwa [start, Builder.new, Nat.zero_add] at given

end History

/-! ## Histories without cancelled work -/

namespace Builder

/-- Of every document whose latest text has no syntax errors, the scopes are known. -/
def KnowsReadable (b : Builder) : Prop :=
  ∀ x d, b.document? x = some d → d.readCleanly = true → d.analysed.isSome = true

section KnowsReadable

variable {b b' : Builder}

theorem KnowsReadable.of_keeps (knows : b.KnowsReadable) (keeps : b.KeepsTables b') :
    b'.KnowsReadable := by
  intro x d' present clean
  have same := keeps.told x
  rw [present, Option.map_some, eq_comm, Option.map_eq_some_iff] at same
  obtain ⟨d, former, same⟩ := same
  simp only [OpenDocument.told, Prod.mk.injEq] at same
  rw [← same.2.2.1]
  refine knows x d former ?_
  rwa [OpenDocument.readCleanly, same.2.1]

theorem KnowsReadable.openDocument (knows : b.KnowsReadable) (uri text : String) :
    (b.openDocument uri text).2.KnowsReadable := by
  cases known : b.byUri.get? uri with
  | some id => exact knows.of_keeps (keepsTables_openDocument known text)
  | none =>
      rw [openDocument_of_unknown known]
      intro x d present clean
      rw [document?_openNew] at present
      split at present
      · cases present
        cases clean
      · exact knows x d present clean

theorem KnowsReadable.rebuild (knows : b.KnowsReadable) (coherent : b.Coherent)
    (ids : List DocumentId) : (b.rebuild ids).1.KnowsReadable := by
  intro x d present clean
  rw [coherent.document?_rebuild ids x, Option.map_eq_some_iff] at present
  obtain ⟨former, opened, rfl⟩ := present
  have kept := known_settle (b.rebuild ids).1 x (if x ∈ ids then former.reread x else former)
  simp only [Prod.mk.injEq] at kept
  rw [OpenDocument.readCleanly, kept.2.1] at clean
  rw [kept.2.2]
  split at clean
  · next member =>
      rw [if_pos member]
      have readable : (parse former.text).isClean = true :=
        (OpenDocument.readCleanly_reread x former).symm.trans clean
      rw [OpenDocument.reread_of_clean x readable]
      rfl
  · next other =>
      rw [if_neg other]
      exact knows x former opened clean

theorem KnowsReadable.perform (knows : b.KnowsReadable) (coherent : b.Coherent) (op : Operation) :
    (b.perform op).KnowsReadable := by
  cases op with
  | openDocument uri text => exact knows.openDocument uri text
  | rebuild ids => exact knows.rebuild coherent ids
  | rebuildAll => exact knows.rebuild coherent b.documents.keys
  | removeDocument id =>
      cases present : b.document? id with
      | none =>
          simp only [Builder.perform, removeDocument, present]
          exact knows
      | some d =>
          have forgotten : (b.forget id d).KnowsReadable := by
            intro x d' opened clean
            rw [document?_forget] at opened
            split at opened
            · cases opened
            · exact knows x d' opened clean
          simp only [Builder.perform, removeDocument_of_open present]
          exact forgotten.of_keeps (keepsTables_foldl_relink _ (b.forget id d, .empty))
  | reloadCatalog => exact knows.of_keeps b.keepsTables_reloadCatalog
  | replaceCatalog catalog => exact knows.of_keeps (b.keepsTables_replaceCatalog catalog)

end KnowsReadable

theorem knowsReadable_run (config : BuildConfig) (packages : List String) (rules : RuleSet)
    (catalog : Java.ClassSource) (ops : List Operation) :
    (((new config rules catalog).withPackages packages).run ops).KnowsReadable := by
  have carried (ops : List Operation) (b : Builder) (coherent : b.Coherent)
      (knows : b.KnowsReadable) : (b.run ops).KnowsReadable := by
    induction ops generalizing b with
    | nil => exact knows
    | cons op rest ih => exact ih (b.perform op) (coherent.perform op) (knows.perform coherent op)
  exact carried ops _ (coherent_new config packages rules catalog) nofun

/-- A document of a coherent builder is valid if its latest text has no syntax errors. -/
theorem Coherent.isValid_iff {b : Builder} (coherent : b.Coherent) (knows : b.KnowsReadable)
    (x : DocumentId) :
    b.index.isValid x = some true ↔ (b.document? x).any (·.readCleanly) = true := by
  rw [WorkspaceIndex.isValid, coherent.entry]
  cases present : b.document? x with
  | none => simp
  | some d =>
      rw [Option.bind_some, OpenDocument.entry, Option.map_map, Option.any_some]
      cases analysed : d.analysed with
      | some a => simp
      | none =>
          have unreadable : d.readCleanly ≠ true := fun clean => by
            have known := knows x d present clean
            rw [analysed] at known
            cases known
          simp [unreadable]

end Builder

namespace History

theorem builder_next_operate (h : History) (op : Operation) :
    (h.next (.operate op)).builder = h.builder.perform op := by
  cases op <;> rfl

/-- Without marks, the builder of a history is that of a run. -/
theorem builder_follow_operate (h : History) (ops : List Operation) :
    (h.follow (ops.map .operate)).builder = h.builder.run ops := by
  induction ops generalizing h with
  | nil => rfl
  | cons op rest ih =>
      refine (ih (h.next (.operate op))).trans ?_
      rw [builder_next_operate]
      rfl

/-- Without marks, a text without syntax errors is indexed when it is read. -/
def IndexesRead (h : History) : Prop :=
  ∀ x text, h.read x = some text → (parse text).isClean = true → h.indexed x = some text

theorem IndexesRead.build {h : History} (indexes : h.IndexesRead) (coherent : h.builder.Coherent)
    (ids : List DocumentId) : (h.build ids).IndexesRead := by
  intro x text read clean
  have parsed := h.builder.mem_parsed_readAll ids x
  have changed := h.builder.mem_changed_indexAll ids x
  simp only [History.build, Builder.parsed_rebuild] at read ⊢
  split at read
  · next member =>
      obtain ⟨d, present, rfl⟩ := Option.map_eq_some_iff.mp read
      have found : (h.builder.readingOf x).isSome = true := by
        rw [Builder.readingOf, present, Option.bind_some, if_pos clean, Option.isSome_some]
      -- Every text of a quiet pass that has no syntax errors replaces what is indexed.
      have replaced := ((coherent.replaces ids).changed x).mpr ⟨(parsed.mp member).1, found⟩
      rw [if_pos (changed.mp replaced), read]
  · next unread =>
      rw [if_neg fun all => unread all.1]
      exact indexes x text read clean

theorem IndexesRead.next {h : History} (indexes : h.IndexesRead) (coherent : h.builder.Coherent)
    (op : Operation) : (h.next (.operate op)).IndexesRead := by
  cases op with
  | openDocument | reloadCatalog | replaceCatalog => exact indexes
  | rebuild ids => exact indexes.build coherent ids
  | rebuildAll => exact indexes.build coherent h.builder.documents.keys
  | removeDocument id =>
      intro x text read clean
      simp only [History.next, History.close] at read ⊢
      split at read
      · cases read
      · next other =>
          rw [if_neg other]
          exact indexes x text read clean

theorem IndexesRead.follow {h : History} (indexes : h.IndexesRead) (coherent : h.builder.Coherent)
    (ops : List Operation) : (h.follow (ops.map .operate)).IndexesRead := by
  induction ops generalizing h with
  | nil => exact indexes
  | cons op rest ih =>
      refine ih (indexes.next coherent op) ?_
      rw [builder_next_operate]
      exact coherent.perform op

/-- However a builder is used, and whatever is cancelled meanwhile, its tables are consistent, and
an identity that is open at two times is that of one document, which was not closed in between. As
long as nothing is cancelled, a document is valid iff the text that was read last has no syntax
errors. -/
theorem follow_consistent (config : BuildConfig) (packages : List String) (rules : RuleSet)
    (catalog : Java.ClassSource) (events : List Event) :
    let start := start ((Builder.new config rules catalog).withPackages packages)
    let h := start.follow events
    h.Consistent ∧
      (∀ earlier middle later, events = earlier ++ middle ++ later → ∀ x uri uri',
        (start.follow earlier).builder.uriOf x = some uri → h.builder.uriOf x = some uri' →
          uri' = uri ∧ (start.follow (earlier ++ middle)).builder.uriOf x = some uri) ∧
      ∀ ops : List Operation, events = ops.map Event.operate → ∀ x,
        h.builder.index.isValid x = some true ↔
          ∃ text, h.read x = some text ∧ (parse text).isClean = true := by
  intro start h
  have initial : start.Consistent := consistent_start config packages rules catalog
  have consistent : h.Consistent := initial.follow events
  refine ⟨consistent, fun earlier middle later split x uri uri' first last => ?_,
    fun ops quiet x => ?_⟩
  · have given := (initial.follow earlier).below first
    have between := (start.follow earlier).keepsIds_follow middle
    have after := (start.follow (earlier ++ middle)).keepsIds_follow later
    rw [← follow_append] at between after
    rw [← split] at after
    -- Closed in between, the identity would stay closed.
    rcases after.uriOf x (Nat.lt_of_lt_of_le given between.nextId) with same | closed
    · rcases between.uriOf x given with kept | closed
      · have stays := same.trans (kept.trans first)
        exact ⟨Option.some.inj (last.symm.trans stays), kept.trans first⟩
      · rw [closed] at same
        cases last.symm.trans same
    · cases last.symm.trans closed
  · have builder : h.builder =
        ((Builder.new config rules catalog).withPackages packages).run ops := by
      have followed := builder_follow_operate start ops
      rw [← quiet] at followed
      exact followed
    have coherent : h.builder.Coherent :=
      builder ▸ (Builder.coherent_new config packages rules catalog).run ops
    have knows : h.builder.KnowsReadable :=
      builder ▸ Builder.knowsReadable_run config packages rules catalog ops
    rw [coherent.isValid_iff knows]
    cases present : h.builder.document? x with
    | none =>
        obtain ⟨unread, -⟩ := (consistent.recorded x).closed present
        simp [unread]
    | some d =>
        have latest : d.latest = (h.read x).map parse := (consistent.recorded x).latest present
        rw [Option.any_some, OpenDocument.readCleanly, latest]
        cases h.read x <;> simp

/-- Two documents, of which one is given a broken text, and the other is closed, opened again and
cancelled while its scopes are to be computed. -/
def brokenAndReopened : List Event :=
  [.operate (.openDocument "a.bbj" "class public A\nclassend\n"),
    .operate (.openDocument "b.bbj" "x! = new A()\n"), .operate .rebuildAll,
    .operate (.openDocument "a.bbj" "class public\n"), .operate (.removeDocument 1),
    .operate (.openDocument "b.bbj" "y! = new A()\n"),
    .interrupt .silent (fun stage id => if stage = .scoping ∧ id = 2 then [2] else []),
    .operate .rebuildAll]

theorem follow_consistent_brokenAndReopened :
    let h := (start ((Builder.new .standard .standard .empty).withPackages [])).follow
      brokenAndReopened
    h.Consistent ∧
      (h.builder.uriOf 2 = some "b.bbj" ∧ h.read 2 = some "y! = new A()\n" ∧
        h.builder.index.documents.get? 2 = none) ∧
      ∃ d, h.builder.document? 0 = some d ∧ d.links = .empty ∧
        h.builder.index.isValid 0 ≠ some true ∧
        h.builder.index.exportsOf 0 =
          some (Analysed.ofText 0 d.uri "class public A\nclassend\n").scopes.exports := by
  intro h
  obtain ⟨consistent, -⟩ :=
    follow_consistent .standard [] .standard .empty brokenAndReopened
  have reopened : h.builder.uriOf 2 = some "b.bbj" := by decide +kernel
  have unindexed : h.indexed 2 = none := by decide +kernel
  have stillOpen : (h.builder.document? 0).isSome = true := by decide +kernel
  have read : h.read 0 = some "class public\n" := by decide +kernel
  have indexed : h.indexed 0 = some "class public A\nclassend\n" := by decide +kernel
  refine ⟨consistent, ⟨reopened, by decide +kernel, ?_⟩, ?_⟩
  · obtain ⟨d, present, -⟩ := Option.map_eq_some_iff.mp reopened
    have recorded := consistent.recorded 2
    have exports := recorded.exports present
    rw [recorded.analysed present, unindexed] at exports
    exact Option.map_eq_none_iff.mp exports
  · obtain ⟨d, present⟩ := Option.isSome_iff_exists.mp stillOpen
    have recorded := consistent.recorded 0
    obtain ⟨invalid, links, -⟩ := recorded.failed present read (by decide +kernel)
    have exports := recorded.exports present
    rw [recorded.analysed present, indexed] at exports
    exact ⟨d, present, links, invalid, exports⟩

end History

end BbjAnalysis
