import BbjAnalysis.Proofs.Workspace.Index
import Mathlib.Data.List.Pairwise

/-! # The index as a map of export sets

Whatever is done with an index, it answers as the plain map from documents to their
export sets would: a look-up goes through the documents in order and picks the symbols
of the name (`run_refines`). The table of names only finds them without going through
all documents. It lists the places of a name document by document, and within one in
the order of declaration (`Exact.placesIn_eq`).
-/

namespace BbjAnalysis

/-- What can be done with an index. -/
inductive IndexOperation where
  | upsert (exports : ExportSet)
  | remove (document : DocumentId)
  | markInvalid (document : DocumentId)

/-- The document that an operation is about. -/
def IndexOperation.document : IndexOperation → DocumentId
  | .upsert exports => exports.document
  | .remove document | .markInvalid document => document

/-- What the documents of a workspace export, and nothing beside it. -/
abbrev ExportMap := OrderedMap DocumentId ExportSet

namespace ExportMap

/-- The map after an operation. A document that becomes invalid exports what it did before. -/
def perform (m : ExportMap) : IndexOperation → ExportMap
  | .upsert exports => m.insert exports.document exports
  | .remove document => m.erase document
  | .markInvalid _ => m

def run (m : ExportMap) (ops : List IndexOperation) : ExportMap := ops.foldl perform m

/-- An operation changes the exports of its own document only. -/
theorem get?_perform (m : ExportMap) (op : IndexOperation) {d : DocumentId}
    (other : d ≠ op.document) : (m.perform op).get? d = m.get? d := by
  cases op with
  | upsert exports =>
      exact (OrderedMap.get?_insert m exports.document d exports).trans (if_neg other)
  | remove document => exact (OrderedMap.get?_erase m document d).trans (if_neg other)
  | markInvalid document => rfl

/-- The symbols of a name, by document and then in the order of declaration. -/
def lookup (m : ExportMap) (name : String) : List Symbol := m.values.flatMap (·.lookup name)

/-- The symbols of a name that one document adds. -/
def lookupIn (m : ExportMap) (document : DocumentId) (name : String) : List Symbol :=
  ((m.get? document).map (·.lookup name)).getD []

end ExportMap

namespace WorkspaceIndex

def perform (i : WorkspaceIndex) : IndexOperation → WorkspaceIndex
  | .upsert exports => (i.upsert exports).2
  | .remove document => (i.remove document).2
  | .markInvalid document => i.markInvalid document

def run (i : WorkspaceIndex) (ops : List IndexOperation) : WorkspaceIndex := ops.foldl perform i

/-- What a look-up of a name owes to one document. -/
def contribution (i : WorkspaceIndex) (document : DocumentId) (name : String) : List Symbol :=
  ((placesIn i.byName name).filter (·.document == document)).filterMap i.symbolAt

/-! ## The table, read off the documents -/

/-- The places of a name among the exports of a document. -/
def exportPlaces (document : DocumentId) (exports : ExportSet) (name : String) :
    List ExportPlace :=
  (exports.symbols.zipIdx.filter (·.1.name == name)).map fun x => ⟨document, x.2⟩

theorem mem_exportPlaces {d : DocumentId} {exports : ExportSet} {name : String}
    {p : ExportPlace} :
    p ∈ exportPlaces d exports name ↔
      p.document = d ∧ ∃ s, exports.symbols[p.position]? = some s ∧ s.name = name := by
  obtain ⟨document, position⟩ := p
  simp only [exportPlaces, List.mem_map, List.mem_filter, beq_iff_eq, ExportPlace.mk.injEq,
    List.mem_zipIdx_iff_getElem?]
  constructor
  · rintro ⟨⟨s, k⟩, ⟨at_, named⟩, rfl, rfl⟩
    exact ⟨rfl, s, at_, named⟩
  · rintro ⟨rfl, s, at_, named⟩
    exact ⟨(s, position), ⟨at_, named⟩, rfl, rfl⟩

theorem ascending_exportPlaces (d : DocumentId) (exports : ExportSet) (name : String) :
    (exportPlaces d exports name).Pairwise fun p q => p.before q = true := by
  have positions : (exports.symbols.zipIdx).Pairwise fun x y => x.2 < y.2 := by
    refine List.pairwise_map.mp ?_
    rw [List.zipIdx_map_snd]
    exact List.pairwise_lt_range'
  refine List.pairwise_map.mpr ((positions.filter _).imp fun less => ?_)
  exact ExportPlace.before_iff.mpr (.inr ⟨rfl, less⟩)

/-- An exact table lists the places of a name by document, then in the order of declaration. -/
theorem Exact.placesIn_eq {i : WorkspaceIndex} (exact_ : i.Exact) (name : String) :
    placesIn i.byName name =
      i.documents.entries.flatMap fun e => exportPlaces e.1 e.2.exports name := by
  refine OrderedMap.eq_of_mem_iff (R := fun p q => ExportPlace.before p q = true)
    ExportPlace.not_before_self (fun _ _ _ => ExportPlace.before_trans)
    (exact_.tidy.ascending name) ?_ fun p => ?_
  · refine List.pairwise_flatMap.mpr ⟨fun e _ => ascending_exportPlaces _ _ _, ?_⟩
    refine i.documents.ascending.imp fun less p first q second => ?_
    rw [(mem_exportPlaces.mp first).1.symm, (mem_exportPlaces.mp second).1.symm] at less
    exact ExportPlace.before_iff.mpr (.inl less)
  · simp only [exact_.mem_iff, symbolAt_eq_some, List.mem_flatMap, mem_exportPlaces,
      OrderedMap.get?_eq_some_iff, Prod.exists]
    constructor
    · rintro ⟨s, ⟨e, present, at_⟩, named⟩
      exact ⟨p.document, e, present, rfl, s, at_, named⟩
    · rintro ⟨d, e, present, rfl, s, at_, named⟩
      exact ⟨s, ⟨e, present, at_⟩, named⟩

/-- The places among the exports of a document lead to the symbols of the name. -/
theorem filterMap_exportPlaces {i : WorkspaceIndex} {d : DocumentId} {e : IndexEntry}
    (present : i.documents.get? d = some e) (name : String) :
    (exportPlaces d e.exports name).filterMap i.symbolAt = e.exports.lookup name := by
  let named := e.exports.symbols.zipIdx.filter (·.1.name == name)
  calc (exportPlaces d e.exports name).filterMap i.symbolAt
      = named.filterMap (some ∘ Prod.fst) := by
        rw [exportPlaces, List.filterMap_map]
        refine List.filterMap_congr fun x member => ?_
        obtain ⟨inside, -⟩ := List.mem_filter.mp member
        exact symbolAt_eq_some.mpr ⟨e, present, List.mem_zipIdx_iff_getElem?.mp inside⟩
    _ = (e.exports.symbols.zipIdx.map Prod.fst).filter (·.name == name) := by
        rw [List.filterMap_eq_map, List.filter_map]
        rfl
    _ = e.exports.lookup name := by rw [List.zipIdx_map_fst, ExportSet.lookup]

/-! ## Look-ups -/

/-- The map that an index stands for. -/
def exportMap (i : WorkspaceIndex) : ExportMap := i.documents.mapValues (·.exports)

theorem get?_exportMap (i : WorkspaceIndex) (d : DocumentId) :
    i.exportMap.get? d = i.exportsOf d :=
  OrderedMap.get?_mapValues ..

theorem values_exportMap (i : WorkspaceIndex) :
    i.exportMap.values = i.documents.values.map (·.exports) := by
  simp only [exportMap, OrderedMap.mapValues, OrderedMap.values, List.map_map]
  rfl

theorem lookup_exportMap_eq_search (i : WorkspaceIndex) (name : String) :
    i.exportMap.lookup name = i.search (· == name) := by
  rw [ExportMap.lookup, values_exportMap, List.flatMap_map]
  rfl

section Exact

variable {i : WorkspaceIndex} (exact_ : i.Exact)
include exact_

theorem Exact.lookup_eq (name : String) : i.lookup name = i.exportMap.lookup name := by
  show (placesIn i.byName name).filterMap i.symbolAt = _
  rw [exact_.placesIn_eq, List.filterMap_flatMap, ExportMap.lookup, values_exportMap,
    OrderedMap.values, List.map_map, List.flatMap_map]
  refine List.flatMap_congr fun e member => ?_
  exact filterMap_exportPlaces (OrderedMap.get?_eq_some_iff.mpr member) name

/-- The places of a name that belong to one document. -/
theorem Exact.filter_placesIn {d : DocumentId} {e : IndexEntry}
    (present : i.documents.get? d = some e) (name : String) :
    (placesIn i.byName name).filter (·.document == d) = exportPlaces d e.exports name := by
  refine OrderedMap.eq_of_mem_iff (R := fun p q => ExportPlace.before p q = true)
    ExportPlace.not_before_self (fun _ _ _ => ExportPlace.before_trans)
    ((exact_.tidy.ascending name).filter _) (ascending_exportPlaces d e.exports name) fun p => ?_
  rw [List.mem_filter, exact_.mem_iff, mem_exportPlaces, beq_iff_eq]
  constructor
  · rintro ⟨⟨s, at_, named⟩, rfl⟩
    obtain ⟨e', found, inside⟩ := symbolAt_eq_some.mp at_
    rw [present] at found
    cases found
    exact ⟨rfl, s, inside, named⟩
  · rintro ⟨rfl, s, inside, named⟩
    exact ⟨⟨s, symbolAt_eq_some.mpr ⟨e, present, inside⟩, named⟩, rfl⟩

theorem Exact.contribution_eq (d : DocumentId) (name : String) :
    i.contribution d name = i.exportMap.lookupIn d name := by
  rw [ExportMap.lookupIn, get?_exportMap, exportsOf, contribution]
  cases present : i.documents.get? d with
  | none =>
      have absent : (placesIn i.byName name).filter (·.document == d) = [] := by
        refine List.filter_eq_nil_iff.mpr fun p member same => ?_
        obtain ⟨s, at_, -⟩ := exact_.mem_iff.mp member
        obtain ⟨e, found, -⟩ := symbolAt_eq_some.mp at_
        rw [eq_of_beq same, present] at found
        cases found
      rw [absent]
      rfl
  | some e =>
      rw [exact_.filter_placesIn present, filterMap_exportPlaces present]
      rfl

/-- The table has an entry for a name iff some document exports it. -/
theorem Exact.exists_places_iff (name : String) :
    (∃ places, i.byName.get? name = some places) ↔
      ∃ d e, i.exportMap.get? d = some e ∧ name ∈ e.names := by
  have somewhere : (∃ places, i.byName.get? name = some places) ↔
      ∃ p, p ∈ placesIn i.byName name := by
    unfold placesIn
    cases entry : i.byName.get? name with
    | none => simp
    | some places =>
        have inhabited : places ≠ [] := fun none => exact_.tidy.nonempty name (none ▸ entry)
        simpa using List.exists_mem_of_ne_nil places inhabited
  rw [somewhere]
  simp only [exact_.mem_iff, symbolAt_eq_some, get?_exportMap, exportsOf, Option.map_eq_some_iff]
  constructor
  · rintro ⟨p, s, ⟨e, present, at_⟩, named⟩
    exact ⟨p.document, e.exports, ⟨e, present, rfl⟩,
      List.mem_map.mpr ⟨s, List.mem_of_getElem? at_, named⟩⟩
  · rintro ⟨d, -, ⟨e, present, rfl⟩, exported⟩
    obtain ⟨s, member, named⟩ := List.mem_map.mp exported
    obtain ⟨k, at_⟩ := List.mem_iff_getElem?.mp member
    exact ⟨⟨d, k⟩, s, ⟨e, present, at_⟩, named⟩

end Exact

/-! ## Operations -/

/-- An index stands for a map: its table is exact, and its documents export what the map says. -/
structure Refines (i : WorkspaceIndex) (m : ExportMap) : Prop where
  isExact : i.Exact
  exportMap : i.exportMap = m

theorem refines_empty : empty.Refines ∅ := ⟨exact_empty, rfl⟩

theorem Refines.perform {i : WorkspaceIndex} {m : ExportMap} (refines : i.Refines m)
    (op : IndexOperation) : (i.perform op).Refines (m.perform op) := by
  obtain ⟨exact_, rfl⟩ := refines
  cases op with
  | upsert exports =>
      refine ⟨exact_.upsert exports, OrderedMap.ext_get? fun d => ?_⟩
      rw [get?_exportMap, exportsOf, WorkspaceIndex.perform, get?_upsert, ExportMap.perform,
        OrderedMap.get?_insert, get?_exportMap, exportsOf]
      split <;> rfl
  | remove document =>
      refine ⟨exact_.unlink document, OrderedMap.ext_get? fun d => ?_⟩
      rw [get?_exportMap, exportsOf, WorkspaceIndex.perform, remove, get?_unlink,
        ExportMap.perform, OrderedMap.get?_erase, get?_exportMap, exportsOf]
      split <;> rfl
  | markInvalid document =>
      refine ⟨exact_.markInvalid document, OrderedMap.ext_get? fun d => ?_⟩
      rw [get?_exportMap, WorkspaceIndex.perform, exportsOf_markInvalid, ← get?_exportMap]
      rfl

theorem Refines.run {i : WorkspaceIndex} {m : ExportMap} (refines : i.Refines m)
    (ops : List IndexOperation) : (i.run ops).Refines (m.run ops) := by
  induction ops generalizing i m with
  | nil => exact refines
  | cons op rest ih => exact ih (refines.perform op)

theorem Refines.contribution_perform {i : WorkspaceIndex} {m : ExportMap} (refines : i.Refines m)
    (op : IndexOperation) {d : DocumentId} (other : d ≠ op.document) (name : String) :
    (i.perform op).contribution d name = i.contribution d name := by
  have next := refines.perform op
  rw [next.isExact.contribution_eq, refines.isExact.contribution_eq, next.exportMap,
    refines.exportMap, ExportMap.lookupIn, ExportMap.lookupIn, ExportMap.get?_perform m op other]

/-- After any run, an index answers as the map of the export sets that are present: a look-up
concatenates what they export under the name, and so does the search for the name. The table has
an entry for just the exported names, with ascending places that all lead to a symbol of the
name. Replacing an export set yields the names of the former one. What a look-up owes to a
document is what the document exports, and only operations on that document change it. -/
theorem run_refines (ops : List IndexOperation) :
    (∀ d, (empty.run ops).exportsOf d = (ExportMap.run ∅ ops).get? d) ∧
      (∀ name, (empty.run ops).lookup name = (ExportMap.run ∅ ops).lookup name ∧
        (empty.run ops).lookup name = (empty.run ops).search (· == name)) ∧
      (∀ name, (∃ places, (empty.run ops).byName.get? name = some places) ↔
        ∃ d e, (ExportMap.run ∅ ops).get? d = some e ∧ name ∈ e.names) ∧
      (∀ name places, (empty.run ops).byName.get? name = some places →
        places.Pairwise (fun p q => p.before q = true) ∧
          ∀ p ∈ places, ∃ s, (empty.run ops).symbolAt p = some s ∧ s.name = name) ∧
      (∀ exports, ((empty.run ops).upsert exports).1 =
        (((ExportMap.run ∅ ops).get? exports.document).map (·.names)).getD []) ∧
      (∀ d name, (empty.run ops).contribution d name = (ExportMap.run ∅ ops).lookupIn d name) ∧
      ∀ op d name, d ≠ op.document →
        ((empty.run ops).perform op).contribution d name =
          (empty.run ops).contribution d name := by
  have refines := refines_empty.run ops
  have exact_ := refines.isExact
  have same := refines.exportMap
  have exports (d : DocumentId) : (empty.run ops).exportsOf d = (ExportMap.run ∅ ops).get? d := by
    rw [← same, get?_exportMap]
  refine ⟨exports, fun name => ⟨?_, ?_⟩, fun name => ?_, fun name places entry => ?_,
    fun e => ?_, fun d name => ?_,
    fun op d name other => refines.contribution_perform op other name⟩
  · rw [exact_.lookup_eq, same]
  · rw [exact_.lookup_eq, lookup_exportMap_eq_search]
  · rw [exact_.exists_places_iff, same]
  · have listed : placesIn (empty.run ops).byName name = places := by rw [placesIn, entry]; rfl
    exact ⟨listed ▸ exact_.tidy.ascending name, fun p member =>
      exact_.mem_iff.mp (listed.symm ▸ member)⟩
  · rw [← exports, upsert, exportedNames, exportsOf, Option.map_map]
    rfl
  · rw [exact_.contribution_eq, same]

/-- Two documents export `a`, one of them twice; its exports are replaced while they are those of
an earlier text. -/
def replacedWhileInvalid : List IndexOperation :=
  let exports (d : DocumentId) (names : List String) : ExportSet :=
    ⟨d, "", names.zipIdx.map fun x => ⟨x.1, .classType, true, .declared d x.2, .empty 0, none⟩⟩
  [.upsert (exports 2 ["a", "b", "a"]), .upsert (exports 1 ["a"]), .markInvalid 2,
    .upsert (exports 2 ["c", "a", "a"])]

theorem run_refines_replacedWhileInvalid :
    (empty.run replacedWhileInvalid).byName.get? "a" = some [⟨1, 0⟩, ⟨2, 1⟩, ⟨2, 2⟩] ∧
      (∀ p ∈ [⟨1, 0⟩, ⟨2, 1⟩, (⟨2, 2⟩ : ExportPlace)],
        ∃ s, (empty.run replacedWhileInvalid).symbolAt p = some s ∧ s.name = "a") ∧
      2 ≠ (IndexOperation.remove 1).document ∧
      ((empty.run replacedWhileInvalid).perform (.remove 1)).contribution 2 "a" =
        (empty.run replacedWhileInvalid).contribution 2 "a" := by
  have entry : (empty.run replacedWhileInvalid).byName.get? "a" =
      some [⟨1, 0⟩, ⟨2, 1⟩, ⟨2, 2⟩] := by decide +kernel
  obtain ⟨-, -, -, places, -, -, others⟩ := run_refines replacedWhileInvalid
  exact ⟨entry, (places "a" _ entry).2, by decide, others (.remove 1) 2 "a" (by decide)⟩

end WorkspaceIndex

end BbjAnalysis
