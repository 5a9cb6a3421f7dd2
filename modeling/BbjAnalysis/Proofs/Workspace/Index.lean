import BbjAnalysis.Proofs.Renaming.Basic
import BbjAnalysis.Workspace.Index
import Mathlib.Data.List.Basic

/-! # The table of names

The table of names is kept beside the documents of an index and changed with them. It is
exact (`Exact`): a place stands under a name iff the document exports a symbol of that
name there, the places under a name ascend, and no name is without places. Every
operation keeps the table exact, so that an index is known by its documents
(`Exact.ext_documents`), and so is every look-up (`Exact.lookup_rename`).
-/

namespace BbjAnalysis

namespace ExportPlace

theorem before_iff {a b : ExportPlace} :
    a.before b = true ↔
      a.document < b.document ∨ a.document = b.document ∧ a.position < b.position := by
  simp [before]

theorem not_before_self (a : ExportPlace) : ¬ a.before a = true := by
  rw [before_iff]
  rintro (less | ⟨-, less⟩)
  · exact Nat.lt_irrefl _ less
  · exact Nat.lt_irrefl _ less

theorem before_trans {a b c : ExportPlace} (first : a.before b = true)
    (second : b.before c = true) : a.before c = true := by
  rw [before_iff] at *
  rcases first with less | ⟨same, less⟩ <;> rcases second with less' | ⟨same', less'⟩
  · exact .inl (Nat.lt_trans less less')
  · exact .inl (same' ▸ less)
  · exact .inl (same ▸ less')
  · exact .inr ⟨same.trans same', Nat.lt_trans less less'⟩

theorem before_of_not_before {a b : ExportPlace} (not : ¬ a.before b = true) (ne : a ≠ b) :
    b.before a = true := by
  have different : a.document = b.document → a.position ≠ b.position := by
    intro documents positions
    exact ne (by cases a; cases b; simp_all)
  rw [before_iff, not_or, not_and] at not
  rw [before_iff]
  rcases Nat.lt_trichotomy b.document a.document with less | same | less
  · exact .inl less
  · exact .inr ⟨same, by have := not.2 same.symm; have := different same.symm; omega⟩
  · exact absurd less not.1

theorem before_rename {σ : DocumentId → DocumentId} (mono : StrictMono σ) {a b : ExportPlace}
    (before : a.before b = true) : (a.rename σ).before (b.rename σ) = true := by
  rw [before_iff] at *
  rcases before with less | ⟨same, less⟩
  · exact .inl (mono less)
  · exact .inr ⟨congrArg σ same, less⟩

end ExportPlace

namespace WorkspaceIndex

/-- The places under a name in a table, none if the name is not there. -/
def placesIn (names : OrderedMap String (List ExportPlace)) (name : String) : List ExportPlace :=
  (names.get? name).getD []

/-- Places ascend, and no name is without places. -/
structure Tidy (names : OrderedMap String (List ExportPlace)) : Prop where
  ascending : ∀ name, (placesIn names name).Pairwise fun p q => p.before q = true
  nonempty : ∀ name, names.get? name ≠ some []

/-! ## Taking places out -/

theorem placesIn_unlinkName (d : DocumentId) (names : OrderedMap String (List ExportPlace))
    (name other : String) :
    placesIn (unlinkName d names name) other =
      if other = name then (placesIn names other).filter (·.document != d)
      else placesIn names other := by
  unfold placesIn unlinkName
  cases present : names.get? name with
  | none =>
      by_cases same : other = name
      · rw [if_pos same, same, present]
        rfl
      · rw [if_neg same]
  | some places =>
      dsimp only
      cases kept : places.filter (·.document != d) with
      | nil =>
          simp only [OrderedMap.get?_erase]
          by_cases same : other = name
          · rw [if_pos same, if_pos same, same, present, Option.getD_some, kept]
            rfl
          · rw [if_neg same, if_neg same]
      | cons first rest =>
          simp only [OrderedMap.get?_insert]
          by_cases same : other = name
          · rw [if_pos same, if_pos same, same, present, Option.getD_some, Option.getD_some, kept]
          · rw [if_neg same, if_neg same]

theorem Tidy.unlinkName {names : OrderedMap String (List ExportPlace)} (tidy : Tidy names)
    (d : DocumentId) (name : String) : Tidy (unlinkName d names name) where
  ascending other := by
    rw [placesIn_unlinkName]
    split
    · exact (tidy.ascending other).filter _
    · exact tidy.ascending other
  nonempty other := by
    unfold WorkspaceIndex.unlinkName
    split
    · exact tidy.nonempty other
    · split
      · rw [OrderedMap.get?_erase]
        split
        · intro empty
          cases empty
        · exact tidy.nonempty other
      · next kept =>
          rw [OrderedMap.get?_insert]
          split
          · exact fun same => kept (Option.some.inj same)
          · exact tidy.nonempty other

theorem placesIn_foldl_unlinkName (d : DocumentId) (l : List String)
    (names : OrderedMap String (List ExportPlace)) (name : String) :
    placesIn (l.foldl (unlinkName d) names) name =
      if name ∈ l then (placesIn names name).filter (·.document != d)
      else placesIn names name := by
  induction l generalizing names with
  | nil => simp
  | cons first rest ih =>
      rw [List.foldl_cons, ih, placesIn_unlinkName]
      by_cases same : name = first <;> by_cases later : name ∈ rest <;>
        simp [same, later, List.filter_filter]

theorem Tidy.foldl_unlinkName (d : DocumentId) (l : List String)
    {names : OrderedMap String (List ExportPlace)} (tidy : Tidy names) :
    Tidy (l.foldl (WorkspaceIndex.unlinkName d) names) := by
  induction l generalizing names with
  | nil => exact tidy
  | cons first rest ih => exact ih (tidy.unlinkName d first)

/-! ## Putting places in -/

theorem mem_insertPlace {p q : ExportPlace} {l : List ExportPlace} :
    q ∈ insertPlace p l ↔ q = p ∨ q ∈ l := by
  induction l with
  | nil => simp [insertPlace]
  | cons r rest ih =>
      unfold insertPlace
      split
      · simp only [List.mem_cons, ih]
        exact or_left_comm
      · simp only [List.mem_cons]

theorem ascending_insertPlace {p : ExportPlace} {l : List ExportPlace} (absent : p ∉ l)
    (ascending : l.Pairwise fun p q => p.before q = true) :
    (insertPlace p l).Pairwise fun p q => p.before q = true := by
  induction l with
  | nil => exact List.pairwise_singleton _ _
  | cons q rest ih =>
      obtain ⟨heads, tail⟩ := List.pairwise_cons.mp ascending
      unfold insertPlace
      split
      · next less =>
          refine .cons (fun r member => ?_) (ih (fun c => absent (.tail _ c)) tail)
          rcases mem_insertPlace.mp member with rfl | member
          · exact less
          · exact heads r member
      · next notLess =>
          have first : p.before q = true :=
            ExportPlace.before_of_not_before notLess (fun same => absent (same ▸ .head _))
          refine .cons (fun r member => ?_) ascending
          rcases List.mem_cons.mp member with rfl | member
          · exact first
          · exact ExportPlace.before_trans first (heads r member)

theorem placesIn_linkSymbol (d : DocumentId) (names : OrderedMap String (List ExportPlace))
    (symbol : Symbol × Nat) (name : String) :
    placesIn (linkSymbol d names symbol) name =
      if name = symbol.1.name then insertPlace ⟨d, symbol.2⟩ (placesIn names name)
      else placesIn names name := by
  simp only [placesIn, linkSymbol, OrderedMap.get?_insert]
  split
  · next same => rw [same]; rfl
  · rfl

theorem Tidy.linkSymbol {names : OrderedMap String (List ExportPlace)} (tidy : Tidy names)
    {d : DocumentId} {symbol : Symbol × Nat}
    (absent : ⟨d, symbol.2⟩ ∉ placesIn names symbol.1.name) :
    Tidy (linkSymbol d names symbol) where
  ascending name := by
    rw [placesIn_linkSymbol]
    split
    · next same =>
        subst same
        exact ascending_insertPlace absent (tidy.ascending _)
    · exact tidy.ascending name
  nonempty name := by
    rw [WorkspaceIndex.linkSymbol, OrderedMap.get?_insert]
    split
    · intro empty
      have member : ⟨d, symbol.2⟩ ∈ ([] : List ExportPlace) :=
        Option.some.inj empty ▸ mem_insertPlace.mpr (.inl rfl)
      cases member
    · exact tidy.nonempty name

theorem mem_placesIn_foldl_linkSymbol {d : DocumentId} {l : List (Symbol × Nat)}
    {names : OrderedMap String (List ExportPlace)} {name : String} {p : ExportPlace} :
    p ∈ placesIn (l.foldl (linkSymbol d) names) name ↔
      p ∈ placesIn names name ∨ ∃ x ∈ l, x.1.name = name ∧ p = ⟨d, x.2⟩ := by
  induction l generalizing names with
  | nil => simp
  | cons x rest ih =>
      rw [List.foldl_cons, ih, placesIn_linkSymbol]
      by_cases same : name = x.1.name
      · simp only [same, if_true, mem_insertPlace, List.mem_cons, exists_eq_or_imp, true_and]
        rw [or_comm (a := p = _), or_assoc]
      · simp only [same, if_false, List.mem_cons, exists_eq_or_imp, Ne.symm same, false_and,
          false_or]

/-- The places are new: all places of the document that are there already stand before the ones
that are put in. -/
theorem Tidy.foldl_linkSymbol {d : DocumentId} (l : List Symbol) (k : Nat)
    {names : OrderedMap String (List ExportPlace)} (tidy : Tidy names)
    (earlier : ∀ name p, p ∈ placesIn names name → p.document = d → p.position < k) :
    Tidy ((l.zipIdx k).foldl (WorkspaceIndex.linkSymbol d) names) := by
  induction l generalizing names k with
  | nil => exact tidy
  | cons s rest ih =>
      rw [List.zipIdx_cons, List.foldl_cons]
      have absent : ⟨d, k⟩ ∉ placesIn names s.name := by
        intro member
        exact Nat.lt_irrefl k (earlier _ _ member rfl)
      refine ih (k + 1) (tidy.linkSymbol absent) fun name p member same => ?_
      rw [placesIn_linkSymbol] at member
      split at member
      · rcases mem_insertPlace.mp member with rfl | member
        · exact Nat.lt_succ_self k
        · exact Nat.lt_succ_of_lt (earlier _ _ member same)
      · exact Nat.lt_succ_of_lt (earlier _ _ member same)

/-! ## Exact tables -/

/-- The table of names says what the documents export, and nothing else. -/
structure Exact (i : WorkspaceIndex) : Prop where
  document_eq : ∀ {d e}, i.documents.get? d = some e → e.exports.document = d
  mem_iff : ∀ {name p}, p ∈ placesIn i.byName name ↔ ∃ s, i.symbolAt p = some s ∧ s.name = name
  tidy : Tidy i.byName

theorem symbolAt_eq_some {i : WorkspaceIndex} {p : ExportPlace} {s : Symbol} :
    i.symbolAt p = some s ↔
      ∃ e, i.documents.get? p.document = some e ∧ e.exports.symbols[p.position]? = some s := by
  simp only [symbolAt, exportsOf, Option.bind_eq_some_iff, Option.map_eq_some_iff]
  constructor
  · rintro ⟨_, ⟨e, present, rfl⟩, at_⟩
    exact ⟨e, present, at_⟩
  · rintro ⟨e, present, at_⟩
    exact ⟨_, ⟨e, present, rfl⟩, at_⟩

theorem exact_empty : empty.Exact where
  document_eq present := by cases present
  mem_iff {name p} := by
    constructor
    · intro member
      cases member
    · rintro ⟨s, at_, -⟩
      cases at_
  tidy := ⟨fun _ => .nil, fun _ => nofun⟩

theorem get?_unlink (i : WorkspaceIndex) (d x : DocumentId) :
    (i.unlink d).documents.get? x = if x = d then none else i.documents.get? x := by
  unfold unlink
  split
  · next absent =>
      split
      · next same => rw [same, absent]
      · rfl
  · rw [OrderedMap.get?_erase]

/-- In an exact table, the places of a document stand under the names that it exports. -/
theorem Exact.placesIn_unlink {i : WorkspaceIndex} (exact_ : i.Exact) (d : DocumentId)
    (name : String) :
    placesIn (i.unlink d).byName name = (placesIn i.byName name).filter (·.document != d) := by
  have untouched (absent : ∀ s p, i.symbolAt p = some s → s.name = name → p.document ≠ d) :
      (placesIn i.byName name).filter (·.document != d) = placesIn i.byName name := by
    refine List.filter_eq_self.mpr fun p member => ?_
    obtain ⟨s, at_, named⟩ := exact_.mem_iff.mp member
    simpa using absent s p at_ named
  unfold unlink
  cases present : i.documents.get? d with
  | none =>
      refine (untouched fun s p at_ _ same => ?_).symm
      obtain ⟨e, found, -⟩ := symbolAt_eq_some.mp at_
      rw [same, present] at found
      cases found
  | some entry =>
      dsimp only
      rw [placesIn_foldl_unlinkName]
      split
      · rfl
      · next notExported =>
          refine (untouched fun s p at_ named same => ?_).symm
          obtain ⟨e, found, inside⟩ := symbolAt_eq_some.mp at_
          rw [same, present] at found
          cases found
          exact notExported (named ▸ List.mem_map_of_mem (List.mem_of_getElem? inside))

theorem symbolAt_unlink (i : WorkspaceIndex) (d : DocumentId) (p : ExportPlace) :
    (i.unlink d).symbolAt p = if p.document = d then none else i.symbolAt p := by
  simp only [symbolAt, exportsOf, get?_unlink]
  split <;> rfl

theorem Exact.unlink {i : WorkspaceIndex} (exact_ : i.Exact) (d : DocumentId) :
    (i.unlink d).Exact where
  document_eq {x e} present := by
    rw [get?_unlink] at present
    split at present
    · cases present
    · exact exact_.document_eq present
  mem_iff {name p} := by
    rw [exact_.placesIn_unlink, List.mem_filter, exact_.mem_iff, symbolAt_unlink]
    by_cases same : p.document = d <;> simp [same]
  tidy := by
    unfold WorkspaceIndex.unlink
    split
    · exact exact_.tidy
    · exact exact_.tidy.foldl_unlinkName d _

theorem Exact.link {i : WorkspaceIndex} (exact_ : i.Exact) (exports : ExportSet) (valid : Bool)
    (absent : i.documents.get? exports.document = none) : (i.link exports valid).Exact where
  document_eq {x e} present := by
    rw [WorkspaceIndex.link, OrderedMap.get?_insert] at present
    split at present
    · next same =>
        cases present
        exact same.symm
    · exact exact_.document_eq present
  mem_iff {name p} := by
    have others : i.symbolAt p = none ∨ p.document ≠ exports.document := by
      by_cases same : p.document = exports.document
      · exact .inl (by simp [symbolAt, exportsOf, same, absent])
      · exact .inr same
    rw [WorkspaceIndex.link, mem_placesIn_foldl_linkSymbol, exact_.mem_iff]
    simp only [symbolAt_eq_some, OrderedMap.get?_insert, List.mem_zipIdx_iff_getElem?]
    obtain ⟨d, k⟩ := p
    by_cases same : d = exports.document
    · subst same
      simp [absent]
    · simp [same]
  tidy := by
    refine exact_.tidy.foldl_linkSymbol exports.symbols 0 fun name p member same => ?_
    obtain ⟨s, at_, -⟩ := exact_.mem_iff.mp member
    obtain ⟨e, present, -⟩ := symbolAt_eq_some.mp at_
    rw [same, absent] at present
    cases present

theorem get?_upsert (i : WorkspaceIndex) (exports : ExportSet) (x : DocumentId) :
    (i.upsert exports).2.documents.get? x =
      if x = exports.document then some ⟨exports, true⟩ else i.documents.get? x := by
  rw [upsert, link, OrderedMap.get?_insert]
  split
  · rfl
  · next other => rw [get?_unlink, if_neg other]

theorem Exact.upsert {i : WorkspaceIndex} (exact_ : i.Exact) (exports : ExportSet) :
    (i.upsert exports).2.Exact :=
  (exact_.unlink _).link exports true (by rw [get?_unlink, if_pos rfl])

theorem get?_markInvalid (i : WorkspaceIndex) (d x : DocumentId) :
    (i.markInvalid d).documents.get? x =
      if x = d then (i.documents.get? x).map fun e => { e with valid := false }
      else i.documents.get? x := by
  rw [markInvalid, OrderedMap.get?_adjust]
  split
  · next same => rw [same]
  · rfl

theorem exportsOf_markInvalid (i : WorkspaceIndex) (d x : DocumentId) :
    (i.markInvalid d).exportsOf x = i.exportsOf x := by
  rw [exportsOf, get?_markInvalid, exportsOf]
  split
  · rw [Option.map_map]
    rfl
  · rfl

theorem Exact.markInvalid {i : WorkspaceIndex} (exact_ : i.Exact) (d : DocumentId) :
    (i.markInvalid d).Exact where
  document_eq {x e} present := by
    rw [get?_markInvalid] at present
    split at present
    · obtain ⟨e', found, rfl⟩ := Option.map_eq_some_iff.mp present
      exact exact_.document_eq (e := e') found
    · exact exact_.document_eq present
  mem_iff {name p} := by
    have same : (i.markInvalid d).symbolAt p = i.symbolAt p := by
      rw [symbolAt, exportsOf_markInvalid, symbolAt]
    rw [same]
    exact exact_.mem_iff
  tidy := exact_.tidy

/-! ## What an exact index is known by -/

theorem Exact.ext_documents {i j : WorkspaceIndex} (exact_ : i.Exact) (exact_' : j.Exact)
    (documents : i.documents = j.documents) : i = j := by
  have symbols (p : ExportPlace) : i.symbolAt p = j.symbolAt p := by
    simp only [symbolAt, exportsOf, documents]
  have places (name : String) : placesIn i.byName name = placesIn j.byName name := by
    refine OrderedMap.eq_of_mem_iff (R := fun p q => ExportPlace.before p q = true)
      ExportPlace.not_before_self (fun _ _ _ => ExportPlace.before_trans)
      (exact_.tidy.ascending name) (exact_'.tidy.ascending name) fun p => ?_
    rw [exact_.mem_iff, exact_'.mem_iff, symbols]
  have names : i.byName = j.byName := by
    refine OrderedMap.ext_get? fun name => ?_
    have same := places name
    unfold placesIn at same
    cases left : i.byName.get? name with
    | none =>
        cases right : j.byName.get? name with
        | none => rfl
        | some l =>
            rw [left, right] at same
            exact absurd (right.trans (congrArg some same.symm)) (exact_'.tidy.nonempty name)
    | some l =>
        cases right : j.byName.get? name with
        | none =>
            rw [left, right] at same
            exact absurd (left.trans (congrArg some same)) (exact_.tidy.nonempty name)
        | some l' =>
            rw [left, right] at same
            exact congrArg some same
  cases i
  cases j
  simp_all

/-- What is found under a name follows from the symbols of that name: if those of one index are
the renamed ones of the other, then so are the findings, in the same order. -/
theorem Exact.lookup_rename {i j : WorkspaceIndex} (exact_ : i.Exact) (exact_' : j.Exact)
    {σ : DocumentId → DocumentId} (mono : StrictMono σ) {name : String}
    (forth : ∀ p s, i.symbolAt p = some s → s.name = name →
      j.symbolAt (p.rename σ) = some (s.rename σ))
    (back : ∀ q t, j.symbolAt q = some t → t.name = name →
      ∃ p s, q = p.rename σ ∧ i.symbolAt p = some s ∧ s.name = name) :
    j.lookup name = (i.lookup name).map (.rename σ) := by
  -- Both lists ascend, so that it is enough to compare their members.
  have places : placesIn j.byName name = (placesIn i.byName name).map (.rename σ) := by
    refine OrderedMap.eq_of_mem_iff (R := fun p q => ExportPlace.before p q = true)
      ExportPlace.not_before_self (fun _ _ _ => ExportPlace.before_trans)
      (exact_'.tidy.ascending name)
      (List.pairwise_map.mpr ((exact_.tidy.ascending name).imp fun before =>
        ExportPlace.before_rename mono before)) fun q => ?_
    rw [exact_'.mem_iff, List.mem_map]
    constructor
    · rintro ⟨t, at_, named⟩
      obtain ⟨p, s, rfl, inside, named⟩ := back q t at_ named
      exact ⟨p, exact_.mem_iff.mpr ⟨s, inside, named⟩, rfl⟩
    · rintro ⟨p, member, rfl⟩
      obtain ⟨s, inside, named⟩ := exact_.mem_iff.mp member
      exact ⟨s.rename σ, forth p s inside named, named⟩
  show (placesIn j.byName name).filterMap j.symbolAt =
    ((placesIn i.byName name).filterMap i.symbolAt).map (.rename σ)
  rw [places, List.filterMap_map, List.map_filterMap]
  refine List.filterMap_congr fun p member => ?_
  obtain ⟨s, inside, named⟩ := exact_.mem_iff.mp member
  rw [Function.comp_apply, forth p s inside named, inside]
  rfl

theorem Exact.mem_lookup {i : WorkspaceIndex} (exact_ : i.Exact) {name : String} {s : Symbol} :
    s ∈ i.lookup name ↔ ∃ p, i.symbolAt p = some s ∧ s.name = name := by
  show s ∈ (placesIn i.byName name).filterMap i.symbolAt ↔ _
  rw [List.mem_filterMap]
  constructor
  · rintro ⟨p, member, at_⟩
    obtain ⟨t, inside, named⟩ := exact_.mem_iff.mp member
    rw [at_] at inside
    cases inside
    exact ⟨p, at_, named⟩
  · rintro ⟨p, at_, named⟩
    exact ⟨p, exact_.mem_iff.mpr ⟨s, at_, named⟩, at_⟩

end WorkspaceIndex

end BbjAnalysis
