import BbjAnalysis.Link.Candidates
import BbjAnalysis.Link.Links
import BbjAnalysis.Proofs.Ordered.Map

/-! # Renaming documents

The identities of documents are replaced along a function, in everything that
mentions them. Only symbols from documents mention any: what the Java catalog knows
belongs to no document and stays as it is.
-/

namespace BbjAnalysis

def Origin.rename (σ : DocumentId → DocumentId) : Origin → Origin
  | .declared document node => .declared (σ document) node
  | .external qualifiedName => .external qualifiedName

def Symbol.rename (σ : DocumentId → DocumentId) (s : Symbol) : Symbol :=
  { s with origin := s.origin.rename σ }

namespace Symbol

variable (σ : DocumentId → DocumentId) (s : Symbol)

@[simp] theorem name_rename : (s.rename σ).name = s.name := rfl

@[simp] theorem kind_rename : (s.rename σ).kind = s.kind := rfl

@[simp] theorem span_rename : (s.rename σ).span = s.span := rfl

@[simp] theorem document_rename : (s.rename σ).document = s.document.map σ := by
  unfold document rename
  cases s.origin <;> rfl

@[simp] theorem node_rename : (s.rename σ).node = s.node := by
  unfold node rename
  cases s.origin <;> rfl

theorem rename_of_document_eq_none {s : Symbol} (external : s.document = none) :
    s.rename σ = s := by
  obtain ⟨name, kind, exported, origin, span, detail⟩ := s
  cases origin with
  | declared d node => exact absurd external (Option.some_ne_none d)
  | external qualifiedName => rfl

theorem rename_id : s.rename id = s := by
  obtain ⟨name, kind, exported, origin, span, detail⟩ := s
  cases origin <;> rfl

end Symbol

def ExportSet.rename (σ : DocumentId → DocumentId) (e : ExportSet) : ExportSet :=
  ⟨σ e.document, e.uri, e.symbols.map (.rename σ)⟩

theorem ExportSet.rename_id (e : ExportSet) : e.rename id = e := by
  have symbols : e.symbols.map (Symbol.rename id) = e.symbols := by
    rw [funext Symbol.rename_id, List.map_id']
  simp only [rename, symbols]
  rfl

theorem ExportSet.lookup_rename (σ : DocumentId → DocumentId) (e : ExportSet) (name : String) :
    (e.rename σ).lookup name = (e.lookup name).map (.rename σ) := by
  simp only [lookup, rename, List.filter_map]
  rfl

def IndexEntry.rename (σ : DocumentId → DocumentId) (e : IndexEntry) : IndexEntry :=
  { e with exports := e.exports.rename σ }

def ExportPlace.rename (σ : DocumentId → DocumentId) (p : ExportPlace) : ExportPlace :=
  { p with document := σ p.document }

def ScopeTree.rename (σ : DocumentId → DocumentId) (t : ScopeTree) : ScopeTree :=
  { t with document := σ t.document, symbols := t.symbols.map (.rename σ) }

namespace ScopeTree

variable (σ : DocumentId → DocumentId) (t : ScopeTree)

@[simp] theorem scopes_rename : (t.rename σ).scopes = t.scopes := rfl

@[simp] theorem chain_rename (fuel : Nat) (id : ScopeId) :
    (t.rename σ).chain fuel id = t.chain fuel id := by
  induction fuel generalizing id with
  | zero => rfl
  | succ fuel ih =>
      simp only [chain, scopes_rename]
      cases t.scopes[id]? with
      | none => rfl
      | some scope =>
          cases parent : scope.parent with
          | none => simp only [parent]
          | some outer => simp only [parent, ih]

@[simp] theorem ancestors_rename (id : ScopeId) :
    (t.rename σ).ancestors id = t.ancestors id := chain_rename σ t _ id

@[simp] theorem kindOf_rename (id : ScopeId) : (t.rename σ).kindOf id = t.kindOf id := rfl

@[simp] theorem hoistTarget_rename (id : ScopeId) :
    (t.rename σ).hoistTarget id = t.hoistTarget id := by
  simp only [hoistTarget, ancestors_rename]
  rfl

theorem rename_id : t.rename id = t := by
  have symbols : t.symbols.map (Symbol.rename id) = t.symbols := by
    rw [funext Symbol.rename_id, Array.map_id']
  simp only [rename, symbols]
  rfl

theorem getElem?_symbols_rename (i : Nat) :
    (t.rename σ).symbols[i]? = t.symbols[i]?.map (.rename σ) := Array.getElem?_map

theorem lookupLocal_rename (id : ScopeId) (name : String) :
    (t.rename σ).lookupLocal id name = (t.lookupLocal id name).map (.rename σ) := by
  simp only [lookupLocal, scopes_rename]
  cases t.scopes[id]? with
  | none => rfl
  | some scope => simp only [List.map_filterMap, getElem?_symbols_rename]

theorem upToHoistTarget_rename (ids : List ScopeId) :
    (t.rename σ).upToHoistTarget ids = t.upToHoistTarget ids := by
  induction ids with
  | nil => rfl
  | cons id rest ih =>
      simp only [upToHoistTarget, ih]
      rfl

@[simp] theorem seesVariable_rename (id : ScopeId) (name : String) :
    (t.rename σ).seesVariable id name = t.seesVariable id name := by
  simp only [seesVariable, ancestors_rename, upToHoistTarget_rename, lookupLocal_rename,
    List.any_map]
  rfl

end ScopeTree

def DocumentScopes.rename (σ : DocumentId → DocumentId) (d : DocumentScopes) : DocumentScopes :=
  ⟨d.exports.rename σ, d.tree.rename σ, d.references⟩

def Related.rename (σ : DocumentId → DocumentId) (r : Related) : Related :=
  { r with document := σ r.document }

def Diagnostic.rename (σ : DocumentId → DocumentId) (d : Diagnostic) : Diagnostic :=
  { d with document := σ d.document, related := d.related.map (.rename σ) }

namespace Diagnostic

variable {σ : DocumentId → DocumentId}

theorem rename_id (d : Diagnostic) : d.rename id = d := by
  have related : d.related.map (Related.rename id) = d.related := List.map_id' _
  simp only [rename, related]
  rfl

theorem rename_injective (injective : Function.Injective σ) :
    Function.Injective (Diagnostic.rename σ) := by
  have related : Function.Injective (Related.rename σ) := by
    rintro ⟨d, span, message⟩ ⟨d', span', message'⟩ same
    simpa only [Related.rename, Related.mk.injEq, injective.eq_iff] using same
  rintro ⟨d, node, part, span, severity, code, message, places⟩ ⟨d', node', part', span',
    severity', code', message', places'⟩ same
  simpa only [rename, mk.injEq, injective.eq_iff, List.map_inj_right related] using same

theorem order_rename (a b : Diagnostic) : (a.rename σ).order (b.rename σ) = a.order b := rfl

theorem sort_rename (l : List Diagnostic) :
    sort (l.map (.rename σ)) = (sort l).map (.rename σ) :=
  (List.map_mergeSort fun a _ b _ => by rw [order_rename]).symm

theorem dropRepeats_rename (injective : Function.Injective σ) (l : List Diagnostic) :
    dropRepeats (l.map (.rename σ)) = (dropRepeats l).map (.rename σ) := by
  induction l with
  | nil => rfl
  | cons a rest ih =>
      simp only [List.map_cons, dropRepeats, ih]
      cases dropRepeats rest with
      | nil => rfl
      | cons b kept =>
          simp only [List.map_cons, (rename_injective injective).eq_iff]
          split <;> rfl

/-- The order of listing does not look at documents. -/
theorem finish_rename (injective : Function.Injective σ) (l : List Diagnostic) :
    finish (l.map (.rename σ)) = (finish l).map (.rename σ) := by
  rw [finish, sort_rename, dropRepeats_rename injective]
  rfl

end Diagnostic

def Candidates.rename (σ : DocumentId → DocumentId) (c : Candidates) : Candidates :=
  { c with symbols := c.symbols.map (.rename σ) }

def Links.rename (σ : DocumentId → DocumentId) (l : Links) : Links where
  bindings := l.bindings.mapValues (.rename σ)
  unresolved := l.unresolved
  ambiguous := l.ambiguous.mapValues (List.map (.rename σ))
  workspaceNames := l.workspaceNames
  boundDocuments := l.boundDocuments.image σ
  diagnostics := l.diagnostics.map (.rename σ)

theorem Links.rename_id (l : Links) : l.rename id = l := by
  have lists (symbols : List Symbol) : symbols.map (Symbol.rename id) = symbols := by
    rw [funext Symbol.rename_id, List.map_id']
  have diagnostics : l.diagnostics.map (Diagnostic.rename id) = l.diagnostics := by
    rw [funext Diagnostic.rename_id, List.map_id']
  have documents : l.boundDocuments.image id = l.boundDocuments :=
    OrderedSet.image_of_fixed (fun _ => rfl) _
  simp only [rename, OrderedMap.mapValues_of_fixed Symbol.rename_id,
    OrderedMap.mapValues_of_fixed lists, documents, diagnostics]

end BbjAnalysis
