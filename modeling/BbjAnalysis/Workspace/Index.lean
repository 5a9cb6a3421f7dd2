import BbjAnalysis.Ordered.Map
import BbjAnalysis.Symbol.Basic

/-! # The index of a workspace

What every document of a workspace exports, by document and by name. A document whose
latest text could not be read keeps what it exported before, and is marked as not
valid. The table of names is kept beside the documents, and changed with them.
-/

namespace BbjAnalysis

structure IndexEntry where
  exports : ExportSet
  /-- Whether the exports belong to the latest text of the document. -/
  valid : Bool
deriving DecidableEq

/-- An exported symbol by its document and its place among the exports of the document. -/
structure ExportPlace where
  document : DocumentId
  position : Nat
deriving DecidableEq

/-- By document, then by position. -/
def ExportPlace.before (a b : ExportPlace) : Bool :=
  a.document < b.document || (a.document == b.document && a.position < b.position)

structure WorkspaceIndex where
  documents : OrderedMap DocumentId IndexEntry
  /-- The places of every exported name, in order; no name is without places. -/
  byName : OrderedMap String (List ExportPlace)
deriving DecidableEq

namespace WorkspaceIndex

def empty : WorkspaceIndex := ⟨∅, ∅⟩

/-- Puts a place into an ordered list of places. -/
def insertPlace (p : ExportPlace) : List ExportPlace → List ExportPlace
  | [] => [p]
  | q :: rest => if q.before p then q :: insertPlace p rest else p :: q :: rest

/-- Takes the places of a document from under a name, and the name too if none are left. -/
def unlinkName (document : DocumentId) (names : OrderedMap String (List ExportPlace))
    (name : String) : OrderedMap String (List ExportPlace) :=
  match names.get? name with
  | none => names
  | some places =>
      match places.filter (·.document != document) with
      | [] => names.erase name
      | kept => names.insert name kept

/-- The index without a document. -/
def unlink (i : WorkspaceIndex) (document : DocumentId) : WorkspaceIndex :=
  match i.documents.get? document with
  | none => i
  | some entry =>
      ⟨i.documents.erase document, entry.exports.names.foldl (unlinkName document) i.byName⟩

/-- Puts the place of an exported symbol under its name. -/
def linkSymbol (document : DocumentId) (names : OrderedMap String (List ExportPlace))
    (symbol : Symbol × Nat) : OrderedMap String (List ExportPlace) :=
  names.insert symbol.1.name
    (insertPlace ⟨document, symbol.2⟩ ((names.get? symbol.1.name).getD []))

/-- The index with the exports of a document that is not in it. -/
def link (i : WorkspaceIndex) (exports : ExportSet) (valid : Bool) : WorkspaceIndex :=
  ⟨i.documents.insert exports.document ⟨exports, valid⟩,
    exports.symbols.zipIdx.foldl (linkSymbol exports.document) i.byName⟩

/-- The names that a document exports, one for each symbol. -/
def exportedNames (i : WorkspaceIndex) (document : DocumentId) : Option (List String) :=
  (i.documents.get? document).map (·.exports.names)

/-- Replaces what a document exports, and yields the names it exported before. -/
def upsert (i : WorkspaceIndex) (exports : ExportSet) : List String × WorkspaceIndex :=
  ((i.exportedNames exports.document).getD [], (i.unlink exports.document).link exports true)

/-- Drops a document, and yields the names it exported if it was there. -/
def remove (i : WorkspaceIndex) (document : DocumentId) :
    Option (List String) × WorkspaceIndex :=
  (i.exportedNames document, i.unlink document)

/-- Marks the exports of a document as those of an earlier text. -/
def markInvalid (i : WorkspaceIndex) (document : DocumentId) : WorkspaceIndex :=
  { i with documents := i.documents.adjust document fun e => { e with valid := false } }

def isValid (i : WorkspaceIndex) (document : DocumentId) : Option Bool :=
  (i.documents.get? document).map (·.valid)

def exportsOf (i : WorkspaceIndex) (document : DocumentId) : Option ExportSet :=
  (i.documents.get? document).map (·.exports)

def uriOf (i : WorkspaceIndex) (document : DocumentId) : Option String :=
  (i.exportsOf document).map (·.uri)

/-- The symbol at a place. -/
def symbolAt (i : WorkspaceIndex) (p : ExportPlace) : Option Symbol :=
  (i.exportsOf p.document).bind (·.symbols[p.position]?)

/-- The exported symbols of a name, by document and then in the order of declaration. -/
def lookup (i : WorkspaceIndex) (name : String) : List Symbol :=
  ((i.byName.get? name).getD []).filterMap i.symbolAt

/-- All exported symbols whose name passes a test, in the order of `lookup`. -/
def search (i : WorkspaceIndex) (p : String → Bool) : List Symbol :=
  i.documents.values.flatMap fun e => e.exports.symbols.filter fun s => p s.name

def size (i : WorkspaceIndex) : Nat := i.documents.size

end WorkspaceIndex

end BbjAnalysis
