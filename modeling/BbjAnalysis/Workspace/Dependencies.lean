import BbjAnalysis.Ordered.Set
import BbjAnalysis.Text.Span

/-! # Dependencies between documents

A document depends on another one if a reference of it is bound into that document, or
if a name was looked up for it that the other document exports or has exported. The
dependencies are kept in both directions. What points at a document stays when the
document goes, so that those who depended on it can still be found.
-/

namespace BbjAnalysis

/-- What one document depends on. -/
structure Dependence where
  /-- The names that were looked up in the workspace for it. -/
  names : OrderedSet String
  /-- The documents that its references are bound into. -/
  targets : OrderedSet DocumentId
deriving DecidableEq

structure Dependencies where
  forward : OrderedMap DocumentId Dependence
  /-- Who looked a name up; no name is without users. -/
  byName : OrderedMap String (OrderedSet DocumentId)
  /-- Who is bound into a document; no target is without users. -/
  byTarget : OrderedMap DocumentId (OrderedSet DocumentId)

namespace Dependencies

def empty : Dependencies := ⟨∅, ∅, ∅⟩

section Users

variable {κ : Type} [LT κ] [LE κ] [DecidableLT κ] [Std.IsLinearOrder κ] [Std.LawfulOrderLT κ]

/-- Adds a user to what stands under a key. -/
def addUser (document : DocumentId) (users : OrderedMap κ (OrderedSet DocumentId)) (key : κ) :
    OrderedMap κ (OrderedSet DocumentId) :=
  users.insert key (((users.get? key).getD ∅).insert document)

/-- Takes a user from what stands under a key, and the key too if no user is left. -/
def dropUser (document : DocumentId) (users : OrderedMap κ (OrderedSet DocumentId)) (key : κ) :
    OrderedMap κ (OrderedSet DocumentId) :=
  match users.get? key with
  | none => users
  | some set =>
      let kept := set.erase document
      if kept.isEmpty then users.erase key else users.insert key kept

end Users

/-- Forgets what a document depends on. -/
def remove (g : Dependencies) (document : DocumentId) : Dependencies :=
  match g.forward.get? document with
  | none => g
  | some d =>
      ⟨g.forward.erase document, d.names.toList.foldl (dropUser document) g.byName,
        d.targets.toList.foldl (dropUser document) g.byTarget⟩

/-- Replaces what a document depends on. -/
def record (g : Dependencies) (document : DocumentId) (d : Dependence) : Dependencies :=
  let g := g.remove document
  ⟨g.forward.insert document d, d.names.toList.foldl (addUser document) g.byName,
    d.targets.toList.foldl (addUser document) g.byTarget⟩

/-- The other documents that depend on `changed`, as a target or by one of the names. -/
def dependents (g : Dependencies) (changed : DocumentId) (names : List String) :
    OrderedSet DocumentId :=
  let users (s : OrderedSet DocumentId) (name : String) : OrderedSet DocumentId :=
    s.union ((g.byName.get? name).getD ∅)
  (names.foldl users ((g.byTarget.get? changed).getD ∅)).erase changed

/-- The names that were looked up in the workspace for a document. -/
def workspaceNames (g : Dependencies) (document : DocumentId) : Option (OrderedSet String) :=
  (g.forward.get? document).map (·.names)

def size (g : Dependencies) : Nat := g.forward.size

end Dependencies

end BbjAnalysis
