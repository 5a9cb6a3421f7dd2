import BbjAnalysis.Scope.Reference

/-! # Scopes

The scopes of a document are regions of its text, one inside the other, with the
symbols declared in them. Scopes and symbols are listed in the order of their
opening and declaration; a scope names its parent and its symbols by their places in
those lists, and a parent comes before what it holds.
-/

namespace BbjAnalysis

inductive ScopeKind where
  | module
  | classBody
  | procedure
  | block
deriving DecidableEq

/-- Whether variables without a declaration and labels belong to such a scope, and not to one
further out. -/
def ScopeKind.isHoistTarget : ScopeKind → Bool
  | .module | .procedure => true
  | .classBody | .block => false

/-- The place of a symbol in its document's list of symbols. -/
abbrev SymbolId := Nat

structure Scope where
  kind : ScopeKind
  parent : Option ScopeId
  /-- The node that opens the scope. -/
  owner : NodeId
  span : Span
  /-- The names declared here in the order of their first declarations, each with all its
  declarations in order. -/
  names : List (String × List SymbolId)
deriving DecidableEq

namespace Scope

/-- The symbols declared here under a name. -/
def lookup (s : Scope) (name : String) : List SymbolId := (s.names.lookup name).getD []

/-- Adds a declaration to a table of names. -/
def declareIn (name : String) (id : SymbolId) :
    List (String × List SymbolId) → List (String × List SymbolId)
  | [] => [(name, [id])]
  | (other, ids) :: rest =>
      if other = name then (other, ids ++ [id]) :: rest else (other, ids) :: declareIn name id rest

/-- The scope with one more declaration. -/
def declare (s : Scope) (name : String) (id : SymbolId) : Scope :=
  { s with names := declareIn name id s.names }

end Scope

structure ScopeTree where
  document : DocumentId
  scopes : Array Scope
  symbols : Array Symbol
deriving DecidableEq

namespace ScopeTree

/-- The scope of the module itself, which every tree has. -/
def moduleId : ScopeId := 0

/-- The tree of a document in which nothing is declared yet. -/
def ofModule (document : DocumentId) (owner : NodeId) (span : Span) : ScopeTree :=
  ⟨document, #[⟨.module, none, owner, span, []⟩], #[]⟩

/-- The latest scope that the node opens. -/
def scopeOf (t : ScopeTree) (owner : NodeId) : Option ScopeId :=
  (List.range t.scopes.size).reverse.find? fun i => t.scopes[i]?.any (·.owner == owner)

/-- A scope and the scopes around it up to the module, from `fuel` scopes at most. -/
def chain (t : ScopeTree) : Nat → ScopeId → List ScopeId
  | 0, _ => []
  | fuel + 1, id =>
      match t.scopes[id]? with
      | none => []
      | some scope =>
          match scope.parent with
          | some parent => id :: chain t fuel parent
          | none => [id]

/-- A scope and the scopes around it, innermost first. A parent comes before what it holds, so
that no chain is longer than the place of its first scope. -/
def ancestors (t : ScopeTree) (id : ScopeId) : List ScopeId := t.chain (id + 1) id

/-- The symbols declared in a scope under a name. -/
def lookupLocal (t : ScopeTree) (id : ScopeId) (name : String) : List Symbol :=
  match t.scopes[id]? with
  | some scope => (scope.lookup name).filterMap (t.symbols[·]?)
  | none => []

/-- The symbols under a name that a scope sees, innermost first. -/
def visible (t : ScopeTree) (id : ScopeId) (name : String) : List Symbol :=
  (t.ancestors id).flatMap (t.lookupLocal · name)

def kindOf (t : ScopeTree) (id : ScopeId) : Option ScopeKind := t.scopes[id]?.map (·.kind)

/-- Whether variables without a declaration and labels may belong to a scope. -/
def isHoistTarget (t : ScopeTree) (id : ScopeId) : Bool := (t.kindOf id).any (·.isHoistTarget)

/-- The nearest procedure around a scope, or the module. -/
def hoistTarget (t : ScopeTree) (id : ScopeId) : ScopeId :=
  ((t.ancestors id).find? t.isHoistTarget).getD moduleId

/-- The scopes of a chain up to the first one that may hold variables without a declaration. -/
def upToHoistTarget (t : ScopeTree) : List ScopeId → List ScopeId
  | [] => []
  | id :: rest => if t.isHoistTarget id then [id] else id :: t.upToHoistTarget rest

/-- Whether a scope sees a variable of the given name within its procedure, or within the module
if it is in none. -/
def seesVariable (t : ScopeTree) (id : ScopeId) (name : String) : Bool :=
  (t.upToHoistTarget (t.ancestors id)).any fun i =>
    (t.lookupLocal i name).any (·.kind == .variable)

/-- The tree with a new scope, whose place is the former number of scopes. -/
def openScope (t : ScopeTree) (kind : ScopeKind) (parent : ScopeId) (owner : NodeId)
    (span : Span) : ScopeTree :=
  { t with scopes := t.scopes.push ⟨kind, some parent, owner, span, []⟩ }

/-- The tree with a new symbol, declared in a scope. -/
def declare (t : ScopeTree) (id : ScopeId) (s : Symbol) : ScopeTree :=
  { t with
    scopes := t.scopes.modify id (·.declare s.name t.symbols.size)
    symbols := t.symbols.push s }

end ScopeTree

end BbjAnalysis
