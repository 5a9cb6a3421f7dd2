import BbjAnalysis.Text.Span

/-! # Symbols

A symbol is something that a name can mean: a declaration in a document, or a class or
member that the Java catalog knows. It points at its declaring node and never
holds it.
-/

namespace BbjAnalysis

inductive SymbolKind where
  | variable
  | procedure
  | classType
  | label
  | field
  | externalClass
  | externalMember
deriving DecidableEq

namespace SymbolKind

/-- The kind in the words of a message. -/
def display : SymbolKind → String
  | .variable => "variable"
  | .procedure => "procedure"
  | .classType => "class"
  | .label => "label"
  | .field => "field"
  | .externalClass => "Java class"
  | .externalMember => "Java member"

/-- Whether such symbols belong to the Java catalog. A `use` statement declares one in its
document too. -/
def isExternal : SymbolKind → Bool
  | .externalClass | .externalMember => true
  | _ => false

end SymbolKind

/-- Where a symbol comes from. -/
inductive Origin where
  | declared (document : DocumentId) (node : NodeId)
  | external (qualifiedName : String)
deriving DecidableEq

structure Symbol where
  /-- The canonical name. -/
  name : String
  kind : SymbolKind
  exported : Bool
  origin : Origin
  /-- The span of the declaring name, empty for what the catalog knows. -/
  span : Span
  /-- What else there is to say, such as the class that a `use` statement imports. -/
  detail : Option String
deriving DecidableEq

namespace Symbol

def document (s : Symbol) : Option DocumentId :=
  match s.origin with
  | .declared document _ => some document
  | .external _ => none

def node (s : Symbol) : Option NodeId :=
  match s.origin with
  | .declared _ node => some node
  | .external _ => none

end Symbol

/-- What one document lets the others see, in the order of declaration. -/
structure ExportSet where
  document : DocumentId
  uri : String
  symbols : List Symbol
deriving DecidableEq

namespace ExportSet

/-- The exported symbols with the given name. -/
def lookup (e : ExportSet) (name : String) : List Symbol := e.symbols.filter (·.name == name)

/-- The names of the exported symbols, one for each. -/
def names (e : ExportSet) : List String := e.symbols.map (·.name)

end ExportSet

end BbjAnalysis
