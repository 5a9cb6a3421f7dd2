import BbjAnalysis.Symbol.Basic

/-! # References

A reference is an identifier or type name that stands for something declared
elsewhere. Its position decides which kinds of symbols it may mean.
-/

namespace BbjAnalysis

/-- The place of a scope in its document's list of scopes; `0` is the module. -/
abbrev ScopeId := Nat

/-- The position of a reference. -/
inductive ReferenceKind where
  /-- A variable that is read or written. -/
  | variable
  /-- `#name`. Whether the class around it extends another one decides whether it may be
  inherited. -/
  | field (classHasSupertype : Bool)
  /-- The function of a call `fnname(...)`. -/
  | procedure
  /-- A type name without dots. -/
  | type
  /-- The class of a `use ::path::Class`. -/
  | classImport (path : Option String)
  /-- A dotted type name. -/
  | javaClass
  /-- The target of a jump or of a branch option. -/
  | label
deriving DecidableEq

namespace ReferenceKind

/-- The kinds of symbols that a reference in this position may mean. -/
def legalKinds : ReferenceKind → List SymbolKind
  | .variable => [.variable, .classType, .externalClass]
  | .field _ => [.field]
  | .procedure => [.procedure]
  | .type => [.classType, .externalClass]
  | .classImport _ => [.classType]
  | .javaClass => [.externalClass, .externalMember]
  | .label => [.label]

/-- The kind as which the name of the reference is made canonical. -/
def nameKind : ReferenceKind → SymbolKind
  | .variable => .variable
  | .field _ => .field
  | .procedure => .procedure
  | .type | .classImport _ => .classType
  | .javaClass => .externalMember
  | .label => .label

/-- The kind in the words of a message. -/
def display : ReferenceKind → String
  | .variable => "variable"
  | .field _ => "field"
  | .procedure => "procedure"
  | .type | .classImport _ => "class"
  | .javaClass => "Java class"
  | .label => "label"

end ReferenceKind

/-- A reference with the scope it stands in. -/
structure ReferenceSite where
  node : NodeId
  /-- The reference as written. -/
  text : String
  /-- The canonical name. -/
  name : String
  span : Span
  kind : ReferenceKind
  /-- The innermost scope around the reference. -/
  scope : ScopeId
deriving DecidableEq

namespace ReferenceSite

/-- Whether a symbol is of a kind that the reference may mean. -/
def accepts (site : ReferenceSite) (s : Symbol) : Bool := site.kind.legalKinds.contains s.kind

end ReferenceSite

end BbjAnalysis
