import BbjAnalysis.Build.Builder

/-! # Finding declarations

Where what stands at a place of a text is declared, and which declarations a document
or the workspace has, all by line and column.
-/

namespace BbjAnalysis

/-- A declaration that a reference leads to. -/
structure Target where
  name : String
  kind : SymbolKind
  /-- `none` for what the Java catalog knows. -/
  document : Option DocumentId
  uri : Option String
  qualifiedName : Option String
  start : Position
  stop : Position
deriving DecidableEq

/-- A declaration in a document. -/
structure SymbolInfo where
  name : String
  kind : SymbolKind
  document : DocumentId
  uri : String
  start : Position
  stop : Position
deriving DecidableEq

/-- What a reference may mean by the links of its document: what it is bound to, or all
candidates if it is ambiguous. -/
def Links.meanings (l : Links) (node : NodeId) : List Symbol :=
  match l.bindings.get? node with
  | some symbol => [symbol]
  | none => (l.ambiguous.get? node).getD []

namespace Builder

/-- Start and end of a span of a document; the beginning of the text if it was never analysed. -/
def positions (b : Builder) (id : DocumentId) (span : Span) : Position × Position :=
  match b.analysedOf id with
  | some a => (a.lines.position span.start, a.lines.position span.stop)
  | none => (⟨0, 0⟩, ⟨0, 0⟩)

/-- The first reference that touches a place. -/
def referenceAt (b : Builder) (id : DocumentId) (place : Position) : Option ReferenceSite :=
  (b.analysedOf id).bind fun a =>
    (a.lines.offset? place).bind fun offset =>
      a.scopes.references.find? (·.span.touches offset)

/-- A symbol as the target of a reference. -/
def target (b : Builder) (s : Symbol) : Target :=
  match s.origin with
  | .declared document _ =>
      let (start, stop) := b.positions document s.span
      ⟨s.name, s.kind, some document, b.uriOf document, none, start, stop⟩
  | .external qualifiedName =>
      ⟨s.name, s.kind, none, none, some qualifiedName, ⟨0, 0⟩, ⟨0, 0⟩⟩

/-- The declarations of what stands at a place. -/
def definitionsAt (b : Builder) (id : DocumentId) (place : Position) : List Target :=
  match b.referenceAt id place, b.linksOf id with
  | some site, some links => (links.meanings site.node).map b.target
  | _, _ => []

/-- A symbol with its place, if it is declared in an open document. -/
def symbolInfo (b : Builder) (s : Symbol) : Option SymbolInfo :=
  s.document.bind fun document =>
    (b.uriOf document).map fun uri =>
      let (start, stop) := b.positions document s.span
      ⟨s.name, s.kind, document, uri, start, stop⟩

/-- The declarations of a document but its variables and parameters. -/
def documentSymbols (b : Builder) (id : DocumentId) : List SymbolInfo :=
  match b.analysedOf id with
  | some a => (a.scopes.tree.symbols.toList.filter (·.kind != .variable)).filterMap b.symbolInfo
  | none => []

end Builder

/-- The small letter of a letter, as far as names can hold it. Names are of ASCII characters, and
of the letters outside of ASCII the Kelvin sign alone has a small one among them. -/
def foldLetter (c : Char) : Char := if c = '\u212A' then 'k' else c.toLower

/-- Whether one text is a part of the other. -/
def isPartOf (part : List Char) : List Char → Bool
  | [] => part.isEmpty
  | c :: rest => part.isPrefixOf (c :: rest) || isPartOf part rest

/-- Whether a name has the letters of the query in it, in any case. -/
def matchesQuery (query name : String) : Bool :=
  isPartOf (query.toList.map foldLetter) (name.toList.map foldLetter)

/-- By name, then by document. -/
def SymbolInfo.order (a b : SymbolInfo) : Ordering :=
  (compare a.name b.name).then (compare a.document b.document)

/-- The exported symbols of all documents, those that match the query if there is one. -/
def Builder.workspaceSymbols (b : Builder) (query : Option String) : List SymbolInfo :=
  let found := b.index.search fun name => query.all (matchesQuery · name)
  (found.filterMap b.symbolInfo).mergeSort fun x y => (x.order y).isLE

end BbjAnalysis
