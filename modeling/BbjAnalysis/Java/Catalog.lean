import BbjAnalysis.Java.Name
import BbjAnalysis.Ordered.Map
import BbjAnalysis.Symbol.Basic

/-! # The Java catalog

The classes that are known, by their qualified names, and what a qualified name means
among them: a class, or a member of the class that the name without its last piece
means. Anything that answers for qualified names can be asked; a fixed catalog is one
such source.
-/

namespace BbjAnalysis.Java

structure ClassInfo where
  qualifiedName : String
  fields : List String
  methods : List String
deriving DecidableEq

/-- Whether a field or method has the given name. -/
def ClassInfo.hasMember (c : ClassInfo) (name : String) : Bool :=
  (c.fields ++ c.methods).contains name

/-- What can be asked for classes by their qualified names. The same question always has the
same answer. -/
structure ClassSource where
  class? : String → Option ClassInfo

/-- Classes by their qualified names. -/
structure Catalog where
  classes : OrderedMap String ClassInfo

/-- What is known about a qualified name. -/
inductive Answer where
  | found (symbol : Symbol)
  | notFound
deriving DecidableEq

def Answer.symbol : Answer → Option Symbol
  | .found symbol => some symbol
  | .notFound => none

/-- A symbol of the catalog. -/
def externalSymbol (name : String) (kind : SymbolKind) (qualifiedName : String)
    (detail : Option String) : Symbol :=
  ⟨name, kind, true, .external qualifiedName, .empty 0, detail⟩

def classSymbol (c : ClassInfo) : Symbol :=
  externalSymbol (simpleName c.qualifiedName) .externalClass c.qualifiedName none

def memberSymbol (c : ClassInfo) (member : String) : Symbol :=
  externalSymbol member .externalMember (c.qualifiedName ++ "." ++ member) (some c.qualifiedName)

namespace Catalog

def empty : Catalog := ⟨∅⟩

/-- Classes put in one after the other; a later one replaces an earlier one of its name. -/
def ofList (l : List ClassInfo) : Catalog :=
  ⟨l.foldl (fun m c => m.insert c.qualifiedName c) ∅⟩

def size (c : Catalog) : Nat := c.classes.size

def isEmpty (c : Catalog) : Bool := c.classes.isEmpty

/-- The catalog as what can be asked. -/
def source (c : Catalog) : ClassSource := ⟨c.classes.get?⟩

instance : Coe Catalog ClassSource := ⟨source⟩

end Catalog

namespace ClassSource

/-- The source that knows no class. -/
def empty : ClassSource := Catalog.empty

/-- The owner and the member that a name may mean if it means no class. The owner has a dot
itself. -/
def memberReading (qualifiedName : String) : Option (String × String) :=
  (ownerAndMember qualifiedName).filter fun (owner, _) => owner.toList.contains '.'

/-- What a qualified name means, and for which class names the source was asked, in order. A
malformed name means nothing, and the source is not asked. -/
def query (c : ClassSource) (qualifiedName : String) : Answer × List String :=
  if isQualifiedName qualifiedName then
    match c.class? qualifiedName with
    | some info => (.found (classSymbol info), [qualifiedName])
    | none =>
        match memberReading qualifiedName with
        | some (owner, member) =>
            let answer := match c.class? owner with
              | some info =>
                  if info.hasMember member then .found (memberSymbol info member) else .notFound
              | none => .notFound
            (answer, [qualifiedName, owner])
        | none => (.notFound, [qualifiedName])
  else (.notFound, [])

end ClassSource

end BbjAnalysis.Java
