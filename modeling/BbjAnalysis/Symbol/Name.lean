import BbjAnalysis.Java.Name
import BbjAnalysis.Symbol.Basic
import BbjAnalysis.Text.Blank

/-! # Canonical names

A declaration and the references to it have one canonical name. Labels are the same in
every letter case; all other names tell cases apart and keep their type mark, so that
`name` and `name$` are two variables. A leading `#` marks the access to a field
and is no part of the name.
-/

namespace BbjAnalysis

/-- A text without its first character, if that is `#`. -/
def withoutHash (raw : String) : String :=
  match raw.toList with
  | '#' :: rest => String.ofList rest
  | _ => raw

/-- The name by which what is written as `raw` is declared and found, as a symbol of the given
kind. -/
def canonicalName (raw : String) (kind : SymbolKind) : String :=
  let bare := withoutHash (Blank.trim raw)
  match kind with
  | .label => bare.toLower
  | .externalClass => Java.simpleName bare
  | _ => bare

/-- Names of the primitive types. -/
def primitiveTypes : List String :=
  ["void", "boolean", "byte", "char", "short", "int", "long", "float", "double"]

/-- Whether a type is there without a declaration: a primitive one, in any letter case, or one
of the runtime's own. -/
def isBuiltinType (name : String) : Bool :=
  primitiveTypes.contains name.toLower || "BBj".toList.isPrefixOf name.toList ||
    "BBJ".toList.isPrefixOf name.toList

/-- Functions of the program have names that begin with `fn`; other calls are of built-in
functions. -/
def isProcedureName (name : String) : Bool :=
  match name.toList with
  | f :: n :: _ :: _ => f.toLower == 'f' && n.toLower == 'n'
  | _ => false

end BbjAnalysis
