import BbjAnalysis.Text.Span

/-! # Expressions

Expressions and the lists of arguments and options in them. Every node has an
identity of its own within the document and the span it was read from.
-/

namespace BbjAnalysis

/-- What every node has: an identity and the span of text it was read from. -/
structure Node where
  id : NodeId
  span : Span
deriving DecidableEq

/-- An identifier as written. -/
structure Ident where
  id : NodeId
  text : String
  span : Span
deriving DecidableEq

/-- The name of a type, simple or dotted. Array suffixes belong to the source and not to
the name. -/
structure TypeRef where
  id : NodeId
  segments : List String
  span : Span
deriving DecidableEq

namespace TypeRef

/-- Dotted names always mean Java classes. -/
def isQualified (t : TypeRef) : Bool := 1 < t.segments.length

/-- The name as written, the segments joined by dots. -/
def text (t : TypeRef) : String := ".".intercalate t.segments

/-- The last segment. -/
def simpleName (t : TypeRef) : String := t.segments.getLast?.getD ""

end TypeRef

inductive UnaryOp where
  | neg
  | plus
deriving DecidableEq

inductive BinaryOp where
  | or
  | and
  | eq
  | notEq
  | lt
  | ltEq
  | gt
  | gtEq
  | add
  | sub
  | mul
  | div
  | pow
deriving DecidableEq

/-- The higher, the tighter an operator binds. -/
def BinaryOp.precedence : BinaryOp → Nat
  | .or => 1
  | .and => 2
  | .eq | .notEq | .lt | .ltEq | .gt | .gtEq => 3
  | .add | .sub => 4
  | .mul | .div => 5
  | .pow => 6

/-- The lowest precedence that the right operand of an operator may have: powers group to
the right, all else to the left. -/
def BinaryOp.rightPrecedence (op : BinaryOp) : Nat :=
  if op = .pow then op.precedence else op.precedence + 1

/-- A `key=value` pair in a list of options or arguments. -/
structure Keyed (ε : Type) where
  id : NodeId
  key : Ident
  value : ε
  span : Span

inductive Expr where
  | number (node : Node) (text : String)
  /-- A string literal; `text` is what it stands for. -/
  | str (node : Node) (text : String)
  | var (node : Node) (name : Ident)
  /-- A field of the object itself, `#name`. -/
  | field (node : Node) (name : Ident)
  /-- A call of a function, or a part of a string variable: `fnadd(1,2)`, `a$(1,2)`. -/
  | call (node : Node) (callee : Ident) (args : List Expr) (options : List (Keyed Expr))
  | methodCall (node : Node) (receiver : Expr) (name : Ident) (args : List Expr)
      (options : List (Keyed Expr))
  | member (node : Node) (receiver : Expr) (name : Ident)
  | index (node : Node) (base : Expr) (indices : List Expr)
  | new (node : Node) (type : TypeRef) (args : List Expr) (options : List (Keyed Expr))
  | unary (node : Node) (op : UnaryOp) (operand : Expr)
  | binary (node : Node) (op : BinaryOp) (lhs rhs : Expr)
  /-- A predefined branch target, `*next` and its like. -/
  | starLabel (node : Node) (name : Ident)
  | paren (node : Node) (inner : Expr)
  /-- Stands where an expression was expected and none was found. -/
  | missing (node : Node)

/-- An option of a statement or call, `key=value`. -/
abbrev StatementOption := Keyed Expr

namespace Expr

def node : Expr → Node
  | number n _ | str n _ | var n _ | field n _ | call n _ _ _ | methodCall n _ _ _ _
  | member n _ _ | index n _ _ | new n _ _ _ | unary n _ _ | binary n _ _ _ | starLabel n _
  | paren n _ | missing n => n

def id (e : Expr) : NodeId := e.node.id

def span (e : Expr) : Span := e.node.span

end Expr

end BbjAnalysis
