import BbjAnalysis.Program.Expr

/-! # Statements

A program is a list of statements, and so is the body of every statement that opens
a block.
-/

namespace BbjAnalysis

inductive Modifier where
  | isPublic
  | isProtected
  | isPrivate
deriving DecidableEq

/-- What an assignment writes to. -/
inductive AssignTarget where
  | var (name : Ident)
  /-- A field of the object itself, `#name = ...`. -/
  | field (name : Ident)
deriving DecidableEq

inductive JumpVerb where
  | goto
  | gosub
  | setErr
  | setEsc
deriving DecidableEq

/-- The word of the verb in capitals. -/
def JumpVerb.word : JumpVerb → String
  | .goto => "GOTO"
  | .gosub => "GOSUB"
  | .setErr => "SETERR"
  | .setEsc => "SETESC"

/-- The verbs that make keyed files. -/
inductive KeyedVerb where
  | mkeyed
  | vkeyed
  | xkeyed
deriving DecidableEq

/-- The word of the verb in capitals. -/
def KeyedVerb.word : KeyedVerb → String
  | .mkeyed => "MKEYED"
  | .vkeyed => "VKEYED"
  | .xkeyed => "XKEYED"

inductive TerminateVerb where
  | bye
  | finish
  | stop
  | release
deriving DecidableEq

/-- A parameter; those of methods have a type. -/
structure Param where
  id : NodeId
  type : Option TypeRef
  name : Ident
deriving DecidableEq

structure ClassHead where
  isInterface : Bool
  modifier : Option Modifier
  name : Ident
  supertypes : List TypeRef
  interfaces : List TypeRef
deriving DecidableEq

/-- A constructor has no return type. -/
structure MethodHead where
  modifier : Option Modifier
  isStatic : Bool
  returnType : Option TypeRef
  name : Ident
  params : List Param
deriving DecidableEq

structure ProcedureHead where
  isPublic : Bool
  name : Ident
  params : List Param
deriving DecidableEq

structure FieldDecl where
  modifier : Option Modifier
  isStatic : Bool
  type : TypeRef
  name : Ident
  init : Option Expr

/-- The channel, the options between the parentheses and the path behind them. The span of
the options is empty where there are none. -/
structure OpenFile where
  channel : Expr
  options : List StatementOption
  optionsSpan : Span
  path : Option Expr

/-- The positional arguments and the `key=value` options, each in source order. -/
structure KeyedFile where
  verb : KeyedVerb
  args : List Expr
  options : List StatementOption

/-- The options with the key `MODE`, in any case. -/
def KeyedFile.modeOptions (k : KeyedFile) : List StatementOption :=
  k.options.filter fun o => o.key.text.toLower == "mode"

structure ForHead where
  loopVariable : Ident
  first : Expr
  last : Expr
  step : Option Expr

inductive Statement where
  | label (node : Node) (name : Ident)
  | rem (node : Node)
  | assign (node : Node) (explicitLet : Bool) (target : AssignTarget) (value : Expr)
  | declare (node : Node) (auto : Bool) (type : TypeRef) (name : Ident)
  | globals (node : Node) (names : List Ident)
  /-- `use java.util.HashMap`. -/
  | useJava (node : Node) (type : TypeRef)
  /-- `use ::lib/util.bbj::Helper`. -/
  | useClass (node : Node) (path : Option String) (name : Ident)
  | classDecl (node : Node) (head : ClassHead) (members : List Statement)
  | fieldDecl (node : Node) (decl : FieldDecl)
  | method (node : Node) (head : MethodHead) (body : List Statement)
  /-- `def fntwice(x)` up to `fnend`. -/
  | procedure (node : Node) (head : ProcedureHead) (body : List Statement)
  /-- `def fnadd(a,b)=a+b`. -/
  | inlineProcedure (node : Node) (head : ProcedureHead) (body : Expr)
  /-- A jump to a label; with a selector, to one of several. -/
  | jump (node : Node) (verb : JumpVerb) (selector : Option Expr) (targets : List Ident)
  | openFile (node : Node) (file : OpenFile)
  | keyedFile (node : Node) (file : KeyedFile)
  | print (node : Node) (items : List Expr)
  | branch (node : Node) (condition : Expr) (thenBranch elseBranch : List Statement)
  | forLoop (node : Node) (head : ForHead) (body : List Statement) (next : Option Ident)
  | whileLoop (node : Node) (condition : Expr) (body : List Statement)
  | ret (node : Node) (value : Option Expr)
  | terminate (node : Node) (verb : TerminateVerb)
  | expr (node : Node) (value : Expr)

namespace Statement

def node : Statement → Node
  | label n _ | rem n | assign n _ _ _ | declare n _ _ _ | globals n _ | useJava n _
  | useClass n _ _ | classDecl n _ _ | fieldDecl n _ | method n _ _ | procedure n _ _
  | inlineProcedure n _ _ | jump n _ _ _ | openFile n _ | keyedFile n _ | print n _
  | branch n _ _ _ | forLoop n _ _ _ | whileLoop n _ _ | ret n _ | terminate n _
  | expr n _ => n

def id (s : Statement) : NodeId := s.node.id

def span (s : Statement) : Span := s.node.span

end Statement

/-- The statements of a document; its node has the identity `0` and spans the text. -/
structure Program where
  statements : List Statement
  span : Span

/-- The identity of the program's own node. -/
def Program.rootId : NodeId := 0

end BbjAnalysis
