import BbjAnalysis.Program.Statement
import BbjAnalysis.Scope.Tree
import BbjAnalysis.Symbol.Name

/-! # Finding scopes, exports and references

One walk over a program opens its scopes, declares what is declared in them, and notes
every name that stands for something else. A variable is declared by its first
assignment; every later one is a reference to it.
-/

namespace BbjAnalysis

/-- What the walk over one document yields. -/
structure DocumentScopes where
  exports : ExportSet
  tree : ScopeTree
  references : List ReferenceSite
deriving DecidableEq

/-- Option keys whose value is a branch target. -/
def branchOptionKeys : List String := ["err", "end", "dom"]

def isBranchOption (o : StatementOption) : Bool := branchOptionKeys.contains o.key.text.toLower

/-- Where the walk is: in which scope, and whether the innermost class around it extends
another one. -/
structure Surroundings where
  scope : ScopeId
  classHasSupertype : Bool

/-- What the walk has found so far. -/
structure Findings where
  tree : ScopeTree
  exports : List Symbol
  references : List ReferenceSite
  /-- The texts whose canonical name was asked for, the latest first. -/
  asked : List String

namespace Findings

/-- Declares `raw` in a scope. The detail is told in the tree alone. -/
def declare (f : Findings) (scope : ScopeId) (raw : String) (kind : SymbolKind) (node : NodeId)
    (span : Span) (exported : Bool) (detail : Option String) : Findings :=
  let symbol : Symbol :=
    ⟨canonicalName raw kind, kind, exported, .declared f.tree.document node, span, none⟩
  { f with
    tree := f.tree.declare scope { symbol with detail := detail }
    exports := if exported then f.exports ++ [symbol] else f.exports
    asked := raw :: f.asked }

/-- Declares an identifier in a scope. -/
def declareIdent (f : Findings) (scope : ScopeId) (name : Ident) (kind : SymbolKind)
    (exported : Bool) : Findings :=
  f.declare scope name.text kind name.id name.span exported none

/-- Notes a reference by the canonical name of its text. -/
def refer (f : Findings) (s : Surroundings) (node : NodeId) (text : String) (span : Span)
    (kind : ReferenceKind) : Findings :=
  { f with
    references := f.references ++
      [⟨node, text, canonicalName text kind.nameKind, span, kind, s.scope⟩]
    asked := text :: f.asked }

def referIdent (f : Findings) (s : Surroundings) (name : Ident) (kind : ReferenceKind) :
    Findings :=
  f.refer s name.id name.text name.span kind

/-- Notes a reference to a Java class, whose name stands as it is. -/
def referJava (f : Findings) (s : Surroundings) (type : TypeRef) : Findings :=
  { f with
    references := f.references ++
      [⟨type.id, type.text, type.text, type.span, .javaClass, s.scope⟩] }

/-- Notes a type name, unless the type is built in. -/
def referType (f : Findings) (s : Surroundings) (type : TypeRef) : Findings :=
  if type.isQualified then f.referJava s type
  else if isBuiltinType type.text then f
  else f.refer s type.id type.text type.span .type

/-- Declares a variable by its first assignment, or notes a reference to it. -/
def assignVariable (f : Findings) (s : Surroundings) (name : Ident) : Findings :=
  let asked := { f with asked := name.text :: f.asked }
  if f.tree.seesVariable s.scope (canonicalName name.text .variable) then
    asked.referIdent s name .variable
  else asked.declareIdent (f.tree.hoistTarget s.scope) name .variable false

/-- Opens a scope; its place is the former number of scopes. -/
def openScope (f : Findings) (s : Surroundings) (kind : ScopeKind) (owner : Node) : Findings :=
  { f with tree := f.tree.openScope kind s.scope owner.id owner.span }

end Findings

/-- The surroundings inside of a scope that is opened next. -/
def Surroundings.inside (s : Surroundings) (f : Findings) : Surroundings :=
  { s with scope := f.tree.scopes.size }

mutual

def collectExpr (s : Surroundings) (f : Findings) : Expr → Findings
  | .var _ name => f.referIdent s name .variable
  | .field _ name => f.referIdent s name (.field s.classHasSupertype)
  | .call _ callee args options =>
      let f :=
        if isProcedureName callee.text then f.referIdent s callee .procedure
        else if callee.text.toList.getLast? = some '$' then f.referIdent s callee .variable
        else f
      collectOptions s (collectExprs s f args) options
  | .methodCall _ receiver _ args options =>
      collectOptions s (collectExprs s (collectExpr s f receiver) args) options
  | .member _ receiver _ => collectExpr s f receiver
  | .index _ base indices => collectExprs s (collectExpr s f base) indices
  | .new _ type args options => collectOptions s (collectExprs s (f.referType s type) args) options
  | .unary _ _ operand => collectExpr s f operand
  | .binary _ _ lhs rhs => collectExpr s (collectExpr s f lhs) rhs
  | .paren _ inner => collectExpr s f inner
  | .number _ _ | .str _ _ | .starLabel _ _ | .missing _ => f

def collectExprs (s : Surroundings) (f : Findings) : List Expr → Findings
  | [] => f
  | e :: rest => collectExprs s (collectExpr s f e) rest

/-- A bare variable as the value of a branch option is the name of a label. -/
def collectOptions (s : Surroundings) (f : Findings) : List StatementOption → Findings
  | [] => f
  | ⟨id, key, value, span⟩ :: rest =>
      let f := match value with
        | .var _ name =>
            if isBranchOption ⟨id, key, value, span⟩ then f.referIdent s name .label
            else collectExpr s f value
        | _ => collectExpr s f value
      collectOptions s f rest

end

def collectOptional (s : Surroundings) (f : Findings) : Option Expr → Findings
  | some e => collectExpr s f e
  | none => f

def collectTypes (s : Surroundings) (f : Findings) (types : List TypeRef) : Findings :=
  types.foldl (fun f type => f.referType s type) f

/-- Declares parameters in the scope of their procedure, each behind its type. -/
def collectParams (s : Surroundings) (f : Findings) (params : List Param) : Findings :=
  params.foldl (fun f param =>
    (collectTypes s f param.type.toList).declareIdent s.scope param.name .variable false) f

/-- What is declared and referred to ahead of the body of a statement, if it has one. -/
def collectHead (s : Surroundings) (f : Findings) : Statement → Findings
  | .label _ name =>
      let target := f.tree.hoistTarget s.scope
      f.declareIdent target name .label (target == ScopeTree.moduleId)
  | .rem _ | .terminate _ _ => f
  | .assign _ _ target value =>
      let f := collectExpr s f value
      match target with
      | .var name => f.assignVariable s name
      | .field name => f.referIdent s name (.field s.classHasSupertype)
  | .declare _ _ type name => (f.referType s type).declareIdent s.scope name .variable false
  | .globals _ names =>
      names.foldl (fun f name => f.declareIdent ScopeTree.moduleId name .variable true) f
  | .useJava node type =>
      (f.referJava s type).declare ScopeTree.moduleId type.text .externalClass node.id type.span
        false (some type.text)
  | .useClass node path name =>
      (f.referIdent s name (.classImport path)).declare ScopeTree.moduleId name.text .classType
        node.id name.span false path
  | .classDecl _ head _ =>
      (collectTypes s (collectTypes s f head.supertypes) head.interfaces).declareIdent s.scope
        head.name .classType (head.modifier == some .isPublic && s.scope == ScopeTree.moduleId)
  | .fieldDecl _ d =>
      (collectOptional s (f.referType s d.type) d.init).declareIdent s.scope d.name .field false
  | .method _ head _ =>
      (collectTypes s f head.returnType.toList).declareIdent s.scope head.name .procedure false
  | .procedure _ head _ | .inlineProcedure _ head _ =>
      f.declareIdent s.scope head.name .procedure
        (head.isPublic && s.scope == ScopeTree.moduleId)
  | .jump _ _ selector targets =>
      targets.foldl (fun f target => f.referIdent s target .label) (collectOptional s f selector)
  | .openFile _ file =>
      collectOptional s (collectOptions s (collectExpr s f file.channel) file.options) file.path
  | .keyedFile _ file => collectOptions s (collectExprs s f file.args) file.options
  | .print _ items => collectExprs s f items
  | .branch _ condition _ _ | .whileLoop _ condition _ => collectExpr s f condition
  | .forLoop _ head _ _ =>
      (collectOptional s (collectExpr s (collectExpr s f head.first) head.last)
        head.step).assignVariable s head.loopVariable
  | .ret _ value => collectOptional s f value
  | .expr _ value => collectExpr s f value

mutual

def collectStatement (s : Surroundings) (f : Findings) : Statement → Findings
  | st@(.classDecl node head members) =>
      let f := collectHead s f st
      collectStatements { s.inside f with classHasSupertype := !head.supertypes.isEmpty }
        (f.openScope s .classBody node) members
  | st@(.method node head body) =>
      let f := collectHead s f st
      collectStatements (s.inside f)
        (collectParams (s.inside f) (f.openScope s .procedure node) head.params) body
  | st@(.procedure node head body) =>
      let f := collectHead s f st
      collectStatements (s.inside f)
        (collectParams (s.inside f) (f.openScope s .procedure node) head.params) body
  | st@(.inlineProcedure node head body) =>
      let f := collectHead s f st
      collectExpr (s.inside f)
        (collectParams (s.inside f) (f.openScope s .procedure node) head.params) body
  | st@(.branch node _ thenBranch elseBranch) =>
      let f := collectBlock s (collectHead s f st) node thenBranch
      match elseBranch with
      | [] => f
      | first :: _ => collectBlock s f ⟨first.id, node.span⟩ elseBranch
  | st@(.forLoop node _ body next) =>
      let f := collectBlock s (collectHead s f st) node body
      match next with
      | some name => f.referIdent s name .variable
      | none => f
  | st@(.whileLoop node _ body) => collectBlock s (collectHead s f st) node body
  | st@(.label _ _) | st@(.rem _) | st@(.assign _ _ _ _) | st@(.declare _ _ _ _)
  | st@(.globals _ _) | st@(.useJava _ _) | st@(.useClass _ _ _) | st@(.fieldDecl _ _)
  | st@(.jump _ _ _ _) | st@(.openFile _ _) | st@(.keyedFile _ _) | st@(.print _ _)
  | st@(.ret _ _) | st@(.terminate _ _) | st@(.expr _ _) => collectHead s f st

def collectStatements (s : Surroundings) (f : Findings) : List Statement → Findings
  | [] => f
  | st :: rest => collectStatements s (collectStatement s f st) rest

/-- A block without statements opens no scope. -/
def collectBlock (s : Surroundings) (f : Findings) (owner : Node) : List Statement → Findings
  | [] => f
  | st :: rest =>
      collectStatements (s.inside f) (collectStatement (s.inside f) (f.openScope s .block owner) st)
        rest

end

/-- The walk over a whole program. -/
def collect (document : DocumentId) (p : Program) : Findings :=
  collectStatements ⟨ScopeTree.moduleId, false⟩
    ⟨ScopeTree.ofModule document Program.rootId p.span, [], [], []⟩ p.statements

/-- The scopes, exports and references of a program. -/
def computeScopes (document : DocumentId) (uri : String) (p : Program) : DocumentScopes :=
  let f := collect document p
  ⟨⟨document, uri, f.exports⟩, f.tree, f.references⟩

end BbjAnalysis
