import BbjAnalysis.Java.Resolver
import BbjAnalysis.Scope.Collect
import BbjAnalysis.Workspace.Index

/-! # Candidates

Where the symbols that a reference may mean are looked for, one place after the other:
the scopes around it, the exports of its own document, the other documents of the
workspace, the Java catalog. The first place that has any decides.

Variables are looked for up to the procedure around them, fields in the nearest class
alone, and neither labels nor fields outside of their document. A `use ::path::Class`
asks the other documents alone, and a dotted name the Java catalog alone.
-/

namespace BbjAnalysis

/-- Where candidates were found. -/
inductive CandidateSource where
  | lexical
  | documentExports
  | workspace
  | java
deriving DecidableEq

structure Candidates where
  symbols : List Symbol
  source : Option CandidateSource
  /-- Whether the workspace was asked, with or without success. -/
  consultedWorkspace : Bool
deriving DecidableEq

/-- What one document is linked against. -/
structure LinkContext where
  document : DocumentId
  tree : ScopeTree
  exports : ExportSet
  index : WorkspaceIndex
  /-- Packages in which simple type names are looked for at last. -/
  packages : List String

/-- A path with the separators of one kind. -/
def unifySeparators (path : String) : String :=
  String.ofList (path.toList.map fun c => if c = '\\' then '/' else c)

/-- A path without the steps `./` at its front. -/
def withoutCurrentSteps : List Char → List Char
  | '.' :: '/' :: rest => withoutCurrentSteps rest
  | path => path

/-- Whether a document's URI ends with the path that a `use` statement names. -/
def uriMatches (uri path : String) : Bool :=
  let path := (unifySeparators (String.ofList (withoutCurrentSteps path.toList))).toList
  let uri := (unifySeparators uri).toList
  uri == path || ('/' :: path).isSuffixOf uri

/-- Whether a search that found nothing in a scope ends there. -/
def ReferenceKind.stopsAt : ReferenceKind → ScopeKind → Bool
  | .field _, .classBody => true
  | .variable, .procedure => true
  | _, _ => false

/-- Whether such references mean nothing outside of their document. -/
def ReferenceKind.staysInDocument : ReferenceKind → Bool
  | .label | .field _ => true
  | _ => false

/-- Whether a search looks into a scope: fields are looked for in classes alone. -/
def ReferenceKind.looksInto : ReferenceKind → ScopeKind → Bool
  | .field _, kind => kind == .classBody
  | _, _ => true

namespace LinkContext

/-- The legal symbols in the first of the given scopes that has any. -/
def lexicalIn (ctx : LinkContext) (site : ReferenceSite) : List ScopeId → List Symbol
  | [] => []
  | id :: rest =>
      let kind := (ctx.tree.kindOf id).getD .module
      if site.kind.looksInto kind then
        match (ctx.tree.lookupLocal id site.name).filter site.accepts with
        | [] => if site.kind.stopsAt kind then [] else ctx.lexicalIn site rest
        | found => found
      else ctx.lexicalIn site rest

/-- The legal symbols in the scopes around a reference. -/
def lexical (ctx : LinkContext) (site : ReferenceSite) : List Symbol :=
  ctx.lexicalIn site (ctx.tree.ancestors site.scope)

/-- The legal symbols among the exports of the document itself. -/
def ownExports (ctx : LinkContext) (site : ReferenceSite) : List Symbol :=
  (ctx.exports.lookup site.name).filter site.accepts

/-- Whether a symbol is in a document with a matching URI; symbols of no document are not
restricted. -/
def inFile (ctx : LinkContext) (path : Option String) (s : Symbol) : Bool :=
  match path, s.document with
  | some path, some document => (ctx.index.uriOf document).any (uriMatches · path)
  | _, _ => true

/-- The legal symbols that other documents export, those with a matching URI if a path is
given. -/
def inWorkspace (ctx : LinkContext) (site : ReferenceSite) (path : Option String) :
    List Symbol :=
  ((ctx.index.lookup site.name).filter site.accepts).filter fun s =>
    s.document != some ctx.document && ctx.inFile path s

/-- The class or member of the first package that has the text of the reference. -/
def inPackages (text : String) (r : Java.Resolver) : List String → Option Symbol × Java.Resolver
  | [] => (none, r)
  | package :: rest =>
      match r.resolve (package ++ "." ++ text) with
      | (.found symbol, r) => (some symbol, r)
      | (.notFound, r) => inPackages text r rest

/-- The candidates of a simple name that its own document does not declare, and the resolver after
the Java catalog was asked. -/
def candidatesOutside (ctx : LinkContext) (r : Java.Resolver) (site : ReferenceSite) :
    Candidates × Java.Resolver :=
  match ctx.inWorkspace site none with
  | [] =>
      if site.kind = .type then
        match inPackages site.text r ctx.packages with
        | (some symbol, r) => (⟨[symbol], some .java, true⟩, r)
        | (none, r) => (⟨[], none, true⟩, r)
      else (⟨[], none, true⟩, r)
  | found => (⟨found, some .workspace, true⟩, r)

/-- The candidates of a reference, and the resolver after the Java catalog was asked. -/
def candidates (ctx : LinkContext) (r : Java.Resolver) (site : ReferenceSite) :
    Candidates × Java.Resolver :=
  match site.kind with
  | .javaClass =>
      match r.resolve site.text with
      | (.found symbol, r) => (⟨[symbol], some .java, false⟩, r)
      | (.notFound, r) => (⟨[], none, false⟩, r)
  | .classImport path =>
      match ctx.inWorkspace site path with
      | [] => (⟨[], none, true⟩, r)
      | found => (⟨found, some .workspace, true⟩, r)
  | kind =>
      match ctx.lexical site with
      | [] =>
          match ctx.ownExports site with
          | [] =>
              if kind.staysInDocument then (⟨[], none, false⟩, r) else ctx.candidatesOutside r site
          | found => (⟨found, some .documentExports, false⟩, r)
      | found => (⟨found, some .lexical, false⟩, r)

end LinkContext

end BbjAnalysis
