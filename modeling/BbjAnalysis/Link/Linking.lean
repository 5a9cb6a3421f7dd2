import BbjAnalysis.Link.Candidates
import BbjAnalysis.Link.Links

/-! # Linking

Every reference is bound to its first candidate, unless its candidates come from
several other documents: then it is ambiguous. A reference without candidates is
unresolved, which is reported for functions, types and imports, for dotted names if
that is wanted, and for fields that cannot be inherited. Variables need no
declaration, and labels are the business of a rule.
-/

namespace BbjAnalysis

/-- The documents that symbols are in. -/
def documentsOf (symbols : List Symbol) : OrderedSet DocumentId :=
  .ofList (symbols.filterMap (·.document))

/-- What comes of a reference. -/
inductive LinkOutcome where
  | bound (symbol : Symbol)
  | ambiguous (symbols : List Symbol)
  | unresolved
deriving DecidableEq

/-- What comes of a reference with the given candidates. -/
def Candidates.outcome (c : Candidates) : LinkOutcome :=
  match c.symbols with
  | [] => .unresolved
  | first :: rest =>
      if c.source = some .workspace ∧ 1 < (documentsOf (first :: rest)).size then
        .ambiguous (first :: rest)
      else .bound first

/-- What is reported for a reference that is unresolved. -/
def unresolvedDiagnostic (document : DocumentId) (reportJava : Bool) (site : ReferenceSite) :
    Option Diagnostic :=
  match site.kind with
  | .variable | .label | .field true => none
  | .javaClass =>
      if reportJava then some (.unknownJavaName document site.node site.span site.text) else none
  | kind => some (.unresolved document site.node site.span kind.display site.text)

namespace Links

/-- Notes that a name was looked up in the workspace. -/
def consult (l : Links) (name : String) : Links :=
  { l with workspaceNames := l.workspaceNames.insert name }

/-- Notes what came of a reference. -/
def note (l : Links) (ctx : LinkContext) (reportJava : Bool) (site : ReferenceSite) :
    LinkOutcome → Links
  | .bound symbol =>
      { l with
        bindings := l.bindings.insert site.node symbol
        boundDocuments := match symbol.document with
          | some d => if d = ctx.document then l.boundDocuments else l.boundDocuments.insert d
          | none => l.boundDocuments }
  | .ambiguous symbols =>
      { l with
        ambiguous := l.ambiguous.insert site.node symbols
        diagnostics := l.diagnostics ++
          [.ambiguous ctx.document site.node site.span site.text symbols ctx.index.uriOf] }
  | .unresolved =>
      { l with
        unresolved := l.unresolved.insert site.node
        diagnostics := l.diagnostics ++
          (unresolvedDiagnostic ctx.document reportJava site).toList }

/-- Links one reference. -/
def linkSite (ctx : LinkContext) (reportJava : Bool) (state : Links × Java.Resolver)
    (site : ReferenceSite) : Links × Java.Resolver :=
  let (candidates, r) := ctx.candidates state.2 site
  let l := if candidates.consultedWorkspace then state.1.consult site.name else state.1
  (l.note ctx reportJava site candidates.outcome, r)

/-- Links references in order, and lists what is to be reported. -/
def link (ctx : LinkContext) (reportJava : Bool) (r : Java.Resolver)
    (sites : List ReferenceSite) : Links × Java.Resolver :=
  let (l, r) := sites.foldl (linkSite ctx reportJava) (empty, r)
  ({ l with diagnostics := Diagnostic.finish l.diagnostics }, r)

end Links

end BbjAnalysis
