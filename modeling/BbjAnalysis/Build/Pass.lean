import BbjAnalysis.Build.Builder

/-! # Build passes

A pass over documents reads their texts, computes their scopes, puts their exports into
the index, and links and checks them and every document that depends on what changed.
A text with syntax errors leaves the exports of its document as they were, and the
syntax errors become its diagnostics. Before each step the mark of cancelled work is
read: a cancelled document goes no further.
-/

namespace BbjAnalysis

namespace Builder

/-! ## Linking -/

/-- The links of a document against the present workspace, and its diagnostics. -/
def linked (b : Builder) (id : DocumentId) (a : Analysed) :
    Links × List Diagnostic × Java.Resolver :=
  let l :=
    Links.link (b.linkContext id a.scopes) b.config.reportUnresolvedJava b.resolver
      a.scopes.references
  let found := b.rules.validate ⟨id, a.program, a.scopes.tree, a.scopes.references, l.1⟩
  (l.1, Diagnostic.sort (l.1.diagnostics ++ found), l.2)

/-- The class names that were asked for between two states of a resolver, in order. -/
def askedBetween (before after : Java.Resolver) : List String :=
  (after.asked.take (after.asked.length - before.asked.length)).reverse

/-- Keeps what came of linking a document, and what the document depends on. -/
def storeLinks (b : Builder) (id : DocumentId) (found : Links × List Diagnostic × Java.Resolver) :
    Builder :=
  { b with
    resolver := found.2.2
    dependencies :=
      b.dependencies.record id ⟨found.1.workspaceNames, found.1.boundDocuments⟩ }.update id
    fun d => { d with links := found.1, diagnostics := found.2.1 }

/-- Links and checks a document against the present workspace, and records what it depends on.
A document whose latest text has syntax errors is left alone. -/
def relink (s : Builder × BuildReport) (id : DocumentId) : Builder × BuildReport :=
  match s.1.document? id with
  | none => s
  | some d =>
      if !d.readCleanly then s
      else
        let b := s.1.arrive .linking id
        if b.isCancelled id then (b, s.2.addCancelled id)
        else
          match d.analysed with
          | none => (b, s.2)
          | some a =>
              let found := b.linked id a
              let names := askedBetween b.resolver found.2.2
              ((b.storeLinks id found).cancelUris (b.interrupts.onClasses id names),
                s.2.addRelinked id)

/-- Links and checks every document. -/
def relinkAll (b : Builder) : Builder × BuildReport :=
  b.documents.keys.foldl relink (b, .empty)

/-! ## Reading -/

/-- A text that was read without syntax errors. -/
structure Reading where
  document : DocumentId
  uri : String
  program : Program
  lines : LineIndex

/-- A pass between reading and computing scopes. -/
structure Reads where
  builder : Builder
  report : BuildReport
  clean : List Reading

/-- The diagnostics of a text with the given syntax errors. -/
def syntaxDiagnostics (id : DocumentId) (errors : List SyntaxError) : List Diagnostic :=
  Diagnostic.finish (errors.map fun e => .ofSyntaxError id e.message e.span)

/-- Keeps the exports of a document whose text has syntax errors, as those of an earlier text. -/
def recordFailure (b : Builder) (id : DocumentId) (errors : List SyntaxError) : Builder :=
  { b with index := b.index.markInvalid id }.update id fun d =>
    { d with links := .empty, diagnostics := syntaxDiagnostics id errors }

/-- Reads the text of one document. -/
def readOne (s : Reads) (id : DocumentId) : Reads :=
  match s.builder.document? id with
  | none => { s with report := s.report.addFailed (.unknownDocument id) }
  | some d =>
      let b := s.builder.arrive .reading id
      if b.isCancelled id then ⟨b, s.report.addCancelled id, s.clean⟩
      else
        let p := parse d.text
        let keep (b : Builder) : Builder := b.update id fun d => { d with latest := some p }
        let report := s.report.addParsed id
        if p.isClean then ⟨keep b, report, s.clean ++ [⟨id, d.uri, p.program, .ofText d.text⟩]⟩
        else
          ⟨keep (b.recordFailure id p.errors),
            report.addFailed (.parseFailure id d.uri p.errors.length), s.clean⟩

/-! ## Scopes -/

/-- A clean text with its scopes, unless work on it was cancelled. -/
structure Scoped where
  reading : Reading
  scopes : Option DocumentScopes

/-- Computes the scopes of one text. -/
def scopeOne (s : Builder × List Scoped) (r : Reading) : Builder × List Scoped :=
  let b := s.1.arrive .scoping r.document
  if b.isCancelled r.document then (b, s.2 ++ [⟨r, none⟩])
  else
    let found := collect r.document r.program
    let scopes : DocumentScopes :=
      ⟨⟨r.document, r.uri, found.exports⟩, found.tree, found.references⟩
    (b.cancelUris (b.interrupts.onNames r.document found.asked.reverse), s.2 ++ [⟨r, some scopes⟩])

/-! ## Indexing -/

/-- A pass between computing scopes and linking. -/
structure Indexed where
  builder : Builder
  report : BuildReport
  /-- The documents whose exports were replaced. -/
  changed : OrderedSet DocumentId
  /-- The documents that depend on what was replaced. -/
  dependents : OrderedSet DocumentId

/-- Puts the exports of a document into the index, and keeps what is known of its text. -/
def storeScopes (b : Builder) (r : Reading) (scopes : DocumentScopes) : Builder :=
  { b with index := (b.index.upsert scopes.exports).2 }.update r.document fun d =>
    { d with analysed := some ⟨r.program, r.lines, scopes⟩ }

/-- Replaces the exports of one document, and finds who depends on the former or the new ones. -/
def indexOne (s : Indexed) (x : Scoped) : Indexed :=
  let id := x.reading.document
  let b := s.builder.arrive .indexing id
  match if b.isCancelled id then none else x.scopes with
  | none => ⟨b, s.report.addCancelled id, s.changed, s.dependents⟩
  | some scopes =>
      let names := (b.index.upsert scopes.exports).1 ++ scopes.exports.names
      ⟨b.storeScopes x.reading scopes, s.report, s.changed.insert id,
        s.dependents.union (b.dependencies.dependents id names)⟩

/-! ## Passes -/

/-- The steps of a pass up to the linking. -/
def indexAll (b : Builder) (ids : List DocumentId) : Indexed :=
  let reads := (OrderedSet.ofList ids).toList.foldl readOne ⟨b, .empty, []⟩
  let computed := reads.clean.foldl scopeOne (reads.builder, [])
  computed.2.foldl indexOne ⟨computed.1, reads.report, ∅, ∅⟩

/-- Builds the given documents, and links again whatever depends on their exports. -/
def rebuild (b : Builder) (ids : List DocumentId) : Builder × BuildReport :=
  let indexed := b.indexAll ids
  let linked := indexed.changed.toList.foldl relink (indexed.builder, indexed.report)
  (indexed.dependents.diff indexed.changed).toList.foldl relink linked

/-- Builds every open document. -/
def rebuildAll (b : Builder) : Builder × BuildReport := b.rebuild b.documents.keys

/-- Closes a document, whose text is retired, and links again whatever depended on it. -/
def removeDocument (b : Builder) (id : DocumentId) : Except BuildError (Builder × BuildReport) :=
  match b.document? id with
  | none => .error (.unknownDocument id)
  | some d =>
      let (former, index) := b.index.remove id
      let dependents := b.dependencies.dependents id (former.getD [])
      let b :=
        { b.retire id with
          documents := b.documents.erase id
          byUri := b.byUri.erase d.uri
          index
          dependencies := b.dependencies.remove id }
      .ok (dependents.toList.foldl relink (b, .empty))

/-- Looks all Java names up again. -/
def reloadCatalog (b : Builder) : Builder × BuildReport :=
  { b with resolver := b.resolver.reload }.relinkAll

/-- Looks all Java names up in another catalog. What the former catalog interrupted is
interrupted no more. -/
def replaceCatalog (b : Builder) (catalog : Java.ClassSource) : Builder × BuildReport :=
  { b with
    resolver := b.resolver.replaceCatalog catalog
    interrupts := { b.interrupts with onClasses := fun _ _ => [] } }.relinkAll

end Builder

end BbjAnalysis
