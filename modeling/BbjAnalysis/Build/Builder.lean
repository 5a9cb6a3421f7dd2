import BbjAnalysis.Build.Report
import BbjAnalysis.Link.Linking
import BbjAnalysis.Program.Parser.Statement
import BbjAnalysis.Rule.Basic
import BbjAnalysis.Text.LineIndex
import BbjAnalysis.Workspace.Dependencies

/-! # The documents of a workspace

A builder holds the open documents with what was found out about each of them, the
index of their exports, the dependencies between them, and the Java names that were
looked up. Opening a document only takes its text: what follows from the text is found
out by a pass.

Work on a document can be cancelled. Its mark is read between the steps of a pass, and
set from outside, between passes or right before a mark is read, or while a step asks
for canonical names or Java classes. A text that is replaced or closed takes its mark
with it, which is set before.
-/

namespace BbjAnalysis

structure BuildConfig where
  /-- Java packages in which simple type names are looked for at last. -/
  packages : List String
  /-- Whether dotted names are reported that the Java catalog does not know. -/
  reportUnresolvedJava : Bool
deriving DecidableEq

def BuildConfig.standard : BuildConfig := ⟨["java.lang"], true⟩

/-- What is known of a text that was read without syntax errors. -/
structure Analysed where
  program : Program
  lines : LineIndex
  scopes : DocumentScopes

structure OpenDocument where
  uri : String
  text : String
  /-- The result of the latest reading, `none` before the first. -/
  latest : Option Parse
  /-- What is known of the last text that was read without syntax errors and indexed. -/
  analysed : Option Analysed
  links : Links
  diagnostics : List Diagnostic
  /-- Whether work on the document is cancelled. -/
  cancelled : Bool

namespace OpenDocument

/-- A document that was never read. -/
def fresh (uri text : String) : OpenDocument := ⟨uri, text, none, none, .empty, [], false⟩

/-- Whether the latest reading found no syntax errors. -/
def readCleanly (d : OpenDocument) : Bool := d.latest.any (·.isClean)

end OpenDocument

/-- Whose work is cancelled while a pass works on a document: by URI, from the document and what
was asked for it in order. -/
structure Interrupts where
  /-- By the texts whose canonical name was asked for while scopes were computed. -/
  onNames : DocumentId → List String → List String
  /-- By the class names that the Java catalog was asked for while the document was linked. -/
  onClasses : DocumentId → List String → List String

/-- Nothing is cancelled by what a pass asks for. -/
def Interrupts.silent : Interrupts := ⟨fun _ _ => [], fun _ _ => []⟩

/-- The steps of a pass before which the mark of a document is read. -/
inductive Stage where
  | reading
  | scoping
  | indexing
  | linking
deriving DecidableEq

structure Builder where
  config : BuildConfig
  /-- The packages that linking looks into, those of the configuration if nothing else is said. -/
  packages : List String
  rules : RuleSet
  interrupts : Interrupts
  /-- Whose work is cancelled from elsewhere right before a mark is read, by the step that reads it
  and the document whose mark it is. -/
  elsewhere : Stage → DocumentId → List DocumentId
  index : WorkspaceIndex
  resolver : Java.Resolver
  dependencies : Dependencies
  documents : OrderedMap DocumentId OpenDocument
  byUri : OrderedMap String DocumentId
  /-- The identity of the next document. -/
  nextId : DocumentId
  /-- The marks of the texts that were replaced or closed, the latest first, as whoever still works
  on one of these texts reads them. -/
  retired : List Bool

namespace Builder

/-- A builder without documents. -/
def new (config : BuildConfig) (rules : RuleSet) (catalog : Java.ClassSource) : Builder :=
  ⟨config, config.packages, rules, .silent, fun _ _ => [], .empty, .ofCatalog catalog, .empty, ∅, ∅,
    0, []⟩

/-- The builder with other packages to look into than its configuration says. -/
def withPackages (b : Builder) (packages : List String) : Builder := { b with packages }

def withInterrupts (b : Builder) (interrupts : Interrupts) : Builder := { b with interrupts }

def withElsewhere (b : Builder) (elsewhere : Stage → DocumentId → List DocumentId) : Builder :=
  { b with elsewhere }

/-- Changes a document, if it is open. -/
def update (b : Builder) (id : DocumentId) (f : OpenDocument → OpenDocument) : Builder :=
  { b with documents := b.documents.adjust id f }

/-- Cancels the work on a document, if it is open. -/
def cancel (b : Builder) (id : DocumentId) : Builder :=
  b.update id fun d => { d with cancelled := true }

def document? (b : Builder) (id : DocumentId) : Option OpenDocument := b.documents.get? id

/-- Whether work on a document is cancelled. A document that is not open is worked on no more. -/
def isCancelled (b : Builder) (id : DocumentId) : Bool := (b.document? id).all (·.cancelled)

/-- Cancels the work on the text of a document, which is about to go. -/
def retire (b : Builder) (id : DocumentId) : Builder :=
  { b with retired := (b.cancel id).isCancelled id :: b.retired }

/-- Takes the text of the document with the given URI, which is opened if it is not open. The
former text is retired with its mark, and the new one begins without. -/
def openDocument (b : Builder) (uri text : String) : DocumentId × Builder :=
  match b.byUri.get? uri with
  | some id => (id, (b.retire id).update id fun d => { d with text, cancelled := false })
  | none =>
      (b.nextId,
        { b with
          documents := b.documents.insert b.nextId (.fresh uri text)
          byUri := b.byUri.insert uri b.nextId
          nextId := b.nextId + 1 })

/-- Cancels the work on the documents with the given URIs. -/
def cancelUris (b : Builder) (uris : List String) : Builder :=
  uris.foldl (fun b uri => match b.byUri.get? uri with
    | some id => b.cancel id
    | none => b) b

/-- The builder when it comes to read the mark of a document. -/
def arrive (b : Builder) (stage : Stage) (id : DocumentId) : Builder :=
  (b.elsewhere stage id).foldl cancel b

/-! ## Questions -/

def idOf (b : Builder) (uri : String) : Option DocumentId := b.byUri.get? uri

def uriOf (b : Builder) (id : DocumentId) : Option String := (b.document? id).map (·.uri)

def diagnosticsOf (b : Builder) (id : DocumentId) : Option (List Diagnostic) :=
  (b.document? id).map (·.diagnostics)

def linksOf (b : Builder) (id : DocumentId) : Option Links := (b.document? id).map (·.links)

def analysedOf (b : Builder) (id : DocumentId) : Option Analysed :=
  (b.document? id).bind (·.analysed)

/-- The symbol that a reference is bound to. -/
def binding (b : Builder) (id : DocumentId) (node : NodeId) : Option Symbol :=
  (b.linksOf id).bind (·.bindings.get? node)

/-- The exported symbols of a name across the workspace. -/
def lookup (b : Builder) (name : String) : List Symbol := b.index.lookup name

/-- What a document is linked against. -/
def linkContext (b : Builder) (id : DocumentId) (scopes : DocumentScopes) : LinkContext :=
  ⟨id, scopes.tree, scopes.exports, b.index, b.packages⟩

end Builder

end BbjAnalysis
