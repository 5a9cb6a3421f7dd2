import BbjAnalysis.Build.Pass
import BbjAnalysis.Editor.Location

/-! # Editor sessions

Files by their paths. Edits are gathered, and the files that changed are built when
the session is next asked for something that must be up to date.
-/

namespace BbjAnalysis

structure Session where
  builder : Builder
  /-- The documents whose text is newer than the last pass over them. -/
  pending : OrderedSet DocumentId
  /-- The report of the last pass that did anything. -/
  lastReport : BuildReport

namespace Session

/-- A session over a builder, in which nothing waits. -/
def ofBuilder (builder : Builder) : Session := ⟨builder, ∅, .empty⟩

def new (config : BuildConfig) (catalog : Java.ClassSource) : Session :=
  ofBuilder (.new config .standard catalog)

/-- Takes the text of a file. -/
def setFile (s : Session) (path text : String) : DocumentId × Session :=
  let (id, builder) := s.builder.openDocument path text
  (id, { s with builder, pending := s.pending.insert id })

/-- Removes a file, and yields whether it was there. -/
def removeFile (s : Session) (path : String) : Bool × Session :=
  match s.builder.idOf path with
  | none => (false, s)
  | some id =>
      let s := { s with pending := s.pending.erase id }
      match s.builder.removeDocument id with
      | .ok (builder, lastReport) => (true, { s with builder, lastReport })
      | .error _ => (false, s)

def hasFile (s : Session) (path : String) : Bool := (s.builder.idOf path).isSome

def fileCount (s : Session) : Nat := s.builder.documents.size

def reloadCatalog (s : Session) : Session :=
  let (builder, lastReport) := s.builder.reloadCatalog
  { s with builder, lastReport }

/-- Whether files wait to be built. -/
def isDirty (s : Session) : Bool := !s.pending.isEmpty

/-- Builds the files that wait. -/
def analysis (s : Session) : Session :=
  if s.isDirty then
    let (builder, lastReport) := s.builder.rebuild s.pending.toList
    ⟨builder, ∅, lastReport⟩
  else s

/-! ## Questions about an up-to-date session -/

/-- The diagnostics of a file, none if there is no such file. -/
def diagnostics (s : Session) (path : String) : List Diagnostic :=
  ((s.builder.idOf path).bind s.builder.diagnosticsOf).getD []

def definitionsAt (s : Session) (path : String) (place : Position) : List Target :=
  match s.builder.idOf path with
  | some id => s.builder.definitionsAt id place
  | none => []

def fileSymbols (s : Session) (path : String) : List SymbolInfo :=
  match s.builder.idOf path with
  | some id => s.builder.documentSymbols id
  | none => []

end Session

end BbjAnalysis
