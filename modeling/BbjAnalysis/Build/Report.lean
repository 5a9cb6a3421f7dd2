import BbjAnalysis.Diagnostic.Basic

/-! # Reports of build passes

What a pass did with which document, and why it could not do more.
-/

namespace BbjAnalysis

inductive BuildError where
  | unknownDocument (document : DocumentId)
  /-- The text has syntax errors, as many as `errors`. -/
  | parseFailure (document : DocumentId) (uri : String) (errors : Nat)
  | cancelled (document : DocumentId)
deriving DecidableEq

namespace BuildError

def document : BuildError → DocumentId
  | unknownDocument d | parseFailure d _ _ | cancelled d => d

def message : BuildError → String
  | unknownDocument d => "unknown document " ++ d.display
  | parseFailure _ uri errors => s!"{uri}: {errors} syntax error(s)"
  | cancelled d => "build of " ++ d.display ++ " was cancelled"

end BuildError

structure BuildReport where
  /-- The documents whose text was read, with syntax errors or without. -/
  parsed : List DocumentId
  /-- The documents that were linked and checked, changed ones first. -/
  relinked : List DocumentId
  failed : List BuildError
  cancelled : List DocumentId
deriving DecidableEq

namespace BuildReport

def empty : BuildReport := ⟨[], [], [], []⟩

/-- Whether nothing failed and nothing was cancelled. -/
def isClean (r : BuildReport) : Bool := r.failed.isEmpty && r.cancelled.isEmpty

/-- All failures, then one error for each cancelled document. -/
def errors (r : BuildReport) : List BuildError := r.failed ++ r.cancelled.map .cancelled

def addParsed (r : BuildReport) (d : DocumentId) : BuildReport :=
  { r with parsed := r.parsed ++ [d] }

def addRelinked (r : BuildReport) (d : DocumentId) : BuildReport :=
  { r with relinked := r.relinked ++ [d] }

def addFailed (r : BuildReport) (e : BuildError) : BuildReport :=
  { r with failed := r.failed ++ [e] }

def addCancelled (r : BuildReport) (d : DocumentId) : BuildReport :=
  { r with cancelled := r.cancelled ++ [d] }

end BuildReport

end BbjAnalysis
