import BbjAnalysis.Symbol.Basic

/-! # Diagnostics

What is wrong in a document, at a node or at a named part of it, with a code and a
text. Diagnostics are listed by their spans, then by code, text and node.
-/

namespace BbjAnalysis

inductive Severity where
  | error
  | warning
  | info
  | hint
deriving DecidableEq

/-- A further place that belongs to a diagnostic. -/
structure Related where
  document : DocumentId
  span : Span
  message : String
deriving DecidableEq

structure Diagnostic where
  document : DocumentId
  node : NodeId
  /-- The part of the node that the diagnostic is about, if not all of it. -/
  part : Option String
  span : Span
  severity : Severity
  code : Option String
  message : String
  related : List Related
deriving DecidableEq

namespace Code

def unresolvedReference : String := "E0001"
def ambiguousReference : String := "E0002"
def unknownJavaName : String := "E0003"
def illegalOptions : String := "E0004"
def optionOfOtherVerb : String := "E0005"
def undefinedLabel : String := "E0006"
def duplicateLabel : String := "E0007"
def syntaxError : String := "E0100"

end Code

/-- A document in the words of a message. -/
def DocumentId.display (d : DocumentId) : String := s!"doc#{d}"

namespace Diagnostic

/-- An error with a code on all of a node. -/
def error (document : DocumentId) (node : NodeId) (span : Span) (code message : String) :
    Diagnostic :=
  ⟨document, node, none, span, .error, some code, message, []⟩

def isError (d : Diagnostic) : Bool := d.severity == .error

/-- A reference that nothing declared stands behind; `kind` says what was looked for. -/
def unresolved (document : DocumentId) (node : NodeId) (span : Span) (kind name : String) :
    Diagnostic :=
  error document node span Code.unresolvedReference
    s!"Could not resolve reference to {kind} named '{name}'."

/-- The candidate of an ambiguous reference as a related place, if it is in a document. -/
def candidatePlace (s : Symbol) : Option Related :=
  s.document.map fun document =>
    ⟨document, s.span, "candidate " ++ s.kind.display ++ " '" ++ s.name ++ "'"⟩

/-- A reference that several documents declare. Documents appear by their URI, if it is known. -/
def ambiguous (document : DocumentId) (node : NodeId) (span : Span) (name : String)
    (candidates : List Symbol) (uriOf : DocumentId → Option String) : Diagnostic :=
  let documents := candidates.filterMap fun s => s.document.map fun d => (uriOf d).getD d.display
  let places := ", ".intercalate documents
  { error document node span Code.ambiguousReference
      s!"Ambiguous reference '{name}': declared in {places}." with
    related := candidates.filterMap candidatePlace }

/-- A dotted name that the Java catalog does not know. -/
def unknownJavaName (document : DocumentId) (node : NodeId) (span : Span)
    (qualifiedName : String) : Diagnostic :=
  error document node span Code.unknownJavaName
    s!"Could not resolve Java class '{qualifiedName}'."

/-- A syntax error, on the node of the program. -/
def ofSyntaxError (document : DocumentId) (message : String) (span : Span) : Diagnostic :=
  error document 0 span Code.syntaxError message

/-- The order of listing: by start, end, code, text and node. -/
def order (a b : Diagnostic) : Ordering :=
  (compare a.span.start b.span.start).then <|
    (compare a.span.stop b.span.stop).then <|
      (compare a.code b.code).then <|
        (compare a.message b.message).then (compare a.node b.node)

/-- In the order of listing; what is equal in it stays in place. -/
def sort (l : List Diagnostic) : List Diagnostic := l.mergeSort fun a b => (a.order b).isLE

/-- A list without the elements that equal the one before. -/
def dropRepeats : List Diagnostic → List Diagnostic
  | [] => []
  | a :: rest =>
      match dropRepeats rest with
      | [] => [a]
      | b :: kept => if a = b then b :: kept else a :: b :: kept

/-- Sorted, and equal neighbours only once. -/
def finish (l : List Diagnostic) : List Diagnostic := dropRepeats (sort l)

end Diagnostic

end BbjAnalysis
