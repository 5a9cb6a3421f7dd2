import BbjAnalysis.Diagnostic.Basic
import BbjAnalysis.Ordered.Set

/-! # Links

What the references of one document mean, and what was asked of the workspace to find
it out.
-/

namespace BbjAnalysis

structure Links where
  /-- What a reference means. -/
  bindings : OrderedMap NodeId Symbol
  /-- References that nothing stands behind. -/
  unresolved : OrderedSet NodeId
  /-- References that several other documents declare, with all candidates. -/
  ambiguous : OrderedMap NodeId (List Symbol)
  /-- The names that were looked up in the workspace, found or not. -/
  workspaceNames : OrderedSet String
  /-- The other documents that bindings point into. -/
  boundDocuments : OrderedSet DocumentId
  diagnostics : List Diagnostic
deriving DecidableEq

namespace Links

/-- The links of a document without references. -/
def empty : Links := ⟨∅, ∅, ∅, ∅, ∅, []⟩

end Links

end BbjAnalysis
