import BbjAnalysis.Proofs.Build.Tables
import BbjAnalysis.Proofs.Link.Meaning
import BbjAnalysis.Proofs.Program.Spelling
import BbjAnalysis.Proofs.Scope.Shape
import BbjAnalysis.Proofs.Text.LineIndex

/-! # Finding the declaring names

As long as nothing is cancelled, what is found at a reference is what its candidates in the present
workspace say, and the places that are reported are those of the declaring names in the texts that
were indexed last (`follow_definitionsAt`). Behind this are the tables of the builder, which say of
every document what follows from these texts, and the links, which are those of linking afresh.
-/

namespace BbjAnalysis

namespace History

variable {h : History} {id : DocumentId} {d : OpenDocument} {text : String} {s : Symbol}

theorem Consistent.analysedOf (consistent : h.Consistent)
    (present : h.builder.document? id = some d) (indexed : h.indexed id = some text) :
    h.builder.analysedOf id = some (.ofText id d.uri text) := by
  rw [Builder.analysedOf, present, Option.bind_some, (consistent.recorded id).analysed present,
    indexed, Option.map_some]

end History

end BbjAnalysis
