/-! # Spans of text

Offsets count the bytes of the UTF-8 form of a text, and fit into 32 bits. A span runs
from its first byte up to, and without, its end.
-/

namespace BbjAnalysis

/-- Offsets, and the lengths of texts, are below this number. -/
def offsetBound : Nat := Nat.pow 2 32

/-- The identity of a node within its document; the program itself has `0`. -/
abbrev NodeId := Nat

/-- The identity of a document within its workspace. -/
abbrev DocumentId := Nat

/-- A stretch of text, from the byte at `start` up to the byte before `stop`. -/
structure Span where
  start : Nat
  stop : Nat
deriving DecidableEq

namespace Span

/-- The span without any byte at `offset`. -/
def empty (offset : Nat) : Span := ⟨offset, offset⟩

/-- The least span around both. -/
def cover (a b : Span) : Span := ⟨min a.start b.start, max a.stop b.stop⟩

/-- An offset touches a span also when it stands right behind the last byte. -/
def touches (s : Span) (offset : Nat) : Bool := s.start ≤ offset && offset ≤ s.stop

end Span

end BbjAnalysis
