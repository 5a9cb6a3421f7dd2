import BbjAnalysis.Text.LineIndex

/-! # The line of an offset by halving

The starts of lines ascend, so that a search for the line of an offset may drop half of them at a
time. Here nothing is made up where a number is missing: a place is found only if every start that
is read is there, and if no number is taken from a lesser one.
-/

namespace BbjAnalysis

/-- What the search for a number among ascending ones comes to. -/
inductive SearchResult where
  | found (i : Nat)
  /-- The number is not there, and would come before the one at `next`. -/
  | missing (next : Nat)
deriving DecidableEq

/-- Looks for a number among the `size` ones from `base` on. -/
def searchFrom (numbers : List Nat) (n base size : Nat) : Option SearchResult :=
  if 1 < size then
    let middle := base + size / 2
    numbers[middle]?.bind fun m =>
      searchFrom numbers n (if n < m then base else middle) (size - size / 2)
  else
    numbers[base]?.map fun m =>
      if m = n then .found base else .missing (if m < n then base + 1 else base)
termination_by size

/-- Looks for a number among ascending ones. -/
def search (numbers : List Nat) (n : Nat) : Option SearchResult :=
  if numbers.isEmpty then some (.missing 0) else searchFrom numbers n 0 numbers.length

/-- What is left of a number, if it is not the lesser one. -/
def subtract? (m n : Nat) : Option Nat := if n ≤ m then some (m - n) else none

namespace LineIndex

/-- The line that begins at an offset, or else the one before the line that would begin there. -/
def line? (index : LineIndex) (offset : Nat) : Option Nat :=
  (search index.starts offset).bind fun
    | .found line => some line
    | .missing next => subtract? next 1

/-- The place of an offset; what lies behind the text counts as its end. -/
def position? (index : LineIndex) (offset : Nat) : Option Position :=
  let offset := min offset index.length
  (index.line? offset).bind fun line =>
    index.starts[line]?.bind fun start =>
      (subtract? offset start).map fun col => ⟨line, col⟩

end LineIndex

end BbjAnalysis
