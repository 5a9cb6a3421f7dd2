import BbjAnalysis.Text.Span

/-! # Lines and columns

A line ends with a line feed and nothing else; the text behind the last line feed is
a line too, if only an empty one. Lines and columns count from zero, and columns
count bytes. A place need not be in the text: `locate` says what is wrong with one
that has no offset.
-/

namespace BbjAnalysis

/-- A place in a text by its line and the byte within the line. -/
structure Position where
  line : Nat
  col : Nat
deriving DecidableEq

/-- Why a place has no offset. -/
inductive PlaceFault where
  | noSuchLine
  /-- The column leads behind the end of the text. -/
  | behindText
  /-- Line and column add up to what no offset can be. -/
  | overflow
deriving DecidableEq

/-- Where the lines of a text begin, and how many bytes the text has. -/
structure LineIndex where
  starts : List Nat
  length : Nat
deriving DecidableEq

namespace LineIndex

/-- The offsets right behind the line feeds of `cs`, whose first byte is at `offset`. -/
def startsBehind (offset : Nat) : List Char → List Nat
  | [] => []
  | c :: cs =>
      let next := offset + c.utf8Size
      if c = '\n' then next :: startsBehind next cs else startsBehind next cs

def ofText (text : String) : LineIndex :=
  ⟨0 :: startsBehind 0 text.toList, text.utf8ByteSize⟩

def lineCount (index : LineIndex) : Nat := index.starts.length

/-- The place of an offset; what lies behind the text counts as its end. The line is the
last one that begins at or before the offset. -/
def position (index : LineIndex) (offset : Nat) : Position :=
  let offset := min offset index.length
  let line := (index.starts.takeWhile (· ≤ offset)).length - 1
  ⟨line, offset - (index.starts[line]?).getD 0⟩

/-- The offset of a place. The column is counted on from the start of its line, also across the
line's end. -/
def locate (index : LineIndex) (place : Position) : Except PlaceFault Nat :=
  match index.starts[place.line]? with
  | none => .error .noSuchLine
  | some start =>
      let offset := start + place.col
      if offsetBound ≤ offset then .error .overflow
      else if offset ≤ index.length then .ok offset
      else .error .behindText

/-- The offset of a place that has one. -/
def offset? (index : LineIndex) (place : Position) : Option Nat := (index.locate place).toOption

end LineIndex

end BbjAnalysis
