/-!
# Positions and ranges

Lines and characters are counted from 0, characters within their line. A range is half open. Only a range
on a single line has a length: a range that runs backwards has length 0, and so has one over several lines.
-/

namespace Ambient

/-- A place in a document. -/
structure Position where
  line : UInt32
  character : UInt32
  deriving DecidableEq, Repr

namespace Position

/-- Document order. -/
def compare (a b : Position) : Ordering :=
  (Ord.compare a.line b.line).then (Ord.compare a.character b.character)

end Position

/-- The stretch from `start` up to, and without, `stop`. -/
structure Range where
  start : Position
  stop : Position
  deriving DecidableEq, Repr

namespace Range

/-- A stretch of one line. -/
def onLine (line start stop : UInt32) : Range := ⟨⟨line, start⟩, ⟨line, stop⟩⟩

/-- Does the range end on the line on which it starts? -/
def isSingleLine (r : Range) : Bool := r.start.line == r.stop.line

/-- Number of characters of a range on a single line. -/
def length (r : Range) : Nat :=
  if r.isSingleLine then r.stop.character.toNat - r.start.character.toNat else 0

/-- Does the range have no characters? -/
def isEmpty (r : Range) : Bool := r.length == 0

end Range
end Ambient
