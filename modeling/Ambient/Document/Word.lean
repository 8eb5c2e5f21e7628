import Ambient.Document.Position
import Ambient.Text.Word

/-!
# Words of a document

A document's line is one of the pieces between line feeds, without a carriage return at its end. The word at
a cursor is the run of name characters that touches the cursor on either side; behind a dot it is the name of
a member and no word of its own.
-/

namespace Ambient.Document

/-- A line of the document. -/
def line? (document : Text) (n : UInt32) : Option Text :=
  (Text.lines document)[n.toNat]?.map fun line =>
    if line.getLast? = some '\r' then line.dropLast else line

/-- The longest end of the text whose characters are all name characters. -/
def nameBefore (t : Text) : Text := (t.reverse.takeWhile isNameChar).reverse

/-- The word at a cursor that stands behind `before`, unless it is the name of a member. -/
def wordBetween? (before after : Text) : Option Text :=
  if (Text.dropEndWhile isNameChar before).getLast? = some '.' then none
  else some (nameBefore before ++ after.takeWhile isNameChar)

/-- The word at the cursor. A character past the end of the line stands for its end. -/
def wordAt? (line : Text) (character : UInt32) : Option Text :=
  wordBetween? (line.take character.toNat) (line.drop character.toNat)

/-- The text between two characters of a line, if it lies on the line and no neighbour continues it. -/
def nameBetween? (line : Text) (start stop : UInt32) : Option Text :=
  if line.length < stop.toNat then none
  else
    let before := (line.take start.toNat).getLast?
    let after := (line.drop stop.toNat).head?
    if before.any continuesName || after.any continuesName then none
    else some ((line.take stop.toNat).drop start.toNat)

end Ambient.Document
