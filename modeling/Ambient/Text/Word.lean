import Ambient.Text.Ranges
import Ambient.Text.Basic

/-!
# Characters of words and names

Three classes cut identifiers out of text, and they differ outside ASCII:

* `isWordChar`: letters, marks, decimal digits, connecting punctuation and join controls, the class of which
  the names in an `export` group consist;
* `isNameChar`: letters and numbers of any script, `_` and `$`, the word around an editor's cursor;
* `continuesName`: ASCII letters and digits, `.` and `_`, which must not touch the range of a quick fix.
-/

namespace Ambient

/-- A letter, mark, decimal digit, connector or join control. -/
def isWordChar (c : Char) : Bool :=
  CodePoint.inRanges c.toNat CodePoint.alphabetic || CodePoint.inRanges c.toNat CodePoint.marksAndJoiners

/-- A letter or number of any script, an underscore or a dollar sign. -/
def isNameChar (c : Char) : Bool :=
  CodePoint.inRanges c.toNat CodePoint.alphabetic || CodePoint.inRanges c.toNat CodePoint.numbers ||
    c == '_' || c == '$'

/-- An ASCII letter or digit, a dot or an underscore. -/
def continuesName (c : Char) : Bool := c.isAlphanum || c == '.' || c == '_'

namespace Text

/-- A non-empty leading run of word characters, and what follows it. -/
def wordRun? (t : Text) : Option (Text × Text) :=
  let word := t.takeWhile isWordChar
  if word.isEmpty then none else some (word, t.dropWhile isWordChar)

end Text
end Ambient
