import Ambient.Text.Basic

/-!
# Blanks

A blank is a character with Unicode's `White_Space` property. The zero-width space U+200B and the byte
order mark U+FEFF do not have it. `trim` removes blanks at both ends, `words` cuts at every run of them.
-/

namespace Ambient

/-- Unicode's `White_Space`: the controls U+0009 to U+000D and U+0085, the space and its wide and
    no-break kin, and the line and paragraph separators. -/
def isBlank (c : Char) : Bool :=
  let n := c.toNat
  (9 ≤ n && n ≤ 13) || n == 0x20 || n == 0x85 || n == 0xA0 || n == 0x1680 ||
    (0x2000 ≤ n && n ≤ 0x200A) || n == 0x2028 || n == 0x2029 || n == 0x202F || n == 0x205F || n == 0x3000

namespace Text

/-- The text without leading blanks. -/
def trimStart (t : Text) : Text := t.dropWhile isBlank

/-- The text without trailing blanks. -/
def trimEnd (t : Text) : Text := dropEndWhile isBlank t

/-- The text without blanks at either end. -/
def trim (t : Text) : Text := trimEnd (trimStart t)

/-- Is there nothing but blanks? -/
def allBlank (t : Text) : Bool := t.all isBlank

/-- The maximal runs of characters that are not blank. -/
def words (t : Text) : List Text := (t.splitOnP isBlank).filter fun w => !w.isEmpty

/-- The words with one space between two neighbours. -/
def squeeze (t : Text) : Text := joinWith [' '] (words t)

/-- Every text that is left after passing over some number of leading blanks, none included. -/
def blankRests : Text → List Text
  | [] => [[]]
  | c :: t => (c :: t) :: if isBlank c then blankRests t else []

/-- What follows a non-empty run of blanks, the whole run passed over. -/
def afterBlanks? : Text → Option Text
  | [] => none
  | c :: t => if isBlank c then some (trimStart t) else none

end Text
end Ambient
