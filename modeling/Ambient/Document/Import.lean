import Ambient.Declaration.Basic
import Ambient.Document.Position

/-!
# Imports

A document uses a declaration through the statement `import S = Q;`, with its short and its qualified name.

* A line is an import if, trimmed, it reads `import`, a blank, something, a blank, `from` or `=`, a blank,
  something.
* It imports a declaration if it is an import and is that declaration's statement, with any blanks between
  its parts and the semicolon left out or not.
* A new statement goes behind the LEADING RUN: the first lines of the document, as long as they are imports
  or blank, up to the last import among them. Without a leading import it goes to the top, and a blank line
  is put between it and the text.
-/

namespace Ambient

/-- Text to insert at a position. -/
structure Edit where
  position : Position
  text : Text
  deriving DecidableEq, Repr

namespace Import

/-! ## 1. Import lines -/

/-- The words after which an import names its origin. -/
def originWords : List Text := ["from".toList, ['=']]

/-- Does the text start with a blank, an origin word, a blank, and something? -/
def startsOrigin : Text → Bool
  | [] => false
  | c :: t =>
    isBlank c && originWords.any fun word =>
      match word.isPrefixOf? t with
      | some (d :: _ :: _) => isBlank d
      | _ => false

/-- Does an origin start somewhere in the text? -/
def hasOrigin : Text → Bool
  | [] => false
  | c :: t => startsOrigin (c :: t) || hasOrigin t

/-- Is the trimmed line an import? -/
def isImport (line : Text) : Bool :=
  match "import".toList.isPrefixOf? line with
  | some (c :: _ :: rest) => isBlank c && hasOrigin rest
  | _ => false

/-! ## 2. Statements -/

/-- The statement that imports the declaration. -/
def statement (d : Declaration) : Text :=
  "import ".toList ++ d.shortName ++ " = ".toList ++ d.qualifiedName ++ [';']

/-- What is left of the text after any blanks and then `part`, for every number of blanks that lets `part`
    follow. -/
def afterPart (part t : Text) : List Text := (Text.blankRests t).filterMap part.isPrefixOf?

/-- Blanks, and then a semicolon or nothing. -/
def isStatementEnd (t : Text) : Bool :=
  Text.allBlank t || (t.getLast? == some ';' && Text.allBlank t.dropLast)

/-- Is the trimmed line the statement of the declaration, up to blanks? -/
def isStatementOf (d : Declaration) (line : Text) : Bool :=
  match "import".toList.isPrefixOf? line with
  | some (c :: t) =>
    isBlank c &&
      (((afterPart d.shortName t).flatMap (afterPart ['='])).flatMap (afterPart d.qualifiedName)).any
        isStatementEnd
  | _ => false

/-- Does the trimmed line import the declaration? -/
def imports (d : Declaration) (line : Text) : Bool := isImport line && isStatementOf d line

/-! ## 3. Placement -/

/-- The lines of a document, trimmed. -/
def trimmedLines (document : Text) : List Text := (Text.lines document).map Text.trim

/-- The leading run of imports, with the blank lines between them. -/
def leadingRun (lines : List Text) : List Text :=
  Text.dropEndWhile (fun line => !isImport line) (lines.takeWhile fun line => line.isEmpty || isImport line)

/-- The text to insert at a line: the statement, and at the top of the document a blank line. -/
def textAt (line : Nat) (d : Declaration) : Text :=
  statement d ++ ['\n'] ++ if line = 0 then ['\n'] else []

/-- A line number; one too large for the editor becomes the largest it knows. -/
def lineNumber (n : Nat) : UInt32 := UInt32.ofNat (min n 0xFFFFFFFF)

/-- The edit that imports the declaration, unless the document imports it already. -/
def edit? (document : Text) (d : Declaration) : Option Edit :=
  let lines := trimmedLines document
  if lines.any (imports d) then none
  else
    let line := (leadingRun lines).length
    some ⟨⟨lineNumber line, 0⟩, textAt line d⟩

end Import
end Ambient
