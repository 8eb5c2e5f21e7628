import Ambient.Declaration.Basic

/-!
# Insert texts

Accepting a completion inserts the short name, for a re-export the qualified name, and for a function the
skeleton of a call: `CG.Foo.doIt(x,y)`. The skeleton keeps the names of the parameters and drops their
types, so parameters must be cut apart at the commas outside every bracket pair. `markTopLevel` says which
characters those are; everything else is splitting a list.
-/

namespace Ambient

namespace CallSkeleton

/-- The brackets that open a level. -/
def isOpening (c : Char) : Bool := c == '(' || c == '<' || c == '{' || c == '['

/-- The brackets that close a level; the `>` of an arrow `=>` is none. -/
def isClosing (before c : Char) : Bool := c == ')' || c == '}' || c == ']' || (c == '>' && before != '=')

/-- Marks each character: does it stand outside every bracket pair and belong to none? A closing bracket
    without a partner does. `before` is the character in front of the text, `depth` the open brackets. -/
def markTopLevel (depth : Nat) (before : Char) : Text → List (Char × Bool)
  | [] => []
  | c :: t =>
    if isOpening c then (c, false) :: markTopLevel (depth + 1) c t
    else if isClosing before c && depth != 0 then (c, false) :: markTopLevel (depth - 1) c t
    else (c, depth == 0) :: markTopLevel depth c t

/-- The characters before the first top-level `c`, with their marks. -/
def upTo (c : Char) (t : Text) : List (Char × Bool) :=
  (markTopLevel 0 '\x00' t).takeWhile (· != (c, true))

/-- The part of `name?: Type` before its type, without the question mark. -/
def parameterName (parameter : Text) : Text :=
  Text.trimEnd (Text.dropEndWhile (· == '?') (Text.trim ((upTo ':' parameter).map Prod.fst)))

/-- The parameters of a text that starts behind an opening parenthesis: up to the parenthesis that closes
    it, cut at the top-level commas. -/
def parameters (t : Text) : List Text :=
  ((upTo ')' t).splitOn (',', true)).map fun piece => piece.map Prod.fst

/-- The call without types. A signature without a parenthesis is read as one parameter. -/
def ofSignature (signature : Text) : Text :=
  let t := Text.trim signature
  match Text.cut? ['('] t with
  | none => parameterName t
  | some (callee, behind) =>
    let names := ((parameters behind).map parameterName).filter fun name => !name.isEmpty
    Text.trimEnd callee ++ '(' :: Text.joinWith [','] names ++ [')']

end CallSkeleton

/-- The text that a completion inserts. -/
def Declaration.insertText (d : Declaration) : Text :=
  match d.kind with
  | .function => CallSkeleton.ofSignature d.qualifiedSignature
  | .reExport => d.qualifiedName
  | _ => d.shortName

end Ambient
