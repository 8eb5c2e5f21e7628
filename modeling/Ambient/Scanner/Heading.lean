import Ambient.Text.Blank

/-!
# Namespace headings

A heading is a line on which only `export` and `declare` stand before the first `namespace `, with a name
behind it. The name ends at the next space; braces at its end are no part of it. What stands behind the
first brace, if it is not blank, is a declaration line of the new namespace.
-/

namespace Ambient

/-- A namespace heading. -/
structure Heading where
  path : Text
  /-- The text behind the opening brace. -/
  rest? : Option Text
  deriving DecidableEq, Repr

namespace Heading

/-- The words that may stand before `namespace`. -/
def modifiers : List Text := ["export".toList, "declare".toList]

/-- The heading on a line. -/
def read? (line : Text) : Option Heading :=
  match Text.cut? "namespace ".toList line with
  | none => none
  | some (before, behind) =>
    if !(Text.words before).all modifiers.contains then none
    else
      let path := Text.trim (Text.dropEndWhile (· == '{') (behind.takeWhile (· != ' ')))
      if path.isEmpty then none
      else
        let rest := (behind.dropWhile (· != '{')).drop 1
        some ⟨path, if Text.allBlank rest then none else some rest⟩

end Heading
end Ambient
