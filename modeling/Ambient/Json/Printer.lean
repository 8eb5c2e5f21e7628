import Ambient.Json.Basic

/-!
# Printing JSON

Two layouts: `compact` on one line, `pretty` with a line for each item and field, indented by two spaces per
level. An empty list or record takes no lines of its own. In a text the quote, the backslash and the control
characters are escaped, all else stands for itself. Both layouts are ASSUMED of the library `serde_json`.
-/

namespace Ambient.Json

/-! ## 1. Texts -/

/-- The lower-case hexadecimal digit. -/
def hexDigit (n : Nat) : Char := Nat.digitChar n

/-- How a character is written in a text. -/
def escape (c : Char) : Text :=
  if c = '"' then "\\\"".toList
  else if c = '\\' then "\\\\".toList
  else if c = '\x08' then "\\b".toList
  else if c = '\x0c' then "\\f".toList
  else if c = '\n' then "\\n".toList
  else if c = '\r' then "\\r".toList
  else if c = '\t' then "\\t".toList
  else if c.toNat < 32 then "\\u00".toList ++ [hexDigit (c.toNat / 16), hexDigit (c.toNat % 16)]
  else [c]

/-- A text in quotes. -/
def quote (t : Text) : Text := '"' :: t.flatMap escape ++ ['"']

/-! ## 2. Layouts -/

mutual

/-- The value on one line. -/
def compact : Json → Text
  | null => "null".toList
  | bool true => "true".toList
  | bool false => "false".toList
  | number written => written
  | text t => quote t
  | list items => '[' :: Text.joinWith [','] (compactItems items) ++ [']']
  | record fields => '{' :: Text.joinWith [','] (compactFields fields) ++ ['}']

/-- The items of a list. -/
def compactItems : List Json → List Text
  | [] => []
  | item :: items => compact item :: compactItems items

/-- The fields of a record. -/
def compactFields : List (Text × Json) → List Text
  | [] => []
  | (name, value) :: fields => (quote name ++ ':' :: compact value) :: compactFields fields

end

/-- A line break and the indentation of a level. -/
def newLine (level : Nat) : Text := '\n' :: List.replicate (2 * level) ' '

/-- Parts in brackets, each on a line of its own one level deeper. -/
def block (level : Nat) (opening closing : Char) (parts : List Text) : Text :=
  if parts.isEmpty then [opening, closing]
  else
    opening :: newLine (level + 1) ++ Text.joinWith (',' :: newLine (level + 1)) parts ++
      newLine level ++ [closing]

mutual

/-- The value over several lines, of which all but the first are indented to the level. -/
def prettyAt (level : Nat) : Json → Text
  | null => "null".toList
  | bool true => "true".toList
  | bool false => "false".toList
  | number written => written
  | text t => quote t
  | list items => block level '[' ']' (prettyItems (level + 1) items)
  | record fields => block level '{' '}' (prettyFields (level + 1) fields)

/-- The items of a list. -/
def prettyItems (level : Nat) : List Json → List Text
  | [] => []
  | item :: items => prettyAt level item :: prettyItems level items

/-- The fields of a record. -/
def prettyFields (level : Nat) : List (Text × Json) → List Text
  | [] => []
  | (name, value) :: fields => (quote name ++ ": ".toList ++ prettyAt level value) :: prettyFields level fields

end

/-- The value over several lines. -/
def pretty (value : Json) : Text := prettyAt 0 value

end Ambient.Json
