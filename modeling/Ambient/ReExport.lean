import Ambient.Declaration.Basic
import Ambient.Text.Blank
import Ambient.Text.Word

/-!
# Re-export groups

Groups `export { A, B as C };` are found in the text as a whole, across lines.

* A namespace mark is `namespace`, blanks, a name of word characters and dots, blanks, and a brace. A group
  belongs to the nearest mark before it; before the first mark groups do not count.
* A group's list has at least one character: behind `{` the first character always belongs to it, and it
  ends before the next `}`.
* An entry is a word, or `word as word`; what else stands between commas is dropped. The last word is the
  exported name.

One entry makes a one-line group. Several make one declaration each, numbered, whose sources together are
the whole group on lines of its own.
-/

namespace Ambient.ReExport

/-! ## 1. Namespace marks -/

/-- The name of a namespace mark at the start of the text. -/
def markAt? (t : Text) : Option Text := do
  let behind ← List.isPrefixOf? "namespace".toList t
  let t ← Text.afterBlanks? behind
  let isNamePart := fun c => isWordChar c || c == '.'
  let name := t.takeWhile isNamePart
  guard !name.isEmpty
  let t ← Text.afterBlanks? (t.dropWhile isNamePart)
  guard (t.head? == some '{')
  return name

/-! ## 2. Groups -/

/-- The list of a group at the start of the text, and what stands behind the group. -/
def groupAt? (t : Text) : Option (Text × Text) := do
  let behind ← List.isPrefixOf? "export".toList t
  match ← Text.afterBlanks? behind with
  | '{' :: c :: t =>
    let (before, rest) ← Text.cut? ['}'] t
    return (c :: before, rest)
  | _ => none

/-- A group with the namespace it belongs to. -/
structure Group where
  path : Text
  list : Text
  deriving DecidableEq, Repr

/-- The groups of a text, of which the first `skip` characters belong to an earlier group; `path?` is the
    nearest namespace mark before the text. -/
def groupsFrom (path? : Option Text) : Nat → Text → List Group
  | _, [] => []
  | skip + 1, c :: t =>
    groupsFrom ((markAt? (c :: t)).orElse fun _ => path?) skip t
  | 0, c :: t =>
    match groupAt? (c :: t) with
    | some (list, rest) =>
      (path?.map fun path => ⟨path, list⟩).toList ++ groupsFrom path? (t.length - rest.length) t
    | none => groupsFrom ((markAt? (c :: t)).orElse fun _ => path?) 0 t

/-- The groups of a text that belong to a namespace. -/
def groups (t : Text) : List Group := groupsFrom none 0 t

/-! ## 3. Entries -/

/-- An entry of a group. -/
structure Entry where
  text : Text
  exported : Text
  deriving DecidableEq, Repr

/-- The entry that a trimmed text is. -/
def Entry.read? (text : Text) : Option Entry := do
  let (name, rest) ← Text.wordRun? text
  if rest.isEmpty then return ⟨text, name⟩
  let rest ← Text.afterBlanks? rest
  let rest ← List.isPrefixOf? "as".toList rest
  let rest ← Text.afterBlanks? rest
  let (newName, rest) ← Text.wordRun? rest
  guard rest.isEmpty
  return ⟨text, newName⟩

/-- The entries of a group's list. -/
def entries (list : Text) : List Entry := (list.splitOn ',').filterMap fun piece => Entry.read? (Text.trim piece)

/-! ## 4. Declarations -/

/-- The declaration of an entry with the given source. -/
def declare (path : Text) (entry : Entry) (source : Text) : Declaration :=
  ((Draft.start path .reExport entry.exported [] true).withSource source).finish []

/-- The source of entry `n` of a group of `count` entries. -/
def entrySource (n count : Nat) (entry : Entry) : Text :=
  (if n = 0 then "    export \x7b\n".toList else []) ++ "        ".toList ++ entry.text ++ [','] ++
    (if n + 1 = count then "\n    \x7d".toList else [])

/-- The declarations of a group. -/
def Group.declarations (group : Group) : List Declaration :=
  match entries group.list with
  | [] => []
  | [entry] => [declare group.path entry ("    export \x7b ".toList ++ entry.text ++ " \x7d".toList)]
  | several =>
    several.mapIdx fun n entry =>
      (declare group.path entry (entrySource n several.length entry)).withOrdinal n

/-- The declarations of all groups of a text, in text order. -/
def declarations (t : Text) : List Declaration := (groups t).flatMap Group.declarations

end Ambient.ReExport
