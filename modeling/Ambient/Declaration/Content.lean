import Ambient.Declaration.Basic

/-!
# Content

Each declaration is shown inside a namespace block rebuilt from what was read. A standalone declaration
stands there alone, its comment before the block. Any other is shown with all its siblings of the same
namespace that are not standalone, in their given order, each after a blank line and its comment.
-/

namespace Ambient.Declaration

/-- The comment on lines of its own. -/
def commentBlock (d : Declaration) : Text := if d.comment.isEmpty then [] else d.comment ++ ['\n']

/-- A namespace block around finished text. -/
def namespaceBlock (path body : Text) : Text :=
  "namespace ".toList ++ path ++ " \x7b\n\n".toList ++ body ++ "\n\n\x7d".toList

/-- Is `s` shown in the block of `d`? -/
def sharesBlock (d s : Declaration) : Bool := s.path = d.path && !s.kind.isStandalone

/-- A sibling as it stands in a shared block. -/
def blockEntry (s : Declaration) : Text := '\n' :: s.commentBlock ++ s.source

/-- The text of the file in which the declaration is shown. -/
def content (d : Declaration) (siblings : List Declaration) : Text :=
  if d.kind.isStandalone then d.commentBlock ++ namespaceBlock d.path d.source
  else namespaceBlock d.path ((siblings.filter d.sharesBlock).flatMap blockEntry)

/-- The line of the content, counted from 1, on which the source is first found; 0 for a standalone
    declaration, for an empty source, and where the source is not found. -/
def lineNumber (d : Declaration) (siblings : List Declaration) : Nat :=
  if d.kind.isStandalone || d.source.isEmpty then 0
  else
    match Text.cut? d.source (d.content siblings) with
    | some (before, _) => Text.lineFeeds before + 1
    | none => 0

end Ambient.Declaration
