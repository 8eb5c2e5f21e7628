import Ambient.Text.Utf8

/-!
# The tree of files

A workspace is a tree of directories, with files and symbolic links at its leaves. Names and contents are
bytes. A place in the tree is the list of names that lead to it from the top.
-/

namespace Ambient

/-- The name of a directory's entry. -/
abbrev Name := Bytes

/-- The names that lead to a place from the top. -/
abbrev Location := List Name

/-- A file, a link or a directory. -/
inductive Node where
  | file (content : Bytes)
  /-- A symbolic link, with its target as written. -/
  | link (target : Bytes)
  | directory (entries : List (Name × Node))
  deriving Repr

namespace Node

/-- The entries of a directory; nothing else has any. -/
def entries : Node → List (Name × Node)
  | directory entries => entries
  | file _ | link _ => []

/-- Is the node a directory? -/
def isDirectory : Node → Bool
  | directory _ => true
  | file _ | link _ => false

/-- The entry of this name. -/
def child? (n : Node) (name : Name) : Option Node := n.entries.lookup name

/-- The node at a place. -/
def at? : Node → Location → Option Node
  | n, [] => some n
  | n, name :: rest => (n.child? name).bind fun child => child.at? rest

/-- Puts `new` in the place of the entry of this name, or behind the last entry. -/
def putEntry (name : Name) (new : Node) : List (Name × Node) → List (Name × Node)
  | [] => [(name, new)]
  | (other, old) :: entries =>
    if other = name then (name, new) :: entries else (other, old) :: putEntry name new entries

/-- The tree with `new` at a place; directories on the way there are made where they are missing. -/
def putAt (new : Node) : Node → Location → Node
  | _, [] => new
  | n, name :: rest =>
    directory (putEntry name (putAt new ((n.child? name).getD (directory [])) rest) n.entries)

mutual

/-- Number of nodes. -/
def size : Node → Nat
  | file _ => 1
  | link _ => 1
  | directory entries => sizeOfAll entries + 1

/-- Number of nodes in the entries. -/
def sizeOfAll : List (Name × Node) → Nat
  | [] => 0
  | (_, child) :: entries => child.size + sizeOfAll entries

end

end Node
end Ambient
