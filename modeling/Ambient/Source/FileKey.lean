import Ambient.Text.Basic

/-!
# File keys

A file is known by its path below the workspace root, with `/` between the parts. Keys are ordered as texts.
-/

namespace Ambient

/-- The name under which a file is known. -/
structure FileKey where
  text : Text
  deriving DecidableEq, Repr

namespace FileKey

/-- The key of a path, whose backslashes become slashes. -/
def ofPath (path : Text) : FileKey := ⟨path.map fun c => if c = '\\' then '/' else c⟩

/-- Not after, as a text. -/
def le (a b : FileKey) : Bool := Text.le a.text b.text

/-- The keys in order. -/
def sort (keys : List FileKey) : List FileKey := keys.mergeSort le

end FileKey
end Ambient
