import Ambient.Workspace.Node

/-!
# Paths

A path is written with slashes between its names. Empty names and `.` say nothing, `..` goes up, and a
leading slash starts at the top.
-/

namespace Ambient.Path

/-- Does the path start at the top? -/
def isAbsolute (path : Bytes) : Bool := path.head? == some slash

/-- The names of a path, empty ones and dots included. -/
def names (path : Bytes) : List Name := path.splitOn slash

/-- The name that stands for its directory. -/
def dot : Name := [46]

/-- The name that stands for the directory above. -/
def dotDot : Name := [46, 46]

/-- A path below another one. An absolute path is below nothing but itself. -/
def join (base path : Text) : Text :=
  if path.head? = some '/' then path
  else if base.isEmpty then path
  else if base.getLast? = some '/' then base ++ path
  else base ++ '/' :: path

end Ambient.Path
