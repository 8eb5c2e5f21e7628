import Ambient.Source.Error
import Ambient.Source.FileKey

/-!
# Sources of files

A source lists the declaration files it knows and gives the text of each. What it answers is fixed: a
source is looked at once per refresh.
-/

namespace Ambient

/-- A source of declaration files. -/
structure Source where
  /-- The files, in key order. -/
  discover : Except SourceError (List FileKey)
  /-- The text of a file. -/
  read : FileKey → Except SourceError Text

end Ambient
