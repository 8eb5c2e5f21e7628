import Ambient.Text.Basic

/-!
# Settings of a discovery

Where declaration files are looked for, and which are taken.
-/

namespace Ambient

/-- The settings of a discovery. -/
structure DiscoverySettings where
  /-- The directory that the pattern is relative to. -/
  root : Text
  /-- The glob that a file's path below the root must match. -/
  pattern : Text
  /-- The most files that are taken. -/
  maxFiles : UInt64
  /-- Names of directories whose files are not taken. -/
  skipDirs : List Text
  followLinks : Bool
  /-- Do `.gitignore` files hide files? -/
  respectGitignore : Bool
  deriving DecidableEq, Repr

/-- The settings used where none are given. -/
def DiscoverySettings.standard : DiscoverySettings :=
  { root := ['.'], pattern := "typings/*_modules.*.d.ts".toList, maxFiles := 1000,
    skipDirs := ["node_modules".toList, ".git".toList], followLinks := false, respectGitignore := false }

end Ambient
