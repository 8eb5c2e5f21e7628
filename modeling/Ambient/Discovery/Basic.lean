import Ambient.Discovery.Settings
import Ambient.Discovery.Walk
import Ambient.Source.Basic

/-!
# Discovery

A discovery looks for declaration files in a workspace: the files below its root whose path matches a glob.

* Its settings are checked in this order: number of files, root, glob.
* A glob without `**` bounds the depth of the walk by the number of its parts.
* No file counts that has a skipped name in its path; `node_modules` and `.git` are always skipped.
* Files are ordered by the names on their paths, from the top, and the first ones are taken.
-/

namespace Ambient

/-- A discovery that can be carried out. -/
structure Discovery where
  settings : DiscoverySettings
  glob : Glob

namespace Discovery

/-- Names that are always skipped. -/
def alwaysSkipped : List Text := ["node_modules".toList, ".git".toList]

/-- The discovery with these settings. -/
def ofSettings (w : Workspace) (s : DiscoverySettings) : Except SourceError Discovery :=
  if s.maxFiles = 0 then .error (.settings .noFiles)
  else if !w.pathExists s.root.toBytes then .error (.settings (.rootMissing s.root))
  else if !w.isDirectory s.root.toBytes then .error (.settings (.rootNotDirectory s.root))
  else
    match Glob.parse false s.pattern with
    | .error cause => .error (.glob s.pattern cause)
    | .ok glob => .ok ⟨s, glob⟩

/-- The depth of the deepest path that a pattern can match, if that is bounded. -/
def maxDepth? (pattern : Text) : Option Nat :=
  if Text.has "**".toList pattern then none else some (pattern.splitOn '/').length

/-- Does the glob match a path below the root? Backslashes count as slashes. -/
def selects (glob : Glob) (path : Text) : Bool := glob.matchesPath (FileKey.ofPath path).text.toBytes

/-- Has the path a skipped name? -/
def isSkipped (s : DiscoverySettings) (names : List Text) : Bool :=
  names.any fun name => alwaysSkipped.contains name || s.skipDirs.contains name

/-- The path of the names. -/
def pathOfNames (names : List Text) : Text := Text.joinWith ['/'] names

/-- Not after, name by name. -/
def namesLe : List Text → List Text → Bool
  | [], _ => true
  | _ :: _, [] => false
  | a :: as, b :: bs => if a = b then namesLe as bs else Text.le a b

/-- The name that stands for an input. -/
def dash : Name := [45]

/-- How the tree is walked. -/
def walkOptions (s : DiscoverySettings) : WalkOptions :=
  { root := s.root, followLinks := s.followLinks, respectGit := s.respectGitignore,
    maxDepth := maxDepth? s.pattern }

/-- Does the root stand for an input and not for a directory? The walk takes the name `-` for one, whatever slashes
    and dots are written behind it. -/
def isInput (root : Text) : Bool :=
  match Path.names root.toBytes with
  | [] => false
  | name :: behind => name == dash && behind.all fun other => other.isEmpty || other == Path.dot

/-- All files below the root. An input has none. -/
def allFiles (d : Discovery) (w : Workspace) : Except SourceError (List (List Text)) :=
  if isInput d.settings.root then .ok []
  else
    match w.resolve d.settings.root.toBytes with
    | .error _ => .ok []
    | .ok place => Walk.walk w (walkOptions d.settings) place

/-- Is the file one that is looked for? -/
def isWanted (d : Discovery) (names : List Text) : Bool :=
  !isSkipped d.settings names && selects d.glob (pathOfNames names)

/-- The paths of the files that are taken, below the root. -/
def paths (d : Discovery) (w : Workspace) : Except SourceError (List Text) :=
  (d.allFiles w).map fun files =>
    (((files.filter d.isWanted).mergeSort namesLe).take d.settings.maxFiles.toNat).map pathOfNames

/-- The keys of the files that are taken. -/
def keys (d : Discovery) (w : Workspace) : Except SourceError (List FileKey) :=
  (d.paths w).map fun paths => paths.map FileKey.ofPath

/-- The path of a file. -/
def pathOf (d : Discovery) (file : FileKey) : Text := Path.join d.settings.root file.text

/-- The text of a file. -/
def read (d : Discovery) (w : Workspace) (file : FileKey) : Except SourceError Text :=
  match w.readText (d.pathOf file) with
  | .ok t => .ok t
  | .error cause => .error (.read (d.pathOf file) cause)

/-- The files of a workspace as a source. -/
def source (d : Discovery) (w : Workspace) : Source := ⟨d.keys w, d.read w⟩

end Discovery
end Ambient
