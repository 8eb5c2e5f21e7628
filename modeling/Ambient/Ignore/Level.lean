import Ambient.Ignore.Rule
import Ambient.Workspace.Basic

/-!
# Ignore files of a directory

What is met in a directory is judged by the ignore files of that directory and of all directories above it.

* There are three kinds of file: `.ignore`, and, where git's rules are respected, `.gitignore` and
  `.git/info/exclude`. A kind that has a verdict overrules the kinds behind it, at whatever level it is.
* Within a kind the nearest directory with a verdict decides.
* What no rule speaks about is ignored if its name starts with a dot.

This order of kinds and directories is ASSUMED of the library `ignore`, and that it asks all directories up to
the top, whether or not they belong to a repository. Two things that it reads besides are LEFT OUT:

* git's rules for all repositories of a user, in the file `core.excludesFile` of the user's settings or in
  `git/ignore` beside them. Where git's rules are respected they would be asked last. They are taken to be
  empty: where they are kept depends on the user, of whom a workspace knows nothing;
* a file `.git` that names a directory elsewhere. Only what stands in a directory `.git` is read.
-/

namespace Ambient

/-- The rules of a directory, seen from a directory below it. -/
structure IgnoreLevel where
  /-- The names that lead from the one to the other. -/
  below : List Name
  plain : List IgnoreRule
  git : List IgnoreRule
  exclude : List IgnoreRule

namespace IgnoreLevel

/-- The rules of the file of this name that is seen from a directory. -/
def fileAt (w : Workspace) (place : Location) (path : Text) : IgnoreFile :=
  match w.resolveIn true place path.toBytes with
  | .error _ => .empty
  | .ok found =>
    match w.tree.at? found with
    | some (.file content) => .read content
    | some (.directory _) | some (.link _) | none => .empty

/-- The path of the ignore file that does not depend on git. -/
def plainName : Text := ".ignore".toList

/-- The path of git's ignore file. -/
def gitName : Text := ".gitignore".toList

/-- The path of the ignore file that git keeps to itself. -/
def excludeName : Text := ".git/info/exclude".toList

/-- The three ignore files of a directory. -/
def files (w : Workspace) (respectGit : Bool) (place : Location) : IgnoreFile × IgnoreFile × IgnoreFile :=
  let gitFile := fun path => if respectGit then fileAt w place path else .empty
  (fileAt w place plainName, gitFile gitName, gitFile excludeName)

/-- The level of a directory, seen from `below` it. -/
def read (w : Workspace) (respectGit : Bool) (place : Location) (below : List Name) : IgnoreLevel :=
  let (plain, git, exclude) := files w respectGit place
  ⟨below, plain.rules, git.rules, exclude.rules⟩

/-- The level as it is seen from one directory deeper. -/
def descend (name : Name) (level : IgnoreLevel) : IgnoreLevel := { level with below := level.below ++ [name] }

/-- The bytes of a relative path. -/
def pathOf (names : List Name) : Bytes := [slash].intercalate names

/-- What rules of one kind say about an entry; the nearest level comes first. -/
def kindVerdict? (levels : List IgnoreLevel) (rules : IgnoreLevel → List IgnoreRule) (name : Name)
    (isDirectory : Bool) : Option Verdict :=
  levels.findSome? fun level =>
    IgnoreRule.verdict? (rules level) (pathOf (level.below ++ [name])) isDirectory

/-- What all rules say about an entry. -/
def verdict? (levels : List IgnoreLevel) (name : Name) (isDirectory : Bool) : Option Verdict :=
  [plain, git, exclude].findSome? fun rules => kindVerdict? levels rules name isDirectory

/-- Does the name start with a dot? -/
def isHidden (name : Name) : Bool := name.head? == some 46

/-- Is the entry passed over? -/
def isIgnored (levels : List IgnoreLevel) (name : Name) (isDirectory : Bool) : Bool :=
  match verdict? levels name isDirectory with
  | some .ignored => true
  | some .kept => false
  | none => isHidden name

/-! ## Above a directory -/

/-- The directories above a place, the nearest first, each with the names that lead back. -/
def above (place : Location) : List (Location × List Name) :=
  (List.range place.length).reverse.map fun n => (place.take n, place.drop n)

/-- The levels above a place, the nearest first. -/
def levelsAbove (w : Workspace) (respectGit : Bool) (place : Location) : List IgnoreLevel :=
  (above place).map fun (directory, below) => read w respectGit directory below

/-- The lines that are refused in an ignore file of a directory. -/
def badLinesIn (directory : Location) (path : Text) (f : IgnoreFile) : List BadLine :=
  f.faults.map fun (number, fault) => ⟨Text.display (pathOf (directory ++ [path.toBytes])), number, fault⟩

/-- The lines that are refused in the ignore files of a directory. -/
def badLines (w : Workspace) (respectGit : Bool) (directory : Location) : List BadLine :=
  let (plain, git, exclude) := files w respectGit directory
  badLinesIn directory plainName plain ++ badLinesIn directory gitName git ++ badLinesIn directory excludeName exclude

/-- What stops a walk at a place before it starts: lines that are refused in the ignore files above it, from the one
    farthest away on. -/
def faultAbove? (w : Workspace) (respectGit : Bool) (place : Location) : Option WalkFault :=
  match (above place).reverse.flatMap fun (directory, _) => badLines w respectGit directory with
  | [] => none
  | lines => some (.badIgnoreLines lines)

end IgnoreLevel
end Ambient
