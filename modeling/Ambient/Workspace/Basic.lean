import Ambient.Source.Error
import Ambient.Workspace.Path

/-!
# Workspaces

A workspace is the directory that relative paths start from, and all that can be known of the file system: it
hangs below the top under an EMPTY name, so that no path leads into it from above. What is above it is a
directory in which nothing can be found.

`resolve` follows a path name by name. Links are followed on the way, forty of them at most; whether one at the
end is followed is up to the caller. Anything but a directory ends the path, or is an error. The operating
system is ASSUMED to resolve paths so, with these limits and these errors.
-/

namespace Ambient

/-- A workspace, with the tree that it is part of. -/
structure Workspace where
  tree : Node

namespace Workspace

/-- Where relative paths start. -/
def home : Location := [[]]

/-! ## 1. Resolving -/

/-- Where a path has led before the next link. -/
inductive Progress where
  | arrived (place : Location)
  /-- At a link, found in the directory `place`, with names still to come. -/
  | atLink (place : Location) (target : Bytes) (rest : List Name)
  | failed (cause : ReadCause)

/-- The longest name there can be. -/
def maxName : Nat := 255

/-- Follows names from the directory `place` up to the first link. -/
def advance (w : Workspace) (followLast : Bool) : Location → List Name → Progress
  | place, [] => .arrived place
  | place, name :: rest =>
    if name = [] ∨ name = Path.dot then advance w followLast place rest
    else if name = Path.dotDot then advance w followLast place.dropLast rest
    else if maxName < name.length then .failed .nameTooLong
    else
      match w.tree.at? (place ++ [name]) with
      | none => .failed .missing
      | some (.directory _) => advance w followLast (place ++ [name]) rest
      | some (.file _) => if rest.isEmpty then .arrived (place ++ [name]) else .failed .notDirectory
      | some (.link target) =>
        if rest.isEmpty && !followLast then .arrived (place ++ [name]) else .atLink place target rest

/-- Where a path starts that is met in the directory `place`. -/
def startOf (place : Location) (path : Bytes) : Location := if Path.isAbsolute path then [] else place

/-- Follows names, through this many links at most. -/
def resolveFrom (w : Workspace) (followLast : Bool) : Nat → Location → List Name → Except ReadCause Location
  | links, place, names =>
    match w.advance followLast place names with
    | .arrived found => .ok found
    | .failed cause => .error cause
    | .atLink found target rest =>
      match links with
      | 0 => .error .linkLoop
      | links + 1 =>
        if target.isEmpty then .error .missing
        else resolveFrom w followLast links (startOf found target) (Path.names target ++ rest)

/-- The most links that a path may lead through. -/
def maxLinks : Nat := 40

/-- The place that a path names, seen from a directory. -/
def resolveIn (w : Workspace) (followLast : Bool) (place : Location) (path : Bytes) :
    Except ReadCause Location :=
  if path.contains 0 then .error .zeroInPath
  else if path.isEmpty then .error .missing
  else w.resolveFrom followLast maxLinks (startOf place path) (Path.names path)

/-- The place that a path names. -/
def resolve (w : Workspace) (path : Bytes) : Except ReadCause Location := w.resolveIn true home path

/-! ## 2. Looking -/

/-- The node that a path names. -/
def node? (w : Workspace) (path : Bytes) : Option Node :=
  match w.resolve path with
  | .ok place => w.tree.at? place
  | .error _ => none

/-- Does the path name anything? -/
def pathExists (w : Workspace) (path : Bytes) : Bool := (w.node? path).isSome

/-- Does the path name a directory? -/
def isDirectory (w : Workspace) (path : Bytes) : Bool := (w.node? path).any Node.isDirectory

/-- The bytes of the file at a path. -/
def readBytes (w : Workspace) (path : Bytes) : Except ReadCause Bytes :=
  match w.resolve path with
  | .error cause => .error cause
  | .ok place =>
    match w.tree.at? place with
    | some (.file content) => .ok content
    | some (.directory _) => .error .isDirectory
    | some (.link _) | none => .error .missing

/-- The text of the file at a path. -/
def readText (w : Workspace) (path : Text) : Except ReadCause Text :=
  match w.readBytes path.toBytes with
  | .error cause => .error cause
  | .ok content =>
    match Text.ofBytes? content with
    | some t => .ok t
    | none => .error .notUnicode

/-! ## 3. Building -/

/-- A workspace without files. -/
def empty : Workspace := ⟨.directory [([], .directory [])]⟩

/-- The names of a path that say something. -/
def plainNames (path : Bytes) : List Name := (Path.names path).filter fun name => name ≠ [] ∧ name ≠ Path.dot

/-- The place of a directory that is there or is to be made in `place`. One that is reached through a link counts
    as what the link leads to. -/
def enter (w : Workspace) (place : Location) (name : Name) : Location :=
  match w.resolveFrom true maxLinks place [name] with
  | .ok found => found
  | .error _ => place ++ [name]

/-- The place at which something of this path is put. -/
def placeOf (w : Workspace) (path : Bytes) : Location :=
  let names := plainNames path
  names.dropLast.foldl w.enter home ++ names.getLast?.toList

/-- Puts a node at a path. A directory that is there already stays as it is. -/
def put (w : Workspace) (path : Bytes) (node : Node) : Workspace :=
  let place := w.placeOf path
  if node.isDirectory && ((w.tree.at? place).any Node.isDirectory) then w
  else ⟨Node.putAt node w.tree place⟩

/-- The workspace with these nodes, put one after the other. -/
def ofFiles (files : List (Bytes × Node)) : Workspace :=
  files.foldl (fun w file => w.put file.1 file.2) empty

end Workspace
end Ambient
