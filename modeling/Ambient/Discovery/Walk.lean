import Ambient.Ignore.Level

/-!
# Walking a tree

`walk` gives the files below a directory, each by the names that lead to it.

* Only regular files count. A link counts as what it leads to, if links are followed, and as nothing if not.
* What the ignore rules pass over is left out, a directory with all it holds. The directory at which the walk
  starts is never left out.
* Files are looked for down to a greatest depth, if there is one.
* A followed link must lead somewhere, and not to a directory that the walk is in; if it does not, the walk
  stops there and then, even if the link itself would be passed over.
* A file whose path is no text stops the walk as well.

The directories that links lead to on one way down are all different, and between two of them the way goes down
the tree. So the way is shorter than the square of the number of nodes.

The library `ignore` does the walking. ASSUMED of it, and shown by nothing here: that it follows a link before it
asks the rules about it; that it counts depth from the root; that it tells of a faulty line in an ignore file
above the root before it finds anything, and of one in another ignore file never; that it takes a root `-` for an
input; and the texts of `WalkFault`. The entries of a directory come in the order of the tree, which decides
nothing but the fault that is met first.
-/

namespace Ambient

/-- How a tree is walked. -/
structure WalkOptions where
  /-- The path of the directory at which the walk starts. -/
  root : Text
  followLinks : Bool
  respectGit : Bool
  maxDepth : Option Nat

namespace Walk

/-- What an entry counts as. -/
inductive Target where
  | file
  | directory (place : Location)
  /-- A link that is not followed. -/
  | other

/-- The path of something below the root, as bytes. -/
def pathBytes (o : WalkOptions) (names : List Name) : Bytes :=
  let root := o.root.toBytes
  (if root.getLast? = some slash then root else root ++ [slash]) ++ IgnoreLevel.pathOf names

/-- The directory that the walk is in, on its way down from the root. -/
structure Here where
  place : Location
  /-- The names that lead here from the root. -/
  names : List Name
  /-- The places of the directories from here up to the root. -/
  path : List Location
  levels : List IgnoreLevel

/-- The path by which the walk has come to a directory that it is in. -/
def pathBack (o : WalkOptions) (here : Here) (place : Location) : Bytes :=
  let names := here.names.take (here.names.length - here.path.idxOf place)
  if names.isEmpty then o.root.toBytes else pathBytes o names

/-- What a link counts as. -/
def followed (w : Workspace) (o : WalkOptions) (here : Here) (name : Name) (target : Bytes) :
    Except SourceError Target :=
  let shown := Text.display (pathBytes o (here.names ++ [name]))
  match w.resolveFrom true Workspace.maxLinks (Workspace.startOf here.place target) (Path.names target) with
  | .error cause => .error (.walk (.unresolved shown cause))
  | .ok place =>
    match w.tree.at? place with
    | some (.directory _) =>
      if here.path.contains place then .error (.walk (.cycle shown (Text.display (pathBack o here place))))
      else .ok (.directory place)
    | _ => .ok .file

/-- What an entry counts as. -/
def targetOf (w : Workspace) (o : WalkOptions) (here : Here) (name : Name) : Node → Except SourceError Target
  | .file _ => .ok .file
  | .directory _ => .ok (.directory (here.place ++ [name]))
  | .link target => if o.followLinks then followed w o here name target else .ok .other

/-- The names as texts, if they are. -/
def textNames (o : WalkOptions) (names : List Name) : Except SourceError (List Text) :=
  match names.mapM Text.ofBytes? with
  | some texts => .ok texts
  | none => .error (.nonUnicodePath (Text.display (pathBytes o names)))

/-- The files below a directory, with this many steps down left. -/
def filesBelow (w : Workspace) (o : WalkOptions) : Nat → Here → Except SourceError (List (List Text))
  | 0, _ => .ok []
  | steps + 1, here =>
    if o.maxDepth.any fun depth => depth ≤ here.names.length then .ok []
    else
      (((w.tree.at? here.place).map Node.entries).getD []).foldlM (fun found (name, node) => do
        let target ← targetOf w o here name node
        let isDirectory := match target with
          | .directory _ => true
          | .file | .other => false
        if IgnoreLevel.isIgnored here.levels name isDirectory then return found
        match target with
        | .other => return found
        | .file => return found ++ [← textNames o (here.names ++ [name])]
        | .directory place =>
          let levels :=
            IgnoreLevel.read w o.respectGit place [] :: here.levels.map (IgnoreLevel.descend name)
          let below ← filesBelow w o steps ⟨place, here.names ++ [name], place :: here.path, levels⟩
          return found ++ below) []

/-- The files below the directory at `place`. -/
def walk (w : Workspace) (o : WalkOptions) (place : Location) : Except SourceError (List (List Text)) :=
  match IgnoreLevel.faultAbove? w o.respectGit place with
  | some fault => .error (.walk fault)
  | none =>
    let levels := IgnoreLevel.read w o.respectGit place [] :: IgnoreLevel.levelsAbove w o.respectGit place
    filesBelow w o ((w.tree.size + 1) * (w.tree.size + 1)) ⟨place, [], [place], levels⟩

end Walk
end Ambient
