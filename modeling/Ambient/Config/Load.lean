import Ambient.Config
import Ambient.Workspace.Basic

/-!
# Configuration files

A configuration file is read, parsed and checked, in this order. Whether the root that it names is a directory
is a question of its own.
-/

namespace Ambient.Config

/-- Why a configuration file is of no use. -/
inductive LoadError where
  | read (path : Text) (cause : ReadCause)
  | parse (path : Text) (fault : Json.Fault)
  | objection (o : Objection)
  deriving DecidableEq, Repr

/-- Why the root of a discovery is of no use. -/
inductive RootError where
  | missing (root : Text)
  | notDirectory (root : Text)
  deriving DecidableEq, Repr

/-- The text of a file that cannot be read. -/
def readMessage (path : Text) (cause : ReadCause) : Text :=
  "failed to read ".toList ++ path ++ ": ".toList ++ cause.message

/-- The fault in words. -/
def RootError.message : RootError → Text
  | missing root => "workspace root does not exist: ".toList ++ root
  | notDirectory root => "workspace root is not a directory: ".toList ++ root

/-- The configuration in a file. -/
def load (w : Workspace) (path : Text) : Except LoadError Config :=
  match w.readText path with
  | .error cause => .error (.read path cause)
  | .ok t =>
    match parse t with
    | .error fault => .error (.parse path fault)
    | .ok config =>
      match config.objection? with
      | some o => .error (.objection o)
      | none => .ok config

/-- What is wrong with the root of the discovery. -/
def rootError? (w : Workspace) (c : Config) : Option RootError :=
  let root := c.discovery.root
  if !w.pathExists root.toBytes then some (.missing root)
  else if !w.isDirectory root.toBytes then some (.notDirectory root)
  else none

end Ambient.Config
