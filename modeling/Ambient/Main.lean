import Ambient.Command.Run

/-!
# The program

Reads the files below the current directory, runs the command line on them, prints the answer, and ends with
the exit code. A symbolic link becomes a link to the same place, written relative to its own directory, and one
that leads out of the current directory leads nowhere.
-/

namespace Ambient.Program

/-- The bytes of a content. -/
def bytes (content : ByteArray) : Bytes := content.data.toList

/-- The target of a link at `depth` directories below `home` that leads to the path `target`. -/
def linkTarget (home : String) (depth : Nat) (target : String) : Bytes :=
  match (home ++ "/").toList.isPrefixOf? target.toList with
  | some below => Text.toBytes ((List.replicate depth "../".toList).flatten ++ below)
  | none => Text.toBytes target.toList

/-- The node of a directory's entry, if it can be looked at. -/
partial def nodeOf (home : String) (depth : Nat) (entry : IO.FS.DirEntry) : IO (Option (Name × Node)) := do
  let name := Text.toBytes entry.fileName.toList
  try
    match (← entry.path.symlinkMetadata).type with
    | .dir =>
      let nodes ← (← entry.path.readDir).toList.filterMapM (nodeOf home (depth + 1))
      return some (name, .directory nodes)
    | .file => return some (name, .file (bytes (← IO.FS.readBinFile entry.path)))
    | .symlink =>
      return some (name, .link (linkTarget home depth (← IO.FS.realPath entry.path).toString))
    | .other => return none
  catch _ => return none

/-- The workspace of the current directory. -/
def workspace : IO Workspace := do
  let home ← IO.FS.realPath (← IO.currentDir)
  let nodes ← (← home.readDir).toList.filterMapM (nodeOf home.toString 0)
  return ⟨.directory [([], .directory nodes)]⟩

/-- The variables of the environment that matter. -/
def environment : IO Command.Environment :=
  [Command.rootVariable, Command.configVariable].filterMapM fun name => do
    return (← IO.getEnv (String.ofList name)).map fun value => (name, value.toList)

end Ambient.Program

/-- Runs the command line. -/
def main (args : List String) : IO UInt32 := do
  let w ← Ambient.Program.workspace
  let env ← Ambient.Program.environment
  let exit := Ambient.Command.runLine w env (args.map String.toList)
  IO.print (String.ofList exit.output)
  if let some message := exit.message? then IO.eprintln (String.ofList message)
  return UInt32.ofNat exit.code
