import Ambient.Command.Basic
import Ambient.Config.Load
import Ambient.Data
import Ambient.Declaration.Content
import Ambient.Declaration.Markup
import Ambient.Discovery.Basic

/-!
# Running commands

A command is answered from a workspace: its configuration is put together and checked, the declaration files are
discovered and taken in, and the query is put to the advisor. The answer is text. A file that cannot be read
is passed over; every other fault ends the run with a message.
-/

namespace Ambient

/-- What the program leaves behind. -/
inductive Exit where
  | success (output : Text)
  | failure (message : Text)
  | misuse
  deriving DecidableEq, Repr

namespace Exit

/-- The exit code. -/
def code : Exit → Nat
  | success _ => 0
  | failure _ => 1
  | misuse => 2

/-- What is printed. -/
def output : Exit → Text
  | success output => output
  | failure _ | misuse => []

/-- The message of a failure. -/
def message? : Exit → Option Text
  | failure message => some message
  | success _ | misuse => none

end Exit

namespace Command

/-! ## 1. Preparation -/

/-- The configuration of a command, before it is checked. -/
def baseConfig (w : Workspace) (c : Command) : Except Text Config :=
  match c.config? with
  | none => .ok .standard
  | some path =>
    match Config.load w path with
    | .ok config => .ok config
    | .error _ => .error ("Failed to load configuration from ".toList ++ path)

/-- The configuration of a command. -/
def configOf (w : Workspace) (c : Command) : Except Text Config := do
  let base ← c.baseConfig w
  let discovery :=
    { base.discovery with
      root := c.root?.getD base.discovery.root
      pattern := c.pattern?.getD base.discovery.pattern }
  let config := { base with discovery }
  if let some o := config.objection? then throw o.message
  if let some e := config.rootError? w then throw e.message
  return config

/-- The advisor that knows all declaration files of the workspace. -/
def advisorOf (w : Workspace) (config : Config) : Except Text Advisor := do
  let discovery ← (Discovery.ofSettings w config.discovery).mapError SourceError.message
  let (index, result) := Index.empty.refreshWatched (discovery.source w)
  let _ ← result.mapError SourceError.message
  return ⟨config.advisor, index⟩

/-- The text of a document. -/
def document (w : Workspace) (path : Text) : Except Text Text :=
  (w.readText path).mapError fun _ => "Failed to read document ".toList ++ path

/-! ## 2. Answers -/

/-- A line of output. -/
def outputLine (t : Text) : Text := t ++ ['\n']

/-- Data as output. -/
def outputData (items : List Json) : Text := outputLine (Json.list items).pretty

/-- The text, filled up with spaces to forty characters. -/
def pad (t : Text) : Text := t ++ List.replicate (40 - t.length) ' '

/-- The declarations, one per line, and their number. -/
def listing (ds : List Declaration) : Text :=
  (ds.flatMap fun d => outputLine (pad d.label ++ ' ' :: d.detail)) ++ outputLine [] ++
    outputLine (Text.ofNat ds.length ++ " symbols".toList)

/-- The edit that imports a declaration. -/
def importAnswer (d : Declaration) : Option Edit → Text
  | some edit =>
    outputLine ("Insert at line ".toList ++ Text.ofNat edit.position.line.toNat ++ [':']) ++ edit.text
  | none => outputLine (d.qualifiedName ++ " is already imported".toList)

/-- All that is shown of a declaration. -/
def displayAnswer (d : Declaration) (siblings : List Declaration) : Text :=
  let line := d.lineNumber siblings
  outputLine d.title ++ outputLine d.detail ++ outputLine [] ++ outputLine d.markup ++ outputLine [] ++
    outputLine (d.content siblings) ++
    if line = 0 then [] else outputLine [] ++ outputLine ("Declared at line ".toList ++ Text.ofNat line)

/-- A name that nothing is known by. -/
def unknownSymbol (name : Text) : Text := "Unknown symbol: ".toList ++ name

/-- The answer to a query. -/
def answer (w : Workspace) (a : Advisor) : Query → Except Text Text
  | .symbols start asData =>
    let ds := a.catalogue.suggest start
    .ok (if asData then outputData (ds.map Declaration.toJson) else listing ds)
  | .complete word document? => do
    let document? ← document?.mapM (document w)
    return outputData ((a.completions word document?).map Proposal.toJson)
  | .importEdit name path => do
    let some entry := a.catalogue.findShort? name | throw (unknownSymbol name)
    let text ← document w path
    return importAnswer entry.declaration (Import.edit? text entry.declaration)
  | .fix path line start stop code => do
    let text ← document w path
    let range := Range.onLine line start stop
    let diagnostic := ⟨range, code, a.settings.diagnosticSource⟩
    return outputData ((a.fix? text range [diagnostic]).toList.map Fix.toJson)
  | .display name => do
    let some entry := a.catalogue.findQualified? name | throw (unknownSymbol name)
    return displayAnswer entry.declaration (a.catalogue.siblings entry)

/-! ## 3. Runs -/

/-- The name of the program. -/
def programName : Text := "cg-autoimport".toList

/-- The version, as it is printed. -/
def versionText (subcommand? : Option Text) : Text :=
  programName ++ (subcommand?.map fun subcommand => '-' :: subcommand).getD [] ++ " 0.1.0".toList

/-- How the program is used. -/
def usage : Text := "Usage: ".toList ++ programName ++ " [OPTIONS] <COMMAND>".toList

/-- Runs a command. -/
def run (w : Workspace) (c : Command) : Except Text Text := do
  let config ← c.configOf w
  let a ← advisorOf w config
  answer w a c.query

/-- Runs a command line. -/
def runLine (w : Workspace) (env : Environment) (words : List Text) : Exit :=
  match read env words with
  | .error .misuse => .misuse
  | .error (.version subcommand?) => .success (outputLine (versionText subcommand?))
  | .error .help => .success (outputLine usage)
  | .ok c =>
    match c.run w with
    | .ok output => .success output
    | .error message => .failure message

end Command
end Ambient
