import Ambient.Command.Line

/-!
# Commands

What can be asked of the program, and how a command line asks it.

* Five subcommands, each with arguments of its own.
* The root, the configuration file, the pattern and the two switches for messages may be given before or behind
  the subcommand; behind it they prevail. Root and configuration file may also come from the environment, which
  gives way to the command line.
* Numbers are written in decimal, with a sign or without, and must be 32-bit words.
-/

namespace Ambient

/-- What is asked for. -/
inductive Query where
  /-- The declarations whose short name starts with `start`. -/
  | symbols (start : Text) (asData : Bool)
  /-- The completions of a word. -/
  | complete (word : Text) (document? : Option Text)
  /-- The edit that imports a name into a document. -/
  | importEdit (name document : Text)
  /-- The fix for the name between two characters of a line. -/
  | fix (document : Text) (line start stop code : UInt32)
  /-- A declaration with all that is shown of it. -/
  | display (qualifiedName : Text)
  deriving DecidableEq, Repr

/-- A query, with the settings that the command line makes. -/
structure Command where
  query : Query
  root? : Option Text
  config? : Option Text
  pattern? : Option Text
  deriving DecidableEq, Repr

/-- Why there is no command. -/
inductive NoCommand where
  | misuse
  /-- The version is asked for, of the program or of a subcommand. -/
  | version (subcommand? : Option Text)
  | help
  deriving DecidableEq, Repr

namespace Command

open CommandLine

/-! ## 1. Grammars -/

/-- The 32-bit word that a text of digits writes, with a sign or without. -/
def word? (t : Text) : Option UInt32 :=
  let (isNegative, digits) : Bool × Text :=
    match t with
    | '-' :: digits => (true, digits)
    | '+' :: digits => (false, digits)
    | digits => (false, digits)
  if digits.isEmpty || !digits.all Char.isDigit then none
  else
    let n := digits.foldl (fun n c => 10 * n + (c.toNat - '0'.toNat)) 0
    if UInt32.size ≤ n || (isNegative && n != 0) then none else some (UInt32.ofNat n)

/-- An option with any value. -/
def textOption (name : String) (short? : Option Char) : Spec := ⟨name.toList, short?, .value fun _ => true⟩

/-- An option with a word as its value. -/
def wordOption (name : String) : Spec := ⟨name.toList, none, .value fun t => (word? t).isSome⟩

/-- The formats of a listing. -/
def formats : List Text := ["text".toList, "json".toList]

/-- The options that every line may have. -/
def globalOptions : List Spec :=
  [textOption "root" (some 'r'), textOption "config" (some 'c'), textOption "pattern" none,
   ⟨"verbose".toList, some 'v', .flag⟩, ⟨"no-color".toList, none, .flag⟩,
   ⟨"help".toList, some 'h', .stop .help⟩, ⟨"version".toList, some 'V', .stop .version⟩]

/-- The option for a document. -/
def documentOption : Spec := textOption "document" (some 'd')

/-- The subcommands, each with its options and the number of its positional arguments. -/
def subcommands : List (Text × List Spec × Nat) :=
  [("symbols".toList,
    [textOption "prefix" (some 'p'), ⟨"format".toList, some 'f', .value formats.contains⟩], 0),
   ("complete".toList, [documentOption], 1),
   ("import".toList, [documentOption], 1),
   ("fix".toList,
    [documentOption, wordOption "line", wordOption "start", wordOption "end", wordOption "code"], 0),
   ("show".toList, [], 1)]

/-- The word that asks for help. -/
def helpWord : Text := "help".toList

/-- The words that may follow the program's own options. -/
def firstWords : List Text := subcommands.map Prod.fst ++ [helpWord]

/-- The grammar before the subcommand. -/
def outerGrammar : Grammar := ⟨globalOptions, 0, firstWords⟩

/-- The grammar behind a subcommand. -/
def innerGrammar (options : List Spec) (positionals : Nat) : Grammar :=
  ⟨options ++ globalOptions, positionals, []⟩

/-! ## 2. Queries -/

/-- The code of the diagnostic that a fix answers if none is given. -/
def standardCode : UInt32 := 2304

/-- The query of a subcommand, if it has all that it needs. -/
def query? (subcommand : Text) (g : Given) : Option Query :=
  let value := fun name : String => g.value? name.toList
  match String.ofList subcommand with
  | "symbols" => some (.symbols ((value "prefix").getD []) (value "format" = some "json".toList))
  | "complete" => g.positionals.head?.map fun word => .complete word (value "document")
  | "import" => do return .importEdit (← g.positionals.head?) (← value "document")
  | "fix" => do
    let code := ((value "code").bind word?).getD standardCode
    return .fix (← value "document") (← (value "line").bind word?) (← (value "start").bind word?)
      (← (value "end").bind word?) code
  | "show" => g.positionals.head?.map .display
  | _ => none

/-! ## 3. Commands -/

/-- Names and values of the environment; the last of one name counts. -/
abbrev Environment := List (Text × Text)

/-- The variable that stands in for the root. -/
def rootVariable : Text := "CG_AUTOIMPORT_ROOT".toList

/-- The variable that stands in for the configuration file. -/
def configVariable : Text := "CG_AUTOIMPORT_CONFIG".toList

/-- The value of a variable. -/
def lookupEnv? (env : Environment) (name : Text) : Option Text := env.reverse.lookup name

/-- The command that is made of what is given before and behind the subcommand. -/
def assemble (env : Environment) (query : Query) (outer inner : Given) : Command :=
  let value := fun name : String =>
    (inner.value? name.toList).or (outer.value? name.toList)
  { query
    root? := (value "root").or (lookupEnv? env rootVariable)
    config? := (value "config").or (lookupEnv? env configVariable)
    pattern? := value "pattern" }

/-- A stop behind a subcommand, or before all of them. -/
def noCommand (subcommand? : Option Text) : Stop → NoCommand
  | .misuse => .misuse
  | .version => .version subcommand?
  | .help => .help

/-- What a request for help with these words is. Help is there for every subcommand and for itself. -/
def helpFor : List Text → NoCommand
  | [] => .help
  | [word] => if firstWords.contains word then .help else .misuse
  | _ => .misuse

/-- The command behind a subcommand. -/
def readInner (env : Environment) (outer : Reading) (subcommand : Text) (words : List Text) :
    Except NoCommand Command := do
  let some (_, options, positionals) := subcommands.find? fun s => s.1 = subcommand | throw .misuse
  let stopped := noCommand (some subcommand)
  let (inner, _) ← (Reading.fresh.takeWords (innerGrammar options positionals) words).mapError stopped
  let inner ← inner.settle.mapError stopped
  let some query := query? subcommand inner.given | throw .misuse
  let outer ← outer.settle.mapError stopped
  return assemble env query outer.given inner.given

/-- The command of a line. -/
def read (env : Environment) (words : List Text) : Except NoCommand Command := do
  let (outer, rest) ← (Reading.fresh.takeWords outerGrammar words).mapError (noCommand none)
  match rest with
  | [] => throw .misuse
  | subcommand :: words =>
    if subcommand = helpWord then throw (helpFor words) else readInner env outer subcommand words

end Command
end Ambient
