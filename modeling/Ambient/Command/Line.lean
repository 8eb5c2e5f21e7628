import Ambient.Text.Basic

/-!
# Command lines

A command line is read word by word, by a grammar that says which options there are, how many positional
arguments, and which words are subcommands.

* `--name`, `--name=value`, `-n`, `-nvalue` and `-n=value` are options; short flags may share a dash. An option
  that takes a value and has none attached takes the next word, which must not look like an option.
* `--` makes all further words positional. A dash alone is positional or a value.
* A subcommand ends the line; the words behind it are read by another grammar.
* An option may be given once. An option whose value is a word of its own is only counted as given when the next
  option comes up, or the line ends; with an attached value it counts at once.
* A request for the version or for help ends the reading, unless a fault comes first.

That the library `clap` reads a line by these rules is ASSUMED.
-/

namespace Ambient.CommandLine

/-- Why reading ends before the line does. -/
inductive Stop where
  /-- A fault of usage. -/
  | misuse
  | version
  | help
  deriving DecidableEq, Repr

/-- What an option does. -/
inductive Effect where
  /-- Takes a value that passes the test. -/
  | value (accepts : Text → Bool)
  | flag
  | stop (s : Stop)

/-- An option. -/
structure Spec where
  name : Text
  short? : Option Char
  effect : Effect

/-- The words that may stand on a line. -/
structure Grammar where
  options : List Spec
  /-- The number of positional arguments. -/
  positionals : Nat
  subcommands : List Text

/-- What has been given. -/
structure Given where
  /-- Names and values of options; a flag has the empty value. -/
  values : List (Text × Text)
  positionals : List Text
  deriving DecidableEq, Repr

/-- A line read in part. -/
structure Reading where
  given : Given
  /-- The option that was met last, with its value, as long as it does not count as given. -/
  pending? : Option (Spec × Option Text)
  onlyPositionals : Bool

namespace Given

/-- Nothing. -/
def none : Given := ⟨[], []⟩

/-- The value of an option. -/
def value? (g : Given) (name : Text) : Option Text := g.values.lookup name

end Given

/-! ## 1. Words -/

/-- The forms of a word. -/
inductive Word where
  | escape
  | long (name : Text) (attached : Option Text)
  | short (letters : Text)
  | plain (t : Text)

/-- The form of a word. -/
def Word.ofText : Text → Word
  | ['-', '-'] => .escape
  | '-' :: '-' :: t =>
    if t.contains '=' then .long (t.takeWhile (· != '=')) (some ((t.dropWhile (· != '=')).drop 1))
    else .long t .none
  | '-' :: c :: t => .short (c :: t)
  | t => .plain t

/-- The option of this name. -/
def Grammar.long? (g : Grammar) (name : Text) : Option Spec := g.options.find? fun o => o.name = name

/-- The option of this letter. -/
def Grammar.short? (g : Grammar) (letter : Char) : Option Spec :=
  g.options.find? fun o => o.short? = some letter

/-! ## 2. Steps -/

namespace Reading

/-- Nothing read yet. -/
def fresh : Reading := ⟨.none, .none, false⟩

/-- Counts an option as given. -/
def count (r : Reading) (o : Spec) (value : Text) : Except Stop Reading :=
  if (r.given.value? o.name).isSome then .error .misuse
  else .ok { r with given := { r.given with values := r.given.values ++ [(o.name, value)] } }

/-- Counts an option with a value as given. -/
def countValue (r : Reading) (o : Spec) (value : Text) : Except Stop Reading :=
  match o.effect with
  | .value accepts => if accepts value then r.count o value else .error .misuse
  | .flag | .stop _ => .error .misuse

/-- Counts the pending option as given; it must have its value by now. -/
def settle (r : Reading) : Except Stop Reading :=
  match r.pending? with
  | .none => .ok r
  | some (_, .none) => .error .misuse
  | some (o, some value) => { r with pending? := .none }.countValue o value

/-- Does an option wait for its value? -/
def isWaiting (r : Reading) : Bool :=
  match r.pending? with
  | some (_, .none) => true
  | some (_, some _) | .none => false

/-- Takes an option with the value attached to it. -/
def takeOption (r : Reading) (o : Spec) (attached : Option Text) : Except Stop Reading := do
  let r ← r.settle
  match o.effect, attached with
  | .value _, some value => r.countValue o value
  | .value _, .none => return { r with pending? := some (o, .none) }
  | .flag, .none => r.count o []
  | .stop s, .none => throw s
  | .flag, some _ => throw .misuse
  | .stop _, some _ => throw .misuse

/-- Takes the letters behind a dash. -/
def takeLetters (g : Grammar) (r : Reading) : Text → Except Stop Reading
  | [] => .ok r
  | letter :: letters =>
    match g.short? letter with
    | .none => .error .misuse
    | some o =>
      match o.effect, letters with
      | .value _, [] => r.takeOption o .none
      | .value _, '=' :: value => r.takeOption o (some value)
      | .value _, value => r.takeOption o (some value)
      | .flag, _ => do takeLetters g (← r.takeOption o .none) letters
      | .stop _, _ => r.takeOption o .none

/-- Takes a positional argument. -/
def takePositional (g : Grammar) (r : Reading) (t : Text) : Except Stop Reading := do
  let r ← r.settle
  if r.given.positionals.length < g.positionals then
    return { r with given := { r.given with positionals := r.given.positionals ++ [t] } }
  else throw .misuse

/-- Takes a word that looks like no option. -/
def takePlain (g : Grammar) (r : Reading) (t : Text) : Except Stop Reading :=
  match r.pending? with
  | some (o, .none) => .ok { r with pending? := some (o, some t) }
  | some (_, some _) | .none => r.takePositional g t

/-- Takes the words of a line up to a subcommand, and gives the words from there on. -/
def takeWords (g : Grammar) (r : Reading) : List Text → Except Stop (Reading × List Text)
  | [] => .ok (r, [])
  | t :: rest =>
    if r.onlyPositionals then do takeWords g (← r.takePositional g t) rest
    else
      match Word.ofText t with
      | .escape =>
        if r.isWaiting then .error .misuse else takeWords g { r with onlyPositionals := true } rest
      | .long name attached =>
        match g.long? name with
        | .none => .error .misuse
        | some o => do takeWords g (← r.takeOption o attached) rest
      | .short letters => do takeWords g (← takeLetters g r letters) rest
      | .plain t =>
        if !r.isWaiting && g.subcommands.contains t then .ok (r, t :: rest)
        else do takeWords g (← r.takePlain g t) rest

end Reading
end Ambient.CommandLine
