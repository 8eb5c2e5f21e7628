import Ambient.Glob.Parser
import Ambient.Source.Error
import Ambient.Text.Blank

/-!
# Ignore rules

An ignore file holds one rule per line. A rule is a glob for paths below the directory of the file:

* a leading `#` makes the line a comment, a leading `!` makes the rule keep what it matches;
* a slash at the start or in the middle ties the rule to the directory, else it holds at any depth;
* a slash at the end restricts it to directories;
* `dir/**` is about what the directory holds and not about the directory;
* blanks at the end are no part of it, unless the line ends with an escaped space.

Of the rules of one file that match, the LAST decides.

Ignore files belong to the library `ignore`. ASSUMED of it, and shown by nothing here: that it cuts a line into
these parts and makes `globText` of them, with globs read and matched as in `Glob`; that a faulty line leaves the
other rules as they are; and that a line which is no text ends the file, and is a fault only where other lines
are faulty too.
-/

namespace Ambient

/-- A line of an ignore file. -/
structure IgnoreRule where
  glob : Glob
  /-- Does the rule keep what it matches? -/
  keeps : Bool
  onlyDirectories : Bool

/-- What rules say about a path. -/
inductive Verdict where
  | ignored
  | kept
  deriving DecidableEq, Repr

namespace IgnoreRule

/-! ## 1. Lines -/

/-- The line without the blanks at its end. -/
def trimLine (line : Text) : Text :=
  if line.drop (line.length - 2) = "\\ ".toList then line else Text.trimEnd line

/-- The parts of a line that is not blank. -/
structure Parts where
  pattern : Text
  keeps : Bool
  /-- Does the pattern start at the directory of the file? -/
  isAnchored : Bool
  onlyDirectories : Bool

/-- Takes off what stands before the pattern. -/
def leading (line : Text) : Parts :=
  match line with
  | '\\' :: '!' :: t => ⟨'!' :: t, false, false, false⟩
  | '\\' :: '#' :: t => ⟨'#' :: t, false, false, false⟩
  | '!' :: '/' :: t => ⟨t, true, true, false⟩
  | '!' :: t => ⟨t, true, false, false⟩
  | '/' :: t => ⟨t, false, true, false⟩
  | t => ⟨t, false, false, false⟩

/-- Takes off a slash at the end, with the backslash that escapes it. -/
def trailing (p : Parts) : Parts :=
  if p.pattern.getLast? = some '/' then
    let pattern := p.pattern.dropLast
    { p with
      pattern := if pattern.getLast? = some '\\' then pattern.dropLast else pattern
      onlyDirectories := true }
  else p

/-- Does the pattern hold at any depth as it stands? -/
def isRecursive (pattern : Text) : Bool := "**/".toList.isPrefixOf pattern || pattern = "**".toList

/-- The glob of a rule. -/
def globText (p : Parts) : Text :=
  let pattern :=
    if !p.isAnchored && !p.pattern.contains '/' && !isRecursive p.pattern then "**/".toList ++ p.pattern
    else p.pattern
  if "/**".toList.isSuffixOf pattern then pattern ++ "/*".toList else pattern

/-- The rule of a line, if it has one. -/
def read (line : Text) : Except GlobError (Option IgnoreRule) :=
  if line.head? = some '#' then .ok none
  else
    let line := trimLine line
    if line.isEmpty then .ok none
    else
      let parts := trailing (leading line)
      (Glob.parse true (globText parts)).map fun glob => some ⟨glob, parts.keeps, parts.onlyDirectories⟩

/-! ## 2. Verdicts -/

/-- Does the rule match the path? -/
def matchesPath (r : IgnoreRule) (path : Bytes) (isDirectory : Bool) : Bool :=
  (isDirectory || !r.onlyDirectories) && r.glob.matchesPath path

/-- What the rules of a file say about a path. -/
def verdict? (rules : List IgnoreRule) (path : Bytes) (isDirectory : Bool) : Option Verdict :=
  (rules.reverse.find? fun r => r.matchesPath path isDirectory).map fun r =>
    if r.keeps then .kept else .ignored

end IgnoreRule

/-! ## 3. Files -/

/-- The rules of an ignore file, and the faults of its lines with the numbers of the lines. -/
structure IgnoreFile where
  rules : List IgnoreRule
  faults : List (Nat × LineFault)

namespace IgnoreFile

/-- No rules. -/
def empty : IgnoreFile := ⟨[], []⟩

/-- The line without a carriage return at its end. -/
def dropReturn (line : Bytes) : Bytes := if line.getLast? = some 13 then line.dropLast else line

/-- The lines of a file: each ends with a line feed, which may have a carriage return before it; bytes behind
    the last line feed are a line as they stand. -/
def lines (content : Bytes) : List Bytes :=
  let pieces := content.splitOn 10
  pieces.dropLast.map dropReturn ++ pieces.getLast?.toList.filter fun line => !line.isEmpty

/-- The lines of the file up to the first that is no text, without byte order marks at the start. -/
def texts (content : Bytes) : List Text :=
  match ((lines content).map Text.ofBytes?).takeWhile Option.isSome with
  | [] => []
  | first :: others =>
    ((first.getD []).dropWhile (· == '\uFEFF')) :: others.map fun line => line.getD []

/-- Adds the rule of a line. -/
def addLine (f : IgnoreFile) (number : Nat) (line : Text) : IgnoreFile :=
  match IgnoreRule.read line with
  | .ok (some rule) => { f with rules := f.rules ++ [rule] }
  | .ok none => f
  | .error cause => { f with faults := f.faults ++ [(number, .glob (IgnoreRule.trimLine line) cause)] }

/-- Adds the fault of the line that is no text, if other lines are faulty too; by itself it is none. -/
def addEnd (f : IgnoreFile) (number : Nat) : IgnoreFile :=
  if f.faults.isEmpty then f else { f with faults := f.faults ++ [(number, .notUnicode)] }

/-- The rules of a file with this content. -/
def read (content : Bytes) : IgnoreFile :=
  let texts := texts content
  let f := (texts.zipIdx 1).foldl (fun f (line, number) => f.addLine number line) empty
  if texts.length < (lines content).length then f.addEnd (texts.length + 1) else f

end IgnoreFile
end Ambient
