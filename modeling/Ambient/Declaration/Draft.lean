import Ambient.Declaration.Kind
import Ambient.Text.Blank

/-!
# Drafts

A draft is a declaration whose lines are still being collected. It is COMPLETE once its whole signature is
on record. A function that was opened without its closing semicolon becomes complete at the first line that
holds a `;` while the parentheses of all lines so far balance; its signature is then read off the collected
lines by `joinedSignature`.
-/

namespace Ambient

/-- A declaration being collected line by line. -/
structure Draft where
  /-- The dotted namespace it was opened in. -/
  path : Text
  kind : Kind
  /-- The text behind the opening keyword. -/
  signature : Text
  /-- The line that closes the declaration. -/
  endMarker : Text
  /-- Is the whole signature on record? -/
  complete : Bool
  /-- The lines so far, each indented and closed by a line feed. -/
  source : Text
  deriving DecidableEq, Repr

namespace Draft

/-- A draft without lines. -/
def start (path : Text) (kind : Kind) (signature endMarker : Text) (complete : Bool) : Draft :=
  ⟨path, kind, signature, endMarker, complete, []⟩

/-- A collected line: indented by four spaces and closed. -/
def sourceLine (line : Text) : Text := "    ".toList ++ line ++ ['\n']

/-- The signature of a function written over several lines: line breaks and tabs are dropped, the text
    behind the first `function ` is kept, blanks shrink to one space and vanish inside a parenthesis, and
    the text ends before the last semicolon. -/
def joinedSignature (source : Text) : Text :=
  let flat := source.filter fun c => c != '\n' && c != '\r' && c != '\t'
  let behind := ((Text.cut? "function ".toList flat).map Prod.snd).getD flat
  let tight := Text.replaceAll " )".toList ")".toList
    (Text.replaceAll "( ".toList "(".toList (Text.squeeze behind))
  ((Text.beforeLast? ';' tight).map Text.trimEnd).getD tight

/-- Does this line complete the signature of a function whose lines, itself included, are `source`? -/
def completes (line source : Text) : Bool := line.contains ';' && source.count '(' == source.count ')'

/-- Collects one line. -/
def push (draft : Draft) (line : Text) : Draft :=
  let source := draft.source ++ sourceLine line
  if draft.kind = .function && !draft.complete && completes line source then
    { draft with source, signature := joinedSignature source, complete := true }
  else { draft with source }

/-- Replaces the collected lines by finished text. -/
def withSource (draft : Draft) (source : Text) : Draft := { draft with source }

end Draft
end Ambient
