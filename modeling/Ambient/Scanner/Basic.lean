import Ambient.Declaration.Basic
import Ambient.Scanner.Heading
import Ambient.Scanner.Opening

/-!
# The line scanner

The scanner takes a declaration file line by line. It knows the namespace of the latest heading, the draft
that is open, and the comment collected since the last declaration closed.

* `import {` and `private ` lines are passed over.
* Before the first heading every line that is not blank is comment.
* Behind a heading a line opens a draft, or joins the open one, or is comment; the draft's end marker closes
  it, and so does the line that completes its signature, or the next opening.
* A lone closing brace outside every draft throws the comment away.

Declarations come out in the order in which they close.
-/

namespace Ambient

/-- What the scanner knows between two lines. -/
structure Scanner where
  /-- The namespace of the latest heading. -/
  path? : Option Text
  /-- The open draft. -/
  draft? : Option Draft
  /-- The comment for the next declaration to close. -/
  comment : Text
  /-- The closed declarations, in closing order. -/
  closed : List Declaration
  deriving DecidableEq, Repr

namespace Scanner

/-- Before the first line. -/
def fresh : Scanner := ⟨none, none, [], []⟩

/-! ## 1. Phases -/

/-- Where the scanner stands. -/
inductive Phase where
  /-- No heading yet. -/
  | idle
  /-- In a namespace, between declarations. -/
  | betweenDeclarations
  /-- Inside a declaration of this kind. -/
  | inDeclaration (kind : Kind)
  deriving DecidableEq, Repr

/-- The phase. -/
def phase (s : Scanner) : Phase :=
  match s.draft?, s.path? with
  | some draft, _ => .inDeclaration draft.kind
  | none, some _ => .betweenDeclarations
  | none, none => .idle

/-! ## 2. Lines -/

/-- The starts of lines that are passed over. -/
def skippedStarts : List Text := ["import \x7b".toList, "private ".toList]

/-- Is the line passed over? -/
def isSkipped (line : Text) : Bool := skippedStarts.any fun start => start.isPrefixOf (Text.trim line)

/-- Does the line start like a line of a block comment? -/
def isCommentLine (line : Text) : Bool :=
  "/*".toList.isPrefixOf (Text.trim line) || ['*'].isPrefixOf (Text.trim line)

/-! ## 3. Steps -/

/-- Adds a line that is not blank to the comment. -/
def remark (s : Scanner) (line : Text) : Scanner :=
  if Text.allBlank line then s else { s with comment := s.comment ++ '\n' :: "    ".toList ++ line }

/-- Closes the open draft, which takes the comment with it. -/
def close (s : Scanner) : Scanner :=
  match s.draft? with
  | none => s
  | some draft => { s with draft? := none, comment := [], closed := s.closed ++ [draft.finish s.comment] }

/-- Adds a line to a draft, which stays open unless the line completes it. -/
def collect (s : Scanner) (draft : Draft) (line : Text) : Scanner :=
  let s := { s with draft? := some (draft.push line) }
  if (draft.push line).complete then s.close else s

/-- A line that opens no declaration. -/
def continueWith (s : Scanner) (line : Text) : Scanner :=
  match s.draft? with
  | none => if Text.trim line = ['}'] then { s with comment := [] } else s.remark line
  | some draft =>
    if draft.endMarker = line then { { s with draft? := some (draft.push line) }.close with comment := [] }
    else if draft.complete && isCommentLine line then s.close.remark line
    else s.collect draft line

/-- A line inside a namespace. -/
def member (s : Scanner) (line : Text) : Scanner :=
  match s.path?.bind fun path => Opening.first? path line with
  | some draft => s.close.collect draft line
  | none => s.continueWith line

/-- Takes one line. -/
def feed (s : Scanner) (line : Text) : Scanner :=
  if isSkipped line then s
  else
    match Heading.read? line with
    | some heading =>
      let s := { s with path? := some heading.path }
      match heading.rest? with
      | some rest => s.member rest
      | none => s
    | none => if s.path?.isSome then s.member line else s.remark line

/-- Takes lines one after the other. -/
def feedAll (s : Scanner) (lines : List Text) : Scanner := lines.foldl feed s

/-- All declarations at the end of the input, where an open draft closes. -/
def finish (s : Scanner) : List Declaration := s.close.closed

end Scanner
end Ambient
