import Ambient.ReExport
import Ambient.Scanner.Basic

/-!
# Declaration files

The declarations of a file are those the scanner closes and those of its re-export groups, sorted by id.
Carriage returns are dropped before anything else. The sort keeps the order of declarations that share an
id: what the scanner closes stands in closing order, and before what a group declares.
-/

namespace Ambient

/-- The text without carriage returns. -/
def normalise (t : Text) : Text := t.filter (· != '\r')

/-- The declarations that the scanner closes, in closing order. -/
def scan (lines : List Text) : List Declaration := (Scanner.fresh.feedAll lines).finish

/-- The declarations of a file, sorted by id. -/
def parse (t : Text) : List Declaration :=
  let t := normalise t
  Declaration.sort (scan (Text.lines t) ++ ReExport.declarations t)

end Ambient
