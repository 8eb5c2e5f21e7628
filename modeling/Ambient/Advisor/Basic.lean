import Ambient.Advisor.Proposal
import Ambient.Advisor.Settings
import Ambient.Document.Word
import Ambient.Refresh

/-!
# The advisor

The advisor answers an editor's two questions from an index: which declarations complete a word, and by which
statement an unresolved name is imported.

* A word is completed by the declarations whose short name starts with it, in catalogue order.
* A fix is offered for a range of a single line that is exactly the short name of a declaration, touches no
  further name character, and is the range of a diagnostic that reports an unresolved name.
-/

namespace Ambient

/-- What a language service reports. -/
structure Diagnostic where
  range : Range
  code : UInt32
  source : Text
  deriving DecidableEq, Repr

/-- An import that repairs a diagnostic. -/
structure Fix where
  title : Text
  edit : Edit
  isPreferred : Bool
  diagnostic : Diagnostic
  deriving DecidableEq, Repr

/-- An index with the settings for its answers. -/
structure Advisor where
  settings : AdvisorSettings
  index : Index
  deriving DecidableEq, Repr

namespace Advisor

/-- An advisor that knows no files. -/
def fresh (settings : AdvisorSettings) : Advisor := ⟨settings, .empty⟩

/-- The declarations that the advisor knows. -/
def catalogue (a : Advisor) : Catalogue := a.index.catalogue

/-! ## 1. Completions -/

/-- The completions of a word. -/
def completions (a : Advisor) (word : Text) (document? : Option Text) : List Proposal :=
  (a.catalogue.suggest word).map (Proposal.ofDeclaration a.settings.sortPrefix document?)

/-- The completions of the word at a cursor. -/
def completionsAt (a : Advisor) (document : Text) (cursor : Position) : List Proposal :=
  match (Document.line? document cursor.line).bind fun line => Document.wordAt? line cursor.character with
  | some word => a.completions word (some document)
  | none => []

/-! ## 2. Fixes -/

/-- Does the diagnostic report an unresolved name in exactly this range? -/
def answers (a : Advisor) (range : Range) (diagnostic : Diagnostic) : Bool :=
  a.settings.isUnresolvedCode diagnostic.code && diagnostic.source = a.settings.diagnosticSource &&
    diagnostic.range = range

/-- The name that a range covers, if it may be repaired. -/
def nameIn? (document : Text) (range : Range) : Option Text :=
  if !range.isSingleLine || range.isEmpty then none
  else (Document.line? document range.start.line).bind fun line =>
    Document.nameBetween? line range.start.character range.stop.character

/-- The edit that imports the first declaration with this short name. -/
def importEdit? (a : Advisor) (document name : Text) : Option Edit :=
  (a.catalogue.findShort? name).bind fun entry => Import.edit? document entry.declaration

/-- The fix for a range. -/
def fix? (a : Advisor) (document : Text) (range : Range) (diagnostics : List Diagnostic) : Option Fix := do
  let name ← nameIn? document range
  let diagnostic ← diagnostics.find? (a.answers range)
  let edit ← a.importEdit? document name
  return ⟨a.settings.fixTitle, edit, true, diagnostic⟩

end Advisor
end Ambient
