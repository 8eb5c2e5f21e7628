import Ambient.Text.Basic

/-!
# Why a glob is refused

The five faults of a glob pattern, each with the text a user sees: the one that the library `globset` is assumed
to give.
-/

namespace Ambient

/-- A fault of a glob pattern. -/
inductive GlobError where
  /-- A character class without its closing bracket. -/
  | unclosedClass
  /-- A range whose ends are in the wrong order. -/
  | invalidRange (low high : Char)
  /-- A backslash with nothing behind it. -/
  | danglingEscape
  /-- A closing brace without an opening one. -/
  | unopenedAlternates
  /-- An opening brace without a closing one. -/
  | unclosedAlternates
  deriving DecidableEq, Repr

namespace GlobError

/-- The fault in words. -/
def reason : GlobError → Text
  | unclosedClass => "unclosed character class; missing ']'".toList
  | invalidRange low high => "invalid range; '".toList ++ low :: "' > '".toList ++ high :: ['\'']
  | danglingEscape => "dangling '\\'".toList
  | unopenedAlternates =>
    "unopened alternate group; missing '\x7b' (maybe escape '\x7d' with '[\x7d]'?)".toList
  | unclosedAlternates =>
    "unclosed alternate group; missing '\x7d' (maybe escape '\x7b' with '[\x7b]'?)".toList

/-- The fault and the pattern it was found in. -/
def message (e : GlobError) (pattern : Text) : Text :=
  "error parsing glob '".toList ++ pattern ++ "': ".toList ++ e.reason

end GlobError
end Ambient
