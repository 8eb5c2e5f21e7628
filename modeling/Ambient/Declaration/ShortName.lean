import Ambient.Declaration.Kind
import Ambient.Text.Blank

/-!
# Short names

The short name is the bare identifier at the head of a signature. Where it ends depends on the kind:

* class and interface: at an angle bracket or a blank; a bracketed list right behind it, with something
  and no further angle bracket inside, makes the declaration generic;
* function: at the first parenthesis;
* const and var: at the colon, which must follow without a blank.

Enums and re-exports are their whole signature. Where a rule finds nothing the trimmed signature is the
name, so only a blank signature has an empty name.
-/

namespace Ambient

/-- A short name, and whether a generic list stands behind it. -/
structure ShortName where
  text : Text
  hasGenerics : Bool
  deriving DecidableEq, Repr

namespace ShortName

/-- Neither an angle bracket nor a blank. -/
def isTypeNameChar (c : Char) : Bool := !(c == '<' || c == '>' || isBlank c)

/-- Does the text start with `<`, one or more characters that are no angle brackets, and `>`? -/
def opensGenericList : Text → Bool
  | '<' :: t =>
    let inside := t.takeWhile fun c => c != '<' && c != '>'
    !inside.isEmpty && (t.drop inside.length).head? == some '>'
  | _ => false

/-- The first run of type-name characters in a class or interface signature. -/
def ofType? (signature : Text) : Option ShortName :=
  let t := signature.dropWhile fun c => !isTypeNameChar c
  let name := t.takeWhile isTypeNameChar
  if name.isEmpty then none else some ⟨name, opensGenericList (t.dropWhile isTypeNameChar)⟩

/-- The text up to the first parenthesis that has something before it. -/
def ofFunction? (signature : Text) : Option ShortName :=
  let t := signature.dropWhile (· == '(')
  let name := t.takeWhile (· != '(')
  if name.length = t.length then none else some ⟨Text.trim name, false⟩

/-- The text up to the colon of a constant or variable. -/
def ofValue? (signature : Text) : Option ShortName :=
  let name := signature.takeWhile fun c => c != ':' && !isBlank c
  if name.isEmpty || (signature.drop name.length).head? != some ':' then none else some ⟨name, false⟩

/-- The rule of the kind, if it finds a name that is not empty. -/
def ofKind? (kind : Kind) (signature : Text) : Option ShortName :=
  (match kind with
    | .classType | .interfaceType => ofType? signature
    | .function => ofFunction? signature
    | .constValue | .varValue => ofValue? signature
    | .enumType | .reExport => none).filter fun name => !name.text.isEmpty

end ShortName

/-- The short name of a signature, in the last resort the trimmed signature itself. -/
def shortNameOf (kind : Kind) (signature : Text) : ShortName :=
  (ShortName.ofKind? kind signature).getD ⟨Text.trim signature, false⟩

end Ambient
