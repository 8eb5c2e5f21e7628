import Ambient.Declaration.Draft
import Ambient.Scanner.SignatureRule

/-!
# Openings

Six keywords open a declaration. A line opens one if it contains the keyword, anywhere, with a signature
behind it that is not blank. The line that will close the declaration is what stood before the keyword,
followed by the closer of the kind. Of several openings that fit, the first of `table` counts.
-/

namespace Ambient

/-- A keyword with the rules for what it opens. -/
structure Opening where
  keyword : Text
  kind : Kind
  rule : SignatureRule
  closer : Text
  deriving DecidableEq, Repr

namespace Opening

/-- The openings, in the order in which they are tried. -/
def table : List Opening :=
  [⟨"export interface ".toList, .interfaceType, .clause, "\x7d".toList⟩,
   ⟨"export declare class ".toList, .classType, .clause, "\x7d".toList⟩,
   ⟨"export declare const ".toList, .constValue, .statement, "\x7d;".toList⟩,
   ⟨"export declare var ".toList, .varValue, .statement, "\x7d;".toList⟩,
   ⟨"export declare function ".toList, .function, .call, "\x7d".toList⟩,
   ⟨"export declare enum ".toList, .enumType, .body, "\x7d".toList⟩]

/-- The draft that a line of the namespace `path` opens by this keyword. -/
def open? (o : Opening) (path line : Text) : Option Draft :=
  match Text.cut? o.keyword line with
  | none => none
  | some (before, behind) =>
    let (head, complete) := o.rule.split behind
    let signature := Text.trim head
    if signature.isEmpty then none
    else some (Draft.start path o.kind signature (before ++ o.closer) complete)

/-- The draft that a line opens by the first keyword that fits. -/
def first? (path line : Text) : Option Draft := table.findSome? fun o => o.open? path line

end Opening
end Ambient
