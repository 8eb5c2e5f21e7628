import Ambient.Text.Basic

/-!
# Where a signature ends

Behind its opening keyword a declaration writes its signature; four rules say where that ends. `split` gives
the signature and says whether the declaration is complete with it:

* `clause`: at the first ` extends `, ` implements ` or ` {` outside angle brackets; never complete;
* `statement`: at the first `;`, complete; without one at the first `:`, incomplete;
* `call`: at the first `;`, complete;
* `body`: at the first ` {`; never complete.

Where a rule finds none of its marks, the signature is the whole text, and incomplete.
-/

namespace Ambient

/-- The rule for the end of a signature. -/
inductive SignatureRule where
  | clause
  | statement
  | call
  | body
  deriving DecidableEq, Repr

namespace SignatureRule

/-- The marks that end the head of a class or interface. -/
def clauseMarks : List Text := [" extends ".toList, " implements ".toList, " \x7b".toList]

/-- Does a mark stand at the start of the text? -/
def atClauseMark (t : Text) : Bool := clauseMarks.any fun mark => mark.isPrefixOf t

/-- The text up to the first mark outside angle brackets, of which `depth` are open. A `>` without a
    partner is passed over. -/
def clauseHead (depth : Nat) : Text → Text
  | [] => []
  | c :: t =>
    if c = '<' then c :: clauseHead (depth + 1) t
    else if c = '>' then c :: clauseHead (depth - 1) t
    else if depth = 0 && atClauseMark (c :: t) then []
    else c :: clauseHead depth t

/-- The signature at the start of the text, and whether the declaration is complete. -/
def split : SignatureRule → Text → Text × Bool
  | .clause, t => (clauseHead 0 t, false)
  | .statement, t =>
    if t.contains ';' then (t.takeWhile (· != ';'), true) else (t.takeWhile (· != ':'), false)
  | .call, t => (t.takeWhile (· != ';'), t.contains ';')
  | .body, t =>
    match Text.cut? " \x7b".toList t with
    | some (before, _) => (before, false)
    | none => (t, false)

/-- The length of the signature in bytes, and whether the declaration is complete. -/
def locate (rule : SignatureRule) (t : Text) : Nat × Bool :=
  let (signature, complete) := rule.split t
  (Text.byteLength signature, complete)

end SignatureRule
end Ambient
