/-!
# Text

Text is a list of characters. This file fixes the searches and cuts that everything else is built on:

* `cut? w t` splits `t` at the FIRST place where `w` stands, and drops `w`;
* `replaceAll old new t` works from left to right and never looks at what it has written;
* `dropEndWhile p t` is `dropWhile` from the other end;
* `byteLength` counts UTF-8 bytes, the unit in which offsets are reported.

Order on text is the lexicographic order of code points, which is also the order of the UTF-8 bytes.
-/

namespace Ambient

/-- Text, one character after the other. -/
abbrev Text := List Char

namespace Text

/-! ## 1. Searching -/

/-- What stands before and after the first occurrence of `w`. -/
def cut? (w : Text) : Text → Option (Text × Text)
  | [] => if w.isEmpty then some ([], []) else none
  | c :: t =>
    match w.isPrefixOf? (c :: t) with
    | some rest => some ([], rest)
    | none => (cut? w t).map fun (before, after) => (c :: before, after)

/-- Does `w` stand somewhere in the text? -/
def has (w t : Text) : Bool := (cut? w t).isSome

/-- The text before the last `c`, if there is one. -/
def beforeLast? (c : Char) : Text → Option Text
  | [] => none
  | d :: t =>
    match beforeLast? c t with
    | some before => some (d :: before)
    | none => if d = c then some [] else none

/-! ## 2. Rewriting -/

/-- `replaceAll` with the next `skip` characters already consumed by an earlier occurrence. -/
def replaceFrom (old new : Text) : Nat → Text → Text
  | _, [] => []
  | skip + 1, _ :: t => replaceFrom old new skip t
  | 0, c :: t =>
    if old.isPrefixOf (c :: t) then new ++ replaceFrom old new (old.length - 1) t
    else c :: replaceFrom old new 0 t

/-- Every occurrence of the non-empty `old`, from left to right, becomes `new`. -/
def replaceAll (old new t : Text) : Text := replaceFrom old new 0 t

/-- The text without its longest end of characters that satisfy `p`. -/
def dropEndWhile {α : Type} (p : α → Bool) : List α → List α
  | [] => []
  | c :: t =>
    match dropEndWhile p t with
    | [] => if p c then [] else [c]
    | d :: kept => c :: d :: kept

/-! ## 3. Lines and measures -/

/-- The pieces between line feeds; a text without one is a single line. -/
def lines (t : Text) : List Text := t.splitOn '\n'

/-- Number of line feeds. -/
def lineFeeds (t : Text) : Nat := t.count '\n'

/-- Number of bytes of the UTF-8 form. -/
def byteLength : Text → Nat
  | [] => 0
  | c :: t => c.utf8Size + byteLength t

/-- The decimal digits of a number. -/
def ofNat (n : Nat) : Text := Nat.toDigits 10 n

/-- The texts one after the other, with `separator` between two neighbours. -/
def joinWith (separator : Text) (pieces : List Text) : Text := separator.intercalate pieces

/-- Lexicographic order by code point. -/
def le : Text → Text → Bool
  | [], _ => true
  | _ :: _, [] => false
  | c :: a, d :: b => if c = d then le a b else decide (c.toNat < d.toNat)

end Text
end Ambient
