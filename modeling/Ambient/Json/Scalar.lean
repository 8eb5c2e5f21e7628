import Ambient.Json.Numeral

/-!
# Reading scalars

Readers take a text and give the value at its start and the rest of the text. They stop at the FIRST fault,
read from left to right, and there are three kinds of fault:

* `malformed`: the text is no JSON;
* `cutOff`: it ends in the middle of a value;
* `mismatch`: the value is fine as JSON and not what is asked for.

Between tokens there may be spaces, tabs, line feeds and carriage returns.
-/

namespace Ambient.Json

/-- Why a text cannot be read. -/
inductive Fault where
  | malformed
  | mismatch
  | cutOff
  deriving DecidableEq, Repr

/-- Reads a value at the start of a text, and gives it with the rest. -/
abbrev Reader (α : Type) := Text → Except Fault (α × Text)

/-! ## 1. Gaps and words -/

/-- May the character stand between tokens? -/
def isGap (c : Char) : Bool := c == ' ' || c == '\n' || c == '\t' || c == '\r'

/-- The text behind a gap. -/
def skipGap (t : Text) : Text := t.dropWhile isGap

/-- The text behind a word. -/
def afterWord : Text → Text → Except Fault Text
  | [], t => .ok t
  | _ :: _, [] => .error .cutOff
  | c :: word, d :: t => if c = d then afterWord word t else .error .malformed

/-! ## 2. Texts -/

/-- The value of a hexadecimal digit of either case. -/
def hexValue? (c : Char) : Option Nat :=
  if '0' ≤ c ∧ c ≤ '9' then some (c.toNat - '0'.toNat)
  else if 'a' ≤ c ∧ c ≤ 'f' then some (c.toNat - 'a'.toNat + 10)
  else if 'A' ≤ c ∧ c ≤ 'F' then some (c.toNat - 'A'.toNat + 10)
  else none

/-- The number that four hexadecimal digits at the start of the text write. With fewer than four bytes left the
    text is cut off, whatever they are. -/
def codeUnit (t : Text) : Except Fault Nat :=
  if Text.byteLength (t.take 4) < 4 then .error .cutOff
  else
    match (t.take 4).mapM hexValue? with
    | some digits => .ok (digits.foldl (fun n digit => 16 * n + digit) 0)
    | none => .error .malformed

/-- The character that a backslash and this one write. -/
def shortEscape? : Char → Option Char
  | '"' => some '"'
  | '\\' => some '\\'
  | '/' => some '/'
  | 'b' => some '\x08'
  | 'f' => some '\x0c'
  | 'n' => some '\n'
  | 'r' => some '\r'
  | 't' => some '\t'
  | _ => none

/-- Is the code unit the first half of a pair? -/
def isHigh (unit : Nat) : Bool := 0xD800 ≤ unit && unit ≤ 0xDBFF

/-- Is the code unit the second half of a pair? -/
def isLow (unit : Nat) : Bool := 0xDC00 ≤ unit && unit ≤ 0xDFFF

/-- The second half of a pair, which must be escaped at the start of the text. -/
def lowUnit : Text → Except Fault Nat
  | [] => .error .cutOff
  | '\\' :: [] => .error .cutOff
  | '\\' :: 'u' :: t => do
    let unit ← codeUnit t
    if isLow unit then .ok unit else .error .malformed
  | _ => .error .malformed

/-- The character escaped behind a backslash, and how many characters write it. -/
def escaped : Text → Except Fault (Char × Nat)
  | [] => .error .cutOff
  | 'u' :: t => do
    let unit ← codeUnit t
    if isHigh unit then
      let low ← lowUnit (t.drop 4)
      .ok (Char.ofNat (0x10000 + (unit - 0xD800) * 0x400 + (low - 0xDC00)), 11)
    else if isLow unit then .error .malformed
    else .ok (Char.ofNat unit, 5)
  | c :: _ =>
    match shortEscape? c with
    | some d => .ok (d, 1)
    | none => .error .malformed

/-- As `escaped`, but halves of pairs need not be paired; which character is meant is left open. -/
def escapedLoosely : Text → Except Fault (Char × Nat)
  | 'u' :: t => (codeUnit t).map fun _ => ('u', 5)
  | t => escaped t

/-- The text up to the closing quote. The next `skip` characters belong to an escape that has been read. -/
def quotedFrom (escape : Text → Except Fault (Char × Nat)) : Nat → Reader Text
  | _, [] => .error .cutOff
  | skip + 1, _ :: t => quotedFrom escape skip t
  | 0, c :: t =>
    if c = '"' then .ok ([], t)
    else if c = '\\' then do
      let (d, written) ← escape t
      let (more, rest) ← quotedFrom escape written t
      .ok (d :: more, rest)
    else if c.toNat < 32 then .error .malformed
    else do
      let (more, rest) ← quotedFrom escape 0 t
      .ok (c :: more, rest)

/-- The text behind an opening quote. -/
def quoted : Reader Text := quotedFrom escaped 0

/-! ## 3. Numbers -/

/-- At least one digit; `atEnd` is the fault if there is nothing left at all. -/
def digits (atEnd : Fault) (t : Text) : Except Fault (Text × Text) :=
  if (t.takeWhile Char.isDigit).isEmpty then .error (if t.isEmpty then atEnd else .malformed)
  else .ok (t.takeWhile Char.isDigit, t.dropWhile Char.isDigit)

/-- Digits without a superfluous zero. -/
def wholeDigits (atEnd : Fault) (t : Text) : Except Fault (Text × Text) := do
  let (whole, t) ← digits atEnd t
  if whole.length ≠ 1 ∧ whole.head? = some '0' then .error .malformed else .ok (whole, t)

/-- The digits behind a point, if there is a point. -/
def fractionDigits (atEnd : Fault) : Text → Except Fault (Option Text × Text)
  | '.' :: t => do
    let (fraction, t) ← digits atEnd t
    .ok (some fraction, t)
  | t => .ok (none, t)

/-- The sign of an exponent; without one it is positive. -/
def exponentSign : Text → Bool × Text
  | '-' :: t => (true, t)
  | '+' :: t => (false, t)
  | t => (false, t)

/-- The exponent, if there is one. -/
def exponentDigits (atEnd : Fault) : Text → Except Fault (Option (Bool × Text) × Text)
  | [] => .ok (none, [])
  | c :: t =>
    if c = 'e' ∨ c = 'E' then do
      let (isNegative, t) := exponentSign t
      let (exponent, t) ← digits atEnd t
      .ok (some (isNegative, exponent), t)
    else .ok (none, c :: t)

/-- The numeral at the start of a text. -/
def numeral (atEnd : Fault) (t : Text) : Except Fault (Numeral × Text) := do
  let (isNegative, t) : Bool × Text := if t.head? = some '-' then (true, t.tail) else (false, t)
  let (whole, t) ← wholeDigits atEnd t
  let (fraction?, t) ← fractionDigits atEnd t
  let (exponent?, t) ← exponentDigits atEnd t
  .ok (⟨isNegative, whole, fraction?, exponent?⟩, t)

/-- The numeral at the start of a text, unless it is too large. -/
def finiteNumeral (t : Text) : Except Fault (Numeral × Text) := do
  let (n, t) ← numeral .cutOff t
  if n.isTooLarge then .error .malformed else .ok (n, t)

/-- Does a numeral start with this character? -/
def startsNumeral (c : Char) : Bool := c == '-' || c.isDigit

end Ambient.Json
