import Ambient.Text.Basic

/-!
# UTF-8

Names and contents of files are bytes. `Text.toBytes` encodes a text; `Utf8.scan` decodes bytes one by one and
gives a character for each well-formed sequence and a gap for each stretch that belongs to none:

* a byte that starts no sequence is a gap of its own;
* a sequence that breaks off is one gap up to the byte that does not continue it, which is looked at anew.

Bytes are a text if there are no gaps. For display each gap is shown as U+FFFD.
-/

namespace Ambient

/-- Bytes, one after the other. -/
abbrev Bytes := List UInt8

/-- The byte that separates the names of a path. -/
def slash : UInt8 := 47

/-- The UTF-8 form of a text. -/
def Text.toBytes (t : Text) : Bytes := t.flatMap String.utf8EncodeChar

namespace Utf8

/-- A sequence that has been started: how many bytes it still needs, the bounds of the next one, and the bits
    collected so far. -/
structure Pending where
  left : Nat
  low : Nat
  high : Nat
  bits : Nat
  deriving DecidableEq, Repr

/-- What a first byte starts: a whole character, a longer sequence, or nothing. -/
inductive Start where
  | whole (c : Char)
  | sequence (p : Pending)
  | nothing
  deriving DecidableEq, Repr

/-- The rule for first bytes. The bounds of the second byte rule out sequences that are longer than they need
    be, surrogates, and code points above U+10FFFF. -/
def start (byte : UInt8) : Start :=
  let b := byte.toNat
  if b < 0x80 then .whole (Char.ofNat b)
  else if 0xC2 ≤ b ∧ b ≤ 0xDF then .sequence ⟨1, 0x80, 0xBF, b - 0xC0⟩
  else if b = 0xE0 then .sequence ⟨2, 0xA0, 0xBF, 0⟩
  else if b = 0xED then .sequence ⟨2, 0x80, 0x9F, 0xD⟩
  else if 0xE1 ≤ b ∧ b ≤ 0xEF then .sequence ⟨2, 0x80, 0xBF, b - 0xE0⟩
  else if b = 0xF0 then .sequence ⟨3, 0x90, 0xBF, 0⟩
  else if 0xF1 ≤ b ∧ b ≤ 0xF3 then .sequence ⟨3, 0x80, 0xBF, b - 0xF0⟩
  else if b = 0xF4 then .sequence ⟨3, 0x80, 0x8F, 4⟩
  else .nothing

/-- The characters of the bytes, `none` for a gap; `pending?` is the sequence that the bytes before have
    started. -/
def scan : Option Pending → Bytes → List (Option Char)
  | none, [] => []
  | some _, [] => [none]
  | pending?, byte :: rest =>
    let anew : List (Option Char) :=
      match start byte with
      | .whole c => some c :: scan none rest
      | .sequence p => scan (some p) rest
      | .nothing => none :: scan none rest
    match pending? with
    | none => anew
    | some p =>
      if p.low ≤ byte.toNat ∧ byte.toNat ≤ p.high then
        let bits := p.bits * 0x40 + (byte.toNat - 0x80)
        if p.left = 1 then some (Char.ofNat bits) :: scan none rest
        else scan (some ⟨p.left - 1, 0x80, 0xBF, bits⟩) rest
      else none :: anew

end Utf8

/-- The text that the bytes are. -/
def Text.ofBytes? (bytes : Bytes) : Option Text := (Utf8.scan none bytes).mapM id

/-- The bytes as they are displayed. -/
def Text.display (bytes : Bytes) : Text := (Utf8.scan none bytes).map fun found => found.getD '\uFFFD'

end Ambient
