import Ambient.Text.Basic

/-!
# JSON values

A number is kept as it is written, so that nothing is decided about it before somebody asks: `natural?`
answers for the numbers written with digits alone. The fields of a record keep their order, and of two
fields of one name the last counts.

JSON is written and read by the library `serde_json`; what is ASSUMED of it is said in `Printer`, `Numeral` and
`Reader`.
-/

namespace Ambient

/-- A JSON value. -/
inductive Json where
  | null
  | bool (b : Bool)
  | number (written : Text)
  | text (t : Text)
  | list (items : List Json)
  | record (fields : List (Text × Json))
  deriving Repr

namespace Json

/-- The value of a text of digits. -/
def digitsValue (digits : Text) : Nat := digits.foldl (fun n c => 10 * n + (c.toNat - '0'.toNat)) 0

/-- A natural number. -/
def nat (n : Nat) : Json := number (Text.ofNat n)

/-- The value, or null. -/
def option {α : Type} (encode : α → Json) : Option α → Json
  | none => null
  | some a => encode a

/-- The number, if it is written with digits alone. -/
def natural? : Json → Option Nat
  | number written => if written.all Char.isDigit then some (digitsValue written) else none
  | _ => none

/-- The text of a text. -/
def text? : Json → Option Text
  | text t => some t
  | _ => none

/-- The truth value. -/
def bool? : Json → Option Bool
  | bool b => some b
  | _ => none

/-- The items of a list. -/
def items? : Json → Option (List Json)
  | list items => some items
  | _ => none

/-- The field of a record. -/
def field? (name : Text) : Json → Option Json
  | record fields => (fields.reverse.find? fun field => field.1 = name).map Prod.snd
  | _ => none

end Json
end Ambient
