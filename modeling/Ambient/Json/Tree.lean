import Ambient.Json.Reader

/-!
# Reading any value

`readTree` gives a value of whatever type stands at the start of the text, with its numbers as they are
written and its fields in their order.
-/

namespace Ambient.Json

mutual

/-- A value, with this many rounds left. -/
def readTreeFor : Nat → Reader Json
  | 0, _ => .error .cutOff
  | fuel + 1, t =>
    match skipGap t with
    | [] => .error .cutOff
    | c :: t =>
      if c = 'n' then (afterWord "ull".toList t).map fun rest => (null, rest)
      else if c = 't' then (afterWord "rue".toList t).map fun rest => (bool true, rest)
      else if c = 'f' then (afterWord "alse".toList t).map fun rest => (bool false, rest)
      else if c = '"' then (quoted t).map fun (content, rest) => (text content, rest)
      else if startsNumeral c then do
        let (_, rest) ← finiteNumeral (c :: t)
        .ok (number ((c :: t).take (t.length + 1 - rest.length)), rest)
      else if c = '[' then
        if (skipGap t).head? = some ']' then .ok (list [], (skipGap t).tail)
        else do
          let (items, rest) ← readTreeItems fuel t
          .ok (list items, rest)
      else if c = '\x7b' then
        if (skipGap t).head? = some '\x7d' then .ok (record [], (skipGap t).tail)
        else do
          let (fields, rest) ← readTreeFields fuel t
          .ok (record fields, rest)
      else .error .malformed

/-- The items of a list up to and including the closing bracket. -/
def readTreeItems : Nat → Reader (List Json)
  | 0, _ => .error .cutOff
  | fuel + 1, t => do
    let (item, t) ← readTreeFor fuel t
    let (more, t) ← afterPart ']' t
    if more then
      let (items, t) ← readTreeItems fuel t
      .ok (item :: items, t)
    else .ok ([item], t)

/-- The fields of a record up to and including the closing brace. -/
def readTreeFields : Nat → Reader (List (Text × Json))
  | 0, _ => .error .cutOff
  | fuel + 1, t =>
    match skipGap t with
    | [] => .error .cutOff
    | c :: t =>
      if c = '"' then do
        let (name, t) ← quoted t
        let t ← afterColon t
        let (value, t) ← readTreeFor fuel t
        let (more, t) ← afterPart '\x7d' t
        if more then
          let (fields, t) ← readTreeFields fuel t
          .ok ((name, value) :: fields, t)
        else .ok ([(name, value)], t)
      else .error .malformed

end

/-- A value of any type. -/
def readTree : Reader Json := fun t => readTreeFor (2 * t.length + 2) t

/-- The value that a text is. -/
def parse (t : Text) : Except Fault Json := readAll readTree t

end Ambient.Json
