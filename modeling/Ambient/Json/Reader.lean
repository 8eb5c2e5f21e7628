import Ambient.Json.Scalar

/-!
# Reading values

Two kinds of reader build on those of the scalars.

* TYPED readers know what they are to find: a text, a truth value, a bounded number, a list, a record. Where
  something else stands they still read a scalar to its end before they report a mismatch, and report it at
  once at an opening bracket.
* `skip` passes over a value of any type. It does not ask whether a number is too large or whether the halves
  of a pair are paired.

A record may be written with names or as the list of its fields in order. Named fields come in any order and
may be left out, unknown names are skipped, a repeated name is a mismatch. A list may end early.

The standard encoding of records and the readers of the library `serde_json` are ASSUMED to do all this, and to
stop at the same fault: nothing here shows it. Texts of faults are left out.

Every loop takes at least one character per round, so the length of the text bounds the rounds.
-/

namespace Ambient.Json

/-! ## 1. Values of no interest -/

/-- Behind a value in brackets: may a further one follow? Gives the text behind a comma, or behind `closing`. -/
def afterPart (closing : Char) (t : Text) : Except Fault (Bool × Text) :=
  match skipGap t with
  | [] => .error .cutOff
  | c :: t => if c = ',' then .ok (true, t) else if c = closing then .ok (false, t) else .error .malformed

/-- The text behind the colon that must follow a name. -/
def afterColon (t : Text) : Except Fault Text :=
  match skipGap t with
  | [] => .error .cutOff
  | c :: t => if c = ':' then .ok t else .error .malformed

/-- The text behind a quoted name of no interest and its colon. -/
def skipName (t : Text) : Except Fault Text :=
  match skipGap t with
  | [] => .error .cutOff
  | c :: t =>
    if c = '"' then do
      let (_, t) ← quotedFrom escapedLoosely 0 t
      afterColon t
    else .error .malformed

mutual

/-- Passes over a value, with this many rounds left. -/
def skipFor : Nat → Text → Except Fault Text
  | 0, _ => .error .cutOff
  | fuel + 1, t =>
    match skipGap t with
    | [] => .error .cutOff
    | c :: t =>
      if c = 'n' then afterWord "ull".toList t
      else if c = 't' then afterWord "rue".toList t
      else if c = 'f' then afterWord "alse".toList t
      else if c = '"' then (quotedFrom escapedLoosely 0 t).map Prod.snd
      else if startsNumeral c then (numeral .malformed (c :: t)).map Prod.snd
      else if c = '[' then
        if (skipGap t).head? = some ']' then .ok (skipGap t).tail else skipParts fuel false ']' t
      else if c = '\x7b' then
        if (skipGap t).head? = some '\x7d' then .ok (skipGap t).tail else skipParts fuel true '\x7d' t
      else .error .malformed

/-- Passes over the parts of a list or record up to and including its closing bracket. -/
def skipParts : Nat → Bool → Char → Text → Except Fault Text
  | 0, _, _, _ => .error .cutOff
  | fuel + 1, isNamed, closing, t => do
    let t ← if isNamed then skipName t else .ok t
    let t ← skipFor fuel t
    let (more, t) ← afterPart closing t
    if more then skipParts fuel isNamed closing t else .ok t

end

/-- Passes over a value. -/
def skip (t : Text) : Except Fault Text := skipFor (2 * t.length + 2) t

/-! ## 2. Scalars of a given type -/

/-- The fault where a value starts that is not of the type asked for. -/
def mismatchAt (c : Char) (t : Text) : Fault :=
  let rest : Except Fault Unit :=
    if c = 'n' then (afterWord "ull".toList t).map fun _ => ()
    else if c = 't' then (afterWord "rue".toList t).map fun _ => ()
    else if c = 'f' then (afterWord "alse".toList t).map fun _ => ()
    else if c = '"' then (quoted t).map fun _ => ()
    else if startsNumeral c then (finiteNumeral (c :: t)).map fun _ => ()
    else if c = '[' ∨ c = '\x7b' then .ok ()
    else .error .malformed
  match rest with
  | .ok () => .mismatch
  | .error fault => fault

/-- A text. -/
def readText : Reader Text := fun t =>
  match skipGap t with
  | [] => .error .cutOff
  | c :: t => if c = '"' then quoted t else .error (mismatchAt c t)

/-- A truth value. -/
def readBool : Reader Bool := fun t =>
  match skipGap t with
  | [] => .error .cutOff
  | c :: t =>
    if c = 't' then (afterWord "rue".toList t).map fun t => (true, t)
    else if c = 'f' then (afterWord "alse".toList t).map fun t => (false, t)
    else .error (mismatchAt c t)

/-- A natural number up to `bound`. -/
def readNat (bound : Nat) : Reader Nat := fun t =>
  match skipGap t with
  | [] => .error .cutOff
  | c :: t =>
    if startsNumeral c then do
      let (n, t) ← finiteNumeral (c :: t)
      match n.natural? with
      | some value => if value ≤ bound then .ok (value, t) else .error .mismatch
      | none => .error .mismatch
    else .error (mismatchAt c t)

/-! ## 3. Lists -/

/-- The items behind the opening bracket, or behind an item if `isFirst` is false, up to and including the
    closing bracket. -/
def readItems {α : Type} (read : Reader α) : Nat → Bool → Reader (List α)
  | 0, _, _ => .error .cutOff
  | fuel + 1, isFirst, t =>
    match skipGap t with
    | [] => .error .cutOff
    | c :: rest =>
      if c = ']' then .ok ([], rest)
      else if isFirst then do
        let (item, t) ← read (c :: rest)
        let (items, t) ← readItems read fuel false t
        .ok (item :: items, t)
      else if c = ',' then
        if (skipGap rest).head? = some ']' then .error .malformed
        else do
          let (item, t) ← read rest
          let (items, t) ← readItems read fuel false t
          .ok (item :: items, t)
      else .error .malformed

/-- A list. -/
def readList {α : Type} (read : Reader α) : Reader (List α) := fun t =>
  match skipGap t with
  | [] => .error .cutOff
  | c :: t => if c = '[' then readItems read (t.length + 1) true t else .error (mismatchAt c t)

/-! ## 4. Records -/

/-- A field of a record: its name, and how its value is read into the record. -/
structure Field (σ : Type) where
  name : Text
  read : σ → Reader σ

/-- The field of this name that is read by `read` and stored by `set`. -/
def Field.of {σ α : Type} (name : Text) (read : Reader α) (set : α → σ → σ) : Field σ :=
  ⟨name, fun s t => do
    let (value, t) ← read t
    .ok (set value s, t)⟩

/-- Fields in order, up to the closing bracket or to the last of them. `isFirst` holds right behind the opening
    bracket. A record written as a list must be over with its last field. -/
def readPositional {σ : Type} (s : σ) : List (Field σ) → Bool → Reader σ
  | [], _, t => do
    let (more, t) ← afterPart ']' t
    if more then .error .malformed else .ok (s, t)
  | field :: fields, isFirst, t =>
    match skipGap t with
    | [] => .error .cutOff
    | c :: rest =>
      if c = ']' then .ok (s, rest)
      else if isFirst then do
        let (s, t) ← field.read s (c :: rest)
        readPositional s fields false t
      else if c = ',' then
        if (skipGap rest).head? = some ']' then .error .malformed
        else do
          let (s, t) ← field.read s rest
          readPositional s fields false t
      else .error .malformed

/-- One named field, from its opening quote on; `seen` are the names read before. Gives the record, the names
    read so far, and the rest. -/
def readMember {σ : Type} (fields : List (Field σ)) (s : σ) (seen : List Text) (t : Text) :
    Except Fault (σ × List Text × Text) :=
  match skipGap t with
  | [] => .error .cutOff
  | c :: t =>
    if c = '"' then do
      let (name, t) ← quoted t
      match fields.find? fun field => field.name = name with
      | none =>
        let t ← afterColon t
        let t ← skip t
        .ok (s, seen, t)
      | some field =>
        if seen.contains name then .error .mismatch
        else
          let t ← afterColon t
          let (s, t) ← field.read s t
          .ok (s, name :: seen, t)
    else .error .malformed

/-- Named fields up to and including the closing brace. -/
def readMembers {σ : Type} (fields : List (Field σ)) : Nat → σ → List Text → Reader σ
  | 0, _, _, _ => .error .cutOff
  | fuel + 1, s, seen, t => do
    let (s, seen, t) ← readMember fields s seen t
    let (more, t) ← afterPart '\x7d' t
    if more then readMembers fields fuel s seen t else .ok (s, t)

/-- A record whose missing fields are those of `s`. -/
def readRecord {σ : Type} (fields : List (Field σ)) (s : σ) : Reader σ := fun t =>
  match skipGap t with
  | [] => .error .cutOff
  | c :: t =>
    if c = '[' then readPositional s fields true t
    else if c = '\x7b' then
      if (skipGap t).head? = some '\x7d' then .ok (s, (skipGap t).tail)
      else readMembers fields (t.length + 1) s [] t
    else .error (mismatchAt c t)

/-! ## 5. Whole texts -/

/-- The value that is the whole text. -/
def readAll {α : Type} (read : Reader α) (t : Text) : Except Fault α := do
  let (value, t) ← read t
  if (skipGap t).isEmpty then .ok value else .error .malformed

end Ambient.Json
