import Ambient.Glob.Error
import Ambient.Glob.Token

/-!
# Reading globs

A pattern is read from left to right, and the first fault counts.

* `?` and `*` are tokens. `**` is recursive where it fills a whole path component: between the start or a
  slash and a slash or the end. Inside a group it also counts as whole between `{`, `,` and `}`, unless it
  starts its branch. Anywhere else it is two stars.
* `[` opens a class, in which a leading `!` or `^` negates, a leading `]` stands for itself, and so does a `-`
  that is not between two characters.
* `{` opens a group of branches cut by commas; groups nest. Outside a group a comma stands for itself.
* A backslash takes the next character as it stands.

A class that is not closed is a fault, or, where that is allowed, its bracket and all brackets after it stand
for themselves.

This is the reading ASSUMED of the library `globset`, with the fault that it finds first; nothing here shows that
the library reads a pattern so.
-/

namespace Ambient.Glob

/-! ## 1. Classes -/

/-- The ranges of a class, the latest first, up to its closing bracket, and the rest of the text; `none` if it is
    not closed. `isFirst` holds before the first character, `inRange` behind a `-` that opens a range. -/
def classRanges (ranges : List (Char × Char)) (isFirst inRange : Bool) :
    Text → Except GlobError (Option (List (Char × Char) × Text))
  | [] => .ok none
  | c :: t =>
    if c = ']' && !isFirst then .ok (some (if inRange then ('-', '-') :: ranges else ranges, t))
    else if c = '-' && !isFirst && !inRange then classRanges ranges false true t
    else
      match inRange, ranges with
      | true, (low, _) :: earlier =>
        if c < low then .error (.invalidRange low c) else classRanges ((low, c) :: earlier) false false t
      | _, _ => classRanges ((c, c) :: ranges) false false t

/-- The class behind an opening bracket, and the rest of the text; `none` if it is not closed. -/
def classAt (t : Text) : Except GlobError (Option (Token × Text)) :=
  let isNegated := t.head? = some '!' || t.head? = some '^'
  (classRanges [] true false (if isNegated then t.tail else t)).map fun found =>
    found.map fun (ranges, rest) => (.charClass isNegated ranges, rest)

/-! ## 2. Partial globs -/

/-- An open group: the tokens before it and its finished branches. -/
structure Group where
  before : List Token
  branches : List (List Token)

/-- A glob read in part. -/
structure Partial where
  /-- The tokens of the branch that is being read. -/
  branch : List Token
  /-- The open groups, the innermost first. -/
  groups : List Group
  /-- Has a class been found that is not closed? -/
  hasUnclosedClass : Bool

namespace Partial

/-- Nothing read yet. -/
def empty : Partial := ⟨[], [], false⟩

/-- Adds a token. -/
def push (p : Partial) (token : Token) : Partial := { p with branch := p.branch ++ [token] }

/-- Opens a group. -/
def openGroup (p : Partial) : Partial := { p with branch := [], groups := ⟨p.branch, []⟩ :: p.groups }

/-- Closes the innermost group. -/
def closeGroup (p : Partial) : Except GlobError Partial :=
  match p.groups with
  | [] => .error .unopenedAlternates
  | group :: groups =>
    .ok { p with branch := group.before ++ [.alternates (group.branches ++ [p.branch])], groups }

/-- Takes a comma, which ends a branch of the innermost group. -/
def comma (p : Partial) : Partial :=
  match p.groups with
  | [] => p.push (.literal ',')
  | group :: groups =>
    { p with branch := [], groups := { group with branches := group.branches ++ [p.branch] } :: groups }

/-- Puts a recursive token in the place of the slash before it; next to a recursive token it adds nothing. -/
def pushRecursive (p : Partial) (token : Token) : Partial :=
  match p.branch.getLast? with
  | some .recursivePrefix | some .recursiveSuffix => p
  | _ => { p with branch := p.branch.dropLast ++ [token] }

/-- Adds two stars. -/
def pushStars (p : Partial) : Partial := (p.push .star).push .star

/-- May a recursive token start behind this character? -/
def startsComponent (p : Partial) (previous? : Option Char) : Bool :=
  previous? = some '/' || (!p.groups.isEmpty && (previous? = some ',' || previous? = some '{'))

/-- Takes `**` between a character and a text; also gives how many characters it takes, for a recursive token
    takes the slash behind it along. -/
def doubleStar (p : Partial) (previous? : Option Char) (t : Text) : Partial × Nat :=
  let atEnd := t.isEmpty
  let atSlash := t.head? = some '/'
  let atGroupMark := !p.groups.isEmpty && (t.head? = some ',' || t.head? = some '}')
  if p.branch.isEmpty then
    if atEnd then (p.push .recursivePrefix, 2)
    else if atSlash then (p.push .recursivePrefix, 3)
    else (p.pushStars, 2)
  else if !p.startsComponent previous? then (p.pushStars, 2)
  else if atEnd || atGroupMark then (p.pushRecursive .recursiveSuffix, 2)
  else if atSlash then (p.pushRecursive .recursiveMiddle, 3)
  else (p.pushStars, 2)

/-- Takes what starts with `c` and goes on with `t`; also gives how many characters that is. -/
def take (allowUnclosed : Bool) (p : Partial) (previous? : Option Char) (c : Char) (t : Text) :
    Except GlobError (Partial × Nat) :=
  if c = '?' then .ok (p.push .any, 1)
  else if c = '*' then
    match t with
    | '*' :: t => .ok (p.doubleStar previous? t)
    | _ => .ok (p.push .star, 1)
  else if c = '[' && !p.hasUnclosedClass then do
    match ← classAt t with
    | some (token, rest) => .ok (p.push token, t.length - rest.length + 1)
    | none =>
      if allowUnclosed then .ok ({ p.push (.literal '[') with hasUnclosedClass := true }, 1)
      else .error .unclosedClass
  else if c = '{' then .ok (p.openGroup, 1)
  else if c = '}' then p.closeGroup.map fun p => (p, 1)
  else if c = ',' then .ok (p.comma, 1)
  else if c = '\\' then
    match t with
    | [] => .error .danglingEscape
    | d :: _ => .ok (p.push (.literal d), 2)
  else .ok (p.push (.literal c), 1)

/-- Takes a text whose first `skip` characters have been taken already. -/
def takeAll (allowUnclosed : Bool) (p : Partial) (previous? : Option Char) :
    Nat → Text → Except GlobError Partial
  | _, [] => .ok p
  | skip + 1, c :: t => takeAll allowUnclosed p (some c) skip t
  | 0, c :: t => do
    let (p, taken) ← p.take allowUnclosed previous? c t
    takeAll allowUnclosed p (some c) (taken - 1) t

end Partial

/-! ## 3. Globs -/

/-- The glob that a pattern writes. -/
def parse (allowUnclosed : Bool) (pattern : Text) : Except GlobError Glob := do
  let p ← Partial.empty.takeAll allowUnclosed none 0 pattern
  if p.groups.isEmpty then .ok ⟨p.branch⟩ else .error .unclosedAlternates

end Ambient.Glob
