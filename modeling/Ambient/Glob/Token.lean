import Ambient.Text.Utf8

/-!
# Globs and what they match

A glob is a sequence of tokens and matches bytes, not characters: `?` takes one byte of a longer character,
and a class takes a byte that occurs in the written form of its characters. Only the recursive tokens and a
negated class take a slash.

`Token.rests` is the meaning of a token: everything that may be left after it has taken its part.

Globs belong to the library `globset`; that only the tokens named above take a slash is a setting, all else is
left as the library has it. Its matching is ASSUMED to be this one: over bytes, upper and lower case apart, of
the whole path, with branches that stand for nothing passed over. Nothing here shows that it is.
-/

namespace Ambient

/-- A part of a glob. -/
inductive Token where
  | literal (c : Char)
  /-- One byte. -/
  | any
  /-- Any number of bytes. -/
  | star
  /-- Any number of leading directories. -/
  | recursivePrefix
  /-- A slash and everything below. -/
  | recursiveSuffix
  /-- A slash, or any number of directories between slashes. -/
  | recursiveMiddle
  | charClass (isNegated : Bool) (ranges : List (Char × Char))
  | alternates (branches : List (List Token))
  deriving Repr

/-- A glob. -/
structure Glob where
  tokens : List Token
  deriving Repr

namespace Token

/-! ## 1. Paths and their rests -/

/-- The rests after each number of bytes that are no slashes. -/
def segmentRests : Bytes → List Bytes
  | [] => [[]]
  | b :: t => (b :: t) :: if b = slash then [] else segmentRests t

/-- All rests. -/
def allRests : Bytes → List Bytes
  | [] => [[]]
  | b :: t => (b :: t) :: allRests t

/-- The rests behind a slash. -/
def slashRests : Bytes → List Bytes
  | [] => []
  | b :: t => if b = slash then t :: slashRests t else slashRests t

/-! ## 2. Classes -/

/-- The intervals of bytes that a range of characters stands for: its ends as they are written, with the range
    itself between the last byte of the one and the first byte of the other. -/
def byteIntervals (low high : Char) : List (UInt8 × UInt8) :=
  let single := fun b : UInt8 => (b, b)
  let first := String.utf8EncodeChar low
  let last := String.utf8EncodeChar high
  if low = high then first.map single
  else
    let between :=
      match first.getLast?, last.head? with
      | some a, some b => [(a, b)]
      | _, _ => []
    first.dropLast.map single ++ between ++ last.tail.map single

/-- Is the byte in one of the ranges? -/
def inClass (ranges : List (Char × Char)) (b : UInt8) : Bool :=
  ranges.any fun (low, high) => (byteIntervals low high).any fun (first, last) => first ≤ b && b ≤ last

/-! ## 3. Meaning -/

mutual

/-- Does the token stand for nothing at all? So do groups whose branches all do. -/
def isVoid : Token → Bool
  | alternates branches => areVoidBranches branches
  | _ => false

/-- Do the tokens stand for nothing at all? -/
def areVoid : List Token → Bool
  | [] => true
  | token :: tokens => isVoid token && areVoid tokens

/-- Do all branches stand for nothing at all? -/
def areVoidBranches : List (List Token) → Bool
  | [] => true
  | branch :: branches => areVoid branch && areVoidBranches branches

end

mutual

/-- What may be left after the token. -/
def rests : Token → Bytes → List Bytes
  | literal c, bs => ((String.utf8EncodeChar c).isPrefixOf? bs).toList
  | any, bs =>
    match bs with
    | [] => []
    | b :: t => if b = slash then [] else [t]
  | star, bs => segmentRests bs
  | recursivePrefix, bs => bs :: slashRests bs
  | recursiveSuffix, bs =>
    match bs with
    | [] => []
    | b :: t => if b = slash then allRests t else []
  | recursiveMiddle, bs =>
    match bs with
    | [] => []
    | b :: t => if b = slash then t :: slashRests t else []
  | charClass isNegated ranges, bs =>
    match bs with
    | [] => []
    | b :: t => if inClass ranges b != isNegated then [t] else []
  | alternates branches, bs => if areVoidBranches branches then [bs] else restsOfBranches branches bs

/-- What may be left of one of these after all the tokens. -/
def restsOfAll : List Token → List Bytes → List Bytes
  | [], starts => starts
  | token :: tokens, starts => restsOfAll tokens (starts.flatMap (rests token)).eraseDups

/-- What may be left after one of the branches; a branch that stands for nothing is passed over. -/
def restsOfBranches : List (List Token) → Bytes → List Bytes
  | [], _ => []
  | branch :: branches, bs =>
    (if areVoid branch then [] else restsOfAll branch [bs]) ++ restsOfBranches branches bs

end

end Token

namespace Glob

/-- Is the glob `**` and nothing else? It matches everything. -/
def isEverything (g : Glob) : Bool :=
  match g.tokens with
  | [.recursivePrefix] => true
  | _ => false

/-- Does the glob match the whole path? -/
def matchesPath (g : Glob) (path : Bytes) : Bool :=
  g.isEverything || (Token.restsOfAll g.tokens [path]).contains []

end Glob
end Ambient
