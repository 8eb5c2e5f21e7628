import Ambient.Declaration.Basic

/-!
# Display markup

The markup of a declaration is its qualified signature with highlighting spans and with the angle brackets
of the signature escaped. It is built as a list of pieces, characters and tags, so that a tag can never be
mistaken for text; only `Piece.render` turns pieces into characters. Three rules insert tags:

* class-like kinds: `tagGenerics` puts a span around every list `<…>` without an inner angle bracket, then
  `tagExtends` puts one around every `extends` clause, up to the next `,`, `:` or angle bracket;
* functions: `tagParameters` puts a span around what stands, on one line, from the first `(` to the last `)`;
* all kinds: `tagAnnotations` puts a span around every annotation, from a `:` to the next `,`, or, where no
  comma follows any more, to the next `)`, or to the end.

The two private-use characters U+E000 and U+E001 stand for a raw `<` and a raw `>`.
-/

namespace Ambient.Markup

/-! ## 1. Pieces -/

/-- How a span is highlighted. -/
inductive Style where
  | genericType
  | paramType
  deriving DecidableEq, Repr

/-- The tags of the markup. -/
inductive Tag where
  | opening (style : Style)
  | closing
  deriving DecidableEq, Repr

/-- A character of the signature or a tag. -/
inductive Piece where
  | char (c : Char)
  | tag (t : Tag)
  deriving DecidableEq, Repr

/-- The name of the style. -/
def Style.className : Style → Text
  | .genericType => "genericType".toList
  | .paramType => "paramType".toList

/-- The text of a tag. -/
def Tag.render : Tag → Text
  | .opening style => "<span class=\"".toList ++ style.className ++ "\">".toList
  | .closing => "</span>".toList

/-- Angle brackets are escaped, U+E000 and U+E001 become bare angle brackets. -/
def escape (c : Char) : Text :=
  if c = '<' then "&lt;".toList
  else if c = '>' then "&gt;".toList
  else if c = '\uE000' then ['<']
  else if c = '\uE001' then ['>']
  else [c]

/-- The text of a piece. -/
def Piece.render : Piece → Text
  | .char c => escape c
  | .tag t => t.render

/-- The text of a list of pieces. -/
def render (pieces : List Piece) : Text := pieces.flatMap Piece.render

/-- The characters that are left when all tags are deleted. -/
def strip (pieces : List Piece) : Text :=
  pieces.filterMap fun
    | .char c => some c
    | .tag _ => none

/-- The pieces of a text without tags. -/
def plain (t : Text) : List Piece := t.map .char

/-! ## 2. Class-like kinds -/

/-- The next angle bracket. -/
def nextAngle? (t : Text) : Option Char := t.find? fun c => c == '<' || c == '>'

/-- Spans around generic lists. A `<` opens one exactly if the next angle bracket closes it, a `>` closes
    one exactly if the bracket before it opened it; `opened` says whether it did. -/
def tagGenerics (opened : Bool) : Text → List Piece
  | [] => []
  | c :: t =>
    if c = '<' then
      if nextAngle? t = some '>' then .tag (.opening .genericType) :: .char c :: tagGenerics true t
      else .char c :: tagGenerics false t
    else if c = '>' then
      if opened then .char c :: .tag .closing :: tagGenerics false t
      else .char c :: tagGenerics false t
    else .char c :: tagGenerics opened t

/-- The characters at which an `extends` clause ends. -/
def endsClause : Piece → Bool
  | .char c => c == ',' || c == ':' || c == '<' || c == '>'
  | .tag _ => false

/-- Is the piece a blank character? -/
def isBlankPiece : Piece → Bool
  | .char c => isBlank c
  | .tag _ => false

/-- Does the list start with `extends` between two blanks, and a clause that is not empty? -/
def opensClause : List Piece → Bool
  | [] => false
  | p :: rest =>
    isBlankPiece p &&
      match List.isPrefixOf? (plain "extends".toList) rest with
      | some (q :: r :: _) => isBlankPiece q && !endsClause r
      | _ => false

/-- Spans around `extends` clauses; `inside` says whether one is open. -/
def tagExtends (inside : Bool) : List Piece → List Piece
  | [] => if inside then [.tag .closing] else []
  | p :: rest =>
    if inside then
      if endsClause p then .tag .closing :: p :: tagExtends false rest
      else p :: tagExtends true rest
    else if opensClause (p :: rest) then .tag (.opening .paramType) :: p :: tagExtends true rest
    else p :: tagExtends false rest

/-! ## 3. Functions -/

/-- Does a closing parenthesis follow on the same line? -/
def closesOnLine (t : Text) : Bool := (t.takeWhile (· != '\n')).contains ')'

/-- Spans from the first `(` of a line to its last `)`; `inside` says whether one is open. -/
def tagParameters (inside : Bool) : Text → List Piece
  | [] => []
  | c :: t =>
    if inside then
      if c = ')' && !closesOnLine t then .char c :: .tag .closing :: tagParameters false t
      else .char c :: tagParameters true t
    else if c = '(' && closesOnLine t then .tag (.opening .genericType) :: .char c :: tagParameters true t
    else .char c :: tagParameters false t

/-! ## 4. Annotations -/

/-- Where the annotation that starts here ends: at the next comma, else at the next `)`, else never. -/
def annotationEnd? (rest : List Piece) : Option Char :=
  if rest.contains (.char ',') then some ','
  else if rest.contains (.char ')') then some ')'
  else none

/-- Outside every annotation, or inside one that ends at the given character (at the end if at none). -/
inductive AnnotationState where
  | outside
  | inside (stop : Option Char)
  deriving DecidableEq, Repr

/-- Spans around annotations. -/
def tagAnnotations : AnnotationState → List Piece → List Piece
  | .outside, [] => []
  | .inside _, [] => [.tag .closing]
  | .outside, p :: rest =>
    if p = .char ':' then
      .tag (.opening .paramType) :: p :: tagAnnotations (.inside (annotationEnd? rest)) rest
    else p :: tagAnnotations .outside rest
  | .inside stop, p :: rest =>
    if stop.map Piece.char = some p then .tag .closing :: p :: tagAnnotations .outside rest
    else p :: tagAnnotations (.inside stop) rest

/-! ## 5. The whole -/

/-- The spans that depend on the kind. -/
def tagSignature (kind : Kind) (signature : Text) : List Piece :=
  if kind.isClassLike then tagExtends false (tagGenerics false signature)
  else if kind = .function then tagParameters false signature
  else plain signature

/-- The pieces of the markup. -/
def pieces (kind : Kind) (signature : Text) : List Piece :=
  tagAnnotations .outside (tagSignature kind signature)

end Ambient.Markup

namespace Ambient

/-- The highlighted form of the qualified signature. -/
def Declaration.markup (d : Declaration) : Text := Markup.render (Markup.pieces d.kind d.qualifiedSignature)

end Ambient
