import Ambient.Declaration.Basic
import Ambient.Source.FileKey

/-!
# The catalogue

The catalogue holds the declarations of many files in one list.

* A file is taken in at most once; a second attempt is refused and changes nothing.
* The list is sorted by id, then by file, then by place in the file. No two entries agree in all three, so
  the list does not depend on the order in which files were taken in.
* Queries answer in list order; a look-up by name gives the first hit.
* The catalogue knows its own declarations from equal ones: a caller has hold of one of its entries, or of a
  declaration that is none of them, a copy say, or one handed out before the catalogue was emptied.
-/

namespace Ambient

/-- A declaration with its file and its place there. -/
structure Entry where
  file : FileKey
  /-- Place among the declarations of the file. -/
  ordinal : Nat
  declaration : Declaration
  deriving DecidableEq, Repr

namespace Entry

/-- Not after, by id, file and place. -/
def le (a b : Entry) : Bool :=
  if a.declaration.id = b.declaration.id then
    if a.file = b.file then decide (a.ordinal ≤ b.ordinal) else FileKey.le a.file b.file
  else Text.le a.declaration.id b.declaration.id

/-- The entries of a file's declarations. -/
def ofFile (file : FileKey) (ds : List Declaration) : List Entry :=
  ds.mapIdx fun ordinal declaration => ⟨file, ordinal, declaration⟩

end Entry

/-- A declaration in a caller's hands. -/
inductive Reference where
  /-- That of the entry at this place of the list. -/
  | entry (place : Nat)
  /-- One that belongs to no entry, whatever it says. -/
  | elsewhere (declaration : Declaration)
  deriving DecidableEq, Repr

/-- The declarations of all files taken in. -/
structure Catalogue where
  /-- All entries, in order. -/
  entries : List Entry
  /-- The files taken in, the latest first. -/
  accepted : List FileKey
  deriving DecidableEq, Repr

namespace Catalogue

/-- A catalogue without files. -/
def empty : Catalogue := ⟨[], []⟩

/-! ## 1. Taking files in -/

/-- Has the file been taken in? -/
def containsFile (c : Catalogue) (file : FileKey) : Bool := c.accepted.contains file

/-- The catalogue with one file more, unless the file has been taken in before. -/
def ingest? (c : Catalogue) (file : FileKey) (ds : List Declaration) : Option Catalogue :=
  if c.containsFile file then none
  else some ⟨(c.entries ++ Entry.ofFile file ds).mergeSort Entry.le, file :: c.accepted⟩

/-- The catalogue after an attempt to take a file in. -/
def ingest (c : Catalogue) (file : FileKey) (ds : List Declaration) : Catalogue :=
  (c.ingest? file ds).getD c

/-- What the attempt answers: the number of declarations it adds, or nothing if the file is refused. -/
def added? (c : Catalogue) (file : FileKey) (ds : List Declaration) : Option Nat :=
  (c.ingest? file ds).map fun _ => ds.length

/-! ## 2. Queries -/

/-- All declarations, in order. -/
def declarations (c : Catalogue) : List Declaration := c.entries.map Entry.declaration

/-- The files taken in, in key order. -/
def files (c : Catalogue) : List FileKey := FileKey.sort c.accepted

/-- Number of declarations. -/
def size (c : Catalogue) : Nat := c.entries.length

/-- Number of files taken in. -/
def fileCount (c : Catalogue) : Nat := c.accepted.length

/-- The declarations whose short name starts with `start`. -/
def suggest (c : Catalogue) (start : Text) : List Declaration :=
  c.declarations.filter fun d => start.isPrefixOf d.shortName

/-- The first entry whose declaration has this short name. -/
def findShort? (c : Catalogue) (name : Text) : Option Entry :=
  c.entries.find? fun e => e.declaration.shortName = name

/-- The first entry whose declaration has this qualified name. -/
def findQualified? (c : Catalogue) (name : Text) : Option Entry :=
  c.entries.find? fun e => e.declaration.qualifiedName = name

/-- The declarations of an entry's file, in file order. -/
def siblings (c : Catalogue) (e : Entry) : List Declaration :=
  ((c.entries.filter fun s => s.file = e.file).mergeSort fun a b => decide (a.ordinal ≤ b.ordinal)).map
    Entry.declaration

/-- The entry whose declaration the caller has hold of. -/
def owner? (c : Catalogue) : Reference → Option Entry
  | .entry place => c.entries[place]?
  | .elsewhere _ => none

/-- The declarations of the same file, in file order; of a declaration that belongs to no entry there are none. -/
def siblingsOf (c : Catalogue) (r : Reference) : List Declaration :=
  match c.owner? r with
  | none => []
  | some e => c.siblings e

end Catalogue
end Ambient
