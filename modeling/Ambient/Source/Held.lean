import Ambient.Source.Basic

/-!
# Files held by the source itself

The texts arrive from elsewhere, an editor's buffers say, and are replaced at will. A key may also be LISTED
without a text, which stands for a file that is known and cannot be read; a text for it prevails. While the
source is broken it lists nothing.
-/

namespace Ambient

/-- Files held in memory. -/
structure HeldFiles where
  texts : List (FileKey × Text)
  /-- The keys listed without a text. -/
  listed : List FileKey
  isBroken : Bool

namespace HeldFiles

/-- No files. -/
def empty : HeldFiles := ⟨[], [], false⟩

/-- The text of a file. -/
def text? (h : HeldFiles) (file : FileKey) : Option Text := h.texts.lookup file

/-- The keys of the texts, in order. -/
def keys (h : HeldFiles) : List FileKey := FileKey.sort (h.texts.map Prod.fst)

/-- Adds or replaces a text. -/
def insert (h : HeldFiles) (file : FileKey) (text : Text) : HeldFiles :=
  { h with texts := (file, text) :: h.texts.filter fun held => held.1 ≠ file }

/-- Lists a key without a text. -/
def list (h : HeldFiles) (file : FileKey) : HeldFiles :=
  if h.listed.contains file then h else { h with listed := h.listed ++ [file] }

/-- Lists the key without a text no longer. -/
def unlist (h : HeldFiles) (file : FileKey) : HeldFiles :=
  { h with listed := h.listed.filter (· ≠ file) }

/-- Breaks or mends the source. -/
def setBroken (h : HeldFiles) (isBroken : Bool) : HeldFiles := { h with isBroken }

/-- All keys, in order and each once. -/
def allKeys (h : HeldFiles) : List FileKey :=
  FileKey.sort (h.texts.map Prod.fst ++ h.listed.filter fun file => (h.text? file).isNone)

/-- The source with these files. -/
def source (h : HeldFiles) : Source where
  discover := if h.isBroken then .error (.settings .broken) else .ok h.allKeys
  read file :=
    match h.text? file with
    | some text => .ok text
    | none => .error (.read file.text .notHeld)

end HeldFiles
end Ambient
