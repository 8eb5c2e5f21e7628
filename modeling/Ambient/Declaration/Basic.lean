import Ambient.Declaration.Draft
import Ambient.Declaration.ShortName

/-!
# Declarations

A declaration is a closed draft with the comment collected before it. It stores what was read; every name
is derived from that:

* `shortName` and `hasGenerics` from the kind and the signature;
* `qualifiedName`, the namespace, a dot and the short name;
* `id`, the key of sorting: the namespace alone for a standalone kind, else the qualified name, with the
  mark `zzz<n>_` in front for the `n`th entry of an export group.
-/

namespace Ambient

/-- One declared symbol. -/
structure Declaration where
  path : Text
  kind : Kind
  signature : Text
  endMarker : Text
  complete : Bool
  source : Text
  /-- The comment lines collected before the declaration. -/
  comment : Text
  /-- Place in an export group of several entries. -/
  ordinal : Option Nat
  deriving DecidableEq, Repr

/-- Closes a draft. -/
def Draft.finish (draft : Draft) (comment : Text) : Declaration :=
  { path := draft.path, kind := draft.kind, signature := draft.signature, endMarker := draft.endMarker,
    complete := draft.complete, source := draft.source, comment, ordinal := none }

namespace Declaration

/-- The declaration as the `n`th entry of its export group. -/
def withOrdinal (d : Declaration) (n : Nat) : Declaration := { d with ordinal := some n }

/-! ## 1. Names -/

/-- The bare identifier. -/
def shortName (d : Declaration) : Text := (shortNameOf d.kind d.signature).text

/-- Does a class or interface carry a generic list? -/
def hasGenerics (d : Declaration) : Bool := (shortNameOf d.kind d.signature).hasGenerics

/-- Namespace, dot, short name. -/
def qualifiedName (d : Declaration) : Text := d.path ++ '.' :: d.shortName

/-- The id without the mark of an export group. -/
def plainId (d : Declaration) : Text := if d.kind.isStandalone then d.path else d.qualifiedName

/-- The key by which declarations are sorted. -/
def id (d : Declaration) : Text :=
  match d.ordinal with
  | none => d.plainId
  | some n => "zzz".toList ++ Text.ofNat n ++ '_' :: d.plainId

/-- Namespace, dot, signature. -/
def qualifiedSignature (d : Declaration) : Text := d.path ++ '.' :: d.signature

/-! ## 2. What a user sees -/

/-- The id without a leading `CG.`. -/
def title (d : Declaration) : Text := (List.isPrefixOf? "CG.".toList d.id).getD d.id

/-- The short name, marked `<T>` when generic. -/
def label (d : Declaration) : Text := if d.hasGenerics then d.shortName ++ "<T>".toList else d.shortName

/-- The kind in parentheses and the qualified name. -/
def detail (d : Declaration) : Text := '(' :: d.kind.label ++ ") ".toList ++ d.qualifiedName

/-! ## 3. Order -/

/-- Not after, by id. -/
def le (a b : Declaration) : Bool := Text.le a.id b.id

/-- Sorted by id; declarations that share an id keep their order. -/
def sort (ds : List Declaration) : List Declaration := ds.mergeSort le

end Declaration
end Ambient
