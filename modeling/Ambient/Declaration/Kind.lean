import Ambient.Text.Basic

/-!
# Kinds of declaration

A declaration file exports seven kinds of thing. Three of them, classes, interfaces and enums, are
STANDALONE: each is shown in a file of its own, and its identity is its namespace. The other four share
the file of their namespace.
-/

namespace Ambient

/-- What a declaration declares. -/
inductive Kind where
  | interfaceType
  | classType
  | constValue
  | varValue
  | function
  | enumType
  /-- An entry of an `export { … }` group. -/
  | reExport
  deriving DecidableEq, Repr

namespace Kind

/-- The kinds that open with a keyword, in the order in which the keywords are tried, then re-exports. -/
def all : List Kind :=
  [interfaceType, classType, constValue, varValue, function, enumType, reExport]

/-- The word shown to a user. -/
def label : Kind → Text
  | interfaceType => "interface".toList
  | classType => "class".toList
  | constValue => "const".toList
  | varValue => "var".toList
  | function => "function".toList
  | enumType => "enum".toList
  | reExport => "export".toList

/-- The word written in data; only the re-export has one that differs from its label. -/
def name : Kind → Text
  | reExport => "re_export".toList
  | kind => kind.label

/-- The kind with this name. -/
def ofName? (t : Text) : Option Kind := all.find? fun kind => kind.name = t

/-- Position in `all`. -/
def index (kind : Kind) : Nat := all.idxOf kind

/-- Is the kind shown in a file of its own? -/
def isStandalone : Kind → Bool
  | classType | interfaceType | enumType => true
  | constValue | varValue | function | reExport => false

/-- Class or interface: the kinds whose signature may carry a generic list and an `extends` clause. -/
def isClassLike : Kind → Bool
  | classType | interfaceType => true
  | _ => false

end Kind
end Ambient
