import Ambient.Declaration.InsertText
import Ambient.Document.Import

/-!
# Proposals

A proposal offers a declaration as the completion of a word. With a document at hand it carries the import
that the document lacks.
-/

namespace Ambient

/-- What an editor shows a proposal as. -/
inductive ProposalKind where
  | classType
  | constant
  | function
  | interfaceType
  | enumType
  /-- A variable or a re-export. -/
  | value
  deriving DecidableEq, Repr

namespace ProposalKind

/-- The word written in data. -/
def name : ProposalKind → Text
  | classType => "class".toList
  | constant => "constant".toList
  | function => "function".toList
  | interfaceType => "interface".toList
  | enumType => "enum".toList
  | value => "value".toList

/-- How a declaration of a kind is shown. -/
def ofKind : Kind → ProposalKind
  | .classType => classType
  | .constValue => constant
  | .function => function
  | .interfaceType => interfaceType
  | .enumType => enumType
  | .varValue | .reExport => value

end ProposalKind

/-- A completion. -/
structure Proposal where
  label : Text
  detail : Text
  insertText : Text
  /-- The key by which an editor sorts proposals. -/
  sortText : Text
  documentation : Text
  kind : ProposalKind
  /-- The import to add, if a document is at hand and lacks it. -/
  additionalEdit : Option Edit
  deriving DecidableEq, Repr

/-- The proposal of a declaration. -/
def Proposal.ofDeclaration (sortPrefix : Text) (document? : Option Text) (d : Declaration) : Proposal :=
  { label := d.label
    detail := d.detail
    insertText := d.insertText
    sortText := sortPrefix ++ d.label
    documentation := d.qualifiedName
    kind := .ofKind d.kind
    additionalEdit := document?.bind fun document => Import.edit? document d }

end Ambient
