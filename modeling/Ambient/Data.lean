import Ambient.Advisor.Basic
import Ambient.Json.Printer

/-!
# Answers as data

The JSON forms of what is answered. Fields stand in a fixed order, and a proposal without an edit leaves the
field out.
-/

namespace Ambient

/-- The kind's name, what was read, and the names derived from it. -/
def Declaration.toJson (d : Declaration) : Json :=
  .record
    [("namespace".toList, .text d.path), ("kind".toList, .text d.kind.name),
     ("raw_signature".toList, .text d.signature), ("end_marker".toList, .text d.endMarker),
     ("single_line".toList, .bool d.complete), ("short_name".toList, .text d.shortName),
     ("qualified_name".toList, .text d.qualifiedName), ("has_generics".toList, .bool d.hasGenerics),
     ("source".toList, .text d.source), ("preceding_comment".toList, .text d.comment),
     ("id".toList, .text d.id)]

/-- Line and character. -/
def Position.toJson (p : Position) : Json :=
  .record [("line".toList, .nat p.line.toNat), ("character".toList, .nat p.character.toNat)]

/-- Both ends. -/
def Range.toJson (r : Range) : Json :=
  .record [("start".toList, r.start.toJson), ("end".toList, r.stop.toJson)]

/-- Where and what to insert. -/
def Edit.toJson (e : Edit) : Json :=
  .record [("position".toList, e.position.toJson), ("text".toList, .text e.text)]

/-- The fields of a proposal. -/
def Proposal.toJson (p : Proposal) : Json :=
  .record
    ([("label".toList, .text p.label), ("detail".toList, .text p.detail),
      ("insert_text".toList, .text p.insertText), ("sort_text".toList, .text p.sortText),
      ("documentation".toList, .text p.documentation), ("kind".toList, .text p.kind.name)] ++
      (p.additionalEdit.map fun edit => ("additional_edit".toList, edit.toJson)).toList)

/-- The fields of a diagnostic. -/
def Diagnostic.toJson (d : Diagnostic) : Json :=
  .record
    [("range".toList, d.range.toJson), ("code".toList, .nat d.code.toNat), ("source".toList, .text d.source)]

/-- The fields of a fix. -/
def Fix.toJson (f : Fix) : Json :=
  .record
    [("title".toList, .text f.title), ("edit".toList, f.edit.toJson),
     ("is_preferred".toList, .bool f.isPreferred), ("diagnostic".toList, f.diagnostic.toJson)]

namespace Tally

/-- The names of the counters. -/
def counterNames : List Text :=
  ["discovered".toList, "skipped".toList, "ingested".toList, "declarations".toList, "errors".toList]

/-- The counters in order. -/
def counters (t : Tally) : List UInt64 := [t.discovered, t.skipped, t.ingested, t.declarations, t.errors]

/-- The counters by name. -/
def toJson (t : Tally) : Json := .record (counterNames.zip (t.counters.map fun n : UInt64 => .nat n))

/-- A counter: a natural number of 64 bits. -/
def counter? (value : Json) : Option UInt64 :=
  match value.natural? with
  | some n => if n < UInt64.size then some (UInt64.ofNat n) else none
  | none => none

/-- The tally whose counters these are. -/
def ofCounters? : List UInt64 → Option Tally
  | [discovered, skipped, ingested, declarations, errors] =>
    some ⟨discovered, skipped, ingested, declarations, errors⟩
  | _ => none

/-- The tally that a value is: all five counters by name, among other fields or not, or the list of the five in
    order. -/
def ofJson? (value : Json) : Option Tally := do
  let values ←
    match value with
    | .list items => some items
    | value => counterNames.mapM fun name => value.field? name
  let counters ← values.mapM counter?
  ofCounters? counters

end Tally
end Ambient
