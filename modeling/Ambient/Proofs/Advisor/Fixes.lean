import Ambient.Advisor.Basic
import Ambient.Proofs.Document.Imports
import Mathlib.Data.List.Forall2

/-!
# What a fix leaves behind

A fix inserts lines in front of a line, so whatever starts at that line or below it goes down. This file
follows a range and the diagnostics through the edit, and asks the advisor again.

* `Range.Moved`: a range before and after lines have been put in. Two ranges stay equal, or different, when
  they are moved (`Moved.eq_iff`), and so the advisor finds the same diagnostic (`find?_moved`);
* `line?_moved`, `nameIn?_moved`: a moved range covers the same name;
* `fix_settles`: the fix is not offered again, nor is its edit in any other place.
-/

namespace Ambient

/-! ## 1. Ranges that go down -/

namespace Range

/-- The number of lines by which a range goes down if `count` lines are put in at `line`. -/
def shift (line count : Nat) (r : Range) : Nat := if line ≤ r.start.line.toNat then count else 0

/-- A range before and after `count` lines have been put in at `line`: it goes down as a whole, if it starts
    there or below. -/
structure Moved (line count : Nat) (r r' : Range) : Prop where
  start : r'.start.line.toNat = r.start.line.toNat + r.shift line count
  startCharacter : r'.start.character = r.start.character
  stop : r'.stop.line.toNat = r.stop.line.toNat + r.shift line count
  stopCharacter : r'.stop.character = r.stop.character

variable {line count : Nat} {r r' s s' : Range}

theorem isSingleLine_iff : r.isSingleLine = true ↔ r.start.line.toNat = r.stop.line.toNat := by
  rw [isSingleLine, beq_iff_eq, UInt32.toNat_inj]

/-- A range on a single line that stays among the lines an editor can number has a place to go. -/
theorem exists_moved (hsingle : r.isSingleLine = true)
    (hroom : r.start.line.toNat + r.shift line count < 2 ^ 32) : ∃ r', r.Moved line count r' := by
  have hline : (UInt32.ofNat (r.start.line.toNat + r.shift line count)).toNat =
      r.start.line.toNat + r.shift line count := UInt32.toNat_ofNat_of_lt' hroom
  exact ⟨onLine (UInt32.ofNat (r.start.line.toNat + r.shift line count)) r.start.character r.stop.character,
    hline, rfl, isSingleLine_iff.mp hsingle ▸ hline, rfl⟩

namespace Moved

theorem isSingleLine_eq (h : r.Moved line count r') : r'.isSingleLine = r.isSingleLine := by
  rw [Bool.eq_iff_iff, isSingleLine_iff, isSingleLine_iff, h.start, h.stop, Nat.add_right_cancel_iff]

theorem isEmpty_eq (h : r.Moved line count r') : r'.isEmpty = r.isEmpty := by
  unfold isEmpty length
  rw [h.isSingleLine_eq, h.startCharacter, h.stopCharacter]

/-- Where two ranges start on one line after they have been moved, they did so before. -/
theorem start_eq (hr : r.Moved line count r') (hs : s.Moved line count s')
    (h : r'.start.line.toNat = s'.start.line.toNat) : r.start.line.toNat = s.start.line.toNat := by
  rw [hr.start, hs.start, shift, shift] at h
  split at h <;> split at h <;> omega

/-- **No two ranges are moved to one place, and none to two.** -/
theorem eq_iff (hr : r.Moved line count r') (hs : s.Moved line count s') : r' = s' ↔ r = s := by
  constructor
  · intro h
    have hstart : r.start.line.toNat = s.start.line.toNat := hr.start_eq hs (by rw [h])
    have hshift : r.shift line count = s.shift line count := by rw [shift, shift, hstart]
    have hstop : r.stop.line.toNat = s.stop.line.toNat := by
      have hlines : r'.stop.line.toNat = s'.stop.line.toNat := by rw [h]
      rw [hr.stop, hs.stop, hshift] at hlines
      exact Nat.add_right_cancel hlines
    have hstartCharacter : r.start.character = s.start.character := by
      rw [← hr.startCharacter, ← hs.startCharacter, h]
    have hstopCharacter : r.stop.character = s.stop.character := by
      rw [← hr.stopCharacter, ← hs.stopCharacter, h]
    obtain ⟨⟨_, _⟩, ⟨_, _⟩⟩ := r
    obtain ⟨⟨_, _⟩, ⟨_, _⟩⟩ := s
    simp_all [UInt32.toNat_inj]
  · rintro rfl
    have hstart : r'.start.line = s'.start.line := UInt32.toNat_inj.mp (hr.start.trans hs.start.symm)
    have hstop : r'.stop.line = s'.stop.line := UInt32.toNat_inj.mp (hr.stop.trans hs.stop.symm)
    have hstartCharacter : r'.start.character = s'.start.character :=
      hr.startCharacter.trans hs.startCharacter.symm
    have hstopCharacter : r'.stop.character = s'.stop.character := hr.stopCharacter.trans hs.stopCharacter.symm
    obtain ⟨⟨_, _⟩, ⟨_, _⟩⟩ := r'
    obtain ⟨⟨_, _⟩, ⟨_, _⟩⟩ := s'
    simp_all

end Moved
end Range

/-- A diagnostic before and after lines have been put in. -/
structure Diagnostic.Moved (line count : Nat) (d d' : Diagnostic) : Prop where
  range : d.range.Moved line count d'.range
  code : d'.code = d.code
  source : d'.source = d.source

namespace Edit

/-- Number of lines that the edit puts in. -/
def count (e : Edit) : Nat := Text.lineFeeds e.text

/-- Where a range is after the edit. -/
def Moves (e : Edit) : Range → Range → Prop := Range.Moved e.position.line.toNat e.count

/-- Where a diagnostic is after the edit. -/
def MovesDiagnostic (e : Edit) : Diagnostic → Diagnostic → Prop :=
  Diagnostic.Moved e.position.line.toNat e.count

/-- **The edit puts in whole lines**, as many as its text closes, and changes nothing else. -/
structure PutsIn (e : Edit) (document : Text) (inserted : List Text) : Prop where
  length : inserted.length = e.count
  lines : Text.lines (e.apply document) = (Text.lines document).take e.position.line.toNat ++
    (inserted ++ (Text.lines document).drop e.position.line.toNat)

namespace PutsIn

variable {e : Edit} {document : Text} {inserted : List Text} {r r' : Range}

/-- No line is lost. -/
theorem sublist (h : e.PutsIn document inserted) :
    (Text.lines document).Sublist (Text.lines (e.apply document)) := by
  rw [h.lines]
  conv_lhs => rw [← List.take_append_drop e.position.line.toNat (Text.lines document)]
  exact (List.Sublist.refl _).append (List.sublist_append_right _ _)

theorem length_lines (h : e.PutsIn document inserted) (hinside : e.PointsInside document) :
    (Text.lines (e.apply document)).length = (Text.lines document).length + e.count := by
  unfold PointsInside at hinside
  rw [h.lines, List.length_append, List.length_append, List.length_take, List.length_drop, h.length]
  omega

/-- **A line is found where the lines put in have moved it.** -/
theorem getElem?_lines (h : e.PutsIn document inserted) (hinside : e.PointsInside document) (k : Nat) :
    (Text.lines (e.apply document))[k + if e.position.line.toNat ≤ k then e.count else 0]? =
      (Text.lines document)[k]? := by
  have htake : ((Text.lines document).take e.position.line.toNat).length = e.position.line.toNat :=
    List.length_take_of_le hinside.le
  rw [h.lines]
  split
  · rename_i hk
    rw [List.getElem?_append_right (by omega), List.getElem?_append_right (by rw [h.length, htake]; omega),
      List.getElem?_drop, htake, h.length]
    congr 1
    omega
  · rw [Nat.add_zero, List.getElem?_append_left (by omega), List.getElem?_take_of_lt (by omega)]

end PutsIn
end Edit

namespace Import

variable {document : Text} {d : Declaration} {e : Edit}

/-- **The lines that the edit of a declaration puts in.** -/
theorem edit?_putsIn (he : edit? document d = some e) (hinside : e.PointsInside document) :
    e.PutsIn document (Text.lines (statement d) ++ gap (runLength document)) := by
  obtain ⟨x, htext, hx⟩ := exists_textAt (runLength document) d
  have hetext : e.text = x ++ ['\n'] := by rw [edit?_eq_some he]; exact htext
  rw [← hx]
  refine ⟨?_, Edit.lines_apply_closed hinside hetext⟩
  rw [Text.length_lines, Edit.count, hetext, Text.lineFeeds, Text.lineFeeds, List.count_append]
  rfl

/-- A document to which the statement has been added needs no further edit. -/
theorem edit?_apply_eq_none (hd : Nameable d) (he : edit? document d = some e)
    (hinside : e.PointsInside document) : edit? (e.apply document) d = none := by
  refine edit?_of_mem hd ?_
  rw [(edit?_putsIn he hinside).lines, Text.lines_of_not_mem hd.not_mem_statement]
  simp

end Import

/-! ## 2. The advisor, asked again -/

namespace Advisor

section Moved

variable {a : Advisor} {e : Edit} {document name : Text} {inserted : List Text} {range range' : Range}

/-- The line on which a range starts goes down with it. -/
theorem line?_moved (h : e.PutsIn document inserted) (hinside : e.PointsInside document)
    (hmoved : e.Moves range range') :
    Document.line? (e.apply document) range'.start.line = Document.line? document range.start.line := by
  unfold Document.line?
  rw [hmoved.start, Range.shift, h.getElem?_lines hinside]

/-- **A range that is moved covers the same name.** -/
theorem nameIn?_moved (h : e.PutsIn document inserted) (hinside : e.PointsInside document)
    (hmoved : e.Moves range range') : nameIn? (e.apply document) range' = nameIn? document range := by
  unfold nameIn?
  rw [hmoved.isSingleLine_eq, hmoved.isEmpty_eq, line?_moved h hinside hmoved, hmoved.startCharacter,
    hmoved.stopCharacter]

theorem nameIn?_eq_some (h : nameIn? document range = some name) : range.isSingleLine = true ∧
    range.start.line.toNat < (Text.lines document).length := by
  unfold nameIn? at h
  split at h
  · cases h
  · rename_i hrange
    obtain ⟨line, hline, -⟩ := Option.bind_eq_some_iff.mp h
    unfold Document.line? at hline
    obtain ⟨l, hl, -⟩ := Option.map_eq_some_iff.mp hline
    refine ⟨?_, (List.getElem?_eq_some_iff.mp hl).1⟩
    simp only [Bool.or_eq_true, not_or, Bool.not_eq_true', Bool.not_eq_false] at hrange
    exact hrange.1

/-- **A diagnostic answers a range before they are moved if and only if it does afterwards.** -/
theorem answers_moved (a : Advisor) {d d' : Diagnostic} (hmoved : e.Moves range range')
    (hd : e.MovesDiagnostic d d') : a.answers range' d' = a.answers range d := by
  unfold answers
  rw [hd.code, hd.source, decide_eq_decide.mpr (hd.range.eq_iff hmoved)]

/-- The diagnostic that is found first is moved to the one that is. -/
theorem find?_moved (a : Advisor) {ds ds' : List Diagnostic} (hmoved : e.Moves range range')
    (hds : List.Forall₂ e.MovesDiagnostic ds ds') {d : Diagnostic}
    (hd : ds.find? (a.answers range) = some d) :
    ∃ d', ds'.find? (a.answers range') = some d' ∧ e.MovesDiagnostic d d' := by
  induction hds with
  | nil => cases hd
  | @cons x x' ds ds' hx hds ih =>
    rw [List.find?_cons] at hd ⊢
    rw [a.answers_moved hmoved hx]
    cases hanswers : a.answers range x with
    | true =>
      rw [hanswers] at hd
      cases hd
      exact ⟨x', rfl, hx⟩
    | false =>
      rw [hanswers] at hd
      exact ih hd

end Moved

/-- What a fix is made of: a name, the first entry of that name, a diagnostic, and the edit of the entry's
    declaration. -/
theorem fix?_eq_some {a : Advisor} {document : Text} {range : Range} {diagnostics : List Diagnostic} {fix : Fix}
    (h : a.fix? document range diagnostics = some fix) : ∃ name entry,
    nameIn? document range = some name ∧ a.catalogue.findShort? name = some entry ∧
    diagnostics.find? (a.answers range) = some fix.diagnostic ∧
    Import.edit? document entry.declaration = some fix.edit := by
  unfold fix? at h
  obtain ⟨name, hname, h⟩ := Option.bind_eq_some_iff.mp h
  obtain ⟨diagnostic, hdiagnostic, h⟩ := Option.bind_eq_some_iff.mp h
  obtain ⟨edit, hedit, h⟩ := Option.bind_eq_some_iff.mp h
  obtain ⟨entry, hentry, hedit⟩ := Option.bind_eq_some_iff.mp hedit
  cases h
  exact ⟨name, entry, hname, hentry, hdiagnostic, hedit⟩

/-- **What carrying out a fix comes to.** The fix imports the declaration of `entry`, whose short name is the
    `name` in the range. -/
structure FixSettles (a : Advisor) (document : Text) (range : Range) (diagnostics : List Diagnostic) (fix : Fix)
    (name : Text) (entry : Entry) : Prop where
  named : nameIn? document range = some name
  found : a.catalogue.findShort? name = some entry
  /-- The edit puts in whole lines, as many as everything below them goes down, -/
  lines : ∃ inserted, fix.edit.PutsIn document inserted
  /-- and every line of the document is still there, in order. -/
  kept : (Text.lines document).Sublist (Text.lines (fix.edit.apply document))
  /-- The range goes somewhere, as long as the editor can number the lines, -/
  movable : (Text.lines (fix.edit.apply document)).length ≤ 2 ^ 32 → ∃ range', fix.edit.Moves range range'
  /-- and wherever that is, it covers the same name. -/
  covers : ∀ range', fix.edit.Moves range range' → nameIn? (fix.edit.apply document) range' = some name
  /-- The diagnostic still reports it, -/
  reported : ∀ range' diagnostics', fix.edit.Moves range range' →
    List.Forall₂ fix.edit.MovesDiagnostic diagnostics diagnostics' →
    ∃ d, diagnostics'.find? (a.answers range') = some d ∧ fix.edit.MovesDiagnostic fix.diagnostic d
  /-- but no fix is offered, -/
  settled : ∀ range' diagnostics', fix.edit.Moves range range' →
    List.Forall₂ fix.edit.MovesDiagnostic diagnostics diagnostics' →
    a.fix? (fix.edit.apply document) range' diagnostics' = none
  /-- no edit for the name, -/
  edit : a.importEdit? (fix.edit.apply document) name = none
  /-- and none with a completion of the declaration. -/
  completion : ∀ word, word <+: name → ∃ p ∈ a.completions word (some (fix.edit.apply document)),
    p = .ofDeclaration a.settings.sortPrefix (some (fix.edit.apply document)) entry.declaration ∧
    p.additionalEdit = none

/-- **Carrying out a fix settles it.** -/
theorem fix_settles {a : Advisor} {document : Text} {range : Range} {diagnostics : List Diagnostic} {fix : Fix}
    (hnames : ∀ entry ∈ a.catalogue.entries, Import.Nameable entry.declaration)
    (hfix : a.fix? document range diagnostics = some fix) (hinside : fix.edit.PointsInside document) :
    ∃ name entry, FixSettles a document range diagnostics fix name entry := by
  obtain ⟨name, entry, hname, hentry, hdiagnostic, hedit⟩ := fix?_eq_some hfix
  have hmem : entry ∈ a.catalogue.entries := List.mem_of_find?_eq_some hentry
  have hshort : entry.declaration.shortName = name := by simpa using List.find?_some hentry
  have hputs := Import.edit?_putsIn hedit hinside
  have hnone : Import.edit? (fix.edit.apply document) entry.declaration = none :=
    Import.edit?_apply_eq_none (hnames entry hmem) hedit hinside
  have himport : a.importEdit? (fix.edit.apply document) name = none := by
    rw [importEdit?, hentry]
    exact hnone
  have hcovers : ∀ range', fix.edit.Moves range range' →
      nameIn? (fix.edit.apply document) range' = some name :=
    fun range' hmoved => (nameIn?_moved hputs hinside hmoved).trans hname
  refine ⟨name, entry, hname, hentry, ⟨_, hputs⟩, hputs.sublist, fun hsmall => ?_, hcovers,
    fun range' diagnostics' hmoved hds => a.find?_moved hmoved hds hdiagnostic,
    fun range' diagnostics' hmoved _ => ?_, himport, fun word hword => ⟨_, ?_, rfl, hnone⟩⟩
  · obtain ⟨hsingle, hline⟩ := nameIn?_eq_some hname
    refine Range.exists_moved hsingle ?_
    rw [hputs.length_lines hinside] at hsmall
    unfold Range.shift
    split <;> omega
  · simp [fix?, hcovers range' hmoved, himport]
  · refine List.mem_map_of_mem (List.mem_filter.mpr ⟨List.mem_map_of_mem hmem, ?_⟩)
    rw [hshort]
    exact List.isPrefixOf_iff_prefix.mpr hword

/-- An advisor that knows the class `CG.Widget`. -/
def widgetAdvisor : Advisor :=
  let widget := (Draft.start "CG".toList .classType "Widget".toList [] true).finish []
  ⟨.standard, Catalogue.empty.ingest ⟨"widget.d.ts".toList⟩ [widget], .zero⟩

/-- A document with an import, on whose last line `Widget` is not resolved. -/
def widgetDocument : Text := "import A = CG.A;\r\n\r\nlet w: Widget;".toList

/-- The diagnostics: one on the first line, which stays, and one on the last, which goes down. -/
def widgetDiagnostics : List Diagnostic :=
  [⟨.onLine 0 7 8, 6133, "ts".toList⟩, ⟨.onLine 2 7 13, 2304, "ts".toList⟩]

def widgetFix : Fix :=
  ⟨"Auto Import".toList, ⟨⟨1, 0⟩, "import Widget = CG.Widget;\n".toList⟩, true,
    ⟨.onLine 2 7 13, 2304, "ts".toList⟩⟩

theorem fix_settles_widget :
    (∀ entry ∈ widgetAdvisor.catalogue.entries, Import.Nameable entry.declaration) ∧
    widgetAdvisor.fix? widgetDocument (.onLine 2 7 13) widgetDiagnostics = some widgetFix ∧
    widgetFix.edit.PointsInside widgetDocument ∧
    ∃ name entry,
      FixSettles widgetAdvisor widgetDocument (.onLine 2 7 13) widgetDiagnostics widgetFix name entry := by
  have hnames : ∀ entry ∈ widgetAdvisor.catalogue.entries, Import.Nameable entry.declaration := by
    decide +kernel
  have hfix : widgetAdvisor.fix? widgetDocument (.onLine 2 7 13) widgetDiagnostics = some widgetFix := by
    decide +kernel
  have hinside : widgetFix.edit.PointsInside widgetDocument := by decide +kernel
  exact ⟨hnames, hfix, hinside, fix_settles hnames hfix hinside⟩

end Advisor
end Ambient
