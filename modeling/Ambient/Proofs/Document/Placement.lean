import Ambient.Proofs.Document.Statements

/-!
# Where a new import goes

The line of an edit is described by what stands before and behind it, without saying how it is found.

* `preamble`: the lines before the first that is neither blank nor an import;
* `PlacedAt.unique`: a document has one place at the end of its leading imports, and `placedAt_leadingRun` says that
  the leading run ends there;
* `edit?_placed`: every edit names this place;
* `runLength_lt_iff`: it is the start of a line, unless the document ends with its leading imports;
* `edit?_pointsInside_iff`: then the statement gets lines of its own, and else the edit points behind the last line.
-/

namespace Ambient

namespace Import

/-! ## 1. The end of the leading imports -/

/-- The number of lines before the first that is neither blank nor an import; of all, if there is none. -/
def firstCode (lines : List Text) : Nat := lines.findIdx fun line => decide (line ≠ [] ∧ ¬IsImportLine line)

/-- The lines before the first that is neither blank nor an import. -/
def preamble (lines : List Text) : List Text := lines.take (firstCode lines)

/-- **The place behind the leading imports.** -/
structure PlacedAt (lines : List Text) (n : Nat) : Prop where
  /-- Before it there are imports and blank lines, -/
  before : ∀ line ∈ lines.take n, line ≠ [] → IsImportLine line
  /-- of which the last is an import; -/
  front : n = 0 ∨ ∃ line ∈ lines[n - 1]?, IsImportLine line
  /-- behind it there are only blank lines, up to the first that is neither blank nor an import. -/
  behind : ∀ line ∈ (preamble lines).drop n, line = []

section Lines

variable {lines : List Text} {line : Text}

theorem not_isImportLine_nil : ¬IsImportLine [] := by decide

theorem mayLead_iff : mayLead line = true ↔ line = [] ∨ IsImportLine line := by
  unfold mayLead
  rw [Bool.or_eq_true, List.isEmpty_iff, isImport_iff]

theorem preamble_eq (lines : List Text) : preamble lines = lines.takeWhile mayLead := by
  have hcode : (fun line : Text => decide (line ≠ [] ∧ ¬IsImportLine line)) = fun line => !mayLead line := by
    funext line
    rw [Bool.eq_iff_iff, decide_eq_true_iff, Bool.not_eq_true', ← Bool.not_eq_true, mayLead_iff, not_or]
  unfold preamble firstCode
  rw [hcode, List.takeWhile_eq_take_findIdx_not]

theorem mayLead_of_mem_preamble (h : line ∈ preamble lines) : line = [] ∨ IsImportLine line := by
  rw [preamble_eq] at h
  exact mayLead_iff.mp (List.mem_takeWhile_imp h)

/-- The preamble is the leading run and blank lines. -/
theorem exists_preamble (lines : List Text) : ∃ blank, preamble lines = leadingRun lines ++ blank ∧
    ∀ line ∈ blank, line = [] := by
  obtain ⟨blank, hblank, hno⟩ := Text.exists_dropEndWhile_append (fun line => !isImport line) (preamble lines)
  have hrun : leadingRun lines = Text.dropEndWhile (fun line => !isImport line) (preamble lines) := by
    rw [leadingRun_eq, preamble_eq]
  refine ⟨blank, by rw [hrun, hblank], fun line hline => ?_⟩
  have hmem : line ∈ preamble lines := hblank ▸ List.mem_append_right _ hline
  refine (mayLead_of_mem_preamble hmem).resolve_right fun himport => ?_
  have hdropped := hno line hline
  rw [isImport_iff.mpr himport] at hdropped
  exact absurd hdropped (by decide)

theorem prefix_preamble (lines : List Text) : preamble lines <+: lines := List.take_prefix _ _

theorem prefix_leadingRun (lines : List Text) : leadingRun lines <+: preamble lines := by
  obtain ⟨blank, hblank, -⟩ := exists_preamble lines
  exact ⟨blank, hblank.symm⟩

/-- The leading run ends with an import. -/
theorem isImportLine_of_getLast? (h : (leadingRun lines).getLast? = some line) : IsImportLine line := by
  have himport := Text.getLast?_dropEndWhile h
  exact isImport_iff.mp (by simpa using himport)

/-- There is a leading run where there is an import in the preamble. -/
theorem leadingRun_eq_nil_iff : leadingRun lines = [] ↔ ¬∃ line ∈ preamble lines, IsImportLine line := by
  obtain ⟨blank, hblank, hno⟩ := exists_preamble lines
  constructor
  · rintro hnil ⟨line, hline, himport⟩
    rw [hblank, hnil] at hline
    exact not_isImportLine_nil (hno line hline ▸ himport)
  · intro hnone
    rw [← List.getLast?_eq_none_iff, Option.eq_none_iff_forall_ne_some]
    intro line hline
    have hmem := (prefix_leadingRun lines).subset (List.mem_of_getLast? hline)
    exact hnone ⟨line, hmem, isImportLine_of_getLast? hline⟩

/-- **The leading run ends at that place.** -/
theorem placedAt_leadingRun (lines : List Text) : PlacedAt lines (leadingRun lines).length := by
  obtain ⟨blank, hblank, hno⟩ := exists_preamble lines
  have hprefix : leadingRun lines <+: lines := (prefix_leadingRun lines).trans (prefix_preamble lines)
  have htake : lines.take (leadingRun lines).length = leadingRun lines := (List.prefix_iff_eq_take.mp hprefix).symm
  refine ⟨fun line hline hne => ?_, ?_, fun line hline => ?_⟩
  · rw [htake] at hline
    exact (mayLead_of_mem_preamble ((prefix_leadingRun lines).subset hline)).resolve_left hne
  · refine (Nat.eq_zero_or_pos _).imp_right fun hpos => ?_
    have hindex : (leadingRun lines).length - 1 < (leadingRun lines).length := Nat.sub_one_lt_of_lt hpos
    have hlast : (leadingRun lines).getLast? = some ((leadingRun lines)[(leadingRun lines).length - 1]) := by
      rw [List.getLast?_eq_getElem?, List.getElem?_eq_getElem hindex]
    exact ⟨_, List.prefix_iff_getElem?.mp hprefix _ hindex, isImportLine_of_getLast? hlast⟩
  · rw [hblank, List.drop_left] at hline
    exact hno line hline

/-- No such place stands before another. -/
theorem PlacedAt.le {m n : Nat} (hm : PlacedAt lines m) (hn : PlacedAt lines n) : m ≤ n := by
  by_contra hlt
  obtain ⟨line, hline, himport⟩ := hm.front.resolve_left (by omega)
  -- the lines before `m` all belong to the preamble, so the import among them is not behind `n`
  have hpreamble : preamble lines = lines.take m ++ (lines.drop m).takeWhile mayLead := by
    conv_lhs => rw [preamble_eq, ← List.take_append_drop m lines]
    refine List.takeWhile_append_of_pos fun l hl => mayLead_iff.mpr ?_
    by_cases hnil : l = []
    · exact .inl hnil
    · exact .inr (hm.before l hl hnil)
  have hlt' : m - 1 < (lines.take m).length := by
    have hlength := (List.getElem?_eq_some_iff.mp hline).1
    rw [List.length_take]
    omega
  have hmem : line ∈ (preamble lines).drop n := by
    refine List.mem_of_getElem? (i := m - 1 - n) ?_
    rw [List.getElem?_drop, show n + (m - 1 - n) = m - 1 by omega, hpreamble, List.getElem?_append_left hlt',
      List.getElem?_take_of_lt (by omega)]
    exact hline
  exact not_isImportLine_nil (hn.behind line hmem ▸ himport)

/-- **There is one such place.** -/
theorem PlacedAt.unique {m n : Nat} (hm : PlacedAt lines m) (hn : PlacedAt lines n) : m = n :=
  Nat.le_antisymm (hm.le hn) (hn.le hm)

/-! ## 2. Documents that end with their leading imports -/

/-- Is there anything behind the leading imports? -/
def HasRoom (lines : List Text) : Prop :=
  (∃ line ∈ lines, line ≠ [] ∧ ¬IsImportLine line) ∨ lines.getLast? = some []

instance (lines : List Text) : Decidable (HasRoom lines) := inferInstanceAs (Decidable (_ ∨ _))

theorem leadingRun_eq_self_iff : leadingRun lines = lines ↔ ¬HasRoom lines := by
  constructor
  · rintro hall (⟨line, hline, hcode, hno⟩ | hlast)
    · have hmem : line ∈ preamble lines := (prefix_leadingRun lines).subset (hall.symm ▸ hline)
      exact (mayLead_of_mem_preamble hmem).elim hcode hno
    · rw [← hall] at hlast
      exact not_isImportLine_nil (isImportLine_of_getLast? hlast)
  · intro hfull
    obtain ⟨hcode, hlast⟩ := not_or.mp hfull
    have hlead : ∀ line ∈ lines, line = [] ∨ IsImportLine line := fun line hline =>
      or_iff_not_imp_left.mpr fun hnil => by_contra fun hno => hcode ⟨line, hline, hnil, hno⟩
    rw [leadingRun_eq, List.takeWhile_eq_self_iff.mpr fun line hline => mayLead_iff.mpr (hlead line hline)]
    refine Text.dropEndWhile_of_getLast? fun line hline => ?_
    have himport := (hlead line (List.mem_of_getLast? hline)).resolve_left fun hnil => hlast (hnil ▸ hline)
    rw [isImport_iff.mpr himport]
    rfl

end Lines

/-- **The leading run ends before the document does** if there is anything behind it. -/
theorem runLength_lt_iff (document : Text) :
    runLength document < (Text.lines document).length ↔ HasRoom (trimmedLines document) := by
  have hlength : (trimmedLines document).length = (Text.lines document).length := List.length_map _
  have hprefix : leadingRun (trimmedLines document) <+: trimmedLines document :=
    (prefix_leadingRun _).trans (prefix_preamble _)
  rw [← not_iff_not, ← leadingRun_eq_self_iff, ← hlength, not_lt]
  exact ⟨fun h => hprefix.eq_of_length_le h, fun h => (congrArg List.length h).ge⟩

/-! ## 3. Edits -/

section Edits

variable {document : Text} {d : Declaration} {e : Edit}

/-- **An edit names the place behind the leading imports**, and no other place is behind them. Its text has a blank
    line at the end if there are none. -/
theorem edit?_placed (hsize : (Text.lines document).length < 2 ^ 32) (he : edit? document d = some e) :
    (∀ n, PlacedAt (trimmedLines document) n ↔ n = e.position.line.toNat) ∧
      e.text = statement d ++ '\n' :: (if ∃ line ∈ preamble (trimmedLines document), IsImportLine line then []
        else ['\n']) := by
  have hsmall : runLength document < 2 ^ 32 := (runLength_le document).trans_lt hsize
  have hplaced : PlacedAt (trimmedLines document) (runLength document) := placedAt_leadingRun _
  have hnone : runLength document = 0 ↔ ¬∃ line ∈ preamble (trimmedLines document), IsImportLine line :=
    List.length_eq_zero_iff.trans leadingRun_eq_nil_iff
  rw [edit?_eq_some he]
  refine ⟨fun n => ?_, ?_⟩
  · show _ ↔ n = (lineNumber (runLength document)).toNat
    rw [toNat_lineNumber hsmall]
    exact ⟨fun hn => hn.unique hplaced, fun hn => hn ▸ hplaced⟩
  · show textAt _ _ = _
    unfold textAt
    by_cases hzero : runLength document = 0
    · rw [if_pos hzero, if_neg (hnone.mp hzero), List.append_assoc]
      rfl
    · rw [if_neg hzero, if_pos (not_not.mp (mt hnone.mpr hzero)), List.append_nil]

/-- Blank lines about an import, and another import behind code. -/
def blankAbout : Text := "\n  import A = CG.A;\r\n\t\nlet x;\nimport B = CG.B;\n".toList

theorem placed_blankAbout : (Text.lines blankAbout).length < 2 ^ 32 ∧
    edit? blankAbout (constant "C: number") = some ⟨⟨2, 0⟩, "import C = CG.C;\n".toList⟩ ∧
    ∀ n, PlacedAt (trimmedLines blankAbout) n ↔ n = 2 := by
  have hsize : (Text.lines blankAbout).length < 2 ^ 32 := by decide
  have hedit : edit? blankAbout (constant "C: number") = some ⟨⟨2, 0⟩, "import C = CG.C;\n".toList⟩ := by decide
  exact ⟨hsize, hedit, (edit?_placed hsize hedit).1⟩

/-- The lines of a statement, alone between the lines before and behind them. -/
def StandsAlone (document : Text) (d : Declaration) (e : Edit) : Prop :=
  Text.lines (e.apply document) = (Text.lines document).take e.position.line.toNat ++
    (Text.lines (statement d) ++
      (gap e.position.line.toNat ++ (Text.lines document).drop e.position.line.toNat))

/-- **An edit points at the start of a line, where the statement stands alone, if and only if the document goes on
    behind its leading imports.** -/
theorem edit?_pointsInside_iff (hsize : (Text.lines document).length < 2 ^ 32) (he : edit? document d = some e) :
    e.position.character = 0 ∧
      ((e.PointsInside document ∧ StandsAlone document d e) ↔ HasRoom (trimmedLines document)) := by
  have hsmall : runLength document < 2 ^ 32 := (runLength_le document).trans_lt hsize
  have hline : e.position.line.toNat = runLength document := by
    rw [edit?_eq_some he]
    exact toNat_lineNumber hsmall
  have hinside : e.PointsInside document ↔ HasRoom (trimmedLines document) := by
    unfold Edit.PointsInside
    rw [hline, runLength_lt_iff]
  refine ⟨by rw [edit?_eq_some he], fun h => hinside.mp h.1, fun hroom => ⟨hinside.mpr hroom, ?_⟩⟩
  unfold StandsAlone
  rw [hline, edit?_eq_some he]
  exact lines_apply_statement ((runLength_lt_iff document).mpr hroom) hsmall d

/-- The line feed behind an import is room enough. -/
theorem pointsInside_closed :
    edit? "import A = CG.A;\n".toList (constant "C: number") = some ⟨⟨1, 0⟩, "import C = CG.C;\n".toList⟩ ∧
      (⟨⟨1, 0⟩, "import C = CG.C;\n".toList⟩ : Edit).PointsInside "import A = CG.A;\n".toList := by
  have hedit : edit? "import A = CG.A;\n".toList (constant "C: number") =
      some ⟨⟨1, 0⟩, "import C = CG.C;\n".toList⟩ := by decide
  exact ⟨hedit, ((edit?_pointsInside_iff (by decide) hedit).2.mpr (by decide)).1⟩

/-- **Behind an import that ends the document the edit points at no line.** -/
theorem not_pointsInside_unclosed : (Text.lines "import A = CG.A;".toList).length < 2 ^ 32 ∧
    edit? "import A = CG.A;".toList (constant "C: number") = some ⟨⟨1, 0⟩, "import C = CG.C;\n".toList⟩ ∧
      ¬(⟨⟨1, 0⟩, "import C = CG.C;\n".toList⟩ : Edit).PointsInside "import A = CG.A;".toList := by
  decide

end Edits

end Import
end Ambient
