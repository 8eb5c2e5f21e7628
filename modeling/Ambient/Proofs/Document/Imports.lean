import Ambient.Document.Import
import Ambient.Proofs.Text.Blank
import Ambient.Proofs.Text.Cut
import Ambient.Proofs.Text.Lines
import Mathlib.Algebra.Group.Nat.Defs

/-!
# Adding imports one after another

`Import.edit?` says where the statement of one declaration goes. Here the edits are carried out, one
declaration after the other, and each is computed for the document that the last one left behind.

* `imports_statement`: whatever the names are, a statement is an import line, and the one of its declaration;
* `leadingRun_append`: an import line put behind the leading run makes the run one line longer, and no more;
* `Edit.lines_apply_closed`, `lines_apply`: what one edit does to the lines;
* `addAll_settles`: what any number of them does.
-/

namespace Ambient

namespace Import

/-! ## 1. Statements are import lines -/

theorem hasOrigin_append (a : Text) {b : Text} (h : startsOrigin b = true) : hasOrigin (a ++ b) = true := by
  induction a with
  | nil =>
    cases b with
    | nil => cases h
    | cons c b =>
      show (startsOrigin (c :: b) || hasOrigin b) = true
      rw [h, Bool.true_or]
  | cons c a ih =>
    show (startsOrigin (c :: (a ++ b)) || hasOrigin (a ++ b)) = true
    rw [ih, Bool.or_true]

theorem startsOrigin_equals {t : Text} (h : t ≠ []) : startsOrigin (" = ".toList ++ t) = true := by
  obtain ⟨c, rest, rfl⟩ := List.exists_cons_of_ne_nil h
  rfl

/-- **A statement is an import line.** -/
theorem isImport_statement {d : Declaration} (h : d.shortName ≠ []) : isImport (statement d) = true := by
  obtain ⟨c, name, hname⟩ := List.exists_cons_of_ne_nil h
  have horigin : hasOrigin (name ++ (" = ".toList ++ (d.qualifiedName ++ [';']))) = true :=
    hasOrigin_append name (startsOrigin_equals (by simp))
  have hline : statement d =
      "import".toList ++ ' ' :: c :: (name ++ (" = ".toList ++ (d.qualifiedName ++ [';']))) := by
    unfold statement
    rw [hname, List.append_assoc, List.append_assoc, List.append_assoc]
    rfl
  unfold isImport
  rw [hline, Text.isPrefixOf?_append]
  exact horigin

theorem mem_blankRests_self (t : Text) : t ∈ Text.blankRests t := by
  cases t <;> simp [Text.blankRests]

/-- A part is found at once. -/
theorem mem_afterPart (part rest : Text) : rest ∈ afterPart part (part ++ rest) :=
  List.mem_filterMap.mpr ⟨part ++ rest, mem_blankRests_self _, Text.isPrefixOf?_append part rest⟩

/-- A part is found behind a space. -/
theorem mem_afterPart_space (part rest : Text) : rest ∈ afterPart part (' ' :: (part ++ rest)) :=
  List.mem_filterMap.mpr
    ⟨part ++ rest, List.mem_cons_of_mem _ (mem_blankRests_self _), Text.isPrefixOf?_append part rest⟩

/-- **It is the statement of its declaration**, even where the names hold blanks or an equals sign. -/
theorem isStatementOf_statement (d : Declaration) : isStatementOf d (statement d) = true := by
  have hline : statement d =
      "import".toList ++ ' ' :: (d.shortName ++ ' ' :: (['='] ++ ' ' :: (d.qualifiedName ++ [';']))) := by
    unfold statement
    rw [List.append_assoc, List.append_assoc, List.append_assoc]
    rfl
  have hmem : [';'] ∈ ((afterPart d.shortName
      (d.shortName ++ ' ' :: (['='] ++ ' ' :: (d.qualifiedName ++ [';'])))).flatMap (afterPart ['='])).flatMap
        (afterPart d.qualifiedName) :=
    List.mem_flatMap.mpr ⟨_, List.mem_flatMap.mpr ⟨_, mem_afterPart _ _, mem_afterPart_space _ _⟩,
      mem_afterPart_space _ _⟩
  unfold isStatementOf
  rw [hline, Text.isPrefixOf?_append]
  exact List.any_eq_true.mpr ⟨[';'], hmem, rfl⟩

theorem imports_statement {d : Declaration} (h : d.shortName ≠ []) : imports d (statement d) = true := by
  unfold imports
  rw [isImport_statement h, isStatementOf_statement d]
  rfl

theorem trim_statement (d : Declaration) : Text.trim (statement d) = statement d :=
  Text.trim_of_ends (t := "mport ".toList ++ d.shortName ++ " = ".toList ++ d.qualifiedName) (by decide)
    (by decide)

/-! ## 2. The leading run -/

/-- A line that does not end the leading run. -/
def mayLead (line : Text) : Bool := line.isEmpty || isImport line

theorem leadingRun_eq (lines : List Text) :
    leadingRun lines = Text.dropEndWhile (fun line => !isImport line) (lines.takeWhile mayLead) := rfl

/-- What is behind the leading run has none of its own. -/
theorem exists_behind_leadingRun (lines : List Text) : ∃ behind, lines = leadingRun lines ++ behind ∧
    leadingRun behind = [] ∧ ∀ line ∈ leadingRun lines, mayLead line = true := by
  obtain ⟨tail, htail, hno⟩ :=
    Text.exists_dropEndWhile_append (fun line => !isImport line) (lines.takeWhile mayLead)
  have hrun : leadingRun lines ++ tail = lines.takeWhile mayLead := htail
  have hlead : ∀ line ∈ leadingRun lines ++ tail, mayLead line = true := by
    intro line hline
    rw [hrun] at hline
    exact List.mem_takeWhile_imp hline
  have hstop : (lines.dropWhile mayLead).takeWhile mayLead = [] := by
    rw [List.takeWhile_eq_nil_iff]
    intro hlen
    simpa using List.dropWhile_get_zero_not mayLead lines hlen
  refine ⟨tail ++ lines.dropWhile mayLead, ?_, ?_, ?_⟩
  · rw [← List.append_assoc, hrun, List.takeWhile_append_dropWhile]
  · have htake : (tail ++ lines.dropWhile mayLead).takeWhile mayLead = tail := by
      rw [List.takeWhile_append_of_pos fun line hline => hlead line (List.mem_append_right _ hline), hstop,
        List.append_nil]
    rw [leadingRun_eq, htake]
    exact Text.dropEndWhile_of_all hno
  · intro line hline
    exact hlead line (List.mem_append_left _ hline)

/-- **An import line behind the leading run makes the run longer by itself.** -/
theorem leadingRun_append {run behind : List Text} {line : Text} (hrun : ∀ l ∈ run, mayLead l = true)
    (hline : isImport line = true) (hbehind : leadingRun behind = []) :
    leadingRun (run ++ line :: behind) = run ++ [line] := by
  have hlead : mayLead line = true := by simp [mayLead, hline]
  have htake : (run ++ line :: behind).takeWhile mayLead = run ++ line :: behind.takeWhile mayLead := by
    rw [List.takeWhile_append_of_pos hrun, List.takeWhile_cons, if_pos hlead]
  rw [leadingRun_eq, htake, Text.dropEndWhile_append_cons (by simp [hline])]
  exact congrArg (fun rest => run ++ line :: rest) hbehind

/-- A blank line in front leads nowhere. -/
theorem leadingRun_blank {behind : List Text} (h : leadingRun behind = []) : leadingRun ([] :: behind) = [] := by
  have htake : ([] :: behind).takeWhile mayLead = [] :: behind.takeWhile mayLead := rfl
  rw [leadingRun_eq, htake]
  exact Text.dropEndWhile_cons_of_nil h

theorem leadingRun_length_le (lines : List Text) : (leadingRun lines).length ≤ lines.length := by
  obtain ⟨behind, hlines, -, -⟩ := exists_behind_leadingRun lines
  have hlength := congrArg List.length hlines
  rw [List.length_append] at hlength
  omega

end Import

/-! ## 3. One edit -/

/-- The document after an edit, whose text goes to the start of its line. -/
def Edit.apply (e : Edit) (document : Text) : Text :=
  let pieces := Text.splitAtLine e.position.line.toNat document
  pieces.1 ++ (e.text ++ pieces.2)

/-- Does the edit name a line that the document has? -/
def Edit.PointsInside (e : Edit) (document : Text) : Prop :=
  e.position.line.toNat < (Text.lines document).length

instance (e : Edit) (document : Text) : Decidable (e.PointsInside document) :=
  inferInstanceAs (Decidable (_ < _))

/-- **What an edit with closed text does to the lines**: those of the text go between those before and
    behind its line. -/
theorem Edit.lines_apply_closed {e : Edit} {document x : Text} (hinside : e.PointsInside document)
    (htext : e.text = x ++ ['\n']) :
    Text.lines (e.apply document) = (Text.lines document).take e.position.line.toNat ++
      (Text.lines x ++ (Text.lines document).drop e.position.line.toNat) := by
  unfold Edit.apply
  simp only [htext, List.append_assoc, List.singleton_append]
  exact Text.lines_splitAtLine hinside x

namespace Import

/-- Number of lines of the leading run. -/
def runLength (document : Text) : Nat := (leadingRun (trimmedLines document)).length

theorem runLength_le (document : Text) : runLength document ≤ (Text.lines document).length := by
  have hle := leadingRun_length_le (trimmedLines document)
  rw [trimmedLines, List.length_map] at hle
  exact hle

theorem toNat_lineNumber {n : Nat} (h : n < 2 ^ 32) : (lineNumber n).toNat = n := by
  have hmin : min n 0xFFFFFFFF = n := by omega
  rw [lineNumber, hmin]
  exact UInt32.toNat_ofNat_of_lt' h

theorem edit?_eq_none_iff {document : Text} {d : Declaration} :
    edit? document d = none ↔ ∃ line ∈ trimmedLines document, imports d line = true := by
  rw [← List.any_eq_true, edit?]
  split
  · simp_all
  · simp_all

theorem edit?_eq_some {document : Text} {d : Declaration} {e : Edit} (h : edit? document d = some e) :
    e = ⟨⟨lineNumber (runLength document), 0⟩, textAt (runLength document) d⟩ := by
  rw [edit?] at h
  split at h
  · cases h
  · exact (Option.some.inj h).symm

/-- The blank line between a first import and the text. -/
def gap (n : Nat) : List Text := if n = 0 then [[]] else []

theorem exists_textAt (n : Nat) (d : Declaration) :
    ∃ x, textAt n d = x ++ ['\n'] ∧ Text.lines x = Text.lines (statement d) ++ gap n := by
  by_cases h0 : n = 0
  · refine ⟨statement d ++ ['\n'], by simp [textAt, h0], ?_⟩
    rw [gap, if_pos h0]
    exact Text.lines_append_feed (statement d) []
  · exact ⟨statement d, by simp [textAt, h0], by rw [gap, if_neg h0, List.append_nil]⟩

/-- **What the edit of a statement does to the lines**: the lines of the statement go between those before
    and behind it. -/
theorem lines_apply_statement {document : Text} {n : Nat} (hn : n < (Text.lines document).length)
    (hsmall : n < 2 ^ 32) (d : Declaration) :
    Text.lines (Edit.apply ⟨⟨lineNumber n, 0⟩, textAt n d⟩ document) =
      (Text.lines document).take n ++ (Text.lines (statement d) ++ (gap n ++ (Text.lines document).drop n)) := by
  have hline : (lineNumber n).toNat = n := toNat_lineNumber hsmall
  obtain ⟨x, htext, hx⟩ := exists_textAt n d
  have hinside : Edit.PointsInside ⟨⟨lineNumber n, 0⟩, textAt n d⟩ document := by
    show (lineNumber n).toNat < _
    rw [hline]
    exact hn
  rw [Edit.lines_apply_closed hinside htext, hx, List.append_assoc]
  simp only [hline]

/-- A statement without a line feed is one line. -/
theorem lines_apply {document : Text} {d : Declaration} {n : Nat} (hn : n < (Text.lines document).length)
    (hsmall : n < 2 ^ 32) (hd : '\n' ∉ statement d) :
    Text.lines (Edit.apply ⟨⟨lineNumber n, 0⟩, textAt n d⟩ document) =
      (Text.lines document).take n ++ (statement d :: (gap n ++ (Text.lines document).drop n)) := by
  rw [lines_apply_statement hn hsmall, Text.lines_of_not_mem hd]
  rfl

/-- Names that a statement can hold. -/
structure Nameable (d : Declaration) : Prop where
  ne_nil : d.shortName ≠ []
  short : '\n' ∉ d.shortName
  qualified : '\n' ∉ d.qualifiedName

instance (d : Declaration) : Decidable (Nameable d) :=
  decidable_of_iff (d.shortName ≠ [] ∧ '\n' ∉ d.shortName ∧ '\n' ∉ d.qualifiedName)
    ⟨fun ⟨hne, hshort, hqualified⟩ => ⟨hne, hshort, hqualified⟩, fun h => ⟨h.ne_nil, h.short, h.qualified⟩⟩

theorem Nameable.not_mem_statement {d : Declaration} (h : Nameable d) : '\n' ∉ statement d := by
  have hstart : '\n' ∉ "import ".toList := by decide
  have hequals : '\n' ∉ " = ".toList := by decide
  have hend : '\n' ∉ [';'] := by decide
  exact List.not_mem_append (List.not_mem_append (List.not_mem_append (List.not_mem_append hstart h.short)
    hequals) h.qualified) hend

section Step

variable {document : Text} {d : Declaration} {e : Edit}

/-- A document that holds the statement needs no edit. -/
theorem edit?_of_mem (hd : Nameable d) (h : statement d ∈ Text.lines document) : edit? document d = none := by
  refine edit?_eq_none_iff.mpr ⟨statement d, ?_, imports_statement hd.ne_nil⟩
  have hmem : Text.trim (statement d) ∈ trimmedLines document := List.mem_map_of_mem h
  rw [trim_statement] at hmem
  exact hmem

/-- **The leading run grows by the statement.** -/
theorem leadingRun_apply (he : edit? document d = some e) (hd : Nameable d)
    (hroom : runLength document < (Text.lines document).length) (hsmall : runLength document < 2 ^ 32) :
    leadingRun (trimmedLines (e.apply document)) = leadingRun (trimmedLines document) ++ [statement d] := by
  obtain ⟨behind, hlines, hbehind, hlead⟩ := exists_behind_leadingRun (trimmedLines document)
  have htake : (trimmedLines document).take (runLength document) = leadingRun (trimmedLines document) := by
    conv_lhs => rw [hlines]
    exact List.take_left
  have hdrop : (trimmedLines document).drop (runLength document) = behind := by
    conv_lhs => rw [hlines]
    exact List.drop_left
  have htrimmed : trimmedLines (e.apply document) =
      leadingRun (trimmedLines document) ++ statement d :: (gap (runLength document) ++ behind) := by
    rw [edit?_eq_some he, trimmedLines, lines_apply hroom hsmall hd.not_mem_statement, List.map_append,
      List.map_cons, List.map_append, List.map_take, List.map_drop, trim_statement]
    have hgap : (gap (runLength document)).map Text.trim = gap (runLength document) := by
      unfold gap
      split <;> rfl
    rw [hgap]
    exact congr (congrArg _ htake) (congrArg (fun rest => statement d :: (gap _ ++ rest)) hdrop)
  have hrest : leadingRun (gap (runLength document) ++ behind) = [] := by
    unfold gap
    split
    · exact leadingRun_blank hbehind
    · exact hbehind
  rw [htrimmed]
  exact leadingRun_append hlead (isImport_statement hd.ne_nil) hrest

theorem runLength_apply (he : edit? document d = some e) (hd : Nameable d)
    (hroom : runLength document < (Text.lines document).length) (hsmall : runLength document < 2 ^ 32) :
    runLength (e.apply document) = runLength document + 1 := by
  unfold runLength
  rw [leadingRun_apply he hd hroom hsmall, List.length_append]
  rfl

end Step

/-! ## 4. One edit after another -/

/-- The document after the statement of a declaration has been added, if it needs to be. -/
def add (document : Text) (d : Declaration) : Text :=
  match edit? document d with
  | some e => e.apply document
  | none => document

def addAll (document : Text) (ds : List Declaration) : Text := ds.foldl add document

/-- An edit that is carried out, with the document and the declaration for which it is computed. -/
structure Addition where
  document : Text
  declaration : Declaration
  edit : Edit

/-- The edits that are carried out on the way. -/
def additions (document : Text) : List Declaration → List Addition
  | [] => []
  | d :: ds => ((edit? document d).map fun e => ⟨document, d, e⟩).toList ++ additions (add document d) ds

/-- The statements that are added, in the order in which they are. -/
def added (document : Text) (ds : List Declaration) : List Text :=
  (additions document ds).map fun a => statement a.declaration

section Steps

variable {document : Text} {d : Declaration} {ds : List Declaration} {e : Edit}

theorem add_of_none (h : edit? document d = none) : add document d = document := by
  unfold add
  rw [h]

theorem add_of_some (h : edit? document d = some e) : add document d = e.apply document := by
  unfold add
  rw [h]

theorem additions_of_none (h : edit? document d = none) :
    additions document (d :: ds) = additions document ds := by
  rw [additions, h, add_of_none h]
  rfl

theorem additions_of_some (h : edit? document d = some e) :
    additions document (d :: ds) = ⟨document, d, e⟩ :: additions (e.apply document) ds := by
  rw [additions, h, add_of_some h]
  rfl

/-- The first edit is computed for the document as it was. -/
theorem head_additions {a : Addition} (h : (additions document ds).head? = some a) :
    a.document = document ∧ a.edit.position.line = lineNumber (runLength document) := by
  induction ds with
  | nil => cases h
  | cons d ds ih =>
    cases he : edit? document d with
    | none =>
      rw [additions_of_none he] at h
      exact ih h
    | some e =>
      rw [additions_of_some he] at h
      cases h
      exact ⟨rfl, by rw [edit?_eq_some he]⟩

end Steps

/-- **What adding the imports of some declarations comes to.** -/
structure Settles (document : Text) (ds : List Declaration) : Prop where
  /-- Every edit points at a line of the document for which it is computed. -/
  inside : ∀ a ∈ additions document ds, a.edit.PointsInside a.document
  /-- At the end there is nothing left to add. -/
  settled : ∀ d ∈ ds, edit? (addAll document ds) d = none
  /-- No statement is added twice, -/
  once : (added document ds).Nodup
  /-- or to a document that holds it. -/
  absent : ∀ line ∈ added document ds, line ∉ Text.lines document
  /-- The statements stand together, in order, between the lines of the document, with a blank line behind
      them if there was no import before; there is nothing else new. -/
  lines : Text.lines (addAll document ds) = (Text.lines document).take (runLength document) ++
    (added document ds ++ ((if added document ds = [] then [] else gap (runLength document)) ++
      (Text.lines document).drop (runLength document)))
  /-- They end the leading run. -/
  run : leadingRun (trimmedLines (addAll document ds)) = leadingRun (trimmedLines document) ++ added document ds

namespace Settles

variable {document : Text} {d : Declaration} {ds : List Declaration} {e : Edit}

/-- No line is lost. -/
theorem sublist (h : Settles document ds) : (Text.lines document).Sublist (Text.lines (addAll document ds)) := by
  rw [h.lines]
  conv_lhs => rw [← List.take_append_drop (runLength document) (Text.lines document)]
  refine (List.Sublist.refl _).append ?_
  exact (List.sublist_append_right _ _).trans (List.sublist_append_right _ _)

/-- What is imported stays imported. -/
theorem edit?_eq_none (h : Settles document ds) (hd : edit? document d = none) :
    edit? (addAll document ds) d = none := by
  obtain ⟨line, hline, himports⟩ := edit?_eq_none_iff.mp hd
  exact edit?_eq_none_iff.mpr ⟨line, (h.sublist.map Text.trim).subset hline, himports⟩

theorem nil (document : Text) : Settles document [] where
  inside _ h := absurd h List.not_mem_nil
  settled _ h := absurd h List.not_mem_nil
  once := List.nodup_nil
  absent _ h := absurd h List.not_mem_nil
  lines := (List.take_append_drop _ _).symm
  run := (List.append_nil _).symm

/-- A declaration that is imported already changes nothing. -/
theorem cons_of_none (h : Settles document ds) (hd : edit? document d = none) : Settles document (d :: ds) := by
  have hall : addAll document (d :: ds) = addAll document ds := congrArg (List.foldl add · ds) (add_of_none hd)
  have hadditions : additions document (d :: ds) = additions document ds := additions_of_none hd
  have hadded : added document (d :: ds) = added document ds := by
    unfold added
    rw [hadditions]
  constructor
  · rw [hadditions]
    exact h.inside
  · rw [hall]
    exact List.forall_mem_cons.mpr ⟨h.edit?_eq_none hd, h.settled⟩
  · rw [hadded]
    exact h.once
  · rw [hadded]
    exact h.absent
  · rw [hadded, hall]
    exact h.lines
  · rw [hadded, hall]
    exact h.run

/-- **A declaration whose statement is added**: it stands at the end of the leading run, and the next one
    goes behind it. -/
theorem cons_of_some (hd : Nameable d) (he : edit? document d = some e)
    (hroom : runLength document < (Text.lines document).length) (hsmall : runLength document < 2 ^ 32)
    (h : Settles (e.apply document) ds) : Settles document (d :: ds) := by
  have hall : addAll document (d :: ds) = addAll (e.apply document) ds :=
    congrArg (List.foldl add · ds) (add_of_some he)
  have hadditions : additions document (d :: ds) = ⟨document, d, e⟩ :: additions (e.apply document) ds :=
    additions_of_some he
  have hadded : added document (d :: ds) = statement d :: added (e.apply document) ds := by
    unfold added
    rw [hadditions, List.map_cons]
  have hlines : Text.lines (e.apply document) = (Text.lines document).take (runLength document) ++
      (statement d :: (gap (runLength document) ++ (Text.lines document).drop (runLength document))) := by
    rw [edit?_eq_some he]
    exact lines_apply hroom hsmall hd.not_mem_statement
  have hrun : leadingRun (trimmedLines (e.apply document)) =
      leadingRun (trimmedLines document) ++ [statement d] := leadingRun_apply he hd hroom hsmall
  have hlength : runLength (e.apply document) = runLength document + 1 := runLength_apply he hd hroom hsmall
  have hold : ∀ line ∈ Text.lines document, line ∈ Text.lines (e.apply document) := by
    intro line hline
    rw [hlines]
    rw [← List.take_append_drop (runLength document) (Text.lines document)] at hline
    simp only [List.mem_append, List.mem_cons] at hline ⊢
    tauto
  have hnew : statement d ∈ Text.lines (e.apply document) := by
    rw [hlines]
    simp
  constructor
  · rw [hadditions]
    refine List.forall_mem_cons.mpr ⟨?_, h.inside⟩
    show e.position.line.toNat < _
    rw [edit?_eq_some he]
    exact (toNat_lineNumber hsmall).symm ▸ hroom
  · rw [hall]
    exact List.forall_mem_cons.mpr ⟨h.edit?_eq_none (edit?_of_mem hd hnew), h.settled⟩
  · rw [hadded]
    exact List.nodup_cons.mpr ⟨fun hmem => h.absent _ hmem hnew, h.once⟩
  · rw [hadded]
    refine List.forall_mem_cons.mpr ⟨fun hmem => ?_, fun line hline hmem => h.absent line hline (hold line hmem)⟩
    rw [edit?_of_mem hd hmem] at he
    cases he
  · have hbefore : ((Text.lines document).take (runLength document)).length = runLength document :=
      List.length_take_of_le hroom.le
    have htake : (Text.lines (e.apply document)).take (runLength document + 1) =
        (Text.lines document).take (runLength document) ++ [statement d] := by
      rw [hlines, List.take_append, hbefore, List.take_of_length_le (by omega)]
      simp
    have hdrop : (Text.lines (e.apply document)).drop (runLength document + 1) =
        gap (runLength document) ++ (Text.lines document).drop (runLength document) := by
      rw [hlines, List.drop_append, hbefore, List.drop_of_length_le (by omega)]
      simp
    -- from now on there is an import, and no blank line is due
    have hgap : (if added (e.apply document) ds = [] then [] else gap (runLength document + 1)) = [] := by
      unfold gap
      split <;> rfl
    rw [hall, hadded, if_neg (List.cons_ne_nil _ _), h.lines, hlength, htake, hdrop, hgap]
    simp
  · rw [hall, hadded, h.run, hrun, List.append_assoc]
    rfl

end Settles

/-- Where the first edit finds room, so does every later one. -/
theorem settles_of_room {document : Text} {ds : List Declaration} (hnames : ∀ d ∈ ds, Nameable d)
    (hroom : additions document ds ≠ [] → runLength document < (Text.lines document).length)
    (hsmall : runLength document + ds.length < 2 ^ 32) : Settles document ds := by
  induction ds generalizing document with
  | nil => exact .nil document
  | cons d ds ih =>
    obtain ⟨hd, hds⟩ := List.forall_mem_cons.mp hnames
    rw [List.length_cons] at hsmall
    cases he : edit? document d with
    | none =>
      rw [additions_of_none he] at hroom
      exact (ih hds hroom (by omega)).cons_of_none he
    | some e =>
      rw [additions_of_some he] at hroom
      have hroom : runLength document < (Text.lines document).length := hroom (List.cons_ne_nil _ _)
      have hlength : runLength (e.apply document) = runLength document + 1 :=
        runLength_apply he hd hroom (by omega)
      have hgrown : runLength (e.apply document) < (Text.lines (e.apply document)).length := by
        rw [hlength, edit?_eq_some he, lines_apply hroom (by omega) hd.not_mem_statement]
        simp only [List.length_append, List.length_cons, List.length_take, List.length_drop]
        omega
      exact .cons_of_some hd he hroom (by omega) (ih hds (fun _ => hgrown) (by omega))

/-- **Adding imports one after another comes to an end**: each statement that was missing is there once, in
    order, behind the imports of the document, which is otherwise as it was. -/
theorem addAll_settles {document : Text} {ds : List Declaration} (hnames : ∀ d ∈ ds, Nameable d)
    (hsize : (Text.lines document).length + ds.length < 2 ^ 32 - 2)
    (hfirst : ∀ a ∈ (additions document ds).head?, a.edit.PointsInside document) : Settles document ds := by
  have hle := runLength_le document
  refine settles_of_room hnames (fun hne => ?_) (by omega)
  obtain ⟨a, rest, hadditions⟩ := List.exists_cons_of_ne_nil hne
  have hhead : (additions document ds).head? = some a := by rw [hadditions]; rfl
  have hinside : a.edit.position.line.toNat < (Text.lines document).length := hfirst a hhead
  rw [(head_additions hhead).2, toNat_lineNumber (by omega)] at hinside
  exact hinside

/-- A constant of the namespace `CG`. -/
def constant (signature : String) : Declaration :=
  (Draft.start "CG".toList .constValue signature.toList [] true).finish []

/-- Two declarations, one of them twice, for a document without imports. -/
theorem addAll_settles_twice :
    (∀ d ∈ [constant "a: number", constant "b", constant "a: number"], Nameable d) ∧
    Settles "\nlet x = a;".toList [constant "a: number", constant "b", constant "a: number"] := by
  have hnames : ∀ d ∈ [constant "a: number", constant "b", constant "a: number"], Nameable d := by decide
  exact ⟨hnames, addAll_settles hnames (by decide) (by decide)⟩

end Import
end Ambient
