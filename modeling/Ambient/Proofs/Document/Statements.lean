import Ambient.Proofs.Document.Imports
import Ambient.Proofs.Text.Squeeze

/-!
# Which lines import a declaration

A line has to pass two tests before it counts as the import of a declaration: it is an import line, and it is the
declaration's statement. Both are told here as grammars, with every blank in its place.

* `IsImportLine` is the grammar of import lines, and `isImport_iff` says that it is the one that is tested;
* `States` is the grammar of statements of a declaration, and `isStatementOf_iff` does the same for it;
* `Wording.isImportLine`: a statement with blanks on both sides of its equals sign is an import line;
* `Wording.isSpaced_of_isImportLine`: where the names hold no blank, no other statement is;
* `recognises_iff`: when a document that states an import is taken to have it.
-/

namespace Ambient

namespace Text

/-- What is left behind some leading blanks. -/
theorem mem_blankRests_iff {rest t : Text} :
    rest ∈ blankRests t ↔ ∃ gap, (∀ c ∈ gap, isBlank c = true) ∧ t = gap ++ rest := by
  constructor
  · intro h
    induction t with
    | nil => exact ⟨[], fun _ hc => absurd hc List.not_mem_nil, (List.mem_singleton.mp h).symm⟩
    | cons c t ih =>
      rcases List.mem_cons.mp h with rfl | h
      · exact ⟨[], fun _ hc => absurd hc List.not_mem_nil, rfl⟩
      · split at h
        · rename_i hc
          obtain ⟨gap, hgap, rfl⟩ := ih h
          exact ⟨c :: gap, List.forall_mem_cons.mpr ⟨hc, hgap⟩, rfl⟩
        · exact absurd h List.not_mem_nil
  · rintro ⟨gap, hgap, rfl⟩
    induction gap with
    | nil => cases rest <;> exact List.mem_cons_self
    | cons c gap ih =>
      obtain ⟨hc, hgap⟩ := List.forall_mem_cons.mp hgap
      refine List.mem_cons_of_mem _ ?_
      rw [if_pos hc]
      exact ih hgap

end Text

namespace Import

/-! ## 1. Import lines -/

/-- The parts of an import line. -/
structure Clause where
  /-- The blank behind `import`. -/
  first : Char
  subject : Text
  /-- The blank before the word. -/
  second : Char
  word : Text
  /-- The blank behind the word. -/
  third : Char
  origin : Text

namespace Clause

/-- The line. -/
def line (p : Clause) : Text :=
  "import".toList ++ p.first :: (p.subject ++ p.second :: (p.word ++ p.third :: p.origin))

structure WellFormed (p : Clause) : Prop where
  first : isBlank p.first = true
  subject : p.subject ≠ []
  second : isBlank p.second = true
  word : p.word ∈ originWords
  third : isBlank p.third = true
  origin : p.origin ≠ []

end Clause

/-- **The grammar of import lines**: `import`, a blank, something, a blank, `from` or `=`, a blank, something. -/
def IsImportLine (line : Text) : Prop := ∃ p : Clause, p.WellFormed ∧ line = p.line

theorem startsOrigin_iff {t : Text} : startsOrigin t = true ↔ ∃ (second third : Char) (word origin : Text),
    isBlank second = true ∧ word ∈ originWords ∧ isBlank third = true ∧ origin ≠ [] ∧
      t = second :: (word ++ third :: origin) := by
  cases t with
  | nil => simp [startsOrigin]
  | cons c t =>
    unfold startsOrigin
    rw [Bool.and_eq_true, List.any_eq_true]
    constructor
    · rintro ⟨hc, word, hword, h⟩
      split at h
      · rename_i d e rest hrest
        exact ⟨c, d, word, e :: rest, hc, hword, h, List.cons_ne_nil _ _,
          congrArg (c :: ·) (Text.eq_of_isPrefixOf? hrest)⟩
      · exact absurd h Bool.false_ne_true
    · rintro ⟨second, third, word, origin, hsecond, hword, hthird, horigin, h⟩
      obtain ⟨rfl, rfl⟩ := List.cons.inj h
      obtain ⟨e, rest, rfl⟩ := List.exists_cons_of_ne_nil horigin
      exact ⟨hsecond, word, hword, by rw [Text.isPrefixOf?_append]; exact hthird⟩

theorem hasOrigin_iff {t : Text} : hasOrigin t = true ↔ ∃ a b, t = a ++ b ∧ startsOrigin b = true := by
  constructor
  · intro h
    induction t with
    | nil => exact absurd h Bool.false_ne_true
    | cons c t ih =>
      rw [hasOrigin, Bool.or_eq_true] at h
      rcases h with h | h
      · exact ⟨[], c :: t, rfl, h⟩
      · obtain ⟨a, b, rfl, hb⟩ := ih h
        exact ⟨c :: a, b, rfl, hb⟩
  · rintro ⟨a, b, rfl, hb⟩
    exact hasOrigin_append a hb

/-- **A line is tested for this grammar.** -/
theorem isImport_iff {line : Text} : isImport line = true ↔ IsImportLine line := by
  constructor
  · intro h
    unfold isImport at h
    split at h
    · rename_i c e rest hline
      rw [Bool.and_eq_true] at h
      obtain ⟨a, b, rfl, hb⟩ := hasOrigin_iff.mp h.2
      obtain ⟨second, third, word, origin, hsecond, hword, hthird, horigin, rfl⟩ := startsOrigin_iff.mp hb
      exact ⟨⟨c, e :: a, second, word, third, origin⟩,
        ⟨h.1, List.cons_ne_nil _ _, hsecond, hword, hthird, horigin⟩, Text.eq_of_isPrefixOf? hline⟩
    · exact absurd h Bool.false_ne_true
  · rintro ⟨⟨first, subject, second, word, third, origin⟩, hp, rfl⟩
    obtain ⟨e, subject, rfl⟩ := List.exists_cons_of_ne_nil hp.subject
    have hb : startsOrigin (second :: (word ++ third :: origin)) = true :=
      startsOrigin_iff.mpr ⟨second, third, word, origin, hp.second, hp.word, hp.third, hp.origin, rfl⟩
    unfold isImport Clause.line
    rw [Text.isPrefixOf?_append]
    exact Bool.and_eq_true_iff.mpr ⟨hp.first, hasOrigin_append subject hb⟩

instance (line : Text) : Decidable (IsImportLine line) := decidable_of_iff _ isImport_iff

/-- The word of an import line is one of its words. -/
theorem IsImportLine.exists_word {line : Text} (h : IsImportLine line) :
    ∃ word ∈ originWords, word ∈ Text.words line := by
  obtain ⟨⟨first, subject, second, word, third, origin⟩, hp, rfl⟩ := h
  have hno : ∀ w ∈ originWords, w ≠ [] ∧ w.isSolid = true := by decide
  have hcut : Clause.line ⟨first, subject, second, word, third, origin⟩ =
      ("import".toList ++ first :: subject) ++ second :: (word ++ third :: origin) :=
    (List.append_assoc _ (first :: subject) _).symm
  refine ⟨word, hp.word, ?_⟩
  rw [hcut, Text.words_append_blank hp.second, Text.words_append_blank hp.third,
    Text.words_of_no_blank (hno word hp.word).1 (Text.isSolid_iff.mp (hno word hp.word).2)]
  exact List.mem_append_right _ List.mem_cons_self

/-! ## 2. Statements -/

/-- The blanks of a statement, and whether it has its semicolon. -/
structure Wording where
  /-- Behind `import`. -/
  lead : Text
  /-- Before the equals sign. -/
  left : Text
  /-- Behind the equals sign. -/
  right : Text
  /-- Behind the qualified name. -/
  tail : Text
  semicolon : Bool
  deriving DecidableEq, Repr

namespace Wording

/-- The end of a statement. -/
def close (w : Wording) : Text := w.tail ++ if w.semicolon then [';'] else []

/-- The statement of a declaration. -/
def line (w : Wording) (d : Declaration) : Text :=
  "import".toList ++ (w.lead ++ (d.shortName ++ (w.left ++ ('=' :: (w.right ++ (d.qualifiedName ++ w.close))))))

structure WellFormed (w : Wording) : Prop where
  lead_ne_nil : w.lead ≠ []
  lead : ∀ c ∈ w.lead, isBlank c = true
  left : ∀ c ∈ w.left, isBlank c = true
  right : ∀ c ∈ w.right, isBlank c = true
  tail : ∀ c ∈ w.tail, isBlank c = true

instance (w : Wording) : Decidable w.WellFormed :=
  decidable_of_iff (w.lead ≠ [] ∧ Text.allBlank w.lead = true ∧ Text.allBlank w.left = true ∧
      Text.allBlank w.right = true ∧ Text.allBlank w.tail = true)
    ⟨fun ⟨hne, hlead, hleft, hright, htail⟩ => ⟨hne, Text.allBlank_iff.mp hlead, Text.allBlank_iff.mp hleft,
        Text.allBlank_iff.mp hright, Text.allBlank_iff.mp htail⟩,
      fun h => ⟨h.lead_ne_nil, Text.allBlank_iff.mpr h.lead, Text.allBlank_iff.mpr h.left,
        Text.allBlank_iff.mpr h.right, Text.allBlank_iff.mpr h.tail⟩⟩

/-- Are there blanks on both sides of the equals sign? -/
def IsSpaced (w : Wording) : Prop := w.left ≠ [] ∧ w.right ≠ []

instance (w : Wording) : Decidable w.IsSpaced := inferInstanceAs (Decidable (_ ∧ _))

end Wording

/-- **The grammar of statements**: `import`, blanks, the short name, `=`, the qualified name, and a semicolon or
    not, with any blanks between these and nothing else. -/
def States (d : Declaration) (line : Text) : Prop := ∃ w : Wording, w.WellFormed ∧ line = w.line d

theorem mem_afterPart_iff {part rest t : Text} :
    rest ∈ afterPart part t ↔ ∃ gap, (∀ c ∈ gap, isBlank c = true) ∧ t = gap ++ (part ++ rest) := by
  constructor
  · intro h
    obtain ⟨u, hu, hrest⟩ := List.mem_filterMap.mp h
    obtain ⟨gap, hgap, rfl⟩ := Text.mem_blankRests_iff.mp hu
    exact ⟨gap, hgap, by rw [Text.eq_of_isPrefixOf? hrest]⟩
  · rintro ⟨gap, hgap, rfl⟩
    exact List.mem_filterMap.mpr
      ⟨part ++ rest, Text.mem_blankRests_iff.mpr ⟨gap, hgap, rfl⟩, Text.isPrefixOf?_append part rest⟩

theorem isStatementEnd_iff {t : Text} : isStatementEnd t = true ↔
    ∃ (tail : Text) (semicolon : Bool), (∀ c ∈ tail, isBlank c = true) ∧
      t = tail ++ if semicolon then [';'] else [] := by
  unfold isStatementEnd
  rw [Bool.or_eq_true, Bool.and_eq_true, Text.allBlank_iff, Text.allBlank_iff, beq_iff_eq]
  constructor
  · rintro (h | ⟨hlast, h⟩)
    · exact ⟨t, false, h, (List.append_nil t).symm⟩
    · exact ⟨t.dropLast, true, h, (List.dropLast_append_getLast? _ hlast).symm⟩
  · rintro ⟨tail, semicolon, htail, rfl⟩
    cases semicolon with
    | false => exact .inl (by simpa using htail)
    | true => exact .inr ⟨by simp, by simpa using htail⟩

/-- **A line is tested for this grammar.** -/
theorem isStatementOf_iff {d : Declaration} {line : Text} : isStatementOf d line = true ↔ States d line := by
  constructor
  · intro h
    unfold isStatementOf at h
    split at h
    · rename_i c t hline
      rw [Bool.and_eq_true, List.any_eq_true] at h
      obtain ⟨hc, rest, hrest, hclose⟩ := h
      obtain ⟨u, hu, hqualified⟩ := List.mem_flatMap.mp hrest
      obtain ⟨v, hv, hequals⟩ := List.mem_flatMap.mp hu
      obtain ⟨lead, hlead, rfl⟩ := mem_afterPart_iff.mp hv
      obtain ⟨left, hleft, rfl⟩ := mem_afterPart_iff.mp hequals
      obtain ⟨right, hright, rfl⟩ := mem_afterPart_iff.mp hqualified
      obtain ⟨tail, semicolon, htail, rfl⟩ := isStatementEnd_iff.mp hclose
      refine ⟨⟨c :: lead, left, right, tail, semicolon⟩,
        ⟨List.cons_ne_nil _ _, List.forall_mem_cons.mpr ⟨hc, hlead⟩, hleft, hright, htail⟩, ?_⟩
      exact Text.eq_of_isPrefixOf? hline
    · exact absurd h Bool.false_ne_true
  · rintro ⟨⟨lead, left, right, tail, semicolon⟩, hw, rfl⟩
    obtain ⟨c, lead, rfl⟩ := List.exists_cons_of_ne_nil hw.lead_ne_nil
    obtain ⟨hc, hlead⟩ := List.forall_mem_cons.mp hw.lead
    unfold isStatementOf Wording.line
    rw [Text.isPrefixOf?_append]
    refine Bool.and_eq_true_iff.mpr ⟨hc, List.any_eq_true.mpr ⟨_, ?_, isStatementEnd_iff.mpr
      ⟨tail, semicolon, hw.tail, rfl⟩⟩⟩
    exact List.mem_flatMap.mpr ⟨_, List.mem_flatMap.mpr ⟨_, mem_afterPart_iff.mpr ⟨lead, hlead, rfl⟩,
      mem_afterPart_iff.mpr ⟨left, hw.left, rfl⟩⟩, mem_afterPart_iff.mpr ⟨right, hw.right, rfl⟩⟩

theorem imports_iff {d : Declaration} {line : Text} :
    imports d line = true ↔ States d line ∧ IsImportLine line := by
  unfold imports
  rw [Bool.and_eq_true, isImport_iff, isStatementOf_iff, and_comm]

/-! ## 3. Statements that are import lines -/

theorem dot_mem_qualifiedName (d : Declaration) : '.' ∈ d.qualifiedName := List.mem_append_right _ List.mem_cons_self

namespace Wording

variable {w : Wording} {d : Declaration}

/-- **With blanks on both sides of its equals sign a statement is an import line.** -/
theorem isImportLine (hw : w.WellFormed) (hspaced : w.IsSpaced) (hd : d.shortName ≠ []) :
    IsImportLine (w.line d) := by
  obtain ⟨lead, left, right, tail, semicolon⟩ := w
  obtain ⟨first, lead, rfl⟩ := List.exists_cons_of_ne_nil hw.lead_ne_nil
  obtain ⟨left, second, rfl⟩ := List.eq_nil_or_concat left |>.resolve_left hspaced.1
  obtain ⟨third, right, rfl⟩ := List.exists_cons_of_ne_nil hspaced.2
  rw [List.concat_eq_append] at hw ⊢
  have hword : ['='] ∈ originWords := by decide
  refine ⟨⟨first, lead ++ (d.shortName ++ left), second, ['='], third,
      right ++ (d.qualifiedName ++ (tail ++ if semicolon then [';'] else []))⟩,
    { first := hw.lead first List.mem_cons_self
      subject := List.append_ne_nil_of_right_ne_nil _ (List.append_ne_nil_of_left_ne_nil hd _)
      second := hw.left second (List.mem_append_right _ List.mem_cons_self)
      word := hword
      third := hw.right third List.mem_cons_self
      origin := List.ne_nil_of_mem (List.mem_append_right _ (List.mem_append_left _ (dot_mem_qualifiedName d))) }, ?_⟩
  refine congrArg ("import".toList ++ ·) ?_
  simp only [close, List.append_assoc, List.cons_append, List.nil_append]

end Wording

/-- **Names that stand as one word each**, and are no word of an import line themselves. -/
structure PlainNames (d : Declaration) : Prop where
  ne_nil : d.shortName ≠ []
  short : ∀ c ∈ d.shortName, isBlank c = false
  qualified : ∀ c ∈ d.qualifiedName, isBlank c = false
  word : d.shortName ∉ originWords

instance (d : Declaration) : Decidable (PlainNames d) :=
  decidable_of_iff (d.shortName ≠ [] ∧ d.shortName.isSolid = true ∧ d.qualifiedName.isSolid = true ∧
      d.shortName ∉ originWords)
    ⟨fun ⟨hne, hshort, hqualified, hword⟩ =>
        ⟨hne, Text.isSolid_iff.mp hshort, Text.isSolid_iff.mp hqualified, hword⟩,
      fun h => ⟨h.ne_nil, Text.isSolid_iff.mpr h.short, Text.isSolid_iff.mpr h.qualified, h.word⟩⟩

namespace Wording

variable {w : Wording} {d : Declaration}

/-- A word that is no word of an import line may be passed over. -/
theorem mem_words_behind {word t gap u : Text} (hword : word ∈ originWords) (hne : t ≠ [])
    (ht : ∀ c ∈ t, isBlank c = false) (hno : t ∉ originWords) (hgap : gap ≠ []) (hblank : ∀ c ∈ gap, isBlank c = true)
    (h : word ∈ Text.words (t ++ (gap ++ u))) : word ∈ Text.words u := by
  rw [Text.words_gap hgap hblank, Text.words_of_no_blank hne ht, List.singleton_append, List.mem_cons] at h
  exact h.resolve_left fun he => hno (he ▸ hword)

/-- The end of a statement, from the word with the qualified name in it, has no word of an import line. -/
theorem not_mem_words_close (hw : w.WellFormed) {word t : Text} (hword : word ∈ originWords)
    (ht : ∀ c ∈ t, isBlank c = false) (hdot : '.' ∈ t) : word ∉ Text.words (t ++ w.close) := by
  have hwords : ∀ word ∈ originWords, '.' ∉ word ∧ word ≠ [';'] := by decide
  have hne : t ≠ [] := List.ne_nil_of_mem hdot
  have hsemicolon : Text.words (if w.semicolon then [';'] else []) = if w.semicolon then [[';']] else [] := by
    cases w.semicolon <;> decide
  intro hmem
  by_cases htail : w.tail = []
  · have hone : Text.words (t ++ w.close) = [t ++ if w.semicolon then [';'] else []] := by
      unfold close
      rw [htail, List.nil_append]
      refine Text.words_of_no_blank (List.append_ne_nil_of_left_ne_nil hne _) fun c hc => ?_
      rcases List.mem_append.mp hc with hc | hc
      · exact ht c hc
      · split at hc
        · exact List.mem_singleton.mp hc ▸ by decide
        · exact absurd hc List.not_mem_nil
    rw [hone, List.mem_singleton] at hmem
    exact (hwords word hword).1 (hmem ▸ List.mem_append_left _ hdot)
  · have hno : t ∉ originWords := fun h => (hwords t h).1 hdot
    have hlast := mem_words_behind hword hne ht hno htail hw.tail hmem
    rw [hsemicolon] at hlast
    split at hlast
    · exact (hwords word hword).2 (List.mem_singleton.mp hlast)
    · exact absurd hlast List.not_mem_nil

/-- **Where the names are plain no other statement is an import line.** -/
theorem isSpaced_of_isImportLine (hw : w.WellFormed) (hd : PlainNames d) (h : IsImportLine (w.line d)) :
    w.IsSpaced := by
  have hdot := dot_mem_qualifiedName d
  have himport : "import".toList ≠ [] ∧ Text.isSolid "import".toList = true ∧ "import".toList ∉ originWords := by decide
  have hequals : isBlank '=' = false := by decide
  have hlast : ∀ word ∈ originWords, word.getLast? = some '=' → word.length = 1 := by decide
  -- the equals sign as the end of the first word, and as the start of the last
  have hleft : ∀ c ∈ d.shortName ++ ['='], isBlank c = false := by
    simpa [or_imp, forall_and, hequals] using hd.short
  have hright : ∀ c ∈ '=' :: d.qualifiedName, isBlank c = false := List.forall_mem_cons.mpr ⟨hequals, hd.qualified⟩
  obtain ⟨word, hword, hmem⟩ := h.exists_word
  have hbody := mem_words_behind hword himport.1 (Text.isSolid_iff.mp himport.2.1) himport.2.2 hw.lead_ne_nil
    hw.lead hmem
  by_contra hno
  by_cases hl : w.left = [] <;> by_cases hr : w.right = []
  · refine not_mem_words_close hw (t := d.shortName ++ '=' :: d.qualifiedName) hword ?_ (by simp [hdot]) ?_
    · simpa [or_imp, forall_and, hequals] using ⟨hd.short, hd.qualified⟩
    · simpa [hl, hr] using hbody
  · have hname : d.shortName ++ ['='] ∉ originWords := fun hmem => by
      have hone := hlast _ hmem List.getLast?_concat
      rw [List.length_append, List.length_singleton, Nat.add_eq_right, List.length_eq_zero_iff] at hone
      exact hd.ne_nil hone
    rw [hl, List.nil_append, List.append_cons] at hbody
    exact not_mem_words_close hw hword hd.qualified hdot
      (mem_words_behind hword (by simp) hleft hname hr hw.right hbody)
  · have hrest := mem_words_behind hword hd.ne_nil hd.short hd.word hl hw.left hbody
    rw [hr, List.nil_append] at hrest
    exact not_mem_words_close hw hword hright (List.mem_cons_of_mem _ hdot) hrest
  · exact hno ⟨hl, hr⟩

end Wording

/-! ## 4. Documents -/

/-- Is a document taken to import the declaration exactly if one of its lines states that? -/
def Recognises (document : Text) (d : Declaration) : Prop :=
  edit? document d = none ↔ ∃ line ∈ trimmedLines document, States d line

theorem edit?_eq_none_iff_states {document : Text} {d : Declaration} :
    edit? document d = none ↔ ∃ line ∈ trimmedLines document, States d line ∧ IsImportLine line := by
  rw [edit?_eq_none_iff]
  exact exists_congr fun line => and_congr_right' imports_iff

/-- **An import that is stated is recognised if and only if a line that states it is an import line**; where the
    names are plain, that is a line with blanks on both sides of its equals sign. -/
theorem recognises_iff (document : Text) (d : Declaration) :
    (Recognises document d ↔ ((∃ line ∈ trimmedLines document, States d line) →
      ∃ line ∈ trimmedLines document, States d line ∧ IsImportLine line)) ∧
    (PlainNames d → (Recognises document d ↔ ((∃ line ∈ trimmedLines document, States d line) →
      ∃ w : Wording, w.WellFormed ∧ w.IsSpaced ∧ w.line d ∈ trimmedLines document))) := by
  have hexact : Recognises document d ↔ ((∃ line ∈ trimmedLines document, States d line) →
      ∃ line ∈ trimmedLines document, States d line ∧ IsImportLine line) := by
    unfold Recognises
    rw [edit?_eq_none_iff_states]
    exact ⟨fun h => h.mpr, fun h => ⟨fun ⟨line, hline, hstates, _⟩ => ⟨line, hline, hstates⟩, h⟩⟩
  refine ⟨hexact, fun hd => hexact.trans (imp_congr_right fun _ => ?_)⟩
  constructor
  · rintro ⟨_, hline, ⟨w, hw, rfl⟩, himport⟩
    exact ⟨w, hw, Wording.isSpaced_of_isImportLine hw hd himport, hline⟩
  · rintro ⟨w, hw, hspaced, hline⟩
    exact ⟨_, hline, ⟨w, hw, rfl⟩, Wording.isImportLine hw hspaced hd.ne_nil⟩

/-- A statement with blanks of several kinds, behind code. -/
theorem recognises_spread : PlainNames (constant "C: number") ∧
    Recognises "let x = C;\n\timport  C\t= CG.C ;\r\n".toList (constant "C: number") := by
  have hplain : PlainNames (constant "C: number") := by decide
  let w : Wording := ⟨"  ".toList, "\t".toList, " ".toList, " ".toList, true⟩
  have hw : w.WellFormed := by decide
  exact ⟨hplain, ((recognises_iff _ _).2 hplain).mpr fun _ => ⟨w, hw, by decide, by decide⟩⟩

/-- **Without blanks about its equals sign a statement is not recognised.** -/
theorem not_recognises_close : Nameable (constant "C: number") ∧
    ¬Recognises "import C=CG.C;".toList (constant "C: number") := by
  refine ⟨by decide, fun h => ?_⟩
  let w : Wording := ⟨" ".toList, [], [], [], true⟩
  have hw : w.WellFormed := by decide
  have hedit : edit? "import C=CG.C;".toList (constant "C: number") = none :=
    h.mpr ⟨w.line (constant "C: number"), by decide, w, hw, rfl⟩
  exact absurd hedit (by decide)

/-- A name that is a word of an import line itself makes one of a statement that is not spaced. -/
example : edit? "import   from =CG.from;".toList (constant "from: number") = none := by decide

end Import
end Ambient
