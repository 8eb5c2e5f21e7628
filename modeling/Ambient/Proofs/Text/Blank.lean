import Ambient.Text.Blank
import Mathlib.Data.List.TakeWhile

/-!
# Trimmed texts

What `Text.trim` keeps, and which words a text has:

* `trimEnd_append_cons`: nothing before a character that is no blank is trimmed away at the end;
* `trim_of_ends`: a text with no blank at either end is trimmed already;
* `trim_append`, `trim_append_blank`: blanks in front and at the end do not count;
* `afterBlanks?_append`: a gap is passed over as a whole;
* `mem_trim`: no character but blanks is lost;
* `words_append_blank`: words come apart at a blank.
-/

namespace Ambient.Text

/-! ## 1. The end -/

section DropEnd

variable {α : Type} {p : α → Bool}

theorem dropEndWhile_cons_of_nil {c : α} {t : List α} (h : dropEndWhile p t = []) :
    dropEndWhile p (c :: t) = if p c then [] else [c] := by
  rw [dropEndWhile, h]

theorem dropEndWhile_cons_of_ne_nil {c : α} {t : List α} (h : dropEndWhile p t ≠ []) :
    dropEndWhile p (c :: t) = c :: dropEndWhile p t := by
  rw [dropEndWhile]
  cases hd : dropEndWhile p t with
  | nil => exact absurd hd h
  | cons d kept => rfl

/-- Nothing before a character that stays is dropped. -/
theorem dropEndWhile_append_cons {c : α} (h : p c = false) (a b : List α) :
    dropEndWhile p (a ++ c :: b) = a ++ c :: dropEndWhile p b := by
  induction a with
  | nil =>
    by_cases hb : dropEndWhile p b = []
    · rw [List.nil_append, List.nil_append, dropEndWhile_cons_of_nil hb, hb, h, if_neg Bool.false_ne_true]
    · exact dropEndWhile_cons_of_ne_nil hb
  | cons d a ih =>
    have hne : dropEndWhile p (a ++ c :: b) ≠ [] := by rw [ih]; simp
    rw [List.cons_append, dropEndWhile_cons_of_ne_nil hne, ih, List.cons_append]

theorem dropEndWhile_append_of_none {a : List α} (h : ∀ c ∈ a, p c = false) (b : List α) :
    dropEndWhile p (a ++ b) = a ++ dropEndWhile p b := by
  rcases List.eq_nil_or_concat a with rfl | ⟨init, d, rfl⟩
  · rfl
  · rw [List.concat_eq_append] at h ⊢
    have hd : p d = false := h d (List.mem_append_right _ List.mem_cons_self)
    rw [List.append_assoc, List.append_assoc]
    exact dropEndWhile_append_cons hd init b

theorem dropEndWhile_of_none {t : List α} (h : ∀ c ∈ t, p c = false) : dropEndWhile p t = t := by
  have hkept := dropEndWhile_append_of_none h []
  rwa [List.append_nil, dropEndWhile, List.append_nil] at hkept

theorem mem_dropEndWhile {t : List α} {c : α} (h : c ∈ t) (hc : p c = false) : c ∈ dropEndWhile p t := by
  obtain ⟨a, b, rfl⟩ := List.append_of_mem h
  rw [dropEndWhile_append_cons hc]
  exact List.mem_append_right _ List.mem_cons_self

/-- What is dropped at the end has the property. -/
theorem exists_dropEndWhile_append (p : α → Bool) (t : List α) :
    ∃ tail, dropEndWhile p t ++ tail = t ∧ ∀ c ∈ tail, p c = true := by
  induction t with
  | nil => exact ⟨[], rfl, fun _ h => absurd h List.not_mem_nil⟩
  | cons c t ih =>
    obtain ⟨tail, htail, hall⟩ := ih
    by_cases hnil : dropEndWhile p t = []
    · rw [hnil, List.nil_append] at htail
      subst htail
      rw [dropEndWhile_cons_of_nil hnil]
      by_cases hc : p c = true
      · rw [if_pos hc]
        exact ⟨c :: tail, rfl, List.forall_mem_cons.mpr ⟨hc, hall⟩⟩
      · rw [if_neg hc]
        exact ⟨tail, rfl, hall⟩
    · rw [dropEndWhile_cons_of_ne_nil hnil]
      exact ⟨tail, by rw [List.cons_append, htail], hall⟩

theorem prefix_dropEndWhile (p : α → Bool) (t : List α) : dropEndWhile p t <+: t := by
  obtain ⟨tail, htail, -⟩ := exists_dropEndWhile_append p t
  exact ⟨tail, htail⟩

theorem dropEndWhile_of_all {t : List α} (h : ∀ c ∈ t, p c = true) : dropEndWhile p t = [] := by
  induction t with
  | nil => rfl
  | cons c t ih =>
    obtain ⟨hc, ht⟩ := List.forall_mem_cons.mp h
    rw [dropEndWhile_cons_of_nil (ih ht), if_pos hc]

/-- An end that has the property is dropped. -/
theorem dropEndWhile_append_of_all (a : List α) {b : List α} (h : ∀ c ∈ b, p c = true) :
    dropEndWhile p (a ++ b) = dropEndWhile p a := by
  induction a with
  | nil => exact dropEndWhile_of_all h
  | cons c a ih =>
    rw [List.cons_append]
    by_cases ha : dropEndWhile p a = []
    · rw [dropEndWhile_cons_of_nil (ih.trans ha), dropEndWhile_cons_of_nil ha]
    · rw [dropEndWhile_cons_of_ne_nil (ih ▸ ha), dropEndWhile_cons_of_ne_nil ha, ih]

/-- What is kept ends with what lacks the property. -/
theorem getLast?_dropEndWhile {t : List α} {c : α} (h : (dropEndWhile p t).getLast? = some c) : p c = false := by
  induction t with
  | nil => cases h
  | cons d t ih =>
    by_cases hnil : dropEndWhile p t = []
    · rw [dropEndWhile_cons_of_nil hnil] at h
      by_cases hd : p d = true
      · rw [if_pos hd] at h
        cases h
      · rw [if_neg hd] at h
        cases h
        simpa using hd
    · rw [dropEndWhile_cons_of_ne_nil hnil] at h
      obtain ⟨e, kept, hkept⟩ := List.exists_cons_of_ne_nil hnil
      rw [hkept] at h ih
      exact ih h

theorem dropEndWhile_of_getLast? {t : List α} (h : ∀ c, t.getLast? = some c → p c = false) :
    dropEndWhile p t = t := by
  rcases List.eq_nil_or_concat t with rfl | ⟨a, d, rfl⟩
  · rfl
  · rw [List.concat_eq_append] at h ⊢
    rw [dropEndWhile_append_cons (h d List.getLast?_concat)]
    rfl

end DropEnd

/-! ## 2. Trimming -/

theorem trimStart_of_head {c : Char} {t : Text} (h : isBlank c = false) : trimStart (c :: t) = c :: t := by
  unfold trimStart
  rw [List.dropWhile_cons, h, if_neg Bool.false_ne_true]

/-- Blanks in front do not count. -/
theorem trim_append {a : Text} (h : ∀ c ∈ a, isBlank c = true) (t : Text) : trim (a ++ t) = trim t := by
  unfold trim trimStart
  rw [List.dropWhile_append_of_pos h]

/-- A text that starts with no blank loses blanks at its end only. -/
theorem trim_of_head {c : Char} {t : Text} (h : isBlank c = false) :
    trim (c :: t) = c :: dropEndWhile isBlank t := by
  unfold trim trimEnd
  rw [trimStart_of_head h]
  exact dropEndWhile_append_cons h [] t

/-- Up to a character that is no blank, a text that starts with none is kept. -/
theorem trim_append_cons {c d : Char} {a b : Text} (hc : isBlank c = false) (hd : isBlank d = false) :
    trim (c :: a ++ d :: b) = c :: a ++ d :: trimEnd b := by
  unfold trim
  rw [List.cons_append, trimStart_of_head hc, ← List.cons_append]
  exact dropEndWhile_append_cons hd (c :: a) b

/-- A text with no blank at either end is trimmed already. -/
theorem trim_of_ends {c d : Char} {t : Text} (hc : isBlank c = false) (hd : isBlank d = false) :
    trim (c :: t ++ [d]) = c :: t ++ [d] := by
  rw [trim_append_cons hc hd]
  rfl

theorem trim_of_no_blank {t : Text} (h : ∀ c ∈ t, isBlank c = false) : trim t = t := by
  cases t with
  | nil => rfl
  | cons c t =>
    rw [trim_of_head (h c List.mem_cons_self),
      dropEndWhile_of_none fun d hd => h d (List.mem_cons_of_mem _ hd)]

theorem trim_of_all_blank {t : Text} (h : ∀ c ∈ t, isBlank c = true) : trim t = [] := by
  have hno := trim_append h []
  rw [List.append_nil] at hno
  exact hno

/-- Blanks at the end do not count either. -/
theorem trim_append_blank (a : Text) {b : Text} (h : ∀ c ∈ b, isBlank c = true) : trim (a ++ b) = trim a := by
  unfold trim trimStart
  rw [List.dropWhile_append]
  split
  · rename_i hempty
    rw [List.isEmpty_iff.mp hempty, List.dropWhile_eq_nil_iff.mpr h]
  · exact dropEndWhile_append_of_all _ h

/-- Among blanks there is no other character. -/
theorem notMem_of_blank {t : Text} {c : Char} (h : ∀ d ∈ t, isBlank d = true) (hc : isBlank c = false) : c ∉ t :=
  fun hm => Bool.false_ne_true (hc.symm.trans (h c hm))

/-- A gap is passed over as a whole. -/
theorem afterBlanks?_append {gap t : Text} (hne : gap ≠ []) (hgap : ∀ c ∈ gap, isBlank c = true)
    (ht : ∀ c ∈ t.head?, isBlank c = false) : afterBlanks? (gap ++ t) = some t := by
  obtain ⟨c, gap, rfl⟩ := List.exists_cons_of_ne_nil hne
  obtain ⟨hc, hgap⟩ := List.forall_mem_cons.mp hgap
  have hstart : trimStart t = t := by
    cases t with
    | nil => rfl
    | cons d t => exact trimStart_of_head (ht d rfl)
  rw [List.cons_append, afterBlanks?, if_pos hc, trimStart, List.dropWhile_append_of_pos hgap]
  exact congrArg some hstart

/-- And what is passed over is a gap as a whole. -/
theorem afterBlanks?_iff {t rest : Text} : afterBlanks? t = some rest ↔ ∃ gap, t = gap ++ rest ∧ gap ≠ [] ∧
    (∀ c ∈ gap, isBlank c = true) ∧ ∀ c ∈ rest.head?, isBlank c = false := by
  constructor
  · intro h
    cases t with
    | nil => cases h
    | cons c t =>
      rw [afterBlanks?] at h
      split at h
      · rename_i hc
        obtain rfl := Option.some.inj h
        refine ⟨c :: t.takeWhile isBlank, ?_, List.cons_ne_nil _ _, ?_, fun d hd => ?_⟩
        · rw [trimStart, List.cons_append, List.takeWhile_append_dropWhile]
        · exact List.forall_mem_cons.mpr ⟨hc, fun d hd => List.mem_takeWhile_imp hd⟩
        · have hnot := List.head?_dropWhile_not isBlank t
          rw [show (t.dropWhile isBlank).head? = some d from hd] at hnot
          exact hnot
      · cases h
  · rintro ⟨gap, rfl, hne, hgap, hrest⟩
    exact afterBlanks?_append hne hgap hrest

/-- No character but blanks is lost. -/
theorem mem_trim {t : Text} {c : Char} (h : c ∈ t) (hc : isBlank c = false) : c ∈ trim t := by
  have hstart : c ∈ trimStart t := by
    unfold trimStart
    induction t with
    | nil => exact h
    | cons d t ih =>
      rw [List.dropWhile_cons]
      split
      · rename_i hd
        rcases List.mem_cons.mp h with rfl | h
        · rw [hc] at hd
          exact absurd hd Bool.false_ne_true
        · exact ih h
      · exact h
  exact mem_dropEndWhile hstart hc

theorem infix_trim (t : Text) : trim t <:+: t :=
  (prefix_dropEndWhile isBlank (trimStart t)).isInfix.trans (List.dropWhile_suffix isBlank).isInfix

/-- A trimmed text starts with no blank. -/
theorem not_isBlank_of_head?_trim {t : Text} {c : Char} (h : (trim t).head? = some c) : isBlank c = false := by
  unfold trim trimEnd trimStart at h
  cases hstart : t.dropWhile isBlank with
  | nil =>
    rw [hstart] at h
    cases h
  | cons d rest =>
    have hd := List.head?_dropWhile_not isBlank t
    rw [hstart] at hd h
    have hkept := dropEndWhile_append_cons (p := isBlank) hd [] rest
    rw [List.nil_append] at hkept
    rw [hkept] at h
    cases h
    exact hd

/-- And ends with none. -/
theorem not_isBlank_of_getLast?_trim {t : Text} {c : Char} (h : (trim t).getLast? = some c) :
    isBlank c = false := getLast?_dropEndWhile h

theorem trim_eq_self {t : Text} (hhead : ∀ c, t.head? = some c → isBlank c = false)
    (hlast : ∀ c, t.getLast? = some c → isBlank c = false) : trim t = t := by
  cases t with
  | nil => rfl
  | cons c t =>
    unfold trim trimEnd
    rw [trimStart_of_head (hhead c rfl), dropEndWhile_of_getLast? hlast]

theorem trim_trim (t : Text) : trim (trim t) = trim t :=
  trim_eq_self (fun _ h => not_isBlank_of_head?_trim h) fun _ h => not_isBlank_of_getLast?_trim h

theorem allBlank_iff {t : Text} : allBlank t = true ↔ ∀ c ∈ t, isBlank c = true := List.all_eq_true

/-- Has the text no blank in it? -/
def isSolid (t : Text) : Bool := t.all fun c => !isBlank c

theorem isSolid_iff {t : Text} : t.isSolid = true ↔ ∀ c ∈ t, isBlank c = false := by
  unfold isSolid
  simp only [List.all_eq_true, Bool.not_eq_true']

/-- A text is a run of characters with a property, and what does not start with one. -/
theorem exists_run (p : Char → Bool) (t : Text) : ∃ run behind, t = run ++ behind ∧ (∀ c ∈ run, p c = true) ∧
    (∀ c ∈ behind.head?, p c = false) ∧ behind.takeWhile p = [] := by
  refine ⟨t.takeWhile p, t.dropWhile p, List.takeWhile_append_dropWhile.symm,
    fun c hc => List.mem_takeWhile_imp hc, ?_⟩
  have hhead := List.head?_dropWhile_not p t
  cases hb : t.dropWhile p with
  | nil => exact ⟨fun _ h => (nomatch h), rfl⟩
  | cons c rest =>
    rw [hb] at hhead
    have hc : p c = false := hhead
    refine ⟨fun d hd => Option.some.inj hd ▸ hc, List.takeWhile_cons_of_neg ?_⟩
    rw [hc]
    exact Bool.false_ne_true

/-- Leading blanks come off, and what is left is empty or starts with no blank. -/
theorem exists_leading_blanks (t : Text) : ∃ a b, t = a ++ b ∧ (∀ c ∈ a, isBlank c = true) ∧
    (b = [] ∨ ∃ c rest, b = c :: rest ∧ isBlank c = false) := by
  obtain ⟨a, b, hsplit, ha, hb, -⟩ := exists_run isBlank t
  refine ⟨a, b, hsplit, ha, ?_⟩
  cases b with
  | nil => exact .inl rfl
  | cons c rest => exact .inr ⟨c, rest, rfl, hb c rfl⟩

/-- A lone brace is not blank. -/
theorem allBlank_of_brace {line : Text} (h : trim line = ['}']) : allBlank line = false := by
  rw [← Bool.not_eq_true]
  intro hb
  rw [trim_of_all_blank (allBlank_iff.mp hb)] at h
  cases h

/-! ## 3. Words -/

/-- **Words come apart at a blank.** -/
theorem words_append_blank {c : Char} (hc : isBlank c = true) (a b : Text) :
    words (a ++ c :: b) = words a ++ words b := by
  unfold words
  rw [List.splitOnP_append_cons a b hc, List.filter_append]

/-- Blanks in front belong to no word. -/
theorem words_append {a : Text} (h : ∀ c ∈ a, isBlank c = true) (t : Text) : words (a ++ t) = words t := by
  induction a with
  | nil => rfl
  | cons c a ih =>
    have hc := words_append_blank (h c List.mem_cons_self) [] (a ++ t)
    rw [List.nil_append] at hc
    rw [List.cons_append, hc, ih fun d hd => h d (List.mem_cons_of_mem _ hd)]
    rfl

/-- However wide, a gap parts words. -/
theorem words_gap {gap : Text} (hne : gap ≠ []) (h : ∀ c ∈ gap, isBlank c = true) (a b : Text) :
    words (a ++ (gap ++ b)) = words a ++ words b := by
  obtain ⟨c, gap, rfl⟩ := List.exists_cons_of_ne_nil hne
  obtain ⟨hc, hgap⟩ := List.forall_mem_cons.mp h
  rw [List.cons_append, words_append_blank hc, words_append hgap]

/-- A text that starts with no blank starts with its first word. -/
theorem words_cons {c : Char} (hc : isBlank c = false) (t : Text) :
    ∃ w ws, words (c :: t) = (c :: w) :: ws := by
  obtain ⟨piece, pieces, hsplit⟩ := List.exists_cons_of_ne_nil (List.splitOnP_ne_nil isBlank t)
  refine ⟨piece, pieces.filter fun w => !w.isEmpty, ?_⟩
  unfold words
  rw [List.splitOnP_cons_eq_if_modifyHead, hc, if_neg Bool.false_ne_true, hsplit]
  rfl

/-- Every character that is no blank stands in a word. -/
theorem exists_mem_words {c : Char} {t : Text} (h : c ∈ t) (hc : isBlank c = false) : ∃ w ∈ words t, c ∈ w := by
  suffices hpiece : ∃ w ∈ t.splitOnP isBlank, c ∈ w by
    obtain ⟨w, hw, hcw⟩ := hpiece
    refine ⟨w, List.mem_filter.mpr ⟨hw, ?_⟩, hcw⟩
    rw [Bool.not_eq_true', List.isEmpty_eq_false_iff]
    exact List.ne_nil_of_mem hcw
  induction t with
  | nil => exact absurd h List.not_mem_nil
  | cons d t ih =>
    rw [List.splitOnP_cons_eq_if_modifyHead]
    cases hd : isBlank d with
    | true =>
      have hcd : c ≠ d := by
        rintro rfl
        rw [hc] at hd
        exact Bool.false_ne_true hd
      obtain ⟨w, hw, hcw⟩ := ih ((List.mem_cons.mp h).resolve_left hcd)
      exact ⟨w, List.mem_cons_of_mem _ hw, hcw⟩
    | false =>
      obtain ⟨first, rest, hsplit⟩ := List.exists_cons_of_ne_nil (List.splitOnP_ne_nil isBlank t)
      rw [hsplit] at ih
      rw [hsplit, if_neg Bool.false_ne_true, List.modifyHead_cons]
      rcases List.mem_cons.mp h with rfl | h
      · exact ⟨c :: first, List.mem_cons_self, List.mem_cons_self⟩
      · obtain ⟨w, hw, hcw⟩ := ih h
        rcases List.mem_cons.mp hw with rfl | hw
        · exact ⟨d :: w, List.mem_cons_self, List.mem_cons_of_mem _ hcw⟩
        · exact ⟨w, List.mem_cons_of_mem _ hw, hcw⟩

end Ambient.Text
