import Ambient.ReExport
import Ambient.Proofs.Declaration.ShortName
import Ambient.Proofs.Text.Blank
import Ambient.Proofs.Text.Cut

/-!
# The heads of marks and groups

A namespace mark and a group begin alike: a head, which holds no brace, and then an opening brace.

* `IsMarkHead name front`: `namespace`, blanks, the name, blanks;
* `IsGroupHead front`: `export`, blanks;
* `markAt?_iff`, `groupAt?_iff`: a mark, and a group with its list, are found exactly where such a head stands;
* `opened?`: what stands behind the head of a group and its brace, whether the group is closed or not.
-/

namespace Ambient.ReExport

/-! ## 1. Marks -/

/-- The part of a mark before its brace. -/
def IsMarkHead (name front : Text) : Prop :=
  ∃ gap gap', front = "namespace".toList ++ (gap ++ (name ++ gap')) ∧
    (gap ≠ [] ∧ ∀ c ∈ gap, isBlank c = true) ∧
    (name ≠ [] ∧ ∀ c ∈ name, (isWordChar c || c == '.') = true) ∧ gap' ≠ [] ∧ ∀ c ∈ gap', isBlank c = true

section Marks

variable {t name front : Text}

theorem isBlank_of_isNamePart {c : Char} (h : (isWordChar c || c == '.') = true) : isBlank c = false := by
  rw [← Bool.not_eq_true]
  intro hb
  have hno : ∀ n ∈ blankCodes, CodePoint.inRanges n CodePoint.alphabetic = false ∧
      CodePoint.inRanges n CodePoint.marksAndJoiners = false ∧ n ≠ '.'.toNat := by decide +kernel
  obtain ⟨ha, hm, hdot⟩ := hno _ (mem_blankCodes hb)
  unfold isWordChar at h
  rw [ha, hm, Bool.false_or, Bool.false_or, beq_iff_eq] at h
  rw [h] at hdot
  exact hdot rfl

theorem isNamePart_of_isBlank {c : Char} (h : isBlank c = true) : (isWordChar c || c == '.') = false := by
  rw [← Bool.not_eq_true]
  intro hpart
  rw [isBlank_of_isNamePart hpart] at h
  cases h

/-- There is no brace in the head of a mark. -/
theorem IsMarkHead.notMem (h : IsMarkHead name front) : '{' ∉ front ∧ '}' ∉ front := by
  obtain ⟨gap, gap', rfl, ⟨-, hgap⟩, ⟨-, hname⟩, -, hgap'⟩ := h
  have hblank : isBlank '{' = false ∧ isBlank '}' = false := by decide
  have hpart : (isWordChar '{' || '{' == '.') = false ∧ (isWordChar '}' || '}' == '.') = false := by decide +kernel
  have hnever : ∀ c, c ∉ "namespace".toList → isBlank c = false → (isWordChar c || c == '.') = false →
      c ∉ "namespace".toList ++ (gap ++ (name ++ gap')) := by
    intro c hword hblank hpart
    have hno : c ∉ name := fun hm => Bool.false_ne_true (hpart.symm.trans (hname c hm))
    exact List.not_mem_append hword (List.not_mem_append (Text.notMem_of_blank hgap hblank)
      (List.not_mem_append hno (Text.notMem_of_blank hgap' hblank)))
  exact ⟨hnever _ (by decide) hblank.1 hpart.1, hnever _ (by decide) hblank.2 hpart.2⟩

/-- The head of a mark is more than one word: the name stands behind a blank. -/
theorem IsMarkHead.ne_append {word gap : Text} (h : IsMarkHead name front) (hword : ∀ c ∈ word, isBlank c = false)
    (hgap : ∀ c ∈ gap, isBlank c = true) : front ≠ word ++ gap := by
  obtain ⟨left, right, rfl, ⟨hleftne, hleft⟩, ⟨hne, hname⟩, -⟩ := h
  intro heq
  have hletters : ("namespace".toList.all fun c => !isBlank c) = true := by decide
  have hsolid : ∀ c ∈ word, (!isBlank c) = true := fun c hc => by rw [hword c hc]; rfl
  obtain ⟨c, left, rfl⟩ := List.exists_cons_of_ne_nil hleftne
  obtain ⟨d, name, rfl⟩ := List.exists_cons_of_ne_nil hne
  -- from the first blank on
  have hdrop := congrArg (List.dropWhile fun c => !isBlank c) heq
  have hc : (!isBlank c) = false := by rw [hleft c List.mem_cons_self]; rfl
  rw [List.dropWhile_append_of_pos (List.all_eq_true.mp hletters), List.dropWhile_append_of_pos hsolid,
    List.cons_append, List.dropWhile_cons, hc, if_neg Bool.false_ne_true] at hdrop
  have hd : d ∈ gap := by
    refine (List.dropWhile_suffix fun c => !isBlank c).subset ?_
    rw [← hdrop]
    simp
  have hblank := hgap d hd
  rw [isBlank_of_isNamePart (hname d List.mem_cons_self)] at hblank
  cases hblank

/-- **A mark is found where its head stands before a brace.** -/
theorem markAt?_iff : markAt? t = some name ↔ ∃ front behind, IsMarkHead name front ∧ t = front ++ '{' :: behind := by
  constructor
  · intro h
    unfold markAt? at h
    obtain ⟨a, hprefix, h⟩ := Option.bind_eq_some_iff.mp h
    obtain ⟨b, hfirst, h⟩ := Option.bind_eq_some_iff.mp h
    obtain ⟨_, hguard, h⟩ := Option.bind_eq_some_iff.mp h
    obtain ⟨c, hsecond, h⟩ := Option.bind_eq_some_iff.mp h
    obtain ⟨_, hbrace, h⟩ := Option.bind_eq_some_iff.mp h
    obtain rfl := Option.some.inj h
    obtain ⟨gap, rfl, hgapne, hgap, -⟩ := Text.afterBlanks?_iff.mp hfirst
    obtain ⟨gap', hname, hgapne', hgap', -⟩ := Text.afterBlanks?_iff.mp hsecond
    have hne : b.takeWhile (fun c => isWordChar c || c == '.') ≠ [] := by
      intro hnil
      rw [hnil] at hguard
      cases hguard
    obtain ⟨behind, rfl⟩ : ∃ behind, c = '{' :: behind := by
      cases hhead : c.head? == some '{' with
      | true => exact List.head?_eq_some_iff.mp (beq_iff_eq.mp hhead)
      | false =>
        rw [hhead] at hbrace
        cases hbrace
    refine ⟨_, behind, ⟨gap, gap', rfl, ⟨hgapne, hgap⟩, ⟨hne, ?_⟩, hgapne', hgap'⟩, ?_⟩
    · exact fun c hc => List.mem_takeWhile_imp (p := fun c => isWordChar c || c == '.') hc
    · rw [Text.eq_of_isPrefixOf? hprefix, List.append_assoc, List.append_assoc, List.append_assoc, ← hname,
        List.takeWhile_append_dropWhile]
  · rintro ⟨_, behind, ⟨gap, gap', rfl, ⟨hgapne, hgap⟩, ⟨hne, hname⟩, hgapne', hgap'⟩, rfl⟩
    have hfirst : Text.afterBlanks? (gap ++ (name ++ (gap' ++ '{' :: behind))) =
        some (name ++ (gap' ++ '{' :: behind)) := by
      obtain ⟨c, name, rfl⟩ := List.exists_cons_of_ne_nil hne
      refine Text.afterBlanks?_append hgapne hgap fun d hd => ?_
      obtain rfl := Option.some.inj hd
      exact isBlank_of_isNamePart (hname c List.mem_cons_self)
    have hsecond : Text.afterBlanks? (gap' ++ '{' :: behind) = some ('{' :: behind) :=
      Text.afterBlanks?_append hgapne' hgap' fun c hc => by cases hc; rfl
    obtain ⟨d, gap', rfl⟩ := List.exists_cons_of_ne_nil hgapne'
    have hd := isNamePart_of_isBlank (hgap' d List.mem_cons_self)
    have htake := Text.takeWhile_append_cons (fun c => isWordChar c || c == '.') hname hd (gap' ++ '{' :: behind)
    have hdrop : (name ++ (d :: gap' ++ '{' :: behind)).dropWhile (fun c => isWordChar c || c == '.') =
        d :: gap' ++ '{' :: behind := by
      rw [List.dropWhile_append_of_pos hname, List.cons_append, List.dropWhile_cons, hd, if_neg Bool.false_ne_true]
    rw [← List.cons_append] at htake
    unfold markAt?
    rw [List.append_assoc, List.append_assoc, List.append_assoc, Text.isPrefixOf?_append, Option.bind_eq_bind,
      Option.bind_some, hfirst, Option.bind_some]
    dsimp only
    rw [htake, hdrop, hsecond, List.isEmpty_eq_false_iff.mpr hne]
    rfl

end Marks

/-! ## 2. Groups -/

theorem export_word : "export".toList = 'e' :: "xport".toList := by decide

/-- The part of a group before its brace. -/
def IsGroupHead (front : Text) : Prop :=
  ∃ gap, front = "export".toList ++ gap ∧ gap ≠ [] ∧ ∀ c ∈ gap, isBlank c = true

/-- What stands behind the brace, if a group opens at the start of the text. It need not be closed. -/
def opened? (t : Text) : Option Text :=
  match (List.isPrefixOf? "export".toList t).bind Text.afterBlanks? with
  | some ('{' :: behind) => some behind
  | _ => none

section Groups

variable {t front list rest : Text}

/-- The head of a group has the letters of its word and blanks. -/
theorem IsGroupHead.notMem {c : Char} (h : IsGroupHead front) (hword : c ∉ "export".toList)
    (hc : isBlank c = false) : c ∉ front := by
  obtain ⟨gap, rfl, -, hgap⟩ := h
  exact List.not_mem_append hword (Text.notMem_of_blank hgap hc)

theorem opened?_iff : opened? t = some rest ↔ ∃ front, IsGroupHead front ∧ t = front ++ '{' :: rest := by
  constructor
  · intro h
    unfold opened? at h
    split at h
    · rename_i behind hopen
      obtain rfl := Option.some.inj h
      obtain ⟨u, hprefix, hblanks⟩ := Option.bind_eq_some_iff.mp hopen
      obtain ⟨gap, hgap, hne, hblank, -⟩ := Text.afterBlanks?_iff.mp hblanks
      exact ⟨_, ⟨gap, rfl, hne, hblank⟩, by rw [Text.eq_of_isPrefixOf? hprefix, hgap, List.append_assoc]⟩
    · cases h
  · rintro ⟨_, ⟨gap, rfl, hne, hgap⟩, rfl⟩
    have hblanks : Text.afterBlanks? (gap ++ '{' :: rest) = some ('{' :: rest) :=
      Text.afterBlanks?_append hne hgap fun c hc => by cases hc; rfl
    unfold opened?
    rw [List.append_assoc, Text.isPrefixOf?_append, Option.bind_some, hblanks]
    rfl

/-- **A group is found where its head stands before a brace**, and its list ends before the first closing brace
    behind its first character. -/
theorem groupAt?_iff : groupAt? t = some (list, rest) ↔
    ∃ front, IsGroupHead front ∧ t = front ++ '{' :: (list ++ '}' :: rest) ∧ list ≠ [] ∧ '}' ∉ list.tail := by
  constructor
  · intro h
    unfold groupAt? at h
    obtain ⟨behind, hprefix, h⟩ := Option.bind_eq_some_iff.mp h
    obtain ⟨u, hblanks, h⟩ := Option.bind_eq_some_iff.mp h
    obtain ⟨gap, hgap, hne, hblank, -⟩ := Text.afterBlanks?_iff.mp hblanks
    split at h
    · rename_i c u
      obtain ⟨⟨before, rest'⟩, hcut, h⟩ := Option.bind_eq_some_iff.mp h
      obtain ⟨rfl, rfl⟩ := Prod.mk.inj (Option.some.inj h)
      obtain ⟨hu, hno⟩ := Text.cut?_singleton_iff.mp hcut
      exact ⟨_, ⟨gap, rfl, hne, hblank⟩,
        by rw [Text.eq_of_isPrefixOf? hprefix, hgap, hu, List.append_assoc, List.cons_append],
        List.cons_ne_nil _ _, hno⟩
    · cases h
  · rintro ⟨_, ⟨gap, rfl, hne, hgap⟩, rfl, hlist, hno⟩
    obtain ⟨c, list, rfl⟩ := List.exists_cons_of_ne_nil hlist
    have hblanks : Text.afterBlanks? (gap ++ '{' :: (c :: list ++ '}' :: rest)) =
        some ('{' :: (c :: list ++ '}' :: rest)) :=
      Text.afterBlanks?_append hne hgap fun d hd => by cases hd; rfl
    have hcut : Text.cut? ['}'] (list ++ '}' :: rest) = some (list, rest) := Text.cut?_singleton_iff.mpr ⟨rfl, hno⟩
    unfold groupAt?
    rw [List.append_assoc, Text.isPrefixOf?_append, Option.bind_eq_bind, Option.bind_some, hblanks,
      Option.bind_eq_bind, Option.bind_some]
    show ((Text.cut? ['}'] (list ++ '}' :: rest)).bind fun pieces => some (c :: pieces.1, pieces.2)) = _
    rw [hcut]
    rfl

end Groups

end Ambient.ReExport
