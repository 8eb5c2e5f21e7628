import Ambient.Proofs.Scanner.Opening
import Ambient.Proofs.Scanner.Trace

/-!
# The names that headings give

A name has no space and no blank at either end (`Heading.isPath`). Written in a heading of its own it is read
again, with nothing behind the brace, unless it holds a brace itself:

* `read?_line_of_notMem`: a name without a brace is read again;
* `read?_line_of_braces`: a name of braces only makes no heading;
* `exists_read?_line`: any other makes one, and what stands behind its brace opens no declaration.

A brace in a name stands at its end, if nothing stood behind the brace of its heading (`last_of_brace`), and
such a name is never read again (`nameOf_ne`).
-/

namespace Ambient

/-! ## 1. Names of namespaces -/

namespace Heading

/-- What a heading gives as a name. -/
structure IsPath (path : Text) : Prop where
  ne_nil : path ≠ []
  space : ' ' ∉ path
  feed : '\n' ∉ path
  head : ∀ c, path.head? = some c → isBlank c = false
  last : ∀ c, path.getLast? = some c → isBlank c = false

/-- The name that a word gives. -/
def nameOf (word : Text) : Text := Text.trim (Text.dropEndWhile (· == '{') word)

theorem infix_nameOf (word : Text) : nameOf word <:+: word :=
  (Text.infix_trim _).trans (Text.prefix_dropEndWhile _ word).isInfix

/-- The text behind the first brace. -/
def behindBrace (t : Text) : Text := (t.dropWhile (· != '{')).drop 1

theorem exists_cut {line : Text} {heading : Heading} (h : read? line = some heading) :
    ∃ before behind, Text.cut? "namespace ".toList line = some (before, behind) ∧
      heading.path = nameOf (behind.takeWhile (· != ' ')) ∧ heading.path ≠ [] ∧
      heading.rest? = if Text.allBlank (behindBrace behind) then none else some (behindBrace behind) := by
  unfold read? at h
  split at h
  · cases h
  · rename_i before behind hcut
    split at h
    · cases h
    · dsimp only at h
      split at h
      · cases h
      · rename_i hne
        cases h
        exact ⟨before, behind, hcut, rfl, fun he => hne (List.isEmpty_iff.mpr he), rfl⟩

theorem isPath {line : Text} {heading : Heading} (h : read? line = some heading) (hline : '\n' ∉ line) :
    IsPath heading.path := by
  obtain ⟨before, behind, hcut, hpath, hne, -⟩ := exists_cut h
  have hword : heading.path <:+: behind.takeWhile (· != ' ') := by
    rw [hpath]
    exact infix_nameOf _
  refine ⟨hne, fun hspace => ?_, fun hfeed => hline ?_, fun c hc => ?_, fun c hc => ?_⟩
  · exact absurd (List.mem_takeWhile_imp (hword.subset hspace)) (by decide)
  · rw [Text.eq_of_cut? hcut]
    exact List.mem_append_right _ ((List.takeWhile_sublist _).subset (hword.subset hfeed))
  · rw [hpath] at hc
    exact Text.not_isBlank_of_head?_trim hc
  · rw [hpath] at hc
    exact Text.not_isBlank_of_getLast?_trim hc

/-! ## 2. The heading of a block -/

/-- The first line of a block. -/
def line (path : Text) : Text := "namespace ".toList ++ (path ++ " \x7b".toList)

theorem isSkipped_line (path : Text) : Scanner.isSkipped (line path) = false := by
  have htrim : Text.trim (line path) =
      'n' :: Text.dropEndWhile isBlank ("amespace ".toList ++ (path ++ " \x7b".toList)) :=
    Text.trim_of_head (by decide)
  exact Scanner.isSkipped_of_head htrim (by decide) (by decide)

theorem read?_line {path : Text} (hspace : ' ' ∉ path) :
    read? (line path) =
      if (nameOf path).isEmpty then none
      else some ⟨nameOf path,
        if Text.allBlank (behindBrace (path ++ " \x7b".toList)) then none
        else some (behindBrace (path ++ " \x7b".toList))⟩ := by
  have hcut : Text.cut? "namespace ".toList (line path) = some ([], path ++ " \x7b".toList) :=
    Text.cut?_self (by decide) _
  have htake : (path ++ " \x7b".toList).takeWhile (· != ' ') = path := by
    refine Text.takeWhile_append_cons _ (fun c hc => ?_) (by decide) ['{']
    rw [bne_iff_ne]
    rintro rfl
    exact hspace hc
  have hmodifiers : (Text.words []).all modifiers.contains = true := by decide
  unfold read?
  rw [hcut]
  simp only [hmodifiers, Bool.not_true, Bool.false_eq_true, if_false, htake]
  rfl

theorem path_of_read?_line {path : Text} {heading : Heading} (hspace : ' ' ∉ path)
    (h : read? (line path) = some heading) : heading.path = nameOf path := by
  rw [read?_line hspace] at h
  split at h
  · cases h
  · cases h
    rfl

/-- **A name without a brace is read again.** -/
theorem read?_line_of_notMem {path : Text} (hpath : IsPath path) (hbrace : '{' ∉ path) :
    read? (line path) = some ⟨path, none⟩ := by
  have hno : ∀ c ∈ path, (c == '{') = false := by
    intro c hc
    rw [beq_eq_false_iff_ne]
    rintro rfl
    exact hbrace hc
  have hname : nameOf path = path := by
    unfold nameOf
    rw [Text.dropEndWhile_of_none hno, Text.trim_eq_self hpath.head hpath.last]
  have hpass : ∀ c ∈ path ++ [' '], (c != '{') = true := by
    intro c hc
    rcases List.mem_append.mp hc with hc | hc
    · exact bne_iff_ne.mpr (beq_eq_false_iff_ne.mp (hno c hc))
    · rw [List.mem_singleton.mp hc]
      decide
  have hbehind : behindBrace (path ++ " \x7b".toList) = [] := by
    have hsplit : path ++ " \x7b".toList = (path ++ [' ']) ++ ['{'] := by
      rw [List.append_assoc]
      rfl
    unfold behindBrace
    rw [hsplit, List.dropWhile_append_of_pos hpass]
    rfl
  rw [read?_line hpath.space, hname, hbehind, if_neg (by simpa using hpath.ne_nil)]
  rfl

/-- **A name of braces only makes no heading.** -/
theorem read?_line_of_braces {path : Text} (hpath : ∀ c ∈ path, c = '{') : read? (line path) = none := by
  have hname : nameOf path = [] := by
    unfold nameOf
    rw [Text.dropEndWhile_of_all fun c hc => beq_iff_eq.mpr (hpath c hc)]
    rfl
  have hspace : ' ' ∉ path := fun h => absurd (hpath _ h) (by decide)
  rw [read?_line hspace, hname]
  rfl

/-- Every keyword holds two spaces, so a text with one opens nothing. -/
theorem opens_of_count {text : Text} (h : text.count ' ' ≤ 1) : Opening.opens text = false := by
  have hspaces : ∀ o ∈ Opening.table, 2 ≤ o.keyword.count ' ' := by decide
  rw [← Bool.not_eq_true]
  intro hopens
  obtain ⟨draft, hdraft⟩ := Opening.exists_first? hopens []
  obtain ⟨o, ho, hopen⟩ := List.exists_of_findSome?_eq_some hdraft
  obtain ⟨before, behind, hcut, -⟩ := Opening.open?_eq_some hopen
  have htwo := hspaces o ho
  rw [Text.eq_of_cut? hcut, List.count_append, List.count_append] at h
  omega

/-- **Any other name makes a heading**, and what stands behind its first brace opens nothing. -/
theorem exists_read?_line {path : Text} (hpath : IsPath path) (hother : ∃ c ∈ path, c ≠ '{') :
    ∃ heading, read? (line path) = some heading ∧
      ∀ rest, heading.rest? = some rest → Opening.opens rest = false := by
  obtain ⟨c, hc, hne⟩ := hother
  have hname : nameOf path ≠ [] := by
    -- the first character is no blank, and stays because a later one does
    obtain ⟨d, rest, rfl⟩ := List.exists_cons_of_ne_nil hpath.ne_nil
    have hkept : Text.dropEndWhile (· == '{') (d :: rest) ≠ [] :=
      List.ne_nil_of_mem (Text.mem_dropEndWhile hc (beq_eq_false_iff_ne.mpr hne))
    obtain ⟨tail, htail, -⟩ := Text.exists_dropEndWhile_append (· == '{') (d :: rest)
    obtain ⟨e, kept, hcons⟩ := List.exists_cons_of_ne_nil hkept
    rw [hcons, List.cons_append] at htail
    have hd : d ∈ Text.trim (e :: kept) := by
      rw [(List.cons.inj htail).1]
      exact Text.mem_trim List.mem_cons_self (hpath.head d rfl)
    unfold nameOf
    rw [hcons]
    exact List.ne_nil_of_mem hd
  rw [read?_line hpath.space, if_neg (by simpa using hname)]
  refine ⟨_, rfl, fun rest hrest => opens_of_count ?_⟩
  dsimp only at hrest
  split at hrest
  · cases hrest
  · cases hrest
    have hsublist : (behindBrace (path ++ " \x7b".toList)).Sublist (path ++ " \x7b".toList) :=
      (List.drop_sublist _ _).trans (List.dropWhile_sublist _)
    have hcount := hsublist.count_le ' '
    rw [List.count_append, List.count_eq_zero.mpr hpath.space] at hcount
    exact hcount

/-- No heading is passed over. -/
theorem isSkipped_of_read? {line : Text} {heading : Heading} (h : read? line = some heading) :
    Scanner.isSkipped line = false := by
  have hstarts : ∀ start ∈ Scanner.skippedStarts, start.head?.any ("edn".toList.contains ·) = false ∧ start ≠ [] := by
    decide
  rw [← Bool.not_eq_true]
  intro hskip
  obtain ⟨start, hstart, hprefix⟩ := List.any_eq_true.mp hskip
  obtain ⟨hno, hne⟩ := hstarts start hstart
  obtain ⟨c, tail, rfl⟩ := List.exists_cons_of_ne_nil hne
  obtain ⟨rest, htrim⟩ := List.isPrefixOf_iff_prefix.mp hprefix
  rw [List.head?_cons, Option.any_some] at hno
  have hc : c ∉ "edn".toList := by
    intro hmem
    rw [List.contains_iff_mem.mpr hmem] at hno
    cases hno
  have hnone : read? line = none := read?_of_head htrim.symm hc
  rw [hnone] at h
  cases h

/-! ### Names with a brace -/

theorem mem_behindBrace {c : Char} {v : Text} (hc : c ∈ v) (w : Text) : c ∈ behindBrace (w ++ '{' :: v) := by
  unfold behindBrace
  induction w with
  | nil => exact hc
  | cons d w ih =>
    by_cases hd : d = '{'
    · subst hd
      exact List.mem_append_right w (List.mem_cons_of_mem _ hc)
    · rw [List.cons_append, List.dropWhile_cons, if_pos (bne_iff_ne.mpr hd)]
      exact ih

/-- **Where nothing stands behind the brace of a heading**, its name has a brace at the end only. -/
theorem last_of_brace {line : Text} {heading : Heading} (h : read? line = some heading)
    (hrest : heading.rest? = none) (hbrace : '{' ∈ heading.path) : heading.path.getLast? = some '{' := by
  obtain ⟨before, behind, hcut, hpath, hne, hrest'⟩ := exists_cut h
  have hinfix : heading.path <:+: behind := by
    rw [hpath]
    exact (infix_nameOf _).trans (List.takeWhile_prefix _).isInfix
  have hblank : Text.allBlank (behindBrace behind) = true := by
    by_contra hb
    rw [hrest, if_neg hb] at hrest'
    cases hrest'
  obtain ⟨x, y, hbehind⟩ := hinfix
  obtain ⟨a, b, hsplit⟩ := List.append_of_mem hbrace
  rcases List.eq_nil_or_concat b with rfl | ⟨b, c, rfl⟩
  · rw [hsplit]
    exact List.getLast?_concat
  · -- the last character stands behind the brace, so it would be a blank
    rw [List.concat_eq_append] at hsplit
    have hlast : heading.path.getLast? = some c := by
      rw [hsplit, ← List.cons_append, ← List.append_assoc]
      exact List.getLast?_concat
    have hmem : c ∈ behindBrace behind := by
      have hshape : behind = (x ++ a) ++ '{' :: ((b ++ [c]) ++ y) := by
        rw [← hbehind, hsplit]
        simp
      rw [hshape]
      exact mem_behindBrace (List.mem_append_left y (List.mem_append_right b List.mem_cons_self)) (x ++ a)
    have hc := Text.allBlank_iff.mp hblank c hmem
    rw [hpath] at hlast
    rw [Text.not_isBlank_of_getLast?_trim hlast] at hc
    cases hc

/-- A name that ends with a brace is never read again. -/
theorem nameOf_ne {path : Text} (h : path.getLast? = some '{') : nameOf path ≠ path := by
  intro he
  have hprefix := Text.prefix_dropEndWhile (· == '{') path
  have hlength := (Text.infix_trim (Text.dropEndWhile (· == '{') path)).length_le
  unfold nameOf at he
  rw [he] at hlength
  have hkept := hprefix.eq_of_length (Nat.le_antisymm hprefix.length_le hlength)
  have hlast := Text.getLast?_dropEndWhile (hkept ▸ h)
  exact absurd hlast (by decide)

end Heading

namespace Scanner

/-! ## 3. Lines that reach a declaration -/

/-- What stands behind the brace of a heading is neither passed over nor a heading itself. -/
def IsClean (line : Text) : Prop :=
  ∀ rest ∈ (Heading.read? line).bind Heading.rest?, isSkipped rest = false ∧ Heading.read? rest = none

instance (line : Text) : Decidable (IsClean line) := inferInstanceAs (Decidable (∀ _ ∈ _, _))

section Lines

variable {s : Scanner} {line text : Text}

theorem feed_notMem_rest {heading : Heading} (hread : Heading.read? line = some heading)
    (hrest : heading.rest? = some text) (hline : '\n' ∉ line) : '\n' ∉ text := by
  obtain ⟨before, behind, hcut, -, -, hrest'⟩ := Heading.exists_cut hread
  rw [hrest] at hrest'
  split at hrest'
  · cases hrest'
  · cases hrest'
    intro hfeed
    have hbehind : '\n' ∈ behind := ((List.drop_sublist _ _).trans (List.dropWhile_sublist _)).subset hfeed
    rw [Text.eq_of_cut? hcut] at hline
    exact hline (List.mem_append_right _ hbehind)

theorem ordinary_of_effective (hline : '\n' ∉ line) (hclean : IsClean line) (he : s.effective? line = some text) :
    Ordinary text := by
  unfold effective? at he
  split at he
  · cases he
  · rename_i hskip
    cases hread : Heading.read? line with
    | some heading =>
      simp only [hread] at he
      have hmem : text ∈ (Heading.read? line).bind Heading.rest? := by
        rw [hread, Option.bind_some, he]
        rfl
      obtain ⟨hskip', hread'⟩ := hclean text hmem
      exact ⟨hskip', hread', feed_notMem_rest hread he hline⟩
    | none =>
      simp only [hread] at he
      split at he
      · cases he
        exact ⟨Bool.eq_false_iff.mpr hskip, hread, hline⟩
      · cases he

theorem ordinary_of_early (hline : '\n' ∉ line) (he : s.isEarly line = true) : Ordinary line := by
  obtain ⟨hskip, hread, -⟩ := isEarly_iff.mp he
  exact ⟨hskip, hread, hline⟩

end Lines

end Scanner
end Ambient
