import Ambient.Scanner.Basic
import Ambient.Proofs.Text.Blank
import Ambient.Proofs.Text.Cut

/-!
# The steps of the scanner

Every line that reaches a namespace is handed to `Scanner.member`, and there only three things can happen:

* `member_opens`: it opens a declaration; one that was open closes first;
* `member_joins`: it is added to the open declaration, which stays open or closes with it (`Took`);
* `member_between`: no declaration is open, and it concerns the comment only.

Which text of a line reaches the namespace is `effective?`; `feed_of_effective`, `feed_of_early` and
`feed_of_idle` say what `feed` does with the others. `Sound` is the invariant that rules out the fourth case
in the definition, a complete declaration that is still open. `fed_feed` puts it all together: it is everything
that one line can do to a sound scanner.
-/

namespace Ambient

/-! ## 1. Drafts -/

namespace Draft

@[simp] theorem push_source (draft : Draft) (line : Text) :
    (draft.push line).source = draft.source ++ sourceLine line := by
  unfold push
  dsimp only
  split <;> rfl

@[simp] theorem push_path (draft : Draft) (line : Text) : (draft.push line).path = draft.path := by
  unfold push
  dsimp only
  split <;> rfl

@[simp] theorem push_kind (draft : Draft) (line : Text) : (draft.push line).kind = draft.kind := by
  unfold push
  dsimp only
  split <;> rfl

@[simp] theorem push_endMarker (draft : Draft) (line : Text) :
    (draft.push line).endMarker = draft.endMarker := by
  unfold push
  dsimp only
  split <;> rfl

/-- A draft that is complete, or no function, only grows. -/
theorem push_of_settled {draft : Draft} (h : draft.kind ≠ .function ∨ draft.complete = true) (line : Text) :
    draft.push line = { draft with source := draft.source ++ sourceLine line } := by
  unfold push
  have hcond : (draft.kind = .function && !draft.complete && completes line (draft.source ++ sourceLine line)) =
      false := by
    rcases h with h | h
    · simp [h]
    · simp [h]
  simp [hcond]

/-- Neither does any other draft with a line that does not complete it, -/
theorem push_of_not_completes {draft : Draft} {line : Text}
    (h : completes line (draft.source ++ sourceLine line) = false) :
    draft.push line = draft.withSource (draft.source ++ sourceLine line) := by
  unfold push
  simp [h, withSource]

/-- such as one without a semicolon. -/
theorem push_of_notMem {line : Text} (h : ';' ∉ line) (draft : Draft) :
    draft.push line = draft.withSource (draft.source ++ sourceLine line) := by
  refine push_of_not_completes ?_
  unfold completes
  rw [List.contains_eq_mem, decide_eq_false h, Bool.false_and]

/-- The line that completes the signature of a function. -/
theorem push_of_completes {draft : Draft} {line : Text} (hkind : draft.kind = .function)
    (hopen : draft.complete = false) (h : completes line (draft.source ++ sourceLine line) = true) :
    draft.push line =
      { draft with source := draft.source ++ sourceLine line,
                   signature := joinedSignature (draft.source ++ sourceLine line), complete := true } := by
  unfold push
  simp [hkind, hopen, h]

end Draft

/-! ## 2. Openings -/

namespace Opening

/-- Does the line open a declaration? The namespace has no say in that. -/
def opens (line : Text) : Bool := (first? [] line).isSome

theorem open?_isSome (o : Opening) (path line : Text) :
    (o.open? path line).isSome = (o.open? [] line).isSome := by
  unfold open?
  cases Text.cut? o.keyword line with
  | none => rfl
  | some cut =>
    simp only
    split <;> rfl

theorem first?_isSome (path line : Text) : (first? path line).isSome = opens line := by
  unfold opens first?
  rw [List.isSome_findSome?, List.isSome_findSome?]
  congr 1
  funext o
  exact open?_isSome o path line

theorem first?_eq_none {line : Text} (h : opens line = false) (path : Text) : first? path line = none := by
  rw [← Option.not_isSome_iff_eq_none, first?_isSome, h]
  exact Bool.false_ne_true

theorem exists_first? {line : Text} (h : opens line = true) (path : Text) :
    ∃ draft, first? path line = some draft := by
  rw [← Option.isSome_iff_exists, first?_isSome]
  exact h

/-- The draft that an opening makes of a line. -/
theorem open?_eq_some {o : Opening} {path line : Text} {draft : Draft} (h : o.open? path line = some draft) :
    ∃ before behind, Text.cut? o.keyword line = some (before, behind) ∧
      Text.trim (o.rule.split behind).1 ≠ [] ∧
      draft = .start path o.kind (Text.trim (o.rule.split behind).1) (before ++ o.closer)
        (o.rule.split behind).2 := by
  unfold open? at h
  cases hc : Text.cut? o.keyword line with
  | none => simp [hc] at h
  | some cut =>
    simp only [hc] at h
    split at h
    · cases h
    · rename_i hsig
      refine ⟨cut.1, cut.2, rfl, fun he => hsig ?_, (Option.some.inj h).symm⟩
      rw [he]
      rfl

/-- A draft opens in its namespace and without lines. -/
theorem first?_start {path line : Text} {draft : Draft} (h : first? path line = some draft) :
    draft.path = path ∧ draft.source = [] := by
  obtain ⟨o, _, ho⟩ := List.exists_of_findSome?_eq_some h
  obtain ⟨_, _, _, _, rfl⟩ := open?_eq_some ho
  exact ⟨rfl, rfl⟩

/-- Every keyword has the letter, so neither a blank line nor a lone brace opens a declaration. -/
theorem mem_of_opens {line : Text} (h : opens line = true) : 'e' ∈ line := by
  obtain ⟨draft, hdraft⟩ := exists_first? h []
  obtain ⟨o, ho, hopen⟩ := List.exists_of_findSome?_eq_some hdraft
  obtain ⟨before, behind, hcut, _⟩ := open?_eq_some hopen
  have hkey : ∀ o ∈ table, 'e' ∈ o.keyword := by decide
  rw [Text.eq_of_cut? hcut]
  exact List.mem_append_left _ (List.mem_append_right _ (hkey o ho))

theorem opens_of_allBlank {line : Text} (h : Text.allBlank line = true) : opens line = false := by
  rw [← Bool.not_eq_true]
  intro ho
  have hb : isBlank 'e' = true := Text.allBlank_iff.mp h 'e' (mem_of_opens ho)
  exact absurd hb (by decide)

theorem opens_of_brace {line : Text} (h : Text.trim line = ['}']) : opens line = false := by
  rw [← Bool.not_eq_true]
  intro ho
  have hmem : 'e' ∈ Text.trim line := Text.mem_trim (mem_of_opens ho) (by decide)
  rw [h] at hmem
  exact absurd hmem (by decide)

end Opening

namespace Scanner

/-! ## 3. Lines of a namespace -/

/-- **The invariant**: an open declaration stands in a namespace and is not complete. -/
structure Sound (s : Scanner) : Prop where
  inPath : s.draft?.isSome = true → s.path?.isSome = true
  incomplete : ∀ draft, s.draft? = some draft → draft.complete = false

theorem sound_fresh : Sound fresh where
  inPath h := absurd h Bool.false_ne_true
  incomplete _ h := nomatch h

/-- A comment line as it stands in a comment. -/
def remarkLine (line : Text) : Text := '\n' :: "    ".toList ++ line

/-- **A line has been added to a draft**, which then stays open, or closes and takes the comment with it. -/
inductive Took (closed : List Declaration) (comment : Text) (draft : Draft) (line : Text) :
    Scanner → Prop where
  | stays (path? : Option Text) (h : (draft.push line).complete = false) :
      Took closed comment draft line ⟨path?, some (draft.push line), comment, closed⟩
  | closes (path? : Option Text) :
      Took closed comment draft line ⟨path?, none, [], closed ++ [(draft.push line).finish comment]⟩

theorem collect_took (s : Scanner) (draft : Draft) (line : Text) :
    Took s.closed s.comment draft line (s.collect draft line) := by
  unfold collect
  cases h : (draft.push line).complete with
  | true => exact .closes s.path?
  | false => exact .stays s.path? h

theorem collect_path? (s : Scanner) (draft : Draft) (line : Text) :
    (s.collect draft line).path? = s.path? := by
  unfold collect
  cases (draft.push line).complete <;> rfl

theorem close_path? (s : Scanner) : s.close.path? = s.path? := by
  unfold close
  split <;> rfl

theorem close_of_none {s : Scanner} (h : s.draft? = none) : s.close = s := by
  unfold close
  rw [h]

theorem close_of_some {s : Scanner} {draft : Draft} (h : s.draft? = some draft) :
    s.close = ⟨s.path?, none, [], s.closed ++ [draft.finish s.comment]⟩ := by
  unfold close
  rw [h]

section Member

variable {s : Scanner} {path line : Text} {draft : Draft}

/-- **A line that opens a declaration**: the open one closes, then the new one takes the line. -/
theorem member_opens (hp : s.path? = some path) (h : Opening.first? path line = some draft) :
    Took s.close.closed s.close.comment draft line (s.member line) := by
  unfold member
  rw [hp, Option.bind_some, h]
  exact collect_took s.close draft line

theorem member_of_not_opens (h : Opening.opens line = false) : s.member line = s.continueWith line := by
  unfold member
  cases s.path? with
  | none => rfl
  | some path => rw [Option.bind_some, Opening.first?_eq_none h]

/-- **A line that finds a declaration open** is added to it. -/
theorem member_joins (hs : Sound s) (hd : s.draft? = some draft) (h : Opening.opens line = false) :
    Took s.closed s.comment draft line (s.member line) := by
  rw [member_of_not_opens h]
  unfold continueWith
  simp only [hd]
  split
  · exact .closes s.path?
  · rw [hs.incomplete draft hd, Bool.false_and, if_neg Bool.false_ne_true]
    exact collect_took s draft line

/-- A line between two declarations concerns the comment only. -/
theorem member_between (hd : s.draft? = none) (h : Opening.opens line = false) :
    s.member line = if Text.trim line = ['}'] then { s with comment := [] } else s.remark line := by
  rw [member_of_not_opens h]
  unfold continueWith
  simp only [hd]

theorem remark_of_blank (h : Text.allBlank line = true) : s.remark line = s := if_pos h

theorem remark_of_not_blank (h : Text.allBlank line = false) :
    s.remark line = { s with comment := s.comment ++ remarkLine line } := by
  unfold remark
  rw [h, if_neg Bool.false_ne_true, List.append_assoc]
  rfl

theorem remark_path? (s : Scanner) (line : Text) : (s.remark line).path? = s.path? := by
  unfold remark
  split <;> rfl

theorem remark_draft? (s : Scanner) (line : Text) : (s.remark line).draft? = s.draft? := by
  unfold remark
  split <;> rfl

/-- A line of a namespace leaves the namespace as it is. -/
theorem member_path? (hs : Sound s) (hp : s.path? = some path) : (s.member line).path? = some path := by
  cases ho : Opening.opens line with
  | true =>
    obtain ⟨draft, hdraft⟩ := Opening.exists_first? ho path
    unfold member
    rw [hp, Option.bind_some, hdraft]
    exact (collect_path? _ _ _).trans ((close_path? s).trans hp)
  | false =>
    cases hd : s.draft? with
    | none =>
      rw [member_between hd ho]
      split
      · exact hp
      · exact (remark_path? s line).trans hp
    | some draft =>
      rw [member_of_not_opens ho]
      unfold continueWith
      simp only [hd]
      split
      · exact (close_path? _).trans hp
      · rw [hs.incomplete draft hd, Bool.false_and, if_neg Bool.false_ne_true]
        exact (collect_path? s draft line).trans hp

end Member

/-! ## 4. All lines -/

/-- The text of a line that reaches the namespace: behind a heading what stands there, else, once there has
    been a heading, the line. -/
def effective? (s : Scanner) (line : Text) : Option Text :=
  if isSkipped line then none
  else
    match Heading.read? line with
    | some heading => heading.rest?
    | none => if s.path?.isSome then some line else none

/-- The namespace after a line. -/
def pathAfter? (s : Scanner) (line : Text) : Option Text :=
  if isSkipped line then s.path?
  else
    match Heading.read? line with
    | some heading => some heading.path
    | none => s.path?

/-- Does the line stand before the first heading? -/
def isEarly (s : Scanner) (line : Text) : Bool :=
  !isSkipped line && (Heading.read? line).isNone && s.path?.isNone

section Feed

variable {s : Scanner} {line text : Text}

theorem isEarly_iff :
    s.isEarly line = true ↔ isSkipped line = false ∧ Heading.read? line = none ∧ s.path? = none := by
  unfold isEarly
  rw [Bool.and_eq_true, Bool.and_eq_true, Bool.not_eq_true', Option.isNone_iff_eq_none, Option.isNone_iff_eq_none,
    and_assoc]

theorem isEarly_of_isSome (hp : s.path?.isSome = true) (line : Text) : s.isEarly line = false := by
  unfold isEarly
  rw [Option.isNone_eq_false_iff.mpr hp, Bool.and_false]

theorem feed_of_effective (h : s.effective? line = some text) :
    s.feed line = { s with path? := s.pathAfter? line }.member text := by
  unfold effective? at h
  unfold feed pathAfter?
  split at h
  · cases h
  · rename_i hskip
    rw [if_neg hskip, if_neg hskip]
    cases hr : Heading.read? line with
    | some heading =>
      simp only [hr] at h
      simp only [h]
    | none =>
      simp only [hr] at h
      split at h
      · rename_i hp
        cases h
        simp only [hp, if_true]
      · cases h

theorem feed_of_early (h : s.isEarly line = true) : s.feed line = s.remark line := by
  obtain ⟨hskip, hr, hp⟩ := isEarly_iff.mp h
  unfold feed
  rw [hskip, hr, hp]
  rfl

/-- Every other line at most changes the namespace. -/
theorem feed_of_idle (h : s.effective? line = none) (he : s.isEarly line = false) :
    s.feed line = { s with path? := s.pathAfter? line } := by
  unfold effective? at h
  unfold isEarly at he
  unfold feed pathAfter?
  by_cases hskip : isSkipped line = true
  · rw [if_pos hskip, if_pos hskip]
  · rw [if_neg hskip] at h
    rw [if_neg hskip, if_neg hskip]
    cases hr : Heading.read? line with
    | some heading =>
      simp only [hr] at h
      simp only [h]
    | none =>
      simp only [hr] at h
      rw [hr] at he
      cases hp : s.path? with
      | some path => simp [hp] at h
      | none => simp [hskip, hp] at he

/-- Where a line has an effect there is a namespace. -/
theorem pathAfter?_isSome (h : s.effective? line = some text) : (s.pathAfter? line).isSome = true := by
  unfold effective? at h
  unfold pathAfter?
  split at h
  · cases h
  · rename_i hskip
    rw [if_neg hskip]
    cases hr : Heading.read? line with
    | some heading => rfl
    | none =>
      simp only [hr] at h
      split at h
      · assumption
      · cases h

/-- The namespace is never left without another. -/
theorem pathAfter?_isSome_of_isSome (h : s.path?.isSome = true) : (s.pathAfter? line).isSome = true := by
  unfold pathAfter?
  split
  · exact h
  · cases Heading.read? line with
    | some heading => rfl
    | none => exact h

end Feed

theorem feedAll_append (s : Scanner) (xs ys : List Text) : s.feedAll (xs ++ ys) = (s.feedAll xs).feedAll ys :=
  List.foldl_append

/-! ## 5. The invariant -/

theorem Took.sound {closed : List Declaration} {comment line path : Text} {draft : Draft} {s : Scanner}
    (h : Took closed comment draft line s) (hp : s.path? = some path) : Sound s := by
  cases h with
  | stays _ hc =>
    refine ⟨fun _ => by rw [hp]; rfl, fun d hd => ?_⟩
    cases hd
    exact hc
  | closes => exact ⟨fun h => absurd h Bool.false_ne_true, fun _ h => nomatch h⟩

theorem sound_of_draft?_eq_none {s : Scanner} (h : s.draft? = none) : Sound s where
  inPath hd := by rw [h] at hd; exact absurd hd Bool.false_ne_true
  incomplete _ hd := by rw [h] at hd; cases hd

theorem Sound.setPath {s : Scanner} (hs : Sound s) {path? : Option Text}
    (h : s.path?.isSome = true → path?.isSome = true) : Sound { s with path? := path? } where
  inPath hd := h (hs.inPath hd)
  incomplete := hs.incomplete

theorem Sound.member {s : Scanner} (hs : Sound s) {line path : Text} (hp : s.path? = some path) :
    Sound (s.member line) := by
  have hp' : (s.member line).path? = some path := member_path? hs hp
  cases ho : Opening.opens line with
  | true =>
    obtain ⟨draft, hdraft⟩ := Opening.exists_first? ho path
    exact (member_opens hp hdraft).sound hp'
  | false =>
    cases hd : s.draft? with
    | some draft => exact (member_joins hs hd ho).sound hp'
    | none =>
      refine sound_of_draft?_eq_none ?_
      rw [member_between hd ho]
      split
      · exact hd
      · rw [remark_draft?, hd]

/-- **Every line keeps the invariant.** -/
theorem Sound.feed {s : Scanner} (hs : Sound s) (line : Text) : Sound (s.feed line) := by
  have hset : Sound { s with path? := s.pathAfter? line } := hs.setPath pathAfter?_isSome_of_isSome
  cases he : s.effective? line with
  | some text =>
    obtain ⟨path, hp⟩ := Option.isSome_iff_exists.mp (pathAfter?_isSome he)
    rw [feed_of_effective he]
    exact hset.member hp
  | none =>
    cases hearly : s.isEarly line with
    | true =>
      rw [feed_of_early hearly]
      unfold remark
      split
      · exact hs
      · exact ⟨hs.inPath, hs.incomplete⟩
    | false =>
      rw [feed_of_idle he hearly]
      exact hset

theorem Sound.feedAll {s : Scanner} (hs : Sound s) (lines : List Text) : Sound (s.feedAll lines) := by
  induction lines generalizing s with
  | nil => exact hs
  | cons line lines ih => exact ih (hs.feed line)

/-! ## 6. One line -/

/-- **What a line can do**: it opens a draft, or joins the open one, or concerns only the comment, or nothing but
    the namespace. -/
inductive Fed (s : Scanner) (line : Text) (s' : Scanner) : Prop where
  | opens {text path : Text} {start : Draft} (ht : s.effective? line = some text) (ho : Opening.opens text = true)
      (hp : s.pathAfter? line = some path) (hstart : Opening.first? path text = some start)
      (h : Took s.close.closed s.close.comment start text s')
  | joins {text : Text} {draft : Draft} (ht : s.effective? line = some text) (ho : Opening.opens text = false)
      (hd : s.draft? = some draft) (h : Took s.closed s.comment draft text s')
  | between (comment : Text) (ht : ∀ text ∈ s.effective? line, Opening.opens text = false) (hd : s.draft? = none)
      (h : s' = ⟨s.pathAfter? line, none, comment, s.closed⟩)
  | passes (ht : s.effective? line = none) (h : s' = { s with path? := s.pathAfter? line })

section Fed

variable {s : Scanner} {line text path : Text}

theorem close_setPath (s : Scanner) (path? : Option Text) :
    close { s with path? := path? } = { s.close with path? := path? } := by
  unfold close
  dsimp only
  split <;> rfl

theorem exists_remark (hd : s.draft? = none) (line : Text) :
    ∃ comment, s.remark line = ⟨s.path?, none, comment, s.closed⟩ := by
  unfold remark
  split
  · exact ⟨s.comment, by rw [← hd]⟩
  · exact ⟨_, by rw [← hd]⟩

/-- **Every line does one of these.** -/
theorem fed_feed (hs : Sound s) (line : Text) : Fed s line (s.feed line) ∧ (s.feed line).path? = s.pathAfter? line := by
  cases he : s.effective? line with
  | some text =>
    obtain ⟨path, hp⟩ := Option.isSome_iff_exists.mp (pathAfter?_isSome he)
    have hset : Sound { s with path? := s.pathAfter? line } := hs.setPath pathAfter?_isSome_of_isSome
    rw [feed_of_effective he]
    refine ⟨?_, (member_path? hset hp).trans hp.symm⟩
    cases ho : Opening.opens text with
    | true =>
      obtain ⟨start, hstart⟩ := Opening.exists_first? ho path
      have htook := member_opens (s := { s with path? := s.pathAfter? line }) hp hstart
      rw [close_setPath] at htook
      exact .opens he ho hp hstart htook
    | false =>
      cases hd : s.draft? with
      | some draft =>
        rw [← hd]
        exact .joins he ho hd (member_joins hset hd ho)
      | none =>
        have hno : ∀ text ∈ s.effective? line, Opening.opens text = false := by
          rw [he]
          exact fun _ h => Option.some.inj h ▸ ho
        rw [← hd, member_between (s := { s with path? := s.pathAfter? line }) hd ho]
        split
        · exact .between [] hno hd (by rw [← hd])
        · obtain ⟨comment, hremark⟩ := exists_remark (s := { s with path? := s.pathAfter? line }) hd text
          exact .between comment hno hd hremark
  | none =>
    cases hearly : s.isEarly line with
    | false =>
      rw [feed_of_idle he hearly]
      exact ⟨.passes he rfl, rfl⟩
    | true =>
      obtain ⟨hskip, hread, hpath⟩ := isEarly_iff.mp hearly
      have hafter : s.pathAfter? line = s.path? := by
        unfold pathAfter?
        rw [hskip, hread]
        rfl
      -- before the first heading nothing is open
      have hd : s.draft? = none := by
        rw [← Option.not_isSome_iff_eq_none]
        intro hopen
        have hsome := hs.inPath hopen
        rw [hpath] at hsome
        exact Bool.false_ne_true hsome
      rw [feed_of_early hearly]
      obtain ⟨comment, hremark⟩ := exists_remark hd line
      refine ⟨.between comment (by rw [he]; exact fun _ h => nomatch h) hd (by rw [hremark, hafter]), ?_⟩
      rw [remark_path?, hafter]

/-- A namespace is never left without another. -/
theorem feed_path?_isSome (hs : Sound s) (hp : s.path?.isSome = true) (line : Text) :
    (s.feed line).path?.isSome = true := by
  rw [(fed_feed hs line).2]
  exact pathAfter?_isSome_of_isSome hp

end Fed

end Scanner
end Ambient
