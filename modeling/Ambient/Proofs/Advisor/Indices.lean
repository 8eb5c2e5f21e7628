import Ambient.Advisor.Basic
import Ambient.Proofs.Declaration.Annotations
import Ambient.Proofs.Declaration.Bounds
import Ambient.Proofs.Document.Words
import Ambient.Proofs.Scanner.Offsets

/-!
# Characters by number

An editor's positions number the characters of a line. Here a character that is asked for may be missing, and a
stretch of them may end before it starts or behind the last.

* `wordAt?_eq`, `nameIn?_eq`: no character that an answer asks for is missing, whatever the position or range;
* `completionsAt_eq`, `fix?_eq`: the answers, with all slices of the declarations they offer;
* `markup_eq`: the loop that puts spans around annotations ends with the markup;
* `never_fails`: bounds, offsets and numbers are good everywhere.
-/

namespace Ambient.Sliced

open Text Document

/-! ## 1. Characters -/

/-- The character with this number. -/
def charAt (t : Text) (i : Nat) : Except Failure Char :=
  match t[i]? with
  | some c => .ok c
  | none => .error .index

/-- The characters from one number up to another. -/
def chars (t : Text) (start stop : Nat) : Except Failure Text :=
  if stop < start then .error .reversed
  else if t.length < stop then .error .index
  else .ok ((t.take stop).drop start)

variable {a t before word after : Text} {i start stop : Nat}

theorem charAt_append (h : a.length = i) (c : Char) (b : Text) : charAt (a ++ c :: b) i = .ok c := by
  have hat : (a ++ c :: b)[i]? = some c := by
    rw [← h, List.getElem?_append_right (Nat.le_refl _), Nat.sub_self]
    rfl
  rw [charAt, hat]

theorem chars_of_le (h : start ≤ stop) (hstop : stop ≤ t.length) :
    chars t start stop = .ok ((t.take stop).drop start) := by
  rw [chars, if_neg (Nat.not_lt.mpr h), if_neg (Nat.not_lt.mpr hstop)]

/-! ## 2. The word at a cursor -/

/-- Where the word before the cursor starts: back over name characters. -/
def wordStart (line : Text) : Nat → Except Failure Nat
  | 0 => .ok 0
  | start + 1 => do
    let c ← charAt line start
    if isNameChar c then wordStart line start else .ok (start + 1)

/-- Where the word behind the cursor stops: on over name characters. -/
def wordStop (line : Text) (stop : Nat) : Except Failure Nat :=
  if stop < line.length then do
    let c ← charAt line stop
    if isNameChar c then wordStop line (stop + 1) else .ok stop
  else .ok stop
termination_by line.length - stop

/-- Is there a dot before this place? -/
def followsDot (line : Text) (start : Nat) : Except Failure Bool :=
  if 0 < start then (charAt line (start - 1)).map (· == '.') else .ok false

/-- The word at the cursor, unless it is the name of a member. -/
def wordAt? (line : Text) (character : UInt32) : Except Failure (Option Text) := do
  let cursor := min character.toNat line.length
  let start ← wordStart line cursor
  let stop ← wordStop line cursor
  let isMember ← followsDot line start
  if isMember then .ok none else (chars line start stop).map some

/-- The characters of a whole word, one by one. -/
theorem charAt_word (before after : Text) {n : Nat} (hn : n < word.length) :
    charAt (before ++ (word ++ after)) (before.length + n) = .ok word[n] := by
  have hparts : before ++ (word ++ after) = (before ++ word.take n) ++ word[n] :: (word.drop (n + 1) ++ after) := by
    rw [List.append_assoc, ← List.cons_append, ← List.drop_eq_getElem_cons hn, ← List.append_assoc (word.take n),
      List.take_append_drop]
  rw [hparts]
  exact charAt_append (by rw [List.length_append, List.length_take_of_le (Nat.le_of_lt hn)]) _ _

/-- From anywhere in a whole word, the walk back ends at its start. -/
theorem wordStart_eq (h : IsWhole before word after) {n : Nat} (hn : n ≤ word.length) :
    wordStart (before ++ (word ++ after)) (before.length + n) = .ok before.length := by
  induction n with
  | zero =>
    obtain rfl | ⟨init, c, hbefore⟩ := List.eq_nil_or_concat before
    · rfl
    · rw [List.concat_eq_append] at hbefore
      subst hbefore
      have hchar : charAt (init ++ [c] ++ (word ++ after)) init.length = .ok c := by
        rw [List.append_assoc]
        exact charAt_append rfl c _
      have hc : isNameChar c = false := h.starts c List.getLast?_concat
      rw [Nat.add_zero, List.length_append, List.length_singleton, wordStart, hchar]
      simp only [bind, Except.bind, hc, Bool.false_eq_true, if_false]
  | succ n ih =>
    have hlt : n < word.length := by omega
    rw [← Nat.add_assoc, wordStart, charAt_word before after hlt]
    simp only [bind, Except.bind, h.names _ (List.getElem_mem hlt), if_true]
    exact ih (by omega)

/-- From anywhere in a whole word, the walk on ends at its end. -/
theorem wordStop_eq (h : IsWhole before word after) {left n : Nat} (hn : n + left = word.length) :
    wordStop (before ++ (word ++ after)) (before.length + n) = .ok (before.length + word.length) := by
  induction left generalizing n with
  | zero =>
    obtain rfl : n = word.length := hn
    rw [wordStop]
    cases after with
    | nil =>
      rw [if_neg (by simp)]
    | cons c after =>
      have hchar : charAt (before ++ (word ++ c :: after)) (before.length + word.length) = .ok c := by
        rw [← List.append_assoc]
        exact charAt_append (List.length_append ..) c after
      have hc : isNameChar c = false := h.ends c rfl
      rw [if_pos (by simp only [List.length_append, List.length_cons]; omega), hchar]
      simp only [bind, Except.bind, hc, Bool.false_eq_true, if_false]
  | succ left ih =>
    have hlt : n < word.length := by omega
    rw [wordStop, if_pos (by simp only [List.length_append]; omega), charAt_word before after hlt]
    have hnext : n + 1 + left = word.length := by omega
    simp only [bind, Except.bind, h.names _ (List.getElem_mem hlt), if_true]
    exact ih hnext

/-- The character before a whole word is looked at only where there is one. -/
theorem followsDot_eq (before rest : Text) :
    followsDot (before ++ rest) before.length = .ok (before.getLast? == some '.') := by
  obtain rfl | ⟨init, c, hbefore⟩ := List.eq_nil_or_concat before
  · rfl
  · rw [List.concat_eq_append] at hbefore
    subst hbefore
    have hchar : charAt (init ++ [c] ++ rest) init.length = .ok c := by
      rw [List.append_assoc]
      exact charAt_append rfl c rest
    rw [List.length_append, List.length_singleton, followsDot, if_pos (Nat.succ_pos _), Nat.add_sub_cancel, hchar,
      List.getLast?_concat]
    rfl

/-- **No character is missing at any cursor.** -/
theorem wordAt?_eq (line : Text) (character : UInt32) :
    wordAt? line character = .ok (Document.wordAt? line character) := by
  obtain ⟨before, word, after, h⟩ := exists_touches line character.toNat
  have hstarts := h.starts_le
  have hends := h.le_ends
  rw [wordAt?_touches h]
  obtain ⟨n, hn⟩ : ∃ n, min character.toNat line.length = before.length + n := Nat.exists_eq_add_of_le hstarts
  have hstart : wordStart line (before.length + n) = .ok before.length := by
    rw [h.parts]
    exact wordStart_eq h.toIsWhole (by omega)
  have hleft : n + (word.length - n) = word.length := by omega
  have hstop : wordStop line (before.length + n) = .ok (before.length + word.length) := by
    rw [h.parts]
    exact wordStop_eq h.toIsWhole hleft
  have hdot : followsDot line before.length = .ok (before.getLast? == some '.') := by
    rw [h.parts]
    exact followsDot_eq before (word ++ after)
  have hword : chars line before.length (before.length + word.length) = .ok word := by
    rw [h.parts, chars_of_le (by omega) (by simp only [List.length_append]; omega), ← List.append_assoc,
      List.take_left' (List.length_append ..), List.drop_left]
  unfold wordAt?
  simp only [hn, hstart, hstop, hdot, hword, bind, Except.bind, beq_iff_eq]
  split <;> rfl

/-- The completions of a word, with all slices of the declarations they offer. -/
def completions (a : Advisor) (word : Text) (document? : Option Text) : Except Failure (List Proposal) :=
  (a.catalogue.suggest word).mapM fun d => do
    let insertText ← insertText d
    .ok { Proposal.ofDeclaration a.settings.sortPrefix document? d with insertText }

/-- The completions of the word at a cursor. -/
def completionsAt (a : Advisor) (document : Text) (cursor : Position) : Except Failure (List Proposal) :=
  match line? document cursor.line with
  | none => .ok []
  | some line => do
    match ← wordAt? line cursor.character with
    | some word => completions a word (some document)
    | none => .ok []

theorem completions_eq (a : Advisor) (word : Text) (document? : Option Text) :
    completions a word document? = .ok (a.completions word document?) := by
  have hproposal : (fun d => insertText d >>= fun insertText =>
        Except.ok { Proposal.ofDeclaration a.settings.sortPrefix document? d with insertText }) =
      fun d => (pure (Proposal.ofDeclaration a.settings.sortPrefix document? d) : Except Failure Proposal) := by
    funext d
    rw [insertText_eq]
    rfl
  rw [completions, hproposal, List.mapM_pure]
  rfl

/-- **No index fails at any cursor.** -/
theorem completionsAt_eq (a : Advisor) (document : Text) (cursor : Position) :
    completionsAt a document cursor = .ok (a.completionsAt document cursor) := by
  unfold completionsAt Advisor.completionsAt
  cases line? document cursor.line with
  | none => rfl
  | some line =>
    simp only [wordAt?_eq, bind, Except.bind, Option.bind_some]
    cases Document.wordAt? line cursor.character with
    | none => rfl
    | some word => exact completions_eq a word (some document)

/-! ## 3. The name in a range -/

/-- The name that a range covers, if it may be repaired. -/
def nameIn? (document : Text) (range : Range) : Except Failure (Option Text) :=
  if !range.isSingleLine || range.isEmpty then .ok none
  else
    match line? document range.start.line with
    | none => .ok none
    | some line =>
      let start := range.start.character.toNat
      let stop := range.stop.character.toNat
      if line.length < stop then .ok none
      else
        let before := if start = 0 then none else (line)[start - 1]?
        if before.any continuesName || (line)[stop]?.any continuesName then .ok none
        else (chars line start stop).map some

/-- The fix for a range. -/
def fix? (a : Advisor) (document : Text) (range : Range) (diagnostics : List Diagnostic) :
    Except Failure (Option Fix) := do
  match ← nameIn? document range with
  | none => .ok none
  | some name => .ok do
    let diagnostic ← diagnostics.find? (a.answers range)
    let edit ← a.importEdit? document name
    return ⟨a.settings.fixTitle, edit, true, diagnostic⟩

/-- A range on a single line that is not empty does not run backwards. -/
theorem start_lt_stop {range : Range} (hline : range.isSingleLine = true) (hlength : range.isEmpty = false) :
    range.start.character.toNat < range.stop.character.toNat := by
  rw [Range.isEmpty, Range.length, if_pos hline, beq_eq_false_iff_ne] at hlength
  omega

/-- **No character is missing in any range.** -/
theorem nameIn?_eq (document : Text) (range : Range) :
    nameIn? document range = .ok (Advisor.nameIn? document range) := by
  unfold nameIn? Advisor.nameIn?
  split
  · rfl
  rename_i hguard
  rw [Bool.or_eq_true, not_or, Bool.not_eq_true', Bool.not_eq_false, Bool.not_eq_true] at hguard
  have hlt := start_lt_stop hguard.1 hguard.2
  cases line? document range.start.line with
  | none => rfl
  | some line =>
    simp only [Option.bind_some, nameBetween?]
    split
    · rfl
    rename_i hstop
    have hstart : range.start.character.toNat - 1 < line.length := by omega
    rw [List.getLast?_take, List.getElem?_eq_getElem hstart, Option.some_or, List.head?_drop,
      chars_of_le (Nat.le_of_lt hlt) (Nat.not_lt.mp hstop)]
    exact (apply_ite Except.ok ..).symm

theorem fix?_eq (a : Advisor) (document : Text) (range : Range) (diagnostics : List Diagnostic) :
    fix? a document range diagnostics = .ok (a.fix? document range diagnostics) := by
  unfold fix? Advisor.fix?
  rw [nameIn?_eq]
  cases Advisor.nameIn? document range <;> rfl

/-! ## 4. All of them -/

/-- The markup of a declaration, in the end by the loop that rewrites the text. -/
def markup (d : Declaration) : Except Failure Text :=
  (Markup.Scan.start (Markup.render (Markup.tagSignature d.kind d.qualifiedSignature))).run.map Prod.snd

theorem markup_eq (d : Declaration) : markup d = .ok d.markup := by
  obtain ⟨rounds, hrun⟩ := Markup.run_render (Markup.scannable _)
    (rfl : Markup.render (Markup.tagSignature d.kind d.qualifiedSignature) = _) []
  rw [List.nil_append, List.nil_append] at hrun
  rw [markup, Markup.Scan.start]
  exact congrArg (Except.map Prod.snd) hrun

/-- **Bounds, offsets and numbers are good everywhere**: no reading of a file, no text of a declaration and no answer
    of an advisor meets a failure, and each is the one that has no slices. -/
theorem never_fails :
    (∀ t, (bounds t).IsSound t) ∧
    (∀ parameter, IsBoundary parameter (colon parameter)) ∧
    (∀ source, joinedSignature source = .ok (Draft.joinedSignature source)) ∧
    (∀ o path line, open? o path line = .ok (Opening.open? o path line)) ∧
    (∀ line, heading? line = .ok (Heading.read? line)) ∧
    (∀ t, parse t = .ok (Ambient.parse t)) ∧
    (∀ d, insertText d = .ok d.insertText) ∧
    (∀ d, markup d = .ok d.markup) ∧
    (∀ a document range diagnostics, fix? a document range diagnostics = .ok (a.fix? document range diagnostics)) ∧
    ∀ a document cursor, completionsAt a document cursor = .ok (a.completionsAt document cursor) :=
  ⟨isSound_bounds, isBoundary_colon, joinedSignature_eq, open?_eq, heading?_eq, parse_eq, insertText_eq, markup_eq,
    fix?_eq, completionsAt_eq⟩

end Ambient.Sliced
