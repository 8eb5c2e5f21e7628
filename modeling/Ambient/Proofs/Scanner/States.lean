import Ambient.Proofs.Scanner.Ledger
import Ambient.Proofs.Scanner.OpeningOrder
import Mathlib.Data.List.Induction

/-!
# The states that the scanner reaches

What can be said of the scanner between any two lines of any file, whatever it holds.

* `leaves_feed`: the draft that a line leaves open has either been opened by it or was open before;
* `OpenSince`: an open draft, with the line that opened it. The draft is what this line opened and all that has
  reached the namespace since, and the comment that waits for it is the one that waited when the line came;
* `exists_openSince`: every open draft has such a line;
* `feedAll_prefix`: a namespace is left for another only, and what is closed stays as it is;
* `reached`: all of this together. No complete draft is ever open, so the case of a complete draft that the line of
  a comment closes (`ClosesAtComment`) does not come up.
-/

namespace Ambient

namespace Scanner

/-! ## 1. The open draft -/

/-- **The draft that a line leaves open.** -/
inductive Leaves (s : Scanner) (line : Text) (s' : Scanner) (draft : Draft) : Prop where
  /-- The line has opened it, and closed any other. -/
  | opened {text path : Text} {start : Draft} (ht : s.opening? line = some text) (hp : s'.path? = some path)
      (hstart : Opening.first? path text = some start) (hdraft : draft = start.push text)
      (hc : s'.comment = s.close.comment)
  /-- It was open before, and has taken what the line hands to the namespace. -/
  | kept {old : Draft} (hd : s.draft? = some old) (hdraft : draft = (s.effective? line).toList.foldl Draft.push old)
      (hc : s'.comment = s.comment)

/-- **An open draft, with the line that opened it**; `text` is what this line handed to the namespace. -/
structure OpenSince (lines : List Text) (draft : Draft) (before : List Text) (line text : Text)
    (behind : List Text) : Prop where
  split : lines = before ++ line :: behind
  opening : (fresh.feedAll before).opening? line = some text
  /-- It stands in the namespace of its line, whichever the scanner is in now. -/
  path : (fresh.feedAll (before ++ [line])).path? = some draft.path
  /-- It has taken its line, and everything that has reached a namespace since. -/
  collected : ∃ start, Opening.first? draft.path text = some start ∧
    draft = (text :: effective (fresh.feedAll (before ++ [line])) behind).foldl Draft.push start
  /-- The comment is the one that waited when the line came; none, if the line closed another draft. -/
  comment : (fresh.feedAll lines).comment = (fresh.feedAll before).close.comment

section OpenDraft

variable {s : Scanner} {lines before behind : List Text} {draft : Draft} {line text : Text}

theorem Took.eq_of_draft? {closed : List Declaration} {comment : Text} {start : Draft} {s' : Scanner}
    (h : Took closed comment start text s') (hd : s'.draft? = some draft) :
    draft = start.push text ∧ s'.comment = comment := by
  cases h with
  | stays => exact ⟨(Option.some.inj hd).symm, rfl⟩
  | closes => cases hd

/-- **Every line opens the draft that it leaves open, or finds it open.** -/
theorem leaves_feed (hs : Sound s) (hd : (s.feed line).draft? = some draft) : Leaves s line (s.feed line) draft := by
  obtain ⟨hfed, hpath⟩ := fed_feed hs line
  cases hfed with
  | opens ht ho hp hstart h =>
    obtain ⟨hdraft, hc⟩ := h.eq_of_draft? hd
    exact .opened (by rw [opening?, ht, Option.filter_some, ho, if_pos rfl]) (hpath.trans hp) hstart hdraft hc
  | joins ht ho hold h =>
    obtain ⟨hdraft, hc⟩ := h.eq_of_draft? hd
    exact .kept hold (by rw [ht]; exact hdraft) hc
  | between comment ht hold h =>
    rw [h] at hd
    cases hd
  | passes ht h =>
    rw [h] at hd ⊢
    exact .kept hd (by rw [ht]; rfl) rfl

theorem source_foldl_push (texts : List Text) (draft : Draft) :
    (texts.foldl Draft.push draft).source = draft.source ++ texts.flatMap Draft.sourceLine := by
  induction texts generalizing draft with
  | nil => rw [List.foldl_nil, List.flatMap_nil, List.append_nil]
  | cons text texts ih => rw [List.foldl_cons, ih, Draft.push_source, List.append_assoc, List.flatMap_cons]

theorem path_foldl_push (texts : List Text) (draft : Draft) : (texts.foldl Draft.push draft).path = draft.path := by
  induction texts generalizing draft with
  | nil => rfl
  | cons text texts ih => rw [List.foldl_cons, ih, Draft.push_path]

theorem effective_concat (s : Scanner) (lines : List Text) (line : Text) :
    effective s (lines ++ [line]) = effective s lines ++ ((s.feedAll lines).effective? line).toList := by
  induction lines generalizing s with
  | nil => exact List.append_nil _
  | cons first lines ih =>
    show (s.effective? first).toList ++ effective (s.feed first) (lines ++ [line]) = _
    rw [ih, ← List.append_assoc]
    rfl

theorem feedAll_concat (s : Scanner) (lines : List Text) (line : Text) :
    s.feedAll (lines ++ [line]) = (s.feedAll lines).feed line := feedAll_append s lines [line]

namespace OpenSince

/-- The source of the draft is those texts, that of its own line first. -/
theorem source (h : OpenSince lines draft before line text behind) :
    draft.source =
      Draft.sourceLine text ++
        (effective (fresh.feedAll (before ++ [line])) behind).flatMap Draft.sourceLine := by
  obtain ⟨start, hstart, hdraft⟩ := h.collected
  rw [hdraft, source_foldl_push, (Opening.first?_start hstart).2, List.nil_append, List.flatMap_cons]

/-- The scanner between the opening line and the lines behind it. -/
theorem feedAll_behind (h : OpenSince lines draft before line text behind) :
    (fresh.feedAll (before ++ [line])).feedAll behind = fresh.feedAll lines := by
  rw [← feedAll_append, List.append_assoc, h.split]
  rfl

/-- One line more, which the draft takes or which reaches no namespace. -/
theorem concat (h : OpenSince lines draft before line text behind) {next : Text}
    (hc : ((fresh.feedAll lines).feed next).comment = (fresh.feedAll lines).comment) :
    OpenSince (lines ++ [next]) (((fresh.feedAll lines).effective? next).toList.foldl Draft.push draft) before line
      text (behind ++ [next]) := by
  obtain ⟨start, hstart, hdraft⟩ := h.collected
  constructor
  · rw [h.split, List.append_assoc]
    rfl
  · exact h.opening
  · rw [path_foldl_push]
    exact h.path
  · refine ⟨start, by rw [path_foldl_push]; exact hstart, ?_⟩
    rw [effective_concat, h.feedAll_behind, ← List.cons_append, List.foldl_append, ← hdraft]
  · rw [feedAll_concat]
    exact hc.trans h.comment

end OpenSince

/-- **Every open draft has been opened by a line.** -/
theorem exists_openSince (hd : (fresh.feedAll lines).draft? = some draft) :
    ∃ before line text behind, OpenSince lines draft before line text behind := by
  induction lines using List.reverseRecOn generalizing draft with
  | nil => cases hd
  | append_singleton lines line ih =>
    have hs : Sound (fresh.feedAll lines) := sound_fresh.feedAll lines
    have hfeed := feedAll_concat fresh lines line
    rw [hfeed] at hd
    cases leaves_feed hs hd with
    | @opened text path start ht hp hstart hdraft hc =>
      have hpath : draft.path = path := by rw [hdraft, Draft.push_path, (Opening.first?_start hstart).1]
      refine ⟨lines, line, text, [], rfl, ht, ?_, ⟨start, ?_, hdraft⟩, ?_⟩
      · rw [hfeed, hp, hpath]
      · rw [hpath, hstart]
      · rw [hfeed, hc]
    | kept hold hdraft hc =>
      obtain ⟨before, first, text, behind, h⟩ := ih hold
      exact ⟨before, first, text, behind ++ [line], hdraft ▸ h.concat hc⟩

end OpenDraft

/-! ## 2. What only grows -/

section Growth

variable {s : Scanner} {line : Text}

theorem Took.closed_prefix {closed : List Declaration} {comment text : Text} {start : Draft} {s' : Scanner}
    (h : Took closed comment start text s') : closed <+: s'.closed := by
  cases h with
  | stays => exact List.prefix_rfl
  | closes => exact List.prefix_append _ _

theorem closed_prefix_close (s : Scanner) : s.closed <+: s.close.closed := by
  unfold close
  split
  · exact List.prefix_rfl
  · exact List.prefix_append _ _

/-- **A line adds to the closed declarations at their end, if at all.** -/
theorem closed_prefix_feed (hs : Sound s) (line : Text) : s.closed <+: (s.feed line).closed := by
  cases (fed_feed hs line).1 with
  | opens ht ho hp hstart h => exact (closed_prefix_close s).trans h.closed_prefix
  | joins ht ho hd h => exact h.closed_prefix
  | between comment ht hd h => exact h ▸ List.prefix_rfl
  | passes ht h => exact h ▸ List.prefix_rfl

/-- **Neither a namespace nor a closed declaration is lost.** -/
theorem feedAll_prefix (hs : Sound s) (lines : List Text) :
    (s.path?.isSome = true → (s.feedAll lines).path?.isSome = true) ∧ s.closed <+: (s.feedAll lines).closed := by
  induction lines generalizing s with
  | nil => exact ⟨id, List.prefix_rfl⟩
  | cons line lines ih =>
    obtain ⟨hpath, hclosed⟩ := ih (hs.feed line)
    exact ⟨fun h => hpath (feed_path?_isSome hs h line), (closed_prefix_feed hs line).trans hclosed⟩

theorem phase_ne_idle_iff (hs : Sound s) : s.phase ≠ .idle ↔ s.path?.isSome = true := by
  unfold phase
  split
  · rename_i draft _ hd
    exact ⟨fun _ => hs.inPath (by rw [hd]; rfl), fun _ => Phase.noConfusion⟩
  · rename_i path hp
    rw [hp]
    exact ⟨fun _ => rfl, fun _ => Phase.noConfusion⟩
  · rename_i hp
    rw [hp]
    exact ⟨fun h => absurd rfl h, fun h => absurd h Bool.false_ne_true⟩

end Growth

/-! ## 3. Every state -/

/-- Does the line find a complete draft open, which it closes because it looks like the line of a comment? -/
def ClosesAtComment (s : Scanner) (line : Text) : Prop :=
  ∃ text draft, s.effective? line = some text ∧ Opening.opens text = false ∧ s.draft? = some draft ∧
    draft.endMarker ≠ text ∧ draft.complete = true ∧ isCommentLine text = true

/-- **What holds of the scanner behind any lines.** -/
structure Reached (lines : List Text) : Prop where
  /-- An open draft stands in a namespace, -/
  inPath : (fresh.feedAll lines).draft?.isSome = true → (fresh.feedAll lines).path?.isSome = true
  /-- is not complete, -/
  incomplete : ∀ draft, (fresh.feedAll lines).draft? = some draft → draft.complete = false
  /-- and has been opened by a line, with which its source begins. -/
  opened : ∀ draft, (fresh.feedAll lines).draft? = some draft → ∃ before line text behind,
    OpenSince lines draft before line text behind ∧ draft.source ≠ [] ∧ Draft.sourceLine text <+: draft.source
  /-- Once there is a namespace there always is one, -/
  keepsPath : ∀ before, before <+: lines → (fresh.feedAll before).path?.isSome = true →
    (fresh.feedAll lines).path?.isSome = true
  /-- and the scanner is idle no more. -/
  keepsPhase : ∀ before, before <+: lines → (fresh.feedAll before).phase ≠ .idle → (fresh.feedAll lines).phase ≠ .idle
  /-- Closed declarations stay as they are, and more come behind them. -/
  keepsClosed : ∀ before, before <+: lines → (fresh.feedAll before).closed <+: (fresh.feedAll lines).closed
  /-- So no draft is closed by the line of a comment. -/
  neverClosesAtComment : ∀ line, ¬(fresh.feedAll lines).ClosesAtComment line

/-- **The scanner is never in any other state.** -/
theorem reached (lines : List Text) : Reached lines := by
  have hs : Sound (fresh.feedAll lines) := sound_fresh.feedAll lines
  have hgrown : ∀ before, before <+: lines →
      ((fresh.feedAll before).path?.isSome = true → (fresh.feedAll lines).path?.isSome = true) ∧
        (fresh.feedAll before).closed <+: (fresh.feedAll lines).closed := by
    rintro before ⟨behind, rfl⟩
    rw [feedAll_append]
    exact feedAll_prefix (sound_fresh.feedAll before) behind
  refine ⟨hs.inPath, hs.incomplete, fun draft hd => ?_, fun before h => (hgrown before h).1, fun before h hphase => ?_,
    fun before h => (hgrown before h).2, ?_⟩
  · obtain ⟨before, line, text, behind, h⟩ := exists_openSince hd
    refine ⟨before, line, text, behind, h, ?_, ?_⟩
    · rw [h.source]
      exact List.append_ne_nil_of_left_ne_nil (List.cons_ne_nil _ _) _
    · rw [h.source]
      exact List.prefix_append _ _
  · have hbefore := (phase_ne_idle_iff (sound_fresh.feedAll before)).mp hphase
    exact (phase_ne_idle_iff hs).mpr ((hgrown before h).1 hbefore)
  · rintro line ⟨text, draft, -, -, hd, -, hcomplete, -⟩
    rw [hs.incomplete draft hd] at hcomplete
    exact Bool.false_ne_true hcomplete

end Scanner
end Ambient
