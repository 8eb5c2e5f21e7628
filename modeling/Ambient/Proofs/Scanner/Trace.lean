import Ambient.Parse
import Ambient.Proofs.Scanner.Steps

/-!
# The trace of a declaration

A declaration that the scanner closes has taken some lines and a comment, and depends on nothing else. Its
TRACE says how its draft came about from these lines alone: the first opened it (`Open.start`), every further
one left it open (`Open.grow`), until a line shut it (`Shut`) or it was cut off.

The trace can be read in both directions: `accounted_scan` finds one for every declaration that is scanned,
and `feedAll_shut` replays it, for lines that reach the scanner undisturbed.

What the lines of a particular file are like is given as `Terms`; what holds of every line that is handed to a
namespace holds of every line of every declaration.
-/

namespace Ambient

/-! ## 1. Traces -/

namespace Draft

/-- **These lines leave the draft open.** -/
inductive Open : List Text → Draft → Prop where
  | start {path line : Text} {draft : Draft} (hopen : Opening.first? path line = some draft)
      (hc : (draft.push line).complete = false) : Open [line] (draft.push line)
  | grow {own : List Text} {line : Text} {draft : Draft} (h : Open own draft)
      (ho : Opening.opens line = false) (hm : draft.endMarker ≠ line)
      (hc : (draft.push line).complete = false) : Open (own ++ [line]) (draft.push line)

/-- **The last of these lines shuts the draft**: it completes the signature, or is the end marker. -/
inductive Shut : List Text → Draft → Prop where
  | whole {path line : Text} {draft : Draft} (hopen : Opening.first? path line = some draft)
      (hc : (draft.push line).complete = true) : Shut [line] (draft.push line)
  | ends {own : List Text} {line : Text} {draft : Draft} (h : Open own draft)
      (ho : Opening.opens line = false) (he : draft.endMarker = line ∨ (draft.push line).complete = true) :
      Shut (own ++ [line]) (draft.push line)

theorem Open.incomplete {own : List Text} {draft : Draft} (h : Open own draft) : draft.complete = false := by
  cases h with
  | start _ hc => exact hc
  | grow _ _ _ hc => exact hc

/-- The source is the lines. -/
theorem Open.source {own : List Text} {draft : Draft} (h : Open own draft) :
    draft.source = own.flatMap sourceLine := by
  induction h with
  | start hopen _ => rw [push_source, (Opening.first?_start hopen).2, List.flatMap_singleton, List.nil_append]
  | grow _ _ _ _ ih => rw [push_source, ih, List.flatMap_append, List.flatMap_singleton]

theorem Shut.source {own : List Text} {draft : Draft} (h : Shut own draft) :
    draft.source = own.flatMap sourceLine := by
  cases h with
  | whole hopen _ => rw [push_source, (Opening.first?_start hopen).2, List.flatMap_singleton, List.nil_append]
  | ends h _ _ => rw [push_source, h.source, List.flatMap_append, List.flatMap_singleton]

/-- **Lines that neither shut a draft nor open another leave it open.** -/
theorem Open.extended {own : List Text} {draft : Draft} (h : draft.Open own) {lines : List Text}
    (hlines : ∀ line ∈ lines, Opening.opens line = false ∧ draft.endMarker ≠ line ∧
      (draft.kind = .function → ';' ∉ line)) :
    (draft.withSource (draft.source ++ lines.flatMap sourceLine)).Open (own ++ lines) := by
  induction lines generalizing own draft with
  | nil =>
    rw [List.flatMap_nil, List.append_nil, List.append_nil]
    exact h
  | cons line lines ih =>
    obtain ⟨⟨ho, hm, hsemicolon⟩, hlines⟩ := List.forall_mem_cons.mp hlines
    have hpush : draft.push line = draft.withSource (draft.source ++ sourceLine line) := by
      by_cases hkind : draft.kind = .function
      · exact push_of_notMem (hsemicolon hkind) draft
      · exact push_of_settled (.inl hkind) line
    have hopen := h.grow ho hm (by rw [hpush]; exact h.incomplete)
    rw [hpush] at hopen
    have hrest := ih hopen hlines
    rw [List.append_assoc, List.singleton_append] at hrest
    rw [List.flatMap_cons, ← List.append_assoc]
    exact hrest

end Draft

/-! ## 2. Terms -/

/-- **What is known of the lines of a file.** -/
structure Terms where
  /-- Of the namespaces that headings name. -/
  path : Text → Prop
  /-- Of the lines handed to a namespace. -/
  member : Text → Prop
  /-- Of the lines of a comment. -/
  remark : Text → Prop
  /-- Of the kinds that may be cut off, by the next opening or by the end of the file. -/
  cutOff : Kind → Prop

namespace Terms

variable (T : Terms)

/-- A line that keeps to the terms. -/
structure Keeps (s : Scanner) (line : Text) : Prop where
  path : ∀ heading, Heading.read? line = some heading → T.path heading.path
  member : ∀ text, s.effective? line = some text → T.member text
  remark : ∀ text, s.effective? line = some text → Opening.opens text = false → Text.allBlank text = false →
    Text.trim text ≠ ['}'] → T.remark text
  early : s.isEarly line = true → Text.allBlank line = false → T.remark line
  cutOff : ∀ text draft, s.effective? line = some text → Opening.opens text = true → s.draft? = some draft →
    T.cutOff draft.kind

/-- Lines that keep to the terms, up to the end of the file. -/
def KeepsAll (s : Scanner) : List Text → Prop
  | [] => ∀ draft, s.draft? = some draft → T.cutOff draft.kind
  | line :: lines => T.Keeps s line ∧ KeepsAll (s.feed line) lines

/-- Where everything may be cut off, each line is judged for itself. -/
theorem keepsAll_of_keeps {lines : List Text} (hcut : ∀ kind, T.cutOff kind)
    (h : ∀ line ∈ lines, ∀ s, T.Keeps s line) (s : Scanner) : T.KeepsAll s lines := by
  induction lines generalizing s with
  | nil => exact fun draft _ => hcut draft.kind
  | cons line lines ih =>
    obtain ⟨hline, hlines⟩ := List.forall_mem_cons.mp h
    exact ⟨hline s, ih hlines (s.feed line)⟩

/-- **A declaration with its trace.** -/
structure Account (own comments : List Text) (draft : Draft) : Prop where
  path : T.path draft.path
  member : ∀ line ∈ own, T.member line
  remark : ∀ line ∈ comments, T.remark line
  shut : draft.Shut own ∨ draft.Open own ∧ T.cutOff draft.kind

def Accounts (d : Declaration) : Prop :=
  ∃ own comments draft, d = draft.finish (comments.flatMap Scanner.remarkLine) ∧ T.Account own comments draft

/-- **The invariant**: all that the scanner holds has a trace within the terms. -/
structure Traced (s : Scanner) : Prop where
  path : ∀ path, s.path? = some path → T.path path
  draft : ∀ draft, s.draft? = some draft →
    T.path draft.path ∧ ∃ own, draft.Open own ∧ ∀ line ∈ own, T.member line
  comment : ∃ comments : List Text, s.comment = comments.flatMap Scanner.remarkLine ∧ ∀ line ∈ comments, T.remark line
  closed : ∀ d ∈ s.closed, T.Accounts d

end Terms

namespace Scanner

/-! ## 3. Steps -/

section Equations

variable {s : Scanner} {draft : Draft} {line : Text}

theorem collect_stays (hc : (draft.push line).complete = false) :
    s.collect draft line = { s with draft? := some (draft.push line) } := by
  unfold collect
  dsimp only
  rw [hc, if_neg Bool.false_ne_true]

theorem collect_closes (hc : (draft.push line).complete = true) :
    s.collect draft line = ⟨s.path?, none, [], s.closed ++ [(draft.push line).finish s.comment]⟩ := by
  unfold collect
  dsimp only
  rw [if_pos hc]
  rfl

theorem member_of_first? {path : Text} (hp : s.path? = some path) (hopen : Opening.first? path line = some draft) :
    s.member line = s.close.collect draft line := by
  unfold member
  rw [hp, Option.bind_some, hopen]

/-- The end marker closes the draft, whatever else it does. -/
theorem member_of_endMarker (hd : s.draft? = some draft) (ho : Opening.opens draft.endMarker = false) :
    s.member draft.endMarker =
      ⟨s.path?, none, [], s.closed ++ [(draft.push draft.endMarker).finish s.comment]⟩ := by
  rw [member_of_not_opens ho]
  unfold continueWith
  simp only [hd, if_true]
  rfl

theorem member_of_incomplete (hd : s.draft? = some draft) (hinc : draft.complete = false)
    (ho : Opening.opens line = false) (hm : draft.endMarker ≠ line) : s.member line = s.collect draft line := by
  rw [member_of_not_opens ho]
  unfold continueWith
  simp only [hd]
  rw [if_neg hm, hinc, Bool.false_and, if_neg Bool.false_ne_true]

end Equations

variable {T : Terms} {s : Scanner} {path text : Text}

theorem traced_fresh (T : Terms) : T.Traced fresh where
  path _ h := nomatch h
  draft _ h := nomatch h
  comment := ⟨[], rfl, fun _ h => nomatch h⟩
  closed _ h := nomatch h

section Step

theorem traced_setPath (h : T.Traced s) {path? : Option Text} (hpath : ∀ path, path? = some path → T.path path) :
    T.Traced { s with path? := path? } := ⟨hpath, h.draft, h.comment, h.closed⟩

/-- A declaration more, and nothing is open. -/
theorem traced_closed (h : T.Traced s) {d : Declaration} (hd : T.Accounts d) :
    T.Traced ⟨s.path?, none, [], s.closed ++ [d]⟩ where
  path := h.path
  draft _ h := nomatch h
  comment := ⟨[], rfl, fun _ h => nomatch h⟩
  closed d' hd' := by
    rcases List.mem_append.mp hd' with hold | hnew
    · exact h.closed d' hold
    · rw [List.mem_singleton.mp hnew]
      exact hd

theorem traced_open (h : T.Traced s) {own : List Text} {draft : Draft} (hpath : T.path draft.path)
    (hopen : draft.Open own) (hown : ∀ line ∈ own, T.member line) :
    T.Traced { s with draft? := some draft } where
  path := h.path
  draft d hd := by
    cases hd
    exact ⟨hpath, own, hopen, hown⟩
  comment := h.comment
  closed := h.closed

/-- What closes takes the comment with it. -/
theorem accounts_finish (h : T.Traced s) {own : List Text} {draft : Draft} (hpath : T.path draft.path)
    (hown : ∀ line ∈ own, T.member line) (hshut : draft.Shut own ∨ draft.Open own ∧ T.cutOff draft.kind) :
    T.Accounts (draft.finish s.comment) := by
  obtain ⟨comments, hcomment, hremark⟩ := h.comment
  exact ⟨own, comments, draft, by rw [hcomment], hpath, hown, hremark, hshut⟩

theorem traced_close (h : T.Traced s) (hcut : ∀ draft, s.draft? = some draft → T.cutOff draft.kind) :
    T.Traced s.close := by
  cases hd : s.draft? with
  | none =>
    rw [close_of_none hd]
    exact h
  | some draft =>
    obtain ⟨hpath, own, hopen, hown⟩ := h.draft draft hd
    rw [close_of_some hd]
    exact traced_closed h (accounts_finish h hpath hown (.inr ⟨hopen, hcut draft hd⟩))

theorem mem_concat {own : List Text} (hown : ∀ line ∈ own, T.member line) (htext : T.member text) :
    ∀ line ∈ own ++ [text], T.member line := by
  intro line hline
  rcases List.mem_append.mp hline with h | h
  · exact hown line h
  · rw [List.mem_singleton.mp h]
    exact htext

/-- **A text that opens a declaration.** -/
theorem traced_member_opens (h : T.Traced s) (hp : s.path? = some path) (htext : T.member text)
    (ho : Opening.opens text = true) (hcut : ∀ draft, s.draft? = some draft → T.cutOff draft.kind) :
    T.Traced (s.member text) := by
  obtain ⟨draft, hopen⟩ := Opening.exists_first? ho path
  have hclose := traced_close h hcut
  have hpath : T.path (draft.push text).path := by
    rw [Draft.push_path, (Opening.first?_start hopen).1]
    exact h.path path hp
  have hown : ∀ line ∈ [text], T.member line := fun line hline => List.mem_singleton.mp hline ▸ htext
  rw [member_of_first? hp hopen]
  cases hc : (draft.push text).complete with
  | false =>
    rw [collect_stays hc]
    exact traced_open hclose hpath (.start hopen hc) hown
  | true =>
    rw [collect_closes hc]
    exact traced_closed hclose (accounts_finish hclose hpath hown (.inl (.whole hopen hc)))

/-- **A text that finds a declaration open.** -/
theorem traced_member_joins (h : T.Traced s) {draft : Draft} (hd : s.draft? = some draft)
    (htext : T.member text) (ho : Opening.opens text = false) : T.Traced (s.member text) := by
  obtain ⟨hpath, own, hopen, hown⟩ := h.draft draft hd
  have hpath' : T.path (draft.push text).path := by
    rw [Draft.push_path]
    exact hpath
  have hown' := mem_concat hown htext
  by_cases hm : draft.endMarker = text
  · subst hm
    rw [member_of_endMarker hd ho]
    exact traced_closed h (accounts_finish h hpath' hown' (.inl (.ends hopen ho (.inl rfl))))
  · rw [member_of_incomplete hd hopen.incomplete ho hm]
    cases hc : (draft.push text).complete with
    | false =>
      rw [collect_stays hc]
      exact traced_open h hpath' (.grow hopen ho hm hc) hown'
    | true =>
      rw [collect_closes hc]
      exact traced_closed h (accounts_finish h hpath' hown' (.inl (.ends hopen ho (.inr hc))))

theorem traced_remark (h : T.Traced s) (htext : Text.allBlank text = false → T.remark text) :
    T.Traced (s.remark text) := by
  cases hb : Text.allBlank text with
  | true =>
    rw [remark_of_blank hb]
    exact h
  | false =>
    obtain ⟨comments, hcomment, hremark⟩ := h.comment
    rw [remark_of_not_blank hb]
    refine ⟨h.path, h.draft, ⟨comments ++ [text], ?_, ?_⟩, h.closed⟩
    · rw [List.flatMap_append, List.flatMap_singleton, ← hcomment]
    · intro line hline
      rcases List.mem_append.mp hline with hold | hnew
      · exact hremark line hold
      · rw [List.mem_singleton.mp hnew]
        exact htext hb

/-- **A text between two declarations.** -/
theorem traced_member_between (h : T.Traced s) (hd : s.draft? = none) (ho : Opening.opens text = false)
    (hremark : Text.allBlank text = false → Text.trim text ≠ ['}'] → T.remark text) :
    T.Traced (s.member text) := by
  rw [member_between hd ho]
  by_cases ht : Text.trim text = ['}']
  · rw [if_pos ht]
    exact ⟨h.path, h.draft, ⟨[], rfl, fun _ h => nomatch h⟩, h.closed⟩
  · rw [if_neg ht]
    exact traced_remark h fun hb => hremark hb ht

/-- **Every line within the terms keeps the invariant.** -/
theorem traced_feed {line : Text} (h : T.Traced s) (hkeeps : T.Keeps s line) : T.Traced (s.feed line) := by
  have hset : T.Traced { s with path? := s.pathAfter? line } := by
    refine traced_setPath h fun path hpath => ?_
    unfold pathAfter? at hpath
    split at hpath
    · exact h.path path hpath
    · cases hr : Heading.read? line with
      | some heading =>
        rw [hr] at hpath
        cases hpath
        exact hkeeps.path heading hr
      | none =>
        rw [hr] at hpath
        exact h.path path hpath
  cases he : s.effective? line with
  | none =>
    cases hearly : s.isEarly line with
    | true =>
      rw [feed_of_early hearly]
      exact traced_remark h (hkeeps.early hearly)
    | false =>
      rw [feed_of_idle he hearly]
      exact hset
  | some text =>
    obtain ⟨path, hp⟩ := Option.isSome_iff_exists.mp (pathAfter?_isSome he)
    have htext := hkeeps.member text he
    rw [feed_of_effective he]
    cases ho : Opening.opens text with
    | true => exact traced_member_opens hset hp htext ho fun draft hd => hkeeps.cutOff text draft he ho hd
    | false =>
      obtain hd | ⟨draft, hd⟩ := Option.eq_none_or_eq_some s.draft?
      · exact traced_member_between hset hd ho (hkeeps.remark text he ho)
      · exact traced_member_joins hset hd htext ho

end Step

/-! ## 4. All lines -/

theorem accounts_finish_feedAll {lines : List Text} (h : T.Traced s) (hkeeps : T.KeepsAll s lines) :
    ∀ d ∈ (s.feedAll lines).finish, T.Accounts d := by
  induction lines generalizing s with
  | nil => exact (traced_close h hkeeps).closed
  | cons line lines ih => exact ih (traced_feed h hkeeps.1) hkeeps.2

/-- **Every declaration that is scanned has a trace.** -/
theorem accounted_scan {lines : List Text} (hkeeps : T.KeepsAll fresh lines) : ∀ d ∈ scan lines, T.Accounts d :=
  accounts_finish_feedAll (traced_fresh T) hkeeps

/-- **Only the entries of an export group are numbered.** -/
theorem ordinal_of_mem_scan {lines : List Text} {d : Declaration} (hd : d ∈ scan lines) : d.ordinal = none := by
  have hkeeps : (Terms.mk (fun _ => True) (fun _ => True) (fun _ => True) fun _ => True).KeepsAll fresh lines :=
    Terms.keepsAll_of_keeps _ (fun _ => trivial) (fun _ _ _ => by constructor <;> intros <;> trivial) fresh
  obtain ⟨_, _, _, rfl, _⟩ := accounted_scan hkeeps d hd
  rfl

/-! ## 5. Replay -/

/-- A line that is handed on as it is, wherever there is a namespace. -/
structure Handed (line : Text) : Prop where
  skipped : isSkipped line = false
  heading : Heading.read? line = none

/-- A line of its own that is handed on. -/
structure Ordinary (line : Text) : Prop where
  skipped : isSkipped line = false
  heading : Heading.read? line = none
  feed : '\n' ∉ line

theorem Ordinary.handed {line : Text} (h : Ordinary line) : Handed line := ⟨h.skipped, h.heading⟩

section Replay

variable {s : Scanner} {own : List Text} {draft : Draft} {line path : Text}

theorem feed_member (h : Handed line) (hp : s.path? = some path) : s.feed line = s.member line := by
  unfold feed
  rw [h.skipped, if_neg Bool.false_ne_true, h.heading, hp]
  rfl

/-- **Lines that leave a draft open do so in any namespace of its name.** -/
theorem feedAll_open (h : draft.Open own) (hown : ∀ line ∈ own, Handed line)
    (hp : s.path? = some draft.path) (hd : s.draft? = none) :
    s.feedAll own = { s with draft? := some draft } := by
  induction h with
  | start hopen hc =>
    rw [Draft.push_path] at hp
    have hpath := (Opening.first?_start hopen).1
    have hline := hown _ List.mem_cons_self
    show s.feed _ = _
    rw [feed_member hline hp, member_of_first? (hp.trans (congrArg some hpath)) hopen, close_of_none hd,
      collect_stays hc]
  | @grow _ _ start h ho hm hc ih =>
    rw [Draft.push_path] at hp
    have hrest := fun l hl => hown l (List.mem_append_left _ hl)
    have hline := hown _ (List.mem_append_right _ List.mem_cons_self)
    have hopen : ({ s with draft? := some start } : Scanner).path? = some start.path := hp
    rw [feedAll_append, ih hrest hp]
    show feed _ _ = _
    rw [feed_member hline hopen, member_of_incomplete rfl h.incomplete ho hm,
      collect_stays hc]

/-- **And so do lines that shut it**: it is a declaration then, with the comment. -/
theorem feedAll_shut (h : draft.Shut own) (hown : ∀ line ∈ own, Handed line)
    (hp : s.path? = some draft.path) (hd : s.draft? = none) :
    s.feedAll own = ⟨s.path?, none, [], s.closed ++ [draft.finish s.comment]⟩ := by
  cases h with
  | whole hopen hc =>
    rw [Draft.push_path] at hp
    have hpath := (Opening.first?_start hopen).1
    have hline := hown _ List.mem_cons_self
    show s.feed _ = _
    rw [feed_member hline hp, member_of_first? (hp.trans (congrArg some hpath)) hopen, close_of_none hd,
      collect_closes hc]
  | @ends _ line start h ho he =>
    rw [Draft.push_path] at hp
    have hrest := fun l hl => hown l (List.mem_append_left _ hl)
    have hline := hown _ (List.mem_append_right _ List.mem_cons_self)
    have hopen : ({ s with draft? := some start } : Scanner).path? = some start.path := hp
    rw [feedAll_append, feedAll_open h hrest hp hd]
    show feed _ _ = _
    rw [feed_member hline hopen]
    by_cases hm : start.endMarker = line
    · subst hm
      rw [member_of_endMarker rfl ho]
    · rw [member_of_incomplete rfl h.incomplete ho hm, collect_closes (he.resolve_left hm)]

end Replay

end Scanner
end Ambient
