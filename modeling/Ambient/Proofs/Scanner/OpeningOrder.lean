import Ambient.Parse
import Ambient.Proofs.Scanner.Steps
import Mathlib.Data.List.Forall2
import Mathlib.Logic.ExistsUnique

/-!
# Declarations come in the order in which they open

The scanner hands out declarations in the order in which they close. Only one can be open at a time, so this
is the order of their OPENING LINES.

* `Scanner.opening?`: the text with which a line opens a declaration, if it does;
* `begins_feed`: what one line does to the declarations begun so far, the open one included. It adds one if
  it opens one, and none otherwise; of those begun only the open one can take the line (`Grows`);
* `Opens lines n i`: the `i`th declaration is opened by line `n`;
* `existsUnique_opens`, `Opens.lt_iff`, `Opens.declaration`: each declaration has its own opening line, in the
  same order, and is what that line has opened;
* `exists_row_of_mem_scan`: so it is of the kind of a row of the table.
-/

namespace Ambient

/-- A function whose signature has been read off its lines. -/
structure Declaration.Joined (d : Declaration) : Prop where
  kind : d.kind = .function
  complete : d.complete = true
  signature : d.signature = Draft.joinedSignature d.source

/-- **What a declaration has in common with what its draft becomes**: its lines are the first of more, and its
    signature stays, unless it is a function and the lines complete it. -/
structure Declaration.Grows (d d' : Declaration) : Prop where
  path : d'.path = d.path
  kind : d'.kind = d.kind
  endMarker : d'.endMarker = d.endMarker
  comment : d'.comment = d.comment
  source : d.source <+: d'.source
  /-- What is complete is closed. -/
  whole : d.complete = true → d' = d
  signature : d'.signature = d.signature ∧ d'.complete = d.complete ∨ d.complete = false ∧ d'.Joined

namespace Declaration

theorem Grows.refl (d : Declaration) : d.Grows d :=
  ⟨rfl, rfl, rfl, rfl, List.prefix_rfl, fun _ => rfl, .inl ⟨rfl, rfl⟩⟩

theorem Grows.trans {a b c : Declaration} (hab : a.Grows b) (hbc : b.Grows c) : a.Grows c where
  path := hbc.path.trans hab.path
  kind := hbc.kind.trans hab.kind
  endMarker := hbc.endMarker.trans hab.endMarker
  comment := hbc.comment.trans hab.comment
  source := hab.source.trans hbc.source
  whole h := by
    obtain rfl := hab.whole h
    exact hbc.whole h
  signature := by
    rcases hab.signature with ⟨hsignature, hcomplete⟩ | ⟨hopen, hjoined⟩
    · exact hbc.signature.imp (fun h => ⟨h.1.trans hsignature, h.2.trans hcomplete⟩)
        fun h => ⟨hcomplete.symm.trans h.1, h.2⟩
    · rw [hbc.whole hjoined.complete]
      exact .inr ⟨hopen, hjoined⟩

/-- A line more. -/
theorem grows_push {draft : Draft} (hopen : draft.complete = false) (line comment : Text) :
    (draft.finish comment).Grows ((draft.push line).finish comment) where
  path := Draft.push_path draft line
  kind := Draft.push_kind draft line
  endMarker := Draft.push_endMarker draft line
  comment := rfl
  source := ⟨Draft.sourceLine line, (Draft.push_source draft line).symm⟩
  whole h := absurd (hopen.symm.trans h) Bool.false_ne_true
  signature := by
    by_cases hkind : draft.kind = .function
    · cases hc : Draft.completes line (draft.source ++ Draft.sourceLine line) with
      | true =>
        rw [Draft.push_of_completes hkind hopen hc]
        exact .inr ⟨hopen, hkind, rfl, rfl⟩
      | false =>
        rw [Draft.push_of_not_completes hc]
        exact .inl ⟨rfl, rfl⟩
    · rw [Draft.push_of_settled (.inl hkind)]
      exact .inl ⟨rfl, rfl⟩

end Declaration

namespace Scanner

/-! ## 1. One line -/

/-- The text with which a line opens a declaration. -/
def opening? (s : Scanner) (line : Text) : Option Text := (s.effective? line).filter Opening.opens

/-- **The declarations begun**, before a line and after it. -/
inductive Begins (ds ds' : List Declaration) : Option Text → Prop where
  /-- There is one more, at the end, and it consists of this line. -/
  | one {path text : Text} {draft : Draft} (comment : Text) (hopen : Opening.first? path text = some draft)
      (h : ds' = ds ++ [(draft.push text).finish comment]) : Begins ds ds' (some text)
  /-- They are the same, except that lines may have been added. -/
  | none (h : List.Forall₂ Declaration.Grows ds ds') : Begins ds ds' none

section Line

variable {s : Scanner} {line text path : Text}

theorem begins_refl (ds : List Declaration) : Begins ds ds none :=
  .none (List.forall₂_same.mpr fun d _ => .refl d)

theorem finish_of_none (hd : s.draft? = none) : s.finish = s.closed := by
  unfold finish
  rw [close_of_none hd]

theorem finish_setPath (s : Scanner) (path? : Option Text) :
    finish { s with path? := path? } = s.finish := by
  unfold finish close
  dsimp only
  split <;> rfl

theorem Took.finish {closed : List Declaration} {comment : Text} {draft : Draft} {s' : Scanner}
    (h : Took closed comment draft text s') :
    s'.finish = closed ++ [(draft.push text).finish comment] := by
  cases h <;> rfl

/-- **Every line begins the declaration that it opens, and no other.** -/
theorem begins_feed (hs : Sound s) (line : Text) : Begins s.finish (s.feed line).finish (s.opening? line) := by
  cases (fed_feed hs line).1 with
  | @opens text path start ht ho hp hstart h =>
    have hopening : s.opening? line = some text := by rw [opening?, ht, Option.filter_some, if_pos ho]
    rw [hopening]
    exact .one s.close.comment hstart h.finish
  | @joins text draft ht ho hd h =>
    have hopening : s.opening? line = none := by
      rw [opening?, ht, Option.filter_some, ho, if_neg Bool.false_ne_true]
    have hbefore : s.finish = s.closed ++ [draft.finish s.comment] := by
      unfold finish
      rw [close_of_some hd]
    rw [hopening, hbefore, h.finish]
    exact .none (List.rel_append (List.forall₂_same.mpr fun d _ => .refl d)
      (.cons (Declaration.grows_push (hs.incomplete draft hd) text _) .nil))
  | between comment ht hd h =>
    have hopening : s.opening? line = none := by
      refine Option.filter_eq_none_iff.mpr fun text htext => ?_
      rw [ht text htext]
      exact Bool.false_ne_true
    have hsame : (s.feed line).finish = s.finish := by
      rw [h, finish_of_none hd]
      rfl
    rw [hopening, hsame]
    exact begins_refl s.finish
  | passes ht h =>
    have hopening : s.opening? line = none := by
      rw [opening?, ht]
      rfl
    have hsame : (s.feed line).finish = s.finish := by
      rw [h]
      exact finish_setPath s _
    rw [hopening, hsame]
    exact begins_refl s.finish

end Line

/-! ## 2. All lines -/

/-- **Line `n` opens the `i`th declaration**: when it comes, `i` have been begun. -/
structure Opens (lines : List Text) (n i : Nat) : Prop where
  opening : ∃ line, lines[n]? = some line ∧ ((fresh.feedAll (lines.take n)).opening? line).isSome = true
  count : (scan (lines.take n)).length = i

section Lines

variable {lines : List Text} {n m i j : Nat}

/-- The declarations of some lines, among those of all: each stands where it stood, and may have grown. -/
def Kept (ds ds' : List Declaration) : Prop :=
  ∀ (i : Nat) (d : Declaration), ds[i]? = some d → ∃ d', ds'[i]? = some d' ∧ d.Grows d'

theorem Kept.trans {as bs cs : List Declaration} (hab : Kept as bs) (hbc : Kept bs cs) : Kept as cs := by
  intro i a ha
  obtain ⟨b, hb, hgrows⟩ := hab i a ha
  obtain ⟨c, hc, hgrows'⟩ := hbc i b hb
  exact ⟨c, hc, hgrows.trans hgrows'⟩

theorem Kept.length_le {ds ds' : List Declaration} (h : Kept ds ds') : ds.length ≤ ds'.length := by
  by_contra hlt
  obtain ⟨d', hd', -⟩ := h ds'.length _ (List.getElem?_eq_getElem (Nat.not_le.mp hlt))
  rw [List.getElem?_eq_none (Nat.le_refl _)] at hd'
  cases hd'

theorem Begins.kept {ds ds' : List Declaration} {opening? : Option Text} (h : Begins ds ds' opening?) :
    Kept ds ds' := by
  intro i d hd
  cases h with
  | one comment _ h =>
    obtain ⟨hi, -⟩ := List.getElem?_eq_some_iff.mp hd
    exact ⟨d, by rw [h, List.getElem?_append_left hi, hd], .refl d⟩
  | none h =>
    obtain ⟨hlength, hgrows⟩ := List.forall₂_iff_get.mp h
    obtain ⟨hi, rfl⟩ := List.getElem?_eq_some_iff.mp hd
    have hi' : i < ds'.length := hlength ▸ hi
    exact ⟨_, List.getElem?_eq_getElem hi', hgrows i hi hi'⟩

theorem scan_take_succ {line : Text} (h : lines[n]? = some line) :
    scan (lines.take (n + 1)) = ((fresh.feedAll (lines.take n)).feed line).finish := by
  unfold scan
  rw [List.take_add_one, h, feedAll_append]
  rfl

/-- One line more. -/
theorem begins_take {line : Text} (h : lines[n]? = some line) :
    Begins (scan (lines.take n)) (scan (lines.take (n + 1)))
      ((fresh.feedAll (lines.take n)).opening? line) := by
  rw [scan_take_succ h]
  exact begins_feed (sound_fresh.feedAll _) line

theorem kept_take_succ (lines : List Text) (n : Nat) :
    Kept (scan (lines.take n)) (scan (lines.take (n + 1))) := by
  cases h : lines[n]? with
  | some line => exact (begins_take h).kept
  | none =>
    rw [List.take_add_one, h, Option.toList_none, List.append_nil]
    exact (begins_refl _).kept

/-- **Declarations stay in their places**, however many lines follow. -/
theorem kept_take (lines : List Text) (h : n ≤ m) : Kept (scan (lines.take n)) (scan (lines.take m)) := by
  induction h with
  | refl => exact (begins_refl _).kept
  | step _ ih => exact ih.trans (kept_take_succ lines _)

theorem kept_scan (lines : List Text) (n : Nat) : Kept (scan (lines.take n)) (scan lines) := by
  have h := kept_take lines (Nat.le_max_left n lines.length)
  rw [List.take_of_length_le (Nat.le_max_right n lines.length)] at h
  exact h

/-- What an opening line begins. -/
theorem Opens.begins (h : Opens lines n i) : ∃ line text path draft comment, lines[n]? = some line ∧
    (fresh.feedAll (lines.take n)).opening? line = some text ∧ Opening.first? path text = some draft ∧
    scan (lines.take (n + 1)) = scan (lines.take n) ++ [(draft.push text).finish comment] := by
  obtain ⟨line, hline, hsome⟩ := h.opening
  obtain ⟨text, htext⟩ := Option.isSome_iff_exists.mp hsome
  have hbegins := begins_take hline
  rw [htext] at hbegins
  cases hbegins with
  | one comment hopen h => exact ⟨line, text, _, _, comment, hline, htext, hopen, h⟩

/-- Behind its opening line a declaration has been begun. -/
theorem Opens.lt_length (h : Opens lines n i) (hlt : n < m) : i < (scan (lines.take m)).length := by
  obtain ⟨_, _, _, _, _, -, -, -, hscan⟩ := h.begins
  have hlength := (kept_take lines (Nat.succ_le_of_lt hlt)).length_le
  rw [hscan, List.length_append, h.count] at hlength
  exact hlength

/-- **Declarations come in the order of their opening lines.** -/
theorem Opens.lt_iff (hn : Opens lines n i) (hm : Opens lines m j) : n < m ↔ i < j := by
  have hlt : ∀ {n m i j}, Opens lines n i → Opens lines m j → n < m → i < j := by
    intro n m i j hn hm hlt
    rw [← hm.count]
    exact hn.lt_length hlt
  refine ⟨hlt hn hm, fun hij => ?_⟩
  rcases Nat.lt_trichotomy n m with h | h | h
  · exact h
  · rw [← hn.count, ← hm.count, h] at hij
    exact absurd hij (Nat.lt_irrefl _)
  · exact absurd (hlt hm hn h) (Nat.lt_asymm hij)

/-- Every declaration begun has an opening line. -/
theorem exists_opens (n : Nat) (h : i < (scan (lines.take n)).length) : ∃ m, Opens lines m i := by
  induction n with
  | zero => exact absurd h (Nat.not_lt_zero i)
  | succ n ih =>
    cases hline : lines[n]? with
    | none =>
      rw [List.take_add_one, hline, Option.toList_none, List.append_nil] at h
      exact ih h
    | some line =>
      have hbegins := begins_take hline
      by_cases hi : i < (scan (lines.take n)).length
      · exact ih hi
      · cases hopening : (fresh.feedAll (lines.take n)).opening? line with
        | none =>
          rw [hopening] at hbegins
          cases hbegins with
          | none hgrows =>
            rw [hgrows.length_eq] at hi
            exact absurd h hi
        | some text =>
          rw [hopening] at hbegins
          cases hbegins with
          | one comment _ hscan =>
            rw [hscan, List.length_append] at h
            refine ⟨n, ⟨line, hline, by rw [hopening]; rfl⟩, ?_⟩
            exact Nat.le_antisymm (Nat.not_lt.mp hi) (Nat.le_of_lt_succ h)

/-- **Every declaration has exactly one opening line.** -/
theorem existsUnique_opens (h : i < (scan lines).length) : ∃! n, Opens lines n i := by
  rw [← List.take_length (l := lines)] at h
  obtain ⟨n, hn⟩ := exists_opens lines.length h
  refine ⟨n, hn, fun m hm => Nat.le_antisymm ?_ ?_⟩
  · exact Nat.not_lt.mp fun hlt => Nat.lt_irrefl i ((hn.lt_iff hm).mp hlt)
  · exact Nat.not_lt.mp fun hlt => Nat.lt_irrefl i ((hm.lt_iff hn).mp hlt)

/-- What an opening line begins grows into the declaration. -/
theorem Opens.grows (h : Opens lines n i) : ∃ line text draft comment d, lines[n]? = some line ∧
    (fresh.feedAll (lines.take n)).opening? line = some text ∧ (scan lines)[i]? = some d ∧
    Opening.first? d.path text = some draft ∧ ((draft.push text).finish comment).Grows d := by
  obtain ⟨line, text, path, draft, comment, hline, htext, hopen, hscan⟩ := h.begins
  have hplace : (scan (lines.take (n + 1)))[i]? = some ((draft.push text).finish comment) := by
    rw [hscan, ← h.count, List.getElem?_concat_length]
  obtain ⟨d, hd, hgrows⟩ := kept_scan lines (n + 1) i _ hplace
  refine ⟨line, text, draft, comment, d, hline, htext, hd, ?_, hgrows⟩
  rw [hgrows.path]
  show Opening.first? (draft.push text).path text = some draft
  rw [Draft.push_path, (Opening.first?_start hopen).1]
  exact hopen

/-- **A declaration is what its opening line has opened**, and this line is the first of its source. -/
theorem Opens.declaration (h : Opens lines n i) : ∃ line text draft d, lines[n]? = some line ∧
    (fresh.feedAll (lines.take n)).opening? line = some text ∧ (scan lines)[i]? = some d ∧
    Opening.first? d.path text = some draft ∧ d.kind = draft.kind ∧ d.endMarker = draft.endMarker ∧
    Draft.sourceLine text <+: d.source := by
  obtain ⟨line, text, draft, comment, d, hline, htext, hd, hopen, hgrows⟩ := h.grows
  refine ⟨line, text, draft, d, hline, htext, hd, hopen, ?_, ?_, ?_⟩
  · exact hgrows.kind.trans (Draft.push_kind draft text)
  · exact hgrows.endMarker.trans (Draft.push_endMarker draft text)
  · have hfirst : ((draft.push text).finish comment).source = Draft.sourceLine text := by
      show (draft.push text).source = _
      rw [Draft.push_source, (Opening.first?_start hopen).2, List.nil_append]
    rw [← hfirst]
    exact hgrows.source

/-- **Every declaration is of the kind of a row of the table.** -/
theorem exists_row_of_mem_scan {d : Declaration} (h : d ∈ scan lines) : ∃ o ∈ Opening.table, d.kind = o.kind := by
  obtain ⟨i, hi, rfl⟩ := List.getElem_of_mem h
  obtain ⟨n, hn, -⟩ := existsUnique_opens hi
  obtain ⟨line, text, draft, d, -, -, hd, hopen, hkind, -⟩ := hn.declaration
  obtain ⟨o, ho, hopens⟩ := List.exists_of_findSome?_eq_some hopen
  obtain ⟨_, _, _, _, rfl⟩ := Opening.open?_eq_some hopens
  rw [List.getElem?_eq_getElem hi] at hd
  exact ⟨o, ho, by rw [Option.some.inj hd]; exact hkind⟩

end Lines

end Scanner
end Ambient
