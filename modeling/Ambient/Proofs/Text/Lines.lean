import Ambient.Text.Basic
import Mathlib.Data.List.Basic

/-!
# Lines

`Text.lines` cuts at every line feed, so it can be computed piece by piece:

* `lines_append_feed`: the lines before and behind a line feed;
* `lines_flatMap_feed`: lines that are closed one by one are read back;
* `exists_flatMap_feed`: every text consists of such lines and a last one;
* `lines_splitAtLine`: text put in at the start of a line stands between the lines before and behind it.
-/

namespace Ambient.Text

/-! ## 1. Pieces -/

theorem lines_append_feed (a b : Text) : lines (a ++ '\n' :: b) = lines a ++ lines b :=
  List.splitOn_append_cons_self a b

theorem lines_of_not_mem {t : Text} (h : '\n' ∉ t) : lines t = [t] := List.splitOn_eq_singleton h

theorem lines_ne_nil (t : Text) : lines t ≠ [] := List.splitOn_ne_nil '\n' t

theorem lines_cons_feed (t : Text) : lines ('\n' :: t) = [] :: lines t := lines_append_feed [] t

theorem lines_cons {c : Char} (h : c ≠ '\n') (t : Text) : lines (c :: t) = (lines t).modifyHead (c :: ·) := by
  unfold lines
  rw [List.splitOn_eq_splitOnP, List.splitOnP_cons_eq_if_modifyHead, beq_eq_false_iff_ne.mpr h,
    if_neg Bool.false_ne_true, List.splitOn_eq_splitOnP]

theorem not_mem_of_mem_lines {t : Text} : ∀ l ∈ lines t, '\n' ∉ l := by
  induction t with
  | nil => simp [lines]
  | cons c t ih =>
    intro l hl
    by_cases hc : c = '\n'
    · subst hc
      rw [lines_cons_feed] at hl
      rcases List.mem_cons.mp hl with rfl | hl
      · exact List.not_mem_nil
      · exact ih l hl
    · obtain ⟨first, rest, hlines⟩ := List.exists_cons_of_ne_nil (lines_ne_nil t)
      rw [lines_cons hc, hlines, List.modifyHead_cons] at hl
      rw [hlines] at ih
      rcases List.mem_cons.mp hl with rfl | hl
      · have hfirst : '\n' ∉ first := ih first List.mem_cons_self
        simp [hfirst, Ne.symm hc]
      · exact ih l (List.mem_cons_of_mem _ hl)

/-- Lines that are closed one by one are read back. -/
theorem lines_flatMap_feed {ls : List Text} (h : ∀ l ∈ ls, '\n' ∉ l) (t : Text) :
    lines (ls.flatMap (· ++ ['\n']) ++ t) = ls ++ lines t := by
  induction ls with
  | nil => rfl
  | cons l ls ih =>
    obtain ⟨hl, hls⟩ := List.forall_mem_cons.mp h
    rw [List.flatMap_cons, List.append_assoc, List.append_assoc, List.singleton_append, lines_append_feed,
      lines_of_not_mem hl, ih hls]
    rfl

/-- Every text consists of closed lines and a last one. -/
theorem exists_flatMap_feed (t : Text) : ∃ (ls : List Text) (last : Text), (∀ l ∈ ls, '\n' ∉ l) ∧ '\n' ∉ last ∧
    t = ls.flatMap (· ++ ['\n']) ++ last := by
  induction t with
  | nil => exact ⟨[], [], fun _ h => absurd h List.not_mem_nil, List.not_mem_nil, rfl⟩
  | cons c t ih =>
    obtain ⟨ls, last, hls, hlast, rfl⟩ := ih
    by_cases hc : c = '\n'
    · subst hc
      exact ⟨[] :: ls, last, List.forall_mem_cons.mpr ⟨List.not_mem_nil, hls⟩, hlast, rfl⟩
    · cases ls with
      | nil => exact ⟨[], c :: last, hls, List.not_mem_cons_of_ne_of_not_mem (Ne.symm hc) hlast, rfl⟩
      | cons l ls =>
        obtain ⟨hl, hls⟩ := List.forall_mem_cons.mp hls
        have hcl := List.not_mem_cons_of_ne_of_not_mem (Ne.symm hc) hl
        exact ⟨(c :: l) :: ls, last, List.forall_mem_cons.mpr ⟨hcl, hls⟩, hlast, rfl⟩

/-- A closed line has one line feed. -/
theorem lineFeeds_flatMap_feed {ls : List Text} (h : ∀ l ∈ ls, '\n' ∉ l) {last : Text} (hlast : '\n' ∉ last) :
    lineFeeds (ls.flatMap (· ++ ['\n']) ++ last) = ls.length := by
  unfold lineFeeds
  induction ls with
  | nil => exact List.count_eq_zero.mpr hlast
  | cons l ls ih =>
    obtain ⟨hl, hls⟩ := List.forall_mem_cons.mp h
    rw [List.flatMap_cons, List.append_assoc, List.append_assoc, List.count_append, List.count_eq_zero.mpr hl,
      List.singleton_append, List.count_cons_self, ih hls, List.length_cons, Nat.zero_add]

theorem length_lines (t : Text) : (lines t).length = lineFeeds t + 1 := by
  obtain ⟨ls, last, hls, hlast, rfl⟩ := exists_flatMap_feed t
  rw [lines_flatMap_feed hls, lines_of_not_mem hlast, lineFeeds_flatMap_feed hls hlast, List.length_append]
  rfl

/-! ## 2. At the start of a line -/

/-- The text before the start of line `n` and from there on; all of it, and nothing, if there is no such
    line. -/
def splitAtLine : Nat → Text → Text × Text
  | 0, t => ([], t)
  | _ + 1, [] => ([], [])
  | n + 1, c :: t =>
    let pieces := splitAtLine (if c = '\n' then n else n + 1) t
    (c :: pieces.1, pieces.2)

/-- **Closed text put in at the start of a line** stands between the lines before and behind it. -/
theorem lines_splitAtLine {n : Nat} {t : Text} (h : n < (lines t).length) (x : Text) :
    lines ((splitAtLine n t).1 ++ (x ++ '\n' :: (splitAtLine n t).2)) =
      (lines t).take n ++ (lines x ++ (lines t).drop n) := by
  induction t generalizing n with
  | nil =>
    have hn : n = 0 := by simpa [lines] using h
    subst hn
    exact lines_append_feed x []
  | cons c t ih =>
    cases n with
    | zero => exact lines_append_feed x (c :: t)
    | succ n =>
      unfold splitAtLine
      by_cases hc : c = '\n'
      · subst hc
        rw [lines_cons_feed] at h ⊢
        have hn : n < (lines t).length := by simpa using h
        simp only [if_true, List.cons_append, lines_cons_feed, ih hn, List.take_succ_cons, List.drop_succ_cons]
      · obtain ⟨first, rest, hlines⟩ := List.exists_cons_of_ne_nil (lines_ne_nil t)
        rw [lines_cons hc, List.length_modifyHead] at h
        simp only [hc, if_false, List.cons_append]
        rw [lines_cons hc, lines_cons hc, ih h, hlines]
        rfl

end Ambient.Text
