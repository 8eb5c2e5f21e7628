import Ambient.Proofs.Text.Cut
import Ambient.Proofs.Text.Pieces

/-!
# Text without its blanks

Whatever tidies blanks up keeps the other characters in their order: `solid` takes the blanks out, and does not
tell a text from the same text trimmed, squeezed or tightened (`solid_trimEnd`, `solid_squeeze`, `solid_tighten`).
What stands before a character that is no blank is cut off alike, before or after the blanks are out
(`solid_takeWhile`, `beforeLast?_solid`).
-/

namespace Ambient.Text

/-- The characters that are no blanks. -/
def solid (t : Text) : Text := t.filter fun c => !isBlank c

section Solid

variable {t : Text}

theorem solid_append (a b : Text) : solid (a ++ b) = solid a ++ solid b := List.filter_append a b

theorem solid_cons_of_blank {c : Char} (h : isBlank c = true) (t : Text) : solid (c :: t) = solid t :=
  List.filter_cons_of_neg (by rw [h]; exact Bool.false_ne_true)

theorem solid_cons_of_not_blank {c : Char} (h : isBlank c = false) (t : Text) : solid (c :: t) = c :: solid t :=
  List.filter_cons_of_pos (by rw [h]; rfl)

theorem solid_of_no_blank (h : ∀ c ∈ t, isBlank c = false) : solid t = t :=
  List.filter_eq_self.mpr fun c hc => by rw [h c hc]; rfl

theorem solid_of_all_blank (h : ∀ c ∈ t, isBlank c = true) : solid t = [] :=
  List.filter_eq_nil_iff.mpr fun c hc => by rw [h c hc]; exact Bool.false_ne_true

theorem solid_flatMap {α : Type} (f : α → Text) (l : List α) : solid (l.flatMap f) = l.flatMap fun a => solid (f a) :=
  List.filter_flatMap

theorem count_solid {c : Char} (hc : isBlank c = false) (t : Text) : (solid t).count c = t.count c :=
  List.count_filter (by rw [hc]; rfl)

theorem allBlank_iff_solid : allBlank t = true ↔ solid t = [] := by
  unfold solid
  rw [allBlank_iff, List.filter_eq_nil_iff]
  exact forall₂_congr fun c _ => by rw [Bool.not_eq_true', Bool.not_eq_false]

/-! ## 1. Tidied blanks -/

/-- Dropping blanks makes no difference. -/
theorem solid_filter {p : Char → Bool} (h : ∀ c, p c = false → isBlank c = true) (t : Text) :
    solid (t.filter p) = solid t := by
  unfold solid
  rw [List.filter_filter]
  refine List.filter_congr fun c _ => ?_
  cases hp : p c with
  | true => exact Bool.and_true _
  | false => rw [h c hp, Bool.and_false]; rfl

theorem solid_trimEnd (t : Text) : solid (trimEnd t) = solid t := by
  obtain ⟨b, hsplit, hb⟩ := exists_dropEndWhile_append isBlank t
  conv_rhs => rw [← hsplit, solid_append, solid_of_all_blank hb, List.append_nil]
  rfl

theorem solid_trim (t : Text) : solid (trim t) = solid t := by
  have hstart : solid (trimStart t) = solid t := by
    conv_rhs => rw [← List.takeWhile_append_dropWhile (p := isBlank) (l := t), solid_append,
      solid_of_all_blank fun c hc => List.mem_takeWhile_imp hc]
    rfl
  unfold trim
  rw [solid_trimEnd, hstart]

/-- The words hold all that is no blank. -/
theorem flatten_words (t : Text) : (words t).flatten = solid t := by
  induction hn : t.length using Nat.strong_induction_on generalizing t with
  | _ n ih =>
    have hword : ∀ a : Text, (∀ c ∈ a, isBlank c = false) → (words a).flatten = solid a := by
      intro a ha
      by_cases hne : a = []
      · subst hne
        rfl
      · rw [words_of_no_blank hne ha, solid_of_no_blank ha, List.flatten_singleton]
    by_cases hblank : ∀ c ∈ t, isBlank c = false
    · exact hword t hblank
    · obtain ⟨a, c, b, rfl, hc, ha⟩ := exists_first_blank hblank
      have hlength : b.length < n := by
        rw [← hn, List.length_append, List.length_cons]
        omega
      rw [words_append_blank hc, List.flatten_append, hword a ha, ih b.length hlength b rfl, solid_append,
        solid_cons_of_blank hc]

theorem not_isBlank_of_mem_words {w : Text} {c : Char} (hw : w ∈ words t) (hc : c ∈ w) : isBlank c = false := by
  have hmem : c ∈ (words t).flatten := List.mem_flatten.mpr ⟨w, hw, hc⟩
  rw [flatten_words] at hmem
  simpa using (List.mem_filter.mp hmem).2

theorem solid_joinWith {separator : Text} (h : ∀ c ∈ separator, isBlank c = true) (ps : List Text) :
    solid (joinWith separator ps) = solid ps.flatten := by
  induction ps with
  | nil => rfl
  | cons p ps ih =>
    by_cases hps : ps = []
    · rw [hps, joinWith_singleton, List.flatten_singleton]
    · rw [joinWith_cons hps, List.flatten_cons, solid_append, solid_append, solid_append, ih, solid_of_all_blank h]
      rfl

theorem solid_squeeze (t : Text) : solid (squeeze t) = solid t := by
  have hspace : ∀ c ∈ [' '], isBlank c = true := List.forall_mem_singleton.mpr rfl
  have hagain : solid (solid t) = solid t := solid_filter (fun c hc => by simpa using hc) t
  unfold squeeze
  rw [solid_joinWith hspace, flatten_words, hagain]

/-- A pair may be replaced by what has the same other characters. -/
theorem solid_replaceAll {x y : Char} {new : Text} (h : solid [x, y] = solid new) (t : Text) :
    solid (replaceAll [x, y] new t) = solid t := by
  induction hn : t.length using Nat.strong_induction_on generalizing t with
  | _ n ih =>
    cases t with
    | nil => rfl
    | cons c t =>
      rw [List.length_cons] at hn
      by_cases hstart : [x, y] <+: c :: t
      · obtain ⟨rest, hrest⟩ := hstart
        have hlength : rest.length < n := by
          have := congrArg List.length hrest
          simp only [List.length_append, List.length_cons] at this
          omega
        rw [← hrest, List.cons_append, List.singleton_append, replaceAll_cons_cons, solid_append,
          ih rest.length hlength rest rfl, ← h, ← solid_append]
        rfl
      · rw [replaceAll_cons_of_mismatch hstart, ← List.singleton_append, solid_append,
          ih t.length (by omega) t rfl, ← solid_append, List.singleton_append]

theorem solid_tighten (t : Text) : solid (tighten t) = solid t := by
  unfold tighten
  rw [solid_replaceAll (by decide), solid_replaceAll (by decide)]

/-- The first character that is no blank. -/
theorem head?_solid (t : Text) : (solid t).head? = (trimStart t).head? := by
  obtain ⟨gap, rest, rfl, hgap, hrest⟩ := exists_leading_blanks t
  have hstart : trimStart (gap ++ rest) = trimStart rest := List.dropWhile_append_of_pos hgap
  rw [solid_append, solid_of_all_blank hgap, List.nil_append, hstart]
  rcases hrest with rfl | ⟨c, rest, rfl, hc⟩
  · rfl
  · rw [solid_cons_of_not_blank hc, trimStart_of_head hc]
    rfl

/-! ## 2. Cut off -/

theorem solid_takeWhile {p : Char → Bool} (h : ∀ c, isBlank c = true → p c = true) (t : Text) :
    solid (t.takeWhile p) = (solid t).takeWhile p := by
  induction t with
  | nil => rfl
  | cons c t ih =>
    cases hb : isBlank c with
    | true =>
      rw [List.takeWhile_cons_of_pos (h c hb), solid_cons_of_blank hb, solid_cons_of_blank hb, ih]
    | false =>
      cases hp : p c with
      | true => rw [List.takeWhile_cons_of_pos hp, solid_cons_of_not_blank hb, solid_cons_of_not_blank hb,
          List.takeWhile_cons_of_pos hp, ih]
      | false =>
        have hneg : ¬p c = true := by
          rw [hp]
          exact Bool.false_ne_true
        rw [List.takeWhile_cons_of_neg hneg, solid_cons_of_not_blank hb, List.takeWhile_cons_of_neg hneg]
        rfl

theorem beforeLast?_solid {c : Char} (hc : isBlank c = false) (t : Text) :
    beforeLast? c (solid t) = (beforeLast? c t).map solid := by
  induction t with
  | nil => rfl
  | cons d t ih =>
    cases hb : isBlank d with
    | true =>
      have hdc : d ≠ c := by
        rintro rfl
        rw [hc] at hb
        cases hb
      rw [solid_cons_of_blank hb, ih, beforeLast?]
      cases beforeLast? c t with
      | none => simp [hdc]
      | some before => exact congrArg some (solid_cons_of_blank hb before).symm
    | false =>
      rw [solid_cons_of_not_blank hb, beforeLast?, ih, beforeLast?]
      cases beforeLast? c t with
      | none => by_cases hdc : d = c <;> simp [hdc, solid]
      | some before => exact congrArg some (solid_cons_of_not_blank hb before).symm

end Solid

end Ambient.Text
