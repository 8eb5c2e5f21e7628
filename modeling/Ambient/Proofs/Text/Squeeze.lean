import Ambient.Proofs.Text.Blank
import Mathlib.Data.List.Infix

/-!
# Joined, rewritten and squeezed texts

Three functions that undo or do the breaking of a text into pieces:

* `joinWith` joins pieces, one by one or in groups (`joinWith_flatMap`);
* `replaceAll` rewrites a pair of characters. What holds no such pair is passed over as it is
  (`replaceAll_append`), and where the pair shrinks to its first character the head stays (`head?_replaceAll`);
* `squeeze` leaves a text alone whose blanks are single spaces between words (`Spaced.squeeze_eq`).
-/

namespace Ambient.Text

/-! ## 1. Joined pieces -/

section Join

variable {separator : Text}

theorem joinWith_singleton (separator p : Text) : joinWith separator [p] = p := List.intercalate_singleton

theorem joinWith_cons_cons (separator p q : Text) (qs : List Text) :
    joinWith separator (p :: q :: qs) = p ++ (separator ++ joinWith separator (q :: qs)) := by
  unfold joinWith
  rw [List.intercalate_cons_cons, List.append_assoc]

theorem joinWith_cons {ps : List Text} (h : ps ≠ []) (separator p : Text) :
    joinWith separator (p :: ps) = p ++ (separator ++ joinWith separator ps) := by
  obtain ⟨q, qs, rfl⟩ := List.exists_cons_of_ne_nil h
  exact joinWith_cons_cons separator p q qs

/-- What the first piece starts with, the whole starts with. -/
theorem joinWith_append_cons (separator a q : Text) (qs : List Text) :
    joinWith separator ((a ++ q) :: qs) = a ++ joinWith separator (q :: qs) := by
  cases qs with
  | nil => rw [joinWith_singleton, joinWith_singleton]
  | cons p qs => rw [joinWith_cons_cons, joinWith_cons_cons, List.append_assoc]

theorem joinWith_append {ps qs : List Text} (hps : ps ≠ []) (hqs : qs ≠ []) :
    joinWith separator (ps ++ qs) = joinWith separator ps ++ (separator ++ joinWith separator qs) := by
  induction ps with
  | nil => exact absurd rfl hps
  | cons p ps ih =>
    by_cases h : ps = []
    · subst h
      rw [List.singleton_append, joinWith_cons hqs, joinWith_singleton]
    · have hne : ps ++ qs ≠ [] := List.append_ne_nil_of_left_ne_nil h qs
      rw [List.cons_append, joinWith_cons hne, ih h, joinWith_cons h, List.append_assoc, List.append_assoc]

theorem mem_joinWith {ps : List Text} {c : Char} (h : c ∈ joinWith separator ps) :
    c ∈ separator ∨ ∃ p ∈ ps, c ∈ p := by
  induction ps with
  | nil => exact absurd h List.not_mem_nil
  | cons p ps ih =>
    by_cases hps : ps = []
    · rw [hps, joinWith_singleton] at h
      exact Or.inr ⟨p, List.mem_cons_self, h⟩
    · rw [joinWith_cons hps, List.mem_append, List.mem_append] at h
      rcases h with h | h | h
      · exact Or.inr ⟨p, List.mem_cons_self, h⟩
      · exact Or.inl h
      · exact (ih h).imp id fun ⟨q, hq, hc⟩ => ⟨q, List.mem_cons_of_mem _ hq, hc⟩

/-- Pieces may be joined in groups first. -/
theorem joinWith_flatMap {f : Text → List Text} {ps : List Text} (h : ∀ p ∈ ps, f p ≠ []) :
    joinWith separator (ps.flatMap f) = joinWith separator (ps.map fun p => joinWith separator (f p)) := by
  induction ps with
  | nil => rfl
  | cons p ps ih =>
    obtain ⟨hp, hps⟩ := List.forall_mem_cons.mp h
    rw [List.flatMap_cons, List.map_cons]
    cases ps with
    | nil => rw [List.flatMap_nil, List.append_nil, List.map_nil, joinWith_singleton]
    | cons q qs =>
      have hne : (q :: qs).flatMap f ≠ [] := by
        rw [List.flatMap_cons]
        exact List.append_ne_nil_of_left_ne_nil (hps q List.mem_cons_self) _
      rw [joinWith_append hp hne, ih hps, List.map_cons, joinWith_cons_cons]

end Join

/-! ## 2. Rewritten pairs -/

theorem mem_replaceFrom {old new t : Text} {c : Char} {n : Nat} (h : c ∈ replaceFrom old new n t) :
    c ∈ t ∨ c ∈ new := by
  induction t generalizing n with
  | nil => cases n <;> exact absurd h List.not_mem_nil
  | cons d t ih =>
    cases n with
    | succ n => exact (ih h).imp_left (List.mem_cons_of_mem d)
    | zero =>
      unfold replaceFrom at h
      split at h
      · exact (List.mem_append.mp h).elim .inr fun h => (ih h).imp_left (List.mem_cons_of_mem d)
      · rcases List.mem_cons.mp h with rfl | h
        · exact .inl List.mem_cons_self
        · exact (ih h).imp_left (List.mem_cons_of_mem d)

section Pair

variable {x y : Char} {new : Text}

theorem replaceAll_cons_cons (rest : Text) :
    replaceAll [x, y] new (x :: y :: rest) = new ++ replaceAll [x, y] new rest := by
  have hstart : [x, y].isPrefixOf (x :: y :: rest) = true :=
    List.isPrefixOf_iff_prefix.mpr (List.prefix_append [x, y] rest)
  unfold replaceAll
  rw [replaceFrom, if_pos hstart]
  rfl

/-- The first character of a pair that does not stand at the start is kept. -/
theorem replaceAll_cons_of_mismatch {c : Char} {t : Text} (h : ¬[x, y] <+: c :: t) :
    replaceAll [x, y] new (c :: t) = c :: replaceAll [x, y] new t := by
  unfold replaceAll
  rw [replaceFrom, if_neg fun hp => h (List.isPrefixOf_iff_prefix.mp hp)]

/-- **What holds no pair, up to the next character, is passed over.** -/
theorem replaceAll_append {a b : Text} (h : ¬[x, y] <:+: a ++ b.take 1) :
    replaceAll [x, y] new (a ++ b) = a ++ replaceAll [x, y] new b := by
  induction a with
  | nil => rfl
  | cons c a ih =>
    have hrest : ¬[x, y] <:+: a ++ b.take 1 := fun hi => h (hi.trans (List.suffix_cons c _).isInfix)
    have hstart : ¬[x, y] <+: c :: (a ++ b) := by
      intro hp
      refine h (List.IsPrefix.isInfix ?_)
      obtain ⟨rest, hrest⟩ := hp
      cases a with
      | nil =>
        cases hrest
        exact ⟨[], rfl⟩
      | cons d a =>
        cases hrest
        exact ⟨a ++ b.take 1, rfl⟩
    rw [List.cons_append, replaceAll_cons_of_mismatch hstart, ih hrest, List.cons_append]

/-- Where the first character of the pair does not occur, no pair starts. -/
theorem replaceAll_append_of_notMem {a : Text} (h : x ∉ a) (b : Text) :
    replaceAll [x, y] new (a ++ b) = a ++ replaceAll [x, y] new b := by
  induction a with
  | nil => rfl
  | cons c a ih =>
    obtain ⟨hc, ha⟩ := List.ne_and_not_mem_of_not_mem_cons h
    have hstart : ¬[x, y] <+: c :: (a ++ b) := fun hp => hc (List.cons_prefix_cons.mp hp).1
    rw [List.cons_append, replaceAll_cons_of_mismatch hstart, ih ha, List.cons_append]

theorem replaceAll_of_absent {t : Text} (h : ¬[x, y] <:+: t) : replaceAll [x, y] new t = t := by
  have hpass : replaceAll [x, y] new (t ++ []) = t ++ replaceAll [x, y] new [] := replaceAll_append (by simpa using h)
  rw [List.append_nil] at hpass
  rw [hpass]
  exact List.append_nil t

theorem head?_replaceAll (t : Text) : (replaceAll [x, y] [x] t).head? = t.head? := by
  cases t with
  | nil => rfl
  | cons c t =>
    by_cases h : [x, y] <+: c :: t
    · obtain ⟨rest, hrest⟩ := h
      rw [← hrest, List.cons_append, List.singleton_append, replaceAll_cons_cons]
      rfl
    · rw [replaceAll_cons_of_mismatch h]
      rfl

end Pair

/-! ## 3. Single spaces -/

/-- **Blanks are single spaces, and stand between words only.** -/
structure Spaced (t : Text) : Prop where
  space : ∀ c ∈ t, isBlank c = true → c = ' '
  single : ¬[' ', ' '] <:+: t
  head : ∀ c ∈ t.head?, isBlank c = false
  last : ∀ c ∈ t.getLast?, isBlank c = false

theorem words_of_no_blank {t : Text} (hne : t ≠ []) (h : ∀ c ∈ t, isBlank c = false) : words t = [t] := by
  have hfull : (!t.isEmpty) = true := by simpa using hne
  unfold words
  rw [List.splitOnP_eq_singleton h, List.filter_singleton, hfull]
  rfl

/-- A text with a blank is cut at the first. -/
theorem exists_first_blank {t : Text} (h : ¬∀ c ∈ t, isBlank c = false) :
    ∃ a c b, t = a ++ c :: b ∧ isBlank c = true ∧ ∀ d ∈ a, isBlank d = false := by
  induction t with
  | nil => exact absurd (fun _ hc => absurd hc List.not_mem_nil) h
  | cons c t ih =>
    cases hc : isBlank c with
    | true => exact ⟨[], c, t, rfl, hc, fun _ hd => absurd hd List.not_mem_nil⟩
    | false =>
      obtain ⟨a, d, b, rfl, hd, ha⟩ := ih fun ht => h (List.forall_mem_cons.mpr ⟨hc, ht⟩)
      exact ⟨c :: a, d, b, rfl, hd, List.forall_mem_cons.mpr ⟨hc, ha⟩⟩

namespace Spaced

variable {t : Text}

/-- What stands behind a space is spaced, and is something. -/
theorem behind {a b : Text} (h : Spaced (a ++ ' ' :: b)) : b ≠ [] ∧ Spaced b := by
  have hsuffix : b <:+ a ++ ' ' :: b := (List.suffix_cons ' ' b).trans (List.suffix_append a _)
  have hne : b ≠ [] := by
    rintro rfl
    exact absurd (h.last ' ' List.getLast?_concat) (by decide)
  refine ⟨hne, fun c hc => h.space c (hsuffix.subset hc), fun hi => h.single (hi.trans hsuffix.isInfix),
    fun c hc => ?_, fun c hc => h.last c ?_⟩
  · obtain ⟨rest, rfl⟩ := List.head?_eq_some_iff.mp hc
    rw [← Bool.not_eq_true]
    intro hblank
    obtain rfl := h.space c (hsuffix.subset List.mem_cons_self) hblank
    exact h.single ⟨a, rest, by simp⟩
  · rw [Option.mem_def, List.getLast?_append, List.getLast?_cons, Option.mem_def.mp hc]
    rfl

theorem words_ne_nil (h : Spaced t) (hne : t ≠ []) : words t ≠ [] := by
  obtain ⟨c, rest, rfl⟩ := List.exists_cons_of_ne_nil hne
  obtain ⟨w, ws, hwords⟩ := words_cons (h.head c rfl) rest
  rw [hwords]
  exact List.cons_ne_nil _ _

/-- **A text with single spaces is its words with spaces between them.** -/
theorem squeeze_eq (h : Spaced t) : squeeze t = t := by
  induction hn : t.length using Nat.strong_induction_on generalizing t with
  | _ n ih =>
    by_cases hblank : ∀ c ∈ t, isBlank c = false
    · by_cases hne : t = []
      · subst hne
        rfl
      · unfold squeeze
        rw [words_of_no_blank hne hblank, joinWith_singleton]
    · obtain ⟨a, c, b, rfl, hc, ha⟩ := exists_first_blank hblank
      obtain rfl := h.space c (List.mem_append_right _ List.mem_cons_self) hc
      have hane : a ≠ [] := by
        rintro rfl
        exact absurd (h.head ' ' rfl) (by decide)
      obtain ⟨hbne, hb⟩ := h.behind
      have hlength : b.length < n := by
        rw [← hn, List.length_append, List.length_cons]
        omega
      have hsqueeze : squeeze b = b := ih b.length hlength hb rfl
      unfold squeeze at hsqueeze ⊢
      rw [words_append_blank (by decide), words_of_no_blank hane ha, List.singleton_append,
        joinWith_cons (hb.words_ne_nil hbne), hsqueeze]
      rfl

end Spaced

end Ambient.Text
