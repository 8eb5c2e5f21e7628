import Ambient.Text.Basic

/-!
# Where a text is cut

`Text.cut?` finds the first place of a word in a text. Four facts locate it:

* `eq_of_cut?`: the pieces and the word make up the text;
* `cut?_append`: a beginning in which the word starts nowhere, whatever follows, is passed over. Whether it
  does is computed by `startsNowhere`;
* `cut?_append_right`: once the word is found, nothing that follows the text moves it;
* `cut?_eq_none`: a word whose first character does not occur is not found.

`beforeLast?` is empty only where the first character is the only one of its kind (`beforeLast?_getD_eq_nil_iff`).
-/

namespace Ambient.Text

/-! ## 1. Beginnings -/

theorem isPrefixOf?_cons (c d : Char) (w t : Text) :
    (c :: w).isPrefixOf? (d :: t) = if c == d then w.isPrefixOf? t else none := rfl

theorem eq_of_isPrefixOf? : ∀ {w t rest : Text}, w.isPrefixOf? t = some rest → t = w ++ rest
  | [], [], _, h => by
      cases h
      rfl
  | [], _ :: _, _, h => by
      cases h
      rfl
  | _ :: _, [], _, h => by cases h
  | c :: w, d :: t, rest, h => by
      rw [isPrefixOf?_cons] at h
      split at h
      · rename_i hcd
        rw [beq_iff_eq.mp hcd, eq_of_isPrefixOf? h]
        rfl
      · cases h

theorem isPrefixOf?_append : ∀ (w rest : Text), w.isPrefixOf? (w ++ rest) = some rest
  | [], rest => by cases rest <;> rfl
  | c :: w, rest => by
      rw [List.cons_append, isPrefixOf?_cons, beq_self_eq_true, if_pos rfl]
      exact isPrefixOf?_append w rest

/-- Do the two texts differ at a place that both have? -/
def clashes : Text → Text → Bool
  | c :: w, d :: t => c != d || clashes w t
  | _, _ => false

/-- A word that clashes with a beginning does not stand there. -/
theorem isPrefixOf?_of_clashes : ∀ {w a : Text}, clashes w a = true → ∀ b, w.isPrefixOf? (a ++ b) = none
  | [], _, h, _ => by simp [clashes] at h
  | _ :: _, [], h, _ => by simp [clashes] at h
  | c :: w, d :: a, h, b => by
      unfold clashes at h
      rw [List.cons_append, isPrefixOf?_cons]
      by_cases hcd : c = d
      · subst hcd
        rw [beq_self_eq_true, if_pos rfl]
        exact isPrefixOf?_of_clashes (by simpa using h) b
      · rw [beq_eq_false_iff_ne.mpr hcd, if_neg Bool.false_ne_true]

/-! ## 2. The first place of a word -/

theorem cut?_cons_of_none {w t : Text} {c : Char} (h : w.isPrefixOf? (c :: t) = none) :
    cut? w (c :: t) = (cut? w t).map fun p => (c :: p.1, p.2) := by
  rw [cut?, h]

theorem cut?_cons_of_some {w t rest : Text} {c : Char} (h : w.isPrefixOf? (c :: t) = some rest) :
    cut? w (c :: t) = some ([], rest) := by
  rw [cut?, h]

theorem eq_of_cut? {w : Text} : ∀ {t before behind : Text}, cut? w t = some (before, behind) →
    t = before ++ w ++ behind
  | [], before, behind, h => by
      unfold cut? at h
      split at h
      · rename_i hw
        cases h
        rw [List.isEmpty_iff.mp hw]
        rfl
      · cases h
  | c :: t, before, behind, h => by
      cases hw : w.isPrefixOf? (c :: t) with
      | some rest =>
        rw [cut?_cons_of_some hw] at h
        cases h
        exact eq_of_isPrefixOf? hw
      | none =>
        rw [cut?_cons_of_none hw] at h
        obtain ⟨p, hp, e⟩ := Option.map_eq_some_iff.mp h
        cases e
        rw [eq_of_cut? hp]
        rfl

/-- Does no place of `w` start in the text, whatever follows it? -/
def startsNowhere (w : Text) : Text → Bool
  | [] => true
  | c :: t => clashes w (c :: t) && startsNowhere w t

/-- **A beginning in which the word starts nowhere is passed over.** -/
theorem cut?_append {w : Text} : ∀ {a : Text}, startsNowhere w a = true → ∀ b,
    cut? w (a ++ b) = (cut? w b).map fun p => (a ++ p.1, p.2)
  | [], _, b => by
      rw [List.nil_append]
      cases cut? w b <;> rfl
  | c :: a, h, b => by
      unfold startsNowhere at h
      rw [Bool.and_eq_true] at h
      have hno := isPrefixOf?_of_clashes h.1 b
      rw [List.cons_append] at hno ⊢
      rw [cut?_cons_of_none hno, cut?_append h.2 b, Option.map_map]
      rfl

theorem cut?_self {w : Text} (hw : w ≠ []) (rest : Text) : cut? w (w ++ rest) = some ([], rest) := by
  cases w with
  | nil => exact absurd rfl hw
  | cons c w =>
    exact cut?_cons_of_some (isPrefixOf?_append (c :: w) rest)

/-- The word behind such a beginning is found at once. -/
theorem cut?_append_self {w a : Text} (hw : w ≠ []) (h : startsNowhere w a = true) (rest : Text) :
    cut? w (a ++ (w ++ rest)) = some (a, rest) := by
  rw [cut?_append h, cut?_self hw]
  simp

/-- A word starts nowhere in a text without its first character. -/
theorem startsNowhere_of_not_mem {c : Char} {w t : Text} (h : c ∉ t) : startsNowhere (c :: w) t = true := by
  induction t with
  | nil => rfl
  | cons d t ih =>
    have hcd : c ≠ d := fun e => h (e ▸ List.mem_cons_self)
    unfold startsNowhere clashes
    rw [ih fun hm => h (List.mem_cons_of_mem _ hm), bne_iff_ne.mpr hcd]
    rfl

theorem cut?_eq_none {c : Char} {w t : Text} (h : c ∉ t) : cut? (c :: w) t = none := by
  have := cut?_append (startsNowhere_of_not_mem h) ([] : Text) (w := c :: w)
  rw [List.append_nil] at this
  rw [this]
  rfl

/-- **The first place of a character.** -/
theorem cut?_singleton_iff {c : Char} {t a b : Text} : cut? [c] t = some (a, b) ↔ t = a ++ c :: b ∧ c ∉ a := by
  constructor
  · intro h
    by_cases hc : c ∈ t
    · obtain ⟨a', b', rfl, hno⟩ := List.eq_append_cons_of_mem hc
      have hfirst : cut? [c] (a' ++ c :: b') = some (a', b') :=
        cut?_append_self (List.cons_ne_nil _ _) (startsNowhere_of_not_mem hno) b'
      rw [hfirst] at h
      obtain ⟨rfl, rfl⟩ := Prod.mk.inj (Option.some.inj h)
      exact ⟨rfl, hno⟩
    · rw [cut?_eq_none hc] at h
      cases h
  · rintro ⟨rfl, hno⟩
    exact cut?_append_self (List.cons_ne_nil _ _) (startsNowhere_of_not_mem hno) b

/-- A character has one first place. -/
theorem append_cons_inj {c : Char} {a a' b b' : Text} (ha : c ∉ a) (ha' : c ∉ a') (h : a ++ c :: b = a' ++ c :: b') :
    a = a' ∧ b = b' := by
  have hcut : cut? [c] (a ++ c :: b) = some (a, b) := cut?_singleton_iff.mpr ⟨rfl, ha⟩
  rw [cut?_singleton_iff.mpr ⟨h, ha'⟩] at hcut
  obtain ⟨rfl, rfl⟩ := Prod.mk.inj (Option.some.inj hcut)
  exact ⟨rfl, rfl⟩

/-- A word that stands nowhere is not found. -/
theorem cut?_eq_none_of_not_infix {w t : Text} (h : ¬w <:+: t) : cut? w t = none := by
  cases hcut : cut? w t with
  | none => rfl
  | some cut => exact absurd ⟨cut.1, cut.2, (eq_of_cut? hcut).symm⟩ h

/-- **What is found is found whatever follows.** -/
theorem cut?_append_right {w : Text} : ∀ {t before behind : Text}, cut? w t = some (before, behind) →
    ∀ z, cut? w (t ++ z) = some (before, behind ++ z)
  | [], before, behind, h, z => by
      unfold cut? at h
      split at h
      · rename_i hw
        cases h
        rw [List.isEmpty_iff.mp hw]
        cases z <;> rfl
      · cases h
  | c :: t, before, behind, h, z => by
      cases hw : w.isPrefixOf? (c :: t) with
      | some rest =>
        rw [cut?_cons_of_some hw] at h
        cases h
        have hstart : w.isPrefixOf? (c :: (t ++ z)) = some (behind ++ z) := by
          rw [← List.cons_append, eq_of_isPrefixOf? hw, List.append_assoc]
          exact isPrefixOf?_append w _
        exact cut?_cons_of_some hstart
      | none =>
        rw [cut?_cons_of_none hw] at h
        obtain ⟨p, hp, e⟩ := Option.map_eq_some_iff.mp h
        cases e
        -- the word is found later, so it is not too long to be compared with what stands here
        have hno : w.isPrefixOf? (c :: (t ++ z)) = none := by
          rw [Option.eq_none_iff_forall_ne_some]
          intro rest hrest
          have hprefix : w <+: (c :: t) ++ z := ⟨rest, (eq_of_isPrefixOf? hrest).symm⟩
          have hlength : w.length ≤ (c :: t).length := by
            rw [List.length_cons, eq_of_cut? hp, List.length_append, List.length_append]
            omega
          obtain ⟨rest', hrest'⟩ := List.prefix_of_prefix_length_le hprefix (List.prefix_append _ z) hlength
          rw [← hrest', isPrefixOf?_append] at hw
          cases hw
        rw [List.cons_append, cut?_cons_of_none hno, cut?_append_right hp z]
        rfl

/-- A word that stands somewhere is found. -/
theorem exists_cut? {w : Text} (hw : w ≠ []) (a b : Text) : ∃ before behind, cut? w (a ++ (w ++ b)) =
    some (before, behind) := by
  induction a with
  | nil => exact ⟨[], b, cut?_self hw b⟩
  | cons c a ih =>
    obtain ⟨before, behind, h⟩ := ih
    cases hstart : w.isPrefixOf? (c :: (a ++ (w ++ b))) with
    | some rest => exact ⟨[], rest, cut?_cons_of_some hstart⟩
    | none =>
      refine ⟨c :: before, behind, ?_⟩
      rw [List.cons_append, cut?_cons_of_none hstart, h]
      rfl

/-- What a word is followed by is there behind its first occurrence. -/
theorem suffix_of_cut? {w : Text} (hw : w ≠ []) {a b before behind : Text}
    (h : cut? w (a ++ (w ++ b)) = some (before, behind)) : b <:+ behind := by
  induction a generalizing before with
  | nil =>
    rw [List.nil_append, cut?_self hw] at h
    cases h
    exact List.suffix_rfl
  | cons c a ih =>
    rw [List.cons_append] at h
    cases hstart : w.isPrefixOf? (c :: (a ++ (w ++ b))) with
    | none =>
      rw [cut?_cons_of_none hstart] at h
      obtain ⟨p, hp, e⟩ := Option.map_eq_some_iff.mp h
      cases e
      exact ih hp
    | some rest =>
      rw [cut?_cons_of_some hstart] at h
      cases h
      have heq := eq_of_isPrefixOf? hstart
      have hlength := congrArg List.length heq
      simp only [List.length_cons, List.length_append] at hlength
      have hrest : behind <:+ c :: (a ++ (w ++ b)) := ⟨w, heq.symm⟩
      have hb : b <:+ c :: (a ++ (w ++ b)) := ⟨c :: a ++ w, by simp⟩
      exact List.suffix_of_suffix_length_le hb hrest (by omega)

/-! ## 3. Up to a character -/

/-- Characters with a property are taken up to the first that lacks it. -/
theorem takeWhile_append_cons (p : Char → Bool) {a : Text} {c : Char} (ha : ∀ d ∈ a, p d = true)
    (hc : p c = false) (b : Text) : (a ++ c :: b).takeWhile p = a := by
  rw [List.takeWhile_append_of_pos ha, List.takeWhile_cons, hc, if_neg Bool.false_ne_true, List.append_nil]

/-- The last character is the last of its kind. -/
theorem beforeLast?_concat (c : Char) (t : Text) : beforeLast? c (t ++ [c]) = some t := by
  induction t with
  | nil =>
    unfold beforeLast? beforeLast?
    exact if_pos rfl
  | cons d t ih => rw [List.cons_append, beforeLast?, ih]

/-- A beginning without the character is kept. -/
theorem beforeLast?_append {c : Char} {a : Text} (h : c ∉ a) (b : Text) :
    beforeLast? c (a ++ b) = (beforeLast? c b).map (a ++ ·) := by
  induction a with
  | nil =>
    rw [List.nil_append]
    cases beforeLast? c b <;> rfl
  | cons d a ih =>
    obtain ⟨hd, ha⟩ := List.ne_and_not_mem_of_not_mem_cons h
    rw [List.cons_append, beforeLast?, ih ha]
    cases beforeLast? c b with
    | none => exact if_neg hd.symm
    | some before => rfl

theorem beforeLast?_eq_none_iff {c : Char} {t : Text} : beforeLast? c t = none ↔ c ∉ t := by
  induction t with
  | nil => exact iff_of_true rfl List.not_mem_nil
  | cons d t ih =>
    rw [beforeLast?, List.mem_cons, not_or, ← ih]
    cases beforeLast? c t with
    | some before => exact iff_of_false (Option.some_ne_none _) fun h => Option.some_ne_none _ h.2
    | none =>
      by_cases hdc : d = c
      · simp [hdc]
      · simp [hdc, Ne.symm hdc]

/-- Nothing stands before the last of its kind where it is the first and only one. -/
theorem beforeLast?_getD_eq_nil_iff {c : Char} {t : Text} (hne : t ≠ []) :
    (beforeLast? c t).getD t = [] ↔ t.head? = some c ∧ t.count c = 1 := by
  obtain ⟨d, t, rfl⟩ := List.exists_cons_of_ne_nil hne
  rw [beforeLast?, List.head?_cons, Option.some.injEq]
  cases hb : beforeLast? c t with
  | some before =>
    refine iff_of_false (List.cons_ne_nil d before) fun h => ?_
    have hmem : c ∈ t := Decidable.byContradiction fun hno => by
      rw [beforeLast?_eq_none_iff.mpr hno] at hb
      cases hb
    have hcount := List.count_pos_iff.mpr hmem
    rw [h.1, List.count_cons_self] at h
    omega
  | none =>
    have hcount := List.count_eq_zero.mpr (beforeLast?_eq_none_iff.mp hb)
    by_cases hdc : d = c
    · rw [if_pos hdc, hdc, List.count_cons_self, hcount]
      exact iff_of_true rfl ⟨rfl, rfl⟩
    · rw [if_neg hdc]
      exact iff_of_false (List.cons_ne_nil d t) fun h => hdc h.1

theorem prefix_of_beforeLast? {c : Char} {t before : Text} (h : beforeLast? c t = some before) : before <+: t := by
  induction t generalizing before with
  | nil => cases h
  | cons d t ih =>
    rw [beforeLast?] at h
    cases hb : beforeLast? c t with
    | some rest =>
      rw [hb] at h
      cases h
      exact List.cons_prefix_cons.mpr ⟨rfl, ih hb⟩
    | none =>
      rw [hb] at h
      dsimp only at h
      split at h
      · cases h
        exact List.nil_prefix
      · cases h

end Ambient.Text
