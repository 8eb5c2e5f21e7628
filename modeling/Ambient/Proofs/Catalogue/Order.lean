import Ambient.Catalogue

/-!
# The order of the catalogue

Texts and file keys are totally ordered, and so are the entries of a catalogue as long as no two of them
share file and place:

* `Text.le_total`, `Text.le_trans`, `Text.le_antisymm`, and the same for `FileKey`;
* `Entry.le_total`, `Entry.le_trans`, and `Entry.le_antisymm`, which ends in the same id, file and place;
* `FileKey.sort_perm`: the sorted list of keys does not depend on the order in which they came.
-/

namespace Ambient

/-! ## 1. Texts -/

namespace Text

/-- Equal characters are passed over, and the first other one decides. -/
theorem le_cons_iff {c d : Char} {a b : Text} :
    le (c :: a) (d :: b) = true ↔ c.toNat < d.toNat ∨ (c = d ∧ le a b = true) := by
  rw [le]
  by_cases h : c = d
  · subst h
    simp
  · simp [h]

theorem le_trans : ∀ {a b c : Text}, le a b = true → le b c = true → le a c = true
  | [], _, _, _, _ => rfl
  | _ :: _, [], _, h₁, _ => by cases h₁
  | _ :: _, _ :: _, [], _, h₂ => by cases h₂
  | x :: a, y :: b, z :: c, h₁, h₂ => by
      rw [le_cons_iff] at h₁ h₂ ⊢
      rcases h₁ with h₁ | ⟨rfl, h₁⟩
      · rcases h₂ with h₂ | ⟨rfl, _⟩
        · exact Or.inl (Nat.lt_trans h₁ h₂)
        · exact Or.inl h₁
      · rcases h₂ with h₂ | ⟨rfl, h₂⟩
        · exact Or.inl h₂
        · exact Or.inr ⟨rfl, le_trans h₁ h₂⟩

theorem le_total : ∀ a b : Text, le a b = true ∨ le b a = true
  | [], _ => Or.inl rfl
  | _ :: _, [] => Or.inr rfl
  | c :: a, d :: b => by
      rw [le_cons_iff, le_cons_iff]
      rcases Nat.lt_trichotomy c.toNat d.toNat with h | h | h
      · exact Or.inl (Or.inl h)
      · have hcd : c = d := Char.toNat_inj.mp h
        exact (le_total a b).imp (fun h => Or.inr ⟨hcd, h⟩) (fun h => Or.inr ⟨hcd.symm, h⟩)
      · exact Or.inr (Or.inl h)

theorem le_refl (a : Text) : le a a = true := (le_total a a).elim id id

theorem le_antisymm : ∀ {a b : Text}, le a b = true → le b a = true → a = b
  | [], [], _, _ => rfl
  | [], _ :: _, _, h₂ => by cases h₂
  | _ :: _, [], h₁, _ => by cases h₁
  | c :: a, d :: b, h₁, h₂ => by
      rw [le_cons_iff] at h₁ h₂
      rcases h₁ with h₁ | ⟨rfl, h₁⟩
      · rcases h₂ with h₂ | ⟨rfl, _⟩
        · omega
        · omega
      · rcases h₂ with h₂ | ⟨_, h₂⟩
        · omega
        · rw [le_antisymm h₁ h₂]

theorem le_append_left (w a b : Text) : le (w ++ a) (w ++ b) = le a b := by
  induction w with
  | nil => rfl
  | cons c w ih => simp [le, ih]

theorem le_cons_of_lt {c d : Char} (h : d.toNat < c.toNat) (a b : Text) : le (c :: a) (d :: b) = false := by
  have hne : c ≠ d := by
    rintro rfl
    omega
  simp [le, hne]
  omega

end Text

/-! ## 2. File keys -/

namespace FileKey

theorem le_trans {a b c : FileKey} (h₁ : le a b = true) (h₂ : le b c = true) : le a c = true :=
  Text.le_trans h₁ h₂

theorem le_total (a b : FileKey) : le a b = true ∨ le b a = true := Text.le_total a.text b.text

theorem eq_of_text {a b : FileKey} (h : a.text = b.text) : a = b := by
  cases a
  cases b
  rw [FileKey.mk.injEq]
  exact h

theorem le_antisymm {a b : FileKey} (h₁ : le a b = true) (h₂ : le b a = true) : a = b :=
  eq_of_text (Text.le_antisymm h₁ h₂)

/-- Strictly before: not after, and not the same. -/
theorem le_eq_false_iff {a b : FileKey} : le b a = false ↔ le a b = true ∧ a ≠ b := by
  constructor
  · intro h
    refine ⟨(le_total a b).resolve_right (ne_true_of_eq_false h), ?_⟩
    rintro rfl
    exact ne_true_of_eq_false h ((le_total a a).elim id id)
  · rintro ⟨hle, hne⟩
    exact eq_false_of_ne_true fun h => hne (le_antisymm hle h)

theorem sort_pairwise (keys : List FileKey) : (sort keys).Pairwise fun a b => le a b = true :=
  @List.pairwise_mergeSort _ le (fun _ _ _ => le_trans)
    (fun a b => Bool.or_eq_true_iff.mpr (le_total a b)) keys

/-- The sorted list depends on the keys only, not on the order in which they came. -/
theorem sort_perm {keys₁ keys₂ : List FileKey} (h : keys₁.Perm keys₂) : sort keys₁ = sort keys₂ := by
  refine List.Perm.eq_of_pairwise ?_ (sort_pairwise keys₁) (sort_pairwise keys₂) ?_
  · intro a b _ _ hab hba
    exact le_antisymm hab hba
  · exact (List.mergeSort_perm keys₁ le).trans (h.trans (List.mergeSort_perm keys₂ le).symm)

end FileKey

/-! ## 3. Entries -/

namespace Entry

/-- The order of entries, clause by clause. -/
theorem le_iff (a b : Entry) :
    le a b = true ↔
      (Text.le a.declaration.id b.declaration.id = true ∧ a.declaration.id ≠ b.declaration.id) ∨
      (a.declaration.id = b.declaration.id ∧ FileKey.le a.file b.file = true ∧ a.file ≠ b.file) ∨
      (a.declaration.id = b.declaration.id ∧ a.file = b.file ∧ a.ordinal ≤ b.ordinal) := by
  unfold le
  by_cases hid : a.declaration.id = b.declaration.id
  · by_cases hfile : a.file = b.file
    · simp [hid, hfile]
    · simp [hid, hfile]
  · simp [hid]

theorem le_total (a b : Entry) : le a b = true ∨ le b a = true := by
  rw [le_iff, le_iff]
  by_cases hid : a.declaration.id = b.declaration.id
  · by_cases hfile : a.file = b.file
    · rcases Nat.le_total a.ordinal b.ordinal with h | h
      · exact Or.inl (Or.inr (Or.inr ⟨hid, hfile, h⟩))
      · exact Or.inr (Or.inr (Or.inr ⟨hid.symm, hfile.symm, h⟩))
    · rcases FileKey.le_total a.file b.file with h | h
      · exact Or.inl (Or.inr (Or.inl ⟨hid, h, hfile⟩))
      · exact Or.inr (Or.inr (Or.inl ⟨hid.symm, h, fun e => hfile e.symm⟩))
  · rcases Text.le_total a.declaration.id b.declaration.id with h | h
    · exact Or.inl (Or.inl ⟨h, hid⟩)
    · exact Or.inr (Or.inl ⟨h, fun e => hid e.symm⟩)

theorem le_trans {a b c : Entry} (hab : le a b = true) (hbc : le b c = true) : le a c = true := by
  rw [le_iff] at hab hbc ⊢
  rcases hab with ⟨h₁, hne⟩ | ⟨e₁, h₁, hne⟩ | ⟨e₁, f₁, h₁⟩
  · rcases hbc with ⟨h₂, _⟩ | ⟨e₂, _⟩ | ⟨e₂, _⟩
    · refine Or.inl ⟨Text.le_trans h₁ h₂, fun e => hne (Text.le_antisymm h₁ ?_)⟩
      rw [e]
      exact h₂
    · exact Or.inl ⟨e₂ ▸ h₁, e₂ ▸ hne⟩
    · exact Or.inl ⟨e₂ ▸ h₁, e₂ ▸ hne⟩
  · rcases hbc with ⟨h₂, hne₂⟩ | ⟨e₂, h₂, _⟩ | ⟨e₂, f₂, _⟩
    · exact Or.inl ⟨e₁ ▸ h₂, e₁ ▸ hne₂⟩
    · refine Or.inr (Or.inl ⟨e₁.trans e₂, FileKey.le_trans h₁ h₂, fun e => hne (FileKey.le_antisymm h₁ ?_)⟩)
      rw [e]
      exact h₂
    · exact Or.inr (Or.inl ⟨e₁.trans e₂, f₂ ▸ h₁, f₂ ▸ hne⟩)
  · rcases hbc with ⟨h₂, hne₂⟩ | ⟨e₂, h₂, hne₂⟩ | ⟨e₂, f₂, h₂⟩
    · exact Or.inl ⟨e₁ ▸ h₂, e₁ ▸ hne₂⟩
    · exact Or.inr (Or.inl ⟨e₁.trans e₂, f₁ ▸ h₂, f₁ ▸ hne₂⟩)
    · exact Or.inr (Or.inr ⟨e₁.trans e₂, f₁.trans f₂, Nat.le_trans h₁ h₂⟩)

/-- Entries that stand on either side of each other agree in all three keys of the order. -/
theorem le_antisymm {a b : Entry} (hab : le a b = true) (hba : le b a = true) :
    a.declaration.id = b.declaration.id ∧ a.file = b.file ∧ a.ordinal = b.ordinal := by
  rw [le_iff] at hab hba
  rcases hab with ⟨h₁, hne⟩ | ⟨e₁, h₁, hne⟩ | ⟨e₁, f₁, h₁⟩
  · rcases hba with ⟨h₂, _⟩ | ⟨e₂, _⟩ | ⟨e₂, _⟩
    · exact absurd (Text.le_antisymm h₁ h₂) hne
    · exact absurd e₂.symm hne
    · exact absurd e₂.symm hne
  · rcases hba with ⟨_, hne₂⟩ | ⟨_, h₂, _⟩ | ⟨_, f₂, _⟩
    · exact absurd e₁.symm hne₂
    · exact absurd (FileKey.le_antisymm h₁ h₂) hne
    · exact absurd f₂.symm hne
  · rcases hba with ⟨_, hne₂⟩ | ⟨_, _, hne₂⟩ | ⟨_, _, h₂⟩
    · exact absurd e₁.symm hne₂
    · exact absurd f₁.symm hne₂
    · exact ⟨e₁, f₁, Nat.le_antisymm h₁ h₂⟩

theorem sort_pairwise (entries : List Entry) :
    (entries.mergeSort le).Pairwise fun a b => le a b = true :=
  @List.pairwise_mergeSort _ le (fun _ _ _ => le_trans)
    (fun a b => Bool.or_eq_true_iff.mpr (le_total a b)) entries

/-- The entries of a file are its declarations, each at its place. -/
theorem mem_ofFile {e : Entry} {file : FileKey} {ds : List Declaration} :
    e ∈ ofFile file ds ↔ e.file = file ∧ ds[e.ordinal]? = some e.declaration := by
  unfold ofFile
  rw [List.mem_mapIdx]
  constructor
  · rintro ⟨i, hi, rfl⟩
    exact ⟨rfl, List.getElem?_eq_getElem hi⟩
  · rintro ⟨rfl, h⟩
    obtain ⟨hi, e'⟩ := List.getElem?_eq_some_iff.mp h
    refine ⟨e.ordinal, hi, ?_⟩
    rw [e']

end Entry
end Ambient
