import Ambient.Discovery.Basic
import Ambient.Proofs.Catalogue.Order
import Ambient.Proofs.Text.Squeeze

/-!
# Two orders of paths

A discovery orders its files by the names on their paths, and keys are ordered as texts. Two paths CROSS if the first
one comes first by names and last as a text. That is so where a directory of the one has a name that goes on, in the
other, with a character before the slash: `a/b` and `a-b`. `le_pathOfNames` says that there is no other way.

A key is the path with slashes for backslashes. So where a name holds a backslash, the key is the path of other names
too, and these come first (`namesLe_of_keyOf`).
-/

namespace Ambient.Discovery

/-! ## 1. By names -/

/-- Equal names are passed over, and the first other one decides. -/
theorem namesLe_cons_iff {a b : Text} {as bs : List Text} :
    namesLe (a :: as) (b :: bs) = true ↔ (a ≠ b ∧ Text.le a b = true) ∨ (a = b ∧ namesLe as bs = true) := by
  rw [namesLe]
  by_cases h : a = b
  · rw [if_pos h]
    exact ⟨fun hle => .inr ⟨h, hle⟩, fun hle => hle.elim (fun hle => absurd h hle.1) And.right⟩
  · rw [if_neg h]
    exact ⟨fun hle => .inl ⟨h, hle⟩, fun hle => hle.elim And.right (fun hle => absurd hle.1 h)⟩

theorem namesLe_trans : ∀ {x y z : List Text}, namesLe x y = true → namesLe y z = true → namesLe x z = true
  | [], _, _, _, _ => rfl
  | _ :: _, [], _, h₁, _ => by cases h₁
  | _ :: _, _ :: _, [], _, h₂ => by cases h₂
  | a :: x, b :: y, c :: z, h₁, h₂ => by
      rw [namesLe_cons_iff] at h₁ h₂ ⊢
      rcases h₁ with ⟨hne, h₁⟩ | ⟨rfl, h₁⟩
      · rcases h₂ with ⟨-, h₂⟩ | ⟨rfl, -⟩
        · refine .inl ⟨?_, Text.le_trans h₁ h₂⟩
          rintro rfl
          exact hne (Text.le_antisymm h₁ h₂)
        · exact .inl ⟨hne, h₁⟩
      · rcases h₂ with h₂ | ⟨rfl, h₂⟩
        · exact .inl h₂
        · exact .inr ⟨rfl, namesLe_trans h₁ h₂⟩

theorem namesLe_total : ∀ x y : List Text, namesLe x y = true ∨ namesLe y x = true
  | [], _ => .inl rfl
  | _ :: _, [] => .inr rfl
  | a :: x, b :: y => by
      rw [namesLe_cons_iff, namesLe_cons_iff]
      by_cases hab : a = b
      · exact (namesLe_total x y).imp (fun h => .inr ⟨hab, h⟩) (fun h => .inr ⟨hab.symm, h⟩)
      · exact (Text.le_total a b).imp (fun h => .inl ⟨hab, h⟩) (fun h => .inl ⟨Ne.symm hab, h⟩)

theorem namesLe_antisymm : ∀ {x y : List Text}, namesLe x y = true → namesLe y x = true → x = y
  | [], [], _, _ => rfl
  | [], _ :: _, _, h₂ => by cases h₂
  | _ :: _, [], h₁, _ => by cases h₁
  | a :: x, b :: y, h₁, h₂ => by
      rw [namesLe_cons_iff] at h₁ h₂
      rcases h₁ with ⟨hne, h₁⟩ | ⟨rfl, h₁⟩
      · rcases h₂ with ⟨-, h₂⟩ | ⟨rfl, -⟩
        · exact absurd (Text.le_antisymm h₁ h₂) hne
        · exact absurd rfl hne
      · rcases h₂ with ⟨hne, -⟩ | ⟨-, h₂⟩
        · exact absurd rfl hne
        · rw [namesLe_antisymm h₁ h₂]

/-! ## 2. As texts -/

/-- What stands in a path behind a name. -/
def behind : List Text → Text
  | [] => []
  | name :: names => '/' :: pathOfNames (name :: names)

theorem pathOfNames_cons (name : Text) (names : List Text) :
    pathOfNames (name :: names) = name ++ behind names := by
  unfold pathOfNames
  cases names with
  | nil =>
    rw [Text.joinWith_singleton]
    exact (List.append_nil name).symm
  | cons next names => exact Text.joinWith_cons_cons _ _ _ _

/-- Does the second name go on from the first, with a character before the slash? -/
def goesOnBelow : Text → Text → Bool
  | [], c :: _ => decide (c.toNat < '/'.toNat)
  | c :: a, d :: b => c == d && goesOnBelow a b
  | _, [] => false

/-- **Where the paths part, the first is in a directory whose name goes on below the slash in the second.** -/
def crosses : List Text → List Text → Bool
  | a :: as, b :: bs => if a = b then crosses as bs else !as.isEmpty && goesOnBelow a b
  | _, _ => false

/-- Names that differ decide, or the one goes on from the other. -/
theorem le_append_behind {a b : Text} (hb : '/' ∉ b) (hne : a ≠ b) (hle : Text.le a b = true) (as bs : List Text) :
    Text.le (b ++ behind bs) (a ++ behind as) = (!as.isEmpty && goesOnBelow a b) := by
  induction a generalizing b with
  | nil =>
    cases b with
    | nil => exact absurd rfl hne
    | cons c b =>
      have hc : c ≠ '/' := fun h => hb (h ▸ List.mem_cons_self)
      cases as with
      | nil => rfl
      | cons name as =>
        show Text.le (c :: (b ++ behind bs)) ('/' :: pathOfNames (name :: as)) = decide (c.toNat < '/'.toNat)
        rw [Text.le, if_neg hc]
  | cons c a ih =>
    cases b with
    | nil => cases hle
    | cons d b =>
      rw [List.mem_cons, not_or] at hb
      rw [List.cons_append, List.cons_append, goesOnBelow]
      rcases Text.le_cons_iff.mp hle with hlt | ⟨rfl, hrest⟩
      · have hcd : (c == d) = false := by
          rw [beq_eq_false_iff_ne]
          rintro rfl
          exact Nat.lt_irrefl _ hlt
        rw [Text.le_cons_of_lt hlt, hcd, Bool.false_and, Bool.and_false]
      · have hne : a ≠ b := fun h => hne (congrArg (c :: ·) h)
        rw [Text.le, if_pos rfl, beq_self_eq_true, Bool.true_and]
        exact ih hb.2 hne hrest

/-- **Of two paths the one that is first by names is last as a text if and only if they cross.** -/
theorem le_pathOfNames {x y : List Text} (hy : ∀ name ∈ y, name ≠ [] ∧ '/' ∉ name) (hle : namesLe x y = true)
    (hne : x ≠ y) : Text.le (pathOfNames y) (pathOfNames x) = crosses x y := by
  induction x generalizing y with
  | nil =>
    cases y with
    | nil => exact absurd rfl hne
    | cons b bs =>
      obtain ⟨c, name, rfl⟩ := List.exists_cons_of_ne_nil (hy b List.mem_cons_self).1
      rw [pathOfNames_cons]
      rfl
  | cons a as ih =>
    cases y with
    | nil => cases hle
    | cons b bs =>
      obtain ⟨hb, hbs⟩ := List.forall_mem_cons.mp hy
      rw [pathOfNames_cons, pathOfNames_cons, crosses]
      rcases namesLe_cons_iff.mp hle with ⟨hab, hlt⟩ | ⟨rfl, hrest⟩
      · rw [if_neg hab]
        exact le_append_behind hb.2 hab hlt as bs
      · have hne : as ≠ bs := fun h => hne (congrArg (a :: ·) h)
        rw [if_pos rfl, Text.le_append_left]
        cases as with
        | nil =>
          cases bs with
          | nil => exact absurd rfl hne
          | cons _ _ => rfl
        | cons name as =>
          cases bs with
          | nil => cases hrest
          | cons next bs =>
            rw [behind, behind, Text.le, if_pos rfl]
            exact ih hbs hrest hne

/-! ## 3. As keys -/

/-- The key of a path. -/
def keyOf (names : List Text) : FileKey := FileKey.ofPath (pathOfNames names)

/-- Without backslashes the key is the path. -/
theorem keyOf_text {names : List Text} (h : '\\' ∉ pathOfNames names) : (keyOf names).text = pathOfNames names := by
  refine (List.map_congr_left fun c hc => ?_).trans (List.map_id _)
  exact if_neg fun (he : c = '\\') => h (he ▸ hc)

theorem not_mem_keyOf (names : List Text) : '\\' ∉ (keyOf names).text := by
  intro hmem
  obtain ⟨c, -, hc⟩ := List.mem_map.mp hmem
  split at hc
  · cases hc
  · rename_i hne
    exact hne hc

/-- A name of the other path is the name of the one, or goes up to a backslash of it. -/
theorem name_of_keyOf {a b : Text} (ha : '/' ∉ a) (hb : '/' ∉ b) {as bs : List Text}
    (h : b ++ behind bs = (a ++ behind as).map fun c => if c = '\\' then '/' else c) :
    (b = a ∧ behind bs = (behind as).map fun c => if c = '\\' then '/' else c) ∨ (b ≠ a ∧ b <+: a) := by
  induction a generalizing b with
  | nil =>
    refine .inl ?_
    cases b with
    | nil => exact ⟨rfl, h⟩
    | cons d b =>
      cases as with
      | nil => cases h
      | cons name as =>
        have hd : d = '/' := (List.cons.inj h).1
        exact absurd (hd ▸ List.mem_cons_self) hb
  | cons c a ih =>
    rw [List.mem_cons, not_or] at ha
    rw [List.cons_append, List.map_cons] at h
    cases b with
    | nil => exact .inr ⟨(List.cons_ne_nil c a).symm, List.nil_prefix⟩
    | cons d b =>
      rw [List.mem_cons, not_or] at hb
      obtain ⟨hd, hrest⟩ := List.cons.inj h
      have hc : c ≠ '\\' := fun hc => hb.1 ((hd.trans (if_pos hc)).symm)
      obtain rfl : d = c := hd.trans (if_neg hc)
      rcases ih ha.2 hb.2 hrest with ⟨rfl, hbehind⟩ | ⟨hne, hprefix⟩
      · exact .inl ⟨rfl, hbehind⟩
      · exact .inr ⟨fun he => hne (List.cons.inj he).2, List.cons_prefix_cons.mpr ⟨rfl, hprefix⟩⟩

/-- **Names whose path is a key do not come after the names that the key was made of.** -/
theorem namesLe_of_keyOf {x y : List Text} (hx : ∀ name ∈ x, '/' ∉ name) (hy : ∀ name ∈ y, name ≠ [] ∧ '/' ∉ name)
    (h : pathOfNames y = (keyOf x).text) : namesLe y x = true := by
  induction x generalizing y with
  | nil =>
    cases y with
    | nil => rfl
    | cons b bs =>
      rw [pathOfNames_cons] at h
      exact absurd (List.append_eq_nil_iff.mp h).1 (hy b List.mem_cons_self).1
  | cons a as ih =>
    cases y with
    | nil => rfl
    | cons b bs =>
      obtain ⟨ha, has⟩ := List.forall_mem_cons.mp hx
      obtain ⟨hb, hbs⟩ := List.forall_mem_cons.mp hy
      unfold keyOf FileKey.ofPath at h
      rw [pathOfNames_cons, pathOfNames_cons] at h
      rw [namesLe_cons_iff]
      rcases name_of_keyOf ha hb.2 h with ⟨rfl, hbehind⟩ | ⟨hne, rest, rfl⟩
      · refine .inr ⟨rfl, ?_⟩
        cases bs with
        | nil => rfl
        | cons next bs =>
          cases as with
          | nil => cases hbehind
          | cons name as => exact ih has hbs (List.cons.inj hbehind).2
      · refine .inl ⟨hne, ?_⟩
        have hle := Text.le_append_left b [] rest
        rwa [List.append_nil] at hle

end Ambient.Discovery
