import Ambient.Proofs.ReExport.Heads
import Mathlib.Data.List.Basic

/-!
# Where the groups of a text stand

Groups and namespace marks are found in one pass over the text. They can as well be found each for itself, and
be brought together afterwards:

* `marksIn before rest`: the names of the marks that begin in `before`, in text order;
* `sites t`: the groups of a text, each with what stands before it;
* `Site.owner?`: the name of the last mark before a group;
* `groups_eq`, `declarations_eq`: **the groups that count are those with an owner, which gives them their
  namespace.**
-/

namespace Ambient.ReExport

/-! ## 1. Marks -/

/-- The names of the marks that begin in a text, when `rest` follows it. -/
def marksIn : Text → Text → List Text
  | [], _ => []
  | c :: before, rest => (markAt? (c :: (before ++ rest))).toList ++ marksIn before rest

section Marks

theorem marksIn_append (a b rest : Text) : marksIn (a ++ b) rest = marksIn a (b ++ rest) ++ marksIn b rest := by
  induction a with
  | nil => rfl
  | cons c a ih =>
    rw [List.cons_append, marksIn, marksIn, ih, List.append_assoc, List.append_assoc]

theorem marksIn_singleton (c : Char) (rest : Text) : marksIn [c] rest = (markAt? (c :: rest)).toList := by
  rw [marksIn, marksIn, List.append_nil, List.nil_append]

/-- A mark begins with its first letter. -/
theorem markAt?_of_ne {c : Char} (h : c ≠ 'n') (t : Text) : markAt? (c :: t) = none := by
  have hword : "namespace".toList = 'n' :: "amespace".toList := by decide
  unfold markAt?
  rw [hword, Text.isPrefixOf?_cons, beq_eq_false_iff_ne.mpr (Ne.symm h), if_neg Bool.false_ne_true]
  rfl

theorem marksIn_of_not_mem {before : Text} (h : 'n' ∉ before) (rest : Text) : marksIn before rest = [] := by
  induction before with
  | nil => rfl
  | cons c before ih =>
    have hc : c ≠ 'n' := fun e => h (e ▸ List.mem_cons_self)
    rw [marksIn, markAt?_of_ne hc, ih fun hm => h (List.mem_cons_of_mem _ hm)]
    rfl

end Marks

/-! ## 2. Groups -/

/-- A group in a text. -/
structure Site where
  /-- What stands before its `export`. -/
  before : Text
  /-- The text from there on. -/
  rest : Text
  list : Text

/-- The name of the last mark before the group. -/
def Site.owner? (s : Site) : Option Text := (marksIn s.before s.rest).getLast?

/-- The group, if it has an owner. -/
def Site.group? (s : Site) : Option Group := s.owner?.map fun path => ⟨path, s.list⟩

/-- The groups of a text that stands behind `before`, and of which the first `skip` characters belong to an
    earlier group. -/
def sitesFrom (before : Text) : Nat → Text → List Site
  | _, [] => []
  | skip + 1, c :: t => sitesFrom (before ++ [c]) skip t
  | 0, c :: t =>
    match groupAt? (c :: t) with
    | some (list, rest) => ⟨before, c :: t, list⟩ :: sitesFrom (before ++ [c]) (t.length - rest.length) t
    | none => sitesFrom (before ++ [c]) 0 t

/-- The groups of a text, whether they have an owner or not. -/
def sites (t : Text) : List Site := sitesFrom [] 0 t

section Groups

/-- Where a group starts there is no mark. -/
theorem markAt?_of_groupAt? {t : Text} {p : Text × Text} (h : groupAt? t = some p) : markAt? t = none := by
  obtain ⟨_, ⟨gap, rfl, -⟩, rfl, -⟩ := groupAt?_iff.mp h
  rw [export_word, List.cons_append, List.cons_append]
  exact markAt?_of_ne (by decide) _

/-- The last mark, one character later. -/
theorem getLast?_marksIn (before : Text) (c : Char) (t : Text) :
    (marksIn (before ++ [c]) t).getLast? =
      (markAt? (c :: t)).orElse fun _ => (marksIn before (c :: t)).getLast? := by
  rw [marksIn_append, marksIn_singleton, List.singleton_append]
  cases markAt? (c :: t) with
  | none => rw [Option.toList_none, List.append_nil]; rfl
  | some name => rw [Option.toList_some, List.getLast?_concat]; rfl

/-- One pass, with the last mark at hand, finds the groups that have an owner. -/
theorem groupsFrom_eq (before : Text) (skip : Nat) (t : Text) :
    groupsFrom (marksIn before t).getLast? skip t = (sitesFrom before skip t).filterMap Site.group? := by
  fun_induction sitesFrom before skip t with
  | case1 => rfl
  | case2 before skip c t ih => rw [groupsFrom, ← getLast?_marksIn, ih]
  | case3 before c t list rest hgroup ih =>
    have hmarks := getLast?_marksIn before c t
    rw [markAt?_of_groupAt? hgroup, Option.orElse_none] at hmarks
    rw [groupsFrom, hgroup, ← hmarks]
    dsimp only
    rw [ih, hmarks, List.filterMap_cons]
    unfold Site.group? Site.owner?
    cases (marksIn before (c :: t)).getLast? <;> rfl
  | case4 before c t hgroup ih => rw [groupsFrom, hgroup, ← getLast?_marksIn, ih]

/-- **The groups of a text are those with an owner.** -/
theorem groups_eq (t : Text) : groups t = (sites t).filterMap Site.group? := groupsFrom_eq [] 0 t

/-- The declarations of the group, none if it has no owner. -/
def Site.declarations (s : Site) : List Declaration := s.group?.toList.flatMap Group.declarations

/-- **So are the declarations.** -/
theorem declarations_eq (t : Text) : declarations t = (sites t).flatMap Site.declarations := by
  unfold declarations
  rw [groups_eq, List.filterMap_eq_flatMap_toList, List.flatMap_assoc]
  rfl

theorem mem_sitesFrom {before t : Text} {skip : Nat} {s : Site} (h : s ∈ sitesFrom before skip t) :
    s.before ++ s.rest = before ++ t ∧ (groupAt? s.rest).isSome = true := by
  fun_induction sitesFrom before skip t with
  | case1 => cases h
  | case2 before skip c t ih =>
    have hs := ih h
    rw [List.append_assoc] at hs
    exact hs
  | case3 before c t list rest hgroup ih =>
    rcases List.mem_cons.mp h with rfl | h
    · exact ⟨rfl, by rw [hgroup]; rfl⟩
    · have hs := ih h
      rw [List.append_assoc] at hs
      exact hs
  | case4 before c t hgroup ih =>
    have hs := ih h
    rw [List.append_assoc] at hs
    exact hs

/-- A site cuts the text in two, and a group starts there. -/
theorem mem_sites {t : Text} {s : Site} (h : s ∈ sites t) :
    t = s.before ++ s.rest ∧ (groupAt? s.rest).isSome = true :=
  ⟨(mem_sitesFrom h).1.symm, (mem_sitesFrom h).2⟩

end Groups

end Ambient.ReExport
