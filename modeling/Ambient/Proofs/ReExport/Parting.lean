import Ambient.Proofs.ReExport.Layout

/-!
# Where a text may be parted

Groups are looked for in the text as a whole, and a place in it may lie within one. A place where none is read
parts the text:

* `isParted b 0 a`: between `a` and `b` there is such a place. No group that begins in `a` goes on beyond it,
  and none has been opened there that is never closed;
* `groupsFrom_append`: **the groups of `a ++ b` are then those of `a` and those of `b`**, and the last mark in `a`
  is all that is handed on;
* `isParted_of_opens`: what stands behind a place matters only in so far as a group is opened across it.
-/

namespace Ambient.ReExport

/-! ## 1. What is read ahead -/

section Ahead

variable {t u a b list rest : Text} {path? : Option Text}

/-- **A mark is not sought behind a closing brace.** -/
theorem markAt?_append (h : '}' ∈ u) (x : Text) : markAt? (u ++ x) = markAt? u := by
  refine Option.ext fun name => ?_
  rw [markAt?_iff, markAt?_iff]
  constructor
  · rintro ⟨front, behind, hhead, hu⟩
    have hno := hhead.notMem.2
    rcases List.append_eq_append_iff.mp hu with ⟨m, rfl, -⟩ | ⟨m, rfl, hm⟩
    · exact absurd (List.mem_append_left m h) hno
    · cases m with
      | nil => exact absurd (by rwa [List.append_nil] at h) hno
      | cons c m =>
        obtain ⟨rfl, -⟩ := List.cons.inj hm
        exact ⟨front, m, hhead, rfl⟩
  · rintro ⟨front, behind, hhead, rfl⟩
    exact ⟨front, behind ++ x, hhead, List.append_assoc _ _ _⟩

/-- A group is told from its own text. -/
theorem groupAt?_append (h : groupAt? t = some (list, rest)) (x : Text) :
    groupAt? (t ++ x) = some (list, rest ++ x) := by
  obtain ⟨front, hhead, rfl, hlist⟩ := groupAt?_iff.mp h
  exact groupAt?_iff.mpr ⟨front, hhead, by simp, hlist⟩

/-- A group that ends before `b` is there without it. -/
theorem groupAt?_within (h : groupAt? (a ++ b) = some (list, rest)) (hrest : b.length ≤ rest.length) :
    ∃ behind, rest = behind ++ b ∧ groupAt? a = some (list, behind) := by
  obtain ⟨front, hhead, htext, hlist⟩ := groupAt?_iff.mp h
  have hsuffix : rest <:+ a ++ b := ⟨front ++ '{' :: (list ++ ['}']), by rw [htext]; simp⟩
  obtain ⟨behind, rfl⟩ := List.suffix_of_suffix_length_le (List.suffix_append a b) hsuffix hrest
  have hsame : a ++ b = (front ++ '{' :: (list ++ '}' :: behind)) ++ b := by
    rw [htext]
    simp
  exact ⟨behind, rfl, groupAt?_iff.mpr ⟨front, hhead, List.append_cancel_right hsame, hlist⟩⟩

/-- Every group is opened, -/
theorem opened?_of_groupAt? (h : groupAt? t = some (list, rest)) : opened? t = some (list ++ '}' :: rest) := by
  obtain ⟨front, hhead, rfl, -⟩ := groupAt?_iff.mp h
  exact opened?_iff.mpr ⟨front, hhead, rfl⟩

/-- and what opens one is read up to the first brace. -/
theorem opened?_append (h : opened? t = some rest) (x : Text) : opened? (t ++ x) = some (rest ++ x) := by
  obtain ⟨front, hhead, rfl⟩ := opened?_iff.mp h
  exact opened?_iff.mpr ⟨front, hhead, List.append_assoc _ _ _⟩

theorem opened?_of_append (hbrace : '{' ∈ t) {x : Text} (h : (opened? (t ++ x)).isSome = true) :
    (opened? t).isSome = true := by
  obtain ⟨behind, hbehind⟩ := Option.isSome_iff_exists.mp h
  obtain ⟨front, hhead, htext⟩ := opened?_iff.mp hbehind
  obtain ⟨a, b, rfl, ha⟩ := List.eq_append_cons_of_mem hbrace
  rw [List.append_assoc] at htext
  obtain ⟨rfl, -⟩ := Text.append_cons_inj ha (hhead.notMem (by decide) (by decide)) htext
  exact Option.isSome_of_eq_some (opened?_iff.mpr ⟨a, hhead, rfl⟩)

/-- The rest behind a group is a part of the text, and the group's closing brace stands before it. -/
theorem suffix_of_groupAt? (h : groupAt? t = some (list, rest)) : '}' :: rest <:+ t := by
  obtain ⟨front, -, rfl, -⟩ := groupAt?_iff.mp h
  exact ⟨front ++ '{' :: list, by simp⟩

/-- **Every group has a closing brace of its own.** -/
theorem length_groupsFrom_le (path? : Option Text) (skip : Nat) (t : Text) :
    (groupsFrom path? skip t).length ≤ (t.drop skip).count '}' := by
  fun_induction groupsFrom path? skip t with
  | case1 => exact Nat.zero_le _
  | case2 path? skip c t ih => exact ih
  | case3 path? c t list rest hgroup ih =>
    have hsuffix := suffix_of_groupAt? hgroup
    have hcount : rest.count '}' + 1 ≤ (c :: t).count '}' := by
      rw [← List.count_cons_self]
      exact hsuffix.sublist.count_le '}'
    have htail : rest <:+ t := by
      rcases List.suffix_cons_iff.mp hsuffix with heq | hsuffix
      · exact (List.cons.inj heq).2 ▸ List.suffix_rfl
      · exact (List.suffix_cons '}' rest).trans hsuffix
    rw [← List.suffix_iff_eq_drop.mp htail] at ih
    have hone : (path?.map fun path => (⟨path, list⟩ : Group)).toList.length ≤ 1 := Option.length_toList_le
    rw [List.length_append, List.drop_zero]
    omega
  | case4 path? c t hgroup ih =>
    rw [List.drop_zero] at ih ⊢
    exact ih.trans ((List.sublist_cons_self c t).count_le '}')

/-- No group without a closing brace. -/
theorem groupsFrom_of_notMem (h : '}' ∉ t) (path? : Option Text) (skip : Nat) : groupsFrom path? skip t = [] := by
  have hle := length_groupsFrom_le path? skip t
  rw [List.count_eq_zero_of_not_mem fun hm => h (List.mem_of_mem_drop hm)] at hle
  exact List.eq_nil_of_length_eq_zero (Nat.le_zero.mp hle)

/-- What is read ahead of a text tells nothing to its groups: a mark that is only complete with it stands behind
    the last group. -/
theorem groupsFrom_ahead (c : Char) (a b : Text) (path? : Option Text) (skip : Nat) :
    groupsFrom ((markAt? (c :: (a ++ b))).orElse fun _ => path?) skip a =
      groupsFrom ((markAt? (c :: a)).orElse fun _ => path?) skip a := by
  by_cases h : '}' ∈ a
  · rw [← List.cons_append, markAt?_append (List.mem_cons_of_mem c h)]
  · rw [groupsFrom_of_notMem h, groupsFrom_of_notMem h]

/-- Behind a closing brace no mark is read any more. -/
theorem marksIn_append_closed (h : '}' ∈ u) (a x : Text) : marksIn a (u ++ x) = marksIn a u := by
  induction a with
  | nil => rfl
  | cons c a ih =>
    have hmem : '}' ∈ c :: (a ++ u) := List.mem_cons_of_mem _ (List.mem_append_right _ h)
    rw [marksIn, marksIn, ih, ← markAt?_append hmem x, List.cons_append, List.append_assoc]

end Ahead

/-! ## 2. Parting a text -/

/-- Does the place before `b` part the text? The first `skip` characters belong to an earlier group. -/
def isParted (b : Text) : Nat → Text → Bool
  | 0, [] => true
  | _ + 1, [] => false
  | skip + 1, _ :: a => isParted b skip a
  | 0, c :: a =>
    match groupAt? (c :: (a ++ b)) with
    | some (_, rest) => isParted b ((a ++ b).length - rest.length) a
    | none => (opened? (c :: (a ++ b))).isNone && isParted b 0 a

section Parting

variable {a b list rest : Text} {c : Char} {skip : Nat}

theorem isParted_le (h : isParted b skip a = true) : skip ≤ a.length := by
  fun_induction isParted b skip a with
  | case1 => exact Nat.le_refl 0
  | case2 => cases h
  | case3 skip c a ih => exact Nat.succ_le_succ (ih h)
  | case4 => exact Nat.zero_le _
  | case5 => exact Nat.zero_le _

/-- A group that begins before such a place ends before it, and is found without what stands behind. -/
theorem groupAt?_of_isParted (hgroup : groupAt? (c :: (a ++ b)) = some (list, rest))
    (h : isParted b ((a ++ b).length - rest.length) a = true) :
    ∃ behind, rest = behind ++ b ∧ groupAt? (c :: a) = some (list, behind) ∧
      (a ++ b).length - rest.length = a.length - behind.length := by
  have hle := isParted_le h
  rw [List.length_append] at hle
  obtain ⟨behind, rfl, hwithin⟩ := groupAt?_within (a := c :: a) hgroup (by omega)
  exact ⟨behind, rfl, hwithin, by rw [List.length_append, List.length_append]; omega⟩

/-- Where no group is opened there is none, whatever stands behind. -/
theorem groupAt?_of_opened? (h : opened? (c :: (a ++ b)) = none) : groupAt? (c :: a) = none := by
  by_contra hsome
  obtain ⟨⟨list, rest⟩, hp⟩ := Option.ne_none_iff_exists'.mp hsome
  have hopened := opened?_append (opened?_of_groupAt? hp) b
  rw [List.cons_append, h] at hopened
  cases hopened

/-- **The groups before the place and behind it** are those of the text. -/
theorem groupsFrom_append (h : isParted b skip a = true) (path? : Option Text) :
    groupsFrom path? skip (a ++ b) =
      groupsFrom path? skip a ++ groupsFrom ((marksIn a b).getLast?.or path?) 0 b := by
  fun_induction isParted b skip a generalizing path? with
  | case1 => rfl
  | case2 => cases h
  | case3 skip c a ih => rw [List.cons_append, groupsFrom, ih h, getLast?_marksIn_cons, groupsFrom_ahead, groupsFrom]
  | case4 c a list rest hgroup ih =>
    obtain ⟨behind, rfl, hwithin, hskip⟩ := groupAt?_of_isParted hgroup h
    have hmarks := getLast?_marksIn_cons c a b path?
    rw [markAt?_of_groupAt? hgroup, Option.orElse_none] at hmarks
    rw [List.cons_append, groupsFrom, hgroup, groupsFrom, hwithin]
    dsimp only
    rw [ih h, hmarks, hskip, List.append_assoc]
  | case5 c a hgroup ih =>
    rw [Bool.and_eq_true, Option.isNone_iff_eq_none] at h
    rw [List.cons_append, groupsFrom, hgroup, groupsFrom, groupAt?_of_opened? h.1]
    dsimp only
    rw [ih h.2, getLast?_marksIn_cons, groupsFrom_ahead]

/-- **A text parted before `b` is parted before `x`**, if with `x` no group is opened that is not opened with `b`. -/
theorem isParted_of_opens {x : Text} (h : isParted b skip a = true)
    (hopens : ∀ s, s <:+ a → s ≠ [] → (opened? (s ++ x)).isSome = true → (opened? (s ++ b)).isSome = true) :
    isParted x skip a = true := by
  fun_induction isParted b skip a with
  | case1 => rfl
  | case2 => cases h
  | case3 skip c a ih => exact ih h fun s hs => hopens s (hs.trans (List.suffix_cons c a))
  | case4 c a list rest hgroup ih =>
    obtain ⟨behind, rfl, hwithin, hskip⟩ := groupAt?_of_isParted hgroup h
    have hx : groupAt? (c :: (a ++ x)) = some (list, behind ++ x) := groupAt?_append hwithin x
    have hskip' : (a ++ x).length - (behind ++ x).length = (a ++ b).length - (behind ++ b).length := by
      simp only [List.length_append]
      omega
    rw [isParted, hx]
    dsimp only
    rw [hskip']
    exact ih h fun s hs => hopens s (hs.trans (List.suffix_cons c a))
  | case5 c a hgroup ih =>
    rw [Bool.and_eq_true, Option.isNone_iff_eq_none] at h
    have hx : opened? (c :: (a ++ x)) = none := by
      by_contra hsome
      have hb := hopens (c :: a) List.suffix_rfl (List.cons_ne_nil _ _) (Option.isSome_iff_ne_none.mpr hsome)
      rw [List.cons_append, h.1] at hb
      cases hb
    have hnone : groupAt? (c :: (a ++ x)) = none := groupAt?_of_opened? (b := []) (by rwa [List.append_nil])
    rw [isParted, hnone]
    dsimp only
    rw [hx, ih h.2 fun s hs => hopens s (hs.trans (List.suffix_cons c a))]
    rfl

/-- The declarations of the groups of a text, `path?` being the last mark before it. -/
def declarationsFrom (path? : Option Text) (t : Text) : List Declaration :=
  (groupsFrom path? 0 t).flatMap Group.declarations

theorem declarationsFrom_append (h : isParted b 0 a = true) (path? : Option Text) :
    declarationsFrom path? (a ++ b) =
      declarationsFrom path? a ++ declarationsFrom ((marksIn a b).getLast?.or path?) b := by
  unfold declarationsFrom
  rw [groupsFrom_append h, List.flatMap_append]

/-- A text in which no group begins only moves the namespace on. -/
theorem declarationsFrom_pass (h : NoGroupIn a b) (path? : Option Text) :
    declarationsFrom path? (a ++ b) = declarationsFrom ((marksIn a b).getLast?.or path?) b := by
  unfold declarationsFrom
  rw [groupsFrom_pass h]

end Parting

end Ambient.ReExport
