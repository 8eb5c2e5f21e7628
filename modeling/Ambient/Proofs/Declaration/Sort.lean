import Ambient.Declaration.Basic
import Ambient.Proofs.Catalogue.Order
import Mathlib.Data.List.Pairwise

/-!
# Sorted declarations

Sorting by id keeps declarations that share an id in their order, and that is all there is to say:

* `withId_sort`: of each id there are the same declarations, in the same order, before and after;
* `sort_eq_iff`: two lists are sorted alike if and only if of each id they have the same declarations;
* so a common part cancels (`sort_append_left_iff`, `sort_append_right_iff`), and declarations may be picked out
  before they are sorted (`filter_sort`).
-/

namespace Ambient.Declaration

/-- The declarations with this id. -/
def withId (i : Text) (ds : List Declaration) : List Declaration := ds.filter fun d => d.id = i

/-- The order of a sorted list. -/
def Ordered (ds : List Declaration) : Prop := ds.Pairwise fun a b => a.le b = true

section Sorting

variable {i : Text} {d : Declaration} {ds es : List Declaration}

theorem mem_withId : d ∈ withId i ds ↔ d ∈ ds ∧ d.id = i := by
  unfold withId
  rw [List.mem_filter, decide_eq_true_eq]

theorem withId_append (i : Text) (ds es : List Declaration) : withId i (ds ++ es) = withId i ds ++ withId i es :=
  List.filter_append ds es

theorem withId_cons_of_eq (h : d.id = i) (ds : List Declaration) : withId i (d :: ds) = d :: withId i ds :=
  List.filter_cons_of_pos (decide_eq_true h)

theorem withId_cons_of_ne (h : d.id ≠ i) (ds : List Declaration) : withId i (d :: ds) = withId i ds :=
  List.filter_cons_of_neg (by simpa using h)

theorem le_trans (a b c : Declaration) (hab : a.le b = true) (hbc : b.le c = true) : a.le c = true :=
  Text.le_trans hab hbc

theorem le_total (a b : Declaration) : (a.le b || b.le a) = true :=
  Bool.or_eq_true_iff.mpr (Text.le_total a.id b.id)

theorem ordered_sort (ds : List Declaration) : Ordered (sort ds) := List.pairwise_mergeSort le_trans le_total ds

/-- **Sorting is stable.** -/
theorem withId_sort (i : Text) (ds : List Declaration) : withId i (sort ds) = withId i ds := by
  have hsame : (withId i ds).Pairwise fun a b => a.le b = true := by
    refine List.pairwise_of_forall_mem_list fun a ha b hb => ?_
    have hid : a.id = b.id := (mem_withId.mp ha).2.trans (mem_withId.mp hb).2.symm
    unfold le
    rw [hid]
    exact Text.le_refl b.id
  have hsublist : (withId i ds).Sublist (sort ds) :=
    List.sublist_mergeSort le_trans le_total hsame List.filter_sublist
  have hagain : withId i (withId i ds) = withId i ds :=
    List.filter_eq_self.mpr fun d hd => (List.mem_filter.mp hd).2
  have hkept : (withId i (withId i ds)).Sublist (withId i (sort ds)) := hsublist.filter _
  have hlength : (withId i (sort ds)).length = (withId i ds).length :=
    ((List.mergeSort_perm ds le).filter _).length_eq
  rw [hagain] at hkept
  exact (hkept.eq_of_length hlength.symm).symm

theorem Ordered.head_le {e : Declaration} (h : Ordered (e :: es)) (hd : d ∈ e :: es) : e.le d = true := by
  rcases List.mem_cons.mp hd with rfl | hd
  · exact Text.le_refl d.id
  · exact List.rel_of_pairwise_cons h hd

theorem mem_iff_of_withId (h : ∀ i, withId i ds = withId i es) (d : Declaration) : d ∈ ds ↔ d ∈ es := by
  have hd : d ∈ withId d.id ds ↔ d ∈ withId d.id es := by rw [h d.id]
  rwa [mem_withId, mem_withId, and_iff_left rfl, and_iff_left rfl] at hd

/-- **Ordered lists with the same declarations of each id are the same.** -/
theorem Ordered.eq (hd : Ordered ds) (he : Ordered es) (h : ∀ i, withId i ds = withId i es) : ds = es := by
  induction ds generalizing es with
  | nil =>
    cases es with
    | nil => rfl
    | cons e es => exact absurd ((mem_iff_of_withId h e).mpr List.mem_cons_self) List.not_mem_nil
  | cons d ds ih =>
    cases es with
    | nil => exact absurd ((mem_iff_of_withId h d).mp List.mem_cons_self) List.not_mem_nil
    | cons e es =>
      have hid : e.id = d.id := Text.le_antisymm (he.head_le ((mem_iff_of_withId h d).mp List.mem_cons_self))
        (hd.head_le ((mem_iff_of_withId h e).mpr List.mem_cons_self))
      obtain rfl : d = e := by
        have hfirst := h d.id
        rw [withId_cons_of_eq rfl, withId_cons_of_eq hid] at hfirst
        exact (List.cons.inj hfirst).1
      have hrest : ∀ i, withId i ds = withId i es := by
        intro i
        have hi := h i
        by_cases hd : d.id = i
        · rw [withId_cons_of_eq hd, withId_cons_of_eq hd] at hi
          exact (List.cons.inj hi).2
        · rwa [withId_cons_of_ne hd, withId_cons_of_ne hd] at hi
      rw [ih hd.of_cons he.of_cons hrest]

/-- **Lists are sorted alike if and only if they have the same declarations of each id.** -/
theorem sort_eq_iff : sort ds = sort es ↔ ∀ i, withId i ds = withId i es := by
  constructor
  · intro h i
    rw [← withId_sort i ds, h, withId_sort]
  · intro h
    refine (ordered_sort ds).eq (ordered_sort es) fun i => ?_
    rw [withId_sort, withId_sort, h]

/-- What stands in front of both makes no difference. -/
theorem sort_append_left_iff (fs : List Declaration) : sort (fs ++ ds) = sort (fs ++ es) ↔ sort ds = sort es := by
  rw [sort_eq_iff, sort_eq_iff]
  refine forall_congr' fun i => ?_
  rw [withId_append, withId_append, List.append_right_inj]

/-- Neither does what stands behind both. -/
theorem sort_append_right_iff (fs : List Declaration) : sort (ds ++ fs) = sort (es ++ fs) ↔ sort ds = sort es := by
  rw [sort_eq_iff, sort_eq_iff]
  refine forall_congr' fun i => ?_
  rw [withId_append, withId_append, List.append_left_inj]

/-- **Declarations may be picked out before they are sorted.** -/
theorem filter_sort (p : Declaration → Bool) (ds : List Declaration) : (sort ds).filter p = sort (ds.filter p) := by
  have hordered : Ordered ((sort ds).filter p) := (ordered_sort ds).filter p
  refine hordered.eq (ordered_sort _) fun i => ?_
  have hswap : ∀ es : List Declaration, withId i (es.filter p) = (withId i es).filter p := by
    intro es
    unfold withId
    rw [List.filter_filter, List.filter_filter]
    exact List.filter_congr fun d _ => Bool.and_comm _ _
  rw [withId_sort, hswap, hswap, withId_sort]

end Sorting

end Ambient.Declaration
