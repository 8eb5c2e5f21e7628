import Ambient.Declaration.Content
import Ambient.Parse
import Ambient.Proofs.ReExport.Entries
import Ambient.Proofs.Scanner.Trace
import Mathlib.Data.List.Perm.Basic

/-!
# Export groups in the sorted list

A group of several entries is shown as it was written only if its declarations stay TOGETHER when the
declarations of a file are sorted: next to each other and in their order. To tell the declarations of one
group from equal ones of another, each is kept with the number of its group (`Made`).

* `shown`: what is shown in the block of a namespace, made from what;
* `Together`: the declarations of one group, and no others, in a row;
* `Unmixed`: no group has more than ten entries, no two of them share a namespace, and no other declaration
  of the namespace lies between two entries;
* `together_iff`: all groups of a text stay together if and only if the text is unmixed.
-/

namespace Ambient

namespace ReExport

/-! ## 1. Where a declaration comes from -/

/-- A declaration with the number of the group it was made from. -/
structure Made where
  declaration : Declaration
  group? : Option Nat
  deriving DecidableEq

namespace Made

/-- Not after, by id. -/
def le (a b : Made) : Bool := a.declaration.le b.declaration

theorem le_trans (a b c : Made) (hab : le a b = true) (hbc : le b c = true) : le a c = true :=
  Text.le_trans hab hbc

theorem le_total (a b : Made) : (le a b || le b a) = true := Bool.or_eq_true_iff.mpr (Text.le_total _ _)

theorem le_refl (a : Made) : le a a = true := Text.le_refl a.declaration.id

end Made

/-- The declarations of group `k`. -/
def Group.made (g : Group) (k : Nat) : List Made := g.declarations.map fun d => ⟨d, some k⟩

/-- All declarations of a text, as they are made. -/
def made (t : Text) : List Made :=
  (scan (Text.lines t)).map (fun d => ⟨d, none⟩) ++ (groups t).zipIdx.flatMap fun p => p.1.made p.2

def sorted (t : Text) : List Made := (made (normalise t)).mergeSort Made.le

/-- Is the declaration shown in the block of the namespace? -/
def Made.isShown (path : Text) (m : Made) : Bool :=
  m.declaration.path = path && !m.declaration.kind.isStandalone

/-- What is shown in the block of a namespace. -/
def shown (t path : Text) : List Made := (sorted t).filter (Made.isShown path)

theorem sorted_declarations (t : Text) : (sorted t).map Made.declaration = parse t := by
  have hsort : (sorted t).map Made.declaration =
      ((made (normalise t)).map Made.declaration).mergeSort Declaration.le :=
    List.map_mergeSort fun _ _ _ _ => rfl
  have hgroups : ((groups (normalise t)).zipIdx.flatMap fun p => p.1.made p.2).map Made.declaration =
      declarations (normalise t) := by
    unfold declarations
    conv_rhs => rw [← List.zipIdx_map_fst 0 (groups (normalise t))]
    rw [List.map_flatMap, List.flatMap_map]
    refine List.flatMap_congr fun p _ => ?_
    unfold Group.made
    rw [List.map_map]
    exact List.map_id _
  have hscan : ((scan (Text.lines (normalise t))).map fun d => (⟨d, none⟩ : Made)).map Made.declaration =
      scan (Text.lines (normalise t)) := by
    rw [List.map_map]
    exact List.map_id _
  rw [hsort, made, List.map_append, hscan, hgroups]
  rfl

/-- **What is shown in the block of a declaration** is what its content holds. -/
theorem shown_declarations (t : Text) (d : Declaration) :
    (shown t d.path).map Made.declaration = (parse t).filter d.sharesBlock := by
  rw [← sorted_declarations, List.filter_map]
  rfl

theorem shown_pairwise (t path : Text) : (shown t path).Pairwise fun a b => Made.le a b = true :=
  (List.pairwise_mergeSort Made.le_trans Made.le_total _).filter _

/-! ## 2. The declarations of one group -/

section OneGroup

variable {t : Text} {g : Group} {k : Nat}

/-- Numbers tell the groups apart. -/
theorem filter_zipIdx (gs : List Group) (n : Nat) (hg : gs[k]? = some g) :
    ((gs.zipIdx n).flatMap fun p => p.1.made p.2).filter (fun m => m.group? = some (n + k)) =
      g.made (n + k) := by
  have hnone : ∀ (h : Group) (i j : Nat), i ≠ j → (h.made i).filter (fun m => m.group? = some j) = [] := by
    intro h i j hij
    simp [Group.made, hij]
  have hall : ∀ (h : Group) (i : Nat), (h.made i).filter (fun m => m.group? = some i) = h.made i := by
    intro h i
    simp [Group.made]
  induction gs generalizing n k with
  | nil => cases hg
  | cons h gs ih =>
    rw [List.zipIdx_cons, List.flatMap_cons, List.filter_append]
    cases k with
    | zero =>
      have hrest : ((gs.zipIdx (n + 1)).flatMap fun p => p.1.made p.2).filter
          (fun m => m.group? = some n) = [] := by
        rw [List.filter_flatMap, List.flatMap_eq_nil_iff]
        intro p hp
        have := List.le_snd_of_mem_zipIdx hp
        exact hnone p.1 p.2 n (by omega)
      cases hg
      rw [Nat.add_zero, hall, hrest, List.append_nil]
    | succ k =>
      have hshift : n + (k + 1) = n + 1 + k := by omega
      rw [hshift, hnone h n _ (by omega), ih (n + 1) hg]
      rfl

theorem made_filter (hg : (groups t)[k]? = some g) :
    (made t).filter (fun m => m.group? = some k) = g.made k := by
  have hscan : ((scan (Text.lines t)).map fun d => (⟨d, none⟩ : Made)).filter (fun m => m.group? = some k) =
      [] := by
    simp
  have hgroups := filter_zipIdx (groups t) 0 hg
  rw [Nat.zero_add] at hgroups
  rw [made, List.filter_append, hscan, hgroups]
  rfl

/-- All of a group is shown in the block of its namespace. -/
theorem isShown_made : ∀ m ∈ g.made k, m.isShown g.path = true := by
  intro m hm
  obtain ⟨d, hd, rfl⟩ := List.mem_map.mp hm
  obtain ⟨hpath, hkind⟩ := mem_declarations hd
  simp [Made.isShown, hpath, hkind, Kind.isStandalone]

/-- Once and in any order, the declarations of a group are in the block. -/
theorem shown_filter_perm (hg : (groups (normalise t))[k]? = some g) :
    ((shown t g.path).filter fun m => m.group? = some k).Perm (g.made k) := by
  have hperm : (sorted t).Perm (made (normalise t)) := List.mergeSort_perm _ _
  have hfilter := (hperm.filter fun m => m.group? = some k).filter (Made.isShown g.path)
  rw [made_filter hg, List.filter_eq_self.mpr isShown_made] at hfilter
  unfold shown
  rw [List.filter_filter] at hfilter ⊢
  simpa only [Bool.and_comm] using hfilter

/-- **A group whose declarations are sorted keeps their order.** -/
theorem shown_filter (hg : (groups (normalise t))[k]? = some g)
    (hsorted : (g.made k).Pairwise fun a b => Made.le a b = true) :
    (shown t g.path).filter (fun m => m.group? = some k) = g.made k := by
  have hperm := shown_filter_perm hg
  have hmade : (g.made k).Sublist (made (normalise t)) := by
    rw [← made_filter hg]
    exact List.filter_sublist
  have hsublist : (g.made k).Sublist (sorted t) :=
    List.sublist_mergeSort Made.le_trans Made.le_total hsorted hmade
  have hshown : (g.made k).Sublist ((shown t g.path).filter fun m => m.group? = some k) := by
    have hfilter := (hsublist.filter (Made.isShown g.path)).filter fun m => m.group? = some k
    rw [List.filter_eq_self.mpr isShown_made] at hfilter
    have htag : (g.made k).filter (fun m => m.group? = some k) = g.made k := by simp [Group.made]
    rw [htag] at hfilter
    exact hfilter
  exact (hshown.eq_of_length hperm.length_eq.symm).symm

end OneGroup

/-! ## 3. Rows of a sorted list -/

section Rows

variable {α : Type} {le : α → α → Bool}

/-- A sorted list is what a downward closed property holds of, and then the rest. -/
theorem eq_filter_append_filter {p : α → Bool} {l : List α} (hl : l.Pairwise fun a b => le a b = true)
    (hp : ∀ a b, le a b = true → p b = true → p a = true) : l = l.filter p ++ l.filter fun a => !p a := by
  induction l with
  | nil => rfl
  | cons a l ih =>
    obtain ⟨ha, hl⟩ := List.pairwise_cons.mp hl
    cases hpa : p a with
    | true =>
      rw [List.filter_cons_of_pos hpa, List.filter_cons_of_neg (by simp [hpa]), List.cons_append, ← ih hl]
    | false =>
      have hnone : l.filter p = [] := by
        rw [List.filter_eq_nil_iff]
        intro b hb hpb
        rw [hp a b (ha b hb) hpb] at hpa
        cases hpa
      have hall := ih hl
      rw [hnone, List.nil_append] at hall
      rw [List.filter_cons_of_neg (by simp [hpa]), hnone, List.filter_cons_of_pos (by simp [hpa]), ← hall,
        List.nil_append]

/-- **What lies between two values of the order is in a row.** -/
theorem exists_row (htrans : ∀ a b c, le a b = true → le b c = true → le a c = true) {l : List α}
    (hl : l.Pairwise fun a b => le a b = true) (first last : α) :
    ∃ before behind, l = before ++ (l.filter (fun a => le first a && le a last) ++ behind) := by
  have hhigh := eq_filter_append_filter hl fun a b hab hb => htrans a b last hab hb
  have hlow := eq_filter_append_filter (p := fun a => !le first a) (hl.filter fun a => le a last) <| by
    intro a b hab hb
    rw [Bool.not_eq_true'] at hb ⊢
    rw [← Bool.not_eq_true] at hb ⊢
    exact fun ha => hb (htrans first a b ha hab)
  have hmiddle : (l.filter fun a => le a last).filter (fun a => !!le first a) =
      l.filter fun a => le first a && le a last := by
    rw [List.filter_filter]
    simp only [Bool.not_not]
  rw [hmiddle] at hlow
  refine ⟨(l.filter fun a => le a last).filter fun a => !le first a, l.filter fun a => !le a last, ?_⟩
  rw [← List.append_assoc, ← hlow]
  exact hhigh

/-- All of a sorted list lies between its ends. -/
theorem le_ends (hrefl : ∀ a, le a a = true) {l : List α} (hl : l.Pairwise fun a b => le a b = true)
    {first last : α} (hfirst : l[0]? = some first) (hlast : l[l.length - 1]? = some last) :
    ∀ a ∈ l, le first a = true ∧ le a last = true := by
  rw [List.pairwise_iff_getElem] at hl
  obtain ⟨hzero, rfl⟩ := List.getElem?_eq_some_iff.mp hfirst
  obtain ⟨hend, rfl⟩ := List.getElem?_eq_some_iff.mp hlast
  intro a ha
  obtain ⟨n, hn, rfl⟩ := List.mem_iff_getElem.mp ha
  constructor
  · by_cases h : n = 0
    · subst h
      exact hrefl _
    · exact hl 0 n hzero hn (by omega)
  · by_cases h : n = l.length - 1
    · subst h
      exact hrefl _
    · exact hl n (l.length - 1) hn hend (by omega)

end Rows

/-! ## 4. Together -/

/-- **The group stays together**: what is shown holds its declarations in a row, and read in this row they are
    the group as it was written. -/
structure Together (t : Text) (k : Nat) (g : Group) : Prop where
  row : ∃ before behind, shown t g.path = before ++ (g.made k ++ behind)
  block : Text.joinWith ['\n'] (g.declarations.map Declaration.source) = block (entries g.list)

/-- **No group is in the way of its own order or in that of another.** -/
structure Unmixed (t : Text) : Prop where
  /-- A group has ten entries at most. -/
  short : ∀ g ∈ groups (normalise t), (entries g.list).length ≤ 10
  /-- Two groups of several entries do not share a namespace. -/
  alone : ∀ (j k : Nat) (g h : Group), (groups (normalise t))[j]? = some g →
    (groups (normalise t))[k]? = some h → g.Several → h.Several → g.path = h.path → j = k
  /-- None of the other declarations of the namespace lies between two entries. -/
  apart : ∀ g ∈ groups (normalise t), g.Several → ∀ d ∈ parse t, d.path = g.path →
    d.kind.isStandalone = false → d.ordinal = none →
    ∀ a ∈ g.declarations, ∀ b ∈ g.declarations, ¬(a.Before d ∧ d.Before b)

section Sorted

variable {t : Text} {g h : Group} {j k : Nat}

theorem getElem?_made (n : Nat) : (g.made k)[n]? = (g.declarations[n]?).map fun d => ⟨d, some k⟩ :=
  List.getElem?_map

theorem length_made (hg : g.Several) : (g.made k).length = (entries g.list).length := by
  rw [Group.made, List.length_map, length_declarations hg]

/-- The declarations in a row are numbered. -/
theorem ordinal_of_made (hg : g.Several) {n : Nat} {m : Made} (hm : (g.made k)[n]? = some m) :
    m.declaration.ordinal = some n := by
  rw [getElem?_made] at hm
  obtain ⟨d, hd, rfl⟩ := Option.map_eq_some_iff.mp hm
  exact ordinal_of_getElem? hg hd

theorem not_le_of_before {a b : Made} (h : a.declaration.Before b.declaration) : Made.le b a = false := h

theorem le_of_before {a b : Made} (h : a.declaration.Before b.declaration) : Made.le a b = true := by
  refine (Bool.or_eq_true_iff.mp (Made.le_total a b)).resolve_right ?_
  rw [not_le_of_before h]
  exact Bool.false_ne_true

/-- The declarations of a group of ten entries at most are sorted. -/
theorem made_pairwise (hg : g.Several) (hshort : (entries g.list).length ≤ 10) (k : Nat) :
    (g.made k).Pairwise fun a b => Made.le a b = true := by
  rw [List.pairwise_iff_getElem]
  intro i j hi hj hij
  have hlength : (g.made k).length = (entries g.list).length := length_made hg
  have ha := ordinal_of_made hg (List.getElem?_eq_getElem hi)
  have hb := ordinal_of_made hg (List.getElem?_eq_getElem hj)
  exact le_of_before (Declaration.before_of_ordinal ha hb hij (by omega))

theorem mem_made_cases {m : Made} (hm : m ∈ made t) :
    m.declaration.ordinal = none ∨ ∃ (k : Nat) (g : Group), (groups t)[k]? = some g ∧ m ∈ g.made k := by
  rcases List.mem_append.mp hm with hscan | hgroup
  · obtain ⟨d, hd, rfl⟩ := List.mem_map.mp hscan
    exact .inl (Scanner.ordinal_of_mem_scan hd)
  · obtain ⟨⟨g, k⟩, hg, hm⟩ := List.mem_flatMap.mp hgroup
    exact .inr ⟨k, g, List.mk_mem_zipIdx_iff_getElem?.mp hg, hm⟩

theorem mem_shown {m : Made} {path : Text} (hm : m ∈ shown t path) :
    m ∈ made (normalise t) ∧ m.declaration ∈ parse t ∧ m.declaration.path = path ∧
      m.declaration.kind.isStandalone = false := by
  obtain ⟨hsorted, hshown⟩ := List.mem_filter.mp hm
  have hparse := List.mem_map_of_mem (f := Made.declaration) hsorted
  rw [sorted_declarations] at hparse
  unfold Made.isShown at hshown
  rw [Bool.and_eq_true, decide_eq_true_eq, Bool.not_eq_true'] at hshown
  exact ⟨List.mem_mergeSort.mp hsorted, hparse, hshown⟩

theorem group?_of_mem_made {m : Made} (hm : m ∈ g.made k) : m.group? = some k := by
  obtain ⟨d, -, rfl⟩ := List.mem_map.mp hm
  rfl

/-- What is shown between two entries of an unmixed group is of the group. -/
theorem group?_of_between (hu : Unmixed t) (hg : (groups (normalise t))[k]? = some g) (hseveral : g.Several)
    {first last m : Made} (hfirst : first ∈ g.made k) (hlast : last ∈ g.made k) (hm : m ∈ shown t g.path)
    (hlow : Made.le first m = true) (hhigh : Made.le m last = true) : m.group? = some k := by
  obtain ⟨hmade, hparse, hpath, hkind⟩ := mem_shown hm
  have hmem : g ∈ groups (normalise t) := List.mem_of_getElem? hg
  -- a declaration without a number has another id than the two entries, and would lie between them
  have hnone : m.declaration.ordinal ≠ none := by
    intro hnone
    have hne : ∀ e ∈ g.made k, m.declaration.id ≠ e.declaration.id := by
      intro e he
      obtain ⟨n, hn⟩ := List.mem_iff_getElem?.mp he
      obtain ⟨d, hd, rfl⟩ := List.mem_map.mp he
      have hlength : n < (g.made k).length := (List.getElem?_eq_some_iff.mp hn).1
      have hten : n < 10 := by
        have := hu.short g hmem
        rw [length_made hseveral] at hlength
        omega
      obtain ⟨hpath', hkind'⟩ := mem_declarations hd
      exact Declaration.id_ne_of_ordinal hnone (ordinal_of_made hseveral hn) hten (hpath.trans hpath'.symm) hkind
        (by rw [hkind']; rfl)
    have hbefore : ∀ a b : Made, Made.le a b = true → a.declaration.id ≠ b.declaration.id →
        a.declaration.Before b.declaration := by
      intro a b hab hne
      unfold Declaration.Before
      rw [← Bool.not_eq_true]
      exact fun hba => hne (Text.le_antisymm hab hba)
    obtain ⟨a, ha, rfl⟩ := List.mem_map.mp hfirst
    obtain ⟨b, hb, rfl⟩ := List.mem_map.mp hlast
    exact hu.apart g hmem hseveral m.declaration hparse hpath hkind hnone a ha b hb
      ⟨hbefore _ _ hlow (hne _ hfirst).symm, hbefore _ _ hhigh (hne _ hlast)⟩
  obtain hordinal | ⟨j, h, hh, hm⟩ := mem_made_cases hmade
  · exact absurd hordinal hnone
  · obtain ⟨d, hd, rfl⟩ := List.mem_map.mp hm
    by_cases hother : h.Several
    · have hpath' : g.path = h.path := hpath.symm.trans (mem_declarations hd).1
      rw [hu.alone k j g h hg hh hseveral hother hpath']
    · exact absurd (ordinal_of_not_several hother hd) hnone

/-- **The groups of an unmixed text stay together.** -/
theorem together_of_unmixed (hu : Unmixed t) (hg : (groups (normalise t))[k]? = some g)
    (hseveral : g.Several) : Together t k g := by
  have hshort := hu.short g (List.mem_of_getElem? hg)
  have hsorted := made_pairwise hseveral hshort k
  have hown := shown_filter hg hsorted
  have hlength : (g.made k).length = (entries g.list).length := length_made hseveral
  unfold Group.Several at hseveral
  obtain ⟨first, hfirst⟩ : ∃ m, (g.made k)[0]? = some m := ⟨_, List.getElem?_eq_getElem (by omega)⟩
  obtain ⟨last, hlast⟩ : ∃ m, (g.made k)[(g.made k).length - 1]? = some m :=
    ⟨_, List.getElem?_eq_getElem (by omega)⟩
  have hends := le_ends Made.le_refl hsorted hfirst hlast
  refine ⟨?_, joined_sources hseveral⟩
  obtain ⟨before, behind, hrow⟩ := exists_row Made.le_trans (shown_pairwise t g.path) first last
  refine ⟨before, behind, ?_⟩
  have hmiddle : (shown t g.path).filter (fun m => Made.le first m && Made.le m last) =
      (shown t g.path).filter fun m => m.group? = some k := by
    refine List.filter_congr fun m hm => ?_
    rw [Bool.eq_iff_iff, Bool.and_eq_true, decide_eq_true_eq]
    refine ⟨fun ⟨hlow, hhigh⟩ => ?_, fun hgroup => hends m ?_⟩
    · exact group?_of_between hu hg hseveral (List.mem_of_getElem? hfirst) (List.mem_of_getElem? hlast) hm hlow
        hhigh
    · rw [← hown]
      exact List.mem_filter.mpr ⟨hm, decide_eq_true hgroup⟩
  rw [hmiddle, hown] at hrow
  exact hrow

/-! ## 5. What keeps a group together -/

theorem Together.made_pairwise (h : Together t k g) : (g.made k).Pairwise fun a b => Made.le a b = true := by
  obtain ⟨before, behind, hrow⟩ := h.row
  have hshown := shown_pairwise t g.path
  rw [hrow] at hshown
  exact (List.pairwise_append.mp (List.pairwise_append.mp hshown).2.1).1

/-- **Eleven entries are out of order.** -/
theorem length_le_of_together (h : Together t k g) : (entries g.list).length ≤ 10 := by
  by_contra hlong
  have hseveral : g.Several := by
    unfold Group.Several
    omega
  have hlength : (g.made k).length = (entries g.list).length := length_made hseveral
  have hone : 1 < (g.made k).length := by omega
  have hten : 10 < (g.made k).length := by omega
  have hle := List.pairwise_iff_getElem.mp h.made_pairwise 1 10 hone hten (by decide)
  have hbefore := Declaration.ten_before_one (ordinal_of_made hseveral (List.getElem?_eq_getElem hten))
    (ordinal_of_made hseveral (List.getElem?_eq_getElem hone))
  rw [not_le_of_before hbefore] at hle
  cases hle

/-- Where the first two entries of a group stand. -/
theorem Together.exists_place (h : Together t k g) (hseveral : g.Several) :
    ∃ (n : Nat) (a b : Made), (shown t g.path)[n]? = some a ∧ (shown t g.path)[n + 1]? = some b ∧
      a.group? = some k ∧ b.group? = some k ∧ a.declaration.ordinal = some 0 ∧ b.declaration.ordinal = some 1 := by
  obtain ⟨before, behind, hrow⟩ := h.row
  have hlength : (g.made k).length = (entries g.list).length := length_made hseveral
  have htwo : 1 < (g.made k).length := by
    unfold Group.Several at hseveral
    omega
  have hplace : ∀ i (hi : i < (g.made k).length),
      (shown t g.path)[before.length + i]? = some (g.made k)[i] := by
    intro i hi
    rw [hrow, List.getElem?_append_right (by omega), Nat.add_sub_cancel_left, List.getElem?_append_left hi,
      List.getElem?_eq_getElem hi]
  exact ⟨before.length, _, _, hplace 0 (by omega), hplace 1 htwo, group?_of_mem_made (List.getElem_mem _),
    group?_of_mem_made (List.getElem_mem _),
    ordinal_of_made hseveral (List.getElem?_eq_getElem (by omega)),
    ordinal_of_made hseveral (List.getElem?_eq_getElem htwo)⟩

/-- No group starts behind another of the same namespace: its first entry comes before their second. -/
theorem not_lt_of_places {path : Text} {m n : Nat} {a b : Made} (hjk : j ≠ k)
    (ha : (shown t path)[m + 1]? = some a) (hb : (shown t path)[n]? = some b) (hga : a.group? = some j)
    (hgb : b.group? = some k) (hoa : a.declaration.ordinal = some 1) (hob : b.declaration.ordinal = some 0) :
    ¬m < n := by
  intro hmn
  have hne : m + 1 ≠ n := by
    rintro rfl
    rw [ha] at hb
    cases hb
    rw [hga] at hgb
    exact hjk (Option.some.inj hgb)
  obtain ⟨hm, rfl⟩ := List.getElem?_eq_some_iff.mp ha
  obtain ⟨hn, rfl⟩ := List.getElem?_eq_some_iff.mp hb
  have hle := List.pairwise_iff_getElem.mp (shown_pairwise t path) (m + 1) n hm hn (by omega)
  rw [not_le_of_before (Declaration.before_of_ordinal hob hoa (by decide) (by decide))] at hle
  cases hle

/-- **Groups that stay together share no namespace.** -/
theorem eq_of_together (hg : Together t j g) (hh : Together t k h) (hseveral : g.Several) (hother : h.Several)
    (hpath : g.path = h.path) : j = k := by
  by_contra hjk
  obtain ⟨m, a, b, ha, hb, hga, hgb, hoa, hob⟩ := hg.exists_place hseveral
  obtain ⟨n, c, d, hc, hd, hgc, hgd, hoc, hod⟩ := hh.exists_place hother
  rw [← hpath] at hc hd
  have hmn := not_lt_of_places hjk hb hc hgb hgc hob hoc
  have hnm := not_lt_of_places (Ne.symm hjk) hd ha hgd hga hod hoa
  have heq : m = n := by omega
  subst heq
  rw [ha] at hc
  cases hc
  rw [hga] at hgc
  exact hjk (Option.some.inj hgc)

/-- **Nothing without a number lies between the entries of a group that stays together.** -/
theorem apart_of_together (h : Together t k g) (hseveral : g.Several) {d : Declaration} (hd : d ∈ parse t)
    (hpath : d.path = g.path) (hkind : d.kind.isStandalone = false) (hordinal : d.ordinal = none)
    {a b : Declaration} (ha : a ∈ g.declarations) (hb : b ∈ g.declarations) : ¬(a.Before d ∧ d.Before b) := by
  rintro ⟨had, hdb⟩
  obtain ⟨before, behind, hrow⟩ := h.row
  have hsorted := shown_pairwise t g.path
  rw [← sorted_declarations] at hd
  obtain ⟨m, hm, rfl⟩ := List.mem_map.mp hd
  have hshown : m ∈ shown t g.path := by
    refine List.mem_filter.mpr ⟨hm, ?_⟩
    unfold Made.isShown
    rw [hpath, hkind]
    simp
  have ha' : (⟨a, some k⟩ : Made) ∈ g.made k := List.mem_map_of_mem ha
  have hb' : (⟨b, some k⟩ : Made) ∈ g.made k := List.mem_map_of_mem hb
  rw [hrow] at hshown hsorted
  obtain ⟨-, hsorted, hbefore⟩ := List.pairwise_append.mp hsorted
  obtain ⟨-, -, hbehind⟩ := List.pairwise_append.mp hsorted
  rcases List.mem_append.mp hshown with hm | hm
  · have hle := hbefore m hm _ (List.mem_append_left _ ha')
    rw [not_le_of_before had] at hle
    cases hle
  · rcases List.mem_append.mp hm with hm | hm
    · obtain ⟨n, hn⟩ := List.mem_iff_getElem?.mp hm
      rw [ordinal_of_made hseveral hn] at hordinal
      cases hordinal
    · have hle := hbehind _ hb' m hm
      rw [not_le_of_before hdb] at hle
      cases hle

theorem unmixed_of_together
    (h : ∀ (k : Nat) (g : Group), (groups (normalise t))[k]? = some g → g.Several → Together t k g) :
    Unmixed t where
  short g hg := by
    obtain ⟨k, hk⟩ := List.mem_iff_getElem?.mp hg
    by_cases hseveral : g.Several
    · exact length_le_of_together (h k g hk hseveral)
    · unfold Group.Several at hseveral
      omega
  alone j k g h' hg hh hseveral hother hpath :=
    eq_of_together (h j g hg hseveral) (h k h' hh hother) hseveral hother hpath
  apart g hg hseveral d hd hpath hkind hordinal a ha b hb := by
    obtain ⟨k, hk⟩ := List.mem_iff_getElem?.mp hg
    exact apart_of_together (h k g hk hseveral) hseveral hd hpath hkind hordinal ha hb

/-- **All groups of a text stay together if and only if the text is unmixed**, and what is shown in a block is
    what the content of its declarations holds. -/
theorem together_iff (t : Text) :
    (∀ d : Declaration, (shown t d.path).map Made.declaration = (parse t).filter d.sharesBlock) ∧
    ((∀ (k : Nat) (g : Group), (groups (normalise t))[k]? = some g → g.Several → Together t k g) ↔ Unmixed t) :=
  ⟨shown_declarations t, unmixed_of_together, fun hu _ _ hg hseveral => together_of_unmixed hu hg hseveral⟩

/-- A group of eleven entries. -/
def eleven : Text := "namespace A {
    export { a, b, c, d, e, f, g, h, i, j, k };
}".toList

/-- **The group of eleven entries does not stay together.** -/
theorem not_together_eleven :
    ¬∀ (k : Nat) (g : Group), (groups (normalise eleven))[k]? = some g → g.Several → Together eleven k g := by
  intro h
  have hgroups : (groups (normalise eleven))[0]? =
      some ⟨['A'], " a, b, c, d, e, f, g, h, i, j, k ".toList⟩ := by decide +kernel
  have hentries : (entries " a, b, c, d, e, f, g, h, i, j, k ".toList).length = 11 := by decide +kernel
  have hseveral : Group.Several ⟨['A'], " a, b, c, d, e, f, g, h, i, j, k ".toList⟩ := by
    unfold Group.Several
    rw [hentries]
    decide
  have hten := length_le_of_together (h 0 _ hgroups hseveral)
  rw [hentries] at hten
  cases hten.not_gt (by decide)

end Sorted

end ReExport
end Ambient
