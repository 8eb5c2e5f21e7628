import Ambient.Proofs.Catalogue.Representation
import Ambient.Proofs.Scanner.OpeningOrder
import Mathlib.Data.List.NodupEquivFin

/-!
# Declarations that share an id keep their source order

Declarations of one id, the overloads of a function say, are told apart by their lines only. On their way from
the text to an answer they are sorted twice, and once more in between with those of other files; the order of
their opening lines is never lost.

* `ranked t`: the declarations of a text in sorted order, each with its number in the order before;
* `Spot`: the line on which a declaration opens and its place in the sorted list;
* `pair_sublist_ranked`, `Spot.Leads.place_lt`: sorting keeps declarations of one id in order;
* `Holds.pair_sublist_entries`: so does the catalogue;
* `InSourceOrder`, `inSourceOrder_after`: so do all answers, after any calls.

In a list without repetitions `[a, b] <+ l` says that `a` stands in it before `b`.
-/

namespace Ambient

open Scanner
open scoped List

/-! ## 1. Lists -/

section Lists

variable {α : Type} {l : List α} {a b : α} {i j : Nat}

theorem pair_sublist (ha : l[i]? = some a) (hb : l[j]? = some b) (hij : i < j) : [a, b] <+ l := by
  obtain ⟨hi, rfl⟩ := List.getElem?_eq_some_iff.mp ha
  obtain ⟨hj, rfl⟩ := List.getElem?_eq_some_iff.mp hb
  have hleft : l[i] ∈ l.take (i + 1) := List.mem_take_iff_getElem.mpr ⟨i, by omega, rfl⟩
  have hright : l[j] ∈ l.drop (i + 1) := List.mem_drop_iff_getElem.mpr ⟨j - (i + 1), by omega, by congr 1; omega⟩
  have h := (List.singleton_sublist.mpr hleft).append (List.singleton_sublist.mpr hright)
  rw [List.take_append_drop] at h
  exact h

/-- Of two members of a list, the one that may not come later comes first. -/
theorem pair_sublist_of_pairwise {r : α → α → Prop} (hl : l.Pairwise r) (ha : a ∈ l) (hb : b ∈ l)
    (hne : a ≠ b) (hba : ¬r b a) : [a, b] <+ l := by
  obtain ⟨before, behind, rfl⟩ := List.append_of_mem ha
  rcases List.mem_append.mp hb with hb | hb
  · exact absurd ((List.pairwise_append.mp hl).2.2 b hb a List.mem_cons_self) hba
  · have hbehind : b ∈ behind := (List.mem_cons.mp hb).resolve_left (Ne.symm hne)
    exact (List.Sublist.cons_cons a (List.singleton_sublist.mpr hbehind)).trans (List.sublist_append_right _ _)

/-- Where nothing is repeated, places are in the same order. -/
theorem lt_of_pair_sublist (hl : l.Nodup) (h : [a, b] <+ l) (ha : l[i]? = some a) (hb : l[j]? = some b) :
    i < j := by
  obtain ⟨f, hf⟩ := List.sublist_iff_exists_orderEmbedding_getElem?_eq.mp h
  have hplace : ∀ {n m : Nat} {x : α}, l[n]? = some x → l[m]? = some x → n = m := by
    intro n m x hn hm
    exact (List.getElem?_inj (List.getElem?_eq_some_iff.mp hn).1 hl).mp (hn.trans hm.symm)
  have hi : i = f 0 := hplace ha (hf 0).symm
  have hj : j = f 1 := hplace hb (hf 1).symm
  rw [hi, hj]
  exact f.strictMono Nat.zero_lt_one

end Lists

/-! ## 2. Sorting a file -/

/-- The declarations of a text before sorting, those of the scanner first. -/
def unsorted (t : Text) : List Declaration :=
  scan (Text.lines (normalise t)) ++ ReExport.declarations (normalise t)

/-- The declarations of a text as they are sorted, each with its number before sorting. -/
def ranked (t : Text) : List (Declaration × Nat) :=
  (unsorted t).zipIdx.mergeSort fun a b => Declaration.le a.1 b.1

/-- Numbers have no say in the sorting. -/
theorem map_ranked (t : Text) : (ranked t).map Prod.fst = parse t := by
  have hmap : (ranked t).map Prod.fst = ((unsorted t).zipIdx.map Prod.fst).mergeSort Declaration.le :=
    List.map_mergeSort fun a _ b _ => rfl
  rw [hmap, List.zipIdx_map_fst]
  rfl

/-- **Where a declaration of a text stands**: on which line it opens, and at which place of `parse t`. -/
structure Spot where
  line : Nat
  place : Nat
  declaration : Declaration

/-- The spot of the `i`th declaration of the scanner. -/
structure Spot.Of (t : Text) (i : Nat) (p : Spot) : Prop where
  line : Opens (Text.lines (normalise t)) p.line i
  place : (ranked t)[p.place]? = some (p.declaration, i)

/-- The entry of the declaration, once its file is taken in. -/
def Spot.entry (file : FileKey) (p : Spot) : Entry := ⟨file, p.place, p.declaration⟩

/-- **Two declarations of the scanner share an id, and `p` opens first.** -/
structure Spot.Leads (t : Text) (p q : Spot) : Prop where
  left : ∃ i, p.Of t i
  right : ∃ j, q.Of t j
  id : p.declaration.id = q.declaration.id
  line : p.line < q.line

section Sorting

variable {t : Text} {i j : Nat} {d e : Declaration} {p q : Spot}

theorem mem_ranked : (d, i) ∈ ranked t ↔ (unsorted t)[i]? = some d :=
  List.mem_mergeSort.trans List.mk_mem_zipIdx_iff_getElem?

theorem nodup_ranked (t : Text) : (ranked t).Nodup := by
  unfold ranked
  rw [(List.mergeSort_perm _ _).nodup_iff]
  refine List.Nodup.of_map Prod.snd ?_
  rw [List.zipIdx_map_snd]
  exact List.nodup_range'

theorem getElem?_unsorted (hi : i < (scan (Text.lines (normalise t))).length) :
    (unsorted t)[i]? = (scan (Text.lines (normalise t)))[i]? :=
  List.getElem?_append_left hi

/-- **Sorting by id is stable.** -/
theorem pair_sublist_ranked (hd : (unsorted t)[i]? = some d) (he : (unsorted t)[j]? = some e)
    (hid : d.id = e.id) (hij : i < j) : [(d, i), (e, j)] <+ ranked t := by
  have hplace : ∀ {n : Nat} {a : Declaration}, (unsorted t)[n]? = some a →
      (unsorted t).zipIdx[n]? = some (a, n) := by
    intro n a ha
    rw [List.getElem?_zipIdx, ha, Nat.zero_add]
    rfl
  refine List.pair_sublist_mergeSort (fun a b c hab hbc => Text.le_trans hab hbc)
    (fun a b => Bool.or_eq_true_iff.mpr (Text.le_total a.1.id b.1.id)) ?_ (pair_sublist (hplace hd) (hplace he) hij)
  show Text.le d.id e.id = true
  rw [hid]
  exact Text.le_refl e.id

/-- The declaration at a spot. -/
theorem Spot.Of.unsorted (h : p.Of t i) : (unsorted t)[i]? = some p.declaration :=
  mem_ranked.mp (List.mem_of_getElem? h.place)

theorem Spot.Of.scan (h : p.Of t i) : (scan (Text.lines (normalise t)))[i]? = some p.declaration := by
  obtain ⟨_, _, _, _, -, -, hd, -⟩ := h.line.declaration
  rw [← getElem?_unsorted (List.getElem?_eq_some_iff.mp hd).1]
  exact h.unsorted

theorem Spot.Of.parse (h : p.Of t i) : (parse t)[p.place]? = some p.declaration := by
  rw [← map_ranked, List.getElem?_map, h.place]
  rfl

/-- **Every declaration of the scanner has exactly one spot.** -/
theorem existsUnique_spot (hi : i < (Ambient.scan (Text.lines (normalise t))).length) : ∃! p, Spot.Of t i p := by
  obtain ⟨n, hn, huniq⟩ := existsUnique_opens hi
  have hd : (Ambient.unsorted t)[i]? = some (Ambient.scan (Text.lines (normalise t)))[i] := by
    rw [getElem?_unsorted hi]
    exact List.getElem?_eq_getElem hi
  obtain ⟨k, hk⟩ := List.getElem?_of_mem (mem_ranked.mpr hd)
  refine ⟨⟨n, k, _⟩, ⟨hn, hk⟩, fun p hp => ?_⟩
  have hdeclaration : p.declaration = (Ambient.scan (Text.lines (normalise t)))[i] :=
    Option.some.inj (hp.unsorted.symm.trans hd)
  have hplace : p.place = k := by
    refine (List.getElem?_inj (List.getElem?_eq_some_iff.mp hp.place).1 (nodup_ranked t)).mp ?_
    rw [hp.place, hk, hdeclaration]
  have hline : p.line = n := huniq p.line hp.line
  cases p
  simp only at hdeclaration hplace hline
  rw [hdeclaration, hplace, hline]

/-- **The one that opens first is sorted first.** -/
theorem Spot.Leads.place_lt (h : p.Leads t q) : p.place < q.place := by
  obtain ⟨i, hp⟩ := h.left
  obtain ⟨j, hq⟩ := h.right
  have hij : i < j := (hp.line.lt_iff hq.line).mp h.line
  exact lt_of_pair_sublist (nodup_ranked t) (pair_sublist_ranked hp.unsorted hq.unsorted h.id hij) hp.place
    hq.place

end Sorting

/-! ## 3. Answers -/

namespace Catalogue

/-- The entries whose declarations are suggested. -/
def suggested (c : Catalogue) (start : Text) : List Entry :=
  c.entries.filter fun e => start.isPrefixOf e.declaration.shortName

theorem suggest_eq (c : Catalogue) (start : Text) : c.suggest start = (c.suggested start).map Entry.declaration :=
  List.filter_map

/-- Entries of one id and one file are in file order. -/
theorem Holds.pair_sublist_entries {content : FileKey → List Declaration} {c : Catalogue} (h : Holds content c)
    {a b : Entry} (ha : a ∈ c.entries) (hb : b ∈ c.entries) (hid : a.declaration.id = b.declaration.id)
    (hfile : a.file = b.file) (hlt : a.ordinal < b.ordinal) : [a, b] <+ c.entries := by
  refine pair_sublist_of_pairwise h.increasing ha hb (fun e => Nat.lt_irrefl _ (e ▸ hlt)) ?_
  rintro (hle | ⟨-, hle | ⟨-, hba⟩⟩)
  · rw [hid, Text.le_refl] at hle
    exact Bool.false_ne_true hle.symm
  · rw [hfile, FileKey.le, Text.le_refl] at hle
    exact Bool.false_ne_true hle.symm
  · exact Nat.lt_asymm hlt hba

/-- **A catalogue shows the declarations of a text in source order**, wherever they share an id. -/
structure InSourceOrder (t : Text) (c : Catalogue) (file : FileKey) : Prop where
  /-- Every declaration of the scanner has one spot, with its place in `parse t` and an entry. -/
  spots : ∀ i d, (scan (Text.lines (normalise t)))[i]? = some d → ∃! p, Spot.Of t i p
  places : ∀ i p, Spot.Of t i p → (scan (Text.lines (normalise t)))[i]? = some p.declaration ∧
    (parse t)[p.place]? = some p.declaration ∧ p.entry file ∈ c.entries
  /-- No two entries are equal; the declarations are those of the entries, and so are the suggestions. -/
  entries : c.entries.Nodup ∧ c.declarations = c.entries.map Entry.declaration ∧
    ∀ start, c.suggest start = (c.suggested start).map Entry.declaration
  /-- The one that opens first comes first in `parse t`, -/
  parse : ∀ p q, Spot.Leads t p q → p.place < q.place
  /-- among all declarations, -/
  declarations : ∀ p q, Spot.Leads t p q → [p.entry file, q.entry file] <+ c.entries
  /-- among those suggested, if both are, -/
  suggest : ∀ start p q, Spot.Leads t p q → start <+: p.declaration.shortName →
    start <+: q.declaration.shortName → [p.entry file, q.entry file] <+ c.suggested start
  /-- and among the siblings of either, which are `parse t`. -/
  siblings : ∀ i p place, Spot.Of t i p → c.entries[place]? = some (p.entry file) →
    c.siblingsOf (.entry place) = Ambient.parse t

/-- **Overloads keep their source order**, whatever else the catalogue has been given. -/
theorem inSourceOrder_after {t : Text} {calls : List Call} {file : FileKey}
    (h : firstList calls file = some (parse t)) : InSourceOrder t (after calls) file := by
  have hholds := after_holds calls
  have hfile : file ∈ (after calls).accepted := by
    rw [mem_accepted_after, h]
    rfl
  have hentry : ∀ {i p}, Spot.Of t i p → p.entry file ∈ (after calls).entries := by
    intro i p hp
    rw [hholds.mem_entries]
    refine ⟨hfile, ?_⟩
    show ((firstList calls file).getD [])[p.place]? = some p.declaration
    rw [h]
    exact hp.parse
  have hpair : ∀ p q, Spot.Leads t p q → [p.entry file, q.entry file] <+ (after calls).entries := by
    intro p q hpq
    obtain ⟨i, hp⟩ := hpq.left
    obtain ⟨j, hq⟩ := hpq.right
    exact hholds.pair_sublist_entries (hentry hp) (hentry hq) hpq.id rfl hpq.place_lt
  refine
    { spots := fun i d hd => existsUnique_spot (List.getElem?_eq_some_iff.mp hd).1
      places := fun i p hp => ⟨hp.scan, hp.parse, hentry hp⟩
      entries := ⟨hholds.nodup_entries, rfl, suggest_eq (after calls)⟩
      parse := fun p q hpq => hpq.place_lt
      declarations := hpair
      suggest := fun start p q hpq hpstart hqstart => ?_
      siblings := fun i p place hp hplace => ?_ }
  · have hfilter := (hpair p q hpq).filter fun e => start.isPrefixOf e.declaration.shortName
    have hkept : [p.entry file, q.entry file].filter (fun e => start.isPrefixOf e.declaration.shortName) =
        [p.entry file, q.entry file] := by
      refine List.filter_eq_self.mpr fun e he => ?_
      rw [List.isPrefixOf_iff_prefix]
      rcases List.mem_pair.mp he with rfl | rfl
      · exact hpstart
      · exact hqstart
    rw [hkept] at hfilter
    exact hfilter
  · unfold siblingsOf owner?
    simp only [hplace]
    rw [hholds.siblings_eq hfile]
    show (firstList calls file).getD [] = _
    rw [h]
    rfl

/-- A function that is declared twice, the second time with fewer parameters. -/
def twoOverloads : Text :=
  "namespace A \x7b\n    export declare function f(x: T): T;\n    export declare function f(): T;\n\x7d\n".toList

theorem inSourceOrder_twoOverloads :
    (∃ p q, Spot.Leads twoOverloads p q) ∧
      firstList [.ingest ⟨"b".toList⟩ [], .reset, .ingest ⟨"a".toList⟩ (parse twoOverloads),
        .ingest ⟨"b".toList⟩ (parse twoOverloads), .ingest ⟨"a".toList⟩ []] ⟨"a".toList⟩ =
          some (parse twoOverloads) ∧
      InSourceOrder twoOverloads (after [.ingest ⟨"b".toList⟩ [], .reset,
        .ingest ⟨"a".toList⟩ (parse twoOverloads), .ingest ⟨"b".toList⟩ (parse twoOverloads),
        .ingest ⟨"a".toList⟩ []]) ⟨"a".toList⟩ := by
  have hfirst : firstList [.ingest ⟨"b".toList⟩ [], .reset, .ingest ⟨"a".toList⟩ (parse twoOverloads),
      .ingest ⟨"b".toList⟩ (parse twoOverloads), .ingest ⟨"a".toList⟩ []] ⟨"a".toList⟩ =
        some (parse twoOverloads) := rfl
  refine ⟨?_, hfirst, inSourceOrder_after hfirst⟩
  have hids : (scan (Text.lines (normalise twoOverloads))).map Declaration.id = ["A.f".toList, "A.f".toList] := by
    decide +kernel
  have hlength : (scan (Text.lines (normalise twoOverloads))).length = 2 := by
    rw [← List.length_map, hids]
    rfl
  have hid : ∀ {i p}, Spot.Of twoOverloads i p → ["A.f".toList, "A.f".toList][i]? = some p.declaration.id := by
    intro i p hp
    rw [← hids, List.getElem?_map, hp.scan]
    rfl
  obtain ⟨p, hp, -⟩ := existsUnique_spot (t := twoOverloads) (i := 0) (by rw [hlength]; decide)
  obtain ⟨q, hq, -⟩ := existsUnique_spot (t := twoOverloads) (i := 1) (by rw [hlength]; decide)
  have hpid : some "A.f".toList = some p.declaration.id := hid hp
  have hqid : some "A.f".toList = some q.declaration.id := hid hq
  exact ⟨p, q, ⟨0, hp⟩, ⟨1, hq⟩, Option.some.inj (hpid.symm.trans hqid),
    (hp.line.lt_iff hq.line).mpr Nat.zero_lt_one⟩

end Catalogue
end Ambient
