import Ambient.Proofs.Catalogue.Ingest
import Mathlib.Algebra.GroupWithZero.Nat
import Mathlib.Data.List.Induction
import Mathlib.Data.List.Nodup
import Mathlib.Data.List.Range

/-!
# What a catalogue represents

A catalogue is one sorted list and a set of keys. What it stands for is simpler: of every file taken in since
the last reset, the list of declarations that came with it first.

* `after calls`: the catalogue after any calls, from the empty one;
* `firstList calls file`: the list of the first call for the file since the last reset;
* `after_holds`: the catalogue after the calls holds exactly these lists;
* `Holds.inFile_eq`: the entries of a file, by place, are its list, numbered from 0;
* `Represents`, `after_represents`: what follows for the order of the entries, for the answers of the next
  call, for the size, and for the siblings of every declaration.
-/

namespace Ambient

/-! ## 1. Entries -/

namespace Entry

/-- Strictly before: by id, then by file, then by place. -/
def Before (a b : Entry) : Prop :=
  Text.le b.declaration.id a.declaration.id = false ∨
    (a.declaration.id = b.declaration.id ∧
      (FileKey.le b.file a.file = false ∨ (a.file = b.file ∧ a.ordinal < b.ordinal)))

/-- An entry is strictly before another if it comes no later and they differ in one of the three keys. -/
theorem before_of_le {a b : Entry} (hle : le a b = true)
    (hne : ¬(a.declaration.id = b.declaration.id ∧ a.file = b.file ∧ a.ordinal = b.ordinal)) : Before a b := by
  rw [le_iff] at hle
  rcases hle with ⟨h, hid⟩ | ⟨hid, h, hfile⟩ | ⟨hid, hfile, hord⟩
  · refine Or.inl ?_
    rw [← Bool.not_eq_true]
    exact fun hba => hid (Text.le_antisymm h hba)
  · refine Or.inr ⟨hid, Or.inl ?_⟩
    rw [← Bool.not_eq_true]
    exact fun hba => hfile (FileKey.le_antisymm h hba)
  · have hord' : a.ordinal ≠ b.ordinal := fun e => hne ⟨hid, hfile, e⟩
    exact Or.inr ⟨hid, Or.inr ⟨hfile, by omega⟩⟩

section OfFile

variable (file : FileKey) (ds : List Declaration)

/-- The entries of a file are numbered from 0. -/
theorem map_ordinal_ofFile : (ofFile file ds).map ordinal = List.range ds.length := by
  unfold ofFile
  rw [List.mapIdx_eq_zipIdx_map, List.map_map, List.range_eq_range']
  exact List.zipIdx_map_snd 0 ds

theorem map_declaration_ofFile : (ofFile file ds).map declaration = ds := by
  unfold ofFile
  rw [List.mapIdx_eq_zipIdx_map, List.map_map]
  exact List.zipIdx_map_fst 0 ds

theorem length_ofFile : (ofFile file ds).length = ds.length := List.length_mapIdx

theorem nodup_ofFile : (ofFile file ds).Nodup := by
  refine List.Nodup.of_map ordinal ?_
  rw [map_ordinal_ofFile]
  exact List.nodup_range

theorem ofFile_pairwise : (ofFile file ds).Pairwise fun a b => decide (a.ordinal ≤ b.ordinal) = true := by
  have h : ((ofFile file ds).map ordinal).Pairwise (· ≤ ·) := by
    rw [map_ordinal_ofFile]
    exact List.pairwise_le_range
  exact (List.pairwise_map.mp h).imp decide_eq_true

end OfFile

end Entry

namespace Catalogue

/-! ## 2. Files of a catalogue -/

/-- The entries of a file, by place. -/
def inFile (c : Catalogue) (file : FileKey) : List Entry :=
  (c.entries.filter fun e => e.file = file).mergeSort fun a b => decide (a.ordinal ≤ b.ordinal)

theorem siblings_eq (c : Catalogue) (e : Entry) : c.siblings e = (c.inFile e.file).map Entry.declaration := rfl

section Holding

variable {content : FileKey → List Declaration} {c : Catalogue}

theorem Holds.nodup_entries (h : Holds content c) : c.entries.Nodup := by
  rw [h.perm.nodup_iff, List.nodup_flatMap]
  refine ⟨fun file _ => Entry.nodup_ofFile file _, h.nodup.imp fun hne e he he' => hne ?_⟩
  exact (Entry.mem_ofFile.mp he).1.symm.trans (Entry.mem_ofFile.mp he').1

/-- **No two entries agree in id, file and place**, so the order of the entries is strict. -/
theorem Holds.increasing (h : Holds content c) : c.entries.Pairwise Entry.Before := by
  refine (h.sorted.and h.nodup_entries).imp_of_mem fun {a b} ha hb hab => Entry.before_of_le hab.1 ?_
  rintro ⟨-, hfile, hord⟩
  exact hab.2 (h.eq_of_file_ordinal ha hb hfile hord)

/-- **The entries of a file, by place, are its list, numbered from 0.** -/
theorem Holds.inFile_eq (h : Holds content c) {file : FileKey} (hfile : file ∈ c.accepted) :
    c.inFile file = Entry.ofFile file (content file) := by
  have hperm : (c.inFile file).Perm (Entry.ofFile file (content file)) := by
    refine (List.mergeSort_perm _ _).trans ?_
    rw [List.perm_ext_iff_of_nodup (h.nodup_entries.filter _) (Entry.nodup_ofFile file _)]
    intro e
    rw [List.mem_filter, decide_eq_true_eq, h.mem_entries, Entry.mem_ofFile]
    constructor
    · rintro ⟨⟨-, hd⟩, rfl⟩
      exact ⟨rfl, hd⟩
    · rintro ⟨rfl, hd⟩
      exact ⟨⟨hfile, hd⟩, rfl⟩
  have hsorted : (c.inFile file).Pairwise fun a b => decide (a.ordinal ≤ b.ordinal) = true := by
    refine List.pairwise_mergeSort ?_ ?_ _
    · intro a b d hab hbd
      rw [decide_eq_true_eq] at hab hbd ⊢
      omega
    · intro a b
      rw [Bool.or_eq_true, decide_eq_true_eq, decide_eq_true_eq]
      omega
  refine List.Perm.eq_of_pairwise ?_ hsorted (Entry.ofFile_pairwise file _) hperm
  intro a b ha hb hab hba
  rw [decide_eq_true_eq] at hab hba
  obtain ⟨ha', had⟩ := Entry.mem_ofFile.mp (hperm.mem_iff.mp ha)
  obtain ⟨hb', hbd⟩ := Entry.mem_ofFile.mp hb
  have hord : a.ordinal = b.ordinal := Nat.le_antisymm hab hba
  rw [hord, hbd] at had
  cases a
  cases b
  simp only at ha' hb' hord had
  rw [ha', hb', hord, Option.some.inj had]

/-- The siblings of an entry are the list of its file. -/
theorem Holds.siblings_eq (h : Holds content c) {e : Entry} (hfile : e.file ∈ c.accepted) :
    c.siblings e = content e.file := by
  rw [Catalogue.siblings_eq, h.inFile_eq hfile, Entry.map_declaration_ofFile]

/-- The files taken in, in whichever order they are counted, have all declarations between them. -/
theorem Holds.size_eq (h : Holds content c) :
    c.size = (c.files.map fun file => (content file).length).sum := by
  have hperm : c.files.Perm c.accepted := List.mergeSort_perm _ _
  rw [(hperm.map _).sum_nat]
  unfold size
  rw [h.perm.length_eq, List.length_flatMap]
  simp only [Entry.length_ofFile]

end Holding

/-! ## 3. Calls -/

/-- What is done to a catalogue. -/
inductive Call where
  | ingest (file : FileKey) (ds : List Declaration)
  /-- Every file and every declaration is forgotten. -/
  | reset

namespace Call

/-- The catalogue after a call. -/
def act (c : Catalogue) : Call → Catalogue
  | ingest file ds => c.ingest file ds
  | reset => empty

def isReset : Call → Bool
  | reset => true
  | ingest _ _ => false

/-- The list that the call brings for a file. -/
def list? (file : FileKey) : Call → Option (List Declaration)
  | ingest g ds => if g = file then some ds else none
  | reset => none

end Call

/-- The catalogue after calls, from the empty one. -/
def after (calls : List Call) : Catalogue := calls.foldl Call.act empty

/-- The calls since the last reset. -/
def sinceReset (calls : List Call) : List Call := (calls.reverse.takeWhile fun call => !call.isReset).reverse

/-- **The list of the first call for a file since the last reset.** -/
def firstList (calls : List Call) (file : FileKey) : Option (List Declaration) :=
  (sinceReset calls).findSome? (Call.list? file)

section Run

variable {calls : List Call} {file : FileKey} {ds : List Declaration}

theorem after_concat (calls : List Call) (call : Call) : after (calls ++ [call]) = call.act (after calls) :=
  List.foldl_concat ..

theorem firstList_reset : firstList (calls ++ [.reset]) file = none := by
  unfold firstList sinceReset
  rw [List.reverse_append]
  rfl

theorem firstList_ingest {g : FileKey} :
    firstList (calls ++ [.ingest g ds]) file = (firstList calls file).or (if g = file then some ds else none) := by
  unfold firstList sinceReset
  rw [List.reverse_append, List.reverse_singleton, List.singleton_append, List.takeWhile_cons_of_pos rfl,
    List.reverse_cons, List.findSome?_append, List.findSome?_singleton]
  rfl

/-- A file is known exactly if it came with a list since the last reset. -/
theorem mem_accepted_after : file ∈ (after calls).accepted ↔ (firstList calls file).isSome = true := by
  induction calls using List.reverseRecOn with
  | nil => exact ⟨fun h => absurd h List.not_mem_nil, fun h => absurd h Bool.false_ne_true⟩
  | append_singleton calls call ih =>
    rw [after_concat]
    cases call with
    | reset =>
      rw [firstList_reset]
      exact ⟨fun h => absurd h List.not_mem_nil, fun h => absurd h Bool.false_ne_true⟩
    | ingest g ds =>
      rw [firstList_ingest]
      show file ∈ ((after calls).ingest g ds).accepted ↔ _
      rw [mem_accepted_ingest, ih, Option.isSome_or, Bool.or_eq_true, or_comm, eq_comm (a := file)]
      by_cases hg : g = file
      · simp [hg]
      · simp [hg]

/-- **After any calls the catalogue holds, of each file, the list of its first call since the last reset.** -/
theorem after_holds (calls : List Call) : Holds (fun file => (firstList calls file).getD []) (after calls) := by
  induction calls using List.reverseRecOn with
  | nil => exact holds_empty
  | append_singleton calls call ih =>
    rw [after_concat]
    cases call with
    | reset => exact holds_empty
    | ingest g ds =>
      have hknown : Holds (fun file => (firstList (calls ++ [.ingest g ds]) file).getD []) (after calls) := by
        refine ih.congr fun file hfile => ?_
        obtain ⟨first, hfirst⟩ := Option.isSome_iff_exists.mp (mem_accepted_after.mp hfile)
        rw [firstList_ingest, hfirst]
        rfl
      refine hknown.ingest fun hnew => ?_
      have hnone : firstList calls g = none := by
        rw [← Option.not_isSome_iff_eq_none]
        exact fun h => hnew (mem_accepted_after.mpr h)
      simp only [firstList_ingest, hnone, Option.none_or, if_true, Option.getD_some]

theorem added?_after :
    (after calls).added? file ds = if firstList calls file = none then some ds.length else none := by
  unfold added?
  by_cases hfirst : firstList calls file = none
  · have hnew : file ∉ (after calls).accepted := by
      rw [mem_accepted_after, hfirst]
      exact Bool.false_ne_true
    rw [ingest?_of_not_mem hnew, if_pos hfirst]
    rfl
  · have hold : file ∈ (after calls).accepted :=
      mem_accepted_after.mpr (Option.isSome_iff_ne_none.mpr hfirst)
    rw [ingest?_of_mem hold, if_neg hfirst]
    rfl

end Run

/-! ## 4. Representation -/

/-- **What a catalogue represents after calls.** -/
structure Represents (calls : List Call) (c : Catalogue) : Prop where
  /-- The entries are strictly increasing in id, file and place. -/
  increasing : c.entries.Pairwise Entry.Before
  /-- The file of every entry has been taken in. -/
  owned : ∀ e ∈ c.entries, c.containsFile e.file = true
  /-- Taken in are the files that came with a list since the last reset, each once. -/
  contains : ∀ file, c.containsFile file = true ↔ (firstList calls file).isSome = true
  files : c.files.Nodup ∧ ∀ file, file ∈ c.files ↔ c.containsFile file = true
  /-- The entries of such a file, by place, are numbered from 0 and are the list that it first came with. -/
  lists : ∀ file ds, firstList calls file = some ds →
    (c.inFile file).map Entry.ordinal = List.range ds.length ∧ (c.inFile file).map Entry.declaration = ds
  /-- The next call for a file adds its list, if the file has not come since the last reset. -/
  adding : ∀ file ds, firstList calls file = none → c.added? file ds = some ds.length
  /-- Otherwise it is refused, and nothing changes. -/
  refusing : ∀ file ds, firstList calls file ≠ none → c.added? file ds = none ∧ c.ingest file ds = c
  /-- The size is the sum of the lengths of these lists. -/
  size : c.size = (c.files.map fun file => ((firstList calls file).getD []).length).sum
  /-- The siblings of every entry are the list of its file, and its declaration stands among them at its
      place. -/
  siblings : ∀ place e, c.entries[place]? = some e → ∃ ds, firstList calls e.file = some ds ∧
    c.siblingsOf (.entry place) = ds ∧ ds[e.ordinal]? = some e.declaration
  /-- A declaration that belongs to no entry has no siblings. -/
  strangers : ∀ r, c.owner? r = none → c.siblingsOf r = []

/-- **After any calls a catalogue represents the first lists since the last reset.** -/
theorem after_represents (calls : List Call) : Represents calls (after calls) := by
  have h := after_holds calls
  refine
    { increasing := h.increasing
      owned := fun e he => containsFile_iff.mpr (h.mem_entries.mp he).1
      contains := fun file => containsFile_iff.trans mem_accepted_after
      files := ⟨(List.mergeSort_perm _ _).nodup_iff.mpr h.nodup, fun file => ?_⟩
      lists := fun file ds hfirst => ?_
      adding := fun file ds hfirst => ?_
      refusing := fun file ds hfirst => ⟨?_, ?_⟩
      size := h.size_eq
      siblings := fun place e he => ?_
      strangers := fun r hr => ?_ }
  · rw [containsFile_iff]
    exact List.mem_mergeSort
  · have hmem : file ∈ (after calls).accepted := by
      rw [mem_accepted_after, hfirst]
      rfl
    rw [h.inFile_eq hmem, Entry.map_ordinal_ofFile, Entry.map_declaration_ofFile, hfirst]
    exact ⟨rfl, rfl⟩
  · rw [added?_after, if_pos hfirst]
  · rw [added?_after, if_neg hfirst]
  · exact ingest_of_mem (mem_accepted_after.mpr (Option.isSome_iff_ne_none.mpr hfirst))
  · obtain ⟨hfile, hplace⟩ := h.mem_entries.mp (List.mem_of_getElem? he)
    obtain ⟨ds, hfirst⟩ := Option.isSome_iff_exists.mp (mem_accepted_after.mp hfile)
    simp only [hfirst, Option.getD_some] at hplace
    refine ⟨ds, hfirst, ?_, hplace⟩
    unfold siblingsOf owner?
    simp only [he]
    rw [h.siblings_eq hfile, hfirst]
    rfl
  · unfold siblingsOf
    rw [hr]

end Catalogue
end Ambient
