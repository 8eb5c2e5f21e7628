import Ambient.Proofs.Discovery.Regular
import Mathlib.Data.List.Pairwise

/-!
# What is asked of a source

A source gives its keys in order, each once, and the text of each. A discovery HONOURS that if moreover the path of
every key is that of a file that is found and wanted, which can be read, and different keys are those of different
files.

Files are taken in the order of the names on their paths. So there are two ways for a discovery to fail, and no other
(`honours_iff`): two files are taken whose paths cross, as those of `a/b` and `a-b/c` do, and their keys are out of
order; or there is a backslash in the path of a file that is taken. Its key is then the path of something else, which
is another file that is taken, with the same key, or none that is found.
-/

namespace Ambient.Discovery

/-! ## 1. The files that are taken -/

/-- The names of the files that are taken. -/
def taken (d : Discovery) (w : Workspace) : Except SourceError (List (List Text)) :=
  (d.allFiles w).map fun files => ((files.filter d.isWanted).mergeSort namesLe).take d.settings.maxFiles.toNat

/-- The names are those of a file that is found. -/
def Finds (d : Discovery) (w : Workspace) (names : List Text) : Prop :=
  ∃ files, d.allFiles w = .ok files ∧ names ∈ files

variable {s : DiscoverySettings} {w : Workspace} {d : Discovery} {files : List (List Text)} {x y : List Text}

/-- **The keys are those of the files that are taken.** -/
theorem keys_eq_taken (d : Discovery) (w : Workspace) : d.keys w = (d.taken w).map (List.map keyOf) := by
  unfold keys paths taken
  cases d.allFiles w with
  | error _ => rfl
  | ok files => exact congrArg Except.ok List.map_map

theorem exists_of_taken (h : d.taken w = .ok files) : ∃ all, d.allFiles w = .ok all ∧
    files = ((all.filter d.isWanted).mergeSort namesLe).take d.settings.maxFiles.toNat := by
  unfold taken at h
  cases hall : d.allFiles w with
  | error _ =>
    rw [hall] at h
    cases h
  | ok all =>
    rw [hall] at h
    cases h
    exact ⟨all, rfl, rfl⟩

theorem pairwise_namesLe (names : List (List Text)) :
    (names.mergeSort namesLe).Pairwise fun x y => namesLe x y = true :=
  @List.pairwise_mergeSort _ namesLe (fun _ _ _ => namesLe_trans)
    (fun x y => Bool.or_eq_true_iff.mpr (namesLe_total x y)) names

/-- Files that are found in order are taken as they are found. -/
theorem taken_of_pairwise {all : List (List Text)} (h : d.allFiles w = .ok all)
    (hsorted : (all.filter d.isWanted).Pairwise fun x y => namesLe x y = true) :
    d.taken w = .ok ((all.filter d.isWanted).take d.settings.maxFiles.toNat) := by
  unfold taken
  rw [h]
  exact congrArg (fun names => Except.ok (List.take _ names)) (List.mergeSort_of_pairwise hsorted)

/-- What is taken is found and wanted. -/
theorem finds_of_mem (h : d.taken w = .ok files) (hx : x ∈ files) : d.Finds w x ∧ d.isWanted x = true := by
  obtain ⟨all, hall, rfl⟩ := exists_of_taken h
  have hmem := List.mem_filter.mp ((List.mergeSort_perm _ _).mem_iff.mp (List.mem_of_mem_take hx))
  exact ⟨⟨all, hall, hmem.1⟩, hmem.2⟩

/-- **What comes before a file that is taken is taken.** -/
theorem mem_of_namesLe (h : d.taken w = .ok files) (hx : x ∈ files) (hy : d.Finds w y) (hwanted : d.isWanted y = true)
    (hle : namesLe y x = true) : y ∈ files := by
  obtain ⟨all, hall, rfl⟩ := exists_of_taken h
  obtain ⟨all', hall', hmem⟩ := hy
  cases hall.symm.trans hall'
  have hsorted := pairwise_namesLe (all.filter d.isWanted)
  have hy : y ∈ (all.filter d.isWanted).mergeSort namesLe :=
    (List.mergeSort_perm _ _).mem_iff.mpr (List.mem_filter.mpr ⟨hmem, hwanted⟩)
  rw [← List.take_append_drop d.settings.maxFiles.toNat ((all.filter d.isWanted).mergeSort namesLe)] at hsorted hy
  rcases List.mem_append.mp hy with htake | hdrop
  · exact htake
  · have hxy := (List.pairwise_append.mp hsorted).2.2 x hx y hdrop
    rwa [namesLe_antisymm hle hxy]

/-- **Files are taken in order**, and each once. -/
theorem pairwise_taken (hw : w.IsProper) (hinside : StaysInside s w) (hd : ofSettings w s = .ok d)
    (h : d.taken w = .ok files) : files.Pairwise fun x y => namesLe x y = true ∧ x ≠ y := by
  obtain ⟨all, hall, rfl⟩ := exists_of_taken h
  have hnodup : ((all.filter d.isWanted).mergeSort namesLe).Nodup :=
    (List.mergeSort_perm _ _).nodup_iff.mpr ((nodup_allFiles hw hinside hd hall).filter _)
  exact ((pairwise_namesLe _).and hnodup).sublist (List.take_sublist _ _)

/-- The names of a file that is found are not empty and without slash. -/
theorem names_of_finds (hw : w.IsProper) (hinside : StaysInside s w) (hd : ofSettings w s = .ok d)
    (hx : d.Finds w x) : x ≠ [] ∧ (pathOfNames x).head? ≠ some '/' ∧ ∀ name ∈ x, name ≠ [] ∧ '/' ∉ name := by
  obtain ⟨all, hall, hmem⟩ := hx
  obtain ⟨hne, hproper, -⟩ := leadsToFile_of_mem hw hinside hd hall hmem
  exact ⟨hne, (path_of_names hne hproper).2.1, fun name hname => not_mem_of_isName (hproper name hname)⟩

/-! ## 2. The contract -/

/-- **What is asked of the keys that a discovery gives.** -/
structure Honours (d : Discovery) (w : Workspace) (keys : List FileKey) : Prop where
  /-- The keys are in order, and each is given once. -/
  increasing : keys.Pairwise fun a b => FileKey.le a b = true ∧ a ≠ b
  /-- The path of a key is that of a file that is found and wanted. -/
  matched : ∀ key ∈ keys, ∃ names, d.Finds w names ∧ d.isWanted names = true ∧
    d.pathOf key = Path.join d.settings.root (pathOfNames names)
  /-- There is a file. -/
  opens : ∀ key ∈ keys, ∃ links q content, OpensFile d.settings w (d.pathOf key) links q content
  /-- It can be read, unless its bytes are no text, or its path leads through too many links. -/
  reads : ∀ key ∈ keys, ∀ fault, d.read w key = .error fault →
    fault = .read (d.pathOf key) .notUnicode ∨
      d.settings.followLinks = true ∧ fault = .read (d.pathOf key) .linkLoop
  /-- Different keys have different paths, which lead to different files unless links are followed. -/
  distinct : ∀ a ∈ keys, ∀ b ∈ keys, a ≠ b → d.pathOf a ≠ d.pathOf b ∧
    (d.settings.followLinks = false → w.resolve (d.pathOf a).toBytes ≠ w.resolve (d.pathOf b).toBytes)

/-- **Nothing is lost on the way from paths to keys**: neither a backslash nor the order. -/
structure Agrees (files : List (List Text)) : Prop where
  written : ∀ names ∈ files, '\\' ∉ pathOfNames names
  uncrossed : files.Pairwise fun x y => crosses x y = false

/-- Different relative paths stay different below the root. -/
theorem join_root_injective (hw : w.IsProper) (hinside : StaysInside s w) (hd : ofSettings w s = .ok d) {p q : Text}
    (hq : q.head? ≠ some '/') (h : Path.join s.root p = Path.join s.root q) : p = q := by
  obtain ⟨hroot, hrelative, -, -⟩ := Workspace.root_of_resolve hw (exists_root hd).1 hinside.root
  refine Path.join_injective hroot (fun hhead => ?_) hq h
  exact ne_true_of_eq_false hrelative (Path.isAbsolute_toBytes hhead)

theorem pathOf_keyOf (hd : ofSettings w s = .ok d) (hx : '\\' ∉ pathOfNames x) :
    d.pathOf (keyOf x) = Path.join s.root (pathOfNames x) := by
  unfold pathOf
  rw [keyOf_text hx, settings_eq hd]

/-- A file that opens can be read, with two exceptions. -/
theorem OpensFile.read_cases {key : FileKey} {links : Nat} {q : Location} {content : Bytes}
    (h : OpensFile d.settings w (d.pathOf key) links q content) {fault : SourceError}
    (hfault : d.read w key = .error fault) :
    fault = .read (d.pathOf key) .notUnicode ∨
      d.settings.followLinks = true ∧ fault = .read (d.pathOf key) .linkLoop := by
  unfold Discovery.read at hfault
  rw [h.read] at hfault
  by_cases hle : links ≤ Workspace.maxLinks
  · rw [if_pos hle] at hfault
    cases ht : Text.ofBytes? content with
    | some t =>
      rw [ht] at hfault
      cases hfault
    | none =>
      rw [ht] at hfault
      cases hfault
      exact .inl rfl
  · rw [if_neg hle] at hfault
    cases hfault
    refine .inr ⟨?_, rfl⟩
    by_contra hnot
    exact hle (h.few (eq_false_of_ne_true hnot))

section Iff

variable (hw : w.IsProper) (hinside : StaysInside s w) (hd : ofSettings w s = .ok d) (h : d.taken w = .ok files)
include hw hinside hd h

/-- **Keys increase if and only if no paths cross**, as long as they are the paths. -/
theorem increasing_iff (hwritten : ∀ names ∈ files, '\\' ∉ pathOfNames names) :
    ((files.map keyOf).Pairwise fun a b => FileKey.le a b = true ∧ a ≠ b) ↔
      files.Pairwise fun x y => crosses x y = false := by
  have hpair : ∀ x ∈ files, ∀ y ∈ files, namesLe x y = true ∧ x ≠ y →
      ((FileKey.le (keyOf x) (keyOf y) = true ∧ keyOf x ≠ keyOf y) ↔ crosses x y = false) := by
    rintro x hx y hy ⟨hle, hne⟩
    rw [← FileKey.le_eq_false_iff]
    unfold FileKey.le
    rw [keyOf_text (hwritten x hx), keyOf_text (hwritten y hy),
      le_pathOfNames (names_of_finds hw hinside hd (finds_of_mem h hy).1).2.2 hle hne]
  have hsorted := pairwise_taken hw hinside hd h
  rw [List.pairwise_map]
  constructor
  · exact fun hkeys => (hkeys.and hsorted).imp_of_mem fun hx hy hxy => (hpair _ hx _ hy hxy.2).mp hxy.1
  · exact fun hcross => (hcross.and hsorted).imp_of_mem fun hx hy hxy => (hpair _ hx _ hy hxy.2).mpr hxy.1

/-- **A discovery that honours what is asked of it takes no file with a backslash in its path**: the key is the path of
another file, which is taken as well, and has the same key. -/
theorem written_of_honours (hhonours : d.Honours w (files.map keyOf)) : ∀ names ∈ files, '\\' ∉ pathOfNames names := by
  intro x hx hmem
  obtain ⟨y, hfinds, hwanted, hpath⟩ := hhonours.matched _ (List.mem_map_of_mem hx)
  obtain ⟨-, hrelative, hy⟩ := names_of_finds hw hinside hd hfinds
  obtain ⟨-, -, hx'⟩ := names_of_finds hw hinside hd (finds_of_mem h hx).1
  -- the names of the key lead to a file that comes before this one
  have htext : (keyOf x).text = pathOfNames y := by
    unfold pathOf at hpath
    rw [settings_eq hd] at hpath
    exact join_root_injective hw hinside hd hrelative hpath
  have hle := namesLe_of_keyOf (fun name hname => (hx' name hname).2) hy htext.symm
  have hmem' := mem_of_namesLe h hx hfinds hwanted hle
  -- and has the same key
  have hwritten : '\\' ∉ pathOfNames y := htext ▸ not_mem_keyOf x
  have hkey : keyOf y = keyOf x := FileKey.eq_of_text ((keyOf_text hwritten).trans htext.symm)
  have hne : y ≠ x := fun he => hwritten (he ▸ hmem)
  have hdistinct : files.Pairwise fun x y => keyOf x ≠ keyOf y :=
    (List.pairwise_map.mp hhonours.increasing).imp And.right
  have : Std.Symm fun x y : List Text => keyOf x ≠ keyOf y := ⟨fun _ _ => Ne.symm⟩
  exact hdistinct.forall hmem' hx hne hkey

/-- **Without a backslash, the path of a key opens the file that was taken.** -/
theorem opensFile_of_taken (hx : x ∈ files) (hwritten : '\\' ∉ pathOfNames x) :
    ∃ links q content, OpensFile d.settings w (d.pathOf (keyOf x)) links q content ∧
      (d.settings.followLinks = false →
        w.resolve (d.pathOf (keyOf x)).toBytes = .ok (rootPlace s w ++ x.map Text.toBytes)) := by
  obtain ⟨⟨all, hall, hmem⟩, -⟩ := finds_of_mem h hx
  rw [pathOf_keyOf hd hwritten, settings_eq hd]
  exact opensFile_of_mem hw hinside hd hall hmem

/-- Where nothing is lost, all is honoured. -/
theorem honours_of_agrees (hagrees : Agrees files) : d.Honours w (files.map keyOf) where
  increasing := (increasing_iff hw hinside hd h hagrees.written).mpr hagrees.uncrossed
  matched := by
    refine List.forall_mem_map.mpr fun x hx => ?_
    obtain ⟨hfinds, hwanted⟩ := finds_of_mem h hx
    exact ⟨x, hfinds, hwanted, settings_eq hd ▸ pathOf_keyOf hd (hagrees.written x hx)⟩
  opens := by
    refine List.forall_mem_map.mpr fun x hx => ?_
    obtain ⟨links, q, content, hopens, -⟩ := opensFile_of_taken hw hinside hd h hx (hagrees.written x hx)
    exact ⟨links, q, content, hopens⟩
  reads := by
    refine List.forall_mem_map.mpr fun x hx fault hfault => ?_
    obtain ⟨links, q, content, hopens, -⟩ := opensFile_of_taken hw hinside hd h hx (hagrees.written x hx)
    exact hopens.read_cases hfault
  distinct := by
    intro a ha b hb hab
    obtain ⟨x, hx, rfl⟩ := List.mem_map.mp ha
    obtain ⟨y, hy, rfl⟩ := List.mem_map.mp hb
    refine ⟨fun hpath => hab ?_, fun hnot hresolve => hab ?_⟩
    · have hrelative := (names_of_finds hw hinside hd (finds_of_mem h hy).1).2.1
      rw [pathOf_keyOf hd (hagrees.written x hx), pathOf_keyOf hd (hagrees.written y hy)] at hpath
      exact congrArg FileKey.ofPath (join_root_injective hw hinside hd hrelative hpath)
    · obtain ⟨-, -, -, -, hplacex⟩ := opensFile_of_taken hw hinside hd h hx (hagrees.written x hx)
      obtain ⟨-, -, -, -, hplacey⟩ := opensFile_of_taken hw hinside hd h hy (hagrees.written y hy)
      rw [hplacex hnot, hplacey hnot] at hresolve
      have hbytes := List.append_cancel_left (Except.ok.inj hresolve)
      exact congrArg keyOf (List.map_injective_iff.mpr Text.toBytes_injective hbytes)

/-- **A discovery honours what is asked of it if and only if no file is taken with a backslash in its path, and no two
with crossing paths.** -/
theorem honours_iff :
    d.keys w = .ok (files.map keyOf) ∧ (d.Honours w (files.map keyOf) ↔ Agrees files) := by
  refine ⟨by rw [keys_eq_taken, h]; rfl, fun hhonours => ?_, honours_of_agrees hw hinside hd h⟩
  have hwritten := written_of_honours hw hinside hd h hhonours
  exact ⟨hwritten, (increasing_iff hw hinside hd h hwritten).mp hhonours.increasing⟩

end Iff

/-! ### Two directories, the name of one beginning with that of the other -/

def pairSettings : DiscoverySettings := { DiscoverySettings.standard with pattern := "*/x.d.ts".toList }

/-- A file in the directory `a`, and one of the same name in another directory. -/
def pairWorkspace (other : String) : Workspace :=
  ⟨.directory [([], .directory [
    (asBytes "a", .directory [(asBytes "x.d.ts", .file [])]),
    (asBytes other, .directory [(asBytes "x.d.ts", .file [])])])]⟩

def pairDiscovery : Discovery := ⟨pairSettings, ⟨.star :: "/x.d.ts".toList.map .literal⟩⟩

theorem honours_underscore :
    pairDiscovery.keys (pairWorkspace "a_b") = .ok [⟨"a/x.d.ts".toList⟩, ⟨"a_b/x.d.ts".toList⟩] ∧
      pairDiscovery.Honours (pairWorkspace "a_b") [⟨"a/x.d.ts".toList⟩, ⟨"a_b/x.d.ts".toList⟩] := by
  have hw : (pairWorkspace "a_b").IsProper := ⟨_, rfl, by decide⟩
  have hinside : StaysInside pairSettings (pairWorkspace "a_b") := ⟨by decide, fun h => nomatch h⟩
  have hd : ofSettings (pairWorkspace "a_b") pairSettings = .ok pairDiscovery := rfl
  have hall : pairDiscovery.allFiles (pairWorkspace "a_b") =
      .ok [["a".toList, "x.d.ts".toList], ["a_b".toList, "x.d.ts".toList]] := by decide +kernel
  have htaken : pairDiscovery.taken (pairWorkspace "a_b") =
      .ok [["a".toList, "x.d.ts".toList], ["a_b".toList, "x.d.ts".toList]] :=
    (taken_of_pairwise hall (by decide +kernel)).trans (by decide +kernel)
  have hagrees : Agrees [["a".toList, "x.d.ts".toList], ["a_b".toList, "x.d.ts".toList]] := ⟨by decide, by decide⟩
  obtain ⟨hkeys, hiff⟩ := honours_iff hw hinside hd htaken
  exact ⟨hkeys, hiff.mpr hagrees⟩

/-- **A minus stands before the slash**: the keys of `a` and `a-b` are out of order. -/
theorem not_honours_minus :
    (pairWorkspace "a-b").IsProper ∧ StaysInside pairSettings (pairWorkspace "a-b") ∧
      ofSettings (pairWorkspace "a-b") pairSettings = .ok pairDiscovery ∧
      pairDiscovery.keys (pairWorkspace "a-b") = .ok [⟨"a/x.d.ts".toList⟩, ⟨"a-b/x.d.ts".toList⟩] ∧
      ¬pairDiscovery.Honours (pairWorkspace "a-b") [⟨"a/x.d.ts".toList⟩, ⟨"a-b/x.d.ts".toList⟩] := by
  have hall : pairDiscovery.allFiles (pairWorkspace "a-b") =
      .ok [["a".toList, "x.d.ts".toList], ["a-b".toList, "x.d.ts".toList]] := by decide +kernel
  have hkeys : pairDiscovery.keys (pairWorkspace "a-b") = .ok [⟨"a/x.d.ts".toList⟩, ⟨"a-b/x.d.ts".toList⟩] := by
    rw [keys_eq_taken, taken_of_pairwise hall (by decide +kernel)]
    decide +kernel
  refine ⟨⟨_, rfl, by decide⟩, ⟨by decide, fun h => nomatch h⟩, rfl, hkeys, fun hhonours => ?_⟩
  have hle := ((List.pairwise_cons.mp hhonours.increasing).1 _ (List.mem_singleton_self _)).1
  exact absurd hle (by decide)

end Ambient.Discovery
