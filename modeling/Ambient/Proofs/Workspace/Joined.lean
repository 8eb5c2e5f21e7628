import Ambient.Proofs.Text.Utf8
import Ambient.Proofs.Workspace.Leads

/-!
# Joined paths

A path that is joined to a root leads on from where the root leads to (`resolve_join`). Whether the root has a slash at
its end makes no difference: without it, it is the TRUNK of the joined path.
-/

namespace Ambient

/-! ## 1. Texts -/

namespace Path

variable {root : Text}

/-- **A root with or without a slash at its end.** What is joined to it stands behind the trunk and a slash. -/
structure IsTrunk (root trunk : Text) : Prop where
  cut : root = trunk ∨ root = trunk ++ ['/']
  ne_nil : trunk ≠ []
  relative : trunk.head? ≠ some '/'
  joined : ∀ path : Text, path.head? ≠ some '/' → join root path = trunk ++ '/' :: path

theorem exists_trunk (hne : root ≠ []) (hrelative : root.head? ≠ some '/') : ∃ trunk, IsTrunk root trunk := by
  have hjoin : ∀ path : Text, path.head? ≠ some '/' →
      join root path = if root.getLast? = some '/' then root ++ path else root ++ '/' :: path := by
    intro path hpath
    unfold join
    rw [if_neg hpath, List.isEmpty_eq_false_iff.mpr hne, if_neg Bool.false_ne_true]
  by_cases hlast : root.getLast? = some '/'
  · obtain ⟨trunk, rfl⟩ := List.getLast?_eq_some_iff.mp hlast
    have htrunk : trunk ≠ [] := by
      rintro rfl
      exact hrelative rfl
    refine ⟨trunk, .inr rfl, htrunk, ?_, fun path hpath => ?_⟩
    · rwa [List.head?_append_of_ne_nil _ htrunk] at hrelative
    · rw [hjoin path hpath, if_pos hlast, List.append_assoc, List.singleton_append]
  · exact ⟨root, .inl rfl, hne, hrelative, fun path hpath => by rw [hjoin path hpath, if_neg hlast]⟩

/-- **Different paths are joined to different ones**, unless the one is absolute. -/
theorem join_injective (hne : root ≠ []) (hrelative : root.head? ≠ some '/') {p q : Text} (hq : q.head? ≠ some '/')
    (h : join root p = join root q) : p = q := by
  obtain ⟨trunk, htrunk⟩ := exists_trunk hne hrelative
  rw [htrunk.joined q hq] at h
  by_cases hp : p.head? = some '/'
  · unfold join at h
    rw [if_pos hp] at h
    rw [h, List.head?_append_of_ne_nil _ htrunk.ne_nil] at hp
    exact absurd hp htrunk.relative
  · rw [htrunk.joined p hp] at h
    exact (List.cons.inj (List.append_cancel_left h)).2

theorem isAbsolute_toBytes {t : Text} (h : t.head? = some '/') : isAbsolute t.toBytes = true := by
  cases t with
  | nil => cases h
  | cons c t =>
    cases h
    rfl

end Path

/-! ## 2. Places -/

namespace Workspace

variable {w : Workspace} {place : Location} {root : Text}

/-- What a root can be that leads to a place in the workspace. -/
theorem root_of_resolve (hw : w.IsProper) (h : w.resolve root.toBytes = .ok place) (hplace : place ≠ []) :
    root ≠ [] ∧ Path.isAbsolute root.toBytes = false ∧ 0 ∉ root.toBytes ∧
      w.resolveFrom true maxLinks home (Path.names root.toBytes) = .ok place := by
  unfold resolve resolveIn at h
  split at h
  · cases h
  rename_i hzero
  split at h
  · cases h
  rename_i hempty
  have hrelative : Path.isAbsolute root.toBytes = false := by
    rw [← Bool.not_eq_true]
    intro habsolute
    unfold startOf at h
    rw [if_pos habsolute] at h
    exact hplace (resolveFrom_top hw h)
  unfold startOf at h
  rw [hrelative, if_neg Bool.false_ne_true] at h
  refine ⟨?_, hrelative, fun hmem => hzero (List.contains_iff_mem.mpr hmem), h⟩
  rintro rfl
  exact hempty rfl

theorem isAbsolute_append {bs : Bytes} (hne : bs ≠ []) (rest : Bytes) :
    Path.isAbsolute (bs ++ rest) = Path.isAbsolute bs := by
  unfold Path.isAbsolute
  rw [List.head?_append_of_ne_nil _ hne]

/-- The trunk of a root leads to where the root leads to, and is relative and without zero byte as well. -/
theorem exists_trunk_of_resolve (hw : w.IsProper) (h : w.resolve root.toBytes = .ok place) (hplace : place ≠ []) :
    ∃ trunk, Path.IsTrunk root trunk ∧ trunk.toBytes ≠ [] ∧ Path.isAbsolute trunk.toBytes = false ∧
      0 ∉ trunk.toBytes ∧ w.resolveFrom true maxLinks home (Path.names trunk.toBytes) = .ok place := by
  obtain ⟨hne, hrelative, hzero, hresolve⟩ := root_of_resolve hw h hplace
  have hhead : root.head? ≠ some '/' := fun h => ne_true_of_eq_false hrelative (Path.isAbsolute_toBytes h)
  obtain ⟨trunk, htrunk⟩ := Path.exists_trunk hne hhead
  have hbytes : trunk.toBytes ≠ [] := fun h => htrunk.ne_nil (Text.toBytes_injective (h.trans rfl))
  refine ⟨trunk, htrunk, hbytes, ?_⟩
  rcases htrunk.cut with rfl | rfl
  · exact ⟨hrelative, hzero, hresolve⟩
  · have hslash : Text.toBytes ['/'] = [slash] := rfl
    rw [Text.toBytes_append, hslash] at hrelative hzero hresolve
    rw [isAbsolute_append hbytes] at hrelative
    unfold Path.names at hresolve
    rw [List.splitOn_append_cons_self] at hresolve
    exact ⟨hrelative, fun h => hzero (List.mem_append_left _ h), resolveFrom_of_concat_nil hresolve⟩

/-- **A joined path leads on from where its root leads to.** -/
theorem resolve_join (hw : w.IsProper) (hroot : w.resolve root.toBytes = .ok place) (hplace : place ≠ [])
    (hdirectory : w.HasDirectory place) :
    ∃ links ≤ maxLinks, ∀ (path : Text) (more : Nat) (q : Location), path.head? ≠ some '/' → 0 ∉ path.toBytes →
      w.Leads place (Path.names path.toBytes) more q [] →
        w.Leads home (Path.names (Path.join root path).toBytes) (links + more) q [] ∧
        w.resolve (Path.join root path).toBytes = if links + more ≤ maxLinks then .ok q else .error .linkLoop := by
  obtain ⟨trunk, htrunk, hbytes, hrelative, hzero, hresolve⟩ := exists_trunk_of_resolve hw hroot hplace
  obtain ⟨links, hlinks, hleads⟩ := exists_leads hresolve
  refine ⟨links, hlinks, fun path more q hpath hpathZero hmore => ?_⟩
  have hjoined : (Path.join root path).toBytes = trunk.toBytes ++ slash :: path.toBytes := by
    rw [htrunk.joined path hpath, Text.toBytes_append, Text.toBytes_cons]
    rfl
  have hall : w.Leads home (Path.names (Path.join root path).toBytes) (links + more) q [] := by
    unfold Path.names
    rw [hjoined, List.splitOn_append_cons_self]
    exact (hleads _ (.inr hdirectory)).trans hmore
  refine ⟨hall, ?_⟩
  have hcontains : (Path.join root path).toBytes.contains 0 = false := by
    rw [← Bool.not_eq_true, List.contains_iff_mem, hjoined, List.mem_append, List.mem_cons]
    rintro (h | h | h)
    · exact hzero h
    · cases h
    · exact hpathZero h
  have hempty : (Path.join root path).toBytes.isEmpty = false := by
    rw [hjoined]
    exact List.isEmpty_eq_false_iff.mpr (List.append_ne_nil_of_left_ne_nil hbytes _)
  have hstart : startOf home (Path.join root path).toBytes = home := by
    unfold startOf
    rw [hjoined, isAbsolute_append hbytes, hrelative, if_neg Bool.false_ne_true]
  unfold resolve resolveIn
  rw [hcontains, if_neg Bool.false_ne_true, hempty, if_neg Bool.false_ne_true, hstart]
  exact hall.resolve

/-! ## 3. Reading -/

section Read

variable {path : Text} {q : Location}

theorem readText_of_error {cause : ReadCause} (h : w.resolve path.toBytes = .error cause) :
    w.readText path = .error cause := by
  unfold readText readBytes
  rw [h]

/-- The text of a file is read, if its bytes are one. -/
theorem readText_of_file {content : Bytes} (h : w.resolve path.toBytes = .ok q)
    (hfile : w.tree.at? q = some (.file content)) :
    w.readText path = (Text.ofBytes? content).elim (.error .notUnicode) .ok := by
  unfold readText readBytes
  simp only [h, hfile]
  cases Text.ofBytes? content <;> rfl

end Read

end Workspace
end Ambient
