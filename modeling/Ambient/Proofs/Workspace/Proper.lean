import Ambient.Proofs.Workspace.Tree
import Ambient.Workspace.Basic

/-!
# Proper workspaces

A tree is PROPER if its directories hold what directories can hold: no two entries of one name, and names that are
not empty, not too long, without slash and zero byte, and none of `.` and `..`. A proper workspace is a proper
directory below the top, where nothing else can be found.

Then every entry is found under its name (`IsProper.at?_of_mem`), and every name below the top is one that a path
can go through.
-/

namespace Ambient

namespace Workspace

/-! ## 1. Names -/

/-- **A name that an entry can have.** -/
structure IsName (name : Name) : Prop where
  ne_nil : name ≠ []
  no_slash : slash ∉ name
  no_zero : 0 ∉ name
  ne_dot : name ≠ Path.dot
  ne_dotDot : name ≠ Path.dotDot
  length_le : name.length ≤ maxName

theorem isName_iff {name : Name} : IsName name ↔ name ≠ [] ∧ slash ∉ name ∧ 0 ∉ name ∧ name ≠ Path.dot ∧
    name ≠ Path.dotDot ∧ name.length ≤ maxName :=
  ⟨fun ⟨a, b, c, d, e, f⟩ => ⟨a, b, c, d, e, f⟩, fun ⟨a, b, c, d, e, f⟩ => ⟨a, b, c, d, e, f⟩⟩

instance (name : Name) : Decidable (IsName name) := decidable_of_iff' _ isName_iff

end Workspace

open Workspace (IsName)

/-! ## 2. Trees -/

namespace Node

mutual

/-- Do the directories of the tree hold what directories can hold? -/
def isProper : Node → Bool
  | file _ | link _ => true
  | directory entries => decide (entries.map Prod.fst).Nodup && areProper entries

def areProper : List (Name × Node) → Bool
  | [] => true
  | (name, child) :: entries => decide (IsName name) && child.isProper && areProper entries

end

theorem areProper_iff {entries : List (Name × Node)} :
    areProper entries = true ↔ ∀ entry ∈ entries, IsName entry.1 ∧ entry.2.isProper = true := by
  induction entries with
  | nil => exact ⟨fun _ _ h => absurd h List.not_mem_nil, fun _ => rfl⟩
  | cons entry entries ih =>
    rw [areProper, Bool.and_eq_true, Bool.and_eq_true, decide_eq_true_eq, ih, List.forall_mem_cons]

theorem isProper_directory_iff {entries : List (Name × Node)} :
    (directory entries).isProper = true ↔
      (entries.map Prod.fst).Nodup ∧ ∀ entry ∈ entries, IsName entry.1 ∧ entry.2.isProper = true := by
  rw [isProper, Bool.and_eq_true, decide_eq_true_eq, areProper_iff]

theorem isProper_of_at? {n m : Node} {place : Location} (hn : n.isProper = true) (h : n.at? place = some m) :
    m.isProper = true := by
  induction place generalizing n with
  | nil =>
    cases h
    exact hn
  | cons name place ih =>
    rw [at?] at h
    obtain ⟨child, hchild, hrest⟩ := Option.bind_eq_some_iff.mp h
    refine ih ?_ hrest
    cases n with
    | file _ => cases hchild
    | link _ => cases hchild
    | directory entries => exact ((isProper_directory_iff.mp hn).2 _ (mem_of_lookup hchild)).2

/-- An entry is found under its name, if no other entry has it. -/
theorem lookup_of_mem {entries : List (Name × Node)} (hdistinct : (entries.map Prod.fst).Nodup) {name : Name}
    {child : Node} (h : (name, child) ∈ entries) : entries.lookup name = some child := by
  induction entries with
  | nil => exact absurd h List.not_mem_nil
  | cons entry entries ih =>
    obtain ⟨other, node⟩ := entry
    rw [List.map_cons, List.nodup_cons] at hdistinct
    rw [List.lookup_cons]
    rcases List.mem_cons.mp h with he | hrest
    · cases he
      rw [beq_self_eq_true]
    · have hne : (name == other) = false := by
        rw [beq_eq_false_iff_ne]
        rintro rfl
        exact hdistinct.1 (List.mem_map.mpr ⟨_, hrest, rfl⟩)
      rw [hne]
      exact ih hdistinct.2 hrest

end Node

/-! ## 3. Workspaces -/

/-- **A proper workspace.** -/
def Workspace.IsProper (w : Workspace) : Prop :=
  ∃ entries, w.tree = .directory [([], .directory entries)] ∧ (Node.directory entries).isProper = true

namespace Workspace.IsProper

variable {w : Workspace} {place : Location}

/-- All but the top is in the workspace. -/
theorem exists_home (h : w.IsProper) {m : Node} (hat : w.tree.at? place = some m) (hplace : place ≠ []) :
    ∃ entries p, place = [] :: p ∧ (Node.directory entries).isProper = true ∧
      (Node.directory entries).at? p = some m := by
  obtain ⟨entries, htree, hproper⟩ := h
  cases place with
  | nil => exact absurd rfl hplace
  | cons name p =>
    rw [htree, Node.at?] at hat
    obtain ⟨child, hchild, hrest⟩ := Option.bind_eq_some_iff.mp hat
    obtain ⟨before, behind, hsplit, -⟩ := List.lookup_eq_some_iff.mp hchild
    cases before with
    | nil =>
      cases hsplit
      exact ⟨entries, p, rfl, hproper, hrest⟩
    | cons first before =>
      have hnil := (List.cons.inj hsplit).2
      exact absurd (List.append_eq_nil_iff.mp hnil.symm).2 (List.cons_ne_nil _ _)

/-- What is in the workspace is proper. -/
theorem isProper_of_at? (h : w.IsProper) {m : Node} (hat : w.tree.at? place = some m) (hplace : place ≠ []) :
    m.isProper = true := by
  obtain ⟨entries, p, -, hproper, hp⟩ := h.exists_home hat hplace
  exact Node.isProper_of_at? hproper hp

/-- No two entries have one name. -/
theorem nodup_entriesAt (h : w.IsProper) (hplace : place ≠ []) : ((w.tree.entriesAt place).map Prod.fst).Nodup := by
  unfold Node.entriesAt
  cases hat : w.tree.at? place with
  | none => exact List.nodup_nil
  | some m =>
    cases m with
    | file _ => exact List.nodup_nil
    | link _ => exact List.nodup_nil
    | directory entries => exact (Node.isProper_directory_iff.mp (h.isProper_of_at? hat hplace)).1

section Entry

variable {name : Name} {child : Node}

/-- The directory that holds an entry. -/
theorem exists_of_mem_entriesAt (hmem : (name, child) ∈ w.tree.entriesAt place) :
    ∃ entries, w.tree.at? place = some (.directory entries) ∧ (name, child) ∈ entries := by
  unfold Node.entriesAt at hmem
  cases hat : w.tree.at? place with
  | none =>
    rw [hat] at hmem
    exact absurd hmem List.not_mem_nil
  | some m =>
    rw [hat] at hmem
    cases m with
    | file _ => exact absurd hmem List.not_mem_nil
    | link _ => exact absurd hmem List.not_mem_nil
    | directory entries => exact ⟨entries, rfl, hmem⟩

theorem isName_of_mem (h : w.IsProper) (hplace : place ≠ []) (hmem : (name, child) ∈ w.tree.entriesAt place) :
    IsName name := by
  obtain ⟨entries, hat, hentry⟩ := exists_of_mem_entriesAt hmem
  exact ((Node.isProper_directory_iff.mp (h.isProper_of_at? hat hplace)).2 _ hentry).1

/-- **An entry is found under its name.** -/
theorem at?_of_mem (h : w.IsProper) (hplace : place ≠ []) (hmem : (name, child) ∈ w.tree.entriesAt place) :
    w.tree.at? (place ++ [name]) = some child := by
  obtain ⟨entries, hat, hentry⟩ := exists_of_mem_entriesAt hmem
  rw [Node.at?_concat]
  unfold Node.entriesAt
  rw [hat]
  exact Node.lookup_of_mem (Node.isProper_directory_iff.mp (h.isProper_of_at? hat hplace)).1 hentry

end Entry

end Workspace.IsProper
end Ambient
