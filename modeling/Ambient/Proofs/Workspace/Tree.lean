import Ambient.Workspace.Node
import Mathlib.Data.List.Infix

/-!
# Places and pruned trees

* `places` lists all places of a tree, one for each node (`length_places`, `mem_places`);
* a node is larger than what it holds (`sizeAt_concat_lt`);
* `prune` empties directories that are CLOSED. What is not below one looks the same in the pruned tree
  (`at?_prune`), so two trees that are pruned to the same look the same there: `Like`.
-/

namespace Ambient.Node

/-! ## 1. Entries -/

/-- The entries at a place; nothing but a directory has any. -/
def entriesAt (n : Node) (place : Location) : List (Name × Node) := ((n.at? place).map entries).getD []

theorem at?_append (n : Node) (p q : Location) : n.at? (p ++ q) = (n.at? p).bind fun m => m.at? q := by
  induction p generalizing n with
  | nil => rfl
  | cons name p ih =>
    rw [List.cons_append, at?, at?]
    cases n.child? name with
    | none => rfl
    | some child => exact ih child

theorem at?_concat (n : Node) (place : Location) (name : Name) :
    n.at? (place ++ [name]) = (n.entriesAt place).lookup name := by
  rw [at?_append]
  unfold entriesAt
  cases n.at? place with
  | none => rfl
  | some m =>
    exact Option.bind_fun_some (m.child? name)

theorem exists_lookup {name : Name} {child : Node} {entries : List (Name × Node)} (h : (name, child) ∈ entries) :
    ∃ found, entries.lookup name = some found := by
  rw [← Option.isSome_iff_exists, ← Option.ne_none_iff_isSome]
  intro hnone
  have hne := List.lookup_eq_none_iff.mp hnone (name, child) h
  simp at hne

theorem mem_of_lookup {name : Name} {child : Node} {entries : List (Name × Node)}
    (h : entries.lookup name = some child) : (name, child) ∈ entries := by
  obtain ⟨before, behind, rfl, -⟩ := List.lookup_eq_some_iff.mp h
  exact List.mem_append_right _ List.mem_cons_self

/-! ## 2. Sizes -/

theorem size_le_sizeOfAll {name : Name} {child : Node} {entries : List (Name × Node)} (h : (name, child) ∈ entries) :
    child.size ≤ sizeOfAll entries := by
  induction entries with
  | nil => exact absurd h List.not_mem_nil
  | cons entry entries ih =>
    obtain ⟨other, node⟩ := entry
    rw [sizeOfAll]
    rcases List.mem_cons.mp h with he | h
    · cases he
      omega
    · have hle := ih h
      omega

theorem size_lt_of_mem_entries {n child : Node} {name : Name} (h : (name, child) ∈ n.entries) :
    child.size < n.size := by
  cases n with
  | file _ => exact absurd h List.not_mem_nil
  | link _ => exact absurd h List.not_mem_nil
  | directory entries =>
    have hle : child.size ≤ sizeOfAll entries := size_le_sizeOfAll h
    rw [size]
    omega

theorem size_le_of_at? {n m : Node} {place : Location} (h : n.at? place = some m) : m.size ≤ n.size := by
  induction place generalizing n with
  | nil =>
    cases h
    exact Nat.le_refl _
  | cons name place ih =>
    rw [at?] at h
    obtain ⟨child, hchild, hplace⟩ := Option.bind_eq_some_iff.mp h
    have hlt := size_lt_of_mem_entries (mem_of_lookup hchild)
    have hle := ih hplace
    omega

/-- The size of the node at a place. -/
def sizeAt (n : Node) (place : Location) : Nat := ((n.at? place).map size).getD 0

theorem sizeAt_le (n : Node) (place : Location) : n.sizeAt place ≤ n.size := by
  unfold sizeAt
  cases h : n.at? place with
  | none => exact Nat.zero_le _
  | some m => exact size_le_of_at? h

/-- **A node is larger than what it holds.** -/
theorem sizeAt_concat_lt {n child : Node} {place : Location} {name : Name} (h : (name, child) ∈ n.entriesAt place) :
    n.sizeAt (place ++ [name]) < n.sizeAt place := by
  obtain ⟨found, hfound⟩ := exists_lookup h
  have hmem := mem_of_lookup hfound
  unfold sizeAt
  rw [at?_concat, hfound]
  unfold entriesAt at hmem
  cases hm : n.at? place with
  | none =>
    rw [hm] at hmem
    exact absurd hmem List.not_mem_nil
  | some m =>
    rw [hm] at hmem
    exact size_lt_of_mem_entries hmem

theorem entriesAt_of_sizeAt {n : Node} {place : Location} (h : n.sizeAt place = 0) : n.entriesAt place = [] := by
  unfold sizeAt at h
  unfold entriesAt
  cases hm : n.at? place with
  | none => rfl
  | some m =>
    rw [hm] at h
    have hpos : 0 < m.size := by
      cases m with
      | file _ => exact Nat.one_pos
      | link _ => exact Nat.one_pos
      | directory _ => exact Nat.succ_pos _
    have hzero : m.size = 0 := h
    omega

/-! ## 3. Places -/

mutual

/-- The places of all nodes. -/
def places : Node → List Location
  | file _ | link _ => [[]]
  | directory entries => [] :: placesOfAll entries

/-- The places of the nodes in the entries. -/
def placesOfAll : List (Name × Node) → List Location
  | [] => []
  | (name, child) :: entries => child.places.map (name :: ·) ++ placesOfAll entries

end

mutual

theorem length_places : ∀ n : Node, n.places.length = n.size
  | file _ | link _ => rfl
  | directory entries => by rw [places, size, List.length_cons, length_placesOfAll]

theorem length_placesOfAll : ∀ entries : List (Name × Node), (placesOfAll entries).length = sizeOfAll entries
  | [] => rfl
  | (_, child) :: entries => by
      rw [placesOfAll, sizeOfAll, List.length_append, List.length_map, length_places child,
        length_placesOfAll entries]

end

theorem mem_placesOfAll {name : Name} {child : Node} {entries : List (Name × Node)} {place : Location}
    (h : (name, child) ∈ entries) (hplace : place ∈ child.places) : name :: place ∈ placesOfAll entries := by
  induction entries with
  | nil => exact absurd h List.not_mem_nil
  | cons entry entries ih =>
    obtain ⟨other, node⟩ := entry
    rw [placesOfAll]
    rcases List.mem_cons.mp h with he | h
    · cases he
      exact List.mem_append_left _ (List.mem_map_of_mem hplace)
    · exact List.mem_append_right _ (ih h)

/-- **Where there is a node, there is a place.** -/
theorem mem_places {n m : Node} {place : Location} (h : n.at? place = some m) : place ∈ n.places := by
  induction place generalizing n with
  | nil => cases n <;> exact List.mem_cons_self
  | cons name place ih =>
    rw [at?] at h
    obtain ⟨child, hchild, hplace⟩ := Option.bind_eq_some_iff.mp h
    have hmem : (name, child) ∈ n.entries := mem_of_lookup hchild
    cases n with
    | file _ => exact absurd hmem List.not_mem_nil
    | link _ => exact absurd hmem List.not_mem_nil
    | directory entries => exact List.mem_cons_of_mem _ (mem_placesOfAll hmem (ih hplace))

/-! ## 4. Pruned trees -/

variable {closed : Location → Bool}

mutual

/-- The node at `place`, with all closed directories emptied. -/
def prune (closed : Location → Bool) (place : Location) : Node → Node
  | file content => file content
  | link target => link target
  | directory entries => directory (if closed place then [] else pruneAll closed place entries)

def pruneAll (closed : Location → Bool) (place : Location) : List (Name × Node) → List (Name × Node)
  | [] => []
  | (name, child) :: entries => (name, child.prune closed (place ++ [name])) :: pruneAll closed place entries

end

theorem pruneAll_eq_map (closed : Location → Bool) (place : Location) (entries : List (Name × Node)) :
    pruneAll closed place entries = entries.map fun entry => (entry.1, entry.2.prune closed (place ++ [entry.1])) := by
  induction entries with
  | nil => rfl
  | cons entry entries ih => rw [pruneAll, ih, List.map_cons]

/-- At a closed directory or below one. -/
def Within (closed : Location → Bool) (place : Location) : Prop := ∃ p ∈ place.inits, closed p = true

instance (closed : Location → Bool) (place : Location) : Decidable (Within closed place) :=
  inferInstanceAs (Decidable (∃ p ∈ place.inits, closed p = true))

/-- Below a closed directory. -/
def Below (closed : Location → Bool) (place : Location) : Prop := Within closed place.dropLast

instance (closed : Location → Bool) (place : Location) : Decidable (Below closed place) :=
  inferInstanceAs (Decidable (Within closed place.dropLast))

theorem within_iff {place : Location} : Within closed place ↔ ∃ p, p <+: place ∧ closed p = true := by
  unfold Within
  exact exists_congr fun p => and_congr_left fun _ => List.mem_inits p place

/-- Places above a place that is not within are not within. -/
theorem not_within_of_prefix {p place : Location} (h : ¬Within closed place) (hp : p <+: place) : ¬Within closed p := by
  rw [within_iff] at h ⊢
  rintro ⟨q, hq, hclosed⟩
  exact h ⟨q, hq.trans hp, hclosed⟩

theorem not_below_of_not_within {place : Location} (h : ¬Within closed place) : ¬Below closed place :=
  not_within_of_prefix h (List.dropLast_prefix place)

theorem not_below_concat {place : Location} {name : Name} (h : ¬Within closed place) :
    ¬Below closed (place ++ [name]) := by
  unfold Below
  rw [List.dropLast_concat]
  exact h

/-- Only a closed directory is within without being below. -/
theorem not_within_of_not_below {place : Location} (h : ¬Below closed place) (hclosed : closed place = false) :
    ¬Within closed place := by
  unfold Below at h
  rw [within_iff] at h ⊢
  rintro ⟨p, hp, hc⟩
  rcases List.eq_nil_or_concat place with rfl | ⟨init, last, rfl⟩
  · rw [List.prefix_nil.mp hp, hclosed] at hc
    cases hc
  · rw [List.concat_eq_append] at h hp hclosed
    rw [List.dropLast_concat] at h
    rcases List.prefix_concat_iff.mp hp with rfl | hp
    · rw [hclosed] at hc
      cases hc
    · exact h ⟨p, hp, hc⟩

/-- **What is not below a closed directory looks the same in the pruned tree.** -/
theorem at?_prune_from (n : Node) (base place : Location)
    (h : ∀ p, p <+: place → p ≠ place → closed (base ++ p) = false) :
    (n.prune closed base).at? place = (n.at? place).map (prune closed (base ++ place)) := by
  induction place generalizing n base with
  | nil =>
    rw [List.append_nil]
    rfl
  | cons name place ih =>
    have hbase : closed base = false := by
      have hnil := h [] List.nil_prefix (List.cons_ne_nil name place).symm
      rwa [List.append_nil] at hnil
    have hchild : (n.prune closed base).child? name = (n.child? name).map (prune closed (base ++ [name])) := by
      cases n with
      | file _ => rfl
      | link _ => rfl
      | directory entries =>
        unfold child?
        rw [prune, hbase, if_neg Bool.false_ne_true]
        show (pruneAll closed base entries).lookup name = (entries.lookup name).map _
        induction entries with
        | nil => rfl
        | cons entry entries ihe =>
          obtain ⟨other, node⟩ := entry
          rw [pruneAll, List.lookup_cons, List.lookup_cons]
          cases hname : name == other with
          | true =>
            rw [beq_iff_eq.mp hname]
            rfl
          | false => exact ihe
    rw [at?, at?, hchild]
    cases n.child? name with
    | none => rfl
    | some child =>
      have hrest := ih child (base ++ [name]) fun p hp hne => by
        rw [List.append_assoc, List.singleton_append]
        exact h (name :: p) (List.cons_prefix_cons.mpr ⟨rfl, hp⟩) fun he => hne (List.cons.inj he).2
      rw [List.append_assoc, List.singleton_append] at hrest
      exact hrest

theorem at?_prune {place : Location} (n : Node) (h : ¬Below closed place) :
    (n.prune closed []).at? place = (n.at? place).map (prune closed place) := by
  refine at?_prune_from n [] place fun p hp hne => ?_
  rw [List.nil_append, ← Bool.not_eq_true]
  intro hclosed
  refine h (within_iff.mpr ⟨p, ?_, hclosed⟩)
  rcases List.eq_nil_or_concat place with rfl | ⟨init, last, rfl⟩
  · exact absurd (List.prefix_nil.mp hp) hne
  · rw [List.concat_eq_append] at hp hne ⊢
    rw [List.dropLast_concat]
    exact (List.prefix_concat_iff.mp hp).resolve_left hne

/-- Outside, entries are pruned one by one. -/
theorem entriesAt_prune {place : Location} (n : Node) (h : ¬Within closed place) :
    (n.prune closed []).entriesAt place =
      (n.entriesAt place).map fun entry => (entry.1, entry.2.prune closed (place ++ [entry.1])) := by
  have hclosed : closed place = false := by
    rw [← Bool.not_eq_true]
    exact fun hc => h (within_iff.mpr ⟨place, List.prefix_rfl, hc⟩)
  unfold entriesAt
  rw [at?_prune n (not_below_of_not_within h)]
  cases n.at? place with
  | none => rfl
  | some m =>
    cases m with
    | file _ => rfl
    | link _ => rfl
    | directory entries =>
      rw [← pruneAll_eq_map]
      show (prune closed place (directory entries)).entries = _
      rw [prune, hclosed, if_neg Bool.false_ne_true]
      rfl

/-! ## 5. Nodes that look alike -/

/-- **Both are missing, or the same file or link, or both directories.** -/
inductive Like : Option Node → Option Node → Prop where
  | missing : Like none none
  | file (content : Bytes) : Like (some (.file content)) (some (.file content))
  | link (target : Bytes) : Like (some (.link target)) (some (.link target))
  | directory (entries entries' : List (Name × Node)) : Like (some (.directory entries)) (some (.directory entries'))

theorem like_of_prune {n n' : Node} {place : Location} (h : n.prune closed place = n'.prune closed place) :
    Like (some n) (some n') := by
  cases n with
  | file content => cases n' <;> simp only [prune, reduceCtorEq, Node.file.injEq] at h; exact h ▸ .file content
  | link target => cases n' <;> simp only [prune, reduceCtorEq, Node.link.injEq] at h; exact h ▸ .link target
  | directory entries => cases n' <;> simp only [prune, reduceCtorEq] at h; exact .directory entries _

/-- **Trees that are pruned to the same look alike outside.** -/
theorem like_at? {n n' : Node} (hprune : n.prune closed [] = n'.prune closed []) {place : Location}
    (h : ¬Below closed place) : Like (n.at? place) (n'.at? place) := by
  have hat := at?_prune n h
  rw [hprune, at?_prune n' h] at hat
  cases hn : n.at? place with
  | none =>
    rw [hn] at hat
    rw [Option.map_eq_none_iff.mp hat]
    exact .missing
  | some m =>
    rw [hn] at hat
    obtain ⟨m', hm', hpruned⟩ := Option.map_eq_some_iff.mp hat
    rw [hm']
    exact like_of_prune hpruned.symm

end Ambient.Node
