import Ambient.Discovery.Basic
import Ambient.Proofs.Discovery.Findings

/-!
# Outside of skipped directories

Two workspaces are ALIKE for a discovery if they differ in nothing but what lies below directories with a skipped
name, if no link outside leads into one of these, and if, where git's rules are respected, the same is read as
`.git/info/exclude` everywhere outside. Then a walk that is outside

* reads the same ignore files (`read_eq`) and is stopped by the same faults in them (`faultAbove?_eq`);
* takes every entry for the same (`targetOf_eq`), and is outside again when it goes down by a name that is not
  skipped (`target_outside`);
* finds the same, but for what has a skipped name above it (`filter_findings_eq`).

The last is by induction on the steps. Both walks have steps enough, though not the same number of them.
-/

namespace Ambient.Discovery

open Node (Below Within)
open Walk (Finding Here Target entryFindings findings room)

/-! ## 1. Workspaces that are alike -/

/-- Is the name skipped? -/
def skips (s : DiscoverySettings) (name : Name) : Bool :=
  (Text.ofBytes? name).any fun t => alwaysSkipped.contains t || s.skipDirs.contains t

/-- The place of the root. -/
def rootPlace (s : DiscoverySettings) (w : Workspace) : Location := (w.resolve s.root.toBytes).toOption.getD []

/-- A place with a skipped name, unless the root is there or below. -/
def isClosed (s : DiscoverySettings) (w : Workspace) (place : Location) : Bool :=
  place.getLast?.any (skips s) && !place.isPrefixOf (rootPlace s w)

/-- The tree without what lies below skipped directories. -/
def visible (s : DiscoverySettings) (w : Workspace) : Node := w.tree.prune (isClosed s w) []

/-- **The workspaces differ in nothing but what lies below skipped directories.** -/
structure Alike (s : DiscoverySettings) (w w' : Workspace) : Prop where
  root : w.resolve s.root.toBytes = w'.resolve s.root.toBytes
  tree : visible s w = visible s w'
  /-- No link outside leads into a skipped directory. -/
  links : Workspace.LinksStayOut (isClosed s w) w
  /-- Git's own ignore files, which lie in `.git`, are the same outside. -/
  excludes : s.respectGitignore = true → ∀ place ∈ (visible s w).places, isClosed s w place = false →
    IgnoreLevel.fileAt w place ".git/info/exclude".toList = IgnoreLevel.fileAt w' place ".git/info/exclude".toList

section Alike

variable {s : DiscoverySettings} {w w' : Workspace}

theorem rootPlace_eq (h : Alike s w w') : rootPlace s w = rootPlace s w' := by
  unfold rootPlace
  rw [h.root]

theorem isClosed_eq (h : Alike s w w') : isClosed s w = isClosed s w' := by
  unfold isClosed
  rw [rootPlace_eq h]

theorem Alike.prune_eq (h : Alike s w w') : w.tree.prune (isClosed s w) [] = w'.tree.prune (isClosed s w) [] := by
  have htree := h.tree
  unfold visible at htree
  rwa [← isClosed_eq h] at htree

/-- The root is outside, and all that is above it. -/
theorem not_within_above {place : Location} (h : place <+: rootPlace s w) : ¬Within (isClosed s w) place := by
  rw [Node.within_iff]
  rintro ⟨p, hp, hclosed⟩
  unfold isClosed at hclosed
  rw [Bool.and_eq_true, Bool.not_eq_true'] at hclosed
  have hprefix := List.isPrefixOf_iff_prefix.mpr (hp.trans h)
  rw [hclosed.2] at hprefix
  cases hprefix

/-- An entry outside is outside unless its name is skipped. -/
theorem not_within_concat {place : Location} {name : Name} (h : ¬Within (isClosed s w) place)
    (hname : skips s name = false) : ¬Within (isClosed s w) (place ++ [name]) := by
  refine Node.not_within_of_not_below (Node.not_below_concat h) ?_
  unfold isClosed
  rw [List.getLast?_concat, Option.any_some, hname, Bool.false_and]

/-! ## 2. Ignore files -/

/-- The file of a name of one part is found outside in both. -/
theorem fileAt_eq (h : Alike s w w') {place : Location} (hplace : ¬Within (isClosed s w) place) {path : Text}
    {name : Name} (hrelative : Path.isAbsolute path.toBytes = false) (hname : Path.names path.toBytes = [name]) :
    IgnoreLevel.fileAt w place path = IgnoreLevel.fileAt w' place path := by
  have hresolve : ∀ v : Workspace, v.resolveIn true place path.toBytes =
      if path.toBytes.contains 0 then .error .zeroInPath
      else if path.toBytes.isEmpty then .error .missing
      else v.resolveFrom true Workspace.maxLinks place [name] := by
    intro v
    unfold Workspace.resolveIn Workspace.startOf
    rw [hrelative, if_neg Bool.false_ne_true, hname]
  obtain ⟨heq, hfound⟩ := Workspace.resolve_name_eq h.prune_eq h.links hplace name
  unfold IgnoreLevel.fileAt
  rw [hresolve w, hresolve w', ← heq]
  split
  · rfl
  · rename_i found hok
    have hbelow : ¬Below (isClosed s w) found := by
      split at hok
      · cases hok
      split at hok
      · cases hok
      exact hfound found hok
    have hlike := Node.like_at? h.prune_eq hbelow
    revert hlike
    generalize w.tree.at? found = node
    generalize w'.tree.at? found = node'
    intro hlike
    cases hlike <;> rfl

/-- A place outside where there is a node is a place of the visible tree. -/
theorem mem_visible {place : Location} {m : Node} (hplace : ¬Within (isClosed s w) place)
    (hat : w.tree.at? place = some m) : place ∈ (visible s w).places := by
  have hvisible : (visible s w).at? place = some (m.prune (isClosed s w) place) := by
    unfold visible
    rw [Node.at?_prune w.tree (Node.not_below_of_not_within hplace), hat]
    rfl
  exact Node.mem_places hvisible

/-- **Outside, the ignore files of a directory are the same.** -/
theorem files_eq (h : Alike s w w') {place : Location} {m : Node} (hplace : ¬Within (isClosed s w) place)
    (hat : w.tree.at? place = some m) :
    IgnoreLevel.files w s.respectGitignore place = IgnoreLevel.files w' s.respectGitignore place := by
  have hplain : IgnoreLevel.fileAt w place IgnoreLevel.plainName = IgnoreLevel.fileAt w' place IgnoreLevel.plainName :=
    fileAt_eq h hplace (by decide) rfl
  have hgit : IgnoreLevel.fileAt w place IgnoreLevel.gitName = IgnoreLevel.fileAt w' place IgnoreLevel.gitName :=
    fileAt_eq h hplace (by decide) rfl
  have hopen : isClosed s w place = false := by
    rw [← Bool.not_eq_true]
    exact fun hc => hplace (Node.within_iff.mpr ⟨place, List.prefix_rfl, hc⟩)
  unfold IgnoreLevel.files
  dsimp only
  rw [hplain]
  cases hrespect : s.respectGitignore with
  | false => rfl
  | true =>
    have hexclude : IgnoreLevel.fileAt w place IgnoreLevel.excludeName =
        IgnoreLevel.fileAt w' place IgnoreLevel.excludeName := h.excludes hrespect place (mem_visible hplace hat) hopen
    rw [hgit, hexclude]

theorem read_eq (h : Alike s w w') {place : Location} {m : Node} (hplace : ¬Within (isClosed s w) place)
    (hat : w.tree.at? place = some m) (below : List Name) :
    IgnoreLevel.read w s.respectGitignore place below = IgnoreLevel.read w' s.respectGitignore place below := by
  unfold IgnoreLevel.read
  rw [files_eq h hplace hat]

/-- A directory above the root is outside, and it is there. -/
theorem outside_of_mem_above {m : Node} (hat : w.tree.at? (rootPlace s w) = some m) {entry : Location × List Name}
    (hentry : entry ∈ IgnoreLevel.above (rootPlace s w)) :
    ¬Within (isClosed s w) entry.1 ∧ ∃ m, w.tree.at? entry.1 = some m := by
  unfold IgnoreLevel.above at hentry
  obtain ⟨n, -, rfl⟩ := List.mem_map.mp hentry
  refine ⟨not_within_above (List.take_prefix n _), ?_⟩
  rw [← List.take_append_drop n (rootPlace s w), Node.at?_append] at hat
  obtain ⟨m, hm, -⟩ := Option.bind_eq_some_iff.mp hat
  exact ⟨m, hm⟩

theorem levelsAbove_eq (h : Alike s w w') {m : Node} (hat : w.tree.at? (rootPlace s w) = some m) :
    IgnoreLevel.levelsAbove w s.respectGitignore (rootPlace s w) =
      IgnoreLevel.levelsAbove w' s.respectGitignore (rootPlace s w) := by
  unfold IgnoreLevel.levelsAbove
  refine List.map_congr_left fun entry hentry => ?_
  obtain ⟨hplace, _, hm⟩ := outside_of_mem_above hat hentry
  exact read_eq h hplace hm entry.2

/-- **The same ignore file stops a walk before it starts.** -/
theorem faultAbove?_eq (h : Alike s w w') {m : Node} (hat : w.tree.at? (rootPlace s w) = some m) :
    IgnoreLevel.faultAbove? w s.respectGitignore (rootPlace s w) =
      IgnoreLevel.faultAbove? w' s.respectGitignore (rootPlace s w) := by
  have hlines : ∀ entry ∈ (IgnoreLevel.above (rootPlace s w)).reverse,
      IgnoreLevel.badLines w s.respectGitignore entry.1 = IgnoreLevel.badLines w' s.respectGitignore entry.1 := by
    intro entry hentry
    obtain ⟨hplace, _, hm⟩ := outside_of_mem_above hat (List.mem_reverse.mp hentry)
    unfold IgnoreLevel.badLines
    rw [files_eq h hplace hm]
  unfold IgnoreLevel.faultAbove?
  rw [List.flatMap_congr hlines]

/-! ## 3. Entries -/

/-- The entries outside, without what lies below skipped directories. -/
theorem entriesAt_visible {place : Location} (hplace : ¬Within (isClosed s w) place) :
    (visible s w).entriesAt place =
      (w.tree.entriesAt place).map fun entry => (entry.1, entry.2.prune (isClosed s w) (place ++ [entry.1])) :=
  Node.entriesAt_prune w.tree hplace

theorem exists_entry_of_visible {place : Location} (hplace : ¬Within (isClosed s w) place) {name : Name} {node : Node}
    (hentry : (name, node) ∈ (visible s w).entriesAt place) : ∃ child, (name, child) ∈ w.tree.entriesAt place := by
  rw [entriesAt_visible hplace] at hentry
  obtain ⟨⟨other, child⟩, hchild, he⟩ := List.mem_map.mp hentry
  cases he
  exact ⟨child, hchild⟩

variable {o : WalkOptions} {here : Here}

/-- **An entry outside counts as the same in both.** -/
theorem targetOf_eq (h : Alike s w w') (hplace : ¬Within (isClosed s w) here.place) {name : Name} {node : Node}
    (hentry : (name, node) ∈ (visible s w).entriesAt here.place) :
    Walk.targetOf w o here name node = Walk.targetOf w' o here name node := by
  cases node with
  | file _ => rfl
  | directory _ => rfl
  | link target =>
    unfold Walk.targetOf
    dsimp only
    split
    · obtain ⟨heq, hfound⟩ := Workspace.resolve_link_eq h.prune_eq hplace (h.links.of_mem hentry)
      unfold Walk.followed
      dsimp only
      rw [← heq]
      split
      · rfl
      · rename_i found hok
        have hlike := Node.like_at? h.prune_eq (hfound found [] hok).1
        revert hlike
        generalize w.tree.at? found = node
        generalize w'.tree.at? found = node'
        intro hlike
        cases hlike <;> rfl
    · rfl

/-- **A directory outside that is not skipped leads outside again.** -/
theorem target_outside (h : Alike s w w') (hplace : ¬Within (isClosed s w) here.place) {name : Name} {node : Node}
    (hentry : (name, node) ∈ (visible s w).entriesAt here.place) (hname : skips s name = false) {place : Location}
    (htarget : Walk.targetOf w o here name node = .ok (.directory place)) :
    ¬Within (isClosed s w) place ∧ ∃ m, w.tree.at? place = some m := by
  cases node with
  | file _ => cases htarget
  | directory _ =>
    cases htarget
    obtain ⟨child, hchild⟩ := exists_entry_of_visible hplace hentry
    obtain ⟨m, hm⟩ := Node.exists_lookup hchild
    refine ⟨not_within_concat hplace hname, m, ?_⟩
    rw [Node.at?_concat, hm]
  | link target =>
    unfold Walk.targetOf at htarget
    dsimp only at htarget
    split at htarget
    · obtain ⟨hok, ⟨entries, hat⟩, -⟩ := Walk.followed_eq_directory htarget
      obtain ⟨-, hfound⟩ := Workspace.resolve_link_eq h.prune_eq hplace (h.links.of_mem hentry)
      exact ⟨(hfound place entries hok).2 hat, _, hat⟩
    · cases htarget

/-! ## 4. Findings -/

/-- Has the finding no skipped name above it? -/
def isOpen (s : DiscoverySettings) (f : Finding) : Bool := !f.names.dropLast.any (skips s)

/-- An entry comes to the same with and without what lies below it. -/
theorem entryFindings_prune (v : Workspace) (below : Here → List Finding) (closed : Location → Bool)
    (place : Location) (name : Name) (node : Node) :
    entryFindings v o here below (name, node.prune closed place) = entryFindings v o here below (name, node) := by
  have htarget : Walk.targetOf v o here name (node.prune closed place) = Walk.targetOf v o here name node := by
    cases node <;> rfl
  unfold entryFindings
  dsimp only
  rw [htarget]

/-- So a walk outside goes through the visible entries. -/
theorem findings_succ_eq (hplace : ¬Within (isClosed s w) here.place) (steps : Nat) :
    findings w o (steps + 1) here =
      if o.maxDepth.any fun depth => depth ≤ here.names.length then []
      else ((visible s w).entriesAt here.place).flatMap (entryFindings w o here (findings w o steps)) := by
  rw [findings, entriesAt_visible hplace, List.flatMap_map]
  simp only [entryFindings_prune]

theorem findings_of_no_entries (v : Workspace) (h : v.tree.entriesAt here.place = []) (steps : Nat) :
    findings v o steps here = [] := by
  cases steps with
  | zero => rfl
  | succ steps =>
    rw [findings, h, List.flatMap_nil]
    split <;> rfl

/-- Nothing below a skipped name is open. -/
theorem filter_findings_enter (v : Workspace) {name : Name} (hname : skips s name = true) (place : Location)
    (steps : Nat) : (findings v o steps (here.enter v o name place)).filter (isOpen s) = [] := by
  refine List.filter_eq_nil_iff.mpr fun f hf => ?_
  obtain ⟨more, hne, hnames⟩ := Walk.exists_names hf
  have hmem : name ∈ f.names.dropLast := by
    rw [hnames, List.dropLast_append_of_ne_nil hne]
    exact List.mem_append_left _ (List.mem_append_right _ List.mem_cons_self)
  unfold isOpen
  rw [List.any_eq_true.mpr ⟨name, hmem, hname⟩]
  exact Bool.false_ne_true

/-- A walk outside is over in both where it has no room in one. -/
theorem findings_of_room (h : Alike s w w') (hplace : ¬Within (isClosed s w) here.place)
    (hroom : room w here = 0 ∨ room w' here = 0) (steps : Nat) :
    findings w o steps here = [] ∧ findings w' o steps here = [] := by
  have hvisible := entriesAt_visible hplace
  have hvisible' : (visible s w').entriesAt here.place = _ := entriesAt_visible (isClosed_eq h ▸ hplace)
  rw [← h.tree] at hvisible'
  have hnone : (visible s w).entriesAt here.place = [] := by
    unfold room at hroom
    rcases hroom with hroom | hroom
    · rw [hvisible, Node.entriesAt_of_sizeAt (by omega), List.map_nil]
    · rw [hvisible', Node.entriesAt_of_sizeAt (by omega), List.map_nil]
  rw [hnone] at hvisible hvisible'
  exact ⟨findings_of_no_entries w (List.map_eq_nil_iff.mp hvisible.symm) steps,
    findings_of_no_entries w' (List.map_eq_nil_iff.mp hvisible'.symm) steps⟩

/-- An entry outside comes to the same in both, if what is found below it does. -/
theorem filter_entryFindings_eq (h : Alike s w w') (hplace : ¬Within (isClosed s w) here.place) {name : Name}
    {node : Node} (hentry : (name, node) ∈ (visible s w).entriesAt here.place) {below below' : Here → List Finding}
    (hbelow : ∀ place, Walk.targetOf w o here name node = .ok (.directory place) →
      (below (here.enter w o name place)).filter (isOpen s) = (below' (here.enter w' o name place)).filter (isOpen s)) :
    (entryFindings w o here below (name, node)).filter (isOpen s) =
      (entryFindings w' o here below' (name, node)).filter (isOpen s) := by
  unfold entryFindings
  dsimp only
  rw [← targetOf_eq h hplace hentry]
  cases htarget : Walk.targetOf w o here name node with
  | error fault => rfl
  | ok target =>
    dsimp only
    split
    · rfl
    cases target with
    | other => rfl
    | file => rfl
    | directory place => exact hbelow place htarget

/-- The way down to an outside directory is the same in both. -/
theorem enter_eq (h : Alike s w w') (hgit : o.respectGit = s.respectGitignore) {place : Location} {m : Node}
    (hplace : ¬Within (isClosed s w) place) (hat : w.tree.at? place = some m) (name : Name) :
    here.enter w o name place = here.enter w' o name place := by
  unfold Here.enter
  rw [hgit, read_eq h hplace hat]

/-- **Outside, both walks find the same**, but for what has a skipped name above it. -/
theorem filter_findings_eq (h : Alike s w w') (hgit : o.respectGit = s.respectGitignore) {steps steps' : Nat}
    (hplace : ¬Within (isClosed s w) here.place) (hroom : room w here ≤ steps) (hroom' : room w' here ≤ steps') :
    (findings w o steps here).filter (isOpen s) = (findings w' o steps' here).filter (isOpen s) := by
  induction steps generalizing steps' here with
  | zero =>
    have hnone := findings_of_room (o := o) h hplace (.inl (Nat.le_zero.mp hroom))
    rw [(hnone 0).1, (hnone steps').2]
  | succ steps ih =>
    cases steps' with
    | zero =>
      have hnone := findings_of_room (o := o) h hplace (.inr (Nat.le_zero.mp hroom'))
      rw [(hnone (steps + 1)).1, (hnone 0).2]
    | succ steps' =>
      rw [findings_succ_eq hplace, findings_succ_eq (isClosed_eq h ▸ hplace), ← h.tree]
      split
      · rfl
      rw [List.filter_flatMap, List.filter_flatMap]
      refine List.flatMap_congr fun ⟨name, node⟩ hentry => ?_
      refine filter_entryFindings_eq h hplace hentry fun place htarget => ?_
      cases hname : skips s name with
      | true => rw [filter_findings_enter w hname, filter_findings_enter w' hname]
      | false =>
        -- outside again, and with less room in both
        obtain ⟨hinside, m, hm⟩ := target_outside h hplace hentry hname htarget
        obtain ⟨child, hchild⟩ := exists_entry_of_visible hplace hentry
        obtain ⟨child', hchild'⟩ := exists_entry_of_visible (isClosed_eq h ▸ hplace) (h.tree ▸ hentry)
        have hlt := Walk.room_enter_lt hchild htarget
        have hlt' := Walk.room_enter_lt hchild' ((targetOf_eq h hplace hentry).symm.trans htarget)
        rw [← enter_eq h hgit hinside hm] at hlt' ⊢
        exact ih hinside (by omega) (by omega)

end Alike

end Ambient.Discovery
