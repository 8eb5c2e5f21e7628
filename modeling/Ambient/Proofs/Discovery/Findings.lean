import Ambient.Discovery.Walk
import Ambient.Proofs.Workspace.Resolve

/-!
# What a walk finds

A walk answers with its files or with its first fault. `findings` keeps both apart: it lists, in the order of the
walk, what every entry that counts comes to, with the names that lead there. The answer is read off the list
(`filesBelow_eq`).

The steps of a walk are bounded. `room` is what is left of the bound that is ever needed: it shrinks with every step
down (`room_enter_lt`), as one along the tree leads to a smaller node, and one along a link to a directory that the
walk is not in. `room_le` says that no walk runs out of steps.

The first fault that is found stops the walk. Findings that are not wanted can be left out, unless it is one of these
(`collect_filter`).
-/

namespace Ambient.Walk

/-! ## 1. Findings -/

/-- What an entry comes to: a file, or a fault. -/
structure Finding where
  names : List Name
  result : Except SourceError (List Text)

/-- The files, or the first fault. -/
def collect (findings : List Finding) : Except SourceError (List (List Text)) := findings.mapM Finding.result

def Target.isDirectory : Target → Bool
  | directory _ => true
  | file | other => false

/-- One directory further down. -/
def Here.enter (w : Workspace) (o : WalkOptions) (here : Here) (name : Name) (place : Location) : Here :=
  ⟨place, here.names ++ [name], place :: here.path,
    IgnoreLevel.read w o.respectGit place [] :: here.levels.map (IgnoreLevel.descend name)⟩

/-- What an entry comes to, given what is found below a directory. -/
def entryFindings (w : Workspace) (o : WalkOptions) (here : Here) (below : Here → List Finding) :
    Name × Node → List Finding
  | (name, node) =>
    match targetOf w o here name node with
    | .error fault => [⟨here.names ++ [name], .error fault⟩]
    | .ok target =>
      if IgnoreLevel.isIgnored here.levels name target.isDirectory then []
      else
        match target with
        | .other => []
        | .file => [⟨here.names ++ [name], textNames o (here.names ++ [name])⟩]
        | .directory place => below (here.enter w o name place)

/-- What is found below a directory, with this many steps down left. -/
def findings (w : Workspace) (o : WalkOptions) : Nat → Here → List Finding
  | 0, _ => []
  | steps + 1, here =>
    if o.maxDepth.any fun depth => depth ≤ here.names.length then []
    else (w.tree.entriesAt here.place).flatMap (entryFindings w o here (findings w o steps))

/-! ## 2. The answer -/

theorem collect_nil : collect [] = .ok [] := rfl

theorem collect_cons (f : Finding) (fs : List Finding) :
    collect (f :: fs) = f.result.bind fun a => (collect fs).map (a :: ·) := by
  unfold collect
  rw [List.mapM_cons]
  cases f.result with
  | error _ => rfl
  | ok a => cases List.mapM Finding.result fs <;> rfl

theorem collect_singleton (f : Finding) : collect [f] = f.result.map fun a => [a] := by
  rw [collect_cons]
  cases f.result <;> rfl

theorem collect_append (fs gs : List Finding) :
    collect (fs ++ gs) = (collect fs).bind fun as => (collect gs).map (as ++ ·) := by
  induction fs with
  | nil =>
    rw [List.nil_append, collect_nil]
    cases collect gs <;> rfl
  | cons f fs ih =>
    rw [List.cons_append, collect_cons, collect_cons, ih]
    cases f.result with
    | error _ => rfl
    | ok a =>
      cases collect fs with
      | error _ => rfl
      | ok as => cases collect gs <;> rfl

/-- **Where there is no fault, the files are the results.** -/
theorem results_of_collect {fs : List Finding} {files : List (List Text)} (h : collect fs = .ok files) :
    fs.map Finding.result = files.map .ok := by
  induction fs generalizing files with
  | nil =>
    cases h
    rfl
  | cons f fs ih =>
    rw [collect_cons] at h
    cases hf : f.result with
    | error _ =>
      rw [hf] at h
      cases h
    | ok names =>
      rw [hf] at h
      cases hfs : collect fs with
      | error _ =>
        rw [hfs] at h
        cases h
      | ok rest =>
        rw [hfs] at h
        cases h
        rw [List.map_cons, List.map_cons, hf, ih hfs]

/-- A fold that adds what each entry comes to collects it all. -/
theorem foldlM_eq_collect {α : Type} {step : List (List Text) → α → Except SourceError (List (List Text))}
    (fs : α → List Finding) {l : List α} (h : ∀ found, ∀ a ∈ l, step found a = (collect (fs a)).map (found ++ ·))
    (found : List (List Text)) : l.foldlM step found = (collect (l.flatMap fs)).map (found ++ ·) := by
  induction l generalizing found with
  | nil =>
    show Except.ok found = Except.ok (found ++ [])
    rw [List.append_nil]
  | cons a l ih =>
    have hl : ∀ found, ∀ b ∈ l, step found b = (collect (fs b)).map (found ++ ·) :=
      fun found b hb => h found b (List.mem_cons_of_mem _ hb)
    rw [List.foldlM_cons, h found a List.mem_cons_self, List.flatMap_cons, collect_append]
    cases collect (fs a) with
    | error _ => rfl
    | ok as =>
      show l.foldlM step (found ++ as) = _
      rw [ih hl]
      cases collect (l.flatMap fs) with
      | error _ => rfl
      | ok bs =>
        show Except.ok (found ++ as ++ bs) = Except.ok (found ++ (as ++ bs))
        rw [List.append_assoc]

/-- **The walk collects what it finds.** -/
theorem filesBelow_eq (w : Workspace) (o : WalkOptions) (steps : Nat) (here : Here) :
    filesBelow w o steps here = collect (findings w o steps here) := by
  induction steps generalizing here with
  | zero => rfl
  | succ steps ih =>
    rw [filesBelow, findings]
    split
    · rfl
    · refine (foldlM_eq_collect (entryFindings w o here (findings w o steps)) (fun found entry _ => ?_) []).trans ?_
      · obtain ⟨name, node⟩ := entry
        dsimp only [entryFindings]
        cases targetOf w o here name node with
        | error fault => rfl
        | ok target =>
          show (if IgnoreLevel.isIgnored here.levels name target.isDirectory = true then pure found else _) = _
          dsimp only
          split
          · show Except.ok found = Except.ok (found ++ [])
            rw [List.append_nil]
          · cases target with
            | other =>
              show Except.ok found = Except.ok (found ++ [])
              rw [List.append_nil]
            | file =>
              rw [collect_singleton]
              cases textNames o (here.names ++ [name]) <;> rfl
            | directory place =>
              show (filesBelow w o steps (here.enter w o name place)).bind _ = _
              rw [ih]
              cases collect (findings w o steps (here.enter w o name place)) <;> rfl
      · exact congrFun Except.map_id _

/-- Is it a fault? -/
def Finding.isFault (f : Finding) : Bool := !f.result.isOk

/-- **The first fault is the answer.** -/
theorem collect_of_find? {fs : List Finding} {f : Finding} {fault : SourceError}
    (h : fs.find? Finding.isFault = some f) (hf : f.result = .error fault) : collect fs = .error fault := by
  induction fs with
  | nil => cases h
  | cons g fs ih =>
    rw [collect_cons]
    cases hg : g.result with
    | error e =>
      have hisFault : g.isFault = true := by unfold Finding.isFault; rw [hg]; rfl
      rw [List.find?_cons_of_pos hisFault] at h
      cases h
      rw [hg] at hf
      cases hf
      rfl
    | ok names =>
      have hisFault : ¬g.isFault = true := by unfold Finding.isFault; rw [hg]; exact Bool.false_ne_true
      rw [List.find?_cons_of_neg hisFault] at h
      rw [ih h]
      rfl

/-- A finding more, and no fault. -/
theorem filter_collect_cons {f : Finding} {names : List Text} (h : f.result = .ok names)
    (wanted : List Text → Bool) (fs : List Finding) :
    (collect (f :: fs)).map (List.filter wanted) =
      ((collect fs).map (List.filter wanted)).map fun files => if wanted names then names :: files else files := by
  rw [collect_cons, h]
  cases collect fs with
  | error _ => rfl
  | ok files => exact congrArg Except.ok List.filter_cons

/-- **What is not wanted can be left out**, unless it is the first fault. -/
theorem collect_filter {p : Finding → Bool} {wanted : List Text → Bool} {fs : List Finding}
    (hunwanted : ∀ f ∈ fs, p f = false → ∀ names, f.result = .ok names → wanted names = false)
    (hfault : ∀ f ∈ fs.find? Finding.isFault, p f = true) :
    (collect fs).map (List.filter wanted) = (collect (fs.filter p)).map (List.filter wanted) := by
  induction fs with
  | nil => rfl
  | cons f fs ih =>
    obtain ⟨hhere, hrest⟩ := List.forall_mem_cons.mp hunwanted
    cases hf : f.result with
    | error fault =>
      have hisFault : f.isFault = true := by unfold Finding.isFault; rw [hf]; rfl
      have hp : p f = true := hfault f (List.find?_cons_of_pos hisFault)
      rw [List.filter_cons_of_pos hp, collect_cons, collect_cons, hf]
      rfl
    | ok names =>
      have hisFault : ¬f.isFault = true := by unfold Finding.isFault; rw [hf]; exact Bool.false_ne_true
      rw [List.find?_cons_of_neg hisFault] at hfault
      rw [filter_collect_cons hf, ih hrest hfault]
      cases hp : p f with
      | true => rw [List.filter_cons_of_pos hp, filter_collect_cons hf]
      | false =>
        rw [List.filter_cons_of_neg (by rw [hp]; exact Bool.false_ne_true), hhere hp names hf]
        exact congrFun Except.map_id _

/-! ## 3. The steps that are left -/

/-- The number of places that are not on the path. -/
def unseen (w : Workspace) (path : List Location) : Nat := w.tree.places.countP fun place => !path.contains place

theorem not_contains_of_cons {place p : Location} {path : List Location} (h : (!(place :: path).contains p) = true) :
    (!path.contains p) = true := by
  rw [List.contains_cons, Bool.not_or, Bool.and_eq_true] at h
  exact h.2

theorem unseen_cons_le (w : Workspace) (path : List Location) (place : Location) :
    unseen w (place :: path) ≤ unseen w path := List.countP_mono_left fun _ _ hp => not_contains_of_cons hp

theorem unseen_cons_lt {w : Workspace} {path : List Location} {place : Location} (hplace : place ∈ w.tree.places)
    (hpath : path.contains place = false) : unseen w (place :: path) < unseen w path := by
  obtain ⟨before, behind, hsplit⟩ := List.append_of_mem hplace
  have hbefore : (before.countP fun p => !(place :: path).contains p) ≤ before.countP fun p => !path.contains p :=
    List.countP_mono_left fun _ _ hp => not_contains_of_cons hp
  have hbehind : (behind.countP fun p => !(place :: path).contains p) ≤ behind.countP fun p => !path.contains p :=
    List.countP_mono_left fun _ _ hp => not_contains_of_cons hp
  have hnew : (!(place :: path).contains place) = false := by simp
  have hold : (!path.contains place) = true := by rw [hpath]; rfl
  unfold unseen
  rw [hsplit, List.countP_append, List.countP_append, List.countP_cons, List.countP_cons, hnew, hold,
    if_neg Bool.false_ne_true, if_pos rfl]
  omega

/-- **What a walk can still need**: for every place it is not in a way down the tree, and the way down from here. -/
def room (w : Workspace) (here : Here) : Nat := unseen w here.path * (w.tree.size + 1) + w.tree.sizeAt here.place

theorem room_le (w : Workspace) (here : Here) : room w here ≤ (w.tree.size + 1) * (w.tree.size + 1) := by
  have hcount : unseen w here.path ≤ w.tree.size := by
    rw [← Node.length_places]
    exact List.countP_le_length
  have hsize := Node.sizeAt_le w.tree here.place
  have hmul := Nat.mul_le_mul_right (w.tree.size + 1) hcount
  unfold room
  rw [Nat.succ_mul]
  omega

/-- What a followed link leads to is a directory that the walk is not in. -/
theorem followed_eq_directory {w : Workspace} {o : WalkOptions} {here : Here} {name : Name} {target : Bytes}
    {place : Location} (h : followed w o here name target = .ok (.directory place)) :
    w.resolveFrom true Workspace.maxLinks (Workspace.startOf here.place target) (Path.names target) = .ok place ∧
      (∃ entries, w.tree.at? place = some (.directory entries)) ∧ here.path.contains place = false := by
  unfold followed at h
  dsimp only at h
  split at h
  · cases h
  · rename_i found hfound
    split at h
    · rename_i entries hat
      split at h
      · cases h
      · rename_i hpath
        cases h
        exact ⟨hfound, ⟨entries, hat⟩, by simpa using hpath⟩
    · cases h

/-- **Every step down leaves less room.** -/
theorem room_enter_lt {w : Workspace} {o : WalkOptions} {here : Here} {name : Name} {node child : Node}
    {place : Location} (hmem : (name, child) ∈ w.tree.entriesAt here.place)
    (h : targetOf w o here name node = .ok (.directory place)) :
    room w (here.enter w o name place) < room w here := by
  show unseen w (place :: here.path) * (w.tree.size + 1) + w.tree.sizeAt place <
    unseen w here.path * (w.tree.size + 1) + w.tree.sizeAt here.place
  cases node with
  | file _ => cases h
  | directory _ =>
    cases h
    have hmul := Nat.mul_le_mul_right (w.tree.size + 1) (unseen_cons_le w here.path (here.place ++ [name]))
    have hlt := Node.sizeAt_concat_lt hmem
    omega
  | link target =>
    unfold targetOf at h
    dsimp only at h
    split at h
    · obtain ⟨-, ⟨entries, hat⟩, hpath⟩ := followed_eq_directory h
      have hlt := unseen_cons_lt (Node.mem_places hat) hpath
      have hmul := Nat.mul_le_mul_right (w.tree.size + 1) (Nat.succ_le_of_lt hlt)
      have hsize := Node.sizeAt_le w.tree place
      rw [Nat.succ_mul] at hmul
      omega
    · cases h

/-! ## 4. The names that lead to a finding -/

/-- What an entry of a directory comes to. -/
inductive At (w : Workspace) (o : WalkOptions) (here : Here) (below : Here → List Finding) (f : Finding) :
    Name → Node → Prop where
  | fault {name : Name} {node : Node} {fault : SourceError} (h : targetOf w o here name node = .error fault)
      (hf : f = ⟨here.names ++ [name], .error fault⟩) : At w o here below f name node
  | file {name : Name} {node : Node} (h : targetOf w o here name node = .ok .file)
      (hf : f = ⟨here.names ++ [name], textNames o (here.names ++ [name])⟩) : At w o here below f name node
  | directory {name : Name} {node : Node} {place : Location} (h : targetOf w o here name node = .ok (.directory place))
      (hf : f ∈ below (here.enter w o name place)) : At w o here below f name node

theorem at_of_mem {w : Workspace} {o : WalkOptions} {here : Here} {below : Here → List Finding} {f : Finding}
    {name : Name} {node : Node} (h : f ∈ entryFindings w o here below (name, node)) :
    At w o here below f name node := by
  unfold entryFindings at h
  dsimp only at h
  split at h
  · rename_i fault htarget
    exact .fault htarget (List.mem_singleton.mp h)
  rename_i target htarget
  split at h
  · exact absurd h List.not_mem_nil
  cases target with
  | other => exact absurd h List.not_mem_nil
  | file => exact .file htarget (List.mem_singleton.mp h)
  | directory place => exact .directory htarget h

/-- **A finding is made at an entry, or below one.** -/
theorem exists_entry {w : Workspace} {o : WalkOptions} {steps : Nat} {here : Here} {f : Finding}
    (h : f ∈ findings w o (steps + 1) here) :
    ∃ name node, (name, node) ∈ w.tree.entriesAt here.place ∧ At w o here (findings w o steps) f name node := by
  rw [findings] at h
  split at h
  · exact absurd h List.not_mem_nil
  obtain ⟨⟨name, node⟩, hentry, hf⟩ := List.mem_flatMap.mp h
  exact ⟨name, node, hentry, at_of_mem hf⟩

/-- **Every finding below a directory has its names, and more.** -/
theorem exists_names {w : Workspace} {o : WalkOptions} {steps : Nat} {here : Here} {f : Finding}
    (h : f ∈ findings w o steps here) : ∃ more, more ≠ [] ∧ f.names = here.names ++ more := by
  induction steps generalizing here with
  | zero => exact absurd h List.not_mem_nil
  | succ steps ih =>
    obtain ⟨name, node, -, hat⟩ := exists_entry h
    cases hat with
    | fault _ hf => exact ⟨[name], List.cons_ne_nil _ _, hf ▸ rfl⟩
    | file _ hf => exact ⟨[name], List.cons_ne_nil _ _, hf ▸ rfl⟩
    | directory _ hbelow =>
      obtain ⟨more, -, hnames⟩ := ih hbelow
      refine ⟨name :: more, List.cons_ne_nil _ _, hnames.trans ?_⟩
      show here.names ++ [name] ++ more = _
      rw [List.append_assoc, List.singleton_append]

/-- **A file that is found has the names that lead to it**, as texts. -/
theorem mapM_names {w : Workspace} {o : WalkOptions} {steps : Nat} {here : Here} {f : Finding} {texts : List Text}
    (h : f ∈ findings w o steps here) (hok : f.result = .ok texts) : f.names.mapM Text.ofBytes? = some texts := by
  induction steps generalizing here with
  | zero => exact absurd h List.not_mem_nil
  | succ steps ih =>
    obtain ⟨name, node, -, hat⟩ := exists_entry h
    cases hat with
    | fault _ hf =>
      rw [hf] at hok
      cases hok
    | file _ hf =>
      rw [hf] at hok ⊢
      unfold textNames at hok
      split at hok
      · rename_i found hfound
        cases hok
        exact hfound
      · cases hok
    | directory _ hbelow => exact ih hbelow

/-! ## 5. The whole walk -/

/-- The directory at which a walk starts. -/
def Here.start (w : Workspace) (o : WalkOptions) (place : Location) : Here :=
  ⟨place, [], [place], IgnoreLevel.read w o.respectGit place [] :: IgnoreLevel.levelsAbove w o.respectGit place⟩

/-- All that the walk from a directory finds, unless an ignore file above stops it before it starts. -/
def found (w : Workspace) (o : WalkOptions) (place : Location) : Except SourceError (List Finding) :=
  match IgnoreLevel.faultAbove? w o.respectGit place with
  | some fault => .error (.walk fault)
  | none => .ok (findings w o ((w.tree.size + 1) * (w.tree.size + 1)) (Here.start w o place))

theorem walk_eq (w : Workspace) (o : WalkOptions) (place : Location) :
    walk w o place = (found w o place).bind collect := by
  unfold walk found
  cases IgnoreLevel.faultAbove? w o.respectGit place with
  | some _ => rfl
  | none => exact filesBelow_eq w o _ (Here.start w o place)

theorem mapM_names_of_found {w : Workspace} {o : WalkOptions} {place : Location} {fs : List Finding}
    (h : found w o place = .ok fs) {f : Finding} (hf : f ∈ fs) {texts : List Text} (hok : f.result = .ok texts) :
    f.names.mapM Text.ofBytes? = some texts := by
  unfold found at h
  split at h
  · cases h
  · cases h
    exact mapM_names hf hok

end Ambient.Walk
