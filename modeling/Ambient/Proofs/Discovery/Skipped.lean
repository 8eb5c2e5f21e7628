import Ambient.Proofs.Discovery.Outside

/-!
# Skipped directories

What lies below a skipped directory is walked like the rest, and left out afterwards. So there are two ways in which
it can still show:

* a fault there stops the walk before anything is left out: `stopsInside`, as the first fault is what a discovery
  gives (`discover_of_firstFault`);
* where git's rules are respected, `.git/info/exclude` is read, and `.git` is a skipped directory
  (`discover_reads_excludes`).

In all other respects a discovery does not depend on it. A discovery that is not stopped so gives what it gives when
all findings below skipped directories are left out of the walk (`wanted_eq`). In workspaces that are alike these are
the same, so the keys are, or the error is (`discover_eq_of_alike`).
-/

namespace Ambient.Discovery

open Node (Within)
open Walk (Finding Here)

/-! ## 1. Results -/

/-- What a discovery with these settings gives. -/
def discover (s : DiscoverySettings) (w : Workspace) : Except SourceError (List FileKey) :=
  (ofSettings w s).bind fun d => d.keys w

/-- All that a discovery finds, wanted or not. -/
def allFindings (d : Discovery) (w : Workspace) : Except SourceError (List Finding) :=
  if isInput d.settings.root then .ok []
  else
    match w.resolve d.settings.root.toBytes with
    | .error _ => .ok []
    | .ok place => Walk.found w (walkOptions d.settings) place

/-- The first fault that a discovery finds, if it finds one. -/
def firstFault? (s : DiscoverySettings) (w : Workspace) : Option Finding :=
  (((ofSettings w s).bind fun d => d.allFindings w).toOption.getD []).find? Finding.isFault

/-- **A fault that has a skipped name above it stops the discovery.** -/
def stopsInside (s : DiscoverySettings) (w : Workspace) : Bool := (firstFault? s w).any fun f => !isOpen s f

theorem allFiles_eq (d : Discovery) (w : Workspace) : d.allFiles w = (d.allFindings w).bind Walk.collect := by
  unfold allFiles allFindings
  split
  · rfl
  cases w.resolve d.settings.root.toBytes with
  | error _ => rfl
  | ok place => exact Walk.walk_eq w (walkOptions d.settings) place

/-- The keys depend on the wanted files alone. -/
theorem keys_eq (d : Discovery) (w : Workspace) :
    d.keys w = ((d.allFiles w).map (List.filter d.isWanted)).map fun files =>
      (((files.mergeSort namesLe).take d.settings.maxFiles.toNat).map pathOfNames).map FileKey.ofPath := by
  unfold keys paths
  cases d.allFiles w <;> rfl

variable {s : DiscoverySettings} {w w' : Workspace} {d : Discovery}

/-- **The first fault is what a discovery gives.** -/
theorem discover_of_firstFault {f : Finding} {fault : SourceError} (h : firstFault? s w = some f)
    (hf : f.result = .error fault) : discover s w = .error fault := by
  unfold firstFault? at h
  unfold discover
  cases hd : ofSettings w s with
  | error _ =>
    rw [hd] at h
    cases h
  | ok d =>
    rw [hd] at h
    simp only [Except.bind] at h ⊢
    rw [keys_eq, allFiles_eq]
    cases hall : d.allFindings w with
    | error _ =>
      rw [hall] at h
      cases h
    | ok fs =>
      rw [hall] at h
      have hcollect : Walk.collect fs = .error fault := Walk.collect_of_find? h hf
      rw [Except.bind, hcollect]
      rfl

theorem settings_eq (h : ofSettings w s = .ok d) : d.settings = s := by
  unfold ofSettings at h
  split at h
  · cases h
  split at h
  · cases h
  split at h
  · cases h
  split at h
  · cases h
  · cases h
    rfl

/-! ## 2. Unwanted findings -/

theorem isSkipped_of_mapM {names : List Name} {texts : List Text} (h : names.mapM Text.ofBytes? = some texts) :
    isSkipped s texts = names.any (skips s) := by
  induction names generalizing texts with
  | nil =>
    cases h
    rfl
  | cons name names ih =>
    rw [List.mapM_cons] at h
    obtain ⟨t, ht, h⟩ := Option.bind_eq_some_iff.mp h
    obtain ⟨ts, hts, h⟩ := Option.bind_eq_some_iff.mp h
    cases h
    have hname : skips s name = (alwaysSkipped.contains t || s.skipDirs.contains t) := by
      unfold skips
      rw [ht]
      rfl
    have hrest := ih hts
    unfold isSkipped at hrest ⊢
    rw [List.any_cons, List.any_cons, hrest, hname]

/-- **No file below a skipped directory is wanted.** -/
theorem not_wanted {f : Finding} {texts : List Text} (hnames : f.names.mapM Text.ofBytes? = some texts)
    (hopen : isOpen d.settings f = false) : d.isWanted texts = false := by
  unfold isOpen at hopen
  rw [Bool.not_eq_false'] at hopen
  obtain ⟨name, hname, hskips⟩ := List.any_eq_true.mp hopen
  unfold isWanted
  rw [isSkipped_of_mapM hnames, List.any_eq_true.mpr ⟨name, List.mem_of_mem_dropLast hname, hskips⟩]
  rfl

theorem mapM_names_of_allFindings {fs : List Finding} (h : d.allFindings w = .ok fs) {f : Finding} (hf : f ∈ fs)
    {texts : List Text} (hok : f.result = .ok texts) : f.names.mapM Text.ofBytes? = some texts := by
  unfold allFindings at h
  split at h
  · cases h
    exact absurd hf List.not_mem_nil
  split at h
  · cases h
    exact absurd hf List.not_mem_nil
  · exact Walk.mapM_names_of_found h hf hok

theorem isOpen_of_first (hd : ofSettings w s = .ok d) (hstops : stopsInside s w = false) {fs : List Finding}
    (h : d.allFindings w = .ok fs) : ∀ f ∈ fs.find? Finding.isFault, isOpen s f = true := by
  intro f hf
  unfold stopsInside firstFault? at hstops
  rw [hd] at hstops
  simp only [Except.bind] at hstops
  rw [h] at hstops
  simp only [Except.toOption, Option.getD_some] at hstops
  rw [Option.mem_def.mp hf, Option.any_some, Bool.not_eq_false'] at hstops
  exact hstops

/-- **A discovery that is not stopped inside gives what it gives without skipped directories.** -/
theorem wanted_eq (hd : ofSettings w s = .ok d) (hstops : stopsInside s w = false) :
    (d.allFiles w).map (List.filter d.isWanted) =
      (((d.allFindings w).map (List.filter (isOpen s))).bind Walk.collect).map (List.filter d.isWanted) := by
  rw [allFiles_eq]
  cases hall : d.allFindings w with
  | error _ => rfl
  | ok fs =>
    refine Walk.collect_filter (fun f hf hopen texts hok => ?_) (isOpen_of_first hd hstops hall)
    rw [← settings_eq hd] at hopen
    exact not_wanted (mapM_names_of_allFindings hall hf hok) hopen

/-! ## 3. Two workspaces -/

theorem like_root (h : Alike s w w') : Node.Like (w.node? s.root.toBytes) (w'.node? s.root.toBytes) := by
  unfold Workspace.node?
  rw [← h.root]
  cases hroot : w.resolve s.root.toBytes with
  | error _ => exact .missing
  | ok place =>
    have hplace : place = rootPlace s w := by
      unfold rootPlace
      rw [hroot]
      rfl
    refine Node.like_at? h.prune_eq (Node.not_below_of_not_within (not_within_above ?_))
    rw [hplace]

theorem ofSettings_eq (h : Alike s w w') : ofSettings w s = ofSettings w' s := by
  have hlike := like_root h
  unfold ofSettings Workspace.pathExists Workspace.isDirectory
  revert hlike
  generalize w.node? s.root.toBytes = node
  generalize w'.node? s.root.toBytes = node'
  intro hlike
  cases hlike <;> rfl

/-- There is a node at the root of a discovery. -/
theorem exists_root (h : ofSettings w s = .ok d) :
    w.resolve s.root.toBytes = .ok (rootPlace s w) ∧ ∃ m, w.tree.at? (rootPlace s w) = some m := by
  have hexists : w.pathExists s.root.toBytes = true := by
    unfold ofSettings at h
    split at h
    · cases h
    split at h
    · cases h
    · rename_i hmissing
      rwa [Bool.not_eq_true, Bool.not_eq_false'] at hmissing
  unfold Workspace.pathExists Workspace.node? at hexists
  unfold rootPlace
  cases hroot : w.resolve s.root.toBytes with
  | error _ =>
    rw [hroot] at hexists
    cases hexists
  | ok place =>
    rw [hroot] at hexists
    exact ⟨rfl, Option.isSome_iff_exists.mp hexists⟩

/-- **The walks from the root find the same**, but for what has a skipped name above it. -/
theorem filter_found_eq (h : Alike s w w') {m : Node} (hat : w.tree.at? (rootPlace s w) = some m) :
    (Walk.found w (walkOptions s) (rootPlace s w)).map (List.filter (isOpen s)) =
      (Walk.found w' (walkOptions s) (rootPlace s w)).map (List.filter (isOpen s)) := by
  have houtside : ¬Within (isClosed s w) (rootPlace s w) := not_within_above List.prefix_rfl
  have hfault : IgnoreLevel.faultAbove? w (walkOptions s).respectGit (rootPlace s w) =
      IgnoreLevel.faultAbove? w' (walkOptions s).respectGit (rootPlace s w) := faultAbove?_eq h hat
  have hstart : Here.start w (walkOptions s) (rootPlace s w) = Here.start w' (walkOptions s) (rootPlace s w) :=
    congrArg (Here.mk _ _ _) (congrArg₂ _ (read_eq h houtside hat []) (levelsAbove_eq h hat))
  unfold Walk.found
  rw [hfault]
  split
  · rfl
  · refine congrArg Except.ok ?_
    rw [← hstart]
    exact filter_findings_eq h rfl houtside (Walk.room_le w _) (Walk.room_le w' _)

theorem filter_allFindings_eq (h : Alike s w w') (hd : ofSettings w s = .ok d) :
    (d.allFindings w).map (List.filter (isOpen s)) = (d.allFindings w').map (List.filter (isOpen s)) := by
  obtain ⟨hroot, m, hat⟩ := exists_root hd
  unfold allFindings
  rw [settings_eq hd]
  split
  · rfl
  · rw [← h.root, hroot]
    exact filter_found_eq h hat

/-- **What lies below skipped directories does not count**, for discoveries that nothing stops there. -/
theorem discover_eq_of_alike (h : Alike s w w') (hstops : stopsInside s w = false)
    (hstops' : stopsInside s w' = false) : discover s w = discover s w' := by
  unfold discover
  rw [← ofSettings_eq h]
  cases hd : ofSettings w s with
  | error _ => rfl
  | ok d =>
    show d.keys w = d.keys w'
    rw [keys_eq, keys_eq, wanted_eq hd hstops, wanted_eq (ofSettings_eq h ▸ hd) hstops', filter_allFindings_eq h hd]

/-! ### Sample workspaces -/

/-- Links are followed, and git's rules respected. -/
def sampleSettings : DiscoverySettings :=
  { DiscoverySettings.standard with followLinks := true, respectGitignore := true }

def asBytes (s : String) : Bytes := Text.toBytes s.toList

/-- A declaration file, a link to its directory, and something in `node_modules` and `.git`. -/
def sampleWorkspace (modules git : List (Name × Node)) : Workspace :=
  ⟨.directory [([], .directory [
    (asBytes "typings", .directory [(asBytes "app_modules.cg.d.ts", .file [])]),
    (asBytes "shared", .link (asBytes "typings")),
    (asBytes "node_modules", .directory modules),
    (asBytes ".git", .directory git)])]⟩

/-- What holds git's own ignore file. -/
def excludesOf (content : String) : Name × Node :=
  (asBytes "info", .directory [(asBytes "exclude", .file (asBytes content))])

/-- A package with a declaration file, and with a link that leads out of it. -/
def samplePackage : Name × Node :=
  (asBytes "pkg", .directory [(asBytes "b_modules.x.d.ts", .file []), (asBytes "up", .link (asBytes "../../typings"))])

def busySample : Workspace := sampleWorkspace [samplePackage] [(asBytes "HEAD", .file []), excludesOf "*.tmp\n"]

def quietSample : Workspace := sampleWorkspace [] [excludesOf "*.tmp\n"]

theorem alike_sample : Alike sampleSettings busySample quietSample where
  root := rfl
  tree := rfl
  links := by decide +kernel
  excludes := by
    intro _ place hplace _
    have hfiles : ((visible sampleSettings busySample).places.map fun place =>
          IgnoreLevel.fileAt busySample place ".git/info/exclude".toList) =
        (visible sampleSettings busySample).places.map fun place =>
          IgnoreLevel.fileAt quietSample place ".git/info/exclude".toList := rfl
    exact List.map_inj_left.mp hfiles place hplace

theorem discover_eq_sample : discover sampleSettings busySample = discover sampleSettings quietSample :=
  discover_eq_of_alike alike_sample (by decide +kernel) (by decide +kernel)

/-- **Git's own ignore file counts**, though it lies in a skipped directory: without it a file is found, with it
    none. Otherwise the two workspaces are alike. -/
theorem discover_reads_excludes :
    let w := sampleWorkspace [] []
    let w' := sampleWorkspace [] [excludesOf "typings/\n"]
    w.resolve sampleSettings.root.toBytes = w'.resolve sampleSettings.root.toBytes ∧
      visible sampleSettings w = visible sampleSettings w' ∧
      Workspace.LinksStayOut (isClosed sampleSettings w) w ∧ Workspace.LinksStayOut (isClosed sampleSettings w') w' ∧
      stopsInside sampleSettings w = false ∧ stopsInside sampleSettings w' = false ∧
      discover sampleSettings w = .ok [⟨"typings/app_modules.cg.d.ts".toList⟩] ∧
      discover sampleSettings w' = .ok [] := by
  refine ⟨rfl, rfl, ?_, ?_, ?_, ?_, ?_, ?_⟩ <;> decide +kernel

end Ambient.Discovery
