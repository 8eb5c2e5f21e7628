import Ambient.Proofs.Discovery.Chain
import Ambient.Proofs.Glob.Slashes

/-!
# The depth of a discovery

A pattern without `**` bounds the depth of the walk by the number of its parts. A bounded walk finds what the walk
without a bound finds down to there (`findings_bounded`). So nothing is lost by the bound if no path that the glob
matches has more names than the pattern has parts: `StaysWithin`.

A path has one slash less than names, and a glob takes no more slashes than its tokens can. So a pattern stays
within its depth if no class of it takes a slash, unless one is written in it (`staysWithin_of_classesWrite`). Stars
and question marks take none. But `[!x]` takes one, and `a[!x]b` matches the path `a/b`, which is one step deeper
than the walk goes.

`losesNoFile_iff` says that this is the exact condition: a pattern loses no file, in whatever workspace, if and only
if it stays within its depth.
-/

namespace Ambient

namespace Walk

/-! ## 1. Bounded walks -/

variable {w : Workspace} {o : WalkOptions} {here : Here}

/-- **A bounded walk finds what is found down to there.** -/
theorem findings_bounded (depth steps : Nat) :
    findings w { o with maxDepth := some depth } steps here =
      (findings w { o with maxDepth := none } steps here).filter fun f => decide (f.names.length ≤ depth) := by
  induction steps generalizing here with
  | zero => rfl
  | succ steps ih =>
    by_cases hdepth : depth ≤ here.names.length
    · have hnone : ((findings w { o with maxDepth := none } (steps + 1) here).filter
          fun f => decide (f.names.length ≤ depth)) = [] := by
        rw [List.filter_eq_nil_iff]
        intro f hf
        obtain ⟨more, hmore, hnames⟩ := exists_names hf
        have hlength := List.length_pos_iff.mpr hmore
        rw [hnames, List.length_append, decide_eq_true_eq]
        omega
      rw [hnone, findings]
      dsimp only
      rw [Option.any_some, if_pos (decide_eq_true hdepth)]
    · rw [findings, findings]
      dsimp only
      rw [Option.any_some, Option.any_none, if_neg (by rwa [decide_eq_true_eq]), if_neg Bool.false_ne_true,
        List.filter_flatMap]
      refine List.flatMap_congr fun entry _ => ?_
      obtain ⟨name, node⟩ := entry
      have hkept : ∀ result, [(⟨here.names ++ [name], result⟩ : Finding)].filter
          (fun f => decide (f.names.length ≤ depth)) = [⟨here.names ++ [name], result⟩] := by
        intro result
        refine List.filter_cons_of_pos ?_
        rw [List.length_append, List.length_singleton, decide_eq_true_eq]
        omega
      have htarget : targetOf w { o with maxDepth := some depth } here name node =
          targetOf w { o with maxDepth := none } here name node := rfl
      unfold entryFindings
      dsimp only
      rw [htarget]
      cases targetOf w { o with maxDepth := none } here name node with
      | error fault => exact (hkept _).symm
      | ok target =>
        dsimp only
        split
        · rfl
        cases target with
        | other => rfl
        | file => exact (hkept _).symm
        | directory place => exact @ih (here.enter w o name place)

theorem found_bounded (w : Workspace) (o : WalkOptions) (depth : Nat) (place : Location) :
    found w { o with maxDepth := some depth } place =
      (found w { o with maxDepth := none } place).map
        (List.filter fun f => decide (f.names.length ≤ depth)) := by
  have hfault : IgnoreLevel.faultAbove? w { o with maxDepth := some depth }.respectGit place =
      IgnoreLevel.faultAbove? w { o with maxDepth := none }.respectGit place := rfl
  unfold found
  rw [hfault]
  split
  · rfl
  · exact congrArg Except.ok (findings_bounded depth _)

end Walk

namespace Discovery

open Walk (Finding)

/-! ## 2. Discoveries -/

/-- All that a discovery finds down to some depth, or all the way down. -/
def findingsTo (d : Discovery) (w : Workspace) (maxDepth : Option Nat) : Except SourceError (List Finding) :=
  if isInput d.settings.root then .ok []
  else
    match w.resolve d.settings.root.toBytes with
    | .error _ => .ok []
    | .ok place => Walk.found w { walkOptions d.settings with maxDepth } place

/-- The keys of the files that are taken, if they are looked for down to some depth, or all the way down. -/
def keysTo (d : Discovery) (w : Workspace) (maxDepth : Option Nat) : Except SourceError (List FileKey) :=
  (((d.findingsTo w maxDepth).bind Walk.collect).map (List.filter d.isWanted)).map fun files =>
    (((files.mergeSort namesLe).take d.settings.maxFiles.toNat).map pathOfNames).map FileKey.ofPath

/-- **The walk is stopped by something deeper than its bound**, if it is not bounded. -/
def StopsBelow (d : Discovery) (w : Workspace) : Prop :=
  ∃ depth ∈ maxDepth? d.settings.pattern, ∃ fs, d.findingsTo w none = .ok fs ∧
    ∃ f ∈ fs.find? Finding.isFault, depth < f.names.length

/-- **No file is lost by the bound.** -/
structure KeepsFiles (d : Discovery) (w : Workspace) : Prop where
  /-- A file whose path is matched lies within the bound. -/
  files : ∀ fs, d.findingsTo w none = .ok fs → ∀ f ∈ fs, ∀ names, f.result = .ok names →
    selects d.glob (pathOfNames names) = true → ∀ depth ∈ maxDepth? d.settings.pattern, names.length ≤ depth
  /-- What is given is what is given without a bound. -/
  keys : ¬StopsBelow d w → d.keys w = d.keysTo w none

variable {d : Discovery} {w : Workspace}

theorem keysTo_maxDepth : d.keysTo w (maxDepth? d.settings.pattern) = d.keys w := by
  rw [keys_eq, allFiles_eq]
  rfl

theorem findingsTo_bounded (d : Discovery) (w : Workspace) (depth : Nat) :
    d.findingsTo w (some depth) =
      (d.findingsTo w none).map (List.filter fun f => decide (f.names.length ≤ depth)) := by
  unfold findingsTo
  split
  · rfl
  · split
    · rfl
    · exact Walk.found_bounded w (walkOptions d.settings) depth _

theorem mapM_names_of_findingsTo {maxDepth : Option Nat} {fs : List Finding} (h : d.findingsTo w maxDepth = .ok fs)
    {f : Finding} (hf : f ∈ fs) {names : List Text} (hok : f.result = .ok names) :
    f.names.mapM Text.ofBytes? = some names := by
  unfold findingsTo at h
  split at h
  · cases h
    exact absurd hf List.not_mem_nil
  split at h
  · cases h
    exact absurd hf List.not_mem_nil
  · exact Walk.mapM_names_of_found h hf hok

/-- **Where all files lie within the bound, the same keys are given.** -/
theorem keepsFiles_of_files (hfiles : ∀ fs, d.findingsTo w none = .ok fs → ∀ f ∈ fs, ∀ names, f.result = .ok names →
    selects d.glob (pathOfNames names) = true → ∀ depth ∈ maxDepth? d.settings.pattern, names.length ≤ depth) :
    KeepsFiles d w := by
  refine ⟨hfiles, fun hstops => ?_⟩
  rw [← keysTo_maxDepth]
  cases hdepth : maxDepth? d.settings.pattern with
  | none => rfl
  | some depth =>
    unfold keysTo
    rw [findingsTo_bounded]
    cases hfs : d.findingsTo w none with
    | error _ => rfl
    | ok fs =>
      refine congrArg (Except.map _) (Walk.collect_filter (fun f hf hdeep names hok => ?_) fun f hf => ?_).symm
      · have hlength := congrArg List.length (Text.mapM_ofBytes?_eq_some_iff.mp (mapM_names_of_findingsTo hfs hf hok))
        rw [List.length_map] at hlength
        rw [decide_eq_false_iff_not, ← hlength] at hdeep
        have hselects : ¬selects d.glob (pathOfNames names) = true := fun h =>
          hdeep (hfiles fs hfs f hf names hok h depth hdepth)
        unfold isWanted
        rw [Bool.eq_false_of_not_eq_true hselects, Bool.and_false]
      · rw [decide_eq_true_eq]
        by_contra hdeep
        exact hstops ⟨depth, hdepth, fs, hfs, f, hf, Nat.lt_of_not_le hdeep⟩

/-! ## 3. Patterns -/

/-- **No path that the glob matches has more names than the pattern has parts**, where that is the bound. -/
def StaysWithin (pattern : Text) (glob : Glob) : Prop :=
  ∀ names : List Text, (∀ name ∈ names, Workspace.IsName name.toBytes) → selects glob (pathOfNames names) = true →
    ∀ depth ∈ maxDepth? pattern, names.length ≤ depth

theorem length_splitOn (c : Char) (t : Text) : (t.splitOn c).length = t.count c + 1 := by
  induction t with
  | nil => rfl
  | cons e t ih =>
    rw [List.splitOn_cons_eq_if_modifyHead, List.count_cons]
    split
    · rw [List.length_cons, ih]
    · rw [List.length_modifyHead, ih]

/-- A path has at least one slash less than names. -/
theorem length_le_count (names : List Text) : names.length ≤ (pathOfNames names).count '/' + 1 := by
  unfold pathOfNames
  induction names with
  | nil => exact Nat.zero_le _
  | cons name names ih =>
    cases names with
    | nil => exact Nat.le_add_left 1 _
    | cons next names =>
      rw [Text.joinWith_cons_cons, List.count_append, List.count_append, List.count_singleton_self, List.length_cons]
      omega

/-- A key has the slashes of its path, and maybe more. -/
theorem count_le_ofPath (path : Text) : path.count '/' ≤ (FileKey.ofPath path).text.count '/' := by
  unfold FileKey.ofPath
  induction path with
  | nil => exact Nat.le_refl _
  | cons c path ih =>
    dsimp only at ih ⊢
    rw [List.map_cons, List.count_cons, List.count_cons]
    by_cases hc : c = '/'
    · subst hc
      exact Nat.add_le_add_right ih _
    · rw [if_neg (by rwa [beq_iff_eq])]
      omega

/-- **What a glob matches has at most one name more than the glob can take slashes.** -/
theorem length_le_of_selects {glob : Glob} {names : List Text} (h : selects glob (pathOfNames names) = true) :
    (names.length : ℕ∞) ≤ glob.mostSlashes + 1 := by
  have hcount := Glob.count_le_of_matchesPath h
  rw [Text.count_toBytes] at hcount
  have hlength : (names.length : ℕ∞) ≤ (pathOfNames names).count '/' + 1 := by
    exact_mod_cast length_le_count names
  have hkey : ((pathOfNames names).count '/' : ℕ∞) ≤ (FileKey.ofPath (pathOfNames names)).text.count '/' := by
    exact_mod_cast count_le_ofPath _
  exact hlength.trans (add_le_add_left (hkey.trans hcount) 1)

/-- A pattern with a bound has no `**` in it. -/
theorem maxDepth?_eq_some {pattern : Text} {depth : Nat} (h : maxDepth? pattern = some depth) :
    ¬['*', '*'] <:+: pattern ∧ depth = pattern.count '/' + 1 := by
  unfold maxDepth? at h
  split at h
  · cases h
  · rename_i hstars
    cases h
    refine ⟨?_, length_splitOn '/' pattern⟩
    rintro ⟨before, behind, hsplit⟩
    refine hstars ?_
    obtain ⟨front, rest, hcut⟩ := Text.exists_cut? (w := ['*', '*']) (List.cons_ne_nil _ _) before behind
    unfold Text.has
    rw [← hsplit, List.append_assoc]
    exact Option.isSome_iff_exists.mpr ⟨_, hcut⟩

/-- **A pattern whose classes take no slash but a written one stays within its depth.** -/
theorem staysWithin_of_classesWrite {pattern : Text} {glob : Glob} (h : Glob.parse false pattern = .ok glob)
    (hclasses : glob.ClassesWrite) : StaysWithin pattern glob := by
  intro names _ hselects depth hdepth
  obtain ⟨hstars, rfl⟩ := maxDepth?_eq_some hdepth
  have hlength := length_le_of_selects hselects
  have hslashes := Glob.mostSlashes_le h hstars hclasses
  have hle : (names.length : ℕ∞) ≤ pattern.count '/' + 1 := hlength.trans (add_le_add_left hslashes 1)
  exact_mod_cast hle

/-! ## 4. Workspaces -/

/-- **No discovery with this pattern loses a file by its bound.** -/
def LosesNoFile (pattern : Text) : Prop :=
  ∀ (s : DiscoverySettings) (w : Workspace) (d : Discovery), s.pattern = pattern → w.IsProper → StaysInside s w →
    ofSettings w s = .ok d → d.KeepsFiles w

theorem glob_eq {s : DiscoverySettings} (hd : ofSettings w s = .ok d) {glob : Glob}
    (h : Glob.parse false s.pattern = .ok glob) : d.glob = glob := by
  unfold ofSettings at hd
  split at hd
  · cases hd
  split at hd
  · cases hd
  split at hd
  · cases hd
  rw [h] at hd
  cases hd
  rfl

/-- A pattern that stays within its depth loses no file. -/
theorem losesNoFile_of_staysWithin {pattern : Text} {glob : Glob} (h : Glob.parse false pattern = .ok glob)
    (hwithin : StaysWithin pattern glob) : LosesNoFile pattern := by
  intro s w d hs hw hinside hd
  refine keepsFiles_of_files fun fs hfs f hf names hok hselects depth hdepth => ?_
  rw [settings_eq hd, hs] at hdepth
  rw [glob_eq hd (hs ▸ h)] at hselects
  refine hwithin names (fun name hname => ?_) hselects depth hdepth
  have hnames := Text.mapM_ofBytes?_eq_some_iff.mp (mapM_names_of_findingsTo hfs hf hok)
  have hproper : ∀ name ∈ f.names, Workspace.IsName name := by
    unfold findingsTo at hfs
    rw [settings_eq hd, (exists_root hd).1] at hfs
    split at hfs
    · cases hfs
      exact absurd hf List.not_mem_nil
    · exact Walk.isName_of_found (o := { walkOptions s with maxDepth := none }) hw hinside.links hinside.root hfs hf
  rw [← hnames, List.forall_mem_map] at hproper
  exact hproper name hname

/-- The settings of a discovery in a chain. -/
def chainSettings (pattern : Text) : DiscoverySettings :=
  { root := Workspace.chainRoot, pattern, maxFiles := 1, skipDirs := [], followLinks := false,
    respectGitignore := false }

/-- A pattern that loses no file stays within its depth: not even the file at the end of a chain is lost. -/
theorem staysWithin_of_losesNoFile {pattern : Text} {glob : Glob} (h : Glob.parse false pattern = .ok glob)
    (hloses : LosesNoFile pattern) : StaysWithin pattern glob := by
  intro names hnames hselects depth hdepth
  cases names with
  | nil => exact Nat.zero_le _
  | cons name more =>
    have hproper : ∀ n ∈ (name :: more).map Text.toBytes, Workspace.IsName n := List.forall_mem_map.mpr hnames
    have hroot : (Workspace.ofChain ((name :: more).map Text.toBytes)).resolve Workspace.chainRoot.toBytes =
        .ok Walk.chainPlace := rfl
    have hexists :
        (Workspace.ofChain ((name :: more).map Text.toBytes)).pathExists Workspace.chainRoot.toBytes = true := rfl
    have hdirectory :
        (Workspace.ofChain ((name :: more).map Text.toBytes)).isDirectory Workspace.chainRoot.toBytes = true := rfl
    have hd : ofSettings (Workspace.ofChain ((name :: more).map Text.toBytes)) (chainSettings pattern) =
        .ok ⟨chainSettings pattern, glob⟩ := by
      unfold ofSettings chainSettings
      dsimp only
      rw [if_neg (by decide), hexists, hdirectory, h]
      rfl
    have hinside : StaysInside (chainSettings pattern) (Workspace.ofChain ((name :: more).map Text.toBytes)) := by
      refine ⟨?_, fun hfollow => nomatch hfollow⟩
      unfold rootPlace chainSettings
      dsimp only
      rw [hroot]
      exact List.cons_ne_nil _ _
    obtain ⟨fs, hfound, f, hf, -, hresult⟩ := Walk.exists_finding_chain
      (o := { walkOptions (chainSettings pattern) with maxDepth := none }) name.toBytes (more.map Text.toBytes) rfl rfl
    have hfs : findingsTo ⟨chainSettings pattern, glob⟩ (Workspace.ofChain ((name :: more).map Text.toBytes)) none =
        .ok fs := by
      unfold findingsTo chainSettings
      dsimp only
      rw [if_neg (by decide), hroot]
      exact hfound
    have hmap : (name.toBytes :: more.map Text.toBytes).mapM Text.ofBytes? = some (name :: more) :=
      Text.mapM_ofBytes?_eq_some_iff.mpr rfl
    have hok : f.result = .ok (name :: more) := by
      rw [hresult, Walk.textNames, hmap]
    exact (hloses _ _ _ rfl (Workspace.isProper_ofChain hproper) hinside hd).files fs hfs f hf _ hok hselects depth
      hdepth

/-- **A pattern loses no file if and only if it stays within its depth.** -/
theorem losesNoFile_iff {pattern : Text} {glob : Glob} (h : Glob.parse false pattern = .ok glob) :
    (LosesNoFile pattern ↔ StaysWithin pattern glob) ∧ (glob.ClassesWrite → LosesNoFile pattern) := by
  have hiff : LosesNoFile pattern ↔ StaysWithin pattern glob :=
    ⟨staysWithin_of_losesNoFile h, losesNoFile_of_staysWithin h⟩
  exact ⟨hiff, fun hclasses => hiff.mpr (staysWithin_of_classesWrite h hclasses)⟩

/-! ### Classes that take no slash, and one that does -/

/-- Two branches, one of them with a slash more, and a class that takes all but slashes. -/
def branchPattern : Text := "\x7b[!/]*,a/b?\x7d".toList

def branchGlob : Glob :=
  ⟨[.alternates [[.charClass true [('/', '/')], .star], [.literal 'a', .literal '/', .literal 'b', .any]]]⟩

theorem losesNoFile_branches : Glob.parse false branchPattern = .ok branchGlob ∧ branchGlob.ClassesWrite ∧
    LosesNoFile branchPattern := by
  have hparse : Glob.parse false branchPattern = .ok branchGlob := rfl
  have hclasses : branchGlob.ClassesWrite := by decide
  exact ⟨hparse, hclasses, (losesNoFile_iff hparse).2 hclasses⟩

/-- A class that takes all but an `x`. -/
def classSettings : DiscoverySettings := { DiscoverySettings.standard with pattern := "a[!x]b".toList }

/-- A file below a directory. -/
def classWorkspace : Workspace :=
  ⟨.directory [([], .directory [(asBytes "a", .directory [(asBytes "b", .file [])])])]⟩

def classDiscovery : Discovery := ⟨classSettings, ⟨[.literal 'a', .charClass true [('x', 'x')], .literal 'b']⟩⟩

/-- **A negated class loses a file**: its path is matched, and without a bound it is found. -/
theorem losesFile_class :
    classWorkspace.IsProper ∧ StaysInside classSettings classWorkspace ∧
      ofSettings classWorkspace classSettings = .ok classDiscovery ∧
      selects classDiscovery.glob "a/b".toList = true ∧
      classDiscovery.keysTo classWorkspace none = .ok [⟨"a/b".toList⟩] ∧
      classDiscovery.keys classWorkspace = .ok [] ∧ ¬classDiscovery.KeepsFiles classWorkspace := by
  have hselects : selects classDiscovery.glob "a/b".toList = true := by decide +kernel
  have hfs : classDiscovery.findingsTo classWorkspace none =
      .ok [⟨[asBytes "a", asBytes "b"], .ok ["a".toList, "b".toList]⟩] := rfl
  have hnone : classDiscovery.keysTo classWorkspace none = .ok [⟨"a/b".toList⟩] := by decide +kernel
  have hkeys : classDiscovery.keys classWorkspace = .ok [] := by decide +kernel
  refine ⟨⟨_, rfl, by decide⟩, ⟨by decide, fun h => nomatch h⟩, rfl, hselects, hnone, hkeys, fun hkeeps => ?_⟩
  have hdepth := hkeeps.files _ hfs _ (List.mem_singleton_self _) _ rfl hselects 1 rfl
  exact absurd hdepth (by decide)

end Discovery
end Ambient
