import Ambient.Proofs.Discovery.Inside
import Ambient.Proofs.Discovery.PathOrder
import Ambient.Proofs.Discovery.Skipped
import Ambient.Proofs.Workspace.Joined
import Mathlib.Data.List.Nodup

/-!
# The files of a walk

In a proper workspace the names of a file that a walk finds lead to a file (`exists_file`), without a link if none is
followed. No names are found twice (`nodup_findings`).

So the path of a file that a discovery finds OPENS it (`opensFile_of_mem`): joined to the root it leads to the file,
and its text is read, unless its bytes are none, or there are too many links on the way.
-/

namespace Ambient

namespace Walk

variable {w : Workspace} {o : WalkOptions} {here : Here} {steps : Nat} {f : Finding}

/-! ## 1. Files -/

/-- **The names lead from the place to a file**, without a link if none is followed. -/
structure LeadsToFile (w : Workspace) (o : WalkOptions) (place : Location) (names : List Name) (links : Nat)
    (q : Location) (content : Bytes) : Prop where
  leads : w.Leads place names links q []
  file : w.tree.at? q = some (.file content)
  straight : o.followLinks = false → links = 0 ∧ q = place ++ names

section Entry

variable {name : Name} {place : Location}

/-- The name of an entry that is no link leads to it. -/
theorem advance_entry (hw : w.IsProper) (hplace : here.place ≠ []) {node : Node}
    (hentry : (name, node) ∈ w.tree.entriesAt here.place) (hnode : Workspace.targetOf? node = none) :
    w.advance true here.place [name] = .arrived (here.place ++ [name]) := by
  have hname := hw.isName_of_mem hplace hentry
  rw [Workspace.advance_step hname.isStep, if_neg (Nat.not_lt_of_le hname.length_le), hw.at?_of_mem hplace hentry]
  cases node with
  | file _ => rfl
  | directory _ =>
    dsimp only
    rw [Workspace.advance]
  | link _ => cases hnode

theorem advance_link (hw : w.IsProper) (hplace : here.place ≠ []) {target : Bytes}
    (hentry : (name, .link target) ∈ w.tree.entriesAt here.place) :
    w.advance true here.place [name] = .atLink here.place target [] := by
  have hname := hw.isName_of_mem hplace hentry
  rw [Workspace.advance_step hname.isStep, if_neg (Nat.not_lt_of_le hname.length_le), hw.at?_of_mem hplace hentry]

/-- **The name of a link leads to where the link leads to**, if that is elsewhere. -/
theorem leads_link (hw : w.IsProper) (hplace : here.place ≠ []) {target : Bytes}
    (hentry : (name, .link target) ∈ w.tree.entriesAt here.place) {q : Location}
    (h : w.resolveFrom true Workspace.maxLinks (Workspace.startOf here.place target) (Path.names target) = .ok q)
    (hq : q ≠ here.place) :
    ∃ links, ∀ rest, rest = [] ∨ w.HasDirectory q → w.Leads here.place [name] links q rest := by
  have htarget : target.isEmpty = false := by
    cases target with
    | nil =>
      refine absurd ?_ hq
      have hself : w.resolveFrom true Workspace.maxLinks here.place [[]] = .ok here.place :=
        Workspace.resolveFrom_of_arrived ((Workspace.advance_idle (.inl rfl) _ _).trans (by rw [Workspace.advance])) _
      exact Except.ok.inj (h.symm.trans hself)
    | cons _ _ => rfl
  obtain ⟨links, -, hleads⟩ := Workspace.exists_leads h
  refine ⟨links + 1, fun rest hrest => Workspace.leads_of_atLink (advance_link hw hplace hentry) htarget ?_⟩
  rw [List.append_nil]
  exact hleads rest hrest

/-- A followed link that counts as a file leads to something that is no directory. -/
theorem followed_eq_file {target : Bytes} (h : followed w o here name target = .ok .file) :
    ∃ q, w.resolveFrom true Workspace.maxLinks (Workspace.startOf here.place target) (Path.names target) = .ok q ∧
      ¬w.HasDirectory q := by
  unfold followed at h
  dsimp only at h
  split at h
  · cases h
  · rename_i q hq
    split at h
    · split at h <;> cases h
    · rename_i hnone
      exact ⟨q, hq, fun ⟨entries, hat⟩ => hnone entries hat⟩

/-- **An entry that counts as a file leads to one.** -/
theorem file_of_target (hw : w.IsProper) (hplace : here.place ≠ []) {node : Node}
    (hentry : (name, node) ∈ w.tree.entriesAt here.place) (h : targetOf w o here name node = .ok .file) :
    ∃ links q content, LeadsToFile w o here.place [name] links q content := by
  cases node with
  | file content =>
    exact ⟨0, _, content, Workspace.leads_of_arrived (advance_entry hw hplace hentry rfl) (.inl rfl),
      hw.at?_of_mem hplace hentry, fun _ => ⟨rfl, rfl⟩⟩
  | directory _ => cases h
  | link target =>
    obtain ⟨hfollow, hfollowed⟩ := targetOf_link h Target.noConfusion
    obtain ⟨q, hq, hfile⟩ := followed_eq_file hfollowed
    obtain ⟨entries, hat, -⟩ := Workspace.IsProper.exists_of_mem_entriesAt hentry
    have htop := hw.hasDirectory_top
    obtain ⟨content, hcontent⟩ :=
      (Workspace.file_or_directory htop (htop.startOf ⟨entries, hat⟩ target) hq).resolve_right hfile
    obtain ⟨links, hleads⟩ := leads_link hw hplace hentry hq fun he => hfile (he ▸ ⟨entries, hat⟩)
    exact ⟨links, q, content, hleads [] (.inl rfl), hcontent, fun hnot => absurd hfollow (ne_true_of_eq_false hnot)⟩

/-- **An entry that counts as a directory leads to one.** -/
theorem directory_of_target (hw : w.IsProper) (hplace : here.place ≠ []) (hpath : here.place ∈ here.path) {node : Node}
    (hentry : (name, node) ∈ w.tree.entriesAt here.place)
    (h : targetOf w o here name node = .ok (.directory place)) :
    ∃ links, (∀ rest, w.Leads here.place [name] links place rest) ∧
      (o.followLinks = false → links = 0 ∧ place = here.place ++ [name]) := by
  cases node with
  | file _ => cases h
  | directory entries =>
    cases h
    have hdirectory : w.HasDirectory (here.place ++ [name]) := ⟨entries, hw.at?_of_mem hplace hentry⟩
    exact ⟨0, fun rest => Workspace.leads_of_arrived (advance_entry hw hplace hentry rfl) (.inr hdirectory),
      fun _ => ⟨rfl, rfl⟩⟩
  | link target =>
    obtain ⟨hfollow, hfollowed⟩ := targetOf_link h Target.noConfusion
    obtain ⟨hq, hdirectory, hnew⟩ := followed_eq_directory hfollowed
    have hne : place ≠ here.place := by
      rintro rfl
      rw [List.contains_iff_mem.mpr hpath] at hnew
      cases hnew
    obtain ⟨links, hleads⟩ := leads_link hw hplace hentry hq hne
    exact ⟨links, fun rest => hleads rest (.inr hdirectory), fun hnot => absurd hfollow (ne_true_of_eq_false hnot)⟩

end Entry

/-- **The names of a file that is found lead to it.** -/
theorem exists_file (hw : w.IsProper) (hlinks : LinksStayInside w o) (hplace : here.place ≠ [])
    (hpath : here.place ∈ here.path) (h : f ∈ findings w o steps here) {texts : List Text}
    (hok : f.result = .ok texts) :
    ∃ more links q content, f.names = here.names ++ more ∧ LeadsToFile w o here.place more links q content := by
  induction steps generalizing here with
  | zero => exact absurd h List.not_mem_nil
  | succ steps ih =>
    obtain ⟨name, node, hentry, hat⟩ := exists_entry h
    cases hat with
    | fault _ hf =>
      rw [hf] at hok
      cases hok
    | file htarget hf =>
      obtain ⟨links, q, content, hfile⟩ := file_of_target hw hplace hentry htarget
      exact ⟨[name], links, q, content, hf ▸ rfl, hfile⟩
    | directory htarget hf =>
      obtain ⟨links, hleads, hstraight⟩ := directory_of_target hw hplace hpath hentry htarget
      obtain ⟨more, links', q, content, hnames, hfile⟩ := ih (place_ne_nil hlinks hentry htarget) List.mem_cons_self hf
      refine ⟨[name] ++ more, links + links', q, content, hnames.trans (List.append_assoc here.names [name] more),
        (hleads (more ++ [])).trans hfile.leads, hfile.file, fun hnot => ?_⟩
      obtain ⟨rfl, hplace'⟩ := hstraight hnot
      obtain ⟨rfl, hq⟩ := hfile.straight hnot
      refine ⟨rfl, hq.trans ?_⟩
      rw [← List.append_assoc]
      exact congrArg (· ++ more) hplace'

/-! ## 2. No names twice -/

/-- What is found at an entry or below it has its name. -/
theorem At.exists_names {name : Name} {node : Node} (h : At w o here (findings w o steps) f name node) :
    ∃ more, f.names = here.names ++ name :: more := by
  cases h with
  | fault _ hf => exact ⟨[], hf ▸ rfl⟩
  | file _ hf => exact ⟨[], hf ▸ rfl⟩
  | directory _ hf =>
    obtain ⟨more, -, hnames⟩ := Walk.exists_names hf
    exact ⟨more, hnames.trans (List.append_assoc here.names [name] more)⟩

/-- **No names are found twice.** -/
theorem nodup_findings (hw : w.IsProper) (hlinks : LinksStayInside w o) (hplace : here.place ≠ []) :
    ((findings w o steps here).map Finding.names).Nodup := by
  induction steps generalizing here with
  | zero => exact List.nodup_nil
  | succ steps ih =>
    rw [findings]
    split
    · exact List.nodup_nil
    rw [List.map_flatMap, List.nodup_flatMap]
    refine ⟨fun entry hentry => ?_, ?_⟩
    · obtain ⟨name, node⟩ := entry
      unfold entryFindings
      dsimp only
      split
      · exact List.nodup_singleton _
      rename_i target htarget
      split
      · exact List.nodup_nil
      cases target with
      | other => exact List.nodup_nil
      | file => exact List.nodup_singleton _
      | directory place => exact @ih (here.enter w o name place) (place_ne_nil hlinks hentry htarget)
    · refine (List.pairwise_map.mp (hw.nodup_entriesAt hplace)).imp fun {a b} hne => ?_
      intro names ha hb
      obtain ⟨f, hf, rfl⟩ := List.mem_map.mp ha
      obtain ⟨g, hg, hnames⟩ := List.mem_map.mp hb
      obtain ⟨more, hfmore⟩ := (at_of_mem hf).exists_names
      obtain ⟨more', hgmore⟩ := (at_of_mem hg).exists_names
      rw [hfmore, hgmore] at hnames
      exact hne (List.cons.inj (List.append_cancel_left hnames)).1.symm

/-! ## 3. The whole walk -/

section Found

variable {place : Location} {fs : List Finding}

theorem exists_file_of_found (hw : w.IsProper) (hlinks : LinksStayInside w o) (hplace : place ≠ [])
    (h : found w o place = .ok fs) (hf : f ∈ fs) {texts : List Text} (hok : f.result = .ok texts) :
    f.names ≠ [] ∧ ∃ links q content, LeadsToFile w o place f.names links q content := by
  unfold found at h
  split at h
  · cases h
  · cases h
    have hstart : (Here.start w o place).place ≠ [] := hplace
    obtain ⟨more, hne, hnames⟩ := exists_names hf
    obtain ⟨more', links, q, content, hnames', hfile⟩ := exists_file hw hlinks hstart List.mem_cons_self hf hok
    rw [hnames']
    refine ⟨?_, links, q, content, hfile⟩
    rw [← hnames', hnames]
    exact List.append_ne_nil_of_right_ne_nil _ hne

theorem nodup_of_found (hw : w.IsProper) (hlinks : LinksStayInside w o) (hplace : place ≠ [])
    (h : found w o place = .ok fs) : (fs.map Finding.names).Nodup := by
  unfold found at h
  split at h
  · cases h
  · cases h
    have hstart : (Here.start w o place).place ≠ [] := hplace
    exact nodup_findings hw hlinks hstart

end Found

end Walk

/-! ## 4. Files of a discovery -/

namespace Discovery

open Walk (LeadsToFile)

/-- **The path opens a file**: it leads there through so many links. What is read is the text, unless the bytes are no
text, or the links are too many. -/
structure OpensFile (s : DiscoverySettings) (w : Workspace) (path : Text) (links : Nat) (q : Location)
    (content : Bytes) : Prop where
  file : w.tree.at? q = some (.file content)
  leads : w.Leads Workspace.home (Path.names path.toBytes) links q []
  few : s.followLinks = false → links ≤ Workspace.maxLinks
  read : w.readText path =
    if links ≤ Workspace.maxLinks then (Text.ofBytes? content).elim (.error .notUnicode) .ok else .error .linkLoop

variable {s : DiscoverySettings} {w : Workspace} {d : Discovery} {files : List (List Text)} {names : List Text}

theorem hasDirectory_root (h : ofSettings w s = .ok d) : w.HasDirectory (rootPlace s w) := by
  obtain ⟨hroot, m, hm⟩ := exists_root h
  have hdirectory : w.isDirectory s.root.toBytes = true := by
    unfold ofSettings at h
    split at h
    · cases h
    split at h
    · cases h
    split at h
    · cases h
    · rename_i hnot
      rwa [Bool.not_eq_true, Bool.not_eq_false'] at hnot
  unfold Workspace.isDirectory Workspace.node? at hdirectory
  rw [hroot] at hdirectory
  dsimp only at hdirectory
  rw [hm] at hdirectory
  cases m with
  | file _ => cases hdirectory
  | link _ => cases hdirectory
  | directory entries => exact ⟨entries, hm⟩

/-- The files are what the walk from the root finds, if there are any. -/
theorem files_cases (hd : ofSettings w s = .ok d) (h : d.allFiles w = .ok files) :
    files = [] ∨ ∃ fs, Walk.found w (walkOptions s) (rootPlace s w) = .ok fs ∧ Walk.collect fs = .ok files := by
  unfold allFiles at h
  rw [settings_eq hd] at h
  split at h
  · cases h
    exact .inl rfl
  rw [(exists_root hd).1] at h
  dsimp only at h
  rw [Walk.walk_eq] at h
  cases hfound : Walk.found w (walkOptions s) (rootPlace s w) with
  | error _ =>
    rw [hfound] at h
    cases h
  | ok fs =>
    rw [hfound] at h
    exact .inr ⟨fs, rfl, h⟩

/-- **No file is found twice.** -/
theorem nodup_allFiles (hw : w.IsProper) (hinside : StaysInside s w) (hd : ofSettings w s = .ok d)
    (h : d.allFiles w = .ok files) : files.Nodup := by
  rcases files_cases hd h with rfl | ⟨fs, hfound, hcollect⟩
  · exact List.nodup_nil
  have hresults := Walk.results_of_collect hcollect
  -- the names of a finding can be told from its result
  let names : Except SourceError (List Text) → List Name := fun r => (r.toOption.getD []).map Text.toBytes
  have hnames : fs.map Walk.Finding.names = (fs.map Walk.Finding.result).map names := by
    rw [List.map_map]
    refine List.map_congr_left fun f hf => ?_
    have hmem : f.result ∈ files.map Except.ok := hresults ▸ List.mem_map_of_mem hf
    obtain ⟨texts, -, hok⟩ := List.mem_map.mp hmem
    have hbytes := Text.mapM_ofBytes?_eq_some_iff.mp (Walk.mapM_names_of_found hfound hf hok.symm)
    show f.names = names f.result
    rw [← hok, ← hbytes]
    rfl
  have hnodup := Walk.nodup_of_found hw hinside.links hinside.root hfound
  rw [hnames, hresults] at hnodup
  exact (hnodup.of_map _).of_map _

/-- **The names of a file that is found are proper ones, and lead to it.** -/
theorem leadsToFile_of_mem (hw : w.IsProper) (hinside : StaysInside s w) (hd : ofSettings w s = .ok d)
    (h : d.allFiles w = .ok files) (hmem : names ∈ files) :
    names ≠ [] ∧ (∀ name ∈ names, Workspace.IsName name.toBytes) ∧
      ∃ links q content, LeadsToFile w (walkOptions s) (rootPlace s w) (names.map Text.toBytes) links q content := by
  rcases files_cases hd h with rfl | ⟨fs, hfound, hcollect⟩
  · exact absurd hmem List.not_mem_nil
  have hresult : Except.ok names ∈ fs.map Walk.Finding.result :=
    Walk.results_of_collect hcollect ▸ List.mem_map_of_mem hmem
  obtain ⟨f, hf, hok⟩ := List.mem_map.mp hresult
  have hbytes := Text.mapM_ofBytes?_eq_some_iff.mp (Walk.mapM_names_of_found hfound hf hok)
  obtain ⟨hne, hfile⟩ := Walk.exists_file_of_found hw hinside.links hinside.root hfound hf hok
  have hproper := Walk.isName_of_found hw hinside.links hinside.root hfound hf
  rw [← hbytes] at hne hproper hfile
  exact ⟨fun hnil => hne (hnil ▸ rfl), List.forall_mem_map.mp hproper, hfile⟩

/-! ## 5. Paths of files -/

/-- A name that an entry can have has no slash in it. -/
theorem not_mem_of_isName {name : Text} (h : Workspace.IsName name.toBytes) : name ≠ [] ∧ '/' ∉ name := by
  refine ⟨fun hnil => h.ne_nil (hnil ▸ rfl), fun hmem => h.no_slash ?_⟩
  rw [← List.count_pos_iff, Text.count_toBytes]
  exact List.count_pos_iff.mpr hmem

theorem not_mem_intercalate {b c : UInt8} (hb : b ≠ c) {bss : List Bytes} (h : ∀ bs ∈ bss, c ∉ bs) :
    c ∉ [b].intercalate bss := by
  induction bss with
  | nil => exact List.not_mem_nil
  | cons bs bss ih =>
    obtain ⟨hbs, hbss⟩ := List.forall_mem_cons.mp h
    cases bss with
    | nil => rwa [List.intercalate_singleton]
    | cons next bss =>
      rw [List.intercalate_cons_cons, List.mem_append, List.mem_append, List.mem_singleton]
      rintro ((hmem | rfl) | hmem)
      · exact hbs hmem
      · exact hb rfl
      · exact ih hbss hmem

/-- **The path of proper names is made of them**, is relative and has no zero byte. -/
theorem path_of_names (hne : names ≠ []) (h : ∀ name ∈ names, Workspace.IsName name.toBytes) :
    Path.names (pathOfNames names).toBytes = names.map Text.toBytes ∧ (pathOfNames names).head? ≠ some '/' ∧
      0 ∉ (pathOfNames names).toBytes := by
  have hslash : Text.toBytes ['/'] = [slash] := rfl
  have hbytes : (pathOfNames names).toBytes = [slash].intercalate (names.map Text.toBytes) := by
    unfold pathOfNames
    rw [Text.toBytes_joinWith, hslash]
  refine ⟨?_, ?_, ?_⟩
  · unfold Path.names
    rw [hbytes]
    refine List.splitOn_intercalate slash (List.forall_mem_map.mpr fun name hname => (h name hname).no_slash) ?_
    exact fun hnil => hne (List.map_eq_nil_iff.mp hnil)
  · obtain ⟨name, more, rfl⟩ := List.exists_cons_of_ne_nil hne
    obtain ⟨hname, hno⟩ := not_mem_of_isName (h name List.mem_cons_self)
    rw [pathOfNames_cons, List.head?_append_of_ne_nil _ hname]
    exact fun hhead => hno (List.mem_of_head? hhead)
  · rw [hbytes]
    exact not_mem_intercalate (by decide) (List.forall_mem_map.mpr fun name hname => (h name hname).no_zero)

/-- **The path of a file that is found opens it.** Where no links are followed, it lies where its names say. -/
theorem opensFile_of_mem (hw : w.IsProper) (hinside : StaysInside s w) (hd : ofSettings w s = .ok d)
    (h : d.allFiles w = .ok files) (hmem : names ∈ files) :
    ∃ links q content, OpensFile s w (Path.join s.root (pathOfNames names)) links q content ∧
      (s.followLinks = false → w.resolve (Path.join s.root (pathOfNames names)).toBytes =
        .ok (rootPlace s w ++ names.map Text.toBytes)) := by
  obtain ⟨hne, hproper, more, q, content, hfile⟩ := leadsToFile_of_mem hw hinside hd h hmem
  obtain ⟨hnames, hrelative, hzero⟩ := path_of_names hne hproper
  obtain ⟨links, hlinks, hjoin⟩ :=
    Workspace.resolve_join hw (exists_root hd).1 hinside.root (hasDirectory_root hd)
  rw [← hnames] at hfile
  obtain ⟨hleads, hresolve⟩ := hjoin _ more q hrelative hzero hfile.leads
  refine ⟨links + more, q, content, ⟨hfile.file, hleads, fun hnot => ?_, ?_⟩, fun hnot => ?_⟩
  · rw [(hfile.straight hnot).1]
    exact hlinks
  · by_cases hle : links + more ≤ Workspace.maxLinks
    · rw [if_pos hle] at hresolve ⊢
      exact Workspace.readText_of_file hresolve hfile.file
    · rw [if_neg hle] at hresolve ⊢
      exact Workspace.readText_of_error hresolve
  · obtain ⟨rfl, hq⟩ := hfile.straight hnot
    rw [hresolve, Nat.add_zero, if_pos hlinks, hq, hnames]

end Discovery
end Ambient
