import Ambient.Config
import Ambient.Proofs.Json.Record

/-!
# Configurations survive JSON

What is printed for a configuration is read back, and so is every arrangement of it: the members of each of its
three records may be permuted and may stand among any others, and a member that is left out is the standard one.

* `DiscoverySettings.keeping`, `AdvisorSettings.keeping`, `keeping`: some fields kept and the others standard;
* `known_discovery`, `known_advisor`: every field that is printed is read into its place and into no other;
* `reads_arranged`: hence an arranged record is read as what is kept of it;
* `survives_json`: the whole configuration, arranged on both levels.
-/

namespace Ambient

/-! ## 1. Settings of which some are kept -/

/-- The settings whose names are kept; the others are standard. -/
def DiscoverySettings.keeping (s : DiscoverySettings) (keep : Text → Bool) : DiscoverySettings :=
  { root := if keep "root".toList then s.root else standard.root
    pattern := if keep "pattern".toList then s.pattern else standard.pattern
    maxFiles := if keep "max_files".toList then s.maxFiles else standard.maxFiles
    skipDirs := if keep "skip_dirs".toList then s.skipDirs else standard.skipDirs
    followLinks := if keep "follow_links".toList then s.followLinks else standard.followLinks
    respectGitignore := if keep "respect_gitignore".toList then s.respectGitignore else standard.respectGitignore }

/-- The settings whose names are kept; the others are standard. -/
def AdvisorSettings.keeping (s : AdvisorSettings) (keep : Text → Bool) : AdvisorSettings :=
  { unresolvedCodes := if keep "unresolved_codes".toList then s.unresolvedCodes else standard.unresolvedCodes
    diagnosticSource := if keep "diagnostic_source".toList then s.diagnosticSource else standard.diagnosticSource
    sortPrefix := if keep "sort_prefix".toList then s.sortPrefix else standard.sortPrefix
    fixTitle := if keep "fix_title".toList then s.fixTitle else standard.fixTitle }

namespace Config

open Json

/-! ## 2. Fields that are printed -/

/-- A field is known that is read by its own reader and stored where it belongs. -/
theorem known_of {σ α : Type} {fields : List (Json.Field σ)} {state : List Text → σ} {value : Text} {read : Reader α}
    {set : α → σ → σ} {a : α} (name : Text) (hfield : (fields.find? fun f => f.name = name) = some (.of name read set))
    (hname : name.flatMap escape = name) (hread : Reads read value a)
    (hset : ∀ names, set a (state names) = state (name :: names)) :
    Known fields state ⟨name.flatMap escape, value⟩ where
  spells := by
    have := spells_escape name
    rwa [hname] at this ⊢
  reads := by
    refine ⟨.of name read set, by rw [hname, hfield], fun names rest hrest => ?_⟩
    show (read (value ++ rest) >>= _) = _
    rw [hread rest hrest, hname, ← hset]
    rfl

theorem decide_mem_self (name : Text) (names : List Text) : decide (name ∈ name :: names) = true :=
  decide_eq_true List.mem_cons_self

theorem decide_mem_of_ne {name other : Text} (h : other ≠ name) (names : List Text) :
    decide (other ∈ name :: names) = decide (other ∈ names) := by
  simp [h]

theorem known_discovery (s : DiscoverySettings) : ∀ m ∈ ownMembers (discoveryJson s),
    Known discoveryFields (fun names => s.keeping fun name => name ∈ names) m := by
  have hword : s.maxFiles.toNat ≤ maxWord := Nat.le_of_lt_succ s.maxFiles.toNat_lt
  have hdirs : Reads (readList readText) (compact (.list (s.skipDirs.map .text))) s.skipDirs :=
    reads_readList (fun t _ => reads_readText t) startsItem_quote
  simp only [discoveryJson, ownMembers, List.map_cons, List.map_nil, List.forall_mem_cons]
  refine ⟨known_of "root".toList rfl (by decide) (reads_readText s.root) fun names => ?_,
    known_of "pattern".toList rfl (by decide) (reads_readText s.pattern) fun names => ?_,
    known_of "max_files".toList rfl (by decide) (reads_readNat le_rfl hword) fun names => ?_,
    known_of "skip_dirs".toList rfl (by decide) hdirs fun names => ?_,
    known_of "follow_links".toList rfl (by decide) (reads_readBool s.followLinks) fun names => ?_,
    known_of "respect_gitignore".toList rfl (by decide) (reads_readBool s.respectGitignore) fun names => ?_,
    List.forall_mem_nil _⟩
  all_goals simp (disch := decide) only [DiscoverySettings.keeping, decide_mem_self, decide_mem_of_ne, if_true,
    UInt64.ofNat_toNat]

theorem known_advisor (s : AdvisorSettings) : ∀ m ∈ ownMembers (advisorJson s),
    Known advisorFields (fun names => s.keeping fun name => name ∈ names) m := by
  have hbound : maxCode ≤ maxWord := by decide
  have hcodes : Reads (readList (readNat maxCode))
      (compact (.list (s.unresolvedCodes.map fun code => .nat code.toNat))) (s.unresolvedCodes.map UInt32.toNat) := by
    have hitems : (s.unresolvedCodes.map UInt32.toNat).map Json.nat =
        s.unresolvedCodes.map fun code => Json.nat code.toNat := List.map_map
    rw [← hitems]
    refine reads_readList (fun n hn => reads_readNat hbound ?_) startsItem_nat
    obtain ⟨code, -, rfl⟩ := List.mem_map.mp hn
    exact Nat.le_of_lt_succ code.toNat_lt
  have hback : (s.unresolvedCodes.map UInt32.toNat).map UInt32.ofNat = s.unresolvedCodes := by
    have hcode : UInt32.ofNat ∘ UInt32.toNat = id := funext fun code => UInt32.ofNat_toNat
    rw [List.map_map, hcode, List.map_id]
  simp only [advisorJson, ownMembers, List.map_cons, List.map_nil, List.forall_mem_cons]
  refine ⟨known_of "unresolved_codes".toList rfl (by decide) hcodes fun names => ?_,
    known_of "diagnostic_source".toList rfl (by decide) (reads_readText s.diagnosticSource) fun names => ?_,
    known_of "sort_prefix".toList rfl (by decide) (reads_readText s.sortPrefix) fun names => ?_,
    known_of "fix_title".toList rfl (by decide) (reads_readText s.fixTitle) fun names => ?_, List.forall_mem_nil _⟩
  all_goals simp (disch := decide) only [AdvisorSettings.keeping, decide_mem_self, decide_mem_of_ne, if_true, hback]

/-! ## 3. Reading the records -/

/-- **An arranged record is read as what is kept of it**, if that is told by the names of the fields alone. -/
theorem reads_arranged {σ : Type} {fields : List (Json.Field σ)} {own ms : List Member} {keep : Text → Bool}
    {keeping : (Text → Bool) → σ}
    (hown : ∀ m ∈ own, Known fields (fun names => keeping fun name => name ∈ names) m)
    (hnames : fields.map Field.name = own.map Member.key) (hnodup : (fields.map Field.name).Nodup)
    (hcongr : ∀ keep', (∀ name ∈ fields.map Field.name, keep' name = keep name) → keeping keep' = keeping keep)
    (h : Arranged own keep ms) : Reads (readRecord fields (keeping fun _ => false)) (recordText ms) (keeping keep) := by
  obtain ⟨names, hread, hreads⟩ := readRecord_arranged hown hnames (hnames ▸ hnodup) h
  have hkept : (keeping fun name => name ∈ names) = keeping keep :=
    hcongr _ fun name hname => by simp [hread, ← hnames, hname]
  have hnone : (keeping fun name => decide (name ∈ ([] : List Text))) = keeping fun _ => false :=
    congrArg keeping (funext fun name => decide_eq_false List.not_mem_nil)
  rwa [hkept, hnone] at hreads

theorem reads_discovery {s : DiscoverySettings} {keep : Text → Bool} {ms : List Member}
    (h : Arranged (ownMembers (discoveryJson s)) keep ms) : Reads readDiscovery (recordText ms) (s.keeping keep) := by
  refine reads_arranged (known_discovery s) rfl (by decide) (fun keep' hkeep => ?_) h
  simp only [discoveryFields, List.map_cons, List.map_nil, Field.of, List.forall_mem_cons] at hkeep
  simp only [DiscoverySettings.keeping, hkeep]

theorem reads_advisor {s : AdvisorSettings} {keep : Text → Bool} {ms : List Member}
    (h : Arranged (ownMembers (advisorJson s)) keep ms) : Reads readAdvisor (recordText ms) (s.keeping keep) := by
  refine reads_arranged (known_advisor s) rfl (by decide) (fun keep' hkeep => ?_) h
  simp only [advisorFields, List.map_cons, List.map_nil, Field.of, List.forall_mem_cons] at hkeep
  simp only [AdvisorSettings.keeping, hkeep]

/-! ## 4. The whole configuration -/

/-- The parts that are kept; the other is standard. -/
def keeping (c : Config) (keep : Text → Bool) : Config :=
  { discovery := if keep "discovery".toList then c.discovery else .standard
    advisor := if keep "advisor".toList then c.advisor else .standard }

/-- The members of a configuration whose parts are written like this. -/
def members (discovery advisor : List Member) : List Member :=
  [⟨"discovery".toList, recordText discovery⟩, ⟨"advisor".toList, recordText advisor⟩]

theorem ownMembers_toJson (c : Config) :
    ownMembers c.toJson = members (ownMembers (discoveryJson c.discovery)) (ownMembers (advisorJson c.advisor)) := by
  have hdiscovery : compact (discoveryJson c.discovery) = recordText (ownMembers (discoveryJson c.discovery)) :=
    compact_record _
  have hadvisor : compact (advisorJson c.advisor) = recordText (ownMembers (advisorJson c.advisor)) :=
    compact_record _
  rw [members, ← hdiscovery, ← hadvisor]
  rfl

/-- An arranged configuration of arranged parts is read as what is kept of it. -/
theorem parse_arranged {c : Config} {keepDiscovery keepAdvisor keep : Text → Bool}
    {discovery advisor whole : List Member}
    (hdiscovery : Arranged (ownMembers (discoveryJson c.discovery)) keepDiscovery discovery)
    (hadvisor : Arranged (ownMembers (advisorJson c.advisor)) keepAdvisor advisor)
    (hwhole : Arranged (members discovery advisor) keep whole) :
    parse (recordText whole) =
      .ok (keeping ⟨c.discovery.keeping keepDiscovery, c.advisor.keeping keepAdvisor⟩ keep) := by
  have hown : ∀ m ∈ members discovery advisor, Known fields (fun names =>
      keeping ⟨c.discovery.keeping keepDiscovery, c.advisor.keeping keepAdvisor⟩ fun name => name ∈ names) m := by
    simp only [members, List.forall_mem_cons]
    refine ⟨known_of "discovery".toList rfl (by decide) (reads_discovery hdiscovery) fun names => ?_,
      known_of "advisor".toList rfl (by decide) (reads_advisor hadvisor) fun names => ?_, List.forall_mem_nil _⟩
    all_goals simp (disch := decide) only [keeping, decide_mem_self, decide_mem_of_ne, if_true]
  have hreads := reads_arranged hown rfl (by decide) (fun keep' hkeep => by
    simp only [fields, List.map_cons, List.map_nil, Field.of, List.forall_mem_cons] at hkeep
    simp only [keeping, hkeep]) hwhole
  have hread := hreads [] stops_nil
  rw [List.append_nil] at hread
  have hstandard : readRecord fields standard (recordText whole) = _ := hread
  rw [parse, readAll, hstandard]
  rfl

/-- What is printed is an arrangement of itself. -/
theorem arranged_self (own : List Member) : Arranged own (fun _ => true) own :=
  ⟨[], by simp, fun _ h => nomatch h⟩

/-- **Configurations survive JSON.** -/
theorem survives_json (c : Config) :
    parse (compact c.toJson) = .ok c ∧
      ∀ (keepDiscovery keepAdvisor keep : Text → Bool) (discovery advisor whole : List Member),
        Arranged (ownMembers (discoveryJson c.discovery)) keepDiscovery discovery →
        Arranged (ownMembers (advisorJson c.advisor)) keepAdvisor advisor →
        Arranged (members discovery advisor) keep whole →
        parse (recordText whole) =
          .ok (keeping ⟨c.discovery.keeping keepDiscovery, c.advisor.keeping keepAdvisor⟩ keep) := by
  refine ⟨?_, fun _ _ _ _ _ _ hdiscovery hadvisor hwhole => parse_arranged hdiscovery hadvisor hwhole⟩
  have hprint : compact c.toJson = recordText (ownMembers c.toJson) := compact_record _
  rw [hprint, ownMembers_toJson]
  exact parse_arranged (arranged_self _) (arranged_self _) (arranged_self _)

/-- Two fields of the first part are kept and stand the other way round, one with quotes, escapes and a character
    beyond the basic plane, one with the largest number; the second part is left out, and a field is new. -/
theorem survives_json_rearranged :
    parse (recordText
      [⟨"r\\u006fots".toList, "[ 1e999,\"\\ud800\"]".toList⟩,
        ⟨"discovery".toList, recordText
          [⟨"max_files".toList, "18446744073709551615".toList⟩,
            ⟨"root".toList, "\"\\\"\\\\\\u0001é𝄞\"".toList⟩]⟩]) =
      .ok { standard with
        discovery := { DiscoverySettings.standard with
          root := "\"\\\x01é𝄞".toList
          maxFiles := 18446744073709551615 } } := by
  have hnew : Member.IsForeign ["discovery".toList, "advisor".toList]
      ⟨"r\\u006fots".toList, "[ 1e999,\"\\ud800\"]".toList⟩ := by
    refine ⟨"roots".toList, ?_, by decide, ?_⟩
    · exact .plain rfl (.unit (.digits (a := 0) (b := 0) (c := 6) (d := 15) rfl rfl rfl rfl) rfl rfl
        (.plain rfl (.plain rfl (.plain rfl .nil))))
    · have hone : IsDigits ['1'] := ⟨by decide, List.all_eq_true.mp rfl⟩
      have hnines : IsDigits "999".toList := ⟨by decide, List.all_eq_true.mp rfl⟩
      have hnumber : IsNumeral "1e999".toList ⟨false, ['1'], none, some (false, "999".toList)⟩ :=
        @IsNumeral.parts false _ _ _ _ _ hone (by decide) .none (.unsigned (.inl rfl) hnines)
      have hhalf : IsLiteral "\\ud800".toList :=
        .unit (.digits (a := 13) (b := 8) (c := 0) (d := 0) rfl rfl rfl rfl) .nil
      have hitems : ∀ v ∈ [" 1e999".toList, "\"\\ud800\"".toList], IsValue v :=
        List.forall_mem_cons.mpr ⟨.gapBefore rfl (.number hnumber), List.forall_mem_singleton.mpr (.text hhalf)⟩
      exact .list (by decide) hitems
  have hdiscovery : Arranged
      (ownMembers (discoveryJson ⟨"\"\\\x01é𝄞".toList, ['x'], 18446744073709551615, [], true, true⟩))
      (fun name => name == "max_files".toList || name == "root".toList)
      [⟨"max_files".toList, "18446744073709551615".toList⟩, ⟨"root".toList, "\"\\\"\\\\\\u0001é𝄞\"".toList⟩] :=
    ⟨[], by decide, fun _ h => nomatch h⟩
  exact (survives_json ⟨_, .standard⟩).2 _ _ (fun name => name == "discovery".toList) _ _ _ hdiscovery
    (arranged_self _) ⟨[_], by decide, List.forall_mem_singleton.mpr hnew⟩

end Config
end Ambient
