import Ambient.Proofs.Discovery.Inside
import Ambient.Proofs.Discovery.Skipped
import Ambient.Proofs.Text.Utf8

/-!
# A workspace with one way down

For any names there is a workspace in which they lead to a file: a CHAIN of directories, each with one entry, below
a directory whose ignore file keeps everything. A walk without a bound finds that file (`exists_finding_chain`),
whatever the names are, those with a leading dot included.
-/

namespace Ambient

/-! ## 1. Keeping everything -/

namespace IgnoreRule

/-- The rule `!*`. -/
def keepAll : IgnoreRule := ⟨⟨[.recursivePrefix, .star]⟩, true, false⟩

/-- A path has a last name. -/
theorem exists_last_name (bs : Bytes) : ∃ rest ∈ bs :: Token.slashRests bs, slash ∉ rest := by
  induction bs with
  | nil => exact ⟨[], List.mem_cons_self, List.not_mem_nil⟩
  | cons b bs ih =>
    obtain ⟨rest, hrest, hslash⟩ := ih
    rw [Token.slashRests]
    by_cases hb : b = slash
    · rw [if_pos hb]
      exact ⟨rest, List.mem_cons_of_mem _ hrest, hslash⟩
    rw [if_neg hb]
    rcases List.mem_cons.mp hrest with rfl | hrest
    · refine ⟨b :: rest, List.mem_cons_self, fun hmem => ?_⟩
      exact (List.mem_cons.mp hmem).elim (fun h => hb h.symm) hslash
    · exact ⟨rest, List.mem_cons_of_mem _ hrest, hslash⟩

theorem nil_mem_segmentRests {bs : Bytes} (h : slash ∉ bs) : [] ∈ Token.segmentRests bs := by
  induction bs with
  | nil => exact List.mem_singleton_self _
  | cons b bs ih =>
    rw [List.mem_cons, not_or] at h
    rw [Token.segmentRests, if_neg (Ne.symm h.1)]
    exact List.mem_cons_of_mem _ (ih h.2)

theorem matchesPath_keepAll (path : Bytes) (isDirectory : Bool) : keepAll.matchesPath path isDirectory = true := by
  have hrests : [] ∈ Token.restsOfAll [.recursivePrefix, .star] [path] := by
    obtain ⟨rest, hrest, hslash⟩ := exists_last_name path
    rw [Token.restsOfAll, Token.restsOfAll, Token.restsOfAll]
    refine List.mem_eraseDups.mpr (List.mem_flatMap.mpr ⟨rest, ?_, nil_mem_segmentRests hslash⟩)
    refine List.mem_eraseDups.mpr (List.mem_flatMap.mpr ⟨path, List.mem_singleton_self _, ?_⟩)
    rwa [Token.rests]
  have hglob : keepAll.glob.matchesPath path = true :=
    (Bool.or_eq_true _ _).mpr (.inr (List.contains_iff_mem.mpr hrests))
  unfold matchesPath
  rw [hglob, Bool.and_true]
  exact Bool.or_true _

/-- Rules that only keep ignore nothing. -/
theorem verdict?_of_keeps {rules : List IgnoreRule} (h : ∀ r ∈ rules, r.keeps = true) {path : Bytes}
    {isDirectory : Bool} {v : Verdict} (hv : verdict? rules path isDirectory = some v) : v = .kept := by
  unfold verdict? at hv
  obtain ⟨r, hfind, rfl⟩ := Option.map_eq_some_iff.mp hv
  rw [if_pos (h r (List.mem_reverse.mp (List.mem_of_find?_eq_some hfind)))]

theorem verdict?_keepAll (path : Bytes) (isDirectory : Bool) : verdict? [keepAll] path isDirectory = some .kept := by
  unfold verdict?
  rw [List.reverse_singleton, List.find?_singleton, matchesPath_keepAll]
  rfl

end IgnoreRule

namespace IgnoreLevel

open IgnoreRule (keepAll)

/-- **The plain rules of the levels keep, and some keep everything.** -/
structure KeepAll (levels : List IgnoreLevel) : Prop where
  keeps : ∀ level ∈ levels, ∀ r ∈ level.plain, r.keeps = true
  all : ∃ level ∈ levels, level.plain = [keepAll]

theorem kindVerdict?_of_keepAll {levels : List IgnoreLevel} (h : KeepAll levels) (name : Name) (isDirectory : Bool) :
    kindVerdict? levels plain name isDirectory = some .kept := by
  unfold kindVerdict?
  cases hv : levels.findSome? fun level =>
      IgnoreRule.verdict? level.plain (pathOf (level.below ++ [name])) isDirectory with
  | none =>
    obtain ⟨level, hlevel, hplain⟩ := h.all
    have hnone := List.findSome?_eq_none_iff.mp hv level hlevel
    rw [hplain, IgnoreRule.verdict?_keepAll] at hnone
    cases hnone
  | some v =>
    obtain ⟨level, hlevel, hverdict⟩ := List.exists_of_findSome?_eq_some hv
    rw [IgnoreRule.verdict?_of_keeps (h.keeps level hlevel) hverdict]

/-- **Nothing is ignored.** -/
theorem isIgnored_of_keepAll {levels : List IgnoreLevel} (h : KeepAll levels) (name : Name) (isDirectory : Bool) :
    isIgnored levels name isDirectory = false := by
  unfold isIgnored verdict?
  rw [List.findSome?_cons, kindVerdict?_of_keepAll h]

/-- One directory further down, in a directory whose rules keep. -/
theorem KeepAll.enter {levels : List IgnoreLevel} (h : KeepAll levels) {level : IgnoreLevel}
    (hlevel : ∀ r ∈ level.plain, r.keeps = true) (name : Name) : KeepAll (level :: levels.map (descend name)) where
  keeps := by
    refine List.forall_mem_cons.mpr ⟨hlevel, fun l hl => ?_⟩
    obtain ⟨l', hl', rfl⟩ := List.mem_map.mp hl
    exact h.keeps l' hl'
  all := by
    obtain ⟨l, hl, hplain⟩ := h.all
    exact ⟨descend name l, List.mem_cons_of_mem _ (List.mem_map_of_mem hl), hplain⟩

end IgnoreLevel

/-! ## 2. Chains -/

namespace Node

/-- Directories below one another, and a file at the end. -/
def chain : List Name → Node
  | [] => .file []
  | name :: names => .directory [(name, chain names)]

theorem isProper_chain {names : List Name} (h : ∀ name ∈ names, Workspace.IsName name) :
    (chain names).isProper = true := by
  induction names with
  | nil => rfl
  | cons name names ih =>
    obtain ⟨hname, hnames⟩ := List.forall_mem_cons.mp h
    exact isProper_directory_iff.mpr
      ⟨List.pairwise_singleton _ _, List.forall_mem_singleton.mpr ⟨hname, ih hnames⟩⟩

/-- What holds of a tree and with a directory of all its entries holds of all nodes. -/
theorem forall_at? {P : Node → Prop} (hstep : ∀ entries, P (.directory entries) → ∀ entry ∈ entries, P entry.2)
    {n m : Node} {place : Location} (hn : P n) (h : n.at? place = some m) : P m := by
  induction place generalizing n with
  | nil =>
    cases h
    exact hn
  | cons name place ih =>
    rw [at?] at h
    obtain ⟨child, hchild, hrest⟩ := Option.bind_eq_some_iff.mp h
    refine ih ?_ hrest
    cases n with
    | file _ => cases hchild
    | link _ => cases hchild
    | directory entries => exact hstep entries hn _ (mem_of_lookup hchild)

end Node

namespace Workspace

/-- The name of the directory with the chain. -/
def chainRoot : Text := ['r']

/-- The bytes of the ignore file. -/
def keepBytes : Bytes := Text.toBytes "!*".toList

/-- What the workspace holds. -/
def chainHome (names : List Name) : Node :=
  .directory [(Text.toBytes ".ignore".toList, .file keepBytes), (chainRoot.toBytes, .chain names)]

/-- **The workspace with a chain.** -/
def ofChain (names : List Name) : Workspace := ⟨.directory [([], chainHome names)]⟩

variable {names : List Name}

theorem isProper_ofChain (h : ∀ name ∈ names, IsName name) : (ofChain names).IsProper := by
  have hdistinct : [Text.toBytes ".ignore".toList, chainRoot.toBytes].Nodup := by decide
  refine ⟨_, rfl, Node.isProper_directory_iff.mpr ⟨hdistinct, List.forall_mem_cons.mpr ⟨⟨by decide, rfl⟩, ?_⟩⟩⟩
  exact List.forall_mem_singleton.mpr ⟨(by decide : IsName chainRoot.toBytes), Node.isProper_chain h⟩

/-- Its files are empty, but for the ignore file. -/
theorem content_ofChain {place : Location} {content : Bytes}
    (h : (ofChain names).tree.at? place = some (.file content)) : content = [] ∨ content = keepBytes := by
  let P : Node → Prop := fun n =>
    n = (ofChain names).tree ∨ n = chainHome names ∨ n = .file keepBytes ∨ ∃ more, n = .chain more
  have hstep : ∀ entries, P (.directory entries) → ∀ entry ∈ entries, P entry.2 := by
    rintro entries (htop | hhome | hfile | ⟨more, hchain⟩) entry hentry
    · cases htop
      rw [List.mem_singleton.mp hentry]
      exact .inr (.inl rfl)
    · cases hhome
      rcases List.mem_cons.mp hentry with rfl | hentry
      · exact .inr (.inr (.inl rfl))
      · rw [List.mem_singleton.mp hentry]
        exact .inr (.inr (.inr ⟨names, rfl⟩))
    · cases hfile
    · cases more with
      | nil => cases hchain
      | cons name more =>
        cases hchain
        rw [List.mem_singleton.mp hentry]
        exact .inr (.inr (.inr ⟨more, rfl⟩))
  rcases Node.forall_at? hstep (.inl rfl) h with htop | hhome | hfile | ⟨more, hchain⟩
  · cases htop
  · cases hhome
  · cases hfile
    exact .inr rfl
  · cases more with
    | nil =>
      cases hchain
      exact .inl rfl
    | cons name more => cases hchain

/-- Its ignore files only keep. -/
theorem keeps_ofChain (place : Location) :
    ∀ r ∈ (IgnoreLevel.fileAt (ofChain names) place ".ignore".toList).rules, r.keeps = true := by
  unfold IgnoreLevel.fileAt
  split
  · exact fun _ h => absurd h List.not_mem_nil
  · split
    · rename_i content hat
      rcases content_ofChain hat with rfl | rfl
      · exact fun _ h => absurd h List.not_mem_nil
      · have hrules : (IgnoreFile.read keepBytes).rules = [IgnoreRule.keepAll] := rfl
        rw [hrules, List.forall_mem_singleton]
        rfl
    all_goals exact fun _ h => absurd h List.not_mem_nil

/-- The ignore file of the workspace keeps everything. -/
theorem fileAt_home (names : List Name) :
    (IgnoreLevel.fileAt (ofChain names) home ".ignore".toList).rules = [IgnoreRule.keepAll] := rfl

end Workspace

/-! ## 3. The walk down -/

namespace Walk

variable {names : List Name} {o : WalkOptions} {here : Here} {steps : Nat}

theorem keeps_read (respectGit : Bool) (place : Location) (below : List Name) :
    ∀ r ∈ (IgnoreLevel.read (Workspace.ofChain names) respectGit place below).plain, r.keeps = true :=
  Workspace.keeps_ofChain place

/-- **The walk goes down to the file at the end of a chain.** -/
theorem exists_finding_of_chain (ho : o.maxDepth = none) {name : Name} {more : List Name}
    (hat : (Workspace.ofChain names).tree.at? here.place = some (.chain (name :: more)))
    (hlevels : IgnoreLevel.KeepAll here.levels) (hsteps : more.length < steps) :
    ∃ f ∈ findings (Workspace.ofChain names) o steps here,
      f.names = here.names ++ name :: more ∧ f.result = textNames o f.names := by
  induction more generalizing steps here name with
  | nil =>
    cases steps with
    | zero => exact absurd hsteps (Nat.not_lt_zero _)
    | succ steps =>
      have hentries : (Workspace.ofChain names).tree.entriesAt here.place = [(name, .file [])] := by
        unfold Node.entriesAt
        rw [hat]
        rfl
      refine ⟨⟨here.names ++ [name], textNames o (here.names ++ [name])⟩, ?_, rfl, rfl⟩
      have htarget : targetOf (Workspace.ofChain names) o here name (.file []) = .ok .file := rfl
      rw [findings, ho, Option.any_none, if_neg Bool.false_ne_true, hentries, List.flatMap_singleton]
      unfold entryFindings
      dsimp only
      rw [htarget]
      dsimp only
      rw [IgnoreLevel.isIgnored_of_keepAll hlevels, if_neg Bool.false_ne_true]
      exact List.mem_singleton_self _
  | cons next more ih =>
    cases steps with
    | zero => exact absurd hsteps (Nat.not_lt_zero _)
    | succ steps =>
      have hentries : (Workspace.ofChain names).tree.entriesAt here.place = [(name, .chain (next :: more))] := by
        unfold Node.entriesAt
        rw [hat]
        rfl
      have hbelow : (Workspace.ofChain names).tree.at? (here.place ++ [name]) = some (.chain (next :: more)) := by
        rw [Node.at?_concat, hentries, List.lookup_cons, beq_self_eq_true]
      obtain ⟨f, hf, hnames, hresult⟩ :=
        @ih (here.enter (Workspace.ofChain names) o name (here.place ++ [name])) _ next hbelow
          (hlevels.enter (keeps_read _ _ _) name) (Nat.lt_of_succ_lt_succ hsteps)
      refine ⟨f, ?_, hnames.trans (List.append_assoc _ _ _), hresult⟩
      have htarget : targetOf (Workspace.ofChain names) o here name (.chain (next :: more)) =
          .ok (.directory (here.place ++ [name])) := rfl
      rw [findings, ho, Option.any_none, if_neg Bool.false_ne_true, hentries, List.flatMap_singleton]
      unfold entryFindings
      dsimp only
      rw [htarget]
      dsimp only
      rw [IgnoreLevel.isIgnored_of_keepAll hlevels, if_neg Bool.false_ne_true]
      exact hf

/-- Where the chain starts. -/
def chainPlace : Location := [[], Workspace.chainRoot.toBytes]

theorem keepAll_start (o : WalkOptions) :
    IgnoreLevel.KeepAll (Here.start (Workspace.ofChain names) o chainPlace).levels where
  keeps := by
    refine List.forall_mem_cons.mpr ⟨keeps_read _ _ _, fun level hlevel => ?_⟩
    obtain ⟨⟨directory, below⟩, -, rfl⟩ := List.mem_map.mp hlevel
    exact keeps_read _ _ _
  all := by
    have habove : IgnoreLevel.above chainPlace =
        [(Workspace.home, [Workspace.chainRoot.toBytes]), ([], chainPlace)] := rfl
    refine ⟨IgnoreLevel.read (Workspace.ofChain names) o.respectGit Workspace.home [Workspace.chainRoot.toBytes],
      List.mem_cons_of_mem _ (List.mem_map.mpr ⟨(Workspace.home, [Workspace.chainRoot.toBytes]), ?_, rfl⟩),
      Workspace.fileAt_home names⟩
    rw [habove]
    exact List.mem_cons_self

theorem length_lt_size_chain (names : List Name) : names.length < (Node.chain names).size := by
  induction names with
  | nil => exact Nat.one_pos
  | cons name names ih =>
    rw [Node.chain, Node.size, Node.sizeOfAll, Node.sizeOfAll, List.length_cons]
    omega

/-- **The file at the end of the chain is found.** -/
theorem exists_finding_chain (name : Name) (more : List Name) (ho : o.maxDepth = none) (hgit : o.respectGit = false) :
    ∃ fs, found (Workspace.ofChain (name :: more)) o chainPlace = .ok fs ∧
      ∃ f ∈ fs, f.names = name :: more ∧ f.result = textNames o (name :: more) := by
  have hfault : IgnoreLevel.faultAbove? (Workspace.ofChain (name :: more)) false chainPlace = none := rfl
  have hat : (Workspace.ofChain (name :: more)).tree.at?
      (Here.start (Workspace.ofChain (name :: more)) o chainPlace).place = some (.chain (name :: more)) := rfl
  have hsize := Node.size_le_of_at? hat
  have hlength := length_lt_size_chain (name :: more)
  rw [List.length_cons] at hlength
  have hsteps : more.length < ((Workspace.ofChain (name :: more)).tree.size + 1) *
      ((Workspace.ofChain (name :: more)).tree.size + 1) :=
    Nat.lt_of_lt_of_le (by omega) (Nat.le_mul_of_pos_right _ (Nat.succ_pos _))
  obtain ⟨f, hf, hnames, hresult⟩ := exists_finding_of_chain ho hat (keepAll_start o) hsteps
  unfold found
  rw [hgit, hfault]
  exact ⟨_, rfl, f, hf, hnames, by rw [hresult, hnames]; rfl⟩

end Walk
end Ambient
