import Ambient.Proofs.Catalogue.Representation
import Ambient.Proofs.Refresh.Workers

/-!
# Refreshes agree, and their books balance

A plain refresh and a watched one are written separately. They come to the same, in whichever order, and
however interleaved, the workers of the watched refresh get through the pending files.

* `Balances`: what the tally of a refresh says about the listing, the growth of the catalogue, and the reads
  that failed;
* `Tells`: what the watcher is told;
* `Matches`: an index and a list of updates match a plain refresh;
* `handleAll_matches`: so it is after any order of the pending files;
* `Concurs`, `refresh_concurs`: so it is for every order and for every run of the workers, and the books
  balance.
-/

namespace Ambient

namespace Index

open Catalogue

/-! ## 1. What a refresh comes to -/

/-- The files of a catalogue that it did not have before. -/
def newFiles (before after : Catalogue) : List FileKey := after.files.filter fun file => !before.containsFile file

/-- The failures of reading pending files. -/
def failedReads (source : Source) (files : List FileKey) : List (FileKey × SourceError) :=
  files.filterMap (failedRead? source)

/-- **The books of a refresh balance.** -/
structure Balances (before after : Catalogue) (files : List FileKey)
    (failures : List (FileKey × SourceError)) (t : Tally) : Prop where
  discovered : t.discovered.toNat = files.length
  /-- Every file that was found is skipped, ingested or failed. -/
  balance : t.discovered.toNat = t.skipped.toNat + t.ingested.toNat + t.errors.toNat
  pending : t.pending = 0
  ingested : after.fileCount = before.fileCount + t.ingested.toNat
  declarations : after.size = before.size + t.declarations.toNat
  errors : t.errors.toNat = failures.length

/-- **What the watcher is told**: first the length of the listing, last the tally, and in between, in some
    order, of each new file once the number of its declarations, of each failed read the error, and nothing
    else. -/
def Tells (before after : Catalogue) (files : List FileKey) (failures : List (FileKey × SourceError))
    (t : Tally) (updates : List Update) : Prop :=
  (newFiles before after).Nodup ∧ ∃ middle, updates = .discovered files.length :: (middle ++ [.complete t]) ∧
    middle.Perm ((newFiles before after).map (fun file => .ingested file (after.inFile file).length) ++
      failures.map fun p => .failed p.1 p.2)

/-- **An index and what was told on the way to it match a plain refresh.** -/
structure Matches (ix : Index) (source : Source) (files : List FileKey) (ix' : Index)
    (updates : List Update) : Prop where
  catalogue : Agree (ix.refresh source).1.catalogue ix'.catalogue
  tally : (ix.refresh source).1.tally = ix'.tally
  updates : Tells ix.catalogue ix'.catalogue files (failedReads source (ix.pendingFiles files)) ix'.tally updates

/-! ## 2. Every order -/

section Order

variable {content : FileKey → List Declaration} {source : Source} {ix ix₁ ix₂ : Index}
  {files order order₁ order₂ : List FileKey} {os os₁ os₂ : List Outcome}

/-- The content of a catalogue, and of every other file the declarations of its text. -/
def offering (source : Source) (c : Catalogue) (content : FileKey → List Declaration) (file : FileKey) :
    List Declaration :=
  if file ∈ c.accepted then content file
  else
    match source.read file with
    | .ok t => parse t
    | .error _ => []

theorem offering_of_read {c : Catalogue} {file : FileKey} (hnew : file ∉ c.accepted) {t : Text}
    (ht : source.read file = .ok t) : offering source c content file = parse t := by
  unfold offering
  rw [if_neg hnew, ht]

theorem holds_offering (h : Holds content ix.catalogue) (order : List FileKey) :
    Holds (offering source ix.catalogue content) (ix.handleAll source order).1.catalogue := by
  refine handleAll_holds (h.congr fun file hfile => if_pos hfile) (fun file hnew t ht => ?_) order
  exact (offering_of_read hnew ht).symm

/-- **Catalogues agree after two orders of the same files.** -/
theorem agree_of_perm (h : Holds content ix.catalogue) (hperm : order₁.Perm order₂) :
    Agree (ix.handleAll source order₁).1.catalogue (ix.handleAll source order₂).1.catalogue := by
  refine (holds_offering h order₁).agree (holds_offering h order₂) fun file => ?_
  rw [(handleAll_books source ix order₁).mem_accepted, (handleAll_books source ix order₂).mem_accepted,
    hperm.mem_iff]

theorem Books.fileCount (h : Books source ix order ix' os) :
    ix'.catalogue.fileCount = ix.catalogue.fileCount + (takings os).length := by
  unfold Catalogue.fileCount
  rw [h.accepted, List.length_append, List.length_reverse, List.length_map, Nat.add_comm]

/-- The tally, written out. -/
theorem Books.tally_eq (h : Books source ix order ix' os) :
    ix'.tally =
      { discovered := ix.tally.discovered
        skipped := ix.tally.skipped + UInt64.ofNat (refusals os).length
        ingested := ix.tally.ingested + UInt64.ofNat (takings os).length
        declarations := ix.tally.declarations + UInt64.ofNat ((takings os).map Prod.snd).sum
        errors := ix.tally.errors + UInt64.ofNat (failuresOf os).length } := by
  rw [h.tally, Tally.foldl_count]

/-- **Tallies are equal after two orders of the same files**: the catalogues have grown alike, the same reads
    have failed, and what is left has been refused. -/
theorem tally_of_perm (hagree : Agree ix₁.catalogue ix₂.catalogue) (hperm : order₁.Perm order₂)
    (h₁ : Books source ix order₁ ix₁ os₁) (h₂ : Books source ix order₂ ix₂ os₂) : ix₁.tally = ix₂.tally := by
  have htakings : (takings os₁).length = (takings os₂).length := by
    have hcount := hagree.fileCount
    rw [h₁.fileCount, h₂.fileCount] at hcount
    omega
  have hsum : ((takings os₁).map Prod.snd).sum = ((takings os₂).map Prod.snd).sum := by
    have hsize := hagree.size
    rw [h₁.size, h₂.size] at hsize
    omega
  have hfailures : (failuresOf os₁).length = (failuresOf os₂).length := by
    rw [h₁.failures, h₂.failures]
    exact (hperm.filterMap _).length_eq
  have hrefusals : (refusals os₁).length = (refusals os₂).length := by
    have hlength := hperm.length_eq
    rw [← h₁.length, ← h₂.length, length_outcomes, length_outcomes] at hlength
    omega
  rw [h₁.tally_eq, h₂.tally_eq, htakings, hsum, hfailures, hrefusals]

/-- The files taken in are the new ones. -/
theorem Books.newFiles_perm (h : Books source ix order ix' os) (hnodup : ix'.catalogue.accepted.Nodup) :
    (newFiles ix.catalogue ix'.catalogue).Perm ((takings os).map Prod.fst) := by
  have hsorted : ix'.catalogue.files.Perm ix'.catalogue.accepted := List.mergeSort_perm _ _
  refine (hsorted.filter _).trans ?_
  rw [h.accepted] at hnodup ⊢
  obtain ⟨-, -, hdisjoint⟩ := List.nodup_append.mp hnodup
  have hkept : ((takings os).map Prod.fst).reverse.filter (fun file => !ix.catalogue.containsFile file) =
      ((takings os).map Prod.fst).reverse := by
    refine List.filter_eq_self.mpr fun file hfile => ?_
    rw [Bool.not_eq_true', ← Bool.not_eq_true, containsFile_iff]
    exact fun hold => hdisjoint file hfile file hold rfl
  have hdropped : ix.catalogue.accepted.filter (fun file => !ix.catalogue.containsFile file) = [] := by
    refine List.filter_eq_nil_iff.mpr fun file hfile => ?_
    rw [containsFile_iff.mpr hfile]
    exact Bool.false_ne_true
  rw [List.filter_append, hkept, hdropped, List.append_nil]
  exact List.reverse_perm _

/-- **What is told of the outcomes** is what the catalogue has more than before, and the failed reads. -/
theorem updates_of_books (h : Holds content ix.catalogue) (order : List FileKey) :
    ((ix.handleAll source order).2.filterMap Outcome.update?).Perm
      ((newFiles ix.catalogue (ix.handleAll source order).1.catalogue).map
          (fun file => .ingested file ((ix.handleAll source order).1.catalogue.inFile file).length) ++
        (failedReads source order).map fun p => .failed p.1 p.2) := by
  have hbooks := handleAll_books source ix order
  have hholds : Holds (offering source ix.catalogue content) (ix.handleAll source order).1.catalogue :=
    holds_offering h order
  generalize ix.handleAll source order = result at hbooks hholds
  have hnumber : ∀ p ∈ takings result.2, p.2 = (result.1.catalogue.inFile p.1).length := by
    intro p hp
    obtain ⟨-, t, ht, hlength⟩ := hbooks.texts p hp
    have hmem : p.1 ∈ result.1.catalogue.accepted := by
      rw [hbooks.accepted]
      exact List.mem_append_left _ (List.mem_reverse.mpr (List.mem_map_of_mem hp))
    have hnew : p.1 ∉ ix.catalogue.accepted := by
      have hnodup := hholds.nodup
      rw [hbooks.accepted] at hnodup
      intro hold
      exact (List.nodup_append.mp hnodup).2.2 p.1 (List.mem_reverse.mpr (List.mem_map_of_mem hp)) p.1 hold rfl
    rw [hholds.inFile_eq hmem, Entry.length_ofFile, offering_of_read hnew ht, hlength]
  have hmap : (takings result.2).map (fun p => Update.ingested p.1 p.2) =
      ((takings result.2).map Prod.fst).map
        fun file => Update.ingested file (result.1.catalogue.inFile file).length := by
    rw [List.map_map]
    refine List.map_congr_left fun p hp => ?_
    rw [hnumber p hp]
    rfl
  refine (updates_perm result.2).trans ?_
  rw [hmap, hbooks.failures]
  exact ((hbooks.newFiles_perm hholds.nodup).symm.map _).append_right _

/-- **Every order of the pending files matches the plain refresh.** -/
theorem handleAll_matches (h : Holds content ix.catalogue) (hd : source.discover = .ok files)
    (hperm : order.Perm (ix.pendingFiles files)) {middle : List Update}
    (hmiddle : middle.Perm (((ix.begin files).handleAll source order).2.filterMap Outcome.update?)) :
    Matches ix source files ((ix.begin files).handleAll source order).1
      (.discovered files.length ::
        (middle ++ [.complete ((ix.begin files).handleAll source order).1.tally])) := by
  have hbegin : Holds content (ix.begin files).catalogue := h
  have hagree : Agree ((ix.begin files).handleAll source (ix.pendingFiles files)).1.catalogue
      ((ix.begin files).handleAll source order).1.catalogue := agree_of_perm hbegin hperm.symm
  refine ⟨?_, ?_, ?_, middle, rfl, ?_⟩
  · rw [refresh_of_ok hd]
    exact hagree
  · rw [refresh_of_ok hd]
    exact tally_of_perm hagree hperm.symm (handleAll_books _ _ _) (handleAll_books _ _ _)
  · have hsorted := List.mergeSort_perm ((ix.begin files).handleAll source order).1.catalogue.accepted FileKey.le
    exact (hsorted.nodup_iff.mpr (holds_offering hbegin order).nodup).filter _
  · refine (hmiddle.trans (updates_of_books hbegin order)).trans ?_
    exact ((hperm.filterMap _).map _).append_left _

/-! ## 3. The balance -/

/-- **The books balance**, as long as the counters can hold what they count. -/
theorem refresh_balances (hd : source.discover = .ok files) (hfiles : files.length < 2 ^ 64)
    (hsize : (ix.refresh source).1.catalogue.size < ix.catalogue.size + 2 ^ 64) :
    Balances ix.catalogue (ix.refresh source).1.catalogue files (failedReads source (ix.pendingFiles files))
      (ix.refresh source).1.tally := by
  have hbooks := handleAll_books source (ix.begin files) (ix.pendingFiles files)
  rw [refresh_of_ok hd] at hsize ⊢
  generalize (ix.begin files).handleAll source (ix.pendingFiles files) = result at hbooks hsize
  have hpending : (ix.pendingFiles files).length ≤ files.length := List.length_filter_le _ _
  have hlength := hbooks.length
  rw [length_outcomes] at hlength
  have hgrown : result.1.catalogue.size = ix.catalogue.size + ((takings result.2).map Prod.snd).sum :=
    hbooks.size
  have hcount : result.1.catalogue.fileCount = ix.catalogue.fileCount + (takings result.2).length :=
    hbooks.fileCount
  have hfailures : (failuresOf result.2).length = (failedReads source (ix.pendingFiles files)).length :=
    congrArg List.length hbooks.failures
  have htally := hbooks.tally_eq
  simp only [begin, Tally.zero, Tally.discover, Tally.skip, UInt64.zero_add] at htally
  -- no counter has wrapped
  have hword : UInt64.size = 2 ^ 64 := rfl
  have hdiscovered : result.1.tally.discovered.toNat = files.length := by
    rw [htally]
    exact UInt64.toNat_ofNat_of_lt' hfiles
  have hskipped : result.1.tally.skipped.toNat =
      files.length - (ix.pendingFiles files).length + (refusals result.2).length := by
    rw [htally, ← UInt64.ofNat_add]
    exact UInt64.toNat_ofNat_of_lt' (by omega)
  have hingested : result.1.tally.ingested.toNat = (takings result.2).length := by
    rw [htally]
    exact UInt64.toNat_ofNat_of_lt' (by omega)
  have hdeclarations : result.1.tally.declarations.toNat = ((takings result.2).map Prod.snd).sum := by
    rw [htally]
    exact UInt64.toNat_ofNat_of_lt' (by omega)
  have herrors : result.1.tally.errors.toNat = (failuresOf result.2).length := by
    rw [htally]
    exact UInt64.toNat_ofNat_of_lt' (by omega)
  have hbalance : result.1.tally.discovered.toNat =
      result.1.tally.skipped.toNat + result.1.tally.ingested.toNat + result.1.tally.errors.toNat := by omega
  have hnone : result.1.tally.pending.toNat = 0 := by
    rw [Tally.toNat_pending (hbalance ▸ UInt64.toNat_lt_size _), hbalance, Nat.sub_self]
  exact
    { discovered := hdiscovered
      balance := hbalance
      pending := UInt64.toNat.inj hnone
      ingested := by rw [hcount, hingested]
      declarations := by rw [hgrown, hdeclarations]
      errors := herrors.trans hfailures }

end Order

/-! ## 4. Agreement -/

/-- **The refreshes of an index agree**, on a source that lists `files`. -/
structure Concurs (ix : Index) (source : Source) (files : List FileKey) : Prop where
  /-- The plain refresh reports its tally and the failed reads, in the order of the listing. -/
  report : (ix.refresh source).2 =
    .ok ⟨(ix.refresh source).1.tally, failedReads source (ix.pendingFiles files)⟩
  /-- Its books balance, as long as the counters can hold what they count. -/
  balances : files.length < 2 ^ 64 → (ix.refresh source).1.catalogue.size < ix.catalogue.size + 2 ^ 64 →
    Balances ix.catalogue (ix.refresh source).1.catalogue files
      (failedReads source (ix.pendingFiles files)) (ix.refresh source).1.tally
  /-- A watched refresh matches it, in whichever order its workers get through the pending files. -/
  watched : ∀ schedule : Schedule, ∃ updates, (ix.refreshWatchedBy schedule source).2 = .ok updates ∧
    Matches ix source files (ix.refreshWatchedBy schedule source).1 updates
  /-- So does every run in which the steps of the workers are interleaved. -/
  workers : ∀ crew, Crew.Runs source (.start (ix.begin files) (ix.pendingFiles files)) crew → crew.IsDone →
    Matches ix source files crew.index
      (.discovered files.length :: (crew.updates ++ [.complete crew.index.tally]))
  /-- Every order is that of such a run. -/
  orders : ∀ schedule : Schedule, ∃ crew,
    Crew.Runs source (.start (ix.begin files) (ix.pendingFiles files)) crew ∧ crew.IsDone ∧
      ix.refreshWatchedBy schedule source = (crew.index,
        .ok (.discovered files.length :: (crew.updates ++ [.complete crew.index.tally])))

section Agreement

variable {source : Source} {ix : Index} {files : List FileKey}

theorem refresh_report (hd : source.discover = .ok files) :
    (ix.refresh source).2 =
      .ok ⟨(ix.refresh source).1.tally, failedReads source (ix.pendingFiles files)⟩ := by
  have hbooks := handleAll_books source (ix.begin files) (ix.pendingFiles files)
  have hfailures : ((ix.begin files).handleAll source (ix.pendingFiles files)).2.filterMap Outcome.failure? =
      failedReads source (ix.pendingFiles files) := hbooks.failures
  rw [refresh_of_ok hd, ← hfailures]
  unfold refresh
  rw [hd]

/-- A schedule is the order of some run. -/
theorem exists_crew (hd : source.discover = .ok files) (schedule : Schedule) :
    ∃ crew, Crew.Runs source (.start (ix.begin files) (ix.pendingFiles files)) crew ∧ crew.IsDone ∧
      ix.refreshWatchedBy schedule source = (crew.index,
        .ok (.discovered files.length :: (crew.updates ++ [.complete crew.index.tally]))) := by
  have hfiles : ((ix.pendingFiles files).map Task.waiting).filterMap Task.file? = ix.pendingFiles files := by
    rw [List.filterMap_map]
    exact List.filterMap_some
  have hwaiting : ∀ task ∈ (ix.pendingFiles files).map Task.waiting,
      task.file?.isSome = true ∨ task.isTold = true := by
    intro task htask
    obtain ⟨file, -, rfl⟩ := List.mem_map.mp htask
    exact Or.inl rfl
  have hperm : (schedule.arrange (ix.pendingFiles files)).Perm
      (((ix.pendingFiles files).map Task.waiting).filterMap Task.file?) := by
    rw [hfiles]
    exact schedule.perm _
  obtain ⟨tasks, hdone, hruns⟩ := Crew.exists_run (ix.begin files) [] hperm hwaiting
  refine ⟨_, hruns, hdone, ?_⟩
  unfold refreshWatchedBy
  rw [hd]
  rfl

end Agreement

/-- **Plain and watched refreshes agree, and the books balance**, from every catalogue on and for every source
    that can list its files. -/
theorem refresh_concurs (calls : List Call) (t : Tally) (source : Source) (files : List FileKey)
    (hd : source.discover = .ok files) : Concurs ⟨after calls, t⟩ source files where
  report := refresh_report hd
  balances := refresh_balances hd
  watched schedule := by
    obtain ⟨crew, hruns, hdone, hwatched⟩ := exists_crew hd schedule
    obtain ⟨order, hperm, hindex, hupdates⟩ := Crew.exists_order hruns hdone
    rw [hwatched, hindex]
    exact ⟨_, rfl, handleAll_matches (after_holds calls) hd hperm hupdates⟩
  workers crew hruns hdone := by
    obtain ⟨order, hperm, hindex, hupdates⟩ := Crew.exists_order hruns hdone
    rw [hindex]
    exact handleAll_matches (after_holds calls) hd hperm hupdates
  orders := exists_crew hd

/-- Three files, the first of which is listed twice and the second of which cannot be read. -/
def threeFiles : Source where
  discover := .ok [⟨"a".toList⟩, ⟨"b".toList⟩, ⟨"a".toList⟩, ⟨"c".toList⟩]
  read file :=
    if file.text = "b".toList then .error (.read file.text .notHeld)
    else .ok "namespace N \x7b\nexport declare class A \x7b\n\x7d\n\x7d\n".toList

theorem refresh_concurs_threeFiles :
    threeFiles.discover = .ok [⟨"a".toList⟩, ⟨"b".toList⟩, ⟨"a".toList⟩, ⟨"c".toList⟩] ∧
      Concurs ⟨after [.ingest ⟨"c".toList⟩ []], .zero⟩ threeFiles
        [⟨"a".toList⟩, ⟨"b".toList⟩, ⟨"a".toList⟩, ⟨"c".toList⟩] :=
  ⟨rfl, refresh_concurs _ _ _ _ rfl⟩

end Index
end Ambient
