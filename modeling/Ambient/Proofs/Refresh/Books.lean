import Ambient.Proofs.Refresh.Offers
import Mathlib.Algebra.GroupWithZero.Nat

/-!
# The books of a refresh

A refresh handles its pending files one after the other and keeps three records of that: the outcomes, the
tally, and the catalogue. Each can be checked against the others.

* `Handled`: the three things that can become of a pending file;
* `Tally.count`: what an outcome adds to the tally; in which order outcomes are counted is of no account;
* `Books`: how outcomes, tally and catalogue fit together after any list of pending files;
* `handleAll_books`: they do, from every index on;
* `handleAll_holds`: what the catalogue holds afterwards, whatever it held before.
-/

namespace Ambient

/-! ## 1. Outcomes -/

namespace Outcome

/-- The file that an outcome has brought into the catalogue, and the number of its declarations. -/
def taking? : Outcome → Option (FileKey × Nat)
  | ingested file declarations => some (file, declarations)
  | refused _ | failed _ _ => none

/-- The file that was read in vain. -/
def refusal? : Outcome → Option FileKey
  | refused file => some file
  | ingested _ _ | failed _ _ => none

end Outcome

/-- The files that outcomes have brought into the catalogue, each with the number of its declarations. -/
def takings (outcomes : List Outcome) : List (FileKey × Nat) := outcomes.filterMap Outcome.taking?

/-- The files that the catalogue has refused. -/
def refusals (outcomes : List Outcome) : List FileKey := outcomes.filterMap Outcome.refusal?

/-- The failures among outcomes. -/
def failuresOf (outcomes : List Outcome) : List (FileKey × SourceError) :=
  outcomes.filterMap Outcome.failure?

section Cons

variable (file : FileKey) (declarations : Nat) (error : SourceError) (outcomes : List Outcome)

@[simp] theorem takings_ingested :
    takings (.ingested file declarations :: outcomes) = (file, declarations) :: takings outcomes := rfl

@[simp] theorem takings_refused : takings (.refused file :: outcomes) = takings outcomes := rfl

@[simp] theorem takings_failed : takings (.failed file error :: outcomes) = takings outcomes := rfl

@[simp] theorem refusals_ingested :
    refusals (.ingested file declarations :: outcomes) = refusals outcomes := rfl

@[simp] theorem refusals_refused : refusals (.refused file :: outcomes) = file :: refusals outcomes := rfl

@[simp] theorem refusals_failed : refusals (.failed file error :: outcomes) = refusals outcomes := rfl

@[simp] theorem failuresOf_ingested :
    failuresOf (.ingested file declarations :: outcomes) = failuresOf outcomes := rfl

@[simp] theorem failuresOf_refused : failuresOf (.refused file :: outcomes) = failuresOf outcomes := rfl

@[simp] theorem failuresOf_failed :
    failuresOf (.failed file error :: outcomes) = (file, error) :: failuresOf outcomes := rfl

end Cons

/-- **An outcome is a taking, a refusal or a failure.** -/
theorem length_outcomes (outcomes : List Outcome) :
    outcomes.length = (refusals outcomes).length + (takings outcomes).length + (failuresOf outcomes).length := by
  induction outcomes with
  | nil => rfl
  | cons outcome outcomes ih => cases outcome <;> simp <;> omega

/-- The watcher is told of the takings and of the failures, and of nothing else. -/
theorem updates_perm (outcomes : List Outcome) :
    (outcomes.filterMap Outcome.update?).Perm
      ((takings outcomes).map (fun p => Update.ingested p.1 p.2) ++
        (failuresOf outcomes).map fun p => Update.failed p.1 p.2) := by
  induction outcomes with
  | nil => exact .nil
  | cons outcome outcomes ih =>
    cases outcome with
    | ingested file declarations => exact ih.cons _
    | refused file => exact ih
    | failed file error => exact (ih.cons _).trans List.perm_middle.symm

namespace Tally

/-- Counts an outcome. -/
def count (t : Tally) : Outcome → Tally
  | .ingested _ declarations => t.ingest declarations
  | .refused _ => t.skip 1
  | .failed _ _ => t.fail

/-- Two outcomes can be counted in either order. -/
theorem count_comm (t : Tally) (a b : Outcome) : (t.count a).count b = (t.count b).count a := by
  cases a with
  | ingested _ m =>
    cases b with
    | ingested _ n =>
      have h : t.declarations + UInt64.ofNat m + UInt64.ofNat n =
          t.declarations + UInt64.ofNat n + UInt64.ofNat m := by
        rw [UInt64.add_assoc, UInt64.add_comm (UInt64.ofNat m), UInt64.add_assoc]
      simp [count, ingest, h]
    | refused | failed => rfl
  | refused => cases b <;> rfl
  | failed => cases b <;> rfl

/-- **The order in which outcomes are counted is of no account.** -/
theorem foldl_count_perm {as bs : List Outcome} (h : as.Perm bs) (t : Tally) :
    as.foldl count t = bs.foldl count t :=
  h.foldl_eq' (fun a _ b _ t => count_comm t a b) t

/-- All counters, after outcomes have been counted. -/
theorem foldl_count (outcomes : List Outcome) (t : Tally) :
    outcomes.foldl count t =
      { discovered := t.discovered
        skipped := t.skipped + UInt64.ofNat (refusals outcomes).length
        ingested := t.ingested + UInt64.ofNat (takings outcomes).length
        declarations := t.declarations + UInt64.ofNat ((takings outcomes).map Prod.snd).sum
        errors := t.errors + UInt64.ofNat (failuresOf outcomes).length } := by
  have hone : ∀ (m : UInt64) (n : Nat), m + 1 + UInt64.ofNat n = m + UInt64.ofNat (n + 1) := by
    intro m n
    rw [UInt64.ofNat_add, UInt64.add_assoc, UInt64.add_comm 1]
    rfl
  induction outcomes generalizing t with
  | nil => simp [takings, failuresOf, refusals]
  | cons outcome outcomes ih =>
    rw [List.foldl_cons, ih]
    cases outcome with
    | ingested file declarations => simp [count, ingest, hone, UInt64.ofNat_add, UInt64.add_assoc]
    | refused file => simp [count, skip, hone]
    | failed file error => simp [count, fail, hone]

/-- Where a word can hold the sum of what was handled, what is pending is the difference. -/
theorem toNat_pending {t : Tally} (h : t.skipped.toNat + t.ingested.toNat + t.errors.toNat < UInt64.size) :
    t.pending.toNat = t.discovered.toNat - (t.skipped.toNat + t.ingested.toNat + t.errors.toNat) := by
  have hhandled : (t.skipped + t.ingested + t.errors).toNat =
      t.skipped.toNat + t.ingested.toNat + t.errors.toNat := by
    rw [UInt64.toNat_add, UInt64.toNat_add, Nat.mod_add_mod]
    exact Nat.mod_eq_of_lt h
  unfold pending
  dsimp only
  split
  · rename_i hle
    rw [UInt64.le_iff_toNat_le, hhandled] at hle
    exact (Nat.sub_eq_zero_of_le hle).symm
  · rename_i hlt
    have hle : t.skipped + t.ingested + t.errors ≤ t.discovered := by
      rw [UInt64.le_iff_toNat_le] at hlt ⊢
      omega
    rw [UInt64.toNat_sub_of_le _ _ hle, hhandled]

end Tally

namespace Index

open Catalogue

/-! ## 2. One pending file -/

/-- **What can become of a pending file**: it cannot be read, it has been taken in before, or it is taken in. -/
inductive Handled (source : Source) (ix : Index) (file : FileKey) : Index × Outcome → Prop where
  | failed (error : SourceError) (hread : source.read file = .error error) :
      Handled source ix file (⟨ix.catalogue, ix.tally.fail⟩, .failed file error)
  | refused (t : Text) (hread : source.read file = .ok t) (hold : file ∈ ix.catalogue.accepted) :
      Handled source ix file (⟨ix.catalogue, ix.tally.skip 1⟩, .refused file)
  | ingested (t : Text) (hread : source.read file = .ok t) (hnew : file ∉ ix.catalogue.accepted) :
      Handled source ix file
        (⟨ix.catalogue.ingest file (parse t), ix.tally.ingest (parse t).length⟩,
          .ingested file (parse t).length)

section Handling

variable {source : Source} {ix : Index} {file : FileKey}

theorem handled : Handled source ix file (ix.handle source file) := by
  cases hread : source.read file with
  | error error =>
    rw [handle_of_error hread]
    exact .failed error hread
  | ok t =>
    by_cases hold : file ∈ ix.catalogue.accepted
    · have h : ix.handle source file = (⟨ix.catalogue, ix.tally.skip 1⟩, .refused file) := by
        simp only [handle, hread, ingest?_of_mem hold]
      rw [h]
      exact .refused t hread hold
    · have h : ix.handle source file = (⟨ix.catalogue.ingest file (parse t), ix.tally.ingest (parse t).length⟩,
          .ingested file (parse t).length) := by
        simp only [handle, hread, ingest?_of_not_mem hold, ingest_of_not_mem hold]
      rw [h]
      exact .ingested t hread hold

theorem handle_tally : (ix.handle source file).1.tally = ix.tally.count (ix.handle source file).2 := by
  have h : Handled source ix file (ix.handle source file) := handled
  generalize ix.handle source file = next at h
  cases h <;> rfl

/-- The tally has no say in what becomes of a file. -/
theorem handle_congr {ix' : Index} (h : ix.catalogue = ix'.catalogue) :
    (ix.handle source file).1.catalogue = (ix'.handle source file).1.catalogue ∧
      (ix.handle source file).2 = (ix'.handle source file).2 := by
  unfold handle
  rw [h]
  cases source.read file with
  | error error => exact ⟨rfl, rfl⟩
  | ok t => cases hi : ix'.catalogue.ingest? file (parse t) <;> simp [hi]

theorem size_ingest {c : Catalogue} {ds : List Declaration} (hnew : file ∉ c.accepted) :
    (c.ingest file ds).size = c.size + ds.length := by
  rw [ingest_of_not_mem hnew]
  unfold size
  rw [List.length_mergeSort, List.length_append]
  unfold Entry.ofFile
  rw [List.length_mapIdx]

end Handling

/-! ## 3. All pending files -/

/-- The failure that reading a file ends in. -/
def failedRead? (source : Source) (file : FileKey) : Option (FileKey × SourceError) :=
  match source.read file with
  | .error error => some (file, error)
  | .ok _ => none

/-- **The books**: outcomes, tally and catalogue after `order` has been handled from `ix` on. -/
structure Books (source : Source) (ix : Index) (order : List FileKey) (ix' : Index)
    (outcomes : List Outcome) : Prop where
  length : outcomes.length = order.length
  /-- The tally has counted the outcomes. -/
  tally : ix'.tally = outcomes.foldl Tally.count ix.tally
  /-- The failures are those of the source. -/
  failures : failuresOf outcomes = order.filterMap (failedRead? source)
  /-- The takings are what the catalogue has accepted. -/
  accepted : ix'.catalogue.accepted = ((takings outcomes).map Prod.fst).reverse ++ ix.catalogue.accepted
  /-- They have brought all declarations that it has more than before. -/
  size : ix'.catalogue.size = ix.catalogue.size + ((takings outcomes).map Prod.snd).sum
  /-- Every taking is a pending file and a text of the source. -/
  texts : ∀ p ∈ takings outcomes, p.1 ∈ order ∧ ∃ t, source.read p.1 = .ok t ∧ p.2 = (parse t).length
  /-- Every file that can be read has been taken in. -/
  known : ∀ file ∈ order, ∀ t, source.read file = .ok t → file ∈ ix'.catalogue.accepted

section All

variable {source : Source} {ix : Index} {file : FileKey} {order : List FileKey} {ix' : Index}
  {outcomes : List Outcome}

theorem books_nil : Books source ix [] ix [] where
  length := rfl
  tally := rfl
  failures := rfl
  accepted := rfl
  size := rfl
  texts _ h := absurd h List.not_mem_nil
  known _ h := absurd h List.not_mem_nil

/-- What has been accepted stays so. -/
theorem Books.subset (h : Books source ix order ix' outcomes) {g : FileKey} (hg : g ∈ ix.catalogue.accepted) :
    g ∈ ix'.catalogue.accepted := by
  rw [h.accepted]
  exact List.mem_append_right _ hg

/-- **Accepted are the files that were, and those that can be read.** -/
theorem Books.mem_accepted (h : Books source ix order ix' outcomes) {g : FileKey} :
    g ∈ ix'.catalogue.accepted ↔ g ∈ ix.catalogue.accepted ∨ (g ∈ order ∧ ∃ t, source.read g = .ok t) := by
  constructor
  · intro hg
    rw [h.accepted, List.mem_append, List.mem_reverse] at hg
    rcases hg with hg | hg
    · obtain ⟨p, hp, rfl⟩ := List.mem_map.mp hg
      obtain ⟨horder, t, ht, -⟩ := h.texts p hp
      exact Or.inr ⟨horder, t, ht⟩
    · exact Or.inl hg
  · rintro (hg | ⟨horder, t, ht⟩)
    · exact h.subset hg
    · exact h.known g horder t ht

/-- **A pending file more** keeps the books in order. -/
theorem Books.cons {next : Index × Outcome} (hfile : Handled source ix file next)
    (h : Books source next.1 order ix' outcomes) :
    Books source ix (file :: order) ix' (next.2 :: outcomes) := by
  have hlength : (next.2 :: outcomes).length = (file :: order).length := by
    rw [List.length_cons, List.length_cons, h.length]
  have htexts : ∀ p ∈ takings outcomes, p.1 ∈ file :: order ∧
      ∃ t, source.read p.1 = .ok t ∧ p.2 = (parse t).length :=
    fun p hp => ⟨List.mem_cons_of_mem _ (h.texts p hp).1, (h.texts p hp).2⟩
  cases hfile with
  | failed error hread =>
    refine ⟨hlength, h.tally, ?_, h.accepted, h.size, htexts, fun g hg t ht => ?_⟩
    · have hfailed : failedRead? source file = some (file, error) := by simp only [failedRead?, hread]
      rw [List.filterMap_cons_some hfailed, ← h.failures]
      rfl
    · rcases List.mem_cons.mp hg with rfl | hg
      · rw [hread] at ht
        cases ht
      · exact h.known g hg t ht
  | refused t hread hold =>
    have hfailed : failedRead? source file = none := by simp only [failedRead?, hread]
    refine ⟨hlength, h.tally, ?_, h.accepted, h.size, htexts, fun g hg t ht => ?_⟩
    · rw [List.filterMap_cons_none hfailed, ← h.failures]
      rfl
    · rcases List.mem_cons.mp hg with rfl | hg
      · exact h.subset hold
      · exact h.known g hg t ht
  | ingested t hread hnew =>
    have hfailed : failedRead? source file = none := by simp only [failedRead?, hread]
    refine ⟨hlength, h.tally, ?_, ?_, ?_, fun p hp => ?_, fun g hg t' ht => ?_⟩
    · rw [List.filterMap_cons_none hfailed, ← h.failures]
      rfl
    · rw [h.accepted, ingest_of_not_mem hnew]
      show _ = ((file :: (takings outcomes).map Prod.fst).reverse ++ _)
      rw [List.reverse_cons, List.append_assoc]
      rfl
    · rw [h.size, size_ingest hnew]
      show _ = _ + ((parse t).length :: (takings outcomes).map Prod.snd).sum
      rw [List.sum_cons, Nat.add_assoc]
    · rcases List.mem_cons.mp hp with rfl | hp
      · exact ⟨List.mem_cons_self, t, hread, rfl⟩
      · exact htexts p hp
    · rcases List.mem_cons.mp hg with rfl | hg
      · exact h.subset (mem_accepted_ingest.mpr (Or.inl rfl))
      · exact h.known g hg t' ht

/-- **The books are in order after any pending files**, from every index on. -/
theorem handleAll_books (source : Source) (ix : Index) (order : List FileKey) :
    Books source ix order (ix.handleAll source order).1 (ix.handleAll source order).2 := by
  induction order generalizing ix with
  | nil => exact books_nil
  | cons file order ih => exact Books.cons handled (ih (ix.handle source file).1)

/-- One pending file more, at the end. -/
theorem handleAll_concat (order : List FileKey) (file : FileKey) :
    ix.handleAll source (order ++ [file]) =
      (((ix.handleAll source order).1.handle source file).1,
        (ix.handleAll source order).2 ++ [((ix.handleAll source order).1.handle source file).2]) := by
  induction order generalizing ix with
  | nil => rfl
  | cons first order ih =>
    show (((ix.handle source first).1.handleAll source (order ++ [file])).1,
      (ix.handle source first).2 :: ((ix.handle source first).1.handleAll source (order ++ [file])).2) = _
    rw [ih]
    rfl

/-- **What the catalogue holds afterwards**: of a file that was new the declarations of its text. -/
theorem handleAll_holds {content : FileKey → List Declaration} (h : Holds content ix.catalogue)
    (hnew : ∀ file, file ∉ ix.catalogue.accepted → ∀ t, source.read file = .ok t → parse t = content file)
    (order : List FileKey) : Holds content (ix.handleAll source order).1.catalogue := by
  induction order generalizing ix with
  | nil => exact h
  | cons file order ih =>
    have hfile : Handled source ix file (ix.handle source file) := handled
    show Holds content ((ix.handle source file).1.handleAll source order).1.catalogue
    generalize ix.handle source file = next at hfile
    cases hfile with
    | failed error hread => exact ih h hnew
    | refused t hread hold => exact ih h hnew
    | ingested t hread hout =>
      refine ih (h.ingest fun _ => hnew file hout t hread) fun g hg => hnew g fun hold => hg ?_
      exact mem_accepted_ingest.mpr (Or.inr hold)

end All

end Index
end Ambient
