import Ambient.Proofs.Refresh.Books
import Mathlib.Logic.Relation

/-!
# Workers

The pending files of a watched refresh are handled by several workers at once. With each file a worker takes
three steps: it reads the file and offers what it has read to the catalogue, which takes one file at a time;
it has the outcome counted; and it tells the watcher. Between two steps for one file there may be any number
of steps for others, so outcomes are neither counted nor told in the order in which they were decided.

* `Crew.Step`: one step of one worker;
* `Linear`: the invariant. The files decided so far could have been handled one after the other, in the order
  of the decisions; the tally and the watcher know of some of the outcomes;
* `exists_order`: **every run ends as if the files had been handled one after the other**, in some order;
* `exists_run`: every order is that of some run.
-/

namespace Ambient

open Relation

/-- How far a worker has got with a pending file. -/
inductive Task where
  | waiting (file : FileKey)
  /-- The file has been read and, if that succeeded, offered to the catalogue. -/
  | decided (outcome : Outcome)
  /-- The tally has counted the outcome. -/
  | counted (outcome : Outcome)
  /-- The watcher has been told. -/
  | told (outcome : Outcome)

namespace Task

def file? : Task → Option FileKey
  | waiting file => some file
  | decided _ | counted _ | told _ => none

/-- The outcome, once it is decided. -/
def outcome? : Task → Option Outcome
  | waiting _ => none
  | decided outcome | counted outcome | told outcome => some outcome

/-- The outcome, once it is counted. -/
def counted? : Task → Option Outcome
  | waiting _ | decided _ => none
  | counted outcome | told outcome => some outcome

/-- The outcome, once the watcher has been told. -/
def told? : Task → Option Outcome
  | waiting _ | decided _ | counted _ => none
  | told outcome => some outcome

def isTold (task : Task) : Bool := task.told?.isSome

theorem exists_eq_told {task : Task} (h : task.isTold = true) : ∃ outcome, task = .told outcome := by
  cases task with
  | told outcome => exact ⟨outcome, rfl⟩
  | waiting | decided | counted => exact absurd h Bool.false_ne_true

end Task

/-- Workers at their tasks, with the index they share. -/
structure Crew where
  index : Index
  tasks : List Task
  /-- What the watcher has been told, in this order. -/
  updates : List Update

namespace Crew

/-- Before the first step. -/
def start (ix : Index) (files : List FileKey) : Crew := ⟨ix, files.map Task.waiting, []⟩

/-- **One step of one worker.** -/
inductive Step (source : Source) : Crew → Crew → Prop where
  | decide (ix : Index) (before behind : List Task) (updates : List Update) (file : FileKey) :
      Step source ⟨ix, before ++ .waiting file :: behind, updates⟩
        ⟨⟨(ix.handle source file).1.catalogue, ix.tally⟩,
          before ++ .decided (ix.handle source file).2 :: behind, updates⟩
  | count (ix : Index) (before behind : List Task) (updates : List Update) (outcome : Outcome) :
      Step source ⟨ix, before ++ .decided outcome :: behind, updates⟩
        ⟨⟨ix.catalogue, ix.tally.count outcome⟩, before ++ .counted outcome :: behind, updates⟩
  | tell (ix : Index) (before behind : List Task) (updates : List Update) (outcome : Outcome) :
      Step source ⟨ix, before ++ .counted outcome :: behind, updates⟩
        ⟨ix, before ++ .told outcome :: behind, updates ++ outcome.update?.toList⟩

/-- Steps, one after the other. -/
def Runs (source : Source) : Crew → Crew → Prop := ReflTransGen (Step source)

/-- All is done. -/
def IsDone (crew : Crew) : Prop := ∀ task ∈ crew.tasks, task.isTold = true

/-! ## 1. Every run is an order -/

/-- **The invariant**, of a crew that started from `ix` with `files`. -/
structure Linear (source : Source) (ix : Index) (files : List FileKey) (crew : Crew) : Prop where
  /-- What is decided has been decided in some order. -/
  decided : ∃ order, (order ++ crew.tasks.filterMap Task.file?).Perm files ∧
    crew.index.catalogue = (ix.handleAll source order).1.catalogue ∧
    (ix.handleAll source order).2.Perm (crew.tasks.filterMap Task.outcome?)
  /-- The tally has counted what is counted. -/
  counted : crew.index.tally = (crew.tasks.filterMap Task.counted?).foldl Tally.count ix.tally
  /-- The watcher has been told what is told. -/
  told : crew.updates.Perm ((crew.tasks.filterMap Task.told?).filterMap Outcome.update?)

section Invariant

variable {source : Source} {ix : Index} {files : List FileKey} {crew crew' : Crew}

theorem linear_start (source : Source) (ix : Index) (files : List FileKey) :
    Linear source ix files (start ix files) := by
  have hnone : ∀ {α : Type} (f : Task → Option α), (∀ file, f (.waiting file) = none) →
      (files.map Task.waiting).filterMap f = [] := by
    intro α f hf
    rw [List.filterMap_map]
    exact List.filterMap_eq_nil_iff.mpr fun file _ => hf file
  refine ⟨⟨[], ?_, rfl, ?_⟩, ?_, ?_⟩
  · show ((files.map Task.waiting).filterMap Task.file?).Perm files
    rw [List.filterMap_map, show Task.file? ∘ Task.waiting = some from rfl, List.filterMap_some]
  · rw [start, hnone _ fun _ => rfl]
    exact .nil
  · rw [start, hnone _ fun _ => rfl]
    rfl
  · rw [start, hnone _ fun _ => rfl]
    exact .nil

theorem perm_insert {α : Type} (before behind : List α) (a : α) :
    (before ++ behind ++ [a]).Perm (before ++ a :: behind) :=
  (List.perm_append_singleton _ _).trans List.perm_middle.symm

/-- What is seen of one task among others. -/
theorem filterMap_split {α : Type} (f : Task → Option α) (before behind : List Task) (task : Task) :
    (before ++ task :: behind).filterMap f = before.filterMap f ++ ((f task).toList ++ behind.filterMap f) := by
  rw [List.filterMap_append]
  cases h : f task with
  | none => rw [List.filterMap_cons_none h]; rfl
  | some a => rw [List.filterMap_cons_some h]; rfl

/-- **Every step keeps the invariant.** -/
theorem Linear.step (h : Linear source ix files crew) (hstep : Step source crew crew') :
    Linear source ix files crew' := by
  obtain ⟨⟨order, hfiles, hcatalogue, houtcomes⟩, hcounted, htold⟩ := h
  cases hstep with
  | decide ix' before behind updates file =>
    simp only [filterMap_split] at hfiles houtcomes hcounted htold
    -- the outcome does not depend on the tally, which lags behind
    have hsame : (ix'.handle source file).1.catalogue =
          ((ix.handleAll source order).1.handle source file).1.catalogue ∧
        (ix'.handle source file).2 = ((ix.handleAll source order).1.handle source file).2 :=
      Index.handle_congr hcatalogue
    obtain ⟨hnext, houtcome⟩ := hsame
    refine ⟨⟨order ++ [file], ?_, ?_, ?_⟩, ?_, ?_⟩
    · rw [filterMap_split, List.append_assoc]
      show (order ++ file :: (before.filterMap Task.file? ++ behind.filterMap Task.file?)).Perm files
      exact (List.perm_middle.symm.append_left order).trans hfiles
    · rw [Index.handleAll_concat]
      exact hnext
    · rw [Index.handleAll_concat, filterMap_split, ← houtcome]
      exact (houtcomes.append_right _).trans (perm_insert _ _ _)
    all_goals rw [filterMap_split]
    · exact hcounted
    · exact htold
  | count ix' before behind updates outcome =>
    simp only [filterMap_split] at hfiles houtcomes hcounted htold
    refine ⟨⟨order, ?_, hcatalogue, ?_⟩, ?_, ?_⟩
    all_goals rw [filterMap_split]
    · exact hfiles
    · exact houtcomes
    · show ix'.tally.count outcome =
        (before.filterMap Task.counted? ++ outcome :: behind.filterMap Task.counted?).foldl Tally.count ix.tally
      rw [← Tally.foldl_count_perm (perm_insert _ _ outcome), List.foldl_concat,
        show ix'.tally = _ from hcounted]
      rfl
    · exact htold
  | tell ix' before behind updates outcome =>
    simp only [filterMap_split] at hfiles houtcomes hcounted htold
    refine ⟨⟨order, ?_, hcatalogue, ?_⟩, ?_, ?_⟩
    all_goals rw [filterMap_split]
    · exact hfiles
    · exact houtcomes
    · exact hcounted
    · have hone : outcome.update?.toList = [outcome].filterMap Outcome.update? := by
        cases outcome <;> rfl
      refine List.Perm.trans ?_ ((perm_insert _ _ outcome).filterMap _)
      rw [hone, List.filterMap_append]
      exact htold.append_right _

theorem linear_of_runs (h : Runs source (start ix files) crew) : Linear source ix files crew := by
  induction h with
  | refl => exact linear_start source ix files
  | tail _ hstep ih => exact ih.step hstep

/-- When all is done, tasks are told apart by their outcomes only. -/
theorem IsDone.filterMap_congr {α : Type} {f g : Task → Option α} (h : crew.IsDone)
    (hfg : ∀ outcome, f (.told outcome) = g (.told outcome)) :
    crew.tasks.filterMap f = crew.tasks.filterMap g := by
  refine List.filterMap_congr fun task htask => ?_
  obtain ⟨outcome, rfl⟩ := Task.exists_eq_told (h task htask)
  exact hfg outcome

/-- **Every run ends as if the files had been handled one after the other.** The watcher has been told the
    same, though in an order of its own. -/
theorem exists_order (h : Runs source (start ix files) crew) (hdone : crew.IsDone) :
    ∃ order, order.Perm files ∧ crew.index = (ix.handleAll source order).1 ∧
      crew.updates.Perm ((ix.handleAll source order).2.filterMap Outcome.update?) := by
  obtain ⟨⟨order, hfiles, hcatalogue, houtcomes⟩, hcounted, htold⟩ := linear_of_runs h
  have hfile : crew.tasks.filterMap Task.file? = [] :=
    (hdone.filterMap_congr (g := fun _ => none) fun _ => rfl).trans (List.filterMap_none _)
  have hcount : crew.tasks.filterMap Task.counted? = crew.tasks.filterMap Task.outcome? :=
    hdone.filterMap_congr fun _ => rfl
  have htell : crew.tasks.filterMap Task.told? = crew.tasks.filterMap Task.outcome? :=
    hdone.filterMap_congr fun _ => rfl
  rw [hfile, List.append_nil] at hfiles
  rw [hcount, ← Tally.foldl_count_perm houtcomes] at hcounted
  rw [htell] at htold
  refine ⟨order, hfiles, ?_, htold.trans (houtcomes.symm.filterMap _)⟩
  have htally := (Index.handleAll_books source ix order).tally
  rw [← hcounted] at htally
  rw [Index.mk.injEq]
  exact ⟨hcatalogue, htally.symm⟩

end Invariant

/-! ## 2. Every order is a run -/

section Existence

variable {source : Source}

/-- A single worker that takes a file through all its steps. -/
theorem runs_handle (ix : Index) (before behind : List Task) (updates : List Update) (file : FileKey) :
    Runs source ⟨ix, before ++ .waiting file :: behind, updates⟩
      ⟨(ix.handle source file).1, before ++ .told (ix.handle source file).2 :: behind,
        updates ++ (ix.handle source file).2.update?.toList⟩ := by
  have hcount : Step source
      ⟨⟨(ix.handle source file).1.catalogue, ix.tally⟩,
        before ++ .decided (ix.handle source file).2 :: behind, updates⟩
      ⟨⟨(ix.handle source file).1.catalogue, ix.tally.count (ix.handle source file).2⟩,
        before ++ .counted (ix.handle source file).2 :: behind, updates⟩ := .count _ before behind updates _
  rw [← Index.handle_tally] at hcount
  exact ((ReflTransGen.single (.decide ix before behind updates file)).tail hcount).tail (.tell _ _ _ _ _)

/-- **Every order is that of some run.** -/
theorem exists_run {order : List FileKey} (ix : Index) {tasks : List Task} (updates : List Update)
    (hperm : order.Perm (tasks.filterMap Task.file?))
    (htasks : ∀ task ∈ tasks, task.file?.isSome = true ∨ task.isTold = true) :
    ∃ tasks', (∀ task ∈ tasks', task.isTold = true) ∧
      Runs source ⟨ix, tasks, updates⟩ ⟨(ix.handleAll source order).1, tasks',
        updates ++ (ix.handleAll source order).2.filterMap Outcome.update?⟩ := by
  induction order generalizing ix tasks updates with
  | nil =>
    refine ⟨tasks, fun task htask => (htasks task htask).resolve_left fun hsome => ?_, ?_⟩
    · obtain ⟨file, hfile⟩ := Option.isSome_iff_exists.mp hsome
      have hmem : file ∈ tasks.filterMap Task.file? := List.mem_filterMap.mpr ⟨task, htask, hfile⟩
      rw [← hperm.mem_iff] at hmem
      exact absurd hmem List.not_mem_nil
    · rw [show (ix.handleAll source []).2.filterMap Outcome.update? = [] from rfl, List.append_nil]
      exact ReflTransGen.refl
  | cons file order ih =>
    have hmem : file ∈ tasks.filterMap Task.file? := hperm.mem_iff.mp List.mem_cons_self
    obtain ⟨task, htask, hfile⟩ := List.mem_filterMap.mp hmem
    obtain rfl : task = .waiting file := by
      cases task with
      | waiting g => rw [Option.some.inj hfile]
      | decided | counted | told => cases hfile
    obtain ⟨before, behind, rfl⟩ := List.append_of_mem htask
    have hperm' : order.Perm ((before ++ .told (ix.handle source file).2 :: behind).filterMap Task.file?) := by
      rw [filterMap_split] at hperm ⊢
      exact (hperm.trans List.perm_middle).cons_inv
    have htasks' : ∀ task ∈ before ++ .told (ix.handle source file).2 :: behind,
        task.file?.isSome = true ∨ task.isTold = true := by
      intro task htask
      rcases List.mem_append.mp htask with h | h
      · exact htasks task (List.mem_append_left _ h)
      · rcases List.mem_cons.mp h with rfl | h
        · exact Or.inr rfl
        · exact htasks task (List.mem_append_right _ (List.mem_cons_of_mem _ h))
    obtain ⟨tasks', hdone, hruns⟩ :=
      ih (ix.handle source file).1 (updates ++ (ix.handle source file).2.update?.toList) hperm' htasks'
    refine ⟨tasks', hdone, (runs_handle ix before behind updates file).trans ?_⟩
    have hupdates : updates ++ (ix.handleAll source (file :: order)).2.filterMap Outcome.update? =
        updates ++ (ix.handle source file).2.update?.toList ++
          ((ix.handle source file).1.handleAll source order).2.filterMap Outcome.update? := by
      show updates ++ ((ix.handle source file).2 :: _).filterMap Outcome.update? = _
      rw [List.append_assoc]
      cases (ix.handle source file).2 <;> rfl
    rw [hupdates]
    exact hruns

end Existence

end Crew
end Ambient
