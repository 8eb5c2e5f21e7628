import Ambient.Proofs.Catalogue.Ingest
import Ambient.Refresh

/-!
# What a refresh adds to the catalogue

A refresh adds to the catalogue exactly the files that were not in it and that its source OFFERS, that is,
lists and can read; the order in which it gets through them is of no account.

* `Keeps texts c`: the catalogue `c` holds, of every file with a text in `texts`, the declarations of that
  text, and nothing else;
* `Keeps.ingest`, `Keeps.handleAll`: a file whose text is known keeps it, any other takes the text it is
  offered;
* `refresh_keeps`, `refreshWatchedBy_keeps`: so it is after a whole refresh, watched or not;
* `refresh_of_error`, `refreshWatchedBy_of_error`, `refreshUnwatched_catalogue`: the refreshes that leave
  the catalogue alone;
* `handleAll_outcome`: every pending file is dealt with, and the outcome names it.
-/

namespace Ambient

/-- The text that a source offers for a file: it lists the file and can read it. -/
def Source.offer? (source : Source) (file : FileKey) : Option Text :=
  match source.discover with
  | .error _ => none
  | .ok files => if file ∈ files then (source.read file).toOption else none

/-- The texts known, and for a file without one the text it is offered. -/
def knowing (texts offered : FileKey → Option Text) (file : FileKey) : Option Text :=
  (texts file).or (offered file)

/-! ## 1. Catalogues that keep texts -/

namespace Catalogue

/-- **What a catalogue keeps**: the declarations of the known texts, and no other file. -/
structure Keeps (texts : FileKey → Option Text) (c : Catalogue) : Prop where
  holds : Holds (fun file => parse ((texts file).getD [])) c
  accepted : ∀ file, file ∈ c.accepted ↔ (texts file).isSome = true

section Keeping

variable {texts : FileKey → Option Text} {c : Catalogue}

theorem keeps_empty : Keeps (fun _ => none) empty where
  holds := holds_empty
  accepted file := by simp [empty]

/-- **A file keeps the text it is known by, and a new one takes the text it comes with.** -/
theorem Keeps.ingest (h : Keeps texts c) (file : FileKey) (t : Text) :
    Keeps (knowing texts fun g => if g = file then some t else none) (c.ingest file (parse t)) := by
  have hkeep : ∀ g ∈ c.accepted,
      knowing texts (fun g => if g = file then some t else none) g = texts g := by
    intro g hg
    obtain ⟨s, hs⟩ := Option.isSome_iff_exists.mp ((h.accepted g).mp hg)
    simp only [knowing, hs, Option.some_or]
  refine ⟨Holds.ingest (h.holds.congr fun g hg => by rw [hkeep g hg]) fun hnew => ?_, fun g => ?_⟩
  · have hnone : texts file = none := by
      rw [← Option.not_isSome_iff_eq_none]
      exact fun hs => hnew ((h.accepted file).mpr hs)
    simp [knowing, hnone]
  · rw [mem_accepted_ingest, h.accepted g]
    by_cases hg : g = file
    · simp [knowing, hg]
    · simp [knowing, hg]

/-- Two catalogues that keep the same texts agree. -/
theorem Keeps.agree {c' : Catalogue} (h : Keeps texts c) (h' : Keeps texts c') : Agree c c' :=
  h.holds.agree h'.holds fun file => (h.accepted file).trans (h'.accepted file).symm

end Keeping

end Catalogue

/-! ## 2. Pending files -/

namespace Index

open Catalogue

section Handling

variable {source : Source} {texts : FileKey → Option Text} {ix : Index}

theorem handle_of_error {file : FileKey} {error : SourceError} (h : source.read file = .error error) :
    ix.handle source file = ({ ix with tally := ix.tally.fail }, .failed file error) := by
  unfold handle
  rw [h]

theorem handle_of_ok {file : FileKey} {t : Text} (h : source.read file = .ok t) :
    (ix.handle source file).1.catalogue = ix.catalogue.ingest file (parse t) := by
  unfold handle Catalogue.ingest
  rw [h]
  cases hi : ix.catalogue.ingest? file (parse t) <;> simp [hi]

/-- One pending file: its text is known afterwards if it can be read. -/
theorem handle_keeps (h : Keeps texts ix.catalogue) (file : FileKey) :
    Keeps (knowing texts fun g => if g = file then (source.read file).toOption else none)
      (ix.handle source file).1.catalogue := by
  cases hread : source.read file with
  | error error =>
    rw [handle_of_error hread]
    have e : (knowing texts fun g => if g = file then (Except.error error).toOption else none) = texts := by
      funext g
      simp [knowing, Except.toOption]
    rw [e]
    exact h
  | ok t =>
    rw [handle_of_ok hread]
    exact h.ingest file t

/-- Pending files one after the other, in any order and with any repetitions. -/
theorem handleAll_keeps (files : List FileKey) (h : Keeps texts ix.catalogue) :
    Keeps (knowing texts fun g => if g ∈ files then (source.read g).toOption else none)
      (ix.handleAll source files).1.catalogue := by
  induction files generalizing ix texts with
  | nil =>
    have e : (knowing texts fun g => if g ∈ ([] : List FileKey) then (source.read g).toOption else none) =
        texts := by
      funext g
      simp [knowing]
    rw [e]
    exact h
  | cons file files ih =>
    have e : (knowing texts fun g => if g ∈ file :: files then (source.read g).toOption else none) =
        knowing (knowing texts fun g => if g = file then (source.read file).toOption else none)
          fun g => if g ∈ files then (source.read g).toOption else none := by
      funext g
      by_cases hg : g = file
      · subst hg
        by_cases hmem : g ∈ files <;> simp [knowing, hmem, Option.or_assoc]
      · simp [knowing, hg]
    rw [e]
    exact ih (handle_keeps h file)

/-- **Every pending file is dealt with**: it can be read and is accepted afterwards, or its failure is
    reported. -/
theorem handleAll_outcome {files : List FileKey} {file : FileKey} {error : SourceError} (hmem : file ∈ files)
    (hread : source.read file = .error error) :
    Outcome.failed file error ∈ (ix.handleAll source files).2 := by
  induction files generalizing ix with
  | nil => exact absurd hmem List.not_mem_nil
  | cons f files ih =>
    show _ ∈ (ix.handle source f).2 :: ((ix.handle source f).1.handleAll source files).2
    rcases List.mem_cons.mp hmem with rfl | hmem
    · rw [handle_of_error hread]
      exact List.mem_cons_self
    · exact List.mem_cons_of_mem _ (ih hmem)

end Handling

theorem mem_pendingFiles {ix : Index} {files : List FileKey} {file : FileKey} :
    file ∈ ix.pendingFiles files ↔ file ∈ files ∧ file ∉ ix.catalogue.accepted := by
  unfold pendingFiles
  rw [List.mem_filter, Bool.not_eq_true', ← Bool.not_eq_true, containsFile_iff]

/-! ## 3. Whole refreshes -/

/-- The order in which the workers of a watched refresh get through the pending files. -/
structure Schedule where
  arrange : List FileKey → List FileKey
  perm : ∀ files, (arrange files).Perm files

/-- The workers keep to the listing. -/
def Schedule.listed : Schedule := ⟨id, fun _ => .refl _⟩

/-- A watched refresh whose workers get through the pending files in the order of the schedule. -/
def refreshWatchedBy (schedule : Schedule) (ix : Index) (source : Source) :
    Index × Except SourceError (List Update) :=
  match source.discover with
  | .error error => ({ ix with tally := .zero }, .error error)
  | .ok files =>
    let (ix, outcomes) := (ix.begin files).handleAll source (schedule.arrange (ix.pendingFiles files))
    (ix, .ok (.discovered files.length :: outcomes.filterMap Outcome.update? ++ [.complete ix.tally]))

/-- A watched refresh with a single worker is one that keeps to the listing. -/
theorem refreshWatched_eq (ix : Index) (source : Source) :
    ix.refreshWatched source = ix.refreshWatchedBy .listed source := rfl

section Refresh

variable {source : Source} {texts : FileKey → Option Text} {ix : Index}

theorem refresh_of_error {error : SourceError} (h : source.discover = .error error) :
    ix.refresh source = ({ ix with tally := .zero }, .error error) := by
  unfold refresh
  rw [h]

theorem refreshWatchedBy_of_error {schedule : Schedule} {error : SourceError}
    (h : source.discover = .error error) :
    ix.refreshWatchedBy schedule source = ({ ix with tally := .zero }, .error error) := by
  unfold refreshWatchedBy
  rw [h]

theorem refresh_of_ok {files : List FileKey} (h : source.discover = .ok files) :
    (ix.refresh source).1 = ((ix.begin files).handleAll source (ix.pendingFiles files)).1 := by
  unfold refresh
  rw [h]

theorem refreshWatchedBy_of_ok {schedule : Schedule} {files : List FileKey}
    (h : source.discover = .ok files) :
    (ix.refreshWatchedBy schedule source).1 =
      ((ix.begin files).handleAll source (schedule.arrange (ix.pendingFiles files))).1 := by
  unfold refreshWatchedBy
  rw [h]

/-- A refresh whose watcher has gone leaves the catalogue alone. -/
theorem refreshUnwatched_catalogue : (ix.refreshUnwatched source).1.catalogue = ix.catalogue := by
  unfold refreshUnwatched
  cases source.discover <;> rfl

/-- Getting through the pending files in any order adds what the source offers. -/
theorem pending_keeps {files order : List FileKey} (hd : source.discover = .ok files)
    (ho : order.Perm (ix.pendingFiles files)) (h : Keeps texts ix.catalogue) :
    Keeps (knowing texts source.offer?) ((ix.begin files).handleAll source order).1.catalogue := by
  have hbegin : Keeps texts (ix.begin files).catalogue := h
  have hall : Keeps (knowing texts fun g => if g ∈ order then (source.read g).toOption else none)
      ((ix.begin files).handleAll source order).1.catalogue := handleAll_keeps order hbegin
  have e : (knowing texts fun g => if g ∈ order then (source.read g).toOption else none) =
      knowing texts source.offer? := by
    funext g
    have hg : g ∈ order ↔ g ∈ files ∧ ¬(texts g).isSome = true := by
      rw [ho.mem_iff, mem_pendingFiles, h.accepted]
    cases ht : texts g with
    | some t => simp [knowing, ht]
    | none => simp [knowing, ht, hg, Source.offer?, hd]
  rw [e] at hall
  exact hall

theorem offer?_of_error {error : SourceError} (h : source.discover = .error error) :
    knowing texts source.offer? = texts := by
  funext g
  simp [knowing, Source.offer?, h]

/-- **After a refresh a file is known by the text it was known by before, or by the one it is offered.** -/
theorem refresh_keeps (h : Keeps texts ix.catalogue) :
    Keeps (knowing texts source.offer?) (ix.refresh source).1.catalogue := by
  cases hd : source.discover with
  | error error =>
    rw [refresh_of_error hd, offer?_of_error hd]
    exact h
  | ok files =>
    rw [refresh_of_ok hd]
    exact pending_keeps hd (.refl _) h

/-- **The same after a watched refresh**, whichever worker is faster. -/
theorem refreshWatchedBy_keeps (schedule : Schedule) (h : Keeps texts ix.catalogue) :
    Keeps (knowing texts source.offer?) (ix.refreshWatchedBy schedule source).1.catalogue := by
  cases hd : source.discover with
  | error error =>
    rw [refreshWatchedBy_of_error hd, offer?_of_error hd]
    exact h
  | ok files =>
    rw [refreshWatchedBy_of_ok hd]
    exact pending_keeps hd (schedule.perm _) h

end Refresh

end Index
end Ambient
