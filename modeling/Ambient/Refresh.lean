import Ambient.Catalogue
import Ambient.Parse
import Ambient.Source.Basic
import Ambient.Tally

/-!
# Refreshing

An index is a catalogue with the tally of its latest refresh. A refresh starts the tally anew, asks the
source for its files, skips those taken in before, and handles each PENDING file: it is read and, if that
succeeds, parsed and taken in. A file that cannot be read is left for the next refresh.

* If the source cannot list its files, only the tally has changed.
* A watched refresh reports each step; with its watcher gone it ends before the first pending file.
* A key that the source lists twice is refused the second time, and counts as skipped.
-/

namespace Ambient

/-- A catalogue with the tally of its latest refresh. -/
structure Index where
  catalogue : Catalogue
  tally : Tally
  deriving DecidableEq, Repr

/-- What became of a pending file. -/
inductive Outcome where
  /-- Taken in, with this number of declarations. -/
  | ingested (file : FileKey) (declarations : Nat)
  /-- Read, and refused by the catalogue. -/
  | refused (file : FileKey)
  | failed (file : FileKey) (error : SourceError)
  deriving DecidableEq, Repr

/-- A report to the watcher of a refresh. -/
inductive Update where
  | discovered (files : Nat)
  | ingested (file : FileKey) (declarations : Nat)
  | failed (file : FileKey) (error : SourceError)
  | complete (tally : Tally)
  deriving DecidableEq, Repr

/-- What a refresh leaves behind: its tally and the files that could not be read. -/
structure Report where
  tally : Tally
  failures : List (FileKey × SourceError)
  deriving DecidableEq, Repr

namespace Outcome

/-- The failure that an outcome is. -/
def failure? : Outcome → Option (FileKey × SourceError)
  | failed file error => some (file, error)
  | ingested _ _ | refused _ => none

/-- What the watcher is told. -/
def update? : Outcome → Option Update
  | ingested file declarations => some (.ingested file declarations)
  | failed file error => some (.failed file error)
  | refused _ => none

end Outcome

namespace Index

/-- An index without files. -/
def empty : Index := ⟨.empty, .zero⟩

/-! ## 1. Pending files -/

/-- Handles a pending file. -/
def handle (source : Source) (ix : Index) (file : FileKey) : Index × Outcome :=
  match source.read file with
  | .error error => ({ ix with tally := ix.tally.fail }, .failed file error)
  | .ok text =>
    let ds := parse text
    match ix.catalogue.ingest? file ds with
    | none => ({ ix with tally := ix.tally.skip 1 }, .refused file)
    | some catalogue => (⟨catalogue, ix.tally.ingest ds.length⟩, .ingested file ds.length)

/-- Handles pending files one after the other. -/
def handleAll (source : Source) (ix : Index) : List FileKey → Index × List Outcome
  | [] => (ix, [])
  | file :: files =>
    let (ix, outcome) := ix.handle source file
    let (ix, outcomes) := handleAll source ix files
    (ix, outcome :: outcomes)

/-- The listed files that have not been taken in. -/
def pendingFiles (ix : Index) (files : List FileKey) : List FileKey :=
  files.filter fun file => !ix.catalogue.containsFile file

/-- The index with the tally of a refresh that has just been told of these files. -/
def begin (ix : Index) (files : List FileKey) : Index :=
  let skipped := files.length - (ix.pendingFiles files).length
  { ix with tally := (Tally.zero.discover files.length).skip skipped }

/-! ## 2. Refreshes -/

/-- Refreshes the index. -/
def refresh (ix : Index) (source : Source) : Index × Except SourceError Report :=
  match source.discover with
  | .error error => ({ ix with tally := .zero }, .error error)
  | .ok files =>
    let (ix, outcomes) := (ix.begin files).handleAll source (ix.pendingFiles files)
    (ix, .ok ⟨ix.tally, outcomes.filterMap Outcome.failure?⟩)

/-- Refreshes the index before the eyes of a watcher, who is told of the listing first, then of each pending
    file, and of the tally last. -/
def refreshWatched (ix : Index) (source : Source) : Index × Except SourceError (List Update) :=
  match source.discover with
  | .error error => ({ ix with tally := .zero }, .error error)
  | .ok files =>
    let (ix, outcomes) := (ix.begin files).handleAll source (ix.pendingFiles files)
    (ix, .ok (.discovered files.length :: outcomes.filterMap Outcome.update? ++ [.complete ix.tally]))

/-- A watched refresh whose watcher has gone. -/
def refreshUnwatched (ix : Index) (source : Source) : Index × Except SourceError (List Update) :=
  match source.discover with
  | .error error => ({ ix with tally := .zero }, .error error)
  | .ok files => (ix.begin files, .ok [])

end Index
end Ambient
