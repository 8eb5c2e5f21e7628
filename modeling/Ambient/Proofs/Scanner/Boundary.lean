import Ambient.Parse
import Ambient.Proofs.Scanner.Heading

/-!
# Files one behind the other

What the scanner has closed it never looks at again, so a scanner with closed declarations runs like one without
(`feedAll_behind`). At a heading, with nothing open and no comment waiting, that is all in which it differs from a
fresh one (`feed_heading`).

* `feedAll_boundary`: behind such a place the scanner is a fresh one, with the earlier declarations before its own;
* `scan_append`: two files, of which the first leaves nothing open, are scanned one by one;
* `scan_flatten`: so are any number of them.
-/

namespace Ambient

namespace Scanner

/-! ## 1. Closed declarations -/

/-- The scanner, with other declarations closed before its own. -/
def behind (ds : List Declaration) (s : Scanner) : Scanner := { s with closed := ds ++ s.closed }

section Behind

variable (ds : List Declaration) (s : Scanner) (line : Text)

theorem close_behind : (s.behind ds).close = s.close.behind ds := by
  cases hd : s.draft? with
  | none =>
    rw [close_of_none hd]
    exact close_of_none hd
  | some draft =>
    have hd' : (s.behind ds).draft? = some draft := hd
    rw [close_of_some hd, close_of_some hd']
    unfold behind
    rw [← List.append_assoc]

theorem remark_behind : (s.behind ds).remark line = (s.remark line).behind ds := by
  unfold remark
  split <;> rfl

theorem collect_behind (draft : Draft) : (s.behind ds).collect draft line = (s.collect draft line).behind ds := by
  unfold collect
  dsimp only
  split
  · exact close_behind ds { s with draft? := some (draft.push line) }
  · rfl

theorem continueWith_behind : (s.behind ds).continueWith line = (s.continueWith line).behind ds := by
  unfold continueWith
  cases hd : s.draft? with
  | none =>
    have hd' : (s.behind ds).draft? = none := hd
    simp only [hd']
    split
    · rfl
    · exact remark_behind ds s line
  | some draft =>
    have hd' : (s.behind ds).draft? = some draft := hd
    have hclose := close_behind ds { s with draft? := some (draft.push line) }
    simp only [hd']
    split
    · exact congrArg (fun s : Scanner => { s with comment := [] }) hclose
    · split
      · rw [close_behind, remark_behind]
      · exact collect_behind ds s line draft

theorem member_behind : (s.behind ds).member line = (s.member line).behind ds := by
  unfold member
  have hpath : (s.behind ds).path? = s.path? := rfl
  rw [hpath]
  split
  · rw [close_behind, collect_behind]
  · exact continueWith_behind ds s line

theorem feed_behind : (s.behind ds).feed line = (s.feed line).behind ds := by
  have hpath : (s.behind ds).path? = s.path? := rfl
  unfold feed
  split
  · rfl
  · rw [hpath]
    split
    · rename_i heading _
      dsimp only
      split
      · exact member_behind ds { s with path? := some heading.path } _
      · rfl
    · split
      · exact member_behind ds s line
      · exact remark_behind ds s line

/-- **A scanner runs the same with closed declarations before its own.** -/
theorem feedAll_behind (lines : List Text) : (s.behind ds).feedAll lines = (s.feedAll lines).behind ds := by
  induction lines generalizing s with
  | nil => rfl
  | cons line lines ih =>
    show ((s.behind ds).feed line).feedAll lines = ((s.feed line).feedAll lines).behind ds
    rw [feed_behind, ih]

theorem finish_behind : (s.behind ds).finish = ds ++ s.finish := by
  unfold finish
  rw [close_behind]
  rfl

end Behind

/-! ## 2. Boundaries -/

/-- Nothing is open, and no comment waits. -/
def AtRest (s : Scanner) : Prop := s.draft? = none ∧ s.comment = []

instance (s : Scanner) : Decidable s.AtRest := inferInstanceAs (Decidable (_ ∧ _))

/-- Lines that begin with a heading. -/
def StartsWithHeading (lines : List Text) : Prop := ∃ first ∈ lines.head?, (Heading.read? first).isSome = true

instance (lines : List Text) : Decidable (StartsWithHeading lines) :=
  inferInstanceAs (Decidable (∃ first ∈ lines.head?, _))

section Boundary

variable {s : Scanner} {A B : List Text}

/-- **At a heading a scanner at rest is a fresh one**, apart from what it has closed. -/
theorem feed_heading (hs : s.AtRest) {line : Text} {heading : Heading} (h : Heading.read? line = some heading) :
    s.feed line = (fresh.feed line).behind s.closed := by
  have hset : { s with path? := some heading.path } =
      behind s.closed { fresh with path? := some heading.path } := by
    obtain ⟨path?, draft?, comment, closed⟩ := s
    obtain ⟨rfl, rfl⟩ := hs
    unfold behind fresh
    rw [List.append_nil]
  unfold feed
  rw [Heading.isSkipped_of_read? h, if_neg Bool.false_ne_true, if_neg Bool.false_ne_true, h]
  dsimp only
  split
  · rw [hset]
    exact member_behind _ _ _
  · exact hset

theorem finish_of_atRest (hs : s.AtRest) : s.finish = s.closed := by
  unfold finish
  rw [close_of_none hs.1]

/-- **Behind the boundary the scanner is a fresh one**, with the declarations of the first file before its own. -/
theorem feedAll_boundary (hA : (fresh.feedAll A).AtRest) (hB : StartsWithHeading B) :
    fresh.feedAll (A ++ B) = (fresh.feedAll B).behind (scan A) := by
  obtain ⟨first, hfirst, hsome⟩ := hB
  obtain ⟨heading, hheading⟩ := Option.isSome_iff_exists.mp hsome
  obtain ⟨rest, rfl⟩ : ∃ rest, B = first :: rest := by
    cases B with
    | nil => cases hfirst
    | cons line rest => exact ⟨rest, by rw [Option.some.inj hfirst]⟩
  have hscan : scan A = (fresh.feedAll A).closed := finish_of_atRest hA
  rw [feedAll_append, hscan]
  show ((fresh.feedAll A).feed first).feedAll rest = _
  rw [feed_heading hA hheading, feedAll_behind]
  rfl

/-- **Files that are scanned in one go give the declarations of each**, in order, if the first leaves nothing open
    and the second begins with a heading; and they leave nothing open if the second does not. -/
theorem scan_append (hA : (fresh.feedAll A).AtRest) (hB : StartsWithHeading B) :
    scan (A ++ B) = scan A ++ scan B ∧ ((fresh.feedAll B).AtRest → (fresh.feedAll (A ++ B)).AtRest) := by
  have hboundary := feedAll_boundary hA hB
  constructor
  · show (fresh.feedAll (A ++ B)).finish = _
    rw [hboundary, finish_behind]
    rfl
  · intro hrest
    rw [hboundary]
    exact hrest

/-- A file with a comment before its heading and one before its class. -/
def closedFile : List Text :=
  ["// A".toList, "namespace CG.A \x7b".toList, "    // x".toList, "    export declare class X \x7b".toList,
    "    \x7d".toList, "\x7d".toList]

/-- A file with a constant behind its heading, which ends inside an interface. -/
def openFile : List Text :=
  ["export namespace B \x7b export declare const y: T;".toList, "    /* z".toList,
    "    export interface Z \x7b".toList]

theorem scan_append_openFile : (fresh.feedAll closedFile).AtRest ∧ StartsWithHeading openFile ∧
    (scan (closedFile ++ openFile)).map Declaration.qualifiedName =
      ["CG.A.X".toList, "B.y".toList, "B.Z".toList] := by
  have hA : (fresh.feedAll closedFile).AtRest := by decide
  have hB : StartsWithHeading openFile := by decide
  exact ⟨hA, hB, (congrArg (List.map Declaration.qualifiedName) (scan_append hA hB).1).trans (by decide)⟩

/-- A file that can stand behind others, and others behind it. -/
structure IsWhole (file : List Text) : Prop where
  heading : StartsWithHeading file
  atRest : (fresh.feedAll file).AtRest

theorem startsWithHeading_append (hA : StartsWithHeading A) : StartsWithHeading (A ++ B) := by
  obtain ⟨first, hfirst, hsome⟩ := hA
  refine ⟨first, ?_, hsome⟩
  rw [List.head?_append, Option.mem_def.mp hfirst]
  rfl

/-- **Any number of whole files are scanned one by one.** -/
theorem scan_flatten {files : List (List Text)} (h : ∀ file ∈ files, IsWhole file) :
    scan files.flatten = files.flatMap scan := by
  induction files with
  | nil => rfl
  | cons file files ih =>
    obtain ⟨hfile, hfiles⟩ := List.forall_mem_cons.mp h
    rw [List.flatten_cons, List.flatMap_cons, ← ih hfiles]
    cases files with
    | nil => rw [List.flatten_nil, List.append_nil, show scan [] = [] from rfl, List.append_nil]
    | cons next files =>
      have hnext : StartsWithHeading (next :: files).flatten :=
        startsWithHeading_append (hfiles next List.mem_cons_self).heading
      show (fresh.feedAll (file ++ (next :: files).flatten)).finish = _
      rw [feedAll_boundary hfile.atRest hnext, finish_behind]
      rfl

end Boundary

end Scanner
end Ambient
