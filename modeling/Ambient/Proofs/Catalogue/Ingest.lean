import Ambient.Proofs.Catalogue.Order
import Mathlib.Data.List.Basic

/-!
# What a catalogue holds

A catalogue is determined by the set of files it has accepted and by the declarations each of them brought:

* `Holds content c`: the entries of `c` are, in order, those of the accepted files, each file with the
  declarations `content` gives it. `Holds.ingest` keeps this, whether the file is accepted or refused;
* `Holds.entries_eq`: two catalogues that hold the same content of the same files have the same entries;
* `Agree`: two catalogues answer every query alike. `Agree.of_entries` says when they do;
* `ingestAll_agree`: the order in which files are taken in, and how often, is of no account.
-/

namespace Ambient

namespace Catalogue

/-- Takes files in one after the other. -/
def ingestAll (c : Catalogue) (calls : List (FileKey × List Declaration)) : Catalogue :=
  calls.foldl (fun c call => c.ingest call.1 call.2) c

/-! ## 1. Content -/

/-- **What a catalogue holds**: of each accepted file the declarations that `content` gives it, once. -/
structure Holds (content : FileKey → List Declaration) (c : Catalogue) : Prop where
  nodup : c.accepted.Nodup
  sorted : c.entries.Pairwise fun a b => Entry.le a b = true
  perm : c.entries.Perm (c.accepted.flatMap fun file => Entry.ofFile file (content file))

section Holding

variable {content : FileKey → List Declaration} {c : Catalogue}

theorem holds_empty : Holds content empty where
  nodup := List.nodup_nil
  sorted := List.Pairwise.nil
  perm := List.Perm.nil

/-- An entry stands in the catalogue exactly if its file was accepted and has its declaration at its place. -/
theorem Holds.mem_entries (h : Holds content c) {e : Entry} :
    e ∈ c.entries ↔ e.file ∈ c.accepted ∧ (content e.file)[e.ordinal]? = some e.declaration := by
  rw [h.perm.mem_iff, List.mem_flatMap]
  constructor
  · rintro ⟨file, hfile, he⟩
    obtain ⟨rfl, hd⟩ := Entry.mem_ofFile.mp he
    exact ⟨hfile, hd⟩
  · rintro ⟨hfile, hd⟩
    exact ⟨e.file, hfile, Entry.mem_ofFile.mpr ⟨rfl, hd⟩⟩

/-- File and place single out an entry. -/
theorem Holds.eq_of_file_ordinal (h : Holds content c) {a b : Entry} (ha : a ∈ c.entries)
    (hb : b ∈ c.entries) (hfile : a.file = b.file) (hord : a.ordinal = b.ordinal) : a = b := by
  have ha' := (h.mem_entries.mp ha).2
  have hb' := (h.mem_entries.mp hb).2
  rw [hfile, hord, hb'] at ha'
  have hd : b.declaration = a.declaration := Option.some.inj ha'
  cases a
  cases b
  simp only at hfile hord hd
  subst hfile hord hd
  rfl

/-- Only the content of accepted files counts. -/
theorem Holds.congr (h : Holds content c) {content' : FileKey → List Declaration}
    (hc : ∀ file ∈ c.accepted, content' file = content file) : Holds content' c where
  nodup := h.nodup
  sorted := h.sorted
  perm := by
    have e : (c.accepted.flatMap fun file => Entry.ofFile file (content' file)) =
        c.accepted.flatMap fun file => Entry.ofFile file (content file) :=
      List.flatMap_congr fun file hfile => by rw [hc file hfile]
    rw [e]
    exact h.perm

end Holding

/-! ## 2. One file -/

section Ingest

variable {c : Catalogue} {file : FileKey} {ds : List Declaration}

theorem containsFile_iff : c.containsFile file = true ↔ file ∈ c.accepted := List.contains_iff_mem

theorem ingest?_of_mem (h : file ∈ c.accepted) : c.ingest? file ds = none := by
  unfold ingest?
  rw [if_pos (containsFile_iff.mpr h)]

theorem ingest?_of_not_mem (h : file ∉ c.accepted) :
    c.ingest? file ds =
      some ⟨(c.entries ++ Entry.ofFile file ds).mergeSort Entry.le, file :: c.accepted⟩ := by
  unfold ingest?
  rw [if_neg fun hc => h (containsFile_iff.mp hc)]

/-- A file that was accepted before changes nothing. -/
theorem ingest_of_mem (h : file ∈ c.accepted) : c.ingest file ds = c := by
  unfold ingest
  rw [ingest?_of_mem h]
  rfl

theorem ingest_of_not_mem (h : file ∉ c.accepted) :
    c.ingest file ds = ⟨(c.entries ++ Entry.ofFile file ds).mergeSort Entry.le, file :: c.accepted⟩ := by
  unfold ingest
  rw [ingest?_of_not_mem h]
  rfl

/-- After an attempt to take a file in, it and what was accepted before are accepted. -/
theorem mem_accepted_ingest {g : FileKey} :
    g ∈ (c.ingest file ds).accepted ↔ g = file ∨ g ∈ c.accepted := by
  by_cases h : file ∈ c.accepted
  · rw [ingest_of_mem h]
    refine ⟨Or.inr, fun hg => ?_⟩
    rcases hg with rfl | hg
    · exact h
    · exact hg
  · rw [ingest_of_not_mem h]
    exact List.mem_cons

/-- **Taking a file in keeps what the catalogue holds**, provided a new file brings its content. -/
theorem Holds.ingest {content : FileKey → List Declaration} (h : Holds content c)
    (hds : file ∉ c.accepted → ds = content file) : Holds content (c.ingest file ds) := by
  by_cases hmem : file ∈ c.accepted
  · rw [ingest_of_mem hmem]
    exact h
  · rw [ingest_of_not_mem hmem, hds hmem]
    refine ⟨List.nodup_cons.mpr ⟨hmem, h.nodup⟩, Entry.sort_pairwise _, ?_⟩
    refine (List.mergeSort_perm _ _).trans ?_
    rw [List.flatMap_cons]
    exact List.perm_append_comm.trans (h.perm.append_left _)

end Ingest

/-! ## 3. Equal answers -/

/-- **Two catalogues with the same content of the same files have the same entries.** Between two entries of
    one catalogue the order is strict, so there is only one way to sort them. -/
theorem Holds.entries_eq {content : FileKey → List Declaration} {c₁ c₂ : Catalogue}
    (h₁ : Holds content c₁) (h₂ : Holds content c₂) (h : c₁.accepted.Perm c₂.accepted) :
    c₁.entries = c₂.entries := by
  have hperm : c₁.entries.Perm c₂.entries :=
    h₁.perm.trans ((h.flatMap_right _).trans h₂.perm.symm)
  refine List.Perm.eq_of_pairwise ?_ h₁.sorted h₂.sorted hperm
  intro a b ha hb hab hba
  obtain ⟨_, hfile, hord⟩ := Entry.le_antisymm hab hba
  exact h₁.eq_of_file_ordinal ha (hperm.mem_iff.mpr hb) hfile hord

/-- **Two catalogues answer every query alike.** -/
structure Agree (c₁ c₂ : Catalogue) : Prop where
  declarations : c₁.declarations = c₂.declarations
  files : c₁.files = c₂.files
  size : c₁.size = c₂.size
  fileCount : c₁.fileCount = c₂.fileCount
  containsFile : ∀ file, c₁.containsFile file = c₂.containsFile file
  suggest : ∀ start, c₁.suggest start = c₂.suggest start
  findShort : ∀ name, c₁.findShort? name = c₂.findShort? name
  findQualified : ∀ name, c₁.findQualified? name = c₂.findQualified? name
  /-- Entries correspond one by one, and so do their siblings. -/
  entries : c₁.entries = c₂.entries
  siblings : ∀ e ∈ c₁.entries, c₁.siblings e = c₂.siblings e

theorem Agree.of_entries {c₁ c₂ : Catalogue} (he : c₁.entries = c₂.entries)
    (ha : c₁.accepted.Perm c₂.accepted) : Agree c₁ c₂ where
  declarations := by unfold Catalogue.declarations; rw [he]
  files := FileKey.sort_perm ha
  size := by unfold Catalogue.size; rw [he]
  fileCount := ha.length_eq
  containsFile file := by
    rw [Bool.eq_iff_iff, containsFile_iff, containsFile_iff]
    exact ha.mem_iff
  suggest start := by unfold Catalogue.suggest Catalogue.declarations; rw [he]
  findShort name := by unfold findShort?; rw [he]
  findQualified name := by unfold findQualified?; rw [he]
  entries := he
  siblings e _ := by unfold Catalogue.siblings; rw [he]

/-- Catalogues with the same content of the same files agree. -/
theorem Holds.agree {content : FileKey → List Declaration} {c₁ c₂ : Catalogue}
    (h₁ : Holds content c₁) (h₂ : Holds content c₂) (h : ∀ file, file ∈ c₁.accepted ↔ file ∈ c₂.accepted) :
    Agree c₁ c₂ :=
  have hperm := (List.perm_ext_iff_of_nodup h₁.nodup h₂.nodup).mpr h
  Agree.of_entries (h₁.entries_eq h₂ hperm) hperm

/-! ## 4. Many files -/

section Many

variable {content : FileKey → List Declaration} {c : Catalogue}

/-- Every call brings its file's content. -/
def Brings (content : FileKey → List Declaration) (calls : List (FileKey × List Declaration)) : Prop :=
  ∀ call ∈ calls, call.2 = content call.1

theorem Holds.ingestAll (h : Holds content c) (calls : List (FileKey × List Declaration))
    (hb : Brings content calls) : Holds content (c.ingestAll calls) := by
  induction calls generalizing c with
  | nil => exact h
  | cons call calls ih =>
    have h' : Holds content (c.ingest call.1 call.2) :=
      h.ingest fun _ => hb call List.mem_cons_self
    exact ih h' fun call' hcall' => hb call' (List.mem_cons_of_mem _ hcall')

theorem mem_accepted_ingestAll (calls : List (FileKey × List Declaration)) {file : FileKey} :
    file ∈ (c.ingestAll calls).accepted ↔ file ∈ calls.map Prod.fst ∨ file ∈ c.accepted := by
  induction calls generalizing c with
  | nil => simp [Catalogue.ingestAll]
  | cons call calls ih =>
    show file ∈ ((c.ingest call.1 call.2).ingestAll calls).accepted ↔ _
    rw [ih, mem_accepted_ingest, List.map_cons, List.mem_cons]
    exact ⟨fun h => h.elim (fun h => Or.inl (Or.inr h)) (Or.imp_left Or.inl),
      fun h => h.elim (Or.elim · (fun h => Or.inr (Or.inl h)) Or.inl) fun h => Or.inr (Or.inr h)⟩

/-- The content that a list of calls agrees on: what its first call for the file brings. -/
def contentOf (calls : List (FileKey × List Declaration)) (file : FileKey) : List Declaration :=
  (calls.lookup file).getD []

theorem brings_contentOf {calls : List (FileKey × List Declaration)}
    (h : ∀ a ∈ calls, ∀ b ∈ calls, a.1 = b.1 → a.2 = b.2) : Brings (contentOf calls) calls := by
  intro call hcall
  cases hl : calls.lookup call.1 with
  | none => exact absurd (List.lookup_eq_none_iff.mp hl call hcall) (by simp)
  | some ds =>
    obtain ⟨before, behind, rfl, _⟩ := List.lookup_eq_some_iff.mp hl
    have hmem : (call.1, ds) ∈ before ++ (call.1, ds) :: behind :=
      List.mem_append_right _ List.mem_cons_self
    unfold contentOf
    rw [hl]
    exact h call hcall (call.1, ds) hmem rfl

end Many

/-- **The order in which files are taken in is of no account.** Two lists of calls that name the same files,
    in any order and with any repetitions, each file with one list of declarations throughout, fill two
    empty catalogues so that they answer every query alike. -/
theorem ingestAll_agree {calls₁ calls₂ : List (FileKey × List Declaration)}
    (hfiles : ∀ file, file ∈ calls₁.map Prod.fst ↔ file ∈ calls₂.map Prod.fst)
    (hlists : ∀ a ∈ calls₁ ++ calls₂, ∀ b ∈ calls₁ ++ calls₂, a.1 = b.1 → a.2 = b.2) :
    Agree (empty.ingestAll calls₁) (empty.ingestAll calls₂) := by
  have hb : Brings (contentOf (calls₁ ++ calls₂)) (calls₁ ++ calls₂) := brings_contentOf hlists
  have h₁ : Holds _ (empty.ingestAll calls₁) :=
    holds_empty.ingestAll calls₁ fun call hcall => hb call (List.mem_append_left _ hcall)
  have h₂ : Holds _ (empty.ingestAll calls₂) :=
    holds_empty.ingestAll calls₂ fun call hcall => hb call (List.mem_append_right _ hcall)
  refine h₁.agree h₂ fun file => ?_
  rw [mem_accepted_ingestAll, mem_accepted_ingestAll, hfiles file]

/-- Calls for two files whose declarations share an id. -/
def twoCalls : List (FileKey × List Declaration) :=
  let d : Declaration :=
    { path := "CG".toList, kind := .varValue, signature := "x: number".toList, endMarker := "\x7d;".toList,
      complete := true, source := "    export declare var x: number;\n".toList, comment := [], ordinal := none }
  [(⟨"b.d.ts".toList⟩, [d, d]), (⟨"a.d.ts".toList⟩, [d])]

theorem ingestAll_agree_reverse_repeated :
    (∀ file, file ∈ twoCalls.map Prod.fst ↔ file ∈ (twoCalls.reverse ++ twoCalls).map Prod.fst) ∧
    (∀ a ∈ twoCalls ++ (twoCalls.reverse ++ twoCalls), ∀ b ∈ twoCalls ++ (twoCalls.reverse ++ twoCalls),
      a.1 = b.1 → a.2 = b.2) ∧
    Agree (empty.ingestAll twoCalls) (empty.ingestAll (twoCalls.reverse ++ twoCalls)) := by
  have hfiles : ∀ file, file ∈ twoCalls.map Prod.fst ↔
      file ∈ (twoCalls.reverse ++ twoCalls).map Prod.fst := by
    intro file
    simp
  have hlists : ∀ a ∈ twoCalls ++ (twoCalls.reverse ++ twoCalls),
      ∀ b ∈ twoCalls ++ (twoCalls.reverse ++ twoCalls), a.1 = b.1 → a.2 = b.2 := by
    decide
  exact ⟨hfiles, hlists, ingestAll_agree hfiles hlists⟩

end Catalogue
end Ambient
