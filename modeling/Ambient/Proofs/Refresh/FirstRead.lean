import Ambient.Proofs.Refresh.Session

/-!
# The first text wins

What a session leaves in its catalogue is decided by the first text offered for each file since the last
reset. `FirstTextWins` says so, together with what follows for failures, and `firstTextWins` proves it of
every run:

* a refresh whose source is broken, and a watched refresh whose watcher has gone, change nothing;
* a listed file that cannot be read stays out, and every later refresh tries it again;
* a new text for a file that was taken in is of no account until a reset.
-/

namespace Ambient

open Catalogue

/-- The failure that a watcher is told of. -/
def Update.failure? : Update → Option (FileKey × SourceError)
  | .failed file error => some (file, error)
  | .discovered _ | .ingested _ _ | .complete _ => none

namespace Event

/-- Does the event ask the source for its files and handle them? -/
def refreshes : Event → Bool
  | refresh | refreshWatched _ => true
  | insert _ _ | list _ | unlist _ | setBroken _ | refreshUnwatched | ingest _ _ | reset => false

/-- The failures that the event reports. -/
def failures (held : HeldFiles) (ix : Index) : Event → List (FileKey × SourceError)
  | refresh =>
    match (ix.refresh held.source).2 with
    | .ok report => report.failures
    | .error _ => []
  | refreshWatched schedule =>
    match (ix.refreshWatchedBy schedule held.source).2 with
    | .ok updates => updates.filterMap Update.failure?
    | .error _ => []
  | insert _ _ | list _ | unlist _ | setBroken _ | refreshUnwatched | ingest _ _ | reset => []

theorem isReset_of_refreshes {e : Event} (h : e.refreshes = true) : e.isReset = false := by
  cases e <;> first | rfl | exact absurd h Bool.false_ne_true

theorem offer?_of_refreshes {e : Event} (h : e.refreshes = true) (held : HeldFiles) (file : FileKey) :
    e.offer? held file = if held.isBroken then none else held.text? file := by
  cases e <;> first | rfl | exact absurd h Bool.false_ne_true

end Event

namespace Session

/-- **The first text wins, and failures change nothing.** What holds after a run, and after what may come
    next. -/
structure FirstTextWins (events : List Event) : Prop where
  /-- The catalogue answers like one that has taken in, for every file with a first text, the declarations
      of that text, and nothing else. -/
  catalogue : ∃ texts : List (FileKey × Text), (texts.map Prod.fst).Nodup ∧
    (∀ file t, (file, t) ∈ texts ↔ firstText events file = some t) ∧
    Agree (catalogueAfter events) (Catalogue.empty.ingestAll (texts.map fun p => (p.1, parse p.2)))
  /-- A file enters the catalogue with the first event that offers a text for it. -/
  entering : ∀ e file, e.isReset = false →
    ((catalogueAfter events).containsFile file = false ∧
      (catalogueAfter (events ++ [e])).containsFile file = true ↔
      firstText events file = none ∧ (e.offer? (heldAfter events) file).isSome = true)
  /-- A refresh of a broken source leaves the catalogue exactly as it was. -/
  broken : ∀ e : Event, e.refreshes = true → (heldAfter events).isBroken = true →
    catalogueAfter (events ++ [e]) = catalogueAfter events
  /-- So does a watched refresh whose watcher has gone. -/
  unwatched : catalogueAfter (events ++ [.refreshUnwatched]) = catalogueAfter events
  /-- A refresh tries every file that is listed and not taken in. One that cannot be read is reported and
      stays out, for the next refresh to try. -/
  failing : ∀ e : Event, e.refreshes = true → (heldAfter events).isBroken = false →
    ∀ file ∈ (heldAfter events).allKeys, firstText events file = none →
    ∀ error, (heldAfter events).source.read file = .error error →
    (file, error) ∈ e.failures (run events).held (run events).index ∧
    firstText (events ++ [e]) file = none ∧ (catalogueAfter (events ++ [e])).containsFile file = false
  /-- One that can be read is taken in with the text it has then. -/
  retried : ∀ e : Event, e.refreshes = true → (heldAfter events).isBroken = false →
    ∀ file ∈ (heldAfter events).allKeys, firstText events file = none →
    ∀ t, (heldAfter events).source.read file = .ok t →
    firstText (events ++ [e]) file = some t ∧ (catalogueAfter (events ++ [e])).containsFile file = true
  /-- A new text for a file that was taken in is of no account until a reset. -/
  replaced : ∀ file t more, (firstText events file).isSome = true → (∀ e ∈ more, e.isReset = false) →
    Agree (catalogueAfter (events ++ .insert file t :: more)) (catalogueAfter (events ++ more))

/-! ## 1. The catalogue of a history -/

theorem containsFile_catalogueAfter (events : List Event) (file : FileKey) :
    (catalogueAfter events).containsFile file = (firstText events file).isSome := by
  rw [Bool.eq_iff_iff, containsFile_iff, (run_keeps events).accepted]

/-- The files with a first text, each with that text. -/
theorem exists_texts (events : List Event) :
    ∃ texts : List (FileKey × Text), (texts.map Prod.fst).Nodup ∧
      ∀ file t, (file, t) ∈ texts ↔ firstText events file = some t := by
  have hk := run_keeps events
  have hmap : ((catalogueAfter events).accepted.map fun file => (file, (firstText events file).getD [])).map
      Prod.fst = (catalogueAfter events).accepted := by
    rw [List.map_map]
    exact List.map_id _
  refine ⟨(catalogueAfter events).accepted.map fun file => (file, (firstText events file).getD []), ?_, ?_⟩
  · rw [hmap]
    exact hk.holds.nodup
  · intro file t
    rw [List.mem_map]
    constructor
    · rintro ⟨g, hg, e⟩
      obtain ⟨s, hs⟩ := Option.isSome_iff_exists.mp ((hk.accepted g).mp hg)
      rw [hs] at e
      cases e
      exact hs
    · intro h
      refine ⟨file, (hk.accepted file).mpr (by rw [h]; rfl), ?_⟩
      rw [h]
      rfl

/-- Taking in a text of each file gives a catalogue that keeps these texts. -/
theorem ingestAll_keeps {known : FileKey → Option Text} {texts : List (FileKey × Text)}
    (h : ∀ file t, (file, t) ∈ texts ↔ known file = some t) :
    Keeps known (Catalogue.empty.ingestAll (texts.map fun p => (p.1, parse p.2))) where
  holds := by
    refine holds_empty.ingestAll _ fun call hcall => ?_
    obtain ⟨p, hp, rfl⟩ := List.mem_map.mp hcall
    show parse p.2 = parse ((known p.1).getD [])
    rw [(h p.1 p.2).mp hp]
    rfl
  accepted file := by
    rw [mem_accepted_ingestAll, List.map_map, List.mem_map, Option.isSome_iff_exists]
    constructor
    · rintro (⟨p, hp, rfl⟩ | hno)
      · exact ⟨p.2, (h p.1 p.2).mp hp⟩
      · exact absurd hno List.not_mem_nil
    · rintro ⟨t, ht⟩
      exact Or.inl ⟨(file, t), (h file t).mpr ht, rfl⟩

/-! ## 2. Failures -/

theorem catalogueAfter_concat (events : List Event) (e : Event) :
    catalogueAfter (events ++ [e]) = (e.act (run events).held (run events).index).catalogue := by
  unfold catalogueAfter
  rw [run_concat]
  rfl

/-- A refresh of a broken source leaves the catalogue as it was. -/
theorem act_broken {held : HeldFiles} {ix : Index} {e : Event} (he : e.refreshes = true)
    (hb : held.isBroken = true) : (e.act held ix).catalogue = ix.catalogue := by
  have hd := HeldFiles.discover_of_broken hb
  cases e with
  | refresh => show (ix.refresh held.source).1.catalogue = _; rw [Index.refresh_of_error hd]
  | refreshWatched schedule =>
    show (ix.refreshWatchedBy schedule held.source).1.catalogue = _
    rw [Index.refreshWatchedBy_of_error hd]
  | _ => exact absurd he Bool.false_ne_true

/-- A refresh reports every pending file that it cannot read. -/
theorem mem_failures {held : HeldFiles} {ix : Index} {e : Event} (he : e.refreshes = true)
    (hb : held.isBroken = false) {file : FileKey} (hlist : file ∈ held.allKeys)
    (hnew : file ∉ ix.catalogue.accepted) {error : SourceError}
    (hread : held.source.read file = .error error) : (file, error) ∈ e.failures held ix := by
  have hd := HeldFiles.discover_of_mended hb
  have hpending : file ∈ ix.pendingFiles held.allKeys := Index.mem_pendingFiles.mpr ⟨hlist, hnew⟩
  cases e with
  | refresh =>
    have hout : Outcome.failed file error ∈ ((ix.begin held.allKeys).handleAll held.source
        (ix.pendingFiles held.allKeys)).2 := Index.handleAll_outcome hpending hread
    simp only [Event.failures, Index.refresh, hd]
    exact List.mem_filterMap.mpr ⟨_, hout, rfl⟩
  | refreshWatched schedule =>
    have hsched : file ∈ schedule.arrange (ix.pendingFiles held.allKeys) :=
      (schedule.perm _).mem_iff.mpr hpending
    have hout : Outcome.failed file error ∈ ((ix.begin held.allKeys).handleAll held.source
        (schedule.arrange (ix.pendingFiles held.allKeys))).2 := Index.handleAll_outcome hsched hread
    have hup : Update.failed file error ∈ ((ix.begin held.allKeys).handleAll held.source
        (schedule.arrange (ix.pendingFiles held.allKeys))).2.filterMap Outcome.update? :=
      List.mem_filterMap.mpr ⟨_, hout, rfl⟩
    simp only [Event.failures, Index.refreshWatchedBy, hd]
    refine List.mem_filterMap.mpr ⟨_, List.mem_append_left _ (List.mem_cons_of_mem _ hup), rfl⟩
  | _ => exact absurd he Bool.false_ne_true

/-- After a refresh, a file without a text before is known by the text the source has of it. -/
theorem firstText_refreshes {events : List Event} {e : Event} (he : e.refreshes = true)
    (hb : (heldAfter events).isBroken = false) {file : FileKey} (hnew : firstText events file = none) :
    firstText (events ++ [e]) file = (heldAfter events).text? file := by
  rw [firstText_concat, Event.isReset_of_refreshes he]
  simp only [Bool.false_eq_true, if_false, knowing]
  rw [hnew, Event.offer?_of_refreshes he, hb]
  rfl

/-! ## 3. Replaced texts -/

/-- Without a reset the history only grows at its end. -/
theorem sinceReset_append {moments more : List Moment} (h : ∀ m ∈ more, m.event.isReset = false) :
    sinceReset (moments ++ more) = sinceReset moments ++ more := by
  unfold sinceReset
  have hall : ∀ m ∈ more.reverse, (!m.event.isReset) = true := by
    intro m hm
    rw [h m (List.mem_reverse.mp hm)]
    rfl
  rw [List.reverse_append, List.takeWhile_append_of_pos hall, List.reverse_append, List.reverse_reverse]

theorem mem_timeline {held : HeldFiles} {events : List Event} {m : Moment} (h : m ∈ timeline held events) :
    m.event ∈ events := by
  induction events generalizing held with
  | nil => exact absurd h List.not_mem_nil
  | cons e events ih =>
    rcases List.mem_cons.mp h with rfl | h
    · exact List.mem_cons_self
    · exact List.mem_cons_of_mem _ (ih h)

theorem firstText_append {events more : List Event} (h : ∀ e ∈ more, e.isReset = false) (file : FileKey) :
    firstText (events ++ more) file =
      (firstText events file).or
        ((timeline (heldAfter events) more).findSome? fun m => m.event.offer? m.held file) := by
  unfold firstText
  rw [timeline_append, sinceReset_append fun m hm => h m.event (mem_timeline hm), List.findSome?_append]
  rfl

/-- Two sources that differ at most in the text of one file. -/
structure SameBut (file : FileKey) (held held' : HeldFiles) : Prop where
  text : ∀ g, g ≠ file → held.text? g = held'.text? g
  isBroken : held.isBroken = held'.isBroken

/-- Every event keeps the difference to that file. -/
theorem SameBut.edit {file : FileKey} {held held' : HeldFiles} (h : SameBut file held held') (e : Event) :
    SameBut file (e.edit held) (e.edit held') := by
  cases e with
  | insert f t =>
    refine ⟨fun g hg => ?_, h.isBroken⟩
    show (held.insert f t).text? g = (held'.insert f t).text? g
    rw [HeldFiles.text?_insert, HeldFiles.text?_insert, h.text g hg]
  | list f =>
    refine ⟨fun g hg => ?_, ?_⟩
    · show (held.list f).text? g = (held'.list f).text? g
      rw [HeldFiles.text?_list, HeldFiles.text?_list, h.text g hg]
    · show (held.list f).isBroken = (held'.list f).isBroken
      rw [HeldFiles.isBroken_list, HeldFiles.isBroken_list, h.isBroken]
  | setBroken isBroken => exact ⟨h.text, rfl⟩
  | unlist | refresh | refreshWatched | refreshUnwatched | ingest | reset => exact ⟨h.text, h.isBroken⟩

/-- Such sources offer the same of every other file, now and later. -/
theorem SameBut.offers {file : FileKey} {held held' : HeldFiles} (h : SameBut file held held')
    (events : List Event) {g : FileKey} (hg : g ≠ file) :
    (timeline held events).findSome? (fun m => m.event.offer? m.held g) =
      (timeline held' events).findSome? fun m => m.event.offer? m.held g := by
  induction events generalizing held held' with
  | nil => rfl
  | cons e events ih =>
    have he : e.offer? held g = e.offer? held' g := by
      cases e <;> simp only [Event.offer?, h.text g hg, h.isBroken]
    rw [timeline, timeline, List.findSome?_cons, List.findSome?_cons, ih (h.edit e)]
    rw [he]

/-- What is known after a run without resets does not depend on a new text for a file taken in before. -/
theorem firstText_insert {events more : List Event} {file : FileKey} (t : Text)
    (hfile : (firstText events file).isSome = true) (h : ∀ e ∈ more, e.isReset = false) :
    firstText (events ++ .insert file t :: more) = firstText (events ++ more) := by
  funext g
  have h' : ∀ e ∈ Event.insert file t :: more, e.isReset = false := by
    intro e he
    rcases List.mem_cons.mp he with rfl | he
    · rfl
    · exact h e he
  rw [firstText_append h', firstText_append h]
  by_cases hg : g = file
  · subst hg
    obtain ⟨s, hs⟩ := Option.isSome_iff_exists.mp hfile
    rw [hs, Option.some_or, Option.some_or]
  · congr 1
    have hsame : SameBut file ((heldAfter events).insert file t) (heldAfter events) := by
      refine ⟨fun k hk => ?_, rfl⟩
      rw [HeldFiles.text?_insert, if_neg hk]
    exact hsame.offers more hg

/-! ## 4. Every run -/

/-- **In every run the first text of a file wins, and failures change nothing.** -/
theorem firstTextWins (events : List Event) : FirstTextWins events where
  catalogue := by
    obtain ⟨texts, hnodup, htexts⟩ := exists_texts events
    exact ⟨texts, hnodup, htexts, (run_keeps events).agree (ingestAll_keeps htexts)⟩
  entering e file he := by
    rw [containsFile_catalogueAfter, containsFile_catalogueAfter, firstText_concat, he]
    simp only [Bool.false_eq_true, if_false, knowing]
    cases firstText events file <;> simp
  broken e he hb := by
    rw [catalogueAfter_concat]
    exact act_broken he (by rw [held_run]; exact hb)
  unwatched := by
    rw [catalogueAfter_concat]
    exact Index.refreshUnwatched_catalogue
  failing e he hb file hlist hnew error hread := by
    have hout : file ∉ (catalogueAfter events).accepted := by
      rw [(run_keeps events).accepted, hnew]
      exact Bool.false_ne_true
    have htext : (heldAfter events).text? file = none := HeldFiles.text?_of_read_error hread
    have hfirst : firstText (events ++ [e]) file = none := (firstText_refreshes he hb hnew).trans htext
    refine ⟨?_, hfirst, ?_⟩
    · rw [held_run]
      exact mem_failures he hb hlist hout hread
    · rw [containsFile_catalogueAfter, hfirst]
      rfl
  retried e he hb file _ hnew t hread := by
    have htext : (heldAfter events).text? file = some t := HeldFiles.text?_of_read_ok hread
    have hfirst : firstText (events ++ [e]) file = some t := (firstText_refreshes he hb hnew).trans htext
    refine ⟨hfirst, ?_⟩
    rw [containsFile_catalogueAfter, hfirst]
    rfl
  replaced file t more hfile h := by
    have hk := run_keeps (events ++ .insert file t :: more)
    rw [firstText_insert t hfile h] at hk
    exact hk.agree (run_keeps (events ++ more))

end Session
end Ambient
