import Ambient.Proofs.Refresh.Offers
import Ambient.Source.Held
import Mathlib.Data.List.Induction

/-!
# Sessions

A session is an index with the files of its source, both of which change under EVENTS: the files are edited,
the source breaks and is mended, the index is refreshed in three ways, takes in a text directly, and is
reset. A run is any list of events.

The reference for what a run leaves in the catalogue is a history, not a catalogue:

* `Event.offer?`: the text an event offers for a file, as the files stand when it comes;
* `firstText events file`: the first text offered for the file since the last reset;
* `run_keeps`: after every run the catalogue keeps exactly these texts.
-/

namespace Ambient

/-! ## 1. Files held -/

namespace HeldFiles

theorem mem_allKeys {held : HeldFiles} {file : FileKey} :
    file ∈ held.allKeys ↔ (held.text? file).isSome = true ∨ file ∈ held.listed := by
  have hkeys : file ∈ held.texts.map Prod.fst ↔ (held.text? file).isSome = true := by
    rw [text?, ← not_iff_not, Option.not_isSome_iff_eq_none, List.lookup_eq_none_iff, List.mem_map]
    constructor
    · intro h p hp
      rw [bne_iff_ne]
      exact fun e => h ⟨p, hp, e.symm⟩
    · rintro h ⟨p, hp, e⟩
      exact bne_iff_ne.mp (h p hp) e.symm
  unfold allKeys FileKey.sort
  rw [List.mem_mergeSort, List.mem_append, hkeys, List.mem_filter, Option.isNone_iff_eq_none]
  constructor
  · rintro (h | h)
    · exact Or.inl h
    · exact Or.inr h.1
  · intro h
    cases ht : held.text? file with
    | some t => exact Or.inl rfl
    | none => exact Or.inr ⟨h.resolve_left (by simp [ht]), rfl⟩

theorem discover_of_broken {held : HeldFiles} (h : held.isBroken = true) :
    held.source.discover = .error (.settings .broken) := if_pos h

theorem discover_of_mended {held : HeldFiles} (h : held.isBroken = false) :
    held.source.discover = .ok held.allKeys := by
  unfold source
  simp [h]

theorem read_of_text {held : HeldFiles} {file : FileKey} {t : Text} (h : held.text? file = some t) :
    held.source.read file = .ok t := by
  simp only [source, h]

theorem read_of_no_text {held : HeldFiles} {file : FileKey} (h : held.text? file = none) :
    held.source.read file = .error (.read file.text .notHeld) := by
  simp only [source, h]

theorem text?_of_read_ok {held : HeldFiles} {file : FileKey} {t : Text} (h : held.source.read file = .ok t) :
    held.text? file = some t := by
  cases ht : held.text? file with
  | none =>
    rw [read_of_no_text ht] at h
    cases h
  | some s =>
    rw [read_of_text ht] at h
    cases h
    rfl

theorem text?_of_read_error {held : HeldFiles} {file : FileKey} {error : SourceError}
    (h : held.source.read file = .error error) : held.text? file = none := by
  cases ht : held.text? file with
  | none => rfl
  | some t =>
    rw [read_of_text ht] at h
    cases h

/-- The files offer what they hold, unless they are broken. -/
theorem offer?_source (held : HeldFiles) (file : FileKey) :
    held.source.offer? file = if held.isBroken then none else held.text? file := by
  cases hb : held.isBroken with
  | true => simp [Source.offer?, discover_of_broken hb]
  | false =>
    cases ht : held.text? file with
    | none => simp [Source.offer?, discover_of_mended hb, read_of_no_text ht, Except.toOption]
    | some t =>
      have hmem : file ∈ held.allKeys := mem_allKeys.mpr (Or.inl (by rw [ht]; rfl))
      simp [Source.offer?, discover_of_mended hb, read_of_text ht, hmem, Except.toOption]

/-- An inserted text is held of its file, and of no other. -/
theorem text?_insert (held : HeldFiles) (file g : FileKey) (t : Text) :
    (held.insert file t).text? g = if g = file then some t else held.text? g := by
  unfold text? insert
  rw [List.lookup_cons]
  by_cases h : g = file
  · rw [beq_iff_eq.mpr h, if_pos h]
  · rw [beq_eq_false_iff_ne.mpr h, if_neg h]
    show (held.texts.filter _).lookup g = _
    induction held.texts with
    | nil => rfl
    | cons p texts ih =>
      by_cases hp : p.1 = file
      · have hg : (g == p.1) = false := beq_eq_false_iff_ne.mpr fun e => h (e.trans hp)
        rw [List.filter_cons_of_neg (by simp [hp]), List.lookup_cons, hg]
        exact ih
      · rw [List.filter_cons_of_pos (by simp [hp]), List.lookup_cons, List.lookup_cons, ih]

theorem text?_list (held : HeldFiles) (file g : FileKey) : (held.list file).text? g = held.text? g := by
  unfold list
  split <;> rfl

theorem isBroken_list (held : HeldFiles) (file : FileKey) : (held.list file).isBroken = held.isBroken := by
  unfold list
  split <;> rfl

end HeldFiles

/-! ## 2. Events -/

/-- What can happen in a session. -/
inductive Event where
  /-- A text arrives, new or in place of another. -/
  | insert (file : FileKey) (text : Text)
  /-- A file is listed that cannot be read. -/
  | list (file : FileKey)
  /-- It is listed no longer. -/
  | unlist (file : FileKey)
  /-- The source breaks, or is mended. -/
  | setBroken (isBroken : Bool)
  | refresh
  | refreshWatched (schedule : Index.Schedule)
  /-- A watched refresh whose watcher has gone. -/
  | refreshUnwatched
  /-- A text is parsed and taken in past the source. -/
  | ingest (file : FileKey) (text : Text)
  | reset

namespace Event

/-- What the event does to the files. -/
def edit (held : HeldFiles) : Event → HeldFiles
  | insert file text => held.insert file text
  | list file => held.list file
  | unlist file => held.unlist file
  | setBroken isBroken => held.setBroken isBroken
  | refresh | refreshWatched _ | refreshUnwatched | ingest _ _ | reset => held

/-- What the event does to the index. -/
def act (held : HeldFiles) (ix : Index) : Event → Index
  | insert _ _ | list _ | unlist _ | setBroken _ => ix
  | refresh => (ix.refresh held.source).1
  | refreshWatched schedule => (ix.refreshWatchedBy schedule held.source).1
  | refreshUnwatched => (ix.refreshUnwatched held.source).1
  | ingest file text => { ix with catalogue := ix.catalogue.ingest file (parse text) }
  | reset => .empty

/-- The text that the event offers for a file, with these files held. -/
def offer? (held : HeldFiles) (file : FileKey) : Event → Option Text
  | refresh | refreshWatched _ => if held.isBroken then none else held.text? file
  | ingest g text => if file = g then some text else none
  | insert _ _ | list _ | unlist _ | setBroken _ | refreshUnwatched | reset => none

def isReset : Event → Bool
  | reset => true
  | insert _ _ | list _ | unlist _ | setBroken _ | refresh | refreshWatched _ | refreshUnwatched
  | ingest _ _ => false

end Event

/-- The files of a source and the index over them. -/
structure Session where
  held : HeldFiles
  index : Index

namespace Session

/-- No files, and nothing known of any. -/
def empty : Session := ⟨.empty, .empty⟩

/-- Lets an event happen. -/
def step (s : Session) (e : Event) : Session := ⟨e.edit s.held, e.act s.held s.index⟩

/-- Lets events happen one after the other, from the beginning. -/
def run (events : List Event) : Session := events.foldl step empty

/-- The catalogue after a run. -/
def catalogueAfter (events : List Event) : Catalogue := (run events).index.catalogue

/-- The files after a run. -/
def heldAfter (events : List Event) : HeldFiles := events.foldl Event.edit .empty

/-! ## 3. History -/

/-- An event and the files held when it comes. -/
structure Moment where
  held : HeldFiles
  event : Event

/-- Each event with the files as it finds them. -/
def timeline (held : HeldFiles) : List Event → List Moment
  | [] => []
  | e :: events => ⟨held, e⟩ :: timeline (e.edit held) events

/-- What has happened since the last reset. -/
def sinceReset (moments : List Moment) : List Moment :=
  (moments.reverse.takeWhile fun m => !m.event.isReset).reverse

/-- **The text of a file at its first accepted ingestion since the last reset**: the first that was offered
    for it since. -/
def firstText (events : List Event) (file : FileKey) : Option Text :=
  (sinceReset (timeline .empty events)).findSome? fun m => m.event.offer? m.held file

theorem run_concat (events : List Event) (e : Event) : run (events ++ [e]) = (run events).step e :=
  List.foldl_concat ..

theorem held_run (events : List Event) : (run events).held = heldAfter events := by
  unfold run heldAfter
  generalize hs : Session.empty = s
  have hheld : s.held = HeldFiles.empty := by rw [← hs]; rfl
  rw [← hheld]
  clear hs hheld
  induction events generalizing s with
  | nil => rfl
  | cons e events ih => exact ih (s.step e)

theorem timeline_append (held : HeldFiles) (events more : List Event) :
    timeline held (events ++ more) = timeline held events ++ timeline (events.foldl Event.edit held) more := by
  induction events generalizing held with
  | nil => rfl
  | cons e events ih =>
    rw [List.cons_append, timeline, timeline, ih, List.cons_append, List.foldl_cons]

theorem sinceReset_concat (moments : List Moment) (m : Moment) :
    sinceReset (moments ++ [m]) = if m.event.isReset then [] else sinceReset moments ++ [m] := by
  unfold sinceReset
  rw [List.reverse_append, List.reverse_singleton, List.singleton_append, List.takeWhile_cons]
  cases m.event.isReset <;> simp

/-- One event more: a reset forgets every text, any other event offers its own to files without one. -/
theorem firstText_concat (events : List Event) (e : Event) (file : FileKey) :
    firstText (events ++ [e]) file =
      if e.isReset then none else knowing (firstText events) (fun g => e.offer? (heldAfter events) g) file := by
  unfold firstText
  rw [timeline_append]
  show (sinceReset (timeline .empty events ++ [⟨heldAfter events, e⟩])).findSome? _ = _
  rw [sinceReset_concat]
  cases e.isReset with
  | true => rfl
  | false =>
    simp only [Bool.false_eq_true, if_false, knowing]
    rw [List.findSome?_append, List.findSome?_cons, List.findSome?_nil]
    cases e.offer? (heldAfter events) file <;> rfl

/-! ## 4. What a run leaves -/

open Catalogue Index

/-- An event that offers nothing and is no reset changes nothing that is known. -/
theorem knowing_none (texts : FileKey → Option Text) : (knowing texts fun _ => none) = texts := by
  funext file
  simp [knowing]

/-- **One event**: what the catalogue keeps after it. -/
theorem act_keeps {texts : FileKey → Option Text} {ix : Index} (held : HeldFiles) (e : Event)
    (h : Keeps texts ix.catalogue) :
    Keeps (if e.isReset then fun _ => none else knowing texts fun file => e.offer? held file)
      (e.act held ix).catalogue := by
  have hoffer : held.source.offer? = fun file => if held.isBroken then none else held.text? file :=
    funext held.offer?_source
  cases e with
  | insert | list | unlist | setBroken => exact (knowing_none texts).symm ▸ h
  | refreshUnwatched =>
    show Keeps (knowing texts fun _ => none) (ix.refreshUnwatched held.source).1.catalogue
    rw [refreshUnwatched_catalogue, knowing_none]
    exact h
  | refresh =>
    show Keeps (knowing texts fun file => if held.isBroken then none else held.text? file) _
    rw [← hoffer]
    exact refresh_keeps h
  | refreshWatched schedule =>
    show Keeps (knowing texts fun file => if held.isBroken then none else held.text? file) _
    rw [← hoffer]
    exact refreshWatchedBy_keeps schedule h
  | ingest file text => exact h.ingest file text
  | reset => exact keeps_empty

/-- **Every run**: the catalogue keeps of each file the first text offered since the last reset. -/
theorem run_keeps (events : List Event) : Keeps (firstText events) (catalogueAfter events) := by
  induction events using List.reverseRecOn with
  | nil => exact keeps_empty
  | append_singleton events e ih =>
    have h := act_keeps (heldAfter events) e ih
    have hfirst : firstText (events ++ [e]) =
        if e.isReset then fun _ => none else knowing (firstText events) fun g => e.offer? (heldAfter events) g := by
      funext file
      rw [firstText_concat]
      cases e.isReset <;> rfl
    unfold catalogueAfter
    rw [hfirst, run_concat]
    show Keeps _ (e.act (run events).held (run events).index).catalogue
    rw [held_run]
    exact h

end Session
end Ambient
