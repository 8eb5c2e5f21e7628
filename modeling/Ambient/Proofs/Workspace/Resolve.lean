import Ambient.Proofs.Workspace.Tree
import Ambient.Workspace.Basic

/-!
# What a path looks at

A path that is resolved looks at places, one after the other: its TRAIL. What it leads to depends on nothing else.
So in two workspaces with the same pruned tree a path leads to the same place as long as it looks nowhere below a
closed directory (`resolveFrom_outside`).

A link LEADS INTO a closed directory if it looks below one, or ends at one. Where no link outside does, whatever is
found outside is found in both workspaces (`resolve_link_eq`, `resolve_name_eq`).
-/

namespace Ambient

open Node (Below Within)

namespace Workspace

/-! ## 1. Trails -/

/-- The places at which a path looks before the next link. -/
def visits (w : Workspace) : Location → List Name → List Location
  | _, [] => []
  | place, name :: rest =>
    if name = [] ∨ name = Path.dot then visits w place rest
    else if name = Path.dotDot then visits w place.dropLast rest
    else if maxName < name.length then []
    else (place ++ [name]) ::
      match w.tree.at? (place ++ [name]) with
      | some (.directory _) => visits w (place ++ [name]) rest
      | some (.file _) | some (.link _) | none => []

/-- The places at which a path looks, through this many links at most. -/
def trail (w : Workspace) : Nat → Location → List Name → List Location
  | links, place, names =>
    w.visits place names ++
      match w.advance true place names with
      | .arrived _ | .failed _ => []
      | .atLink found target rest =>
        match links with
        | 0 => []
        | links + 1 =>
          if target.isEmpty then [] else trail w links (startOf found target) (Path.names target ++ rest)

section Trail

variable {w : Workspace} {place : Location} {names : List Name} {links : Nat}

theorem visits_subset_trail (links : Nat) : w.visits place names ⊆ w.trail links place names := by
  unfold trail
  exact List.subset_append_left _ _

theorem trail_of_atLink {found : Location} {target : Bytes} {rest : List Name}
    (h : w.advance true place names = .atLink found target rest) (htarget : target.isEmpty = false) (links : Nat) :
    w.trail (links + 1) place names =
      w.visits place names ++ w.trail links (startOf found target) (Path.names target ++ rest) := by
  rw [trail, h]
  simp only [htarget, Bool.false_eq_true, if_false]

/-- With more links a path looks further. -/
theorem trail_subset_succ (links : Nat) (place : Location) (names : List Name) :
    w.trail links place names ⊆ w.trail (links + 1) place names := by
  induction links generalizing place names with
  | zero =>
    have hzero : w.trail 0 place names = w.visits place names := by
      unfold trail
      split <;> exact List.append_nil _
    rw [hzero]
    exact visits_subset_trail 1
  | succ links ih =>
    cases h : w.advance true place names with
    | arrived _ =>
      unfold trail
      rw [h]
      exact List.Subset.refl _
    | failed _ =>
      unfold trail
      rw [h]
      exact List.Subset.refl _
    | atLink found target rest =>
      cases htarget : target.isEmpty with
      | true =>
        unfold trail
        simp only [h, htarget, if_true]
        exact List.Subset.refl _
      | false =>
        rw [trail_of_atLink h htarget, trail_of_atLink h htarget]
        exact List.append_subset.mpr ⟨List.subset_append_left _ _,
          List.Subset.trans (ih _ _) (List.subset_append_right _ _)⟩

end Trail

/-! ## 2. Two workspaces -/

/-- The place to which a path has led. -/
def Progress.place? : Progress → Option Location
  | arrived place => some place
  | atLink place _ _ => some place
  | failed _ => none

section Equations

variable {w : Workspace} {place found : Location} {names rest : List Name} {target : Bytes}

theorem resolveFrom_of_arrived (h : w.advance true place names = .arrived found) (links : Nat) :
    w.resolveFrom true links place names = .ok found := by
  unfold resolveFrom
  rw [h]

theorem resolveFrom_of_failed {cause : ReadCause} (h : w.advance true place names = .failed cause) (links : Nat) :
    w.resolveFrom true links place names = .error cause := by
  unfold resolveFrom
  rw [h]

theorem resolveFrom_zero_of_atLink (h : w.advance true place names = .atLink found target rest) :
    w.resolveFrom true 0 place names = .error .linkLoop := by
  unfold resolveFrom
  rw [h]

theorem resolveFrom_succ_of_atLink (h : w.advance true place names = .atLink found target rest) (links : Nat) :
    w.resolveFrom true (links + 1) place names =
      if target.isEmpty then .error .missing
      else w.resolveFrom true links (startOf found target) (Path.names target ++ rest) := by
  rw [resolveFrom, h]

end Equations

section Two

variable {w w' : Workspace} {closed : Location → Bool} {place : Location} {names : List Name}

/-- Nothing below a closed directory is looked at. -/
def StaysOut (closed : Location → Bool) (places : List Location) : Prop := ∀ place ∈ places, ¬Below closed place

/-- **Names that stay outside lead to the same place, outside**, up to the first link. -/
theorem advance_outside (hprune : w.tree.prune closed [] = w'.tree.prune closed []) (followLast : Bool)
    (hplace : ¬Below closed place) (h : StaysOut closed (w.visits place names)) :
    w.advance followLast place names = w'.advance followLast place names ∧
      ∀ q ∈ (w.advance followLast place names).place?, ¬Below closed q := by
  induction names generalizing place with
  | nil =>
    refine ⟨rfl, fun q hq => ?_⟩
    cases hq
    exact hplace
  | cons name rest ih =>
    unfold visits at h
    unfold advance
    by_cases hdot : name = [] ∨ name = Path.dot
    · rw [if_pos hdot] at h
      rw [if_pos hdot, if_pos hdot]
      exact ih hplace h
    rw [if_neg hdot] at h
    rw [if_neg hdot, if_neg hdot]
    by_cases hdots : name = Path.dotDot
    · rw [if_pos hdots] at h
      rw [if_pos hdots, if_pos hdots]
      exact ih (Node.not_within_of_prefix hplace (List.dropLast_prefix _)) h
    rw [if_neg hdots] at h
    rw [if_neg hdots, if_neg hdots]
    by_cases hlong : maxName < name.length
    · rw [if_pos hlong, if_pos hlong]
      exact ⟨rfl, fun q hq => nomatch hq⟩
    rw [if_neg hlong] at h
    rw [if_neg hlong, if_neg hlong]
    obtain ⟨hhere, hrest⟩ := List.forall_mem_cons.mp h
    have hlike := Node.like_at? hprune hhere
    revert hrest hlike
    generalize w.tree.at? (place ++ [name]) = found
    generalize w'.tree.at? (place ++ [name]) = found'
    intro hrest hlike
    cases hlike with
    | missing => exact ⟨rfl, fun q hq => nomatch hq⟩
    | directory _ _ => exact ih hhere hrest
    | file _ =>
      refine ⟨rfl, fun q hq => ?_⟩
      dsimp only at hq
      split at hq
      · cases hq
        exact hhere
      · cases hq
    | link _ =>
      refine ⟨rfl, fun q hq => ?_⟩
      dsimp only at hq
      split at hq
      · cases hq
        exact hhere
      · cases hq
        exact hplace

theorem not_below_startOf (h : ¬Below closed place) (target : Bytes) : ¬Below closed (startOf place target) := by
  unfold startOf
  split
  · exact Node.not_within_of_prefix h List.nil_prefix
  · exact h

/-- **A path that stays outside leads to the same place, outside.** -/
theorem resolveFrom_outside (hprune : w.tree.prune closed [] = w'.tree.prune closed []) {links : Nat}
    {place : Location} {names : List Name} (hplace : ¬Below closed place)
    (h : StaysOut closed (w.trail links place names)) :
    w.resolveFrom true links place names = w'.resolveFrom true links place names ∧
      ∀ found, w.resolveFrom true links place names = .ok found → ¬Below closed found := by
  have hvisits : StaysOut closed (w.visits place names) := fun q hq => h q (visits_subset_trail links hq)
  obtain ⟨hadvance, hled⟩ := advance_outside hprune true hplace hvisits
  cases ha : w.advance true place names with
  | arrived found =>
    rw [ha] at hled
    rw [resolveFrom_of_arrived ha, resolveFrom_of_arrived (hadvance ▸ ha)]
    refine ⟨rfl, fun q hq => ?_⟩
    cases hq
    exact hled found rfl
  | failed cause =>
    rw [resolveFrom_of_failed ha, resolveFrom_of_failed (hadvance ▸ ha)]
    exact ⟨rfl, fun q hq => nomatch hq⟩
  | atLink found target rest =>
    rw [ha] at hled
    cases links with
    | zero =>
      rw [resolveFrom_zero_of_atLink ha, resolveFrom_zero_of_atLink (hadvance ▸ ha)]
      exact ⟨rfl, fun q hq => nomatch hq⟩
    | succ links =>
      rw [resolveFrom_succ_of_atLink ha, resolveFrom_succ_of_atLink (hadvance ▸ ha)]
      cases htarget : target.isEmpty with
      | true => exact ⟨rfl, fun q hq => nomatch hq⟩
      | false =>
        rw [trail_of_atLink ha htarget] at h
        simp only [Bool.false_eq_true, if_false]
        exact resolveFrom_outside hprune (not_below_startOf (hled found rfl) target)
          fun q hq => h q (List.mem_append_right _ hq)
termination_by links

end Two

/-! ## 3. Links that stay outside -/

/-- **A link in the directory `place` leads into a closed directory**: it looks below one, or ends at one. -/
def LeadsInto (closed : Location → Bool) (w : Workspace) (place : Location) (target : Bytes) : Prop :=
  (∃ q ∈ w.trail maxLinks (startOf place target) (Path.names target), Below closed q) ∨
    ∃ q ∈ (w.resolveFrom true maxLinks (startOf place target) (Path.names target)).toOption,
      closed q = true ∧ (w.tree.at? q).any Node.isDirectory = true

instance (closed : Location → Bool) (w : Workspace) (place : Location) (target : Bytes) :
    Decidable (LeadsInto closed w place target) := by
  unfold LeadsInto
  infer_instance

/-- The target of a link. -/
def targetOf? : Node → Option Bytes
  | .link target => some target
  | .file _ | .directory _ => none

/-- **No link outside leads into a closed directory.** -/
def LinksStayOut (closed : Location → Bool) (w : Workspace) : Prop :=
  ∀ place ∈ (w.tree.prune closed []).places, ∀ entry ∈ (w.tree.prune closed []).entriesAt place,
    ∀ target ∈ targetOf? entry.2, ¬LeadsInto closed w place target

instance (closed : Location → Bool) (w : Workspace) : Decidable (LinksStayOut closed w) := by
  unfold LinksStayOut
  infer_instance

section Outside

variable {w w' : Workspace} {closed : Location → Bool} {place : Location}

theorem LinksStayOut.of_mem (h : LinksStayOut closed w) {name : Name} {target : Bytes}
    (hmem : (name, .link target) ∈ (w.tree.prune closed []).entriesAt place) : ¬LeadsInto closed w place target := by
  have hplace : place ∈ (w.tree.prune closed []).places := by
    cases hat : (w.tree.prune closed []).at? place with
    | none =>
      unfold Node.entriesAt at hmem
      rw [hat] at hmem
      exact absurd hmem List.not_mem_nil
    | some m => exact Node.mem_places hat
  exact h place hplace (name, .link target) hmem target rfl

/-- What a link outside leads to is the same in both, and outside. -/
theorem resolve_link_eq (hprune : w.tree.prune closed [] = w'.tree.prune closed []) (hplace : ¬Within closed place)
    {target : Bytes} (h : ¬LeadsInto closed w place target) :
    w.resolveFrom true maxLinks (startOf place target) (Path.names target) =
        w'.resolveFrom true maxLinks (startOf place target) (Path.names target) ∧
      ∀ found entries, w.resolveFrom true maxLinks (startOf place target) (Path.names target) = .ok found →
        ¬Below closed found ∧ (w.tree.at? found = some (.directory entries) → ¬Within closed found) := by
  have hstays : StaysOut closed (w.trail maxLinks (startOf place target) (Path.names target)) :=
    fun q hq hbelow => h (.inl ⟨q, hq, hbelow⟩)
  have hstart := not_below_startOf (Node.not_below_of_not_within hplace) target
  obtain ⟨heq, hfound⟩ := resolveFrom_outside hprune hstart hstays
  refine ⟨heq, fun found entries hok => ⟨hfound found hok, fun hat => ?_⟩⟩
  refine Node.not_within_of_not_below (hfound found hok) ?_
  rw [← Bool.not_eq_true]
  intro hclosed
  refine h (.inr ⟨found, ?_, hclosed, by rw [hat]; rfl⟩)
  rw [hok]
  rfl

/-- A name alone looks at its own place. -/
theorem visits_name {name : Name} : ∀ q ∈ w.visits place [name], q = place ++ [name] := by
  intro q hq
  unfold visits at hq
  split at hq
  · exact absurd hq List.not_mem_nil
  split at hq
  · exact absurd hq List.not_mem_nil
  split at hq
  · exact absurd hq List.not_mem_nil
  refine (List.mem_cons.mp hq).resolve_right fun hrest => ?_
  split at hrest <;> exact absurd hrest List.not_mem_nil

/-- A name alone meets the link of this name. -/
theorem advance_name {name : Name} {found : Location} {target : Bytes} {rest : List Name}
    (h : w.advance true place [name] = .atLink found target rest) :
    found = place ∧ rest = [] ∧ w.tree.at? (place ++ [name]) = some (.link target) := by
  unfold advance at h
  split at h
  · cases h
  split at h
  · cases h
  split at h
  · cases h
  cases hat : w.tree.at? (place ++ [name]) with
  | none =>
    rw [hat] at h
    cases h
  | some node =>
    rw [hat] at h
    cases node with
    | file _ => cases h
    | directory _ => cases h
    | link _ =>
      cases h
      exact ⟨rfl, rfl, rfl⟩

/-- What a name outside leads to is the same in both, and not below a closed directory. -/
theorem resolve_name_eq (hprune : w.tree.prune closed [] = w'.tree.prune closed []) (hlinks : LinksStayOut closed w)
    (hplace : ¬Within closed place) (name : Name) :
    w.resolveFrom true maxLinks place [name] = w'.resolveFrom true maxLinks place [name] ∧
      ∀ found, w.resolveFrom true maxLinks place [name] = .ok found → ¬Below closed found := by
  refine resolveFrom_outside hprune (Node.not_below_of_not_within hplace) fun q hq => ?_
  have hvisits : StaysOut closed (w.visits place [name]) := by
    intro q hq
    rw [visits_name q hq]
    exact Node.not_below_concat hplace
  unfold trail at hq
  rcases List.mem_append.mp hq with hq | hq
  · exact hvisits q hq
  cases ha : w.advance true place [name] with
  | arrived _ =>
    rw [ha] at hq
    exact absurd hq List.not_mem_nil
  | failed _ =>
    rw [ha] at hq
    exact absurd hq List.not_mem_nil
  | atLink found target rest =>
    obtain ⟨rfl, rfl, hat⟩ := advance_name ha
    -- the link is an entry outside, and its trail is longer with all forty links
    have hmem : (name, Node.link target) ∈ (w.tree.prune closed []).entriesAt found := by
      rw [Node.entriesAt_prune _ hplace]
      rw [Node.at?_concat] at hat
      exact List.mem_map.mpr ⟨(name, .link target), Node.mem_of_lookup hat, rfl⟩
    have htrail : q ∈ w.trail maxLinks (startOf found target) (Path.names target) := by
      rw [ha] at hq
      cases htarget : target.isEmpty with
      | true =>
        simp only [maxLinks, htarget, if_true] at hq
        exact absurd hq List.not_mem_nil
      | false =>
        simp only [maxLinks, htarget, Bool.false_eq_true, if_false, List.append_nil] at hq
        exact trail_subset_succ 39 _ _ hq
    exact fun hbelow => hlinks.of_mem hmem (.inl ⟨q, htrail, hbelow⟩)

end Outside

end Workspace
end Ambient
