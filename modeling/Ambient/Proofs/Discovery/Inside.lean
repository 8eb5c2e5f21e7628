import Ambient.Proofs.Discovery.Outside
import Ambient.Proofs.Workspace.Proper

/-!
# Walks that stay inside

What is known of a file system is the workspace. A walk STAYS INSIDE if it starts there and no link that it follows
leads to the top. In a proper workspace all names that it comes by are then proper ones
(`isName_of_mem_findings`).
-/

namespace Ambient

namespace Walk

variable {w : Workspace} {o : WalkOptions} {here : Here} {steps : Nat} {f : Finding}

/-! ## 1. Links -/

/-- **No link that is followed leads to the top.** -/
def LinksStayInside (w : Workspace) (o : WalkOptions) : Prop :=
  o.followLinks = true → ∀ place ∈ w.tree.places, ∀ entry ∈ w.tree.entriesAt place,
    ∀ target ∈ Workspace.targetOf? entry.2,
      (w.resolveFrom true Workspace.maxLinks (Workspace.startOf place target) (Path.names target)).toOption ≠ some []

instance (w : Workspace) (o : WalkOptions) : Decidable (LinksStayInside w o) := by
  unfold LinksStayInside
  infer_instance

/-- A link leads to a place only where links are followed. -/
theorem targetOf_link {name : Name} {target : Bytes} {found : Target}
    (h : targetOf w o here name (.link target) = .ok found) (hfound : found ≠ .other) :
    o.followLinks = true ∧ followed w o here name target = .ok found := by
  unfold targetOf at h
  dsimp only at h
  split at h
  · rename_i hfollow
    exact ⟨hfollow, h⟩
  · cases h
    exact absurd rfl hfound

/-- A directory further down is not the top. -/
theorem place_ne_nil (hlinks : LinksStayInside w o) {name : Name} {node : Node} {place : Location}
    (hentry : (name, node) ∈ w.tree.entriesAt here.place)
    (h : targetOf w o here name node = .ok (.directory place)) : place ≠ [] := by
  cases node with
  | file _ => cases h
  | directory _ =>
    cases h
    exact List.append_ne_nil_of_right_ne_nil _ (List.cons_ne_nil _ _)
  | link target =>
    obtain ⟨hfollow, hfollowed⟩ := targetOf_link h Target.noConfusion
    obtain ⟨entries, hat, -⟩ := Workspace.IsProper.exists_of_mem_entriesAt hentry
    have hinside := hlinks hfollow here.place (Node.mem_places hat) (name, .link target) hentry target rfl
    rw [(followed_eq_directory hfollowed).1] at hinside
    exact fun hnil => hinside (congrArg some hnil)

/-! ## 2. Names -/

/-- **Below a directory, all names of a finding are proper.** -/
theorem isName_of_mem_findings (hw : w.IsProper) (hlinks : LinksStayInside w o) (hplace : here.place ≠ [])
    (h : f ∈ findings w o steps here) :
    ∃ more, f.names = here.names ++ more ∧ ∀ name ∈ more, Workspace.IsName name := by
  induction steps generalizing here with
  | zero => exact absurd h List.not_mem_nil
  | succ steps ih =>
    obtain ⟨name, node, hentry, hat⟩ := exists_entry h
    have hname : ∀ n ∈ [name], Workspace.IsName n := by
      rw [List.forall_mem_singleton]
      exact hw.isName_of_mem hplace hentry
    cases hat with
    | fault _ hf => exact ⟨[name], hf ▸ rfl, hname⟩
    | file _ hf => exact ⟨[name], hf ▸ rfl, hname⟩
    | directory htarget hf =>
      obtain ⟨more, hnames, hmore⟩ := @ih (here.enter w o name _) (place_ne_nil hlinks hentry htarget) hf
      refine ⟨[name] ++ more, hnames.trans ?_, List.forall_mem_append.mpr ⟨hname, hmore⟩⟩
      exact List.append_assoc here.names [name] more

theorem isName_of_found (hw : w.IsProper) (hlinks : LinksStayInside w o) {place : Location} (hplace : place ≠ [])
    {fs : List Finding} (h : found w o place = .ok fs) (hf : f ∈ fs) : ∀ name ∈ f.names, Workspace.IsName name := by
  unfold found at h
  split at h
  · cases h
  · cases h
    have hstart : (Here.start w o place).place ≠ [] := hplace
    obtain ⟨more, hnames, hmore⟩ := isName_of_mem_findings hw hlinks hstart hf
    rw [hnames]
    exact hmore

end Walk

namespace Discovery

/-- **The walk starts in the workspace and stays there.** -/
structure StaysInside (s : DiscoverySettings) (w : Workspace) : Prop where
  root : rootPlace s w ≠ []
  links : Walk.LinksStayInside w (walkOptions s)

end Discovery
end Ambient
