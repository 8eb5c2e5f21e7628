import Ambient.Proofs.Workspace.Proper
import Ambient.Proofs.Workspace.Resolve
import Mathlib.Data.List.Basic

/-!
# Ways

Names that are resolved lead from a directory to a place, by way of so many links: `Leads`. With fewer links they are
a loop, and with more nothing changes, whatever names come behind. So ways can be put together
(`Leads.trans`), and links add up.

Whatever is resolved is a way (`exists_leads`), and ends at a file or at a directory (`file_or_directory`). From the
top nothing is reached but the top (`resolveFrom_top`).
-/

namespace Ambient.Workspace

/-- There is a directory at the place. -/
def HasDirectory (w : Workspace) (place : Location) : Prop := ∃ entries, w.tree.at? place = some (.directory entries)

variable {w : Workspace} {place found q : Location} {names more rest : List Name} {name : Name} {target : Bytes}

/-! ## 1. Up to the next link -/

theorem advance_idle (h : name = [] ∨ name = Path.dot) (place : Location) (names : List Name) :
    w.advance true place (name :: names) = w.advance true place names := by
  rw [advance, if_pos h]

theorem advance_up (place : Location) (names : List Name) :
    w.advance true place (Path.dotDot :: names) = w.advance true place.dropLast names := by
  rw [advance, if_neg (by decide), if_pos rfl]

/-- A name that is looked up. -/
structure IsStep (name : Name) : Prop where
  idle : ¬(name = [] ∨ name = Path.dot)
  up : name ≠ Path.dotDot

theorem IsName.isStep (h : IsName name) : IsStep name := ⟨not_or.mpr ⟨h.ne_nil, h.ne_dot⟩, h.ne_dotDot⟩

theorem advance_step (h : IsStep name) (place : Location) (names : List Name) :
    w.advance true place (name :: names) =
      if maxName < name.length then .failed .nameTooLong
      else
        match w.tree.at? (place ++ [name]) with
        | none => .failed .missing
        | some (.directory _) => w.advance true (place ++ [name]) names
        | some (.file _) => if names.isEmpty then .arrived (place ++ [name]) else .failed .notDirectory
        | some (.link target) => .atLink place target names := by
  rw [advance, if_neg h.idle, if_neg h.up]
  split
  · rfl
  · cases w.tree.at? (place ++ [name]) with
    | none => rfl
    | some node =>
      cases node with
      | file _ => rfl
      | directory _ => rfl
      | link _ =>
        dsimp only
        rw [Bool.not_true, Bool.and_false, if_neg Bool.false_ne_true]

/-- **Names are passed over, go up, or are looked up.** -/
theorem name_cases (name : Name) : (name = [] ∨ name = Path.dot) ∨ name = Path.dotDot ∨ IsStep name := by
  by_cases hidle : name = [] ∨ name = Path.dot
  · exact .inl hidle
  by_cases hup : name = Path.dotDot
  · exact .inr (.inl hup)
  · exact .inr (.inr ⟨hidle, hup⟩)

/-- **What comes behind is looked at from where one has arrived**, if that is a directory. -/
theorem advance_append_of_arrived (h : w.advance true place names = .arrived q) (hrest : rest = [] ∨ w.HasDirectory q) :
    w.advance true place (names ++ rest) = w.advance true q rest := by
  induction names generalizing place with
  | nil =>
    rw [advance] at h
    cases h
    rfl
  | cons name names ih =>
    rw [List.cons_append]
    rcases name_cases name with hidle | rfl | hstep
    · rw [advance_idle hidle] at h ⊢
      exact ih h
    · rw [advance_up] at h ⊢
      exact ih h
    · rw [advance_step hstep] at h ⊢
      split at h
      · cases h
      rename_i hlength
      rw [if_neg hlength]
      cases hat : w.tree.at? (place ++ [name]) with
      | none =>
        rw [hat] at h
        cases h
      | some node =>
        rw [hat] at h
        cases node with
        | directory _ => exact ih h
        | link _ => cases h
        | file content =>
          dsimp only at h ⊢
          split at h
          · rename_i hempty
            cases h
            rw [List.isEmpty_iff.mp hempty, List.nil_append]
            rcases hrest with rfl | ⟨entries, hdirectory⟩
            · rfl
            · rw [hat] at hdirectory
              cases hdirectory
          · cases h

theorem advance_append_of_atLink (h : w.advance true place names = .atLink found target more) (rest : List Name) :
    w.advance true place (names ++ rest) = .atLink found target (more ++ rest) := by
  induction names generalizing place with
  | nil =>
    rw [advance] at h
    cases h
  | cons name names ih =>
    rw [List.cons_append]
    rcases name_cases name with hidle | rfl | hstep
    · rw [advance_idle hidle] at h ⊢
      exact ih h
    · rw [advance_up] at h ⊢
      exact ih h
    · rw [advance_step hstep] at h ⊢
      split at h
      · cases h
      rename_i hlength
      rw [if_neg hlength]
      cases hat : w.tree.at? (place ++ [name]) with
      | none =>
        rw [hat] at h
        cases h
      | some node =>
        rw [hat] at h
        cases node with
        | directory _ => exact ih h
        | link _ =>
          cases h
          rfl
        | file content =>
          dsimp only at h
          split at h <;> cases h

/-! ## 2. Ways -/

/-- What a path leads to is told by its way up to the next link. -/
theorem resolveFrom_congr {place' : Location} {names' : List Name}
    (h : w.advance true place names = w.advance true place' names') (links : Nat) :
    w.resolveFrom true links place names = w.resolveFrom true links place' names' := by
  unfold resolveFrom
  rw [h]

/-- **What is resolved is arrived at, or there is a link on the way to it.** -/
theorem resolveFrom_ok_cases {links : Nat} (h : w.resolveFrom true links place names = .ok q) :
    w.advance true place names = .arrived q ∨
      ∃ left found target rest, links = left + 1 ∧ w.advance true place names = .atLink found target rest ∧
        target.isEmpty = false ∧
        w.resolveFrom true left (startOf found target) (Path.names target ++ rest) = .ok q := by
  cases ha : w.advance true place names with
  | arrived found =>
    rw [resolveFrom_of_arrived ha] at h
    cases h
    exact .inl rfl
  | failed _ =>
    rw [resolveFrom_of_failed ha] at h
    cases h
  | atLink found target rest =>
    cases links with
    | zero =>
      rw [resolveFrom_zero_of_atLink ha] at h
      cases h
    | succ left =>
      rw [resolveFrom_succ_of_atLink ha] at h
      split at h
      · cases h
      · rename_i htarget
        exact .inr ⟨left, found, target, rest, rfl, rfl, eq_false_of_ne_true htarget, h⟩

/-- **The names lead to `q` by way of `k` links**, and what is behind them is then looked at from there. -/
structure Leads (w : Workspace) (place : Location) (names : List Name) (k : Nat) (q : Location) (rest : List Name) :
    Prop where
  goes : ∀ links, w.resolveFrom true (k + links) place (names ++ rest) = w.resolveFrom true links q rest
  loops : ∀ links < k, w.resolveFrom true links place (names ++ rest) = .error .linkLoop

/-- **Ways can be put together.** -/
theorem Leads.trans {k k' : Nat} {q' : Location} (h : w.Leads place names k q (more ++ rest))
    (h' : w.Leads q more k' q' rest) : w.Leads place (names ++ more) (k + k') q' rest where
  goes links := by rw [List.append_assoc, Nat.add_assoc, h.goes, h'.goes]
  loops links hlinks := by
    rw [List.append_assoc]
    rcases Nat.lt_or_ge links k with hlt | hge
    · exact h.loops links hlt
    · obtain ⟨left, rfl⟩ := Nat.exists_eq_add_of_le hge
      rw [h.goes, h'.loops left (by omega)]

/-- Up to the next link there is none. -/
theorem leads_of_arrived (h : w.advance true place names = .arrived q) (hrest : rest = [] ∨ w.HasDirectory q) :
    w.Leads place names 0 q rest where
  goes links := by
    rw [Nat.zero_add]
    exact resolveFrom_congr (advance_append_of_arrived h hrest) links
  loops _ hlinks := absurd hlinks (Nat.not_lt_zero _)

/-- Behind a link there is one more. -/
theorem leads_of_atLink {k : Nat} (h : w.advance true place names = .atLink found target more)
    (htarget : target.isEmpty = false)
    (hmore : w.Leads (startOf found target) (Path.names target ++ more) k q rest) :
    w.Leads place names (k + 1) q rest where
  goes links := by
    rw [Nat.add_right_comm, resolveFrom_succ_of_atLink (advance_append_of_atLink h rest), htarget,
      if_neg Bool.false_ne_true, ← List.append_assoc, hmore.goes]
  loops links hlinks := by
    cases links with
    | zero => exact resolveFrom_zero_of_atLink (advance_append_of_atLink h rest)
    | succ links =>
      rw [resolveFrom_succ_of_atLink (advance_append_of_atLink h rest), htarget, if_neg Bool.false_ne_true,
        ← List.append_assoc, hmore.loops links (Nat.lt_of_succ_lt_succ hlinks)]

/-- **What is resolved is a way.** -/
theorem exists_leads {links : Nat} (h : w.resolveFrom true links place names = .ok q) :
    ∃ k ≤ links, ∀ rest, rest = [] ∨ w.HasDirectory q → w.Leads place names k q rest := by
  induction links generalizing place names with
  | zero =>
    rcases resolveFrom_ok_cases h with ha | ⟨left, _, _, _, hleft, -⟩
    · exact ⟨0, Nat.le_refl _, fun rest hrest => leads_of_arrived ha hrest⟩
    · exact absurd hleft (Nat.succ_ne_zero left).symm
  | succ links ih =>
    rcases resolveFrom_ok_cases h with ha | ⟨left, found, target, more, hleft, ha, htarget, hmore⟩
    · exact ⟨0, Nat.zero_le _, fun rest hrest => leads_of_arrived ha hrest⟩
    · obtain rfl := Nat.succ.inj hleft
      obtain ⟨k, hk, hleads⟩ := ih hmore
      exact ⟨k + 1, Nat.succ_le_succ hk, fun rest hrest => leads_of_atLink ha htarget (hleads rest hrest)⟩

/-! ## 3. Slashes at the end -/

/-- **What a path with a slash at its end leads to, it leads to without.** -/
theorem advance_of_concat_nil :
    (∀ q, w.advance true place (names ++ [[]]) = .arrived q → w.advance true place names = .arrived q) ∧
      ∀ found target rest, w.advance true place (names ++ [[]]) = .atLink found target rest →
        ∃ more, rest = more ++ [[]] ∧ w.advance true place names = .atLink found target more := by
  induction names generalizing place with
  | nil =>
    rw [List.nil_append, advance_idle (.inl rfl)]
    refine ⟨fun _ => id, fun _ _ _ h => ?_⟩
    rw [advance] at h
    cases h
  | cons name names ih =>
    rw [List.cons_append]
    rcases name_cases name with hidle | rfl | hstep
    · rw [advance_idle hidle, advance_idle hidle]
      exact ih
    · rw [advance_up, advance_up]
      exact ih
    · rw [advance_step hstep, advance_step hstep]
      split
      · exact ⟨fun _ h => (nomatch h), fun _ _ _ h => (nomatch h)⟩
      cases hat : w.tree.at? (place ++ [name]) with
      | none => exact ⟨fun _ h => (nomatch h), fun _ _ _ h => (nomatch h)⟩
      | some node =>
        cases node with
        | directory _ => exact ih
        | file _ =>
          have hempty : (names ++ [[]]).isEmpty = false :=
            List.isEmpty_eq_false_iff.mpr (List.append_ne_nil_of_right_ne_nil _ (List.cons_ne_nil _ _))
          dsimp only
          rw [hempty, if_neg Bool.false_ne_true]
          exact ⟨fun _ h => (nomatch h), fun _ _ _ h => (nomatch h)⟩
        | link _ =>
          refine ⟨fun _ h => (nomatch h), fun _ _ _ h => ?_⟩
          cases h
          exact ⟨names, rfl, rfl⟩

theorem resolveFrom_of_concat_nil {links : Nat} (h : w.resolveFrom true links place (names ++ [[]]) = .ok q) :
    w.resolveFrom true links place names = .ok q := by
  induction links generalizing place names with
  | zero =>
    rcases resolveFrom_ok_cases h with ha | ⟨left, _, _, _, hleft, -⟩
    · exact resolveFrom_of_arrived (advance_of_concat_nil.1 _ ha) 0
    · exact absurd hleft (Nat.succ_ne_zero left).symm
  | succ links ih =>
    rcases resolveFrom_ok_cases h with ha | ⟨left, found, target, rest, hleft, ha, htarget, hrest⟩
    · exact resolveFrom_of_arrived (advance_of_concat_nil.1 _ ha) _
    · obtain rfl := Nat.succ.inj hleft
      obtain ⟨more, rfl, hmore⟩ := advance_of_concat_nil.2 _ _ _ ha
      rw [resolveFrom_succ_of_atLink hmore, htarget, if_neg Bool.false_ne_true]
      rw [← List.append_assoc] at hrest
      exact ih hrest

/-! ## 4. Ends -/

theorem resolveFrom_nil (links : Nat) (place : Location) : w.resolveFrom true links place [] = .ok place := by
  refine resolveFrom_of_arrived ?_ links
  rw [advance]

/-- A way with enough links ends where it leads to. -/
theorem Leads.resolve {k links : Nat} (h : w.Leads place names k q []) :
    w.resolveFrom true links place names = if k ≤ links then .ok q else .error .linkLoop := by
  have hgoes := h.goes
  have hloops := h.loops
  rw [List.append_nil] at hgoes hloops
  split
  · rename_i hle
    obtain ⟨left, rfl⟩ := Nat.exists_eq_add_of_le hle
    rw [hgoes, resolveFrom_nil]
  · rename_i hlt
    exact hloops links (Nat.lt_of_not_le hlt)

theorem HasDirectory.dropLast (h : w.HasDirectory place) : w.HasDirectory place.dropLast := by
  rcases List.eq_nil_or_concat place with rfl | ⟨init, last, rfl⟩
  · exact h
  · rw [List.concat_eq_append] at h ⊢
    rw [List.dropLast_concat]
    obtain ⟨entries, hat⟩ := h
    rw [Node.at?_append] at hat
    obtain ⟨m, hm, hlast⟩ := Option.bind_eq_some_iff.mp hat
    cases m with
    | file _ => cases hlast
    | link _ => cases hlast
    | directory inner => exact ⟨inner, hm⟩

/-- There is a file or a directory at the place. -/
def HasEnd (w : Workspace) (place : Location) : Prop :=
  (∃ content, w.tree.at? place = some (.file content)) ∨ w.HasDirectory place

/-- From a directory names lead to a file or a directory, or to a link that is in a directory. -/
theorem hasEnd_of_advance (hplace : w.HasDirectory place) :
    (∀ q, w.advance true place names = .arrived q → w.HasEnd q) ∧
      ∀ found target more, w.advance true place names = .atLink found target more → w.HasDirectory found := by
  induction names generalizing place with
  | nil =>
    rw [advance]
    refine ⟨fun q h => ?_, fun _ _ _ h => (nomatch h)⟩
    cases h
    exact .inr hplace
  | cons name names ih =>
    rcases name_cases name with hidle | rfl | hstep
    · rw [advance_idle hidle]
      exact ih hplace
    · rw [advance_up]
      exact ih hplace.dropLast
    · rw [advance_step hstep]
      split
      · exact ⟨fun _ h => (nomatch h), fun _ _ _ h => (nomatch h)⟩
      cases hat : w.tree.at? (place ++ [name]) with
      | none => exact ⟨fun _ h => (nomatch h), fun _ _ _ h => (nomatch h)⟩
      | some node =>
        cases node with
        | directory entries => exact ih ⟨entries, hat⟩
        | link _ =>
          refine ⟨fun _ h => (nomatch h), fun found target more h => ?_⟩
          cases h
          exact hplace
        | file content =>
          dsimp only
          split
          · refine ⟨fun q h => ?_, fun _ _ _ h => (nomatch h)⟩
            cases h
            exact .inl ⟨content, hat⟩
          · exact ⟨fun _ h => (nomatch h), fun _ _ _ h => (nomatch h)⟩

theorem HasDirectory.startOf (htop : w.HasDirectory []) (h : w.HasDirectory place) (target : Bytes) :
    w.HasDirectory (Workspace.startOf place target) := by
  unfold Workspace.startOf
  split
  · exact htop
  · exact h

/-- **What is resolved is a file or a directory.** -/
theorem file_or_directory (htop : w.HasDirectory []) {links : Nat} (hplace : w.HasDirectory place)
    (h : w.resolveFrom true links place names = .ok q) : w.HasEnd q := by
  induction links generalizing place names with
  | zero =>
    rcases resolveFrom_ok_cases h with ha | ⟨left, _, _, _, hleft, -⟩
    · exact (hasEnd_of_advance hplace).1 _ ha
    · exact absurd hleft (Nat.succ_ne_zero left).symm
  | succ links ih =>
    rcases resolveFrom_ok_cases h with ha | ⟨left, found, target, rest, hleft, ha, -, hrest⟩
    · exact (hasEnd_of_advance hplace).1 _ ha
    · obtain rfl := Nat.succ.inj hleft
      exact ih (htop.startOf ((hasEnd_of_advance hplace).2 _ _ _ ha) target) hrest

/-! ## 5. The top -/

/-- In a proper workspace no name leads away from the top. -/
theorem advance_top (hw : w.IsProper) (names : List Name) :
    w.advance true [] names = .arrived [] ∨ ∃ cause, w.advance true [] names = .failed cause := by
  induction names with
  | nil => exact .inl (by rw [advance])
  | cons name names ih =>
    rcases name_cases name with hidle | rfl | hstep
    · rw [advance_idle hidle]
      exact ih
    · rw [advance_up]
      exact ih
    · rw [advance_step hstep]
      split
      · exact .inr ⟨_, rfl⟩
      · have hat : w.tree.at? ([] ++ [name]) = none := by
          cases hat : w.tree.at? ([] ++ [name]) with
          | none => rfl
          | some m =>
            obtain ⟨_, p, hplace, -⟩ := hw.exists_home hat (List.cons_ne_nil _ _)
            cases hplace
            exact absurd (.inl rfl) hstep.idle
        rw [hat]
        exact .inr ⟨_, rfl⟩

/-- **From the top nothing is reached but the top.** -/
theorem resolveFrom_top (hw : w.IsProper) {links : Nat} (h : w.resolveFrom true links [] names = .ok q) : q = [] := by
  rcases advance_top hw names with ha | ⟨cause, ha⟩
  · rw [resolveFrom_of_arrived ha] at h
    cases h
    rfl
  · rw [resolveFrom_of_failed ha] at h
    cases h

theorem IsProper.hasDirectory_top (hw : w.IsProper) : w.HasDirectory [] := by
  obtain ⟨entries, htree, -⟩ := hw
  exact ⟨[([], .directory entries)], by rw [htree]; rfl⟩

end Ambient.Workspace
