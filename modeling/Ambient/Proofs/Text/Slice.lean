import Ambient.Proofs.Text.Cut

/-!
# Slices

A slice of a text is given by byte offsets. It fails where an offset is beyond the end or within a character, and
where the second offset is before the first.

* `splitAt?_eq_some_iff`: an offset is good exactly if it is the length of a beginning of the text;
* `sliceFrom_append`, `sliceTo_append`, `slice_append`: slices at the seams of a text do not fail;
* `offset?_cut`, `sliceTo_cut`, `sliceFrom_cut`: what is searched is found at a seam.
-/

namespace Ambient.Text

/-- Why a piece of a text cannot be had. -/
inductive Failure where
  /-- An offset that is beyond the end or within a character. -/
  | boundary
  /-- A piece that ends before it starts. -/
  | reversed
  /-- A character counted beyond the last. -/
  | index
  deriving DecidableEq, Repr

variable {t a b w : Text} {c : Char} {m n : Nat}

/-! ## 1. Offsets -/

theorem byteLength_append (a b : Text) : byteLength (a ++ b) = byteLength a + byteLength b := by
  induction a with
  | nil => exact (Nat.zero_add _).symm
  | cons c a ih => rw [List.cons_append, byteLength, ih, byteLength, Nat.add_assoc]

theorem byteLength_singleton (c : Char) : byteLength [c] = c.utf8Size := Nat.add_zero _

/-- The text before and behind an offset. -/
def splitAt? : Text → Nat → Option (Text × Text)
  | t, 0 => some ([], t)
  | [], _ + 1 => none
  | c :: t, n + 1 =>
    if c.utf8Size ≤ n + 1 then (splitAt? t (n + 1 - c.utf8Size)).map fun (before, behind) => (c :: before, behind)
    else none

theorem splitAt?_zero (t : Text) : splitAt? t 0 = some ([], t) := by cases t <;> rfl

theorem splitAt?_append (a b : Text) : splitAt? (a ++ b) (byteLength a) = some (a, b) := by
  induction a with
  | nil => exact splitAt?_zero b
  | cons c a ih =>
    obtain ⟨n, hn⟩ := Nat.exists_eq_succ_of_ne_zero (by have := c.utf8Size_pos; omega : c.utf8Size + byteLength a ≠ 0)
    have hle : c.utf8Size ≤ n + 1 := by omega
    have hleft : n + 1 - c.utf8Size = byteLength a := by omega
    rw [List.cons_append, byteLength, hn, splitAt?, if_pos hle, hleft, ih]
    rfl

/-- **An offset is good exactly if it is the length of a beginning.** -/
theorem splitAt?_eq_some_iff : splitAt? t n = some (a, b) ↔ t = a ++ b ∧ byteLength a = n := by
  constructor
  · intro h
    induction t generalizing n a with
    | nil =>
      cases n with
      | zero =>
        cases h
        exact ⟨rfl, rfl⟩
      | succ n => cases h
    | cons c t ih =>
      cases n with
      | zero =>
        cases h
        exact ⟨rfl, rfl⟩
      | succ n =>
        unfold splitAt? at h
        split at h
        · rename_i hle
          obtain ⟨p, hp, e⟩ := Option.map_eq_some_iff.mp h
          cases e
          obtain ⟨rfl, hlength⟩ := ih hp
          exact ⟨rfl, by rw [byteLength, hlength]; omega⟩
        · cases h
  · rintro ⟨rfl, rfl⟩
    exact splitAt?_append a b

/-- **A boundary between two characters**, or the start or the end. -/
def IsBoundary (t : Text) (n : Nat) : Prop := ∃ a b, t = a ++ b ∧ byteLength a = n

theorem IsBoundary.le (h : IsBoundary t n) : n ≤ byteLength t := by
  obtain ⟨a, b, rfl, rfl⟩ := h
  rw [byteLength_append]
  omega

/-! ## 2. Slices -/

/-- The text behind an offset. -/
def sliceFrom (t : Text) (n : Nat) : Except Failure Text :=
  match splitAt? t n with
  | some (_, behind) => .ok behind
  | none => .error .boundary

/-- The text before an offset. -/
def sliceTo (t : Text) (n : Nat) : Except Failure Text :=
  match splitAt? t n with
  | some (before, _) => .ok before
  | none => .error .boundary

/-- The text between two offsets. -/
def slice (t : Text) (m n : Nat) : Except Failure Text :=
  if n < m then .error .reversed else do
    let before ← sliceTo t n
    sliceFrom before m

theorem sliceFrom_append (hn : byteLength a = n) (b : Text) : sliceFrom (a ++ b) n = .ok b := by
  rw [sliceFrom, ← hn, splitAt?_append]

theorem sliceTo_append (hn : byteLength a = n) (b : Text) : sliceTo (a ++ b) n = .ok a := by
  rw [sliceTo, ← hn, splitAt?_append]

theorem slice_append (hm : byteLength a = m) (hn : m + byteLength b = n) (d : Text) :
    slice (a ++ (b ++ d)) m n = .ok b := by
  have hlength : byteLength (a ++ b) = n := by rw [byteLength_append, hm, hn]
  have hle : ¬n < m := by omega
  rw [slice, if_neg hle, ← List.append_assoc, sliceTo_append hlength]
  exact sliceFrom_append hm b

/-! ## 3. Searches -/

/-- The offset of the first place of `w`. -/
def offset? (w t : Text) : Option Nat := (cut? w t).map fun (before, _) => byteLength before

/-- The offset of the last `c`. -/
def lastOffset? (c : Char) (t : Text) : Option Nat := (beforeLast? c t).map byteLength

theorem offset?_eq_none (h : c ∉ t) : offset? [c] t = none := by
  rw [offset?, cut?_eq_none h]
  rfl

theorem offset?_append (h : c ∉ a) (b : Text) : offset? [c] (a ++ c :: b) = some (byteLength a) := by
  rw [offset?, cut?_singleton_iff.mpr ⟨rfl, h⟩]
  rfl

/-- The pieces around a word that is found are good slices. -/
theorem sliceTo_cut (h : cut? w t = some (a, b)) : sliceTo t (byteLength a) = .ok a := by
  rw [eq_of_cut? h, List.append_assoc]
  exact sliceTo_append rfl (w ++ b)

theorem sliceFrom_cut (h : cut? w t = some (a, b)) : sliceFrom t (byteLength a + byteLength w) = .ok b := by
  rw [eq_of_cut? h]
  exact sliceFrom_append (byteLength_append a w) b

theorem offset?_cut (h : cut? w t = some (a, b)) : offset? w t = some (byteLength a) := by
  rw [offset?, h]
  rfl

theorem offset?_of_none (h : cut? w t = none) : offset? w t = none := by
  rw [offset?, h]
  rfl

end Ambient.Text
