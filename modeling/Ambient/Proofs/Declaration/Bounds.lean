import Ambient.Declaration.InsertText
import Ambient.Proofs.Declaration.CallSkeleton
import Ambient.Proofs.Text.Slice
import Mathlib.Data.List.Basic

/-!
# The bounds of parameters

A call is taken apart by byte offsets. A walk over the characters outside every bracket pair records the offsets of
the commas and the offset at which it stops; the parameters are the slices between, and the name of a parameter is its
slice up to the offset of a colon.

* `forEachTopLevel_eq`: the walk goes over the characters that `markTopLevel` marks;
* `bounds_eq`, `colon_eq`: what two walks record; `isSound_bounds`: every slice between two bounds is good;
* `names_eq`, `signature_eq`, `insertText_eq`: no slice fails, and the insert text is what the slices make up.
-/

namespace Ambient.Sliced

open Text CallSkeleton

variable {σ : Type}

/-! ## 1. Walks -/

/-- Visits the characters outside every bracket pair with their offsets, until a visit ends the walk. -/
def forEachTopLevel (visit : Nat → Char → σ → σ × Bool) : Nat → Char → Nat → σ → Text → σ
  | _, _, _, s, [] => s
  | depth, before, index, s, c :: t =>
    if isOpening c then forEachTopLevel visit (depth + 1) c (index + c.utf8Size) s t
    else if isClosing before c && depth != 0 then forEachTopLevel visit (depth - 1) c (index + c.utf8Size) s t
    else if depth = 0 then
      if (visit index c s).2 then forEachTopLevel visit depth c (index + c.utf8Size) (visit index c s).1 t
      else (visit index c s).1
    else forEachTopLevel visit depth c (index + c.utf8Size) s t

/-- The visits to the characters that are marked. -/
def visitMarked (visit : Nat → Char → σ → σ × Bool) : Nat → σ → List (Char × Bool) → σ
  | _, s, [] => s
  | index, s, (c, isTop) :: marks =>
    if isTop then
      if (visit index c s).2 then visitMarked visit (index + c.utf8Size) (visit index c s).1 marks
      else (visit index c s).1
    else visitMarked visit (index + c.utf8Size) s marks

/-- **The walk goes over the marked characters.** -/
theorem forEachTopLevel_eq (visit : Nat → Char → σ → σ × Bool) (depth : Nat) (before : Char) (index : Nat) (s : σ)
    (t : Text) :
    forEachTopLevel visit depth before index s t = visitMarked visit index s (markTopLevel depth before t) := by
  induction t generalizing depth before index s with
  | nil => rfl
  | cons c t ih =>
    unfold forEachTopLevel markTopLevel
    split
    · rw [ih, visitMarked, if_neg Bool.false_ne_true]
    · split
      · rw [ih, visitMarked, if_neg Bool.false_ne_true]
      · split
        · rename_i hdepth
          rw [visitMarked, hdepth, beq_self_eq_true, if_pos rfl, ih]
        · rename_i hdepth
          rw [visitMarked, beq_eq_false_iff_ne.mpr hdepth, if_neg Bool.false_ne_true, ih]

/-! ## 2. What is recorded -/

/-- Where the parameters of a call are cut: the offsets of the commas between them, and the offset behind the last. -/
structure Bounds where
  commas : List Nat
  stop : Nat
  deriving DecidableEq, Repr

/-- A `)` is the end of the parameters, a comma is between two of them. -/
def Bounds.visit (index : Nat) (c : Char) (b : Bounds) : Bounds × Bool :=
  if c = ')' then ({ b with stop := index }, false)
  else if c = ',' then ({ b with commas := b.commas ++ [index] }, true)
  else (b, true)

/-- The bounds of the parameters at the start of a text. -/
def bounds (t : Text) : Bounds := forEachTopLevel Bounds.visit 0 '\x00' 0 ⟨[], byteLength t⟩ t

/-- The offset of the colon behind a parameter's name, or that of its end. -/
def colon (parameter : Text) : Nat :=
  forEachTopLevel (fun index c stop => if c = ':' then (index, false) else (stop, true)) 0 '\x00' 0
    (byteLength parameter) parameter

/-- The offsets of the commas that are marked. -/
def commasFrom : Nat → List (Char × Bool) → List Nat
  | _, [] => []
  | index, m :: marks =>
    if m = (',', true) then index :: commasFrom (index + m.1.utf8Size) marks
    else commasFrom (index + m.1.utf8Size) marks

variable {marks : List (Char × Bool)} {index stop : Nat} {commas : List Nat} {t : Text}

theorem map_fst_cons (m : Char × Bool) (marks : List (Char × Bool)) :
    byteLength ((m :: marks).map Prod.fst) = m.1.utf8Size + byteLength (marks.map Prod.fst) := rfl

/-- The walk over the parameters records the commas in front of the first `)`, and where that stands. -/
theorem visitMarked_bounds (hstop : stop = index + byteLength (marks.map Prod.fst)) :
    visitMarked Bounds.visit index ⟨commas, stop⟩ marks =
      ⟨commas ++ commasFrom index (marks.takeWhile (· != (')', true))),
        index + byteLength ((marks.takeWhile (· != (')', true))).map Prod.fst)⟩ := by
  induction marks generalizing index commas with
  | nil =>
    rw [hstop, List.takeWhile_nil, commasFrom, List.append_nil]
    rfl
  | cons m marks ih =>
    obtain ⟨c, isTop⟩ := m
    rw [map_fst_cons, ← Nat.add_assoc] at hstop
    by_cases hclose : (c, isTop) = (')', true)
    · cases hclose
      rw [List.takeWhile_cons_of_neg (by simp), commasFrom, List.append_nil]
      rfl
    · have hkept : ((c, isTop) != (')', true)) = true := bne_iff_ne.mpr hclose
      rw [List.takeWhile_cons, hkept, if_pos rfl, map_fst_cons, ← Nat.add_assoc, commasFrom]
      cases isTop with
      | false =>
        rw [visitMarked, if_neg Bool.false_ne_true, ih hstop, if_neg fun h => Bool.false_ne_true (Prod.mk.inj h).2]
      | true =>
        have hc : c ≠ ')' := fun h => hclose (h ▸ rfl)
        by_cases hcomma : c = ','
        · subst hcomma
          have hvisit : Bounds.visit index ',' ⟨commas, stop⟩ = (⟨commas ++ [index], stop⟩, true) := rfl
          rw [visitMarked, if_pos rfl, hvisit, if_pos rfl, ih hstop, if_pos rfl, List.append_assoc,
            List.singleton_append]
        · have hvisit : Bounds.visit index c ⟨commas, stop⟩ = (⟨commas, stop⟩, true) := by
            rw [Bounds.visit, if_neg hc, if_neg hcomma]
          rw [visitMarked, if_pos rfl, hvisit, if_pos rfl, ih hstop, if_neg fun h => hcomma (Prod.mk.inj h).1]

theorem visitMarked_colon (hstop : stop = index + byteLength (marks.map Prod.fst)) :
    visitMarked (fun index c stop => if c = ':' then (index, false) else (stop, true)) index stop marks =
      index + byteLength ((marks.takeWhile (· != (':', true))).map Prod.fst) := by
  induction marks generalizing index with
  | nil => exact hstop
  | cons m marks ih =>
    obtain ⟨c, isTop⟩ := m
    rw [map_fst_cons, ← Nat.add_assoc] at hstop
    by_cases hcolon : (c, isTop) = (':', true)
    · cases hcolon
      rw [List.takeWhile_cons_of_neg (by simp)]
      rfl
    · have hkept : ((c, isTop) != (':', true)) = true := bne_iff_ne.mpr hcolon
      rw [List.takeWhile_cons, hkept, if_pos rfl, map_fst_cons, ← Nat.add_assoc]
      cases isTop with
      | false => rw [visitMarked, if_neg Bool.false_ne_true, ih hstop]
      | true =>
        have hc : c ≠ ':' := fun h => hcolon (h ▸ rfl)
        rw [visitMarked, if_pos rfl, if_neg hc, if_pos rfl, ih hstop]

/-- **The bounds of the parameters** are the commas and the end of the text that `upTo` takes. -/
theorem bounds_eq (t : Text) :
    bounds t = ⟨commasFrom 0 (upTo ')' t), byteLength ((upTo ')' t).map Prod.fst)⟩ := by
  rw [bounds, forEachTopLevel_eq, visitMarked_bounds (by rw [map_fst_markTopLevel, Nat.zero_add]), List.nil_append,
    Nat.zero_add]
  rfl

theorem colon_eq (parameter : Text) : colon parameter = byteLength ((upTo ':' parameter).map Prod.fst) := by
  rw [colon, forEachTopLevel_eq, visitMarked_colon (by rw [map_fst_markTopLevel, Nat.zero_add]), Nat.zero_add]
  rfl

theorem exists_upTo (c : Char) (t : Text) : ∃ behind, t = (upTo c t).map Prod.fst ++ behind := by
  refine ⟨((markTopLevel 0 '\x00' t).dropWhile (· != (c, true))).map Prod.fst, ?_⟩
  rw [upTo, ← List.map_append, List.takeWhile_append_dropWhile, map_fst_markTopLevel]

/-! ## 3. The bounds are good -/

/-- The slices between the bounds, with the one-byte commas left out. -/
def Bounds.ranges (b : Bounds) : List (Nat × Nat) := (0 :: b.commas.map (· + 1)).zip (b.commas ++ [b.stop])

/-- **Good bounds of a text**: the commas are at increasing offsets, each of one byte and none behind the end, the end
    is on a boundary, and every slice between two bounds starts on a boundary and ends on one that is not before it. -/
structure Bounds.IsSound (b : Bounds) (t : Text) : Prop where
  increasing : b.commas.Pairwise (· < ·)
  commas : ∀ n ∈ b.commas, ∃ before behind, t = before ++ ',' :: behind ∧ byteLength before = n ∧
    byteLength [','] = 1
  le_stop : ∀ n ∈ b.commas, n ≤ b.stop
  stop_le : b.stop ≤ byteLength t
  ranges : ∀ p ∈ b.ranges, p.1 ≤ p.2 ∧ IsBoundary t p.1 ∧ IsBoundary t p.2

/-- The recorded commas in the text of their marks. -/
theorem commasFrom_spec (marks : List (Char × Bool)) (index : Nat) : ∀ n ∈ commasFrom index marks,
    ∃ before behind, marks.map Prod.fst = before ++ ',' :: behind ∧ index + byteLength before = n := by
  induction marks generalizing index with
  | nil => exact fun _ hn => nomatch hn
  | cons m marks ih =>
    have hlater : ∀ n ∈ commasFrom (index + m.1.utf8Size) marks, ∃ before behind,
        (m :: marks).map Prod.fst = before ++ ',' :: behind ∧ index + byteLength before = n := by
      intro n hn
      obtain ⟨before, behind, hmarks, hlength⟩ := ih _ n hn
      exact ⟨m.1 :: before, behind, by rw [List.map_cons, hmarks]; rfl, by rw [byteLength]; omega⟩
    rw [commasFrom]
    split
    · rename_i hm
      refine List.forall_mem_cons.mpr ⟨⟨[], marks.map Prod.fst, by rw [List.map_cons, hm]; rfl, rfl⟩, hlater⟩
    · exact hlater

theorem le_of_mem_commasFrom {n : Nat} (h : n ∈ commasFrom index marks) : index ≤ n := by
  obtain ⟨before, behind, -, hlength⟩ := commasFrom_spec marks index n h
  omega

theorem pairwise_commasFrom (marks : List (Char × Bool)) (index : Nat) :
    (commasFrom index marks).Pairwise (· < ·) := by
  induction marks generalizing index with
  | nil => exact .nil
  | cons m marks ih =>
    rw [commasFrom]
    split
    · refine List.pairwise_cons.mpr ⟨fun n hn => ?_, ih _⟩
      have := le_of_mem_commasFrom hn
      have := m.1.utf8Size_pos
      omega
    · exact ih _

/-- Between two bounds there is a piece of the text. -/
theorem ranges_commasFrom {a behind : Text} {start : Nat} (ht : t = a ++ (marks.map Prod.fst ++ behind))
    (hindex : byteLength a = index) (hle : start ≤ index) (hstart : IsBoundary t start) :
    ∀ p ∈ (start :: (commasFrom index marks).map (· + 1)).zip
        (commasFrom index marks ++ [index + byteLength (marks.map Prod.fst)]),
      p.1 ≤ p.2 ∧ IsBoundary t p.1 ∧ IsBoundary t p.2 := by
  induction marks generalizing a index start with
  | nil =>
    have hend : IsBoundary t index := ⟨a, behind, ht, hindex⟩
    exact List.forall_mem_cons.mpr ⟨⟨hle, hstart, hend⟩, fun _ hp => nomatch hp⟩
  | cons m marks ih =>
    have ht' : t = (a ++ [m.1]) ++ (marks.map Prod.fst ++ behind) := by simp [ht]
    have hindex' : byteLength (a ++ [m.1]) = index + m.1.utf8Size := by
      rw [byteLength_append, hindex, byteLength_singleton]
    rw [map_fst_cons, ← Nat.add_assoc, commasFrom]
    split
    · rename_i hm
      have hone : m.1.utf8Size = 1 := by rw [hm]; rfl
      have hnext : IsBoundary t (index + 1) := ⟨a ++ [m.1], _, ht', by rw [hindex', hone]⟩
      rw [hone] at hindex' ⊢
      exact List.forall_mem_cons.mpr ⟨⟨hle, hstart, ⟨a, _, ht, hindex⟩⟩, ih ht' hindex' (Nat.le_refl _) hnext⟩
    · exact ih ht' hindex' (Nat.le_trans hle (Nat.le_add_right _ _)) hstart

/-- **The bounds of every text are good.** -/
theorem isSound_bounds (t : Text) : (bounds t).IsSound t := by
  obtain ⟨behind, ht⟩ := exists_upTo ')' t
  have hcomma := commasFrom_spec (upTo ')' t) 0
  rw [bounds_eq]
  refine ⟨pairwise_commasFrom _ _, fun n hn => ?_, fun n hn => ?_, ?_, ?_⟩
  · obtain ⟨before, after, hmarks, hlength⟩ := hcomma n hn
    exact ⟨before, after ++ behind, by rw [ht, hmarks]; simp, by omega, rfl⟩
  · obtain ⟨before, after, hmarks, hlength⟩ := hcomma n hn
    show n ≤ byteLength ((upTo ')' t).map Prod.fst)
    rw [hmarks, byteLength_append]
    omega
  · have hend : IsBoundary t (byteLength ((upTo ')' t).map Prod.fst)) := ⟨_, behind, ht, rfl⟩
    exact hend.le
  · have hlast : 0 + byteLength ((upTo ')' t).map Prod.fst) = byteLength ((upTo ')' t).map Prod.fst) := Nat.zero_add _
    have hstart : IsBoundary t 0 := ⟨[], t, rfl, rfl⟩
    have hranges := ranges_commasFrom (a := []) ht rfl (Nat.le_refl 0) hstart
    show ∀ p ∈ (0 :: (commasFrom 0 (upTo ')' t)).map (· + 1)).zip
      (commasFrom 0 (upTo ')' t) ++ [byteLength ((upTo ')' t).map Prod.fst)]), _
    rw [← hlast]
    exact hranges

/-! ## 4. The slices -/

/-- The name of a parameter, cut off at the colon. -/
def parameterName (parameter : Text) : Except Failure Text := do
  let name ← sliceTo parameter (colon parameter)
  .ok (trimEnd (dropEndWhile (· == '?') (trim name)))

/-- The names of the parameters between the bounds; the first starts at `start`. -/
def names (t : Text) : Nat → List Nat → Except Failure (List Text)
  | _, [] => .ok []
  | start, stop :: bounds => do
    let parameter ← slice t start stop
    let name ← parameterName parameter
    let more ← names t (stop + 1) bounds
    .ok (name :: more)

/-- The call without types. -/
def ofSignature (signature : Text) : Except Failure Text :=
  match offset? ['('] (trim signature) with
  | none => parameterName (trim signature)
  | some opening => do
    let callee ← sliceTo (trim signature) opening
    let rest ← sliceFrom (trim signature) (opening + 1)
    let names ← names rest 0 ((bounds rest).commas ++ [(bounds rest).stop])
    .ok (trimEnd callee ++ '(' :: joinWith [','] (names.filter fun name => !name.isEmpty) ++ [')'])

/-- The text that a completion inserts. -/
def insertText (d : Declaration) : Except Failure Text :=
  match d.kind with
  | .function => ofSignature d.qualifiedSignature
  | .reExport => .ok d.qualifiedName
  | _ => .ok d.shortName

/-- The colon is on a boundary of the parameter. -/
theorem isBoundary_colon (parameter : Text) : IsBoundary parameter (colon parameter) := by
  obtain ⟨behind, hparameter⟩ := exists_upTo ':' parameter
  exact ⟨_, behind, hparameter, (colon_eq parameter).symm⟩

theorem parameterName_eq (parameter : Text) :
    parameterName parameter = .ok (CallSkeleton.parameterName parameter) := by
  obtain ⟨behind, hparameter⟩ := exists_upTo ':' parameter
  have hslice : sliceTo parameter (colon parameter) = .ok ((upTo ':' parameter).map Prod.fst) := by
    conv_lhs => rw [hparameter]
    exact sliceTo_append (by rw [← hparameter, colon_eq]) behind
  rw [parameterName, hslice]
  rfl

theorem splitOn_cons (m : Char × Bool) (marks : List (Char × Bool)) : (m :: marks).splitOn (',', true) =
    if m = (',', true) then [] :: marks.splitOn (',', true) else (marks.splitOn (',', true)).modifyHead (m :: ·) := by
  simp only [List.splitOn_eq_splitOnP, List.splitOnP_cons_eq_if_modifyHead, beq_iff_eq]

/-- **The slices between the bounds are the pieces between the commas**; of the first a part has been passed. -/
theorem names_commasFrom {a piece behind : Text} {start : Nat}
    (ht : t = a ++ (piece ++ (marks.map Prod.fst ++ behind))) (hstart : byteLength a = start)
    (hindex : start + byteLength piece = index) :
    names t start (commasFrom index marks ++ [index + byteLength (marks.map Prod.fst)]) =
      .ok ((((marks.splitOn (',', true)).map (List.map Prod.fst)).modifyHead (piece ++ ·)).map
        CallSkeleton.parameterName) := by
  induction marks generalizing a piece start index with
  | nil =>
    have hslice : slice t start index = .ok piece := by rw [ht, slice_append hstart hindex]
    show names t start [index] = .ok [CallSkeleton.parameterName (piece ++ [])]
    rw [names, hslice, List.append_nil]
    simp only [bind, Except.bind, parameterName_eq, names]
  | cons m marks ih =>
    rw [map_fst_cons, ← Nat.add_assoc, commasFrom, splitOn_cons]
    split
    · rename_i hm
      have hone : m.1.utf8Size = 1 := by rw [hm]; rfl
      have hslice : slice t start index = .ok piece := by rw [ht, slice_append hstart hindex]
      have hnext : t = (a ++ (piece ++ [m.1])) ++ ([] ++ (marks.map Prod.fst ++ behind)) := by simp [ht]
      have hlength : byteLength (a ++ (piece ++ [m.1])) = index + 1 := by
        rw [byteLength_append, byteLength_append, byteLength_singleton, hone]
        omega
      rw [hone, List.cons_append, names, hslice]
      simp only [bind, Except.bind, parameterName_eq]
      rw [ih hnext hlength (Nat.add_zero _)]
      -- nothing of the next parameter has been passed
      cases marks.splitOn (',', true) <;> simp
    · have hnext : t = a ++ ((piece ++ [m.1]) ++ (marks.map Prod.fst ++ behind)) := by simp [ht]
      have hlength : start + byteLength (piece ++ [m.1]) = index + m.1.utf8Size := by
        rw [byteLength_append, byteLength_singleton]
        omega
      rw [ih hnext hstart hlength]
      cases marks.splitOn (',', true) <;> simp

theorem names_bounds (t : Text) :
    names t 0 ((bounds t).commas ++ [(bounds t).stop]) = .ok ((parameters t).map CallSkeleton.parameterName) := by
  obtain ⟨behind, ht⟩ := exists_upTo ')' t
  have hparts : t = [] ++ ([] ++ ((upTo ')' t).map Prod.fst ++ behind)) := ht
  have hstart : byteLength ([] : Text) = 0 := rfl
  have hindex : 0 + byteLength ([] : Text) = 0 := rfl
  have hnames := names_commasFrom hparts hstart hindex
  have hall : ∀ pieces : List Text, pieces.modifyHead (([] : Text) ++ ·) = pieces := fun pieces => by
    cases pieces <;> rfl
  rw [Nat.zero_add, hall] at hnames
  rw [bounds_eq]
  exact hnames

theorem ofSignature_eq (signature : Text) : ofSignature signature = .ok (CallSkeleton.ofSignature signature) := by
  unfold ofSignature
  cases hcut : cut? ['('] (trim signature) with
  | none =>
    have hwhole : CallSkeleton.ofSignature signature = CallSkeleton.parameterName (trim signature) := by
      simp only [CallSkeleton.ofSignature, hcut]
    rw [offset?_of_none hcut, hwhole]
    exact parameterName_eq _
  | some parts =>
    obtain ⟨callee, rest⟩ := parts
    have hskeleton : CallSkeleton.ofSignature signature = trimEnd callee ++ '(' :: joinWith [',']
        (((parameters rest).map CallSkeleton.parameterName).filter fun name => !name.isEmpty) ++ [')'] := by
      simp only [CallSkeleton.ofSignature, hcut]
    have hopening : byteLength callee + 1 = byteLength callee + byteLength ['('] := rfl
    rw [offset?_cut hcut, hskeleton]
    simp only [hopening, sliceTo_cut hcut, sliceFrom_cut hcut, names_bounds, bind, Except.bind]

/-- **No slice of an insert text fails.** -/
theorem insertText_eq (d : Declaration) : insertText d = .ok d.insertText := by
  unfold insertText Declaration.insertText
  cases d.kind with
  | function => exact ofSignature_eq _
  | _ => rfl

end Ambient.Sliced
