import Ambient.Parse
import Ambient.Proofs.Scanner.Opening
import Ambient.Proofs.Text.Slice
import Mathlib.Data.List.Basic

/-!
# Offsets on a line

A line is taken apart at the offsets of what is found on it. Here every slice may fail, and what meets a failure fails
with it.

* `locate_eq`, `open?_eq`, `heading?_eq`, `joinedSignature_eq`: at these offsets no slice does fail;
* `feed_eq`, `parse_eq`: hence neither does the scanner on any line, nor the reading of any file.
-/

namespace Ambient.Sliced

open Text

/-! ## 1. Signatures over several lines -/

/-- The text behind the first place of a word, or all of it. -/
def behindWord (w t : Text) : Except Failure Text :=
  match offset? w t with
  | some start => sliceFrom t (start + byteLength w)
  | none => .ok t

/-- The text before the last `c` without blanks at its end, or all of it. -/
def beforeLast (c : Char) (t : Text) : Except Failure Text :=
  match lastOffset? c t with
  | some stop => (sliceTo t stop).map trimEnd
  | none => .ok t

/-- The signature of a function written over several lines. -/
def joinedSignature (source : Text) : Except Failure Text := do
  let behind ← behindWord "function ".toList (source.filter fun c => c != '\n' && c != '\r' && c != '\t')
  beforeLast ';' (replaceAll " )".toList ")".toList (replaceAll "( ".toList "(".toList (squeeze behind)))

theorem behindWord_eq (w t : Text) : behindWord w t = .ok (((cut? w t).map Prod.snd).getD t) := by
  unfold behindWord
  cases hcut : cut? w t with
  | none =>
    rw [offset?_of_none hcut]
    rfl
  | some parts =>
    rw [offset?_cut hcut]
    exact sliceFrom_cut hcut

theorem beforeLast_eq (c : Char) (t : Text) : beforeLast c t = .ok (((beforeLast? c t).map trimEnd).getD t) := by
  unfold beforeLast lastOffset?
  cases hlast : beforeLast? c t with
  | none => rfl
  | some before =>
    obtain ⟨behind, rfl⟩ := prefix_of_beforeLast? hlast
    simp only [Option.map_some, sliceTo_append rfl]
    rfl

theorem joinedSignature_eq (source : Text) : joinedSignature source = .ok (Draft.joinedSignature source) := by
  rw [joinedSignature, behindWord_eq]
  exact beforeLast_eq ';' _

/-! ## 2. Openings -/

/-- The offset of the first mark outside angle brackets, of which `depth` are open; at every character that may start
    one, the rest of the whole text is looked at. -/
def outsideGenerics? (mark whole : Text) : Nat → Nat → Text → Except Failure (Option Nat)
  | _, _, [] => .ok none
  | depth, index, c :: t =>
    if c = '<' then outsideGenerics? mark whole (depth + 1) (index + c.utf8Size) t
    else if c = '>' then outsideGenerics? mark whole (depth - 1) (index + c.utf8Size) t
    else if depth = 0 then do
      let rest ← sliceFrom whole index
      if mark.isPrefixOf rest then .ok (some index) else outsideGenerics? mark whole depth (index + c.utf8Size) t
    else outsideGenerics? mark whole depth (index + c.utf8Size) t

/-- The length of the signature in bytes, and whether the declaration is complete. -/
def locate : SignatureRule → Text → Except Failure (Nat × Bool)
  | .clause, t => do
    let found ← SignatureRule.clauseMarks.mapM fun mark => outsideGenerics? mark t 0 0 t
    .ok ((found.filterMap id).min?.getD (byteLength t), false)
  | .statement, t =>
    match offset? [';'] t, offset? [':'] t with
    | some stop, _ => .ok (stop, true)
    | none, some stop => .ok (stop, false)
    | none, none => .ok (byteLength t, false)
  | .call, t =>
    match offset? [';'] t with
    | some stop => .ok (stop, true)
    | none => .ok (byteLength t, false)
  | .body, t => .ok ((offset? " \x7b".toList t).getD (byteLength t), false)

/-- The draft that a line of the namespace `path` opens by this keyword. -/
def open? (o : Opening) (path line : Text) : Except Failure (Option Draft) :=
  match offset? o.keyword line with
  | none => .ok none
  | some start => do
    let rest ← sliceFrom line (start + byteLength o.keyword)
    let (stop, complete) ← locate o.rule rest
    let head ← sliceTo rest stop
    if (trim head).isEmpty then .ok none
    else do
      let before ← sliceTo line start
      .ok (some (Draft.start path o.kind (trim head) (before ++ o.closer) complete))

section Clause

variable {mark t : Text} {depth index : Nat} {c : Char}

/-- The offset of the first mark outside angle brackets. -/
def markOffset? (mark : Text) : Nat → Nat → Text → Option Nat
  | _, _, [] => none
  | depth, index, c :: t =>
    if c = '<' then markOffset? mark (depth + 1) (index + c.utf8Size) t
    else if c = '>' then markOffset? mark (depth - 1) (index + c.utf8Size) t
    else if depth = 0 && mark.isPrefixOf (c :: t) then some index
    else markOffset? mark depth (index + c.utf8Size) t

theorem outsideGenerics?_eq (mark a t : Text) (depth : Nat) :
    outsideGenerics? mark (a ++ t) depth (byteLength a) t = .ok (markOffset? mark depth (byteLength a) t) := by
  induction t generalizing a depth with
  | nil => rfl
  | cons c t ih =>
    have hsplit : a ++ c :: t = (a ++ [c]) ++ t := by simp
    have hlength : byteLength a + c.utf8Size = byteLength (a ++ [c]) := by
      rw [byteLength_append, byteLength_singleton]
    have hnext : ∀ depth, outsideGenerics? mark (a ++ c :: t) depth (byteLength a + c.utf8Size) t =
        .ok (markOffset? mark depth (byteLength a + c.utf8Size) t) := by
      intro depth
      rw [hsplit, hlength]
      exact ih (a ++ [c]) depth
    unfold outsideGenerics? markOffset?
    simp only [hnext, sliceFrom_append rfl, bind, Except.bind]
    split
    · rfl
    split
    · rfl
    split
    · rename_i hdepth
      simp only [hdepth, decide_true, Bool.true_and]
      split <;> rfl
    · rename_i hdepth
      simp only [hdepth, decide_false, Bool.false_and, Bool.false_eq_true, if_false]

theorem le_of_markOffset? {n : Nat} (h : markOffset? mark depth index t = some n) : index ≤ n := by
  induction t generalizing depth index with
  | nil => cases h
  | cons c t ih =>
    unfold markOffset? at h
    split at h
    · have := ih h
      omega
    split at h
    · have := ih h
      omega
    split at h
    · cases h
      exact Nat.le_refl _
    · have := ih h
      omega

/-- A mark that starts here is the first of all. -/
theorem min?_of_starts (hopen : c ≠ '<') (hclose : c ≠ '>') (hmark : mark ∈ SignatureRule.clauseMarks)
    (hstarts : mark.isPrefixOf (c :: t) = true) :
    (SignatureRule.clauseMarks.filterMap (markOffset? · 0 index (c :: t))).min? = some index := by
  refine List.min?_eq_some_iff.mpr ⟨List.mem_filterMap.mpr ⟨mark, hmark, ?_⟩, fun n hn => ?_⟩
  · rw [markOffset?, if_neg hopen, if_neg hclose, hstarts]
    rfl
  · obtain ⟨mark, -, hn⟩ := List.mem_filterMap.mp hn
    exact le_of_markOffset? hn

/-- **The first of all marks ends the head of a class.** -/
theorem min?_markOffset? (depth index : Nat) (t : Text) :
    (SignatureRule.clauseMarks.filterMap (markOffset? · depth index t)).min?.getD (index + byteLength t) =
      index + byteLength (SignatureRule.clauseHead depth t) := by
  induction t generalizing depth index with
  | nil => rfl
  | cons c t ih =>
    have hlength : index + byteLength (c :: t) = index + c.utf8Size + byteLength t := by
      rw [byteLength, Nat.add_assoc]
    -- where no mark starts here, all of them are looked for behind the character
    have hnext : ∀ depth', (∀ mark ∈ SignatureRule.clauseMarks,
          markOffset? mark depth index (c :: t) = markOffset? mark depth' (index + c.utf8Size) t) →
        (SignatureRule.clauseMarks.filterMap (markOffset? · depth index (c :: t))).min?.getD
            (index + byteLength (c :: t)) =
          index + byteLength (c :: SignatureRule.clauseHead depth' t) := by
      intro depth' h
      rw [List.filterMap_congr h, hlength, ih depth' (index + c.utf8Size), byteLength, Nat.add_assoc]
    unfold SignatureRule.clauseHead
    split
    · rename_i hopen
      exact hnext (depth + 1) fun mark _ => by rw [markOffset?, if_pos hopen]
    split
    · rename_i hopen hclose
      exact hnext (depth - 1) fun mark _ => by rw [markOffset?, if_neg hopen, if_pos hclose]
    rename_i hopen hclose
    split
    · rename_i hhere
      obtain ⟨hdepth, hmark⟩ := Bool.and_eq_true_iff.mp hhere
      obtain ⟨mark, hmem, hstarts⟩ := List.any_eq_true.mp hmark
      obtain rfl : depth = 0 := of_decide_eq_true hdepth
      rw [min?_of_starts hopen hclose hmem hstarts]
      rfl
    · rename_i hhere
      refine hnext depth fun mark hmem => ?_
      have hnot : ¬(decide (depth = 0) && mark.isPrefixOf (c :: t)) = true := by
        intro h
        obtain ⟨hdepth, hstarts⟩ := Bool.and_eq_true_iff.mp h
        exact hhere (Bool.and_eq_true_iff.mpr ⟨hdepth, List.any_eq_true.mpr ⟨mark, hmem, hstarts⟩⟩)
      rw [markOffset?, if_neg hopen, if_neg hclose, if_neg hnot]

end Clause

theorem notMem_of_cut? {c : Char} {t : Text} (h : cut? [c] t = none) : c ∉ t := by
  intro hc
  obtain ⟨a, b, rfl, ha⟩ := List.eq_append_cons_of_mem hc
  rw [cut?_singleton_iff.mpr ⟨rfl, ha⟩] at h
  cases h

/-- Up to the first `c`, or to the end. -/
theorem offset?_takeWhile (c : Char) (t : Text) :
    offset? [c] t = if t.contains c then some (byteLength (t.takeWhile (· != c))) else none := by
  cases hcut : cut? [c] t with
  | none =>
    have hc := notMem_of_cut? hcut
    rw [offset?_of_none hcut, if_neg (by simpa using hc)]
  | some parts =>
    obtain ⟨rfl, ha⟩ := cut?_singleton_iff.mp hcut
    have htake : (parts.1 ++ c :: parts.2).takeWhile (· != c) = parts.1 :=
      takeWhile_append_cons (· != c) (fun d hd => bne_iff_ne.mpr fun he => ha (he ▸ hd)) (by simp) parts.2
    rw [offset?_cut hcut, htake, if_pos (by simp)]

theorem takeWhile_of_not_contains {c : Char} {t : Text} (h : t.contains c = false) : t.takeWhile (· != c) = t := by
  refine List.takeWhile_eq_self_iff.mpr fun d hd => bne_iff_ne.mpr fun he => ?_
  rw [← he, List.contains_eq_mem, decide_eq_true hd] at h
  cases h

/-- **What is located is where the signature ends.** -/
theorem locate_eq (rule : SignatureRule) (t : Text) : locate rule t = .ok (rule.locate t) := by
  cases rule with
  | clause =>
    have hfound : (fun mark => outsideGenerics? mark t 0 0 t) = fun mark => pure (markOffset? mark 0 0 t) :=
      funext fun mark => outsideGenerics?_eq mark [] t 0
    have hmin := min?_markOffset? 0 0 t
    rw [Nat.zero_add, Nat.zero_add] at hmin
    rw [locate, hfound, List.mapM_pure]
    simp only [pure, Except.pure, bind, Except.bind, List.filterMap_map]
    exact congrArg (fun n => Except.ok (n, false)) hmin
  | statement =>
    simp only [locate, SignatureRule.locate, SignatureRule.split, offset?_takeWhile]
    cases hsemicolon : t.contains ';' with
    | true => rfl
    | false =>
      cases hcolon : t.contains ':' with
      | true => rfl
      | false =>
        rw [takeWhile_of_not_contains hcolon]
        rfl
  | call =>
    simp only [locate, SignatureRule.locate, SignatureRule.split, offset?_takeWhile]
    cases hsemicolon : t.contains ';' with
    | true => rfl
    | false =>
      rw [takeWhile_of_not_contains hsemicolon]
      rfl
  | body =>
    simp only [locate, SignatureRule.locate, SignatureRule.split]
    cases hcut : cut? " \x7b".toList t with
    | none =>
      rw [offset?_of_none hcut]
      rfl
    | some parts =>
      rw [offset?_cut hcut]
      rfl

theorem sliceTo_locate (rule : SignatureRule) (t : Text) : sliceTo t (rule.locate t).1 = .ok (rule.split t).1 := by
  obtain ⟨behind, ht⟩ := SignatureRule.prefix_split rule t
  have hslice := sliceTo_append (rfl : byteLength (rule.split t).1 = (rule.locate t).1) behind
  rwa [ht] at hslice

/-- **No slice of an opening fails.** -/
theorem open?_eq (o : Opening) (path line : Text) : open? o path line = .ok (o.open? path line) := by
  unfold open? Opening.open?
  cases hcut : cut? o.keyword line with
  | none => rw [offset?_of_none hcut]
  | some parts =>
    obtain ⟨before, behind⟩ := parts
    rw [offset?_cut hcut]
    simp only [sliceFrom_cut hcut, sliceTo_cut hcut, locate_eq, sliceTo_locate, bind, Except.bind]
    show (if (trim (o.rule.split behind).1).isEmpty then _ else _) = Except.ok (if _ then _ else _)
    split <;> rfl

/-! ## 3. Headings -/

/-- The heading on a line. -/
def heading? (line : Text) : Except Failure (Option Heading) :=
  match offset? "namespace ".toList line with
  | none => .ok none
  | some start => do
    let before ← sliceTo line start
    if !(words before).all Heading.modifiers.contains then .ok none
    else do
      let behind ← sliceFrom line (start + byteLength "namespace ".toList)
      let name ← sliceTo behind ((offset? [' '] behind).getD (byteLength behind))
      if (trim (dropEndWhile (· == '{') name)).isEmpty then .ok none
      else do
        let rest? ← (offset? ['{'] behind).mapM fun brace => sliceFrom behind (brace + 1)
        .ok (some ⟨trim (dropEndWhile (· == '{') name), rest?.filter fun rest => !allBlank rest⟩)

theorem sliceTo_takeWhile (c : Char) (t : Text) :
    sliceTo t ((offset? [c] t).getD (byteLength t)) = .ok (t.takeWhile (· != c)) := by
  rw [offset?_takeWhile]
  cases hc : t.contains c with
  | false =>
    have hslice := sliceTo_append (rfl : byteLength t = byteLength t) []
    rw [List.append_nil] at hslice
    rw [takeWhile_of_not_contains hc]
    exact hslice
  | true =>
    have hslice := sliceTo_append (rfl : byteLength (t.takeWhile (· != c)) = _) (t.dropWhile (· != c))
    rwa [List.takeWhile_append_dropWhile] at hslice

/-- The text behind the first brace is a good slice. -/
theorem mapM_sliceFrom (t : Text) : ((offset? ['{'] t).mapM fun brace => sliceFrom t (brace + 1)) =
    .ok ((cut? ['{'] t).map Prod.snd) := by
  cases hcut : cut? ['{'] t with
  | none =>
    rw [offset?_of_none hcut]
    rfl
  | some parts =>
    have hslice : sliceFrom t (byteLength parts.1 + 1) = .ok parts.2 := sliceFrom_cut hcut
    rw [offset?_cut hcut, Option.mapM_some, hslice]
    rfl

theorem drop_dropWhile (t : Text) :
    (t.dropWhile (· != '{')).drop 1 = ((cut? ['{'] t).map Prod.snd).getD [] := by
  cases hcut : cut? ['{'] t with
  | none =>
    have hall : ∀ c ∈ t, (c != '{') = true := fun c hc => bne_iff_ne.mpr fun he => notMem_of_cut? hcut (he ▸ hc)
    rw [List.dropWhile_eq_nil_iff.mpr hall]
    rfl
  | some parts =>
    obtain ⟨rfl, ha⟩ := cut?_singleton_iff.mp hcut
    have hbefore : ∀ c ∈ parts.1, (c != '{') = true := fun c hc => bne_iff_ne.mpr fun he => ha (he ▸ hc)
    rw [List.dropWhile_append_of_pos hbefore]
    rfl

/-- **No slice of a heading fails.** -/
theorem heading?_eq (line : Text) : heading? line = .ok (Heading.read? line) := by
  unfold heading? Heading.read?
  cases hcut : cut? "namespace ".toList line with
  | none => rw [offset?_of_none hcut]
  | some parts =>
    obtain ⟨before, behind⟩ := parts
    have hrest : ∀ rest? : Option Text, (rest?.filter fun rest => !allBlank rest) =
        if allBlank (rest?.getD []) then none else some (rest?.getD []) := by
      intro rest?
      cases rest? with
      | none => rfl
      | some rest => cases h : allBlank rest <;> simp [h]
    rw [offset?_cut hcut]
    simp only [sliceFrom_cut hcut, sliceTo_cut hcut, sliceTo_takeWhile, mapM_sliceFrom, hrest, drop_dropWhile, bind,
      Except.bind]
    split
    · rfl
    · split <;> rfl

/-! ## 4. The scanner -/

/-- Collects one line. -/
def push (draft : Draft) (line : Text) : Except Failure Draft :=
  let source := draft.source ++ Draft.sourceLine line
  if draft.kind = .function && !draft.complete && Draft.completes line source then do
    let signature ← joinedSignature source
    .ok { draft with source, signature, complete := true }
  else .ok { draft with source }

/-- Adds a line to a draft, which stays open unless the line completes it. -/
def collect (s : Scanner) (draft : Draft) (line : Text) : Except Failure Scanner := do
  let draft ← push draft line
  .ok (if draft.complete then { s with draft? := some draft : Scanner }.close else { s with draft? := some draft })

/-- A line that opens no declaration. -/
def continueWith (s : Scanner) (line : Text) : Except Failure Scanner :=
  match s.draft? with
  | none => .ok (if trim line = ['}'] then { s with comment := [] } else s.remark line)
  | some draft =>
    if draft.endMarker = line then do
      let draft ← push draft line
      .ok { { s with draft? := some draft : Scanner }.close with comment := [] }
    else if draft.complete && Scanner.isCommentLine line then .ok (s.close.remark line)
    else collect s draft line

/-- The draft that a line opens by the first keyword that fits. -/
def first? (path line : Text) : Except Failure (Option Draft) := Opening.table.findSomeM? fun o => open? o path line

/-- A line inside a namespace. -/
def member (s : Scanner) (line : Text) : Except Failure Scanner := do
  let opened? ← match s.path? with
    | some path => first? path line
    | none => .ok none
  match opened? with
  | some draft => collect s.close draft line
  | none => continueWith s line

/-- Takes one line. -/
def feed (s : Scanner) (line : Text) : Except Failure Scanner :=
  if Scanner.isSkipped line then .ok s
  else do
    match ← heading? line with
    | some heading =>
      match heading.rest? with
      | some rest => member { s with path? := some heading.path } rest
      | none => .ok { s with path? := some heading.path }
    | none => if s.path?.isSome then member s line else .ok (s.remark line)

/-- The declarations of a file, sorted by id. -/
def parse (t : Text) : Except Failure (List Declaration) := do
  let s ← (lines (normalise t)).foldlM feed Scanner.fresh
  .ok (Declaration.sort (s.finish ++ ReExport.declarations (normalise t)))

theorem push_eq (draft : Draft) (line : Text) : push draft line = .ok (draft.push line) := by
  unfold push Draft.push
  simp only [joinedSignature_eq, bind, Except.bind]
  split <;> rfl

theorem collect_eq (s : Scanner) (draft : Draft) (line : Text) : collect s draft line = .ok (s.collect draft line) := by
  unfold collect Scanner.collect
  rw [push_eq]
  rfl

theorem continueWith_eq (s : Scanner) (line : Text) : continueWith s line = .ok (s.continueWith line) := by
  unfold continueWith Scanner.continueWith
  cases s.draft? with
  | none => rfl
  | some draft =>
    simp only [push_eq, collect_eq, bind, Except.bind]
    split
    · rfl
    · split <;> rfl

theorem first?_eq (path line : Text) : first? path line = .ok (Opening.first? path line) := by
  have hopen : (fun o => open? o path line) = fun o => pure (Opening.open? o path line) :=
    funext fun o => open?_eq o path line
  rw [first?, hopen, List.findSomeM?_pure]
  rfl

theorem member_eq (s : Scanner) (line : Text) : member s line = .ok (s.member line) := by
  unfold member Scanner.member
  cases s.path? with
  | none => exact continueWith_eq s line
  | some path =>
    simp only [first?_eq, bind, Except.bind, Option.bind_some]
    cases Opening.first? path line with
    | none => exact continueWith_eq s line
    | some draft => exact collect_eq s.close draft line

/-- **No slice fails on any line.** -/
theorem feed_eq (s : Scanner) (line : Text) : feed s line = .ok (s.feed line) := by
  unfold feed Scanner.feed
  split
  · rfl
  rw [heading?_eq]
  simp only [bind, Except.bind]
  cases Heading.read? line with
  | none =>
    cases hpath : s.path?.isSome with
    | true =>
      simp only [if_true]
      exact member_eq s line
    | false => rfl
  | some heading =>
    cases hrest : heading.rest? with
    | none => simp only [hrest]
    | some rest =>
      simp only [hrest]
      exact member_eq _ rest

/-- **No slice fails on any file.** -/
theorem parse_eq (t : Text) : parse t = .ok (Ambient.parse t) := by
  have hfeed : feed = fun s line => pure (s.feed line) := funext fun s => funext fun line => feed_eq s line
  rw [parse, hfeed, List.foldlM_pure]
  rfl

end Ambient.Sliced
