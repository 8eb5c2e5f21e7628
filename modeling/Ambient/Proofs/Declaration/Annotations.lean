import Ambient.Proofs.Declaration.ParameterList
import Ambient.Proofs.Text.Slice
import Mathlib.Logic.ExistsUnique

/-!
# The scan for annotations

Spans are put around annotations by a loop that rewrites the text it scans: each round cuts a segment out of the
text, writes it back between two tags, and goes on behind the closing one. The text grows with every round; what gets
shorter is the tail that is not scanned yet.

* `Scan.round`, `Scan.run`: the loop, in which every slice may fail;
* `Scannable`: how a tail is taken apart; `round_free`, `round_last`, `round_next`: one round for each way;
* `round_shrinks`: every round leaves an end of the tail that is shorter, though the text is longer;
* `Annotates`: where the segments are; `exists_annotates`: the loop ends with all slices good, and has put tags around
  them and done nothing else;
* `run_render`: on rendered pieces it does what `tagAnnotations` does;
* `scan_ends`: all this for every text.
-/

namespace Ambient.Markup

open Text

/-! ## 1. The loop -/

/-- A segment between its tags. -/
def span (segment : Text) : Text := (Tag.opening .paramType).render ++ (segment ++ Tag.closing.render)

/-- The text as it has been rewritten, and the offset behind which it is still to be scanned. -/
structure Scan where
  text : Text
  index : Nat
  deriving DecidableEq, Repr

/-- What a round leads to: the last one has rewritten the text to its end. -/
inductive Round where
  | last (text : Text)
  | next (scan : Scan)
  deriving DecidableEq, Repr

/-- A scan from the start. -/
def Scan.start (t : Text) : Scan := ⟨t, 0⟩

/-- The part of the text that is still to be scanned. -/
def Scan.tail (s : Scan) : Text := ((splitAt? s.text s.index).map Prod.snd).getD []

/-- The text behind a round. -/
def Round.text : Round → Text
  | .last text => text
  | .next scan => scan.text

/-- The part of the text that a round leaves to the others: none, if it is the last. -/
def Round.tail : Round → Text
  | .last _ => []
  | .next scan => scan.tail

/-- One round, if a colon is left: the segment reaches up to the next comma, else up to the next `)`, else to the
    end. -/
def Scan.round (s : Scan) : Except Failure (Option Round) := do
  let tail ← sliceFrom s.text s.index
  match offset? [':'] tail with
  | none => .ok none
  | some offset =>
    let index := s.index + offset
    let rest ← sliceFrom s.text index
    let before ← sliceTo s.text index
    match ((offset? [','] rest) <|> (offset? [')'] rest)).map (index + ·) with
    | none =>
      let segment ← sliceFrom s.text index
      .ok (some (.last (before ++ span segment)))
    | some stop =>
      let segment ← slice s.text index stop
      let behind ← sliceFrom s.text stop
      .ok (some (.next ⟨before ++ (span segment ++ behind), index + byteLength (span segment)⟩))

/-! ## 2. One round -/

variable {front tail a x y rest : Text} {stop : Char} {s : Scan} {r : Round}

/-- Behind the colon, the annotation ends at this place. -/
inductive Ends : Text → Char → Text → Prop where
  | comma {x y : Text} (hx : ',' ∉ x) : Ends x ',' y
  | parenthesis {x y : Text} (hx : ',' ∉ x) (hy : ',' ∉ y) (h : ')' ∉ x) : Ends x ')' y

theorem Ends.eq_or (h : Ends x stop y) : stop = ',' ∨ stop = ')' := by
  cases h with
  | comma => exact .inl rfl
  | parenthesis => exact .inr rfl

theorem Ends.notMem (h : Ends x stop y) : stop ∉ x := by
  cases h with
  | comma hx => exact hx
  | parenthesis _ _ h => exact h

theorem exists_ends (rest : Text) : (',' ∉ rest ∧ ')' ∉ rest) ∨ ∃ x stop y, rest = x ++ stop :: y ∧ Ends x stop y := by
  by_cases hcomma : ',' ∈ rest
  · obtain ⟨x, y, rfl, hx⟩ := List.eq_append_cons_of_mem hcomma
    exact .inr ⟨x, ',', y, rfl, .comma hx⟩
  · by_cases hparenthesis : ')' ∈ rest
    · obtain ⟨x, y, rfl, hx⟩ := List.eq_append_cons_of_mem hparenthesis
      simp only [List.mem_append, List.mem_cons, not_or] at hcomma
      exact .inr ⟨x, ')', y, rfl, .parenthesis hcomma.1 hcomma.2.2 hx⟩
    · exact .inl ⟨hcomma, hparenthesis⟩

/-- **How a tail is taken apart.** Behind a segment the scan goes on with the character at which it ends. -/
inductive Scannable : Text → Prop where
  | free {tail : Text} (h : ':' ∉ tail) : Scannable tail
  | last {a rest : Text} (ha : ':' ∉ a) (hcomma : ',' ∉ rest) (hparenthesis : ')' ∉ rest) :
      Scannable (a ++ ':' :: rest)
  | next {a x y : Text} {stop : Char} (ha : ':' ∉ a) (hends : Ends x stop y) (h : Scannable (stop :: y)) :
      Scannable (a ++ ':' :: (x ++ stop :: y))

theorem scannable (tail : Text) : Scannable tail := by
  induction hn : tail.length using Nat.strongRecOn generalizing tail with
  | ind n ih =>
    by_cases hcolon : ':' ∈ tail
    · obtain ⟨a, rest, rfl, ha⟩ := List.eq_append_cons_of_mem hcolon
      obtain ⟨hcomma, hparenthesis⟩ | ⟨x, stop, y, rfl, hends⟩ := exists_ends rest
      · exact .last ha hcomma hparenthesis
      · refine .next ha hends (ih _ ?_ (stop :: y) rfl)
        simp only [← hn, List.length_append, List.length_cons]
        omega
    · exact .free hcolon

theorem round_free (h : ':' ∉ tail) : (Scan.mk (front ++ tail) (byteLength front)).round = .ok none := by
  rw [Scan.round, sliceFrom_append rfl]
  simp only [bind, Except.bind, offset?_eq_none h]

/-- Up to the colon a round is the same for every segment. -/
theorem round_colon (ha : ':' ∉ a) : (Scan.mk (front ++ (a ++ ':' :: rest)) (byteLength front)).round =
    match ((offset? [','] (':' :: rest)) <|> (offset? [')'] (':' :: rest))).map (byteLength (front ++ a) + ·) with
    | none => .ok (some (.last (front ++ a ++ span (':' :: rest))))
    | some stop => (do
      let segment ← slice (front ++ a ++ ':' :: rest) (byteLength (front ++ a)) stop
      let behind ← sliceFrom (front ++ a ++ ':' :: rest) stop
      .ok (some (.next ⟨front ++ a ++ (span segment ++ behind),
        byteLength (front ++ a) + byteLength (span segment)⟩))) := by
  rw [Scan.round, sliceFrom_append rfl]
  simp only [bind, Except.bind, offset?_append ha, ← byteLength_append]
  rw [← List.append_assoc, sliceFrom_append rfl, sliceTo_append rfl]

theorem round_last (ha : ':' ∉ a) (hcomma : ',' ∉ rest) (hparenthesis : ')' ∉ rest) :
    (Scan.mk (front ++ (a ++ ':' :: rest)) (byteLength front)).round =
      .ok (some (.last (front ++ (a ++ span (':' :: rest))))) := by
  have hnone : ((offset? [','] (':' :: rest)) <|> (offset? [')'] (':' :: rest))) = none := by
    rw [offset?_eq_none (by simpa using hcomma), offset?_eq_none (by simpa using hparenthesis)]
    rfl
  rw [round_colon ha, hnone, ← List.append_assoc]
  rfl

theorem Ends.offset? (h : Ends x stop y) :
    ((Text.offset? [','] (':' :: (x ++ stop :: y))) <|> (Text.offset? [')'] (':' :: (x ++ stop :: y)))) =
      some (byteLength (':' :: x)) := by
  rw [← List.cons_append]
  cases h with
  | comma hx =>
    rw [offset?_append (by simpa using hx)]
    rfl
  | parenthesis hx hy h =>
    rw [offset?_eq_none (by simpa using ⟨hx, hy⟩), offset?_append (by simpa using h)]
    rfl

theorem round_next (ha : ':' ∉ a) (hends : Ends x stop y) :
    (Scan.mk (front ++ (a ++ ':' :: (x ++ stop :: y))) (byteLength front)).round =
      .ok (some (.next ⟨front ++ (a ++ span (':' :: x)) ++ stop :: y,
        byteLength (front ++ (a ++ span (':' :: x)))⟩)) := by
  have hbehind : front ++ a ++ (':' :: x ++ stop :: y) = front ++ a ++ ':' :: x ++ stop :: y :=
    (List.append_assoc _ _ _).symm
  rw [round_colon ha, hends.offset?, ← List.cons_append]
  simp only [Option.map_some, bind, Except.bind]
  rw [slice_append rfl rfl, hbehind, sliceFrom_append (byteLength_append _ _)]
  simp only [byteLength_append, List.append_assoc, Nat.add_assoc]

/-! ## 3. What a round leaves -/

theorem tail_mk (front tail : Text) : (Scan.mk (front ++ tail) (byteLength front)).tail = tail := by
  rw [Scan.tail, splitAt?_append]
  rfl

theorem exists_of_round (h : s.round = .ok (some r)) : ∃ front tail, s = ⟨front ++ tail, byteLength front⟩ := by
  cases hsplit : splitAt? s.text s.index with
  | none =>
    rw [Scan.round, sliceFrom, hsplit] at h
    cases h
  | some parts =>
    obtain ⟨htext, hindex⟩ := splitAt?_eq_some_iff.mp hsplit
    exact ⟨parts.1, parts.2, by rw [← htext, hindex]⟩

/-- **A round leaves an end of the tail, and less of it**, while the text grows. -/
theorem round_shrinks (h : s.round = .ok (some r)) :
    r.tail <:+ s.tail ∧ r.tail.length < s.tail.length ∧ s.text.length < r.text.length := by
  have htag : 0 < (Tag.opening .paramType).render.length := by decide
  obtain ⟨front, tail, rfl⟩ := exists_of_round h
  rw [tail_mk]
  cases scannable tail with
  | free hcolon =>
    rw [round_free hcolon] at h
    cases h
  | @last a rest ha hcomma hparenthesis =>
    rw [round_last ha hcomma hparenthesis] at h
    cases h
    simp only [Round.tail, Round.text, span, List.length_append, List.length_cons, List.length_nil]
    exact ⟨List.nil_suffix, by omega, by omega⟩
  | @next a x y stop ha hends =>
    rw [round_next ha hends] at h
    cases h
    rw [Round.tail, tail_mk]
    simp only [Round.text, span, List.length_append, List.length_cons]
    exact ⟨⟨a ++ ':' :: x, by simp⟩, by omega, by omega⟩

/-- **The loop**, with the number of its rounds and the text at its end. -/
def Scan.run (s : Scan) : Except Failure (Nat × Text) :=
  match _h : s.round with
  | .error failure => .error failure
  | .ok none => .ok (0, s.text)
  | .ok (some (.last text)) => .ok (1, text)
  | .ok (some (.next scan)) => scan.run.map fun (rounds, text) => (rounds + 1, text)
termination_by s.tail.length
decreasing_by exact (round_shrinks _h).2.1

theorem run_of_none (h : s.round = .ok none) : s.run = .ok (0, s.text) := by
  rw [Scan.run]
  split <;> rename_i hround <;> rw [h] at hround <;> cases hround

theorem run_of_last {text : Text} (h : s.round = .ok (some (.last text))) : s.run = .ok (1, text) := by
  rw [Scan.run]
  split <;> rename_i hround <;> rw [h] at hround <;> cases hround
  rfl

theorem run_of_next {next : Scan} {rounds : Nat} {text : Text} (h : s.round = .ok (some (.next next)))
    (hrun : next.run = .ok (rounds, text)) : s.run = .ok (rounds + 1, text) := by
  rw [Scan.run]
  split <;> rename_i hround <;> rw [h] at hround <;> cases hround
  rw [hrun]
  rfl

/-! ## 4. Where the segments are -/

/-- A part of a text, from one character up to another. -/
structure Segment where
  start : Nat
  stop : Nat
  deriving DecidableEq, Repr

/-- Is the character in the segment? -/
def Segment.Covers (s : Segment) (i : Nat) : Prop := s.start ≤ i ∧ i < s.stop

/-- The text from a place on, with tags around the segments. -/
def tagged (t : Text) : Nat → List Segment → Text
  | n, [] => t.drop n
  | n, s :: segments =>
    (t.drop n).take (s.start - n) ++ (span ((t.drop s.start).take (s.stop - s.start)) ++ tagged t s.stop segments)

/-- Does an annotation end at this place at the latest? -/
def IsStop (t : Text) (i : Nat) : Prop := t[i]? = some ',' ∨ t[i]? = some ')'

/-- **The segments of a text, from a place on**: one after the other, each from a colon, each but the last up to a
    stop, and every colon in exactly one of them. -/
structure Annotates (t : Text) (n : Nat) (segments : List Segment) : Prop where
  disjoint : segments.Pairwise fun r s => r.stop ≤ s.start
  within : ∀ s ∈ segments, n ≤ s.start ∧ s.start < s.stop ∧ s.stop ≤ t.length
  starts : ∀ s ∈ segments, t[s.start]? = some ':'
  ends : ∀ s ∈ segments.dropLast, IsStop t s.stop
  last : ∀ s ∈ segments.getLast?, IsStop t s.stop ∨ s.stop = t.length
  unique : ∀ i, n ≤ i → t[i]? = some ':' → ∃! s, s ∈ segments ∧ s.Covers i

variable {t : Text} {n : Nat} {s : Segment} {segments : List Segment}

/-- No segments, where no colon is left. -/
theorem Annotates.nil (h : ∀ i, n ≤ i → t[i]? ≠ some ':') : Annotates t n [] where
  disjoint := .nil
  within _ hs := nomatch hs
  starts _ hs := nomatch hs
  ends _ hs := nomatch hs
  last _ hs := nomatch hs
  unique i hi hcolon := absurd hcolon (h i hi)

/-- A segment from the next colon on, and the segments behind it. -/
theorem Annotates.cons (hn : n ≤ s.start) (hlt : s.start < s.stop) (hlength : s.stop ≤ t.length)
    (hstart : t[s.start]? = some ':') (hbefore : ∀ i, n ≤ i → i < s.start → t[i]? ≠ some ':')
    (hstop : IsStop t s.stop ∨ s.stop = t.length ∧ segments = []) (h : Annotates t s.stop segments) :
    Annotates t n (s :: segments) where
  disjoint := List.pairwise_cons.mpr ⟨fun r hr => (h.within r hr).1, h.disjoint⟩
  within := List.forall_mem_cons.mpr
    ⟨⟨hn, hlt, hlength⟩, fun r hr => ⟨by have := (h.within r hr).1; omega, (h.within r hr).2⟩⟩
  starts := List.forall_mem_cons.mpr ⟨hstart, h.starts⟩
  ends := by
    cases segments with
    | nil => exact fun _ hr => nomatch hr
    | cons r segments =>
      rw [List.dropLast_cons_of_ne_nil (List.cons_ne_nil r segments)]
      exact List.forall_mem_cons.mpr ⟨hstop.resolve_right fun hlast => List.cons_ne_nil r segments hlast.2, h.ends⟩
  last := by
    cases segments with
    | nil =>
      intro r hr
      cases hr
      exact hstop.imp_right And.left
    | cons r segments =>
      rw [List.getLast?_cons_cons]
      exact h.last
  unique i hi hcolon := by
    by_cases hlate : s.stop ≤ i
    · obtain ⟨r, hr, hunique⟩ := h.unique i hlate hcolon
      refine ⟨r, ⟨List.mem_cons_of_mem s hr.1, hr.2⟩, fun q hq => ?_⟩
      rcases List.mem_cons.mp hq.1 with rfl | hmem
      · exact absurd hq.2.2 (by omega)
      · exact hunique q ⟨hmem, hq.2⟩
    · have hearly : s.start ≤ i := Nat.le_of_not_lt fun hlt => hbefore i hi hlt hcolon
      refine ⟨s, ⟨List.mem_cons_self, hearly, by omega⟩, fun q hq => ?_⟩
      rcases List.mem_cons.mp hq.1 with rfl | hmem
      · rfl
      · have := (h.within q hmem).1
        exact absurd hq.2.1 (by omega)

/-- A segment behind what has been scanned: where it is, and what the tags are put around. -/
theorem tagged_cons (done a segment behind : Text) (segments : List Segment) :
    tagged (done ++ (a ++ (segment ++ behind))) done.length
        (⟨(done ++ a).length, (done ++ (a ++ segment)).length⟩ :: segments) =
      a ++ (span segment ++ tagged (done ++ (a ++ (segment ++ behind))) (done ++ (a ++ segment)).length segments) := by
  have hlength : (done ++ (a ++ segment)).length - (done ++ a).length = segment.length := by
    simp only [List.length_append]
    omega
  have hgap : (done ++ a).length - done.length = a.length := by simp
  have hsegment : (done ++ (a ++ (segment ++ behind))).drop (done ++ a).length = segment ++ behind := by
    rw [← List.append_assoc, List.drop_left]
  rw [tagged, hlength, hgap, hsegment, List.drop_left, List.take_left, List.take_left]

/-- The next segment is the first, whatever the tail is behind it. -/
theorem Annotates.segment {done behind : Text} (ha : ':' ∉ a)
    (hbehind : behind = [] ∧ segments = [] ∨ ∃ c y, behind = c :: y ∧ (c = ',' ∨ c = ')'))
    (h : Annotates (done ++ (a ++ (':' :: x ++ behind))) (done ++ (a ++ ':' :: x)).length segments) :
    Annotates (done ++ (a ++ (':' :: x ++ behind))) done.length
      (⟨(done ++ a).length, (done ++ (a ++ ':' :: x)).length⟩ :: segments) := by
  have hassoc : done ++ (a ++ (':' :: x ++ behind)) = (done ++ a) ++ ':' :: (x ++ behind) := by simp
  have hassoc' : done ++ (a ++ (':' :: x ++ behind)) = (done ++ (a ++ ':' :: x)) ++ behind := by simp
  refine .cons (by simp) (by simp) (by simp) ?_ (fun i hi hlt hat => ?_) ?_ h
  · rw [hassoc, List.getElem?_append_right (Nat.le_refl _), Nat.sub_self]
    rfl
  · rw [hassoc, List.getElem?_append_left hlt, List.getElem?_append_right hi] at hat
    exact ha (List.mem_of_getElem? hat)
  · refine hbehind.symm.imp ?_ fun hlast => ⟨?_, hlast.2⟩
    · rintro ⟨c, y, rfl, hc⟩
      rw [IsStop, hassoc', List.getElem?_append_right (Nat.le_refl _), Nat.sub_self]
      rcases hc with rfl | rfl
      · exact .inl rfl
      · exact .inr rfl
    · rw [hassoc', hlast.1, List.append_nil]

/-- **The loop ends with all slices good**, and has put tags around segments and done nothing else. -/
theorem exists_annotates (h : Scannable tail) (done front : Text) : ∃ segments,
    (Scan.mk (front ++ tail) (byteLength front)).run =
      .ok (segments.length, front ++ tagged (done ++ tail) done.length segments) ∧
    Annotates (done ++ tail) done.length segments := by
  induction h generalizing done front with
  | @free tail hcolon =>
    refine ⟨[], ?_, .nil fun i hi hat => ?_⟩
    · rw [run_of_none (round_free hcolon), tagged, List.drop_left]
      rfl
    · rw [List.getElem?_append_right hi] at hat
      exact hcolon (List.mem_of_getElem? hat)
  | @last a rest ha hcomma hparenthesis =>
    have htagged := tagged_cons done a (':' :: rest) [] []
    simp only [List.append_nil] at htagged
    refine ⟨[⟨(done ++ a).length, (done ++ (a ++ ':' :: rest)).length⟩], ?_, ?_⟩
    · rw [run_of_last (round_last ha hcomma hparenthesis), htagged, tagged, List.drop_length, List.append_nil]
      rfl
    · have hnone : Annotates (done ++ (a ++ (':' :: rest ++ []))) (done ++ (a ++ ':' :: rest)).length [] := by
        refine .nil fun i hi hat => ?_
        rw [List.append_nil, List.getElem?_eq_none hi] at hat
        cases hat
      have hsegment := hnone.segment ha (.inl ⟨rfl, rfl⟩)
      rwa [List.append_nil] at hsegment
  | @next a x y stop ha hends h ih =>
    obtain ⟨segments, hrun, hsegments⟩ := ih (done ++ (a ++ ':' :: x)) (front ++ (a ++ span (':' :: x)))
    have hassoc : done ++ (a ++ ':' :: x) ++ stop :: y = done ++ (a ++ (':' :: x ++ stop :: y)) := by simp
    rw [hassoc] at hrun hsegments
    refine ⟨⟨(done ++ a).length, (done ++ (a ++ ':' :: x)).length⟩ :: segments, ?_, ?_⟩
    · rw [run_of_next (round_next ha hends) hrun, ← List.cons_append, tagged_cons]
      simp only [List.append_assoc, List.length_cons]
    · exact .segment ha (.inr ⟨stop, y, rfl, hends.eq_or⟩) hsegments

/-! ## 5. Rendered pieces -/

section Pieces

variable {ps as bs xs : List Piece} {c : Char}

theorem render_append (ps qs : List Piece) : render (ps ++ qs) = render ps ++ render qs := List.flatMap_append

theorem render_cons (p : Piece) (ps : List Piece) : render (p :: ps) = p.render ++ render ps := List.flatMap_cons

/-- A character that the scan looks for. -/
def IsMark (c : Char) : Prop := c = ':' ∨ c = ',' ∨ c = ')'

theorem escape_of_isMark (hc : IsMark c) : escape c = [c] := by
  rcases hc with rfl | rfl | rfl <;> rfl

/-- No tag has such a character. -/
theorem isMark_notMem_tag (hc : IsMark c) (t : Tag) : c ∉ t.render := by
  rcases hc with rfl | rfl | rfl
  all_goals
    cases t with
    | opening style => cases style <;> decide
    | closing => decide

/-- No escape has one, unless it stands for itself. -/
theorem isMark_mem_escape (hc : IsMark c) (d : Char) : c ∈ escape d ↔ d = c := by
  have hentity : ∀ {entity : Text}, (entity.all fun e => e != ':' && e != ',' && e != ')') = true → c ∉ entity := by
    intro entity hall hmem
    have hnone := List.all_eq_true.mp hall c hmem
    simp only [Bool.and_eq_true, bne_iff_ne] at hnone
    rcases hc with rfl | rfl | rfl
    · exact hnone.1.1 rfl
    · exact hnone.1.2 rfl
    · exact hnone.2 rfl
  have hbracket : d = '<' ∨ d = '>' ∨ d = '\uE000' ∨ d = '\uE001' → d ≠ c := by
    rintro (rfl | rfl | rfl | rfl) <;> rcases hc with rfl | rfl | rfl <;> decide
  rw [escape]
  split
  · rename_i hd
    exact iff_of_false (hentity rfl) (hbracket (.inl hd))
  split
  · rename_i hd
    exact iff_of_false (hentity rfl) (hbracket (.inr (.inl hd)))
  split
  · rename_i hd
    exact iff_of_false (hentity rfl) (hbracket (.inr (.inr (.inl hd))))
  split
  · rename_i hd
    exact iff_of_false (hentity rfl) (hbracket (.inr (.inr (.inr hd))))
  · rw [List.mem_singleton, eq_comm]

theorem isMark_mem_piece (hc : IsMark c) (p : Piece) : c ∈ p.render ↔ p = .char c := by
  cases p with
  | tag t => exact iff_of_false (isMark_notMem_tag hc t) Piece.noConfusion
  | char d => rw [Piece.char.injEq, ← isMark_mem_escape hc d, Piece.render]

theorem isMark_mem_render (hc : IsMark c) : c ∈ render ps ↔ .char c ∈ ps := by
  simp only [render, List.mem_flatMap, isMark_mem_piece hc, exists_eq_right]

/-- Where such a character stands in a rendered text, its piece stands. -/
theorem exists_of_render (hc : IsMark c) {a b : Text} (ha : c ∉ a) (h : render ps = a ++ c :: b) :
    ∃ as bs, ps = as ++ .char c :: bs ∧ render as = a ∧ render bs = b := by
  have hmem : .char c ∈ ps := (isMark_mem_render hc).mp (by simp [h])
  obtain ⟨as, bs, rfl, has⟩ := List.eq_append_cons_of_mem hmem
  have hpiece : (Piece.char c).render = [c] := escape_of_isMark hc
  have hrender : render (as ++ .char c :: bs) = render as ++ c :: render bs := by
    rw [render_append, render_cons, hpiece]
    rfl
  obtain ⟨rfl, rfl⟩ := append_cons_inj (mt (isMark_mem_render hc).mp has) ha (hrender.symm.trans h)
  exact ⟨as, bs, rfl, rfl, rfl⟩

theorem tagAnnotations_outside (h : .char ':' ∉ as) (rest : List Piece) :
    tagAnnotations .outside (as ++ rest) = as ++ tagAnnotations .outside rest := by
  induction as with
  | nil => rfl
  | cons p as ih =>
    obtain ⟨hp, has⟩ := List.ne_and_not_mem_of_not_mem_cons h
    rw [List.cons_append, tagAnnotations, if_neg hp.symm, ih has]
    rfl

theorem tagAnnotations_inside {stop : Option Char} (h : ∀ p ∈ xs, stop.map Piece.char ≠ some p) (rest : List Piece) :
    tagAnnotations (.inside stop) (xs ++ rest) = xs ++ tagAnnotations (.inside stop) rest := by
  induction xs with
  | nil => rfl
  | cons p xs ih =>
    obtain ⟨hp, hxs⟩ := List.forall_mem_cons.mp h
    rw [List.cons_append, tagAnnotations, if_neg hp, ih hxs]
    rfl

/-- Where an annotation ends among pieces. -/
theorem annotationEnd?_of_ends {x y : Text} {stop : Char} (h : Ends x stop y) {xs ys : List Piece}
    (hxs : render xs = x) (hys : render ys = y) : annotationEnd? (xs ++ .char stop :: ys) = some stop ∧
      ∀ p ∈ xs, (some stop).map Piece.char ≠ some p := by
  have hcomma : IsMark ',' := .inr (.inl rfl)
  have hparenthesis : IsMark ')' := .inr (.inr rfl)
  subst hxs hys
  have hout : ∀ {c : Char}, .char c ∉ xs → ∀ p ∈ xs, (some c).map Piece.char ≠ some p :=
    fun hc p hp he => hc (Option.some.inj he ▸ hp)
  cases h with
  | comma hx => exact ⟨annotationEnd?_of_comma (by simp), hout (mt (isMark_mem_render hcomma).mpr hx)⟩
  | parenthesis hx hy h =>
    rw [isMark_mem_render hcomma] at hx hy
    exact ⟨annotationEnd?_of_parenthesis (by simp [hx, hy]) (by simp),
      hout (mt (isMark_mem_render hparenthesis).mpr h)⟩

theorem tagAnnotations_last (has : .char ':' ∉ as) (h : annotationEnd? bs = none) :
    tagAnnotations .outside (as ++ .char ':' :: bs) =
      as ++ .tag (.opening .paramType) :: .char ':' :: (bs ++ [.tag .closing]) := by
  have hout : ∀ p ∈ bs, (none : Option Char).map Piece.char ≠ some p := fun _ _ => nofun
  have hinside := tagAnnotations_inside hout []
  rw [List.append_nil] at hinside
  rw [tagAnnotations_outside has, tagAnnotations, if_pos rfl, h, hinside, tagAnnotations]

theorem tagAnnotations_next {stop : Char} {ys : List Piece} (has : .char ':' ∉ as) (hstop : stop ≠ ':')
    (h : annotationEnd? (xs ++ .char stop :: ys) = some stop) (hxs : ∀ p ∈ xs, (some stop).map Piece.char ≠ some p) :
    tagAnnotations .outside (as ++ .char ':' :: (xs ++ .char stop :: ys)) =
      as ++ .tag (.opening .paramType) :: .char ':' ::
        (xs ++ .tag .closing :: tagAnnotations .outside (.char stop :: ys)) := by
  have hinside : tagAnnotations (.inside (some stop)) (.char stop :: ys) =
      .tag .closing :: .char stop :: tagAnnotations .outside ys := if_pos rfl
  have houtside : tagAnnotations .outside (.char stop :: ys) = .char stop :: tagAnnotations .outside ys :=
    if_neg fun he => hstop (Piece.char.inj he)
  rw [tagAnnotations_outside has, tagAnnotations, if_pos rfl, h, tagAnnotations_inside hxs, hinside, houtside]

/-- The tags of a segment are its span. -/
theorem render_span (as segment rest : List Piece) :
    render (as ++ .tag (.opening .paramType) :: .char ':' :: (segment ++ .tag .closing :: rest)) =
      render as ++ span (':' :: render segment) ++ render rest := by
  have hcolon : escape ':' = [':'] := rfl
  simp only [render_append, render_cons, hcolon, span, Piece.render, List.append_assoc, List.cons_append,
    List.nil_append]

/-- **On rendered pieces the loop does what `tagAnnotations` does.** -/
theorem run_render {tail : Text} (h : Scannable tail) (hps : render ps = tail) (front : Text) :
    ∃ rounds, (Scan.mk (front ++ tail) (byteLength front)).run =
      .ok (rounds, front ++ render (tagAnnotations .outside ps)) := by
  have hmark : IsMark ':' := .inl rfl
  induction h generalizing ps front with
  | @free tail hcolon =>
    have hnone : .char ':' ∉ ps := mt (isMark_mem_render hmark).mpr (hps ▸ hcolon)
    have hplain := tagAnnotations_outside hnone []
    rw [List.append_nil] at hplain
    refine ⟨0, ?_⟩
    rw [run_of_none (round_free hcolon), hplain, tagAnnotations, List.append_nil, hps]
  | @last a rest ha hcomma hparenthesis =>
    obtain ⟨as, bs, rfl, rfl, rfl⟩ := exists_of_render hmark ha hps
    have hround := run_of_last (@round_last front _ _ ha hcomma hparenthesis)
    rw [isMark_mem_render (.inl rfl)] at ha
    rw [isMark_mem_render (.inr (.inl rfl))] at hcomma
    rw [isMark_mem_render (.inr (.inr rfl))] at hparenthesis
    have hnone : annotationEnd? bs = none := by simp [annotationEnd?, hcomma, hparenthesis]
    have hnil : render [] = [] := rfl
    refine ⟨1, ?_⟩
    rw [hround, tagAnnotations_last ha hnone, render_span, hnil, List.append_nil]
  | @next a x y stop ha hends h ih =>
    obtain ⟨as, bs, rfl, rfl, hbs⟩ := exists_of_render hmark ha hps
    obtain ⟨xs, ys, rfl, rfl, rfl⟩ := exists_of_render (.inr hends.eq_or) hends.notMem hbs
    obtain ⟨hend, hxs⟩ := annotationEnd?_of_ends hends rfl rfl
    have hstop : stop ≠ ':' := by rcases hends.eq_or with rfl | rfl <;> decide
    have hpiece : render (.char stop :: ys) = stop :: render ys := by
      rw [render_cons, Piece.render, escape_of_isMark (.inr hends.eq_or)]
      rfl
    obtain ⟨rounds, hrun⟩ := ih hpiece (front ++ (render as ++ span (':' :: render xs)))
    refine ⟨rounds + 1, ?_⟩
    rw [run_of_next (round_next ha hends) hrun,
      tagAnnotations_next (mt (isMark_mem_render hmark).mpr ha) hstop hend hxs, render_span]
    simp only [List.append_assoc]

end Pieces

/-! ## 6. Every text -/

/-- **The scan ends, and only adds spans.** -/
theorem scan_ends (t : Text) : ∃ segments,
    (Scan.start t).run = .ok (segments.length, tagged t 0 segments) ∧
    Annotates t 0 segments ∧
    (∀ (s : Scan) (r : Round), s.round = .ok (some r) →
      r.tail <:+ s.tail ∧ r.tail.length < s.tail.length ∧ s.text.length < r.text.length) ∧
    ∀ ps, render ps = t → render (tagAnnotations .outside ps) = tagged t 0 segments := by
  obtain ⟨segments, hrun, hsegments⟩ := exists_annotates (scannable t) [] []
  refine ⟨segments, hrun, hsegments, fun s r h => round_shrinks h, fun ps hps => ?_⟩
  obtain ⟨rounds, hrender⟩ := run_render (scannable t) hps []
  exact (Prod.mk.inj (Except.ok.inj (hrender.symm.trans hrun))).2

/-- The second annotation starts behind the list, and ends at a comma that stands there too. -/
theorem scan_ends_behind_list : ∃ segments,
    (Scan.start "(a: A, b): B, c".toList).run = .ok (segments.length,
      "(a<span class=\"paramType\">: A</span>, b)<span class=\"paramType\">: B</span>, c".toList) ∧
    Annotates "(a: A, b): B, c".toList 0 segments ∧
    (Scan.mk "(a<span class=\"paramType\">: A</span>, b): B, c".toList 36).tail.length < "(a: A, b): B, c".length := by
  obtain ⟨segments, hrun, hsegments, hround, hrender⟩ := scan_ends "(a: A, b): B, c".toList
  have hfirst : (Scan.start "(a: A, b): B, c".toList).round =
      .ok (some (.next ⟨"(a<span class=\"paramType\">: A</span>, b): B, c".toList, 36⟩)) := by decide
  have hout : render (tagAnnotations .outside (plain "(a: A, b): B, c".toList)) =
      "(a<span class=\"paramType\">: A</span>, b)<span class=\"paramType\">: B</span>, c".toList := by decide
  rw [← hrender (plain "(a: A, b): B, c".toList) (by decide), hout] at hrun
  exact ⟨segments, hrun, hsegments, (hround _ _ hfirst).2.1⟩

end Ambient.Markup
