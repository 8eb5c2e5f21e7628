import Ambient.Proofs.Declaration.Markup
import Mathlib.Data.List.Basic
import Mathlib.Data.List.TakeWhile

/-!
# The span of a parameter list

The markup of a function has one span for the list from its first `(` to its last `)`, and spans for its
annotations, which end at a comma wherever one is left in the signature. A span is closed by the closing tag that
pairs with its opening tag by nesting, whatever span the tag was written for.

* `tagAnnotations_append`: the annotations of a signature, part by part, with the state in between;
* `after_stop`, `after_of_parenthesis`: which annotation is open behind a part, told by its colons and stops;
* `closes_annotated`: the spans of a part are closed in it up to the annotation that is left open;
* `ListLine.exists_text`, `ListLine.pieces_text`: the cut of a signature at its list, and the pieces of each part;
* `ListLine.Fits`: no annotation has only one of its ends in the list;
* `markup_encloses_iff`: the span of the list encloses the list if and only if it fits.
-/

namespace Ambient.Markup

/-! ## 1. Tags and characters of a part -/

theorem tag_mem_iff {tag : Tag} {ps : List Piece} : .tag tag ∈ ps ↔ tag ∈ tagsOf ps := by
  induction ps with
  | nil => simp
  | cons p ps ih => cases p <;> simp [ih]

theorem escaped_append (ps qs : List Piece) : escaped (ps ++ qs) = escaped ps ++ escaped qs := List.flatMap_append

/-- **Two parts of a list that start together and end in a character are the same if their characters are.** -/
theorem eq_of_strip {as bs xs ys : List Piece} {c d : Char} (h : as ++ xs = bs ++ ys) (hstrip : strip as = strip bs)
    (has : as.getLast? = some (.char c)) (hbs : bs.getLast? = some (.char d)) : as = bs := by
  have hnone : ∀ {as bs m : List Piece} {d : Char}, bs = as ++ m → strip as = strip bs →
      bs.getLast? = some (.char d) → as = bs := by
    intro as bs m d hm hs hlast
    rw [hm, strip_append] at hs
    have hempty : strip m = [] := List.append_right_eq_self.mp hs.symm
    obtain rfl | ⟨init, p, rfl⟩ := List.eq_nil_or_concat m
    · rw [hm, List.append_nil]
    · rw [hm, List.concat_eq_append, ← List.append_assoc, List.getLast?_concat] at hlast
      cases hlast
      rw [List.concat_eq_append, strip_append] at hempty
      exact absurd hempty (by simp)
  rcases List.append_eq_append_iff.mp h with ⟨m, hm, -⟩ | ⟨m, hm, -⟩
  · exact hnone hm hstrip hbs
  · exact (hnone hm hstrip.symm has).symm

/-! ## 2. Annotations, part by part -/

namespace AnnotationState

/-- The state behind a piece. -/
def step (s : AnnotationState) (p : Piece) (rest : List Piece) : AnnotationState :=
  match s with
  | outside => if p = .char ':' then inside (annotationEnd? rest) else outside
  | inside stop => if stop.map Piece.char = some p then outside else inside stop

/-- The piece, behind the tag that is put before it. -/
def put (s : AnnotationState) (p : Piece) : List Piece :=
  match s with
  | outside => if p = .char ':' then [.tag (.opening .paramType), p] else [p]
  | inside stop => if stop.map Piece.char = some p then [.tag .closing, p] else [p]

/-- The state behind a part of the signature that `rest` follows. -/
def after (s : AnnotationState) : List Piece → List Piece → AnnotationState
  | [], _ => s
  | p :: ps, rest => (s.step p (ps ++ rest)).after ps rest

end AnnotationState

open AnnotationState (inside outside)

/-- A part of the signature that `rest` follows, with the spans around its annotations. -/
def annotated (s : AnnotationState) : List Piece → List Piece → List Piece
  | [], _ => []
  | p :: ps, rest => s.put p ++ annotated (s.step p (ps ++ rest)) ps rest

theorem tagAnnotations_cons (s : AnnotationState) (p : Piece) (rest : List Piece) :
    tagAnnotations s (p :: rest) = s.put p ++ tagAnnotations (s.step p rest) rest := by
  cases s with
  | outside =>
    by_cases hcolon : p = .char ':'
    · simp [tagAnnotations, AnnotationState.put, AnnotationState.step, hcolon]
    · simp [tagAnnotations, AnnotationState.put, AnnotationState.step, hcolon]
  | inside stop =>
    by_cases hstop : stop.map Piece.char = some p
    · simp [tagAnnotations, AnnotationState.put, AnnotationState.step, hstop]
    · simp [tagAnnotations, AnnotationState.put, AnnotationState.step, hstop]

/-- **The annotations of a signature, part by part.** -/
theorem tagAnnotations_append (s : AnnotationState) (ps rest : List Piece) :
    tagAnnotations s (ps ++ rest) = annotated s ps rest ++ tagAnnotations (s.after ps rest) rest := by
  induction ps generalizing s with
  | nil => rfl
  | cons p ps ih =>
    rw [List.cons_append, tagAnnotations_cons, ih, ← List.append_assoc]
    rfl

/-- A tag is passed over. -/
theorem tagAnnotations_tag (s : AnnotationState) (tag : Tag) (rest : List Piece) :
    tagAnnotations s (.tag tag :: rest) = .tag tag :: tagAnnotations s rest := by
  rw [tagAnnotations_cons]
  cases s with
  | outside => rfl
  | inside stop => cases stop <;> rfl

theorem after_append (s : AnnotationState) (ps qs rest : List Piece) :
    s.after (ps ++ qs) rest = (s.after ps (qs ++ rest)).after qs rest := by
  induction ps generalizing s with
  | nil => rfl
  | cons p ps ih =>
    rw [List.cons_append, AnnotationState.after, ih, List.append_assoc]
    rfl

theorem annotated_concat (s : AnnotationState) (ps : List Piece) (p : Piece) (rest : List Piece) :
    annotated s (ps ++ [p]) rest = annotated s ps (p :: rest) ++ (s.after ps (p :: rest)).put p := by
  induction ps generalizing s with
  | nil => exact List.append_nil _
  | cons q ps ih =>
    rw [List.cons_append, annotated, ih, List.append_assoc, List.singleton_append, ← List.append_assoc]
    rfl

/-- Nothing but a tag is put before a piece. -/
theorem exists_put (s : AnnotationState) (p : Piece) : ∃ tags, s.put p = tags ++ [p] ∧ strip tags = [] := by
  cases s with
  | outside =>
    by_cases hcolon : p = .char ':'
    · exact ⟨[.tag (.opening .paramType)], if_pos hcolon, rfl⟩
    · exact ⟨[], if_neg hcolon, rfl⟩
  | inside stop =>
    by_cases hstop : stop.map Piece.char = some p
    · exact ⟨[.tag .closing], if_pos hstop, rfl⟩
    · exact ⟨[], if_neg hstop, rfl⟩

theorem getLast?_annotated (s : AnnotationState) (ps : List Piece) (p : Piece) (rest : List Piece) :
    (annotated s (ps ++ [p]) rest).getLast? = some p := by
  obtain ⟨tags, hput, -⟩ := exists_put (s.after ps (p :: rest)) p
  rw [annotated_concat, hput, ← List.append_assoc, List.getLast?_concat]

theorem strip_annotated (s : AnnotationState) (ps rest : List Piece) : strip (annotated s ps rest) = strip ps := by
  induction ps generalizing s with
  | nil => rfl
  | cons p ps ih =>
    obtain ⟨tags, hput, htags⟩ := exists_put s p
    rw [annotated, strip_append, ih, hput, strip_append, htags, List.nil_append, ← strip_append]
    rfl

/-! ## 3. Which annotation is open -/

theorem annotationEnd?_of_comma {rest : List Piece} (h : .char ',' ∈ rest) : annotationEnd? rest = some ',' := by
  simp [annotationEnd?, h]

theorem annotationEnd?_of_parenthesis {rest : List Piece} (hcomma : .char ',' ∉ rest) (h : .char ')' ∈ rest) :
    annotationEnd? rest = some ')' := by
  simp [annotationEnd?, hcomma, h]

theorem char_mem_plain {c : Char} {t : Text} : .char c ∈ plain t ↔ c ∈ t := by simp [plain]

/-- Does a `:` stand in the text with none of the stops behind it? -/
def dangles (stops : List Char) : Text → Bool
  | [] => false
  | c :: t => (c == ':' && !t.any stops.contains) || dangles stops t

theorem dangles_of_colon_notMem {stops : List Char} {t : Text} (h : ':' ∉ t) : dangles stops t = false := by
  induction t with
  | nil => rfl
  | cons c t ih =>
    have hc : c ≠ ':' := fun e => h (e ▸ List.mem_cons_self)
    simpa [dangles, hc] using ih (List.not_mem_of_not_mem_cons h)

/-- A last character that is neither a `:` nor a stop makes no difference. -/
theorem dangles_concat {stops : List Char} {c : Char} (hcolon : c ≠ ':') (hstop : c ∉ stops) (t : Text) :
    dangles stops (t ++ [c]) = dangles stops t := by
  induction t with
  | nil => simp [dangles, hcolon]
  | cons d t ih => simp [dangles, ih, hstop]

/-- A stop that does not occur makes no difference. -/
theorem dangles_of_notMem {stop : Char} {stops : List Char} {t : Text} (h : stop ∉ t) :
    dangles (stop :: stops) t = dangles stops t := by
  induction t with
  | nil => rfl
  | cons c t ih =>
    have ht : stop ∉ t := List.not_mem_of_not_mem_cons h
    have hany : t.any (stop :: stops).contains = t.any stops.contains := by
      rw [Bool.eq_iff_iff, List.any_eq_true, List.any_eq_true]
      refine exists_congr fun d => and_congr_right fun hd => ?_
      have hne : d ≠ stop := fun e => ht (e ▸ hd)
      simp [hne]
    rw [dangles, dangles, hany, ih ht]

/-- Inside an annotation up to the stop, or outside every one. -/
def stateOf (stop : Char) (isOpen : Bool) : AnnotationState := if isOpen then inside (some stop) else outside

section Rest

variable {rest : List Piece} {stop : Char}

theorem step_stateOf (hcolon : stop ≠ ':') (hend : annotationEnd? rest = some stop) (isOpen : Bool) (c : Char) :
    (stateOf stop isOpen).step (.char c) rest = stateOf stop (isOpen && c != stop || c == ':') := by
  cases isOpen with
  | false =>
    by_cases hc : c = ':'
    · simp [stateOf, AnnotationState.step, hc, hend]
    · simp [stateOf, AnnotationState.step, hc]
  | true =>
    by_cases hc : c = stop
    · subst hc
      simp [stateOf, AnnotationState.step, hcolon]
    · simp [stateOf, AnnotationState.step, hc, Ne.symm hc]

/-- **Where every annotation has the same stop**, one is open behind a text if the last `:` of the text has no stop
    behind it, or if one was open before and the text has no stop. -/
theorem after_stop (hcolon : stop ≠ ':') {t : Text}
    (hend : ∀ u, u <:+ t → annotationEnd? (plain u ++ rest) = some stop) (isOpen : Bool) :
    (stateOf stop isOpen).after (plain t) rest = stateOf stop (isOpen && !t.contains stop || dangles [stop] t) := by
  induction t generalizing isOpen with
  | nil => simp [plain, AnnotationState.after, dangles]
  | cons c t ih =>
    have hstep := step_stateOf hcolon (hend t (List.suffix_cons c t)) isOpen c
    have hrest := ih (fun u hu => hend u (hu.trans (List.suffix_cons c t))) (isOpen && c != stop || c == ':')
    have hafter : (stateOf stop isOpen).after (plain (c :: t)) rest =
        ((stateOf stop isOpen).step (.char c) (plain t ++ rest)).after (plain t) rest := rfl
    have hany : t.any [stop].contains = t.contains stop := by
      rw [Bool.eq_iff_iff]
      simp
    rw [hafter, hstep, hrest, dangles, hany, List.contains_cons]
    congr 1
    generalize t.contains stop = later
    by_cases hc : c = stop
    · simp [hc]
    · have hne : (c != stop) = true := bne_iff_ne.mpr hc
      have hne' : (stop == c) = false := beq_false_of_ne (Ne.symm hc)
      rw [hne, hne']
      cases isOpen <;> cases later <;> simp

/-- Where a comma follows, every annotation ends at one. -/
theorem after_of_comma (h : .char ',' ∈ rest) (t : Text) :
    outside.after (plain t) rest = stateOf ',' (dangles [','] t) := by
  have hend (u : Text) (_ : u <:+ t) : annotationEnd? (plain u ++ rest) = some ',' :=
    annotationEnd?_of_comma (List.mem_append_right _ h)
  simpa [stateOf] using after_stop (by decide) hend false

section Parenthesis

variable {t : Text} (hcomma : .char ',' ∉ rest) (hend : .char ')' ∈ rest)

include hcomma hend

/-- Where a parenthesis follows and no comma, an annotation in a text without one ends at a parenthesis. -/
theorem after_of_no_comma (ht : ',' ∉ t) : outside.after (plain t) rest = stateOf ')' (dangles [',', ')'] t) := by
  have hstop (u : Text) (hu : u <:+ t) : annotationEnd? (plain u ++ rest) = some ')' := by
    refine annotationEnd?_of_parenthesis ?_ (List.mem_append_right _ hend)
    rw [List.mem_append, char_mem_plain, not_or]
    exact ⟨fun hmem => ht (hu.subset hmem), hcomma⟩
  rw [dangles_of_notMem ht]
  simpa [stateOf] using after_stop (by decide) hstop false

/-- Up to the last comma of a text it does not matter what is open. -/
theorem after_of_last_comma (ht : ',' ∈ t) (isOpen : Bool) :
    (stateOf ',' isOpen).after (plain t) rest = stateOf ')' (dangles [',', ')'] t) := by
  induction t generalizing isOpen with
  | nil => exact absurd ht List.not_mem_nil
  | cons c t ih =>
    have hafter : (stateOf ',' isOpen).after (plain (c :: t)) rest =
        ((stateOf ',' isOpen).step (.char c) (plain t ++ rest)).after (plain t) rest := rfl
    rw [hafter, dangles]
    by_cases hlater : ',' ∈ t
    · have hstop : annotationEnd? (plain t ++ rest) = some ',' :=
        annotationEnd?_of_comma (List.mem_append_left _ (char_mem_plain.mpr hlater))
      have hany : t.any [',', ')'].contains = true := List.any_eq_true.mpr ⟨',', hlater, rfl⟩
      rw [step_stateOf (by decide) hstop, ih hlater, hany]
      simp
    · obtain rfl | htail := List.mem_cons.mp ht
      · have hout : (stateOf ',' isOpen).step (.char ',') (plain t ++ rest) = outside := by
          cases isOpen <;> rfl
        rw [hout, after_of_no_comma hcomma hend hlater]
        rfl
      · exact absurd htail hlater

/-- **Where a parenthesis follows and no comma**, the annotations up to the last comma of the text end at one, and
    those behind it at a parenthesis. -/
theorem after_of_parenthesis (t : Text) : outside.after (plain t) rest = stateOf ')' (dangles [',', ')'] t) := by
  by_cases ht : ',' ∈ t
  · exact after_of_last_comma hcomma hend ht false
  · exact after_of_no_comma hcomma hend ht

end Parenthesis

end Rest

/-! ## 4. The spans of a part -/

/-- What is open behind a part are the spans that were open before it and the annotation that is left open. -/
theorem closes_annotated (s : AnnotationState) (t : Text) (rest : List Piece) (depth : Nat) (tags : List Tag) :
    Closes (depth + s.openSpans) (tagsOf (annotated s (plain t) rest) ++ tags) ↔
      Closes (depth + (s.after (plain t) rest).openSpans) tags := by
  induction t generalizing s with
  | nil => exact Iff.rfl
  | cons c t ih =>
    have hput (qs : List Piece) (tags : List Tag) : Closes (depth + s.openSpans) (tagsOf (s.put (.char c)) ++ tags) ↔
        Closes (depth + (s.step (.char c) qs).openSpans) tags := by
      cases s with
      | outside =>
        by_cases hcolon : c = ':'
        · simp [AnnotationState.put, AnnotationState.step, hcolon, AnnotationState.openSpans, Closes]
        · simp [AnnotationState.put, AnnotationState.step, hcolon, AnnotationState.openSpans]
      | inside stop =>
        by_cases hstop : stop.map Piece.char = some (.char c)
        · simp [AnnotationState.put, AnnotationState.step, hstop, AnnotationState.openSpans, Closes]
        · simp [AnnotationState.put, AnnotationState.step, hstop, AnnotationState.openSpans]
    have hcons : annotated s (plain (c :: t)) rest =
        s.put (.char c) ++ annotated (s.step (.char c) (plain t ++ rest)) (plain t) rest := rfl
    rw [hcons, tagsOf_append, List.append_assoc, hput (plain t ++ rest), ih]
    exact Iff.rfl

/-- The annotation that is open before a part is closed in it where its stop occurs first. -/
theorem closes_annotated_inside (stop : Char) (t : Text) (rest : List Piece) :
    Closes 0 (tagsOf (annotated (inside (some stop)) (plain t) rest)) ↔ stop ∉ t := by
  induction t with
  | nil => simp [annotated, plain, Closes]
  | cons c t ih =>
    have hcons : annotated (inside (some stop)) (plain (c :: t)) rest = (inside (some stop)).put (.char c) ++
        annotated ((inside (some stop)).step (.char c) (plain t ++ rest)) (plain t) rest := rfl
    rw [hcons, tagsOf_append]
    by_cases hc : stop = c
    · simp [hc, AnnotationState.put, Closes]
    · have hput : (inside (some stop)).put (.char c) = [.char c] := by simp [AnnotationState.put, hc]
      have hstep : (inside (some stop)).step (.char c) (plain t ++ rest) = inside (some stop) := by
        simp [AnnotationState.step, hc]
      rw [hput, hstep]
      simpa [hc] using ih

/-- No list is opened among the annotations of a plain text. -/
theorem opening_notMem_annotated (s : AnnotationState) (t : Text) (rest : List Piece) :
    .tag (.opening .genericType) ∉ annotated s (plain t) rest := by
  induction t generalizing s with
  | nil => exact List.not_mem_nil
  | cons c t ih =>
    have hput : Piece.tag (.opening .genericType) ∉ s.put (.char c) := by
      cases s with
      | outside => by_cases hcolon : c = ':' <;> simp [AnnotationState.put, hcolon]
      | inside stop => by_cases hstop : stop.map Piece.char = some (.char c) <;> simp [AnnotationState.put, hstop]
    intro hmem
    rcases List.mem_append.mp hmem with h | h
    · exact hput h
    · exact ih _ h

theorem opening_notMem_tagAnnotations (s : AnnotationState) (t : Text) :
    .tag (.opening .genericType) ∉ tagAnnotations s (plain t) := by
  have hparts := tagAnnotations_append s (plain t) []
  rw [List.append_nil] at hparts
  rw [hparts, List.mem_append, not_or]
  refine ⟨opening_notMem_annotated s t [], ?_⟩
  cases s.after (plain t) [] with
  | outside => exact List.not_mem_nil
  | inside stop => simp [tagAnnotations]

/-! ## 5. The list of a signature -/

theorem closesOnLine_iff {t : Text} (h : '\n' ∉ t) : closesOnLine t = true ↔ ')' ∈ t := by
  have hall : t.takeWhile (· != '\n') = t :=
    List.takeWhile_eq_self_iff.mpr fun c hc => bne_iff_ne.mpr fun e => h (e ▸ hc)
  rw [closesOnLine, hall, List.contains_iff_mem]

theorem tagParameters_before {t : Text} (h : '(' ∉ t) (rest : Text) :
    tagParameters false (t ++ rest) = plain t ++ tagParameters false rest := by
  induction t with
  | nil => rfl
  | cons c t ih =>
    have hc : c ≠ '(' := fun e => h (e ▸ List.mem_cons_self)
    have hstep : tagParameters false (c :: (t ++ rest)) = .char c :: tagParameters false (t ++ rest) := by
      simp [tagParameters, hc]
    rw [List.cons_append, hstep, ih (List.not_mem_of_not_mem_cons h)]
    rfl

theorem tagParameters_inside {t rest : Text} (hline : '\n' ∉ t ++ rest) (hclose : ')' ∈ rest) :
    tagParameters true (t ++ rest) = plain t ++ tagParameters true rest := by
  induction t with
  | nil => rfl
  | cons c t ih =>
    have hline' : '\n' ∉ t ++ rest := List.not_mem_of_not_mem_cons hline
    have hcloses : closesOnLine (t ++ rest) = true := (closesOnLine_iff hline').mpr (List.mem_append_right t hclose)
    have hstep : tagParameters true (c :: (t ++ rest)) = .char c :: tagParameters true (t ++ rest) := by
      simp [tagParameters, hcloses]
    rw [List.cons_append, hstep, ih hline']
    rfl

theorem tagParameters_behind {t : Text} (hline : '\n' ∉ t) (h : ')' ∉ t) : tagParameters false t = plain t := by
  induction t with
  | nil => rfl
  | cons c t ih =>
    have hline' : '\n' ∉ t := List.not_mem_of_not_mem_cons hline
    have hcloses : closesOnLine t = false :=
      Bool.eq_false_iff.mpr fun hc => h (List.mem_cons_of_mem c ((closesOnLine_iff hline').mp hc))
    have hstep : tagParameters false (c :: t) = .char c :: tagParameters false t := by
      simp [tagParameters, hcloses]
    rw [hstep, ih hline' (List.not_mem_of_not_mem_cons h)]
    rfl

/-- A signature on one line, cut at its first `(` and behind its last `)`. -/
structure ListLine where
  before : Text
  inner : Text
  behind : Text
  first : '(' ∉ before
  last : ')' ∉ behind
  oneLine : '\n' ∉ before ++ '(' :: (inner ++ ')' :: behind)

namespace ListLine

/-- The parameter list, with its parentheses. -/
def list (l : ListLine) : Text := '(' :: (l.inner ++ [')'])

/-- The signature. -/
def text (l : ListLine) : Text := l.before ++ (l.list ++ l.behind)

/-- A text on one line can be cut if a `)` follows a `(` in it. -/
theorem exists_text {t a b c : Text} (hline : '\n' ∉ t) (ht : t = a ++ '(' :: (b ++ ')' :: c)) :
    ∃ l : ListLine, l.text = t := by
  have hopen : '(' ∈ a ++ ['('] := by simp
  obtain ⟨before, more, hfirst, hnone⟩ := List.eq_append_cons_of_mem hopen
  have hclose : ')' ∈ (more ++ (b ++ ')' :: c)).reverse := by simp
  obtain ⟨behind, inner, hlast, hnone'⟩ := List.eq_append_cons_of_mem hclose
  have hsplit : more ++ (b ++ ')' :: c) = inner.reverse ++ ')' :: behind.reverse := by
    rw [← List.reverse_reverse (more ++ (b ++ ')' :: c)), hlast]
    simp
  have hcut : before ++ '(' :: (inner.reverse ++ ')' :: behind.reverse) = t := by
    have hleft : a ++ '(' :: (b ++ ')' :: c) = (a ++ ['(']) ++ (b ++ ')' :: c) := by simp
    rw [← hsplit, ht, hleft, hfirst]
    simp
  refine ⟨⟨before, inner.reverse, behind.reverse, hnone, by simpa using hnone', hcut.symm ▸ hline⟩, Eq.trans ?_ hcut⟩
  simp [text, list]

/-- What stands behind the list. -/
def tail (l : ListLine) : List Piece := .tag .closing :: plain l.behind

/-- The list in its span and what stands behind it. -/
def span (l : ListLine) : List Piece := .tag (.opening .genericType) :: (plain l.list ++ l.tail)

/-- What is open before the list. -/
def entry (l : ListLine) : AnnotationState := outside.after (plain l.before) l.span

variable (l : ListLine)

theorem tagParameters_text : tagParameters false l.text = plain l.before ++ l.span := by
  have hline : '\n' ∉ l.inner ++ ')' :: l.behind := fun h =>
    l.oneLine (List.mem_append_right _ (List.mem_cons_of_mem _ h))
  have hbehind : '\n' ∉ l.behind := fun h => hline (List.mem_append_right _ (List.mem_cons_of_mem _ h))
  have htext : l.text = l.before ++ '(' :: (l.inner ++ ')' :: l.behind) := by simp [text, list]
  have hclose : ')' ∈ ')' :: l.behind := List.mem_cons_self
  have hopens : closesOnLine (l.inner ++ ')' :: l.behind) = true :=
    (closesOnLine_iff hline).mpr (List.mem_append_right _ hclose)
  have hends : closesOnLine l.behind = false := Bool.eq_false_iff.mpr fun h => l.last ((closesOnLine_iff hbehind).mp h)
  have hfirst : tagParameters false ('(' :: (l.inner ++ ')' :: l.behind)) =
      .tag (.opening .genericType) :: .char '(' :: tagParameters true (l.inner ++ ')' :: l.behind) := by
    simp [tagParameters, hopens]
  have hlast : tagParameters true (')' :: l.behind) = .char ')' :: .tag .closing :: tagParameters false l.behind := by
    simp [tagParameters, hends]
  rw [htext, tagParameters_before l.first, hfirst, tagParameters_inside hline hclose, hlast,
    tagParameters_behind hbehind l.last]
  simp [span, tail, list, plain]

/-- **The pieces before the list, in it and behind it.** -/
theorem pieces_text : pieces .function l.text =
    annotated outside (plain l.before) l.span ++ .tag (.opening .genericType) ::
      (annotated l.entry (plain l.list) l.tail ++
        .tag .closing :: tagAnnotations (l.entry.after (plain l.list) l.tail) (plain l.behind)) := by
  have htagged : pieces .function l.text = tagAnnotations outside (plain l.before ++ l.span) := by
    rw [← l.tagParameters_text]
    rfl
  have hspan : tagAnnotations l.entry l.span =
      .tag (.opening .genericType) :: tagAnnotations l.entry (plain l.list ++ l.tail) := tagAnnotations_tag _ _ _
  have htail (s : AnnotationState) : tagAnnotations s l.tail = .tag .closing :: tagAnnotations s (plain l.behind) :=
    tagAnnotations_tag _ _ _
  rw [htagged, tagAnnotations_append, ← entry, hspan, tagAnnotations_append, htail]

/-! ### Annotations across the parentheses -/

/-- Does an annotation that starts before the list reach into it? -/
def opensBefore : Bool :=
  if (l.inner ++ l.behind).contains ',' then dangles [','] l.before else dangles [',', ')'] l.before

/-- No annotation has only one of its ends in the list. -/
structure Fits : Prop where
  around : l.opensBefore = true → ',' ∉ l.inner ∧ ',' ∈ l.behind
  inside : l.opensBefore = false → ',' ∈ l.behind → dangles [','] l.inner = false

theorem char_mem_span {c : Char} : .char c ∈ l.span ↔ c ∈ l.list ∨ c ∈ l.behind := by
  simp [span, tail, char_mem_plain]

theorem comma_mem_list : ',' ∈ l.list ↔ ',' ∈ l.inner := by simp [list]

theorem parenthesis_mem_list : ')' ∈ l.list := by simp [list]

theorem entry_eq : l.entry = stateOf (if (l.inner ++ l.behind).contains ',' then ',' else ')') l.opensBefore := by
  have hcomma : (l.inner ++ l.behind).contains ',' = true ↔ .char ',' ∈ l.span := by
    rw [char_mem_span, comma_mem_list, List.contains_iff_mem, List.mem_append]
  unfold entry opensBefore
  by_cases h : .char ',' ∈ l.span
  · rw [if_pos (hcomma.mpr h), if_pos (hcomma.mpr h), after_of_comma h]
  · have hparenthesis : .char ')' ∈ l.span := l.char_mem_span.mpr (.inl l.parenthesis_mem_list)
    rw [if_neg (mt hcomma.mp h), if_neg (mt hcomma.mp h), after_of_parenthesis h hparenthesis]

/-- The annotation that is left open behind a list that no annotation reaches into. -/
theorem outside_after_list : outside.after (plain l.list) l.tail = outside ↔
    (',' ∈ l.behind → dangles [','] l.inner = false) := by
  have hmem {c : Char} : .char c ∈ l.tail ↔ c ∈ l.behind := by simp [tail, char_mem_plain]
  by_cases h : ',' ∈ l.behind
  · have hlist : dangles [','] l.list = dangles [','] l.inner := by
      rw [list, dangles, dangles_concat (by decide) (by decide)]
      rfl
    rw [after_of_comma (hmem.mpr h), hlist]
    cases dangles [','] l.inner <;> simp [stateOf, h]
  · have hbody : plain l.list = plain ('(' :: l.inner) ++ [.char ')'] := by simp [list, plain]
    have hstop : .char ')' ∈ [.char ')'] ++ l.tail := List.mem_cons_self
    have hnone : .char ',' ∉ [.char ')'] ++ l.tail := by simp [hmem, h]
    have hclosed (isOpen : Bool) : (stateOf ')' isOpen).after [.char ')'] l.tail = outside := by
      cases isOpen <;> rfl
    rw [hbody, after_append, after_of_parenthesis hnone hstop, hclosed]
    simp [h]

/-- **The spans of the list are closed in it if and only if it fits.** -/
theorem closes_list_iff : Closes 0 (tagsOf (annotated l.entry (plain l.list) l.tail)) ↔ l.Fits := by
  cases hopen : l.opensBefore with
  | false =>
    have hentry : l.entry = outside := by
      rw [entry_eq, hopen]
      rfl
    have hcloses := closes_annotated outside l.list l.tail 0 []
    have hout (s : AnnotationState) : Closes (0 + s.openSpans) [] ↔ s = outside := by
      cases s <;> simp [AnnotationState.openSpans, Closes]
    rw [List.append_nil, hout, outside_after_list] at hcloses
    rw [hentry]
    refine hcloses.trans ⟨fun h => ⟨fun hf => ?_, fun _ => h⟩, fun h => h.inside hopen⟩
    rw [hopen] at hf
    exact absurd hf Bool.false_ne_true
  | true =>
    rw [entry_eq, hopen]
    have hiff : ∀ {stop : Char}, Closes 0 (tagsOf (annotated (stateOf stop true) (plain l.list) l.tail)) ↔
        stop ∉ l.list := closes_annotated_inside _ l.list l.tail
    rw [hiff]
    by_cases hcomma : ',' ∈ l.inner ++ l.behind
    · rw [if_pos (List.contains_iff_mem.mpr hcomma), comma_mem_list]
      refine ⟨fun h => ⟨fun _ => ⟨h, ?_⟩, fun hf => ?_⟩, fun h => (h.around hopen).1⟩
      · exact (List.mem_append.mp hcomma).resolve_left h
      · rw [hopen] at hf
        exact absurd hf.symm Bool.false_ne_true
    · rw [if_neg (mt List.contains_iff_mem.mp hcomma)]
      refine ⟨fun h => absurd l.parenthesis_mem_list h, fun h => ?_⟩
      exact absurd (List.mem_append_right _ (h.around hopen).2) hcomma

/-- Before a list without a `:` no annotation starts. -/
theorem fits_iff_of_notMem (h : ':' ∉ l.before) :
    l.Fits ↔ (',' ∈ l.behind → dangles [','] l.inner = false) := by
  have hopen : l.opensBefore = false := by
    unfold opensBefore
    rw [dangles_of_colon_notMem h, dangles_of_colon_notMem h, ite_self]
  refine ⟨fun hfits => hfits.inside hopen, fun hinside => ⟨fun hf => ?_, fun _ => hinside⟩⟩
  rw [hopen] at hf
  exact absurd hf Bool.false_ne_true

instance : Decidable l.Fits :=
  decidable_of_iff ((l.opensBefore = true → ',' ∉ l.inner ∧ ',' ∈ l.behind) ∧
      (l.opensBefore = false → ',' ∈ l.behind → dangles [','] l.inner = false))
    ⟨fun h => ⟨h.1, h.2⟩, fun h => ⟨h.around, h.inside⟩⟩

/-! ## 6. The span in the markup -/

/-- What is read before the span of the list. -/
def readBefore : List Piece := escaped (annotated outside (plain l.before) l.span)

/-- What is read between the tags that were put around the list. -/
def readList : List Piece := escaped (annotated l.entry (plain l.list) l.tail)

/-- What is read behind the closing tag that was put behind the list. -/
def readBehind : List Piece :=
  escaped (tagAnnotations (l.entry.after (plain l.list) l.tail) (plain l.behind))

theorem escaped_pieces_text : escaped (pieces .function l.text) =
    l.readBefore ++ .tag (.opening .genericType) :: (l.readList ++ .tag .closing :: l.readBehind) := by
  rw [l.pieces_text, escaped_append]
  simp [escaped, readBefore, readList, readBehind]

theorem opening_notMem_readBefore : .tag (.opening .genericType) ∉ l.readBefore := by
  rw [readBefore, tag_mem_iff, tagsOf_escaped, ← tag_mem_iff]
  exact opening_notMem_annotated _ _ _

theorem opening_notMem_read : .tag (.opening .genericType) ∉ l.readList ++ .tag .closing :: l.readBehind := by
  rw [List.mem_append, List.mem_cons, readList, readBehind]
  simp only [tag_mem_iff, tagsOf_escaped]
  simp only [← tag_mem_iff]
  rintro (h | h | h)
  · exact opening_notMem_annotated _ _ _ h
  · cases h
  · exact opening_notMem_tagAnnotations _ _ h

theorem getLast?_readList : l.readList.getLast? = some (.char ')') := by
  have hbody : plain l.list = plain ('(' :: l.inner) ++ [.char ')'] := by simp [list, plain]
  have hlast := getLast?_annotated l.entry (plain ('(' :: l.inner)) (.char ')') l.tail
  rw [← hbody] at hlast
  obtain ⟨init, hinit⟩ := List.getLast?_eq_some_iff.mp hlast
  rw [readList, hinit, escaped_append]
  exact List.getLast?_concat

variable {l}

/-- The characters that are read are the escaped characters of the signature. -/
theorem strip_read (hfree : ∀ c ∈ l.text, isUnreserved c = true) : strip l.readBefore = escapeAngles l.before ∧
    strip l.readList = escapeAngles l.list ∧ strip l.readBehind = escapeAngles l.behind := by
  simp only [readBefore, readList, readBehind, strip_escaped, strip_annotated, strip_tagAnnotations, strip_plain]
  refine ⟨flatMap_escape fun c hc => hfree c ?_, flatMap_escape fun c hc => hfree c ?_,
    flatMap_escape fun c hc => hfree c ?_⟩
  · exact List.mem_append_left _ hc
  · exact List.mem_append_right _ (List.mem_append_left _ hc)
  · exact List.mem_append_right _ (List.mem_append_right _ hc)

end ListLine

/-- The span of a list, with what stands before it, in it and behind it. Its closing tag is the one that pairs with
    its opening tag by nesting: every span that is opened in it is closed in it, and no other. -/
structure IsListSpan (ps before inside behind : List Piece) : Prop where
  here : ps = before ++ .tag (.opening .genericType) :: (inside ++ .tag .closing :: behind)
  paired : Closes 0 (tagsOf inside)

/-- The span of the list goes from its first `(` to right behind its last `)`, and its text is the escaped list. -/
def Encloses (ps : List Piece) (l : ListLine) : Prop :=
  ∃ before inside behind, IsListSpan ps before inside behind ∧ inside.getLast? = some (.char ')') ∧
    strip before = escapeAngles l.before ∧ strip inside = escapeAngles l.list ∧ strip behind = escapeAngles l.behind

section Span

variable {l : ListLine}

theorem encloses_iff (hfree : ∀ c ∈ l.text, isUnreserved c = true) :
    Encloses (escaped (pieces .function l.text)) l ↔ l.Fits := by
  obtain ⟨hbefore, hlist, hbehind⟩ := ListLine.strip_read hfree
  have hpieces := l.escaped_pieces_text
  have hfits : Closes 0 (tagsOf l.readList) ↔ l.Fits := by
    rw [ListLine.readList, tagsOf_escaped]
    exact l.closes_list_iff
  refine ⟨?_, fun h => ⟨_, _, _, ⟨hpieces, hfits.mpr h⟩, l.getLast?_readList, hbefore, hlist, hbehind⟩⟩
  rintro ⟨before, inside, behind, ⟨hhere, hpaired⟩, hlast, -, hinside, -⟩
  -- Both readings have the same opening tag, as there is no other, and then the same list.
  rw [hpieces] at hhere
  obtain ⟨-, -, hsame⟩ :=
    (List.append_cons_inj_of_notMem l.opening_notMem_readBefore l.opening_notMem_read).mp hhere
  have hequal : l.readList = inside := eq_of_strip hsame (hlist.trans hinside.symm) l.getLast?_readList hlast
  rw [← hfits, hequal]
  exact hpaired

theorem count_opening : (escaped (pieces .function l.text)).count (.tag (.opening .genericType)) = 1 := by
  rw [l.escaped_pieces_text, List.count_append, List.count_cons_self,
    List.count_eq_zero_of_not_mem l.opening_notMem_readBefore, List.count_eq_zero_of_not_mem l.opening_notMem_read]

/-- **The span of the parameter list encloses the list if and only if no annotation has only one of its ends in it**:
    in the markup of a function on one line, the closing tag that pairs with the only opening tag of a list comes
    right behind the last `)`, and without the tags between them the text of the span is the escaped list. -/
theorem markup_encloses_iff {d : Declaration} (hkind : d.kind = .function) (htext : d.qualifiedSignature = l.text)
    (hopen : '\uE000' ∉ l.text) (hclose : '\uE001' ∉ l.text) :
    ∃ ps, pieces? d.markup = some ps ∧ ps.count (.tag (.opening .genericType)) = 1 ∧ (Encloses ps l ↔ l.Fits) := by
  have hfree : ∀ c ∈ l.text, isUnreserved c = true := by
    intro c hc
    rw [isUnreserved, Bool.and_eq_true, bne_iff_ne, bne_iff_ne]
    exact ⟨fun e => hopen (e ▸ hc), fun e => hclose (e ▸ hc)⟩
  refine ⟨escaped (pieces .function l.text), ?_, count_opening, encloses_iff hfree⟩
  rw [Declaration.markup, hkind, htext]
  exact pieces?_render (by rwa [strip_pieces])

end Span

/-- A parameter that is a function, and a result that is one. -/
def callback : ListLine where
  before := "CG.wait".toList
  inner := "cb: (err: Error) => void, n: Map<K, V>): (".toList
  behind := " => void".toList
  first := by decide
  last := by decide
  oneLine := by decide

/-- The function with that signature. -/
def wait : Declaration :=
  { path := "CG".toList, kind := .function, endMarker := [], complete := true, source := [], comment := [],
    signature := "wait(cb: (err: Error) => void, n: Map<K, V>): () => void".toList, ordinal := none }

theorem markup_encloses_callback : ∃ ps, pieces? wait.markup = some ps ∧ Encloses ps callback := by
  have htext : wait.qualifiedSignature = callback.text := by decide
  have hfits : callback.Fits := by decide
  obtain ⟨ps, hread, -, hiff⟩ := markup_encloses_iff rfl htext (by decide) (by decide)
  exact ⟨ps, hread, hiff.mpr hfits⟩

/-- The annotation of the last parameter goes on to the comma of the result. -/
def mapResult : ListLine where
  before := "CG.f".toList
  inner := "x: number".toList
  behind := ": Map<string, number>".toList
  first := by decide
  last := by decide
  oneLine := by decide

theorem not_encloses_mapResult : (∀ c ∈ mapResult.text, isUnreserved c = true) ∧
    pieces? (render (pieces .function mapResult.text)) = some (escaped (pieces .function mapResult.text)) ∧
    ¬ Encloses (escaped (pieces .function mapResult.text)) mapResult := by
  have hfree : ∀ c ∈ mapResult.text, isUnreserved c = true := List.all_eq_true.mp (by decide)
  refine ⟨hfree, pieces?_render (by rwa [strip_pieces]), fun h => ?_⟩
  have hnot : ¬ mapResult.Fits := by decide
  exact hnot ((encloses_iff hfree).mp h)

end Ambient.Markup
