import Ambient.Declaration.Markup
import Mathlib.Data.List.Count

/-!
# Marked-up texts

A marked-up text is read from left to right without knowing how it was made: `pieces?` tells its tags from the
other characters, and fails at an angle bracket that belongs to no tag; `read?` keeps the tags and the characters
apart.

* `pieces?_render`: pieces without the two placeholder characters are read back in their order, the characters
  escaped;
* `strip_pieces`: the rules for tags insert nothing but tags;
* `closes_pieces`: each of them opens a span before it closes it, whatever spans it cuts across;
* `read?_markup`: the markup of every signature is well formed and keeps its text.
-/

namespace Ambient.Markup

/-! ## 1. Tags and characters -/

/-- Does the tag open a span? -/
def Tag.isOpening : Tag → Bool
  | .opening _ => true
  | .closing => false

@[simp] theorem countP_opening (style : Style) (tags : List Tag) :
    (Tag.opening style :: tags).countP Tag.isOpening = tags.countP Tag.isOpening + 1 := List.countP_cons_of_pos rfl

@[simp] theorem countP_closing (tags : List Tag) :
    (Tag.closing :: tags).countP Tag.isOpening = tags.countP Tag.isOpening := by
  simp [Tag.isOpening]

/-- The tags of a list of pieces. -/
def tagsOf : List Piece → List Tag
  | [] => []
  | .char _ :: ps => tagsOf ps
  | .tag t :: ps => t :: tagsOf ps

@[simp] theorem tagsOf_nil : tagsOf [] = [] := rfl

@[simp] theorem tagsOf_char (c : Char) (ps : List Piece) : tagsOf (.char c :: ps) = tagsOf ps := rfl

@[simp] theorem tagsOf_tag (t : Tag) (ps : List Piece) : tagsOf (.tag t :: ps) = t :: tagsOf ps := rfl

theorem tagsOf_append (ps qs : List Piece) : tagsOf (ps ++ qs) = tagsOf ps ++ tagsOf qs := by
  induction ps with
  | nil => rfl
  | cons p ps ih => cases p <;> simp [ih]

theorem tagsOf_plain (t : Text) : tagsOf (plain t) = [] := by
  induction t with
  | nil => rfl
  | cons c t ih => exact ih

@[simp] theorem strip_nil : strip [] = [] := rfl

@[simp] theorem strip_char (c : Char) (ps : List Piece) : strip (.char c :: ps) = c :: strip ps := rfl

@[simp] theorem strip_tag (t : Tag) (ps : List Piece) : strip (.tag t :: ps) = strip ps := rfl

theorem strip_append (ps qs : List Piece) : strip (ps ++ qs) = strip ps ++ strip qs := List.filterMap_append

theorem strip_plain (t : Text) : strip (plain t) = t := by
  induction t with
  | nil => rfl
  | cons c t ih => exact congrArg (c :: ·) ih

/-! ## 2. Reading -/

/-- The texts that are tags. -/
def tagTexts : List (Text × Tag) :=
  [("<span class=\"genericType\">".toList, .opening .genericType),
   ("<span class=\"paramType\">".toList, .opening .paramType),
   ("</span>".toList, .closing)]

/-- Reads a text of which the first `skip` characters belong to a tag that has been read. -/
def piecesFrom? : Nat → Text → Option (List Piece)
  | _, [] => some []
  | skip + 1, _ :: t => piecesFrom? skip t
  | 0, c :: t =>
    if c = '<' then
      match tagTexts.find? fun entry => entry.1.isPrefixOf (c :: t) with
      | some (tagText, tag) => (piecesFrom? (tagText.length - 1) t).map (.tag tag :: ·)
      | none => none
    else if c = '>' then none
    else (piecesFrom? 0 t).map (.char c :: ·)

/-- The tags of a marked-up text and its other characters, in the order of the text, unless an angle bracket in it
    belongs to no tag. -/
def pieces? (t : Text) : Option (List Piece) := piecesFrom? 0 t

/-- The tags of a marked-up text, in order, and the text that is left when they are deleted. -/
structure Reading where
  tags : List Tag
  text : Text
  deriving DecidableEq, Repr

/-- The tags and the text of the pieces. -/
def reading (ps : List Piece) : Reading := ⟨tagsOf ps, strip ps⟩

/-- The reading of a marked-up text, unless an angle bracket in it belongs to no tag. -/
def read? (t : Text) : Option Reading := (pieces? t).map reading

/-- A tag is read as a whole: no tag starts like another one. -/
theorem pieces?_tag (tag : Tag) (t : Text) : pieces? (tag.render ++ t) = (pieces? t).map (.tag tag :: ·) := by
  cases tag with
  | opening style => cases style <;> rfl
  | closing => rfl

/-- Characters other than angle brackets are kept. -/
theorem pieces?_append {a : Text} (h : ∀ c ∈ a, c ≠ '<' ∧ c ≠ '>') (t : Text) :
    pieces? (a ++ t) = (pieces? t).map (plain a ++ ·) := by
  induction a with
  | nil => cases hp : pieces? t <;> simp [plain, hp]
  | cons c a ih =>
    obtain ⟨hc, ha⟩ := List.forall_mem_cons.mp h
    have hstep : pieces? (c :: (a ++ t)) = (pieces? (a ++ t)).map (.char c :: ·) := by
      simp [pieces?, piecesFrom?, hc.1, hc.2]
    rw [List.cons_append, hstep, ih ha, Option.map_map]
    rfl

/-- Is the character none of the two that stand for a raw angle bracket? -/
def isUnreserved (c : Char) : Bool := c != '\uE000' && c != '\uE001'

/-- Escaped, such a character is no angle bracket any more. -/
theorem escape_ne {c : Char} (h : isUnreserved c = true) : ∀ d ∈ escape c, d ≠ '<' ∧ d ≠ '>' := by
  have hplain : ∀ {t : Text}, (t.all fun d => d != '<' && d != '>') = true → ∀ d ∈ t, d ≠ '<' ∧ d ≠ '>' := by
    intro t ht d hd
    have hd' := List.all_eq_true.mp ht d hd
    rwa [Bool.and_eq_true, bne_iff_ne, bne_iff_ne] at hd'
  simp only [isUnreserved, Bool.and_eq_true, bne_iff_ne] at h
  unfold escape
  rw [if_neg h.1, if_neg h.2]
  split
  · exact hplain (by decide)
  · rename_i hlt
    split
    · exact hplain (by decide)
    · rename_i hgt
      intro d hd
      rw [List.mem_singleton.mp hd]
      exact ⟨hlt, hgt⟩

/-- Pieces whose characters are escaped. -/
def escaped (ps : List Piece) : List Piece :=
  ps.flatMap fun
    | .char c => plain (escape c)
    | .tag t => [.tag t]

theorem tagsOf_escaped (ps : List Piece) : tagsOf (escaped ps) = tagsOf ps := by
  induction ps with
  | nil => rfl
  | cons p ps ih =>
    unfold escaped at ih ⊢
    rw [List.flatMap_cons, tagsOf_append, ih]
    cases p with
    | char c => rw [tagsOf_plain]; rfl
    | tag t => rfl

theorem strip_escaped (ps : List Piece) : strip (escaped ps) = (strip ps).flatMap escape := by
  induction ps with
  | nil => rfl
  | cons p ps ih =>
    unfold escaped at ih ⊢
    rw [List.flatMap_cons, strip_append, ih]
    cases p with
    | char c => rw [strip_plain]; rfl
    | tag t => rfl

/-- **Rendered pieces are read back in their order.** -/
theorem pieces?_render {ps : List Piece} (h : ∀ c ∈ strip ps, isUnreserved c = true) :
    pieces? (render ps) = some (escaped ps) := by
  induction ps with
  | nil => rfl
  | cons p ps ih =>
    cases p with
    | char c =>
      obtain ⟨hc, hps⟩ := List.forall_mem_cons.mp h
      have hrender : render (.char c :: ps) = escape c ++ render ps := rfl
      rw [hrender, pieces?_append (escape_ne hc), ih hps]
      rfl
    | tag t =>
      have hrender : render (.tag t :: ps) = t.render ++ render ps := rfl
      rw [hrender, pieces?_tag, ih h]
      rfl

/-- So their tags are read back, and their escaped characters. -/
theorem read?_render {ps : List Piece} (h : ∀ c ∈ strip ps, isUnreserved c = true) :
    read? (render ps) = some ⟨tagsOf ps, (strip ps).flatMap escape⟩ := by
  rw [read?, pieces?_render h, Option.map_some, reading, tagsOf_escaped, strip_escaped]

/-! ## 3. Nothing but tags is inserted -/

theorem strip_tagGenerics (opened : Bool) (t : Text) : strip (tagGenerics opened t) = t := by
  induction t generalizing opened with
  | nil => rfl
  | cons c t ih =>
    unfold tagGenerics
    split
    · split <;> simp [ih]
    · split
      · split <;> simp [ih]
      · simp [ih]

theorem strip_tagParameters (inside : Bool) (t : Text) : strip (tagParameters inside t) = t := by
  induction t generalizing inside with
  | nil => rfl
  | cons c t ih =>
    unfold tagParameters
    split
    · split <;> simp [ih]
    · split <;> simp [ih]

/-- A piece that is put back in front. -/
theorem strip_cons_congr {ps qs : List Piece} (p : Piece) (h : strip ps = strip qs) :
    strip (p :: ps) = strip (p :: qs) := by
  cases p with
  | char c => simp [h]
  | tag t => simp [h]

theorem strip_tagExtends (inside : Bool) (ps : List Piece) : strip (tagExtends inside ps) = strip ps := by
  induction ps generalizing inside with
  | nil => cases inside <;> rfl
  | cons p ps ih =>
    unfold tagExtends
    split
    · split
      · exact strip_cons_congr p (ih false)
      · exact strip_cons_congr p (ih true)
    · split
      · exact strip_cons_congr p (ih true)
      · exact strip_cons_congr p (ih false)

theorem strip_tagAnnotations (state : AnnotationState) (ps : List Piece) :
    strip (tagAnnotations state ps) = strip ps := by
  induction ps generalizing state with
  | nil => cases state <;> rfl
  | cons p ps ih =>
    cases state with
    | outside =>
      unfold tagAnnotations
      split
      · exact strip_cons_congr p (ih _)
      · exact strip_cons_congr p (ih _)
    | inside stop =>
      unfold tagAnnotations
      split
      · exact strip_cons_congr p (ih _)
      · exact strip_cons_congr p (ih _)

theorem strip_tagSignature (kind : Kind) (signature : Text) : strip (tagSignature kind signature) = signature := by
  unfold tagSignature
  split
  · rw [strip_tagExtends, strip_tagGenerics]
  · split
    · exact strip_tagParameters false signature
    · exact strip_plain signature

/-- **Without its tags the markup is the signature.** -/
theorem strip_pieces (kind : Kind) (signature : Text) : strip (pieces kind signature) = signature := by
  unfold pieces
  rw [strip_tagAnnotations, strip_tagSignature]

/-! ## 4. Spans -/

/-- The tags close `depth` open spans and all spans that they open, and no others. -/
def Closes : Nat → List Tag → Prop
  | depth, [] => depth = 0
  | depth, .opening _ :: tags => Closes (depth + 1) tags
  | 0, .closing :: _ => False
  | depth + 1, .closing :: tags => Closes depth tags

/-- From left to right no more spans are closed than have been opened, and in the end as many. -/
structure Balanced (tags : List Tag) : Prop where
  never_outnumbered : ∀ n, (tags.take n).count .closing ≤ (tags.take n).countP Tag.isOpening
  even : tags.count .closing = tags.countP Tag.isOpening

/-- With `depth` spans open before the tags. -/
theorem Closes.counts {depth : Nat} {tags : List Tag} (h : Closes depth tags) :
    (∀ n, (tags.take n).count .closing ≤ depth + (tags.take n).countP Tag.isOpening) ∧
      tags.count .closing = depth + tags.countP Tag.isOpening := by
  induction tags generalizing depth with
  | nil =>
    have hdepth : depth = 0 := h
    simp [hdepth]
  | cons tag tags ih =>
    cases tag with
    | opening style =>
      have hopen : Closes (depth + 1) tags := h
      obtain ⟨hbefore, hwhole⟩ := ih hopen
      refine ⟨fun n => ?_, ?_⟩
      · cases n with
        | zero => simp
        | succ n =>
          have := hbefore n
          simp
          omega
      · simp
        omega
    | closing =>
      cases depth with
      | zero => exact absurd h id
      | succ depth =>
        have hclosed : Closes depth tags := h
        obtain ⟨hbefore, hwhole⟩ := ih hclosed
        refine ⟨fun n => ?_, ?_⟩
        · cases n with
          | zero => simp
          | succ n =>
            have := hbefore n
            simp
            omega
        · simp
          omega

theorem Closes.balanced {tags : List Tag} (h : Closes 0 tags) : Balanced tags := by
  obtain ⟨hbefore, hwhole⟩ := h.counts
  exact ⟨fun n => by simpa using hbefore n, by simpa using hwhole⟩

theorem closes_plain (t : Text) : Closes 0 (tagsOf (plain t)) := by
  induction t with
  | nil => rfl
  | cons c t ih => exact ih

/-- A list that has been opened is closed by the next angle bracket. -/
theorem closes_tagGenerics (opened : Bool) {t : Text} (h : opened = true → nextAngle? t = some '>') :
    Closes opened.toNat (tagsOf (tagGenerics opened t)) := by
  induction t generalizing opened with
  | nil =>
    cases opened with
    | false => rfl
    | true => exact absurd (h rfl) (by simp [nextAngle?])
  | cons c t ih =>
    unfold tagGenerics
    by_cases hlt : c = '<'
    · subst hlt
      have hopened : opened = false := by
        cases opened with
        | false => rfl
        | true => exact absurd (h rfl) (by simp [nextAngle?])
      rw [if_pos rfl, hopened]
      split
      · rename_i hnext
        exact ih true fun _ => hnext
      · exact ih false fun hf => absurd hf Bool.false_ne_true
    · rw [if_neg hlt]
      by_cases hgt : c = '>'
      · rw [if_pos hgt]
        have hrest := ih false fun hf => absurd hf Bool.false_ne_true
        cases opened with
        | false => exact hrest
        | true => exact hrest
      · rw [if_neg hgt]
        refine ih opened fun ho => ?_
        have hnext := h ho
        simpa [nextAngle?, hlt, hgt] using hnext

/-- A parameter list that has been opened is closed on its line. -/
theorem closes_tagParameters (inside : Bool) {t : Text} (h : inside = true → closesOnLine t = true) :
    Closes inside.toNat (tagsOf (tagParameters inside t)) := by
  induction t generalizing inside with
  | nil =>
    cases inside with
    | false => rfl
    | true => exact absurd (h rfl) (by simp [closesOnLine])
  | cons c t ih =>
    have hout := ih false fun hf => absurd hf Bool.false_ne_true
    unfold tagParameters
    cases inside with
    | false =>
      rw [if_neg Bool.false_ne_true]
      split
      · rename_i hopen
        rw [Bool.and_eq_true] at hopen
        exact ih true fun _ => hopen.2
      · exact hout
    | true =>
      rw [if_pos rfl]
      split
      · exact hout
      · rename_i hgoes
        refine ih true fun _ => ?_
        have hline := h rfl
        unfold closesOnLine at hline
        rw [List.takeWhile_cons] at hline
        by_cases hfeed : c = '\n'
        · simp [hfeed] at hline
        · by_cases hc : c = ')'
          · simpa [hc] using hgoes
          · simpa [closesOnLine, hfeed, Ne.symm hc] using hline

section Inserted

variable {ps qs : List Piece} {depth : Nat}

/-- A piece is passed with `more` spans open around it. -/
theorem closes_cons (more : Nat) (p : Piece) (h : Closes depth (tagsOf (p :: ps)))
    (hrest : ∀ {d}, Closes d (tagsOf ps) → Closes (d + more) (tagsOf qs)) :
    Closes (depth + more) (tagsOf (p :: qs)) := by
  cases p with
  | char c => exact hrest h
  | tag t =>
    cases t with
    | opening style =>
      have hopen : Closes (depth + 1 + more) (tagsOf qs) := hrest h
      rw [Nat.add_right_comm] at hopen
      exact hopen
    | closing =>
      cases depth with
      | zero => exact absurd h id
      | succ depth =>
        have hclosed : Closes (depth + more) (tagsOf qs) := hrest h
        rw [Nat.add_right_comm]
        exact hclosed

/-- A clause is closed before the piece that ends it, or at the end. -/
theorem closes_tagExtends (h : Closes depth (tagsOf ps)) (inside : Bool) :
    Closes (depth + inside.toNat) (tagsOf (tagExtends inside ps)) := by
  induction ps generalizing depth inside with
  | nil =>
    have hdepth : depth = 0 := h
    subst hdepth
    cases inside <;> exact rfl
  | cons p ps ih =>
    have hout : Closes depth (tagsOf (p :: tagExtends false ps)) := closes_cons 0 p h (ih · false)
    have hin : Closes (depth + 1) (tagsOf (p :: tagExtends true ps)) := closes_cons 1 p h (ih · true)
    unfold tagExtends
    cases inside with
    | false =>
      rw [if_neg Bool.false_ne_true]
      split
      · exact hin
      · exact hout
    | true =>
      rw [if_pos rfl]
      split
      · exact hout
      · exact hin

/-- Spans that are open in a state. -/
def AnnotationState.openSpans : AnnotationState → Nat
  | .outside => 0
  | .inside _ => 1

/-- An annotation is closed in the same way. -/
theorem closes_tagAnnotations (h : Closes depth (tagsOf ps)) (state : AnnotationState) :
    Closes (depth + state.openSpans) (tagsOf (tagAnnotations state ps)) := by
  induction ps generalizing depth state with
  | nil =>
    have hdepth : depth = 0 := h
    subst hdepth
    cases state <;> exact rfl
  | cons p ps ih =>
    have hout : Closes depth (tagsOf (p :: tagAnnotations .outside ps)) := closes_cons 0 p h (ih · .outside)
    have hin (stop : Option Char) : Closes (depth + 1) (tagsOf (p :: tagAnnotations (.inside stop) ps)) :=
      closes_cons 1 p h (ih · (.inside stop))
    cases state with
    | outside =>
      unfold tagAnnotations
      split
      · exact hin _
      · exact hout
    | inside stop =>
      unfold tagAnnotations
      split
      · exact hout
      · exact hin stop

end Inserted

theorem closes_tagSignature (kind : Kind) (signature : Text) : Closes 0 (tagsOf (tagSignature kind signature)) := by
  unfold tagSignature
  split
  · have hlists : Closes 0 (tagsOf (tagGenerics false signature)) :=
      closes_tagGenerics false fun hf => absurd hf Bool.false_ne_true
    exact closes_tagExtends hlists false
  · split
    · exact closes_tagParameters false fun hf => absurd hf Bool.false_ne_true
    · exact closes_plain signature

/-- **Every span of the markup is closed**, and none is closed that is not open. -/
theorem closes_pieces (kind : Kind) (signature : Text) : Closes 0 (tagsOf (pieces kind signature)) :=
  closes_tagAnnotations (closes_tagSignature kind signature) .outside

/-! ## 5. The markup of a signature -/

theorem replaceAll_singleton (c : Char) (new t : Text) :
    Text.replaceAll [c] new t = t.flatMap fun d => if d = c then new else [d] := by
  unfold Text.replaceAll
  induction t with
  | nil => rfl
  | cons d t ih =>
    by_cases hd : d = c
    · simp [Text.replaceFrom, hd, ih]
    · simp [Text.replaceFrom, hd, Ne.symm hd, ih]

/-- A text with its angle brackets escaped. -/
def escapeAngles (t : Text) : Text := Text.replaceAll ['>'] "&gt;".toList (Text.replaceAll ['<'] "&lt;".toList t)

theorem flatMap_escape {t : Text} (h : ∀ c ∈ t, isUnreserved c = true) : t.flatMap escape = escapeAngles t := by
  unfold escapeAngles
  rw [replaceAll_singleton, replaceAll_singleton]
  induction t with
  | nil => rfl
  | cons c t ih =>
    obtain ⟨hc, ht⟩ := List.forall_mem_cons.mp h
    simp only [isUnreserved, Bool.and_eq_true, bne_iff_ne] at hc
    rw [List.flatMap_cons, List.flatMap_cons, List.flatMap_append, ih ht]
    congr 1
    unfold escape
    by_cases hlt : c = '<'
    · subst hlt
      decide
    · by_cases hgt : c = '>'
      · subst hgt
        decide
      · simp [hlt, hgt, hc.1, hc.2]

/-- **The markup of a signature is well formed and keeps its text**: read without knowing how it was made, it
    has no angle bracket outside its tags, its tags are balanced, and the rest is the escaped signature. -/
theorem read?_markup (kind : Kind) {signature : Text} (hopen : '\uE000' ∉ signature)
    (hclose : '\uE001' ∉ signature) :
    ∃ tags, read? (render (pieces kind signature)) = some ⟨tags, escapeAngles signature⟩ ∧ Balanced tags := by
  have hfree : ∀ c ∈ signature, isUnreserved c = true := by
    intro c hc
    rw [isUnreserved, Bool.and_eq_true, bne_iff_ne, bne_iff_ne]
    exact ⟨fun e => hopen (e ▸ hc), fun e => hclose (e ▸ hc)⟩
  refine ⟨tagsOf (pieces kind signature), ?_, (closes_pieces kind signature).balanced⟩
  rw [← strip_pieces kind signature] at hfree
  rw [read?_render hfree, flatMap_escape hfree, strip_pieces]

/-- A placeholder would be taken for a bracket. -/
example : read? (render (pieces .varValue ['\uE000'])) = none := by decide

/-- Spans that cut across each other: the clause ends inside the list, the annotation behind the parameters. -/
def crossing : List (Kind × Text) :=
  [(.classType, "CG.Foo<T> extends Bar<U>: V".toList),
   (.function, "CG.run(cb: (e: E) => void): Map<K, V>".toList)]

theorem read?_crossing : (∀ p ∈ crossing, '\uE000' ∉ p.2 ∧ '\uE001' ∉ p.2) ∧
    ∀ p ∈ crossing, ∃ tags, read? (render (pieces p.1 p.2)) = some ⟨tags, escapeAngles p.2⟩ ∧ Balanced tags := by
  have hfree : ∀ p ∈ crossing, '\uE000' ∉ p.2 ∧ '\uE001' ∉ p.2 := by decide
  exact ⟨hfree, fun p hp => read?_markup p.1 (hfree p hp).1 (hfree p hp).2⟩

end Ambient.Markup
