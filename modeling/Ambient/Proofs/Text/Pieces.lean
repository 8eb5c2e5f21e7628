import Ambient.Proofs.Text.Squeeze

/-!
# Broken texts

A text is TIGHT if its blanks are single spaces between words and none stands inside a parenthesis. Such a text
may be broken at a space, behind an opening parenthesis, and before a closing one. What comes of it is told by
`InPieces`, cut by cut:

* `InPieces.spaced`: every piece is something, with single spaces;
* `InPieces.count_flatten`: no character but spaces is lost;
* `InPieces.tighten_joinWith`: the pieces with spaces between them, tightened, are the text again.
-/

namespace Ambient.Text

/-! ## 1. Tight texts -/

/-- The text without a space behind an opening and before a closing parenthesis. -/
def tighten (t : Text) : Text := replaceAll [' ', ')'] [')'] (replaceAll ['(', ' '] ['('] t)

/-- **Single spaces, and none inside a parenthesis.** -/
structure Tight (t : Text) : Prop extends Spaced t where
  opened : ¬['(', ' '] <:+: t
  closing : ¬[' ', ')'] <:+: t

theorem tight_iff {t : Text} : Tight t ↔ (t.all fun c => !isBlank c || c == ' ') = true ∧ ¬[' ', ' '] <:+: t ∧
    (t.head?.all fun c => !isBlank c) = true ∧ (t.getLast?.all fun c => !isBlank c) = true ∧
    ¬['(', ' '] <:+: t ∧ ¬[' ', ')'] <:+: t := by
  have hspace : (∀ c ∈ t, isBlank c = true → c = ' ') ↔ (t.all fun c => !isBlank c || c == ' ') = true := by
    rw [List.all_eq_true]
    refine forall₂_congr fun c _ => ?_
    cases isBlank c <;> simp
  have hend : ∀ o : Option Char, (∀ c ∈ o, isBlank c = false) ↔ (o.all fun c => !isBlank c) = true := by
    intro o
    cases o <;> simp
  rw [← hspace, ← hend, ← hend]
  exact ⟨fun h => ⟨h.space, h.single, h.head, h.last, h.opened, h.closing⟩,
    fun ⟨hspace, hsingle, hhead, hlast, hopened, hclosing⟩ => ⟨⟨hspace, hsingle, hhead, hlast⟩, hopened, hclosing⟩⟩

instance (t : Text) : Decidable (Tight t) := decidable_of_iff _ tight_iff.symm

namespace Tight

variable {t a b : Text}

/-- What stands in a tight text is tight, unless it starts or ends with a blank. -/
theorem of_infix {u : Text} (h : Tight t) (hu : u <:+: t) (hhead : ∀ c ∈ u.head?, isBlank c = false)
    (hlast : ∀ c ∈ u.getLast?, isBlank c = false) : Tight u where
  space c hc := h.space c (hu.subset hc)
  single hi := h.single (hi.trans hu)
  head := hhead
  last := hlast
  opened hi := h.opened (hi.trans hu)
  closing hi := h.closing (hi.trans hu)

/-- A beginning that a space may not follow ends with no blank. -/
theorem of_prefix {d : Char} (h : Tight (a ++ d :: b)) (hd : ¬[' ', d] <:+: a ++ d :: b) : Tight a := by
  refine h.of_infix (List.prefix_append a _).isInfix (fun c hc => h.head c ?_) fun c hc => ?_
  · rw [Option.mem_def, List.head?_append, Option.mem_def.mp hc]
    rfl
  · obtain ⟨init, rfl⟩ := List.getLast?_eq_some_iff.mp hc
    rw [← Bool.not_eq_true]
    intro hblank
    obtain rfl := h.space c (by simp) hblank
    exact hd ⟨init, b, by simp⟩

/-- A rest that may not start with a space starts with no blank. -/
theorem of_suffix {d : Char} (h : Tight (a ++ d :: b)) (hd : ¬[d, ' '] <:+: a ++ d :: b) : Tight b := by
  have hsuffix : b <:+ a ++ d :: b := (List.suffix_cons d b).trans (List.suffix_append a _)
  refine h.of_infix hsuffix.isInfix (fun c hc => ?_) fun c hc => h.last c ?_
  · obtain ⟨rest, rfl⟩ := List.head?_eq_some_iff.mp hc
    rw [← Bool.not_eq_true]
    intro hblank
    obtain rfl := h.space c (hsuffix.subset List.mem_cons_self) hblank
    exact hd ⟨a, rest, by simp⟩
  · rw [Option.mem_def, List.getLast?_append, List.getLast?_cons, Option.mem_def.mp hc]
    rfl

/-- The rest from a character that is no blank. -/
theorem of_cons {d : Char} (h : Tight (a ++ d :: b)) (hd : isBlank d = false) : Tight (d :: b) := by
  refine h.of_infix (List.suffix_append a _).isInfix (fun c hc => ?_) fun c hc => h.last c ?_
  · cases hc
    exact hd
  · rw [Option.mem_def, List.getLast?_append, Option.mem_def.mp hc]
    rfl

/-- The beginning up to a character that is no blank. -/
theorem of_concat {d : Char} (h : Tight (a ++ d :: b)) (hd : isBlank d = false) : Tight (a ++ [d]) := by
  refine h.of_infix ⟨[], b, by simp⟩ (fun c hc => h.head c ?_) fun c hc => ?_
  · cases a with
    | nil => exact hc
    | cons _ _ => exact hc
  · rw [List.getLast?_concat] at hc
    cases hc
    exact hd

end Tight

/-! ## 2. Pieces -/

/-- **A text in pieces.** Every cut lies inside the text. -/
inductive InPieces : Text → List Text → Prop where
  | whole (t : Text) : InPieces t [t]
  /-- Cut at a space, which is dropped. -/
  | space {t : Text} {ps : List Text} (p : Text) (h : InPieces t ps) : InPieces (p ++ ' ' :: t) (p :: ps)
  /-- Cut behind an opening parenthesis. -/
  | opened {t : Text} {ps : List Text} (p : Text) (ht : t ≠ []) (h : InPieces t ps) :
      InPieces (p ++ '(' :: t) ((p ++ ['(']) :: ps)
  /-- Cut before a closing one. -/
  | closing {t : Text} {ps : List Text} {p : Text} (hp : p ≠ []) (h : InPieces (')' :: t) ps) :
      InPieces (p ++ ')' :: t) (p :: ps)

namespace InPieces

variable {t : Text} {ps : List Text}

theorem ne_nil (h : InPieces t ps) : ps ≠ [] := by cases h <;> exact List.cons_ne_nil _ _

/-- The last piece is an end of the text. -/
theorem exists_last (h : InPieces t ps) : ∃ init last, ps = init ++ [last] ∧ last <:+ t := by
  induction h with
  | whole t => exact ⟨[], t, rfl, List.suffix_rfl⟩
  | space p _ ih =>
    obtain ⟨init, last, rfl, hlast⟩ := ih
    exact ⟨p :: init, last, rfl, hlast.trans ((List.suffix_cons _ _).trans (List.suffix_append p _))⟩
  | opened p _ _ ih =>
    obtain ⟨init, last, rfl, hlast⟩ := ih
    exact ⟨(p ++ ['(']) :: init, last, rfl, hlast.trans ((List.suffix_cons _ _).trans (List.suffix_append p _))⟩
  | @closing _ _ p _ _ ih =>
    obtain ⟨init, last, rfl, hlast⟩ := ih
    exact ⟨p :: init, last, rfl, hlast.trans (List.suffix_append p _)⟩

/-- Every piece stands in the text. -/
theorem isInfix (h : InPieces t ps) : ∀ p ∈ ps, p <:+: t := by
  induction h with
  | whole t => exact fun p hp => List.mem_singleton.mp hp ▸ List.infix_rfl
  | space p _ ih =>
    refine List.forall_mem_cons.mpr ⟨(List.prefix_append p _).isInfix, fun q hq => ?_⟩
    exact (ih q hq).trans ((List.suffix_cons _ _).trans (List.suffix_append p _)).isInfix
  | @opened t _ p _ _ ih =>
    refine List.forall_mem_cons.mpr ⟨⟨[], t, by simp⟩, fun q hq => ?_⟩
    exact (ih q hq).trans ((List.suffix_cons _ _).trans (List.suffix_append p _)).isInfix
  | @closing _ _ p _ _ ih =>
    refine List.forall_mem_cons.mpr ⟨(List.prefix_append p _).isInfix, fun q hq => ?_⟩
    exact (ih q hq).trans (List.suffix_append p _).isInfix

/-- **No character but spaces is lost.** -/
theorem count_flatten {c : Char} (hc : c ≠ ' ') (h : InPieces t ps) : ps.flatten.count c = t.count c := by
  induction h with
  | whole t => rw [List.flatten_singleton]
  | space p _ ih =>
    rw [List.flatten_cons, List.count_append, ih, List.count_append, List.count_cons_of_ne (Ne.symm hc)]
  | opened p _ _ ih =>
    rw [List.flatten_cons, List.append_assoc, List.count_append, List.singleton_append, List.count_append,
      List.count_cons, List.count_cons, ih]
  | closing _ _ ih => rw [List.flatten_cons, List.count_append, ih, List.count_append]

/-- **Every piece of a tight text is something, with single spaces.** -/
theorem spaced (h : InPieces t ps) (ht : Tight t) (hne : t ≠ []) : ∀ p ∈ ps, p ≠ [] ∧ Spaced p := by
  induction h with
  | whole t => exact fun p hp => List.mem_singleton.mp hp ▸ ⟨hne, ht.toSpaced⟩
  | space p _ ih =>
    have hp : p ≠ [] := by
      rintro rfl
      exact absurd (ht.head ' ' rfl) (by decide)
    exact List.forall_mem_cons.mpr ⟨⟨hp, (ht.of_prefix ht.single).toSpaced⟩,
      ih (ht.of_suffix ht.single) ht.behind.1⟩
  | opened p hrest _ ih =>
    exact List.forall_mem_cons.mpr ⟨⟨by simp, (ht.of_concat (by decide)).toSpaced⟩,
      ih (ht.of_suffix ht.opened) hrest⟩
  | closing hp _ ih =>
    exact List.forall_mem_cons.mpr ⟨⟨hp, (ht.of_prefix ht.closing).toSpaced⟩,
      ih (ht.of_cons (by decide)) (List.cons_ne_nil _ _)⟩

end InPieces

/-! ## 3. Pieces joined again -/

section Tighten

variable {p t u : Text}

theorem take_one_eq_of_head? (h : u.head? = t.head?) : u.take 1 = t.take 1 := by
  rw [List.take_one, List.take_one, h]

theorem prefix_next {c : Char} (p t : Text) : (p ++ [c]) ++ t.take 1 <+: p ++ c :: t := by
  refine ⟨t.drop 1, ?_⟩
  rw [List.append_assoc, List.take_append_drop, List.append_assoc, List.singleton_append]

/-- One character more completes the pair only if it is the second and follows the first. -/
theorem not_infix_concat {x y c : Char} (h : ¬[x, y] <:+: t) (hc : c = y → t.getLast? ≠ some x) :
    ¬[x, y] <:+: t ++ [c] := by
  intro hi
  rcases List.infix_concat_iff.mp hi with hs | hi
  · obtain ⟨a, ha⟩ := hs
    have hsplit : (a ++ [x]) ++ [y] = t ++ [c] := by rw [← ha]; simp
    obtain ⟨rfl, hyc⟩ := List.append_inj' hsplit rfl
    exact hc (List.singleton_inj.mp hyc).symm List.getLast?_concat
  · exact h hi

/-- A space between words stays. -/
theorem tighten_space (h : Tight (p ++ ' ' :: t)) (hhead : u.head? = t.head?) (hu : tighten u = t) :
    tighten (p ++ ' ' :: u) = p ++ ' ' :: t := by
  have hstart : (p ++ [' ']) ++ t.take 1 <+: p ++ ' ' :: t := prefix_next p t
  have hopened : ¬['(', ' '] <:+: (p ++ [' ']) ++ u.take 1 := by
    rw [take_one_eq_of_head? hhead]
    exact fun hi => h.opened (hi.trans hstart.isInfix)
  have hclosing : ¬[' ', ')'] <:+: (p ++ [' ']) ++ (replaceAll ['(', ' '] ['('] u).take 1 := by
    rw [take_one_eq_of_head? ((head?_replaceAll u).trans hhead)]
    exact fun hi => h.closing (hi.trans hstart.isInfix)
  have hcut : ∀ rest : Text, p ++ ' ' :: rest = (p ++ [' ']) ++ rest := fun rest => by simp
  unfold tighten at hu ⊢
  rw [hcut u, replaceAll_append hopened, replaceAll_append hclosing, hu, ← hcut t]

/-- A space behind an opening parenthesis goes. -/
theorem tighten_opened (h : Tight (p ++ '(' :: t)) (hhead : u.head? = t.head?) (hu : tighten u = t) :
    tighten ((p ++ ['(']) ++ ' ' :: u) = p ++ '(' :: t := by
  have hopened : ¬['(', ' '] <:+: p ++ ('(' :: ' ' :: u).take 1 := by
    have hstart : p ++ ['('] <+: p ++ '(' :: t := ⟨t, by simp⟩
    exact fun hi => h.opened (hi.trans hstart.isInfix)
  have hclosing : ¬[' ', ')'] <:+: (p ++ ['(']) ++ (replaceAll ['(', ' '] ['('] u).take 1 := by
    have hstart : (p ++ ['(']) ++ t.take 1 <+: p ++ '(' :: t := prefix_next p t
    rw [take_one_eq_of_head? ((head?_replaceAll u).trans hhead)]
    exact fun hi => h.closing (hi.trans hstart.isInfix)
  unfold tighten at hu ⊢
  rw [List.append_assoc, List.singleton_append, replaceAll_append hopened, replaceAll_cons_cons,
    ← List.append_assoc, replaceAll_append hclosing, hu, List.append_assoc, List.singleton_append]

/-- A space before a closing parenthesis goes. -/
theorem tighten_closing (h : Tight (p ++ ')' :: t)) (hhead : u.head? = some ')') (hu : tighten u = ')' :: t) :
    tighten (p ++ ' ' :: u) = p ++ ')' :: t := by
  by_cases hlast : p.getLast? = some '('
  · -- the same place is behind an opening parenthesis
    obtain ⟨q, rfl⟩ := List.getLast?_eq_some_iff.mp hlast
    rw [List.append_assoc, List.singleton_append] at h
    rw [tighten_opened h hhead hu, List.append_assoc, List.singleton_append]
  · have hp : p <:+: p ++ ')' :: t := (List.prefix_append p _).isInfix
    have hopened : ¬['(', ' '] <:+: (p ++ [' ']) ++ u.take 1 := by
      rw [List.take_one, hhead]
      have hspace : ¬['(', ' '] <:+: p ++ [' '] :=
        not_infix_concat (fun hi => h.opened (hi.trans hp)) fun _ => hlast
      exact not_infix_concat hspace fun hc => absurd hc (by decide)
    obtain ⟨w, hw⟩ := List.head?_eq_some_iff.mp ((head?_replaceAll (x := '(') (y := ' ') u).trans hhead)
    have hclosing : ¬[' ', ')'] <:+: p ++ (' ' :: ')' :: w).take 1 :=
      not_infix_concat (fun hi => h.closing (hi.trans hp)) fun hc => absurd hc (by decide)
    have hparen : ¬[' ', ')'] <+: ')' :: w := fun ⟨_, hrest⟩ => absurd (List.cons.inj hrest).1 (by decide)
    have hcut : p ++ ' ' :: u = (p ++ [' ']) ++ u := by simp
    unfold tighten at hu ⊢
    rw [hw, replaceAll_cons_of_mismatch hparen] at hu
    rw [hcut, replaceAll_append hopened, hw, List.append_assoc, List.singleton_append,
      replaceAll_append hclosing, replaceAll_cons_cons, List.singleton_append, hu]

/-- **The pieces with spaces between them, tightened, are the text.** -/
theorem InPieces.tighten_joinWith {ps : List Text} (h : InPieces t ps) (ht : Tight t) (hne : t ≠ []) :
    (joinWith [' '] ps).head? = t.head? ∧ tighten (joinWith [' '] ps) = t := by
  induction h with
  | whole t =>
    rw [joinWith_singleton]
    refine ⟨rfl, ?_⟩
    unfold tighten
    rw [replaceAll_of_absent ht.opened, replaceAll_of_absent ht.closing]
  | space p h ih =>
    obtain ⟨hhead, hu⟩ := ih (ht.of_suffix ht.single) ht.behind.1
    have hp : p ≠ [] := by
      rintro rfl
      exact absurd (ht.head ' ' rfl) (by decide)
    rw [joinWith_cons h.ne_nil, List.singleton_append]
    exact ⟨by rw [List.head?_append_of_ne_nil p hp, List.head?_append_of_ne_nil p hp], tighten_space ht hhead hu⟩
  | opened p hrest h ih =>
    obtain ⟨hhead, hu⟩ := ih (ht.of_suffix ht.opened) hrest
    rw [joinWith_cons h.ne_nil, List.singleton_append]
    refine ⟨?_, tighten_opened ht hhead hu⟩
    rw [List.append_assoc, List.singleton_append, List.head?_append, List.head?_append]
    rfl
  | closing hp h ih =>
    obtain ⟨hhead, hu⟩ := ih (ht.of_cons (by decide)) (List.cons_ne_nil _ _)
    rw [joinWith_cons h.ne_nil, List.singleton_append]
    exact ⟨by rw [List.head?_append_of_ne_nil _ hp, List.head?_append_of_ne_nil _ hp], tighten_closing ht hhead hu⟩

end Tighten

end Ambient.Text
