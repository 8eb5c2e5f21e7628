import Ambient.Declaration.InsertText
import Ambient.Proofs.Text.Cut
import Ambient.Proofs.Text.Squeeze
import Mathlib.Data.List.Infix

/-!
# Calls from signatures

A signature is written down from its parts, and the call skeleton gives back the callee and the names.

* `openAfter?` counts the open brackets behind a text; a text is `Balanced` that closes all it opens and nothing
  else, and a character `StandsOutside` where no bracket is open.
* `Runs` is the count step by step, and all that is said about marks is proved along it: `Runs.markTopLevel_append`,
  `Runs.exists_of_mark`;
* `upTo_append`: what ends at a mark outside every bracket is found whole;
* `parameters_joinWith`: balanced pieces are cut apart again at the commas between them;
* `ofSignature_written`: the call of a written signature.
-/

namespace Ambient.CallSkeleton

/-! ## 1. Brackets -/

/-- The number of brackets that are open behind a text, with `depth` open before it; `none` if the text closes one
    that is not open. The four pairs are not told apart, and the `>` of an arrow is no bracket; `before` is the
    character in front of the text. -/
def openAfter? (before : Char) (depth : Nat) : Text → Option Nat
  | [] => some depth
  | c :: t =>
    if c ∈ ['(', '<', '{', '['] then openAfter? c (depth + 1) t
    else if c ∈ [')', '}', ']'] ∨ (c = '>' ∧ before ≠ '=') then
      if depth = 0 then none else openAfter? c (depth - 1) t
    else openAfter? c depth t

/-- The text closes every bracket that it opens, and no other. -/
def Balanced (t : Text) : Prop := openAfter? ' ' 0 t = some 0

/-- The character stands in the text where no bracket is open. -/
def StandsOutside (c : Char) (t : Text) : Prop := ∃ u ∈ t.inits, u ++ [c] <+: t ∧ openAfter? ' ' 0 u = some 0

instance (t : Text) : Decidable (Balanced t) := inferInstanceAs (Decidable (_ = _))

instance (c : Char) (t : Text) : Decidable (StandsOutside c t) := inferInstanceAs (Decidable (∃ u ∈ t.inits, _))

/-- The count, one character at a time: from `depth` open brackets before a text to `after` behind it. -/
inductive Runs : Char → Nat → Text → Nat → Prop where
  | nil (before : Char) (depth : Nat) : Runs before depth [] depth
  | opening {before c : Char} {depth after : Nat} {t : Text} (ho : isOpening c = true)
      (h : Runs c (depth + 1) t after) : Runs before depth (c :: t) after
  | closing {before c : Char} {depth after : Nat} {t : Text} (ho : isOpening c = false)
      (hc : isClosing before c = true) (h : Runs c depth t after) : Runs before (depth + 1) (c :: t) after
  | other {before c : Char} {depth after : Nat} {t : Text} (ho : isOpening c = false)
      (hc : isClosing before c = false) (h : Runs c depth t after) : Runs before depth (c :: t) after

theorem isOpening_iff {c : Char} : isOpening c = true ↔ c ∈ ['(', '<', '{', '['] := by
  simp [isOpening, or_assoc]

theorem isClosing_iff {before c : Char} :
    isClosing before c = true ↔ c ∈ [')', '}', ']'] ∨ (c = '>' ∧ before ≠ '=') := by
  simp [isClosing, or_assoc]

theorem openAfter?_cons (before c : Char) (depth : Nat) (t : Text) :
    openAfter? before depth (c :: t) =
      if isOpening c then openAfter? c (depth + 1) t
      else if isClosing before c then if depth = 0 then none else openAfter? c (depth - 1) t
      else openAfter? c depth t := by
  simp only [openAfter?, ← isOpening_iff, ← isClosing_iff]

theorem runs_iff {before : Char} {depth after : Nat} {t : Text} :
    openAfter? before depth t = some after ↔ Runs before depth t after := by
  constructor
  · intro h
    induction t generalizing before depth with
    | nil =>
      cases h
      exact .nil _ _
    | cons c t ih =>
      rw [openAfter?_cons] at h
      split at h
      · rename_i ho
        exact .opening ho (ih h)
      · rename_i ho
        rw [Bool.not_eq_true] at ho
        split at h
        · rename_i hc
          cases depth with
          | zero => cases h
          | succ depth => exact .closing ho hc (ih h)
        · rename_i hc
          rw [Bool.not_eq_true] at hc
          exact .other ho hc (ih h)
  · intro h
    induction h with
    | nil before depth => rfl
    | opening ho _ ih => simp [openAfter?_cons, ho, ih]
    | closing ho hc _ ih => simp [openAfter?_cons, ho, hc, ih]
    | other ho hc _ ih => simp [openAfter?_cons, ho, hc, ih]

/-! ## 2. Marks -/

theorem map_fst_markTopLevel (depth : Nat) (before : Char) (t : Text) :
    (markTopLevel depth before t).map Prod.fst = t := by
  induction t generalizing depth before with
  | nil => rfl
  | cons c t ih =>
    unfold markTopLevel
    split
    · simp [ih]
    · split <;> simp [ih]

section Runs

variable {before before' c : Char} {depth after : Nat} {t : Text}

theorem Runs.append {rest : Text} {final : Nat} (h : Runs before depth t after)
    (hrest : Runs (t.getLastD before) after rest final) : Runs before depth (t ++ rest) final := by
  induction h with
  | nil => exact hrest
  | opening ho _ ih => exact .opening ho (ih (by rwa [List.getLastD_cons] at hrest))
  | closing ho hc _ ih => exact .closing ho hc (ih (by rwa [List.getLastD_cons] at hrest))
  | other ho hc _ ih => exact .other ho hc (ih (by rwa [List.getLastD_cons] at hrest))

/-- Blanks open and close nothing. -/
theorem Runs.of_blank (h : ∀ c ∈ t, isBlank c = true) : Runs before depth t depth := by
  have hbracket := Text.isSolid_iff.mp (by decide : Text.isSolid ['(', '<', '{', '[', ')', '}', ']', '>'] = true)
  induction t generalizing before with
  | nil => exact .nil _ _
  | cons c t ih =>
    obtain ⟨hc, ht⟩ := List.forall_mem_cons.mp h
    have hno : c ∉ ['(', '<', '{', '[', ')', '}', ']', '>'] := fun hmem => by
      rw [hbracket c hmem] at hc
      exact Bool.false_ne_true hc
    simp only [List.mem_cons, List.not_mem_nil, or_false, not_or] at hno
    refine .other ?_ ?_ (ih ht)
    · rw [← Bool.not_eq_true, isOpening_iff]
      simp [hno]
    · rw [← Bool.not_eq_true, isClosing_iff]
      simp [hno]

/-- **Behind a text the marks go on with the brackets that it leaves open.** -/
theorem Runs.markTopLevel_append (h : Runs before depth t after) (rest : Text) :
    markTopLevel depth before (t ++ rest) =
      markTopLevel depth before t ++ markTopLevel after (t.getLastD before) rest := by
  induction h with
  | nil => rfl
  | opening ho _ ih => simp only [List.cons_append, markTopLevel, ho, if_true, ih, List.getLastD_cons]
  | closing ho hc _ ih =>
    simp only [List.cons_append, List.getLastD_cons]
    simp [markTopLevel, ho, hc, ih]
  | other ho hc _ ih =>
    simp only [List.cons_append, List.getLastD_cons]
    simp [markTopLevel, ho, hc, ih]

/-- **A mark tells that no bracket is open** before its character, and that it closes none. -/
theorem Runs.exists_of_mark (h : Runs before depth t after) (hm : (c, true) ∈ markTopLevel depth before t) :
    c ≠ ')' ∧ ∃ u v, t = u ++ c :: v ∧ Runs before depth u 0 := by
  induction h with
  | nil => exact absurd hm List.not_mem_nil
  | opening ho _ ih =>
    obtain ⟨hne, u, v, rfl, hu⟩ := ih (by simpa [markTopLevel, ho] using hm)
    exact ⟨hne, _ :: u, v, rfl, .opening ho hu⟩
  | closing ho hc _ ih =>
    obtain ⟨hne, u, v, rfl, hu⟩ := ih (by simpa [markTopLevel, ho, hc] using hm)
    exact ⟨hne, _ :: u, v, rfl, .closing ho hc hu⟩
  | @other before d depth after t ho hc _ ih =>
    have hmarks : markTopLevel depth before (d :: t) = (d, depth == 0) :: markTopLevel depth d t := by
      simp [markTopLevel, ho, hc]
    rw [hmarks, List.mem_cons, Prod.mk.injEq] at hm
    rcases hm with ⟨rfl, hdepth⟩ | hm
    · have hzero : depth = 0 := by simpa using hdepth.symm
      subst hzero
      refine ⟨?_, [], t, rfl, .nil before 0⟩
      rintro rfl
      exact absurd hc (by simp [isClosing])
    · obtain ⟨hne, u, v, rfl, hu⟩ := ih hm
      exact ⟨hne, d :: u, v, rfl, .other ho hc hu⟩

/-! What stands in front of a text counts only where it makes an arrow. -/

theorem isClosing_change (h : c ≠ '>' ∨ (before ≠ '=' ∧ before' ≠ '=')) :
    isClosing before c = isClosing before' c := by
  unfold isClosing
  rcases h with h | ⟨hb, hb'⟩
  · rw [beq_eq_false_iff_ne.mpr h, Bool.false_and, Bool.false_and]
  · rw [bne_iff_ne.mpr hb, bne_iff_ne.mpr hb']

theorem markTopLevel_change (h : t.head? ≠ some '>' ∨ (before ≠ '=' ∧ before' ≠ '=')) (depth : Nat) :
    markTopLevel depth before t = markTopLevel depth before' t := by
  cases t with
  | nil => rfl
  | cons c t =>
    have hc : isClosing before c = isClosing before' c :=
      isClosing_change (h.imp (fun hne e => hne (congrArg some e)) id)
    unfold markTopLevel
    rw [hc]

theorem Runs.change (h : Runs before depth t after)
    (hb : t.head? ≠ some '>' ∨ (before ≠ '=' ∧ before' ≠ '=')) : Runs before' depth t after := by
  rw [← runs_iff] at h ⊢
  cases t with
  | nil => exact h
  | cons c t =>
    have hc : isClosing before c = isClosing before' c :=
      isClosing_change (hb.imp (fun hne e => hne (congrArg some e)) id)
    rwa [openAfter?_cons, hc, ← openAfter?_cons] at h

end Runs

/-! ## 3. Texts that hide a character -/

/-- The text is balanced, and every `c` in it stands inside brackets. -/
structure Hides (c : Char) (t : Text) : Prop where
  balanced : Balanced t
  unmarked : (c, true) ∉ markTopLevel 0 ' ' t

section Hides

variable {c before : Char} {t u : Text}

theorem hides_of_not_standsOutside (h : Balanced t) (hc : ¬ StandsOutside c t) : Hides c t := by
  refine ⟨h, fun hm => hc ?_⟩
  obtain ⟨-, a, b, rfl, ha⟩ := (runs_iff.mp h).exists_of_mark hm
  exact ⟨a, (List.mem_inits _ _).mpr (List.prefix_append a _), ⟨b, by simp⟩, runs_iff.mpr ha⟩

/-- A closing parenthesis is hidden by every balanced text. -/
theorem Balanced.hides_paren (h : Balanced t) : Hides ')' t :=
  ⟨h, fun hm => ((runs_iff.mp h).exists_of_mark hm).1 rfl⟩

theorem Hides.append (ht : Hides c t) (hu : Hides c u) (h : u.head? ≠ some '>' ∨ t.getLast? ≠ some '=') :
    Hides c (t ++ u) := by
  have hlast : u.head? ≠ some '>' ∨ (' ' ≠ '=' ∧ t.getLastD ' ' ≠ '=') := by
    refine h.imp id fun hne => ⟨by decide, ?_⟩
    rw [List.getLastD_eq_getLast?]
    cases hl : t.getLast? with
    | none => decide
    | some d => exact fun e => hne (by rw [hl]; exact congrArg some e)
  have hrun := runs_iff.mp ht.balanced
  refine ⟨runs_iff.mpr (hrun.append ((runs_iff.mp hu.balanced).change hlast)), fun hm => ?_⟩
  rw [hrun.markTopLevel_append, ← markTopLevel_change hlast] at hm
  rcases List.mem_append.mp hm with hm | hm
  · exact ht.unmarked hm
  · exact hu.unmarked hm

/-- Behind a balanced text a character that opens no bracket is marked. -/
theorem Balanced.markTopLevel_cons (h : Balanced t) (hb : before ≠ '=') (hc : isOpening c = false) (rest : Text) :
    markTopLevel 0 before (t ++ c :: rest) = markTopLevel 0 ' ' t ++ (c, true) :: markTopLevel 0 c rest := by
  have hspace : (' ' : Char) ≠ '=' := by decide
  rw [((runs_iff.mp h).change (.inr ⟨hspace, hb⟩)).markTopLevel_append,
    markTopLevel_change (.inr ⟨hb, hspace⟩)]
  simp [markTopLevel, hc]

/-- No mark of a text is passed over that hides the character. -/
theorem Hides.takeWhile (h : Hides c t) (rest : List (Char × Bool)) :
    (markTopLevel 0 ' ' t ++ rest).takeWhile (· != (c, true)) =
      markTopLevel 0 ' ' t ++ rest.takeWhile (· != (c, true)) :=
  List.takeWhile_append_of_pos fun _ hm => bne_iff_ne.mpr fun e => h.unmarked (e ▸ hm)

/-- **What ends at a character that it hides is found whole.** -/
theorem upTo_append (h : Hides c t) (hc : isOpening c = false) (rest : Text) :
    upTo c (t ++ c :: rest) = markTopLevel 0 ' ' t := by
  unfold upTo
  rw [h.balanced.markTopLevel_cons (by decide) hc, h.takeWhile]
  simp

/-! ## 4. Lists of pieces -/

/-- The marks of pieces with commas between them, up to the parenthesis behind them. -/
theorem takeWhile_joinWith {q : Text} {qs : List Text} (h : ∀ p ∈ q :: qs, Balanced p) (hb : before ≠ '=')
    (rest : Text) :
    (markTopLevel 0 before (Text.joinWith [','] (q :: qs) ++ ')' :: rest)).takeWhile (· != (')', true)) =
      [(',', true)].intercalate ((q :: qs).map (markTopLevel 0 ' ')) := by
  induction qs generalizing q before with
  | nil =>
    have hq := h q List.mem_cons_self
    rw [Text.joinWith_singleton, hq.markTopLevel_cons hb rfl, hq.hides_paren.takeWhile]
    simp
  | cons p qs ih =>
    obtain ⟨hq, hqs⟩ := List.forall_mem_cons.mp h
    rw [Text.joinWith_cons_cons, List.append_assoc, List.append_assoc, List.singleton_append,
      hq.markTopLevel_cons hb rfl, hq.hides_paren.takeWhile, List.takeWhile_cons, if_pos (by decide),
      ih hqs (by decide), List.map_cons, List.map_cons, List.map_cons, List.intercalate_cons_cons]
    simp

/-- **Pieces are cut apart again at the commas between them.** -/
theorem parameters_joinWith {qs : List Text} (hne : qs ≠ []) (h : ∀ q ∈ qs, Hides ',' q) (rest : Text) :
    parameters (Text.joinWith [','] qs ++ ')' :: rest) = qs := by
  obtain ⟨q, qs, rfl⟩ := List.exists_cons_of_ne_nil hne
  unfold parameters upTo
  rw [takeWhile_joinWith (fun p hp => (h p hp).balanced) (by decide), List.splitOn_intercalate]
  · simp [map_fst_markTopLevel, Function.comp_def]
  · intro marks hmarks
    obtain ⟨p, hp, rfl⟩ := List.mem_map.mp hmarks
    exact (h p hp).unmarked
  · simp

end Hides

/-! ## 5. Signatures -/

/-- A parameter of a function. -/
structure Parameter where
  name : Text
  isOptional : Bool
  type : Text
  deriving DecidableEq, Repr

namespace Parameter

/-- What stands before the colon. -/
def head (p : Parameter) : Text := if p.isOptional then p.name ++ ['?'] else p.name

/-- The parameter as it is written. -/
def written (p : Parameter) : Text := p.head ++ ": ".toList ++ p.type

/-- **The syntax of parameters**: brackets are balanced, no comma stands outside them, and the name ends at the
    first colon outside them. -/
structure WellFormed (p : Parameter) : Prop where
  name_ne_nil : p.name ≠ []
  name_trimmed : Text.trim p.name = p.name
  name_unmarked : p.name.getLast? ≠ some '?'
  name_balanced : Balanced p.name
  name_comma : ¬ StandsOutside ',' p.name
  name_colon : ¬ StandsOutside ':' p.name
  type_balanced : Balanced p.type
  type_comma : ¬ StandsOutside ',' p.type

instance (p : Parameter) : Decidable p.WellFormed :=
  decidable_of_iff (p.name ≠ [] ∧ Text.trim p.name = p.name ∧ p.name.getLast? ≠ some '?' ∧ Balanced p.name ∧
      ¬ StandsOutside ',' p.name ∧ ¬ StandsOutside ':' p.name ∧ Balanced p.type ∧ ¬ StandsOutside ',' p.type)
    ⟨fun ⟨h₁, h₂, h₃, h₄, h₅, h₆, h₇, h₈⟩ => ⟨h₁, h₂, h₃, h₄, h₅, h₆, h₇, h₈⟩,
      fun ⟨h₁, h₂, h₃, h₄, h₅, h₆, h₇, h₈⟩ => ⟨h₁, h₂, h₃, h₄, h₅, h₆, h₇, h₈⟩⟩

section WellFormed

variable {p : Parameter} {c : Char}

/-- A question mark is no bracket. -/
theorem hides_head (hname : Hides c p.name) (hc : c ≠ '?') : Hides c p.head := by
  have hmark : Hides c ['?'] := ⟨by decide, by simp [markTopLevel, isOpening, isClosing, hc]⟩
  unfold head
  split
  · exact hname.append hmark (.inl (by decide))
  · exact hname

theorem WellFormed.hides_written (h : p.WellFormed) : Hides ',' p.written := by
  have hname := hides_of_not_standsOutside h.name_balanced h.name_comma
  have htype := hides_of_not_standsOutside h.type_balanced h.type_comma
  have hcolon : Hides ',' ": ".toList := ⟨by decide, by decide⟩
  exact ((hides_head hname (by decide)).append hcolon (.inl (by decide))).append htype (.inr (by simp))

theorem WellFormed.exists_ends (h : p.WellFormed) : ∃ c d, p.name.head? = some c ∧ isBlank c = false ∧
    p.name.getLast? = some d ∧ isBlank d = false ∧ d ≠ '?' := by
  obtain ⟨c, rest, hname⟩ := List.exists_cons_of_ne_nil h.name_ne_nil
  obtain ⟨d, hd⟩ := Option.ne_none_iff_exists'.mp (mt List.getLast?_eq_none_iff.mp h.name_ne_nil)
  have hhead : p.name.head? = some c := by rw [hname]; rfl
  have hfirst := hhead
  have hlast := hd
  rw [← h.name_trimmed] at hfirst hlast
  exact ⟨c, d, hhead, Text.not_isBlank_of_head?_trim hfirst, hd, Text.not_isBlank_of_getLast?_trim hlast,
    fun e => h.name_unmarked (e ▸ hd)⟩

/-- Blanks before the name and the question mark behind it are no part of it. -/
theorem WellFormed.trim_head (h : p.WellFormed) {lead : Text} (hlead : ∀ c ∈ lead, isBlank c = true) :
    Text.trimEnd (Text.dropEndWhile (· == '?') (Text.trim (lead ++ p.head))) = p.name := by
  obtain ⟨c, d, hc, hcb, hd, hdb, hdq⟩ := h.exists_ends
  have htrimmed : Text.trim p.head = p.head := by
    unfold head
    split
    · refine Text.trim_eq_self (fun e he => ?_) fun e he => ?_
      · rw [List.head?_append, hc] at he
        cases he
        exact hcb
      · rw [List.getLast?_concat] at he
        cases he
        decide
    · exact h.name_trimmed
  have hname : Text.dropEndWhile (· == '?') p.head = p.name := by
    have hkept : ∀ e, p.name.getLast? = some e → (e == '?') = false := by
      intro e he
      rw [hd] at he
      cases he
      exact beq_eq_false_iff_ne.mpr hdq
    unfold head
    split
    · rw [Text.dropEndWhile_append_of_all _ (by simp), Text.dropEndWhile_of_getLast? hkept]
    · exact Text.dropEndWhile_of_getLast? hkept
  have hend : Text.trimEnd p.name = p.name := by
    refine Text.dropEndWhile_of_getLast? fun e he => ?_
    rw [hd] at he
    cases he
    exact hdb
  rw [Text.trim_append hlead, htrimmed, hname, hend]

/-- **The name of a written parameter.** -/
theorem WellFormed.parameterName_written (h : p.WellFormed) {lead : Text} (hlead : lead = [] ∨ lead = [' ']) :
    parameterName (lead ++ p.written) = p.name := by
  have hblank : ∀ c ∈ lead, isBlank c = true := by
    rcases hlead with rfl | rfl <;> exact Text.allBlank_iff.mp (by decide)
  have hhead := hides_head (hides_of_not_standsOutside h.name_balanced h.name_colon) (by decide)
  have hides : Hides ':' (lead ++ p.head) := by
    rcases hlead with rfl | rfl
    · exact hhead
    · exact Hides.append ⟨by decide, by decide⟩ hhead (.inr (by decide))
  have hshape : lead ++ p.written = (lead ++ p.head) ++ ':' :: (' ' :: p.type) := by
    simp [written]
  unfold parameterName
  rw [hshape, upTo_append hides rfl, map_fst_markTopLevel, h.trim_head hblank]

end WellFormed

end Parameter

/-- A function signature as it is written: callee, parameters, and what stands behind them. -/
def written (callee : Text) (ps : List Parameter) (behind : Text) : Text :=
  callee ++ '(' :: (Text.joinWith ", ".toList (ps.map Parameter.written) ++ ')' :: behind)

/-- The space behind a comma may as well stand in front of the next piece. -/
theorem joinWith_comma_space (q : Text) (qs : List Text) :
    Text.joinWith ", ".toList (q :: qs) = Text.joinWith [','] (q :: qs.map ([' '] ++ ·)) := by
  induction qs generalizing q with
  | nil => rfl
  | cons p qs ih =>
    rw [Text.joinWith_cons_cons, ih, List.map_cons, Text.joinWith_cons_cons, Text.joinWith_append_cons]
    rfl

/-- **The parameters are cut apart and named.** -/
theorem map_parameterName_parameters {ps : List Parameter} (hne : ps ≠ []) (h : ∀ p ∈ ps, p.WellFormed)
    (behind : Text) :
    (parameters (Text.joinWith ", ".toList (ps.map Parameter.written) ++ ')' :: behind)).map parameterName =
      ps.map Parameter.name := by
  obtain ⟨p, ps, rfl⟩ := List.exists_cons_of_ne_nil hne
  obtain ⟨hp, hps⟩ := List.forall_mem_cons.mp h
  have hides : ∀ q ∈ p.written :: (ps.map Parameter.written).map ([' '] ++ ·), Hides ',' q := by
    refine List.forall_mem_cons.mpr ⟨hp.hides_written, fun q hq => ?_⟩
    rw [List.map_map] at hq
    obtain ⟨r, hr, rfl⟩ := List.mem_map.mp hq
    exact Hides.append ⟨by decide, by decide⟩ (hps r hr).hides_written (.inr (by decide))
  rw [List.map_cons, joinWith_comma_space, parameters_joinWith (by simp) hides, List.map_cons, List.map_map,
    List.map_map, List.map_cons]
  congr 1
  · exact hp.parameterName_written (.inl rfl)
  · exact List.map_congr_left fun r hr => (hps r hr).parameterName_written (.inr rfl)

theorem trim_written {callee : Text} (hstart : ∀ c ∈ callee.head?, isBlank c = false)
    (ps : List Parameter) (behind : Text) :
    Text.trim (written callee ps behind) = written callee ps (Text.trimEnd behind) := by
  have hhead : ∃ c rest, written callee ps behind = c :: rest ∧ isBlank c = false := by
    unfold written
    cases callee with
    | nil => exact ⟨'(', _, rfl, by decide⟩
    | cons c callee => exact ⟨c, _, rfl, hstart c rfl⟩
  obtain ⟨c, rest, hshape, hc⟩ := hhead
  have hend := Text.dropEndWhile_append_cons (p := isBlank) (c := ')') (by decide)
    (callee ++ '(' :: Text.joinWith ", ".toList (ps.map Parameter.written)) behind
  unfold Text.trim
  rw [hshape, Text.trimStart_of_head hc, ← hshape]
  unfold written Text.trimEnd
  simpa using hend

/-- **The call of a written signature**: the callee, and the names of the parameters between parentheses. -/
theorem ofSignature_written {callee : Text} {ps : List Parameter} (hcallee : '(' ∉ callee)
    (hstart : ∀ c ∈ callee.head?, isBlank c = false) (h : ∀ p ∈ ps, p.WellFormed) (behind : Text) :
    ofSignature (written callee ps behind) =
      Text.trimEnd callee ++ '(' :: Text.joinWith [','] (ps.map Parameter.name) ++ [')'] := by
  have hcut : Text.cut? ['('] (written callee ps (Text.trimEnd behind)) =
      some (callee, Text.joinWith ", ".toList (ps.map Parameter.written) ++ ')' :: Text.trimEnd behind) :=
    Text.cut?_append_self (by simp) (Text.startsNowhere_of_not_mem hcallee) _
  have hnames : ((parameters (Text.joinWith ", ".toList (ps.map Parameter.written) ++
      ')' :: Text.trimEnd behind)).map parameterName).filter (fun name => !name.isEmpty) = ps.map Parameter.name := by
    by_cases hne : ps = []
    · have hbalanced : Balanced [] := rfl
      have hnone : upTo ')' (')' :: Text.trimEnd behind) = [] := upTo_append hbalanced.hides_paren rfl _
      have hempty : parameterName [] = [] := by decide
      subst hne
      simp [Text.joinWith, parameters, hnone, hempty]
    · rw [map_parameterName_parameters hne h, List.filter_eq_self]
      intro name hname
      obtain ⟨p, hp, rfl⟩ := List.mem_map.mp hname
      simpa using (h p hp).name_ne_nil
  unfold ofSignature
  simp only [trim_written hstart, hcut, hnames]

/-- A callback, an object type with a tuple in it, a conditional type, and what is taken apart on the spot. -/
def sampleParameters : List Parameter :=
  [⟨"cb".toList, true, "(e: Event, n?: number) => Map<K, V>".toList⟩,
   ⟨"o".toList, false, "\x7b a: [string, number]; b: () => void \x7d".toList⟩,
   ⟨"\x7b x, y \x7d".toList, false, "T extends U ? A : B".toList⟩,
   ⟨"...rest".toList, false, "any[]".toList⟩]

theorem ofSignature_sample : ('(' ∉ "CG.Foo.on ".toList ∧ (∀ c ∈ "CG.Foo.on ".toList.head?, isBlank c = false) ∧
      ∀ p ∈ sampleParameters, p.WellFormed) ∧
    ofSignature (written "CG.Foo.on ".toList sampleParameters ": (a, b) => void".toList) =
      "CG.Foo.on(cb,o,\x7b x, y \x7d,...rest)".toList := by
  have hcallee : '(' ∉ "CG.Foo.on ".toList := by decide
  have hstart : ∀ c ∈ "CG.Foo.on ".toList.head?, isBlank c = false := by
    rintro c ⟨rfl⟩
    decide
  have hparameters : ∀ p ∈ sampleParameters, p.WellFormed := by decide
  exact ⟨⟨hcallee, hstart, hparameters⟩, (ofSignature_written hcallee hstart hparameters _).trans (by decide)⟩

end Ambient.CallSkeleton
