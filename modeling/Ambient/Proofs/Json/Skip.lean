import Ambient.Proofs.Json.Literal
import Ambient.Proofs.Json.Numeral
import Ambient.Proofs.Text.Squeeze

/-!
# Values that are passed over

A field of an unknown name may hold any value. Its text is passed over up to the gap behind it.

* `IsValue`: the grammar of values, gaps around them included;
* `skipParts_join`: parts in brackets are passed over one by one, with rounds enough for the length of their text;
* `skipFor_append`, `skip_append`: every value is passed over, and nothing behind it.
-/

namespace Ambient.Json

variable {v w gap t rest : Text} {c closing : Char} {isNamed : Bool} {fuel : Nat}

/-! ## 1. Gaps -/

/-- Only characters that may stand between tokens. -/
def IsGap (t : Text) : Prop := ∀ c ∈ t, isGap c = true

theorem isGap_nil : IsGap [] := fun _ hc => nomatch hc

theorem isGap_cases (h : isGap c = true) : c = ' ' ∨ c = '\n' ∨ c = '\t' ∨ c = '\r' := by
  simpa [isGap, or_assoc] using h

/-- A gap may follow a number. -/
theorem stops_of_isGap (h : isGap c = true) (t : Text) : Stops (c :: t) := by
  refine stops_cons ?_ t
  rcases isGap_cases h with rfl | rfl | rfl | rfl <;> rfl

theorem skipGap_append (h : IsGap gap) (t : Text) : skipGap (gap ++ t) = skipGap t :=
  List.dropWhile_append_of_pos h

theorem skipGap_cons (h : isGap c = false) (t : Text) : skipGap (c :: t) = c :: t :=
  List.dropWhile_cons_of_neg (by simp [h])

/-- Behind any gap the token is found. -/
theorem skipGap_append_cons (h : IsGap gap) (hc : isGap c = false) (t : Text) :
    skipGap (gap ++ c :: t) = c :: t := by
  rw [skipGap_append h, skipGap_cons hc]

/-! ## 2. The grammar of values -/

/-- A named value of a record, with the gaps around the quotes. -/
structure NamedValue where
  before : Text
  /-- What stands between the quotes. -/
  name : Text
  after : Text
  value : Text

/-- The text of a named value. -/
def NamedValue.text (f : NamedValue) : Text := f.before ++ '"' :: (f.name ++ '"' :: (f.after ++ ':' :: f.value))

theorem NamedValue.length_value_le (f : NamedValue) : f.value.length ≤ f.text.length := by
  simp only [NamedValue.text, List.length_append, List.length_cons]
  omega

/-- The gaps are gaps, and the name may stand between quotes. -/
structure NamedValue.IsProper (f : NamedValue) : Prop where
  before : IsGap f.before
  name : IsLiteral f.name
  after : IsGap f.after

/-- **The grammar of values**, which may have gaps around them. -/
inductive IsValue : Text → Prop where
  | word {w : Text} (h : w ∈ ["null".toList, "true".toList, "false".toList]) : IsValue w
  | text {w : Text} (h : IsLiteral w) : IsValue ('"' :: (w ++ ['"']))
  | number {w : Text} {n : Numeral} (h : IsNumeral w n) : IsValue w
  | emptyList {gap : Text} (h : IsGap gap) : IsValue ('[' :: (gap ++ [']']))
  | list {items : List Text} (hne : items ≠ []) (h : ∀ v ∈ items, IsValue v) :
      IsValue ('[' :: (Text.joinWith [','] items ++ [']']))
  | emptyRecord {gap : Text} (h : IsGap gap) : IsValue ('{' :: (gap ++ ['}']))
  | record {fields : List NamedValue} (hne : fields ≠ []) (hf : ∀ f ∈ fields, f.IsProper)
      (h : ∀ f ∈ fields, IsValue f.value) :
      IsValue ('{' :: (Text.joinWith [','] (fields.map NamedValue.text) ++ ['}']))
  | gapBefore {c : Char} {v : Text} (hc : isGap c = true) (h : IsValue v) : IsValue (c :: v)
  | gapBehind {c : Char} {v : Text} (hc : isGap c = true) (h : IsValue v) : IsValue (v ++ [c])

theorem isGap_of_startsNumeral (h : startsNumeral c = true) : isGap c = false := by
  rw [← Bool.not_eq_true]
  intro hgap
  rcases isGap_cases hgap with rfl | rfl | rfl | rfl <;> cases h

/-- The first token of a value is no closing bracket. -/
theorem IsValue.exists_token (h : IsValue v) :
    ∃ c t, c ≠ ']' ∧ c ≠ '}' ∧ ∀ rest, skipGap (v ++ rest) = c :: (t ++ rest) := by
  have htoken : ∀ {c : Char} (t : Text), isGap c = false → c ≠ ']' → c ≠ '}' → ∃ d u, d ≠ ']' ∧ d ≠ '}' ∧
      ∀ rest, skipGap (c :: t ++ rest) = d :: (u ++ rest) :=
    fun t hc hlist hrecord => ⟨_, t, hlist, hrecord, fun rest => skipGap_cons hc (t ++ rest)⟩
  induction h with
  | word h =>
    simp only [List.mem_cons, List.not_mem_nil, or_false] at h
    rcases h with rfl | rfl | rfl <;> exact htoken _ rfl (by decide) (by decide)
  | text h => exact htoken _ rfl (by decide) (by decide)
  | number h =>
    obtain ⟨c, t, rfl, hc⟩ := h.exists_cons
    exact htoken t (isGap_of_startsNumeral hc) (by rintro rfl; cases hc) (by rintro rfl; cases hc)
  | emptyList h => exact htoken _ rfl (by decide) (by decide)
  | list hne h ih => exact htoken _ rfl (by decide) (by decide)
  | emptyRecord h => exact htoken _ rfl (by decide) (by decide)
  | record hne hf h ih => exact htoken _ rfl (by decide) (by decide)
  | gapBefore hc h ih =>
    obtain ⟨d, u, hlist, hrecord, hu⟩ := ih
    exact ⟨d, u, hlist, hrecord, fun rest => (List.dropWhile_cons_of_pos hc).trans (hu rest)⟩
  | @gapBehind c v hc h ih =>
    obtain ⟨d, u, hlist, hrecord, hu⟩ := ih
    refine ⟨d, u ++ [c], hlist, hrecord, fun rest => ?_⟩
    rw [List.append_assoc, List.append_assoc]
    exact hu _

/-! ## 3. Parts in brackets -/

/-- Passes over a part, with its name if it has one. -/
def passPart (fuel : Nat) (isNamed : Bool) (t : Text) : Except Fault Text := do
  let t ← if isNamed then skipName t else .ok t
  skipFor fuel t

/-- The text is passed over up to a gap at its end. -/
def Passes (isNamed : Bool) (p : Text) : Prop :=
  ∀ fuel rest, 2 * p.length ≤ fuel → Stops rest →
    ∃ gap, IsGap gap ∧ passPart fuel isNamed (p ++ rest) = .ok (gap ++ rest)

theorem skipParts_succ (fuel : Nat) (isNamed : Bool) (closing : Char) (t : Text) :
    skipParts (fuel + 1) isNamed closing t = (do
      let t ← passPart fuel isNamed t
      let (more, t) ← afterPart closing t
      if more then skipParts fuel isNamed closing t else .ok t) := by
  cases isNamed with
  | false => rfl
  | true => exact (bind_assoc _ _ _).symm

theorem afterPart_comma (h : IsGap gap) (t : Text) : afterPart closing (gap ++ ',' :: t) = .ok (true, t) := by
  rw [afterPart, skipGap_append_cons h rfl]
  rfl

theorem afterPart_closing (h : IsGap gap) (hgap : isGap closing = false) (hcomma : closing ≠ ',') (t : Text) :
    afterPart closing (gap ++ closing :: t) = .ok (false, t) := by
  rw [afterPart, skipGap_append_cons h hgap]
  simp [hcomma]

/-- **Parts in brackets are passed over** with the closing bracket. Each takes a round, and has a comma or the
    bracket behind it. -/
theorem skipParts_join (hclosing : closing = ']' ∨ closing = '}') {parts : List Text} (hne : parts ≠ [])
    (h : ∀ p ∈ parts, Passes isNamed p) (hfuel : 2 * (Text.joinWith [','] parts).length + 1 ≤ fuel) :
    skipParts fuel isNamed closing (Text.joinWith [','] parts ++ closing :: rest) = .ok rest := by
  obtain ⟨hgap, hcomma, hstops⟩ : isGap closing = false ∧ closing ≠ ',' ∧ Stops (closing :: rest) := by
    rcases hclosing with rfl | rfl <;> exact ⟨rfl, by decide, stops_cons rfl rest⟩
  induction parts generalizing fuel with
  | nil => exact absurd rfl hne
  | cons p parts ih =>
    obtain ⟨hp, hparts⟩ := List.forall_mem_cons.mp h
    obtain ⟨fuel, rfl⟩ := Nat.exists_eq_succ_of_ne_zero (by omega : fuel ≠ 0)
    cases parts with
    | nil =>
      rw [Text.joinWith_singleton] at hfuel ⊢
      obtain ⟨gap, hpast, hpass⟩ := hp fuel _ (by omega) hstops
      rw [skipParts_succ, hpass]
      simp only [bind, Except.bind]
      rw [afterPart_closing hpast hgap hcomma]
      rfl
    | cons q parts =>
      rw [Text.joinWith_cons_cons, List.length_append, List.length_append, List.length_singleton] at hfuel
      rw [Text.joinWith_cons_cons, List.append_assoc, List.append_assoc, List.singleton_append]
      obtain ⟨gap, hpast, hpass⟩ := hp fuel (',' :: _) (by omega) (stops_cons rfl _)
      rw [skipParts_succ, hpass]
      simp only [bind, Except.bind]
      rw [afterPart_comma hpast]
      exact ih (List.cons_ne_nil q parts) hparts (by omega)

/-- Parts with commas between them start with the first part. -/
theorem exists_joinWith_append (p : Text) (parts : List Text) (t : Text) :
    ∃ more, Text.joinWith [','] (p :: parts) ++ t = p ++ more := by
  cases parts with
  | nil => exact ⟨t, by rw [Text.joinWith_singleton]⟩
  | cons q parts => exact ⟨_, by rw [Text.joinWith_cons_cons, List.append_assoc]⟩

/-! ## 4. Values -/

theorem afterWord_append (w rest : Text) : afterWord w (w ++ rest) = .ok rest := by
  induction w with
  | nil => rfl
  | cons c w ih =>
    rw [List.cons_append, afterWord, if_pos rfl]
    exact ih

theorem skipFor_gap (hc : isGap c = true) (fuel : Nat) (t : Text) : skipFor fuel (c :: t) = skipFor fuel t := by
  have hskip : skipGap (c :: t) = skipGap t := List.dropWhile_cons_of_pos hc
  cases fuel with
  | zero => rfl
  | succ fuel => rw [skipFor, skipFor, hskip]

/-! What is passed over, by the first character. -/

theorem skipFor_quote (fuel : Nat) (t : Text) :
    skipFor (fuel + 1) ('"' :: t) = (quotedFrom escapedLoosely 0 t).map Prod.snd := rfl

theorem skipFor_list (fuel : Nat) (t : Text) : skipFor (fuel + 1) ('[' :: t) =
    if (skipGap t).head? = some ']' then .ok (skipGap t).tail else skipParts fuel false ']' t := rfl

theorem skipFor_record (fuel : Nat) (t : Text) : skipFor (fuel + 1) ('{' :: t) =
    if (skipGap t).head? = some '}' then .ok (skipGap t).tail else skipParts fuel true '}' t := rfl

theorem skipFor_numeral (hc : startsNumeral c = true) (fuel : Nat) (t : Text) :
    skipFor (fuel + 1) (c :: t) = (numeral .malformed (c :: t)).map Prod.snd := by
  have hno : c ≠ 'n' ∧ c ≠ 't' ∧ c ≠ 'f' ∧ c ≠ '"' := by
    refine ⟨?_, ?_, ?_, ?_⟩ <;> (rintro rfl; cases hc)
  rw [skipFor, skipGap_cons (isGap_of_startsNumeral hc)]
  simp [hno, hc]

theorem skipName_text {f : NamedValue} (h : f.IsProper) (rest : Text) :
    skipName (f.text ++ rest) = .ok (f.value ++ rest) := by
  obtain ⟨u, hu⟩ := quotedFrom_literal h.name (f.after ++ ':' :: (f.value ++ rest))
  have htext : f.text ++ rest = f.before ++ '"' :: (f.name ++ '"' :: (f.after ++ ':' :: (f.value ++ rest))) := by
    simp [NamedValue.text]
  rw [htext, skipName, skipGap_append_cons h.before rfl]
  simp only [if_true, bind, Except.bind, hu]
  rw [afterColon, skipGap_append_cons h.after rfl]
  rfl

/-- Brackets with nothing between them. -/
theorem skipFor_emptyList (h : IsGap gap) (fuel : Nat) (rest : Text) :
    skipFor (fuel + 1) ('[' :: (gap ++ ']' :: rest)) = .ok rest := by
  rw [skipFor_list, skipGap_append_cons h (by decide)]
  rfl

theorem skipFor_emptyRecord (h : IsGap gap) (fuel : Nat) (rest : Text) :
    skipFor (fuel + 1) ('{' :: (gap ++ '}' :: rest)) = .ok rest := by
  rw [skipFor_record, skipGap_append_cons h (by decide)]
  rfl

/-- A list whose items are passed over. -/
theorem skipFor_items {items : List Text} (hne : items ≠ []) (hitems : ∀ v ∈ items, IsValue v)
    (h : ∀ v ∈ items, Passes false v) (hfuel : 2 * (Text.joinWith [','] items).length + 1 ≤ fuel) (rest : Text) :
    skipFor (fuel + 1) ('[' :: (Text.joinWith [','] items ++ ']' :: rest)) = .ok rest := by
  rw [skipFor_list, if_neg, skipParts_join (.inl rfl) hne h hfuel]
  obtain ⟨v, items, rfl⟩ := List.exists_cons_of_ne_nil hne
  obtain ⟨c, t, hlist, -, htoken⟩ := (hitems v List.mem_cons_self).exists_token
  obtain ⟨more, hmore⟩ := exists_joinWith_append v items (']' :: rest)
  rw [hmore, htoken]
  exact fun hhead => hlist (Option.some.inj hhead)

/-- A record whose values are passed over behind their names. -/
theorem skipFor_fields {fields : List NamedValue} (hne : fields ≠ []) (hf : ∀ f ∈ fields, f.IsProper)
    (h : ∀ p ∈ fields.map NamedValue.text, Passes true p)
    (hfuel : 2 * (Text.joinWith [','] (fields.map NamedValue.text)).length + 1 ≤ fuel) (rest : Text) :
    skipFor (fuel + 1) ('{' :: (Text.joinWith [','] (fields.map NamedValue.text) ++ '}' :: rest)) = .ok rest := by
  rw [skipFor_record, if_neg, skipParts_join (.inr rfl) (by simpa using hne) h hfuel]
  obtain ⟨f, fields, rfl⟩ := List.exists_cons_of_ne_nil hne
  obtain ⟨more, hmore⟩ := exists_joinWith_append f.text (fields.map NamedValue.text) ('}' :: rest)
  rw [List.map_cons, hmore, NamedValue.text, List.append_assoc, List.cons_append,
    skipGap_append_cons (hf f List.mem_cons_self).before (by decide)]
  exact fun hhead => absurd (Option.some.inj hhead) (by decide)

/-- **Every value is passed over**, and nothing behind it but a gap of its own. -/
theorem skipFor_append (h : IsValue v) (hfuel : 2 * v.length ≤ fuel) (hrest : Stops rest) :
    ∃ gap, IsGap gap ∧ skipFor fuel (v ++ rest) = .ok (gap ++ rest) := by
  have hwhole : ∀ {v rest : Text} {fuel : Nat}, skipFor fuel (v ++ rest) = .ok rest →
      ∃ gap, IsGap gap ∧ skipFor fuel (v ++ rest) = .ok (gap ++ rest) := fun h => ⟨[], isGap_nil, h⟩
  have hsucc : ∀ {v : Text} {fuel : Nat}, v ≠ [] → 2 * v.length ≤ fuel → ∃ n, fuel = n + 1 := fun hne hfuel =>
    Nat.exists_eq_succ_of_ne_zero (by have := List.length_pos_iff.mpr hne; omega)
  induction h generalizing fuel rest with
  | @word w h =>
    simp only [List.mem_cons, List.not_mem_nil, or_false] at h
    obtain ⟨fuel, rfl⟩ := hsucc (by rcases h with rfl | rfl | rfl <;> exact List.cons_ne_nil _ _) hfuel
    refine hwhole ?_
    rcases h with rfl | rfl | rfl
    · exact afterWord_append "ull".toList rest
    · exact afterWord_append "rue".toList rest
    · exact afterWord_append "alse".toList rest
  | text h =>
    obtain ⟨fuel, rfl⟩ := hsucc (List.cons_ne_nil _ _) hfuel
    obtain ⟨u, hu⟩ := quotedFrom_literal h rest
    refine hwhole ?_
    rw [List.cons_append, List.append_assoc, List.singleton_append, skipFor_quote, hu]
    rfl
  | number h =>
    obtain ⟨c, t, rfl, hc⟩ := h.exists_cons
    obtain ⟨fuel, rfl⟩ := hsucc (List.cons_ne_nil _ _) hfuel
    have hread := numeral_append h hrest .malformed
    refine hwhole ?_
    rw [List.cons_append] at hread ⊢
    rw [skipFor_numeral hc, hread]
    rfl
  | emptyList h =>
    obtain ⟨fuel, rfl⟩ := hsucc (List.cons_ne_nil _ _) hfuel
    refine hwhole ?_
    rw [List.cons_append, List.append_assoc, List.singleton_append, skipFor_emptyList h]
  | @list items hne h ih =>
    obtain ⟨fuel, rfl⟩ := hsucc (List.cons_ne_nil _ _) hfuel
    rw [List.length_cons, List.length_append] at hfuel
    have hpasses : ∀ v ∈ items, Passes false v := fun v hv _ _ hfuel hrest => ih v hv hfuel hrest
    refine hwhole ?_
    rw [List.cons_append, List.append_assoc, List.singleton_append]
    exact skipFor_items hne h hpasses (by omega) rest
  | emptyRecord h =>
    obtain ⟨fuel, rfl⟩ := hsucc (List.cons_ne_nil _ _) hfuel
    refine hwhole ?_
    rw [List.cons_append, List.append_assoc, List.singleton_append, skipFor_emptyRecord h]
  | @record fields hne hf h ih =>
    obtain ⟨fuel, rfl⟩ := hsucc (List.cons_ne_nil _ _) hfuel
    rw [List.length_cons, List.length_append] at hfuel
    have hpasses : ∀ p ∈ fields.map NamedValue.text, Passes true p := by
      intro p hp fuel rest hfuel hrest
      obtain ⟨f, hmem, rfl⟩ := List.mem_map.mp hp
      have hlength : f.value.length ≤ f.text.length := f.length_value_le
      obtain ⟨gap, hpast, hskip⟩ := ih f hmem (by omega : 2 * f.value.length ≤ fuel) hrest
      refine ⟨gap, hpast, ?_⟩
      rw [passPart, if_pos rfl, skipName_text (hf f hmem)]
      exact hskip
    refine hwhole ?_
    rw [List.cons_append, List.append_assoc, List.singleton_append]
    exact skipFor_fields hne hf hpasses (by omega) rest
  | gapBefore hc h ih =>
    rw [List.length_cons] at hfuel
    rw [List.cons_append, skipFor_gap hc]
    exact ih (by omega) hrest
  | @gapBehind c v hc h ih =>
    rw [List.length_append] at hfuel
    obtain ⟨gap, hpast, hskip⟩ := ih (by omega : 2 * v.length ≤ fuel) (stops_of_isGap hc rest)
    refine ⟨gap ++ [c], List.forall_mem_append.mpr ⟨hpast, List.forall_mem_singleton.mpr hc⟩, ?_⟩
    rw [List.append_assoc, List.append_assoc]
    exact hskip

theorem skip_append (h : IsValue v) (hrest : Stops rest) :
    ∃ gap, IsGap gap ∧ skip (v ++ rest) = .ok (gap ++ rest) :=
  skipFor_append h (by rw [List.length_append]; omega) hrest

end Ambient.Json
