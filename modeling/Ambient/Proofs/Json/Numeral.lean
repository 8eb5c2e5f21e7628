import Ambient.Json.Reader
import Mathlib.Data.List.Basic
import Mathlib.Data.List.TakeWhile

/-!
# Numbers

A numeral has nothing that marks its end, so it is read whole only where what follows cannot belong to it.

* `IsNumeral`: the grammar of numbers; `Stops`: what may follow one;
* `numeral_append`: every number is read up to its end;
* `isTooLarge_of_le`: no 64-bit word is too large for a floating-point number;
* `readNat_ofNat`: a word that is printed is read back.
-/

namespace Ambient.Json

variable {t w rest digits whole fraction exponent : Text} {c : Char} {n bound : Nat} {atEnd : Fault}

/-! ## 1. The grammar of numbers -/

/-- One or more digits. -/
structure IsDigits (t : Text) : Prop where
  ne_nil : t ≠ []
  all : ∀ c ∈ t, c.isDigit = true

/-- Nothing, or a point with digits. -/
inductive IsFraction : Text → Option Text → Prop where
  | none : IsFraction [] none
  | point {digits : Text} (h : IsDigits digits) : IsFraction ('.' :: digits) (some digits)

/-- Nothing, or a mark with digits that may have a sign. -/
inductive IsExponent : Text → Option (Bool × Text) → Prop where
  | none : IsExponent [] none
  | unsigned {c : Char} {digits : Text} (hc : c = 'e' ∨ c = 'E') (h : IsDigits digits) :
      IsExponent (c :: digits) (some (false, digits))
  | signed {c sign : Char} {digits : Text} (hc : c = 'e' ∨ c = 'E') (hs : sign = '+' ∨ sign = '-')
      (h : IsDigits digits) : IsExponent (c :: sign :: digits) (some (sign == '-', digits))

/-- **The grammar of numbers**, with the numeral that is written. No digit stands behind a leading zero. -/
inductive IsNumeral : Text → Numeral → Prop where
  | parts {isNegative : Bool} {whole fraction exponent : Text} {fraction? : Option Text}
      {exponent? : Option (Bool × Text)} (hw : IsDigits whole) (hzero : whole.head? = some '0' → whole.length = 1)
      (hf : IsFraction fraction fraction?) (he : IsExponent exponent exponent?) :
      IsNumeral ((if isNegative then ['-'] else []) ++ (whole ++ (fraction ++ exponent)))
        ⟨isNegative, whole, fraction?, exponent?⟩

/-- The text does not start with a digit. -/
def NoDigit (t : Text) : Prop := ∀ c ∈ t.head?, c.isDigit = false

/-- **What may follow a number**: nothing that could belong to it. -/
def Stops (t : Text) : Prop := ∀ c ∈ t.head?, c.isDigit = false ∧ c ≠ '.' ∧ c ≠ 'e' ∧ c ≠ 'E'

theorem Stops.noDigit (h : Stops t) : NoDigit t := fun c hc => (h c hc).1

theorem noDigit_cons (h : c.isDigit = false) (t : Text) : NoDigit (c :: t) := by
  intro d hd
  rwa [← Option.some.inj hd]

theorem stops_nil : Stops [] := fun _ hc => nomatch hc

theorem stops_cons (h : (c.isDigit || c == '.' || c == 'e' || c == 'E') = false) (t : Text) : Stops (c :: t) := by
  intro d hd
  rw [← Option.some.inj hd]
  simpa [and_assoc] using h

theorem IsDigits.exists_cons (h : IsDigits digits) :
    ∃ c t, digits = c :: t ∧ c.isDigit = true := by
  obtain ⟨c, t, rfl⟩ := List.exists_cons_of_ne_nil h.ne_nil
  exact ⟨c, t, rfl, h.all c List.mem_cons_self⟩

/-- A sign is no digit. -/
theorem ne_of_isDigit (h : c.isDigit = true) : c ≠ '-' ∧ c ≠ '+' := by
  constructor <;> (rintro rfl; cases h)

/-- A number starts with a digit or a minus sign. -/
theorem IsNumeral.exists_cons {n : Numeral} (h : IsNumeral w n) : ∃ c t, w = c :: t ∧ startsNumeral c = true := by
  cases h with
  | @parts isNegative whole fraction exponent _ _ hw hzero hf he =>
    obtain ⟨c, t, rfl, hc⟩ := hw.exists_cons
    cases isNegative with
    | false => exact ⟨c, _, rfl, by simp [startsNumeral, hc]⟩
    | true => exact ⟨'-', _, rfl, rfl⟩

/-! ## 2. Reading -/

theorem takeWhile_digits (h : IsDigits digits) (hrest : NoDigit rest) :
    (digits ++ rest).takeWhile Char.isDigit = digits ∧ (digits ++ rest).dropWhile Char.isDigit = rest := by
  have hstop : rest.takeWhile Char.isDigit = [] ∧ rest.dropWhile Char.isDigit = rest := by
    cases rest with
    | nil => exact ⟨rfl, rfl⟩
    | cons c rest => simp [hrest c rfl]
  rw [List.takeWhile_append_of_pos h.all, List.dropWhile_append_of_pos h.all, hstop.1, hstop.2, List.append_nil]
  exact ⟨rfl, rfl⟩

theorem digits_append (h : IsDigits digits) (hrest : NoDigit rest) :
    Json.digits atEnd (digits ++ rest) = .ok (digits, rest) := by
  obtain ⟨htake, hdrop⟩ := takeWhile_digits h hrest
  have hne : digits.isEmpty = false := List.isEmpty_eq_false_iff.mpr h.ne_nil
  rw [Json.digits, htake, hdrop, hne]
  rfl

theorem wholeDigits_append (h : IsDigits whole) (hzero : whole.head? = some '0' → whole.length = 1)
    (hrest : NoDigit rest) : wholeDigits atEnd (whole ++ rest) = .ok (whole, rest) := by
  rw [wholeDigits, digits_append h hrest]
  simp only [bind, Except.bind]
  rw [if_neg fun hsuperfluous => hsuperfluous.1 (hzero hsuperfluous.2)]

theorem fractionDigits_append {fraction? : Option Text} (h : IsFraction fraction fraction?) (hrest : NoDigit rest)
    (hpoint : rest.head? ≠ some '.') : fractionDigits atEnd (fraction ++ rest) = .ok (fraction?, rest) := by
  cases h with
  | none =>
    rw [List.nil_append]
    unfold fractionDigits
    split
    · exact absurd rfl hpoint
    · rfl
  | point h =>
    rw [List.cons_append, fractionDigits, digits_append h hrest]
    rfl

/-- Digits have no sign. -/
theorem exponentSign_digits (h : IsDigits digits) (rest : Text) :
    exponentSign (digits ++ rest) = (false, digits ++ rest) := by
  obtain ⟨c, t, rfl, hc⟩ := h.exists_cons
  obtain ⟨hminus, hplus⟩ := ne_of_isDigit hc
  unfold exponentSign
  split
  · rename_i hcons
    exact absurd (List.cons.inj hcons).1 hminus
  · rename_i hcons
    exact absurd (List.cons.inj hcons).1 hplus
  · rfl

theorem exponentDigits_append {exponent? : Option (Bool × Text)} (h : IsExponent exponent exponent?)
    (hrest : Stops rest) : exponentDigits atEnd (exponent ++ rest) = .ok (exponent?, rest) := by
  cases h with
  | none =>
    cases rest with
    | nil => rfl
    | cons c rest =>
      obtain ⟨-, -, he, hE⟩ := hrest c rfl
      rw [List.nil_append, exponentDigits, if_neg (not_or.mpr ⟨he, hE⟩)]
  | @unsigned c digits hc h =>
    rw [List.cons_append, exponentDigits, if_pos hc, exponentSign_digits h]
    simp only [bind, Except.bind]
    rw [digits_append h hrest.noDigit]
  | @signed c sign digits hc hs h =>
    have hsign : exponentSign (sign :: (digits ++ rest)) = (sign == '-', digits ++ rest) := by
      rcases hs with rfl | rfl
      · rfl
      · rfl
    rw [List.cons_append, List.cons_append, exponentDigits, if_pos hc, hsign]
    simp only [bind, Except.bind]
    rw [digits_append h hrest.noDigit]

/-- What follows the digits before a point starts with no digit. -/
theorem noDigit_tail {fraction? : Option Text} {exponent? : Option (Bool × Text)}
    (hf : IsFraction fraction fraction?) (he : IsExponent exponent exponent?) (hrest : Stops rest) :
    NoDigit (fraction ++ (exponent ++ rest)) ∧ NoDigit (exponent ++ rest) ∧ (exponent ++ rest).head? ≠ some '.' := by
  have hmark : ∀ {c : Char} (t : Text), c = 'e' ∨ c = 'E' → NoDigit (c :: t) ∧ (c :: t).head? ≠ some '.' := by
    rintro c t (rfl | rfl)
    · exact ⟨noDigit_cons rfl _, by simp⟩
    · exact ⟨noDigit_cons rfl _, by simp⟩
  have hexponent : NoDigit (exponent ++ rest) ∧ (exponent ++ rest).head? ≠ some '.' := by
    cases he with
    | none => exact ⟨hrest.noDigit, fun hpoint => (hrest '.' hpoint).2.1 rfl⟩
    | unsigned hc h => exact hmark _ hc
    | signed hc hs h => exact hmark _ hc
  refine ⟨?_, hexponent⟩
  cases hf with
  | none => exact hexponent.1
  | point _ => exact noDigit_cons rfl _

/-- **Every number is read up to its end.** -/
theorem numeral_append {n : Numeral} (h : IsNumeral w n) (hrest : Stops rest) (atEnd : Fault) :
    numeral atEnd (w ++ rest) = .ok (n, rest) := by
  cases h with
  | @parts isNegative whole fraction exponent fraction? exponent? hw hzero hf he =>
    obtain ⟨hbehind, hdigit, hpoint⟩ := noDigit_tail hf he hrest
    generalize hmore : fraction ++ (exponent ++ rest) = more at hbehind
    have hsign : (if ((if isNegative then ['-'] else []) ++ (whole ++ more)).head? = some '-' then
        (true, ((if isNegative then ['-'] else []) ++ (whole ++ more)).tail)
        else (false, (if isNegative then ['-'] else []) ++ (whole ++ more))) = (isNegative, whole ++ more) := by
      cases isNegative with
      | true => rfl
      | false =>
        obtain ⟨c, t, rfl, hc⟩ := hw.exists_cons
        exact if_neg fun hminus => (ne_of_isDigit hc).1 (Option.some.inj hminus)
    rw [List.append_assoc, List.append_assoc, List.append_assoc, hmore, numeral, hsign]
    simp only [bind, Except.bind]
    rw [wholeDigits_append hw hzero hbehind]
    simp only [← hmore]
    rw [fractionDigits_append hf hdigit hpoint]
    simp only
    rw [exponentDigits_append he hrest]

/-! ## 3. Words -/

theorem digitsValue_eq (digits : Text) : digitsValue digits = Nat.ofDigitChars 10 digits 0 := rfl

theorem digitsValue_ofNat (n : Nat) : digitsValue (Text.ofNat n) = n := by
  rw [digitsValue_eq]
  exact Nat.ofDigitChars_toDigits (by omega) (by omega)

theorem isDigits_ofNat (n : Nat) : IsDigits (Text.ofNat n) where
  ne_nil := List.ne_nil_of_length_pos Nat.length_toDigits_pos
  all _ hc := Nat.isDigit_of_mem_toDigits (by omega) (by omega) hc

theorem head?_ofNat (h : n ≠ 0) : (Text.ofNat n).head? ≠ some '0' := by
  induction n using Nat.strong_induction_on with
  | _ n ih =>
    by_cases hsmall : n < 10
    · have hdigit : ∀ k < 10, k ≠ 0 → (Text.ofNat k).head? ≠ some '0' := by decide
      exact hdigit n hsmall h
    · have hsplit : Text.ofNat n = Text.ofNat (n / 10) ++ [(n % 10).digitChar] :=
        Nat.toDigits_of_base_le (by omega) (by omega)
      rw [hsplit, List.head?_append_of_ne_nil _ (isDigits_ofNat (n / 10)).ne_nil]
      exact ih (n / 10) (by omega) (by omega)

/-- Only zero is written with a leading zero. -/
theorem length_ofNat (n : Nat) (h : (Text.ofNat n).head? = some '0') : (Text.ofNat n).length = 1 := by
  obtain rfl : n = 0 := Decidable.byContradiction fun hne => head?_ofNat hne h
  rfl

theorem isNumeral_ofNat (n : Nat) : IsNumeral (Text.ofNat n) ⟨false, Text.ofNat n, none, none⟩ := by
  have := @IsNumeral.parts false _ _ _ _ _ (isDigits_ofNat n) (length_ofNat n) .none .none
  rwa [if_neg Bool.false_ne_true, List.nil_append, List.append_nil, List.append_nil] at this

theorem le_ofDigitChars (n : Nat) (digits : Text) : n ≤ Nat.ofDigitChars 10 digits n := by
  induction digits generalizing n with
  | nil => exact le_rfl
  | cons c digits ih =>
    have hnext : n ≤ 10 * n + (c.toNat - '0'.toNat) := by omega
    exact hnext.trans (ih _)

namespace Numeral

/-- The digits of a word are absorbed to the last. -/
theorem absorb_of_le {n : Nat} (h : Nat.ofDigitChars 10 digits n ≤ maxWord) :
    absorb n digits = (Nat.ofDigitChars 10 digits n, 0) := by
  induction digits generalizing n with
  | nil => rfl
  | cons c digits ih =>
    have hnext : 10 * n + (c.toNat - '0'.toNat) ≤ maxWord := (le_ofDigitChars _ digits).trans h
    rw [absorb, if_pos hnext]
    exact ih h

theorem roundTo53_le {n : Nat} (h : n ≤ maxWord) : roundTo53 n ≤ maxWord + 2048 := by
  have hword : maxWord < 2 ^ 64 := by decide
  have hlog : n.log2 < 64 := by
    by_cases hzero : n = 0
    · rw [hzero]
      decide
    · exact (Nat.log2_lt hzero).mpr (by omega)
  have hpower : Nat.pow 2 (n.log2 + 1 - 53) ≤ Nat.pow 2 11 := Nat.pow_le_pow_right (by omega) (by omega)
  have hunit : Nat.pow 2 (n.log2 + 1 - 53) ≤ 2048 := hpower
  have hquotient := Nat.div_mul_le_self n (Nat.pow 2 (n.log2 + 1 - 53))
  unfold roundTo53
  generalize Nat.pow 2 (n.log2 + 1 - 53) = unit at *
  dsimp only
  split
  · omega
  · rw [Nat.add_mul, Nat.one_mul]
    omega

/-- **No word is too large** for a floating-point number. -/
theorem isTooLarge_of_le (h : digitsValue digits ≤ maxWord) : isTooLarge ⟨false, digits, none, none⟩ = false := by
  have hparts : parts ⟨false, digits, none, none⟩ = (digitsValue digits, 0) := by
    rw [digitsValue_eq] at h
    simp only [parts, absorb_of_le h]
    rfl
  have hone : roundTo53 (Nat.pow 10 (0 : Int).toNat) = 1 := by decide
  have hbound : maxWord + 2048 < infinityBound := by decide +kernel
  have hsmall : ¬infinityBound ≤ roundTo53 (digitsValue digits) := by
    have := roundTo53_le h
    omega
  have hpower : ¬(308 : Int) < 0 := by omega
  unfold isTooLarge
  rw [hparts]
  simp only [hone, Nat.mul_one, decide_eq_false hsmall, decide_eq_false hpower, Bool.or_false, Bool.and_false]

end Numeral

/-- **A word that is printed is read back.** -/
theorem readNat_ofNat (hbound : bound ≤ maxWord) (h : n ≤ bound) (hrest : Stops rest) :
    readNat bound (Text.ofNat n ++ rest) = .ok (n, rest) := by
  obtain ⟨c, t, hcons, hc⟩ := (isDigits_ofNat n).exists_cons
  have hgap : isGap c = false := by
    rw [← Bool.not_eq_true]
    intro hgap
    simp only [isGap, Bool.or_eq_true, beq_iff_eq] at hgap
    rcases hgap with ((rfl | rfl) | rfl) | rfl <;> cases hc
  have hskip : skipGap (Text.ofNat n ++ rest) = c :: (t ++ rest) := by
    rw [hcons]
    exact List.dropWhile_cons_of_neg (by simp [hgap])
  have hfinite : finiteNumeral (c :: (t ++ rest)) = .ok (⟨false, Text.ofNat n, none, none⟩, rest) := by
    rw [← List.cons_append, ← hcons, finiteNumeral, numeral_append (isNumeral_ofNat n) hrest]
    simp only [bind, Except.bind]
    rw [Numeral.isTooLarge_of_le (by rw [digitsValue_ofNat]; omega)]
    rfl
  have hnatural : Numeral.natural? ⟨false, Text.ofNat n, none, none⟩ = some n := by
    simp only [Numeral.natural?, digitsValue_ofNat]
    simp
    omega
  have hstarts : startsNumeral c = true := by simp [startsNumeral, hc]
  unfold readNat
  rw [hskip]
  simp only [hstarts, if_true, hfinite, bind, Except.bind, hnatural]
  rw [if_pos h]

end Ambient.Json
