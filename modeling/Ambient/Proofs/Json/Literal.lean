import Ambient.Json.Printer
import Ambient.Json.Scalar
import Mathlib.Tactic.SplitIfs

/-!
# Texts between quotes

A text can be written between quotes in many ways: most characters may stand for themselves, some have a short
escape, all have one by code unit, and those beyond the basic plane one by a pair of units.

* `Spells`: the ways to write a text; `IsLiteral`: all that may stand between quotes, halves of pairs left alone too;
* `quoted_spells`: however it is written, a text is read back;
* `quotedFrom_literal`: what may stand between quotes is passed over;
* `spells_escape`: what is printed is one of the ways.
-/

namespace Ambient.Json

/-! ## 1. Code units -/

/-- Four hexadecimal digits that write a code unit. -/
inductive IsUnit : Text → Nat → Prop where
  | digits {p q r s : Char} {a b c d : Nat} (hp : hexValue? p = some a) (hq : hexValue? q = some b)
      (hr : hexValue? r = some c) (hs : hexValue? s = some d) :
      IsUnit [p, q, r, s] (16 * (16 * (16 * a + b) + c) + d)

variable {digits digits' t w rest : Text} {unit low : Nat} {c d : Char}

theorem IsUnit.length_eq (h : IsUnit digits unit) : digits.length = 4 := by
  cases h
  rfl

theorem codeUnit_append (h : IsUnit digits unit) (rest : Text) : codeUnit (digits ++ rest) = .ok unit := by
  obtain ⟨hp, hq, hr, hs⟩ := h
  rename_i p q r s a b c d
  have htake : ([p, q, r, s] ++ rest).take 4 = [p, q, r, s] := rfl
  have hlength : ¬Text.byteLength [p, q, r, s] < 4 := by
    have := p.utf8Size_pos
    have := q.utf8Size_pos
    have := r.utf8Size_pos
    have := s.utf8Size_pos
    simp only [Text.byteLength]
    omega
  unfold codeUnit
  rw [htake, if_neg hlength]
  simp [hp, hq, hr, hs]

/-- A control character has a code unit with two leading zeros. -/
theorem isUnit_control (h : c.toNat < 32) :
    IsUnit ['0', '0', hexDigit (c.toNat / 16), hexDigit (c.toNat % 16)] c.toNat := by
  have hdigit : ∀ n < 16, hexValue? (hexDigit n) = some n := by decide
  have hunit := IsUnit.digits (hdigit 0 (by omega)) (hdigit 0 (by omega)) (hdigit (c.toNat / 16) (by omega))
    (hdigit (c.toNat % 16) (by omega))
  have heq : 16 * (16 * (16 * 0 + 0) + c.toNat / 16) + c.toNat % 16 = c.toNat := by omega
  rwa [heq] at hunit

/-! ## 2. Ways to write a text -/

/-- May the character stand for itself between quotes? -/
def isPlain (c : Char) : Bool := c != '"' && c != '\\' && !decide (c.toNat < 32)

/-- The character that two halves of a pair write. -/
def pairChar (high low : Nat) : Char := Char.ofNat (0x10000 + (high - 0xD800) * 0x400 + (low - 0xDC00))

/-- **The ways to write a text between quotes.** -/
inductive Spells : Text → Text → Prop where
  | nil : Spells [] []
  | plain {c : Char} {w t : Text} (hc : isPlain c = true) (h : Spells w t) : Spells (c :: w) (c :: t)
  | short {c d : Char} {w t : Text} (hc : shortEscape? c = some d) (h : Spells w t) : Spells ('\\' :: c :: w) (d :: t)
  | unit {digits : Text} {unit : Nat} {w t : Text} (hd : IsUnit digits unit) (hhigh : isHigh unit = false)
      (hlow : isLow unit = false) (h : Spells w t) : Spells ('\\' :: 'u' :: (digits ++ w)) (Char.ofNat unit :: t)
  | pair {digits digits' : Text} {high low : Nat} {w t : Text} (hd : IsUnit digits high) (hd' : IsUnit digits' low)
      (hhigh : isHigh high = true) (hlow : isLow low = true) (h : Spells w t) :
      Spells ('\\' :: 'u' :: (digits ++ '\\' :: 'u' :: (digits' ++ w))) (pairChar high low :: t)

/-- **What may stand between quotes.** The units of an escape need not be paired. -/
inductive IsLiteral : Text → Prop where
  | nil : IsLiteral []
  | plain {c : Char} {w : Text} (hc : isPlain c = true) (h : IsLiteral w) : IsLiteral (c :: w)
  | short {c d : Char} {w : Text} (hc : shortEscape? c = some d) (h : IsLiteral w) : IsLiteral ('\\' :: c :: w)
  | unit {digits : Text} {unit : Nat} {w : Text} (hd : IsUnit digits unit) (h : IsLiteral w) :
      IsLiteral ('\\' :: 'u' :: (digits ++ w))

/-! ## 3. Reading -/

section Steps

variable {escape : Text → Except Fault (Char × Nat)} {more : Text}

/-- What belongs to an escape that has been read is passed over. -/
theorem quotedFrom_skip (a t : Text) : quotedFrom escape a.length (a ++ t) = quotedFrom escape 0 t := by
  induction a with
  | nil => rfl
  | cons c a ih => exact ih

theorem quotedFrom_quote (rest : Text) : quotedFrom escape 0 ('"' :: rest) = .ok ([], rest) := rfl

theorem quotedFrom_plain (hc : isPlain c = true) (h : quotedFrom escape 0 t = .ok (more, rest)) :
    quotedFrom escape 0 (c :: t) = .ok (c :: more, rest) := by
  simp only [isPlain, Bool.and_eq_true, bne_iff_ne, Bool.not_eq_true', decide_eq_false_iff_not] at hc
  rw [quotedFrom, if_neg hc.1.1, if_neg hc.1.2, if_neg hc.2, h]
  rfl

theorem quotedFrom_escape {a : Text} (he : escape (a ++ t) = .ok (d, a.length))
    (h : quotedFrom escape 0 t = .ok (more, rest)) :
    quotedFrom escape 0 ('\\' :: (a ++ t)) = .ok (d :: more, rest) := by
  have hquote : ¬('\\' : Char) = '"' := by decide
  rw [quotedFrom, if_neg hquote, if_pos rfl, he]
  simp only [bind, Except.bind]
  rw [quotedFrom_skip, h]

end Steps

theorem ne_of_shortEscape? (h : shortEscape? c = some d) : c ≠ 'u' := by
  rintro rfl
  cases h

theorem escaped_short (h : shortEscape? c = some d) (t : Text) : escaped ([c] ++ t) = .ok (d, 1) := by
  rw [List.singleton_append]
  unfold escaped
  split
  · rename_i heq
    cases heq
  · rename_i heq
    exact absurd (List.cons.inj heq).1 (ne_of_shortEscape? h)
  · rename_i heq
    rw [← (List.cons.inj heq).1, h]

theorem escaped_unit (hd : IsUnit digits unit) (hhigh : isHigh unit = false) (hlow : isLow unit = false) (t : Text) :
    escaped (('u' :: digits) ++ t) = .ok (Char.ofNat unit, ('u' :: digits).length) := by
  rw [List.cons_append, escaped, codeUnit_append hd]
  simp [bind, Except.bind, hhigh, hlow, hd.length_eq]

theorem escaped_pair (hd : IsUnit digits unit) (hd' : IsUnit digits' low) (hhigh : isHigh unit = true)
    (hlow : isLow low = true) (t : Text) :
    escaped (('u' :: (digits ++ '\\' :: 'u' :: digits')) ++ t) =
      .ok (pairChar unit low, ('u' :: (digits ++ '\\' :: 'u' :: digits')).length) := by
  have hdrop : (digits ++ '\\' :: 'u' :: (digits' ++ t)).drop 4 = '\\' :: 'u' :: (digits' ++ t) :=
    List.drop_left' hd.length_eq
  have hsecond : lowUnit ('\\' :: 'u' :: (digits' ++ t)) = .ok low := by
    rw [lowUnit, codeUnit_append hd']
    simp [bind, Except.bind, hlow]
  have hassoc : ('u' :: (digits ++ '\\' :: 'u' :: digits')) ++ t =
      'u' :: (digits ++ '\\' :: 'u' :: (digits' ++ t)) := by simp
  rw [hassoc, escaped, codeUnit_append hd]
  simp [bind, Except.bind, hhigh, hdrop, hsecond, hd.length_eq, hd'.length_eq, pairChar]

/-- **However a text is written, it is read back.** -/
theorem quoted_spells (h : Spells w t) (rest : Text) : quoted (w ++ '"' :: rest) = .ok (t, rest) := by
  induction h with
  | nil => exact quotedFrom_quote rest
  | plain hc _ ih => exact quotedFrom_plain hc ih
  | @short c _ _ _ hc _ ih => exact quotedFrom_escape (a := [c]) (escaped_short hc _) ih
  | unit hd hhigh hlow _ ih =>
    have := quotedFrom_escape (escaped_unit hd hhigh hlow _) ih
    simpa [quoted] using this
  | pair hd hd' hhigh hlow _ ih =>
    have := quotedFrom_escape (escaped_pair hd hd' hhigh hlow _) ih
    simpa [quoted] using this

theorem escapedLoosely_short (h : shortEscape? c = some d) (t : Text) : escapedLoosely ([c] ++ t) = .ok (d, 1) := by
  have hloose : escapedLoosely (c :: t) = escaped (c :: t) := by
    unfold escapedLoosely
    split
    · rename_i heq
      exact absurd (List.cons.inj heq).1 (ne_of_shortEscape? h)
    · rfl
  rw [List.singleton_append, hloose]
  exact escaped_short h t

theorem escapedLoosely_unit (hd : IsUnit digits unit) (t : Text) :
    escapedLoosely (('u' :: digits) ++ t) = .ok ('u', ('u' :: digits).length) := by
  rw [List.cons_append, escapedLoosely, codeUnit_append hd, List.length_cons, hd.length_eq]
  rfl

/-- **What may stand between quotes is passed over**, up to the closing quote. -/
theorem quotedFrom_literal (h : IsLiteral w) (rest : Text) :
    ∃ t, quotedFrom escapedLoosely 0 (w ++ '"' :: rest) = .ok (t, rest) := by
  induction h with
  | nil => exact ⟨[], quotedFrom_quote rest⟩
  | plain hc _ ih =>
    obtain ⟨t, ht⟩ := ih
    exact ⟨_, quotedFrom_plain hc ht⟩
  | @short c _ _ hc _ ih =>
    obtain ⟨t, ht⟩ := ih
    exact ⟨_, quotedFrom_escape (a := [c]) (escapedLoosely_short hc _) ht⟩
  | unit hd _ ih =>
    obtain ⟨t, ht⟩ := ih
    have := quotedFrom_escape (escapedLoosely_unit hd _) ht
    exact ⟨_, by simpa using this⟩

/-! ## 4. Printing -/

theorem spells_escape_cons (c : Char) (h : Spells w t) : Spells (escape c ++ w) (c :: t) := by
  unfold escape
  split_ifs with hquote hslash hback hform hfeed hreturn htab hcontrol
  · exact hquote ▸ .short rfl h
  · exact hslash ▸ .short rfl h
  · exact hback ▸ .short rfl h
  · exact hform ▸ .short rfl h
  · exact hfeed ▸ .short rfl h
  · exact hreturn ▸ .short rfl h
  · exact htab ▸ .short rfl h
  · have hhigh : isHigh c.toNat = false := by
      simp only [isHigh, Bool.and_eq_false_iff, decide_eq_false_iff_not]
      omega
    have hlow : isLow c.toNat = false := by
      simp only [isLow, Bool.and_eq_false_iff, decide_eq_false_iff_not]
      omega
    have hspelled := Spells.unit (isUnit_control hcontrol) hhigh hlow h
    rwa [Char.ofNat_toNat] at hspelled
  · exact .plain (by simp [isPlain, hquote, hslash, hcontrol]) h

/-- **What is printed for a text is one of the ways to write it.** -/
theorem spells_escape (t : Text) : Spells (t.flatMap escape) t := by
  induction t with
  | nil => exact .nil
  | cons c t ih => exact spells_escape_cons c ih

end Ambient.Json
