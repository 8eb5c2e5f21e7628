import Ambient.Declaration.ShortName
import Ambient.Scanner.Opening
import Ambient.Text.Word
import Ambient.Proofs.Text.Blank
import Ambient.Proofs.Text.Cut

/-!
# Names at the head of a signature

An identifier holds no blank and none of the marks that end a name (`isBlank_of_isNameChar`,
`ne_of_isNameChar`), so the rules for short names stop right behind it:

* `ofType?_of_name`, `opensGenericList_iff`: classes and interfaces;
* `ofFunction?_of_name`: functions;
* `ofValue?_of_name`, `ofValue?_of_bare_name`: constants and variables, with and without a colon.

`shortNameOf_of_filter` and `shortNameOf_of_none` take what the rule of the kind finds to the short name. Whatever the
signature, its short name is trimmed and a part of it (`isPart_shortNameOf`), and empty only if it is blank
(`shortNameOf_eq_nil_iff`).
-/

namespace Ambient

/-! ## 1. Names -/

/-- An identifier. -/
structure IsIdentifier (t : Text) : Prop where
  ne_nil : t ≠ []
  chars : ∀ c ∈ t, isNameChar c = true

instance (t : Text) : Decidable (IsIdentifier t) :=
  decidable_of_iff (t ≠ [] ∧ t.all isNameChar = true)
    ⟨fun h => ⟨h.1, List.all_eq_true.mp h.2⟩, fun h => ⟨h.ne_nil, List.all_eq_true.mpr h.chars⟩⟩

/-- The code points of the blanks. -/
def blankCodes : List Nat :=
  [9, 10, 11, 12, 13, 0x20, 0x85, 0xA0, 0x1680, 0x2000, 0x2001, 0x2002, 0x2003, 0x2004, 0x2005, 0x2006, 0x2007,
   0x2008, 0x2009, 0x200A, 0x2028, 0x2029, 0x202F, 0x205F, 0x3000]

theorem mem_blankCodes {c : Char} (h : isBlank c = true) : c.toNat ∈ blankCodes := by
  unfold isBlank at h
  simp only [Bool.or_eq_true, Bool.and_eq_true, decide_eq_true_eq, beq_iff_eq] at h
  unfold blankCodes
  simp only [List.mem_cons, List.not_mem_nil, or_false]
  omega

/-- No blank stands in a name. -/
theorem isBlank_of_isNameChar {c : Char} (h : isNameChar c = true) : isBlank c = false := by
  rw [← Bool.not_eq_true]
  intro hb
  have hcode := mem_blankCodes hb
  have hno : ∀ n ∈ blankCodes, CodePoint.inRanges n CodePoint.alphabetic = false ∧
      CodePoint.inRanges n CodePoint.numbers = false ∧ n ≠ '_'.toNat ∧ n ≠ '$'.toNat := by decide +kernel
  obtain ⟨ha, hn, hu, hd⟩ := hno _ hcode
  unfold isNameChar at h
  rw [ha, hn] at h
  simp only [Bool.false_or, Bool.or_eq_true, beq_iff_eq] at h
  rcases h with rfl | rfl
  · exact hu rfl
  · exact hd rfl

/-- The marks behind a name. -/
def nameMarks : Text := "<>(:;".toList

theorem ne_of_isNameChar {c d : Char} (h : isNameChar c = true) (hd : d ∈ nameMarks) : c ≠ d := by
  have hno : nameMarks.all (fun d => !isNameChar d) = true := by decide +kernel
  rintro rfl
  have hc := List.all_eq_true.mp hno c hd
  rw [h] at hc
  exact Bool.false_ne_true hc

/-! ## 2. The rules for short names -/

theorem ShortName.isTypeNameChar_iff {c : Char} :
    isTypeNameChar c = true ↔ c ≠ '<' ∧ c ≠ '>' ∧ isBlank c = false := by
  unfold isTypeNameChar
  rw [Bool.not_eq_true', Bool.or_eq_false_iff, Bool.or_eq_false_iff, beq_eq_false_iff_ne, beq_eq_false_iff_ne,
    and_assoc]

theorem IsIdentifier.typeChars {name : Text} (h : IsIdentifier name) :
    ∀ c ∈ name, ShortName.isTypeNameChar c = true := fun c hc =>
  ShortName.isTypeNameChar_iff.mpr ⟨ne_of_isNameChar (h.chars c hc) (by decide),
    ne_of_isNameChar (h.chars c hc) (by decide), isBlank_of_isNameChar (h.chars c hc)⟩

namespace ShortName

variable {name t : Text} {kind : Kind}

/-- A run of type-name characters at the start is the name. -/
theorem ofType?_of_run (hne : name ≠ []) (hall : ∀ c ∈ name, isTypeNameChar c = true)
    (ht : t.takeWhile isTypeNameChar = []) : ofType? (name ++ t) = some ⟨name, opensGenericList t⟩ := by
  have hstart : (name ++ t).dropWhile (fun c => !isTypeNameChar c) = name ++ t := by
    obtain ⟨c, rest, rfl⟩ := List.exists_cons_of_ne_nil hne
    rw [List.cons_append, List.dropWhile_cons, hall c List.mem_cons_self]
    rfl
  have htake : (name ++ t).takeWhile isTypeNameChar = name := by
    rw [List.takeWhile_append_of_pos hall, ht, List.append_nil]
  have hdrop : (name ++ t).dropWhile isTypeNameChar = t := by
    have h := List.takeWhile_append_dropWhile (p := isTypeNameChar) (l := name ++ t)
    rw [htake] at h
    exact List.append_cancel_left h
  unfold ofType?
  simp only [hstart, htake, hdrop]
  rw [if_neg (by simpa using hne)]

theorem ofType?_of_name (hname : IsIdentifier name) (ht : t.takeWhile isTypeNameChar = []) :
    ofType? (name ++ t) = some ⟨name, opensGenericList t⟩ := ofType?_of_run hname.ne_nil hname.typeChars ht

/-- **A list is seen that starts flat**: something without angle brackets, up to the first `>`. -/
theorem opensGenericList_iff : opensGenericList t = true ↔
    ∃ inside rest, t = '<' :: (inside ++ '>' :: rest) ∧ inside ≠ [] ∧ '<' ∉ inside ∧ '>' ∉ inside := by
  let flat : Char → Bool := fun c => c != '<' && c != '>'
  constructor
  · intro h
    unfold opensGenericList at h
    split at h
    · rename_i t
      rw [Bool.and_eq_true, beq_iff_eq, Bool.not_eq_true', List.isEmpty_eq_false_iff] at h
      obtain ⟨rest, hrest⟩ := List.head?_eq_some_iff.mp h.2
      have hsplit : t.takeWhile flat ++ t.drop (t.takeWhile flat).length = t :=
        List.prefix_iff_eq_append.mp (List.takeWhile_prefix flat)
      have hflat : ∀ c ∈ t.takeWhile flat, flat c = true := fun _ hc => List.mem_takeWhile_imp hc
      refine ⟨t.takeWhile flat, rest, ?_, h.1, fun hm => ?_, fun hm => ?_⟩
      · rw [← hrest, hsplit]
      · exact absurd (hflat '<' hm) (by decide)
      · exact absurd (hflat '>' hm) (by decide)
    · cases h
  · rintro ⟨inside, rest, rfl, hne, hlt, hgt⟩
    have htake : (inside ++ '>' :: rest).takeWhile flat = inside := by
      refine Text.takeWhile_append_cons flat (fun c hc => ?_) (by decide) rest
      rw [Bool.and_eq_true, bne_iff_ne, bne_iff_ne]
      exact ⟨fun e => hlt (e ▸ hc), fun e => hgt (e ▸ hc)⟩
    show (!((inside ++ '>' :: rest).takeWhile flat).isEmpty &&
      ((inside ++ '>' :: rest).drop ((inside ++ '>' :: rest).takeWhile flat).length).head? == some '>') = true
    rw [htake, List.drop_left]
    simpa using hne

/-- What stands before the first parenthesis is the name, up to blanks. -/
theorem ofFunction?_of_run (hne : name ≠ []) (hno : '(' ∉ name) :
    ofFunction? (name ++ '(' :: t) = some ⟨Text.trim name, false⟩ := by
  have hall : ∀ c ∈ name, c ≠ '(' := fun c hc he => hno (he ▸ hc)
  have hstart : (name ++ '(' :: t).dropWhile (· == '(') = name ++ '(' :: t := by
    obtain ⟨c, rest, rfl⟩ := List.exists_cons_of_ne_nil hne
    rw [List.cons_append, List.dropWhile_cons, beq_eq_false_iff_ne.mpr (hall c List.mem_cons_self)]
    rfl
  have htake : (name ++ '(' :: t).takeWhile (· != '(') = name :=
    Text.takeWhile_append_cons (· != '(') (fun c hc => bne_iff_ne.mpr (hall c hc)) rfl t
  unfold ofFunction?
  simp only [hstart, htake]
  rw [if_neg (by simp)]

theorem ofFunction?_of_notMem (hno : '(' ∉ t) : ofFunction? t = none := by
  have hall : ∀ c ∈ t, c ≠ '(' := fun c hc he => hno (he ▸ hc)
  have hstart : t.dropWhile (· == '(') = t := by
    cases t with
    | nil => rfl
    | cons c t =>
      rw [List.dropWhile_cons, beq_eq_false_iff_ne.mpr (hall c List.mem_cons_self)]
      rfl
  have htake : t.takeWhile (· != '(') = t :=
    List.takeWhile_eq_self_iff.mpr fun c hc => bne_iff_ne.mpr (hall c hc)
  unfold ofFunction?
  simp only [hstart, htake]
  rw [if_pos trivial]

theorem ofFunction?_of_name (hname : IsIdentifier name) : ofFunction? (name ++ '(' :: t) = some ⟨name, false⟩ := by
  have hno : '(' ∉ name := fun h => ne_of_isNameChar (hname.chars _ h) (by decide) rfl
  rw [ofFunction?_of_run hname.ne_nil hno, Text.trim_of_no_blank fun c hc => isBlank_of_isNameChar (hname.chars c hc)]

/-- Neither the colon behind the name of a value nor a blank. -/
def isValueNameChar (c : Char) : Bool := c != ':' && !isBlank c

theorem isValueNameChar_of_isNameChar {c : Char} (h : isNameChar c = true) : isValueNameChar c = true := by
  unfold isValueNameChar
  rw [isBlank_of_isNameChar h, bne_iff_ne.mpr (ne_of_isNameChar h (by decide))]
  rfl

/-- What stands before the colon is the name. -/
theorem ofValue?_of_run (hne : name ≠ []) (hall : ∀ c ∈ name, isValueNameChar c = true) :
    ofValue? (name ++ ':' :: t) = some ⟨name, false⟩ := by
  have htake : (name ++ ':' :: t).takeWhile (fun c => c != ':' && !isBlank c) = name :=
    Text.takeWhile_append_cons isValueNameChar hall (by decide) t
  unfold ofValue?
  simp only [htake, List.drop_left]
  rw [if_neg (by simpa using hne)]

/-- Without a colon right behind it there is no name. -/
theorem ofValue?_of_no_colon (hall : ∀ c ∈ name, isValueNameChar c = true)
    (ht : t.takeWhile isValueNameChar = []) (hcolon : t.head? ≠ some ':') : ofValue? (name ++ t) = none := by
  have htake : (name ++ t).takeWhile (fun c => c != ':' && !isBlank c) = name := by
    show (name ++ t).takeWhile isValueNameChar = name
    rw [List.takeWhile_append_of_pos hall, ht, List.append_nil]
  unfold ofValue?
  simp only [htake, List.drop_left]
  rw [if_pos (by simpa using Or.inr hcolon)]

theorem ofValue?_of_name (hname : IsIdentifier name) : ofValue? (name ++ ':' :: t) = some ⟨name, false⟩ :=
  ofValue?_of_run hname.ne_nil fun c hc => isValueNameChar_of_isNameChar (hname.chars c hc)

theorem ofValue?_of_bare_name (hname : IsIdentifier name) : ofValue? name = none := by
  have hnone := ofValue?_of_no_colon (t := []) (fun c hc => isValueNameChar_of_isNameChar (hname.chars c hc)) rfl
    (Option.some_ne_none ':').symm
  rwa [List.append_nil] at hnone

end ShortName

/-- The kinds that a rule serves. -/
def SignatureRule.kinds : SignatureRule → List Kind
  | .clause => [.interfaceType, .classType]
  | .statement => [.constValue, .varValue]
  | .call => [.function]
  | .body => [.enumType]

theorem Opening.kind_mem_kinds : ∀ o ∈ table, o.kind ∈ o.rule.kinds := by decide

/-- What a rule for short names finds is the short name, if it is not empty. -/
theorem shortNameOf_of_filter {kind : Kind} {signature : Text} {n : ShortName} (hn : n.text ≠ [])
    (h : ShortName.ofKind? kind signature = (some n).filter fun name => !name.text.isEmpty) :
    shortNameOf kind signature = n := by
  have hsome : (some n).filter (fun name => !name.text.isEmpty) = some n := by
    rw [Option.filter_some, List.isEmpty_eq_false_iff.mpr hn]
    rfl
  unfold shortNameOf
  rw [h, hsome]
  rfl

/-- Without a rule that finds a name, the signature is the short name. -/
theorem shortNameOf_of_none {kind : Kind} {signature : Text} (h : ShortName.ofKind? kind signature = none) :
    shortNameOf kind signature = ⟨Text.trim signature, false⟩ := by
  unfold shortNameOf
  rw [h]
  rfl

namespace ShortName

variable {kind : Kind} {signature : Text}

theorem ofKind?_of_clause (h : kind ∈ SignatureRule.clause.kinds) :
    ofKind? kind signature = (ofType? signature).filter fun name => !name.text.isEmpty := by
  rcases List.mem_cons.mp h with rfl | h
  · rfl
  · cases List.mem_singleton.mp h
    rfl

theorem ofKind?_of_statement (h : kind ∈ SignatureRule.statement.kinds) :
    ofKind? kind signature = (ofValue? signature).filter fun name => !name.text.isEmpty := by
  rcases List.mem_cons.mp h with rfl | h
  · rfl
  · cases List.mem_singleton.mp h
    rfl

theorem ofKind?_of_call (h : kind ∈ SignatureRule.call.kinds) :
    ofKind? kind signature = (ofFunction? signature).filter fun name => !name.text.isEmpty := by
  cases List.mem_singleton.mp h
  rfl

theorem ofKind?_of_body (h : kind ∈ SignatureRule.body.kinds) : ofKind? kind signature = none := by
  cases List.mem_singleton.mp h
  rfl

end ShortName

/-! ## 3. What is found -/

section Found

variable {kind : Kind} {signature : Text}

namespace ShortName

/-- **What a rule gives as a name** is trimmed, and a part of the signature. -/
structure IsPart (name : Text) (signature : Text) : Prop where
  trimmed : Text.trim name = name
  part : name <:+: signature

theorem isPart_ofType? {name : ShortName} (h : ofType? signature = some name) : IsPart name.text signature := by
  unfold ofType? at h
  dsimp only at h
  split at h
  · cases h
  · cases h
    refine ⟨Text.trim_of_no_blank fun c hc => ?_, ?_⟩
    · exact (isTypeNameChar_iff.mp (List.mem_takeWhile_imp hc)).2.2
    · exact (List.takeWhile_prefix _).isInfix.trans (List.dropWhile_suffix _).isInfix

theorem isPart_ofFunction? {name : ShortName} (h : ofFunction? signature = some name) :
    IsPart name.text signature := by
  unfold ofFunction? at h
  dsimp only at h
  split at h
  · cases h
  · cases h
    refine ⟨Text.trim_trim _, (Text.infix_trim _).trans ?_⟩
    exact (List.takeWhile_prefix _).isInfix.trans (List.dropWhile_suffix _).isInfix

theorem isPart_ofValue? {name : ShortName} (h : ofValue? signature = some name) : IsPart name.text signature := by
  unfold ofValue? at h
  dsimp only at h
  split at h
  · cases h
  · cases h
    refine ⟨Text.trim_of_no_blank fun c hc => ?_, (List.takeWhile_prefix _).isInfix⟩
    have hchar := List.mem_takeWhile_imp hc
    rw [Bool.and_eq_true, Bool.not_eq_true'] at hchar
    exact hchar.2

/-- The rule of the kind gives no empty name. -/
theorem ofKind?_found {name : ShortName} (h : ofKind? kind signature = some name) :
    name.text ≠ [] ∧ IsPart name.text signature := by
  unfold ofKind? at h
  obtain ⟨hrule, hne⟩ := Option.filter_eq_some_iff.mp h
  refine ⟨by simpa using hne, ?_⟩
  cases kind with
  | classType | interfaceType => exact isPart_ofType? hrule
  | function => exact isPart_ofFunction? hrule
  | constValue | varValue => exact isPart_ofValue? hrule
  | enumType | reExport => cases hrule

end ShortName

theorem isPart_shortNameOf (kind : Kind) (signature : Text) :
    ShortName.IsPart (shortNameOf kind signature).text signature := by
  unfold shortNameOf
  cases h : ShortName.ofKind? kind signature with
  | none => exact ⟨Text.trim_trim signature, Text.infix_trim signature⟩
  | some name => exact (ShortName.ofKind?_found h).2

/-- **Only a blank signature has an empty short name.** -/
theorem shortNameOf_eq_nil_iff : (shortNameOf kind signature).text = [] ↔ Text.allBlank signature = true := by
  rw [Text.allBlank_iff]
  constructor
  · intro hempty c hc
    unfold shortNameOf at hempty
    cases h : ShortName.ofKind? kind signature with
    | none =>
      rw [h] at hempty
      have htrim : Text.trim signature = [] := hempty
      by_contra hblank
      have hmem := Text.mem_trim hc (Bool.eq_false_iff.mpr hblank)
      rw [htrim] at hmem
      exact List.not_mem_nil hmem
    | some name =>
      rw [h] at hempty
      exact absurd hempty (ShortName.ofKind?_found h).1
  · intro hall
    obtain ⟨htrim, hpart⟩ := isPart_shortNameOf kind signature
    rw [← htrim]
    exact Text.trim_of_all_blank fun c hc => hall c (hpart.subset hc)

end Found

end Ambient
