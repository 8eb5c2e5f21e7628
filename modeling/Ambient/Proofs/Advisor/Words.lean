import Ambient.Proofs.Advisor.Fixes
import Ambient.Proofs.Document.Words

/-!
# The advisor and whole words

Completions are offered for a whole word, fixes for the name that a range covers. Two classes of characters say
where the one and the other end.

* `completionsAt_touches`: the completions at a cursor are those of the whole word it touches, from every place
  in the word, and none behind a dot;
* `nameIn?_covers`: what a fix is offered for;
* `fix_whole_iff`: a name of name characters for which a fix is offered is a whole word if and only if neither a
  dollar sign nor a letter or number outside ASCII touches it.
-/

namespace Ambient

/-! ## 1. Characters that continue a name for completions alone -/

/-- A dollar sign, or a letter or number outside ASCII. -/
def IsForeign (c : Char) : Prop := c = '$' ∨ 128 ≤ c.toNat ∧ isNameChar c = true

/-- In ASCII both classes have the letters and digits and the underscore. -/
theorem continuesName_of_ascii : ∀ n < 128, isNameChar (Char.ofNat n) = true → Char.ofNat n ≠ '$' →
    continuesName (Char.ofNat n) = true := by
  decide +kernel

/-- No ASCII character but a dollar sign is told apart, and outside ASCII every name character is. -/
theorem isForeign_iff {c : Char} (h : continuesName c = false) : IsForeign c ↔ isNameChar c = true := by
  constructor
  · rintro (rfl | ⟨-, hname⟩)
    · decide +kernel
    · exact hname
  · intro hname
    by_cases hdollar : c = '$'
    · exact .inl hdollar
    · refine .inr ⟨?_, hname⟩
      by_contra hascii
      have hcontinues := continuesName_of_ascii c.toNat (by omega)
      rw [Char.ofNat_toNat] at hcontinues
      rw [hcontinues hname hdollar] at h
      cases h

namespace Advisor

variable {a : Advisor} {document line before word after name : Text}

/-! ## 2. Completions -/

/-- **The completions at a cursor do not depend on where in the word it stands**, and are those of the whole word,
    or none if a dot stands before it. -/
theorem completionsAt_touches {n p q : UInt32} (hline : Document.line? document n = some line) (hpq : p ≤ q)
    (hbetween : ∀ c ∈ (line.take q.toNat).drop p.toNat, isNameChar c = true) :
    a.completionsAt document ⟨n, p⟩ = a.completionsAt document ⟨n, q⟩ ∧
    (∃ before word after, Document.Touches line p.toNat before word after) ∧
    ∀ before word after, Document.Touches line p.toNat before word after →
      Document.Touches line q.toNat before word after ∧
      a.completionsAt document ⟨n, p⟩ =
        if before.getLast? = some '.' then [] else a.completions word (some document) := by
  have hat : ∀ {r : UInt32} {before word after : Text}, Document.Touches line r.toNat before word after →
      a.completionsAt document ⟨n, r⟩ =
        if before.getLast? = some '.' then [] else a.completions word (some document) := by
    intro r before word after h
    unfold completionsAt
    rw [hline, Option.bind_some, Document.wordAt?_touches h]
    by_cases hdot : before.getLast? = some '.'
    · rw [if_pos hdot, if_pos hdot]
    · rw [if_neg hdot, if_neg hdot]
  obtain ⟨before, word, after, h⟩ := Document.exists_touches line p.toNat
  refine ⟨?_, ⟨before, word, after, h⟩, fun b w x hb => ⟨hb.moved hpq hbetween, hat hb⟩⟩
  rw [hat h, hat (h.moved hpq hbetween)]

/-- A document with a name outside ASCII, and a word at the end of a line that a carriage return closes. -/
def typingDocument : Text := "import A = CG.A;\nlet é: Wid\r\n".toList

theorem completionsAt_touches_pastEnd :
    Document.line? typingDocument 1 = some "let é: Wid".toList ∧ (8 : UInt32) ≤ 4000000000 ∧
    (∀ c ∈ ("let é: Wid".toList.take (4000000000 : UInt32).toNat).drop (8 : UInt32).toNat, isNameChar c = true) ∧
    widgetAdvisor.completionsAt typingDocument ⟨1, 8⟩ = widgetAdvisor.completionsAt typingDocument ⟨1, 4000000000⟩ ∧
    Document.Touches "let é: Wid".toList (4000000000 : UInt32).toNat "let é: ".toList "Wid".toList [] ∧
    widgetAdvisor.completionsAt typingDocument ⟨1, 8⟩ =
      widgetAdvisor.completions "Wid".toList (some typingDocument) := by
  have hline : Document.line? typingDocument 1 = some "let é: Wid".toList := by decide +kernel
  have hle : (8 : UInt32) ≤ 4000000000 := by decide
  have hbetween : ∀ c ∈ ("let é: Wid".toList.take (4000000000 : UInt32).toNat).drop (8 : UInt32).toNat,
      isNameChar c = true :=
    List.all_eq_true.mp (by decide +kernel)
  have hnames : "Wid".toList.all isNameChar = true := by decide +kernel
  have hwhole : Document.IsWhole "let é: ".toList "Wid".toList [] := by
    refine ⟨List.all_eq_true.mp hnames, fun c hc => ?_, fun c hc => nomatch hc⟩
    obtain rfl : ' ' = c := Option.some.inj hc
    decide +kernel
  have htouches : Document.Touches "let é: Wid".toList (8 : UInt32).toNat "let é: ".toList "Wid".toList [] :=
    ⟨hwhole, by decide, by decide, by decide⟩
  obtain ⟨hsame, -, hword⟩ := completionsAt_touches (a := widgetAdvisor) hline hle hbetween
  obtain ⟨hmoved, hcompletions⟩ := hword _ _ _ htouches
  exact ⟨hline, hle, hbetween, hsame, hmoved, hcompletions⟩

/-! ## 3. Fixes -/

/-- **What a fix is offered for**: a text on a line, not empty, that neither an ASCII letter or digit nor a dot or
    underscore touches. -/
theorem nameIn?_covers {range : Range} (h : nameIn? document range = some name) : ∃ before after,
    Document.Covers document range before name after ∧ name ≠ [] ∧
    (∀ c ∈ before.getLast?, continuesName c = false) ∧ ∀ c ∈ after.head?, continuesName c = false := by
  unfold nameIn? at h
  split at h
  · cases h
  · rename_i hrange
    rw [Bool.or_eq_true, not_or, Bool.not_eq_true', Bool.not_eq_false] at hrange
    obtain ⟨hsingle, hempty⟩ := hrange
    have hlt : range.start.character.toNat < range.stop.character.toNat := by
      unfold Range.isEmpty Range.length at hempty
      rw [hsingle, if_pos rfl, beq_iff_eq] at hempty
      omega
    obtain ⟨line, hline, hbetween⟩ := Option.bind_eq_some_iff.mp h
    obtain ⟨before, after, rfl, hstart, hstop, hbefore, hafter⟩ := Document.nameBetween?_of_some hlt.le hbetween
    refine ⟨before, after, ⟨hline, hstart, hstop⟩, ?_, hbefore, hafter⟩
    rintro rfl
    rw [List.length_nil] at hstop
    omega

/-- **A fix is offered for a whole word** if and only if neither a dollar sign nor a letter or number outside ASCII
    touches the name. -/
theorem fix_whole_iff {range : Range} {diagnostics : List Diagnostic} {fix : Fix}
    (h : a.fix? document range diagnostics = some fix) : ∃ before name after,
    Document.Covers document range before name after ∧ name ≠ [] ∧
    ((∀ c ∈ name, isNameChar c = true) →
      (Document.IsWhole before name after ∧ before.getLast? ≠ some '.' ↔
        (∀ c ∈ before.getLast?, ¬IsForeign c) ∧ ∀ c ∈ after.head?, ¬IsForeign c)) := by
  obtain ⟨name, -, hname, -⟩ := fix?_eq_some h
  obtain ⟨before, after, hcovers, hne, hbefore, hafter⟩ := nameIn?_covers hname
  refine ⟨before, name, after, hcovers, hne, fun hnames => ?_⟩
  have hdot : before.getLast? ≠ some '.' := by
    intro hlast
    have := hbefore '.' hlast
    cases this
  constructor
  · rintro ⟨hwhole, -⟩
    refine ⟨fun c hc => ?_, fun c hc => ?_⟩
    · rw [isForeign_iff (hbefore c hc), hwhole.starts c hc]
      exact Bool.false_ne_true
    · rw [isForeign_iff (hafter c hc), hwhole.ends c hc]
      exact Bool.false_ne_true
  · rintro ⟨hstarts, hends⟩
    refine ⟨⟨hnames, fun c hc => ?_, fun c hc => ?_⟩, hdot⟩
    · exact Bool.eq_false_iff.mpr fun hc' => hstarts c hc ((isForeign_iff (hbefore c hc)).mpr hc')
    · exact Bool.eq_false_iff.mpr fun hc' => hends c hc ((isForeign_iff (hafter c hc)).mpr hc')

/-- The diagnostic that `Widget` is not resolved, from the given character on. -/
def unresolvedWidget (start : UInt32) : Diagnostic := ⟨.onLine 0 start (start + 6), 2304, "ts".toList⟩

/-- The fix for it in a document without imports. -/
def firstFix (start : UInt32) : Fix :=
  ⟨"Auto Import".toList, ⟨⟨0, 0⟩, "import Widget = CG.Widget;\n\n".toList⟩, true, unresolvedWidget start⟩

/-- Marks outside ASCII touch the name, but they are no letters. -/
theorem fix_whole_quoted :
    widgetAdvisor.fix? "let w = «Widget»;".toList (.onLine 0 9 15) [unresolvedWidget 9] = some (firstFix 9) ∧
    ∃ before name after, Document.Covers "let w = «Widget»;".toList (.onLine 0 9 15) before name after ∧ name ≠ [] ∧
      ((∀ c ∈ name, isNameChar c = true) →
        (Document.IsWhole before name after ∧ before.getLast? ≠ some '.' ↔
          (∀ c ∈ before.getLast?, ¬IsForeign c) ∧ ∀ c ∈ after.head?, ¬IsForeign c)) := by
  have hfix : widgetAdvisor.fix? "let w = «Widget»;".toList (.onLine 0 9 15) [unresolvedWidget 9] =
      some (firstFix 9) := by
    decide +kernel
  exact ⟨hfix, fix_whole_iff hfix⟩

/-- **A fix is offered for a part of a name that starts with a dollar sign.** -/
theorem not_whole_dollar :
    widgetAdvisor.fix? "let w = $Widget;".toList (.onLine 0 9 15) [unresolvedWidget 9] = some (firstFix 9) ∧
    Document.Covers "let w = $Widget;".toList (.onLine 0 9 15) "let w = $".toList "Widget".toList [';'] ∧
    (∀ c ∈ "Widget".toList, isNameChar c = true) ∧
    ¬Document.IsWhole "let w = $".toList "Widget".toList [';'] := by
  have hnames : "Widget".toList.all isNameChar = true := by decide +kernel
  refine ⟨by decide +kernel, ⟨by decide +kernel, by decide, by decide⟩, List.all_eq_true.mp hnames, fun h => ?_⟩
  have hdollar := h.starts '$' (by decide)
  revert hdollar
  decide +kernel

end Advisor
end Ambient
