import Ambient.Proofs.Scanner.Opening
import Ambient.Proofs.Scanner.OpeningOrder

/-!
# Declarations and the rows that open them

A line opens its declaration by a row of `Opening.table` if it is an indent, the keyword of the row and more,
and no row before that one opens it (`OpensBy`).

* `Declaration.Grows.settles`: a signature is read off the first line, or off all lines of a function;
* `OpensBy.declaration`: so the declaration is of the kind of the row, and its signature is what the rule of the
  row finds on the line, unless the rule leaves it incomplete and later lines complete it.
-/

namespace Ambient

/-- **The signature is that of the draft, or has been read off the lines.** -/
theorem Declaration.Grows.settles {draft : Draft} {line comment : Text} {d : Declaration}
    (h : ((draft.push line).finish comment).Grows d) :
    d.signature = draft.signature ∧ d.complete = draft.complete ∨ draft.complete = false ∧ d.Joined := by
  cases hc : draft.complete with
  | false =>
    have hgrows := (grows_push hc line comment).trans h
    exact hgrows.signature.imp (fun hd => ⟨hd.1, hd.2.trans hc⟩) fun hd => ⟨rfl, hd.2⟩
  | true =>
    rw [Draft.push_of_settled (.inr hc)] at h
    rw [h.whole hc]
    exact .inl ⟨rfl, hc⟩

namespace Scanner

/-- **Line `n` opens the `i`th declaration by the row `o`**, with the text `t` behind the keyword. -/
structure OpensBy (lines : List Text) (n i : Nat) (o : Opening) (indent t : Text) : Prop where
  row : o ∈ Opening.table
  blank : ∀ c ∈ indent, isBlank c = true
  opening : ∃ line, lines[n]? = some line ∧
    (fresh.feedAll (lines.take n)).opening? line = some (indent ++ (o.keyword ++ t))
  earlier : ∀ o' ∈ o.earlier, o'.open? [] (indent ++ (o.keyword ++ t)) = none
  count : (scan (lines.take n)).length = i

namespace OpensBy

variable {lines : List Text} {n i : Nat} {o : Opening} {indent t : Text}

theorem opens (h : OpensBy lines n i o indent t) : Opens lines n i where
  opening := by
    obtain ⟨line, hline, htext⟩ := h.opening
    exact ⟨line, hline, by rw [htext]; rfl⟩
  count := h.count

/-- The draft of the line. -/
theorem first? (h : OpensBy lines n i o indent t) (hhead : Text.trim (o.rule.split t).1 ≠ []) (path : Text) :
    Opening.first? path (indent ++ (o.keyword ++ t)) =
      some (.start path o.kind (Text.trim (o.rule.split t).1) (indent ++ o.closer) (o.rule.split t).2) := by
  refine Opening.first?_of_earlier h.row (fun o' ho' => ?_) (Opening.open?_keyword h.row h.blank rfl hhead path)
  rw [← Option.not_isSome_iff_eq_none, Opening.open?_isSome, h.earlier o' ho']
  exact Bool.false_ne_true

/-- **What a line opens by a row**, whatever lines follow. -/
theorem declaration (h : OpensBy lines n i o indent t) (hhead : Text.trim (o.rule.split t).1 ≠ []) :
    ∃ d, (scan lines)[i]? = some d ∧ d.kind = o.kind ∧
      Draft.sourceLine (indent ++ (o.keyword ++ t)) <+: d.source ∧
      (d.signature = Text.trim (o.rule.split t).1 ∧ d.complete = (o.rule.split t).2 ∨
        (o.rule.split t).2 = false ∧ d.Joined) := by
  obtain ⟨line, text, draft, comment, d, hline, htext, hd, hopen, hgrows⟩ := h.opens.grows
  obtain ⟨line', hline', htext'⟩ := h.opening
  obtain rfl := Option.some.inj (hline.symm.trans hline')
  obtain rfl := Option.some.inj (htext.symm.trans htext')
  obtain rfl := Option.some.inj (hopen.symm.trans (h.first? hhead d.path))
  refine ⟨d, hd, hgrows.kind.trans (Draft.push_kind _ _), ?_, hgrows.settles⟩
  have hsource := hgrows.source
  rwa [show (Draft.finish _ comment).source = _ from Draft.push_source _ _] at hsource

end OpensBy

end Scanner
end Ambient
