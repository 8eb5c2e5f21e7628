import Ambient.Proofs.Content.Block
import Ambient.Proofs.ReExport.Entries
import Ambient.Proofs.ReExport.Heads
import Ambient.Proofs.Scanner.Heading
import Ambient.Proofs.Text.Solid

/-!
# Declarations without a name

A declaration is NAMED if its signature and its short name hold something, and the short name is trimmed and on one
line. No row of the table opens a declaration with a blank signature (`Opening.isLegible`), and only a blank
signature has an empty short name.

The signature of a function can still be LOST: where a line completes it, it is read off the lines anew, from behind
the FIRST `function ` to the LAST semicolon. If the line has a `function ` before the keyword, and behind that stands
the only semicolon at once, nothing is left in between (`solid_joinedSignature_eq_nil_iff`). A function over several
lines is safe: the line that completes it has a semicolon of its own (`FunctionLine.not_loses_of_more`).

* `Declaration.IsLost`: a function on one line for which that is so;
* `Declaration.named_iff`: all other declarations of a file are named, and these are not.
-/

namespace Ambient

/-! ## 1. Names -/

/-- **Nothing is missing of the names of a declaration.** -/
structure Declaration.IsNamed (d : Declaration) : Prop where
  signature : d.signature ≠ []
  shortName : d.shortName ≠ []
  head : ∀ c ∈ d.shortName.head?, isBlank c = false
  last : ∀ c ∈ d.shortName.getLast?, isBlank c = false
  feed : '\n' ∉ d.shortName

/-- A signature that holds something, on one line. -/
structure IsLegible (signature : Text) : Prop where
  solid : Text.solid signature ≠ []
  feed : '\n' ∉ signature

theorem IsLegible.isNamed {d : Declaration} (h : IsLegible d.signature) : d.IsNamed := by
  obtain ⟨htrim, hpart⟩ := isPart_shortNameOf d.kind d.signature
  refine ⟨?_, fun he => h.solid (Text.allBlank_iff_solid.mp (shortNameOf_eq_nil_iff.mp he)), fun c hc => ?_,
    fun c hc => ?_, fun hmem => h.feed (hpart.subset hmem)⟩
  · intro he
    refine h.solid ?_
    rw [he]
    rfl
  · exact Text.not_isBlank_of_head?_trim ((congrArg List.head? htrim).trans hc)
  · exact Text.not_isBlank_of_getLast?_trim ((congrArg List.getLast? htrim).trans hc)

/-! ## 2. Signatures read off the lines -/

namespace Draft

variable {source : Text}

/-- The text from which the signature of a function is read off its lines. -/
def behindKeyword (source : Text) : Text :=
  ((Text.cut? "function ".toList (source.filter isFlat)).map Prod.snd).getD (source.filter isFlat)

/-- Does nothing stand between the first keyword and the last semicolon, as this is the only one and stands at
    once? -/
def losesSignature (source : Text) : Bool :=
  (Text.trimStart (behindKeyword source)).head? == some ';' && (behindKeyword source).count ';' == 1

theorem losesSignature_iff : losesSignature source = true ↔
    (Text.solid (behindKeyword source)).head? = some ';' ∧ (Text.solid (behindKeyword source)).count ';' = 1 := by
  unfold losesSignature
  rw [Bool.and_eq_true, beq_iff_eq, beq_iff_eq, Text.head?_solid, Text.count_solid (by decide)]

/-- What is read off the lines, blanks aside, is what stands before the last semicolon. -/
theorem solid_joinedSignature (source : Text) : Text.solid (joinedSignature source) =
    (Text.beforeLast? ';' (Text.solid (behindKeyword source))).getD (Text.solid (behindKeyword source)) := by
  have hsolid : Text.solid (Text.tighten (Text.squeeze (behindKeyword source))) =
      Text.solid (behindKeyword source) := by
    rw [Text.solid_tighten, Text.solid_squeeze]
  show Text.solid (((Text.beforeLast? ';' (Text.tighten (Text.squeeze (behindKeyword source)))).map
    Text.trimEnd).getD (Text.tighten (Text.squeeze (behindKeyword source)))) = _
  rw [← hsolid, Text.beforeLast?_solid (by decide)]
  cases Text.beforeLast? ';' (Text.tighten (Text.squeeze (behindKeyword source))) with
  | none => rfl
  | some before => exact Text.solid_trimEnd before

/-- **Nothing is read off the lines exactly where the only semicolon stands at once.** -/
theorem solid_joinedSignature_eq_nil_iff (h : Text.solid (behindKeyword source) ≠ []) :
    Text.solid (joinedSignature source) = [] ↔ losesSignature source = true := by
  rw [solid_joinedSignature, Text.beforeLast?_getD_eq_nil_iff h, losesSignature_iff]

theorem joinedSignature_of_loses (h : losesSignature source = true) : joinedSignature source = [] := by
  have hone := losesSignature_iff.mp h
  have hne : Text.solid (behindKeyword source) ≠ [] := by
    intro he
    rw [he] at hone
    exact absurd hone.1 (Option.some_ne_none ';').symm
  have hblank := (solid_joinedSignature_eq_nil_iff hne).mpr h
  have hlast : ∀ t : Text, Text.solid t = [] → Text.trimEnd t = [] := fun t ht =>
    Text.dropEndWhile_of_all (Text.allBlank_iff.mp (Text.allBlank_iff_solid.mpr ht))
  have hmem : ';' ∈ Text.tighten (Text.squeeze (behindKeyword source)) := by
    have hsolid : ';' ∈ Text.solid (Text.tighten (Text.squeeze (behindKeyword source))) := by
      rw [Text.solid_tighten, Text.solid_squeeze]
      exact List.count_pos_iff.mp (by omega)
    exact List.mem_of_mem_filter hsolid
  obtain ⟨before, hbefore⟩ := Option.ne_none_iff_exists'.mp fun hnone => Text.beforeLast?_eq_none_iff.mp hnone hmem
  have hjoined : joinedSignature source = Text.trimEnd before := by
    show ((Text.beforeLast? ';' (Text.tighten (Text.squeeze (behindKeyword source)))).map Text.trimEnd).getD _ = _
    rw [hbefore]
    rfl
  rw [hjoined] at hblank ⊢
  rw [Text.solid_trimEnd] at hblank
  exact hlast before hblank

theorem losesSignature_of_append {x y : Text} (h : Text.solid (behindKeyword source) = x ++ y) (hx : x ≠ [])
    (hy : ';' ∈ y) : losesSignature source = false := by
  rw [← Bool.not_eq_true, losesSignature_iff, h]
  rintro ⟨hhead, hcount⟩
  obtain ⟨c, x, rfl⟩ := List.exists_cons_of_ne_nil hx
  obtain rfl := Option.some.inj hhead
  have hpos := List.count_pos_iff.mpr hy
  rw [List.cons_append, List.count_cons_self, List.count_append] at hcount
  omega

/-- No line break is left. -/
theorem feed_notMem_joinedSignature (source : Text) : '\n' ∉ joinedSignature source := by
  have htight : '\n' ∉ Text.tighten (Text.squeeze (behindKeyword source)) := by
    intro hmem
    unfold Text.tighten Text.replaceAll at hmem
    have hsqueeze : '\n' ∈ Text.squeeze (behindKeyword source) := by
      refine (Text.mem_replaceFrom hmem).elim (fun h => ?_) fun h => absurd h (by decide)
      exact (Text.mem_replaceFrom h).elim id fun h => absurd h (by decide)
    rcases Text.mem_joinWith hsqueeze with h | ⟨w, hw, h⟩
    · exact absurd h (by decide)
    · exact absurd (Text.not_isBlank_of_mem_words hw h) (by decide)
  show '\n' ∉ ((Text.beforeLast? ';' (Text.tighten (Text.squeeze (behindKeyword source)))).map Text.trimEnd).getD _
  cases hb : Text.beforeLast? ';' (Text.tighten (Text.squeeze (behindKeyword source))) with
  | none => exact htight
  | some before =>
    intro hmem
    exact htight ((Text.prefix_of_beforeLast? hb).subset ((Text.prefix_dropEndWhile _ before).subset hmem))

theorem behindKeyword_of_cut? {before behind : Text}
    (h : Text.cut? "function ".toList (source.filter isFlat) = some (before, behind)) :
    behindKeyword source = behind := by
  unfold behindKeyword
  rw [h]
  rfl

end Draft

/-! ## 3. Openings -/

/-- **The line of a function**: behind its keyword, what holds something. -/
structure Opening.FunctionLine (line signature : Text) (complete : Bool) (b : Text) : Prop where
  line : ∃ a, line = a ++ ("function ".toList ++ b)
  complete : complete = true ↔ ';' ∈ b
  signature : Text.solid signature = (Text.solid b).takeWhile (· != ';')

section Opening

variable {path line : Text} {draft : Draft}

/-- **No row of the table opens a declaration with a blank signature.** -/
theorem Opening.isLegible (h : Opening.first? path line = some draft) (hline : '\n' ∉ line) :
    IsLegible draft.signature := by
  obtain ⟨o, -, hopen⟩ := List.exists_of_findSome?_eq_some h
  obtain ⟨before, behind, hcut, hne, rfl⟩ := Opening.open?_eq_some hopen
  have hbehind : behind <:+ line := by
    rw [Text.eq_of_cut? hcut]
    exact List.suffix_append _ _
  have hpart : Text.trim (o.rule.split behind).1 <:+: line :=
    (Text.infix_trim _).trans ((SignatureRule.prefix_split o.rule behind).isInfix.trans hbehind.isInfix)
  refine ⟨fun he => hne ?_, fun hmem => hline (hpart.subset hmem)⟩
  rw [← Text.trim_trim]
  exact Text.trim_of_all_blank (Text.allBlank_iff.mp (Text.allBlank_iff_solid.mpr he))

theorem Opening.exists_functionLine (h : Opening.first? path line = some draft) (hkind : draft.kind = .function) :
    ∃ b, FunctionLine line draft.signature draft.complete b := by
  have hrow : ∀ o ∈ table, o.kind = .function →
      o.keyword = "export declare ".toList ++ "function ".toList ∧ o.rule = .call := by decide
  obtain ⟨o, ho, hopen⟩ := List.exists_of_findSome?_eq_some h
  obtain ⟨before, behind, hcut, -, rfl⟩ := Opening.open?_eq_some hopen
  obtain ⟨hkeyword, hrule⟩ := hrow o ho hkind
  have hsemicolon : ∀ c, isBlank c = true → (c != ';') = true := by
    intro c hc
    rw [bne_iff_ne]
    rintro rfl
    exact absurd hc (by decide)
  refine ⟨behind, ⟨before ++ "export declare ".toList, ?_⟩, ?_, ?_⟩
  · rw [Text.eq_of_cut? hcut, hkeyword, List.append_assoc, List.append_assoc, List.append_assoc]
  · show (o.rule.split behind).2 = true ↔ _
    rw [hrule]
    exact List.contains_iff_mem
  · show Text.solid (Text.trim (o.rule.split behind).1) = _
    rw [Text.solid_trim, hrule]
    exact Text.solid_takeWhile hsemicolon behind

/-- Behind the first keyword of the lines stands, blanks aside, what stands behind the last one of the first line,
    and then the further lines. -/
theorem Opening.FunctionLine.behindKeyword {signature b : Text} {complete : Bool}
    (h : FunctionLine line signature complete b) (rest : List Text) :
    ∃ gap, Text.solid (Draft.behindKeyword ((line :: rest).flatMap Draft.sourceLine)) =
      gap ++ (Text.solid b ++ rest.flatMap Text.solid) := by
  have hkey : "function ".toList.filter Draft.isFlat = "function ".toList := by decide
  have hflat : ∀ t : Text, Text.solid (t.filter Draft.isFlat) = Text.solid t := by
    refine Text.solid_filter fun c hc => ?_
    unfold Draft.isFlat at hc
    simp only [Bool.and_eq_false_iff, bne_eq_false_iff_eq] at hc
    rcases hc with (rfl | rfl) | rfl <;> decide
  obtain ⟨a, ha⟩ := h.line
  obtain ⟨before, behind, hcut⟩ := Text.exists_cut? (by decide : "function ".toList ≠ []) (a.filter Draft.isFlat)
    (b.filter Draft.isFlat)
  obtain ⟨gap, hgap⟩ := Text.suffix_of_cut? (by decide) hcut
  have hfirst : Text.cut? "function ".toList (line.filter Draft.isFlat) = some (before, behind) := by
    rw [ha, List.filter_append, List.filter_append, hkey, hcut]
  refine ⟨Text.solid gap, ?_⟩
  rw [Draft.behindKeyword_of_cut? (Draft.cut?_sourceLines hfirst rest), ← hgap, Text.solid_append, Text.solid_append,
    hflat, Text.solid_flatMap, List.append_assoc]
  refine congrArg (fun t => Text.solid gap ++ (Text.solid b ++ t)) (List.flatMap_congr fun l _ => ?_)
  rw [Text.solid_append, hflat]
  rfl

/-- The signature of a function that its line completes holds something, so the line is not lost. -/
theorem Opening.FunctionLine.not_loses_of_complete {signature b : Text} (h : FunctionLine line signature true b)
    (hsignature : Text.solid signature ≠ []) : Draft.losesSignature ([line].flatMap Draft.sourceLine) = false := by
  obtain ⟨gap, hgap⟩ := h.behindKeyword []
  have hmem : ';' ∈ (Text.solid b).dropWhile (· != ';') := by
    have hsolid : ';' ∈ Text.solid b := List.mem_filter.mpr ⟨h.complete.mp rfl, by decide⟩
    have hsplit := List.takeWhile_append_dropWhile (p := (· != ';')) (l := Text.solid b)
    rw [← hsplit] at hsolid
    refine (List.mem_append.mp hsolid).resolve_left fun htake => ?_
    exact absurd (List.mem_takeWhile_imp htake) (by decide)
  refine Draft.losesSignature_of_append (x := gap ++ Text.solid signature) ?_
    (List.append_ne_nil_of_right_ne_nil gap hsignature) hmem
  rw [hgap, h.signature, List.flatMap_nil, List.append_nil, List.append_assoc, List.takeWhile_append_dropWhile]

/-- Neither is one that is completed by a further line, whose semicolon is another. -/
theorem Opening.FunctionLine.not_loses_of_more {signature b : Text} {complete : Bool} {rest : List Text}
    (h : FunctionLine line signature complete b) (hsignature : Text.solid signature ≠ [])
    (hrest : ∃ l ∈ rest, ';' ∈ l) : Draft.losesSignature ((line :: rest).flatMap Draft.sourceLine) = false := by
  obtain ⟨gap, hgap⟩ := h.behindKeyword rest
  obtain ⟨l, hl, hmem⟩ := hrest
  have hb : Text.solid b ≠ [] := by
    intro he
    rw [h.signature, he] at hsignature
    exact hsignature rfl
  have hsolid : ';' ∈ Text.solid l := List.mem_filter.mpr ⟨hmem, by decide⟩
  refine Draft.losesSignature_of_append (x := gap ++ Text.solid b) ?_ (List.append_ne_nil_of_right_ne_nil gap hb)
    (List.mem_flatMap.mpr ⟨l, hl, hsolid⟩)
  rw [hgap, List.append_assoc]

end Opening

/-! ## 4. Drafts -/

/-- **A function on one line that holds, behind its first keyword, one semicolon and nothing before it.** -/
structure Declaration.IsLost (d : Declaration) : Prop where
  kind : d.kind = .function
  oneLine : Text.lineFeeds d.source = 1
  balanced : d.source.count '(' = d.source.count ')'
  loses : Draft.losesSignature d.source = true

instance (d : Declaration) : Decidable d.IsLost :=
  decidable_of_iff (d.kind = .function ∧ Text.lineFeeds d.source = 1 ∧ d.source.count '(' = d.source.count ')' ∧
      Draft.losesSignature d.source = true)
    ⟨fun h => ⟨h.1, h.2.1, h.2.2.1, h.2.2.2⟩, fun h => ⟨h.kind, h.oneLine, h.balanced, h.loses⟩⟩

namespace Draft

variable {path line comment : Text} {own : List Text} {draft : Draft}

theorem lineFeeds_sourceLines (hown : ∀ line ∈ own, '\n' ∉ line) :
    Text.lineFeeds (own.flatMap sourceLine) = own.length := by
  have hmargin : ∀ l ∈ own.map Text.indent, '\n' ∉ l :=
    List.forall_mem_map.mpr fun line hline => Text.feed_notMem_indent (hown line hline)
  have hcount := Text.lineFeeds_flatMap_feed hmargin List.not_mem_nil
  rw [List.flatMap_map, List.append_nil, List.length_map] at hcount
  exact hcount

/-- A line that leaves the draft open leaves its signature. -/
theorem push_signature (hc : (draft.push line).complete = false) : (draft.push line).signature = draft.signature := by
  unfold push at hc ⊢
  dsimp only at hc ⊢
  split at hc
  · cases hc
  · rename_i hno
    rw [if_neg hno]

theorem complete_of_push (hc : (draft.push line).complete = false) : draft.complete = false := by
  by_contra hcomplete
  rw [push_of_settled (.inr (Bool.not_eq_false _ ▸ hcomplete))] at hc
  exact hcomplete hc

/-- A line completes a function, or it is one line more and nothing else. -/
theorem push_cases (draft : Draft) (line : Text) :
    draft.push line = draft.withSource (draft.source ++ sourceLine line) ∨
    draft.kind = .function ∧ completes line (draft.source ++ sourceLine line) = true ∧
      (draft.push line).signature = joinedSignature (draft.source ++ sourceLine line) := by
  by_cases hsettled : draft.kind ≠ .function ∨ draft.complete = true
  · exact .inl (push_of_settled hsettled line)
  · obtain ⟨hkind, hinc⟩ := not_or.mp hsettled
    rw [not_not] at hkind
    rw [Bool.not_eq_true] at hinc
    cases hcompletes : completes line (draft.source ++ sourceLine line) with
    | false => exact .inl (push_of_not_completes hcompletes)
    | true => exact .inr ⟨hkind, rfl, by rw [push_of_completes hkind hinc hcompletes]⟩

/-- **An open draft has the signature with which it was opened.** -/
theorem Open.isLegible (h : draft.Open own) (hown : ∀ line ∈ own, '\n' ∉ line) : IsLegible draft.signature := by
  induction h with
  | start hopen hc =>
    rw [push_signature hc]
    exact Opening.isLegible hopen (hown _ List.mem_cons_self)
  | grow _ _ _ hc ih =>
    rw [push_signature hc]
    exact ih fun line hline => hown line (List.mem_append_left _ hline)

/-- An open function starts with its line, which has no semicolon behind the keyword. -/
theorem Open.exists_functionLine (h : draft.Open own) (hkind : draft.kind = .function) :
    ∃ line rest b, own = line :: rest ∧ Opening.FunctionLine line draft.signature false b := by
  induction h with
  | @start path line draft hopen hc =>
    rw [push_kind] at hkind
    obtain ⟨b, hb⟩ := Opening.exists_functionLine hopen hkind
    rw [complete_of_push hc] at hb
    exact ⟨line, [], b, rfl, by rw [push_signature hc]; exact hb⟩
  | grow _ _ _ hc ih =>
    rw [push_kind] at hkind
    obtain ⟨line, rest, b, rfl, hb⟩ := ih hkind
    exact ⟨line, _, b, rfl, by rw [push_signature hc]; exact hb⟩

/-- Where something stands behind the keyword, a signature that is read off is there unless it is lost. -/
theorem isNamed_iff_of_joined {d : Declaration} (h : d.signature = joinedSignature d.source)
    (hbehind : Text.solid (behindKeyword d.source) ≠ []) : d.IsNamed ↔ losesSignature d.source = false := by
  constructor
  · intro hnamed
    rw [← Bool.not_eq_true]
    intro hloses
    exact hnamed.signature (h.trans (joinedSignature_of_loses hloses))
  · intro hkeeps
    refine IsLegible.isNamed ⟨fun hblank => ?_, h ▸ feed_notMem_joinedSignature d.source⟩
    rw [h, solid_joinedSignature_eq_nil_iff hbehind, hkeeps] at hblank
    cases hblank

theorem mem_of_mem_behindKeyword {c : Char} {source : Text} (h : c ∈ behindKeyword source) : c ∈ source := by
  refine List.mem_of_mem_filter (p := isFlat) ?_
  cases hcut : Text.cut? "function ".toList (source.filter isFlat) with
  | none =>
    unfold behindKeyword at h
    rw [hcut] at h
    exact h
  | some cut =>
    rw [behindKeyword_of_cut? hcut] at h
    rw [Text.eq_of_cut? hcut]
    exact List.mem_append_right _ h

/-- A line that is lost completes its function. -/
theorem completes_of_lost {d : Declaration} (h : d.IsLost) (hsource : d.source = sourceLine line) :
    completes line (sourceLine line) = true := by
  have hbalanced := h.balanced
  have hone := (losesSignature_iff.mp h.loses).2
  rw [Text.count_solid (by decide)] at hone
  have hmem : ';' ∈ d.source := mem_of_mem_behindKeyword (List.count_pos_iff.mp (by omega))
  rw [hsource] at hbalanced hmem
  have hline : ';' ∈ line := by
    unfold sourceLine at hmem
    rcases List.mem_append.mp hmem with hmem | hmem
    · exact (List.mem_append.mp hmem).resolve_left (by decide)
    · exact absurd hmem (by decide)
  unfold completes
  rw [hbalanced, beq_self_eq_true, Bool.and_true]
  exact List.contains_iff_mem.mpr hline

/-- **A declaration that closes on the line that opens it** is named unless it is lost. -/
theorem named_iff_of_whole (hopen : Opening.first? path line = some draft) (hc : (draft.push line).complete = true)
    (hline : '\n' ∉ line) :
    ((draft.push line).finish comment).IsNamed ↔ ¬((draft.push line).finish comment).IsLost := by
  have hlegible := Opening.isLegible hopen hline
  have hsource : draft.source ++ sourceLine line = sourceLine line := by
    rw [(Opening.first?_start hopen).2, List.nil_append]
  have hfinish : ((draft.push line).finish comment).source = sourceLine line := (push_source draft line).trans hsource
  have hkind : ((draft.push line).finish comment).kind = draft.kind := push_kind draft line
  have hlines : [line].flatMap sourceLine = sourceLine line := List.flatMap_singleton sourceLine line
  rcases push_cases draft line with hsame | ⟨hfunction, hcompletes, hjoined⟩
  · have hnamed : IsLegible ((draft.push line).finish comment).signature := by
      rw [hsame]
      exact hlegible
    refine iff_of_true hnamed.isNamed fun hlost => ?_
    obtain ⟨b, hb⟩ := Opening.exists_functionLine hopen (hkind.symm.trans hlost.kind)
    rw [hsame] at hc
    rw [show draft.complete = true from hc] at hb
    have hkeeps := hb.not_loses_of_complete hlegible.solid
    rw [hlines, ← hfinish, hlost.loses] at hkeeps
    cases hkeeps
  · rw [hsource] at hjoined hcompletes
    obtain ⟨b, hb⟩ := Opening.exists_functionLine hopen hfunction
    obtain ⟨gap, hgap⟩ := hb.behindKeyword []
    have hbehind : Text.solid (behindKeyword ((draft.push line).finish comment).source) ≠ [] := by
      have hsolid : Text.solid b ≠ [] := fun he => hlegible.solid (by rw [hb.signature, he]; rfl)
      rw [hfinish, ← hlines, hgap]
      exact List.append_ne_nil_of_right_ne_nil gap (List.append_ne_nil_of_left_ne_nil hsolid _)
    rw [isNamed_iff_of_joined (by rw [hfinish]; exact hjoined) hbehind, ← Bool.not_eq_true, not_iff_not]
    refine ⟨fun hloses => ⟨hkind.trans hfunction, ?_, ?_, hloses⟩, fun hlost => hlost.loses⟩
    · rw [hfinish, ← hlines, lineFeeds_sourceLines (List.forall_mem_singleton.mpr hline)]
      rfl
    · rw [hfinish]
      unfold completes at hcompletes
      exact beq_iff_eq.mp (Bool.and_eq_true_iff.mp hcompletes).2

/-- A declaration of several lines is never lost. -/
theorem not_isLost_of_lines {d : Declaration} (hsource : d.source = own.flatMap sourceLine)
    (hown : ∀ line ∈ own, '\n' ∉ line) (hlength : own.length ≠ 1) : ¬d.IsLost := by
  intro hlost
  have hone := hlost.oneLine
  rw [hsource, lineFeeds_sourceLines hown] at hone
  exact hlength hone

theorem Open.ne_nil (h : draft.Open own) : own ≠ [] := by
  cases h with
  | start _ _ => exact List.cons_ne_nil _ _
  | grow _ _ _ _ => exact List.concat_ne_nil _ _

/-- **A declaration that is cut off** is named. -/
theorem Open.isNamed_iff (h : draft.Open own) (hown : ∀ line ∈ own, '\n' ∉ line) :
    (draft.finish comment).IsNamed ↔ ¬(draft.finish comment).IsLost := by
  refine iff_of_true (IsLegible.isNamed (h.isLegible hown)) fun hlost => ?_
  cases h with
  | @start path line draft hopen hc =>
    have hsource : draft.source ++ sourceLine line = sourceLine line := by
      rw [(Opening.first?_start hopen).2, List.nil_append]
    have hcompletes := completes_of_lost hlost ((push_source draft line).trans hsource)
    have hkind : draft.kind = .function := (push_kind draft line).symm.trans hlost.kind
    rw [push_of_completes hkind (complete_of_push hc) (by rw [hsource]; exact hcompletes)] at hc
    cases hc
  | grow h ho hm hc =>
    refine not_isLost_of_lines (Open.source (.grow h ho hm hc)) hown ?_ hlost
    have hpos := List.length_pos_iff.mpr h.ne_nil
    rw [List.length_append, List.length_singleton]
    omega

/-- **A declaration that closes on a further line** is named. -/
theorem Open.isNamed_push (h : draft.Open own) (hown : ∀ line ∈ own, '\n' ∉ line) :
    ((draft.push line).finish comment).IsNamed := by
  have hlegible := h.isLegible hown
  rcases push_cases draft line with hsame | ⟨hfunction, hcompletes, hjoined⟩
  · have hkept : IsLegible ((draft.push line).finish comment).signature := by
      rw [hsame]
      exact hlegible
    exact hkept.isNamed
  · obtain ⟨first, rest, b, rfl, hb⟩ := h.exists_functionLine hfunction
    have hsource : ((draft.push line).finish comment).source = (first :: (rest ++ [line])).flatMap sourceLine := by
      show (draft.push line).source = _
      rw [push_source, h.source, ← List.cons_append, List.flatMap_append, List.flatMap_singleton]
    have hsemicolon : ';' ∈ line := by
      unfold completes at hcompletes
      exact List.contains_iff_mem.mp (Bool.and_eq_true_iff.mp hcompletes).1
    have hkeeps : losesSignature ((first :: (rest ++ [line])).flatMap sourceLine) = false :=
      hb.not_loses_of_more hlegible.solid ⟨line, List.mem_append_right _ List.mem_cons_self, hsemicolon⟩
    obtain ⟨gap, hgap⟩ := hb.behindKeyword (rest ++ [line])
    have hbehind : Text.solid (behindKeyword ((draft.push line).finish comment).source) ≠ [] := by
      have hsolid : Text.solid b ≠ [] := fun he => hlegible.solid (by rw [hb.signature, he]; rfl)
      rw [hsource, hgap]
      exact List.append_ne_nil_of_right_ne_nil gap (List.append_ne_nil_of_left_ne_nil hsolid _)
    refine (isNamed_iff_of_joined ?_ hbehind).mpr (by rw [hsource]; exact hkeeps)
    show (draft.push line).signature = joinedSignature (draft.push line).source
    rw [hjoined, push_source]

theorem Shut.isNamed_iff (h : draft.Shut own) (hown : ∀ line ∈ own, '\n' ∉ line) :
    (draft.finish comment).IsNamed ↔ ¬(draft.finish comment).IsLost := by
  cases h with
  | whole hopen hc => exact named_iff_of_whole hopen hc (hown _ List.mem_cons_self)
  | ends h ho he =>
    refine iff_of_true (h.isNamed_push fun line hline => hown line (List.mem_append_left _ hline)) ?_
    refine not_isLost_of_lines (Shut.source (.ends h ho he)) hown ?_
    have hpos := List.length_pos_iff.mpr h.ne_nil
    rw [List.length_append, List.length_singleton]
    omega

end Draft

/-! ## 5. Declaration files -/

/-- What a line hands to its namespace is a part of the line. -/
theorem Scanner.feed_notMem_effective {s : Scanner} {line text : Text} (hline : '\n' ∉ line)
    (he : s.effective? line = some text) : '\n' ∉ text := by
  unfold effective? at he
  split at he
  · cases he
  · cases hread : Heading.read? line with
    | some heading =>
      simp only [hread] at he
      exact feed_notMem_rest hread he hline
    | none =>
      simp only [hread] at he
      split at he
      · cases he
        exact hline
      · cases he

/-- Nothing is known of the lines but that each is one line. -/
def Scanner.lineTerms : Terms := ⟨fun _ => True, ('\n' ∉ ·), fun _ => True, fun _ => True⟩

theorem Scanner.accounted_of_lines {lines : List Text} (hlines : ∀ line ∈ lines, '\n' ∉ line) :
    ∀ d ∈ scan lines, lineTerms.Accounts d := by
  refine accounted_scan (Terms.keepsAll_of_keeps _ (fun _ => trivial) (fun line hline s => ?_) fresh)
  exact ⟨fun _ _ => trivial, fun text htext => feed_notMem_effective (hlines line hline) htext,
    fun _ _ _ _ _ => trivial, fun _ _ => trivial, fun _ _ _ _ _ => trivial⟩

namespace Declaration

theorem named_iff_of_mem_scan {lines : List Text} (hlines : ∀ line ∈ lines, '\n' ∉ line) {d : Declaration}
    (hd : d ∈ scan lines) : d.IsNamed ↔ ¬d.IsLost := by
  obtain ⟨own, comments, draft, rfl, hown⟩ := Scanner.accounted_of_lines hlines d hd
  rcases hown.shut with hshut | ⟨hopen, -⟩
  · exact hshut.isNamed_iff hown.member
  · exact hopen.isNamed_iff hown.member

end Declaration

namespace ReExport

/-- The exported name of an entry is a word. -/
theorem isLegible_exported {text : Text} {entry : Entry} (h : Entry.read? text = some entry) :
    IsLegible entry.exported := by
  obtain ⟨-, ⟨hne, hword⟩, -⟩ := read?_eq_some h
  have hblank : ∀ c ∈ entry.exported, isBlank c = false := fun c hc =>
    isBlank_of_isNamePart (by rw [hword c hc]; rfl)
  refine ⟨?_, fun hmem => absurd (hblank '\n' hmem) (by decide)⟩
  rw [Text.solid_of_no_blank hblank]
  exact hne

theorem isLegible_of_mem {g : Group} {d : Declaration} (hd : d ∈ g.declarations) : IsLegible d.signature := by
  have hentry : ∀ entry ∈ entries g.list, IsLegible entry.exported := by
    intro entry he
    obtain ⟨piece, -, hread⟩ := List.mem_filterMap.mp he
    exact isLegible_exported hread
  unfold Group.declarations at hd
  split at hd
  · cases hd
  · rename_i entry he
    rw [List.mem_singleton.mp hd]
    exact hentry entry (he ▸ List.mem_cons_self)
  · obtain ⟨n, hn, rfl⟩ := List.mem_mapIdx.mp hd
    exact hentry _ (List.getElem_mem hn)

end ReExport

namespace Declaration

/-- **A declaration of a file is named unless it is lost.** -/
theorem named_iff {t : Text} {d : Declaration} (hd : d ∈ parse t) : d.IsNamed ↔ ¬d.IsLost := by
  rcases mem_parse.mp hd with hscan | hgroup
  · exact named_iff_of_mem_scan Text.not_mem_of_mem_lines hscan
  · obtain ⟨g, -, hg⟩ := List.mem_flatMap.mp hgroup
    refine iff_of_true (IsLegible.isNamed (ReExport.isLegible_of_mem hg)) fun hlost => ?_
    have hkind := hlost.kind
    rw [(ReExport.mem_declarations hg).2] at hkind
    cases hkind

/-- A function over two lines. -/
def wrapped : Declaration where
  path := "A".toList
  kind := .function
  signature := "g(a: B): C".toList
  endMarker := "\x7d".toList
  complete := true
  source := "    export declare function g(\n        a: B): C;\n".toList
  comment := []
  ordinal := none

theorem named_wrapped : wrapped ∈ parse
    "namespace A \x7b\nexport declare function g(\n    a: B): C;\n\x7d".toList ∧ wrapped.IsNamed := by
  have hparse : parse "namespace A \x7b\nexport declare function g(\n    a: B): C;\n\x7d".toList =
      [wrapped] := by
    decide +kernel
  have hmem := List.mem_singleton_self wrapped
  rw [← hparse] at hmem
  exact ⟨hmem, (named_iff hmem).mpr (by decide +kernel)⟩

/-- A function whose line holds a keyword and a semicolon before its own. -/
def lost : Declaration where
  path := "A".toList
  kind := .function
  signature := []
  endMarker := "function ;\x7d".toList
  complete := true
  source := "    function ;export declare function g\n".toList
  comment := []
  ordinal := none

/-- **A file can declare a function without a name.** -/
theorem not_named_lost : parse "namespace A \x7b\nfunction ;export declare function g\n\x7d".toList = [lost] ∧
    ¬lost.IsNamed ∧ lost.signature = [] ∧ lost.shortName = [] :=
  ⟨by decide +kernel, fun h => h.signature rfl, rfl, rfl⟩

end Declaration
end Ambient
