import Ambient.Catalogue
import Ambient.Document.Import
import Ambient.Proofs.Scanner.Indent
import Ambient.Proofs.Scanner.OpenedBy
import Ambient.Proofs.Scanner.Wrapping
import Ambient.Proofs.Text.Solid

/-!
# Bare names

A signature starts with the name that stands behind the keyword (`SignatureRule.split_name`,
`Draft.joinedSignature_name`). Whether the short name is that name and nothing else depends on what stands behind
the name in the signature, up to the end that the rule of the row finds:

* `SignatureRule.endsName`: does the rule for short names stop right behind the name?
* `shortNameOf_name_iff`: the short name is the name if and only if it does;
* `bareName_iff`: the same for every declaration that is scanned, with what hangs on its short name.
-/

namespace Ambient

/-! ## 1. Where the name ends -/

namespace SignatureRule

/-- Does the rule for short names stop behind a name that this text follows in the signature?

    * A class or interface ends its name at a blank or an angle bracket;
    * a constant or variable at a colon that stands at once;
    * a function at a parenthesis;
    * an enum nowhere, and neither do the others without their mark. Then only blanks may follow. -/
def endsName : SignatureRule → Text → Bool
  | .clause, rest => rest.head?.all fun c => !ShortName.isTypeNameChar c
  | .statement, rest => rest.head? == some ':' || Text.allBlank rest
  | .call, rest => Text.allBlank (rest.takeWhile (· != '('))
  | .body, rest => Text.allBlank rest

section EndsName

variable {rest b : Text}

/-- For a function only the characters that are no blanks count. -/
theorem endsName_call_iff : call.endsName rest = true ↔ (Text.solid rest).takeWhile (· != '(') = [] := by
  have hblank : ∀ c, isBlank c = true → (c != '(') = true := by
    intro c hc
    rw [bne_iff_ne]
    rintro rfl
    exact absurd hc (by decide)
  show Text.allBlank (rest.takeWhile (· != '(')) = true ↔ _
  rw [Text.allBlank_iff_solid, Text.solid_takeWhile hblank]

/-- Blanks at the end do not count. -/
theorem endsName_append_blank (rule : SignatureRule) (rest : Text) (hb : ∀ c ∈ b, isBlank c = true) :
    rule.endsName (rest ++ b) = rule.endsName rest := by
  have hall : Text.allBlank b = true := Text.allBlank_iff.mpr hb
  have happend : Text.allBlank (rest ++ b) = Text.allBlank rest := by
    rw [Text.allBlank, List.all_append]
    exact (congrArg _ hall).trans (Bool.and_true _)
  cases rule with
  | clause =>
    cases rest with
    | cons c rest => rfl
    | nil =>
      cases b with
      | nil => rfl
      | cons c b =>
        show (!ShortName.isTypeNameChar c) = true
        rw [Bool.not_eq_true', ← Bool.not_eq_true, ShortName.isTypeNameChar_iff, hb c List.mem_cons_self]
        exact fun h => Bool.false_ne_true h.2.2.symm
  | statement =>
    show ((rest ++ b).head? == some ':' || Text.allBlank (rest ++ b)) = (rest.head? == some ':' || Text.allBlank rest)
    rw [happend]
    cases rest with
    | cons c rest => rfl
    | nil => exact Bool.or_true _
  | call =>
    rw [Bool.eq_iff_iff, endsName_call_iff, endsName_call_iff, Text.solid_append, Text.solid_of_all_blank hb,
      List.append_nil]
  | body => exact happend

theorem endsName_trimEnd (rule : SignatureRule) (rest : Text) :
    rule.endsName (Text.trimEnd rest) = rule.endsName rest := by
  obtain ⟨b, hsplit, hb⟩ := Text.exists_dropEndWhile_append isBlank rest
  conv_rhs => rw [← hsplit, endsName_append_blank rule _ hb]
  rfl

end EndsName

/-- **The signature starts with the name.** -/
theorem split_name {name : Text} (hname : IsIdentifier name) (rule : SignatureRule) (t : Text) :
    rule.split (name ++ t) = (name ++ (rule.split t).1, (rule.split t).2) := by
  have hmark : ∀ m ∈ nameMarks, ∀ c ∈ name, (c != m) = true := fun m hm c hc =>
    bne_iff_ne.mpr (ne_of_isNameChar (hname.chars c hc) hm)
  have htake : ∀ m ∈ nameMarks, (name ++ t).takeWhile (· != m) = name ++ t.takeWhile (· != m) := fun m hm =>
    List.takeWhile_append_of_pos (hmark m hm)
  have hsemicolon : (name ++ t).contains ';' = t.contains ';' := by
    have hno : name.contains ';' = false := by
      rw [List.contains_eq_mem, decide_eq_false (not_mem_of_mark hname (by decide))]
    rw [List.contains_append, hno, Bool.false_or]
  cases rule with
  | clause =>
    show (clauseHead 0 (name ++ t), false) = _
    rw [clauseHead_name hname.typeChars]
    rfl
  | statement =>
    simp only [split]
    rw [hsemicolon, htake ';' (by decide), htake ':' (by decide)]
    split <;> rfl
  | call =>
    simp only [split]
    rw [hsemicolon, htake ';' (by decide)]
  | body =>
    have hspace : ' ' ∉ name := fun h => absurd (isBlank_of_isNameChar (hname.chars ' ' h)) (by decide)
    have hstart : Text.startsNowhere " \x7b".toList name = true := Text.startsNowhere_of_not_mem hspace
    simp only [split]
    rw [Text.cut?_append hstart]
    cases Text.cut? " \x7b".toList t with
    | none => rfl
    | some cut => rfl

end SignatureRule

/-! ## 2. The short name -/

section ShortName

variable {kind : Kind} {name rest : Text}

theorem IsIdentifier.trim_eq_iff (hname : IsIdentifier name) :
    Text.trim (name ++ rest) = name ↔ Text.allBlank rest = true := by
  rw [hname.trim_behind, List.append_right_eq_self, Text.allBlank_iff]
  refine ⟨fun h => ?_, Text.dropEndWhile_of_all⟩
  rw [← Text.allBlank_iff, Text.allBlank_iff_solid, ← Text.solid_trimEnd, h]
  rfl

/-- Without a rule that finds a name, only blanks may follow. -/
theorem shortNameOf_none_iff (hname : IsIdentifier name) (h : ShortName.ofKind? kind (name ++ rest) = none) :
    (shortNameOf kind (name ++ rest)).text = name ↔ Text.allBlank rest = true := by
  rw [shortNameOf_of_none h]
  exact hname.trim_eq_iff

theorem shortNameOf_clause_iff (hkind : kind ∈ SignatureRule.clause.kinds) (hname : IsIdentifier name) :
    (shortNameOf kind (name ++ rest)).text = name ↔ SignatureRule.clause.endsName rest = true := by
  obtain ⟨run, behind, rfl, hrun, hhead, hstop⟩ := Text.exists_run ShortName.isTypeNameChar rest
  have hall : ∀ c ∈ name ++ run, ShortName.isTypeNameChar c = true := fun c hc =>
    (List.mem_append.mp hc).elim (hname.typeChars c) (hrun c)
  have hne : name ++ run ≠ [] := List.append_ne_nil_of_left_ne_nil hname.ne_nil run
  have hshort : shortNameOf kind (name ++ (run ++ behind)) = ⟨name ++ run, ShortName.opensGenericList behind⟩ := by
    refine shortNameOf_of_filter hne ?_
    rw [← List.append_assoc, ShortName.ofKind?_of_clause hkind, ShortName.ofType?_of_run hne hall hstop]
  rw [hshort, List.append_right_eq_self]
  show _ ↔ ((run ++ behind).head?.all fun c => !ShortName.isTypeNameChar c) = true
  cases run with
  | nil =>
    refine iff_of_true rfl ?_
    cases behind with
    | nil => rfl
    | cons c t =>
      show (!ShortName.isTypeNameChar c) = true
      rw [hhead c rfl]
      rfl
  | cons c run =>
    refine iff_of_false (List.cons_ne_nil c run) ?_
    show ¬(!ShortName.isTypeNameChar c) = true
    rw [hrun c List.mem_cons_self]
    exact Bool.false_ne_true

theorem shortNameOf_statement_iff (hkind : kind ∈ SignatureRule.statement.kinds) (hname : IsIdentifier name) :
    (shortNameOf kind (name ++ rest)).text = name ↔ SignatureRule.statement.endsName rest = true := by
  obtain ⟨run, behind, rfl, hrun, hhead, hstop⟩ := Text.exists_run ShortName.isValueNameChar rest
  have hall : ∀ c ∈ name ++ run, ShortName.isValueNameChar c = true := fun c hc =>
    (List.mem_append.mp hc).elim (fun h => ShortName.isValueNameChar_of_isNameChar (hname.chars c h)) (hrun c)
  have hne : name ++ run ≠ [] := List.append_ne_nil_of_left_ne_nil hname.ne_nil run
  have hends : SignatureRule.statement.endsName (run ++ behind) = true ↔
      (run ++ behind).head? = some ':' ∨ Text.allBlank (run ++ behind) = true := by
    show ((run ++ behind).head? == some ':' || Text.allBlank (run ++ behind)) = true ↔ _
    rw [Bool.or_eq_true, beq_iff_eq]
  -- no character of the run is a colon or a blank
  have hrest : run ≠ [] → (run ++ behind).head? ≠ some ':' ∧ Text.allBlank (run ++ behind) = false := by
    intro hr
    obtain ⟨c, run, rfl⟩ := List.exists_cons_of_ne_nil hr
    have hc : c ≠ ':' ∧ isBlank c = false := by
      simpa [ShortName.isValueNameChar] using hrun c List.mem_cons_self
    refine ⟨fun h => hc.1 (Option.some.inj h), ?_⟩
    rw [List.cons_append, Text.allBlank, List.all_cons, hc.2, Bool.false_and]
  rw [hends]
  by_cases hcolon : behind.head? = some ':'
  · obtain ⟨t, rfl⟩ := List.head?_eq_some_iff.mp hcolon
    have hshort : shortNameOf kind (name ++ (run ++ ':' :: t)) = ⟨name ++ run, false⟩ := by
      refine shortNameOf_of_filter hne ?_
      rw [← List.append_assoc, ShortName.ofKind?_of_statement hkind, ShortName.ofValue?_of_run hne hall]
    rw [hshort, List.append_right_eq_self]
    refine ⟨fun h => .inl (by rw [h]; rfl), fun h => ?_⟩
    by_contra hr
    obtain ⟨hhead', hblank⟩ := hrest hr
    exact h.elim hhead' fun hb => Bool.false_ne_true (hblank.symm.trans hb)
  · have hnone : ShortName.ofKind? kind (name ++ (run ++ behind)) = none := by
      rw [← List.append_assoc, ShortName.ofKind?_of_statement hkind, ShortName.ofValue?_of_no_colon hall hstop hcolon]
      rfl
    rw [shortNameOf_none_iff hname hnone, or_iff_right]
    by_cases hr : run = []
    · rw [hr]
      exact hcolon
    · exact (hrest hr).1

theorem shortNameOf_call_iff (hkind : kind ∈ SignatureRule.call.kinds) (hname : IsIdentifier name) :
    (shortNameOf kind (name ++ rest)).text = name ↔ SignatureRule.call.endsName rest = true := by
  have hname' : '(' ∉ name := not_mem_of_mark hname (by decide)
  show _ ↔ Text.allBlank (rest.takeWhile (· != '(')) = true
  by_cases hmem : '(' ∈ rest
  · obtain ⟨a, b, rfl, ha⟩ := List.eq_append_cons_of_mem hmem
    have htake : (a ++ '(' :: b).takeWhile (· != '(') = a :=
      Text.takeWhile_append_cons (· != '(') (fun c hc => bne_iff_ne.mpr fun he => ha (he ▸ hc)) rfl b
    have hne : name ++ a ≠ [] := List.append_ne_nil_of_left_ne_nil hname.ne_nil a
    have htrim : Text.trim (name ++ a) ≠ [] := by
      rw [hname.trim_behind]
      exact List.append_ne_nil_of_left_ne_nil hname.ne_nil _
    have hshort : shortNameOf kind (name ++ (a ++ '(' :: b)) = ⟨Text.trim (name ++ a), false⟩ := by
      refine shortNameOf_of_filter htrim ?_
      rw [← List.append_assoc, ShortName.ofKind?_of_call hkind,
        ShortName.ofFunction?_of_run hne (List.not_mem_append hname' ha)]
    rw [hshort, htake]
    exact hname.trim_eq_iff
  · have htake : rest.takeWhile (· != '(') = rest :=
      List.takeWhile_eq_self_iff.mpr fun c hc => bne_iff_ne.mpr fun he => hmem (he ▸ hc)
    have hnone : ShortName.ofKind? kind (name ++ rest) = none := by
      rw [ShortName.ofKind?_of_call hkind, ShortName.ofFunction?_of_notMem (List.not_mem_append hname' hmem)]
      rfl
    rw [shortNameOf_none_iff hname hnone, htake]

/-- **The short name of a signature is the name at its head if and only if the name ends there.** -/
theorem shortNameOf_name_iff {rule : SignatureRule} (hkind : kind ∈ rule.kinds) (hname : IsIdentifier name) :
    (shortNameOf kind (name ++ rest)).text = name ↔ rule.endsName rest = true := by
  cases rule with
  | clause => exact shortNameOf_clause_iff hkind hname
  | statement => exact shortNameOf_statement_iff hkind hname
  | call => exact shortNameOf_call_iff hkind hname
  | body => exact shortNameOf_none_iff hname (ShortName.ofKind?_of_body hkind)

end ShortName

/-! ## 3. Functions over several lines -/

namespace Text

/-- A squeezed text starts with the word it started with. -/
theorem squeeze_append {a : Text} (hne : a ≠ []) (ha : ∀ c ∈ a, isBlank c = false) (b : Text) :
    ∃ behind, squeeze (a ++ b) = a ++ behind := by
  obtain ⟨run, rest, rfl, hrun, hrest, -⟩ := exists_run (fun c => !isBlank c) b
  have hword : words (a ++ run) = [a ++ run] := by
    refine words_of_no_blank (List.append_ne_nil_of_left_ne_nil hne run) fun c hc => ?_
    exact (List.mem_append.mp hc).elim (ha c) fun h => by simpa using hrun c h
  unfold squeeze
  rw [← List.append_assoc]
  cases rest with
  | nil => exact ⟨run, by rw [List.append_nil, hword, joinWith_singleton]⟩
  | cons c rest =>
    have hc : isBlank c = true := by simpa using hrest c rfl
    rw [words_append_blank hc, hword, List.singleton_append]
    exact ⟨_, joinWith_append_cons [' '] a run (words rest)⟩

end Text

namespace Draft

/-- **A signature that is read off several lines starts with the name**, and behind it differs in blanks only from
    what the lines hold up to the last semicolon. -/
theorem joinedSignature_name {indent name : Text} (hindent : ∀ c ∈ indent, isBlank c = true)
    (hname : IsIdentifier name) (rest : Text) :
    ∃ behind, joinedSignature ("    ".toList ++ (indent ++ ("export declare ".toList ++ ("function ".toList ++
        (name ++ rest))))) = name ++ behind ∧
      Text.solid behind = Text.solid ((Text.beforeLast? ';' rest).getD rest) := by
  have hblank : ∀ c ∈ name, isBlank c = false := fun c hc => isBlank_of_isNameChar (hname.chars c hc)
  have hsemicolon : ';' ∉ name := not_mem_of_mark hname (by decide)
  have hflat : name.filter isFlat = name := by
    refine List.filter_eq_self.mpr fun c hc => ?_
    unfold isFlat
    simp only [Bool.and_eq_true, bne_iff_ne]
    refine ⟨⟨?_, ?_⟩, ?_⟩ <;> rintro rfl <;> exact absurd (hblank _ hc) (by decide)
  -- what the keyword leaves of the lines
  have hcut : Text.cut? "function ".toList (("    ".toList ++ (indent ++ ("export declare ".toList ++
      ("function ".toList ++ (name ++ rest))))).filter isFlat) =
      some ("    ".toList ++ (indent.filter isFlat ++ "export declare ".toList), name ++ rest.filter isFlat) := by
    have hstart : Text.startsNowhere "function ".toList (indent.filter isFlat) = true := by
      refine Text.startsNowhere_of_not_mem fun h => ?_
      exact absurd (hindent 'f' (List.mem_of_mem_filter h)) (by decide)
    have hmargin : Text.startsNowhere "function ".toList ("    ".toList.filter isFlat) = true := by decide
    have hdeclare : Text.startsNowhere "function ".toList ("export declare ".toList.filter isFlat) = true := by decide
    have hkey : "function ".toList.filter isFlat = "function ".toList := by decide
    rw [List.filter_append, List.filter_append, List.filter_append, List.filter_append, List.filter_append, hflat,
      Text.cut?_append hmargin, Text.cut?_append hstart, Text.cut?_append hdeclare, hkey,
      Text.cut?_self (by decide)]
    rfl
  obtain ⟨first, hfirst⟩ := Text.squeeze_append hname.ne_nil hblank (rest.filter isFlat)
  have hsolid : Text.solid first = Text.solid rest := by
    have hsqueeze := Text.solid_squeeze (name ++ rest.filter isFlat)
    rw [hfirst, Text.solid_append, Text.solid_append] at hsqueeze
    rw [List.append_cancel_left hsqueeze]
    refine Text.solid_filter (fun c hc => ?_) rest
    unfold isFlat at hc
    simp only [Bool.and_eq_false_iff, bne_eq_false_iff_eq] at hc
    rcases hc with (rfl | rfl) | rfl <;> decide
  have htight : Text.tighten (name ++ first) = name ++ Text.tighten first := by
    unfold Text.tighten
    rw [Text.replaceAll_append_of_notMem (not_mem_of_mark hname (by decide)),
      Text.replaceAll_append_of_notMem fun h => absurd (hblank ' ' h) (by decide)]
  have hlast : (Text.beforeLast? ';' (Text.tighten first)).map Text.solid =
      (Text.beforeLast? ';' rest).map Text.solid := by
    rw [← Text.beforeLast?_solid (by decide), ← Text.beforeLast?_solid (by decide), Text.solid_tighten, hsolid]
  have hjoined : joinedSignature ("    ".toList ++ (indent ++ ("export declare ".toList ++ ("function ".toList ++
      (name ++ rest))))) = ((Text.beforeLast? ';' (name ++ Text.tighten first)).map Text.trimEnd).getD
        (name ++ Text.tighten first) := by
    rw [joinedSignature_of_cut? hcut, ← htight, ← hfirst]
    rfl
  rw [hjoined, Text.beforeLast?_append hsemicolon]
  cases hb : Text.beforeLast? ';' (Text.tighten first) with
  | none =>
    have hnone : Text.beforeLast? ';' rest = none := by
      rw [hb] at hlast
      exact Option.map_eq_none_iff.mp hlast.symm
    refine ⟨Text.tighten first, rfl, ?_⟩
    rw [hnone, Text.solid_tighten, hsolid]
    rfl
  | some before =>
    rw [hb] at hlast
    obtain ⟨before', hb', hbefore⟩ := Option.map_eq_some_iff.mp hlast.symm
    refine ⟨Text.trimEnd before, Text.dropEndWhile_append_of_none hblank before, ?_⟩
    rw [hb', Text.solid_trimEnd]
    exact hbefore.symm

end Draft

/-! ## 4. Declarations -/

namespace Declaration

/-- **The short name is the name and nothing else**, so the declaration is imported and found by it. -/
structure BareName (d : Declaration) (name : Text) : Prop where
  shortName : d.shortName = name
  statement : Import.statement d = "import ".toList ++ name ++ " = ".toList ++ (d.path ++ '.' :: name) ++ [';']
  found : ∀ c : Catalogue, d ∈ c.declarations →
    ∃ e ∈ c.entries, c.findShort? name = some e ∧ e.declaration.shortName = name

theorem BareName.of_shortName {d : Declaration} {name : Text} (h : d.shortName = name) : d.BareName name where
  shortName := h
  statement := by
    unfold Import.statement qualifiedName
    rw [h]
  found c hd := by
    obtain ⟨entry, hentry, rfl⟩ := List.mem_map.mp hd
    have hsome : (c.findShort? name).isSome = true :=
      List.find?_isSome.mpr ⟨entry, hentry, decide_eq_true h⟩
    obtain ⟨e, he⟩ := Option.isSome_iff_exists.mp hsome
    have hname : (decide (e.declaration.shortName = name)) = true :=
      List.find?_some (p := fun e : Entry => decide (e.declaration.shortName = name)) he
    exact ⟨e, List.mem_of_find?_eq_some he, he, of_decide_eq_true hname⟩

/-- What stands behind the name in a signature: what the rule finds behind it on the opening line or, where later
    lines have completed the signature, what the lines hold behind it up to the last semicolon. -/
def behindName (d : Declaration) (o : Opening) (indent name t : Text) : Text :=
  if d.complete = (o.rule.split t).2 then (o.rule.split t).1
  else
    let rest := d.source.drop ("    ".toList ++ (indent ++ (o.keyword ++ name))).length
    (Text.beforeLast? ';' rest).getD rest

end Declaration

namespace Scanner

variable {lines : List Text} {n i : Nat} {o : Opening} {indent name t : Text}

/-- **A declaration has the name behind the keyword as its short name if and only if the name ends there**, which
    the text behind it decides. -/
theorem bareName_iff (h : OpensBy lines n i o indent (name ++ t)) (hname : IsIdentifier name) :
    ∃ d, (scan lines)[i]? = some d ∧ d.kind = o.kind ∧
      (d.BareName name ↔ o.rule.endsName (d.behindName o indent name t) = true) := by
  have hsplit := SignatureRule.split_name hname o.rule t
  have htrim : Text.trim (o.rule.split (name ++ t)).1 = name ++ Text.trimEnd (o.rule.split t).1 := by
    rw [hsplit]
    exact hname.trim_behind _
  have hhead : Text.trim (o.rule.split (name ++ t)).1 ≠ [] := by
    rw [htrim]
    exact List.append_ne_nil_of_left_ne_nil hname.ne_nil _
  obtain ⟨d, hd, hkind, hsource, hsignature⟩ := h.declaration hhead
  rw [htrim, hsplit] at hsignature
  have hkinds : d.kind ∈ o.rule.kinds := hkind ▸ Opening.kind_mem_kinds o h.row
  refine ⟨d, hd, hkind, ?_⟩
  suffices hshort : d.shortName = name ↔ o.rule.endsName (d.behindName o indent name t) = true from
    ⟨fun hbare => hshort.mp hbare.shortName, fun hends => .of_shortName (hshort.mpr hends)⟩
  unfold Declaration.shortName
  rcases hsignature with ⟨hsig, hcomplete⟩ | ⟨hopen, hjoined⟩
  · have hbehind : d.behindName o indent name t = (o.rule.split t).1 := if_pos hcomplete
    rw [hsig, shortNameOf_name_iff hkinds hname, SignatureRule.endsName_trimEnd, hbehind]
  · have hrows : ∀ o ∈ Opening.table, o.kind = .function →
        o.rule = .call ∧ o.keyword = "export declare ".toList ++ "function ".toList := by decide
    obtain ⟨hrule, hkey⟩ := hrows o h.row (hkind.symm.trans hjoined.kind)
    obtain ⟨more, hmore⟩ := hsource
    have hlines : d.source = ("    ".toList ++ (indent ++ (o.keyword ++ name))) ++ (t ++ '\n' :: more) := by
      rw [← hmore]
      unfold Draft.sourceLine
      simp only [List.append_assoc, List.singleton_append]
    obtain ⟨behind, hsig, hsolid⟩ := Draft.joinedSignature_name h.blank hname (t ++ '\n' :: more)
    have hcomplete : ¬d.complete = (o.rule.split t).2 := by
      rw [hopen, hjoined.complete]
      exact Bool.false_ne_true.symm
    have hbehind : d.behindName o indent name t =
        (Text.beforeLast? ';' (t ++ '\n' :: more)).getD (t ++ '\n' :: more) := by
      unfold Declaration.behindName
      rw [if_neg hcomplete, hlines, List.drop_left]
    have hsig' : d.signature = name ++ behind := by
      rw [hjoined.signature, hlines, ← hsig, hkey]
      simp only [List.append_assoc]
    rw [hsig', shortNameOf_name_iff hkinds hname, hbehind, hrule, SignatureRule.endsName_call_iff,
      SignatureRule.endsName_call_iff, hsolid]

/-- A function whose parameters start on a line of their own. -/
def wrappedFile : List Text :=
  ["namespace CG \x7b".toList, "\texport declare function load".toList, "\t\t(path: string): void;".toList,
   "\x7d".toList]

theorem bareName_wrapped : ∃ d, (scan wrappedFile)[0]? = some d ∧ d.BareName "load".toList := by
  have hopens : OpensBy wrappedFile 1 0 Opening.ofFunction "\t".toList ("load".toList ++ []) :=
    ⟨by decide, Text.allBlank_iff.mp (by decide), ⟨_, rfl, by decide +kernel⟩, by decide +kernel, by decide +kernel⟩
  obtain ⟨d, hd, -, hbare⟩ := bareName_iff hopens (by decide +kernel)
  have hends : (scan wrappedFile)[0]?.all (fun d =>
      SignatureRule.call.endsName (d.behindName Opening.ofFunction "\t".toList "load".toList [])) = true := by
    decide +kernel
  rw [hd, Option.all_some] at hends
  exact ⟨d, hd, hbare.mpr hends⟩

/-- A generic function. -/
def genericFunctionFile : List Text :=
  ["namespace CG \x7b".toList, "    export declare function map<T>(x: T): T;".toList, "\x7d".toList]

/-- **The generic list of a function stays in its short name.** -/
theorem not_bareName_generic :
    OpensBy genericFunctionFile 1 0 Opening.ofFunction "    ".toList ("map".toList ++ "<T>(x: T): T;".toList) ∧
    IsIdentifier "map".toList ∧ ∀ d, (scan genericFunctionFile)[0]? = some d → ¬d.BareName "map".toList := by
  refine ⟨⟨by decide, Text.allBlank_iff.mp (by decide), ⟨_, rfl, by decide +kernel⟩, by decide +kernel,
    by decide +kernel⟩, by decide +kernel, fun d hd hbare => ?_⟩
  have hscan : (scan genericFunctionFile)[0]?.map Declaration.shortName = some "map<T>".toList := by decide +kernel
  rw [hd, Option.map_some, hbare.shortName] at hscan
  exact absurd hscan (by decide)

/-- Neither does the name of a value end at a blank or an equals sign, nor that of an enum at its brace. -/
example : [SignatureRule.statement.endsName " : number".toList, SignatureRule.statement.endsName " = 5".toList,
    SignatureRule.body.endsName "\x7b".toList] = [false, false, false] := by
  decide

end Scanner
end Ambient
