import Ambient.Proofs.Scanner.OpenedBy
import Ambient.Proofs.Text.Slice
import Mathlib.Data.List.Infix

/-!
# Generic lists

A generic list closes its last bracket with its last character (`IsGenericList`); lists may be nested in it, and
anything may stand in it. Two functions look at generic lists, and they do not agree.

* The rule for the end of a signature passes over the whole list: `SignatureRule.locate_clause`;
* the rule for short names sees a list only if no other is nested in it: `opensGenericList_list`;
* `seesList_iff`: so a declaration is marked as generic if and only if its list is flat.
-/

namespace Ambient

/-! ## 1. Lists -/

/-- **A generic list**: it starts with a bracket, more are open than closed up to the last character, and that
    closes the last. -/
structure IsGenericList (t : Text) : Prop where
  start : t.head? = some '<'
  deep : ∀ q ∈ t.inits, q ≠ [] → q ≠ t → q.count '>' < q.count '<'
  balanced : t.count '>' = t.count '<'

instance (t : Text) : Decidable (IsGenericList t) :=
  decidable_of_iff (t.head? = some '<' ∧ (∀ q ∈ t.inits, q ≠ [] → q ≠ t → q.count '>' < q.count '<') ∧
      t.count '>' = t.count '<')
    ⟨fun ⟨hstart, hdeep, hbalanced⟩ => ⟨hstart, hdeep, hbalanced⟩, fun h => ⟨h.start, h.deep, h.balanced⟩⟩

namespace IsGenericList

variable {list : Text}

theorem lt_of_prefix (h : IsGenericList list) {q : Text} (hq : q <+: list) (hnil : q ≠ []) (hne : q ≠ list) :
    q.count '>' < q.count '<' := h.deep q ((List.mem_inits _ _).mpr hq) hnil hne

theorem ne_nil (h : IsGenericList list) : list ≠ [] := by
  rintro rfl
  exact nomatch h.start

/-- The first character opens the list, and the last closes it. -/
theorem exists_inside (h : IsGenericList list) : ∃ inside, list = '<' :: (inside ++ ['>']) := by
  obtain ⟨t, rfl⟩ := List.head?_eq_some_iff.mp h.start
  rcases List.eq_nil_or_concat' t with rfl | ⟨inside, c, rfl⟩
  · exact absurd h.balanced (by decide)
  · refine ⟨inside, ?_⟩
    have hdeep : ('<' :: inside).count '>' < ('<' :: inside).count '<' :=
      h.lt_of_prefix ⟨[c], rfl⟩ (List.cons_ne_nil _ _) fun he => by simp at he
    have hbalanced : ('<' :: inside ++ [c]).count '>' = ('<' :: inside ++ [c]).count '<' := h.balanced
    rw [List.count_append, List.count_append, List.count_singleton, List.count_singleton] at hbalanced
    have hc : c = '>' := by
      by_contra hne
      rw [beq_eq_false_iff_ne.mpr hne, if_neg Bool.false_ne_true] at hbalanced
      omega
    rw [hc]

end IsGenericList

/-! ## 2. The end of a signature -/

namespace SignatureRule

/-- **A list is passed over**, whatever stands in it. -/
theorem clauseHead_list {list : Text} (h : IsGenericList list) (t : Text) :
    clauseHead 0 (list ++ t) = list ++ clauseHead 0 t := by
  obtain ⟨a, rfl⟩ := List.head?_eq_some_iff.mp h.start
  have hdeep : ∀ q, q <+: a → q ≠ a → q.count '>' < 1 + q.count '<' := by
    intro q hq hne
    have hcount := h.lt_of_prefix (List.cons_prefix_cons.mpr ⟨rfl, hq⟩) (List.cons_ne_nil '<' q)
      fun he => hne (List.cons.inj he).2
    rw [List.count_cons_self, List.count_cons_of_ne (by decide)] at hcount
    omega
  have hdepth : 1 + a.count '<' - a.count '>' = 0 := by
    have hbalanced := h.balanced
    rw [List.count_cons_self, List.count_cons_of_ne (by decide)] at hbalanced
    omega
  rw [List.cons_append, clauseHead, if_pos rfl, clauseHead_deep hdeep, hdepth]
  rfl

/-- **The head of a class or interface is the name and the list**, where the end or a mark follows. -/
theorem clauseHead_name_list {name list tail : Text} (hname : ∀ c ∈ name, ShortName.isTypeNameChar c = true)
    (hlist : list = [] ∨ IsGenericList list) (htail : tail = [] ∨ ∃ mark ∈ clauseMarks, mark <+: tail) :
    clauseHead 0 (name ++ (list ++ tail)) = name ++ list := by
  have hend : clauseHead 0 tail = [] := by
    rcases htail with rfl | hmark
    · rfl
    · exact clauseHead_of_mark hmark
  rw [clauseHead_name hname]
  rcases hlist with rfl | hlist
  · rw [List.nil_append, hend]
  · rw [clauseHead_list hlist, hend, List.append_nil]

/-- **The end of a signature is a boundary between characters** of the text. -/
theorem exists_front (rule : SignatureRule) (t : Text) : ∃ front, front <+: t ∧
    (rule.locate t).1 = Text.byteLength front ∧ Text.byteLength front ≤ Text.byteLength t := by
  obtain ⟨behind, hbehind⟩ := rule.prefix_split t
  refine ⟨(rule.split t).1, ⟨behind, hbehind⟩, rfl, ?_⟩
  conv_rhs => rw [← hbehind, Text.byteLength_append]
  exact Nat.le_add_right _ _

/-- **The clause rule respects generic lists**: behind a name and a list it stops at once where a mark or the end
    follows, and in any text it stops between two characters. -/
theorem locate_clause {name list tail : Text} (hname : ∀ c ∈ name, ShortName.isTypeNameChar c = true)
    (hlist : list = [] ∨ IsGenericList list) (htail : tail = [] ∨ ∃ mark ∈ clauseMarks, mark <+: tail) :
    clause.locate (name ++ (list ++ tail)) = (Text.byteLength (name ++ list), false) ∧
    ∀ t, ∃ front, front <+: t ∧ (clause.locate t).1 = Text.byteLength front ∧
      Text.byteLength front ≤ Text.byteLength t := by
  refine ⟨?_, exists_front clause⟩
  show (Text.byteLength (clauseHead 0 (name ++ (list ++ tail))), false) = _
  rw [clauseHead_name_list hname hlist htail]

/-- Marks stand in the list, and a closing bracket in the tail. -/
theorem locate_clause_nested :
    clause.locate "Größe<K extends Map<a, b>, V implements I> extends Base<K>> \x7b".toList = (44, false) := by
  have hname : ("Größe".toList.all ShortName.isTypeNameChar) = true := by decide +kernel
  have hlist : IsGenericList "<K extends Map<a, b>, V implements I>".toList := by decide
  have htail : " extends ".toList <+: " extends Base<K>> \x7b".toList := by decide
  have hlocate := (locate_clause (List.all_eq_true.mp hname) (.inr hlist) (.inr ⟨_, by decide, htail⟩)).1
  have htext : "Größe<K extends Map<a, b>, V implements I> extends Base<K>> \x7b".toList = "Größe".toList ++
      ("<K extends Map<a, b>, V implements I>".toList ++ " extends Base<K>> \x7b".toList) := by decide +kernel
  have hlength : Text.byteLength ("Größe".toList ++ "<K extends Map<a, b>, V implements I>".toList) = 44 := by
    decide +kernel
  rw [htext, hlocate, hlength]

end SignatureRule

/-! ## 3. The short name -/

/-- **A list is seen behind a name only if no list is nested in it**, and something stands in it. -/
theorem ShortName.opensGenericList_list {list : Text} (h : IsGenericList list) :
    opensGenericList list = true ↔ list.count '<' = 1 ∧ list ≠ "<>".toList := by
  rw [opensGenericList_iff]
  constructor
  · rintro ⟨inside, rest, rfl, hne, hlt, hgt⟩
    let first : Text := '<' :: (inside ++ ['>'])
    have hopening : first.count '<' = 1 := by
      rw [List.count_cons_self, List.count_append, List.count_eq_zero.mpr hlt]
      rfl
    have hclosing : first.count '>' = 1 := by
      rw [List.count_cons_of_ne (by decide), List.count_append, List.count_eq_zero.mpr hgt]
      rfl
    -- the first bracket is closed there, so the list ends there
    have hfirst : first = '<' :: (inside ++ '>' :: rest) := by
      by_contra hother
      have hdeep := h.lt_of_prefix (q := first) ⟨rest, by simp [first]⟩ (List.cons_ne_nil _ _) hother
      omega
    refine ⟨hfirst ▸ hopening, fun he => hne ?_⟩
    have hlength := congrArg List.length (hfirst.trans he)
    simpa [first] using hlength
  · rintro ⟨hone, hne⟩
    obtain ⟨inside, rfl⟩ := h.exists_inside
    have hbalanced := h.balanced
    rw [hone, List.count_cons_of_ne (by decide), List.count_append] at hbalanced
    rw [List.count_cons_self, List.count_append] at hone
    refine ⟨inside, [], rfl, ?_, List.count_eq_zero.mp ?_, List.count_eq_zero.mp ?_⟩
    · rintro rfl
      exact hne rfl
    · omega
    · exact Nat.add_right_cancel hbalanced

section Signature

variable {name list : Text}

/-- A name with its list is trimmed. -/
theorem IsIdentifier.trim_append_list (hname : IsIdentifier name) (hlist : list = [] ∨ IsGenericList list) :
    Text.trim (name ++ list) = name ++ list := by
  rcases hlist with rfl | hlist
  · rw [List.append_nil, hname.trim_eq]
  · obtain ⟨inside, rfl⟩ := hlist.exists_inside
    have hlast : Text.trimEnd (inside ++ ['>']) = inside ++ ['>'] :=
      Text.dropEndWhile_append_cons (by decide) inside []
    rw [hname.trim_append (by decide), hlast]

/-- The short name of a name with a list. -/
theorem shortNameOf_list {o : Opening} (ho : o ∈ Opening.table) (hrule : o.rule = .clause) (hname : IsIdentifier name)
    (hlist : list = [] ∨ IsGenericList list) :
    shortNameOf o.kind (name ++ list) = ⟨name, ShortName.opensGenericList list⟩ := by
  have hkind : o.kind ∈ SignatureRule.clause.kinds := hrule ▸ Opening.kind_mem_kinds o ho
  have hstop : list.takeWhile ShortName.isTypeNameChar = [] := by
    rcases hlist with rfl | hlist
    · rfl
    · obtain ⟨inside, rfl⟩ := hlist.exists_inside
      rfl
  refine shortNameOf_of_filter (n := ⟨name, _⟩) hname.ne_nil ?_
  rw [ShortName.ofKind?_of_clause hkind, ShortName.ofType?_of_name hname hstop]

end Signature

/-! ## 4. Declarations -/

/-- **The generic list behind the name is seen**: the declaration is generic if there is one, and then its label
    says so. -/
structure Declaration.SeesList (d : Declaration) (name list : Text) : Prop where
  shortName : d.shortName = name
  hasGenerics : d.hasGenerics = true ↔ list ≠ []
  label : d.label = if list = [] then name else name ++ "<T>".toList

namespace Scanner

variable {lines : List Text} {n i : Nat} {o : Opening} {indent name list tail : Text}

/-- **A list is seen if and only if no other list is nested in it.** The name is read right, and the signature holds
    the whole list, in either case. -/
theorem seesList_iff (h : OpensBy lines n i o indent (name ++ (list ++ tail))) (hrule : o.rule = .clause)
    (hname : IsIdentifier name) (hlist : list = [] ∨ IsGenericList list ∧ list ≠ "<>".toList)
    (htail : tail = [] ∨ ∃ mark ∈ SignatureRule.clauseMarks, mark <+: tail) :
    ∃ d, (scan lines)[i]? = some d ∧ d.kind = o.kind ∧ d.signature = name ++ list ∧ d.shortName = name ∧
      (d.SeesList name list ↔ list.count '<' ≤ 1) := by
  have hlist' : list = [] ∨ IsGenericList list := hlist.imp id And.left
  have hsplit : o.rule.split (name ++ (list ++ tail)) = (name ++ list, false) := by
    rw [hrule]
    exact congrArg (·, false) (SignatureRule.clauseHead_name_list hname.typeChars hlist' htail)
  have htrim := hname.trim_append_list hlist'
  have hhead : Text.trim (name ++ list) ≠ [] := by
    rw [htrim]
    exact List.append_ne_nil_of_left_ne_nil hname.ne_nil _
  obtain ⟨d, hd, hkind, -, hsignature⟩ := h.declaration (by rwa [hsplit])
  rw [hsplit, htrim] at hsignature
  have hkinds : o.kind ∈ SignatureRule.clause.kinds := hrule ▸ Opening.kind_mem_kinds o h.row
  have hsig : d.signature = name ++ list := by
    refine (hsignature.resolve_right fun hjoined => ?_).1
    rw [← hkind, hjoined.2.kind] at hkinds
    exact absurd hkinds (by decide)
  have hshort : shortNameOf d.kind d.signature = ⟨name, ShortName.opensGenericList list⟩ := by
    rw [hkind, hsig]
    exact shortNameOf_list h.row hrule hname hlist'
  have hgenerics : d.hasGenerics = ShortName.opensGenericList list := congrArg ShortName.hasGenerics hshort
  have hname' : d.shortName = name := congrArg ShortName.text hshort
  refine ⟨d, hd, hkind, hsig, hname', ?_⟩
  rcases hlist with rfl | ⟨hlist, hfull⟩
  · refine iff_of_true ⟨hname', ?_, ?_⟩ (Nat.zero_le 1)
    · rw [hgenerics]
      exact iff_of_false Bool.false_ne_true fun h => h rfl
    · unfold Declaration.label
      rw [hgenerics, hname']
      rfl
  · have hcount : list.count '<' ≤ 1 ↔ d.hasGenerics = true := by
      have hpos : 0 < list.count '<' := List.count_pos_iff.mpr (List.mem_of_mem_head? hlist.start)
      rw [hgenerics, ShortName.opensGenericList_list hlist, and_iff_left hfull]
      omega
    rw [hcount]
    refine ⟨fun hsees => hsees.hasGenerics.mpr hlist.ne_nil, fun hgeneric => ⟨hname', ?_, ?_⟩⟩
    · exact iff_of_true hgeneric hlist.ne_nil
    · unfold Declaration.label
      rw [hgeneric, hname', if_pos rfl, if_neg hlist.ne_nil]

/-- A class with a generic list. -/
def genericFile (list : Text) : List Text :=
  ["namespace CG \x7b".toList, "    export declare class Bar".toList ++ (list ++ " extends Baz \x7b".toList),
   "    \x7d".toList, "\x7d".toList]

/-- One list and no other in it. -/
theorem seesList_flat : ∃ d, (scan (genericFile "<K, V extends Key>".toList))[0]? = some d ∧
    d.SeesList "Bar".toList "<K, V extends Key>".toList := by
  have hopens : OpensBy (genericFile "<K, V extends Key>".toList) 1 0
      ⟨"export declare class ".toList, .classType, .clause, "\x7d".toList⟩ "    ".toList
      ("Bar".toList ++ ("<K, V extends Key>".toList ++ " extends Baz \x7b".toList)) :=
    ⟨by decide, Text.allBlank_iff.mp (by decide), ⟨_, rfl, by decide +kernel⟩, by decide +kernel, by decide +kernel⟩
  obtain ⟨d, hd, -, -, -, hsees⟩ := seesList_iff hopens rfl (by decide +kernel)
    (.inr (by decide)) (.inr ⟨" extends ".toList, by decide, by decide⟩)
  exact ⟨d, hd, hsees.mpr (by decide)⟩

/-- **A list nested in the list hides it.** -/
theorem not_seesList_nested :
    OpensBy (genericFile "<K extends Map<string, V>>".toList) 1 0
      ⟨"export declare class ".toList, .classType, .clause, "\x7d".toList⟩ "    ".toList
      ("Bar".toList ++ ("<K extends Map<string, V>>".toList ++ " extends Baz \x7b".toList)) ∧
    IsIdentifier "Bar".toList ∧ IsGenericList "<K extends Map<string, V>>".toList ∧
    ∀ d, (scan (genericFile "<K extends Map<string, V>>".toList))[0]? = some d →
      ¬d.SeesList "Bar".toList "<K extends Map<string, V>>".toList := by
  refine ⟨⟨by decide, Text.allBlank_iff.mp (by decide), ⟨_, rfl, by decide +kernel⟩, by decide +kernel,
    by decide +kernel⟩, by decide +kernel, by decide, fun d hd hsees => ?_⟩
  have hscan : (scan (genericFile "<K extends Map<string, V>>".toList))[0]?.all (!·.hasGenerics) = true := by
    decide +kernel
  rw [hd, Option.all_some, hsees.hasGenerics.mpr (by decide)] at hscan
  cases hscan

end Scanner
end Ambient
