import Ambient.Proofs.Declaration.Sort
import Ambient.Proofs.ReExport.RunOn

/-!
# An empty group put into a text

A line `export {};` has no entry and should change nothing where it is put. But an empty group runs on to the next
closing brace, and takes up what stands before it.

* `Insertion`: a text with such a line put into it. `WellPlaced`: not into a group as it is written;
* `Neutral`: the re-exports are those of the text without the line;
* `neutral_iff`: **the line is neutral exactly if** what the text behind it makes is the same read on from the
  empty group and read for itself; or, where an earlier empty group runs on over the line, read on from this one to
  the line and to the next closing brace. In the regular case that is: the group that the next closing brace
  closes makes what the new one takes;
* `not_neutral_of_block`: so it never is before a written group, whose first item is lost.
-/

namespace Ambient

/-! ## 1. One group, sorted -/

namespace Declaration

/-- If there are several, the ordinal of each is its place. -/
def Numbered (ds : List Declaration) : Prop :=
  2 ≤ ds.length → ∀ (n : Nat) (d : Declaration), ds[n]? = some d → d.ordinal = some n

/-- **The order of numbered declarations is no news.** -/
theorem Numbered.eq_of_perm {ds es : List Declaration} (hd : Numbered ds) (he : Numbered es) (h : ds.Perm es) :
    ds = es := by
  have hlength := h.length_eq
  by_cases hmany : 2 ≤ ds.length
  · refine List.ext_getElem? fun n => ?_
    have hsome : ∀ d, ds[n]? = some d → es[n]? = some d := by
      intro d hget
      obtain ⟨m, hm⟩ := List.mem_iff_getElem?.mp (h.mem_iff.mp (List.mem_of_getElem? hget))
      have hplace : some n = some m := (hd hmany n d hget).symm.trans (he (hlength ▸ hmany) m d hm)
      rwa [Option.some.inj hplace]
    cases hget : ds[n]? with
    | some d => exact (hsome d hget).symm
    | none =>
      rw [List.getElem?_eq_none_iff] at hget
      exact (List.getElem?_eq_none (by omega)).symm
  · rcases ds with _ | ⟨d, _ | ⟨d', ds⟩⟩
    · exact h.nil_eq
    · exact (List.perm_singleton.mp h.symm).symm
    · exact absurd (Nat.le_add_left 2 ds.length) hmany

end Declaration

namespace ReExport

open Declaration

/-- A group makes one declaration of each entry. -/
theorem Group.length_declarations (g : Group) : g.declarations.length = (entries g.list).length := by
  have hlength := congrArg List.length g.asExport_declarations
  rwa [List.length_map, List.length_map] at hlength

/-- The declarations of no more than one group are numbered. -/
theorem numbered_declarations {gs : List Group} (h : gs.length ≤ 1) : Numbered (gs.flatMap Group.declarations) := by
  rcases gs with _ | ⟨g, _ | ⟨g', gs⟩⟩
  · exact fun hmany => absurd hmany (Nat.not_succ_le_zero 1)
  · rw [List.flatMap_singleton]
    intro hmany n d hd
    have hseveral : g.Several := hmany.trans g.length_declarations.le
    exact ordinal_of_getElem? hseveral hd
  · exact absurd h (by simp)

/-- The re-exports of a file, sorted by id. -/
def reExports (t : Text) : List Declaration := (parse t).filter fun d => d.kind = .reExport

theorem reExports_eq (t : Text) : reExports t = sort (declarations (normalise t)) := by
  unfold reExports parse
  rw [filter_sort, filter_reExport]

/-! ## 2. A line with an empty group -/

/-- An empty group, with what stands on its line before it and behind it. -/
def emptyLine (margin gap : Text) : Text := margin ++ ("export \x7b\x7d;".toList ++ gap)

section Line

variable {margin gap s : Text}

theorem emptyLine_append (margin gap t : Text) : emptyLine margin gap ++ t =
    margin ++ (("export".toList ++ [' ']) ++ '{' :: '}' :: (';' :: (gap ++ t))) := by
  have hgroup : "export \x7b\x7d;".toList = ("export".toList ++ [' ']) ++ ['{', '}', ';'] := by decide
  rw [emptyLine, hgroup]
  simp

theorem isGroupHead_space : IsGroupHead ("export".toList ++ [' ']) :=
  ⟨[' '], rfl, List.cons_ne_nil _ _, List.forall_mem_singleton.mpr rfl⟩

/-- **The group of the line runs on** over the text behind it. -/
theorem declarationsFrom_line (hmargin : ∀ c ∈ margin, isBlank c = true) (hgap : ∀ c ∈ gap, isBlank c = true)
    (path? : Option Text) (t : Text) : declarationsFrom path? (emptyLine margin gap ++ t) = runOn path? t := by
  rw [emptyLine_append, declarationsFrom_pass (noGroupIn_of_notMem (Text.notMem_of_blank hmargin (by decide)) _),
    marksIn_of_not_mem (Text.notMem_of_blank hmargin (by decide)), List.getLast?_nil, Option.none_or,
    declarationsFrom_empty isGroupHead_space, runOn_semicolon hgap]

/-- No group is opened across the line: its `e` would be the second of the head. -/
theorem opened?_line (hs : s ≠ []) (hbrace : '{' ∉ s) (hmargin : ∀ c ∈ margin, isBlank c = true) (gap t : Text) :
    opened? (s ++ (emptyLine margin gap ++ t)) = none := by
  by_contra hsome
  obtain ⟨behind, hbehind⟩ := Option.ne_none_iff_exists'.mp hsome
  obtain ⟨front, hhead, htext⟩ := opened?_iff.mp hbehind
  have hno : '{' ∉ s ++ (margin ++ ("export".toList ++ [' '])) :=
    List.not_mem_append hbrace (List.not_mem_append (Text.notMem_of_blank hmargin (by decide)) (by decide))
  rw [emptyLine_append, ← List.append_assoc margin, ← List.append_assoc s] at htext
  obtain ⟨hsame, -⟩ := Text.append_cons_inj hno (hhead.notMem (by decide) (by decide)) htext
  obtain ⟨blanks, rfl, -, hblanks⟩ := hhead
  obtain ⟨c, s, rfl⟩ := List.exists_cons_of_ne_nil hs
  rw [export_word] at hsame
  have hmem : 'e' ∈ "xport".toList ++ blanks := by
    rw [← show s ++ _ = "xport".toList ++ blanks from (List.cons.inj hsame).2]
    simp
  exact List.not_mem_append (by decide) (Text.notMem_of_blank hblanks (by decide)) hmem

end Line

/-! ## 3. The line put in -/

/-- A line with an empty group, put in between two parts of a text. -/
structure Insertion where
  before : Text
  behind : Text
  /-- On the line before the group. -/
  margin : Text
  /-- On the line behind the group, and its end. -/
  gap : Text

namespace Insertion

variable (i : Insertion)

/-- The text without the line. -/
def text : Text := i.before ++ i.behind

/-- The text with the line. -/
def longer : Text := i.before ++ (emptyLine i.margin i.gap ++ i.behind)

/-- **The line is neutral**: it leaves the re-exports as they are. -/
def Neutral : Prop := reExports i.longer = reExports i.text

def left : Text := normalise i.before

def right : Text := normalise i.behind

def line : Text := emptyLine (normalise i.margin) (normalise i.gap)

/-- **The line stands outside any group**, and only white space with the empty one on it. -/
structure WellPlaced : Prop where
  margin : ∀ c ∈ i.margin, isBlank c = true
  gap : ∀ c ∈ i.gap, isBlank c = true
  outside : OutsideGroups i.left i.right

instance : Decidable i.WellPlaced :=
  decidable_of_iff (i.margin.all isBlank = true ∧ i.gap.all isBlank = true ∧ OutsideGroups i.left i.right)
    ⟨fun ⟨hmargin, hgap, houtside⟩ => ⟨List.all_eq_true.mp hmargin, List.all_eq_true.mp hgap, houtside⟩,
      fun h => ⟨List.all_eq_true.mpr h.margin, List.all_eq_true.mpr h.gap, h.outside⟩⟩

/-- How the text before the line is read: `outer` for itself, and then what runs on over the place. -/
structure Parts (outer : Text) (run : Run) : Prop where
  left : i.left = outer ++ run.text
  wellFormed : run.WellFormed
  parted : isParted (run.text ++ i.right) 0 outer = true

/-- **The text behind makes the same with the line and without it**, of which each side reads only what it has
    to: where nothing runs on over the place, the group of the line does so from there; an empty group before it
    that did so has its end in the line now. -/
def Same (outer : Text) : Run → Prop
  | .nothing => sort (runOn (marksIn outer (i.line ++ i.right)).getLast? i.right) =
      sort (declarationsFrom (marksIn outer i.right).getLast? i.right)
  | .emptyGroup head tail =>
    sort (runOn (marksIn outer (head ++ '{' :: '}' :: tail)).getLast? (tail ++ (i.line ++ i.right))) =
      sort (runOn (marksIn outer (head ++ '{' :: '}' :: tail)).getLast? (tail ++ i.right))

/-- The last mark before the line, in the text without it -/
def path? : Option Text := (marksIn i.left i.right).getLast?

/-- and in the text with it. They differ where a mark spans the place. -/
def newPath? : Option Text := (marksIn i.left (i.line ++ i.right)).getLast?

section Neutral

variable {i : Insertion} {outer front rest : Text} {run : Run}

theorem normalise_text : normalise i.text = i.left ++ i.right := List.filter_append _ _

theorem normalise_longer : normalise i.longer = i.left ++ (i.line ++ i.right) := by
  have hword : "export \x7b\x7d;".toList.filter (· != '\r') = "export \x7b\x7d;".toList := by decide
  unfold longer normalise emptyLine
  rw [List.filter_append, List.filter_append, List.filter_append, List.filter_append, hword]
  rfl

theorem WellPlaced.margin_blank (h : i.WellPlaced) : ∀ c ∈ normalise i.margin, isBlank c = true :=
  fun c hc => h.margin c (List.mem_of_mem_filter hc)

theorem WellPlaced.gap_blank (h : i.WellPlaced) : ∀ c ∈ normalise i.gap, isBlank c = true :=
  fun c hc => h.gap c (List.mem_of_mem_filter hc)

/-- With the line behind it, too, `outer` is read for itself. -/
theorem Parts.parted_line (h : i.WellPlaced) (hparts : i.Parts outer run) :
    isParted (run.text ++ (i.line ++ i.right)) 0 outer = true := by
  refine isParted_of_opens hparts.parted fun s _ hs hopens => ?_
  have hbrace : '{' ∈ s ++ run.text := by
    by_contra hno
    rw [List.mem_append, not_or] at hno
    have hnothing : run.text = [] := by
      cases run with
      | nothing => rfl
      | emptyGroup head tail => exact absurd (List.mem_append_right _ List.mem_cons_self) hno.2
    rw [hnothing, List.nil_append, line, opened?_line hs hno.1 h.margin_blank] at hopens
    cases hopens
  rw [← List.append_assoc] at hopens ⊢
  obtain ⟨behind, hbehind⟩ := Option.isSome_iff_exists.mp (opened?_of_append hbrace hopens)
  exact Option.isSome_of_eq_some (opened?_append hbehind i.right)

/-- Only what is behind `outer` can change. -/
theorem neutral_iff_behind (h : i.WellPlaced) (hparts : i.Parts outer run) : i.Neutral ↔
    sort (declarationsFrom (marksIn outer (run.text ++ (i.line ++ i.right))).getLast?
      (run.text ++ (i.line ++ i.right))) =
    sort (declarationsFrom (marksIn outer (run.text ++ i.right)).getLast? (run.text ++ i.right)) := by
  unfold Neutral
  rw [reExports_eq, reExports_eq, normalise_longer, normalise_text, hparts.left, List.append_assoc, List.append_assoc]
  show sort (declarationsFrom none (outer ++ (run.text ++ (i.line ++ i.right)))) =
    sort (declarationsFrom none (outer ++ (run.text ++ i.right))) ↔ _
  rw [declarationsFrom_append (hparts.parted_line h), declarationsFrom_append hparts.parted, sort_append_left_iff,
    Option.or_none, Option.or_none]

theorem neutral_iff_same (h : i.WellPlaced) (hparts : i.Parts outer run) : i.Neutral ↔ i.Same outer run := by
  rw [neutral_iff_behind h hparts]
  cases run with
  | nothing =>
    show sort (declarationsFrom _ (i.line ++ i.right)) = _ ↔ _
    rw [line, declarationsFrom_line h.margin_blank h.gap_blank]
    exact Iff.rfl
  | emptyGroup head tail =>
    have hclosed : '}' ∈ head ++ '{' :: '}' :: tail := by simp
    have hbehind : ∀ u, Run.text (.emptyGroup head tail) ++ u = head ++ '{' :: '}' :: (tail ++ u) := by
      simp [Run.text]
    rw [hbehind, hbehind, declarationsFrom_empty hparts.wellFormed.1, declarationsFrom_empty hparts.wellFormed.1,
      ← hbehind, ← hbehind]
    unfold Run.text
    rw [marksIn_append_closed hclosed, marksIn_append_closed hclosed]
    exact Iff.rfl

/-- In the text without the line, a brace with no group across it parts what stands behind the place. -/
theorem declarationsFrom_brace (hclosed : isParted rest 0 (front ++ ['}']) = true) (path? : Option Text) :
    declarationsFrom path? (front ++ '}' :: rest) = declarationsFrom path? (front ++ ['}']) ++
      declarationsFrom ((marksIn front ('}' :: rest)).getLast?.or path?) rest := by
  have htext : front ++ '}' :: rest = (front ++ ['}']) ++ rest := by simp
  rw [htext, declarationsFrom_append hclosed, marksIn_concat_brace]

/-- **Where an empty group is neutral.** Every line boundary outside the groups of a namespace is a place of this
    kind, and there is one reading of what stands before it at least. -/
theorem neutral_iff (h : i.WellPlaced) :
    (∃ outer run, i.Parts outer run) ∧ (∀ outer run, i.Parts outer run → (i.Neutral ↔ i.Same outer run)) ∧
    ∀ front rest, i.Parts i.left .nothing → i.newPath? = i.path? → i.right = front ++ '}' :: rest → '}' ∉ front →
      isParted rest 0 (front ++ ['}']) = true →
        (i.Neutral ↔ taken i.path? front = declarationsFrom i.path? (front ++ ['}'])) := by
  have hexists : ∃ outer run, i.Parts outer run := by
    obtain ⟨outer, run, hleft, hrun, hparted⟩ := exists_run h.outside (Nat.zero_le _)
    exact ⟨outer, run, hleft, hrun, hparted⟩
  refine ⟨hexists, fun outer run hparts => neutral_iff_same h hparts, ?_⟩
  intro front rest hparts hpath hright hfront hclosed
  rw [neutral_iff_same h hparts]
  show sort (runOn i.newPath? i.right) = sort (declarationsFrom i.path? i.right) ↔ _
  rw [hpath, hright, runOn_append hfront, declarationsFrom_brace hclosed, sort_append_right_iff]
  refine ⟨fun hsort => ?_, fun heq => congrArg sort heq⟩
  -- each is made of one group at most, so that their order can be told
  have htaken : Numbered (taken i.path? front) := numbered_declarations Option.length_toList_le
  have hgroup : Numbered (declarationsFrom i.path? (front ++ ['}'])) := by
    refine numbered_declarations ((length_groupsFrom_le _ _ _).trans ?_)
    rw [List.drop_zero, List.count_append, List.count_eq_zero_of_not_mem hfront]
    exact Nat.le_refl 1
  refine htaken.eq_of_perm hgroup ?_
  exact (List.mergeSort_perm _ le).symm.trans ((List.Perm.of_eq hsort).trans (List.mergeSort_perm _ le))

/-- A line before a group whose first piece is no entry. -/
def typeFirst : Insertion where
  before := "namespace A \x7b\n    export \x7b a, b \x7d;\n".toList
  behind := "    export \x7b type c, d \x7d;\n\x7d".toList
  margin := "    ".toList
  gap := ['\n']

/-- What is lost of it is not missed. -/
theorem neutral_typeFirst : typeFirst.WellPlaced ∧ typeFirst.path? = some ['A'] ∧ typeFirst.Neutral := by
  have hplaced : typeFirst.WellPlaced := by decide +kernel
  have hparts : typeFirst.Parts typeFirst.left .nothing :=
    ⟨(List.append_nil _).symm, trivial, by decide +kernel⟩
  have hright : typeFirst.right = "    export \x7b type c, d ".toList ++ '}' :: ";\n\x7d".toList := by decide +kernel
  have hneutral := (neutral_iff hplaced).2.2 _ _ hparts (by decide +kernel) hright (by decide +kernel)
    (by decide +kernel)
  exact ⟨hplaced, by decide +kernel, hneutral.mpr (by decide +kernel)⟩

/-- **No empty group is neutral before a written one**: the first item is lost. -/
theorem not_neutral_of_block {b : Layout.Block} (hb : b.WellFormed) (h : i.WellPlaced)
    (hparts : i.Parts i.left .nothing) (hright : i.right = b.text ++ rest) {path : Text}
    (hpath : i.path? = some path) (hnew : i.newPath? = i.path?) : ¬i.Neutral := by
  have hgap : ∀ {c : Char}, isBlank c = false → c ∉ b.before ∧ c ∉ b.lead := fun hc =>
    ⟨hb.before.notMem hc, hb.lead.notMem hc⟩
  have hlist : ∀ {c : Char}, Layout.isItemChar c = false → c ≠ ',' → c ∉ b.list := Layout.Block.notMem_list hb
  obtain ⟨opening, hopening⟩ : ∃ u, u = b.before ++ ("export".toList ++ (b.lead ++ ['{'])) := ⟨_, rfl⟩
  have hno : ∀ {c : Char}, c ∉ "export".toList → c ≠ '{' → isBlank c = false → c ∉ opening := by
    intro c hword hbrace hblank
    rw [hopening]
    exact List.not_mem_append (hgap hblank).1 (List.not_mem_append hword
      (List.not_mem_append (hgap hblank).2 (mt List.mem_singleton.mp hbrace)))
  have hfront : '}' ∉ opening ++ b.list := List.not_mem_append (hno (by decide) (by decide) (by decide))
    (hlist (Layout.not_isItemChar_of_mem (by decide)) (by decide))
  have htext : b.text ++ rest = (opening ++ b.list) ++ '}' :: (b.ending ++ rest) := by
    rw [hopening]
    simp [Layout.Block.text]
  -- what is left behind the group is the same in both texts
  have hending : 'e' ∉ b.ending ∧ 'n' ∉ b.ending := by
    unfold Layout.Block.ending
    split <;> decide
  have hrest : declarationsFrom ((marksIn (opening ++ b.list) ('}' :: (b.ending ++ rest))).getLast?.or (some path))
      (b.ending ++ rest) = declarationsFrom (some path) rest := by
    rw [marksIn_append, marksIn_of_not_mem (hno (by decide) (by decide) (by decide)),
      marksIn_closed_list (hlist (Layout.not_isItemChar_of_mem (by decide)) (by decide)), List.append_nil,
      List.getLast?_nil, Option.none_or, declarationsFrom_pass (noGroupIn_of_notMem hending.1 _),
      marksIn_of_not_mem hending.2, List.getLast?_nil, Option.none_or]
  have hgroup : declarationsFrom (some path) (b.text ++ rest) =
      Group.declarations ⟨path, b.list⟩ ++ declarationsFrom (some path) rest := by
    unfold declarationsFrom
    rw [Layout.groupsFrom_block hb, List.flatMap_cons]
  have htaken : taken (some path) (opening ++ b.list) = Group.declarations ⟨path, behindComma (opening ++ b.list)⟩ := by
    unfold taken
    rw [Option.map_some, Option.toList_some, List.flatMap_singleton]
  rw [neutral_iff_same h hparts]
  show ¬sort (runOn i.newPath? i.right) = sort (declarationsFrom i.path? i.right)
  rw [hnew, hpath, hright, hgroup, htext, runOn_append hfront, hrest, htaken, sort_append_right_iff]
  intro hsort
  have hlength := congrArg List.length hsort
  unfold sort at hlength
  rw [List.length_mergeSort, List.length_mergeSort, Group.length_declarations, Group.length_declarations,
    Layout.entries_list hb, List.length_map] at hlength
  have hlost := length_behindComma hb (hno (by decide) (by decide) (by decide))
  exact Nat.succ_ne_self _ (hlost.trans hlength.symm)

/-- A group of two items. -/
def twoItems : Layout.Block :=
  ⟨"    ".toList, [' '], Layout.plainItem " " "a", [⟨[' '], ['b'], none, [' ']⟩], none, true⟩

/-- A line with an empty group before it. -/
def nextGroup : Insertion where
  before := "namespace A \x7b\n".toList
  behind := "    export \x7b a, b \x7d;\n\x7d".toList
  margin := "    ".toList
  gap := ['\n']

/-- **An empty group is not neutral**: behind it, `a` is not found any more. -/
theorem not_neutral_nextGroup : nextGroup.WellPlaced ∧ nextGroup.path? = some ['A'] ∧ ¬nextGroup.Neutral := by
  have hplaced : nextGroup.WellPlaced := by decide +kernel
  have hparts : nextGroup.Parts nextGroup.left .nothing :=
    ⟨(List.append_nil _).symm, trivial, by decide +kernel⟩
  have hpath : nextGroup.path? = some ['A'] := by decide +kernel
  have hright : nextGroup.right = twoItems.text ++ "\n\x7d".toList := by decide +kernel
  exact ⟨hplaced, hpath, not_neutral_of_block (by decide +kernel) hplaced hparts hright hpath (by decide +kernel)⟩

end Neutral

end Insertion

end ReExport
end Ambient
