import Ambient.Proofs.ReExport.Parting

/-!
# Empty groups run on

The list of a group has one character at least. Behind `export {` a closing brace is therefore the first character
of the list and closes nothing: an empty group runs on to the next closing brace, whatever that belongs to.

* `groupAt?_empty`: the list of an empty group holds all up to there;
* `entries_empty`: it has the entries behind the first comma, for its first piece starts with the brace;
* `runOn`: what an empty group makes of the text behind it, and `declarationsFrom_empty`: that it does;
* `OutsideGroups`: a place that is in no group as it is written. Between the groups that are read, or where an
  empty group runs on over it: `exists_run`.
-/

namespace Ambient.ReExport

/-! ## 1. Behind the first comma -/

/-- What stands behind the first comma. -/
def behindComma (t : Text) : Text := ((Text.cut? [','] t).map Prod.snd).getD []

theorem behindComma_append {a : Text} (ha : ',' ∉ a) (b : Text) : behindComma (a ++ ',' :: b) = b := by
  unfold behindComma
  rw [Text.cut?_singleton_iff.mpr ⟨rfl, ha⟩]
  rfl

theorem behindComma_of_notMem {a : Text} (ha : ',' ∉ a) : behindComma a = [] := by
  unfold behindComma
  rw [Text.cut?_eq_none ha]
  rfl

/-- What stands before the first comma makes no difference. -/
theorem behindComma_skip {a : Text} (ha : ',' ∉ a) (t : Text) : behindComma (a ++ t) = behindComma t := by
  by_cases ht : ',' ∈ t
  · obtain ⟨b, rest, rfl, hb⟩ := List.eq_append_cons_of_mem ht
    rw [← List.append_assoc, behindComma_append (List.not_mem_append ha hb), behindComma_append hb]
  · rw [behindComma_of_notMem (List.not_mem_append ha ht), behindComma_of_notMem ht]

theorem entries_append {a : Text} (ha : ',' ∉ a) (b : Text) :
    entries (a ++ ',' :: b) = (Entry.read? (Text.trim a)).toList ++ entries b := by
  unfold entries
  rw [List.splitOn_append_cons_self, List.splitOn_eq_singleton ha, List.singleton_append, List.filterMap_cons]
  cases Entry.read? (Text.trim a) <;> rfl

theorem entries_of_notMem {a : Text} (ha : ',' ∉ a) : entries a = (Entry.read? (Text.trim a)).toList := by
  unfold entries
  rw [List.splitOn_eq_singleton ha, List.filterMap_cons]
  cases Entry.read? (Text.trim a) <;> rfl

/-- **An empty group has the entries behind the next comma**: its first piece starts with the brace. -/
theorem entries_empty (t : Text) : entries ('}' :: t) = entries (behindComma t) := by
  have hfirst : ∀ a, Entry.read? (Text.trim ('}' :: a)) = none := by
    intro a
    rw [Text.trim_of_head (by decide)]
    unfold Entry.read? Text.wordRun?
    dsimp only
    rw [List.takeWhile_cons, show isWordChar '}' = false from by decide +kernel]
    rfl
  by_cases hcomma : ',' ∈ t
  · obtain ⟨a, b, rfl, ha⟩ := List.eq_append_cons_of_mem hcomma
    have hpiece : ',' ∉ '}' :: a := fun hm => ha ((List.mem_cons.mp hm).resolve_left (by decide))
    rw [behindComma_append ha, ← List.cons_append, entries_append hpiece, hfirst]
    rfl
  · have hpiece : ',' ∉ '}' :: t := fun hm => hcomma ((List.mem_cons.mp hm).resolve_left (by decide))
    rw [behindComma_of_notMem hcomma, entries_of_notMem hpiece, hfirst]
    rfl

/-- So are its declarations. -/
theorem declarations_empty (path t : Text) :
    Group.declarations ⟨path, '}' :: t⟩ = Group.declarations ⟨path, behindComma t⟩ := by
  unfold Group.declarations
  rw [entries_empty]

/-- Of a written group all items but the first stand behind the first comma. -/
theorem length_behindComma {b : Layout.Block} (h : b.WellFormed) {u : Text} (hu : ',' ∉ u) :
    (entries (behindComma (u ++ b.list))).length + 1 = b.items.length := by
  have hfirst := h.items b.first List.mem_cons_self
  have hread : Entry.read? (Text.trim b.first.text) = some b.first.entry := by
    rw [Layout.trim_text hfirst, Layout.read?_entryText hfirst]
  have hno : ',' ∉ b.first.text := fun hm => Bool.false_ne_true
    ((Layout.not_isItemChar_of_mem (by decide)).symm.trans (Layout.Item.isItemChar hfirst ',' hm))
  have hlength := congrArg List.length (Layout.entries_list h)
  rw [List.length_map] at hlength
  have hlist : b.list = b.first.text ∨ ∃ more, b.list = b.first.text ++ ',' :: more := by
    unfold Layout.Block.list Layout.Block.items
    rw [List.map_cons, List.cons_append]
    cases b.others.map Layout.Item.text ++ b.trailing?.toList with
    | nil => exact .inl (Text.joinWith_singleton _ _)
    | cons piece pieces => exact .inr ⟨_, Text.joinWith_cons_cons _ _ _ _⟩
  rw [behindComma_skip hu]
  rcases hlist with hlist | ⟨more, hlist⟩
  · rw [hlist, entries_of_notMem hno, hread] at hlength
    rw [hlist, behindComma_of_notMem hno, ← hlength]
    rfl
  · rw [hlist, entries_append hno, hread, Option.toList_some, List.singleton_append, List.length_cons] at hlength
    rw [hlist, behindComma_append hno, hlength]

/-! ## 2. What is made of the text behind -/

/-- What an empty group makes of the text up to the next closing brace. -/
def taken (path? : Option Text) (front : Text) : List Declaration :=
  (path?.map fun path => (⟨path, behindComma front⟩ : Group)).toList.flatMap Group.declarations

/-- **What is made of the text behind an empty group**: nothing without a closing brace; else what the group takes,
    and what is left behind that brace. -/
def runOn (path? : Option Text) (t : Text) : List Declaration :=
  match Text.cut? ['}'] t with
  | none => []
  | some (front, rest) =>
    taken path? front ++ declarationsFrom ((marksIn front ('}' :: rest)).getLast?.or path?) rest

section RunOn

variable {head gap front rest t : Text} {path? : Option Text}

theorem runOn_of_notMem (h : '}' ∉ t) (path? : Option Text) : runOn path? t = [] := by
  unfold runOn
  rw [Text.cut?_eq_none h]

theorem runOn_append (h : '}' ∉ front) (path? : Option Text) (rest : Text) :
    runOn path? (front ++ '}' :: rest) =
      taken path? front ++ declarationsFrom ((marksIn front ('}' :: rest)).getLast?.or path?) rest := by
  unfold runOn
  rw [Text.cut?_singleton_iff.mpr ⟨rfl, h⟩]

/-- **The list of an empty group goes on to the next closing brace**, -/
theorem groupAt?_empty (hhead : IsGroupHead head) (hfront : '}' ∉ front) (rest : Text) :
    groupAt? (head ++ '{' :: '}' :: (front ++ '}' :: rest)) = some ('}' :: front, rest) :=
  groupAt?_iff.mpr ⟨head, hhead, rfl, List.cons_ne_nil _ _, hfront⟩

/-- and without one there is no group. -/
theorem groupAt?_empty_of_notMem (hhead : IsGroupHead head) (h : '}' ∉ t) :
    groupAt? (head ++ '{' :: '}' :: t) = none := by
  by_contra hsome
  obtain ⟨⟨list, rest⟩, hp⟩ := Option.ne_none_iff_exists'.mp hsome
  obtain ⟨head', hhead', htext, hne, -⟩ := groupAt?_iff.mp hp
  obtain ⟨-, hbehind⟩ := Text.append_cons_inj (hhead.notMem (by decide) (by decide))
    (hhead'.notMem (by decide) (by decide)) htext
  obtain ⟨c, list, rfl⟩ := List.exists_cons_of_ne_nil hne
  refine h ?_
  rw [show t = list ++ '}' :: rest from (List.cons.inj hbehind).2]
  exact List.mem_append_right _ List.mem_cons_self

/-- No mark begins at a closing brace. -/
theorem marksIn_concat_brace (front rest : Text) : marksIn (front ++ ['}']) rest = marksIn front ('}' :: rest) := by
  have hbrace : marksIn ['}'] rest = [] := marksIn_of_not_mem (by decide) rest
  rw [marksIn_append, hbrace, List.append_nil, List.singleton_append]

/-- An empty group as far as its braces: there is but one `e`, and no `n`. -/
theorem IsGroupHead.exists_letters (hhead : IsGroupHead head) : ∃ letters,
    (∀ u, head ++ '{' :: '}' :: u = 'e' :: (letters ++ u)) ∧ 'e' ∉ letters ∧ 'n' ∉ letters := by
  obtain ⟨gap, rfl, -, hgap⟩ := hhead
  have hno : ∀ c, c ∉ "xport".toList → isBlank c = false → c ∉ ['{', '}'] →
      c ∉ "xport".toList ++ (gap ++ ['{', '}']) := fun c hword hblank hbraces =>
    List.not_mem_append hword (List.not_mem_append (Text.notMem_of_blank hgap hblank) hbraces)
  refine ⟨"xport".toList ++ (gap ++ ['{', '}']), fun u => ?_, hno 'e' (by decide) (by decide) (by decide),
    hno 'n' (by decide) (by decide) (by decide)⟩
  rw [export_word]
  simp

theorem groupsFrom_empty (hhead : IsGroupHead head) (hfront : '}' ∉ front) (path? : Option Text) (rest : Text) :
    groupsFrom path? 0 (head ++ '{' :: '}' :: (front ++ '}' :: rest)) =
      (path?.map fun path => ⟨path, '}' :: front⟩).toList ++
        groupsFrom ((marksIn front ('}' :: rest)).getLast?.or path?) 0 rest := by
  have hgroup := groupAt?_empty hhead hfront rest
  obtain ⟨letters, hsplit, -, hn⟩ := hhead.exists_letters
  have hbehind : letters ++ (front ++ '}' :: rest) = (letters ++ (front ++ ['}'])) ++ rest := by simp
  rw [hsplit] at hgroup ⊢
  rw [groupsFrom, hgroup]
  dsimp only
  rw [hbehind, List.length_append, Nat.add_sub_cancel, groupsFrom_skip, marksIn_append, marksIn_of_not_mem hn,
    List.nil_append, marksIn_concat_brace]

theorem groupsFrom_empty_of_notMem (hhead : IsGroupHead head) (h : '}' ∉ t) (path? : Option Text) :
    groupsFrom path? 0 (head ++ '{' :: '}' :: t) = [] := by
  have hgroup := groupAt?_empty_of_notMem hhead h
  obtain ⟨letters, hsplit, he, -⟩ := hhead.exists_letters
  rw [hsplit] at hgroup ⊢
  rw [groupsFrom, hgroup]
  dsimp only
  rw [groupsFrom_pass (noGroupIn_of_notMem he _), groupsFrom_of_notMem h]

/-- **An empty group makes what `runOn` says.** -/
theorem declarationsFrom_empty (hhead : IsGroupHead head) (path? : Option Text) (t : Text) :
    declarationsFrom path? (head ++ '{' :: '}' :: t) = runOn path? t := by
  unfold declarationsFrom
  by_cases hclosed : '}' ∈ t
  · obtain ⟨front, rest, rfl, hfront⟩ := List.eq_append_cons_of_mem hclosed
    rw [groupsFrom_empty hhead hfront, runOn_append hfront, List.flatMap_append]
    unfold taken
    cases path? with
    | none => rfl
    | some path =>
      rw [Option.map_some, Option.map_some, Option.toList_some, Option.toList_some, List.flatMap_singleton,
        List.flatMap_singleton, declarations_empty]
      rfl
  · rw [groupsFrom_empty_of_notMem hhead hclosed, runOn_of_notMem hclosed]
    rfl

/-- A semicolon and white space add nothing to it. -/
theorem runOn_semicolon (hgap : ∀ c ∈ gap, isBlank c = true) (path? : Option Text) (t : Text) :
    runOn path? (';' :: (gap ++ t)) = runOn path? t := by
  have hno : ∀ c, c ≠ ';' → isBlank c = false → c ∉ ';' :: gap := fun c hc hblank hm =>
    Text.notMem_of_blank hgap hblank ((List.mem_cons.mp hm).resolve_left hc)
  have htext : ∀ u, ';' :: (gap ++ u) = (';' :: gap) ++ u := fun _ => rfl
  by_cases hclosed : '}' ∈ t
  · obtain ⟨front, rest, rfl, hfront⟩ := List.eq_append_cons_of_mem hclosed
    have hfront' : '}' ∉ (';' :: gap) ++ front := List.not_mem_append (hno '}' (by decide) (by decide)) hfront
    rw [htext, ← List.append_assoc, runOn_append hfront', runOn_append hfront, marksIn_append,
      marksIn_of_not_mem (hno 'n' (by decide) (by decide)), List.nil_append]
    unfold taken
    rw [behindComma_skip (hno ',' (by decide) (by decide))]
  · rw [htext, runOn_of_notMem (List.not_mem_append (hno '}' (by decide) (by decide)) hclosed), runOn_of_notMem hclosed]

end RunOn

/-! ## 3. Places outside groups -/

/-- **No group as it is written goes over the place between the texts**: what is opened before it is closed before
    it. -/
def OutsideGroups (a b : Text) : Prop :=
  ∀ s, s <:+ a → s ≠ [] → (opened? (s ++ b)).isSome = true → ∃ behind, opened? s = some behind ∧ '}' ∈ behind

instance (a b : Text) : Decidable (OutsideGroups a b) :=
  decidable_of_iff ((a.tails.all fun s =>
      s.isEmpty || (opened? (s ++ b)).isNone || (opened? s).any fun behind => behind.contains '}') = true) (by
    unfold OutsideGroups
    rw [List.all_eq_true]
    refine forall_congr' fun s => ?_
    rw [List.mem_tails]
    refine imp_congr_right fun _ => ?_
    cases s with
    | nil => simp
    | cons c s => cases h : opened? (c :: s ++ b) <;> cases h' : opened? (c :: s) <;> simp_all)

/-- What may run on over a place: nothing, or an empty group, with what stands behind it. -/
inductive Run where
  | nothing
  | emptyGroup (head tail : Text)

namespace Run

def text : Run → Text
  | nothing => []
  | emptyGroup head tail => head ++ '{' :: '}' :: tail

def WellFormed : Run → Prop
  | nothing => True
  | emptyGroup head tail => IsGroupHead head ∧ '}' ∉ tail

end Run

section Places

variable {a b : Text}

theorem OutsideGroups.of_cons {c : Char} (h : OutsideGroups (c :: a) b) : OutsideGroups a b :=
  fun s hs => h s (hs.trans (List.suffix_cons c a))

/-- A group that is opened and closed is read as far as it is written, unless it is empty and runs on. -/
theorem groupAt?_or_empty {t behind : Text} (h : opened? t = some behind) (hclosed : '}' ∈ behind) :
    (∃ list rest, groupAt? t = some (list, rest)) ∨
      ∃ head tail, (IsGroupHead head ∧ '}' ∉ tail) ∧ t = head ++ '{' :: '}' :: tail := by
  obtain ⟨head, hhead, rfl⟩ := opened?_iff.mp h
  obtain ⟨c, more, rfl⟩ := List.exists_cons_of_ne_nil (List.ne_nil_of_mem hclosed)
  by_cases hmore : '}' ∈ more
  · obtain ⟨list, rest, rfl, hlist⟩ := List.eq_append_cons_of_mem hmore
    exact .inl ⟨c :: list, rest, groupAt?_iff.mpr ⟨head, hhead, rfl, List.cons_ne_nil _ _, hlist⟩⟩
  · obtain rfl : '}' = c := (List.mem_cons.mp hclosed).resolve_right hmore
    exact .inr ⟨head, more, ⟨hhead, hmore⟩, rfl⟩

/-- **A place outside groups** is one at which the text is parted, but for an empty group that runs on over it. -/
theorem exists_run {skip : Nat} (h : OutsideGroups a b) (hskip : skip ≤ a.length) :
    ∃ outer run, a = outer ++ Run.text run ∧ run.WellFormed ∧ isParted (run.text ++ b) skip outer = true := by
  fun_induction isParted b skip a with
  | case1 => exact ⟨[], .nothing, rfl, trivial, rfl⟩
  | case2 => exact absurd hskip (Nat.not_succ_le_zero _)
  | case3 skip c a ih =>
    obtain ⟨outer, run, rfl, hrun, hparted⟩ := ih h.of_cons (Nat.le_of_succ_le_succ hskip)
    exact ⟨c :: outer, run, rfl, hrun, hparted⟩
  | case4 c a list rest hgroup ih =>
    have hopened : (opened? (c :: a ++ b)).isSome = true := Option.isSome_of_eq_some (opened?_of_groupAt? hgroup)
    obtain ⟨behind, hbehind, hclosed⟩ := h (c :: a) List.suffix_rfl (List.cons_ne_nil _ _) hopened
    rcases groupAt?_or_empty hbehind hclosed with ⟨list', rest', hwithin⟩ | ⟨head, tail, hrun, htext⟩
    · have hsame := groupAt?_append hwithin b
      rw [List.cons_append, hgroup] at hsame
      obtain ⟨-, rfl⟩ := Prod.mk.inj (Option.some.inj hsame)
      have hle : (a ++ b).length - (rest' ++ b).length ≤ a.length := by
        rw [List.length_append, List.length_append]
        omega
      obtain ⟨outer, run, rfl, hrun, hparted⟩ := ih h.of_cons hle
      refine ⟨c :: outer, run, rfl, hrun, ?_⟩
      rw [List.append_assoc] at hgroup hparted
      rw [isParted, hgroup]
      exact hparted
    · exact ⟨[], .emptyGroup head tail, htext, hrun, rfl⟩
  | case5 c a hgroup ih =>
    cases hopened : opened? (c :: (a ++ b)) with
    | some behind =>
      obtain ⟨behind, hbehind, hclosed⟩ := h (c :: a) List.suffix_rfl (List.cons_ne_nil _ _)
        (Option.isSome_of_eq_some hopened)
      rcases groupAt?_or_empty hbehind hclosed with ⟨list', rest', hwithin⟩ | ⟨head, tail, hrun, htext⟩
      · have hsame := groupAt?_append hwithin b
        rw [List.cons_append, hgroup] at hsame
        cases hsame
      · exact ⟨[], .emptyGroup head tail, htext, hrun, rfl⟩
    | none =>
      obtain ⟨outer, run, rfl, hrun, hparted⟩ := ih h.of_cons (Nat.zero_le _)
      refine ⟨c :: outer, run, rfl, hrun, ?_⟩
      rw [List.append_assoc] at hgroup hopened
      rw [isParted, hgroup]
      dsimp only
      rw [hopened]
      exact hparted

end Places

end Ambient.ReExport
