import Ambient.Proofs.ReExport.Namespaces
import Ambient.Proofs.Scanner.OpeningOrder
import Ambient.Proofs.Text.Squeeze

/-!
# Files of export groups

A file of export groups is a list of modules, each a heading line, groups with white space between them, and a
closing brace. A name may be any word, also `as`, `export` or `namespace`.

* `Module.WellFormed` is the syntax. A heading may not end in `export`, for its brace would then open a group;
* `entries_list`: a group's list holds its items, whatever white space stands around them;
* `groupsFrom_block`: one group, with the namespace that its heading has left behind;
* `groups_text`: **the groups of a file are those that were written**, each in its module's namespace;
* `ReadsBack`, `reads_back`: so are the declarations, and the scanner adds none of their kind.
-/

namespace Ambient
namespace ReExport

/-! ## 1. Syntax -/

namespace Layout

/-- White space without a carriage return. -/
def IsGap (t : Text) : Prop := ∀ c ∈ t, isBlank c = true ∧ c ≠ '\r'

instance (t : Text) : Decidable (IsGap t) :=
  decidable_of_iff ((t.all fun c => isBlank c && c != '\r') = true) (by simp [IsGap])

/-- One word character or more. -/
structure IsWord (t : Text) : Prop where
  ne_nil : t ≠ []
  chars : ∀ c ∈ t, isWordChar c = true

instance (t : Text) : Decidable (IsWord t) :=
  decidable_of_iff (t ≠ [] ∧ t.all isWordChar = true) ⟨fun ⟨hne, hchars⟩ => ⟨hne, List.all_eq_true.mp hchars⟩,
    fun h => ⟨h.ne_nil, List.all_eq_true.mpr h.chars⟩⟩

/-- The new name of an item, with the white space on either side of its `as`. -/
structure Alias where
  left : Text
  right : Text
  name : Text

/-- `name` or `name as alias`, with the white space around it. -/
structure Item where
  before : Text
  name : Text
  alias? : Option Alias
  behind : Text

/-- A group, with the white space before it. -/
structure Block where
  before : Text
  /-- Between `export` and the brace. -/
  lead : Text
  first : Item
  others : List Item
  /-- What stands behind a trailing comma, if there is one. -/
  trailing? : Option Text
  semicolon : Bool

structure Module where
  path : Text
  blocks : List Block
  /-- Between the last group and the brace. -/
  foot : Text
  /-- Behind the brace. -/
  behind : Text

namespace Alias

def text (a : Alias) : Text := a.left ++ ("as".toList ++ (a.right ++ a.name))

structure WellFormed (a : Alias) : Prop where
  left_ne : a.left ≠ []
  left : IsGap a.left
  right_ne : a.right ≠ []
  right : IsGap a.right
  name : IsWord a.name

instance (a : Alias) : Decidable a.WellFormed :=
  decidable_of_iff (a.left ≠ [] ∧ IsGap a.left ∧ a.right ≠ [] ∧ IsGap a.right ∧ IsWord a.name)
    ⟨fun ⟨hleftne, hleft, hrightne, hright, hname⟩ => ⟨hleftne, hleft, hrightne, hright, hname⟩,
      fun h => ⟨h.left_ne, h.left, h.right_ne, h.right, h.name⟩⟩

end Alias

namespace Item

/-- The item without the white space around it. -/
def entryText (i : Item) : Text := i.name ++ (i.alias?.map Alias.text).getD []

def text (i : Item) : Text := i.before ++ (i.entryText ++ i.behind)

/-- The name under which it is exported. -/
def exported (i : Item) : Text := (i.alias?.map Alias.name).getD i.name

def entry (i : Item) : Entry := ⟨i.entryText, i.exported⟩

structure WellFormed (i : Item) : Prop where
  before : IsGap i.before
  name : IsWord i.name
  aliased : ∀ a ∈ i.alias?, a.WellFormed
  behind : IsGap i.behind

instance (i : Item) : Decidable i.WellFormed :=
  decidable_of_iff (IsGap i.before ∧ IsWord i.name ∧ (∀ a ∈ i.alias?, a.WellFormed) ∧ IsGap i.behind)
    ⟨fun ⟨hbefore, hname, halias, hbehind⟩ => ⟨hbefore, hname, halias, hbehind⟩,
      fun h => ⟨h.before, h.name, h.aliased, h.behind⟩⟩

end Item

namespace Block

def items (b : Block) : List Item := b.first :: b.others

/-- What stands between the braces. -/
def list (b : Block) : Text := Text.joinWith [','] (b.items.map Item.text ++ b.trailing?.toList)

def ending (b : Block) : Text := if b.semicolon then [';'] else []

def text (b : Block) : Text :=
  b.before ++ ("export".toList ++ (b.lead ++ '{' :: (b.list ++ '}' :: b.ending)))

structure WellFormed (b : Block) : Prop where
  before : IsGap b.before
  lead_ne : b.lead ≠ []
  lead : IsGap b.lead
  items : ∀ i ∈ b.items, i.WellFormed
  trailing : ∀ gap ∈ b.trailing?, IsGap gap

instance (b : Block) : Decidable b.WellFormed :=
  decidable_of_iff (IsGap b.before ∧ b.lead ≠ [] ∧ IsGap b.lead ∧ (∀ i ∈ b.items, i.WellFormed) ∧
      ∀ gap ∈ b.trailing?, IsGap gap)
    ⟨fun ⟨hbefore, hne, hlead, hitems, htrailing⟩ => ⟨hbefore, hne, hlead, hitems, htrailing⟩,
      fun h => ⟨h.before, h.lead_ne, h.lead, h.items, h.trailing⟩⟩

end Block

namespace Module

def heading (m : Module) : Text := "namespace ".toList ++ (m.path ++ [' ', '{'])

/-- What stands between the heading's line and the brace. -/
def body (m : Module) : Text := m.blocks.flatMap Block.text ++ m.foot

def text (m : Module) : Text := m.heading ++ '\n' :: (m.body ++ '}' :: m.behind)

structure WellFormed (m : Module) : Prop where
  path_ne : m.path ≠ []
  path : ∀ c ∈ m.path, (isWordChar c || c == '.') = true
  noExport : ¬"export".toList <:+ m.path
  blocks : ∀ b ∈ m.blocks, b.WellFormed
  foot : IsGap m.foot
  behind : IsGap m.behind

instance (m : Module) : Decidable m.WellFormed :=
  decidable_of_iff (m.path ≠ [] ∧ (m.path.all fun c => isWordChar c || c == '.') = true ∧
      ¬"export".toList <:+ m.path ∧ (∀ b ∈ m.blocks, b.WellFormed) ∧ IsGap m.foot ∧ IsGap m.behind)
    ⟨fun ⟨hne, hpath, hexport, hblocks, hfoot, hbehind⟩ =>
      ⟨hne, List.all_eq_true.mp hpath, hexport, hblocks, hfoot, hbehind⟩,
      fun h => ⟨h.path_ne, List.all_eq_true.mpr h.path, h.noExport, h.blocks, h.foot, h.behind⟩⟩

end Module

/-- A file of modules. -/
def text (ms : List Module) : Text := ms.flatMap Module.text

/-! ## 2. Characters -/

section Characters

variable {t : Text} {c : Char}

theorem IsGap.blank (h : IsGap t) : ∀ c ∈ t, isBlank c = true := fun c hc => (h c hc).1

/-- A gap has no character that is not a blank. -/
theorem IsGap.notMem (h : IsGap t) (hc : isBlank c = false) : c ∉ t := Text.notMem_of_blank h.blank hc

theorem isBlank_of_isWordChar (h : isWordChar c = true) : isBlank c = false :=
  isBlank_of_isNamePart (by rw [h]; rfl)

/-- The characters of an item. -/
def isItemChar (c : Char) : Bool := isWordChar c || (isBlank c && c != '\r')

theorem IsGap.isItemChar (h : IsGap t) : ∀ c ∈ t, isItemChar c = true := by
  intro c hc
  obtain ⟨hblank, hreturn⟩ := h c hc
  simp [Layout.isItemChar, hblank, hreturn]

theorem IsWord.isItemChar (h : IsWord t) : ∀ c ∈ t, isItemChar c = true := by
  intro c hc
  simp [Layout.isItemChar, h.chars c hc]

theorem Item.isItemChar {i : Item} (h : i.WellFormed) : ∀ c ∈ i.text, Layout.isItemChar c = true := by
  have has : ("as".toList.all Layout.isItemChar) = true := by decide +kernel
  have halias : ∀ c ∈ (i.alias?.map Alias.text).getD [], Layout.isItemChar c = true := by
    cases ha : i.alias? with
    | none => exact fun c hc => absurd hc List.not_mem_nil
    | some a =>
      have ha := h.aliased a ha
      exact List.forall_mem_append.mpr ⟨ha.left.isItemChar, List.forall_mem_append.mpr ⟨List.all_eq_true.mp has,
        List.forall_mem_append.mpr ⟨ha.right.isItemChar, ha.name.isItemChar⟩⟩⟩
  exact List.forall_mem_append.mpr ⟨h.before.isItemChar, List.forall_mem_append.mpr
    ⟨List.forall_mem_append.mpr ⟨h.name.isItemChar, halias⟩, h.behind.isItemChar⟩⟩

/-- The characters that part a file. -/
theorem not_isItemChar_of_mem (h : c ∈ [',', '{', '}', '\r']) : isItemChar c = false := by
  have hall : ([',', '{', '}', '\r'].all fun c => !isItemChar c) = true := by decide +kernel
  have hno := List.all_eq_true.mp hall c h
  rwa [Bool.not_eq_true'] at hno

/-- The pieces of a list have the characters of items, -/
theorem Block.isItemChar_pieces {b : Block} (h : b.WellFormed) :
    ∀ piece ∈ b.items.map Item.text ++ b.trailing?.toList, ∀ c ∈ piece, isItemChar c = true := by
  intro piece hpiece
  rcases List.mem_append.mp hpiece with hpiece | hpiece
  · obtain ⟨i, hi, rfl⟩ := List.mem_map.mp hpiece
    exact Item.isItemChar (h.items i hi)
  · exact (h.trailing piece (Option.mem_toList.mp hpiece)).isItemChar

/-- and between them there are only commas. -/
theorem Block.notMem_list {b : Block} (h : b.WellFormed) (hc : isItemChar c = false) (hcomma : c ≠ ',') :
    c ∉ b.list := by
  intro hm
  rcases Text.mem_joinWith hm with hm | ⟨piece, hpiece, hm⟩
  · exact hcomma (List.mem_singleton.mp hm)
  · rw [Block.isItemChar_pieces h piece hpiece c hm] at hc
    cases hc

end Characters

/-! ## 3. Items -/

section Items

variable {name rest : Text}

theorem wordRun?_append (hname : IsWord name) (hrest : ∀ c ∈ rest.head?, isWordChar c = false) :
    Text.wordRun? (name ++ rest) = some (name, rest) := by
  have htake : rest.takeWhile isWordChar = [] := by
    cases rest with
    | nil => rfl
    | cons c rest => rw [List.takeWhile_cons, hrest c rfl, if_neg Bool.false_ne_true]
  have hdrop : rest.dropWhile isWordChar = rest := by
    cases rest with
    | nil => rfl
    | cons c rest => rw [List.dropWhile_cons, hrest c rfl, if_neg Bool.false_ne_true]
  unfold Text.wordRun?
  dsimp only
  rw [List.takeWhile_append_of_pos hname.chars, List.dropWhile_append_of_pos hname.chars, htake, hdrop,
    List.append_nil, List.isEmpty_eq_false_iff.mpr hname.ne_nil, if_neg Bool.false_ne_true]

theorem wordRun?_self (hname : IsWord name) : Text.wordRun? name = some (name, []) := by
  have hnone : ∀ c ∈ ([] : Text).head?, isWordChar c = false := by simp
  have h := wordRun?_append hname hnone
  rwa [List.append_nil] at h

theorem IsWord.head (hname : IsWord name) (rest : Text) : ∀ c ∈ (name ++ rest).head?, isBlank c = false := by
  obtain ⟨c, name, rfl⟩ := List.exists_cons_of_ne_nil hname.ne_nil
  intro d hd
  cases hd
  exact isBlank_of_isWordChar (hname.chars c List.mem_cons_self)

theorem IsWord.last (before : Text) (hname : IsWord name) :
    ∀ c ∈ (before ++ name).getLast?, isBlank c = false := by
  intro c hc
  rw [List.getLast?_append_of_ne_nil _ hname.ne_nil] at hc
  exact isBlank_of_isWordChar (hname.chars c (List.mem_of_getLast? hc))

/-- **An item is read as its entry.** -/
theorem read?_entryText {i : Item} (h : i.WellFormed) : Entry.read? i.entryText = some i.entry := by
  unfold Item.entry Item.entryText Item.exported
  cases ha : i.alias? with
  | none =>
    rw [Option.map_none, Option.map_none, Option.getD_none, Option.getD_none, List.append_nil]
    unfold Entry.read?
    rw [wordRun?_self h.name]
    rfl
  | some a =>
    have ha := h.aliased a ha
    have hblank : ∀ c ∈ a.text.head?, isWordChar c = false := by
      obtain ⟨d, left, hleft⟩ := List.exists_cons_of_ne_nil ha.left_ne
      intro c hc
      have hd : c = d := by
        rw [Alias.text, hleft] at hc
        exact (Option.some.inj hc).symm
      rw [← Bool.not_eq_true]
      intro hword
      have hb := ha.left.blank d (hleft ▸ List.mem_cons_self)
      rw [← hd, isBlank_of_isWordChar hword] at hb
      cases hb
    have hne : a.text.isEmpty = false :=
      List.isEmpty_eq_false_iff.mpr (List.append_ne_nil_of_left_ne_nil ha.left_ne _)
    have hleft : Text.afterBlanks? a.text = some ("as".toList ++ (a.right ++ a.name)) :=
      Text.afterBlanks?_append ha.left_ne ha.left.blank fun c hc => by cases hc; rfl
    have hright : Text.afterBlanks? (a.right ++ a.name) = some a.name := by
      have hhead := ha.name.head []
      rw [List.append_nil] at hhead
      exact Text.afterBlanks?_append ha.right_ne ha.right.blank hhead
    rw [Option.map_some, Option.map_some, Option.getD_some, Option.getD_some]
    unfold Entry.read?
    rw [wordRun?_append h.name hblank, Option.bind_eq_bind, Option.bind_some]
    dsimp only
    rw [hne, if_neg Bool.false_ne_true, hleft, Option.bind_eq_bind, Option.bind_some, Text.isPrefixOf?_append,
      Option.bind_some, hright, Option.bind_some, wordRun?_self ha.name]
    rfl

theorem trim_text {i : Item} (h : i.WellFormed) : Text.trim i.text = i.entryText := by
  have hlast : ∀ c ∈ i.entryText.getLast?, isBlank c = false := by
    unfold Item.entryText
    cases ha : i.alias? with
    | none =>
      rw [Option.map_none, Option.getD_none, List.append_nil]
      exact h.name.last []
    | some a =>
      have hsplit : i.name ++ a.text = (i.name ++ (a.left ++ ("as".toList ++ a.right))) ++ a.name := by
        simp [Alias.text]
      rw [Option.map_some, Option.getD_some, hsplit]
      exact (h.aliased a ha).name.last _
  unfold Item.text
  rw [Text.trim_append h.before.blank, Text.trim_append_blank _ h.behind.blank]
  exact Text.trim_eq_self (h.name.head _) hlast

/-- **The entries of a group's list are its items**, and a trailing comma adds none. -/
theorem entries_list {b : Block} (h : b.WellFormed) : entries b.list = b.items.map Item.entry := by
  have hcomma : ∀ piece ∈ b.items.map Item.text ++ b.trailing?.toList, ',' ∉ piece := by
    intro piece hpiece hm
    have hchar := Block.isItemChar_pieces h piece hpiece ',' hm
    rw [not_isItemChar_of_mem (by decide)] at hchar
    cases hchar
  have hpieces : b.list.splitOn ',' = b.items.map Item.text ++ b.trailing?.toList :=
    List.splitOn_intercalate ',' hcomma (List.append_ne_nil_of_left_ne_nil (List.cons_ne_nil _ _) _)
  have hitems : (b.items.map Item.text).filterMap (fun piece => Entry.read? (Text.trim piece)) =
      b.items.map Item.entry := by
    rw [List.filterMap_map, ← List.filterMap_eq_map]
    refine List.filterMap_congr fun i hi => ?_
    show Entry.read? (Text.trim i.text) = some i.entry
    rw [trim_text (h.items i hi), read?_entryText (h.items i hi)]
  have htrailing : b.trailing?.toList.filterMap (fun piece => Entry.read? (Text.trim piece)) = [] := by
    refine List.filterMap_eq_nil_iff.mpr fun piece hpiece => ?_
    rw [Text.trim_of_all_blank (h.trailing piece (Option.mem_toList.mp hpiece)).blank]
    rfl
  unfold entries
  rw [hpieces, List.filterMap_append, hitems, htrailing, List.append_nil]

end Items

end Layout

/-! ## 4. Passing over a text -/

/-- No group begins in the text, when `rest` follows it. -/
def NoGroupIn (t rest : Text) : Prop := ∀ b, b <:+ t → b ≠ [] → groupAt? (b ++ rest) = none

section Passing

variable {path? : Option Text} {path t lead list rest : Text}

/-- A group begins with its first letter. -/
theorem groupAt?_of_ne {c : Char} (h : c ≠ 'e') (t : Text) : groupAt? (c :: t) = none := by
  unfold groupAt?
  rw [export_word, Text.isPrefixOf?_cons, beq_eq_false_iff_ne.mpr (Ne.symm h), if_neg Bool.false_ne_true]
  rfl

theorem noGroupIn_of_notMem (h : 'e' ∉ t) (rest : Text) : NoGroupIn t rest := by
  intro b hb hne
  obtain ⟨c, b, rfl⟩ := List.exists_cons_of_ne_nil hne
  exact groupAt?_of_ne (fun hc => h (hb.subset (hc ▸ List.mem_cons_self))) _

theorem NoGroupIn.of_cons {c : Char} (h : NoGroupIn (c :: t) rest) : NoGroupIn t rest :=
  fun b hb => h b (hb.trans (List.suffix_cons c t))

/-- The mark of a character comes before those of the text behind it. -/
theorem getLast?_marksIn_cons (c : Char) (t rest : Text) (path? : Option Text) :
    (marksIn t rest).getLast?.or ((markAt? (c :: (t ++ rest))).orElse fun _ => path?) =
      (marksIn (c :: t) rest).getLast?.or path? := by
  rw [marksIn, List.getLast?_append, Option.or_assoc]
  cases markAt? (c :: (t ++ rest)) <;> rfl

/-- **A text in which no group begins** only moves the namespace on to its last mark. -/
theorem groupsFrom_pass (h : NoGroupIn t rest) :
    groupsFrom path? 0 (t ++ rest) = groupsFrom ((marksIn t rest).getLast?.or path?) 0 rest := by
  induction t generalizing path? with
  | nil => rfl
  | cons c t ih =>
    have hgroup : groupAt? (c :: (t ++ rest)) = none := h _ List.suffix_rfl (List.cons_ne_nil _ _)
    rw [List.cons_append, groupsFrom, hgroup]
    dsimp only
    rw [ih h.of_cons, getLast?_marksIn_cons]

/-- **So does a text that belongs to an earlier group.** -/
theorem groupsFrom_skip (path? : Option Text) (t rest : Text) :
    groupsFrom path? t.length (t ++ rest) = groupsFrom ((marksIn t rest).getLast?.or path?) 0 rest := by
  induction t generalizing path? with
  | nil => rfl
  | cons c t ih => rw [List.length_cons, List.cons_append, groupsFrom, ih, getLast?_marksIn_cons]

/-- No mark goes on behind a closing brace. -/
theorem marksIn_closed_list (h : '{' ∉ list) (rest : Text) : marksIn list ('}' :: rest) = [] := by
  induction list with
  | nil => rfl
  | cons c list ih =>
    have hmark : markAt? (c :: (list ++ '}' :: rest)) = none := by
      by_contra hsome
      obtain ⟨name, hname⟩ := Option.ne_none_iff_exists'.mp hsome
      obtain ⟨front, behind, hhead, hfront⟩ := markAt?_iff.mp hname
      exact append_cons_ne hhead.notMem.2 h (by decide) _ _ hfront
    rw [marksIn, hmark, ih fun hm => h (List.mem_cons_of_mem _ hm)]
    rfl

/-- **One group**, read in the namespace that is known before it and is still known behind it. -/
theorem groupsFrom_written (hne : lead ≠ []) (hlead : ∀ c ∈ lead, isBlank c = true) (hlist : list ≠ [])
    (hopen : '{' ∉ list) (hclosed : '}' ∉ list) (rest : Text) :
    groupsFrom (some path) 0 ("export".toList ++ (lead ++ '{' :: (list ++ '}' :: rest))) =
      ⟨path, list⟩ :: groupsFrom (some path) 0 rest := by
  have hgroup : groupAt? ("export".toList ++ (lead ++ '{' :: (list ++ '}' :: rest))) = some (list, rest) :=
    groupAt?_iff.mpr ⟨_, ⟨lead, rfl, hne, hlead⟩, (List.append_assoc _ _ _).symm, hlist,
      fun hm => hclosed (List.mem_of_mem_tail hm)⟩
  -- what the group takes up behind its first letter, and that no mark begins there
  have hbehind : "xport".toList ++ (lead ++ '{' :: (list ++ '}' :: rest)) =
      ("xport".toList ++ (lead ++ ('{' :: (list ++ ['}'])))) ++ rest := by simp
  have hmarks : marksIn ("xport".toList ++ (lead ++ ('{' :: (list ++ ['}'])))) rest = [] := by
    have hn : 'n' ∉ lead := fun hn => absurd (hlead _ hn) (by decide)
    rw [marksIn_append, marksIn_of_not_mem (by decide), marksIn_append, marksIn_of_not_mem hn, marksIn,
      markAt?_of_ne (by decide), marksIn_append, List.singleton_append, marksIn_closed_list hopen,
      marksIn_of_not_mem (by decide)]
    rfl
  rw [export_word, List.cons_append] at hgroup ⊢
  rw [groupsFrom, hgroup]
  dsimp only
  rw [hbehind, List.length_append, Nat.add_sub_cancel, groupsFrom_skip, hmarks]
  rfl

end Passing

namespace Layout

/-! ## 5. Modules -/

section Modules

variable {b : Block} {m : Module}

theorem Block.list_ne_nil (h : b.WellFormed) : b.list ≠ [] := by
  intro hnil
  have hentries := entries_list h
  rw [hnil] at hentries
  exact List.cons_ne_nil _ _ hentries.symm

/-- **One group with the white space before it.** -/
theorem groupsFrom_block (h : b.WellFormed) (path rest : Text) :
    groupsFrom (some path) 0 (b.text ++ rest) = ⟨path, b.list⟩ :: groupsFrom (some path) 0 rest := by
  have hending : 'e' ∉ b.ending ∧ 'n' ∉ b.ending := by
    unfold Block.ending
    split <;> decide
  have htext : b.text ++ rest =
      b.before ++ ("export".toList ++ (b.lead ++ '{' :: (b.list ++ '}' :: (b.ending ++ rest)))) := by
    simp [Block.text]
  rw [htext, groupsFrom_pass (noGroupIn_of_notMem (h.before.notMem (by decide)) _),
    marksIn_of_not_mem (h.before.notMem (by decide)), List.getLast?_nil, Option.none_or,
    groupsFrom_written h.lead_ne h.lead.blank (Block.list_ne_nil h)
      (Block.notMem_list h (not_isItemChar_of_mem (by decide)) (by decide))
      (Block.notMem_list h (not_isItemChar_of_mem (by decide)) (by decide)),
    groupsFrom_pass (noGroupIn_of_notMem hending.1 _), marksIn_of_not_mem hending.2]
  rfl

theorem groupsFrom_blocks {bs : List Block} (h : ∀ b ∈ bs, b.WellFormed) (path rest : Text) :
    groupsFrom (some path) 0 (bs.flatMap Block.text ++ rest) =
      bs.map (fun b => ⟨path, b.list⟩) ++ groupsFrom (some path) 0 rest := by
  induction bs with
  | nil => rfl
  | cons b bs ih =>
    obtain ⟨hb, hbs⟩ := List.forall_mem_cons.mp h
    rw [List.flatMap_cons, List.append_assoc, groupsFrom_block hb, ih hbs]
    rfl

/-- A heading is plain. -/
theorem plain_heading (h : m.WellFormed) : Plain m.heading (some m.path) := by
  have hline : ∀ w : Text, w ++ (m.path ++ [' ', '{']) = [] ++ (w ++ (m.path ++ ' ' :: ([] ++ '{' :: []))) :=
    fun _ => rfl
  exact .heading (hline _) rfl h.path_ne h.path (fun _ hc => absurd hc List.not_mem_nil) (by decide)

/-- **No group begins in a heading**: its brace is the first one, and does not stand behind `export`. -/
theorem noGroupIn_heading (h : m.WellFormed) (rest : Text) : NoGroupIn m.heading rest := by
  intro b hb hne
  by_contra hsome
  obtain ⟨p, hp⟩ := Option.ne_none_iff_exists'.mp hsome
  obtain ⟨_, ⟨gap, rfl, hgapne, hgap⟩, htext, -⟩ := groupAt?_iff.mp hp
  have hbrace : ∀ w : Text, w ++ (m.path ++ [' ', '{']) = (w ++ (m.path ++ [' '])) ++ ['{'] := by simp
  unfold Module.heading at hb
  rw [hbrace, List.suffix_concat_iff] at hb
  obtain ⟨front, rfl, hfront⟩ := hb.resolve_left hne
  -- the words before the two braces are the same
  have hsame : front = "export".toList ++ gap := by
    have hpath : '{' ∉ m.path := fun hm => absurd (isNamePart_brace.symm.trans (h.path _ hm)) Bool.false_ne_true
    have hno : '{' ∉ front := by
      intro hc
      have hm := hfront.subset hc
      simp [hpath] at hm
    have hno' : '{' ∉ "export".toList ++ gap := IsGroupHead.notMem ⟨gap, rfl, hgapne, hgap⟩ (by decide) (by decide)
    rw [List.append_assoc] at htext
    exact (Text.append_cons_inj hno hno' htext).1
  -- and so are their ends, the blanks before the braces apart
  obtain ⟨a, ha⟩ := hfront
  have hend : "namespace ".toList ++ m.path = a ++ "export".toList := by
    have hword : "export".toList = "expor".toList ++ ['t'] := by decide
    have hlast : ∀ c, ("namespace ".toList ++ m.path).getLast? = some c → isBlank c = false := by
      intro c hc
      rw [List.getLast?_append_of_ne_nil _ h.path_ne] at hc
      exact isBlank_of_isNamePart (h.path c (List.mem_of_getLast? hc))
    have htrim := congrArg (Text.dropEndWhile isBlank) ha
    rw [hsame, hword, List.append_assoc, ← List.append_assoc a, List.singleton_append,
      Text.dropEndWhile_append_cons (by decide), Text.dropEndWhile_of_all hgap, ← List.append_assoc,
      Text.dropEndWhile_append_of_all _ (List.forall_mem_singleton.mpr rfl),
      Text.dropEndWhile_of_getLast? hlast] at htrim
    rw [hword, ← htrim, List.append_assoc]
  rcases List.append_eq_append_iff.mp hend with ⟨x, -, hx⟩ | ⟨x, hx, hexport⟩
  · exact h.noExport ⟨x, hx.symm⟩
  · rcases List.eq_nil_or_concat x with rfl | ⟨x, c, rfl⟩
    · exact h.noExport ⟨[], hexport⟩
    · have hspace : "namespace ".toList = "namespace".toList ++ [' '] := by decide
      rw [hspace, List.concat_eq_append, ← List.append_assoc] at hx
      obtain rfl := List.singleton_inj.mp (List.append_inj_right' hx rfl)
      have hmem : ' ' ∈ "export".toList := by
        rw [hexport]
        simp
      exact absurd hmem (by decide)

/-- **One module.** -/
theorem groupsFrom_module (h : m.WellFormed) (path? : Option Text) (rest : Text) :
    groupsFrom path? 0 (m.text ++ rest) =
      m.blocks.map (fun b => ⟨m.path, b.list⟩) ++ groupsFrom (some m.path) 0 rest := by
  have htext : m.text ++ rest = m.heading ++ ('\n' ::
      (m.blocks.flatMap Block.text ++ ((m.foot ++ '}' :: m.behind) ++ rest))) := by
    simp [Module.text, Module.body]
  have hmarks : marksIn m.heading ('\n' ::
      (m.blocks.flatMap Block.text ++ ((m.foot ++ '}' :: m.behind) ++ rest))) = [m.path] :=
    (plain_heading h).marksIn fun c hc => (Option.some.inj hc).symm
  have hend : ∀ c, isBlank c = false → c ≠ '}' → c ∉ m.foot ++ '}' :: m.behind := by
    intro c hc hbrace hm
    rcases List.mem_append.mp hm with hm | hm
    · exact h.foot.notMem hc hm
    · exact h.behind.notMem hc ((List.mem_cons.mp hm).resolve_left hbrace)
  rw [htext, groupsFrom_pass (noGroupIn_heading h _), hmarks, List.getLast?_singleton, Option.some_or,
    ← List.singleton_append, groupsFrom_pass (noGroupIn_of_notMem (by decide) _), marksIn_of_not_mem (by decide),
    List.getLast?_nil, Option.none_or, groupsFrom_blocks h.blocks,
    groupsFrom_pass (noGroupIn_of_notMem (hend _ (by decide) (by decide)) _),
    marksIn_of_not_mem (hend _ (by decide) (by decide))]
  rfl

/-- **The groups of a file are those that were written.** -/
theorem groups_text {ms : List Module} (h : ∀ m ∈ ms, m.WellFormed) :
    groups (text ms) = ms.flatMap fun m => m.blocks.map fun b => ⟨m.path, b.list⟩ := by
  suffices hall : ∀ path?, groupsFrom path? 0 (text ms) =
      ms.flatMap fun m => m.blocks.map fun b => ⟨m.path, b.list⟩ from hall none
  induction ms with
  | nil => exact fun _ => rfl
  | cons m ms ih =>
    obtain ⟨hm, hms⟩ := List.forall_mem_cons.mp h
    intro path?
    unfold text
    rw [List.flatMap_cons, List.flatMap_cons, groupsFrom_module hm]
    exact congrArg _ (ih hms _)

end Modules

/-! ## 6. Declarations -/

/-- What a reader sees of an exported name. -/
structure Export where
  path : Text
  kind : Kind
  shortName : Text
  signature : Text
  complete : Bool
  deriving DecidableEq, Repr

/-- The exported names of a module, in text order. -/
def Module.exports (m : Module) : List Export :=
  m.blocks.flatMap fun b => b.items.map fun i => ⟨m.path, .reExport, i.exported, i.exported, true⟩

end Layout
end ReExport

def Declaration.asExport (d : Declaration) : ReExport.Layout.Export :=
  ⟨d.path, d.kind, d.shortName, d.signature, d.complete⟩

namespace ReExport

/-- **A group makes one declaration of each entry**, whether the entries are numbered or not. -/
theorem Group.asExport_declarations (g : Group) : g.declarations.map Declaration.asExport =
    (entries g.list).map fun e => ⟨g.path, .reExport, Text.trim e.exported, e.exported, true⟩ := by
  unfold Group.declarations
  split
  · rename_i hentries
    rw [hentries]
    rfl
  · rename_i entry hentries
    rw [hentries]
    rfl
  · refine List.ext_getElem? fun n => ?_
    rw [List.getElem?_map, List.getElem?_mapIdx, List.getElem?_map, Option.map_map]
    rfl

/-- The scanner makes no re-exports, and groups make nothing else. -/
theorem filter_reExport (t : Text) :
    (scan (Text.lines t) ++ declarations t).filter (fun d => d.kind = .reExport) = declarations t := by
  have hscan : (scan (Text.lines t)).filter (fun d => d.kind = .reExport) = [] := by
    have hrows : ∀ o ∈ Opening.table, o.kind ≠ .reExport := by decide
    refine List.filter_eq_nil_iff.mpr fun d hd => ?_
    obtain ⟨o, ho, hkind⟩ := Scanner.exists_row_of_mem_scan hd
    rw [hkind, decide_eq_true_eq]
    exact hrows o ho
  have hgroups : (declarations t).filter (fun d => d.kind = .reExport) = declarations t := by
    refine List.filter_eq_self.mpr fun d hd => ?_
    obtain ⟨g, -, hd⟩ := List.mem_flatMap.mp hd
    rw [(mem_declarations hd).2]
    rfl
  rw [List.filter_append, hscan, hgroups, List.nil_append]

/-- **The re-exports of a file are what its groups make.** -/
theorem reExports_parse (t : Text) :
    ((parse t).filter fun d => d.kind = .reExport).Perm (declarations (normalise t)) := by
  have hsort := (List.mergeSort_perm (scan (Text.lines (normalise t)) ++ declarations (normalise t))
    Declaration.le).filter fun d => d.kind = .reExport
  rwa [filter_reExport] at hsort

namespace Layout

section Files

variable {ms : List Module}

theorem exported_noBlank {i : Item} (h : i.WellFormed) : ∀ c ∈ i.exported, isBlank c = false := by
  unfold Item.exported
  cases ha : i.alias? with
  | none => exact fun c hc => isBlank_of_isWordChar (h.name.chars c hc)
  | some a => exact fun c hc => isBlank_of_isWordChar ((h.aliased a ha).name.chars c hc)

/-- **The declarations of a file are those that were written**, in text order. -/
theorem asExport_text (h : ∀ m ∈ ms, m.WellFormed) :
    (declarations (text ms)).map Declaration.asExport = ms.flatMap Module.exports := by
  unfold declarations
  rw [groups_text h, List.flatMap_assoc, List.map_flatMap]
  refine List.flatMap_congr fun m hm => ?_
  rw [List.flatMap_map, List.map_flatMap]
  refine List.flatMap_congr fun b hb => ?_
  have hb := (h m hm).blocks b hb
  rw [Group.asExport_declarations, entries_list hb, List.map_map]
  refine List.map_congr_left fun i hi => ?_
  show Export.mk _ _ (Text.trim i.exported) _ _ = _
  rw [Text.trim_of_no_blank (exported_noBlank (hb.items i hi))]
  rfl

/-- A well-formed file holds no carriage return. -/
theorem normalise_text (h : ∀ m ∈ ms, m.WellFormed) : normalise (text ms) = text ms := by
  have hgap : ∀ t, IsGap t → '\r' ∉ t := fun t ht hm => (ht _ hm).2 rfl
  have hblock : ∀ b : Block, b.WellFormed → '\r' ∉ b.text := by
    intro b hb
    have hlist : '\r' ∉ b.list := Block.notMem_list hb (not_isItemChar_of_mem (by decide)) (by decide)
    have hending : '\r' ∉ b.ending := by
      unfold Block.ending
      split <;> decide
    simp [Block.text, hgap _ hb.before, hgap _ hb.lead, hlist, hending]
  have hmodule : ∀ m ∈ ms, '\r' ∉ m.text := by
    intro m hm
    have hword : '\r' ∉ "namespace ".toList := by decide
    have hpath : '\r' ∉ m.path := by
      intro hc
      have hno : (isWordChar '\r' || '\r' == '.') = false := by decide +kernel
      rw [(h m hm).path _ hc] at hno
      cases hno
    have hblocks : '\r' ∉ m.blocks.flatMap Block.text := by
      intro hc
      obtain ⟨b, hb, hc⟩ := List.mem_flatMap.mp hc
      exact hblock b ((h m hm).blocks b hb) hc
    have hheading : '\r' ∉ m.heading :=
      List.not_mem_append hword (List.not_mem_append hpath (by decide))
    simp [Module.text, Module.body, hheading, hblocks, hgap _ (h m hm).foot, hgap _ (h m hm).behind]
  refine List.filter_eq_self.mpr fun c hc => ?_
  obtain ⟨m, hm, hc⟩ := List.mem_flatMap.mp hc
  rw [bne_iff_ne]
  rintro rfl
  exact hmodule m hm hc

/-- **A file is read back as it was written.** -/
structure ReadsBack (ms : List Module) : Prop where
  /-- Every item of every group makes one declaration, in text order, -/
  inOrder : (declarations (text ms)).map Declaration.asExport = ms.flatMap Module.exports
  /-- and these are all re-exports that are found in the file. -/
  only : ((parse (text ms)).filter fun d => d.kind = .reExport).Perm (declarations (text ms))

/-- **Every well-formed file is.** -/
theorem reads_back (h : ∀ m ∈ ms, m.WellFormed) : ReadsBack ms where
  inOrder := asExport_text h
  only := by
    have hall := reExports_parse (text ms)
    rwa [normalise_text h] at hall

/-- An item without white space but that before it. -/
def plainItem (before name : String) : Item := ⟨before.toList, name.toList, none, []⟩

/-- Two modules, whose items are called by the words of the syntax. -/
def sampleFile : List Module :=
  [⟨"CG.export.x".toList,
      [⟨"    ".toList, [' '], plainItem " " "as", [⟨[' '], "as".toList, some ⟨[' '], ['\n'], "as".toList⟩, [' ']⟩,
          plainItem "\n  " "export"], some [' '], true⟩,
        ⟨[], ['\n'], plainItem "" "namespace", [], none, false⟩],
      ['\n'], ['\n']⟩,
    ⟨"namespace".toList, [], [], []⟩]

theorem reads_back_sampleFile : (∀ m ∈ sampleFile, m.WellFormed) ∧ ReadsBack sampleFile := by
  have hwell : ∀ m ∈ sampleFile, m.WellFormed := by decide +kernel
  exact ⟨hwell, reads_back hwell⟩

/-- What the file looks like. -/
example : text sampleFile = ("namespace CG.export.x \x7b\n    export \x7b as, as as\nas ,\n  export, \x7d;" ++
    "export\n\x7bnamespace\x7d\n\x7d\nnamespace namespace \x7b\n\x7d").toList := by
  decide

end Files

end Layout
end ReExport
end Ambient
