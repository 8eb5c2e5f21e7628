import Ambient.Proofs.Content.Block
import Ambient.Proofs.Scanner.Canonical

/-!
# A shared block, read again

The block of a constant, a variable or a function shows all such declarations of its namespace, each behind a
blank line and its comment, with every line four spaces further in. Read again it is cut at the same places,
as long as each declaration has its end on record: `exists_entry` for one, `exists_entries` for all of them.

`comeBack_iff` says for which namespaces all declarations come back: those without a brace in their name. With
one, the heading of the block names another namespace, or none.
-/

namespace Ambient

open Text (indent ofLines)

namespace Scanner

/-! ## 1. Files without loose ends -/

/-- Does the line open a declaration while one that is shown with others is open? -/
def cutsOff (s : Scanner) (line : Text) : Bool :=
  (s.draft?.any fun draft => !draft.kind.isStandalone) && (s.effective? line).any Opening.opens

/-- Is no declaration that is shown with others cut off, by the next opening or by the end of the file? -/
def closesAll (s : Scanner) : List Text → Bool
  | [] => s.draft?.all fun draft => draft.kind.isStandalone
  | line :: lines => !s.cutsOff line && (s.feed line).closesAll lines

/-- Names with a brace at most at their end; ordinary lines; comments that stay comments; nothing is cut off
    but what is shown alone. -/
def sharedTerms : Terms where
  path path := Heading.IsPath path ∧ ('{' ∈ path → path.getLast? = some '{')
  member := Ordinary
  remark line := isRemark line = true ∧ '\n' ∉ line
  cutOff kind := kind.isStandalone = true

section Keeps

variable {s : Scanner} {line : Text}

theorem Ordinary.isRemark (h : Ordinary line) (ho : Opening.opens line = false) (hb : Text.allBlank line = false)
    (ht : Text.trim line ≠ ['}']) : isRemark line = true := by
  unfold Scanner.isRemark isPlain
  rw [h.skipped, h.heading, ho, hb, bne_iff_ne.mpr ht]
  rfl

theorem keeps_shared (hfeed : '\n' ∉ line) (hrest : (Heading.read? line).bind Heading.rest? = none)
    (hearly : s.isEarly line = false) (hcut : s.cutsOff line = false) : sharedTerms.Keeps s line := by
  have hclean : IsClean line := by
    intro rest hmem
    rw [hrest] at hmem
    cases hmem
  refine ⟨fun heading hread => ⟨Heading.isPath hread hfeed, fun hbrace => ?_⟩,
    fun text he => ordinary_of_effective hfeed hclean he, fun text he ho hb ht => ?_, fun he => ?_,
    fun text draft he ho hd => ?_⟩
  · rw [hread, Option.bind_some] at hrest
    exact Heading.last_of_brace hread hrest hbrace
  · have hordinary := ordinary_of_effective hfeed hclean he
    exact ⟨hordinary.isRemark ho hb ht, hordinary.feed⟩
  · rw [hearly] at he
    cases he
  · unfold cutsOff at hcut
    rw [hd, he, Option.any_some, Option.any_some, ho, Bool.and_true, Bool.not_eq_false'] at hcut
    exact hcut

/-- Behind the first heading. -/
theorem keepsAll_shared {lines : List Text} (hs : Sound s) (hp : s.path?.isSome = true)
    (hfeed : ∀ line ∈ lines, '\n' ∉ line)
    (hrests : ∀ line ∈ lines, (Heading.read? line).bind Heading.rest? = none)
    (hclosed : s.closesAll lines = true) : sharedTerms.KeepsAll s lines := by
  induction lines generalizing s with
  | nil =>
    intro draft hd
    unfold closesAll at hclosed
    rw [hd] at hclosed
    exact hclosed
  | cons line lines ih =>
    obtain ⟨hline, hlines⟩ := List.forall_mem_cons.mp hfeed
    obtain ⟨hrest, hrests⟩ := List.forall_mem_cons.mp hrests
    unfold closesAll at hclosed
    rw [Bool.and_eq_true, Bool.not_eq_true'] at hclosed
    exact ⟨keeps_shared hline hrest (isEarly_of_isSome hp line) hclosed.1,
      ih (hs.feed line) (feed_path?_isSome hs hp line) hlines hrests hclosed.2⟩

end Keeps

/-- **A file without loose ends**: it starts with a heading, holds no export group, has nothing behind the
    brace of a heading, and cuts off no declaration that is shown with others. -/
structure IsIntact (t : Text) : Prop where
  first : ((Text.lines (normalise t)).head?.bind Heading.read?).isSome = true
  groups : ReExport.groups (normalise t) = []
  rests : ∀ line ∈ Text.lines (normalise t), (Heading.read? line).bind Heading.rest? = none
  closed : fresh.closesAll (Text.lines (normalise t)) = true

theorem accounted_of_intact {t : Text} (ht : IsIntact t) :
    ∀ d ∈ scan (Text.lines (normalise t)), sharedTerms.Accounts d := by
  refine accounted_scan ?_
  obtain ⟨line, lines, hlines⟩ := List.exists_cons_of_ne_nil (Text.lines_ne_nil (normalise t))
  have hfeed : ∀ line ∈ Text.lines (normalise t), '\n' ∉ line := Text.not_mem_of_mem_lines
  have hfirst := ht.first
  have hrests := ht.rests
  have hclosed := ht.closed
  rw [hlines] at hfirst hrests hclosed hfeed ⊢
  rw [List.head?_cons, Option.bind_some] at hfirst
  obtain ⟨heading, hread⟩ := Option.isSome_iff_exists.mp hfirst
  obtain ⟨hline, hfeed⟩ := List.forall_mem_cons.mp hfeed
  obtain ⟨hrest, hrests⟩ := List.forall_mem_cons.mp hrests
  unfold closesAll at hclosed
  rw [Bool.and_eq_true, Bool.not_eq_true'] at hclosed
  have hearly : fresh.isEarly line = false := by
    unfold isEarly
    rw [hread, Option.isNone_some, Bool.and_false, Bool.false_and]
  have hpath : (fresh.feed line).path? = some heading.path := by
    rw [hread, Option.bind_some] at hrest
    unfold feed
    rw [Heading.isSkipped_of_read? hread, if_neg Bool.false_ne_true, hread]
    dsimp only
    rw [hrest]
  exact ⟨keeps_shared hline hrest hearly hclosed.1,
    keepsAll_shared (sound_fresh.feed line) (by rw [hpath]; rfl) hfeed hrests hclosed.2⟩

theorem isRemark_indent (line : Text) : isRemark (indent line) = isRemark line := by
  unfold isRemark isPlain
  rw [isSkipped_indent, Heading.read?_indent, Opening.opens_indent, Text.allBlank_indent, Text.trim_indent]

end Scanner

namespace Declaration

/-! ## 2. One declaration -/

/-- A comment four spaces further in. -/
def deepen (comment : Text) : Text := comment.flatMap fun c => if c = '\n' then '\n' :: "    ".toList else [c]

/-- **The declaration comes back**, its comment four spaces further in. -/
structure ComesBack (d d' : Declaration) : Prop where
  kind : d'.kind = d.kind
  path : d'.path = d.path
  signature : d'.signature = d.signature
  shortName : d'.shortName = d.shortName
  complete : d'.complete = d.complete
  comment : d'.comment = deepen d.comment

theorem deepen_of_notMem {line : Text} (h : '\n' ∉ line) : deepen line = line := by
  induction line with
  | nil => rfl
  | cons c line ih =>
    have hc : c ≠ '\n' := fun he => h (he ▸ List.mem_cons_self)
    unfold deepen at ih ⊢
    rw [List.flatMap_cons, if_neg hc, ih fun hm => h (List.mem_cons_of_mem _ hm)]
    rfl

theorem deepen_remarkLines {comments : List Text} (h : ∀ line ∈ comments, '\n' ∉ line) :
    deepen (comments.flatMap Scanner.remarkLine) = (comments.map indent).flatMap Scanner.remarkLine := by
  induction comments with
  | nil => rfl
  | cons line lines ih =>
    obtain ⟨hline, hlines⟩ := List.forall_mem_cons.mp h
    have hremark : deepen (Scanner.remarkLine line) = Scanner.remarkLine (indent line) := by
      have hindent := deepen_of_notMem (Text.feed_notMem_indent hline)
      unfold deepen at hindent ⊢
      show List.flatMap _ ('\n' :: indent line) = _
      rw [List.flatMap_cons, if_pos rfl, hindent]
      rfl
    unfold deepen at ih hremark ⊢
    rw [List.flatMap_cons, List.flatMap_append, hremark, ih hlines, List.map_cons, List.flatMap_cons]

section Entry

variable {path : Text} {comments : List Text} {d : Declaration}

/-- The lines of a comment are collected again. -/
theorem feedAll_commentLines (h : ∀ line ∈ comments, Scanner.isRemark line = true) (closed : List Declaration) :
    (⟨some path, none, [], closed⟩ : Scanner).feedAll (Content.commentLines comments) =
      ⟨some path, none, (comments.map indent).flatMap Scanner.remarkLine, closed⟩ := by
  cases comments with
  | nil => rfl
  | cons line lines =>
    have hremarks : ∀ l ∈ (line :: lines).map indent, Scanner.isRemark l = true :=
      List.forall_mem_map.mpr fun l hl => (Scanner.isRemark_indent l).trans (h l hl)
    show ((⟨some path, none, [], closed⟩ : Scanner).feed []).feedAll ((line :: lines).map indent) = _
    rw [Scanner.feed_blank rfl rfl, Scanner.feedAll_remarks hremarks, List.nil_append]

/-- **The lines that show a declaration** close one like it again. -/
theorem exists_entry (h : Scanner.sharedTerms.Accounts d) (hkind : d.kind.isStandalone = false) :
    ∃ ls, d.blockEntry = ofLines ls ∧ (∀ line ∈ ls, Scanner.Ordinary line) ∧
      ∀ closed, ∃ d', (⟨some d.path, none, [], closed⟩ : Scanner).feedAll ls =
        ⟨some d.path, none, [], closed ++ [d']⟩ ∧ d.ComesBack d' := by
  obtain ⟨own, comments, draft, rfl, haccount⟩ := h
  have hshut : draft.Shut own := by
    refine haccount.shut.resolve_right ?_
    rintro ⟨-, hcut⟩
    exact absurd (hcut.symm.trans hkind) (by decide)
  obtain ⟨draft', hshut', hmoved⟩ := hshut.indented draft.path
  have hcomments : ∀ line ∈ comments, Scanner.Ordinary line := by
    intro line hline
    obtain ⟨hremark, hfeed⟩ := haccount.remark line hline
    unfold Scanner.isRemark Scanner.isPlain at hremark
    simp only [Bool.and_eq_true, Bool.not_eq_true', Option.isNone_iff_eq_none] at hremark
    exact ⟨hremark.1.1.1.1, hremark.1.1.1.2, hfeed⟩
  have hown := Content.ordinary_indented haccount.member
  have hblock := Content.commentBlock_eq (d := draft.finish (comments.flatMap Scanner.remarkLine)) rfl
  refine ⟨[] :: (Content.commentLines comments ++ own.map indent), ?_, ?_, fun closed => ?_⟩
  · unfold blockEntry
    rw [hblock, Text.ofLines_cons, Text.ofLines_append, ← Content.ofLines_source, ← hshut.source]
    rfl
  · exact List.forall_mem_cons.mpr ⟨Scanner.ordinary_nil,
      List.forall_mem_append.mpr ⟨Content.ordinary_commentLines hcomments, hown⟩⟩
  · refine ⟨draft'.finish ((comments.map indent).flatMap Scanner.remarkLine), ?_, ?_⟩
    · show ((⟨some draft.path, none, [], closed⟩ : Scanner).feed []).feedAll
        (Content.commentLines comments ++ own.map indent) = _
      rw [Scanner.feed_blank rfl rfl, Scanner.feedAll_append,
        feedAll_commentLines fun line hline => (haccount.remark line hline).1,
        Scanner.feedAll_shut hshut' (fun line hline => (hown line hline).handed)
          (congrArg some hmoved.path.symm) rfl]
      rfl
    · have hcomment := deepen_remarkLines fun line hline => (haccount.remark line hline).2
      exact ⟨hmoved.kind, hmoved.path, hmoved.signature, congrArg ShortName.text hmoved.shortNameOf,
        hmoved.complete, hcomment.symm⟩

end Entry

/-! ## 3. All declarations of a block -/

/-- **The lines that show declarations of one namespace** close all of them again, in order. -/
theorem exists_entries {path : Text} {ds : List Declaration}
    (h : ∀ d ∈ ds, Scanner.sharedTerms.Accounts d ∧ d.kind.isStandalone = false ∧ d.path = path) :
    ∃ ls, ds.flatMap blockEntry = ofLines ls ∧ (∀ line ∈ ls, Scanner.Ordinary line) ∧
      ∀ closed, ∃ ds', (⟨some path, none, [], closed⟩ : Scanner).feedAll ls =
        ⟨some path, none, [], closed ++ ds'⟩ ∧ List.Forall₂ ComesBack ds ds' := by
  induction ds with
  | nil => exact ⟨[], rfl, fun _ h => (nomatch h), fun closed => ⟨[], by rw [List.append_nil]; rfl, .nil⟩⟩
  | cons d ds ih =>
    obtain ⟨⟨haccounts, hkind, rfl⟩, hds⟩ := List.forall_mem_cons.mp h
    obtain ⟨first, hfirst, hordinary, hfeed⟩ := exists_entry haccounts hkind
    obtain ⟨rest, hrest, hordinaries, hfeeds⟩ := ih hds
    refine ⟨first ++ rest, ?_, List.forall_mem_append.mpr ⟨hordinary, hordinaries⟩, fun closed => ?_⟩
    · rw [List.flatMap_cons, hfirst, hrest, Text.ofLines_append]
    · obtain ⟨d', hd', hback⟩ := hfeed closed
      obtain ⟨ds', hds', hbacks⟩ := hfeeds (closed ++ [d'])
      refine ⟨d' :: ds', ?_, .cons hback hbacks⟩
      rw [Scanner.feedAll_append, hd', hds', List.append_assoc]
      rfl

theorem mem_shown_of_intact {t : Text} (ht : Scanner.IsIntact t) {d s : Declaration}
    (hs : s ∈ (parse t).filter d.sharesBlock) :
    Scanner.sharedTerms.Accounts s ∧ s.kind.isStandalone = false ∧ s.path = d.path := by
  obtain ⟨hparse, hshares⟩ := List.mem_filter.mp hs
  have hscan : s ∈ scan (Text.lines (normalise t)) := by
    rcases mem_parse.mp hparse with h | h
    · exact h
    · unfold ReExport.declarations at h
      rw [ht.groups] at h
      cases h
  unfold sharesBlock at hshares
  rw [Bool.and_eq_true, decide_eq_true_eq, Bool.not_eq_true'] at hshares
  exact ⟨Scanner.accounted_of_intact ht s hscan, hshares.2, hshares.1⟩

/-- **Declarations of a namespace without a brace in its name come back.** -/
theorem comeBack_of_notMem {path : Text} (hpath : Heading.IsPath path) (hbrace : '{' ∉ path) {ls : List Text}
    {ds : List Declaration}
    (hfeed : ∃ ds', (⟨some path, none, [], []⟩ : Scanner).feedAll ls = ⟨some path, none, [], [] ++ ds'⟩ ∧
      List.Forall₂ ComesBack ds ds') :
    List.Forall₂ ComesBack ds (scan (Heading.line path :: [] :: (ls ++ [[], [], ['}']]))) := by
  obtain ⟨ds', hds', hbacks⟩ := hfeed
  have hline : Scanner.fresh.feed (Heading.line path) = ⟨some path, none, [], []⟩ := by
    unfold Scanner.feed
    rw [Heading.isSkipped_line, if_neg Bool.false_ne_true, Heading.read?_line_of_notMem hpath hbrace]
    rfl
  have hscan : scan (Heading.line path :: [] :: (ls ++ [[], [], ['}']])) = ds' := by
    show (((Scanner.fresh.feed (Heading.line path)).feed []).feedAll (ls ++ [[], [], ['}']])).finish = ds'
    rw [hline, Scanner.feed_blank rfl rfl, Scanner.feedAll_append, hds', Scanner.feedAll_end rfl rfl]
    rfl
  rw [hscan]
  exact hbacks

/-- The only heading of a block is its first line. -/
theorem path_of_mem_scan {path : Text} {ls : List Text} (hls : ∀ line ∈ ls, Scanner.Ordinary line)
    {d : Declaration} (hd : d ∈ scan (Heading.line path :: [] :: (ls ++ [[], [], ['}']]))) :
    ∃ heading, Heading.read? (Heading.line path) = some heading ∧ d.path = heading.path := by
  have hordinary : ∀ line ∈ [] :: (ls ++ [[], [], ['}']]), Scanner.Ordinary line :=
    List.forall_mem_cons.mpr ⟨Scanner.ordinary_nil, List.forall_mem_append.mpr ⟨hls, Scanner.ordinary_end⟩⟩
  let T : Terms := ⟨fun name => ∃ heading, Heading.read? (Heading.line path) = some heading ∧ name = heading.path,
    fun _ => True, fun _ => True, fun _ => True⟩
  have hkeeps : T.KeepsAll Scanner.fresh (Heading.line path :: [] :: (ls ++ [[], [], ['}']])) := by
    refine Terms.keepsAll_of_keeps _ (fun _ => trivial) (fun line hline s => ⟨fun heading hread => ?_,
      fun _ _ => trivial, fun _ _ _ _ _ => trivial, fun _ _ => trivial, fun _ _ _ _ _ => trivial⟩) _
    rcases List.mem_cons.mp hline with rfl | hline
    · exact ⟨heading, hread, rfl⟩
    · rw [(hordinary line hline).heading] at hread
      cases hread
  obtain ⟨_, _, draft, rfl, haccount⟩ := Scanner.accounted_scan hkeeps d hd
  exact haccount.path

theorem exists_of_forall₂ {α β : Type} {R : α → β → Prop} {as : List α} {bs : List β} (h : List.Forall₂ R as bs)
    {a : α} (ha : a ∈ as) : ∃ b ∈ bs, R a b := by
  induction h with
  | nil => cases ha
  | cons hab _ ih =>
    rcases List.mem_cons.mp ha with rfl | ha
    · exact ⟨_, List.mem_cons_self, hab⟩
    · obtain ⟨b, hb, hr⟩ := ih ha
      exact ⟨b, List.mem_cons_of_mem _ hb, hr⟩

/-- **No declaration of a namespace with a brace in its name comes back.** -/
theorem notMem_of_comesBack {d d' : Declaration} (hspace : ' ' ∉ d.path)
    (hlast : '{' ∈ d.path → d.path.getLast? = some '{') {ls : List Text}
    (hls : ∀ line ∈ ls, Scanner.Ordinary line)
    (hd' : d' ∈ scan (Heading.line d.path :: [] :: (ls ++ [[], [], ['}']]))) (hcomes : d.ComesBack d') :
    '{' ∉ d.path := by
  intro hbrace
  obtain ⟨heading, hread, hname⟩ := path_of_mem_scan hls hd'
  rw [hcomes.path, Heading.path_of_read?_line hspace hread] at hname
  exact Heading.nameOf_ne (hlast hbrace) hname.symm

/-- **All declarations that share a block come back from its content**, if and only if the name of the namespace
    holds no brace. -/
theorem comeBack_iff {t : Text} (ht : Scanner.IsIntact t) {d : Declaration} (hd : d ∈ parse t)
    (hkind : d.kind.isStandalone = false) :
    List.Forall₂ ComesBack ((parse t).filter d.sharesBlock) (scan (Text.lines (d.content (parse t)))) ↔
      '{' ∉ d.path := by
  have hshares : d ∈ (parse t).filter d.sharesBlock := by
    refine List.mem_filter.mpr ⟨hd, ?_⟩
    unfold sharesBlock
    rw [hkind, decide_eq_true rfl]
    rfl
  obtain ⟨ls, hls, hordinary, hfeed⟩ := exists_entries fun s hs => mem_shown_of_intact ht hs
  obtain ⟨_, _, draft, hdraft, haccount⟩ := (mem_shown_of_intact ht hshares).1
  have hpath : Heading.IsPath d.path := by
    rw [hdraft]
    exact haccount.path.1
  have hlast : '{' ∈ d.path → d.path.getLast? = some '{' := by
    rw [hdraft]
    exact haccount.path.2
  have hlines : Text.lines (d.content (parse t)) = Heading.line d.path :: [] :: (ls ++ [[], [], ['}']]) := by
    unfold content
    rw [hkind, if_neg Bool.false_ne_true, hls,
      Content.lines_namespaceBlock hpath.feed fun line hline => (hordinary line hline).feed]
  rw [hlines]
  constructor
  · intro hback
    obtain ⟨d', hd', hcomes⟩ := exists_of_forall₂ hback hshares
    exact notMem_of_comesBack hpath.space hlast hordinary hd' hcomes
  · exact fun hbrace => comeBack_of_notMem hpath hbrace (hfeed [])

/-- A constant with a comment and a function over several lines. -/
def pair : Text :=
  "namespace CG \x7b\n/** A limit. */\nexport declare const x: T;\nexport declare function f(\na: T\n);\n\x7d".toList

def limit : Declaration where
  path := "CG".toList
  kind := .constValue
  signature := "x: T".toList
  endMarker := "\x7d;".toList
  complete := true
  source := "    export declare const x: T;\n".toList
  comment := "\n    /** A limit. */".toList
  ordinal := none

theorem comeBack_limit : Scanner.IsIntact pair ∧ limit ∈ parse pair ∧ limit.kind.isStandalone = false ∧
    (List.Forall₂ ComesBack ((parse pair).filter limit.sharesBlock)
      (scan (Text.lines (limit.content (parse pair)))) ↔ '{' ∉ limit.path) := by
  have hintact : Scanner.IsIntact pair :=
    ⟨by decide +kernel, by decide +kernel, by decide +kernel, by decide +kernel⟩
  have hscan : limit ∈ scan (Text.lines (normalise pair)) := by decide +kernel
  have hmem : limit ∈ parse pair := mem_parse.mpr (.inl hscan)
  exact ⟨hintact, hmem, rfl, comeBack_iff hintact hmem rfl⟩

/-- A constant of a namespace that keeps its brace: behind the brace stands a tab. -/
def tabbed : Text := "namespace CG.A\x7b\t\nexport declare const x: T;\n\x7d".toList

def tabbedConstant : Declaration where
  path := "CG.A\x7b".toList
  kind := .constValue
  signature := "x: T".toList
  endMarker := "\x7d;".toList
  complete := true
  source := "    export declare const x: T;\n".toList
  comment := []
  ordinal := none

/-- **The constant comes back in another namespace.** -/
theorem not_comeBack_tabbed : Scanner.IsIntact tabbed ∧ tabbedConstant ∈ parse tabbed ∧
    tabbedConstant.kind.isStandalone = false ∧
    ¬List.Forall₂ ComesBack ((parse tabbed).filter tabbedConstant.sharesBlock)
      (scan (Text.lines (tabbedConstant.content (parse tabbed)))) := by
  have hintact : Scanner.IsIntact tabbed :=
    ⟨by decide +kernel, by decide +kernel, by decide +kernel, by decide +kernel⟩
  have hscan : scan (Text.lines (normalise tabbed)) = [tabbedConstant] := by decide +kernel
  have hgroups : ReExport.declarations (normalise tabbed) = [] := by decide +kernel
  have hparse : parse tabbed = [tabbedConstant] := parse_of_scan hscan hgroups
  have hother : ∀ d ∈ scan (Text.lines (tabbedConstant.content [tabbedConstant])), d.path ≠ tabbedConstant.path := by
    decide +kernel
  have hshown : tabbedConstant ∈ [tabbedConstant].filter tabbedConstant.sharesBlock := by decide +kernel
  rw [hparse]
  refine ⟨hintact, List.mem_cons_self, rfl, fun hback => ?_⟩
  obtain ⟨d', hd', hcomes⟩ := exists_of_forall₂ hback hshown
  exact hother d' hd' hcomes.path

end Declaration
end Ambient
