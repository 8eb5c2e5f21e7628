import Ambient.Proofs.Content.Block

/-!
# A standalone declaration, read again

The content of a class, an interface or an enum is its comment and a block with its source. Read again, the
comment stands before the first heading, the source opens one declaration, and the brace at the end closes
the block, or is a further line of a source that was cut off.

`returns_iff` says when that one declaration is the old one: always, unless the namespace has a name of
braces only, of which a block has no heading.
-/

namespace Ambient

open Text (indent ofLines)

namespace Scanner

/-! ## 1. Traces of a clean file -/

/-- Declarations and comments of ordinary lines, of which any may be cut off. -/
def ordinaryTerms : Terms := ⟨Heading.IsPath, Ordinary, Ordinary, fun _ => True⟩

theorem accounted_of_clean {lines : List Text} (hfeed : ∀ line ∈ lines, '\n' ∉ line)
    (hclean : ∀ line ∈ lines, IsClean line) : ∀ d ∈ scan lines, ordinaryTerms.Accounts d := by
  refine accounted_scan (Terms.keepsAll_of_keeps _ (fun _ => trivial) (fun line hline s => ?_) fresh)
  have hno := hfeed line hline
  exact {
    path := fun heading hread => Heading.isPath hread hno
    member := fun text he => ordinary_of_effective hno (hclean line hline) he
    remark := fun text he _ _ _ => ordinary_of_effective hno (hclean line hline) he
    early := fun he _ => ordinary_of_early hno he
    cutOff := fun _ _ _ _ _ => trivial }

end Scanner

namespace Declaration

/-! ## 2. What comes back -/

/-- **The declaration comes back.** -/
structure Returns (d d' : Declaration) : Prop where
  kind : d'.kind = d.kind
  signature : d'.signature = d.signature
  shortName : d'.shortName = d.shortName
  hasGenerics : d'.hasGenerics = d.hasGenerics
  path : '{' ∉ d.path → d'.path = d.path

theorem returns_of_moved {path comment comment' : Text} {draft draft' : Draft} (h : Draft.Moved path draft draft')
    (hpath : '{' ∉ draft.path → path = draft.path) : (draft.finish comment).Returns (draft'.finish comment') where
  kind := h.kind
  signature := h.signature
  shortName := congrArg ShortName.text h.shortNameOf
  hasGenerics := congrArg ShortName.hasGenerics h.shortNameOf
  path hbrace := h.path.trans (hpath hbrace)

section Standalone

variable {own comments : List Text} {draft : Draft} {path : Text}

/-- The lines of the content. -/
theorem lines_content (h : Scanner.ordinaryTerms.Account own comments draft)
    (hkind : draft.kind.isStandalone = true) (siblings : List Declaration) :
    Text.lines ((draft.finish (comments.flatMap Scanner.remarkLine)).content siblings) =
      Content.commentLines comments ++
        Heading.line draft.path :: [] :: (own.map indent ++ [[], [], ['}']]) := by
  have hsource : draft.source = ofLines (own.map indent) := by
    rw [← Content.ofLines_source]
    rcases h.shut with hshut | ⟨hopen, -⟩
    · exact hshut.source
    · exact hopen.source
  have hcomment := Content.commentBlock_eq (d := draft.finish (comments.flatMap Scanner.remarkLine)) rfl
  have hcomments := Content.ordinary_commentLines h.remark
  have hown := Content.ordinary_indented h.member
  have hcontent : (draft.finish (comments.flatMap Scanner.remarkLine)).content siblings =
      (draft.finish (comments.flatMap Scanner.remarkLine)).commentBlock ++
        namespaceBlock draft.path draft.source := if_pos hkind
  rw [hcontent, hcomment, hsource, ofLines, Text.lines_flatMap_feed fun l hl => (hcomments l hl).feed,
    Content.lines_namespaceBlock h.path.feed fun l hl => (hown l hl).feed]

/-- **Behind a heading the source is one declaration again**, whether it was cut off or not. -/
theorem finish_source (h : Scanner.ordinaryTerms.Account own comments draft) (hkind : draft.kind.isStandalone = true)
    (comment comment' : Text) (hpath : '{' ∉ draft.path → path = draft.path) :
    ∃ d', ((⟨some path, none, comment, []⟩ : Scanner).feedAll
        (own.map indent ++ [[], [], ['}']])).finish = [d'] ∧ (draft.finish comment').Returns d' := by
  have hown := Content.ordinary_indented h.member
  rcases h.shut with hshut | ⟨hopen, -⟩
  · obtain ⟨draft', hshut', hmoved⟩ := hshut.indented path
    have hfeed := Scanner.feedAll_shut (s := ⟨some path, none, comment, []⟩) hshut'
      (fun line hline => (hown line hline).handed) (congrArg some hmoved.path.symm) rfl
    refine ⟨draft'.finish comment, ?_, returns_of_moved hmoved hpath⟩
    rw [Scanner.feedAll_append, hfeed, Scanner.feedAll_end rfl rfl]
    rfl
  · obtain ⟨draft', hopen', hmoved⟩ := hopen.indented path
    have hfunction : draft'.kind ≠ .function := by
      rw [hmoved.kind]
      intro he
      rw [he] at hkind
      cases hkind
    -- the last lines of the block are no end marker, which is indented
    have hend : ∀ line ∈ [[], [], ['}']], Opening.opens line = false ∧ draft'.endMarker ≠ line := by
      have hplain : ∀ line ∈ [[], [], ['}']], Opening.opens line = false ∧ line.head? ≠ some ' ' := by decide
      intro line hline
      refine ⟨(hplain line hline).1, fun he => (hplain line hline).2 ?_⟩
      rw [← he, hmoved.endMarker]
      rfl
    have hall := hopen'.extended fun line hline =>
      ⟨(hend line hline).1, (hend line hline).2, fun he => absurd he hfunction⟩
    have hlines : ∀ line ∈ own.map indent ++ [[], [], ['}']], Scanner.Ordinary line :=
      List.forall_mem_append.mpr ⟨hown, Scanner.ordinary_end⟩
    have hfeed := Scanner.feedAll_open (s := ⟨some path, none, comment, []⟩) hall
      (fun line hline => (hlines line hline).handed) (congrArg some hmoved.path.symm) rfl
    refine ⟨(draft'.withSource (draft'.source ++ [[], [], ['}']].flatMap Draft.sourceLine)).finish comment, ?_,
      returns_of_moved ⟨hmoved.path, hmoved.kind, hmoved.signature, hmoved.complete, hmoved.endMarker⟩ hpath⟩
    rw [hfeed]
    rfl

/-- **A namespace with a name that is not all braces gives its declaration back.** -/
theorem scan_content (h : Scanner.ordinaryTerms.Account own comments draft) (hkind : draft.kind.isStandalone = true)
    (hother : ∃ c ∈ draft.path, c ≠ '{') (siblings : List Declaration) :
    ∃ d', scan (Text.lines ((draft.finish (comments.flatMap Scanner.remarkLine)).content siblings)) = [d'] ∧
      (draft.finish (comments.flatMap Scanner.remarkLine)).Returns d' := by
  obtain ⟨comment, hcomment⟩ :=
    Scanner.feedAll_idle (fun l hl => (Content.ordinary_commentLines h.remark l hl).heading) [] []
  obtain ⟨heading, hread, hrest⟩ := Heading.exists_read?_line h.path hother
  obtain ⟨comment', hline⟩ := Scanner.feed_line hread hrest none comment []
  have hpath : '{' ∉ draft.path → heading.path = draft.path := by
    intro hbrace
    rw [Heading.read?_line_of_notMem h.path hbrace] at hread
    cases hread
    rfl
  obtain ⟨d', hfinish, hreturns⟩ :=
    finish_source h hkind comment' (comments.flatMap Scanner.remarkLine) hpath
  refine ⟨d', ?_, hreturns⟩
  rw [lines_content h hkind, scan, Scanner.feedAll_append, Scanner.fresh, hcomment]
  show ((((⟨none, none, comment, []⟩ : Scanner).feed (Heading.line draft.path)).feed []).feedAll _).finish = _
  rw [hline, Scanner.feed_blank rfl rfl, hfinish]

/-- **A namespace with a name of braces only gives nothing back.** -/
theorem scan_content_of_braces (h : Scanner.ordinaryTerms.Account own comments draft)
    (hkind : draft.kind.isStandalone = true) (hbraces : ∀ c ∈ draft.path, c = '{')
    (siblings : List Declaration) :
    scan (Text.lines ((draft.finish (comments.flatMap Scanner.remarkLine)).content siblings)) = [] := by
  have hlines : ∀ line ∈ Content.commentLines comments ++
      Heading.line draft.path :: [] :: (own.map indent ++ [[], [], ['}']]), Heading.read? line = none := by
    refine List.forall_mem_append.mpr ⟨fun l hl => (Content.ordinary_commentLines h.remark l hl).heading, ?_⟩
    refine List.forall_mem_cons.mpr ⟨Heading.read?_line_of_braces hbraces, ?_⟩
    refine List.forall_mem_cons.mpr ⟨Scanner.ordinary_nil.heading, ?_⟩
    refine List.forall_mem_append.mpr ⟨fun l hl => (Content.ordinary_indented h.member l hl).heading, ?_⟩
    decide
  obtain ⟨comment, hfeed⟩ := Scanner.feedAll_idle hlines [] []
  rw [lines_content h hkind, scan, Scanner.fresh, hfeed]
  rfl

end Standalone

/-- **A standalone declaration comes back**, alone, from its content, if and only if the name of its namespace is
    not made of braces only. -/
theorem returns_iff {t : Text} (hclean : ∀ line ∈ Text.lines (normalise t), Scanner.IsClean line)
    {d : Declaration} (hd : d ∈ parse t) (hkind : d.kind.isStandalone = true) (siblings : List Declaration) :
    (∃ d', scan (Text.lines (d.content siblings)) = [d'] ∧ d.Returns d') ↔ ∃ c ∈ d.path, c ≠ '{' := by
  obtain ⟨own, comments, draft, rfl, haccount⟩ :=
    Scanner.accounted_of_clean Text.not_mem_of_mem_lines hclean d (mem_scan_of_standalone hd hkind)
  constructor
  · rintro ⟨d', hscan, -⟩
    by_contra hnone
    have hbraces : ∀ c ∈ draft.path, c = '{' := fun c hc => by_contra fun hne => hnone ⟨c, hc, hne⟩
    rw [scan_content_of_braces haccount hkind hbraces] at hscan
    cases hscan
  · exact fun hother => scan_content haccount hkind hother siblings

/-- A class without an end, and a comment before the first heading. -/
def endless : Text :=
  "/// A box.\nnamespace CG \x7b\n    export declare class Box<T> \x7b\n        content: T;".toList

def box : Declaration where
  path := "CG".toList
  kind := .classType
  signature := "Box<T>".toList
  endMarker := "    \x7d".toList
  complete := false
  source := "        export declare class Box<T> \x7b\n            content: T;\n".toList
  comment := "\n    /// A box.".toList
  ordinal := none

theorem box_returns : (∀ line ∈ Text.lines (normalise endless), Scanner.IsClean line) ∧ box ∈ parse endless ∧
    box.kind.isStandalone = true ∧
    ((∃ d', scan (Text.lines (box.content [])) = [d'] ∧ box.Returns d') ↔ ∃ c ∈ box.path, c ≠ '{') := by
  have hclean : ∀ line ∈ Text.lines (normalise endless), Scanner.IsClean line := by decide +kernel
  have hscan : scan (Text.lines (normalise endless)) = [box] := by decide +kernel
  have hgroups : ReExport.declarations (normalise endless) = [] := by decide +kernel
  have hmem : box ∈ parse endless := by
    rw [parse_of_scan hscan hgroups]
    exact List.mem_cons_self
  exact ⟨hclean, hmem, rfl, returns_iff hclean hmem rfl []⟩

/-- A class in a namespace with a brace for its name: behind the brace stands a tab. -/
def braced : Text := "namespace \x7b\t\n    export declare class A \x7b\n    \x7d\n\x7d".toList

def bracedClass : Declaration where
  path := ['{']
  kind := .classType
  signature := ['A']
  endMarker := "    \x7d".toList
  complete := false
  source := "        export declare class A \x7b\n        \x7d\n".toList
  comment := []
  ordinal := none

/-- **The class of the brace does not come back.** -/
theorem not_returns_braced : (∀ line ∈ Text.lines (normalise braced), Scanner.IsClean line) ∧
    bracedClass ∈ parse braced ∧ bracedClass.kind.isStandalone = true ∧
    ¬∃ d', scan (Text.lines (bracedClass.content [])) = [d'] ∧ bracedClass.Returns d' := by
  have hclean : ∀ line ∈ Text.lines (normalise braced), Scanner.IsClean line := by decide +kernel
  have hscan : scan (Text.lines (normalise braced)) = [bracedClass] := by decide +kernel
  have hgroups : ReExport.declarations (normalise braced) = [] := by decide +kernel
  have hnothing : scan (Text.lines (bracedClass.content [])) = [] := by decide +kernel
  refine ⟨hclean, ?_, rfl, ?_⟩
  · rw [parse_of_scan hscan hgroups]
    exact List.mem_cons_self
  · rintro ⟨d', hd', -⟩
    rw [hnothing] at hd'
    cases hd'

end Declaration
end Ambient
