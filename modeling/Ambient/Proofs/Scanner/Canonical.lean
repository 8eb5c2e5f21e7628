import Ambient.Parse
import Ambient.Proofs.Scanner.Heading
import Ambient.Proofs.Scanner.Opening
import Mathlib.Data.List.Basic

/-!
# Canonical files

A canonical file is a list of modules, each a heading, declarations with comment lines before them, and a
lone closing brace. `WellFormed` is its syntax, line by line. What a line may NOT look like, because the
scanner would take it for something else, is said by `Legible`: it is all that the syntax leaves open.

* `feedAll_remarks`, `feedAll_block`: what comment lines, and a body with its end marker, do;
* `feedAll_item`, `feedAll_module`: a declaration is added to the closed ones, and nothing else is left;
* `scan_modules`: what comes out of a legible file is what was written;
* `misread_modules`: without each part of `Legible` it need not be.
-/

namespace Ambient

/-! ## 1. Syntax -/

namespace Canonical

/-- A declaration with its comment lines. The body counts where the tail leaves the declaration open. -/
structure Item where
  comments : List Text
  indent : Text
  opening : Opening
  name : Text
  tail : Tail
  body : List Text
  deriving DecidableEq, Repr

structure Module where
  path : Text
  items : List Item
  deriving DecidableEq, Repr

namespace Item

def header (i : Item) : Text := i.opening.header i.indent i.name i.tail

/-- The line that closes the declaration. -/
def footer (i : Item) : Text := i.indent ++ i.opening.closer

/-- The lines without the comment. -/
def source (i : Item) : List Text := i.header :: if i.tail.isWhole then [] else i.body ++ [i.footer]

def lines (i : Item) : List Text := i.comments ++ i.source

structure WellFormed (i : Item) : Prop where
  row : i.opening ∈ Opening.table
  rule : i.opening.rule = i.tail.rule
  indent : ∀ c ∈ i.indent, isBlank c = true
  name : IsIdentifier i.name
  tail : i.tail.Canonical

instance (i : Item) : Decidable i.WellFormed :=
  decidable_of_iff (i.opening ∈ Opening.table ∧ i.opening.rule = i.tail.rule ∧
      i.indent.all isBlank = true ∧ IsIdentifier i.name ∧ i.tail.Canonical)
    ⟨fun ⟨hrow, hrule, hindent, hname, htail⟩ => ⟨hrow, hrule, List.all_eq_true.mp hindent, hname, htail⟩,
      fun h => ⟨h.row, h.rule, List.all_eq_true.mpr h.indent, h.name, h.tail⟩⟩

end Item

namespace Module

def header (m : Module) : Text := "namespace ".toList ++ (m.path ++ " \x7b".toList)

def lines (m : Module) : List Text := m.header :: (m.items.flatMap Item.lines ++ [['}']])

/-- Neither a blank nor a brace. -/
def isPathChar (c : Char) : Bool := !isBlank c && c != '{' && c != '}'

structure WellFormed (m : Module) : Prop where
  ne_nil : m.path ≠ []
  path : ∀ c ∈ m.path, isPathChar c = true
  items : ∀ i ∈ m.items, i.WellFormed

instance (m : Module) : Decidable m.WellFormed :=
  decidable_of_iff (m.path ≠ [] ∧ m.path.all isPathChar = true ∧ ∀ i ∈ m.items, i.WellFormed)
    ⟨fun ⟨hne, hpath, hitems⟩ => ⟨hne, List.all_eq_true.mp hpath, hitems⟩,
      fun h => ⟨h.ne_nil, List.all_eq_true.mpr h.path, h.items⟩⟩

end Module
end Canonical

/-! ## 2. Legibility -/

namespace Scanner

/-- Is the line handed to the namespace as it is, without opening a declaration? -/
def isPlain (line : Text) : Bool :=
  !isSkipped line && (Heading.read? line).isNone && !Opening.opens line

/-- Is the line added to the comment wherever no declaration is open? -/
def isRemark (line : Text) : Bool := isPlain line && !Text.allBlank line && Text.trim line != ['}']

/-- **A line that starts with a slash or a star is one**, if no keyword stands in it. -/
theorem isRemark_of_head {line t : Text} {c : Char} (htrim : Text.trim line = c :: t) (hc : c = '/' ∨ c = '*')
    (hopens : Opening.opens line = false) : isRemark line = true := by
  obtain ⟨hi, hp, hedn, hbrace⟩ : c ≠ 'i' ∧ c ≠ 'p' ∧ c ∉ "edn".toList ∧ c ≠ '}' := by
    rcases hc with rfl | rfl
    · decide
    · decide
  have hblank : Text.allBlank line = false := by
    rw [← Bool.not_eq_true]
    intro hb
    rw [Text.trim_of_all_blank (Text.allBlank_iff.mp hb)] at htrim
    cases htrim
  have hne : Text.trim line ≠ ['}'] := by
    rw [htrim]
    intro he
    exact hbrace (List.cons.inj he).1
  unfold isRemark isPlain
  rw [isSkipped_of_head htrim hi hp, Heading.read?_of_head htrim hedn, hopens, hblank, bne_iff_ne.mpr hne]
  rfl

end Scanner

namespace Canonical

/-- **What the scanner needs beyond the syntax.** -/
structure Item.Legible (i : Item) : Prop where
  comments : ∀ line ∈ i.comments, Scanner.isRemark line = true
  body : i.tail.isWhole = false → ∀ line ∈ i.body, Scanner.isPlain line = true ∧ line ≠ i.footer
  /-- No row of the table that is tried before its own opens the opening line. -/
  header : i.tail.isFree = true → ∀ o ∈ i.opening.earlier, o.open? [] i.header = none
  /-- A generic list has something inside. -/
  list : i.tail.hasEmptyList = false

instance (i : Item) : Decidable i.Legible :=
  decidable_of_iff ((∀ line ∈ i.comments, Scanner.isRemark line = true) ∧
      (i.tail.isWhole = false → ∀ line ∈ i.body, Scanner.isPlain line = true ∧ line ≠ i.footer) ∧
      (i.tail.isFree = true → ∀ o ∈ i.opening.earlier, o.open? [] i.header = none) ∧
      i.tail.hasEmptyList = false)
    ⟨fun ⟨hcomments, hbody, hheader, hlist⟩ => ⟨hcomments, hbody, hheader, hlist⟩,
      fun h => ⟨h.comments, h.body, h.header, h.list⟩⟩

def Module.Legible (m : Module) : Prop := ∀ i ∈ m.items, i.Legible

instance (m : Module) : Decidable m.Legible := inferInstanceAs (Decidable (∀ i ∈ m.items, i.Legible))

/-! ## 3. What is written -/

/-- What a reader sees of a declaration. -/
structure Summary where
  kind : Kind
  path : Text
  shortName : Text
  hasGenerics : Bool
  source : Text
  comment : Text
  deriving DecidableEq, Repr

def Item.summary (path : Text) (i : Item) : Summary :=
  { kind := i.opening.kind, path, shortName := i.name, hasGenerics := i.tail.isGeneric,
    source := i.source.flatMap Draft.sourceLine, comment := i.comments.flatMap Scanner.remarkLine }

def Module.summaries (m : Module) : List Summary := m.items.map (Item.summary m.path)

end Canonical

def Declaration.summary (d : Declaration) : Canonical.Summary :=
  { kind := d.kind, path := d.path, shortName := d.shortName, hasGenerics := d.hasGenerics, source := d.source,
    comment := d.comment }

namespace Canonical

/-- The draft that an opening line opens, without lines. -/
def Item.start (path : Text) (i : Item) : Draft :=
  .start path i.opening.kind (Text.trim (i.name ++ i.tail.signature)) i.footer i.tail.isWhole

/-- The declaration that the scanner makes of an item. -/
def Item.declaration (path : Text) (i : Item) : Declaration :=
  (((i.start path).withSource (i.source.flatMap Draft.sourceLine)).finish
    (i.comments.flatMap Scanner.remarkLine))

/-- **The declaration shows what was written.** -/
theorem Item.summary_declaration {i : Item} (hw : i.WellFormed) (hl : i.Legible) (path : Text) :
    (i.declaration path).summary = i.summary path := by
  have hshort : shortNameOf i.opening.kind (Text.trim (i.name ++ i.tail.signature)) =
      ⟨i.name, i.tail.isGeneric⟩ := shortNameOf_tail hw.row hw.rule hw.name hw.tail hl.list
  have hname : (i.declaration path).shortName = i.name := congrArg ShortName.text hshort
  have hgeneric : (i.declaration path).hasGenerics = i.tail.isGeneric := congrArg ShortName.hasGenerics hshort
  unfold Declaration.summary Item.summary
  rw [hname, hgeneric]
  rfl

end Canonical

/-! ## 4. Lines of a declaration -/

namespace Scanner

section Lines

variable {path comment line : Text} {closed : List Declaration} {draft : Draft}

theorem feed_of_plain {s : Scanner} (h : isPlain line = true) (hp : s.path?.isSome = true) :
    s.feed line = s.continueWith line := by
  unfold isPlain at h
  simp only [Bool.and_eq_true, Bool.not_eq_true', Option.isNone_iff_eq_none] at h
  obtain ⟨⟨hskip, hread⟩, hopens⟩ := h
  unfold feed
  rw [hskip, if_neg Bool.false_ne_true, hread]
  simp only [hp, if_true]
  exact member_of_not_opens hopens

theorem feed_of_remark (h : isRemark line = true) :
    (⟨some path, none, comment, closed⟩ : Scanner).feed line =
      ⟨some path, none, comment ++ remarkLine line, closed⟩ := by
  unfold isRemark at h
  simp only [Bool.and_eq_true, Bool.not_eq_true', bne_iff_ne] at h
  obtain ⟨⟨hplain, hblank⟩, hbrace⟩ := h
  rw [feed_of_plain hplain rfl]
  show (if Text.trim line = ['}'] then _ else remark _ line) = _
  rw [if_neg hbrace, remark_of_not_blank hblank]

/-- Comment lines are collected. -/
theorem feedAll_remarks {lines : List Text} (h : ∀ line ∈ lines, isRemark line = true) :
    (⟨some path, none, comment, closed⟩ : Scanner).feedAll lines =
      ⟨some path, none, comment ++ lines.flatMap remarkLine, closed⟩ := by
  induction lines generalizing comment with
  | nil =>
    rw [List.flatMap_nil, List.append_nil]
    rfl
  | cons line lines ih =>
    obtain ⟨hline, hlines⟩ := List.forall_mem_cons.mp h
    show feedAll (feed _ line) lines = _
    rw [feed_of_remark hline, ih hlines, List.flatMap_cons, List.append_assoc]

/-- An incomplete draft, unless it is a function, collects lines and stays open. -/
theorem collect_of_open (s : Scanner) (hkind : draft.kind ≠ .function) (hopen : draft.complete = false)
    (line : Text) : s.collect draft line =
      { s with draft? := some (draft.withSource (draft.source ++ Draft.sourceLine line)) } := by
  unfold collect
  rw [Draft.push_of_settled (Or.inl hkind)]
  have hno : ¬draft.complete = true := by
    rw [hopen]
    exact Bool.false_ne_true
  exact if_neg hno

/-- A complete draft collects one line and closes. -/
theorem collect_of_complete (s : Scanner) (hcomplete : draft.complete = true) (line : Text) :
    s.collect draft line = ⟨s.path?, none, [],
      s.closed ++ [(draft.withSource (draft.source ++ Draft.sourceLine line)).finish s.comment]⟩ := by
  unfold collect
  rw [Draft.push_of_settled (Or.inr hcomplete)]
  exact if_pos hcomplete

/-- A line that is not the end marker is added to a declaration that is open until its end marker. -/
theorem feed_of_body (hkind : draft.kind ≠ .function) (hopen : draft.complete = false)
    (hplain : isPlain line = true) (hne : line ≠ draft.endMarker) :
    (⟨some path, some draft, comment, closed⟩ : Scanner).feed line =
      ⟨some path, some (draft.withSource (draft.source ++ Draft.sourceLine line)), comment, closed⟩ := by
  rw [feed_of_plain hplain rfl]
  show (if draft.endMarker = line then _
    else if draft.complete && isCommentLine line then _ else collect _ draft line) = _
  rw [if_neg (Ne.symm hne), hopen, Bool.false_and, if_neg Bool.false_ne_true,
    collect_of_open _ hkind hopen]

/-- **The lines of a body are collected.** -/
theorem feedAll_body (hkind : draft.kind ≠ .function) (hopen : draft.complete = false) {lines : List Text}
    (h : ∀ line ∈ lines, isPlain line = true ∧ line ≠ draft.endMarker) :
    (⟨some path, some draft, comment, closed⟩ : Scanner).feedAll lines =
      ⟨some path, some (draft.withSource (draft.source ++ lines.flatMap Draft.sourceLine)), comment,
        closed⟩ := by
  induction lines generalizing draft with
  | nil =>
    rw [List.flatMap_nil, List.append_nil]
    rfl
  | cons line lines ih =>
    obtain ⟨⟨hplain, hne⟩, hlines⟩ := List.forall_mem_cons.mp h
    show feedAll (feed _ line) lines = _
    let grown : Draft := draft.withSource (draft.source ++ Draft.sourceLine line)
    have hgrown : feedAll ⟨some path, some grown, comment, closed⟩ lines = _ := ih hkind hopen hlines
    rw [feed_of_body hkind hopen hplain hne, hgrown, List.flatMap_cons, ← List.append_assoc]
    rfl

/-- **The end marker closes the declaration.** -/
theorem feed_of_endMarker (hkind : draft.kind ≠ .function) (hplain : isPlain draft.endMarker = true) :
    (⟨some path, some draft, comment, closed⟩ : Scanner).feed draft.endMarker =
      ⟨some path, none, [], closed ++
        [(draft.withSource (draft.source ++ Draft.sourceLine draft.endMarker)).finish comment]⟩ := by
  rw [feed_of_plain hplain rfl]
  show (if draft.endMarker = draft.endMarker then _ else _) = _
  rw [if_pos rfl, Draft.push_of_settled (Or.inl hkind)]
  rfl

/-- **A body and the end marker close the declaration with all its lines.** -/
theorem feedAll_block (hkind : draft.kind ≠ .function) (hopen : draft.complete = false) {body : List Text}
    (hbody : ∀ line ∈ body, isPlain line = true ∧ line ≠ draft.endMarker)
    (hplain : isPlain draft.endMarker = true) :
    (⟨some path, some draft, comment, closed⟩ : Scanner).feedAll (body ++ [draft.endMarker]) =
      ⟨some path, none, [], closed ++ [(draft.withSource
        (draft.source ++ (body ++ [draft.endMarker]).flatMap Draft.sourceLine)).finish comment]⟩ := by
  let filled : Draft := draft.withSource (draft.source ++ body.flatMap Draft.sourceLine)
  have hclose : feed ⟨some path, some filled, comment, closed⟩ draft.endMarker = ⟨some path, none, [], closed ++
      [(filled.withSource (filled.source ++ Draft.sourceLine draft.endMarker)).finish comment]⟩ :=
    feed_of_endMarker hkind hplain
  rw [feedAll_append, feedAll_body hkind hopen hbody, List.flatMap_append, List.flatMap_singleton,
    ← List.append_assoc]
  exact hclose

end Lines

theorem isPlain_brace : isPlain ['}'] = true := by decide

end Scanner

/-! ## 5. Files -/

namespace Canonical

namespace Item

variable {i : Item}

/-- A closing line has neither the letter of a keyword nor that of `namespace`. -/
theorem isPlain_footer (hw : i.WellFormed) : Scanner.isPlain i.footer = true := by
  have hclosers : ∀ o ∈ Opening.table, (Text.trim o.closer).head? = some '}' ∧ 'n' ∉ o.closer ∧
      'e' ∉ o.closer := by decide
  obtain ⟨hbrace, hn, he⟩ := hclosers i.opening hw.row
  have hno : ∀ c, isBlank c = false → c ∉ i.opening.closer → c ∉ i.footer := by
    intro c hc hcloser h
    rcases List.mem_append.mp h with h | h
    · rw [hw.indent c h] at hc
      exact absurd hc (by decide)
    · exact hcloser h
  have hskip : Scanner.isSkipped i.footer = false := by
    obtain ⟨t, ht⟩ := List.head?_eq_some_iff.mp hbrace
    have htrim : Text.trim i.footer = '}' :: t := by
      unfold footer
      rw [Text.trim_append hw.indent, ht]
    exact Scanner.isSkipped_of_head htrim (by decide) (by decide)
  have hread : Heading.read? i.footer = none := by
    have hcut : Text.cut? "namespace ".toList i.footer = none := Text.cut?_eq_none (hno 'n' (by decide) hn)
    unfold Heading.read?
    rw [hcut]
  have hopens : Opening.opens i.footer = false := by
    rw [← Bool.not_eq_true]
    intro h
    exact hno 'e' (by decide) he (Opening.mem_of_opens h)
  unfold Scanner.isPlain
  rw [hskip, hread, hopens]
  rfl

/-- The opening line opens the declaration. -/
theorem first?_header (hw : i.WellFormed) (hl : i.Legible) (path : Text) :
    Opening.first? path i.header = some (i.start path) := by
  refine Opening.first?_of_earlier hw.row (fun o ho => ?_)
    (Opening.open?_header hw.row hw.rule hw.indent hw.name hw.tail path)
  cases hfree : i.tail.isFree with
  | false => exact Opening.earlier_closed hw.row hw.indent hw.name hfree path o ho
  | true =>
    rw [← Option.not_isSome_iff_eq_none, Opening.open?_isSome, hl.header hfree o ho]
    exact Bool.false_ne_true

variable {path comment : Text} {closed : List Declaration}

theorem feed_header (hw : i.WellFormed) (hl : i.Legible) :
    (⟨some path, none, comment, closed⟩ : Scanner).feed i.header =
      (⟨some path, none, comment, closed⟩ : Scanner).collect (i.start path) i.header := by
  have hskip : Scanner.isSkipped i.header = false := Scanner.isSkipped_header hw.row hw.indent i.name i.tail
  have hread : Heading.read? i.header = none := Heading.read?_header hw.row hw.indent i.name i.tail
  unfold Scanner.feed
  rw [hskip, if_neg Bool.false_ne_true, hread]
  show Scanner.member _ i.header = _
  unfold Scanner.member
  rw [Option.bind_some, first?_header hw hl path]
  rfl

/-- A declaration that its opening line leaves open is no function. -/
theorem kind_ne_function (hw : i.WellFormed) (h : i.tail.isWhole = false) : i.opening.kind ≠ .function := by
  have hkind : i.opening.kind ∈ i.tail.rule.kinds := hw.rule ▸ Opening.kind_mem_kinds i.opening hw.row
  intro hfunction
  rw [hfunction] at hkind
  cases htail : i.tail with
  | head _ _ =>
    rw [htail] at hkind
    exact absurd hkind (by decide : Kind.function ∉ SignatureRule.clause.kinds)
  | brace =>
    rw [htail] at hkind
    exact absurd hkind (by decide : Kind.function ∉ SignatureRule.body.kinds)
  | object =>
    rw [htail] at hkind
    exact absurd hkind (by decide : Kind.function ∉ SignatureRule.statement.kinds)
  | typed _ =>
    rw [htail] at h
    cases h
  | call _ _ =>
    rw [htail] at h
    cases h

/-- **A declaration is added to the closed ones, and nothing else is left of it.** -/
theorem feedAll_item (hw : i.WellFormed) (hl : i.Legible) :
    (⟨some path, none, [], closed⟩ : Scanner).feedAll i.lines =
      ⟨some path, none, [], closed ++ [i.declaration path]⟩ := by
  unfold lines
  rw [Scanner.feedAll_append, Scanner.feedAll_remarks hl.comments, List.nil_append]
  unfold source
  show Scanner.feedAll (Scanner.feed _ i.header) _ = _
  rw [feed_header hw hl]
  cases hwhole : i.tail.isWhole with
  | true =>
    have hcomplete : (i.start path).complete = true := hwhole
    rw [Scanner.collect_of_complete _ hcomplete]
    unfold declaration source
    rw [hwhole, if_pos rfl, List.flatMap_singleton]
    rfl
  | false =>
    have hkind : (i.start path).kind ≠ .function := kind_ne_function hw hwhole
    have hopen : (i.start path).complete = false := hwhole
    let opened : Draft := (i.start path).withSource (Draft.sourceLine i.header)
    have hblock : Scanner.feedAll ⟨some path, some opened, i.comments.flatMap Scanner.remarkLine, closed⟩
        (i.body ++ [opened.endMarker]) = _ :=
      Scanner.feedAll_block (show opened.kind ≠ .function from hkind) hopen (hl.body hwhole) (isPlain_footer hw)
    rw [Scanner.collect_of_open _ hkind hopen, if_neg Bool.false_ne_true]
    refine hblock.trans ?_
    unfold declaration source
    rw [hwhole, if_neg Bool.false_ne_true]
    rfl

theorem feedAll_items {items : List Item} (hw : ∀ i ∈ items, i.WellFormed) (hl : ∀ i ∈ items, i.Legible) :
    (⟨some path, none, [], closed⟩ : Scanner).feedAll (items.flatMap lines) =
      ⟨some path, none, [], closed ++ items.map (declaration path)⟩ := by
  induction items generalizing closed with
  | nil =>
    rw [List.map_nil, List.append_nil]
    rfl
  | cons i items ih =>
    obtain ⟨hwi, hws⟩ := List.forall_mem_cons.mp hw
    obtain ⟨hli, hls⟩ := List.forall_mem_cons.mp hl
    rw [List.flatMap_cons, Scanner.feedAll_append, feedAll_item hwi hli, ih hws hls, List.map_cons,
      List.append_assoc, List.singleton_append]

end Item

namespace Module

variable {m : Module}

theorem isSkipped_header (m : Module) : Scanner.isSkipped m.header = false := Heading.isSkipped_line m.path

theorem not_isBlank_of_isPathChar {c : Char} (h : isPathChar c = true) : isBlank c = false := by
  unfold isPathChar at h
  simp only [Bool.and_eq_true, Bool.not_eq_true'] at h
  exact h.1.1

theorem WellFormed.isPath (hw : m.WellFormed) : Heading.IsPath m.path where
  ne_nil := hw.ne_nil
  space h := absurd (hw.path ' ' h) (by decide)
  feed h := absurd (hw.path '\n' h) (by decide)
  head c h := not_isBlank_of_isPathChar (hw.path c (List.mem_of_mem_head? h))
  last c h := not_isBlank_of_isPathChar (hw.path c (List.mem_of_mem_getLast? h))

/-- The first line of a module is a heading, with nothing behind the brace. -/
theorem read?_header (hw : m.WellFormed) : Heading.read? m.header = some ⟨m.path, none⟩ :=
  Heading.read?_line_of_notMem hw.isPath fun h => absurd (hw.path '{' h) (by decide)

/-- **A module leaves its declarations and its namespace.** -/
theorem feedAll_module (hw : m.WellFormed) (hl : m.Legible) (path? : Option Text) (closed : List Declaration) :
    (⟨path?, none, [], closed⟩ : Scanner).feedAll m.lines =
      ⟨some m.path, none, [], closed ++ m.items.map (Item.declaration m.path)⟩ := by
  have hheader : Scanner.feed ⟨path?, none, [], closed⟩ m.header = ⟨some m.path, none, [], closed⟩ := by
    unfold Scanner.feed
    rw [isSkipped_header, if_neg Bool.false_ne_true, read?_header hw]
  have hitems : Scanner.feedAll ⟨some m.path, none, [], closed⟩ (m.items.flatMap Item.lines) =
      ⟨some m.path, none, [], closed ++ m.items.map (Item.declaration m.path)⟩ :=
    Item.feedAll_items hw.items hl
  unfold lines
  show Scanner.feedAll (Scanner.feed _ m.header) _ = _
  rw [hheader, Scanner.feedAll_append, hitems]
  -- the brace throws the comment away, and there is none
  let done : Scanner := ⟨some m.path, none, [], closed ++ m.items.map (Item.declaration m.path)⟩
  show done.feed ['}'] = done
  exact Scanner.feed_of_plain Scanner.isPlain_brace rfl

end Module

theorem feedAll_modules {ms : List Module} (hw : ∀ m ∈ ms, m.WellFormed) (hl : ∀ m ∈ ms, m.Legible)
    (path? : Option Text) (closed : List Declaration) :
    ∃ last?, (⟨path?, none, [], closed⟩ : Scanner).feedAll (ms.flatMap Module.lines) =
      ⟨last?, none, [], closed ++ ms.flatMap fun m => m.items.map (Item.declaration m.path)⟩ := by
  induction ms generalizing path? closed with
  | nil => exact ⟨path?, by rw [List.flatMap_nil, List.flatMap_nil, List.append_nil]; rfl⟩
  | cons m ms ih =>
    obtain ⟨hwm, hws⟩ := List.forall_mem_cons.mp hw
    obtain ⟨hlm, hls⟩ := List.forall_mem_cons.mp hl
    obtain ⟨last?, hlast⟩ := ih hws hls (some m.path) (closed ++ m.items.map (Item.declaration m.path))
    refine ⟨last?, ?_⟩
    rw [List.flatMap_cons, Scanner.feedAll_append, Module.feedAll_module hwm hlm, hlast, List.flatMap_cons,
      List.append_assoc]

/-- **What comes out of a legible file is what was written**: one declaration for each item, in file order. -/
theorem scan_modules {ms : List Module} (hw : ∀ m ∈ ms, m.WellFormed) (hl : ∀ m ∈ ms, m.Legible) :
    (scan (ms.flatMap Module.lines)).map Declaration.summary = ms.flatMap Module.summaries := by
  obtain ⟨last?, hlast⟩ := feedAll_modules hw hl none []
  have hscan : scan (ms.flatMap Module.lines) = ms.flatMap fun m => m.items.map (Item.declaration m.path) := by
    unfold scan
    show (Scanner.feedAll ⟨none, none, [], []⟩ (ms.flatMap Module.lines)).finish = _
    rw [hlast]
    rfl
  rw [hscan, List.map_flatMap]
  refine List.flatMap_congr fun m hm => ?_
  rw [List.map_map]
  exact List.map_congr_left fun i hi => Item.summary_declaration ((hw m hm).items i hi) (hl m hm i hi) m.path

/-- The row of the table that opens a kind. -/
def rowOf (kind : Kind) : Opening :=
  (Opening.table.find? fun o => o.kind = kind).getD ⟨[], kind, .body, []⟩

/-- Two modules with a declaration of every kind. -/
def sampleFile : List Module :=
  [⟨"CG.A".toList,
    [⟨["    // a box".toList, "    /** for one */".toList], "    ".toList, rowOf .classType, "Box".toList,
        .head (some "T extends U".toList) " extends Base<T>".toList, ["        get(): T;".toList]⟩,
      ⟨[], [], rowOf .enumType, "Hue".toList, .brace, ["  Red = 1,".toList]⟩,
      ⟨[" * the default".toList], "\t".toList, rowOf .varValue, "$v".toList, .object, ["    \x7d".toList]⟩]⟩,
    ⟨"B".toList,
      [⟨[], "  ".toList, rowOf .interfaceType, "Shape".toList, .head none [], []⟩,
      ⟨["  // size".toList], "  ".toList, rowOf .constValue, "size".toList, .typed "number".toList, []⟩,
      ⟨[], "  ".toList, rowOf .function, "area".toList, .call "s: Shape".toList ": number".toList, []⟩]⟩]

theorem scan_sampleFile : (∀ m ∈ sampleFile, m.WellFormed) ∧ (∀ m ∈ sampleFile, m.Legible) ∧
    (scan (sampleFile.flatMap Module.lines)).map Declaration.summary = sampleFile.flatMap Module.summaries := by
  have hw : ∀ m ∈ sampleFile, m.WellFormed := by decide
  have hl : ∀ m ∈ sampleFile, m.Legible := by decide
  exact ⟨hw, hl, scan_modules hw hl⟩

/-! ## 6. Misreadings -/

/-- A module with one declaration of the name `X`. -/
def single (comments : List Text) (kind : Kind) (tail : Tail) (body : List Text) : Module :=
  ⟨"CG.A".toList, [⟨comments, "    ".toList, rowOf kind, ['X'], tail, body⟩]⟩

/-- Well-formed, but what comes out is not what was written. -/
structure Misread (m : Module) : Prop where
  wellFormed : m.WellFormed
  differs : (scan m.lines).map Declaration.summary ≠ m.summaries

/-- **No part of `Legible` can be left out**: a keyword in a comment line, an end marker in a body, the keyword
    of an earlier row in a type, and an empty generic list. -/
theorem misread_modules :
    Misread (single ["    // export interface Y".toList] .constValue (.typed "number".toList) []) ∧
    Misread (single [] .classType (.head none []) ["    \x7d".toList]) ∧
    Misread (single [] .constValue (.typed "\"export interface Y\"".toList) []) ∧
    Misread (single [] .classType (.head (some []) []) []) :=
  ⟨⟨by decide, by decide⟩, ⟨by decide, by decide⟩, ⟨by decide, by decide⟩, ⟨by decide, by decide⟩⟩

end Canonical
end Ambient
