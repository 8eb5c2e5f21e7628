import Ambient.Declaration.InsertText
import Ambient.Proofs.Scanner.Indent
import Ambient.Proofs.Text.Pieces

/-!
# Functions over several lines

A function signature may be written on one line, with a semicolon behind it, or be broken into pieces, one on each
line. A `Wrapping` is a signature with its pieces and the blanks in front of them. The two forms go separate
ways: on one line the signature is what stands before the semicolon, on several it is read off the source.

* `joinedSignature_lines`: what is read off the source is the signature;
* `open_lines`, `shut_lines`: every line but the last leaves the draft open, and the last shuts it;
* `feedAll_lines`: so several lines give the signature, with semicolons in it or without;
* `lines_agree_oneLine`: without, the one line gives the same declaration, up to the lines it was written on.
-/

namespace Ambient

/-! ## 1. Wrapped signatures -/

/-- The opening of functions. -/
def Opening.ofFunction : Opening := ⟨"export declare function ".toList, .function, .call, "\x7d".toList⟩

/-- A function signature with the pieces into which it is broken. -/
structure Wrapping where
  indent : Text
  signature : Text
  /-- The piece on the opening line. -/
  first : Text
  /-- The blanks and the piece of every further line. -/
  rest : List (Text × Text)
  deriving DecidableEq, Repr

namespace Wrapping

/-- An opening line with this text behind the keyword. -/
def header (w : Wrapping) (t : Text) : Text := w.indent ++ (Opening.ofFunction.keyword ++ t)

def pieces (w : Wrapping) : List Text := w.first :: w.rest.map Prod.snd

def further (w : Wrapping) : List Text := w.rest.map fun (margin, piece) => margin ++ piece

/-- The form of several lines. -/
def lines (w : Wrapping) : List Text := w.header w.first :: w.further

/-- The signature with its semicolon. -/
def statement (w : Wrapping) : Text := w.signature ++ [';']

/-- The form of one line. -/
def oneLine (w : Wrapping) : Text := w.header w.statement

structure WellFormed (w : Wrapping) : Prop where
  tight : Text.Tight w.signature
  semicolon : ';' ∉ w.signature
  parentheses : w.signature.count '(' = w.signature.count ')'
  keyword : ∀ o ∈ Opening.table, ¬o.keyword <:+: w.signature
  indent : ∀ c ∈ w.indent, isBlank c = true
  margins : ∀ r ∈ w.rest, ∀ c ∈ r.1, isBlank c = true
  broken : Text.InPieces w.statement w.pieces
  /-- There is a cut. -/
  rest : w.rest ≠ []
  /-- No further line is passed over, is a heading, or is the end marker. -/
  clear : ∀ line ∈ w.further,
    Scanner.isSkipped line = false ∧ Heading.read? line = none ∧ line ≠ w.indent ++ ['}']

/-- **The form of several lines can be read**, whatever semicolons stand in the signature. -/
structure Laid (w : Wrapping) : Prop where
  tight : Text.Tight w.signature
  parentheses : w.signature.count '(' = w.signature.count ')'
  keyword : ∀ o ∈ Opening.table, ¬o.keyword <:+: w.signature
  indent : ∀ c ∈ w.indent, isBlank c = true
  margins : ∀ r ∈ w.rest, ∀ c ∈ r.1, isBlank c = true
  broken : Text.InPieces w.statement w.pieces
  rest : w.rest ≠ []
  clear : ∀ line ∈ w.further,
    Scanner.isSkipped line = false ∧ Heading.read? line = none ∧ line ≠ w.indent ++ ['}']
  /-- The opening line does not end the signature, -/
  first : ';' ∉ w.first
  /-- and no line before the last completes it. -/
  early : ∀ own ∈ w.lines.dropLast.inits, ∀ line ∈ own.getLast?,
    Draft.completes line (own.flatMap Draft.sourceLine) = false

/-- The draft that the opening line opens, with the given lines. -/
def draft (w : Wrapping) (path : Text) (own : List Text) : Draft :=
  (Draft.start path .function w.first (w.indent ++ ['}']) false).withSource (own.flatMap Draft.sourceLine)

/-- The declaration, written on these lines. -/
def declaration (w : Wrapping) (path comment : Text) (own : List Text) : Declaration :=
  { path, kind := .function, signature := w.signature, endMarker := w.indent ++ ['}'], complete := true,
    source := own.flatMap Draft.sourceLine, comment, ordinal := none }

end Wrapping

/-! ## 2. Pieces -/

/-- A text with no keyword opens nothing. -/
theorem Opening.opens_of_cut? {line : Text} (h : ∀ o ∈ table, Text.cut? o.keyword line = none) :
    opens line = false := by
  rw [← Bool.not_eq_true]
  intro ho
  obtain ⟨draft, hdraft⟩ := exists_first? ho []
  obtain ⟨o, hmem, hopen⟩ := List.exists_of_findSome?_eq_some hdraft
  obtain ⟨before, behind, hcut, -⟩ := open?_eq_some hopen
  rw [h o hmem] at hcut
  cases hcut

namespace Wrapping

theorem row_mem : Opening.ofFunction ∈ Opening.table := by decide

variable {w : Wrapping}

theorem statement_ne_nil (w : Wrapping) : w.statement ≠ [] :=
  List.append_ne_nil_of_right_ne_nil _ (List.cons_ne_nil _ _)

theorem tight_statement (h : Text.Tight w.signature) : Text.Tight w.statement where
  space c hc hblank := by
    rcases List.mem_append.mp hc with hc | hc
    · exact h.space c hc hblank
    · rw [List.mem_singleton.mp hc] at hblank
      exact absurd hblank (by decide)
  single := Text.not_infix_concat h.single fun hc => absurd hc (by decide)
  opened := Text.not_infix_concat h.opened fun hc => absurd hc (by decide)
  closing := Text.not_infix_concat h.closing fun hc => absurd hc (by decide)
  head c hc := by
    unfold statement at hc
    cases hs : w.signature with
    | nil =>
      rw [hs] at hc
      cases hc
      decide
    | cons d t =>
      rw [hs] at hc
      exact h.head c (by rw [hs]; exact hc)
  last c hc := by
    unfold statement at hc
    rw [List.getLast?_concat] at hc
    cases hc
    decide

/-- The pieces stand between single spaces. -/
theorem spaced_pieces (h : Text.Tight w.signature) (hbroken : Text.InPieces w.statement w.pieces) :
    ∀ p ∈ w.pieces, p ≠ [] ∧ Text.Spaced p :=
  hbroken.spaced (tight_statement h) (statement_ne_nil w)

theorem pieces_concat {init : List (Text × Text)} {last : Text × Text} (hrest : w.rest = init ++ [last]) :
    w.pieces = (w.first :: init.map Prod.snd) ++ [last.2] := by
  unfold pieces
  rw [hrest, List.map_append]
  rfl

/-- **A semicolon stands in the last piece.** -/
theorem exists_last (h : Text.Tight w.signature) (hbroken : Text.InPieces w.statement w.pieces)
    (hrest : w.rest ≠ []) : ∃ init last, w.rest = init ++ [last] ∧ ';' ∈ last.2 := by
  obtain ⟨before, piece, hpieces, a, ha⟩ := hbroken.exists_last
  obtain ⟨init, last, hsplit⟩ := List.eq_nil_or_concat w.rest |>.resolve_left hrest
  rw [List.concat_eq_append] at hsplit
  have hall := pieces_concat hsplit
  obtain ⟨-, hlast⟩ := List.append_inj' (hpieces.symm.trans hall) rfl
  obtain rfl := List.singleton_inj.mp hlast
  have hne : last.2 ≠ [] := (spaced_pieces h hbroken last.2 (hall ▸ List.mem_append_right _ List.mem_cons_self)).1
  refine ⟨init, last, hsplit, ?_⟩
  have hget : (a ++ last.2).getLast? = some ';' := by
    rw [ha]
    exact List.getLast?_concat
  rw [List.getLast?_append_of_ne_nil a hne] at hget
  exact List.mem_of_getLast? hget

/-- The lines before the last. -/
theorem dropLast_lines {init : List (Text × Text)} {last : Text × Text} (hrest : w.rest = init ++ [last]) :
    w.lines.dropLast = w.header w.first :: init.map fun (margin, piece) => margin ++ piece := by
  have hlines : w.lines =
      (w.header w.first :: init.map fun (margin, piece) => margin ++ piece) ++ [last.1 ++ last.2] := by
    unfold lines further
    rw [hrest, List.map_append]
    rfl
  rw [hlines, List.dropLast_concat]

/-- A line has a semicolon where its piece has one. -/
theorem semicolon_mem (hmargins : ∀ r ∈ w.rest, ∀ c ∈ r.1, isBlank c = true) {r : Text × Text} (hr : r ∈ w.rest) :
    ';' ∈ r.1 ++ r.2 ↔ ';' ∈ r.2 := by
  rw [List.mem_append]
  exact or_iff_right fun h => absurd (hmargins r hr _ h) (by decide)

theorem semicolon_header (hindent : ∀ c ∈ w.indent, isBlank c = true) (h : ';' ∉ w.first) :
    ';' ∉ w.header w.first := by
  have hkey : ';' ∉ Opening.ofFunction.keyword := by decide
  have hblank : ';' ∉ w.indent := fun hm => absurd (hindent _ hm) (by decide)
  exact List.not_mem_append hblank (List.not_mem_append hkey h)

/-- **Without a semicolon in the signature none stands before the last piece**, so that every such form can be
    read. -/
theorem WellFormed.laid (hw : w.WellFormed) : w.Laid := by
  obtain ⟨init, last, hrest, hlast⟩ := exists_last hw.tight hw.broken hw.rest
  have hone : (w.first :: init.map Prod.snd).flatten.count ';' = 0 := by
    have hcount := hw.broken.count_flatten (c := ';') (by decide)
    have hpositive := List.count_pos_iff.mpr hlast
    have hstatement : w.statement.count ';' = 1 := by
      unfold statement
      rw [List.count_append, List.count_eq_zero.mpr hw.semicolon]
      rfl
    rw [pieces_concat hrest, List.flatten_append, List.flatten_singleton, List.count_append, hstatement] at hcount
    omega
  have hno := List.count_eq_zero.mp hone
  have hfirst : ';' ∉ w.first := fun h => hno (List.mem_flatten.mpr ⟨w.first, List.mem_cons_self, h⟩)
  refine ⟨hw.tight, hw.parentheses, hw.keyword, hw.indent, hw.margins, hw.broken, hw.rest, hw.clear, hfirst,
    fun own hown line hlast => ?_⟩
  have hline : ';' ∉ line := by
    have hmem : line ∈ w.lines.dropLast := ((List.mem_inits _ _).mp hown).subset (List.mem_of_getLast? hlast)
    rw [dropLast_lines hrest] at hmem
    rcases List.mem_cons.mp hmem with rfl | hmem
    · exact semicolon_header hw.indent hfirst
    · obtain ⟨r, hr, rfl⟩ := List.mem_map.mp hmem
      refine fun h => hno (List.mem_flatten.mpr ⟨r.2, List.mem_cons_of_mem _ (List.mem_map_of_mem hr), ?_⟩)
      exact (semicolon_mem hw.margins (hrest ▸ List.mem_append_left _ hr)).mp h
  unfold Draft.completes
  rw [List.contains_eq_mem, decide_eq_false hline, Bool.false_and]

namespace Laid

theorem spaced (hw : w.Laid) : ∀ p ∈ w.pieces, p ≠ [] ∧ Text.Spaced p := spaced_pieces hw.tight hw.broken

/-- No keyword stands in a piece. -/
theorem cut?_piece (hw : w.Laid) {o : Opening} (ho : o ∈ Opening.table) {p : Text} (hp : p <:+: w.statement) :
    Text.cut? o.keyword p = none := by
  have hspace : ∀ o ∈ Opening.table, o.keyword = o.keyword.dropLast ++ [' '] := by decide
  refine Text.cut?_eq_none_of_not_infix fun hi => ?_
  rcases List.infix_concat_iff.mp (hi.trans hp) with hs | hs
  · -- a keyword ends with a space, the statement with a semicolon
    obtain ⟨a, ha⟩ := hs
    rw [hspace o ho, ← List.append_assoc] at ha
    have hlast := (List.append_inj' ha rfl).2
    exact absurd hlast (by decide)
  · exact hw.keyword o ho hs

end Laid

/-! ## 3. What is read off the source -/

/-- Closing and indenting a line changes nothing but blanks. -/
theorem count_sourceLines {c : Char} (hc : isBlank c = false) (lines : List Text) :
    (lines.flatMap Draft.sourceLine).count c = lines.flatten.count c := by
  induction lines with
  | nil => rfl
  | cons line lines ih =>
    have hmargin : "    ".toList.count c = 0 := by
      refine List.count_eq_zero.mpr fun h => ?_
      rw [Text.blank_margin c h] at hc
      cases hc
    have hfeed : ['\n'].count c = 0 := by
      refine List.count_eq_zero.mpr fun h => ?_
      rw [List.mem_singleton.mp h] at hc
      exact absurd hc (by decide)
    rw [List.flatMap_cons, List.flatten_cons, List.count_append, List.count_append, ih]
    unfold Draft.sourceLine
    rw [List.count_append, List.count_append, hmargin, hfeed]
    omega

theorem count_of_blank {c : Char} {t : Text} (hc : isBlank c = false) (h : ∀ d ∈ t, isBlank d = true) :
    t.count c = 0 := by
  refine List.count_eq_zero.mpr fun hm => ?_
  rw [h c hm] at hc
  cases hc

/-- The lines hold the characters of the pieces, apart from blanks and the keyword. -/
theorem Laid.count_lines (hw : w.Laid) {c : Char} (hc : isBlank c = false)
    (hkey : c ∉ Opening.ofFunction.keyword) : w.lines.flatten.count c = w.pieces.flatten.count c := by
  have hfurther : ∀ rest : List (Text × Text), (∀ r ∈ rest, ∀ d ∈ r.1, isBlank d = true) →
      (rest.map fun (margin, piece) => margin ++ piece).flatten.count c = (rest.map Prod.snd).flatten.count c := by
    intro rest hrest
    induction rest with
    | nil => rfl
    | cons r rest ih =>
      obtain ⟨hr, hrest⟩ := List.forall_mem_cons.mp hrest
      rw [List.map_cons, List.map_cons, List.flatten_cons, List.flatten_cons, List.count_append, List.count_append,
        ih hrest, List.count_append, count_of_blank hc hr, Nat.zero_add]
  unfold lines pieces header further
  rw [List.flatten_cons, List.flatten_cons, List.count_append, List.count_append, List.count_append,
    List.count_append, hfurther w.rest hw.margins, count_of_blank hc hw.indent, List.count_eq_zero.mpr hkey]
  omega

/-- **The parentheses of the whole source balance.** -/
theorem Laid.count_source (hw : w.Laid) :
    (w.lines.flatMap Draft.sourceLine).count '(' = (w.lines.flatMap Draft.sourceLine).count ')' := by
  have hcount : ∀ c, isBlank c = false → c ∉ Opening.ofFunction.keyword → c ≠ ' ' → c ≠ ';' →
      (w.lines.flatMap Draft.sourceLine).count c = w.signature.count c := by
    intro c hc hkey hspace hsemicolon
    rw [count_sourceLines hc, hw.count_lines hc hkey, hw.broken.count_flatten hspace]
    unfold statement
    rw [List.count_append, List.count_singleton, beq_eq_false_iff_ne.mpr (Ne.symm hsemicolon),
      if_neg Bool.false_ne_true, Nat.add_zero]
  rw [hcount '(' (by decide) (by decide) (by decide) (by decide),
    hcount ')' (by decide) (by decide) (by decide) (by decide), hw.parentheses]

/-- Lines come apart into the words of each. -/
theorem words_lines (y : Text) (lines : List Text) :
    Text.words (y ++ lines.flatMap fun line => "    ".toList ++ line.filter Draft.isFlat) =
      Text.words y ++ lines.flatMap fun line => Text.words (line.filter Draft.isFlat) := by
  have hne : "    ".toList ≠ [] := by decide
  induction lines generalizing y with
  | nil => rw [List.flatMap_nil, List.flatMap_nil, List.append_nil, List.append_nil]
  | cons line lines ih =>
    rw [List.flatMap_cons, List.flatMap_cons, List.append_assoc, Text.words_gap hne Text.blank_margin, ih]

/-- Nothing but blanks is dropped from a line, and from a piece nothing. -/
theorem filter_spaced {p : Text} (hp : Text.Spaced p) : p.filter Draft.isFlat = p := by
  refine List.filter_eq_self.mpr fun c hc => ?_
  by_cases hblank : isBlank c = true
  · rw [hp.space c hc hblank]
    decide
  · unfold Draft.isFlat
    simp only [Bool.and_eq_true, bne_iff_ne]
    refine ⟨⟨?_, ?_⟩, ?_⟩ <;> rintro rfl <;> exact hblank (by decide)

/-- **What is read off the source is the signature.** -/
theorem Laid.joinedSignature_lines (hw : w.Laid) :
    Draft.joinedSignature (w.lines.flatMap Draft.sourceLine) = w.signature := by
  have hkey : Opening.ofFunction.keyword.filter Draft.isFlat = "export declare ".toList ++ "function ".toList := by
    decide
  have hblank : ∀ c ∈ w.indent.filter Draft.isFlat, isBlank c = true := fun c hc =>
    hw.indent c (List.mem_of_mem_filter hc)
  have hindent : Text.startsNowhere "function ".toList (w.indent.filter Draft.isFlat) = true :=
    Text.startsNowhere_of_not_mem fun h => absurd (hblank 'f' h) (by decide)
  have hstart : Text.startsNowhere "function ".toList "export declare ".toList = true := by decide
  have hcut : Text.cut? "function ".toList ((w.header w.first).filter Draft.isFlat) =
      some (w.indent.filter Draft.isFlat ++ "export declare ".toList, w.first) := by
    unfold header
    rw [List.filter_append, List.filter_append, hkey, filter_spaced (hw.spaced _ List.mem_cons_self).2,
      Text.cut?_append hindent, List.append_assoc, Text.cut?_append_self (by decide) hstart]
    rfl
  have hwords : Text.words (w.first ++ w.further.flatMap fun line => "    ".toList ++ line.filter Draft.isFlat) =
      w.pieces.flatMap Text.words := by
    rw [words_lines]
    unfold further pieces
    rw [List.flatMap_cons, List.flatMap_map, List.flatMap_map]
    refine congrArg (Text.words w.first ++ ·) (List.flatMap_congr fun r hr => ?_)
    have hr' : r.2 ∈ w.pieces := List.mem_cons_of_mem _ (List.mem_map_of_mem hr)
    rw [List.filter_append, filter_spaced (hw.spaced r.2 hr').2,
      Text.words_append fun c hc => hw.margins r hr c (List.mem_of_mem_filter hc)]
  have hjoin : Text.joinWith [' '] (w.pieces.flatMap Text.words) = Text.joinWith [' '] w.pieces := by
    have hsqueeze : (w.pieces.map fun p => Text.joinWith [' '] (Text.words p)) = w.pieces.map id :=
      List.map_congr_left fun p hp => (hw.spaced p hp).2.squeeze_eq
    rw [Text.joinWith_flatMap fun p hp => (hw.spaced p hp).2.words_ne_nil (hw.spaced p hp).1, hsqueeze, List.map_id]
  have htight : Text.tighten (Text.joinWith [' '] w.pieces) = w.statement :=
    (hw.broken.tighten_joinWith (tight_statement hw.tight) (statement_ne_nil w)).2
  unfold lines
  rw [Draft.joinedSignature_of_cut? (Draft.cut?_sourceLines hcut w.further), hwords]
  show ((Text.beforeLast? ';' (Text.tighten (Text.joinWith [' '] (w.pieces.flatMap Text.words)))).map
    Text.trimEnd).getD _ = _
  rw [hjoin, htight, statement, Text.beforeLast?_concat]
  exact Text.dropEndWhile_of_getLast? hw.tight.last

/-! ## 4. The draft -/

variable {path : Text}

theorem withSource_draft (w : Wrapping) (path : Text) (own : List Text) (line : Text) :
    (w.draft path own).withSource ((w.draft path own).source ++ Draft.sourceLine line) =
      w.draft path (own ++ [line]) := by
  unfold draft
  rw [List.flatMap_append, List.flatMap_singleton]
  rfl

namespace Laid

theorem trim_spaced {p : Text} (hp : Text.Spaced p) : Text.trim p = p := Text.trim_eq_self hp.head hp.last

theorem isInfix_first (hw : w.Laid) : w.first <:+: w.statement := hw.broken.isInfix w.first List.mem_cons_self

/-- No row before that of functions has a keyword in what stands behind the keyword. -/
theorem first?_header (hw : w.Laid) {t head : Text} {complete : Bool} (ht : t <:+: w.statement)
    (hsplit : SignatureRule.call.split t = (head, complete)) (hhead : Text.trim head ≠ []) (path : Text) :
    Opening.first? path (w.header t) =
      some (Draft.start path .function (Text.trim head) (w.indent ++ ['}']) complete) := by
  refine Opening.first?_of_earlier row_mem ?_ (Opening.open?_keyword row_mem hw.indent hsplit hhead path)
  exact Opening.open?_earlier row_mem hw.indent
    (fun o ho => hw.cut?_piece (Opening.mem_table_of_mem_earlier ho) ht) path

/-- The opening line of several opens a draft of its piece. -/
theorem first?_first (hw : w.Laid) (path : Text) :
    Opening.first? path (w.header w.first) = some (w.draft path []) := by
  obtain ⟨hne, hp⟩ := hw.spaced w.first List.mem_cons_self
  have hsplit : SignatureRule.call.split w.first = (w.first, false) :=
    SignatureRule.split_call_of_not_mem hw.first
  rw [hw.first?_header hw.isInfix_first hsplit (by rw [trim_spaced hp]; exact hne), trim_spaced hp]
  rfl

/-- A cut has something before it. -/
theorem signature_ne_nil (hw : w.Laid) : w.signature ≠ [] := by
  intro hnil
  have hfirst : w.first <:+: [';'] := by
    have hinfix := hw.isInfix_first
    unfold statement at hinfix
    rw [hnil] at hinfix
    exact hinfix
  obtain ⟨c, t, ht⟩ := List.exists_cons_of_ne_nil (hw.spaced w.first List.mem_cons_self).1
  have hc : c ∈ w.first := by rw [ht]; exact List.mem_cons_self
  have hsemicolon := List.mem_singleton.mp (hfirst.subset hc)
  exact hw.first (hsemicolon ▸ hc)

/-- A further line opens nothing. -/
theorem opens_further (hw : w.Laid) {r : Text × Text} (hr : r ∈ w.rest) :
    Opening.opens (r.1 ++ r.2) = false := by
  refine Opening.opens_of_cut? fun o ho => ?_
  have hpiece : r.2 <:+: w.statement := hw.broken.isInfix r.2 (List.mem_cons_of_mem _ (List.mem_map_of_mem hr))
  rw [Text.cut?_append (Opening.startsNowhere_indent ho (hw.margins r hr)), hw.cut?_piece ho hpiece]
  rfl

/-- **Every line but the last leaves the draft open.** -/
theorem open_lines (hw : w.Laid) {init mid : List (Text × Text)} {last : Text × Text}
    (hrest : w.rest = init ++ [last]) (hmid : mid <+: init) (path : Text) :
    (w.draft path (w.header w.first :: mid.map fun (margin, piece) => margin ++ piece)).Open
      (w.header w.first :: mid.map fun (margin, piece) => margin ++ piece) := by
  induction mid using List.reverseRecOn with
  | nil =>
    have hpush : (w.draft path []).push (w.header w.first) = w.draft path [w.header w.first] :=
      (Draft.push_of_notMem (semicolon_header hw.indent hw.first) _).trans (withSource_draft w path [] _)
    have hstart := Draft.Open.start (hw.first?_first path) (by rw [hpush]; rfl)
    rw [hpush] at hstart
    exact hstart
  | append_singleton mid r ih =>
    let line : Text × Text → Text := fun (margin, piece) => margin ++ piece
    let own : List Text := w.header w.first :: mid.map line
    have hmem : r ∈ w.rest :=
      hrest ▸ List.mem_append_left _ (hmid.subset (List.mem_append_right _ List.mem_cons_self))
    have hown : own ++ [line r] ∈ w.lines.dropLast.inits := by
      rw [List.mem_inits, dropLast_lines hrest]
      have hmap := List.IsPrefix.map line hmid
      rw [List.map_append] at hmap
      exact List.cons_prefix_cons.mpr ⟨rfl, hmap⟩
    have hearly := hw.early _ hown (line r) List.getLast?_concat
    rw [List.flatMap_append, List.flatMap_singleton] at hearly
    have hpush : (w.draft path own).push (line r) = w.draft path (own ++ [line r]) :=
      (Draft.push_of_not_completes hearly).trans (withSource_draft w path own _)
    have hclear := hw.clear (line r) (List.mem_map_of_mem hmem)
    have hopen := (ih ((List.prefix_append mid [r]).trans hmid)).grow (hw.opens_further hmem) (Ne.symm hclear.2.2)
      (by rw [hpush]; rfl)
    rw [hpush] at hopen
    rw [List.map_append]
    exact hopen

/-- **The last line shuts it**, with the whole signature. -/
theorem shut_lines (hw : w.Laid) (path : Text) :
    ∃ draft : Draft, draft.Shut w.lines ∧ draft.path = path ∧
      ∀ comment, draft.finish comment = w.declaration path comment w.lines := by
  obtain ⟨init, last, hrest, hlast⟩ := exists_last hw.tight hw.broken hw.rest
  let own : List Text := w.header w.first :: init.map fun (margin, piece) => margin ++ piece
  have hmem : last ∈ w.rest := hrest ▸ List.mem_append_right _ List.mem_cons_self
  have hlines : w.lines = own ++ [last.1 ++ last.2] := by
    unfold lines further
    rw [hrest, List.map_append]
    rfl
  have hopen : (w.draft path own).Open own := hw.open_lines hrest List.prefix_rfl path
  have hsource : (w.draft path own).source ++ Draft.sourceLine (last.1 ++ last.2) =
      w.lines.flatMap Draft.sourceLine := by
    rw [hlines, List.flatMap_append, List.flatMap_singleton]
    rfl
  have hcompletes : Draft.completes (last.1 ++ last.2) (w.lines.flatMap Draft.sourceLine) = true := by
    unfold Draft.completes
    rw [List.contains_eq_mem, decide_eq_true ((semicolon_mem hw.margins hmem).mpr hlast), hw.count_source,
      Bool.true_and]
    exact beq_self_eq_true _
  have hpush : (w.draft path own).push (last.1 ++ last.2) = _ :=
    Draft.push_of_completes rfl rfl (by rw [hsource]; exact hcompletes)
  rw [hsource, hw.joinedSignature_lines] at hpush
  refine ⟨(w.draft path own).push (last.1 ++ last.2), ?_, ?_, fun comment => ?_⟩
  · rw [hlines]
    exact .ends hopen (hw.opens_further hmem) (.inr (by rw [hpush]))
  · rw [hpush]
    rfl
  · rw [hpush]
    rfl

end Laid

namespace WellFormed

/-- The line of the whole opens a complete draft. -/
theorem first?_oneLine (hw : w.WellFormed) (path : Text) :
    Opening.first? path w.oneLine =
      some (Draft.start path .function w.signature (w.indent ++ ['}']) true) := by
  have htrim : Text.trim w.signature = w.signature := Laid.trim_spaced hw.tight.toSpaced
  have hsplit : SignatureRule.call.split w.statement = (w.signature, true) := by
    have hmem : ';' ∈ w.statement := List.mem_append_right _ List.mem_cons_self
    have htake : w.statement.takeWhile (· != ';') = w.signature :=
      Text.takeWhile_append_cons (· != ';') (fun c hc => bne_iff_ne.mpr fun he => hw.semicolon (he ▸ hc)) rfl []
    rw [SignatureRule.split_call_of_mem hmem, htake]
  have hfirst := hw.laid.first?_header List.infix_rfl hsplit (by rw [htrim]; exact hw.laid.signature_ne_nil) path
  rw [htrim] at hfirst
  exact hfirst

theorem shut_oneLine (hw : w.WellFormed) (path : Text) :
    ∃ draft : Draft, draft.Shut [w.oneLine] ∧ draft.path = path ∧
      ∀ comment, draft.finish comment = w.declaration path comment [w.oneLine] := by
  have hpush : (Draft.start path .function w.signature (w.indent ++ ['}']) true).push w.oneLine = _ :=
    Draft.push_of_settled (.inr rfl) w.oneLine
  refine ⟨_, .whole (hw.first?_oneLine path) (by rw [hpush]; rfl), by rw [hpush]; rfl, fun comment => ?_⟩
  rw [hpush]
  unfold declaration
  rw [List.flatMap_singleton]
  rfl

end WellFormed

/-! ## 5. The scanner -/

theorem handed_header (hindent : ∀ c ∈ w.indent, isBlank c = true) (t : Text) : Scanner.Handed (w.header t) :=
  ⟨Scanner.isSkipped_keyword row_mem hindent t, Heading.read?_keyword row_mem hindent t⟩

section Feed

variable {s : Scanner}

namespace Laid

theorem handed_lines (hw : w.Laid) : ∀ line ∈ w.lines, Scanner.Handed line :=
  List.forall_mem_cons.mpr ⟨handed_header hw.indent w.first,
    fun line hline => ⟨(hw.clear line hline).1, (hw.clear line hline).2.1⟩⟩

/-- Before the last line the draft is open, and nothing has closed. -/
theorem feedAll_before (hw : w.Laid) (hp : s.path? = some path) (hd : s.draft? = none) {own : List Text}
    (hown : own <+: w.lines) (hne : own ≠ []) (hproper : own ≠ w.lines) :
    s.feedAll own = { s with draft? := some (w.draft path own) } := by
  obtain ⟨init, last, hrest, -⟩ := exists_last hw.tight hw.broken hw.rest
  let line : Text × Text → Text := fun (margin, piece) => margin ++ piece
  have hlines : w.lines = (w.header w.first :: init.map line) ++ [line last] := by
    unfold lines further
    rw [hrest, List.map_append]
    rfl
  have hbefore : own <+: w.header w.first :: init.map line := by
    rw [hlines] at hown hproper
    exact (List.prefix_concat_iff.mp hown).resolve_left hproper
  obtain ⟨t, rfl⟩ : ∃ t, own = w.header w.first :: t := by
    obtain ⟨c, t, rfl⟩ := List.exists_cons_of_ne_nil hne
    exact ⟨t, by rw [(List.cons_prefix_cons.mp hbefore).1]⟩
  have ht : t = (init.take t.length).map line := by
    rw [List.map_take]
    exact List.prefix_iff_eq_take.mp (List.cons_prefix_cons.mp hbefore).2
  have hopen : (w.draft path (w.header w.first :: t)).Open (w.header w.first :: t) := by
    rw [ht]
    exact hw.open_lines hrest (List.take_prefix _ init) path
  exact Scanner.feedAll_open hopen (fun l hl => hw.handed_lines l (hown.subset hl)) hp hd

/-- **Several lines give the signature.** -/
theorem feedAll_lines (hw : w.Laid) (hp : s.path? = some path) (hd : s.draft? = none) :
    s.feedAll w.lines = ⟨some path, none, [], s.closed ++ [w.declaration path s.comment w.lines]⟩ := by
  obtain ⟨draft, hshut, hpath, hfinish⟩ := hw.shut_lines path
  rw [Scanner.feedAll_shut hshut hw.handed_lines (hp.trans (congrArg some hpath.symm)) hd, hp, hfinish]

end Laid

namespace WellFormed

theorem feedAll_before (hw : w.WellFormed) (hp : s.path? = some path) (hd : s.draft? = none) {own : List Text}
    (hown : own <+: w.lines) (hne : own ≠ []) (hproper : own ≠ w.lines) :
    s.feedAll own = { s with draft? := some (w.draft path own) } := hw.laid.feedAll_before hp hd hown hne hproper

theorem feedAll_lines (hw : w.WellFormed) (hp : s.path? = some path) (hd : s.draft? = none) :
    s.feedAll w.lines = ⟨some path, none, [], s.closed ++ [w.declaration path s.comment w.lines]⟩ :=
  hw.laid.feedAll_lines hp hd

theorem feed_oneLine (hw : w.WellFormed) (hp : s.path? = some path) (hd : s.draft? = none) :
    s.feed w.oneLine = ⟨some path, none, [], s.closed ++ [w.declaration path s.comment [w.oneLine]]⟩ := by
  obtain ⟨draft, hshut, hpath, hfinish⟩ := hw.shut_oneLine path
  have hhanded : ∀ line ∈ [w.oneLine], Scanner.Handed line := fun line hline =>
    List.mem_singleton.mp hline ▸ handed_header hw.indent w.statement
  have hfeed := Scanner.feedAll_shut hshut hhanded (hp.trans (congrArg some hpath.symm)) hd
  rw [hp, hfinish] at hfeed
  exact hfeed

/-- **Several lines give the declaration of the one line.** Nothing closes before the last of them. -/
theorem lines_agree_oneLine (hw : w.WellFormed) (hp : s.path? = some path) (hd : s.draft? = none) :
    (∀ own, own <+: w.lines → own ≠ [] → own ≠ w.lines →
      (s.feedAll own).closed = s.closed ∧ (s.feedAll own).draft?.isSome = true) ∧
    ∃ d d', s.feedAll w.lines = ⟨some path, none, [], s.closed ++ [d]⟩ ∧
      s.feed w.oneLine = ⟨some path, none, [], s.closed ++ [d']⟩ ∧
      d.signature = w.signature ∧ d'.signature = w.signature ∧ d.complete = true ∧ d'.complete = true ∧
      d.shortName = d'.shortName ∧ d.insertText = d'.insertText ∧ d = { d' with source := d.source } := by
  refine ⟨fun own hown hne hproper => ?_, _, _, hw.feedAll_lines hp hd, hw.feed_oneLine hp hd, rfl, rfl, rfl, rfl,
    rfl, rfl, rfl⟩
  rw [hw.feedAll_before hp hd hown hne hproper]
  exact ⟨rfl, rfl⟩

end WellFormed

end Feed

/-- A signature broken in each of the three ways. -/
def sample : Wrapping :=
  { indent := "  ".toList
    signature := "open(path: string, mode?: (n: number) => void): Handle".toList
    first := "open(".toList
    rest := [("    ".toList, "path: string,".toList), ("\t".toList, "mode?: (n: number".toList),
      ("    ".toList, ") => void".toList), ([], "): Handle;".toList)] }

theorem inPieces_sample : Text.InPieces sample.statement sample.pieces :=
  .opened "open".toList (by decide)
    (.space "path: string,".toList
      (.closing (p := "mode?: (n: number".toList) (by decide)
        (.closing (p := ") => void".toList) (by decide) (.whole _))))

theorem wellFormed_sample : sample.WellFormed where
  tight := by decide
  semicolon := by decide
  parentheses := by decide
  keyword := by decide
  indent := Text.allBlank_iff.mp (by decide)
  margins := by
    have hmargins : ∀ r ∈ sample.rest, Text.allBlank r.1 = true := by decide
    exact fun r hr => Text.allBlank_iff.mp (hmargins r hr)
  broken := inPieces_sample
  rest := by decide
  clear := by decide

theorem sample_agrees : sample.WellFormed ∧
    ∃ d d', (⟨some "CG.A".toList, none, [], []⟩ : Scanner).feedAll sample.lines = ⟨some "CG.A".toList, none, [], [d]⟩ ∧
      (⟨some "CG.A".toList, none, [], []⟩ : Scanner).feed sample.oneLine = ⟨some "CG.A".toList, none, [], [d']⟩ ∧
      d.signature = sample.signature ∧ d'.signature = sample.signature ∧ d.insertText = d'.insertText := by
  obtain ⟨d, d', hlines, hline, hd, hd', -, -, -, hinsert, -⟩ :=
    (wellFormed_sample.lines_agree_oneLine (s := ⟨some "CG.A".toList, none, [], []⟩) rfl rfl).2
  exact ⟨wellFormed_sample, d, d', hlines, hline, hd, hd', hinsert⟩

end Wrapping
end Ambient
