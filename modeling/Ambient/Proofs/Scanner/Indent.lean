import Ambient.Proofs.Scanner.Opening
import Ambient.Proofs.Scanner.Trace
import Mathlib.Data.List.Basic

/-!
# Indented lines

Content shows every line four spaces further in. The scanner reads the indented line as it reads the line:

* it is passed over, is a heading, or is blank if and only if the line is (`Ordinary.indented`);
* it opens the same declaration, whose end marker is indented with it (`first?_indent`);
* a signature read off several lines is the same, as blanks are squeezed (`joinedSignature_indent`).

So indented lines leave a draft open, or shut it, exactly where the lines do: `Open.indented`, `Shut.indented`.
-/

namespace Ambient

/-! ## 1. One line -/

namespace Text

def indent (line : Text) : Text := "    ".toList ++ line

theorem allBlank_margin : allBlank "    ".toList = true := by decide

theorem blank_margin : ∀ c ∈ "    ".toList, isBlank c = true := allBlank_iff.mp allBlank_margin

theorem trim_indent (line : Text) : trim (indent line) = trim line := trim_append blank_margin line

theorem allBlank_indent (line : Text) : allBlank (indent line) = allBlank line := by
  have hmargin := allBlank_margin
  unfold allBlank at hmargin ⊢
  unfold indent
  rw [List.all_append, hmargin, Bool.true_and]

theorem indent_injective {a b : Text} (h : indent a = indent b) : a = b := List.append_cancel_left h

theorem feed_notMem_indent {line : Text} (h : '\n' ∉ line) : '\n' ∉ indent line := by
  have hmargin : '\n' ∉ "    ".toList := by decide
  exact List.not_mem_append hmargin h

end Text

open Text (indent)

theorem Heading.read?_indent (line : Text) : read? (indent line) = read? line := by
  have hmargin : Text.startsNowhere "namespace ".toList "    ".toList = true := by decide
  unfold read? indent
  rw [Text.cut?_append hmargin]
  cases Text.cut? "namespace ".toList line with
  | none => rfl
  | some cut => simp only [Option.map_some, Text.words_append Text.blank_margin]

namespace Scanner

theorem isSkipped_indent (line : Text) : isSkipped (indent line) = isSkipped line := by
  unfold isSkipped
  rw [Text.trim_indent]

theorem Ordinary.indented {line : Text} (h : Ordinary line) : Ordinary (indent line) where
  skipped := (isSkipped_indent line).trans h.skipped
  heading := (Heading.read?_indent line).trans h.heading
  feed := Text.feed_notMem_indent h.feed

end Scanner

/-! ## 2. Opening -/

/-- The draft of an indented line. -/
def Draft.place (path : Text) (draft : Draft) : Draft :=
  { draft with path, endMarker := indent draft.endMarker }

namespace Opening

theorem open?_indent {o : Opening} (ho : o ∈ table) (path path' line : Text) :
    o.open? path' (indent line) = (o.open? path line).map (Draft.place path') := by
  unfold open? indent
  rw [Text.cut?_append (startsNowhere_indent ho Text.blank_margin)]
  cases Text.cut? o.keyword line with
  | none => rfl
  | some cut =>
    simp only [Option.map_some]
    split
    · rfl
    · unfold Draft.start Draft.place indent
      rw [List.append_assoc]
      rfl

theorem findSome?_congr {α β : Type} {f g : α → Option β} {l : List α} (h : ∀ a ∈ l, f a = g a) :
    l.findSome? f = l.findSome? g := by
  induction l with
  | nil => rfl
  | cons a l ih =>
    obtain ⟨ha, hl⟩ := List.forall_mem_cons.mp h
    rw [List.findSome?_cons, List.findSome?_cons, ha, ih hl]

/-- **An indented line opens what the line opens.** -/
theorem first?_indent (path path' line : Text) :
    first? path' (indent line) = (first? path line).map (Draft.place path') := by
  unfold first?
  rw [List.map_findSome?]
  exact findSome?_congr fun o ho => open?_indent ho path path' line

theorem opens_indent (line : Text) : opens (indent line) = opens line := by
  unfold opens
  rw [first?_indent [] [] line, Option.isSome_map]

/-- The first line of a function names it so. -/
theorem exists_function {path line : Text} {draft : Draft} (h : first? path line = some draft)
    (hkind : draft.kind = .function) : ∃ a b, line = a ++ ("function ".toList ++ b) := by
  have hkeyword : ∀ o ∈ table, o.kind = .function → o.keyword = "export declare ".toList ++ "function ".toList := by
    decide
  obtain ⟨o, ho, hopen⟩ := List.exists_of_findSome?_eq_some h
  obtain ⟨before, behind, hcut, -, rfl⟩ := open?_eq_some hopen
  refine ⟨before ++ "export declare ".toList, behind, ?_⟩
  rw [Text.eq_of_cut? hcut, hkeyword o ho hkind, List.append_assoc, List.append_assoc, List.append_assoc]

end Opening

/-! ## 3. Signatures of several lines -/

namespace Draft

/-- Neither a line break nor a tab. -/
def isFlat (c : Char) : Bool := c != '\n' && c != '\r' && c != '\t'

/-- The lines in a row. -/
theorem filter_sourceLines (own : List Text) :
    (own.flatMap sourceLine).filter isFlat = own.flatMap fun line => "    ".toList ++ line.filter isFlat := by
  rw [List.filter_flatMap]
  refine List.flatMap_congr fun line _ => ?_
  have hmargin : "    ".toList.filter isFlat = "    ".toList := by decide
  have hfeed : ['\n'].filter isFlat = [] := by decide
  unfold sourceLine
  rw [List.filter_append, List.filter_append, hmargin, hfeed, List.append_nil]

/-- Margins do not change the words. -/
theorem words_margins (y : Text) (rest : List Text) :
    Text.words (y ++ rest.flatMap fun line => "    ".toList ++ (indent line).filter isFlat) =
      Text.words (y ++ rest.flatMap fun line => "    ".toList ++ line.filter isFlat) := by
  have hmargin : "    ".toList.filter isFlat = "    ".toList := by decide
  have hne : "    ".toList ≠ [] := by decide
  induction rest generalizing y with
  | nil => rfl
  | cons line rest ih =>
    rw [List.flatMap_cons, List.flatMap_cons, List.append_assoc, List.append_assoc,
      Text.words_gap hne Text.blank_margin, Text.words_gap hne Text.blank_margin, ih]
    unfold indent
    rw [List.filter_append, hmargin, List.append_assoc, Text.words_append Text.blank_margin]

/-- The signature that words make. -/
def signatureOfWords (words : List Text) : Text :=
  let tight := Text.replaceAll " )".toList ")".toList
    (Text.replaceAll "( ".toList "(".toList (Text.joinWith [' '] words))
  ((Text.beforeLast? ';' tight).map Text.trimEnd).getD tight

theorem joinedSignature_of_cut? {source before behind : Text}
    (h : Text.cut? "function ".toList (source.filter isFlat) = some (before, behind)) :
    joinedSignature source = signatureOfWords (Text.words behind) := by
  have hbehind : ((Text.cut? "function ".toList (source.filter isFlat)).map Prod.snd).getD
      (source.filter isFlat) = behind := by
    rw [h]
    rfl
  subst hbehind
  unfold joinedSignature signatureOfWords Text.squeeze
  rfl

/-- Behind the keyword stand the rest of the first line and the other lines. -/
theorem cut?_sourceLines {first before behind : Text}
    (h : Text.cut? "function ".toList (first.filter isFlat) = some (before, behind)) (rest : List Text) :
    Text.cut? "function ".toList (((first :: rest).flatMap sourceLine).filter isFlat) =
      some ("    ".toList ++ before, behind ++ rest.flatMap fun line => "    ".toList ++ line.filter isFlat) := by
  have hstart : Text.startsNowhere "function ".toList "    ".toList = true := by decide
  rw [filter_sourceLines, List.flatMap_cons, List.append_assoc, Text.cut?_append hstart,
    Text.cut?_append_right h]
  rfl

/-- **A signature read off several lines** does not depend on their margin. -/
theorem joinedSignature_indent (a b : Text) (rest : List Text) :
    joinedSignature ((((a ++ ("function ".toList ++ b)) :: rest).map indent).flatMap sourceLine) =
      joinedSignature (((a ++ ("function ".toList ++ b)) :: rest).flatMap sourceLine) := by
  have hmargin : "    ".toList.filter isFlat = "    ".toList := by decide
  have hkey : "function ".toList.filter isFlat = "function ".toList := by decide
  have hne : "function ".toList ≠ [] := by decide
  have hstart : Text.startsNowhere "function ".toList "    ".toList = true := by decide
  obtain ⟨before, behind, hcut⟩ := Text.exists_cut? hne (a.filter isFlat) (b.filter isFlat)
  have hfirst : Text.cut? "function ".toList ((a ++ ("function ".toList ++ b)).filter isFlat) =
      some (before, behind) := by
    rw [List.filter_append, List.filter_append, hkey, hcut]
  have hindented : Text.cut? "function ".toList ((indent (a ++ ("function ".toList ++ b))).filter isFlat) =
      some ("    ".toList ++ before, behind) := by
    unfold indent
    rw [List.filter_append, hmargin, Text.cut?_append hstart, hfirst]
    rfl
  rw [List.map_cons, joinedSignature_of_cut? (cut?_sourceLines hfirst rest),
    joinedSignature_of_cut? (cut?_sourceLines hindented (rest.map indent)), List.flatMap_map, words_margins]

theorem count_sourceLines_indent {c : Char} (hc : c ∉ "    ".toList) (lines : List Text) :
    ((lines.map indent).flatMap sourceLine).count c = (lines.flatMap sourceLine).count c := by
  induction lines with
  | nil => rfl
  | cons line lines ih =>
    have hline : (sourceLine (indent line)).count c = (sourceLine line).count c := by
      unfold sourceLine indent
      rw [List.count_append, List.count_append, List.count_append, List.count_append, List.count_append,
        List.count_eq_zero.mpr hc, Nat.zero_add]
    rw [List.map_cons, List.flatMap_cons, List.flatMap_cons, List.count_append, List.count_append, hline, ih]

theorem completes_indent (line : Text) (lines : List Text) :
    completes (indent line) ((lines.map indent).flatMap sourceLine) = completes line (lines.flatMap sourceLine) := by
  have hsemicolon : "    ".toList.contains ';' = false := by decide
  have hcontains : (indent line).contains ';' = line.contains ';' := by
    unfold indent
    rw [List.contains_append, hsemicolon, Bool.false_or]
  unfold completes
  rw [hcontains, count_sourceLines_indent (by decide), count_sourceLines_indent (by decide)]

/-! ## 4. Traces -/

/-- **The draft of the indented lines, in another namespace.** -/
structure Moved (path : Text) (draft draft' : Draft) : Prop where
  path : draft'.path = path
  kind : draft'.kind = draft.kind
  signature : draft'.signature = draft.signature
  complete : draft'.complete = draft.complete
  endMarker : draft'.endMarker = indent draft.endMarker

theorem moved_place (path : Text) (draft : Draft) : Moved path draft (draft.place path) := ⟨rfl, rfl, rfl, rfl, rfl⟩

theorem Moved.shortNameOf {path : Text} {draft draft' : Draft} (h : Moved path draft draft') :
    shortNameOf draft'.kind draft'.signature = shortNameOf draft.kind draft.signature := by
  rw [h.kind, h.signature]

section Moved

variable {path line : Text} {own : List Text} {draft draft' : Draft}

theorem Moved.push (h : Moved path draft draft') (hsource : draft.source = own.flatMap sourceLine)
    (hsource' : draft'.source = (own.map indent).flatMap sourceLine)
    (hfunction : draft.kind = .function → ∃ a b rest, own ++ [line] = (a ++ ("function ".toList ++ b)) :: rest) :
    Moved path (draft.push line) (draft'.push (indent line)) := by
  have hlines : draft.source ++ sourceLine line = (own ++ [line]).flatMap sourceLine := by
    rw [hsource, List.flatMap_append, List.flatMap_singleton]
  have hlines' : draft'.source ++ sourceLine (indent line) = ((own ++ [line]).map indent).flatMap sourceLine := by
    rw [hsource', List.map_append, List.flatMap_append, List.map_singleton, List.flatMap_singleton]
  unfold Draft.push
  dsimp only
  rw [hlines, hlines', h.kind, h.complete, completes_indent]
  by_cases hc :
      (draft.kind = .function && !draft.complete && completes line ((own ++ [line]).flatMap sourceLine)) = true
  · rw [if_pos hc, if_pos hc]
    rw [Bool.and_eq_true, Bool.and_eq_true, decide_eq_true_eq] at hc
    obtain ⟨a, b, rest, hfirst⟩ := hfunction hc.1.1
    have hsignature : joinedSignature (((own ++ [line]).map indent).flatMap sourceLine) =
        joinedSignature ((own ++ [line]).flatMap sourceLine) := by
      rw [hfirst]
      exact joinedSignature_indent a b rest
    rw [hsignature]
    generalize joinedSignature ((own ++ [line]).flatMap sourceLine) = signature
    exact ⟨h.path, rfl, rfl, rfl, h.endMarker⟩
  · rw [if_neg hc, if_neg hc]
    exact ⟨h.path, rfl, h.signature, rfl, h.endMarker⟩

/-- Functions are opened by their keyword. -/
theorem Open.exists_function (h : draft.Open own) (hkind : draft.kind = .function) :
    ∃ a b rest, own = (a ++ ("function ".toList ++ b)) :: rest := by
  induction h with
  | start hopen _ =>
    rw [push_kind] at hkind
    obtain ⟨a, b, rfl⟩ := Opening.exists_function hopen hkind
    exact ⟨a, b, [], rfl⟩
  | grow _ _ _ _ ih =>
    rw [push_kind] at hkind
    obtain ⟨a, b, rest, rfl⟩ := ih hkind
    exact ⟨a, b, _, rfl⟩

/-- The first line. -/
theorem moved_push_place {path' : Text} (hopen : Opening.first? path' line = some draft) (path : Text) :
    Opening.first? path (indent line) = some (draft.place path) ∧
      Moved path (draft.push line) ((draft.place path).push (indent line)) := by
  have hsource := (Opening.first?_start hopen).2
  refine ⟨?_, @Moved.push path line [] draft _ (moved_place path draft) hsource hsource fun hkind => ?_⟩
  · rw [Opening.first?_indent path', hopen]
    rfl
  · obtain ⟨a, b, rfl⟩ := Opening.exists_function hopen hkind
    exact ⟨a, b, [], rfl⟩

/-- A further line. -/
theorem Moved.push_open (h : Moved path draft draft') (hopen : draft.Open own) (hopen' : draft'.Open (own.map indent))
    (line : Text) : Moved path (draft.push line) (draft'.push (indent line)) := by
  refine h.push hopen.source hopen'.source fun hkind => ?_
  obtain ⟨a, b, rest, rfl⟩ := hopen.exists_function hkind
  exact ⟨a, b, _, rfl⟩

/-- **Indented lines leave a draft open where the lines do.** -/
theorem Open.indented (h : draft.Open own) (path : Text) :
    ∃ draft', draft'.Open (own.map indent) ∧ Moved path draft draft' := by
  induction h with
  | start hopen hc =>
    obtain ⟨hopen', hmoved⟩ := moved_push_place hopen path
    exact ⟨_, .start hopen' (hmoved.complete.trans hc), hmoved⟩
  | @grow own line draft h ho hm hc ih =>
    obtain ⟨draft', hopen', hmoved⟩ := ih
    have hpush := hmoved.push_open h hopen' line
    have hmarker : draft'.endMarker ≠ indent line := by
      rw [hmoved.endMarker]
      exact fun he => hm (Text.indent_injective he)
    refine ⟨draft'.push (indent line), ?_, hpush⟩
    rw [List.map_append]
    exact .grow hopen' ((Opening.opens_indent line).trans ho) hmarker (hpush.complete.trans hc)

/-- **And they shut it where the lines do.** -/
theorem Shut.indented (h : draft.Shut own) (path : Text) :
    ∃ draft', draft'.Shut (own.map indent) ∧ Moved path draft draft' := by
  cases h with
  | whole hopen hc =>
    obtain ⟨hopen', hmoved⟩ := moved_push_place hopen path
    exact ⟨_, .whole hopen' (hmoved.complete.trans hc), hmoved⟩
  | @ends _ line start h ho he =>
    obtain ⟨draft', hopen', hmoved⟩ := h.indented path
    have hpush := hmoved.push_open h hopen' line
    refine ⟨draft'.push (indent line), ?_, hpush⟩
    rw [List.map_append]
    refine .ends hopen' ((Opening.opens_indent line).trans ho) (he.imp (fun hm => ?_) fun hc => ?_)
    · rw [hmoved.endMarker, hm]
    · exact hpush.complete.trans hc

end Moved

end Draft
end Ambient
