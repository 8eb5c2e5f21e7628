import Ambient.Declaration.Content
import Ambient.Proofs.ReExport.Entries
import Ambient.Proofs.Scanner.Heading
import Ambient.Proofs.Scanner.Indent
import Ambient.Proofs.Text.Lines

/-!
# A namespace block, read again

A block is a heading, a blank line, the lines shown in it, two blank lines and a brace
(`lines_namespaceBlock`). What stands before its heading, and what stands between two declarations, opens no
declaration: `feedAll_idle`, `feed_line` and `feedAll_end`.
-/

namespace Ambient

open Text (indent)

/-! ## 1. The lines of a block -/

namespace Text

/-- The text of closed lines. -/
def ofLines (ls : List Text) : Text := ls.flatMap (· ++ ['\n'])

theorem ofLines_append (ls ms : List Text) : ofLines (ls ++ ms) = ofLines ls ++ ofLines ms := List.flatMap_append

theorem ofLines_cons (l : Text) (ls : List Text) : ofLines (l :: ls) = l ++ '\n' :: ofLines ls := by
  unfold ofLines
  rw [List.flatMap_cons, List.append_assoc]
  rfl

end Text

open Text (ofLines)

namespace Content

theorem ofLines_source (own : List Text) : own.flatMap Draft.sourceLine = ofLines (own.map indent) := by
  unfold ofLines
  rw [List.flatMap_map]
  rfl

/-- The lines that show a comment. -/
def commentLines : List Text → List Text
  | [] => []
  | line :: lines => [] :: (line :: lines).map indent

theorem remarkLines_feed (comments : List Text) :
    comments.flatMap Scanner.remarkLine ++ ['\n'] = '\n' :: ofLines (comments.map indent) := by
  induction comments with
  | nil => rfl
  | cons line lines ih =>
    rw [List.flatMap_cons, List.append_assoc, ih, List.map_cons, Text.ofLines_cons]
    rfl

theorem commentBlock_eq {d : Declaration} {comments : List Text}
    (h : d.comment = comments.flatMap Scanner.remarkLine) : d.commentBlock = ofLines (commentLines comments) := by
  unfold Declaration.commentBlock
  cases comments with
  | nil =>
    rw [h]
    rfl
  | cons line lines =>
    have hne : ((line :: lines).flatMap Scanner.remarkLine).isEmpty = false := rfl
    rw [h, hne, if_neg Bool.false_ne_true, remarkLines_feed]
    rfl

/-- **The lines of a block.** -/
theorem lines_namespaceBlock {path : Text} (hpath : '\n' ∉ path) {ls : List Text} (hls : ∀ l ∈ ls, '\n' ∉ l) :
    Text.lines (Declaration.namespaceBlock path (ofLines ls)) =
      Heading.line path :: [] :: (ls ++ [[], [], ['}']]) := by
  have hopen : " \x7b\n\n".toList = " \x7b".toList ++ ['\n', '\n'] := by decide
  have hclose : "\n\n\x7d".toList = ['\n', '\n', '}'] := by decide
  have hstart : '\n' ∉ "namespace ".toList := by decide
  have hend : '\n' ∉ " \x7b".toList := by decide
  have htext : Declaration.namespaceBlock path (ofLines ls) =
      ofLines (Heading.line path :: [] :: (ls ++ [[], []])) ++ ['}'] := by
    unfold Declaration.namespaceBlock Heading.line
    rw [hopen, hclose, Text.ofLines_cons, Text.ofLines_cons, Text.ofLines_append]
    generalize "namespace ".toList = start
    generalize " \x7b".toList = brace
    simp [ofLines]
  have hline : '\n' ∉ Heading.line path := List.not_mem_append hstart (List.not_mem_append hpath hend)
  have hall : ∀ l ∈ Heading.line path :: [] :: (ls ++ [[], []]), '\n' ∉ l := by
    refine List.forall_mem_cons.mpr ⟨hline, List.forall_mem_cons.mpr ⟨List.not_mem_nil, ?_⟩⟩
    refine List.forall_mem_append.mpr ⟨hls, ?_⟩
    decide
  have hbrace : Text.lines ['}'] = [['}']] := by decide
  rw [htext, ofLines, Text.lines_flatMap_feed hall, hbrace, List.cons_append, List.cons_append,
    List.append_assoc]
  rfl

end Content

namespace Scanner

/-! ## 2. Around the declarations of a block -/

variable {s : Scanner} {path : Text}

theorem ordinary_nil : Ordinary [] := ⟨by decide, by decide, List.not_mem_nil⟩

theorem ordinary_brace : Ordinary ['}'] := ⟨by decide, by decide, by decide⟩

theorem ordinary_end : ∀ line ∈ [[], [], ['}']], Ordinary line := by
  simp [ordinary_nil, ordinary_brace]

/-- **Before the first heading nothing opens.** -/
theorem feedAll_idle {lines : List Text} (h : ∀ line ∈ lines, Heading.read? line = none) (comment : Text)
    (closed : List Declaration) :
    ∃ comment', (⟨none, none, comment, closed⟩ : Scanner).feedAll lines = ⟨none, none, comment', closed⟩ := by
  induction lines generalizing comment with
  | nil => exact ⟨comment, rfl⟩
  | cons line lines ih =>
    obtain ⟨hline, hlines⟩ := List.forall_mem_cons.mp h
    have hfeed : ∃ comment', (⟨none, none, comment, closed⟩ : Scanner).feed line =
        ⟨none, none, comment', closed⟩ := by
      unfold feed
      split
      · exact ⟨comment, rfl⟩
      · rw [hline]
        cases hb : Text.allBlank line with
        | true => exact ⟨comment, remark_of_blank hb⟩
        | false => exact ⟨_, remark_of_not_blank hb⟩
    obtain ⟨comment', hfeed⟩ := hfeed
    obtain ⟨comment'', hfeedAll⟩ := ih hlines comment'
    exact ⟨comment'', by rw [feedAll, List.foldl_cons, hfeed]; exact hfeedAll⟩

theorem feed_blank (hp : s.path? = some path) (hd : s.draft? = none) : s.feed [] = s := by
  rw [feed_member ordinary_nil.handed hp, member_between hd (by decide), if_neg (by decide), remark_of_blank rfl]

theorem feed_brace (hp : s.path? = some path) (hd : s.draft? = none) :
    s.feed ['}'] = { s with comment := [] } := by
  rw [feed_member ordinary_brace.handed hp, member_between hd (by decide), if_pos (by decide)]

/-- The heading of a block opens no declaration. -/
theorem feed_line {heading : Heading} (hread : Heading.read? (Heading.line path) = some heading)
    (hrest : ∀ rest, heading.rest? = some rest → Opening.opens rest = false) (path? : Option Text)
    (comment : Text) (closed : List Declaration) :
    ∃ comment', (⟨path?, none, comment, closed⟩ : Scanner).feed (Heading.line path) =
      ⟨some heading.path, none, comment', closed⟩ := by
  unfold feed
  rw [Heading.isSkipped_line, if_neg Bool.false_ne_true, hread]
  dsimp only
  cases hr : heading.rest? with
  | none => exact ⟨comment, rfl⟩
  | some rest =>
    dsimp only
    rw [member_between rfl (hrest rest hr)]
    split
    · exact ⟨[], rfl⟩
    · cases hb : Text.allBlank rest with
      | true => exact ⟨comment, remark_of_blank hb⟩
      | false => exact ⟨_, remark_of_not_blank hb⟩

/-- The end of a block. -/
theorem feedAll_end (hp : s.path? = some path) (hd : s.draft? = none) :
    s.feedAll [[], [], ['}']] = { s with comment := [] } := by
  show ((s.feed []).feed []).feed ['}'] = _
  rw [feed_blank hp hd, feed_blank hp hd, feed_brace hp hd]

end Scanner

/-! ## 3. Lines that are shown -/

namespace Content

variable {own comments : List Text}

theorem ordinary_indented (h : ∀ line ∈ own, Scanner.Ordinary line) :
    ∀ line ∈ own.map indent, Scanner.Ordinary line :=
  List.forall_mem_map.mpr fun line hline => (h line hline).indented

theorem ordinary_commentLines (h : ∀ line ∈ comments, Scanner.Ordinary line) :
    ∀ line ∈ commentLines comments, Scanner.Ordinary line := by
  cases comments with
  | nil => exact fun _ h => nomatch h
  | cons line lines => exact List.forall_mem_cons.mpr ⟨Scanner.ordinary_nil, ordinary_indented h⟩

end Content

/-! ## 4. Where declarations come from -/

namespace Declaration

theorem mem_parse {t : Text} {d : Declaration} :
    d ∈ parse t ↔ d ∈ scan (Text.lines (normalise t)) ∨ d ∈ ReExport.declarations (normalise t) :=
  List.mem_mergeSort.trans List.mem_append

theorem mem_scan_of_standalone {t : Text} {d : Declaration} (hd : d ∈ parse t)
    (hkind : d.kind.isStandalone = true) : d ∈ scan (Text.lines (normalise t)) := by
  rcases mem_parse.mp hd with h | h
  · exact h
  · obtain ⟨g, -, hg⟩ := List.mem_flatMap.mp h
    rw [(ReExport.mem_declarations hg).2] at hkind
    cases hkind

theorem parse_of_scan {t : Text} {d : Declaration} (hscan : scan (Text.lines (normalise t)) = [d])
    (hgroups : ReExport.declarations (normalise t) = []) : parse t = [d] := by
  show sort (scan (Text.lines (normalise t)) ++ ReExport.declarations (normalise t)) = [d]
  rw [hscan, hgroups, List.append_nil]
  exact List.mergeSort_singleton d

end Declaration
end Ambient
