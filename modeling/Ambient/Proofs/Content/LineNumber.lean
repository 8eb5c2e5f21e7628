import Ambient.Proofs.Content.Block
import Ambient.Proofs.Declaration.Named

/-!
# The line of a declaration

The line of a declaration is looked up by its source: it is the line on which the source is FIRST found in the
content. Its OWN line is the one at which the loop over the siblings put it, behind the siblings before it and its
comment (`leadIn`).

* `StartsOnce`: a text that does not start over at the start of one of its lines. The source of every declaration is
  one (`startsOnce_source`): only its first line opens a declaration, and an entry ends in a character that stands
  nowhere else in it. So the source is never found across the place where the own one starts;
* `cut?_of_startsOnce`, `lineFeeds_lt_of_infix`: where the source does not stand in what is before it, it is found at
  its own place, and else on an earlier line;
* `lineNumber_iff`: the line is the own line if and only if the source does not stand in what is before it, and the
  later of two declarations for which that holds has the greater line.
-/

namespace Ambient

open Text (indent ofLines)

/-! ## 1. Texts that start once -/

namespace Text

/-- **A text that does not start over at the start of one of its lines**, and is not empty. -/
structure StartsOnce (t : Text) : Prop where
  ne_nil : t ≠ []
  once : ∀ front behind, t = front ++ '\n' :: behind → behind ≠ [] → ¬behind <+: t

variable {t init rest : Text}

/-- What stands at the end of a text has its last character. -/
theorem getLast?_of_append {a b : Text} {c : Char} (hb : b ≠ []) (h : a ++ b = t ++ [c]) : b.getLast? = some c :=
  calc b.getLast?
    _ = (a ++ b).getLast? := (List.getLast?_append_of_ne_nil a hb).symm
    _ = (t ++ [c]).getLast? := congrArg List.getLast? h
    _ = some c := List.getLast?_concat

/-- Such a text does not reach across a line feed into a second one: it ends before that. -/
theorem StartsOnce.prefix_of_overlap (honce : StartsOnce t) {front more : Text}
    (h : front ++ ['\n'] ++ (t ++ rest) = t ++ more) : t <+: front ++ ['\n'] := by
  rcases List.append_eq_append_iff.mp h with ⟨a, hwhole, hrest⟩ | ⟨a, hwhole, -⟩
  · by_cases ha : a = []
    · rw [hwhole, ha, List.append_nil]
    · exfalso
      have hbehind : a <+: t ++ rest := by
        rw [hrest]
        exact List.prefix_append _ _
      have hlength : a.length ≤ t.length := by
        simp only [hwhole, List.length_append]
        omega
      have hstart : a <+: t := List.prefix_of_prefix_length_le hbehind (List.prefix_append _ _) hlength
      exact honce.once front a (by rw [hwhole]; simp) ha hstart
  · exact ⟨a, hwhole.symm⟩

/-- **Behind closed lines in which it does not stand, such a text is found at its own place.** -/
theorem cut?_of_startsOnce (honce : StartsOnce t) (hnone : ¬t <:+: init ++ ['\n']) :
    cut? t (init ++ ['\n'] ++ (t ++ rest)) = some (init ++ ['\n'], rest) := by
  obtain ⟨before, behind, hcut⟩ := exists_cut? honce.ne_nil (init ++ ['\n']) rest
  have hplace := eq_of_cut? hcut
  obtain ⟨more, rfl⟩ := suffix_of_cut? honce.ne_nil hcut
  -- It is found at its own place or further left.
  have hprefix : before <+: init ++ ['\n'] := by
    have hlength := congrArg List.length hplace
    simp only [List.length_append] at hlength
    have hbefore : before <+: init ++ ['\n'] ++ (t ++ rest) := by
      rw [hplace, List.append_assoc]
      exact List.prefix_append _ _
    refine List.prefix_of_prefix_length_le hbefore (List.prefix_append _ _) ?_
    simp only [List.length_append]
    omega
  obtain ⟨front, hfront⟩ := hprefix
  rw [← hfront, List.append_assoc, List.append_assoc, List.append_cancel_left_eq] at hplace
  by_cases hempty : front = []
  · rw [hempty, List.append_nil] at hfront
    rw [hempty, List.nil_append, List.append_cancel_left_eq] at hplace
    rw [hcut, hfront, ← hplace]
  · obtain ⟨front, rfl⟩ := List.getLast?_eq_some_iff.mp (getLast?_of_append hempty hfront)
    obtain ⟨a, ha⟩ := honce.prefix_of_overlap hplace
    refine absurd ⟨before, a, ?_⟩ hnone
    rw [List.append_assoc, ha, hfront]

/-- A text that stands in closed lines starts before their last line feed. -/
theorem lineFeeds_lt_of_infix (ht : t ≠ []) (h : t <:+: init ++ ['\n']) (rest : Text) :
    ∃ before behind, cut? t (init ++ ['\n'] ++ rest) = some (before, behind) ∧
      lineFeeds before < lineFeeds (init ++ ['\n']) := by
  obtain ⟨a, b, hfound⟩ := h
  obtain ⟨before, behind, hcut⟩ := exists_cut? ht a b
  rw [← List.append_assoc, hfound] at hcut
  refine ⟨before, behind ++ rest, cut?_append_right hcut rest, ?_⟩
  have hplace := eq_of_cut? hcut
  rw [List.append_assoc] at hplace
  have hlast : '\n' ∈ t ++ behind :=
    List.mem_of_getLast? (getLast?_of_append (List.append_ne_nil_of_left_ne_nil ht _) hplace.symm)
  rw [hplace, lineFeeds, lineFeeds, List.count_append]
  exact Nat.lt_add_of_pos_right (List.count_pos_iff.mpr hlast)

/-! ## 2. Closed lines, and a last character of its kind -/

/-- A line feed in closed lines is the end of one of them. -/
theorem exists_ofLines {ls : List Text} (hls : ∀ l ∈ ls, '\n' ∉ l) {u v : Text} (h : ofLines ls = u ++ '\n' :: v) :
    ∃ l ms ns, ls = l :: ms ++ ns ∧ v = ofLines ns := by
  induction ls generalizing u with
  | nil => exact absurd h (by simp [ofLines])
  | cons l ls ih =>
    obtain ⟨hl, hls⟩ := List.forall_mem_cons.mp hls
    rw [ofLines_cons] at h
    by_cases hu : '\n' ∈ u
    · obtain ⟨line, more, rfl, hline⟩ := List.eq_append_cons_of_mem hu
      rw [List.append_assoc] at h
      obtain ⟨-, hmore⟩ := append_cons_inj hl hline h
      obtain ⟨m, ms, ns, rfl, hv⟩ := ih hls hmore
      exact ⟨l, m :: ms, ns, rfl, hv⟩
    · obtain ⟨-, hv⟩ := append_cons_inj hl hu h
      exact ⟨l, [], ls, rfl, hv.symm⟩

/-- **Lines of which no later one is the first start once.** -/
theorem startsOnce_ofLines {l : Text} {ls : List Text} (hl : '\n' ∉ l) (hls : ∀ m ∈ ls, '\n' ∉ m)
    (hne : ∀ m ∈ ls, m ≠ l) : StartsOnce (ofLines (l :: ls)) := by
  refine ⟨by simp [ofLines], fun u v hcut hv ⟨rest, hprefix⟩ => ?_⟩
  obtain ⟨first, ms, ns, heq, rfl⟩ := exists_ofLines (List.forall_mem_cons.mpr ⟨hl, hls⟩) hcut
  obtain ⟨rfl, hrest⟩ := List.cons.inj heq
  cases ns with
  | nil => exact hv rfl
  | cons m ns =>
    have hm : m ∈ ls := hrest ▸ List.mem_append_right _ List.mem_cons_self
    rw [ofLines_cons, ofLines_cons, List.append_assoc] at hprefix
    obtain ⟨hsame, -⟩ := append_cons_inj (hls m hm) hl hprefix
    exact hne m hm hsame

/-- **A text that ends in a character that stands nowhere else in it starts once.** -/
theorem startsOnce_concat {c : Char} (h : c ∉ t) : StartsOnce (t ++ [c]) := by
  refine ⟨by simp, fun u v hcut hv ⟨rest, hprefix⟩ => ?_⟩
  have hend : u ++ ['\n'] ++ v = t ++ [c] := by rw [hcut, List.append_assoc, List.singleton_append]
  obtain ⟨v, rfl⟩ := List.getLast?_eq_some_iff.mp (getLast?_of_append hv hend)
  have hlength := congrArg List.length hcut
  rw [← hprefix] at hlength
  obtain rfl | ⟨rest, d, rfl⟩ := List.eq_nil_or_concat rest
  · simp at hlength
    omega
  · refine h ?_
    rw [List.concat_eq_append, ← List.append_assoc] at hprefix
    obtain ⟨hinit, -⟩ := List.append_inj' hprefix rfl
    rw [← hinit]
    simp

end Text

/-! ## 3. Sources -/

namespace Opening

/-- Of the lines the first one opens a declaration, and no other does. -/
def OpensOnce (own : List Text) : Prop :=
  ∃ first more, own = first :: more ∧ opens first = true ∧ ∀ line ∈ more, opens line = false

theorem opensOnce_singleton {path line : Text} {draft : Draft} (h : first? path line = some draft) :
    OpensOnce [line] := by
  have hopens := first?_isSome path line
  rw [h] at hopens
  exact ⟨line, [], rfl, hopens.symm, fun _ h => nomatch h⟩

theorem OpensOnce.concat {own : List Text} (h : OpensOnce own) {line : Text} (ho : opens line = false) :
    OpensOnce (own ++ [line]) := by
  obtain ⟨first, more, rfl, hfirst, hmore⟩ := h
  exact ⟨first, more ++ [line], rfl, hfirst,
    List.forall_mem_append.mpr ⟨hmore, List.forall_mem_singleton.mpr ho⟩⟩

end Opening

namespace Draft

variable {own : List Text} {draft : Draft}

theorem Open.opensOnce (h : draft.Open own) : Opening.OpensOnce own := by
  induction h with
  | start hopen _ => exact Opening.opensOnce_singleton hopen
  | grow _ ho _ _ ih => exact ih.concat ho

theorem Shut.opensOnce (h : draft.Shut own) : Opening.OpensOnce own := by
  cases h with
  | whole hopen _ => exact Opening.opensOnce_singleton hopen
  | ends hopen ho _ => exact hopen.opensOnce.concat ho

end Draft

namespace Declaration

theorem startsOnce_of_mem_scan {lines : List Text} (hlines : ∀ line ∈ lines, '\n' ∉ line) {d : Declaration}
    (hd : d ∈ scan lines) : d.source.StartsOnce := by
  obtain ⟨own, comments, draft, rfl, hown⟩ := Scanner.accounted_of_lines hlines d hd
  have hlines : draft.source = ofLines (own.map indent) ∧ Opening.OpensOnce own := by
    rw [← Content.ofLines_source]
    rcases hown.shut with hshut | ⟨hopen, -⟩
    · exact ⟨hshut.source, hshut.opensOnce⟩
    · exact ⟨hopen.source, hopen.opensOnce⟩
  obtain ⟨hsource, first, more, rfl, hfirst, hmore⟩ := hlines
  obtain ⟨hfeed, hfeeds⟩ := List.forall_mem_cons.mp hown.member
  show draft.source.StartsOnce
  rw [hsource, List.map_cons]
  refine Text.startsOnce_ofLines (Text.feed_notMem_indent hfeed) ?_ ?_
  · exact List.forall_mem_map.mpr fun line hline => Text.feed_notMem_indent (hfeeds line hline)
  · refine List.forall_mem_map.mpr fun line hline hsame => ?_
    have hopens := hmore line hline
    rw [Text.indent_injective hsame, hfirst] at hopens
    cases hopens

end Declaration

namespace ReExport

variable {g : Group} {entry : Entry}

theorem notMem_text (h : entry ∈ entries g.list) {c : Char} (hword : isWordChar c = false)
    (hblank : isBlank c = false) : c ∉ entry.text := by
  obtain ⟨piece, -, hread⟩ := List.mem_filterMap.mp h
  obtain ⟨htext, -, hchars⟩ := read?_eq_some hread
  rw [htext]
  intro hmem
  rcases hchars c hmem with hc | hc
  · rw [hword] at hc
    cases hc
  · rw [hblank] at hc
    cases hc

theorem comma_notMem_text (h : entry ∈ entries g.list) : ',' ∉ entry.text :=
  notMem_text h (by decide +kernel) (by decide)

theorem brace_notMem_text (h : entry ∈ entries g.list) : '}' ∉ entry.text :=
  notMem_text h (by decide +kernel) (by decide)

/-- The source of an entry of several ends in its comma, or in the brace of the group. -/
theorem startsOnce_entrySource (n count : Nat) (h : entry ∈ entries g.list) :
    (entrySource n count entry).StartsOnce := by
  have hhead : (if n = 0 then "    export \x7b\n".toList else []) ++ "        ".toList <:+
      "    export \x7b\n".toList ++ "        ".toList := by
    split
    · exact List.suffix_rfl
    · exact List.suffix_append _ _
  unfold entrySource
  by_cases hlast : n + 1 = count
  · have hend : "\n    \x7d".toList = "\n    ".toList ++ ['}'] := by decide
    have hnone : '}' ∉ "    export \x7b\n".toList ++ "        ".toList := by decide
    have htext := List.not_mem_append (fun hmem => hnone (hhead.subset hmem)) (brace_notMem_text h)
    rw [if_pos hlast, hend, ← List.append_assoc]
    refine Text.startsOnce_concat (List.not_mem_append (List.not_mem_append htext ?_) ?_)
    · decide
    · decide
  · have hnone : ',' ∉ "    export \x7b\n".toList ++ "        ".toList := by decide
    rw [if_neg hlast, List.append_nil]
    exact Text.startsOnce_concat
      (List.not_mem_append (fun hmem => hnone (hhead.subset hmem)) (comma_notMem_text h))

theorem startsOnce_of_mem {d : Declaration} (hd : d ∈ g.declarations) : d.source.StartsOnce := by
  unfold Group.declarations at hd
  split at hd
  · cases hd
  · rename_i entry hentry
    have hmem : entry ∈ entries g.list := hentry ▸ List.mem_cons_self
    have hend : " \x7d".toList = " ".toList ++ ['}'] := by decide
    rw [List.mem_singleton.mp hd]
    show Text.StartsOnce ("    export \x7b ".toList ++ entry.text ++ " \x7d".toList)
    rw [hend, ← List.append_assoc]
    refine Text.startsOnce_concat (List.not_mem_append (List.not_mem_append ?_ (brace_notMem_text hmem)) ?_)
    · decide
    · decide
  · obtain ⟨n, hn, rfl⟩ := List.mem_mapIdx.mp hd
    exact startsOnce_entrySource _ _ (List.getElem_mem hn)

end ReExport

namespace Declaration

/-- **No source starts over at the start of one of its lines.** -/
theorem startsOnce_source {t : Text} {d : Declaration} (hd : d ∈ parse t) : d.source.StartsOnce := by
  rcases mem_parse.mp hd with h | h
  · exact startsOnce_of_mem_scan Text.not_mem_of_mem_lines h
  · obtain ⟨g, -, hg⟩ := List.mem_flatMap.mp h
    exact ReExport.startsOnce_of_mem hg

/-! ## 4. Lines -/

/-- What the content of `d` has before its source, where `before` is before it among the siblings. -/
def leadIn (d : Declaration) (before : List Declaration) : Text :=
  "namespace ".toList ++ d.path ++ " \x7b\n\n".toList ++ (before.filter d.sharesBlock).flatMap blockEntry ++
    '\n' :: d.commentBlock

/-- The line, counted from 1, at which the source is put into the content. -/
def ownLine (d : Declaration) (before : List Declaration) : Nat := Text.lineFeeds (d.leadIn before) + 1

section Place

variable {d : Declaration} {before behind : List Declaration}

theorem sharesBlock_self (hkind : d.kind.isStandalone = false) : d.sharesBlock d = true := by
  unfold sharesBlock
  rw [hkind, decide_eq_true rfl]
  rfl

/-- **The place at which the loop puts the source.** -/
theorem content_place (hkind : d.kind.isStandalone = false) :
    d.content (before ++ d :: behind) = d.leadIn before ++
      (d.source ++ ((behind.filter d.sharesBlock).flatMap blockEntry ++ "\n\n\x7d".toList)) := by
  unfold content namespaceBlock leadIn
  rw [hkind, if_neg Bool.false_ne_true, List.filter_append, List.filter_cons, if_pos (sharesBlock_self hkind),
    List.flatMap_append, List.flatMap_cons, blockEntry]
  simp only [List.append_assoc, List.cons_append]

/-- A line is closed before it. -/
theorem exists_leadIn (d : Declaration) (before : List Declaration) : ∃ init, d.leadIn before = init ++ ['\n'] := by
  unfold leadIn commentBlock
  split
  · exact ⟨_, rfl⟩
  · exact ⟨"namespace ".toList ++ d.path ++ " \x7b\n\n".toList ++ (before.filter d.sharesBlock).flatMap blockEntry ++
      '\n' :: d.comment, by simp⟩

theorem leadIn_append {e : Declaration} {mid : List Declaration} (hkind : d.kind.isStandalone = false)
    (hpath : d.path = e.path) : e.leadIn (before ++ d :: mid) = d.leadIn before ++
      (d.source ++ ((mid.filter d.sharesBlock).flatMap blockEntry ++ '\n' :: e.commentBlock)) := by
  have hshares : e.sharesBlock = d.sharesBlock := by
    funext s
    unfold sharesBlock
    rw [hpath]
  unfold leadIn
  rw [hshares, List.filter_append, List.filter_cons, if_pos (sharesBlock_self hkind), List.flatMap_append,
    List.flatMap_cons, blockEntry, ← hpath]
  simp only [List.append_assoc, List.cons_append]

/-- The own line of a declaration is behind those of the siblings before it. -/
theorem ownLine_lt {e : Declaration} {mid : List Declaration} (hkind : d.kind.isStandalone = false)
    (hpath : d.path = e.path) : d.ownLine before < e.ownLine (before ++ d :: mid) := by
  unfold ownLine Text.lineFeeds
  rw [leadIn_append hkind hpath]
  simp only [List.count_append, List.count_cons_self]
  omega

variable {t : Text}

/-- **Where the source stands in what is before it, the line is an earlier one, and else the own one.** -/
theorem lineNumber_cases (h : parse t = before ++ d :: behind) (hkind : d.kind.isStandalone = false) :
    ¬d.source <:+: d.leadIn before ∧ d.lineNumber (parse t) = d.ownLine before ∨
    d.source <:+: d.leadIn before ∧ d.lineNumber (parse t) < d.ownLine before := by
  have hd : d ∈ parse t := h ▸ List.mem_append_right _ List.mem_cons_self
  have honce := startsOnce_source hd
  obtain ⟨init, hinit⟩ := d.exists_leadIn before
  have hplace : d.content (parse t) = d.leadIn before ++
      (d.source ++ ((behind.filter d.sharesBlock).flatMap blockEntry ++ "\n\n\x7d".toList)) := by
    rw [h]
    exact content_place hkind
  rw [hinit] at hplace
  unfold lineNumber ownLine
  rw [hkind, Bool.false_or, List.isEmpty_eq_false_iff.mpr honce.ne_nil, if_neg Bool.false_ne_true, hplace, hinit]
  by_cases hfound : d.source <:+: init ++ ['\n']
  · obtain ⟨first, rest, hcut, hlt⟩ := Text.lineFeeds_lt_of_infix honce.ne_nil hfound
      (d.source ++ ((behind.filter d.sharesBlock).flatMap blockEntry ++ "\n\n\x7d".toList))
    rw [hcut]
    exact .inr ⟨hfound, Nat.succ_lt_succ hlt⟩
  · rw [Text.cut?_of_startsOnce honce hfound]
    exact .inl ⟨hfound, rfl⟩

theorem lineNumber_le_ownLine (h : parse t = before ++ d :: behind) (hkind : d.kind.isStandalone = false) :
    d.lineNumber (parse t) ≤ d.ownLine before := by
  rcases lineNumber_cases h hkind with ⟨-, heq⟩ | ⟨-, hlt⟩
  · exact heq.le
  · exact hlt.le

end Place

/-- **The line of a declaration is its own**, at which the loop put its source into the content, if and only if the
    source does not stand in what is before it; and behind the lines of all siblings before it in that case. -/
theorem lineNumber_iff {t : Text} {d : Declaration} {before behind : List Declaration}
    (h : parse t = before ++ d :: behind) (hkind : d.kind.isStandalone = false) :
    (∃ rest, d.content (parse t) = d.leadIn before ++ (d.source ++ rest)) ∧
      (d.lineNumber (parse t) = d.ownLine before ↔ ¬d.source <:+: d.leadIn before) ∧
      (¬d.source <:+: d.leadIn before → ∀ s ∈ before, d.sharesBlock s = true →
        s.lineNumber (parse t) < d.lineNumber (parse t)) := by
  have hcases := lineNumber_cases h hkind
  refine ⟨⟨_, by rw [h]; exact content_place hkind⟩, ?_, fun hnone s hs hshares => ?_⟩
  · rcases hcases with ⟨hnone, heq⟩ | ⟨hfound, hlt⟩
    · exact iff_of_true heq hnone
    · exact iff_of_false hlt.ne fun hnone => hnone hfound
  · obtain ⟨hpath, hplain⟩ := Bool.and_eq_true_iff.mp hshares
    rw [Bool.not_eq_true'] at hplain
    obtain ⟨first, mid, rfl⟩ := List.append_of_mem hs
    have hsibling : parse t = first ++ s :: (mid ++ d :: behind) := by rw [h, List.append_assoc, List.cons_append]
    have hline : d.lineNumber (parse t) = d.ownLine (first ++ s :: mid) :=
      (hcases.resolve_right fun hfound => hnone hfound.1).2
    calc s.lineNumber (parse t)
      _ ≤ s.ownLine first := lineNumber_le_ownLine hsibling hplain
      _ < d.ownLine (first ++ s :: mid) := ownLine_lt hplain (of_decide_eq_true hpath)
      _ = d.lineNumber (parse t) := hline.symm

/-- Three declarations, two of them with one source. -/
def repeated : Text :=
  "namespace A \x7b\n    export declare var x: T;\n    export declare var x: T;\n    export declare var y: T;\n\x7d".toList

def twin : Declaration where
  path := ['A']
  kind := .varValue
  signature := "x: T".toList
  endMarker := "    \x7d;".toList
  complete := true
  source := "        export declare var x: T;\n".toList
  comment := []
  ordinal := none

def single : Declaration :=
  { twin with signature := "y: T".toList, source := "        export declare var y: T;\n".toList }

theorem parse_repeated : parse repeated = [twin, twin, single] := by
  have hscan : scan (Text.lines (normalise repeated)) = [twin, twin, single] := by decide +kernel
  have hgroups : ReExport.declarations (normalise repeated) = [] := by decide +kernel
  have hsorted : [twin, twin, single].Pairwise fun a b => a.le b = true := by decide +kernel
  show sort (scan (Text.lines (normalise repeated)) ++ ReExport.declarations (normalise repeated)) = _
  rw [hscan, hgroups, List.append_nil]
  exact List.mergeSort_of_pairwise hsorted

/-- The second of them is put at line 6 and found at line 4, where the first one stands. -/
theorem not_ownLine_twin : parse repeated = [twin] ++ twin :: [single] ∧ twin.kind.isStandalone = false ∧
    twin.ownLine [twin] = 6 ∧ twin.lineNumber (parse repeated) = 4 := by
  rw [parse_repeated]
  refine ⟨rfl, rfl, ?_, ?_⟩
  · decide +kernel
  · decide +kernel

/-- Behind them a line is its own again. -/
theorem lineNumber_single : parse repeated = [twin, twin] ++ single :: [] ∧
    single.lineNumber (parse repeated) = single.ownLine [twin, twin] ∧
    twin.lineNumber (parse repeated) < single.lineNumber (parse repeated) := by
  have hplace : parse repeated = [twin, twin] ++ single :: [] := parse_repeated
  have hnone : ¬single.source <:+: single.leadIn [twin, twin] := by decide +kernel
  obtain ⟨-, hiff, hbehind⟩ := lineNumber_iff hplace rfl
  exact ⟨hplace, hiff.mpr hnone, hbehind hnone twin List.mem_cons_self rfl⟩

end Declaration
end Ambient
