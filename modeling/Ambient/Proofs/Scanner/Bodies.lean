import Ambient.Declaration.Content
import Ambient.Proofs.Scanner.States
import Ambient.Proofs.Scanner.Wrapping
import Mathlib.Data.List.Infix

/-!
# Bodies that close on their first line

Classes, interfaces and enums are never complete with the line that opens them, whatever stands behind the brace on
it. Nobody counts braces: the draft is closed by the line that equals its END MARKER, by the next line that opens a
declaration, or by the end of the file. Until then it takes every line that reaches a namespace, comment lines
included.

* `Draft.taken`: what a draft takes of the texts behind its own line;
* `InBody`: a body is open. The steps from there are `feed_within`, `feed_endMarker` and `feed_opening`, and one more
  for lines that reach no namespace, `feed_passing`;
* `bodyStaysOpen`: what follows for a line on which every brace is closed again.
-/

namespace Ambient

/-! ## 1. What a draft takes -/

/-- **Every brace on the line is closed again**, and there is one. -/
structure Text.ClosesBraces (t : Text) : Prop where
  some : '\x7b' ∈ t
  even : t.count '\x7b' = t.count '\x7d'
  deep : ∀ p ∈ t.inits, p.count '\x7d' ≤ p.count '\x7b'

instance (t : Text) : Decidable t.ClosesBraces :=
  decidable_of_iff ('\x7b' ∈ t ∧ t.count '\x7b' = t.count '\x7d' ∧ ∀ p ∈ t.inits, p.count '\x7d' ≤ p.count '\x7b')
    ⟨fun h => ⟨h.1, h.2.1, h.2.2⟩, fun h => ⟨h.some, h.even, h.deep⟩⟩

namespace Draft

/-- The texts that a draft takes: up to the next opening, or its end marker, which is the last. -/
def taken (endMarker : Text) : List Text → List Text
  | [] => []
  | text :: texts =>
    if Opening.opens text then []
    else if endMarker = text then [text]
    else text :: taken endMarker texts

/-- Nothing among the texts ends the draft. -/
def Within (endMarker : Text) (texts : List Text) : Prop :=
  ∀ text ∈ texts, Opening.opens text = false ∧ endMarker ≠ text

instance (endMarker : Text) (texts : List Text) : Decidable (Within endMarker texts) :=
  inferInstanceAs (Decidable (∀ _ ∈ _, _))

theorem taken_append {endMarker : Text} {texts : List Text} (h : Within endMarker texts) (more : List Text) :
    taken endMarker (texts ++ more) = texts ++ taken endMarker more := by
  induction texts with
  | nil => rfl
  | cons text texts ih =>
    obtain ⟨⟨ho, hm⟩, hrest⟩ := List.forall_mem_cons.mp h
    rw [List.cons_append, taken, ho, if_neg Bool.false_ne_true, if_neg hm, ih hrest, List.cons_append]

/-- A draft with more lines. -/
def extend (draft : Draft) (texts : List Text) : Draft := draft.withSource (draft.source ++ texts.flatMap sourceLine)

section Extend

variable {draft : Draft} {text : Text} {texts : List Text}

theorem extend_nil (draft : Draft) : draft.extend [] = draft := by
  unfold extend withSource
  rw [List.flatMap_nil, List.append_nil]

theorem extend_append (draft : Draft) (texts more : List Text) :
    (draft.extend texts).extend more = draft.extend (texts ++ more) := by
  unfold extend withSource
  dsimp only
  rw [List.flatMap_append, List.append_assoc]

theorem push_eq_extend (hkind : draft.kind ≠ .function) (text : Text) : draft.push text = draft.extend [text] := by
  rw [push_of_settled (.inl hkind)]
  unfold extend withSource
  rw [List.flatMap_singleton]

end Extend

end Draft

/-- The rows of classes, interfaces and enums leave their declarations incomplete. -/
theorem Opening.incomplete_of_standalone {path text : Text} {draft : Draft} (h : first? path text = some draft)
    (hkind : draft.kind.isStandalone = true) : draft.kind ≠ .function ∧ draft.complete = false := by
  have hrow : ∀ o ∈ table, o.kind.isStandalone = true → o.kind ≠ .function ∧ (o.rule = .clause ∨ o.rule = .body) := by
    decide
  obtain ⟨o, ho, hopen⟩ := List.exists_of_findSome?_eq_some h
  obtain ⟨before, behind, -, -, rfl⟩ := open?_eq_some hopen
  obtain ⟨hfunction, hrule⟩ := hrow o ho hkind
  refine ⟨hfunction, ?_⟩
  show (o.rule.split behind).2 = false
  rcases hrule with hrule | hrule
  · rw [hrule]
    rfl
  · rw [hrule]
    simp only [SignatureRule.split]
    split <;> rfl

namespace Scanner

/-! ## 2. Steps -/

/-- **A body is open.** -/
structure InBody (s : Scanner) (draft : Draft) : Prop where
  path : s.path?.isSome = true
  opened : s.draft? = some draft
  kind : draft.kind ≠ .function
  incomplete : draft.complete = false

section Steps

variable {s : Scanner} {draft : Draft} {line text path : Text}

theorem InBody.sound (h : s.InBody draft) : Sound s where
  inPath _ := h.path
  incomplete d hd := by
    obtain rfl := Option.some.inj (h.opened.symm.trans hd)
    exact h.incomplete

theorem InBody.phase_eq (h : s.InBody draft) : s.phase = .inDeclaration draft.kind := by
  unfold phase
  rw [h.opened]

/-- **A line that ends nothing is one line more**, or none if it reaches no namespace. -/
theorem feed_within (h : s.InBody draft) (hwithin : Draft.Within draft.endMarker (s.effective? line).toList) :
    s.feed line = ⟨s.pathAfter? line, some (draft.extend (s.effective? line).toList), s.comment, s.closed⟩ := by
  cases he : s.effective? line with
  | none =>
    rw [feed_of_idle he (isEarly_of_isSome h.path line), h.opened, Option.toList_none, Draft.extend_nil]
  | some text =>
    obtain ⟨ho, hm⟩ := hwithin text (by rw [he]; exact List.mem_cons_self)
    have hpush := Draft.push_eq_extend h.kind text
    have hstays : (draft.push text).complete = false := by
      rw [hpush]
      exact h.incomplete
    have hmember := member_of_incomplete (s := { s with path? := s.pathAfter? line }) h.opened h.incomplete ho hm
    rw [feed_of_effective he, hmember, collect_stays hstays, hpush]
    rfl

/-- **The end marker is the last line.** -/
theorem feed_endMarker (h : s.InBody draft) (he : s.effective? line = some draft.endMarker)
    (ho : Opening.opens draft.endMarker = false) :
    s.feed line =
      ⟨s.pathAfter? line, none, [], s.closed ++ [(draft.extend [draft.endMarker]).finish s.comment]⟩ := by
  have hmember := member_of_endMarker (s := { s with path? := s.pathAfter? line }) h.opened ho
  rw [feed_of_effective he, hmember, Draft.push_eq_extend h.kind]

/-- **An opening closes the body**, and no comment is left for what it opens. -/
theorem feed_opening (h : s.InBody draft) (he : s.effective? line = some text) (ho : Opening.opens text = true) :
    ∃ start, Took (s.closed ++ [draft.finish s.comment]) [] start text (s.feed line) := by
  cases (fed_feed h.sound line).1 with
  | @opens text' path start ht ho' hp hstart htook =>
    obtain rfl := Option.some.inj (he.symm.trans ht)
    rw [close_of_some h.opened] at htook
    exact ⟨start, htook⟩
  | joins ht ho' hd htook =>
    obtain rfl := Option.some.inj (he.symm.trans ht)
    exact absurd (ho.symm.trans ho') Bool.noConfusion
  | between comment ht hd _ => exact absurd (h.opened.symm.trans hd) (Option.some_ne_none draft)
  | passes ht _ => exact absurd (he.symm.trans ht) (Option.some_ne_none text)

/-- **The line that opens a body.** -/
theorem feed_body (he : s.effective? line = some text) (hp : s.pathAfter? line = some path)
    (hopen : Opening.first? path text = some draft) (hkind : draft.kind.isStandalone = true) :
    s.feed line = ⟨some path, some (draft.extend [text]), s.close.comment, s.close.closed⟩ := by
  obtain ⟨hfunction, hinc⟩ := Opening.incomplete_of_standalone hopen hkind
  have hpush := Draft.push_eq_extend hfunction text
  have hstays : (draft.push text).complete = false := by
    rw [hpush]
    exact hinc
  rw [feed_of_effective he, hp, member_of_first? rfl hopen, close_setPath, collect_stays hstays, hpush]

end Steps

/-! ## 3. Runs -/

section Runs

variable {s : Scanner} {draft : Draft} {line : Text} {behind : List Text}

/-- A line that ends nothing leaves the body open. -/
theorem inBody_feed_within (h : s.InBody draft)
    (hwithin : Draft.Within draft.endMarker (s.effective? line).toList) :
    InBody (s.feed line) (draft.extend (s.effective? line).toList) := by
  rw [feed_within h hwithin]
  exact ⟨pathAfter?_isSome_of_isSome h.path, rfl, h.kind, h.incomplete⟩

/-- **A body stays open as long as no line ends it**, and takes all that reaches a namespace. -/
theorem feedAll_within (h : s.InBody draft) (hwithin : Draft.Within draft.endMarker (effective s behind)) :
    InBody (s.feedAll behind) (draft.extend (effective s behind)) ∧
      (s.feedAll behind).comment = s.comment ∧ (s.feedAll behind).closed = s.closed := by
  induction behind generalizing s draft with
  | nil =>
    show InBody s (draft.extend []) ∧ _
    rw [Draft.extend_nil]
    exact ⟨h, rfl, rfl⟩
  | cons line behind ih =>
    obtain ⟨hline, hbehind⟩ := List.forall_mem_append.mp hwithin
    obtain ⟨hbody, hcomment, hclosed⟩ := ih (inBody_feed_within h hline) hbehind
    rw [Draft.extend_append] at hbody
    have hstep : (s.feed line).comment = s.comment ∧ (s.feed line).closed = s.closed := by
      rw [feed_within h hline]
      exact ⟨rfl, rfl⟩
    exact ⟨hbody, hcomment.trans hstep.1, hclosed.trans hstep.2⟩

/-- **Whatever lines follow, the declaration of a body is known**: it is the draft with what it takes of them. -/
theorem finish_inBody (h : s.InBody draft) (behind : List Text) :
    s.closed ++ [(draft.extend (Draft.taken draft.endMarker (effective s behind))).finish s.comment] <+:
      (s.feedAll behind).finish := by
  induction behind generalizing s draft with
  | nil =>
    show _ ++ [(draft.extend []).finish s.comment] <+: s.close.closed
    rw [Draft.extend_nil, close_of_some h.opened]
  | cons line behind ih =>
    -- what is closed stays closed
    obtain ⟨-, hbehind⟩ := feedAll_prefix (h.sound.feed line) behind
    have hclosed : (s.feed line).closed <+: (s.feedAll (line :: behind)).finish :=
      hbehind.trans (closed_prefix_close _)
    by_cases hwithin : Draft.Within draft.endMarker (s.effective? line).toList
    · have hstep : (s.feed line).comment = s.comment ∧ (s.feed line).closed = s.closed := by
        rw [feed_within h hwithin]
        exact ⟨rfl, rfl⟩
      have hrest := ih (inBody_feed_within h hwithin)
      rw [Draft.extend_append, hstep.1, hstep.2] at hrest
      unfold effective
      rw [Draft.taken_append hwithin]
      exact hrest
    · cases he : s.effective? line with
      | none =>
        rw [he] at hwithin
        exact absurd (fun _ hmem => nomatch hmem) hwithin
      | some text =>
        unfold effective
        rw [he, Option.toList_some, List.singleton_append, Draft.taken]
        cases ho : Opening.opens text with
        | true =>
          obtain ⟨start, htook⟩ := feed_opening h he ho
          rw [if_pos rfl, Draft.extend_nil]
          exact htook.closed_prefix.trans hclosed
        | false =>
          have hm : draft.endMarker = text := by
            by_contra hm
            rw [he] at hwithin
            exact hwithin (List.forall_mem_singleton.mpr ⟨ho, hm⟩)
          subst hm
          rw [feed_endMarker h he ho] at hclosed
          rw [if_neg Bool.false_ne_true, if_pos rfl]
          exact hclosed

end Runs

/-! ## 4. Braces -/

/-- The braces of the content are those of the comment, the namespace and the source, and two. -/
theorem count_content {d : Declaration} (hkind : d.kind.isStandalone = true) (siblings : List Declaration) {c : Char}
    (hc : c = '\x7b' ∨ c = '\x7d') :
    (d.content siblings).count c = d.comment.count c + d.path.count c + d.source.count c + 1 := by
  have hblock : (Declaration.namespaceBlock d.path d.source).count c = d.path.count c + d.source.count c + 1 := by
    unfold Declaration.namespaceBlock
    simp only [List.count_append]
    have hfixed : "namespace ".toList.count c + " \x7b\n\n".toList.count c + "\n\n\x7d".toList.count c = 1 := by
      rcases hc with rfl | rfl <;> decide
    omega
  have hcomment : d.commentBlock.count c = d.comment.count c := by
    have hfeed : ['\n'].count c = 0 := by rcases hc with rfl | rfl <;> decide
    unfold Declaration.commentBlock
    cases d.comment with
    | nil => rfl
    | cons e comment => exact (List.count_append).trans (by rw [hfeed, Nat.add_zero])
  unfold Declaration.content
  rw [if_pos hkind, List.count_append, hblock, hcomment]
  omega

/-- **Where the first line closes its braces**, those of the content are even if and only if the others are. -/
theorem even_content_iff {draft : Draft} (hkind : draft.kind.isStandalone = true) (hsource : draft.source = [])
    {text : Text} (hbraces : text.ClosesBraces) (texts : List Text) (comment : Text) (siblings : List Declaration) :
    (((draft.extend (text :: texts)).finish comment).content siblings).count '\x7b' =
      (((draft.extend (text :: texts)).finish comment).content siblings).count '\x7d' ↔
    (comment ++ draft.path ++ texts.flatten).count '\x7b' = (comment ++ draft.path ++ texts.flatten).count '\x7d' := by
  have hcount : ∀ c, isBlank c = false → ((draft.extend (text :: texts)).finish comment).source.count c =
      text.count c + texts.flatten.count c := by
    intro c hc
    have hlines :
        ((draft.extend (text :: texts)).finish comment).source = (text :: texts).flatMap Draft.sourceLine := by
      show draft.source ++ _ = _
      rw [hsource, List.nil_append]
    rw [hlines, Wrapping.count_sourceLines hc, List.flatten_cons, List.count_append]
  rw [count_content hkind siblings (.inl rfl), count_content hkind siblings (.inr rfl), hcount _ (by decide),
    hcount _ (by decide), List.count_append, List.count_append, List.count_append, List.count_append, hbraces.even]
  show comment.count _ + draft.path.count _ + _ + 1 = comment.count _ + draft.path.count _ + _ + 1 ↔ _
  omega

/-! ## 5. Bodies on one line -/

/-- **A line that opens a class, an interface or an enum**, and closes all its braces. -/
structure OpensBody (before : List Text) (line text : Text) (draft : Draft) : Prop where
  reaches : (fresh.feedAll before).effective? line = some text
  path : (fresh.feedAll before).pathAfter? line = some draft.path
  first : Opening.first? draft.path text = some draft
  kind : draft.kind.isStandalone = true
  braces : text.ClosesBraces

/-- **No line behind ends the body.** -/
def LeavesOpen (before : List Text) (line : Text) (draft : Draft) (behind : List Text) : Prop :=
  Draft.Within draft.endMarker (effective (fresh.feedAll (before ++ [line])) behind)

/-- **The body is not closed by its line.** -/
structure StaysOpen (before : List Text) (line text : Text) (draft : Draft) : Prop where
  /-- It is open as long as nothing ends it. -/
  phase : ∀ behind, LeavesOpen before line draft behind →
    (fresh.feedAll (before ++ line :: behind)).phase = .inDeclaration draft.kind
  /-- Its end marker closes it. -/
  closes : ∀ behind next, LeavesOpen before line draft behind →
    (fresh.feedAll (before ++ line :: behind)).effective? next = some draft.endMarker →
    Opening.opens draft.endMarker = false →
    (fresh.feedAll (before ++ line :: (behind ++ [next]))).phase = .betweenDeclarations
  /-- Its source is its line and all that it takes of the lines behind, and the braces of its content are as those of
      what it takes, of its comment and of its namespace. -/
  declared : ∀ behind, ∃ texts d,
    texts = Draft.taken draft.endMarker (effective (fresh.feedAll (before ++ [line])) behind) ∧
    d = (draft.extend (text :: texts)).finish (fresh.feedAll before).close.comment ∧
    (scan (before ++ line :: behind))[(scan before).length]? = some d ∧
    ∀ siblings, (d.content siblings).count '\x7b' = (d.content siblings).count '\x7d' ↔
      (d.comment ++ d.path ++ texts.flatten).count '\x7b' = (d.comment ++ d.path ++ texts.flatten).count '\x7d'
  /-- What it takes is no comment: the declaration that the next opening begins has none. -/
  next : ∀ behind next, LeavesOpen before line draft behind →
    ((fresh.feedAll (before ++ line :: behind)).opening? next).isSome = true →
    ∀ rest, ∃ d, (scan (before ++ line :: (behind ++ next :: rest)))[(scan before).length + 1]? = some d ∧
      d.comment = []

section OneLine

variable {before behind : List Text} {line text : Text} {draft : Draft}

theorem feedAll_middle (before : List Text) (line : Text) (behind : List Text) :
    fresh.feedAll (before ++ line :: behind) = (fresh.feedAll (before ++ [line])).feedAll behind := by
  rw [← feedAll_append, List.append_assoc]
  rfl

theorem OpensBody.inBody (h : OpensBody before line text draft) :
    InBody (fresh.feedAll (before ++ [line])) (draft.extend [text]) ∧
      (fresh.feedAll (before ++ [line])).comment = (fresh.feedAll before).close.comment ∧
      (fresh.feedAll (before ++ [line])).closed = scan before := by
  obtain ⟨hfunction, hinc⟩ := Opening.incomplete_of_standalone h.first h.kind
  rw [feedAll_concat, feed_body h.reaches h.path h.first h.kind]
  exact ⟨⟨rfl, rfl, hfunction, hinc⟩, rfl, rfl⟩

theorem OpensBody.declared (h : OpensBody before line text draft) (behind : List Text) :
    (scan (before ++ line :: behind))[(scan before).length]? = some ((draft.extend (text :: Draft.taken draft.endMarker
      (effective (fresh.feedAll (before ++ [line])) behind))).finish (fresh.feedAll before).close.comment) := by
  obtain ⟨hbody, hcomment, hclosed⟩ := h.inBody
  obtain ⟨rest, hrest⟩ := finish_inBody hbody behind
  rw [hclosed, hcomment, Draft.extend_append, ← feedAll_middle] at hrest
  show (finish _)[_]? = _
  rw [← hrest, List.append_assoc, List.getElem?_append_right (Nat.le_refl _), Nat.sub_self]
  rfl

/-- The next opening finds no comment. -/
theorem OpensBody.next (h : OpensBody before line text draft) {next : Text}
    (hopen : LeavesOpen before line draft behind)
    (hnext : ((fresh.feedAll (before ++ line :: behind)).opening? next).isSome = true) (rest : List Text) :
    ∃ d, (scan (before ++ line :: (behind ++ next :: rest)))[(scan before).length + 1]? = some d ∧ d.comment = [] := by
  obtain ⟨hbody, -, hclosed⟩ := h.inBody
  obtain ⟨hbody', -, hclosed'⟩ := feedAll_within hbody hopen
  obtain ⟨opening, hopening⟩ := Option.isSome_iff_exists.mp hnext
  obtain ⟨he, ho⟩ := Option.filter_eq_some_iff.mp hopening
  rw [feedAll_middle] at he
  obtain ⟨start, htook⟩ := feed_opening hbody' he ho
  have hlines : before ++ line :: (behind ++ next :: rest) = (before ++ line :: (behind ++ [next])) ++ rest := by simp
  -- what is begun with the line stays in its place
  obtain ⟨old, hbegun⟩ : ∃ old, scan (before ++ line :: (behind ++ [next])) =
      scan before ++ [old] ++ [(start.push opening).finish []] := by
    have hfinish := htook.finish
    rw [hclosed', hclosed, ← feedAll_concat, ← feedAll_middle] at hfinish
    exact ⟨_, hfinish⟩
  have hkept := kept_scan ((before ++ line :: (behind ++ [next])) ++ rest) (before ++ line :: (behind ++ [next])).length
  rw [List.take_left, ← hlines, hbegun] at hkept
  obtain ⟨d, hd, hgrows⟩ := hkept ((scan before).length + 1) ((start.push opening).finish [])
    (by rw [List.getElem?_append_right (by simp)]; simp)
  exact ⟨d, hd, hgrows.comment⟩

/-- **A body is not closed by its own line**, even if every brace on the line is. -/
theorem body_staysOpen (h : OpensBody before line text draft) : StaysOpen before line text draft := by
  obtain ⟨hbody, -, -⟩ := h.inBody
  constructor
  · intro behind hopen
    rw [feedAll_middle]
    exact (feedAll_within hbody hopen).1.phase_eq
  · intro behind next hopen he ho
    rw [feedAll_middle] at he
    obtain ⟨path, hp⟩ := Option.isSome_iff_exists.mp (pathAfter?_isSome he)
    rw [feedAll_middle, feedAll_concat, feed_endMarker (feedAll_within hbody hopen).1 he ho, hp]
    rfl
  · intro behind
    exact ⟨_, _, rfl, rfl, h.declared behind, even_content_iff h.kind (Opening.first?_start h.first).2 h.braces _ _⟩
  · intro behind next hopen hnext rest
    exact h.next hopen hnext rest

/-- An interface without members. -/
def emptyInterface : Draft where
  path := "CG".toList
  kind := .interfaceType
  signature := "IEmpty".toList
  endMarker := "    \x7d".toList
  complete := false
  source := []

/-- Its line. -/
def emptyLine : Text := "    export interface IEmpty \x7b \x7d".toList

theorem emptyInterface_staysOpen : OpensBody ["namespace CG \x7b".toList] emptyLine emptyLine emptyInterface ∧
    StaysOpen ["namespace CG \x7b".toList] emptyLine emptyLine emptyInterface := by
  have hbody : OpensBody ["namespace CG \x7b".toList] emptyLine emptyLine emptyInterface :=
    ⟨by decide +kernel, by decide +kernel, by decide +kernel, rfl, by decide +kernel⟩
  exact ⟨hbody, body_staysOpen hbody⟩

/-- **An interface without members is not closed by its line**: it takes the comment of the constant behind it, or the
    brace that closes its namespace. -/
theorem not_closed_emptyInterface : emptyLine.ClosesBraces ∧
    (fresh.feedAll ["namespace CG \x7b".toList, emptyLine]).phase = .inDeclaration .interfaceType ∧
    (scan ["namespace CG \x7b".toList, emptyLine, "    /** Doc. */".toList,
        "    export declare const x: T;".toList]).map (fun d => (d.source, d.comment)) =
      [("        export interface IEmpty \x7b \x7d\n        /** Doc. */\n".toList, []),
        ("        export declare const x: T;\n".toList, [])] ∧
    (scan ["namespace CG \x7b".toList, emptyLine, "\x7d".toList]).map
        (fun d => ((d.content []).count '\x7b', (d.content []).count '\x7d')) = [(2, 3)] :=
  ⟨by decide +kernel, by decide +kernel, by decide +kernel, by decide +kernel⟩

end OneLine

end Scanner
end Ambient
