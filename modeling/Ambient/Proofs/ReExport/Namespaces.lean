import Ambient.Parse
import Ambient.Proofs.Declaration.ShortName
import Ambient.Proofs.ReExport.Entries
import Ambient.Proofs.ReExport.Sites
import Ambient.Proofs.Scanner.Heading
import Ambient.Proofs.Text.Lines

/-!
# Two readings of a namespace

The scanner knows its namespace by headings, the groups know theirs by marks, and the two are not the same. A
mark need not stand in front of its line, so prose can hold one; and a heading need not have a blank before
its brace.

* `path?_feedAll`: the scanner is in the namespace of the latest heading;
* `NamespacesAgree t`: every group is given the namespace in which the scanner is behind the group's line;
* `Plain`: a line without the word `namespace`, or a heading with one space before the name and one or more
  blanks, a space first, behind it. On such a line the marks are the headings;
* `namespacesAgree_iff`: the readings agree exactly if the last mark before each group names the latest heading
  down to its line, and that is so wherever all lines are plain;
* `not_namespacesAgree_unspaced`: it is not always so.
-/

namespace Ambient

namespace Scanner

/-! ## 1. The scanner -/

/-- The names of the headings among lines. -/
def headings (lines : List Text) : List Text := lines.filterMap fun line => (Heading.read? line).map Heading.path

theorem path?_feed {s : Scanner} (hs : Sound s) (line : Text) :
    (s.feed line).path? = ((Heading.read? line).map Heading.path).or s.path? := by
  rw [(fed_feed hs line).2]
  unfold pathAfter?
  cases hread : Heading.read? line with
  | none => split <;> rfl
  | some heading =>
    rw [Heading.isSkipped_of_read? hread, if_neg Bool.false_ne_true]
    rfl

/-- **The scanner is in the namespace of the latest heading.** -/
theorem path?_feedAll (lines : List Text) : (fresh.feedAll lines).path? = (headings lines).getLast? := by
  suffices h : ∀ {s : Scanner}, Sound s → (s.feedAll lines).path? = (headings lines).getLast?.or s.path? by
    rw [h sound_fresh]
    exact Option.or_none
  induction lines with
  | nil => exact fun _ => rfl
  | cons line lines ih =>
    intro s hs
    show ((s.feed line).feedAll lines).path? = _
    rw [ih (hs.feed line), path?_feed hs]
    unfold headings
    rw [List.filterMap_cons]
    cases Heading.read? line with
    | none => rfl
    | some heading =>
      simp only [Option.map_some, Option.some_or, List.getLast?_cons]
      cases (lines.filterMap fun line => (Heading.read? line).map Heading.path).getLast? <;> rfl

end Scanner

namespace ReExport

/-! ## 2. Agreement -/

/-- The lines of a text down to the one on which a group begins. -/
def Site.lines (t : Text) (s : Site) : List Text := (Text.lines t).take (Text.lineFeeds s.before + 1)

/-- The namespace in which the scanner is behind the line of a group. -/
def Site.path? (t : Text) (s : Site) : Option Text := (Scanner.fresh.feedAll (s.lines t)).path?

/-- **The two readings agree**: every declaration of a group is in the scanner's namespace. -/
def NamespacesAgree (t : Text) : Prop :=
  ∀ s ∈ sites (normalise t), ∀ d ∈ s.declarations, s.path? (normalise t) = some d.path

instance (t : Text) : Decidable (NamespacesAgree t) := inferInstanceAs (Decidable (∀ _ ∈ _, _))

section Agreement

variable {t : Text} {s : Site}

/-- A group with an owner and an entry makes a declaration, and all that it makes have the owner's name. -/
theorem forall_path_iff {p : Text → Prop} :
    (∀ d ∈ s.declarations, p d.path) ↔ (entries s.list ≠ [] → ∀ path ∈ s.owner?, p path) := by
  unfold Site.declarations Site.group?
  cases s.owner? with
  | none => simp
  | some path =>
    rw [Option.map_some, Option.toList_some, List.flatMap_singleton]
    constructor
    · intro h hentries owner howner
      obtain rfl := Option.some.inj howner
      have hne : (Group.declarations ⟨path, s.list⟩) ≠ [] := by
        unfold Group.declarations
        split
        · exact absurd ‹_› hentries
        · exact List.cons_ne_nil _ _
        · intro hnil
          rw [List.mapIdx_eq_nil_iff] at hnil
          exact hentries hnil
      obtain ⟨d, hd⟩ := List.exists_mem_of_ne_nil _ hne
      have hpath := h d hd
      rw [(mem_declarations hd).1] at hpath
      exact hpath
    · intro h d hd
      have hentries : entries s.list ≠ [] := by
        intro hnil
        unfold Group.declarations at hd
        rw [hnil] at hd
        exact List.not_mem_nil hd
      rw [(mem_declarations hd).1]
      exact h hentries path rfl

/-- Agreement, group by group. -/
theorem namespacesAgree_of_owner :
    NamespacesAgree t ↔ ∀ s ∈ sites (normalise t), entries s.list ≠ [] → ∀ path ∈ s.owner?,
      (Scanner.headings (s.lines (normalise t))).getLast? = some path := by
  unfold NamespacesAgree Site.path?
  refine forall_congr' fun s => imp_congr_right fun _ => ?_
  rw [Scanner.path?_feedAll]
  exact forall_path_iff (p := fun path => (Scanner.headings (s.lines (normalise t))).getLast? = some path)

end Agreement

/-! ## 3. Plain lines -/

/-- **A line that both passes read alike**, with the name that it gives. -/
inductive Plain (line : Text) : Option Text → Prop where
  /-- The word `namespace` does not stand in it. -/
  | silent (h : Text.has "namespace".toList line = false) : Plain line none
  /-- It is a heading with one space before the name, and a space, perhaps further blanks, behind it. -/
  | heading {before name gap rest : Text}
      (hline : line = before ++ ("namespace ".toList ++ (name ++ ' ' :: (gap ++ '{' :: rest))))
      (hbefore : (Text.words before).all Heading.modifiers.contains = true)
      (hne : name ≠ []) (hname : ∀ c ∈ name, (isWordChar c || c == '.') = true)
      (hgap : ∀ c ∈ gap, isBlank c = true)
      (hrest : Text.has "namespace".toList rest = false) : Plain line (some name)

section Characters

theorem not_mem_of_modifiers {before : Text} (h : (Text.words before).all Heading.modifiers.contains = true) :
    'n' ∉ before ∧ '{' ∉ before := by
  have hno : ∀ w ∈ Heading.modifiers, 'n' ∉ w ∧ '{' ∉ w := by decide
  have hmem : ∀ c, isBlank c = false → c ∈ before → ∃ w ∈ Heading.modifiers, c ∈ w := by
    intro c hc hbefore
    obtain ⟨w, hw, hcw⟩ := Text.exists_mem_words hbefore hc
    exact ⟨w, List.contains_iff_mem.mp (List.all_eq_true.mp h w hw), hcw⟩
  constructor
  · intro hn
    obtain ⟨w, hw, hcw⟩ := hmem 'n' (by decide) hn
    exact (hno w hw).1 hcw
  · intro hbrace
    obtain ⟨w, hw, hcw⟩ := hmem '{' (by decide) hbrace
    exact (hno w hw).2 hcw

theorem heading_word : "namespace ".toList = 'n' :: "amespace ".toList := by decide

theorem isNamePart_brace : (isWordChar '{' || '{' == '.') = false := by decide +kernel

theorem isNamePart_space : (isWordChar ' ' || ' ' == '.') = false := isNamePart_of_isBlank (by decide)

end Characters

section Marks

variable {w l name gap rest : Text}

/-- A word that does not stand in a text begins nowhere in it, if it cannot go on behind it. -/
theorem isPrefixOf?_of_has (hw : w ≠ []) (h : Text.has w l = false) (hrest : ∀ c ∈ rest.head?, c ∉ w) :
    List.isPrefixOf? w (l ++ rest) = none := by
  by_contra hsome
  obtain ⟨behind, hbehind⟩ := Option.ne_none_iff_exists'.mp hsome
  have hin : ∀ x, l ≠ w ++ x := by
    rintro x rfl
    unfold Text.has at h
    rw [Text.cut?_self hw] at h
    cases h
  rcases List.append_eq_append_iff.mp (Text.eq_of_isPrefixOf? hbehind) with ⟨x, hx, hgo⟩ | ⟨x, hl, -⟩
  · cases x with
    | nil => exact hin [] (by rw [hx, List.append_nil, List.append_nil])
    | cons c x =>
      refine hrest c (by rw [hgo]; rfl) ?_
      rw [hx]
      exact List.mem_append_right _ List.mem_cons_self
  · exact hin x hl

theorem has_of_cons {c : Char} (h : Text.has w (c :: l) = false) : Text.has w l = false := by
  unfold Text.has at h ⊢
  rw [Option.isSome_eq_false_iff] at h ⊢
  cases hc : List.isPrefixOf? w (c :: l) with
  | some behind =>
    rw [Text.cut?_cons_of_some hc] at h
    cases h
  | none =>
    rw [Text.cut?_cons_of_none hc, Option.isNone_map] at h
    exact h

/-- **No mark begins where the word does not stand.** -/
theorem marksIn_of_silent (h : Text.has "namespace".toList l = false) (hrest : ∀ c ∈ rest.head?, c = '\n') :
    marksIn l rest = [] := by
  have hfeed : ∀ c ∈ rest.head?, c ∉ "namespace".toList := by
    intro c hc
    rw [hrest c hc]
    decide
  induction l with
  | nil => rfl
  | cons c l ih =>
    have hno := isPrefixOf?_of_has (by decide) h hfeed
    have hmark : markAt? (c :: (l ++ rest)) = none := by
      unfold markAt?
      rw [← List.cons_append, hno]
      rfl
    rw [marksIn, hmark, ih (has_of_cons h)]
    rfl

/-- The mark of a heading. -/
theorem markAt?_heading (hne : name ≠ []) (hname : ∀ c ∈ name, (isWordChar c || c == '.') = true)
    (hgap : ∀ c ∈ gap, isBlank c = true) (rest : Text) :
    markAt? ("namespace ".toList ++ (name ++ ' ' :: (gap ++ '{' :: rest))) = some name := by
  have hword : "namespace ".toList = "namespace".toList ++ [' '] := by decide
  have hgaps : ∀ c ∈ ' ' :: gap, isBlank c = true := List.forall_mem_cons.mpr ⟨rfl, hgap⟩
  refine markAt?_iff.mpr ⟨_, rest, ⟨[' '], ' ' :: gap, rfl, ⟨List.cons_ne_nil _ _, List.forall_mem_singleton.mpr rfl⟩,
    ⟨hne, hname⟩, List.cons_ne_nil _ _, hgaps⟩, ?_⟩
  rw [hword]
  simp only [List.append_assoc, List.cons_append]

/-- **No mark begins in the name of a heading**: if the word stands in it, no name follows the word. -/
theorem marksIn_name (hname : ∀ c ∈ name, (isWordChar c || c == '.') = true)
    (hgap : ∀ c ∈ gap, isBlank c = true) : marksIn name (' ' :: (gap ++ '{' :: rest)) = [] := by
  induction name with
  | nil => rfl
  | cons c name ih =>
    have hmark : markAt? ((c :: name) ++ ' ' :: (gap ++ '{' :: rest)) = none := by
      by_contra hsome
      obtain ⟨inner, hinner⟩ := Option.ne_none_iff_exists'.mp hsome
      obtain ⟨front, behind, hhead, htext⟩ := markAt?_iff.mp hinner
      have hgaps : ∀ c ∈ ' ' :: gap, isBlank c = true := List.forall_mem_cons.mpr ⟨by decide, hgap⟩
      have hbrace : '{' ∉ c :: name := fun hm => Bool.false_ne_true (isNamePart_brace.symm.trans (hname _ hm))
      have hsplit : (c :: name) ++ ' ' :: (gap ++ '{' :: rest) = ((c :: name) ++ ' ' :: gap) ++ '{' :: rest := by simp
      rw [hsplit] at htext
      obtain ⟨hfront, -⟩ := Text.append_cons_inj
        (List.not_mem_append hbrace (Text.notMem_of_blank hgaps (by decide))) hhead.notMem.1 htext
      exact hhead.ne_append (fun d hd => isBlank_of_isNamePart (hname d hd)) hgaps hfront.symm
    rw [marksIn, ih (List.forall_mem_cons.mp hname).2, ← List.cons_append, hmark]
    rfl

/-- The heading, as the scanner reads it. -/
theorem read?_heading {before : Text} (hbefore : (Text.words before).all Heading.modifiers.contains = true)
    (hne : name ≠ []) (hname : ∀ c ∈ name, (isWordChar c || c == '.') = true) :
    (Heading.read? (before ++ ("namespace ".toList ++ (name ++ ' ' :: (gap ++ '{' :: rest))))).map Heading.path =
      some name := by
  have hcut : Text.cut? "namespace ".toList (before ++ ("namespace ".toList ++ (name ++ ' ' :: (gap ++ '{' :: rest)))) =
      some (before, name ++ ' ' :: (gap ++ '{' :: rest)) := by
    refine Text.cut?_append_self (by decide) ?_ _
    rw [heading_word]
    exact Text.startsNowhere_of_not_mem (not_mem_of_modifiers hbefore).1
  have hspace : ∀ c ∈ name, (c != ' ') = true := by
    intro c hc
    rw [bne_iff_ne]
    rintro rfl
    exact absurd (isNamePart_space.symm.trans (hname _ hc)) Bool.false_ne_true
  have hbrace : ∀ c ∈ name, (c == '{') = false := by
    intro c hc
    rw [beq_eq_false_iff_ne]
    rintro rfl
    exact absurd (isNamePart_brace.symm.trans (hname _ hc)) Bool.false_ne_true
  have htake := Text.takeWhile_append_cons (· != ' ') (c := ' ') hspace (by decide) (gap ++ '{' :: rest)
  have htrim : Text.trim (Text.dropEndWhile (· == '{') name) = name := by
    rw [Text.dropEndWhile_of_none hbrace, Text.trim_of_no_blank fun c hc => isBlank_of_isNamePart (hname c hc)]
  unfold Heading.read?
  rw [hcut]
  simp only [hbefore, Bool.not_true, Bool.false_eq_true, if_false, htake, htrim]
  rw [if_neg (by rw [List.isEmpty_iff]; exact hne)]
  rfl

theorem read?_of_silent (h : Text.has "namespace".toList l = false) : Heading.read? l = none := by
  have hword : "namespace ".toList = "namespace".toList ++ [' '] := by decide
  unfold Heading.read?
  cases hcut : Text.cut? "namespace ".toList l with
  | none => rfl
  | some pieces =>
    obtain ⟨before, behind⟩ := pieces
    have hl : l = before ++ ("namespace".toList ++ (' ' :: behind)) := by
      rw [Text.eq_of_cut? hcut, hword, List.append_assoc, List.append_assoc]
      rfl
    obtain ⟨_, _, hfound⟩ := Text.exists_cut? (w := "namespace".toList) (by decide) before (' ' :: behind)
    unfold Text.has at h
    rw [hl, hfound] at h
    cases h

end Marks

section PlainLines

variable {line rest : Text} {name? : Option Text}

/-- The scanner reads the name of a plain line. -/
theorem Plain.read? (h : Plain line name?) : (Heading.read? line).map Heading.path = name? := by
  cases h with
  | silent h =>
    rw [read?_of_silent h]
    rfl
  | heading hline hbefore hne hname hgap hrest =>
    rw [hline]
    exact read?_heading hbefore hne hname

/-- **And so do the marks**, whatever follows the line. -/
theorem Plain.marksIn (h : Plain line name?) (hrest : ∀ c ∈ rest.head?, c = '\n') :
    marksIn line rest = name?.toList := by
  cases h with
  | silent h => exact marksIn_of_silent h hrest
  | @heading before name gap tail hline hbefore hne hname hgap htail =>
    have hmark : markAt? ('n' :: (("amespace ".toList ++ (name ++ ' ' :: (gap ++ '{' :: tail))) ++ rest)) =
        some name := by
      have h := markAt?_heading hne hname hgap (tail ++ rest)
      rw [heading_word] at h
      simpa using h
    have hbehind : marksIn (' ' :: (gap ++ '{' :: tail)) rest = [] := by
      have hsplit : ' ' :: (gap ++ '{' :: tail) = (' ' :: (gap ++ ['{'])) ++ tail := by simp
      have hno : 'n' ∉ ' ' :: (gap ++ ['{']) := by
        have hn : 'n' ∉ gap := fun hn => absurd (hgap _ hn) (by decide)
        simp [hn]
      rw [hsplit, marksIn_append, marksIn_of_not_mem hno, marksIn_of_silent htail hrest]
      rfl
    have hname' : marksIn name (' ' :: (gap ++ '{' :: tail) ++ rest) = [] := by
      rw [List.cons_append, List.append_assoc, List.cons_append]
      exact marksIn_name hname hgap
    rw [hline, heading_word, marksIn_append, marksIn_of_not_mem (not_mem_of_modifiers hbefore).1, List.cons_append,
      ReExport.marksIn, hmark, marksIn_append, marksIn_of_not_mem (by decide), marksIn_append, hname', hbehind]
    rfl

/-- Two characters, each the first of its kind, do not stand at one place. -/
theorem append_cons_ne {c d : Char} {a b : Text} (hc : c ∉ b) (hd : d ∉ a) (hcd : c ≠ d) (x y : Text) :
    a ++ c :: x ≠ b ++ d :: y := by
  intro h
  rcases List.append_eq_append_iff.mp h with ⟨m, rfl, hm⟩ | ⟨m, rfl, hm⟩
  · cases m with
    | nil => exact hcd (List.cons.inj hm).1
    | cons e m => exact hc (List.mem_append_right _ ((List.cons.inj hm).1 ▸ List.mem_cons_self))
  · cases m with
    | nil => exact hcd (List.cons.inj hm).1.symm
    | cons e m => exact hd (List.mem_append_right _ ((List.cons.inj hm).1 ▸ List.mem_cons_self))

/-- **No group begins before an `n` with no brace between.** -/
theorem groupAt?_of_letter {m : Text} (hm : '{' ∉ m) (x : Text) : groupAt? (m ++ 'n' :: x) = none := by
  by_contra hsome
  obtain ⟨p, hp⟩ := Option.ne_none_iff_exists'.mp hsome
  obtain ⟨front, hfront, hexport, -⟩ := groupAt?_iff.mp hp
  exact append_cons_ne (hfront.notMem (by decide) (by decide)) hm (by decide) _ _ hexport

/-- **A group begins behind the heading of its line**, so the heading's mark stands before it. -/
theorem Plain.marksIn_before {left right behind : Text} (h : Plain (left ++ right) name?)
    (hgroup : (groupAt? (right ++ behind)).isSome = true) (hbehind : ∀ c ∈ behind.head?, c = '\n') :
    ReExport.marksIn left (right ++ behind) = name?.toList := by
  have hall := h.marksIn hbehind
  rw [marksIn_append] at hall
  cases h with
  | silent h => exact (List.append_eq_nil_iff.mp hall).1
  | @heading before name gap tail hline hbefore hne hname hgap htail =>
    obtain ⟨hn, hbrace⟩ := not_mem_of_modifiers hbefore
    have hmark := markAt?_heading hne hname hgap (tail ++ behind)
    rw [heading_word, List.cons_append] at hline hmark
    -- the group does not begin in the words before `namespace`, nor with it
    have hnever : ∀ m x, right = m ++ 'n' :: x → '{' ∉ m → False := by
      rintro m x rfl hm
      rw [List.append_assoc, List.cons_append, groupAt?_of_letter hm] at hgroup
      exact Bool.false_ne_true hgroup
    rcases List.append_eq_append_iff.mp hline with ⟨m, hm, hright⟩ | ⟨m, hleft, hm⟩
    · refine (hnever m _ hright fun hmem => hbrace ?_).elim
      rw [hm]
      exact List.mem_append_right _ hmem
    · cases m with
      | nil => exact (hnever [] _ hm.symm List.not_mem_nil).elim
      | cons c m =>
        obtain ⟨hc, hsame⟩ := List.cons.inj hm
        subst hc
        have hmark' : markAt? ('n' :: (m ++ (right ++ behind))) = some name := by
          rw [← hmark, ← List.append_assoc, show m ++ right = _ from hsame.symm]
          simp
        have hleft' : ReExport.marksIn left (right ++ behind) = name :: ReExport.marksIn m (right ++ behind) := by
          rw [hleft, marksIn_append, marksIn_of_not_mem hn, ReExport.marksIn, hmark']
          rfl
        rw [hleft', List.cons_append] at hall
        have hnone := (List.append_eq_nil_iff.mp (List.cons.inj hall).2).1
        rw [hleft', hnone]
        rfl

end PlainLines

/-! ## 4. Plain texts -/

section PlainTexts

variable {t : Text}

/-- The marks of closed lines are their headings. -/
theorem marksIn_closed {ls : List Text} (h : ∀ l ∈ ls, ∃ name?, Plain l name?) (rest : Text) :
    marksIn (ls.flatMap (· ++ ['\n'])) rest = Scanner.headings ls := by
  induction ls with
  | nil => rfl
  | cons l ls ih =>
    obtain ⟨⟨name?, hl⟩, hls⟩ := List.forall_mem_cons.mp h
    have hmarks : marksIn l ('\n' :: (ls.flatMap (· ++ ['\n']) ++ rest)) = name?.toList :=
      hl.marksIn fun c hc => (Option.some.inj hc).symm
    have hfeed : 'n' ∉ ['\n'] := by decide
    rw [List.flatMap_cons, List.append_assoc, marksIn_append, marksIn_append, ih hls, marksIn_of_not_mem hfeed,
      List.append_assoc, List.singleton_append, hmarks]
    unfold Scanner.headings
    rw [List.filterMap_cons, hl.read?]
    cases name? <;> rfl

/-- **Before a group of a plain text the marks are the headings** of the lines down to its own. -/
theorem marksIn_eq_headings {before rest : Text} (h : ∀ line ∈ Text.lines (before ++ rest), ∃ name?, Plain line name?)
    (hgroup : (groupAt? rest).isSome = true) :
    marksIn before rest =
      Scanner.headings ((Text.lines (before ++ rest)).take (Text.lineFeeds before + 1)) := by
  obtain ⟨ls, left, hls, hleft, rfl⟩ := Text.exists_flatMap_feed before
  -- the line of the group, and what follows it
  obtain ⟨right, behind, hrest, hright, hbehind⟩ : ∃ right behind, rest = right ++ behind ∧ '\n' ∉ right ∧
      ∀ c ∈ behind.head?, c = '\n' := by
    refine ⟨rest.takeWhile (· != '\n'), rest.dropWhile (· != '\n'), List.takeWhile_append_dropWhile.symm,
      fun hfeed => absurd (List.mem_takeWhile_imp hfeed) (by decide), fun c hc => ?_⟩
    have hnot := List.head?_dropWhile_not (· != '\n') rest
    rw [hc] at hnot
    simpa using hnot
  subst hrest
  have hown : '\n' ∉ left ++ right := by
    rw [List.mem_append]
    exact not_or.mpr ⟨hleft, hright⟩
  obtain ⟨more, hmore⟩ : ∃ more, Text.lines ((left ++ right) ++ behind) = (left ++ right) :: more := by
    cases behind with
    | nil => exact ⟨[], by rw [List.append_nil, Text.lines_of_not_mem hown]⟩
    | cons c behind =>
      rw [hbehind c rfl, Text.lines_append_feed, Text.lines_of_not_mem hown]
      exact ⟨_, rfl⟩
  have hlines : Text.lines ((ls.flatMap (· ++ ['\n']) ++ left) ++ (right ++ behind)) =
      ls ++ (left ++ right) :: more := by
    rw [List.append_assoc, ← List.append_assoc left, Text.lines_flatMap_feed hls, hmore]
  rw [hlines] at h ⊢
  obtain ⟨name?, hplain⟩ := h (left ++ right) (List.mem_append_right _ List.mem_cons_self)
  rw [Text.lineFeeds_flatMap_feed hls hleft, marksIn_append,
    marksIn_closed fun l hl => h l (List.mem_append_left _ hl), hplain.marksIn_before hgroup hbehind,
    List.take_length_add_append]
  unfold Scanner.headings
  rw [List.filterMap_append]
  congr 1
  show _ = [left ++ right].filterMap _
  rw [List.filterMap_cons, hplain.read?]
  cases name? <;> rfl

end PlainTexts

/-- **The two readings agree** exactly where the last mark before each group that counts names the latest
    heading down to its line; and so they do wherever all lines are plain. -/
theorem namespacesAgree_iff (t : Text) :
    (NamespacesAgree t ↔ ∀ s ∈ sites (normalise t), entries s.list ≠ [] → ∀ path ∈ s.owner?,
      (Scanner.headings (s.lines (normalise t))).getLast? = some path) ∧
    ((∀ line ∈ Text.lines (normalise t), ∃ name?, Plain line name?) → NamespacesAgree t) := by
  refine ⟨namespacesAgree_of_owner, fun h => namespacesAgree_of_owner.mpr fun s hs _ path hpath => ?_⟩
  obtain ⟨hsplit, hgroup⟩ := mem_sites hs
  rw [hsplit] at h
  rw [Site.lines, hsplit, ← marksIn_eq_headings h hgroup]
  exact hpath

/-- A heading and a group, on lines of their own. -/
def spacedHeading : Text := "declare namespace A.B \x7b\n    export \x7b x, y as z \x7d;\n\x7d".toList

theorem namespacesAgree_spacedHeading :
    (declarations (normalise spacedHeading)).map Declaration.path = ["A.B".toList, "A.B".toList] ∧
      (∀ line ∈ Text.lines (normalise spacedHeading), ∃ name?, Plain line name?) ∧
      NamespacesAgree spacedHeading := by
  have hlines : Text.lines (normalise spacedHeading) =
      ["declare namespace A.B \x7b".toList, "    export \x7b x, y as z \x7d;".toList, "\x7d".toList] := by
    decide +kernel
  have hplain : ∀ line ∈ Text.lines (normalise spacedHeading), ∃ name?, Plain line name? := by
    rw [hlines]
    intro line hline
    simp only [List.mem_cons, List.not_mem_nil, or_false] at hline
    rcases hline with rfl | rfl | rfl
    · have hline : "declare namespace A.B \x7b".toList =
          "declare ".toList ++ ("namespace ".toList ++ ("A.B".toList ++ ' ' :: ([] ++ '{' :: []))) := by decide
      have hname : ("A.B".toList.all fun c => isWordChar c || c == '.') = true := by decide +kernel
      exact ⟨_, .heading hline (by decide) (by decide) (List.all_eq_true.mp hname)
        (fun _ h => absurd h List.not_mem_nil) (by decide)⟩
    · exact ⟨none, .silent (by decide)⟩
    · exact ⟨none, .silent (by decide)⟩
  exact ⟨by decide +kernel, hplain, (namespacesAgree_iff spacedHeading).2 hplain⟩

/-- **Without a blank before its brace a heading is no mark**, and the group goes to the namespace before. -/
theorem not_namespacesAgree_unspaced :
    ¬NamespacesAgree "namespace A \x7b\n\x7d\nnamespace B\x7b\n    export \x7b x \x7d;\n\x7d".toList := by
  decide +kernel

/-- A comment can hold a mark. -/
example : ¬NamespacesAgree "namespace A \x7b\n    // see namespace B \x7b\n    export \x7b x \x7d;\n\x7d".toList := by
  decide +kernel

end ReExport
end Ambient
