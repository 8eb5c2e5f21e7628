import Ambient.Parse
import Ambient.Proofs.Scanner.Steps
import Mathlib.Data.List.Forall2
import Mathlib.Logic.ExistsUnique

/-!
# Every line is accounted for

Nothing that reaches a namespace is lost or used twice. Each such text has one FATE, and the fates alone say
which declarations come out:

* `Fares s text fate`: the rules by which a text meets its fate; `existsUnique_fares` says it meets one;
* `Fate.Does`: what happens to the collected sources and to the comment;
* `marks`: the texts in feeding order, each with its fate;
* `blocks`: the declarations as the marks alone tell them. A block begins where a text opens, goes on
  as long as texts join, and has the comment collected since the last block began or a lone brace stood;
* `accounted`: the blocks are the declarations, in order, for every list of lines.

The comment is attached when a declaration closes and `blocks` attaches it when one opens. That both come to
the same is the invariant `Carries`: while a declaration is open no comment is collected.
-/

namespace Ambient

namespace Scanner

/-! ## 1. Fates -/

/-- What becomes of a text. -/
inductive Fate where
  /-- It opens a declaration, and is the first line of its source. -/
  | opens
  /-- It is a further line of the open declaration. -/
  | joins
  /-- It is a line of the comment. -/
  | remarks
  /-- It is dropped. -/
  | passes
  /-- It is dropped, and the comment with it. -/
  | discards
  /-- It stands before the first heading, reaches no namespace, and is a line of the comment. -/
  | early
  deriving DecidableEq

/-- **The rules by which a text meets its fate**, in the state in which it comes. -/
inductive Fares (s : Scanner) (text : Text) : Fate → Prop where
  | opens (h : Opening.opens text = true) : Fares s text .opens
  | joins (h : Opening.opens text = false) (hd : s.draft?.isSome = true) : Fares s text .joins
  | remarks (h : Opening.opens text = false) (hd : s.draft? = none) (hb : Text.allBlank text = false)
      (ht : Text.trim text ≠ ['}']) : Fares s text .remarks
  | passes (hd : s.draft? = none) (hb : Text.allBlank text = true) : Fares s text .passes
  | discards (hd : s.draft? = none) (ht : Text.trim text = ['}']) : Fares s text .discards

/-- The fate of a text that reaches the namespace. -/
def fate (s : Scanner) (text : Text) : Fate :=
  if Opening.opens text then .opens
  else if s.draft?.isSome then .joins
  else if Text.trim text = ['}'] then .discards
  else if Text.allBlank text then .passes
  else .remarks

section Fates

variable {s : Scanner} {text : Text}

theorem fate_opens (h : Opening.opens text = true) : s.fate text = .opens := if_pos h

theorem fate_joins (h : Opening.opens text = false) (hd : s.draft?.isSome = true) :
    s.fate text = .joins := by
  unfold fate
  rw [h, if_neg Bool.false_ne_true, if_pos hd]

theorem fate_between (h : Opening.opens text = false) (hd : s.draft? = none) :
    s.fate text =
      if Text.trim text = ['}'] then .discards else if Text.allBlank text then .passes else .remarks := by
  unfold fate
  rw [h, hd]
  rfl

theorem fares_fate : Fares s text (s.fate text) := by
  cases ho : Opening.opens text with
  | true =>
    rw [fate_opens ho]
    exact .opens ho
  | false =>
    cases hd : s.draft? with
    | some draft =>
      have hsome : s.draft?.isSome = true := by rw [hd]; rfl
      rw [fate_joins ho hsome]
      exact .joins ho hsome
    | none =>
      rw [fate_between ho hd]
      split
      · exact .discards hd ‹_›
      · rename_i ht
        cases hb : Text.allBlank text with
        | true => exact .passes hd hb
        | false => exact .remarks ho hd hb ht

theorem Fares.eq_fate {fate : Fate} (h : Fares s text fate) : fate = s.fate text := by
  cases h with
  | opens h => exact (fate_opens h).symm
  | joins h hd => exact (fate_joins h hd).symm
  | remarks h hd hb ht => rw [fate_between h hd, if_neg ht, hb, if_neg Bool.false_ne_true]
  | passes hd hb =>
    have ht : Text.trim text ≠ ['}'] := by
      intro ht
      rw [Text.allBlank_of_brace ht] at hb
      exact Bool.false_ne_true hb
    rw [fate_between (Opening.opens_of_allBlank hb) hd, if_neg ht, if_pos hb]
  | discards hd ht => rw [fate_between (Opening.opens_of_brace ht) hd, if_pos ht]

/-- **Every text meets exactly one fate.** -/
theorem existsUnique_fares (s : Scanner) (text : Text) : ∃! fate, Fares s text fate :=
  ⟨s.fate text, fares_fate, fun _ h => h.eq_fate⟩

theorem fate_ne_joins (hd : s.draft? = none) : s.fate text ≠ .joins := by
  intro h
  have hf : Fares s text .joins := h ▸ fares_fate
  cases hf with
  | joins _ hsome =>
    rw [hd] at hsome
    exact Bool.false_ne_true hsome

end Fates

/-! ## 2. What a fate does -/

/-- All source collected so far: that of the closed declarations, then that of the open one. -/
def written (s : Scanner) : Text :=
  s.closed.flatMap Declaration.source ++ (s.draft?.map Draft.source).getD []

/-- What becomes of the sources and the comment when a text meets its fate between `s` and `s'`. -/
def Fate.Does (s s' : Scanner) (text : Text) : Fate → Prop
  | .opens | .joins => s'.written = s.written ++ Draft.sourceLine text
  | .remarks | .early => s'.written = s.written ∧ s'.comment = s.comment ++ remarkLine text
  | .passes => s'.written = s.written ∧ s'.comment = s.comment
  | .discards => s'.written = s.written ∧ s'.comment = []

theorem Took.written {closed : List Declaration} {comment text : Text} {draft : Draft} {s : Scanner}
    (h : Took closed comment draft text s) :
    s.written = closed.flatMap Declaration.source ++ draft.source ++ Draft.sourceLine text := by
  cases h with
  | stays path? hc => simp [Scanner.written]
  | closes path? => simp [Scanner.written, Draft.finish]

theorem close_written (s : Scanner) : s.close.closed.flatMap Declaration.source = s.written := by
  cases hd : s.draft? with
  | none => simp [close_of_none hd, written, hd]
  | some draft => simp [close_of_some hd, written, hd, Draft.finish]

theorem written_of_some {s : Scanner} {draft : Draft} (h : s.draft? = some draft) :
    s.written = s.closed.flatMap Declaration.source ++ draft.source := by
  unfold written
  rw [h]
  rfl

/-- A text that is handed to the namespace does what its fate says. -/
theorem does_fate_member {s : Scanner} (hs : Sound s) {path : Text} (hp : s.path? = some path) (text : Text) :
    (s.fate text).Does s (s.member text) text := by
  cases ho : Opening.opens text with
  | true =>
    rw [fate_opens ho]
    obtain ⟨draft, hdraft⟩ := Opening.exists_first? ho path
    have hsource : draft.source = [] := (Opening.first?_start hdraft).2
    have htook := (member_opens hp hdraft).written
    rw [close_written, hsource, List.append_nil] at htook
    exact htook
  | false =>
    cases hd : s.draft? with
    | some draft =>
      rw [fate_joins ho (by rw [hd]; rfl)]
      show (s.member text).written = s.written ++ Draft.sourceLine text
      rw [written_of_some hd]
      exact (member_joins hs hd ho).written
    | none =>
      rw [fate_between ho hd, member_between hd ho]
      by_cases ht : Text.trim text = ['}']
      · rw [if_pos ht, if_pos ht]
        exact ⟨rfl, rfl⟩
      · rw [if_neg ht, if_neg ht]
        cases hb : Text.allBlank text with
        | true =>
          rw [remark_of_blank hb]
          exact ⟨rfl, rfl⟩
        | false =>
          rw [remark_of_not_blank hb]
          exact ⟨rfl, rfl⟩

/-- **Every text that reaches a namespace does what its fate says.** -/
theorem does_fate {s : Scanner} (hs : Sound s) {line text : Text} (h : s.effective? line = some text) :
    (s.fate text).Does s (s.feed line) text := by
  obtain ⟨path, hp⟩ := Option.isSome_iff_exists.mp (pathAfter?_isSome h)
  have hset : Sound { s with path? := s.pathAfter? line } := hs.setPath pathAfter?_isSome_of_isSome
  rw [feed_of_effective h]
  -- fates and their effects do not look at the namespace
  exact does_fate_member hset hp text

/-! ## 3. Marks and blocks -/

/-- A text with its fate. -/
structure Mark where
  fate : Fate
  text : Text

/-- Is the text a line of some source? -/
def Mark.isSource (m : Mark) : Bool := m.fate = .opens || m.fate = .joins

/-- The mark that a line leaves. -/
def mark? (s : Scanner) (line : Text) : Option Mark :=
  match s.effective? line with
  | some text => some ⟨s.fate text, text⟩
  | none => if s.isEarly line && !Text.allBlank line then some ⟨.early, line⟩ else none

/-- The marks that lines leave, in feeding order. -/
def marks (s : Scanner) : List Text → List Mark
  | [] => []
  | line :: lines => (s.mark? line).toList ++ marks (s.feed line) lines

/-- A declaration as the marks tell it. -/
structure Block where
  comment : List Text
  lines : List Text

/-- The texts that join before anything else happens. -/
def joined (ms : List Mark) : List Text := (ms.takeWhile fun m => m.fate = .joins).map Mark.text

/-- **The declarations that the marks tell of**, with the comment lines already collected. -/
def blocks (pending : List Text) : List Mark → List Block
  | [] => []
  | m :: ms =>
    match m.fate with
    | .opens => ⟨pending, m.text :: joined ms⟩ :: blocks [] ms
    | .remarks | .early => blocks (pending ++ [m.text]) ms
    | .discards => blocks [] ms
    | .joins | .passes => blocks pending ms

/-- **A block is made into a declaration**: its first line is the line that opened the declaration, its lines
    are the source and its comment lines the comment. -/
structure Block.Makes (b : Block) (d : Declaration) : Prop where
  opening : ∃ line lines draft, b.lines = line :: lines ∧ Opening.first? d.path line = some draft ∧
    d.kind = draft.kind ∧ d.endMarker = draft.endMarker
  source : d.source = b.lines.flatMap Draft.sourceLine
  comment : d.comment = b.comment.flatMap remarkLine

/-- A block with further lines. -/
def Block.extend (b : Block) (lines : List Text) : Block := ⟨b.comment, b.lines ++ lines⟩

theorem Block.extend_nil (b : Block) : b.extend [] = b := by
  unfold Block.extend
  rw [List.append_nil]

theorem Block.extend_extend (b : Block) (xs ys : List Text) :
    (b.extend xs).extend ys = b.extend (xs ++ ys) := by
  unfold Block.extend
  rw [List.append_assoc]

/-- A line more in the draft is a line more in the block. -/
theorem Block.Makes.push {b : Block} {draft : Draft} {comment : Text} (h : b.Makes (draft.finish comment))
    (line : Text) : (b.extend [line]).Makes ((draft.push line).finish comment) := by
  obtain ⟨first, lines, start, hlines, hstart, hkind, hmarker⟩ := h.opening
  refine ⟨⟨first, lines ++ [line], start, ?_, ?_, ?_, ?_⟩, ?_, h.comment⟩
  · rw [Block.extend, hlines, List.cons_append]
  · show Opening.first? (draft.push line).path first = some start
    rw [Draft.push_path]
    exact hstart
  · exact (Draft.push_kind draft line).trans hkind
  · exact (Draft.push_endMarker draft line).trans hmarker
  · have hsource : draft.source = b.lines.flatMap Draft.sourceLine := h.source
    show (draft.push line).source = (b.lines ++ [line]).flatMap Draft.sourceLine
    rw [Draft.push_source, hsource, List.flatMap_append, List.flatMap_singleton]

/-- The block of a declaration that has just been opened. -/
theorem Block.makes_opening {path line : Text} {draft : Draft} (pending : List Text)
    (h : Opening.first? path line = some draft) :
    Block.Makes ⟨pending, [line]⟩ ((draft.push line).finish (pending.flatMap remarkLine)) := by
  obtain ⟨hpath, hsource⟩ := Opening.first?_start h
  refine ⟨⟨line, [], draft, rfl, ?_, Draft.push_kind draft line, Draft.push_endMarker draft line⟩, ?_, rfl⟩
  · show Opening.first? (draft.push line).path line = some draft
    rw [Draft.push_path, hpath]
    exact h
  · show (draft.push line).source = [line].flatMap Draft.sourceLine
    rw [Draft.push_source, hsource, List.flatMap_singleton]
    rfl

/-! ## 4. The scanner keeps the books -/

/-- **What the scanner carries** from line to line: comment lines between two declarations, or an open block,
    whose comment is on record and to which no comment line is added. -/
inductive Carries (s : Scanner) : List Text → Option Block → Prop where
  | between (pending : List Text) (hd : s.draft? = none) (hc : s.comment = pending.flatMap remarkLine) :
      Carries s pending none
  | inside (b : Block) (draft : Draft) (hd : s.draft? = some draft) (hb : b.Makes (draft.finish s.comment)) :
      Carries s [] (some b)

/-- The blocks still to come, the open one first. -/
def blocksFrom (pending : List Text) : Option Block → List Mark → List Block
  | none, ms => blocks pending ms
  | some b, ms => b.extend (joined ms) :: blocks [] ms

/-- The source lines that are told of already. -/
def openLines (open? : Option Block) : List Text := (open?.map Block.lines).getD []

/-- **The books after a line**: the declarations closed with it, which are the blocks `bs`, what is carried
    on, and the marks that account for both. The marks still to come must not join where nothing is open. -/
def Balanced (s s' : Scanner) (pending : List Text) (open? : Option Block) (mark? : Option Mark) : Prop :=
  ∃ bs ds pending' open?', s'.closed = s.closed ++ ds ∧ List.Forall₂ Block.Makes bs ds ∧
    Carries s' pending' open?' ∧
    bs.flatMap Block.lines ++ openLines open?' =
      openLines open? ++ (mark?.toList.filter Mark.isSource).map Mark.text ∧
    ∀ ms, (open?' = none → joined ms = []) →
      blocksFrom pending open? (mark?.toList ++ ms) = bs ++ blocksFrom pending' open?' ms

section Books

variable {s : Scanner} {pending : List Text} {open? : Option Block} {line text path : Text}

/-- The open declaration closes, and with it its block. -/
theorem Carries.close (h : Carries s pending open?) :
    ∃ bs ds, s.close.closed = s.closed ++ ds ∧ List.Forall₂ Block.Makes bs ds ∧ bs = open?.toList ∧
      Carries s.close pending none := by
  cases h with
  | between _ hd hc =>
    rw [close_of_none hd]
    exact ⟨[], [], (List.append_nil _).symm, .nil, rfl, .between pending hd hc⟩
  | inside b draft hd hb =>
    rw [close_of_some hd]
    exact ⟨[b], [draft.finish s.comment], rfl, .cons hb .nil, rfl, .between [] rfl rfl⟩

/-- A draft that has taken its first line is a block of its own. -/
theorem Took.balanced_opening {draft : Draft} {s' : Scanner} (hc : Carries s pending none)
    (hdraft : Opening.first? path text = some draft) (h : Took s.closed s.comment draft text s') :
    Balanced s s' pending none (some ⟨.opens, text⟩) := by
  obtain ⟨_, _, hcomment⟩ := hc
  have hmakes := Block.makes_opening pending hdraft
  rw [← hcomment] at hmakes
  cases h with
  | stays path? hinc =>
    refine ⟨[], [], [], some ⟨pending, [text]⟩, (List.append_nil _).symm, .nil,
      .inside _ _ rfl hmakes, rfl, fun ms _ => rfl⟩
  | closes path? =>
    refine ⟨[⟨pending, [text]⟩], [(draft.push text).finish s.comment], [], none, rfl, .cons hmakes .nil,
      .between [] rfl rfl, rfl, fun ms hms => ?_⟩
    show (⟨pending, text :: joined ms⟩ : Block) :: blocks [] ms = ⟨pending, [text]⟩ :: blocks [] ms
    rw [hms rfl]

/-- A line that joins goes to the open block. -/
theorem Took.balanced_joining {b : Block} {draft : Draft} {s' : Scanner}
    (hb : b.Makes (draft.finish s.comment)) (h : Took s.closed s.comment draft text s') :
    Balanced s s' [] (some b) (some ⟨.joins, text⟩) := by
  have hmakes := hb.push text
  have hjoined : ∀ ms, blocksFrom [] (some b) (⟨.joins, text⟩ :: ms) =
      (b.extend [text]).extend (joined ms) :: blocks [] ms := by
    intro ms
    rw [Block.extend_extend]
    rfl
  cases h with
  | stays path? hinc =>
    exact ⟨[], [], [], some (b.extend [text]), (List.append_nil _).symm, .nil, .inside _ _ rfl hmakes, rfl,
      fun ms _ => hjoined ms⟩
  | closes path? =>
    refine ⟨[b.extend [text]], [(draft.push text).finish s.comment], [], none, rfl, .cons hmakes .nil,
      .between [] rfl rfl, ?_, fun ms hms => ?_⟩
    · show (b.lines ++ [text] ++ []) ++ [] = _
      rw [List.append_nil, List.append_nil]
      rfl
    · rw [show (some (⟨.joins, text⟩ : Mark)).toList ++ ms = ⟨.joins, text⟩ :: ms from rfl, hjoined, hms rfl,
        Block.extend_nil]
      rfl

/-- Nothing but the comment changes, and it as the mark says. -/
theorem balanced_between {s' : Scanner} {m? : Option Mark} (pending' : List Text) (hd : s'.draft? = none)
    (hclosed : s'.closed = s.closed) (hc : s'.comment = pending'.flatMap remarkLine)
    (hsource : (m?.toList.filter Mark.isSource).map Mark.text = [])
    (hms : ∀ ms, blocks pending (m?.toList ++ ms) = blocks pending' ms) :
    Balanced s s' pending none m? := by
  refine ⟨[], [], pending', none, ?_, .nil, .between pending' hd hc, ?_, fun ms _ => hms ms⟩
  · rw [hclosed, List.append_nil]
  · rw [hsource]
    rfl

/-- A line that leaves the comment and the declarations alone. -/
theorem Carries.balanced_idle (h : Carries s pending open?) (path? : Option Text) :
    Balanced s { s with path? := path? } pending open? none := by
  refine ⟨[], [], pending, open?, (List.append_nil _).symm, .nil, ?_, (List.append_nil _).symm,
    fun ms _ => rfl⟩
  cases h with
  | between _ hd hc => exact .between pending hd hc
  | inside b draft hd hb => exact .inside b draft hd hb

theorem flatMap_remarkLine_concat (pending : List Text) (line : Text) :
    (pending ++ [line]).flatMap remarkLine = pending.flatMap remarkLine ++ remarkLine line := by
  rw [List.flatMap_append, List.flatMap_singleton]

/-- **A text between two declarations that opens none.** -/
theorem balanced_member_between (hd : s.draft? = none) (hc : s.comment = pending.flatMap remarkLine)
    (ho : Opening.opens text = false) :
    Balanced s (s.member text) pending none (some ⟨s.fate text, text⟩) := by
  rw [fate_between ho hd, member_between hd ho]
  by_cases ht : Text.trim text = ['}']
  · rw [if_pos ht, if_pos ht]
    exact balanced_between [] hd rfl rfl rfl fun ms => rfl
  · rw [if_neg ht, if_neg ht]
    cases hb : Text.allBlank text with
    | true =>
      rw [remark_of_blank hb, if_pos rfl]
      exact balanced_between pending hd rfl hc rfl fun ms => rfl
    | false =>
      rw [remark_of_not_blank hb, if_neg Bool.false_ne_true]
      refine balanced_between (pending ++ [text]) hd rfl ?_ rfl fun ms => rfl
      rw [flatMap_remarkLine_concat, ← hc]

/-- **A text that reaches a namespace.** -/
theorem Carries.balanced_member (h : Carries s pending open?) (hs : Sound s) (hp : s.path? = some path) :
    Balanced s (s.member text) pending open? (some ⟨s.fate text, text⟩) := by
  cases ho : Opening.opens text with
  | true =>
    rw [fate_opens ho]
    obtain ⟨draft, hdraft⟩ := Opening.exists_first? ho path
    obtain ⟨bs₀, ds₀, hclosed₀, hmakes₀, hbs₀, hclose⟩ := h.close
    obtain ⟨bs, ds, pending', open?', hclosed, hmakes, hcarries, hlines, hms⟩ :=
      (member_opens hp hdraft).balanced_opening hclose hdraft
    refine ⟨bs₀ ++ bs, ds₀ ++ ds, pending', open?', ?_, List.rel_append hmakes₀ hmakes, hcarries, ?_,
      fun ms hjoin => ?_⟩
    · rw [hclosed, hclosed₀, List.append_assoc]
    · rw [List.flatMap_append, List.append_assoc, hlines, hbs₀]
      cases open? <;> simp [openLines]
    · rw [List.append_assoc, ← hms ms hjoin, hbs₀]
      cases h with
      | between => rfl
      | inside b =>
        show b.extend [] :: _ = b :: _
        rw [Block.extend_nil]
        rfl
  | false =>
    cases h with
    | between _ hd hc => exact balanced_member_between hd hc ho
    | inside b draft hd hb =>
      rw [fate_joins ho (by rw [hd]; rfl)]
      exact (member_joins hs hd ho).balanced_joining hb

/-- **Every line keeps the books balanced.** -/
theorem Carries.balanced_feed (h : Carries s pending open?) (hs : Sound s) :
    Balanced s (s.feed line) pending open? (s.mark? line) := by
  unfold mark?
  cases he : s.effective? line with
  | some text =>
    obtain ⟨path, hp⟩ := Option.isSome_iff_exists.mp (pathAfter?_isSome he)
    have hset : Sound { s with path? := s.pathAfter? line } := hs.setPath pathAfter?_isSome_of_isSome
    have hcarries : Carries { s with path? := s.pathAfter? line } pending open? := by
      cases h with
      | between _ hd hc => exact .between pending hd hc
      | inside b draft hd hb => exact .inside b draft hd hb
    rw [feed_of_effective he]
    exact hcarries.balanced_member hset hp
  | none =>
    cases hearly : s.isEarly line with
    | false =>
      rw [feed_of_idle he hearly]
      exact h.balanced_idle _
    | true =>
      rw [feed_of_early hearly]
      cases hb : Text.allBlank line with
      | true =>
        rw [remark_of_blank hb]
        exact h.balanced_idle s.path?
      | false =>
        -- before the first heading nothing is open
        have hpath : s.path? = none := (isEarly_iff.mp hearly).2.2
        rw [remark_of_not_blank hb]
        cases h with
        | between _ hd hc =>
          refine balanced_between (pending ++ [line]) hd rfl ?_ rfl fun ms => rfl
          rw [flatMap_remarkLine_concat, ← hc]
        | inside b draft hd _ =>
          have := hs.inPath (by rw [hd]; rfl)
          rw [hpath] at this
          exact absurd this Bool.false_ne_true

end Books

/-! ## 5. Every run -/

/-- Where nothing is open the next mark joins nothing. -/
theorem joined_marks {s : Scanner} (hs : Sound s) (hd : s.draft? = none) (lines : List Text) :
    joined (marks s lines) = [] := by
  induction lines generalizing s with
  | nil => rfl
  | cons line lines ih =>
    show joined ((s.mark? line).toList ++ marks (s.feed line) lines) = []
    cases hm : s.mark? line with
    | some m =>
      have hfate : m.fate ≠ .joins := by
        unfold mark? at hm
        split at hm
        · cases hm
          exact fate_ne_joins hd
        · split at hm
          · cases hm
            exact Fate.noConfusion
          · cases hm
      unfold joined
      rw [Option.toList_some, List.singleton_append, List.takeWhile_cons, decide_eq_false hfate]
      rfl
    | none =>
      have hd' : (s.feed line).draft? = none := by
        unfold mark? at hm
        split at hm
        · cases hm
        · rename_i he
          cases hearly : s.isEarly line with
          | true => rw [feed_of_early hearly, remark_draft?, hd]
          | false => rw [feed_of_idle he hearly]; exact hd
      exact ih (hs.feed line) hd'

/-- **From any state on**, the declarations still to come are the blocks that the marks tell of. -/
theorem Carries.finish {s : Scanner} {pending : List Text} {open? : Option Block} (h : Carries s pending open?)
    (hs : Sound s) (lines : List Text) :
    (∃ ds, (s.feedAll lines).finish = s.closed ++ ds ∧
      List.Forall₂ Block.Makes (blocksFrom pending open? (marks s lines)) ds) ∧
    (blocksFrom pending open? (marks s lines)).flatMap Block.lines =
      openLines open? ++ ((marks s lines).filter Mark.isSource).map Mark.text := by
  induction lines generalizing s pending open? with
  | nil =>
    obtain ⟨bs, ds, hclosed, hmakes, hbs, _⟩ := h.close
    have hblocks : blocksFrom pending open? [] = bs := by
      rw [hbs]
      cases open? with
      | none => rfl
      | some b =>
        show [b.extend []] = [b]
        rw [Block.extend_nil]
    refine ⟨⟨ds, hclosed, ?_⟩, ?_⟩
    · show List.Forall₂ Block.Makes (blocksFrom pending open? []) ds
      rw [hblocks]
      exact hmakes
    · show (blocksFrom pending open? []).flatMap Block.lines = _
      rw [hblocks, hbs]
      cases open? <;> simp [openLines, marks]
  | cons line lines ih =>
    obtain ⟨bs, ds, pending', open?', hclosed, hmakes, hcarries, hlines, hms⟩ := h.balanced_feed hs
    obtain ⟨⟨ds', hfinish, hmakes'⟩, hlines'⟩ := ih hcarries (hs.feed line)
    have hjoin : open?' = none → joined (marks (s.feed line) lines) = [] := by
      intro hnone
      subst hnone
      cases hcarries with
      | between _ hd _ => exact joined_marks (hs.feed line) hd lines
    have hsplit : blocksFrom pending open? (marks s (line :: lines)) =
        bs ++ blocksFrom pending' open?' (marks (s.feed line) lines) := hms _ hjoin
    refine ⟨⟨ds ++ ds', ?_, ?_⟩, ?_⟩
    · show ((s.feed line).feedAll lines).finish = _
      rw [hfinish, hclosed, List.append_assoc]
    · rw [hsplit]
      exact List.rel_append hmakes hmakes'
    · rw [hsplit, List.flatMap_append, hlines', ← List.append_assoc, hlines, List.append_assoc,
        ← List.map_append, ← List.filter_append]
      rfl

/-- The texts that reach a namespace, in feeding order. -/
def effective (s : Scanner) : List Text → List Text
  | [] => []
  | line :: lines => (s.effective? line).toList ++ effective (s.feed line) lines

/-- Every text that reaches a namespace leaves one mark, and no other line does but the comment lines before
    the first heading. -/
theorem marks_effective (s : Scanner) (lines : List Text) :
    ((marks s lines).filter fun m => m.fate ≠ .early).map Mark.text = effective s lines := by
  induction lines generalizing s with
  | nil => rfl
  | cons line lines ih =>
    show (((s.mark? line).toList ++ marks (s.feed line) lines).filter _).map _ = _
    rw [List.filter_append, List.map_append, ih]
    show _ = (s.effective? line).toList ++ effective (s.feed line) lines
    congr 1
    unfold mark?
    cases s.effective? line with
    | some text =>
      have hne : s.fate text ≠ .early := by
        intro h
        have hf : Fares s text .early := h ▸ fares_fate
        cases hf
      simp [hne]
    | none =>
      show ((if _ then _ else _ : Option Mark).toList.filter _).map _ = []
      split <;> rfl

/-- **No line is lost and none is used twice**: what holds of the lines of any file. -/
structure Accounted (lines : List Text) : Prop where
  /-- Each text that reaches a namespace meets one fate, which does what it says. -/
  fate : ∀ before line behind, lines = before ++ line :: behind →
    ∀ text, (fresh.feedAll before).effective? line = some text →
    (∃! fate, Fares (fresh.feedAll before) text fate) ∧
    ∀ fate, Fares (fresh.feedAll before) text fate →
      fate.Does (fresh.feedAll before) (fresh.feedAll (before ++ [line])) text
  /-- The marks are these texts in feeding order, with their fates, and the comment before the first
      heading. -/
  feeding : ((marks fresh lines).filter fun m => m.fate ≠ .early).map Mark.text = effective fresh lines
  /-- The declarations are the blocks that the marks tell of. -/
  declarations : List.Forall₂ Block.Makes (blocks [] (marks fresh lines)) (scan lines)
  /-- Each source line stands in one block, and the blocks have no others. -/
  partition : (blocks [] (marks fresh lines)).flatMap Block.lines =
    ((marks fresh lines).filter Mark.isSource).map Mark.text
  /-- The sources one after the other are the source lines in feeding order. -/
  sources : (scan lines).flatMap Declaration.source =
    (((marks fresh lines).filter Mark.isSource).map Mark.text).flatMap Draft.sourceLine

theorem sources_of_makes {bs : List Block} {ds : List Declaration} (h : List.Forall₂ Block.Makes bs ds) :
    ds.flatMap Declaration.source = (bs.flatMap Block.lines).flatMap Draft.sourceLine := by
  induction h with
  | nil => rfl
  | cons hb _ ih => rw [List.flatMap_cons, List.flatMap_cons, List.flatMap_append, ih, hb.source]

/-- **Every line of every file is accounted for.** -/
theorem accounted (lines : List Text) : Accounted lines := by
  have hfresh : Carries fresh [] none := .between [] rfl rfl
  obtain ⟨⟨ds, hfinish, hmakes⟩, hlines⟩ := hfresh.finish sound_fresh lines
  have hscan : scan lines = ds := hfinish
  have hblocks : (blocks [] (marks fresh lines)).flatMap Block.lines =
      ((marks fresh lines).filter Mark.isSource).map Mark.text := hlines
  refine ⟨fun before line behind _ text htext => ⟨existsUnique_fares _ _, fun fate hfate => ?_⟩,
    marks_effective fresh lines, by rw [hscan]; exact hmakes, hblocks, ?_⟩
  · have hfeed : fresh.feedAll (before ++ [line]) = (fresh.feedAll before).feed line := List.foldl_concat ..
    rw [hfate.eq_fate, hfeed]
    exact does_fate (sound_fresh.feedAll before) htext
  · rw [hscan, sources_of_makes hmakes, ← hblocks]
    rfl

end Scanner
end Ambient
