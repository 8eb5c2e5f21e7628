import Ambient.Document.Word
import Ambient.Proofs.Text.Blank
import Ambient.Proofs.Text.Cut

/-!
# Whole words

A line is cut into words by its name characters: a WHOLE word is a run of them that no further one touches, and
it may be empty. A cursor touches a whole word, and the same one from every place in it.

* `exists_touches`: every cursor touches a whole word, also one past the end of the line;
* `Touches.moved`: a cursor that moves over name characters touches the same word;
* `wordAt?_touches`: the word at a cursor is the whole word it touches, unless a dot stands before it;
* `nameBetween?_of_some`: what lies between two characters is taken for a name only where no ASCII letter or
  digit, dot or underscore touches it.
-/

namespace Ambient.Document

variable {before word after name line : Text}

/-! ## 1. Words -/

/-- **A whole word**: name characters between `before` and `after`, which no further one touches. -/
structure IsWhole (before word after : Text) : Prop where
  names : ∀ c ∈ word, isNameChar c = true
  starts : ∀ c ∈ before.getLast?, isNameChar c = false
  ends : ∀ c ∈ after.head?, isNameChar c = false

/-- **The whole word that a cursor touches.** Past the end of the line the cursor stands at the end. -/
structure Touches (line : Text) (cursor : Nat) (before word after : Text) : Prop
    extends IsWhole before word after where
  parts : line = before ++ (word ++ after)
  starts_le : before.length ≤ min cursor line.length
  le_ends : min cursor line.length ≤ before.length + word.length

/-- The longest start of name characters ends before a character that is none. -/
theorem head?_dropWhile (t : Text) : ∀ c ∈ (t.dropWhile isNameChar).head?, isNameChar c = false := by
  intro c hc
  have hhead := List.head?_dropWhile_not isNameChar t
  rw [Option.mem_def.mp hc] at hhead
  exact hhead

/-- **Every cursor touches a whole word**: the name characters before it and those behind it. -/
theorem exists_touches (line : Text) (cursor : Nat) : ∃ before word after, Touches line cursor before word after := by
  obtain ⟨before, left, hparts, hnames, hstarts⟩ : ∃ before left, line.take cursor = before ++ left ∧
      (∀ c ∈ left, isNameChar c = true) ∧ ∀ c ∈ before.getLast?, isNameChar c = false := by
    obtain ⟨left, hleft, hall⟩ := Text.exists_dropEndWhile_append isNameChar (line.take cursor)
    exact ⟨_, left, hleft.symm, hall, fun c hc => Text.getLast?_dropEndWhile hc⟩
  have hlength : min cursor line.length = before.length + left.length := by
    rw [← List.length_take, hparts, List.length_append]
  refine ⟨before, left ++ (line.drop cursor).takeWhile isNameChar, (line.drop cursor).dropWhile isNameChar,
    ⟨?_, hstarts, head?_dropWhile _⟩, ?_, ?_, ?_⟩
  · refine List.forall_mem_append.mpr ⟨hnames, fun c hc => ?_⟩
    exact List.all_eq_true.mp List.all_takeWhile c hc
  · rw [List.append_assoc, List.takeWhile_append_dropWhile, ← List.append_assoc, ← hparts, List.take_append_drop]
  · omega
  · rw [List.length_append]
    omega

namespace Touches

variable {cursor p q : Nat}

/-- **Over name characters a cursor moves within its word.** -/
theorem moved (h : Touches line p before word after) (hpq : p ≤ q)
    (hbetween : ∀ c ∈ (line.take q).drop p, isNameChar c = true) : Touches line q before word after := by
  refine { h with starts_le := ?_, le_ends := ?_ }
  · have := h.starts_le
    omega
  · by_contra hlt
    -- else the character behind the word would lie between the two cursors
    have hlength : line.length = before.length + (word.length + after.length) := by
      rw [h.parts, List.length_append, List.length_append]
    have hle := h.le_ends
    obtain ⟨c, after', hafter⟩ : ∃ c after', after = c :: after' := by
      cases after with
      | nil =>
        rw [List.length_nil] at hlength
        omega
      | cons c after' => exact ⟨c, after', rfl⟩
    have hat : (line)[before.length + word.length]? = some c := by
      rw [h.parts, ← List.append_assoc, List.getElem?_append_right (by rw [List.length_append]),
        List.length_append, Nat.sub_self, hafter]
      rfl
    have hmem : c ∈ (line.take q).drop p := by
      refine List.mem_of_getElem? (i := before.length + word.length - p) ?_
      rw [List.getElem?_drop, List.getElem?_take_of_lt (by omega)]
      rw [hafter, List.length_cons] at hlength
      have hindex : p + (before.length + word.length - p) = before.length + word.length := by omega
      rw [hindex, hat]
    have hname := hbetween c hmem
    rw [h.ends c (by rw [hafter]; rfl)] at hname
    cases hname

/-- The word, cut at the cursor. -/
theorem exists_cut (h : Touches line cursor before word after) : ∃ left right, word = left ++ right ∧
    line.take cursor = before ++ left ∧ line.drop cursor = right ++ after := by
  have hstarts := h.starts_le
  have hends := h.le_ends
  have hlength : line.length = before.length + (word.length + after.length) := by
    rw [h.parts, List.length_append, List.length_append]
  -- a cursor past the end of the line stands behind the word, and nothing follows it
  have hafter : cursor - before.length - word.length = 0 ∨ after = [] := by
    rw [← List.length_eq_zero_iff]
    omega
  refine ⟨word.take (cursor - before.length), word.drop (cursor - before.length),
    (List.take_append_drop _ _).symm, ?_, ?_⟩
  · rw [h.parts, List.take_append, List.take_append, List.take_of_length_le (by omega)]
    rcases hafter with hzero | rfl
    · rw [hzero, List.take_zero, List.append_nil]
    · rw [List.take_nil, List.append_nil]
  · rw [h.parts, List.drop_append, List.drop_append, List.drop_of_length_le (by omega), List.nil_append]
    rcases hafter with hzero | rfl
    · rw [hzero, List.drop_zero]
    · rw [List.drop_nil]

end Touches

/-! ## 2. The word at a cursor -/

theorem nameBefore_append {left : Text} (hbefore : ∀ c ∈ before.getLast?, isNameChar c = false)
    (hleft : ∀ c ∈ left, isNameChar c = true) : nameBefore (before ++ left) = left := by
  have hstop : before.reverse.takeWhile isNameChar = [] := by
    cases hreverse : before.reverse with
    | nil => rfl
    | cons c t =>
      have hlast : c ∈ before.getLast? := by
        rw [List.getLast?_eq_head?_reverse, hreverse]
        rfl
      rw [List.takeWhile_cons, hbefore c hlast, if_neg Bool.false_ne_true]
  unfold nameBefore
  rw [List.reverse_append, List.takeWhile_append_of_pos fun c hc => hleft c (List.mem_reverse.mp hc), hstop,
    List.append_nil, List.reverse_reverse]

theorem takeWhile_append {right : Text} (hafter : ∀ c ∈ after.head?, isNameChar c = false)
    (hright : ∀ c ∈ right, isNameChar c = true) : (right ++ after).takeWhile isNameChar = right := by
  cases after with
  | nil => rw [List.append_nil, List.takeWhile_eq_self_iff.mpr hright]
  | cons c t => exact Text.takeWhile_append_cons isNameChar hright (hafter c rfl) t

/-- **The word at a cursor is the whole word it touches**, unless a dot stands before it. -/
theorem wordAt?_touches {character : UInt32} (h : Touches line character.toNat before word after) :
    wordAt? line character = if before.getLast? = some '.' then none else some word := by
  obtain ⟨left, right, hword, hleft, hright⟩ := h.exists_cut
  have hnames := h.names
  rw [hword, List.forall_mem_append] at hnames
  have hbefore : Text.dropEndWhile isNameChar before = before :=
    Text.dropEndWhile_of_getLast? fun c hc => h.starts c hc
  unfold wordAt? wordBetween?
  rw [hleft, hright, nameBefore_append h.starts hnames.1, takeWhile_append h.ends hnames.2,
    Text.dropEndWhile_append_of_all before hnames.1, hbefore, hword]

/-! ## 3. The text that a range covers -/

/-- **What a range on a single line covers**: `name`, between `before` and `after`. -/
structure Covers (document : Text) (range : Range) (before name after : Text) : Prop where
  line : line? document range.start.line = some (before ++ (name ++ after))
  start : before.length = range.start.character.toNat
  stop : before.length + name.length = range.stop.character.toNat

/-- **A name between two characters of the line** is what lies between them, and neither an ASCII letter or digit
    nor a dot or underscore touches it. -/
theorem nameBetween?_of_some {start stop : UInt32} (hle : start.toNat ≤ stop.toNat)
    (h : nameBetween? line start stop = some name) : ∃ before after, line = before ++ (name ++ after) ∧
    before.length = start.toNat ∧ before.length + name.length = stop.toNat ∧
    (∀ c ∈ before.getLast?, continuesName c = false) ∧ ∀ c ∈ after.head?, continuesName c = false := by
  unfold nameBetween? at h
  split at h
  · cases h
  · rename_i hstop
    dsimp only at h
    split at h
    · cases h
    · rename_i hfree
      rw [Bool.or_eq_true, not_or, Bool.not_eq_true, Bool.not_eq_true] at hfree
      obtain ⟨hbefore, hafter⟩ := hfree
      cases h
      have hlength : (line.take start.toNat).length = start.toNat := List.length_take_of_le (by omega)
      have htake : line.take start.toNat = (line.take stop.toNat).take start.toNat := by
        rw [List.take_take, Nat.min_eq_left hle]
      refine ⟨line.take start.toNat, line.drop stop.toNat, ?_, hlength, ?_, ?_, ?_⟩
      · rw [← List.append_assoc, htake, List.take_append_drop, List.take_append_drop]
      · rw [hlength, List.length_drop, List.length_take]
        omega
      · exact fun c hc => by rwa [Option.mem_def.mp hc] at hbefore
      · exact fun c hc => by rwa [Option.mem_def.mp hc] at hafter

end Ambient.Document
