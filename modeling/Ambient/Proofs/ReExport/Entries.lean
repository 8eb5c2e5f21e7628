import Ambient.ReExport
import Ambient.Proofs.Catalogue.Order
import Ambient.Proofs.Text.Blank
import Ambient.Proofs.Text.Cut
import Mathlib.Data.List.Basic
import Mathlib.Data.List.TakeWhile

/-!
# The entries of an export group

A group of several entries makes one declaration for each, and numbers them from 0. Read in this order they
are the whole group (`joined_sources`). Whether they are SORTED in this order is another matter, since the
number stands in the id as a text:

* `before_of_ordinal`: up to nine, a smaller number comes first, whatever the names are;
* `ten_before_one`: but ten comes before one;
* `id_ne_of_ordinal`: no declaration without a number has the id of an entry of the same namespace.

What is read as an entry are words with blanks between them, of which it exports the last (`read?_eq_some`).
-/

namespace Ambient

/-! ## 1. Order by id -/

namespace Declaration

/-- Strictly before, by id. -/
def Before (a b : Declaration) : Prop := b.le a = false

theorem id_of_ordinal {d : Declaration} {n : Nat} (h : d.ordinal = some n) :
    d.id = "zzz".toList ++ (Text.ofNat n ++ '_' :: d.plainId) := by
  simp [id, h]

theorem id_of_no_ordinal {d : Declaration} (h : d.ordinal = none) : d.id = d.plainId := by
  simp [id, h]

/-- The digit of a number below ten. -/
theorem ofNat_of_lt_ten : ∀ n < 10, Text.ofNat n = [Nat.digitChar n] := by decide

theorem digitChar_lt : ∀ n < 10, ∀ m < n, (Nat.digitChar m).toNat < (Nat.digitChar n).toNat := by decide

/-- **A smaller number comes first**, as long as both have one digit. -/
theorem before_of_ordinal {a b : Declaration} {m n : Nat} (ha : a.ordinal = some m) (hb : b.ordinal = some n)
    (hmn : m < n) (hn : n < 10) : a.Before b := by
  unfold Before le
  rw [id_of_ordinal ha, id_of_ordinal hb, Text.le_append_left, ofNat_of_lt_ten m (by omega),
    ofNat_of_lt_ten n hn]
  exact Text.le_cons_of_lt (digitChar_lt n hn m hmn) _ _

/-- **Ten comes before one**: a digit stands before the underscore. -/
theorem ten_before_one {a b : Declaration} (ha : a.ordinal = some 10) (hb : b.ordinal = some 1) :
    a.Before b := by
  have hten : Text.ofNat 10 = ['1', '0'] := by decide
  have hone : Text.ofNat 1 = ['1'] := by decide
  unfold Before le
  rw [id_of_ordinal ha, id_of_ordinal hb, Text.le_append_left, hten, hone]
  exact (Text.le_append_left ['1'] _ _).trans (Text.le_cons_of_lt (by decide) _ _)

/-- A text that ends in a dot and a name is no longer the same with a dotless word in front. -/
theorem append_dot_ne {w : Text} (hne : w ≠ []) (hdot : '.' ∉ w) (p x y : Text) :
    p ++ '.' :: x ≠ w ++ (p ++ '.' :: y) := by
  intro h
  have hw : ∀ c ∈ w, (c != '.') = true := by
    intro c hc
    rw [bne_iff_ne]
    rintro rfl
    exact hdot hc
  have hstop : ∀ q z : Text, (q ++ '.' :: z).takeWhile (· != '.') = q.takeWhile (· != '.') := by
    intro q z
    induction q with
    | nil => rfl
    | cons c q ih =>
      by_cases hc : c = '.'
      · simp [hc]
      · simp [hc, ih]
  have htake := congrArg (List.takeWhile (· != '.')) h
  rw [hstop, List.takeWhile_append_of_pos hw, hstop] at htake
  have hlength := congrArg List.length htake
  rw [List.length_append] at hlength
  exact hne (List.eq_nil_of_length_eq_zero (by omega))

/-- **No other declaration of the namespace has the id of an entry.** -/
theorem id_ne_of_ordinal {d e : Declaration} {n : Nat} (hd : d.ordinal = none) (he : e.ordinal = some n)
    (hn : n < 10) (hpath : d.path = e.path) (hkind : d.kind.isStandalone = false)
    (hkind' : e.kind.isStandalone = false) : d.id ≠ e.id := by
  have hdot : ∀ n < 10, '.' ∉ "zzz".toList ++ ([Nat.digitChar n] ++ ['_']) := by decide
  have hplain : d.plainId = e.path ++ '.' :: d.shortName := by simp [plainId, hkind, qualifiedName, hpath]
  have hplain' : e.plainId = e.path ++ '.' :: e.shortName := by simp [plainId, hkind', qualifiedName]
  have hid : e.id = ("zzz".toList ++ ([Nat.digitChar n] ++ ['_'])) ++ (e.path ++ '.' :: e.shortName) := by
    rw [id_of_ordinal he, hplain', ofNat_of_lt_ten n hn, List.append_assoc, List.append_assoc,
      List.singleton_append]
    rfl
  rw [id_of_no_ordinal hd, hplain, hid]
  exact append_dot_ne (List.cons_ne_nil _ _) (hdot n hn) _ _ _

end Declaration

namespace ReExport

/-! ## 2. The declarations of a group -/

/-- Has the group several entries? -/
def Group.Several (g : Group) : Prop := 2 ≤ (entries g.list).length

instance (g : Group) : Decidable g.Several := inferInstanceAs (Decidable (_ ≤ _))

section Several

variable {g : Group} {d : Declaration} {n : Nat}

theorem declarations_of_several (h : g.Several) : g.declarations =
    (entries g.list).mapIdx fun n entry =>
      (declare g.path entry (entrySource n (entries g.list).length entry)).withOrdinal n := by
  unfold Group.Several at h
  unfold Group.declarations
  split
  · rename_i hentries
    rw [hentries] at h
    cases h
  · rename_i entry hentries
    rw [hentries] at h
    simp at h
  · rfl

theorem length_declarations (h : g.Several) : g.declarations.length = (entries g.list).length := by
  rw [declarations_of_several h, List.length_mapIdx]

/-- The declarations are numbered. -/
theorem ordinal_of_getElem? (h : g.Several) (hd : g.declarations[n]? = some d) : d.ordinal = some n := by
  rw [declarations_of_several h, List.getElem?_mapIdx] at hd
  obtain ⟨entry, -, rfl⟩ := Option.map_eq_some_iff.mp hd
  rfl

/-- Without several entries nothing is numbered. -/
theorem ordinal_of_not_several (h : ¬g.Several) (hd : d ∈ g.declarations) : d.ordinal = none := by
  unfold Group.Several at h
  unfold Group.declarations at hd
  split at hd
  · cases hd
  · rw [List.mem_singleton.mp hd]
    rfl
  · rename_i hnil hone
    rcases hentries : entries g.list with _ | ⟨first, _ | ⟨second, rest⟩⟩
    · exact absurd hentries hnil
    · exact absurd hentries (hone first)
    · rw [hentries] at h
      simp at h

/-- Every declaration of a group stands in the namespace of the group, and is shown in its block. -/
theorem mem_declarations (hd : d ∈ g.declarations) : d.path = g.path ∧ d.kind = .reExport := by
  unfold Group.declarations at hd
  split at hd
  · cases hd
  · rw [List.mem_singleton.mp hd]
    exact ⟨rfl, rfl⟩
  · obtain ⟨n, hn, rfl⟩ := List.mem_mapIdx.mp hd
    exact ⟨rfl, rfl⟩

end Several

/-! ## 3. The group as a text -/

/-- An entry on a line of its own. -/
def entryLine (entry : Entry) : Text := "        ".toList ++ entry.text ++ [',']

/-- A group of several entries as it is written. -/
def block (several : List Entry) : Text :=
  "    export \x7b\n".toList ++ (Text.joinWith ['\n'] (several.map entryLine) ++ "\n    \x7d".toList)

theorem entrySource_first {count : Nat} (h : count ≠ 1) (entry : Entry) :
    entrySource 0 count entry = "    export \x7b\n".toList ++ entryLine entry := by
  unfold entrySource entryLine
  rw [if_pos rfl, if_neg (by omega), List.append_nil, List.append_assoc, List.append_assoc, List.append_assoc]

theorem entrySource_middle {n count : Nat} (hn : n ≠ 0) (h : n + 1 ≠ count) (entry : Entry) :
    entrySource n count entry = entryLine entry := by
  unfold entrySource entryLine
  rw [if_neg hn, if_neg h, List.append_nil, List.nil_append]

theorem entrySource_last {n : Nat} (hn : n ≠ 0) (entry : Entry) :
    entrySource n (n + 1) entry = entryLine entry ++ "\n    \x7d".toList := by
  unfold entrySource entryLine
  rw [if_neg hn, if_pos rfl, List.nil_append]

/-- The sources from entry `n` on, which is not the first. -/
theorem joined_rest {rest : List Entry} (hne : rest ≠ []) {n count : Nat} (hn : n ≠ 0)
    (hcount : count = n + rest.length) :
    Text.joinWith ['\n'] (rest.mapIdx fun i entry => entrySource (n + i) count entry) =
      Text.joinWith ['\n'] (rest.map entryLine) ++ "\n    \x7d".toList := by
  unfold Text.joinWith
  induction rest generalizing n with
  | nil => exact absurd rfl hne
  | cons entry rest ih =>
    rw [List.mapIdx_cons, List.map_cons, Nat.add_zero]
    rw [List.length_cons] at hcount
    by_cases hrest : rest = []
    · subst hrest
      rw [hcount, List.mapIdx_nil, List.map_nil, List.intercalate_singleton, List.intercalate_singleton]
      exact entrySource_last hn entry
    · have hlength := List.length_pos_iff.mpr hrest
      have hshift : (fun i entry => entrySource (n + (i + 1)) count entry) =
          fun i entry => entrySource (n + 1 + i) count entry := by
        funext i entry
        rw [Nat.add_assoc, Nat.add_comm 1]
      rw [hshift, List.intercalate_cons_of_ne_nil (by simpa using hrest),
        List.intercalate_cons_of_ne_nil (by simpa using hrest), ih hrest (by omega) (by omega),
        entrySource_middle hn (by omega), List.append_assoc, List.append_assoc, List.append_assoc]

/-- **The sources of a group, one after the other, are the whole group.** -/
theorem joined_sources {g : Group} (h : g.Several) :
    Text.joinWith ['\n'] (g.declarations.map Declaration.source) = block (entries g.list) := by
  have hsources : g.declarations.map Declaration.source =
      (entries g.list).mapIdx fun n entry => entrySource n (entries g.list).length entry := by
    rw [declarations_of_several h]
    refine List.ext_getElem? fun i => ?_
    rw [List.getElem?_map, List.getElem?_mapIdx, List.getElem?_mapIdx, Option.map_map]
    rfl
  rw [hsources]
  unfold Group.Several at h
  cases hentries : entries g.list with
  | nil =>
    rw [hentries] at h
    cases h
  | cons entry rest =>
    rw [hentries, List.length_cons] at h
    have hrest : rest ≠ [] := by
      rintro rfl
      cases h with
      | step h => cases h
    have hshift : (fun i entry => entrySource (i + 1) (rest.length + 1) entry) =
        fun i entry => entrySource (1 + i) (rest.length + 1) entry := by
      funext i entry
      rw [Nat.add_comm]
    have hjoined := joined_rest hrest Nat.one_ne_zero (Nat.add_comm rest.length 1)
    unfold block
    unfold Text.joinWith at hjoined ⊢
    rw [List.mapIdx_cons, List.map_cons, List.length_cons, entrySource_first (by omega), hshift,
      List.intercalate_cons_of_ne_nil (by simpa using hrest),
      List.intercalate_cons_of_ne_nil (by simpa using hrest), hjoined, List.append_assoc, List.append_assoc,
      List.append_assoc, List.append_assoc]

/-! ## 4. What is read as an entry -/

theorem wordRun?_eq_some {t word rest : Text} (h : Text.wordRun? t = some (word, rest)) :
    t = word ++ rest ∧ word ≠ [] ∧ ∀ c ∈ word, isWordChar c = true := by
  unfold Text.wordRun? at h
  dsimp only at h
  split at h
  · cases h
  · rename_i hne
    cases h
    exact ⟨List.takeWhile_append_dropWhile.symm, fun he => hne (List.isEmpty_iff.mpr he),
      fun c hc => List.mem_takeWhile_imp hc⟩

/-- **An entry exports a word**, and its text holds nothing but words and blanks. -/
theorem read?_eq_some {text : Text} {entry : Entry} (h : Entry.read? text = some entry) : entry.text = text ∧
    (entry.exported ≠ [] ∧ ∀ c ∈ entry.exported, isWordChar c = true) ∧
    ∀ c ∈ text, isWordChar c = true ∨ isBlank c = true := by
  have has : "as".toList.all isWordChar = true := by decide +kernel
  obtain ⟨⟨name, rest⟩, hname, h⟩ := Option.bind_eq_some_iff.mp h
  obtain ⟨rfl, hne, hword⟩ := wordRun?_eq_some hname
  dsimp only at h
  by_cases hrest : rest.isEmpty = true
  · rw [if_pos hrest] at h
    cases h
    rw [List.isEmpty_iff.mp hrest, List.append_nil]
    exact ⟨rfl, ⟨hne, hword⟩, fun c hc => .inl (hword c hc)⟩
  · rw [if_neg hrest] at h
    obtain ⟨behind, hgap, h⟩ := Option.bind_eq_some_iff.mp h
    obtain ⟨gap, rfl, -, hblank, -⟩ := Text.afterBlanks?_iff.mp hgap
    obtain ⟨behind', hprefix, h⟩ := Option.bind_eq_some_iff.mp h
    obtain rfl := Text.eq_of_isPrefixOf? hprefix
    obtain ⟨behind, hgap', h⟩ := Option.bind_eq_some_iff.mp h
    obtain ⟨gap', rfl, -, hblank', -⟩ := Text.afterBlanks?_iff.mp hgap'
    obtain ⟨⟨newName, rest⟩, hnew, h⟩ := Option.bind_eq_some_iff.mp h
    obtain ⟨rfl, hne', hword'⟩ := wordRun?_eq_some hnew
    obtain ⟨_, hempty, h⟩ := Option.bind_eq_some_iff.mp h
    have hrest : rest = [] := by
      cases rest with
      | nil => rfl
      | cons c rest => cases hempty
    cases h
    refine ⟨rfl, ⟨hne', hword'⟩, fun c hc => ?_⟩
    simp only [hrest, List.append_nil, List.mem_append] at hc
    rcases hc with hc | hc | hc | hc | hc
    · exact .inl (hword c hc)
    · exact .inr (hblank c hc)
    · exact .inl (List.all_eq_true.mp has c hc)
    · exact .inr (hblank' c hc)
    · exact .inl (hword' c hc)

end ReExport
end Ambient
