import Ambient.Proofs.Json.Skip
import Mathlib.Data.List.Forall2
import Mathlib.Data.List.Nodup

/-!
# Records

A record is read member by member, and what has been read of it is told by the names alone: `state names` is what
the reader holds behind the members of these names.

* `Reads`: a way to write a value that is read back, whatever follows;
* `readList_join`: a list of values that are read back is read back;
* `Arranged`: some of a record's own members in any order, among members of unknown names;
* `readMembers_join`: the members are read to the last, and the state behind them is that of their names;
* `readRecord_arranged`: an arranged record is read as one of the members that it has kept.
-/

namespace Ambient.Json

variable {α σ : Type} {w rest : Text}

/-! ## 1. Values of a given type -/

/-- **The text is read as the value**, whatever follows that could not belong to a number. -/
def Reads (read : Reader α) (w : Text) (a : α) : Prop := ∀ rest, Stops rest → read (w ++ rest) = .ok (a, rest)

theorem reads_readText (t : Text) : Reads readText (quote t) t := by
  intro rest _
  have htext : quote t ++ rest = '"' :: (t.flatMap escape ++ '"' :: rest) := by simp [quote]
  rw [htext, readText, skipGap_cons (by decide)]
  exact quoted_spells (spells_escape t) rest

theorem reads_readBool (b : Bool) : Reads readBool (compact (.bool b)) b := by
  intro rest _
  cases b with
  | false => exact congrArg (Except.map fun t => (false, t)) (afterWord_append "alse".toList rest)
  | true => exact congrArg (Except.map fun t => (true, t)) (afterWord_append "rue".toList rest)

theorem reads_readNat {bound n : Nat} (hbound : bound ≤ maxWord) (h : n ≤ bound) :
    Reads (readNat bound) (compact (.nat n)) n :=
  fun _ hrest => readNat_ofNat hbound h hrest

/-! ## 2. Lists -/

/-- The text starts with a token that closes no list. -/
def StartsItem (w : Text) : Prop := ∃ c t, w = c :: t ∧ isGap c = false ∧ c ≠ ']'

theorem startsItem_quote (t : Text) : StartsItem (quote t) := ⟨'"', _, rfl, rfl, by decide⟩

theorem startsItem_nat (n : Nat) : StartsItem (compact (.nat n)) := by
  obtain ⟨c, t, hcons, hc⟩ := (isNumeral_ofNat n).exists_cons
  exact ⟨c, t, hcons, isGap_of_startsNumeral hc, by rintro rfl; cases hc⟩

theorem joinWith_cons_eq (w : Text) (ws : List Text) :
    Text.joinWith [','] (w :: ws) = w ++ ws.flatMap (',' :: ·) := by
  induction ws generalizing w with
  | nil => rw [Text.joinWith_singleton, List.flatMap_nil, List.append_nil]
  | cons v ws ih =>
    rw [Text.joinWith_cons_cons, ih, List.flatMap_cons]
    rfl

/-- What follows an item. -/
theorem stops_flatMap (ws : List Text) (rest : Text) : Stops (ws.flatMap (',' :: ·) ++ ']' :: rest) := by
  cases ws with
  | nil => exact stops_cons rfl rest
  | cons w ws => exact stops_cons rfl _

variable {read : Reader α} {ws : List Text} {as : List α}

theorem skipGap_startsItem (h : StartsItem w) (t : Text) :
    skipGap (w ++ t) = w ++ t ∧ (w ++ t).head? ≠ some ']' := by
  obtain ⟨c, u, rfl, hgap, hc⟩ := h
  exact ⟨skipGap_cons hgap (u ++ t), fun hhead => hc (Option.some.inj hhead)⟩

theorem readItems_flatMap (h : List.Forall₂ (Reads read) ws as) (hstart : ∀ w ∈ ws, StartsItem w) {fuel : Nat}
    (hfuel : ws.length < fuel) (rest : Text) :
    readItems read fuel false (ws.flatMap (',' :: ·) ++ ']' :: rest) = .ok (as, rest) := by
  induction h generalizing fuel with
  | nil =>
    obtain ⟨fuel, rfl⟩ := Nat.exists_eq_succ_of_ne_zero (by omega : fuel ≠ 0)
    rfl
  | @cons w a ws as hw hws ih =>
    obtain ⟨fuel, rfl⟩ := Nat.exists_eq_succ_of_ne_zero (by omega : fuel ≠ 0)
    rw [List.length_cons] at hfuel
    obtain ⟨hwstart, hwsstart⟩ := List.forall_mem_cons.mp hstart
    obtain ⟨hskip, hhead⟩ := skipGap_startsItem hwstart (ws.flatMap (',' :: ·) ++ ']' :: rest)
    have hcomma : (',' : Char) ≠ ']' := by decide
    rw [List.flatMap_cons, List.append_assoc, List.cons_append, readItems, skipGap_cons rfl]
    simp only [hcomma, if_false, Bool.false_eq_true, if_true, hskip, hhead, hw _ (stops_flatMap ws rest), bind,
      Except.bind]
    rw [ih hwsstart (by omega)]

theorem length_le_flatMap (ws : List Text) : ws.length ≤ (ws.flatMap (',' :: ·)).length := by
  induction ws with
  | nil => exact Nat.le_refl 0
  | cons w ws ih =>
    rw [List.flatMap_cons, List.length_cons, List.length_append, List.length_cons]
    omega

/-- **A list of values that are read back is read back.** -/
theorem readList_join (h : List.Forall₂ (Reads read) ws as) (hstart : ∀ w ∈ ws, StartsItem w) :
    Reads (readList read) ('[' :: (Text.joinWith [','] ws ++ [']'])) as := by
  intro rest _
  have hopen : ∀ t, readList read ('[' :: t) = readItems read (t.length + 1) true t := fun _ => rfl
  rw [List.cons_append, List.append_assoc, List.singleton_append, hopen]
  cases h with
  | nil => rfl
  | @cons w a ws as hw hws =>
    obtain ⟨hwstart, hwsstart⟩ := List.forall_mem_cons.mp hstart
    have hread := hw _ (stops_flatMap ws rest)
    have hlength := length_le_flatMap ws
    rw [joinWith_cons_eq, List.append_assoc]
    obtain ⟨c, t, rfl, hgap, hc⟩ := hwstart
    have hfuel : ws.length < ((c :: t) ++ (ws.flatMap (',' :: ·) ++ ']' :: rest)).length := by
      rw [List.length_append, List.length_append, List.length_cons, List.length_cons]
      omega
    rw [List.cons_append] at hread hfuel ⊢
    rw [readItems, skipGap_cons hgap]
    simp only [hc, if_false, if_true, hread, bind, Except.bind]
    rw [readItems_flatMap hws hwsstart hfuel]

theorem compactItems_eq (items : List Json) : compactItems items = items.map compact := by
  induction items with
  | nil => rfl
  | cons item items ih => exact congrArg (compact item :: ·) ih

/-- A list that is printed is read back. -/
theorem reads_readList {item : α → Json} {as : List α} (h : ∀ a ∈ as, Reads read (compact (item a)) a)
    (hstart : ∀ a, StartsItem (compact (item a))) :
    Reads (readList read) (compact (.list (as.map item))) as := by
  have hprint : compact (.list (as.map item)) =
      '[' :: (Text.joinWith [','] (as.map fun a => compact (item a)) ++ [']']) := by
    rw [compact, compactItems_eq, List.map_map]
    rfl
  rw [hprint]
  refine readList_join ?_ fun w hw => ?_
  · rw [List.forall₂_map_left_iff, List.forall₂_same]
    exact h
  · obtain ⟨a, -, rfl⟩ := List.mem_map.mp hw
    exact hstart a

/-! ## 3. Members -/

/-- A member of a record as it is written: what stands between the quotes of its name, and its value. -/
structure Member where
  key : Text
  value : Text
  deriving DecidableEq, Repr

/-- The text of a member. -/
def Member.text (m : Member) : Text := '"' :: (m.key ++ '"' :: ':' :: m.value)

/-- The text of a record. -/
def recordText (ms : List Member) : Text := '{' :: (Text.joinWith [','] (ms.map Member.text) ++ ['}'])

/-- The members of a record as they are printed. -/
def ownMembers : Json → List Member
  | .record fields => fields.map fun field => ⟨field.1.flatMap escape, compact field.2⟩
  | _ => []

theorem compact_record (fields : List (Text × Json)) :
    compact (.record fields) = recordText (ownMembers (.record fields)) := by
  have hfields : compactFields fields = (ownMembers (.record fields)).map Member.text := by
    induction fields with
    | nil => rfl
    | cons field fields ih =>
      obtain ⟨name, value⟩ := field
      rw [compactFields, ih]
      simp [ownMembers, Member.text, quote]
  rw [compact, hfields]
  rfl

/-- A member that a reader does not know: its name, however it is written, is none of the known ones, and its value
    is any. -/
def Member.IsForeign (known : List Text) (m : Member) : Prop :=
  ∃ name, Spells m.key name ∧ name ∉ known ∧ IsValue m.value

/-- **An arrangement of a record**: those of its own members that are kept, in any order and among others. -/
def Arranged (own : List Member) (keep : Text → Bool) (ms : List Member) : Prop :=
  ∃ others, ms.Perm ((own.filter fun m => keep m.key) ++ others) ∧ ∀ m ∈ others, m.IsForeign (own.map Member.key)

/-- A member that a reader knows: with it the names that have been read grow by its own. -/
structure Known (fields : List (Field σ)) (state : List Text → σ) (m : Member) : Prop where
  spells : Spells m.key m.key
  reads : ∃ field, (fields.find? fun f => f.name = m.key) = some field ∧
    ∀ names, Reads (field.read (state names)) m.value (state (m.key :: names))

section Members

variable {fields : List (Field σ)} {state : List Text → σ} {m : Member} {seen : List Text}

theorem readMember_quote (s : σ) (seen : List Text) (t : Text) : readMember fields s seen ('"' :: t) = (do
    let (name, t) ← quoted t
    match fields.find? fun field => field.name = name with
    | none =>
      let t ← afterColon t
      let t ← skip t
      .ok (s, seen, t)
    | some field =>
      if seen.contains name then .error .mismatch
      else
        let t ← afterColon t
        let (s, t) ← field.read s t
        .ok (s, name :: seen, t)) := rfl

theorem text_append (m : Member) (rest : Text) :
    m.text ++ rest = '"' :: (m.key ++ '"' :: (':' :: (m.value ++ rest))) := by simp [Member.text]

theorem Known.readMember (h : Known fields state m) (hseen : m.key ∉ seen) (hrest : Stops rest) :
    readMember fields (state seen) seen (m.text ++ rest) = .ok (state (m.key :: seen), m.key :: seen, rest) := by
  obtain ⟨hspells, field, hfield, hread⟩ := h
  have hfresh : seen.contains m.key = false := by simpa using hseen
  have hcolon : afterColon (':' :: (m.value ++ rest)) = .ok (m.value ++ rest) := rfl
  rw [text_append, readMember_quote, quoted_spells hspells]
  simp only [bind, Except.bind, hfield, hfresh, hcolon]
  rw [hread seen rest hrest]
  rfl

theorem readMember_foreign (h : m.IsForeign (fields.map Field.name)) (s : σ) (seen : List Text) (hrest : Stops rest) :
    ∃ gap, IsGap gap ∧ readMember fields s seen (m.text ++ rest) = .ok (s, seen, gap ++ rest) := by
  obtain ⟨name, hspells, hname, hvalue⟩ := h
  obtain ⟨gap, hgap, hskip⟩ := skip_append hvalue hrest
  refine ⟨gap, hgap, ?_⟩
  have hfield : (fields.find? fun f => f.name = name) = none := by
    rw [List.find?_eq_none]
    intro f hf he
    exact hname (List.mem_map.mpr ⟨f, hf, by simpa using he⟩)
  have hcolon : afterColon (':' :: (m.value ++ rest)) = .ok (m.value ++ rest) := rfl
  rw [text_append, readMember_quote, quoted_spells hspells]
  simp only [bind, Except.bind, hfield, hcolon, hskip]

/-- The known names among those of the members. -/
def namesIn (known : List Text) (ms : List Member) : List Text := (ms.map Member.key).filter known.contains

theorem namesIn_cons (known : List Text) (m : Member) (ms : List Member) :
    namesIn known (m :: ms) = if m.key ∈ known then m.key :: namesIn known ms else namesIn known ms := by
  by_cases h : m.key ∈ known <;> simp [namesIn, h]

/-- A member of a record: known to the reader, or foreign to it. -/
def IsMember (fields : List (Field σ)) (state : List Text → σ) (known : List Text) (m : Member) : Prop :=
  m.key ∈ known ∧ Known fields state m ∨ m.key ∉ known ∧ m.IsForeign (fields.map Field.name)

/-- One member: the names grow by its own if that is known. -/
theorem readMember_text {known : List Text} (h : IsMember fields state known m) (ms : List Member)
    (hfresh : ((namesIn known (m :: ms)).reverse ++ seen).Nodup) (hrest : Stops rest) :
    ∃ gap seen', IsGap gap ∧
      readMember fields (state seen) seen (m.text ++ rest) = .ok (state seen', seen', gap ++ rest) ∧
      (namesIn known ms).reverse ++ seen' = (namesIn known (m :: ms)).reverse ++ seen := by
  rw [namesIn_cons] at hfresh ⊢
  rcases h with ⟨hkey, hknown⟩ | ⟨hkey, hforeign⟩
  · rw [if_pos hkey, List.reverse_cons, List.append_assoc, List.singleton_append] at hfresh ⊢
    have hseen : m.key ∉ seen := (List.nodup_cons.mp (List.nodup_append.mp hfresh).2.1).1
    exact ⟨[], m.key :: seen, isGap_nil, hknown.readMember hseen hrest, rfl⟩
  · rw [if_neg hkey]
    obtain ⟨gap, hgap, hread⟩ := readMember_foreign hforeign (state seen) seen hrest
    exact ⟨gap, seen, hgap, hread, rfl⟩

/-- **The members are read to the last**, and the state behind them is that of the known names among theirs. -/
theorem readMembers_join {known : List Text} {ms : List Member} (hne : ms ≠ [])
    (hms : ∀ m ∈ ms, IsMember fields state known m) (hfresh : ((namesIn known ms).reverse ++ seen).Nodup) {fuel : Nat}
    (hfuel : ms.length ≤ fuel) :
    readMembers fields fuel (state seen) seen (Text.joinWith [','] (ms.map Member.text) ++ '}' :: rest) =
      .ok (state ((namesIn known ms).reverse ++ seen), rest) := by
  induction ms generalizing seen fuel with
  | nil => exact absurd rfl hne
  | cons m ms ih =>
    obtain ⟨hm, hms⟩ := List.forall_mem_cons.mp hms
    rw [List.length_cons] at hfuel
    obtain ⟨fuel, rfl⟩ := Nat.exists_eq_succ_of_ne_zero (by omega : fuel ≠ 0)
    cases ms with
    | nil =>
      obtain ⟨gap, seen', hgap, hread, hnames⟩ := readMember_text hm [] hfresh (stops_cons (c := '}') rfl rest)
      rw [List.map_singleton, Text.joinWith_singleton, readMembers, hread]
      simp only [bind, Except.bind]
      rw [afterPart_closing hgap rfl (by decide), ← hnames]
      rfl
    | cons m' ms =>
      obtain ⟨gap, seen', hgap, hread, hnames⟩ := readMember_text hm (m' :: ms) hfresh
        (stops_cons (c := ',') rfl (Text.joinWith [','] ((m' :: ms).map Member.text) ++ '}' :: rest))
      rw [← hnames] at hfresh ⊢
      rw [List.map_cons, List.map_cons, Text.joinWith_cons_cons, List.append_assoc, List.append_assoc,
        List.singleton_append, ← List.map_cons, readMembers, hread]
      simp only [bind, Except.bind]
      rw [afterPart_comma hgap]
      exact ih (List.cons_ne_nil m' ms) hms hfresh (by omega)

/-! ## 4. Arranged records -/

theorem Spells.unique {w t u : Text} (ht : Spells w t) (hu : Spells w u) : t = u := by
  have h := quoted_spells ht []
  rw [quoted_spells hu []] at h
  exact (Prod.mk.inj (Except.ok.inj h)).1.symm

/-- A foreign member has no known name. -/
theorem Member.IsForeign.key_notMem {known : List Text} (h : m.IsForeign known) (hknown : ∀ k ∈ known, Spells k k) :
    m.key ∉ known := by
  obtain ⟨name, hspells, hname, -⟩ := h
  intro hkey
  exact hname (hspells.unique (hknown _ hkey) ▸ hkey)

/-- The known names of an arrangement are those that are kept. -/
theorem namesIn_perm {known : List Text} {own others ms : List Member} {keep : Text → Bool}
    (hknown : own.map Member.key = known) (hothers : ∀ m ∈ others, m.key ∉ known)
    (hperm : ms.Perm ((own.filter fun m => keep m.key) ++ others)) :
    (namesIn known ms).Perm (known.filter keep) := by
  have hkeys : (own.filter fun m => keep m.key).map Member.key = known.filter keep := by
    rw [← hknown, List.filter_map]
    rfl
  have hall : ((own.filter fun m => keep m.key).map Member.key).filter known.contains = known.filter keep := by
    rw [hkeys, List.filter_eq_self]
    intro name hname
    rw [List.contains_eq_mem]
    exact decide_eq_true (List.mem_of_mem_filter hname)
  have hnone : (others.map Member.key).filter known.contains = [] := by
    simpa [List.filter_eq_nil_iff] using hothers
  have hnames := (hperm.map Member.key).filter known.contains
  rwa [List.map_append, List.filter_append, hnone, hall, List.append_nil] at hnames

/-- A record of known and foreign members is read as its known names tell. -/
theorem reads_recordText {known : List Text} {ms : List Member} (hms : ∀ m ∈ ms, IsMember fields state known m)
    (hnodup : (namesIn known ms).Nodup) :
    Reads (readRecord fields (state [])) (recordText ms) (state (namesIn known ms).reverse) := by
  intro rest _
  have hopen : ∀ t, readRecord fields (state []) ('{' :: t) =
      if (skipGap t).head? = some '}' then .ok (state [], (skipGap t).tail)
      else readMembers fields (t.length + 1) (state []) [] t := fun _ => rfl
  rw [recordText, List.cons_append, List.append_assoc, List.singleton_append, hopen]
  cases ms with
  | nil => rfl
  | cons m ms =>
    have hfresh : ((namesIn known (m :: ms)).reverse ++ []).Nodup := by
      rwa [List.append_nil, List.nodup_reverse]
    have hfuel : (m :: ms).length ≤
        (Text.joinWith [','] ((m :: ms).map Member.text) ++ '}' :: rest).length + 1 := by
      have := length_le_flatMap (ms.map Member.text)
      rw [List.map_cons, joinWith_cons_eq, List.length_append, List.length_append, List.length_cons]
      rw [List.length_map] at this
      omega
    obtain ⟨more, hmore⟩ := exists_joinWith_append m.text (ms.map Member.text) ('}' :: rest)
    have hhead : (skipGap (Text.joinWith [','] ((m :: ms).map Member.text) ++ '}' :: rest)).head? ≠ some '}' := by
      rw [List.map_cons, hmore, text_append, skipGap_cons rfl]
      exact fun h => absurd (Option.some.inj h) (by decide)
    rw [if_neg hhead, readMembers_join (List.cons_ne_nil m ms) hms hfresh hfuel, List.append_nil]

/-- **An arranged record is read** as one of the members that it has kept. -/
theorem readRecord_arranged {own ms : List Member} {keep : Text → Bool} (hown : ∀ m ∈ own, Known fields state m)
    (hnames : fields.map Field.name = own.map Member.key) (hnodup : (own.map Member.key).Nodup)
    (h : Arranged own keep ms) :
    ∃ names, (∀ name, name ∈ names ↔ name ∈ own.map Member.key ∧ keep name = true) ∧
      Reads (readRecord fields (state [])) (recordText ms) (state names) := by
  obtain ⟨others, hperm, hforeign⟩ := h
  generalize hknown : own.map Member.key = known at *
  have hspells : ∀ k ∈ known, Spells k k := by
    rintro k hk
    rw [← hknown] at hk
    obtain ⟨m, hm, rfl⟩ := List.mem_map.mp hk
    exact (hown m hm).spells
  have hothers : ∀ m ∈ others, m.key ∉ known := fun m hm => (hforeign m hm).key_notMem hspells
  have hkept : (namesIn known ms).Perm (known.filter keep) := namesIn_perm hknown hothers hperm
  have hmembers : ∀ m ∈ ms, IsMember fields state known m := by
    intro m hm
    rcases List.mem_append.mp (hperm.subset hm) with hm | hm
    · have hmem := List.mem_of_mem_filter hm
      exact .inl ⟨hknown ▸ List.mem_map_of_mem hmem, hown m hmem⟩
    · exact .inr ⟨hothers m hm, hnames ▸ hforeign m hm⟩
  refine ⟨(namesIn known ms).reverse, fun name => ?_, reads_recordText hmembers ?_⟩
  · rw [List.mem_reverse, hkept.mem_iff, List.mem_filter]
  · rw [hkept.nodup_iff]
    exact hnodup.filter _

end Members

end Ambient.Json
