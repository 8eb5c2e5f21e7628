import Ambient.Text.Utf8
import Ambient.Proofs.Text.Squeeze
import Mathlib.Data.List.Basic

/-!
# Texts and their bytes

The bytes of a text are read back as this text, and no other bytes are (`ofBytes?_eq_some_iff`). So two texts with
the same bytes are the same (`toBytes_injective`).

Both halves go character by character. A first byte fixes how many bytes there are and the bounds of the second one:
`start_two`, `start_three`, `start_four`. A character whose code needs that many bytes meets these bounds
(`scan_encode`), and bytes that meet them are those of the character that is read (`exists_char_of_scan`).

A slash is one byte, and no other character has this byte in it (`count_toBytes`).
-/

namespace Ambient

namespace Utf8

variable {b : UInt8} {bs : Bytes} {t : Text} {c : Char} {n : Nat}

/-! ## 1. First bytes -/

theorem start_one (h : b.toNat < 0x80) : start b = .whole (Char.ofNat b.toNat) := if_pos h

theorem start_two (hlow : 0xC2 ≤ b.toNat) (hhigh : b.toNat ≤ 0xDF) :
    start b = .sequence ⟨1, 0x80, 0xBF, b.toNat - 0xC0⟩ := by
  unfold start
  dsimp only
  rw [if_neg (by omega), if_pos ⟨hlow, hhigh⟩]

theorem start_three (hlow : 0xE0 ≤ b.toNat) (hhigh : b.toNat ≤ 0xEF) :
    start b = .sequence ⟨2, if b.toNat = 0xE0 then 0xA0 else 0x80, if b.toNat = 0xED then 0x9F else 0xBF,
      b.toNat - 0xE0⟩ := by
  unfold start
  dsimp only
  rw [if_neg (by omega), if_neg (by omega)]
  by_cases hfirst : b.toNat = 0xE0
  · rw [if_pos hfirst, if_pos hfirst, if_neg (by omega), hfirst]
  by_cases hsurrogate : b.toNat = 0xED
  · rw [if_neg hfirst, if_pos hsurrogate, if_neg hfirst, if_pos hsurrogate, hsurrogate]
  · rw [if_neg hfirst, if_neg hsurrogate, if_neg hfirst, if_neg hsurrogate, if_pos (by omega)]

theorem start_four (hlow : 0xF0 ≤ b.toNat) (hhigh : b.toNat ≤ 0xF4) :
    start b = .sequence ⟨3, if b.toNat = 0xF0 then 0x90 else 0x80, if b.toNat = 0xF4 then 0x8F else 0xBF,
      b.toNat - 0xF0⟩ := by
  unfold start
  dsimp only
  rw [if_neg (by omega), if_neg (by omega), if_neg (by omega), if_neg (by omega), if_neg (by omega)]
  by_cases hfirst : b.toNat = 0xF0
  · rw [if_pos hfirst, if_pos hfirst, if_neg (by omega), hfirst]
  by_cases hlast : b.toNat = 0xF4
  · rw [if_neg hfirst, if_neg (by omega), if_pos hlast, if_neg hfirst, if_pos hlast, hlast]
  · rw [if_neg hfirst, if_pos (by omega), if_neg hfirst, if_neg hlast]

theorem start_nothing (h : 0x80 ≤ b.toNat ∧ b.toNat ≤ 0xC1 ∨ 0xF5 ≤ b.toNat) : start b = .nothing := by
  unfold start
  dsimp only
  rw [if_neg (by omega), if_neg (by omega), if_neg (by omega), if_neg (by omega), if_neg (by omega),
    if_neg (by omega), if_neg (by omega), if_neg (by omega)]

/-! ## 2. Scanning -/

theorem scan_of_whole (h : start b = .whole c) : scan none (b :: bs) = some c :: scan none bs := by
  rw [scan, h]

theorem scan_of_sequence {p : Pending} (h : start b = .sequence p) : scan none (b :: bs) = scan (some p) bs := by
  rw [scan, h]

theorem scan_of_nothing (h : start b = .nothing) : scan none (b :: bs) = none :: scan none bs := by
  rw [scan, h]

section Within

variable {left low high bits : Nat}

theorem scan_last (hlow : low ≤ b.toNat) (hhigh : b.toNat ≤ high) :
    scan (some ⟨1, low, high, bits⟩) (b :: bs) =
      some (Char.ofNat (bits * 0x40 + (b.toNat - 0x80))) :: scan none bs := by
  rw [scan]
  dsimp only
  rw [if_pos ⟨hlow, hhigh⟩, if_pos rfl]

theorem scan_next (hlow : low ≤ b.toNat) (hhigh : b.toNat ≤ high) :
    scan (some ⟨left + 2, low, high, bits⟩) (b :: bs) =
      scan (some ⟨left + 1, 0x80, 0xBF, bits * 0x40 + (b.toNat - 0x80)⟩) bs := by
  rw [scan]
  dsimp only
  rw [if_pos ⟨hlow, hhigh⟩, if_neg (by omega)]
  rfl

end Within

/-- The characters, if there is no gap. -/
theorem mapM_cons_iff {found : Option Char} {more : List (Option Char)} :
    (found :: more).mapM id = some t ↔ ∃ c u, found = some c ∧ more.mapM id = some u ∧ t = c :: u := by
  rw [List.mapM_cons]
  constructor
  · intro h
    obtain ⟨c, hc, h⟩ := Option.bind_eq_some_iff.mp h
    obtain ⟨u, hu, h⟩ := Option.bind_eq_some_iff.mp h
    exact ⟨c, u, hc, hu, (Option.some.inj h).symm⟩
  · rintro ⟨c, u, rfl, hu, rfl⟩
    rw [hu]
    rfl

/-- Where there is no gap, a sequence goes on with a byte within its bounds. -/
theorem exists_within {left low high bits : Nat} (h : (scan (some ⟨left, low, high, bits⟩) bs).mapM id = some t) :
    ∃ b rest, bs = b :: rest ∧ low ≤ b.toNat ∧ b.toNat ≤ high := by
  cases bs with
  | nil => cases h
  | cons b rest =>
    refine ⟨b, rest, rfl, ?_⟩
    by_contra hout
    rw [scan] at h
    dsimp only at h
    rw [if_neg hout] at h
    obtain ⟨c, u, hc, -⟩ := mapM_cons_iff.mp h
    cases hc

/-! ## 3. Characters -/

theorem toNat_ofNat (h : n < 256) : (UInt8.ofNat n).toNat = n := Nat.mod_eq_of_lt h

theorem isValidChar_toNat (c : Char) : c.toNat.isValidChar := c.valid

theorem encode_one (h : c.toNat ≤ 0x7F) : String.utf8EncodeChar c = [UInt8.ofNat c.toNat] := if_pos h

theorem encode_two (hlow : 0x7F < c.toNat) (hhigh : c.toNat ≤ 0x7FF) :
    String.utf8EncodeChar c =
      [UInt8.ofNat (c.toNat / 64 % 0x20 + 0xC0), UInt8.ofNat (c.toNat % 0x40 + 0x80)] :=
  (if_neg (Nat.not_le_of_lt hlow)).trans (if_pos hhigh)

theorem encode_three (hlow : 0x7FF < c.toNat) (hhigh : c.toNat ≤ 0xFFFF) :
    String.utf8EncodeChar c =
      [UInt8.ofNat (c.toNat / 4096 % 0x10 + 0xE0), UInt8.ofNat (c.toNat / 64 % 0x40 + 0x80),
        UInt8.ofNat (c.toNat % 0x40 + 0x80)] :=
  (if_neg (by show ¬c.toNat ≤ 0x7F; omega)).trans ((if_neg (Nat.not_le_of_lt hlow)).trans (if_pos hhigh))

theorem encode_four (hlow : 0xFFFF < c.toNat) :
    String.utf8EncodeChar c =
      [UInt8.ofNat (c.toNat / 262144 % 0x08 + 0xF0), UInt8.ofNat (c.toNat / 4096 % 0x40 + 0x80),
        UInt8.ofNat (c.toNat / 64 % 0x40 + 0x80), UInt8.ofNat (c.toNat % 0x40 + 0x80)] :=
  (if_neg (by show ¬c.toNat ≤ 0x7F; omega)).trans
    ((if_neg (by show ¬c.toNat ≤ 0x7FF; omega)).trans (if_neg (Nat.not_le_of_lt hlow)))

/-- **The bytes of a character are read as this character.** -/
theorem scan_encode (c : Char) (bs : Bytes) :
    scan none (String.utf8EncodeChar c ++ bs) = some c :: scan none bs := by
  have hvalid := isValidChar_toNat c
  unfold Nat.isValidChar at hvalid
  have hof : ∀ n, n = c.toNat → some (Char.ofNat n) = some c := fun n hn => by rw [hn, Char.ofNat_toNat]
  by_cases hone : c.toNat ≤ 0x7F
  · have hb : (UInt8.ofNat c.toNat).toNat = c.toNat := toNat_ofNat (by omega)
    rw [encode_one hone, List.singleton_append, scan_of_whole (start_one (by omega)), hof _ hb]
  by_cases htwo : c.toNat ≤ 0x7FF
  · have hb : (UInt8.ofNat (c.toNat / 64 % 0x20 + 0xC0)).toNat = c.toNat / 64 % 0x20 + 0xC0 :=
      toNat_ofNat (by omega)
    have hd : (UInt8.ofNat (c.toNat % 0x40 + 0x80)).toNat = c.toNat % 0x40 + 0x80 := toNat_ofNat (by omega)
    rw [encode_two (by omega) htwo, List.cons_append, List.singleton_append,
      scan_of_sequence (start_two (by omega) (by omega)), scan_last (by omega) (by omega), hof _ (by omega)]
  by_cases hthree : c.toNat ≤ 0xFFFF
  · have hb : (UInt8.ofNat (c.toNat / 4096 % 0x10 + 0xE0)).toNat = c.toNat / 4096 % 0x10 + 0xE0 :=
      toNat_ofNat (by omega)
    have hd : (UInt8.ofNat (c.toNat / 64 % 0x40 + 0x80)).toNat = c.toNat / 64 % 0x40 + 0x80 :=
      toNat_ofNat (by omega)
    have he : (UInt8.ofNat (c.toNat % 0x40 + 0x80)).toNat = c.toNat % 0x40 + 0x80 := toNat_ofNat (by omega)
    rw [encode_three (by omega) hthree, List.cons_append, List.cons_append, List.singleton_append,
      scan_of_sequence (start_three (by omega) (by omega)),
      scan_next (by split <;> omega) (by split <;> omega), scan_last (by omega) (by omega), hof _ (by omega)]
  · have hb : (UInt8.ofNat (c.toNat / 262144 % 0x08 + 0xF0)).toNat = c.toNat / 262144 % 0x08 + 0xF0 :=
      toNat_ofNat (by omega)
    have hd : (UInt8.ofNat (c.toNat / 4096 % 0x40 + 0x80)).toNat = c.toNat / 4096 % 0x40 + 0x80 :=
      toNat_ofNat (by omega)
    have he : (UInt8.ofNat (c.toNat / 64 % 0x40 + 0x80)).toNat = c.toNat / 64 % 0x40 + 0x80 :=
      toNat_ofNat (by omega)
    have hf : (UInt8.ofNat (c.toNat % 0x40 + 0x80)).toNat = c.toNat % 0x40 + 0x80 := toNat_ofNat (by omega)
    rw [encode_four (by omega), List.cons_append, List.cons_append, List.cons_append, List.singleton_append,
      scan_of_sequence (start_four (by omega) (by omega)),
      scan_next (by split <;> omega) (by split <;> omega), scan_next (by omega) (by omega),
      scan_last (by omega) (by omega), hof _ (by omega)]

/-- A byte is told by its number. -/
theorem ofNat_eq (h : n = b.toNat) : UInt8.ofNat n = b := by rw [h, UInt8.ofNat_toNat]

theorem toNat_char (h : n.isValidChar) : (Char.ofNat n).toNat = n := by
  unfold Char.ofNat
  rw [dif_pos h]
  rfl

/-- **Where there is no gap, the first bytes are those of the first character.** -/
theorem exists_char_of_scan (h : (scan none (b :: bs)).mapM id = some t) :
    ∃ c u rest, t = c :: u ∧ b :: bs = String.utf8EncodeChar c ++ rest ∧ (scan none rest).mapM id = some u := by
  have hbyte := b.toNat_lt
  by_cases hone : b.toNat < 0x80
  · rw [scan_of_whole (start_one hone)] at h
    obtain ⟨c, u, hc, hu, rfl⟩ := mapM_cons_iff.mp h
    obtain rfl := Option.some.inj hc
    have hn : (Char.ofNat b.toNat).toNat = b.toNat := toNat_char (by unfold Nat.isValidChar; omega)
    refine ⟨_, u, bs, rfl, ?_, hu⟩
    rw [encode_one (by omega), ofNat_eq hn, List.singleton_append]
  by_cases hnone : b.toNat ≤ 0xC1 ∨ 0xF5 ≤ b.toNat
  · rw [scan_of_nothing (start_nothing (by omega))] at h
    obtain ⟨c, u, hc, -⟩ := mapM_cons_iff.mp h
    cases hc
  by_cases htwo : b.toNat ≤ 0xDF
  · rw [scan_of_sequence (start_two (by omega) htwo)] at h
    obtain ⟨d, rest, rfl, hdlow, hdhigh⟩ := exists_within h
    rw [scan_last hdlow hdhigh] at h
    obtain ⟨c, u, hc, hu, rfl⟩ := mapM_cons_iff.mp h
    obtain rfl := Option.some.inj hc
    have hn := toNat_char (n := (b.toNat - 0xC0) * 0x40 + (d.toNat - 0x80)) (by unfold Nat.isValidChar; omega)
    refine ⟨_, u, rest, rfl, ?_, hu⟩
    rw [encode_two (by omega) (by omega), ofNat_eq (b := b) (by omega), ofNat_eq (b := d) (by omega)]
    rfl
  by_cases hthree : b.toNat ≤ 0xEF
  · rw [scan_of_sequence (start_three (by omega) hthree)] at h
    obtain ⟨d, rest, rfl, hdlow, hdhigh⟩ := exists_within h
    rw [scan_next hdlow hdhigh] at h
    obtain ⟨e, rest, rfl, helow, hehigh⟩ := exists_within h
    rw [scan_last helow hehigh] at h
    obtain ⟨c, u, hc, hu, rfl⟩ := mapM_cons_iff.mp h
    obtain rfl := Option.some.inj hc
    have hd : 0x80 ≤ d.toNat ∧ d.toNat ≤ 0xBF ∧ (b.toNat = 0xE0 → 0xA0 ≤ d.toNat) ∧
        (b.toNat = 0xED → d.toNat ≤ 0x9F) := by
      split at hdlow <;> split at hdhigh <;> omega
    have hn := toNat_char (n := ((b.toNat - 0xE0) * 0x40 + (d.toNat - 0x80)) * 0x40 + (e.toNat - 0x80))
      (by unfold Nat.isValidChar; omega)
    refine ⟨_, u, rest, rfl, ?_, hu⟩
    rw [encode_three (by omega) (by omega), ofNat_eq (b := b) (by omega), ofNat_eq (b := d) (by omega),
      ofNat_eq (b := e) (by omega)]
    rfl
  · rw [scan_of_sequence (start_four (by omega) (by omega))] at h
    obtain ⟨d, rest, rfl, hdlow, hdhigh⟩ := exists_within h
    rw [scan_next hdlow hdhigh] at h
    obtain ⟨e, rest, rfl, helow, hehigh⟩ := exists_within h
    rw [scan_next helow hehigh] at h
    obtain ⟨f, rest, rfl, hflow, hfhigh⟩ := exists_within h
    rw [scan_last hflow hfhigh] at h
    obtain ⟨c, u, hc, hu, rfl⟩ := mapM_cons_iff.mp h
    obtain rfl := Option.some.inj hc
    have hd : 0x80 ≤ d.toNat ∧ d.toNat ≤ 0xBF ∧ (b.toNat = 0xF0 → 0x90 ≤ d.toNat) ∧
        (b.toNat = 0xF4 → d.toNat ≤ 0x8F) := by
      split at hdlow <;> split at hdhigh <;> omega
    have hn := toNat_char
      (n := (((b.toNat - 0xF0) * 0x40 + (d.toNat - 0x80)) * 0x40 + (e.toNat - 0x80)) * 0x40 + (f.toNat - 0x80))
      (by unfold Nat.isValidChar; omega)
    refine ⟨_, u, rest, rfl, ?_, hu⟩
    rw [encode_four (by omega), ofNat_eq (b := b) (by omega), ofNat_eq (b := d) (by omega),
      ofNat_eq (b := e) (by omega), ofNat_eq (b := f) (by omega)]
    rfl

end Utf8

namespace Text

/-! ## 4. Texts -/

theorem toBytes_cons (c : Char) (t : Text) : toBytes (c :: t) = String.utf8EncodeChar c ++ t.toBytes :=
  List.flatMap_cons

theorem toBytes_append (t u : Text) : toBytes (t ++ u) = t.toBytes ++ u.toBytes := List.flatMap_append

/-- The bytes of a text are this text. -/
theorem ofBytes?_toBytes (t : Text) : ofBytes? t.toBytes = some t := by
  unfold ofBytes?
  induction t with
  | nil => rfl
  | cons c t ih =>
    rw [toBytes_cons, Utf8.scan_encode]
    exact Utf8.mapM_cons_iff.mpr ⟨c, t, rfl, ih, rfl⟩

/-- Bytes that are a text are its bytes. -/
theorem toBytes_of_ofBytes? {bs : Bytes} {t : Text} (h : ofBytes? bs = some t) : t.toBytes = bs := by
  unfold ofBytes? at h
  induction t generalizing bs with
  | nil =>
    cases bs with
    | nil => rfl
    | cons b bs =>
      obtain ⟨c, u, rest, hcons, -⟩ := Utf8.exists_char_of_scan h
      cases hcons
  | cons c t ih =>
    cases bs with
    | nil => cases h
    | cons b bs =>
      obtain ⟨d, u, rest, hcons, hbytes, hrest⟩ := Utf8.exists_char_of_scan h
      cases hcons
      rw [toBytes_cons, ih hrest, hbytes]

/-- **Bytes are a text if and only if they are its bytes.** -/
theorem ofBytes?_eq_some_iff {bs : Bytes} {t : Text} : ofBytes? bs = some t ↔ t.toBytes = bs :=
  ⟨toBytes_of_ofBytes?, fun h => h ▸ ofBytes?_toBytes t⟩

/-- Names are texts if and only if they are the bytes of these texts. -/
theorem mapM_ofBytes?_eq_some_iff {bss : List Bytes} {ts : List Text} :
    bss.mapM ofBytes? = some ts ↔ ts.map toBytes = bss := by
  constructor
  · intro h
    induction bss generalizing ts with
    | nil =>
      cases h
      rfl
    | cons bs bss ih =>
      rw [List.mapM_cons] at h
      obtain ⟨t, ht, h⟩ := Option.bind_eq_some_iff.mp h
      obtain ⟨ts, hts, h⟩ := Option.bind_eq_some_iff.mp h
      cases h
      rw [List.map_cons, ih hts, toBytes_of_ofBytes? ht]
  · rintro rfl
    induction ts with
    | nil => rfl
    | cons t ts ih =>
      rw [List.map_cons, List.mapM_cons, ofBytes?_toBytes, ih]
      rfl

theorem toBytes_injective : Function.Injective toBytes := fun t u h =>
  Option.some.inj ((ofBytes?_toBytes t).symm.trans (h ▸ ofBytes?_toBytes u))

/-- Joined texts are joined bytes. -/
theorem toBytes_joinWith (separator : Text) (pieces : List Text) :
    (joinWith separator pieces).toBytes = separator.toBytes.intercalate (pieces.map toBytes) := by
  induction pieces with
  | nil => rfl
  | cons piece pieces ih =>
    cases pieces with
    | nil => rw [joinWith_singleton, List.map_singleton, List.intercalate_singleton]
    | cons next pieces =>
      rw [joinWith_cons_cons, toBytes_append, toBytes_append, ih, List.map_cons, List.map_cons, List.map_cons,
        List.intercalate_cons_cons, List.append_assoc]

/-! ## 5. Slashes -/

/-- Only a slash has the byte of a slash in it. -/
theorem count_encode (c : Char) : (String.utf8EncodeChar c).count slash = if c = '/' then 1 else 0 := by
  have hof : ∀ n < 256, UInt8.ofNat n = slash → n = 47 := fun n hn h => by
    rw [← Utf8.toNat_ofNat hn, h]
    rfl
  have hslash : c = '/' ↔ c.toNat = 47 := ⟨fun h => h ▸ rfl, fun h => by rw [← Char.ofNat_toNat c, h]⟩
  by_cases hone : c.toNat ≤ 0x7F
  · rw [Utf8.encode_one hone, List.count_singleton]
    by_cases hc : c = '/'
    · subst hc
      rfl
    · rw [if_neg hc, if_neg]
      intro hbyte
      exact hc (hslash.mpr (hof _ (by omega) (beq_iff_eq.mp hbyte)))
  · have hc : c ≠ '/' := fun h => by
      have hn := hslash.mp h
      omega
    rw [if_neg hc, List.count_eq_zero]
    intro hmem
    by_cases htwo : c.toNat ≤ 0x7FF
    · rw [Utf8.encode_two (by omega) htwo] at hmem
      simp only [List.mem_cons, List.not_mem_nil, or_false] at hmem
      rcases hmem with hbyte | hbyte <;> exact absurd (hof _ (by omega) hbyte.symm) (by omega)
    by_cases hthree : c.toNat ≤ 0xFFFF
    · rw [Utf8.encode_three (by omega) hthree] at hmem
      simp only [List.mem_cons, List.not_mem_nil, or_false] at hmem
      rcases hmem with hbyte | hbyte | hbyte <;> exact absurd (hof _ (by omega) hbyte.symm) (by omega)
    · rw [Utf8.encode_four (by omega)] at hmem
      simp only [List.mem_cons, List.not_mem_nil, or_false] at hmem
      rcases hmem with hbyte | hbyte | hbyte | hbyte <;> exact absurd (hof _ (by omega) hbyte.symm) (by omega)

/-- **A text has as many slashes as its bytes.** -/
theorem count_toBytes (t : Text) : t.toBytes.count slash = t.count '/' := by
  induction t with
  | nil => rfl
  | cons c t ih =>
    rw [toBytes_cons, List.count_append, count_encode, ih, List.count_cons, Nat.add_comm]
    simp only [beq_iff_eq]

end Text
end Ambient
