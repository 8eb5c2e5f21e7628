import Ambient.Glob.Parser
import Ambient.Proofs.Text.Cut
import Ambient.Proofs.Text.Utf8
import Mathlib.Data.ENat.Lattice

/-!
# Slashes in globs

A token takes at most so many slashes: `slashes`. The recursive tokens take any number, a class takes one if it is
made so, and all other tokens take the slashes that they write. What a glob matches has no more slashes than that
(`Glob.count_le_of_matchesPath`).

A pattern without `**` writes no recursive tokens, and each slash of its tokens has a slash of its own in the
pattern: `Glob.written_le`. Only classes are an exception, as they can take a slash that nobody has written:
`[!x]`, or `[.-0]`. So `slashes` counts classes as it is told. If no class takes a slash that is not written in it,
the glob takes no more slashes than its pattern has (`Glob.mostSlashes_le`).
-/

namespace Ambient

namespace Token

/-! ## 1. Slashes of tokens -/

section Slashes

variable (ofClass : Bool → List (Char × Char) → ℕ∞)

mutual

/-- The most slashes that the token can take, if classes take as many as `ofClass` says. -/
noncomputable def slashes : Token → ℕ∞
  | literal c => if c = '/' then 1 else 0
  | any | star => 0
  | recursivePrefix | recursiveSuffix | recursiveMiddle => ⊤
  | charClass isNegated ranges => ofClass isNegated ranges
  | alternates branches => slashesOfBranches branches

/-- The most slashes that the tokens can take together. -/
noncomputable def slashesOfAll : List Token → ℕ∞
  | [] => 0
  | token :: tokens => slashes token + slashesOfAll tokens

/-- The most slashes that one of the branches can take. -/
noncomputable def slashesOfBranches : List (List Token) → ℕ∞
  | [] => 0
  | branch :: branches => max (slashesOfAll branch) (slashesOfBranches branches)

end

theorem slashesOfAll_append (before behind : List Token) :
    slashesOfAll ofClass (before ++ behind) = slashesOfAll ofClass before + slashesOfAll ofClass behind := by
  induction before with
  | nil => rw [List.nil_append, slashesOfAll, zero_add]
  | cons token before ih => rw [List.cons_append, slashesOfAll, slashesOfAll, ih, add_assoc]

theorem slashesOfAll_singleton (token : Token) : slashesOfAll ofClass [token] = slashes ofClass token := by
  rw [slashesOfAll, slashesOfAll, add_zero]

/-- A branch more takes no more than it adds. -/
theorem slashesOfBranches_concat_le (branches : List (List Token)) (branch : List Token) :
    slashesOfBranches ofClass (branches ++ [branch]) ≤
      slashesOfBranches ofClass branches + slashesOfAll ofClass branch := by
  induction branches with
  | nil =>
    rw [List.nil_append, slashesOfBranches, slashesOfBranches, slashesOfBranches, max_eq_left zero_le, zero_add]
  | cons first branches ih =>
    rw [List.cons_append, slashesOfBranches, slashesOfBranches]
    refine max_le ?_ (ih.trans (add_le_add_left (le_max_right _ _) _))
    exact (le_max_left _ _).trans le_self_add

mutual

/-- The classes of the token, those in its branches included. -/
def classes : Token → List (Bool × List (Char × Char))
  | charClass isNegated ranges => [(isNegated, ranges)]
  | alternates branches => classesOfBranches branches
  | literal _ | any | star | recursivePrefix | recursiveSuffix | recursiveMiddle => []

/-- The classes of the tokens. -/
def classesOfAll : List Token → List (Bool × List (Char × Char))
  | [] => []
  | token :: tokens => classes token ++ classesOfAll tokens

/-- The classes of the branches. -/
def classesOfBranches : List (List Token) → List (Bool × List (Char × Char))
  | [] => []
  | branch :: branches => classesOfAll branch ++ classesOfBranches branches

end

variable {ofClass} {ofClass' : Bool → List (Char × Char) → ℕ∞}

mutual

/-- **Where no class counts for more, no token does.** -/
theorem slashes_le_slashes : ∀ (token : Token), (∀ c ∈ classes token, ofClass c.1 c.2 ≤ ofClass' c.1 c.2) →
    slashes ofClass token ≤ slashes ofClass' token
  | charClass isNegated ranges, h => by
    rw [slashes, slashes]
    exact h (isNegated, ranges) (List.mem_singleton_self _)
  | alternates branches, h => by
    rw [slashes, slashes]
    exact slashesOfBranches_le branches h
  | literal _, _ | any, _ | star, _ | recursivePrefix, _ | recursiveSuffix, _ | recursiveMiddle, _ => le_rfl

theorem slashesOfAll_le : ∀ (tokens : List Token),
    (∀ c ∈ classesOfAll tokens, ofClass c.1 c.2 ≤ ofClass' c.1 c.2) →
    slashesOfAll ofClass tokens ≤ slashesOfAll ofClass' tokens
  | [], _ => le_rfl
  | token :: tokens, h => by
    obtain ⟨htoken, htokens⟩ := List.forall_mem_append.mp h
    exact add_le_add (slashes_le_slashes token htoken) (slashesOfAll_le tokens htokens)

theorem slashesOfBranches_le : ∀ (branches : List (List Token)),
    (∀ c ∈ classesOfBranches branches, ofClass c.1 c.2 ≤ ofClass' c.1 c.2) →
    slashesOfBranches ofClass branches ≤ slashesOfBranches ofClass' branches
  | [], _ => le_rfl
  | branch :: branches, h => by
    obtain ⟨hbranch, hbranches⟩ := List.forall_mem_append.mp h
    exact max_le_max (slashesOfAll_le branch hbranch) (slashesOfBranches_le branches hbranches)

end

end Slashes

/-! ## 2. What is taken -/

/-- A class takes one slash if a slash is in it, or, where it is negated, is not. -/
def takenByClass (isNegated : Bool) (ranges : List (Char × Char)) : ℕ∞ :=
  if inClass ranges slash != isNegated then 1 else 0

section Taken

variable {bs rest : Bytes}

theorem count_of_mem_segmentRests (h : rest ∈ segmentRests bs) : bs.count slash = rest.count slash := by
  induction bs with
  | nil =>
    rw [segmentRests, List.mem_singleton] at h
    rw [h]
  | cons b bs ih =>
    rw [segmentRests] at h
    rcases List.mem_cons.mp h with rfl | h
    · rfl
    split at h
    · exact absurd h List.not_mem_nil
    · rename_i hb
      rw [List.count_cons_of_ne hb, ih h]

mutual

/-- **A token takes no more slashes than it can.** -/
theorem count_le_of_mem_rests : ∀ (token : Token) {bs rest : Bytes}, rest ∈ token.rests bs →
    (bs.count slash : ℕ∞) ≤ token.slashes takenByClass + rest.count slash
  | literal c, bs, rest, h => by
    rw [rests, Option.mem_toList] at h
    have hbs := List.isPrefixOf?_eq_some_iff_append_eq.mp h
    rw [← hbs, List.count_append, Text.count_encode, slashes]
    push_cast
    exact le_rfl
  | any, bs, rest, h => by
    cases bs with
    | nil => exact absurd h List.not_mem_nil
    | cons b bs =>
      unfold rests at h
      dsimp only at h
      split at h
      · exact absurd h List.not_mem_nil
      · rename_i hb
        rw [List.mem_singleton.mp h, List.count_cons_of_ne hb]
        exact le_add_self
  | star, bs, rest, h => by
    rw [rests] at h
    rw [count_of_mem_segmentRests h]
    exact le_add_self
  | recursivePrefix, _, _, _ => by
    rw [slashes, top_add]
    exact le_top
  | recursiveSuffix, _, _, _ => by
    rw [slashes, top_add]
    exact le_top
  | recursiveMiddle, _, _, _ => by
    rw [slashes, top_add]
    exact le_top
  | charClass isNegated ranges, bs, rest, h => by
    cases bs with
    | nil => exact absurd h List.not_mem_nil
    | cons b bs =>
      unfold rests at h
      dsimp only at h
      split at h
      · rename_i htakes
        rw [List.mem_singleton.mp h, slashes, takenByClass]
        by_cases hb : b = slash
        · subst hb
          rw [if_pos htakes, List.count_cons_self, add_comm]
          push_cast
          exact le_rfl
        · rw [List.count_cons_of_ne hb]
          exact le_add_self
      · exact absurd h List.not_mem_nil
  | alternates branches, bs, rest, h => by
    rw [rests] at h
    split at h
    · rw [List.mem_singleton.mp h]
      exact le_add_self
    · rw [slashes]
      exact count_le_of_mem_branches branches h

/-- Tokens take no more slashes than they can together. -/
theorem count_le_of_mem_all : ∀ (tokens : List Token) {starts : List Bytes} {rest : Bytes},
    rest ∈ restsOfAll tokens starts →
    ∃ start ∈ starts, (start.count slash : ℕ∞) ≤ slashesOfAll takenByClass tokens + rest.count slash
  | [], starts, rest, h => by
    rw [restsOfAll] at h
    exact ⟨rest, h, le_add_self⟩
  | token :: tokens, starts, rest, h => by
    rw [restsOfAll] at h
    obtain ⟨middle, hmiddle, hbehind⟩ := count_le_of_mem_all tokens h
    obtain ⟨start, hstart, htoken⟩ := List.mem_flatMap.mp (List.mem_eraseDups.mp hmiddle)
    refine ⟨start, hstart, (count_le_of_mem_rests token htoken).trans ?_⟩
    rw [slashesOfAll, add_assoc]
    exact add_le_add_right hbehind _

/-- A branch takes no more slashes than one of them can. -/
theorem count_le_of_mem_branches : ∀ (branches : List (List Token)) {bs rest : Bytes},
    rest ∈ restsOfBranches branches bs →
    (bs.count slash : ℕ∞) ≤ slashesOfBranches takenByClass branches + rest.count slash
  | [], _, _, h => by
    rw [restsOfBranches] at h
    exact absurd h List.not_mem_nil
  | branch :: branches, bs, rest, h => by
    rw [restsOfBranches] at h
    rw [slashesOfBranches]
    rcases List.mem_append.mp h with h | h
    · split at h
      · exact absurd h List.not_mem_nil
      · obtain ⟨start, hstart, hle⟩ := count_le_of_mem_all branch h
        rw [List.mem_singleton.mp hstart] at hle
        exact hle.trans (add_le_add_left (le_max_left _ _) _)
    · exact (count_le_of_mem_branches branches h).trans (add_le_add_left (le_max_right _ _) _)

end

end Taken

end Token

/-- The most slashes that a glob can take. -/
noncomputable def Glob.mostSlashes (glob : Glob) : ℕ∞ := Token.slashesOfAll Token.takenByClass glob.tokens

/-- **What a glob matches has no more slashes than it can take.** -/
theorem Glob.count_le_of_matchesPath {glob : Glob} {path : Bytes} (h : glob.matchesPath path = true) :
    (path.count slash : ℕ∞) ≤ glob.mostSlashes := by
  unfold Glob.matchesPath at h
  rcases (Bool.or_eq_true _ _).mp h with heverything | hrests
  · unfold Glob.isEverything at heverything
    split at heverything
    · rename_i htokens
      unfold Glob.mostSlashes
      rw [htokens, Token.slashesOfAll_singleton, Token.slashes]
      exact le_top
    · cases heverything
  · obtain ⟨start, hstart, hle⟩ := Token.count_le_of_mem_all glob.tokens (List.contains_iff_mem.mp hrests)
    rw [List.mem_singleton.mp hstart, List.count_nil, Nat.cast_zero, add_zero] at hle
    exact hle

/-! ## 3. What is written -/

namespace Token

/-- Is a slash an end of one of the ranges? -/
def hasSlash (ranges : List (Char × Char)) : Bool := ranges.any fun (low, high) => low == '/' || high == '/'

/-- A class writes a slash if one of its ranges starts or ends with it. -/
def writtenInClass (_ : Bool) (ranges : List (Char × Char)) : ℕ∞ := if hasSlash ranges then 1 else 0

end Token

namespace Glob

open Token

variable {t rest : Text} {allowUnclosed : Bool} {p p' : Partial}

/-- **The ends of a class's ranges stand in its text.** -/
theorem exists_of_classRanges {ranges found : List (Char × Char)} {isFirst inRange : Bool}
    (h : classRanges ranges isFirst inRange t = .ok (some (found, rest))) :
    ∃ read, t = read ++ rest ∧ read ≠ [] ∧ (hasSlash found = true → hasSlash ranges = true ∨ '/' ∈ read) := by
  induction t generalizing ranges isFirst inRange with
  | nil => cases h
  | cons c t ih =>
    have hstep : ∀ {ranges' isFirst' inRange'}, classRanges ranges' isFirst' inRange' t = .ok (some (found, rest)) →
        (hasSlash ranges' = true → hasSlash ranges = true ∨ c = '/') →
        ∃ read, c :: t = read ++ rest ∧ read ≠ [] ∧ (hasSlash found = true → hasSlash ranges = true ∨ '/' ∈ read) := by
      intro ranges' isFirst' inRange' h' hranges
      obtain ⟨read, rfl, -, hfound⟩ := ih h'
      refine ⟨c :: read, rfl, List.cons_ne_nil _ _, fun hs => ?_⟩
      rcases hfound hs with hs | hs
      · exact (hranges hs).imp id fun hc : c = '/' => hc ▸ List.mem_cons_self
      · exact .inr (List.mem_cons_of_mem _ hs)
    unfold classRanges at h
    split at h
    · cases h
      refine ⟨[c], rfl, List.cons_ne_nil _ _, fun hs => ?_⟩
      split at hs
      · exact .inl hs
      · exact .inl hs
    split at h
    · exact hstep h .inl
    split at h
    · rename_i low _ earlier
      split at h
      · cases h
      · refine hstep h fun hs => ?_
        unfold hasSlash at hs ⊢
        rw [List.any_cons, Bool.or_eq_true, Bool.or_eq_true, beq_iff_eq, beq_iff_eq] at hs
        rw [List.any_cons, Bool.or_eq_true, Bool.or_eq_true, beq_iff_eq, beq_iff_eq]
        rcases hs with (hs | hs) | hs
        · exact .inl (.inl (.inl hs))
        · exact .inr hs
        · exact .inl (.inr hs)
    · refine hstep h fun hs => ?_
      unfold hasSlash at hs
      rw [List.any_cons, Bool.or_eq_true, Bool.or_eq_true, beq_iff_eq, or_self] at hs
      exact hs.symm

/-- A class writes no more slashes than its text has. -/
theorem written_of_classAt {token : Token} (h : classAt t = .ok (some (token, rest))) :
    ∃ read, t = read ++ rest ∧ token.slashes writtenInClass ≤ read.count '/' := by
  unfold classAt at h
  dsimp only at h
  generalize hneg : (t.head? = some '!' || t.head? = some '^') = isNegated at h
  cases hranges : classRanges [] true false (if isNegated = true then t.tail else t) with
  | error _ =>
    rw [hranges] at h
    cases h
  | ok found =>
    rw [hranges] at h
    cases found with
    | none => cases h
    | some found =>
      obtain ⟨ranges, _⟩ := found
      cases h
      obtain ⟨read, hread, hne, hfound⟩ := exists_of_classRanges hranges
      have hcount : ∀ more : Text, read <:+ more →
          slashes writtenInClass (.charClass isNegated ranges) ≤ more.count '/' := by
        intro more hmore
        rw [slashes, writtenInClass]
        split
        · rename_i hs
          have hmem : '/' ∈ more := hmore.subset ((hfound hs).resolve_left Bool.false_ne_true)
          exact_mod_cast List.count_pos_iff.mpr hmem
        · exact zero_le
      cases isNegated with
      | false => exact ⟨read, hread, hcount read List.suffix_rfl⟩
      | true =>
        cases t with
        | nil =>
          rw [if_pos rfl] at hread
          exact absurd (List.append_eq_nil_iff.mp hread.symm).1 hne
        | cons c t =>
          rw [if_pos rfl, List.tail_cons] at hread
          exact ⟨c :: read, congrArg (c :: ·) hread, hcount _ (List.suffix_cons _ _)⟩

/-- The slashes that have been written so far. -/
noncomputable def Partial.written (p : Partial) : ℕ∞ :=
  slashesOfAll writtenInClass p.branch +
    (p.groups.map fun group =>
      slashesOfAll writtenInClass group.before + slashesOfBranches writtenInClass group.branches).sum

theorem written_push (p : Partial) (token : Token) :
    (p.push token).written = p.written + token.slashes writtenInClass := by
  unfold Partial.written Partial.push
  rw [slashesOfAll_append, slashesOfAll_singleton, add_right_comm]

theorem written_openGroup (p : Partial) : p.openGroup.written = p.written := by
  unfold Partial.written Partial.openGroup
  rw [slashesOfAll, zero_add, List.map_cons, List.sum_cons, slashesOfBranches, add_zero]

theorem written_closeGroup (h : p.closeGroup = .ok p') : p'.written ≤ p.written := by
  unfold Partial.closeGroup at h
  split at h
  · cases h
  · rename_i group groups hgroups
    cases h
    unfold Partial.written
    rw [hgroups, List.map_cons, List.sum_cons, slashesOfAll_append, slashesOfAll_singleton, slashes]
    refine (add_le_add_left (add_le_add_right (slashesOfBranches_concat_le _ _ _) _) _).trans_eq ?_
    ac_rfl

theorem written_comma (p : Partial) : p.comma.written ≤ p.written := by
  unfold Partial.comma
  split
  · rw [written_push]
    exact (add_zero _).le
  · rename_i group groups hgroups
    unfold Partial.written
    rw [hgroups, List.map_cons, List.sum_cons, List.map_cons, List.sum_cons, slashesOfAll, zero_add]
    refine (add_le_add_left (add_le_add_right (slashesOfBranches_concat_le _ _ _) _) _).trans_eq ?_
    ac_rfl

/-- **What is taken from a text without `**` writes no more slashes than it has.** -/
theorem written_take {previous? : Option Char} {c : Char} {n : Nat}
    (h : p.take allowUnclosed previous? c t = .ok (p', n)) (hstars : ¬['*', '*'] <:+: c :: t) :
    p'.written + (t.drop (n - 1)).count '/' ≤ p.written + (c :: t).count '/' := by
  have hcount : (t.count '/' : ℕ∞) ≤ (c :: t).count '/' := by exact_mod_cast List.count_le_count_cons
  -- one character is taken, and writes no slash
  have hplain : ∀ {q : Partial}, q.written ≤ p.written →
      q.written + (t.drop (1 - 1)).count '/' ≤ p.written + (c :: t).count '/' :=
    fun hq => add_le_add hq hcount
  have hpush : ∀ {token : Token}, token.slashes writtenInClass = 0 → (p.push token).written ≤ p.written := by
    intro token htoken
    rw [written_push, htoken, add_zero]
  unfold Partial.take at h
  split at h
  · cases h
    exact hplain (hpush rfl)
  split at h
  · rename_i hc
    split at h
    · rename_i t'
      refine absurd ?_ hstars
      rw [hc]
      exact (List.prefix_append ['*', '*'] t').isInfix
    · cases h
      exact hplain (hpush rfl)
  split at h
  · cases hclass : classAt t with
    | error _ =>
      rw [hclass] at h
      cases h
    | ok found =>
      rw [hclass] at h
      cases found with
      | none =>
        dsimp only [bind, Except.bind] at h
        split at h
        · cases h
          exact hplain (hpush rfl)
        · cases h
      | some found =>
        obtain ⟨token, rest⟩ := found
        cases h
        obtain ⟨read, rfl, hread⟩ := written_of_classAt hclass
        have hdrop : (read ++ rest).drop ((read ++ rest).length - rest.length + 1 - 1) = rest := by
          rw [List.length_append, Nat.add_sub_cancel, Nat.add_sub_cancel, List.drop_left]
        rw [hdrop, written_push, add_assoc]
        refine (add_le_add_right (add_le_add_left hread _) _).trans ?_
        refine add_le_add_right (le_trans ?_ hcount) _
        rw [List.count_append]
        push_cast
        exact le_rfl
  split at h
  · cases h
    exact hplain (written_openGroup p).le
  split at h
  · cases hclose : p.closeGroup with
    | error _ =>
      rw [hclose] at h
      cases h
    | ok q =>
      rw [hclose] at h
      cases h
      exact hplain (written_closeGroup hclose)
  split at h
  · cases h
    exact hplain (written_comma p)
  split at h
  · split at h
    · cases h
    · rename_i d t'
      cases h
      rw [written_push, slashes, add_assoc]
      refine add_le_add_right (le_trans ?_ hcount) _
      show (if d = '/' then 1 else 0 : ℕ∞) + (t'.count '/' : ℕ∞) ≤ _
      rw [List.count_cons, add_comm]
      push_cast
      simp only [beq_iff_eq]
      exact le_rfl
  · cases h
    rw [written_push, slashes, add_assoc]
    refine add_le_add_right ?_ _
    show (if c = '/' then 1 else 0 : ℕ∞) + (t.count '/' : ℕ∞) ≤ _
    rw [List.count_cons, add_comm]
    push_cast
    simp only [beq_iff_eq]
    exact le_rfl

/-- A text without `**` writes no more slashes than it has. -/
theorem written_takeAll {previous? : Option Char} {skip : Nat}
    (h : p.takeAll allowUnclosed previous? skip t = .ok p') (hstars : ¬['*', '*'] <:+: t) :
    p'.written ≤ p.written + (t.drop skip).count '/' := by
  induction t generalizing p previous? skip with
  | nil =>
    unfold Partial.takeAll at h
    cases h
    exact le_self_add
  | cons c t ih =>
    have hrest : ¬['*', '*'] <:+: t := fun hmore => hstars (hmore.trans (List.suffix_cons c t).isInfix)
    cases skip with
    | succ skip => exact ih h hrest
    | zero =>
      rw [Partial.takeAll] at h
      cases htake : p.take allowUnclosed previous? c t with
      | error _ =>
        rw [htake] at h
        cases h
      | ok taken =>
        rw [htake] at h
        exact (ih h hrest).trans (written_take htake hstars)

/-- **The slashes of a glob are slashes of its pattern**, as far as they are written. -/
theorem written_le {pattern : Text} {glob : Glob} (h : parse allowUnclosed pattern = .ok glob)
    (hstars : ¬['*', '*'] <:+: pattern) : slashesOfAll writtenInClass glob.tokens ≤ pattern.count '/' := by
  unfold parse at h
  cases hall : Partial.empty.takeAll allowUnclosed none 0 pattern with
  | error _ =>
    rw [hall] at h
    cases h
  | ok p =>
    rw [hall] at h
    dsimp only [bind, Except.bind] at h
    split at h
    · cases h
      have hwritten := written_takeAll hall hstars
      have hempty : Partial.empty.written = 0 := by
        unfold Partial.written Partial.empty
        rw [slashesOfAll, List.map_nil, List.sum_nil, add_zero]
      rw [hempty, zero_add, List.drop_zero] at hwritten
      exact le_self_add.trans hwritten
    · cases h

/-- **No class of the glob takes a slash**, unless one is written in it. -/
def ClassesWrite (glob : Glob) : Prop :=
  ∀ c ∈ classesOfAll glob.tokens, (inClass c.2 slash != c.1) = true → hasSlash c.2 = true

instance (glob : Glob) : Decidable glob.ClassesWrite :=
  inferInstanceAs
    (Decidable (∀ c ∈ classesOfAll glob.tokens, (inClass c.2 slash != c.1) = true → hasSlash c.2 = true))

/-- **A glob whose classes write what they take has no more slashes than its pattern.** -/
theorem mostSlashes_le {pattern : Text} {glob : Glob} (h : parse allowUnclosed pattern = .ok glob)
    (hstars : ¬['*', '*'] <:+: pattern) (hclasses : glob.ClassesWrite) : glob.mostSlashes ≤ pattern.count '/' := by
  refine le_trans (slashesOfAll_le glob.tokens fun c hc => ?_) (written_le h hstars)
  unfold takenByClass writtenInClass
  split
  · rename_i htakes
    rw [if_pos (hclasses c hc htakes)]
  · exact zero_le

end Glob
end Ambient
