import Ambient.Proofs.Declaration.ShortName
import Ambient.Proofs.Scanner.Steps

/-!
# Opening lines

A canonical opening line is an indent, the keyword of a row of `Opening.table`, a name, and a `Tail`. Each of
the four rules for the end of a signature goes with tails of its own, and reads them as they are meant:

* `split_tail`: the signature ends where the tail says it does;
* `shortNameOf_tail`: the short name is the name, and generic is what has a list;
* `open?_keyword`, `open?_header`: the row of the keyword opens the declaration;
* `earlier_closed`: where the tail is fixed, no row before it does.
-/

namespace Ambient

/-! ## 1. Tails -/

/-- What stands behind the name on an opening line. -/
inductive Tail where
  /-- The head of a class or interface: a generic list, if there is one, a clause and a brace. -/
  | head (list? : Option Text) (clause : Text)
  /-- The brace of an enum. -/
  | brace
  /-- A type on the same line. -/
  | typed (t : Text)
  /-- The brace of an object type. -/
  | object
  /-- Parameters and result. -/
  | call (parameters result : Text)
  deriving DecidableEq, Repr

namespace Tail

/-- A generic list as it is written. -/
def written : Option Text → Text
  | none => []
  | some inside => '<' :: inside ++ ['>']

/-- The part of a tail that belongs to the signature. -/
def signature : Tail → Text
  | head list? _ => written list?
  | brace | object => []
  | typed t => ": ".toList ++ t
  | call parameters result => '(' :: parameters ++ ')' :: result

/-- The rest of a tail. -/
def ending : Tail → Text
  | head _ clause => clause ++ " \x7b".toList
  | brace => " \x7b".toList
  | typed _ | call _ _ => [';']
  | object => ": \x7b".toList

/-- The tail as it is written. -/
def text (tail : Tail) : Text := tail.signature ++ tail.ending

/-- The rule that reads the tail. -/
def rule : Tail → SignatureRule
  | head _ _ => .clause
  | brace => .body
  | typed _ | object => .statement
  | call _ _ => .call

/-- Is the declaration complete with its opening line? -/
def isWhole : Tail → Bool
  | typed _ | call _ _ => true
  | head _ _ | brace | object => false

/-- Is there a generic list? -/
def isGeneric : Tail → Bool
  | head list? _ => list?.isSome
  | brace | typed _ | object | call _ _ => false

/-- Is there a generic list with nothing inside? -/
def hasEmptyList : Tail → Bool
  | head (some []) _ => true
  | _ => false

/-- Does the tail leave room for any text? -/
def isFree : Tail → Bool
  | head _ _ | typed _ | call _ _ => true
  | brace | object => false

/-- **The syntax of tails**: a list is flat, a clause starts with its keyword, and the only semicolon is the
    last character. -/
def Canonical : Tail → Prop
  | head list? clause => (∀ inside ∈ list?, '<' ∉ inside ∧ '>' ∉ inside) ∧
      (clause = [] ∨ " extends ".toList <+: clause ∨ " implements ".toList <+: clause)
  | brace | object => True
  | typed t => ';' ∉ t
  | call parameters result => ';' ∉ parameters ∧ ';' ∉ result

instance : DecidablePred Canonical
  | head list? clause => inferInstanceAs (Decidable ((∀ inside ∈ list?, '<' ∉ inside ∧ '>' ∉ inside) ∧
      (clause = [] ∨ " extends ".toList <+: clause ∨ " implements ".toList <+: clause)))
  | brace => inferInstanceAs (Decidable True)
  | object => inferInstanceAs (Decidable True)
  | typed t => inferInstanceAs (Decidable (';' ∉ t))
  | call parameters result => inferInstanceAs (Decidable (';' ∉ parameters ∧ ';' ∉ result))

end Tail

/-! ## 2. Where the signature ends -/

namespace SignatureRule

theorem split_statement_of_mem {t : Text} (h : ';' ∈ t) :
    statement.split t = (t.takeWhile (· != ';'), true) := by
  simp only [split]
  rw [if_pos (by simpa using h)]

theorem split_statement_of_not_mem {t : Text} (h : ';' ∉ t) :
    statement.split t = (t.takeWhile (· != ':'), false) := by
  simp only [split]
  rw [if_neg (by simpa using h)]

theorem split_call_of_mem {t : Text} (h : ';' ∈ t) : call.split t = (t.takeWhile (· != ';'), true) := by
  simp only [split]
  rw [List.contains_eq_mem, decide_eq_true h]

theorem split_call_of_not_mem {t : Text} (h : ';' ∉ t) : call.split t = (t, false) := by
  have htake : t.takeWhile (· != ';') = t :=
    List.takeWhile_eq_self_iff.mpr fun c hc => bne_iff_ne.mpr fun he => h (he ▸ hc)
  simp only [split]
  rw [htake, List.contains_eq_mem, decide_eq_false h]

theorem split_body_of_cut? {t before behind : Text} (h : Text.cut? " \x7b".toList t = some (before, behind)) :
    body.split t = (before, false) := by
  simp only [split, h]

theorem clauseHead_of_mark {t : Text} (h : ∃ mark ∈ clauseMarks, mark <+: t) : clauseHead 0 t = [] := by
  obtain ⟨mark, hmark, b, rfl⟩ := h
  have hany : atClauseMark (mark ++ b) = true :=
    List.any_eq_true.mpr ⟨mark, hmark, List.isPrefixOf_iff_prefix.mpr (List.prefix_append mark b)⟩
  have hspace : ∀ mark ∈ clauseMarks, ∃ w, mark = ' ' :: w := by
    intro mark hm
    unfold clauseMarks at hm
    simp only [List.mem_cons, List.not_mem_nil, or_false] at hm
    rcases hm with rfl | rfl | rfl
    · exact ⟨_, rfl⟩
    · exact ⟨_, rfl⟩
    · exact ⟨_, rfl⟩
  obtain ⟨w, rfl⟩ := hspace mark hmark
  rw [List.cons_append] at hany ⊢
  rw [clauseHead, if_neg (by decide), if_neg (by decide), hany]
  rfl

theorem prefix_clauseHead (depth : Nat) (t : Text) : clauseHead depth t <+: t := by
  induction t generalizing depth with
  | nil => exact List.prefix_rfl
  | cons c t ih =>
    unfold clauseHead
    split
    · exact List.cons_prefix_cons.mpr ⟨rfl, ih _⟩
    · split
      · exact List.cons_prefix_cons.mpr ⟨rfl, ih _⟩
      · split
        · exact List.nil_prefix
        · exact List.cons_prefix_cons.mpr ⟨rfl, ih _⟩

/-- A signature is a beginning of the text. -/
theorem prefix_split (rule : SignatureRule) (t : Text) : (rule.split t).1 <+: t := by
  cases rule with
  | clause => exact prefix_clauseHead 0 t
  | statement =>
    simp only [split]
    split <;> exact List.takeWhile_prefix _
  | call => exact List.takeWhile_prefix _
  | body =>
    simp only [split]
    split
    · rename_i before behind hcut
      rw [Text.eq_of_cut? hcut, List.append_assoc]
      exact List.prefix_append before _
    · exact List.prefix_rfl

/-- **As long as a list is open no mark counts.** -/
theorem clauseHead_deep {depth : Nat} {a : Text}
    (h : ∀ q, q <+: a → q ≠ a → q.count '>' < depth + q.count '<') (t : Text) :
    clauseHead depth (a ++ t) = a ++ clauseHead (depth + a.count '<' - a.count '>') t := by
  induction a generalizing depth with
  | nil => rfl
  | cons c a ih =>
    have hopen : 0 < depth := h [] List.nil_prefix (List.cons_ne_nil c a).symm
    -- what is said of the beginnings of the whole, for those of the rest
    have hrest : ∀ q, q <+: a → q ≠ a → (c :: q).count '>' < depth + (c :: q).count '<' := fun q hq hne =>
      h (c :: q) (List.cons_prefix_cons.mpr ⟨rfl, hq⟩) fun he => hne (List.cons.inj he).2
    rw [List.cons_append, clauseHead]
    by_cases hlt : c = '<'
    · subst hlt
      have hdeep : ∀ q, q <+: a → q ≠ a → q.count '>' < depth + 1 + q.count '<' := by
        intro q hq hne
        have hcount := hrest q hq hne
        rw [List.count_cons_of_ne (by decide), List.count_cons_self] at hcount
        omega
      rw [if_pos rfl, ih hdeep, List.count_cons_self, List.count_cons_of_ne (by decide), Nat.add_assoc,
        Nat.add_comm 1]
      rfl
    · rw [if_neg hlt]
      by_cases hgt : c = '>'
      · subst hgt
        have hdeep : ∀ q, q <+: a → q ≠ a → q.count '>' < depth - 1 + q.count '<' := by
          intro q hq hne
          have hcount := hrest q hq hne
          rw [List.count_cons_self, List.count_cons_of_ne (by decide)] at hcount
          omega
        have hdepth : depth + a.count '<' - (a.count '>' + 1) = depth - 1 + a.count '<' - a.count '>' := by omega
        rw [if_pos rfl, ih hdeep, List.count_cons_self, List.count_cons_of_ne (by decide), hdepth]
        rfl
      · have hdeep : ∀ q, q <+: a → q ≠ a → q.count '>' < depth + q.count '<' := by
          intro q hq hne
          have hcount := hrest q hq hne
          rwa [List.count_cons_of_ne hlt, List.count_cons_of_ne hgt] at hcount
        have hmark : (depth = 0 && atClauseMark (c :: (a ++ t))) = false := by
          rw [decide_eq_false (Nat.ne_of_gt hopen), Bool.false_and]
        rw [if_neg hgt, hmark, if_neg Bool.false_ne_true, ih hdeep, List.count_cons_of_ne hlt,
          List.count_cons_of_ne hgt]
        rfl

/-- A flat list is closed by its first `>`. -/
theorem clauseHead_inside {inside : Text} (h : '<' ∉ inside ∧ '>' ∉ inside) (t : Text) :
    clauseHead 1 (inside ++ '>' :: t) = inside ++ '>' :: clauseHead 0 t := by
  have hdeep : ∀ q, q <+: inside ++ ['>'] → q ≠ inside ++ ['>'] → q.count '>' < 1 + q.count '<' := by
    intro q hq hne
    have hinside : q <+: inside := (List.prefix_concat_iff.mp hq).resolve_left hne
    rw [List.count_eq_zero.mpr fun hm => h.2 (hinside.subset hm)]
    omega
  have hdepth : 1 + (inside ++ ['>']).count '<' - (inside ++ ['>']).count '>' = 0 := by
    rw [List.count_append, List.count_append, List.count_eq_zero.mpr h.1, List.count_eq_zero.mpr h.2]
    rfl
  have hhead := clauseHead_deep hdeep t
  rw [hdepth, List.append_assoc, List.append_assoc] at hhead
  exact hhead

/-- A mark starts with a space, so none stands inside a name. -/
theorem clauseHead_name {name : Text} (h : ∀ c ∈ name, ShortName.isTypeNameChar c = true) (t : Text) :
    clauseHead 0 (name ++ t) = name ++ clauseHead 0 t := by
  induction name with
  | nil => rfl
  | cons c name ih =>
    obtain ⟨hlt, hgt, hblank⟩ := ShortName.isTypeNameChar_iff.mp (h c List.mem_cons_self)
    have hmark : atClauseMark (c :: (name ++ t)) = false := by
      have hspace : c ≠ ' ' := by
        rintro rfl
        exact absurd hblank (by decide)
      unfold atClauseMark clauseMarks
      simp [List.isPrefixOf, Ne.symm hspace]
    rw [List.cons_append, clauseHead, if_neg hlt, if_neg hgt, hmark, Bool.and_false,
      if_neg Bool.false_ne_true, ih fun d hd => h d (List.mem_cons_of_mem _ hd)]
    rfl

end SignatureRule

/-- A clause, or the lack of one, and the brace: a mark comes first. -/
theorem Tail.exists_mark {clause : Text}
    (h : clause = [] ∨ " extends ".toList <+: clause ∨ " implements ".toList <+: clause) :
    ∃ mark ∈ SignatureRule.clauseMarks, mark <+: clause ++ " \x7b".toList := by
  rcases h with rfl | h | h
  · exact ⟨" \x7b".toList, by decide, List.prefix_rfl⟩
  · exact ⟨" extends ".toList, by decide, h.trans (List.prefix_append _ _)⟩
  · exact ⟨" implements ".toList, by decide, h.trans (List.prefix_append _ _)⟩

/-- Of the head of a class or interface the list belongs to the signature. -/
theorem Tail.clauseHead_head {list? : Option Text} {clause : Text} (h : (head list? clause).Canonical) :
    SignatureRule.clauseHead 0 (written list? ++ (clause ++ " \x7b".toList)) = written list? := by
  obtain ⟨hlist, hclause⟩ := h
  have hmark : SignatureRule.clauseHead 0 (clause ++ " \x7b".toList) = [] :=
    SignatureRule.clauseHead_of_mark (exists_mark hclause)
  cases list? with
  | none => exact hmark
  | some inside =>
    show SignatureRule.clauseHead 0 ('<' :: (inside ++ ['>']) ++ (clause ++ " \x7b".toList)) = _
    rw [List.cons_append, SignatureRule.clauseHead, if_pos rfl, List.append_assoc, List.singleton_append,
      SignatureRule.clauseHead_inside (hlist inside rfl), hmark]
    rfl

section Split

variable {name : Text} {tail : Tail}

theorem not_mem_of_mark {c : Char} (hname : IsIdentifier name) (hc : c ∈ nameMarks) : c ∉ name := by
  intro h
  exact ne_of_isNameChar (hname.chars c h) hc rfl

/-- The text up to a mark that stands neither in the name nor in what belongs to it. -/
theorem takeWhile_name {c : Char} {a : Text} (hname : IsIdentifier name) (hc : c ∈ nameMarks) (ha : c ∉ a)
    (b : Text) : (name ++ (a ++ c :: b)).takeWhile (· != c) = name ++ a := by
  rw [← List.append_assoc]
  refine Text.takeWhile_append_cons (· != c) (fun d hd => ?_) (bne_self_eq_false c) b
  rw [bne_iff_ne]
  rintro rfl
  rcases List.mem_append.mp hd with h | h
  · exact not_mem_of_mark hname hc h
  · exact ha h

/-- **The signature is the name and the part of the tail that belongs to it.** -/
theorem split_tail (hname : IsIdentifier name) (htail : tail.Canonical) :
    tail.rule.split (name ++ tail.text) = (name ++ tail.signature, tail.isWhole) := by
  cases tail with
  | head list? clause =>
    show (SignatureRule.clauseHead 0 (name ++ (Tail.written list? ++ (clause ++ " \x7b".toList))), false) = _
    rw [SignatureRule.clauseHead_name hname.typeChars, Tail.clauseHead_head htail]
    rfl
  | brace =>
    have hcut : Text.cut? " \x7b".toList (name ++ (" \x7b".toList ++ [])) = some (name, []) := by
      refine Text.cut?_append_self (by decide) (Text.startsNowhere_of_not_mem fun h => ?_) []
      exact absurd (isBlank_of_isNameChar (hname.chars _ h)) (by decide)
    rw [List.append_nil] at hcut
    show SignatureRule.body.split (name ++ " \x7b".toList) = (name ++ [], false)
    rw [SignatureRule.split_body_of_cut? hcut, List.append_nil]
  | typed t =>
    have ha : ';' ∉ ": ".toList ++ t := by
      intro h
      rcases List.mem_append.mp h with h | h
      · exact absurd h (by decide)
      · exact htail h
    have htake := takeWhile_name hname (by decide) ha []
    show SignatureRule.statement.split (name ++ (": ".toList ++ t ++ [';'])) = (name ++ (": ".toList ++ t), true)
    rw [SignatureRule.split_statement_of_mem (by simp), htake]
  | object =>
    have hno : ';' ∉ name ++ ": \x7b".toList := by
      intro h
      rcases List.mem_append.mp h with h | h
      · exact not_mem_of_mark hname (by decide) h
      · exact absurd h (by decide)
    have hcolon : ':' ∈ nameMarks := by decide
    have htake := takeWhile_name hname hcolon List.not_mem_nil " \x7b".toList
    show SignatureRule.statement.split (name ++ ": \x7b".toList) = (name ++ [], false)
    rw [SignatureRule.split_statement_of_not_mem hno]
    exact congrArg (·, false) htake
  | call parameters result =>
    have ha : ';' ∉ '(' :: parameters ++ ')' :: result := by
      simp only [List.cons_append, List.mem_cons, List.mem_append, not_or]
      exact ⟨by decide, htail.1, by decide, htail.2⟩
    have htake := takeWhile_name hname (by decide) ha []
    show SignatureRule.call.split (name ++ ('(' :: parameters ++ ')' :: result ++ [';'])) =
      (name ++ ('(' :: parameters ++ ')' :: result), true)
    rw [SignatureRule.split_call_of_mem (by simp), htake]

end Split

/-! ## 3. The short name -/

section Name

variable {name : Text} {tail : Tail} {o : Opening}

theorem IsIdentifier.trim_eq (hname : IsIdentifier name) : Text.trim name = name :=
  Text.trim_of_no_blank fun c hc => isBlank_of_isNameChar (hname.chars c hc)

/-- Behind a name only blanks at the end are trimmed. -/
theorem IsIdentifier.trim_behind (hname : IsIdentifier name) (t : Text) :
    Text.trim (name ++ t) = name ++ Text.trimEnd t := by
  have hblank : ∀ c ∈ name, isBlank c = false := fun c hc => isBlank_of_isNameChar (hname.chars c hc)
  obtain ⟨c, rest, rfl⟩ := List.exists_cons_of_ne_nil hname.ne_nil
  obtain ⟨hc, hrest⟩ := List.forall_mem_cons.mp hblank
  rw [List.cons_append, Text.trim_of_head hc, Text.dropEndWhile_append_of_none hrest]
  rfl

theorem IsIdentifier.trim_append (hname : IsIdentifier name) {d : Char} (hd : isBlank d = false) (t : Text) :
    Text.trim (name ++ d :: t) = name ++ d :: Text.trimEnd t := by
  rw [hname.trim_behind]
  exact congrArg (name ++ ·) (Text.dropEndWhile_append_cons hd [] t)

theorem IsIdentifier.trim_list (hname : IsIdentifier name) (list? : Option Text) :
    Text.trim (name ++ Tail.written list?) = name ++ Tail.written list? := by
  cases list? with
  | none =>
    show Text.trim (name ++ []) = name ++ []
    rw [List.append_nil, hname.trim_eq]
  | some inside =>
    obtain ⟨c, rest, rfl⟩ := List.exists_cons_of_ne_nil hname.ne_nil
    have hc : isBlank c = false := isBlank_of_isNameChar (hname.chars c List.mem_cons_self)
    have hends := Text.trim_of_ends (t := rest ++ '<' :: inside) hc (by decide : isBlank '>' = false)
    have hshape : c :: rest ++ Tail.written (some inside) = c :: (rest ++ '<' :: inside) ++ ['>'] := by
      simp [Tail.written]
    rw [hshape]
    exact hends

/-- A signature as the draft keeps it, name first. -/
theorem trim_signature_ne_nil (hname : IsIdentifier name) (tail : Tail) :
    Text.trim (name ++ tail.signature) ≠ [] := by
  obtain ⟨c, rest, rfl⟩ := List.exists_cons_of_ne_nil hname.ne_nil
  rw [List.cons_append, Text.trim_of_head (isBlank_of_isNameChar (hname.chars c List.mem_cons_self))]
  exact List.cons_ne_nil _ _

/-- **The short name is the name**, and what has a generic list with something inside is generic. -/
theorem shortNameOf_tail (ho : o ∈ Opening.table) (hrule : o.rule = tail.rule) (hname : IsIdentifier name)
    (htail : tail.Canonical) (hlist : tail.hasEmptyList = false) :
    shortNameOf o.kind (Text.trim (name ++ tail.signature)) = ⟨name, tail.isGeneric⟩ := by
  have hkind : o.kind ∈ tail.rule.kinds := hrule ▸ Opening.kind_mem_kinds o ho
  have hne : (⟨name, tail.isGeneric⟩ : ShortName).text ≠ [] := hname.ne_nil
  cases tail with
  | head list? clause =>
    have hstop : (Tail.written list?).takeWhile ShortName.isTypeNameChar = [] := by cases list? <;> rfl
    have hgeneric : ShortName.opensGenericList (Tail.written list?) = list?.isSome := by
      cases list? with
      | none => rfl
      | some inside =>
        have hinside : inside ≠ [] := by
          rintro rfl
          cases hlist
        exact ShortName.opensGenericList_iff.mpr ⟨inside, [], rfl, hinside, htail.1 inside rfl⟩
    refine shortNameOf_of_filter hne ?_
    show ShortName.ofKind? o.kind (Text.trim (name ++ Tail.written list?)) = _
    rw [ShortName.ofKind?_of_clause hkind, hname.trim_list, ShortName.ofType?_of_name hname hstop, hgeneric]
    rfl
  | brace =>
    have htrim : Text.trim (name ++ Tail.brace.signature) = name := by
      show Text.trim (name ++ []) = name
      rw [List.append_nil, hname.trim_eq]
    rw [shortNameOf_of_none (ShortName.ofKind?_of_body hkind), htrim, hname.trim_eq]
    rfl
  | typed t =>
    have htrim : Text.trim (name ++ (Tail.typed t).signature) = name ++ ':' :: Text.trimEnd (' ' :: t) :=
      hname.trim_append (by decide) _
    refine shortNameOf_of_filter hne ?_
    rw [ShortName.ofKind?_of_statement hkind, htrim, ShortName.ofValue?_of_name hname]
    rfl
  | object =>
    have htrim : Text.trim (name ++ Tail.object.signature) = name := by
      show Text.trim (name ++ []) = name
      rw [List.append_nil, hname.trim_eq]
    have hnone : ShortName.ofKind? o.kind name = none := by
      rw [ShortName.ofKind?_of_statement hkind, ShortName.ofValue?_of_bare_name hname]
      rfl
    rw [htrim, shortNameOf_of_none hnone, hname.trim_eq]
    rfl
  | call parameters result =>
    have htrim : Text.trim (name ++ (Tail.call parameters result).signature) =
        name ++ '(' :: Text.trimEnd (parameters ++ ')' :: result) := hname.trim_append (by decide) _
    refine shortNameOf_of_filter hne ?_
    rw [ShortName.ofKind?_of_call hkind, htrim, ShortName.ofFunction?_of_name hname]
    rfl

end Name

/-! ## 4. Opening lines -/

namespace Opening

/-- An opening line. -/
def header (o : Opening) (indent name : Text) (tail : Tail) : Text :=
  indent ++ (o.keyword ++ (name ++ tail.text))

/-- The rows that are tried before this one. -/
def earlier (o : Opening) : List Opening := table.takeWhile (· != o)

theorem table_eq_earlier : ∀ o ∈ table, table = o.earlier ++ o :: table.drop (o.earlier.length + 1) := by
  decide

theorem mem_table_of_mem_earlier {o o' : Opening} (h : o' ∈ o.earlier) : o' ∈ table :=
  (List.takeWhile_prefix (· != o)).subset h

theorem exists_keyword {o : Opening} (ho : o ∈ table) : ∃ w, o.keyword = 'e' :: w := by
  have hhead : ∀ o ∈ table, o.keyword.head? = some 'e' := by decide
  exact List.head?_eq_some_iff.mp (hhead o ho)

/-- No keyword starts inside an indent. -/
theorem startsNowhere_indent {o : Opening} (ho : o ∈ table) {indent : Text}
    (hindent : ∀ c ∈ indent, isBlank c = true) : Text.startsNowhere o.keyword indent = true := by
  obtain ⟨w, hw⟩ := exists_keyword ho
  rw [hw]
  refine Text.startsNowhere_of_not_mem fun h => ?_
  exact absurd (hindent 'e' h) (by decide)

section Header

variable {o : Opening} {indent name : Text} {tail : Tail}

/-- **The row of the keyword opens the declaration**, whatever stands behind the keyword. -/
theorem open?_keyword (ho : o ∈ table) (hindent : ∀ c ∈ indent, isBlank c = true) {t head : Text} {complete : Bool}
    (hsplit : o.rule.split t = (head, complete)) (hhead : Text.trim head ≠ []) (path : Text) :
    o.open? path (indent ++ (o.keyword ++ t)) =
      some (Draft.start path o.kind (Text.trim head) (indent ++ o.closer) complete) := by
  have hne : o.keyword ≠ [] := by
    obtain ⟨w, hw⟩ := exists_keyword ho
    rw [hw]
    exact List.cons_ne_nil _ _
  have hcut : Text.cut? o.keyword (indent ++ (o.keyword ++ t)) = some (indent, t) :=
    Text.cut?_append_self hne (startsNowhere_indent ho hindent) _
  unfold open?
  simp only [hcut, hsplit]
  rw [if_neg (by simpa using hhead)]

theorem open?_header (ho : o ∈ table) (hrule : o.rule = tail.rule) (hindent : ∀ c ∈ indent, isBlank c = true)
    (hname : IsIdentifier name) (htail : tail.Canonical) (path : Text) :
    o.open? path (o.header indent name tail) =
      some (Draft.start path o.kind (Text.trim (name ++ tail.signature)) (indent ++ o.closer) tail.isWhole) := by
  refine open?_keyword ho hindent ?_ (trim_signature_ne_nil hname tail) path
  rw [hrule, split_tail hname htail]

/-- Rows before it open nothing where the text behind the keyword holds none of their keywords. -/
theorem open?_earlier (ho : o ∈ table) (hindent : ∀ c ∈ indent, isBlank c = true) {t : Text}
    (ht : ∀ o' ∈ o.earlier, Text.cut? o'.keyword t = none) (path : Text) :
    ∀ o' ∈ o.earlier, o'.open? path (indent ++ (o.keyword ++ t)) = none := by
  intro o' ho'
  have hkeywords : ∀ o ∈ table, ∀ o' ∈ o.earlier, Text.startsNowhere o'.keyword o.keyword = true := by decide
  unfold open?
  rw [Text.cut?_append (startsNowhere_indent (mem_table_of_mem_earlier ho') hindent),
    Text.cut?_append (hkeywords o ho o' ho'), ht o' ho']
  rfl

/-- The part of an opening line behind the keyword holds one space where the tail is fixed. -/
theorem count_space (hname : IsIdentifier name) (hfree : tail.isFree = false) :
    (name ++ tail.text).count ' ' = 1 := by
  have hno : name.count ' ' = 0 := by
    rw [List.count_eq_zero]
    intro h
    exact absurd (isBlank_of_isNameChar (hname.chars _ h)) (by decide)
  rw [List.count_append, hno]
  cases tail with
  | brace => rfl
  | object => rfl
  | head _ _ => cases hfree
  | typed _ => cases hfree
  | call _ _ => cases hfree

/-- **Where the tail is fixed no earlier row opens the line**: every keyword holds two spaces or more. -/
theorem earlier_closed (ho : o ∈ table) (hindent : ∀ c ∈ indent, isBlank c = true) (hname : IsIdentifier name)
    (hfree : tail.isFree = false) (path : Text) :
    ∀ o' ∈ o.earlier, o'.open? path (o.header indent name tail) = none := by
  have hspaces : ∀ o ∈ table, 2 ≤ o.keyword.count ' ' := by decide
  refine open?_earlier ho hindent (fun o' ho' => ?_) path
  cases hcut : Text.cut? o'.keyword (name ++ tail.text) with
  | none => rfl
  | some pieces =>
    have hcount := count_space hname hfree
    have htwo := hspaces o' (mem_table_of_mem_earlier ho')
    rw [Text.eq_of_cut? hcut, List.count_append, List.count_append] at hcount
    omega

/-- Rows are tried in the order of the table. -/
theorem first?_of_earlier {path line : Text} {draft : Draft} (ho : o ∈ table)
    (hearlier : ∀ o' ∈ o.earlier, o'.open? path line = none) (h : o.open? path line = some draft) :
    first? path line = some draft := by
  unfold first?
  rw [table_eq_earlier o ho, List.findSome?_append, List.findSome?_eq_none_iff.mpr hearlier, Option.none_or,
    List.findSome?_cons, h]

end Header

end Opening

namespace Scanner

/-- A line is passed over only if it starts with `i` or `p`. -/
theorem isSkipped_of_head {line t : Text} {c : Char} (h : Text.trim line = c :: t) (hi : c ≠ 'i')
    (hp : c ≠ 'p') : isSkipped line = false := by
  unfold isSkipped skippedStarts
  simp [h, List.isPrefixOf, hi.symm, hp.symm]

/-- No line with a keyword at its start is passed over. -/
theorem isSkipped_keyword {o : Opening} (ho : o ∈ Opening.table) {indent : Text}
    (hindent : ∀ c ∈ indent, isBlank c = true) (t : Text) : isSkipped (indent ++ (o.keyword ++ t)) = false := by
  obtain ⟨w, hw⟩ := Opening.exists_keyword ho
  have htrim : Text.trim (indent ++ (o.keyword ++ t)) = 'e' :: Text.dropEndWhile isBlank (w ++ t) := by
    rw [Text.trim_append hindent, hw, List.cons_append]
    exact Text.trim_of_head (by decide)
  exact isSkipped_of_head htrim (by decide) (by decide)

theorem isSkipped_header {o : Opening} (ho : o ∈ Opening.table) {indent : Text}
    (hindent : ∀ c ∈ indent, isBlank c = true) (name : Text) (tail : Tail) :
    isSkipped (o.header indent name tail) = false := isSkipped_keyword ho hindent (name ++ tail.text)

end Scanner

/-- **No opening line is a heading**: the last word of its keyword may not stand before `namespace`. -/
theorem Heading.read?_keyword {o : Opening} (ho : o ∈ Opening.table) {indent : Text}
    (hindent : ∀ c ∈ indent, isBlank c = true) (t : Text) : read? (indent ++ (o.keyword ++ t)) = none := by
  have hstart : Text.startsNowhere "namespace ".toList indent = true := by
    refine Text.startsNowhere_of_not_mem fun h => ?_
    exact absurd (hindent 'n' h) (by decide)
  have hkeyword : ∀ o ∈ Opening.table, Text.startsNowhere "namespace ".toList o.keyword = true := by decide
  have hword : ∀ o ∈ Opening.table, o.keyword = o.keyword.dropLast ++ [' '] ∧
      (Text.words o.keyword.dropLast).all modifiers.contains = false := by decide
  obtain ⟨hspace, hmodifier⟩ := hword o ho
  unfold read?
  rw [Text.cut?_append hstart, Text.cut?_append (hkeyword o ho)]
  cases Text.cut? "namespace ".toList t with
  | none => rfl
  | some pieces =>
    obtain ⟨before, behind⟩ := pieces
    have hall : (Text.words (indent ++ (o.keyword ++ before))).all modifiers.contains = false := by
      rw [Text.words_append hindent, hspace, List.append_assoc, List.singleton_append,
        Text.words_append_blank (by decide), List.all_append, hmodifier, Bool.false_and]
    simp only [Option.map_some, hall, Bool.not_false, if_true]

theorem Heading.read?_header {o : Opening} (ho : o ∈ Opening.table) {indent : Text}
    (hindent : ∀ c ∈ indent, isBlank c = true) (name : Text) (tail : Tail) :
    read? (o.header indent name tail) = none := read?_keyword ho hindent (name ++ tail.text)

/-- Modifiers and `namespace` start with one of three letters. -/
theorem Heading.words_not_modifiers {c : Char} {t : Text} (hblank : isBlank c = false) (hc : c ∉ "edn".toList) :
    (Text.words (c :: t)).all modifiers.contains = false := by
  have hfirst : ∀ w ∈ modifiers, w.head?.all ("edn".toList.contains ·) = true := by decide
  obtain ⟨w, ws, hwords⟩ := Text.words_cons hblank t
  rw [hwords, List.all_cons, Bool.and_eq_false_iff]
  refine Or.inl ?_
  rw [← Bool.not_eq_true]
  intro h
  have hmem : c :: w ∈ modifiers := by simpa using h
  have hcontains : "edn".toList.contains c = true := hfirst _ hmem
  exact hc (by simpa using hcontains)

/-- **A heading starts with a modifier or with `namespace`**, up to blanks. -/
theorem Heading.read?_of_head {line t : Text} {c : Char} (hline : Text.trim line = c :: t)
    (hc : c ∉ "edn".toList) : read? line = none := by
  unfold read?
  cases hcut : Text.cut? "namespace ".toList line with
  | none => rfl
  | some pieces =>
    obtain ⟨before, behind⟩ := pieces
    obtain ⟨a, b, hbefore, hblanks, hb⟩ := Text.exists_leading_blanks before
    rw [Text.eq_of_cut? hcut, hbefore, List.append_assoc, List.append_assoc, Text.trim_append hblanks] at hline
    rcases hb with rfl | ⟨d, rest, rfl, hd⟩
    · have hn : Text.trim ("namespace ".toList ++ behind) =
          'n' :: Text.dropEndWhile isBlank ("amespace ".toList ++ behind) := Text.trim_of_head (by decide)
      have hcn : 'n' = c := (List.cons.inj (hn.symm.trans hline)).1
      exact absurd (by decide) (hcn ▸ hc)
    · rw [List.cons_append, Text.trim_of_head hd] at hline
      have hdc : d = c := (List.cons.inj hline).1
      have hall : (Text.words before).all modifiers.contains = false := by
        rw [hbefore, Text.words_append hblanks]
        exact words_not_modifiers hd (hdc ▸ hc)
      simp only [hall, Bool.not_false, if_true]

end Ambient
