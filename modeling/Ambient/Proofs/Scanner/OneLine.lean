import Ambient.Proofs.Declaration.CallSkeleton
import Ambient.Proofs.Scanner.Wrapping

/-!
# Functions on one line

On one line a function signature ends at the first semicolon, whatever brackets are open there.

* `IsSignature` is what a signature should be: its brackets balance, and no semicolon stands outside them;
* `first?_functionLine`: what is read off the line of such a signature, where no earlier row opens the line;
* `length_lt_of_earlier`: an earlier row reads less than the signature;
* `keepsSignature_iff`: so the signature is kept where it holds no semicolon at all.
-/

namespace Ambient

/-! ## 1. Signatures -/

/-- **A signature**: brackets balance, and a semicolon stands inside them only. -/
structure IsSignature (S : Text) : Prop where
  ne_nil : S ≠ []
  trimmed : Text.trim S = S
  balanced : CallSkeleton.Balanced S
  semicolon : ¬CallSkeleton.StandsOutside ';' S

instance (S : Text) : Decidable (IsSignature S) :=
  decidable_of_iff (S ≠ [] ∧ Text.trim S = S ∧ CallSkeleton.Balanced S ∧ ¬CallSkeleton.StandsOutside ';' S)
    ⟨fun ⟨hne, htrim, hbalanced, hsemicolon⟩ => ⟨hne, htrim, hbalanced, hsemicolon⟩,
      fun h => ⟨h.ne_nil, h.trimmed, h.balanced, h.semicolon⟩⟩

/-- The part of a signature that is read off its line. -/
def beforeSemicolon (S : Text) : Text := S.takeWhile (· != ';')

section Signatures

variable {S : Text}

theorem beforeSemicolon_of_notMem (h : ';' ∉ S) : beforeSemicolon S = S :=
  List.takeWhile_eq_self_iff.mpr fun _ hc => bne_iff_ne.mpr fun he => h (he ▸ hc)

/-- What stands before the first semicolon, whatever follows it. -/
theorem beforeSemicolon_append_cons {a : Text} (h : ';' ∉ a) (b : Text) : beforeSemicolon (a ++ ';' :: b) = a :=
  Text.takeWhile_append_cons (· != ';') (fun _ hc => bne_iff_ne.mpr fun he => h (he ▸ hc)) rfl b

theorem beforeSemicolon_concat (S : Text) : beforeSemicolon (S ++ [';']) = beforeSemicolon S := by
  by_cases h : ';' ∈ S
  · obtain ⟨a, b, rfl, ha⟩ := List.eq_append_cons_of_mem h
    rw [List.append_assoc, List.cons_append, beforeSemicolon_append_cons ha, beforeSemicolon_append_cons ha]
  · rw [beforeSemicolon_append_cons h, beforeSemicolon_of_notMem h]

theorem length_trim_le (t : Text) : (Text.trim t).length ≤ t.length := (Text.infix_trim t).length_le

/-- A signature with a semicolon is cut short. -/
theorem length_beforeSemicolon_lt (h : ';' ∈ S) : (Text.trim (beforeSemicolon S)).length < S.length := by
  obtain ⟨a, b, rfl, ha⟩ := List.eq_append_cons_of_mem h
  have hle := length_trim_le a
  rw [beforeSemicolon_append_cons ha, List.length_append, List.length_cons]
  omega

/-- Before a semicolon inside brackets there is a bracket, so something is read. -/
theorem IsSignature.trim_beforeSemicolon_ne_nil (hS : IsSignature S) : Text.trim (beforeSemicolon S) ≠ [] := by
  by_cases h : ';' ∈ S
  · obtain ⟨a, b, rfl, ha⟩ := List.eq_append_cons_of_mem h
    rw [beforeSemicolon_append_cons ha]
    intro hnil
    have hblank : ∀ c ∈ a, isBlank c = true := fun c hc => by
      rw [← Bool.not_eq_false]
      intro hno
      exact absurd (hnil ▸ Text.mem_trim hc hno) List.not_mem_nil
    exact hS.semicolon ⟨a, (List.mem_inits _ _).mpr (List.prefix_append a _), ⟨b, by simp⟩,
      CallSkeleton.runs_iff.mpr (.of_blank hblank)⟩
  · rw [beforeSemicolon_of_notMem h, hS.trimmed]
    exact hS.ne_nil

end Signatures

/-! ## 2. What the line opens -/

namespace Opening

/-- A function on one line. -/
def functionLine (indent S : Text) : Text := indent ++ (ofFunction.keyword ++ (S ++ [';']))

theorem ofFunction_mem : ofFunction ∈ table := by decide

section FunctionLine

variable {indent S path : Text}

/-- **Where no earlier row opens the line, the part before the first semicolon is read.** -/
theorem first?_functionLine (hindent : ∀ c ∈ indent, isBlank c = true) (hS : IsSignature S)
    (hearlier : ∀ o ∈ ofFunction.earlier, o.open? path (functionLine indent S) = none) :
    first? path (functionLine indent S) =
      some (.start path .function (Text.trim (beforeSemicolon S)) (indent ++ ['}']) true) := by
  have hsplit : SignatureRule.call.split (S ++ [';']) = (beforeSemicolon S, true) := by
    rw [SignatureRule.split_call_of_mem (by simp), ← beforeSemicolon_concat]
    rfl
  exact first?_of_earlier ofFunction_mem hearlier
    (open?_keyword ofFunction_mem hindent hsplit hS.trim_beforeSemicolon_ne_nil path)

/-- **An earlier row reads less than the signature**, as its keyword stands inside it. -/
theorem length_lt_of_earlier (hindent : ∀ c ∈ indent, isBlank c = true) {o : Opening} (ho : o ∈ ofFunction.earlier)
    {draft : Draft} (hopen : o.open? path (functionLine indent S) = some draft) :
    draft.kind ≠ .function ∧ draft.signature.length < S.length := by
  have hrows : ∀ o ∈ ofFunction.earlier, o.kind ≠ .function ∧ 2 ≤ o.keyword.length ∧
      Text.startsNowhere o.keyword ofFunction.keyword = true := by decide
  obtain ⟨hkind, hlong, hstart⟩ := hrows o ho
  obtain ⟨before, behind, hcut, -, rfl⟩ := open?_eq_some hopen
  unfold functionLine at hcut
  rw [Text.cut?_append (startsNowhere_indent (mem_table_of_mem_earlier ho) hindent), Text.cut?_append hstart,
    Option.map_map, Option.map_eq_some_iff] at hcut
  obtain ⟨⟨front, rest⟩, hinside, hpieces⟩ := hcut
  have hbehind : rest = behind := (Prod.mk.inj hpieces).2
  have hlength := congrArg List.length (Text.eq_of_cut? hinside)
  have hsplit := (o.rule.prefix_split behind).length_le
  have htrim := length_trim_le (o.rule.split behind).1
  simp only [List.length_append, List.length_singleton, hbehind] at hlength
  refine ⟨hkind, ?_⟩
  show (Text.trim (o.rule.split behind).1).length < _
  omega

end FunctionLine

end Opening

/-! ## 3. The scanner -/

/-- The declaration that is built from a signature without reading a line. -/
def Declaration.ofSignature (path S : Text) : Declaration := (Draft.start path .function S [] true).finish []

namespace Scanner

variable {s : Scanner} {path indent S : Text}

/-- **The signature is kept**: the line is one more declaration, with the signature and the call of it. -/
def KeepsSignature (s : Scanner) (path indent S : Text) : Prop :=
  ∃ d, s.feed (Opening.functionLine indent S) = ⟨some path, none, [], s.close.closed ++ [d]⟩ ∧
    d.signature = S ∧ d.insertText = (Declaration.ofSignature path S).insertText

theorem handed_functionLine (hindent : ∀ c ∈ indent, isBlank c = true) (S : Text) :
    Handed (Opening.functionLine indent S) :=
  ⟨isSkipped_keyword Opening.ofFunction_mem hindent _, Heading.read?_keyword Opening.ofFunction_mem hindent _⟩

theorem feed_functionLine (hp : s.path? = some path) (hindent : ∀ c ∈ indent, isBlank c = true) {draft : Draft}
    (hopen : Opening.first? path (Opening.functionLine indent S) = some draft) :
    s.feed (Opening.functionLine indent S) = s.close.collect draft (Opening.functionLine indent S) := by
  rw [feed_member (handed_functionLine hindent S) hp, member_of_first? hp hopen]

/-- A declaration that the line makes has the signature of its draft. -/
theorem signature_of_collect {draft : Draft} {line : Text} {d : Declaration}
    (hsettled : draft.kind ≠ .function ∨ draft.complete = true)
    (h : s.collect draft line = ⟨some path, none, [], s.closed ++ [d]⟩) : d.signature = draft.signature := by
  cases hc : (draft.push line).complete with
  | false =>
    rw [collect_stays hc] at h
    exact nomatch congrArg draft? h
  | true =>
    rw [collect_closes hc] at h
    have hd := List.append_cancel_left (congrArg closed h)
    rw [← List.singleton_inj.mp hd, Draft.push_of_settled hsettled]
    rfl

theorem keepsSignature_of_notMem (hp : s.path? = some path) (hindent : ∀ c ∈ indent, isBlank c = true)
    (hS : IsSignature S) (hno : ';' ∉ S)
    (hearlier : ∀ o ∈ Opening.ofFunction.earlier, o.open? path (Opening.functionLine indent S) = none) :
    s.KeepsSignature path indent S := by
  let draft : Draft := .start path .function S (indent ++ ['}']) true
  have hopen : Opening.first? path (Opening.functionLine indent S) = some draft := by
    rw [Opening.first?_functionLine hindent hS hearlier, beforeSemicolon_of_notMem hno, hS.trimmed]
  have hpush : draft.push (Opening.functionLine indent S) = _ := Draft.push_of_settled (.inr rfl) _
  have hpath : s.close.path? = some path := (close_path? s).trans hp
  refine ⟨(draft.push (Opening.functionLine indent S)).finish s.close.comment, ?_, ?_, ?_⟩
  · rw [feed_functionLine hp hindent hopen, collect_closes (by rw [hpush]; rfl), hpath]
  · rw [hpush]
    rfl
  · rw [hpush]
    rfl

theorem notMem_of_keepsSignature (hp : s.path? = some path) (hindent : ∀ c ∈ indent, isBlank c = true)
    (hS : IsSignature S) (h : s.KeepsSignature path indent S) :
    ';' ∉ S ∧ ∀ o ∈ Opening.ofFunction.earlier, o.open? path (Opening.functionLine indent S) = none := by
  obtain ⟨d, hfeed, hd, -⟩ := h
  -- what is read in place of the signature is shorter, whichever row reads it
  by_cases hearlier : ∀ o ∈ Opening.ofFunction.earlier, o.open? path (Opening.functionLine indent S) = none
  · refine ⟨fun hmem => ?_, hearlier⟩
    rw [feed_functionLine hp hindent (Opening.first?_functionLine hindent hS hearlier)] at hfeed
    have hcut := signature_of_collect (.inr rfl) hfeed
    have hlt := length_beforeSemicolon_lt hmem
    rw [hd] at hcut
    exact absurd (congrArg List.length hcut) hlt.ne'
  · obtain ⟨draft, hdraft⟩ := Option.ne_none_iff_exists'.mp (mt List.findSome?_eq_none_iff.mp hearlier)
    have hopen : Opening.first? path (Opening.functionLine indent S) = some draft := by
      unfold Opening.first?
      rw [Opening.table_eq_earlier _ Opening.ofFunction_mem, List.findSome?_append, hdraft]
      rfl
    obtain ⟨o, ho, hrow⟩ := List.exists_of_findSome?_eq_some hdraft
    obtain ⟨hkind, hlt⟩ := Opening.length_lt_of_earlier hindent ho hrow
    rw [feed_functionLine hp hindent hopen] at hfeed
    have hread := signature_of_collect (.inl hkind) hfeed
    rw [hd] at hread
    exact absurd (congrArg List.length hread) hlt.ne'

/-- **On one line a signature is kept if and only if it holds no semicolon**, inside brackets or not, and no earlier
    row finds its keyword in it. Over several lines it is kept in either case. -/
theorem keepsSignature_iff (hp : s.path? = some path) (hindent : ∀ c ∈ indent, isBlank c = true)
    (hS : IsSignature S) :
    (s.KeepsSignature path indent S ↔
      ';' ∉ S ∧ ∀ o ∈ Opening.ofFunction.earlier, o.open? path (Opening.functionLine indent S) = none) ∧
    ∀ w : Wrapping, w.Laid → w.signature = S → s.draft? = none →
      ∃ d, s.feedAll w.lines = ⟨some path, none, [], s.closed ++ [d]⟩ ∧ d.signature = S ∧
        d.insertText = (Declaration.ofSignature path S).insertText := by
  refine ⟨⟨notMem_of_keepsSignature hp hindent hS, fun h => keepsSignature_of_notMem hp hindent hS h.1 h.2⟩, ?_⟩
  rintro w hw rfl hd
  exact ⟨_, hw.feedAll_lines hp hd, rfl, rfl⟩

/-- Between the declarations of a namespace. -/
def between : Scanner := ⟨some "CG".toList, none, [], []⟩

/-- An object type inside the parentheses, and a parameter behind it. -/
def pick : Wrapping :=
  { indent := "  ".toList
    signature := "pick(o: \x7b a: number; b: string \x7d, w: number): void".toList
    first := "pick(".toList
    rest := [("    ".toList, "o: \x7b a: number; b: string \x7d,".toList), ("    ".toList, "w: number".toList),
      ("  ".toList, "): void;".toList)] }

theorem laid_pick : pick.Laid where
  tight := by decide
  parentheses := by decide
  keyword := by decide
  indent := Text.allBlank_iff.mp (by decide)
  margins := by
    have hmargins : ∀ r ∈ pick.rest, Text.allBlank r.1 = true := by decide
    exact fun r hr => Text.allBlank_iff.mp (hmargins r hr)
  broken := .opened "pick".toList (by decide)
    (.space "o: \x7b a: number; b: string \x7d,".toList (.closing (p := "w: number".toList) (by decide) (.whole _)))
  rest := by decide
  clear := by decide
  first := by decide
  early := by decide +kernel

theorem isSignature_pick : IsSignature pick.signature := by decide

/-- An arrow in a parameter type, on one line, and an object type over several. -/
theorem keepsSignature_callback : IsSignature "on(f: (e: Event) => void): void".toList ∧
    between.KeepsSignature "CG".toList "\t".toList "on(f: (e: Event) => void): void".toList ∧
    IsSignature pick.signature ∧ ∃ d, between.feedAll pick.lines = ⟨some "CG".toList, none, [], [d]⟩ ∧
      d.signature = pick.signature ∧ d.insertText = "CG.pick(o,w)".toList := by
  have hS : IsSignature "on(f: (e: Event) => void): void".toList := by decide
  have hcall : (Declaration.ofSignature "CG".toList pick.signature).insertText = "CG.pick(o,w)".toList := by
    decide +kernel
  obtain ⟨d, hfeed, hd, hinsert⟩ :=
    (keepsSignature_iff (s := between) rfl laid_pick.indent isSignature_pick).2 pick laid_pick rfl rfl
  exact ⟨hS, (keepsSignature_iff rfl (Text.allBlank_iff.mp (by decide)) hS).1.mpr (by decide), isSignature_pick, d,
    hfeed, hd, hinsert.trans hcall⟩

/-- **A semicolon inside brackets cuts the signature short.** -/
theorem not_keepsSignature_pick : IsSignature pick.signature ∧
    ¬between.KeepsSignature "CG".toList pick.indent pick.signature :=
  ⟨isSignature_pick, fun h => (notMem_of_keepsSignature rfl laid_pick.indent isSignature_pick h).1 (by decide)⟩

/-- The parameter behind it is missing from the call. -/
example : (between.feed (Opening.functionLine pick.indent pick.signature)).closed.map Declaration.insertText =
    ["CG.pick(o)".toList] := by
  decide +kernel

end Scanner
end Ambient
