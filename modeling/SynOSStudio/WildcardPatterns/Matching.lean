import Mathlib.Data.List.Forall2
import Mathlib.Data.Prod.Lex
import Mathlib.Tactic.Tauto

/-!
# Matching wildcard patterns

What it means that a value matches a pattern in which one letter stands for any single letter and
another one for any run of letters, and a matcher that tries the last run only. On values
without the letter for runs the two agree.
-/

namespace WildcardPatterns

variable {α : Type*} {any many : α}

/-- The value is the pattern with a letter for each `any` and a run of letters for each `many`. -/
inductive Matches (any many : α) : List α → List α → Prop
  | nil : Matches any many [] []
  | one {c b : α} {pattern value : List α} (hc : c ≠ many) (hone : c = any ∨ c = b)
      (hrest : Matches any many pattern value) : Matches any many (c :: pattern) (b :: value)
  | skip {pattern value : List α} (hrest : Matches any many pattern value) :
      Matches any many (many :: pattern) value
  | take {b : α} {pattern value : List α} (hrest : Matches any many (many :: pattern) value) :
      Matches any many (many :: pattern) (b :: value)

section Declarative

variable {pattern value run lit seg : List α} {b c : α}

theorem matches_many_append (h : Matches any many (many :: pattern) value) (run : List α) :
    Matches any many (many :: pattern) (run ++ value) := by
  induction run with
  | nil => exact h
  | cons b run ih => exact .take ih

/-- A run takes any letters before what the rest of the pattern matches. -/
theorem matches_many_iff : Matches any many (many :: pattern) value ↔
    ∃ run rest, value = run ++ rest ∧ Matches any many pattern rest := by
  constructor
  · intro h
    generalize hpattern : many :: pattern = whole at h
    induction h with
    | nil => cases hpattern
    | one hc => exact absurd (List.cons.inj hpattern).1.symm hc
    | skip hrest =>
      cases hpattern
      exact ⟨[], _, rfl, hrest⟩
    | take _ ih =>
      obtain ⟨run, rest, rfl, hmatch⟩ := ih hpattern
      exact ⟨_ :: run, rest, rfl, hmatch⟩
  · rintro ⟨run, rest, rfl, hmatch⟩
    exact matches_many_append (.skip hmatch) run

theorem matches_many_cons_iff : Matches any many (many :: pattern) (b :: value) ↔
    Matches any many pattern (b :: value) ∨ Matches any many (many :: pattern) value := by
  constructor
  · intro h
    cases h with
    | one hc => exact absurd rfl hc
    | skip hrest => exact .inl hrest
    | take hrest => exact .inr hrest
  · exact fun h => h.elim .skip .take

theorem matches_one_iff (hc : c ≠ many) : Matches any many (c :: pattern) (b :: value) ↔
    (c = any ∨ c = b) ∧ Matches any many pattern value := by
  constructor
  · intro h
    cases h with
    | one _ hone hrest => exact ⟨hone, hrest⟩
    | skip => exact absurd rfl hc
    | take => exact absurd rfl hc
  · exact fun h => .one hc h.1 h.2

theorem matches_nil_iff : Matches any many pattern [] ↔ ∀ c ∈ pattern, c = many := by
  induction pattern with
  | nil => exact iff_of_true .nil nofun
  | cons c pattern ih =>
    rw [List.forall_mem_cons, ← ih]
    constructor
    · intro h
      cases h with
      | skip hrest => exact ⟨rfl, hrest⟩
    · rintro ⟨rfl, hrest⟩
      exact .skip hrest

/-- The letters of the pattern stand for the letters of the value one by one. -/
abbrev Stands (any many : α) : List α → List α → Prop :=
  List.Forall₂ fun c b => c ≠ many ∧ (c = any ∨ c = b)

/-- A pattern that begins with single letters matches only what begins with as many. -/
theorem exists_of_stands_append (hlit : ∀ c ∈ lit, c ≠ many)
    (h : Matches any many (lit ++ pattern) value) :
    ∃ seg rest, value = seg ++ rest ∧ seg.length = lit.length ∧ Matches any many pattern rest := by
  induction lit generalizing value with
  | nil => exact ⟨[], value, rfl, rfl, h⟩
  | cons c lit ih =>
    rw [List.forall_mem_cons] at hlit
    rw [List.cons_append] at h
    cases h with
    | one _ _ hrest =>
      obtain ⟨seg, rest, rfl, hlength, hmatch⟩ := ih hlit.2 hrest
      exact ⟨_ :: seg, rest, rfl, by simp [hlength], hmatch⟩
    | skip => exact absurd rfl hlit.1
    | take => exact absurd rfl hlit.1

theorem matches_refl (h : many ∉ value) : Matches any many value value := by
  induction value with
  | nil => exact .nil
  | cons b value ih =>
    rw [List.mem_cons, not_or] at h
    exact .one (Ne.symm h.1) (.inr rfl) (ih h.2)

theorem Stands.ne_many (h : Stands any many lit seg) : ∀ c ∈ lit, c ≠ many := by
  induction h with
  | nil => exact nofun
  | cons hc _ ih => exact List.forall_mem_cons.mpr ⟨hc.1, ih⟩

end Declarative

section Greedy

/-- What is left of the pattern and of the value, and what was left at the last run. -/
structure Scan (α : Type*) where
  pattern : List α
  value : List α
  star : Option (List α × List α)
  behind : ∀ mark ∈ star, value.length ≤ mark.2.length

def Scan.start (pattern value : List α) : Scan α where
  pattern := pattern
  value := value
  star := none
  behind := nofun

variable [DecidableEq α]

/-- The last run takes one more letter. -/
def Scan.back (s : Scan α) : Option (Scan α) :=
  s.star.map fun mark => ⟨mark.1, mark.2.tail, some (mark.1, mark.2.tail), by
    rintro _ ⟨⟩
    exact le_rfl⟩

/-- One round of the loop while a letter of the value is left. -/
def Scan.step (any many : α) (s : Scan α) (b : α) (value : List α)
    (hvalue : s.value = b :: value) : Option (Scan α) :=
  match s.pattern with
  | [] => s.back
  | c :: pattern =>
    if c = any ∨ c = b then
      some ⟨pattern, value, s.star, fun mark hmark => by
        have hbehind := s.behind mark hmark
        rw [hvalue, List.length_cons] at hbehind
        omega⟩
    else if c = many then
      some ⟨pattern, s.value, some (pattern, s.value), by
        rintro _ ⟨⟩
        exact le_rfl⟩
    else s.back

/-- The letters that the last run may still take, and what is left. -/
def Scan.measure (s : Scan α) : ℕ ×ₗ ℕ :=
  toLex ((s.star.elim (s.value.length + 1) fun mark => mark.2.length),
    s.pattern.length + s.value.length)

section Steps

variable {s s' : Scan α} {b : α} {value : List α}

/-- What a round does: it matches a letter, it opens a run, or the last run takes a letter. -/
theorem Scan.step_cases (hvalue : s.value = b :: value)
    (h : s.step any many b value hvalue = some s') :
    (∃ c pattern, s.pattern = c :: pattern ∧ (c = any ∨ c = b) ∧ s'.pattern = pattern ∧
      s'.value = value ∧ s'.star = s.star) ∨
    (∃ pattern, s.pattern = many :: pattern ∧ many ≠ any ∧ many ≠ b ∧ s'.pattern = pattern ∧
      s'.value = s.value ∧ s'.star = some (pattern, s.value)) ∨
    (∃ pattern mark, (∀ c ∈ s.pattern.head?, c ≠ many ∧ c ≠ any ∧ c ≠ b) ∧
      s.star = some (pattern, mark) ∧ s'.pattern = pattern ∧ s'.value = mark.tail ∧
      s'.star = some (pattern, mark.tail)) := by
  have hback (hhead : ∀ c ∈ s.pattern.head?, c ≠ many ∧ c ≠ any ∧ c ≠ b)
      (h : s.back = some s') : ∃ pattern mark,
        (∀ c ∈ s.pattern.head?, c ≠ many ∧ c ≠ any ∧ c ≠ b) ∧
        s.star = some (pattern, mark) ∧ s'.pattern = pattern ∧ s'.value = mark.tail ∧
        s'.star = some (pattern, mark.tail) := by
    obtain ⟨⟨pattern, mark⟩, hstar, rfl⟩ := Option.map_eq_some_iff.mp h
    exact ⟨pattern, mark, hhead, hstar, rfl, rfl, rfl⟩
  unfold Scan.step at h
  split at h
  · rename_i hpattern
    exact .inr (.inr (hback (by rw [hpattern]; exact nofun) h))
  · rename_i c pattern hpattern
    split_ifs at h with hone hmany
    · obtain rfl := Option.some.inj h
      exact .inl ⟨c, pattern, hpattern, hone, rfl, rfl, rfl⟩
    · obtain rfl := Option.some.inj h
      subst hmany
      rw [not_or] at hone
      exact .inr (.inl ⟨pattern, hpattern, hone.1, hone.2, rfl, rfl, rfl⟩)
    · rw [not_or] at hone
      refine .inr (.inr (hback ?_ h))
      rw [hpattern]
      rintro _ ⟨⟩
      exact ⟨hmany, hone.1, hone.2⟩

theorem Scan.step_measure (hvalue : s.value = b :: value)
    (h : s.step any many b value hvalue = some s') : s'.measure < s.measure := by
  unfold Scan.measure
  rw [Prod.Lex.toLex_lt_toLex]
  obtain ⟨c, pattern, hpattern, -, hp, hv, hs⟩ | ⟨pattern, hpattern, -, -, hp, hv, hs⟩ |
    ⟨pattern, mark, -, hstar, hp, hv, hs⟩ := Scan.step_cases hvalue h
  · rw [hp, hv, hs, hpattern, hvalue]
    cases s.star with
    | none => simp
    | some mark => exact .inr ⟨rfl, by simp only [List.length_cons]; omega⟩
  · rw [hp, hv, hs, hpattern]
    cases hstar : s.star with
    | none => simp
    | some mark =>
      have hbehind := s.behind mark hstar
      simp only [Option.elim_some, List.length_cons]
      omega
  · have hbehind : s.value.length ≤ mark.length := s.behind _ hstar
    rw [hvalue, List.length_cons] at hbehind
    rw [hs, hstar]
    simp only [Option.elim_some, List.length_tail]
    omega

end Steps

/-- The loop of the matcher. -/
def Scan.matches (any many : α) (s : Scan α) : Bool :=
  match hvalue : s.value with
  | [] => s.pattern.all (· = many)
  | b :: value =>
    match _hstep : s.step any many b value hvalue with
    | none => false
    | some s' => s'.matches any many
termination_by s.measure
decreasing_by exact Scan.step_measure hvalue _hstep

end Greedy

section Agreement

variable [DecidableEq α] {pattern value : List α} {s s' : Scan α} {b : α}

/-- What the last run has still to try. -/
def Scan.Retry (any many : α) (s : Scan α) : Prop :=
  ∃ pattern b mark, s.star = some (pattern, b :: mark) ∧ Matches any many (many :: pattern) mark

/-- The pattern since the last run has matched the value letter by letter. -/
def Scan.Followed (any many : α) (s : Scan α) : Prop :=
  ∀ before mark, s.star = some (before, mark) → ∃ lit seg, before = lit ++ s.pattern ∧
    mark = seg ++ s.value ∧ Stands any many lit seg

/-- The letter for runs is not in the value. -/
def Scan.Plain (many : α) (s : Scan α) : Prop :=
  many ∉ s.value ∧ ∀ before mark, s.star = some (before, mark) → many ∉ mark

theorem Scan.step_none (hvalue : s.value = b :: value)
    (h : s.step any many b value hvalue = none) :
    s.star = none ∧ ∀ c ∈ s.pattern.head?, c ≠ many ∧ c ≠ any ∧ c ≠ b := by
  unfold Scan.step at h
  split at h
  · rename_i hpattern
    exact ⟨Option.map_eq_none_iff.mp h, by rw [hpattern]; exact nofun⟩
  · rename_i c pattern hpattern
    split_ifs at h with hone hmany
    rw [not_or] at hone
    refine ⟨Option.map_eq_none_iff.mp h, ?_⟩
    rw [hpattern]
    rintro _ ⟨⟩
    exact ⟨hmany, hone.1, hone.2⟩

omit [DecidableEq α] in
/-- The value of a mismatch is not matched from here. -/
theorem not_matches_of_head (h : ∀ c ∈ pattern.head?, c ≠ many ∧ c ≠ any ∧ c ≠ b) :
    ¬ Matches any many pattern (b :: value) := by
  intro hmatch
  cases hmatch with
  | one _ hone => exact hone.elim (h _ rfl).2.1 (h _ rfl).2.2
  | skip => exact (h _ rfl).1 rfl
  | take => exact (h _ rfl).1 rfl

omit [DecidableEq α] in
/-- After a run is opened or has taken a letter, all that it may still take is to be tried. -/
theorem found_of_star (hpattern : s.pattern = pattern) (hvalue : s.value = value)
    (hstar : s.star = some (pattern, value)) :
    (Matches any many s.pattern s.value ∨ s.Retry any many) ↔
      Matches any many (many :: pattern) value := by
  rw [hpattern, hvalue]
  cases value with
  | nil =>
    have hnone : ¬ s.Retry any many := by
      rintro ⟨pattern', b, mark, hmark, -⟩
      cases hstar.symm.trans hmark
    rw [or_iff_left hnone, matches_nil_iff, matches_nil_iff, List.forall_mem_cons]
    exact (and_iff_right rfl).symm
  | cons b value =>
    have hretry : s.Retry any many ↔ Matches any many (many :: pattern) value := by
      constructor
      · rintro ⟨pattern', b', mark, hmark, hmatch⟩
        cases hstar.symm.trans hmark
        exact hmatch
      · exact fun hmatch => ⟨pattern, b, value, hstar, hmatch⟩
    rw [hretry, matches_many_cons_iff]

omit [DecidableEq α] in
/-- What an earlier run has still to try is found by the next run too. -/
theorem Scan.Followed.matches_of_retry (h : s.Followed any many) (hretry : s.Retry any many)
    (hpattern : s.pattern = many :: pattern) : Matches any many s.pattern s.value := by
  obtain ⟨before, b, mark, hstar, hmatch⟩ := hretry
  obtain ⟨lit, seg, hbefore, hmark, hstands⟩ := h _ _ hstar
  obtain ⟨run, rest, hrun, hrest⟩ := matches_many_iff.mp hmatch
  rw [hbefore] at hrest
  obtain ⟨seg', rest', hseg', hlength, hfound⟩ := exists_of_stands_append hstands.ne_many hrest
  have hshort : rest'.length ≤ s.value.length := by
    have htotal := congrArg List.length hmark
    have hmarkLength := congrArg List.length hrun
    have hrestLength := congrArg List.length hseg'
    have hlitLength := hstands.length_eq
    simp only [List.length_append, List.length_cons] at htotal hmarkLength hrestLength
    omega
  have hsuffix : rest' <:+ b :: mark :=
    ⟨b :: (run ++ seg'), by rw [hrun, hseg']; simp⟩
  obtain ⟨front, hfront⟩ :=
    List.suffix_of_suffix_length_le hsuffix ⟨seg, hmark.symm⟩ hshort
  rw [hpattern] at hfound ⊢
  rw [← hfront]
  exact matches_many_append hfound front

/-- A round keeps what there is to find. -/
theorem Scan.step_found (hany : any ≠ many) (hb : b ≠ many) (hvalue : s.value = b :: value)
    (hfollowed : s.Followed any many) (h : s.step any many b value hvalue = some s') :
    (Matches any many s'.pattern s'.value ∨ s'.Retry any many ↔
      Matches any many s.pattern s.value ∨ s.Retry any many) ∧ s'.Followed any many := by
  obtain ⟨c, pattern, hpattern, hone, hp, hv, hs⟩ | ⟨pattern, hpattern, -, -, hp, hv, hs⟩ |
    ⟨pattern, mark, hhead, hstar, hp, hv, hs⟩ := Scan.step_cases hvalue h
  · have hc : c ≠ many := by
      rintro rfl
      exact hone.elim (fun heq => hany heq.symm) fun heq => hb heq.symm
    have hretry : s'.Retry any many ↔ s.Retry any many := by rw [Retry, Retry, hs]
    refine ⟨?_, fun before mark hmark => ?_⟩
    · rw [hp, hv, hretry, hpattern, hvalue, matches_one_iff hc, and_iff_right hone]
    · obtain ⟨lit, seg, hlit, hseg, hstands⟩ := hfollowed before mark (hs ▸ hmark)
      refine ⟨lit ++ [c], seg ++ [b], ?_, ?_, ?_⟩
      · rw [hlit, hpattern, hp]
        simp
      · rw [hseg, hvalue, hv]
        simp
      · exact List.rel_append hstands (.cons ⟨hc, hone⟩ .nil)
  · refine ⟨?_, fun before mark hmark => ?_⟩
    · rw [found_of_star hp hv hs, ← hpattern]
      refine ⟨.inl, fun hfound => hfound.elim id fun hretry => ?_⟩
      exact hfollowed.matches_of_retry hretry hpattern
    · cases hs.symm.trans hmark
      exact ⟨[], [], hp.symm, hv.symm, .nil⟩
  · have hbehind : s.value.length ≤ mark.length := s.behind _ hstar
    obtain ⟨first, rest, rfl⟩ : ∃ first rest, mark = first :: rest := by
      cases mark with
      | nil => simp [hvalue] at hbehind
      | cons first rest => exact ⟨first, rest, rfl⟩
    have hretry : s.Retry any many ↔ Matches any many (many :: pattern) rest := by
      constructor
      · rintro ⟨pattern', b', mark, hmark, hmatch⟩
        cases hstar.symm.trans hmark
        exact hmatch
      · exact fun hmatch => ⟨pattern, first, rest, hstar, hmatch⟩
    refine ⟨?_, fun before mark hmark => ?_⟩
    · rw [found_of_star hp hv hs, hretry, hvalue, or_iff_right (not_matches_of_head hhead)]
      rfl
    · cases hs.symm.trans hmark
      exact ⟨[], [], hp.symm, hv.symm, .nil⟩

omit [DecidableEq α] in
/-- Once the value is used up, an earlier run has nothing left to try. -/
theorem Scan.Followed.not_retry (h : s.Followed any many) (hvalue : s.value = []) :
    ¬ s.Retry any many := by
  rintro ⟨before, b, mark, hstar, hmatch⟩
  obtain ⟨lit, seg, hbefore, hmark, hstands⟩ := h _ _ hstar
  obtain ⟨run, rest, hrun, hrest⟩ := matches_many_iff.mp hmatch
  rw [hbefore] at hrest
  obtain ⟨seg', rest', hseg', hlength, -⟩ := exists_of_stands_append hstands.ne_many hrest
  have htotal := congrArg List.length hmark
  have hmarkLength := congrArg List.length hrun
  have hrestLength := congrArg List.length hseg'
  have hlitLength := hstands.length_eq
  simp only [List.length_append, List.length_cons, hvalue, List.length_nil]
    at htotal hmarkLength hrestLength
  omega

theorem Scan.step_plain (hvalue : s.value = b :: value)
    (h : s.step any many b value hvalue = some s') (hplain : s.Plain many) : s'.Plain many := by
  have hrest : many ∉ value := fun hmem =>
    hplain.1 (by rw [hvalue]; exact List.mem_cons_of_mem b hmem)
  obtain ⟨c, pattern, -, -, -, hv, hs⟩ | ⟨pattern, -, -, -, -, hv, hs⟩ |
    ⟨pattern, mark, -, hstar, -, hv, hs⟩ := Scan.step_cases hvalue h
  · exact ⟨hv ▸ hrest, hs ▸ hplain.2⟩
  · refine ⟨hv ▸ hplain.1, fun before mark hmark => ?_⟩
    cases hs.symm.trans hmark
    exact hplain.1
  · have htail : many ∉ mark.tail := fun hmem =>
      hplain.2 _ _ hstar (List.mem_of_mem_tail hmem)
    refine ⟨hv ▸ htail, fun before mark hmark => ?_⟩
    cases hs.symm.trans hmark
    exact htail

theorem Scan.matches_eq (s : Scan α) (hany : any ≠ many) (hplain : s.Plain many)
    (hfollowed : s.Followed any many) :
    s.matches any many = true ↔ Matches any many s.pattern s.value ∨ s.Retry any many := by
  fun_induction Scan.matches any many s with
  | case1 s hvalue =>
    rw [or_iff_left (hfollowed.not_retry hvalue), hvalue, matches_nil_iff]
    simp
  | case2 s b value hvalue hstep =>
    obtain ⟨hstar, hhead⟩ := Scan.step_none hvalue hstep
    rw [hvalue]
    refine iff_of_false nofun (not_or.mpr ⟨not_matches_of_head hhead, ?_⟩)
    rintro ⟨pattern, b', mark, hmark, -⟩
    cases hstar.symm.trans hmark
  | case3 s b value hvalue s' hstep ih =>
    have hb : b ≠ many := fun heq => hplain.1 (by rw [hvalue, heq]; exact List.mem_cons_self)
    obtain ⟨hfound, hfollowed'⟩ := Scan.step_found hany hb hvalue hfollowed hstep
    exact (ih (Scan.step_plain hvalue hstep hplain) hfollowed').trans hfound

/-- On a value without the letter for runs, the matcher finds just the matches. -/
theorem matches_iff (hany : any ≠ many) (hplain : many ∉ value) :
    (Scan.start pattern value).matches any many = true ↔ Matches any many pattern value := by
  have hretry : ¬ (Scan.start pattern value).Retry any many := by
    rintro ⟨pattern', b, mark, hmark, -⟩
    cases hmark
  have hnone (before mark : List α) : (Scan.start pattern value).star ≠ some (before, mark) :=
    Option.some_ne_none _ |>.symm
  rw [Scan.matches_eq _ hany ⟨hplain, fun _ _ heq => absurd heq (hnone _ _)⟩
    fun _ _ heq => absurd heq (hnone _ _)]
  exact or_iff_left hretry

theorem matches_start_cons {c : α} (hone : c = any ∨ c = b) :
    (Scan.start (c :: pattern) (b :: value)).matches any many =
      (Scan.start pattern value).matches any many := by
  have hstep : (Scan.start (c :: pattern) (b :: value)).step any many b value rfl =
      some (Scan.start pattern value) := by
    simp [Scan.step, Scan.start, hone]
  rw [Scan.matches.eq_def]
  split
  · rename_i hnil
    cases hnil
  · rename_i b' value' hcons
    cases hcons
    split
    · rename_i hnone
      cases hnone.symm.trans hstep
    · rename_i s' hsome
      cases hsome.symm.trans hstep
      rfl

theorem matches_start_nil :
    (Scan.start [] (b :: value)).matches any many = false := by
  rw [Scan.matches.eq_def]
  split
  · rename_i hnil
    cases hnil
  · split
    · rfl
    · rename_i hcons s' hsome
      cases hsome

theorem matches_start_replicate (run : List α) :
    (Scan.start (List.replicate run.length any ++ pattern) (run ++ value)).matches any many =
      (Scan.start pattern value).matches any many := by
  induction run with
  | nil => rfl
  | cons b run ih =>
    rw [List.length_cons, List.replicate_succ, List.cons_append, List.cons_append,
      matches_start_cons (.inl rfl), ih]

omit [DecidableEq α] in
theorem matches_replicate (hany : any ≠ many) (run : List α)
    (h : Matches any many pattern value) :
    Matches any many (List.replicate run.length any ++ pattern) (run ++ value) := by
  induction run with
  | nil => exact h
  | cons b run ih => exact .one hany (.inl rfl) ih

/-- On a value with the letter for runs, a pattern that asks for as many letters after a run as
are left there with that letter is matched but not found. -/
theorem exists_missed (hany : any ≠ many) (hvalue : many ∈ value) :
    ∃ pattern, pattern ⊆ [any, many] ∧ Matches any many pattern value ∧
      (Scan.start pattern value).matches any many = false := by
  obtain ⟨before, after, rfl, -⟩ := List.eq_append_cons_of_mem hvalue
  refine ⟨List.replicate before.length any ++ many :: (List.replicate after.length any ++ [any]),
    ?_, ?_, ?_⟩
  · intro c hc
    simp only [List.mem_append, List.mem_replicate, List.mem_cons, List.not_mem_nil, or_false]
      at hc ⊢
    tauto
  · refine matches_replicate hany before (.skip ?_)
    have hrun : List.replicate after.length any ++ [any] =
        List.replicate (many :: after).length any ++ [] := by
      rw [List.append_nil, List.length_cons, List.replicate_succ']
    have hmatch := matches_replicate hany (many :: after) .nil
    rwa [← hrun, List.append_nil] at hmatch
  · rw [matches_start_replicate, matches_start_cons (.inr rfl)]
    have hend := @matches_start_replicate α any many _ [any] [] after
    rw [List.append_nil] at hend
    rw [hend, Scan.matches.eq_def]
    simp [Scan.start, hany]

end Agreement

end WildcardPatterns
