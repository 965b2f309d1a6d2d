import Mathlib.Tactic

/-!
# Lines of a stream

A stream over any alphabet is cut after every separator; what follows the last one is a
line of its own unless it is empty. The cut depends on the stream alone, so a reader that
returns these lines does not depend on how the stream arrives.
-/

namespace ByteStreams

variable {α : Type} [DecidableEq α] {sep : α}

/-- The lines of a stream, each with the separator that ends it. -/
def linesOf (sep : α) : List α → List (List α)
  | [] => []
  | a :: stream =>
    if a = sep then [a] :: linesOf sep stream
    else
      match linesOf sep stream with
      | [] => [[a]]
      | line :: lines => (a :: line) :: lines

/-- The first line, up to and with its separator. -/
theorem linesOf_append_sep {before after : List α} (h : sep ∉ before) :
    linesOf sep (before ++ sep :: after) = (before ++ [sep]) :: linesOf sep after := by
  induction before with
  | nil => simp [linesOf]
  | cons a before ih =>
    have hne : a ≠ sep := fun heq => h (heq ▸ List.mem_cons_self)
    have hrest : sep ∉ before := fun hmem => h (List.mem_cons_of_mem a hmem)
    rw [List.cons_append, linesOf, if_neg hne, ih hrest]
    rfl

/-- There is one way to cut a stream at its first separator. -/
theorem eq_of_append_sep {before before' after after' : List α}
    (h : before ++ sep :: after = before' ++ sep :: after') (hbefore : sep ∉ before)
    (hbefore' : sep ∉ before') : before = before' ∧ after = after' := by
  have hlines := congrArg (linesOf sep) h
  rw [linesOf_append_sep hbefore, linesOf_append_sep hbefore'] at hlines
  have heq : before = before' := List.append_cancel_right (List.cons.inj hlines).1
  subst heq
  exact ⟨rfl, (List.cons.inj (List.append_cancel_left h)).2⟩

/-- A line that is read in parts is complete when its separator has come. -/
theorem eq_of_received {received rest line : List α} (h : received ++ rest = line ++ [sep])
    (hline : sep ∉ line) (hreceived : sep ∈ received) : received = line ++ [sep] ∧ rest = [] := by
  obtain ⟨before, after, hsplit, hbefore⟩ := List.eq_append_cons_of_mem hreceived
  subst hsplit
  rw [List.append_assoc, List.cons_append] at h
  obtain ⟨heq, hafter⟩ := eq_of_append_sep h hbefore hline
  obtain ⟨hnil, hrest⟩ := List.append_eq_nil_iff.mp hafter
  subst heq hnil
  exact ⟨rfl, hrest⟩

/-- A stream without a separator is one line. -/
theorem linesOf_no_sep {stream : List α} (h : sep ∉ stream) :
    linesOf sep stream = if stream = [] then [] else [stream] := by
  induction stream with
  | nil => rfl
  | cons a stream ih =>
    have hne : a ≠ sep := fun heq => h (heq ▸ List.mem_cons_self)
    have hrest : sep ∉ stream := fun hmem => h (List.mem_cons_of_mem a hmem)
    rw [linesOf, if_neg hne, ih hrest, if_neg (List.cons_ne_nil a stream)]
    cases stream with
    | nil => rfl
    | cons b stream => rfl

/-- The lines of a stream are the stream. -/
theorem flatten_linesOf (stream : List α) : (linesOf sep stream).flatten = stream := by
  induction stream with
  | nil => rfl
  | cons a stream ih =>
    rw [linesOf]
    split
    · simp [ih]
    · split
      · rename_i hnil
        rw [hnil] at ih
        simp [← ih]
      · rename_i line lines hlines
        rw [hlines] at ih
        simp [← ih]

/-- Lines that end with their only separator are the lines of what they add up to. -/
theorem linesOf_flatten {lines : List (List α)}
    (h : ∀ line ∈ lines, ∃ body, line = body ++ [sep] ∧ sep ∉ body) :
    linesOf sep lines.flatten = lines := by
  induction lines with
  | nil => rfl
  | cons line lines ih =>
    obtain ⟨body, rfl, hbody⟩ := h line List.mem_cons_self
    rw [List.flatten_cons, List.append_assoc, List.singleton_append, linesOf_append_sep hbody,
      ih fun other hother => h other (List.mem_cons_of_mem _ hother)]

/-- Nothing, or whole lines. -/
def EndsLine (sep : α) (stream : List α) : Prop :=
  stream = [] ∨ ∃ body, stream = body ++ [sep]

instance (sep : α) (stream : List α) : Decidable (EndsLine sep stream) :=
  decidable_of_iff (∀ a ∈ stream.getLast?, a = sep) (by
    unfold EndsLine
    rcases List.eq_nil_or_concat' stream with rfl | ⟨body, a, rfl⟩
    · simp
    · simp)

omit [DecidableEq α] in
theorem EndsLine.of_cons {a : α} {stream : List α} (h : EndsLine sep (a :: stream)) :
    EndsLine sep stream := by
  obtain hnil | ⟨body, hbody⟩ := h
  · cases hnil
  · cases body with
    | nil => exact .inl (List.cons.inj hbody).2
    | cons b body => exact .inr ⟨body, (List.cons.inj hbody).2⟩

omit [DecidableEq α] in
theorem EndsLine.append {stream stream' : List α} (h : EndsLine sep stream)
    (h' : EndsLine sep stream') : EndsLine sep (stream ++ stream') := by
  obtain rfl | ⟨body, rfl⟩ := h'
  · rwa [List.append_nil]
  · exact .inr ⟨stream ++ body, by simp⟩

theorem linesOf_ne_nil {stream : List α} (h : stream ≠ []) : linesOf sep stream ≠ [] := by
  intro hnil
  have hflatten : (linesOf sep stream).flatten = stream := flatten_linesOf stream
  rw [hnil] at hflatten
  exact h hflatten.symm

theorem ne_nil_of_mem_linesOf {stream line : List α} (h : line ∈ linesOf sep stream) :
    line ≠ [] := by
  induction stream generalizing line with
  | nil => cases h
  | cons a stream ih =>
    rw [linesOf] at h
    split at h
    · rcases List.mem_cons.mp h with rfl | hmem
      · exact List.cons_ne_nil _ _
      · exact ih hmem
    · split at h
      · rw [List.mem_singleton.mp h]
        exact List.cons_ne_nil _ _
      · rename_i first lines hlines
        rcases List.mem_cons.mp h with rfl | hmem
        · exact List.cons_ne_nil _ _
        · exact ih (hlines ▸ List.mem_cons_of_mem first hmem)

/-- Whole lines are cut on their own. -/
theorem linesOf_append {before : List α} (h : EndsLine sep before) (after : List α) :
    linesOf sep (before ++ after) = linesOf sep before ++ linesOf sep after := by
  induction before with
  | nil => rfl
  | cons a before ih =>
    have hbefore := h.of_cons
    rw [List.cons_append, linesOf, linesOf, ih hbefore]
    by_cases ha : a = sep
    · rw [if_pos ha, if_pos ha, List.cons_append]
    · rw [if_neg ha, if_neg ha]
      cases hlines : linesOf sep before with
      | nil =>
        obtain rfl : before = [] := by
          by_contra hne
          exact linesOf_ne_nil hne hlines
        obtain hnil | ⟨body, hbody⟩ := h
        · cases hnil
        · cases body with
          | nil => exact absurd (List.cons.inj hbody).1 ha
          | cons b body => simp at hbody
      | cons line lines => rfl

/-- What stands before a line is whole lines. -/
theorem endsLine_of_linesOf {stream line : List α} {front back : List (List α)}
    (h : linesOf sep stream = front ++ line :: back) : EndsLine sep front.flatten := by
  induction stream generalizing front line back with
  | nil => simp [linesOf] at h
  | cons a stream ih =>
    cases front with
    | nil => exact .inl rfl
    | cons first front =>
      rw [linesOf] at h
      split at h
      · rw [List.cons_append, List.cons.injEq] at h
        rw [List.flatten_cons, ← h.1]
        exact EndsLine.append (.inr ⟨[], by simp_all⟩) (ih h.2)
      · split at h
        · cases front <;> simp at h
        · rename_i line' lines hlines
          rw [List.cons_append, List.cons.injEq] at h
          have hrest : EndsLine sep (line' :: front).flatten := ih (by rw [hlines, h.2]; rfl)
          rw [List.flatten_cons, ← h.1, List.cons_append]
          obtain hnil | ⟨body, hbody⟩ := hrest
          · have hmem : line' ∈ linesOf sep stream := hlines ▸ List.mem_cons_self
            exact absurd (List.append_eq_nil_iff.mp hnil).1 (ne_nil_of_mem_linesOf hmem)
          · exact .inr ⟨a :: body, by rw [← List.flatten_cons, hbody]; rfl⟩

omit [DecidableEq α] in
theorem endsLine_append_iff {before after : List α} (h : EndsLine sep before) :
    EndsLine sep (before ++ after) ↔ EndsLine sep after := by
  constructor
  · intro hwhole
    rcases List.eq_nil_or_concat' after with rfl | ⟨body, a, rfl⟩
    · exact .inl rfl
    · obtain hnil | ⟨other, hother⟩ := hwhole
      · simp at hnil
      · rw [← List.append_assoc] at hother
        have ha := List.append_inj_right' hother rfl
        exact .inr ⟨body, by rw [ha]⟩
  · exact h.append

/-- Two streams keep their lines apart just when the first one ends its last line. -/
theorem linesOf_append_iff {before after : List α} :
    linesOf sep (before ++ after) = linesOf sep before ++ linesOf sep after ↔
      EndsLine sep before ∨ after = [] := by
  constructor
  · intro h
    by_cases hafter : after = []
    · exact .inr hafter
    · obtain ⟨line, lines, hlines⟩ := List.exists_cons_of_ne_nil (linesOf_ne_nil hafter)
      rw [hlines] at h
      have hends := endsLine_of_linesOf h
      rw [flatten_linesOf] at hends
      exact .inl hends
  · rintro (h | rfl)
    · exact linesOf_append h after
    · rw [List.append_nil]
      exact (List.append_nil _).symm

/-- A stream is whole lines and a rest without a separator. -/
theorem exists_last_line (sep : α) (stream : List α) :
    ∃ whole last, stream = whole ++ last ∧ EndsLine sep whole ∧ sep ∉ last := by
  induction stream using List.reverseRecOn with
  | nil => exact ⟨[], [], rfl, .inl rfl, by simp⟩
  | append_singleton stream a ih =>
    by_cases ha : a = sep
    · exact ⟨stream ++ [a], [], by simp, .inr ⟨stream, by rw [ha]⟩, by simp⟩
    · obtain ⟨whole, last, rfl, hwhole, hlast⟩ := ih
      refine ⟨whole, last ++ [a], by simp, hwhole, ?_⟩
      simp [hlast, Ne.symm ha]

omit [DecidableEq α] in
theorem mem_intercalate {a : α} {fields : List (List α)}
    (h : a ∈ List.intercalate [sep] fields) : a = sep ∨ ∃ field ∈ fields, a ∈ field := by
  induction fields with
  | nil => cases h
  | cons field fields ih =>
    cases fields with
    | nil =>
      rw [List.intercalate_singleton] at h
      exact .inr ⟨field, List.mem_cons_self, h⟩
    | cons next fields =>
      rw [List.intercalate_cons_cons, List.append_assoc, List.mem_append, List.mem_append] at h
      rcases h with hfield | hsep | hrest
      · exact .inr ⟨field, List.mem_cons_self, hfield⟩
      · exact .inl (List.mem_singleton.mp hsep)
      · refine (ih hrest).imp id fun ⟨other, hother, ha⟩ => ?_
        exact ⟨other, List.mem_cons_of_mem field hother, ha⟩

theorem not_mem_of_mem_splitOn {stream field : List α} (h : field ∈ stream.splitOn sep) :
    sep ∉ field := by
  induction stream generalizing field with
  | nil =>
    rw [List.splitOn_nil, List.mem_singleton] at h
    simp [h]
  | cons a stream ih =>
    rw [List.splitOn_cons_eq_if_modifyHead] at h
    cases hfields : stream.splitOn sep with
    | nil => exact absurd hfields (List.splitOn_ne_nil sep stream)
    | cons first fields =>
      rw [hfields] at h ih
      split at h
      · rcases List.mem_cons.mp h with rfl | h
        · exact List.not_mem_nil
        · exact ih h
      · next hne =>
        rcases List.mem_cons.mp h with rfl | h
        · have hsep : sep ≠ a := fun heq => hne (by simp [heq])
          simp [hsep, ih List.mem_cons_self]
        · exact ih (List.mem_cons_of_mem first h)

omit [DecidableEq α] in
theorem mem_intercalate_of_mem {a : α} {field : List α} {fields : List (List α)}
    (hfield : field ∈ fields) (ha : a ∈ field) : a ∈ List.intercalate [sep] fields := by
  induction fields with
  | nil => cases hfield
  | cons first fields ih =>
    cases fields with
    | nil =>
      rw [List.intercalate_singleton, ← List.mem_singleton.mp hfield]
      exact ha
    | cons next fields =>
      rw [List.intercalate_cons_cons, List.append_assoc, List.mem_append, List.mem_append]
      rcases List.mem_cons.mp hfield with rfl | hfield
      · exact .inl ha
      · exact .inr (.inr (ih hfield))

theorem mem_of_mem_splitOn {a : α} {stream field : List α} (h : field ∈ stream.splitOn sep)
    (ha : a ∈ field) : a ∈ stream := by
  have hmem : a ∈ List.intercalate [sep] (stream.splitOn sep) := mem_intercalate_of_mem h ha
  rwa [List.intercalate_splitOn] at hmem

section Images

variable {β : Type} {p : β → Bool} {q : α → Bool} {f : α → List β}

omit [DecidableEq α] in
theorem splitOnP_append_of_forall {front rest : List α} (h : ∀ a ∈ front, q a = false) :
    (front ++ rest).splitOnP q = (rest.splitOnP q).modifyHead (front ++ ·) := by
  induction front with
  | nil =>
    rw [List.nil_append]
    cases rest.splitOnP q <;> rfl
  | cons a front ih =>
    obtain ⟨ha, hfront⟩ := List.forall_mem_cons.mp h
    rw [List.cons_append, List.splitOnP_cons_eq_if_modifyHead, if_neg (by simp [ha]), ih hfront]
    cases rest.splitOnP q <;> rfl

omit [DecidableEq α] in
/-- Where the separators stay and nothing else becomes one, the fields are the images. -/
theorem splitOnP_flatMap (hsep : ∀ a, q a = true → ∃ b, f a = [b] ∧ p b = true)
    (hkeep : ∀ a, q a = false → ∀ b ∈ f a, p b = false) (stream : List α) :
    (stream.flatMap f).splitOnP p = (stream.splitOnP q).map (·.flatMap f) := by
  induction stream with
  | nil => rfl
  | cons a stream ih =>
    rw [List.flatMap_cons, List.splitOnP_cons_eq_if_modifyHead]
    cases ha : q a with
    | true =>
      obtain ⟨b, hb, hp⟩ := hsep a ha
      rw [hb, List.singleton_append, List.splitOnP_cons_eq_if_modifyHead, if_pos hp, ih]
      rfl
    | false =>
      rw [splitOnP_append_of_forall (hkeep a ha), ih]
      cases stream.splitOnP q <;> simp

end Images

end ByteStreams
