import Mathlib

/-!
# Lists of half-open intervals

Merging a list of intervals keeps its union and makes it ascending; cutting intervals out
of an ascending list leaves an ascending list of the difference.
-/

namespace IntervalLists

variable {α : Type} [LinearOrder α]

/-- The points from `start` on and before `stop`. -/
structure Extent (α : Type) where
  start : α
  stop : α
  deriving DecidableEq

def Extent.points (e : Extent α) : Set α := Set.Ico e.start e.stop

@[simp] theorem Extent.mem_points {e : Extent α} {x : α} :
    x ∈ e.points ↔ e.start ≤ x ∧ x < e.stop := Iff.rfl

/-- The points of all extents of a list. -/
def union (es : List (Extent α)) : Set α := {x | ∃ e ∈ es, x ∈ e.points}

@[simp] theorem mem_union {es : List (Extent α)} {x : α} :
    x ∈ union es ↔ ∃ e ∈ es, x ∈ e.points := Iff.rfl

theorem mem_union_append {first second : List (Extent α)} {x : α} :
    x ∈ union (first ++ second) ↔ x ∈ union first ∨ x ∈ union second := by
  simp only [mem_union, List.mem_append, or_and_right, exists_or]

/-- Every extent ends before the next ones start. -/
def Ascending (es : List (Extent α)) : Prop :=
  es.Pairwise fun a b => a.stop ≤ b.start

def Proper (es : List (Extent α)) : Prop :=
  ∀ e ∈ es, e.start < e.stop

/-- Extents in ascending order share no point. -/
theorem Ascending.disjoint {es : List (Extent α)} (h : Ascending es) :
    es.Pairwise fun a b => Disjoint a.points b.points := by
  refine List.Pairwise.imp ?_ h
  intro a b hle
  rw [Set.disjoint_left]
  intro x hx hx'
  exact absurd (hx.2.trans_le (hle.trans hx'.1)) (lt_irrefl x)

section Merging

/-- An extent is joined to the last one when it starts inside or right after it. -/
def absorb (merged : List (Extent α)) (e : Extent α) : List (Extent α) :=
  match merged.getLast? with
  | none => merged ++ [e]
  | some last =>
    if last.stop < e.start then merged ++ [e]
    else merged.dropLast ++ [⟨last.start, max last.stop e.stop⟩]

def byStart (es : List (Extent α)) : List (Extent α) :=
  es.insertionSort fun a b => a.start ≤ b.start

def merge (es : List (Extent α)) : List (Extent α) :=
  (byStart es).foldl absorb []

theorem byStart_sorted (es : List (Extent α)) :
    (byStart es).Pairwise fun a b => a.start ≤ b.start := by
  have : Std.Total fun a b : Extent α => a.start ≤ b.start := ⟨fun a b => le_total _ _⟩
  have : IsTrans (Extent α) fun a b => a.start ≤ b.start := ⟨fun _ _ _ => le_trans⟩
  exact List.pairwise_insertionSort _ es

theorem mem_byStart {es : List (Extent α)} {e : Extent α} : e ∈ byStart es ↔ e ∈ es :=
  List.mem_insertionSort _

/-- What merging keeps: the extents are proper, end before the next starts, and start before
everything that is still to come. -/
structure Merged (merged rest : List (Extent α)) : Prop where
  apart : merged.Pairwise fun a b => a.stop < b.start
  proper : Proper merged
  ahead : ∀ a ∈ merged, ∀ e ∈ rest, a.start ≤ e.start

theorem dropLast_append_of_getLast? {β : Type} {l : List β} {last : β}
    (h : l.getLast? = some last) : l = l.dropLast ++ [last] :=
  (List.dropLast_append_getLast? last h).symm

theorem Merged.absorb {merged rest : List (Extent α)} {e : Extent α}
    (h : Merged merged (e :: rest)) (he : e.start < e.stop)
    (hrest : ∀ r ∈ rest, e.start ≤ r.start) : Merged (absorb merged e) rest := by
  have hahead : ∀ a ∈ merged, ∀ r ∈ rest, a.start ≤ r.start := fun a ha r hr =>
    h.ahead a ha r (List.mem_cons_of_mem e hr)
  unfold IntervalLists.absorb
  split
  · rename_i hnone
    rw [List.getLast?_eq_none_iff] at hnone
    subst hnone
    refine ⟨List.pairwise_singleton _ e, ?_, ?_⟩
    · intro a ha
      rw [List.mem_singleton.mp ha]
      exact he
    · intro a ha
      rw [List.mem_singleton.mp ha]
      exact hrest
  · rename_i last hlast
    have hsplit := dropLast_append_of_getLast? hlast
    have hmem : last ∈ merged := List.mem_of_getLast? hlast
    have hpairs := h.apart
    rw [hsplit, List.pairwise_append] at hpairs
    have hearlier : ∀ a ∈ merged.dropLast, a.stop < last.start := fun a ha =>
      hpairs.2.2 a ha last (List.mem_singleton_self last)
    split
    · rename_i hgap
      refine ⟨?_, ?_, ?_⟩
      · rw [List.pairwise_append]
        refine ⟨h.apart, List.pairwise_singleton _ e, ?_⟩
        intro a ha b hb
        rw [List.mem_singleton.mp hb]
        rw [hsplit] at ha
        rcases List.mem_append.mp ha with ha | ha
        · exact (hearlier a ha).trans_le (h.ahead last hmem e List.mem_cons_self)
        · rw [List.mem_singleton.mp ha]
          exact hgap
      · intro a ha
        rcases List.mem_append.mp ha with ha | ha
        · exact h.proper a ha
        · rw [List.mem_singleton.mp ha]
          exact he
      · intro a ha
        rcases List.mem_append.mp ha with ha | ha
        · exact hahead a ha
        · rw [List.mem_singleton.mp ha]
          exact hrest
    · refine ⟨?_, ?_, ?_⟩
      · rw [List.pairwise_append]
        refine ⟨hpairs.1, List.pairwise_singleton _ _, ?_⟩
        intro a ha b hb
        rw [List.mem_singleton.mp hb]
        exact hearlier a ha
      · intro a ha
        rcases List.mem_append.mp ha with ha | ha
        · exact h.proper a (List.mem_of_mem_dropLast ha)
        · rw [List.mem_singleton.mp ha]
          exact (h.proper last hmem).trans_le (le_max_left _ _)
      · intro a ha
        rcases List.mem_append.mp ha with ha | ha
        · exact hahead a (List.mem_of_mem_dropLast ha)
        · rw [List.mem_singleton.mp ha]
          exact hahead last hmem

theorem mem_union_singleton {e : Extent α} {x : α} : x ∈ union [e] ↔ x ∈ e.points := by
  simp only [mem_union, List.mem_singleton, exists_eq_left]

/-- Joining adds the points of the extent and no others. -/
theorem mem_union_absorb {merged : List (Extent α)} {e : Extent α} {x : α}
    (hahead : ∀ a ∈ merged, a.start ≤ e.start) :
    x ∈ union (absorb merged e) ↔ x ∈ union merged ∨ x ∈ e.points := by
  unfold absorb
  split
  · rw [mem_union_append, mem_union_singleton]
  · rename_i last hlast
    split
    · rw [mem_union_append, mem_union_singleton]
    · rename_i hgap
      have htouch : e.start ≤ last.stop := not_lt.mp hgap
      have hfirst := hahead last (List.mem_of_getLast? hlast)
      have hjoined : x ∈ (⟨last.start, max last.stop e.stop⟩ : Extent α).points ↔
          x ∈ last.points ∨ x ∈ e.points := by
        simp only [Extent.mem_points, lt_max_iff]
        constructor
        · rintro ⟨hstart, hbefore | hbefore⟩
          · exact Or.inl ⟨hstart, hbefore⟩
          · rcases lt_or_ge x last.stop with hlt | hge
            · exact Or.inl ⟨hstart, hlt⟩
            · exact Or.inr ⟨htouch.trans hge, hbefore⟩
        · rintro (⟨hstart, hbefore⟩ | ⟨hstart, hbefore⟩)
          · exact ⟨hstart, Or.inl hbefore⟩
          · exact ⟨hfirst.trans hstart, Or.inr hbefore⟩
      have hmerged : x ∈ union merged ↔ x ∈ union merged.dropLast ∨ x ∈ last.points := by
        rw [← mem_union_singleton (e := last), ← mem_union_append,
          ← dropLast_append_of_getLast? hlast]
      rw [mem_union_append, mem_union_singleton, hjoined, hmerged, or_assoc]

theorem foldl_absorb {es merged : List (Extent α)}
    (hsorted : es.Pairwise fun a b => a.start ≤ b.start) (hproper : Proper es)
    (h : Merged merged es) :
    Merged (es.foldl absorb merged) [] ∧
      ∀ x, x ∈ union (es.foldl absorb merged) ↔ x ∈ union merged ∨ x ∈ union es := by
  induction es generalizing merged with
  | nil => exact ⟨h, fun x => by simp [union]⟩
  | cons e rest ih =>
    rw [List.pairwise_cons] at hsorted
    have hstep := h.absorb (hproper e List.mem_cons_self) hsorted.1
    obtain ⟨hmerged, hunion⟩ := ih hsorted.2
      (fun a ha => hproper a (List.mem_cons_of_mem e ha)) hstep
    refine ⟨hmerged, fun x => ?_⟩
    rw [List.foldl_cons, hunion, mem_union_absorb fun a ha => h.ahead a ha e List.mem_cons_self,
      or_assoc]
    simp only [mem_union, List.mem_cons, exists_eq_or_imp]

theorem merged_merge {es : List (Extent α)} (hproper : Proper es) :
    Merged (merge es) [] ∧ ∀ x, x ∈ union (merge es) ↔ x ∈ union es := by
  have hempty : Merged ([] : List (Extent α)) (byStart es) :=
    ⟨List.Pairwise.nil, fun _ h => absurd h List.not_mem_nil,
      fun _ h => absurd h List.not_mem_nil⟩
  obtain ⟨hmerged, hunion⟩ := foldl_absorb (byStart_sorted es)
    (fun e he => hproper e (mem_byStart.mp he)) hempty
  refine ⟨hmerged, fun x => (hunion x).trans ?_⟩
  simp only [mem_union, mem_byStart, List.not_mem_nil, false_and, exists_false, false_or]

theorem ascending_merge {es : List (Extent α)} (hproper : Proper es) : Ascending (merge es) :=
  (merged_merge hproper).1.apart.imp le_of_lt

theorem proper_merge {es : List (Extent α)} (hproper : Proper es) : Proper (merge es) :=
  (merged_merge hproper).1.proper

theorem mem_union_merge {es : List (Extent α)} (hproper : Proper es) {x : α} :
    x ∈ union (merge es) ↔ x ∈ union es :=
  (merged_merge hproper).2 x

end Merging

section Cutting

/-- What is left of an extent on both sides of a used one. -/
def cut (used e : Extent α) : List (Extent α) :=
  if used.stop ≤ e.start ∨ e.stop ≤ used.start then [e]
  else (if e.start < used.start then [⟨e.start, used.start⟩] else []) ++
    if used.stop < e.stop then [⟨used.stop, e.stop⟩] else []

def cutAll (available occupied : List (Extent α)) : List (Extent α) :=
  (byStart occupied).foldl (fun result used => result.flatMap (cut used)) available

theorem mem_union_cut {used e : Extent α} {x : α} :
    x ∈ union (cut used e) ↔ x ∈ e.points ∧ x ∉ used.points := by
  unfold cut
  split
  · rename_i hapart
    rw [mem_union_singleton]
    simp only [Extent.mem_points]
    constructor
    · rintro ⟨hstart, hstop⟩
      refine ⟨⟨hstart, hstop⟩, fun hused => ?_⟩
      rcases hapart with h | h
      · exact absurd (hused.2.trans_le (h.trans hstart)) (lt_irrefl x)
      · exact absurd (hstop.trans_le (h.trans hused.1)) (lt_irrefl x)
    · exact fun h => h.1
  · rename_i hmeets
    push Not at hmeets
    obtain ⟨hafter, hbefore⟩ := hmeets
    have hleft : x ∈ union (if e.start < used.start then [⟨e.start, used.start⟩] else []) ↔
        e.start ≤ x ∧ x < used.start := by
      split
      · rw [mem_union_singleton]
        rfl
      · rename_i hnone
        simp only [mem_union, List.not_mem_nil, false_and, exists_false, false_iff, not_and,
          not_lt]
        exact fun hx => (not_lt.mp hnone).trans hx
    have hright : x ∈ union (if used.stop < e.stop then [⟨used.stop, e.stop⟩] else []) ↔
        used.stop ≤ x ∧ x < e.stop := by
      split
      · rw [mem_union_singleton]
        rfl
      · rename_i hnone
        simp only [mem_union, List.not_mem_nil, false_and, exists_false, false_iff, not_and,
          not_lt]
        exact fun hx => (not_lt.mp hnone).trans hx
    rw [mem_union_append, hleft, hright]
    simp only [Extent.mem_points, not_and, not_lt]
    constructor
    · rintro (⟨hstart, hlt⟩ | ⟨hge, hstop⟩)
      · exact ⟨⟨hstart, hlt.trans hbefore⟩, fun hused => absurd hlt (not_lt.mpr hused)⟩
      · exact ⟨⟨hafter.le.trans hge, hstop⟩, fun _ => hge⟩
    · rintro ⟨⟨hstart, hstop⟩, hnot⟩
      rcases lt_or_ge x used.start with hlt | hge
      · exact Or.inl ⟨hstart, hlt⟩
      · exact Or.inr ⟨hnot hge, hstop⟩

/-- The pieces of a proper extent are proper and inside it. -/
theorem cut_inside {used e p : Extent α} (hproper : e.start < e.stop) (hp : p ∈ cut used e) :
    p.start < p.stop ∧ e.start ≤ p.start ∧ p.stop ≤ e.stop := by
  unfold cut at hp
  split at hp
  · rw [List.mem_singleton.mp hp]
    exact ⟨hproper, le_rfl, le_rfl⟩
  · rename_i hmeets
    push Not at hmeets
    rcases List.mem_append.mp hp with hp | hp
    · split at hp
      · rename_i hlt
        rw [List.mem_singleton.mp hp]
        exact ⟨hlt, le_rfl, hmeets.2.le⟩
      · cases hp
    · split at hp
      · rename_i hlt
        rw [List.mem_singleton.mp hp]
        exact ⟨hlt, hmeets.1.le, le_rfl⟩
      · cases hp

theorem ascending_cut {used e : Extent α} (hused : used.start ≤ used.stop) :
    Ascending (cut used e) := by
  unfold cut Ascending
  split
  · exact List.pairwise_singleton _ e
  · rw [List.pairwise_append]
    refine ⟨?_, ?_, ?_⟩
    · split
      · exact List.pairwise_singleton _ _
      · exact List.Pairwise.nil
    · split
      · exact List.pairwise_singleton _ _
      · exact List.Pairwise.nil
    · intro a ha b hb
      split at ha
      · split at hb
        · rw [List.mem_singleton.mp ha, List.mem_singleton.mp hb]
          exact hused
        · cases hb
      · cases ha

theorem flatMap_cut {es : List (Extent α)} {used : Extent α} (hascending : Ascending es)
    (hproper : Proper es) (hused : used.start ≤ used.stop) :
    Ascending (es.flatMap (cut used)) ∧ Proper (es.flatMap (cut used)) := by
  constructor
  · unfold Ascending
    rw [List.pairwise_flatMap]
    refine ⟨fun e _ => ascending_cut hused, ?_⟩
    have hboth := List.Pairwise.and_mem.mp hascending
    refine hboth.imp ?_
    rintro a b ⟨ha, hb, hle⟩ p hp q hq
    have hpa := cut_inside (hproper a ha) hp
    have hqb := cut_inside (hproper b hb) hq
    exact hpa.2.2.trans (hle.trans hqb.2.1)
  · intro p hp
    obtain ⟨e, he, hpe⟩ := List.mem_flatMap.mp hp
    exact (cut_inside (hproper e he) hpe).1

theorem foldl_cut {available occupied : List (Extent α)} (hascending : Ascending available)
    (hproper : Proper available) (hoccupied : ∀ used ∈ occupied, used.start ≤ used.stop) :
    let result := occupied.foldl (fun result used => result.flatMap (cut used)) available
    Ascending result ∧ Proper result ∧
      ∀ x, x ∈ union result ↔ x ∈ union available ∧ x ∉ union occupied := by
  induction occupied generalizing available with
  | nil => exact ⟨hascending, hproper, fun x => by simp [union]⟩
  | cons used rest ih =>
    have hused := hoccupied used List.mem_cons_self
    obtain ⟨hascending', hproper'⟩ := flatMap_cut hascending hproper hused
    obtain ⟨hresult, hproperResult, hunion⟩ := ih hascending' hproper'
      fun r hr => hoccupied r (List.mem_cons_of_mem used hr)
    refine ⟨hresult, hproperResult, fun x => (hunion x).trans ?_⟩
    have hcut : x ∈ union (available.flatMap (cut used)) ↔
        x ∈ union available ∧ x ∉ used.points := by
      simp only [mem_union, List.mem_flatMap]
      constructor
      · rintro ⟨p, ⟨e, he, hp⟩, hx⟩
        obtain ⟨hin, hout⟩ := mem_union_cut.mp ⟨p, hp, hx⟩
        exact ⟨⟨e, he, hin⟩, hout⟩
      · rintro ⟨⟨e, he, hin⟩, hout⟩
        obtain ⟨p, hp, hx⟩ := mem_union_cut.mpr ⟨hin, hout⟩
        exact ⟨p, ⟨e, he, hp⟩, hx⟩
    have hrest : x ∈ union (used :: rest) ↔ x ∈ used.points ∨ x ∈ union rest := by
      simp only [mem_union, List.mem_cons, exists_eq_or_imp]
    rw [hcut, hrest, not_or, and_assoc]

theorem cutAll_spec {available occupied : List (Extent α)} (hascending : Ascending available)
    (hproper : Proper available) (hoccupied : ∀ used ∈ occupied, used.start ≤ used.stop) :
    Ascending (cutAll available occupied) ∧ Proper (cutAll available occupied) ∧
      ∀ x, x ∈ union (cutAll available occupied) ↔ x ∈ union available ∧ x ∉ union occupied := by
  have hsorted : ∀ used ∈ byStart occupied, used.start ≤ used.stop :=
    fun used hused => hoccupied used (mem_byStart.mp hused)
  obtain ⟨hresult, hproperResult, hunion⟩ := foldl_cut hascending hproper hsorted
  refine ⟨hresult, hproperResult, fun x => (hunion x).trans ?_⟩
  simp only [mem_union, mem_byStart]

end Cutting

end IntervalLists
