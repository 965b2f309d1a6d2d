import Mathlib.Data.List.Sort
import Mathlib.Order.Defs.LinearOrder

/-!
# Stable descending order

A list sorted by a key, greatest first, in which equal keys keep their places. The order is
described by the list alone, so that a pass over the sorted list can be specified without it.
-/

namespace KeyedLists

variable {α κ : Type*} [LinearOrder κ] {key : α → κ} {l l' : List α} {a b : α}

theorem insertionSort_eq_of_perm {α : Type*} [LinearOrder α] {l l' : List α} (h : l.Perm l') :
    l.insertionSort (· ≤ ·) = l'.insertionSort (· ≤ ·) := by
  refine List.Perm.eq_of_sortedLE List.sortedLE_insertionSort List.sortedLE_insertionSort ?_
  exact (List.perm_insertionSort _ l).trans (h.trans (List.perm_insertionSort _ l').symm)

def greatestFirst (key : α → κ) (l : List α) : List α :=
  l.insertionSort fun a b => key b ≤ key a

/-- A greater key, or the same key at an earlier place. -/
def Precedes (key : α → κ) (l : List α) (a b : α) : Prop :=
  key b < key a ∨ key b = key a ∧ [a, b].Sublist l

theorem greatestFirst_perm (key : α → κ) (l : List α) : (greatestFirst key l).Perm l :=
  List.perm_insertionSort _ l

@[simp] theorem mem_greatestFirst : a ∈ greatestFirst key l ↔ a ∈ l :=
  (greatestFirst_perm key l).mem_iff

theorem greatestFirst_sorted (key : α → κ) (l : List α) :
    (greatestFirst key l).Pairwise fun a b => key b ≤ key a := by
  have total : Std.Total fun a b : α => key b ≤ key a := ⟨fun a b => le_total _ _⟩
  have trans : IsTrans α fun a b => key b ≤ key a := ⟨fun _ _ _ hab hbc => hbc.trans hab⟩
  exact List.pairwise_insertionSort _ l

theorem greatestFirst_stable (h : key b ≤ key a) (hl : [a, b].Sublist l) :
    [a, b].Sublist (greatestFirst key l) :=
  List.pair_sublist_insertionSort h hl

section Places

theorem sublist_or_swap (ha : a ∈ l) (hb : b ∈ l) (hab : a ≠ b) :
    [a, b].Sublist l ∨ [b, a].Sublist l := by
  induction l with
  | nil => simp at ha
  | cons c l ih =>
    rcases List.mem_cons.mp ha with rfl | ha'
    · have hb' := (List.mem_cons.mp hb).resolve_left hab.symm
      exact Or.inl (List.Sublist.cons_cons a (List.singleton_sublist.mpr hb'))
    · rcases List.mem_cons.mp hb with rfl | hb'
      · exact Or.inr (List.Sublist.cons_cons b (List.singleton_sublist.mpr ha'))
      · exact (ih ha' hb').imp (·.cons c) (·.cons c)

/-- Without repetitions, two members stand in one order only. -/
theorem not_sublist_swap (hl : l.Nodup) (hab : [a, b].Sublist l) : ¬ [b, a].Sublist l := by
  induction l with
  | nil => simp at hab
  | cons c l ih =>
    obtain ⟨hc, hl⟩ := List.nodup_cons.mp hl
    intro hba
    cases hab with
    | cons _ hab =>
      cases hba with
      | cons _ hba => exact ih hl hab hba
      | cons_cons _ hba => exact hc (hab.subset (by simp))
    | cons_cons _ hab =>
      cases hba with
      | cons _ hba => exact hc (hba.subset (by simp))
      | cons_cons _ hba => exact hc (hba.subset (by simp))

end Places

section Order

theorem Precedes.asymm (hl : l.Nodup) (hab : Precedes key l a b) : ¬ Precedes key l b a := by
  rintro (hba | ⟨hba, hba'⟩)
  · rcases hab with hab | ⟨hab, -⟩
    · exact lt_asymm hab hba
    · exact absurd hab.symm hba.ne'.symm
  · rcases hab with hab | ⟨-, hab'⟩
    · exact absurd hba hab.ne'
    · exact not_sublist_swap hl hab' hba'

theorem Precedes.irrefl (hl : l.Nodup) : ¬ Precedes key l a a :=
  fun h => h.asymm hl h

theorem Precedes.of_sublist (hl : l'.Sublist l) (h : Precedes key l' a b) :
    Precedes key l a b :=
  h.imp_right fun ⟨hk, hs⟩ => ⟨hk, hs.trans hl⟩

theorem greatestFirst_precedes (hl : l.Nodup) :
    (greatestFirst key l).Pairwise (Precedes key l) := by
  have nodup : (greatestFirst key l).Nodup := (greatestFirst_perm key l).nodup_iff.mpr hl
  rw [List.pairwise_iff_forall_sublist]
  intro a b hab
  have hk : key b ≤ key a :=
    List.pairwise_iff_forall_sublist.mp (greatestFirst_sorted key l) hab
  rcases hk.lt_or_eq with hk | hk
  · exact Or.inl hk
  · have ha : a ∈ l := mem_greatestFirst.mp (hab.subset (by simp))
    have hb : b ∈ l := mem_greatestFirst.mp (hab.subset (by simp))
    have hne : a ≠ b := by
      rintro rfl
      exact List.nodup_iff_sublist.mp nodup a hab
    rcases sublist_or_swap ha hb hne with h | h
    · exact Or.inr ⟨hk, h⟩
    · exact absurd hab (not_sublist_swap nodup (greatestFirst_stable hk.ge h))

/-- What a pass has seen when it reaches a member is what precedes the member. -/
theorem mem_before_iff {before after : List α} (hl : l.Nodup)
    (h : greatestFirst key l = before ++ a :: after) (hb : b ∈ l) :
    b ∈ before ↔ Precedes key l b a := by
  have sorted : (greatestFirst key l).Pairwise (Precedes key l) := greatestFirst_precedes hl
  rw [h] at sorted
  obtain ⟨-, rest, apart⟩ := List.pairwise_append.mp sorted
  constructor
  · intro hb
    exact apart b hb a (by simp)
  · intro hba
    have hb : b ∈ before ++ a :: after := h ▸ mem_greatestFirst.mpr hb
    rcases List.mem_append.mp hb with hb | hb
    · exact hb
    rcases List.mem_cons.mp hb with rfl | hb
    · exact absurd hba (Precedes.irrefl hl)
    · exact absurd hba ((List.rel_of_pairwise_cons rest hb).asymm hl)

theorem greatestFirst_eq_of_perm (hl : (l.map key).Nodup) (h : l'.Perm l) :
    greatestFirst key l' = greatestFirst key l := by
  have perm : (greatestFirst key l').Perm (greatestFirst key l) :=
    ((greatestFirst_perm key l').trans h).trans (greatestFirst_perm key l).symm
  refine perm.eq_of_pairwise ?_ (greatestFirst_sorted key l') (greatestFirst_sorted key l)
  intro a b ha hb hab hba
  exact List.inj_on_of_nodup_map hl (h.mem_iff.mp (mem_greatestFirst.mp ha))
    (mem_greatestFirst.mp hb) (le_antisymm hba hab)

end Order

end KeyedLists
