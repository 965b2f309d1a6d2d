import Mathlib.Data.List.Basic
import Mathlib.Data.List.Nodup

/-!
# Lists of first occurrences

Items are added to a list unless it has the same item already. What counts as the same is any
relation; the laws need it to be an equivalence of the items that occur.
-/

namespace KeyedLists

variable {α : Type*} {same : α → α → Bool} {xs ys zs : List α} {x y z : α}

def addNew (same : α → α → Bool) (xs : List α) (y : α) : List α :=
  if xs.any fun x => same x y then xs else xs ++ [y]

def addAll (same : α → α → Bool) : List α → List α → List α
  | xs, [] => xs
  | xs, y :: ys => addAll same (addNew same xs y) ys

/-- The list has the same item. -/
def Has (same : α → α → Bool) (xs : List α) (y : α) : Prop :=
  ∃ x ∈ xs, same x y = true

theorem addNew_of_has (h : Has same xs y) : addNew same xs y = xs := by
  rw [addNew, if_pos (List.any_eq_true.mpr h)]

theorem addNew_of_not_has (h : ¬ Has same xs y) : addNew same xs y = xs ++ [y] := by
  rw [addNew, if_neg (mt List.any_eq_true.mp h)]

theorem addAll_append (xs ys zs : List α) :
    addAll same xs (ys ++ zs) = addAll same (addAll same xs ys) zs := by
  induction ys generalizing xs with
  | nil => rfl
  | cons y ys ih => exact ih _

theorem prefix_addNew (xs : List α) (y : α) : xs <+: addNew same xs y := by
  unfold addNew
  split
  · exact List.prefix_rfl
  · exact List.prefix_append _ _

theorem prefix_addAll (xs ys : List α) : xs <+: addAll same xs ys := by
  induction ys generalizing xs with
  | nil => exact List.prefix_rfl
  | cons y ys ih => exact (prefix_addNew xs y).trans (ih _)

theorem Has.mono (h : Has same xs y) (hsub : xs ⊆ zs) : Has same zs y := by
  obtain ⟨x, hx, hsame⟩ := h
  exact ⟨x, hsub hx, hsame⟩

theorem mem_of_mem_addNew (h : x ∈ addNew same xs y) : x ∈ xs ∨ x = y := by
  unfold addNew at h
  split at h
  · exact .inl h
  · simpa using h

theorem mem_of_mem_addAll (h : x ∈ addAll same xs ys) : x ∈ xs ∨ x ∈ ys := by
  induction ys generalizing xs with
  | nil => exact .inl h
  | cons y ys ih =>
    rcases ih h with hxs | hys
    · rcases mem_of_mem_addNew hxs with hxs | rfl
      · exact .inl hxs
      · exact .inr List.mem_cons_self
    · exact .inr (List.mem_cons_of_mem _ hys)

/-- What is added was not there before. -/
theorem not_has_of_mem_addAll (h : x ∈ addAll same xs ys) : x ∈ xs ∨ ¬ Has same xs x := by
  induction ys generalizing xs with
  | nil => exact .inl h
  | cons y ys ih =>
    rcases ih h with hadded | hnot
    · by_cases hhas : Has same xs y
      · rw [addNew_of_has hhas] at hadded
        exact .inl hadded
      · rcases mem_of_mem_addNew hadded with hx | rfl
        · exact .inl hx
        · exact .inr hhas
    · exact .inr fun hhas => hnot (hhas.mono (prefix_addNew xs y).subset)

/-- What is all there already changes nothing. -/
theorem addAll_of_has (h : ∀ y ∈ ys, Has same xs y) : addAll same xs ys = xs := by
  induction ys with
  | nil => rfl
  | cons y ys ih =>
    rw [addAll, addNew_of_has (h y List.mem_cons_self)]
    exact ih fun z hz => h z (List.mem_cons_of_mem _ hz)

theorem has_addAll (hrefl : ∀ y ∈ ys, same y y = true) (hy : y ∈ ys) :
    Has same (addAll same xs ys) y := by
  induction ys generalizing xs with
  | nil => cases hy
  | cons z ys ih =>
    rcases List.mem_cons.mp hy with rfl | hy
    · have hfirst : Has same (addNew same xs y) y := by
        by_cases hhas : Has same xs y
        · exact hhas.mono (prefix_addNew xs y).subset
        · rw [addNew_of_not_has hhas]
          exact ⟨y, List.mem_append_right _ List.mem_cons_self, hrefl y List.mem_cons_self⟩
      exact hfirst.mono (prefix_addAll _ ys).subset
    · exact ih (fun w hw => hrefl w (List.mem_cons_of_mem _ hw)) hy

theorem addAll_self (hrefl : ∀ y ∈ ys, same y y = true) : addAll same ys ys = ys :=
  addAll_of_has fun y hy => ⟨y, hy, hrefl y hy⟩

theorem addAll_idem (hrefl : ∀ y ∈ ys, same y y = true) :
    addAll same (addAll same xs ys) ys = addAll same xs ys :=
  addAll_of_has fun _ hy => has_addAll hrefl hy

/-- The relation is an equivalence of the items of a kind. -/
structure EquivalenceOn (same : α → α → Bool) (kind : α → Prop) : Prop where
  refl : ∀ x, kind x → same x x = true
  symm : ∀ x y, kind x → kind y → same x y = true → same y x = true
  trans : ∀ x y z, kind x → kind y → kind z →
    same x y = true → same y z = true → same x z = true

section Laws

variable {kind : α → Prop}

theorem Has.trans (h : EquivalenceOn same kind) (hxs : ∀ x ∈ xs, kind x) (hy : kind y)
    (hz : kind z) (hhas : Has same xs y) (hsame : same y z = true) : Has same xs z := by
  obtain ⟨x, hx, hxy⟩ := hhas
  exact ⟨x, hx, h.trans x y z (hxs x hx) hy hz hxy hsame⟩

theorem forall_mem_addNew (hxs : ∀ x ∈ xs, kind x) (hy : kind y) :
    ∀ x ∈ addNew same xs y, kind x := by
  intro x hx
  rcases mem_of_mem_addNew hx with hx | rfl
  · exact hxs x hx
  · exact hy

theorem forall_mem_addAll (hxs : ∀ x ∈ xs, kind x) (hys : ∀ y ∈ ys, kind y) :
    ∀ x ∈ addAll same xs ys, kind x := fun x hx =>
  (mem_of_mem_addAll hx).elim (hxs x) (hys x)

theorem addAll_addNew (h : EquivalenceOn same kind) (hxs : ∀ x ∈ xs, kind x)
    (hys : ∀ y ∈ ys, kind y) (hz : kind z) :
    addAll same xs (addNew same ys z) = addNew same (addAll same xs ys) z := by
  by_cases hhas : Has same ys z
  · obtain ⟨y, hy, hyz⟩ := hhas
    have hthere : Has same (addAll same xs ys) y :=
      has_addAll (fun w hw => h.refl w (hys w hw)) hy
    have hadded := hthere.trans h (forall_mem_addAll hxs hys) (hys y hy) hz hyz
    rw [addNew_of_has ⟨y, hy, hyz⟩, addNew_of_has hadded]
  · rw [addNew_of_not_has hhas, addAll_append]
    rfl

theorem addAll_assoc (h : EquivalenceOn same kind) (hxs : ∀ x ∈ xs, kind x)
    (hys : ∀ y ∈ ys, kind y) (hzs : ∀ z ∈ zs, kind z) :
    addAll same (addAll same xs ys) zs = addAll same xs (addAll same ys zs) := by
  induction zs generalizing ys with
  | nil => rfl
  | cons z zs ih =>
    obtain ⟨hz, hzs⟩ := List.forall_mem_cons.mp hzs
    have hadded : ∀ y ∈ addNew same ys z, kind y := forall_mem_addNew hys hz
    have hmiddle := ih hadded hzs
    rw [addAll, addAll, ← hmiddle, addAll_addNew h hxs hys hz]

end Laws

/-! ## Items that are the same if they are equal -/

section Equality

variable [DecidableEq α]

/-- The first list, and what the second list has beyond it. -/
abbrev join (xs ys : List α) : List α :=
  addAll (fun x y => decide (x = y)) xs ys

theorem equivalenceOn_eq : EquivalenceOn (fun x y : α => decide (x = y)) fun _ => True :=
  ⟨fun _ _ => decide_eq_true rfl, fun _ _ _ _ h => decide_eq_true (of_decide_eq_true h).symm,
    fun _ _ _ _ _ _ h h' => decide_eq_true ((of_decide_eq_true h).trans (of_decide_eq_true h'))⟩

theorem has_iff_mem : Has (fun x y => decide (x = y)) xs y ↔ y ∈ xs := by
  simp [Has]

@[simp] theorem mem_join : x ∈ join xs ys ↔ x ∈ xs ∨ x ∈ ys := by
  refine ⟨mem_of_mem_addAll, ?_⟩
  rintro (hx | hx)
  · exact (prefix_addAll xs ys).subset hx
  · exact has_iff_mem.mp (has_addAll (fun _ _ => decide_eq_true rfl) hx)

theorem join_nodup (h : xs.Nodup) : (join xs ys).Nodup := by
  induction ys generalizing xs with
  | nil => exact h
  | cons y ys ih =>
    refine ih ?_
    by_cases hy : y ∈ xs
    · rwa [addNew_of_has (has_iff_mem.mpr hy)]
    · rw [addNew_of_not_has (mt has_iff_mem.mp hy)]
      exact List.nodup_append.mpr ⟨h, List.nodup_singleton y, by
        intro a ha b hb heq
        rw [heq, List.mem_singleton.mp hb] at ha
        exact hy ha⟩

theorem join_append_of_nodup (h : (xs ++ ys).Nodup) : join xs ys = xs ++ ys := by
  induction ys generalizing xs with
  | nil => exact (List.append_nil xs).symm
  | cons y ys ih =>
    have hnot : y ∉ xs := fun hy => (List.nodup_append.mp h).2.2 y hy y List.mem_cons_self rfl
    rw [List.append_cons] at h
    rw [List.append_cons, ← ih h, join, join, addAll,
      addNew_of_not_has (mt has_iff_mem.mp hnot)]

theorem join_nil (h : ys.Nodup) : join [] ys = ys :=
  join_append_of_nodup h

/-- What is new in a second list without repetitions stands behind the first list. -/
theorem join_eq_append_filter (h : ys.Nodup) : join xs ys = xs ++ ys.filter (· ∉ xs) := by
  induction ys generalizing xs with
  | nil => exact (List.append_nil xs).symm
  | cons y ys ih =>
    obtain ⟨hnot, hys⟩ := List.nodup_cons.mp h
    by_cases hy : y ∈ xs
    · rw [join, addAll, addNew_of_has (has_iff_mem.mpr hy), List.filter_cons_of_neg (by simpa)]
      exact ih hys
    · rw [join, addAll, addNew_of_not_has (mt has_iff_mem.mp hy),
        List.filter_cons_of_pos (by simpa)]
      have hfilter : ys.filter (· ∉ xs ++ [y]) = ys.filter (· ∉ xs) := by
        refine List.filter_congr fun z hz => ?_
        have hne : z ≠ y := fun heq => hnot (heq ▸ hz)
        simp [hne]
      have hrest : join (xs ++ [y]) ys = xs ++ [y] ++ ys.filter (· ∉ xs) := hfilter ▸ ih hys
      rw [List.append_assoc] at hrest
      exact hrest

theorem join_assoc (xs ys zs : List α) : join (join xs ys) zs = join xs (join ys zs) :=
  addAll_assoc equivalenceOn_eq (fun _ _ => trivial) (fun _ _ => trivial) fun _ _ => trivial

section Keys

variable {β : Type*} {key : β → α}

theorem map_addNew_key (items : List β) (item : β) :
    (addNew (fun a b => decide (key a = key b)) items item).map key =
      join (items.map key) [key item] := by
  by_cases h : Has (fun a b => decide (key a = key b)) items item
  · have hkey : key item ∈ items.map key := by simpa [Has] using h
    rw [addNew_of_has h, join, addAll, addNew_of_has (has_iff_mem.mpr hkey), addAll]
  · have hkey : key item ∉ items.map key := by simpa [Has] using h
    rw [addNew_of_not_has h, join, addAll, addNew_of_not_has (mt has_iff_mem.mp hkey), addAll,
      List.map_append]
    rfl

/-- The keys of the first items of each key are the first occurrences of the keys. -/
theorem map_addAll_key (items added : List β) :
    (addAll (fun a b => decide (key a = key b)) items added).map key =
      join (items.map key) (added.map key) := by
  induction added generalizing items with
  | nil => rfl
  | cons item added ih =>
    rw [addAll, ih, map_addNew_key, List.map_cons]
    rfl

end Keys

end Equality

end KeyedLists
