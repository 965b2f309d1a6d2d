import Mathlib.Data.List.Basic
import Mathlib.Data.List.Nodup
import Mathlib.Data.List.Pairwise

/-!
# Dictionaries of lists

A dictionary built from a list by a key keeps, of several items with one key, the last.
-/

namespace KeyedLists

variable {α β : Type*} [DecidableEq β] {key : α → β} {items : List α} {a b : α} {k : β}

/-- The item that the dictionary has under a key. -/
def entry (key : α → β) (items : List α) (k : β) : Option α :=
  items.reverse.find? fun a => key a = k

theorem entry_mem (h : entry key items k = some a) : a ∈ items := by
  have hmem := List.mem_of_find?_eq_some h
  simpa using hmem

theorem entry_key (h : entry key items k = some a) : key a = k := by
  have hkey := List.find?_some h
  simpa using hkey

@[simp] theorem entry_eq_none_iff : entry key items k = none ↔ ∀ a ∈ items, key a ≠ k := by
  simp [entry]

theorem entry_isSome_iff : (entry key items k).isSome ↔ ∃ a ∈ items, key a = k := by
  simp [entry]

theorem entry_exists (ha : a ∈ items) (hk : key a = k) : ∃ b, entry key items k = some b := by
  have hsome := entry_isSome_iff.mpr ⟨a, ha, hk⟩
  exact Option.isSome_iff_exists.mp hsome

/-- What the dictionary has of an item depends on the keys and on that of the items alone. -/
theorem entry_bind_congr {γ : Type*} {f : α → Option γ} {items' : List α}
    (h : (items'.map fun a => (key a, f a)) = items.map fun a => (key a, f a)) (k : β) :
    (entry key items' k).bind f = (entry key items k).bind f := by
  have hpairs : ∀ l : List α, (entry key l k).bind f =
      ((l.map fun a => (key a, f a)).reverse.find? fun p => p.1 = k).bind Prod.snd := by
    intro l
    rw [entry, ← List.map_reverse, List.find?_map, Option.bind_map]
    rfl
  rw [hpairs, hpairs, h]

/-- The only item with its key is the one that the dictionary has. -/
theorem entry_of_unique (ha : a ∈ items) (hunique : ∀ b ∈ items, key b = key a → b = a) :
    entry key items (key a) = some a := by
  obtain ⟨b, hb⟩ := entry_exists ha (rfl : key a = key a)
  have heq := hunique b (entry_mem hb) (entry_key hb)
  rw [hb, heq]

theorem entry_of_nodup (hnodup : (items.map key).Nodup) (ha : a ∈ items) :
    entry key items (key a) = some a :=
  entry_of_unique ha fun _ hb hk => List.inj_on_of_nodup_map hnodup hb ha hk

theorem entry_iff_of_nodup (hnodup : (items.map key).Nodup) :
    entry key items k = some a ↔ a ∈ items ∧ key a = k := by
  constructor
  · intro h
    exact ⟨entry_mem h, entry_key h⟩
  · rintro ⟨ha, rfl⟩
    exact entry_of_nodup hnodup ha

/-- The item of a key is followed by items with other keys. -/
theorem entry_eq_some_iff : entry key items k = some a ↔
    key a = k ∧ ∃ earlier later, items = earlier ++ a :: later ∧ ∀ b ∈ later, key b ≠ k := by
  unfold entry
  rw [List.find?_eq_some_iff_append]
  constructor
  · rintro ⟨hk, later, earlier, hsplit, hnone⟩
    have hitems := congrArg List.reverse hsplit
    exact ⟨by simpa using hk, earlier.reverse, later.reverse, by simpa using hitems,
      by simpa using hnone⟩
  · rintro ⟨hk, earlier, later, rfl, hnone⟩
    exact ⟨by simpa using hk, later.reverse, earlier.reverse, by simp, by simpa using hnone⟩

theorem entry_of_pairwise (ha : a ∈ items)
    (hlater : items.Pairwise fun x y => x = a → key y ≠ key a) :
    entry key items (key a) = some a := by
  obtain ⟨b, hb⟩ := entry_exists ha (rfl : key a = key a)
  obtain ⟨hkey, earlier, later, rfl, hnone⟩ := entry_eq_some_iff.mp hb
  rcases List.mem_append.mp ha with hearlier | hrest
  · have hacross := (List.pairwise_append.mp hlater).2.2 a hearlier b List.mem_cons_self rfl
    exact absurd hkey hacross
  · rcases List.mem_cons.mp hrest with heq | hafter
    · rw [hb, heq]
    · exact absurd rfl (hnone a hafter)

theorem pairwise_of_entry (hnodup : items.Nodup) (h : entry key items k = some a) :
    items.Pairwise fun x y => x = a → key y ≠ k := by
  obtain ⟨-, earlier, later, rfl, hnone⟩ := entry_eq_some_iff.mp h
  obtain ⟨-, hright, hacross⟩ := List.nodup_append.mp hnodup
  rw [List.pairwise_append, List.pairwise_cons]
  refine ⟨?_, ⟨fun y hy _ => hnone y hy, ?_⟩, ?_⟩
  · apply List.pairwise_of_forall_mem_list
    intro x hx y _ heq
    exact absurd heq (hacross x hx a List.mem_cons_self)
  · apply List.pairwise_of_forall_mem_list
    intro x _ y hy _
    exact hnone y hy
  · intro x hx y _ heq
    exact absurd heq (hacross x hx a List.mem_cons_self)

end KeyedLists
