import Mathlib.Data.List.Forall2

/-!
# Lists that correspond

What two lists with corresponding members tell of each other's members.
-/

namespace KeyedLists

variable {α β : Type*} {R : α → β → Prop} {p : α → Prop} {q : β → Prop} {l : List α} {u : List β}
  {a : α}

theorem exists_of_forall₂ (h : List.Forall₂ R l u) (ha : a ∈ l) : ∃ b ∈ u, R a b := by
  induction h with
  | nil => simp at ha
  | @cons c d l u head tail ih =>
    rcases List.mem_cons.mp ha with rfl | ha
    · exact ⟨d, List.mem_cons_self, head⟩
    · obtain ⟨b, hb, hab⟩ := ih ha
      exact ⟨b, List.mem_cons_of_mem d hb, hab⟩

theorem exists_iff_of_forall₂ (h : List.Forall₂ R l u) (hR : ∀ a b, R a b → (q b ↔ p a)) :
    (∃ b ∈ u, q b) ↔ ∃ a ∈ l, p a := by
  induction h with
  | nil => simp
  | cons head _ ih => simp [hR _ _ head, ih]

/-- Related members stay in their places when the relation is followed twice. -/
theorem forall₂_trans {R : α → α → Prop} (trans : ∀ a b c, R a b → R b c → R a c)
    {l u v : List α} (hlu : List.Forall₂ R l u) (huv : List.Forall₂ R u v) :
    List.Forall₂ R l v := by
  induction hlu generalizing v with
  | nil => exact huv
  | @cons a b l u hab _ ih =>
    cases huv with
    | cons hbc rest => exact .cons (trans a b _ hab hbc) (ih rest)

end KeyedLists
