import Mathlib.Data.List.Pairwise
import Mathlib.Logic.Relation

/-!
# Ledgers of numbered work

Work is accepted under numbers that grow, in epochs that end. A ledger counts the open items of
its epoch; the moves are those that keep the count and the order of deliveries.
-/

namespace WorkLedgers

structure Item where
  epoch : ℕ
  number : ℕ
  deriving DecidableEq

/-- The open items in the order of their numbers, and the delivered ones with the epoch of the
delivery. -/
structure Ledger where
  epoch : ℕ
  pending : ℕ
  items : List Item
  issued : ℕ
  delivered : List (Item × ℕ)

variable {a b : Ledger}

def Ledger.current (a : Ledger) : List Item :=
  a.items.filter fun item => item.epoch = a.epoch

inductive Move : Ledger → Ledger → Prop where
  /-- Items of other epochs may be forgotten. -/
  | forget (a : Ledger) (items : List Item) (hsub : items.Sublist a.items)
      (hkeep : (items.filter fun item => item.epoch = a.epoch) = a.current) :
      Move a { a with items := items }
  | accept (a : Ledger) :
      Move a { a with
        pending := a.pending + 1
        items := a.items ++ [⟨a.epoch, a.issued⟩]
        issued := a.issued + 1 }
  /-- A new epoch starts with nothing open. -/
  | advance (a : Ledger) (items : List Item) (hsub : items.Sublist a.items) :
      Move a { a with epoch := a.epoch + 1, pending := 0, items := items }
  /-- The first open item is settled, with or without a delivery. -/
  | settle (a : Ledger) (item : Item) (rest : List Item) (hitems : a.items = item :: rest)
      (hcurrent : item.epoch = a.epoch) (deliver : Bool) :
      Move a { a with
        pending := a.pending - 1
        items := rest
        delivered := a.delivered ++ if deliver then [(item, a.epoch)] else [] }

/-- The count is right, numbers grow along the open items and all deliveries, and each delivery
was made in the epoch of its item. -/
structure Ledger.Sound (a : Ledger) : Prop where
  known : ∀ item ∈ a.items, item.epoch ≤ a.epoch
  counted : a.pending = a.current.length
  increasing : a.items.Pairwise fun x y => x.number < y.number
  issued : ∀ item ∈ a.items, item.number < a.issued
  ordered : a.delivered.Pairwise fun x y => x.1.number < y.1.number
  before : ∀ d ∈ a.delivered, d.1.number < a.issued ∧ ∀ item ∈ a.items, d.1.number < item.number
  inEpoch : ∀ d ∈ a.delivered, d.2 = d.1.epoch

theorem Ledger.Sound.of_sublist (h : a.Sound) {items : List Item} (hsub : items.Sublist a.items)
    {epoch : ℕ} (hepoch : a.epoch ≤ epoch) {pending : ℕ}
    (hcounted : pending = (items.filter fun item => item.epoch = epoch).length) :
    ({ a with epoch := epoch, pending := pending, items := items } : Ledger).Sound where
  known item hitem := Nat.le_trans (h.known item (hsub.subset hitem)) hepoch
  counted := hcounted
  increasing := h.increasing.sublist hsub
  issued item hitem := h.issued item (hsub.subset hitem)
  ordered := h.ordered
  before d hd := ⟨(h.before d hd).1, fun item hitem => (h.before d hd).2 item (hsub.subset hitem)⟩
  inEpoch := h.inEpoch

theorem Move.sound (hmove : Move a b) (h : a.Sound) : b.Sound := by
  cases hmove with
  | forget items hsub hkeep =>
    apply h.of_sublist hsub (Nat.le_refl _)
    rw [h.counted, ← hkeep]
  | advance items hsub =>
    apply h.of_sublist hsub (Nat.le_succ a.epoch)
    symm
    rw [List.length_eq_zero_iff, List.filter_eq_nil_iff]
    intro item hitem
    have hknown := h.known item (hsub.subset hitem)
    simp only [decide_eq_true_eq]
    omega
  | accept =>
    refine ⟨?_, ?_, ?_, ?_, h.ordered, ?_, h.inEpoch⟩
    · intro item hitem
      rcases List.mem_append.mp hitem with hitem | hitem
      · exact h.known item hitem
      · simp only [List.mem_singleton] at hitem
        simp [hitem]
    · simp [Ledger.current, h.counted]
    · rw [List.pairwise_append]
      refine ⟨h.increasing, List.pairwise_singleton _ _, ?_⟩
      intro x hx y hy
      simp only [List.mem_singleton] at hy
      subst hy
      exact h.issued x hx
    · intro item hitem
      rcases List.mem_append.mp hitem with hitem | hitem
      · have hissued := h.issued item hitem
        simp only
        omega
      · simp only [List.mem_singleton] at hitem
        simp [hitem]
    · intro d hd
      obtain ⟨hissued, hitems⟩ := h.before d hd
      refine ⟨by simp only; omega, fun item hitem => ?_⟩
      rcases List.mem_append.mp hitem with hitem | hitem
      · exact hitems item hitem
      · simp only [List.mem_singleton] at hitem
        simpa [hitem] using hissued
  | settle item rest hitems hcurrent deliver =>
    have hmem : item ∈ a.items := by simp [hitems]
    have hsub : rest.Sublist a.items := by simp [hitems]
    have hcounted : a.pending = (item :: rest.filter fun x => x.epoch = a.epoch).length := by
      rw [h.counted, Ledger.current, hitems, List.filter_cons_of_pos (by simpa using hcurrent)]
    have hincreasing := h.increasing
    rw [hitems] at hincreasing
    obtain ⟨hfirst, hrest⟩ := List.pairwise_cons.mp hincreasing
    refine ⟨fun x hx => h.known x (hsub.subset hx), ?_, hrest,
      fun x hx => h.issued x (hsub.subset hx), ?_, ?_, ?_⟩
    · simp [Ledger.current, hcounted]
    · rw [List.pairwise_append]
      refine ⟨h.ordered, by cases deliver <;> simp, fun d hd e he => ?_⟩
      cases deliver with
      | false => simp at he
      | true =>
        simp only [if_true, List.mem_singleton] at he
        subst he
        exact (h.before d hd).2 item hmem
    · intro d hd
      rcases List.mem_append.mp hd with hd | hd
      · exact ⟨(h.before d hd).1, fun x hx => (h.before d hd).2 x (hsub.subset hx)⟩
      · cases deliver with
        | false => simp at hd
        | true =>
          simp only [if_true, List.mem_singleton] at hd
          subst hd
          exact ⟨h.issued item hmem, hfirst⟩
    · intro d hd
      rcases List.mem_append.mp hd with hd | hd
      · exact h.inEpoch d hd
      · cases deliver with
        | false => simp at hd
        | true =>
          simp only [if_true, List.mem_singleton] at hd
          subst hd
          exact hcurrent.symm

/-- Moves keep a ledger sound. -/
theorem Ledger.Sound.of_moves (hmoves : Relation.ReflTransGen Move a b) (h : a.Sound) :
    b.Sound := by
  induction hmoves with
  | refl => exact h
  | tail _ hmove ih => exact hmove.sound ih

end WorkLedgers
