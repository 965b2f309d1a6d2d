import Mathlib.Data.List.Basic
import Mathlib.Logic.Relation

/-!
# Previews under a floor

Previews are queued under generations that grow. A cut raises the floor over all of them, and
only a preview above the floor is delivered.
-/

namespace WorkLedgers

/-- A preview with its epoch and the number of cuts when it was queued. -/
structure Preview where
  epoch : ℕ
  generation : ℕ
  cuts : ℕ
  deriving DecidableEq

structure Previews where
  epoch : ℕ
  active : Bool
  generation : ℕ
  floor : ℕ
  cuts : ℕ
  waiting : List Preview
  /-- The cuts of each delivered preview, when it was queued and when it was delivered. -/
  delivered : List (ℕ × ℕ)

variable {a b : Previews}

inductive PreviewMove : Previews → Previews → Prop where
  | forget (a : Previews) (rest : List Preview) (hsub : ∀ p ∈ rest, p ∈ a.waiting) :
      PreviewMove a { a with waiting := rest }
  | queue (a : Previews) (rest : List Preview)
      (hsub : ∀ p ∈ rest, p ∈ a.waiting ∨ p = ⟨a.epoch, a.generation + 1, a.cuts⟩) :
      PreviewMove a { a with generation := a.generation + 1, waiting := rest }
  /-- A cut may come with any other change of the session. -/
  | cut (a : Previews) (rest : List Preview) (hsub : ∀ p ∈ rest, p ∈ a.waiting)
      (epoch cuts : ℕ) (active : Bool) :
      PreviewMove a { a with
        epoch := epoch
        active := active
        generation := a.generation + 1
        floor := a.generation + 1
        cuts := cuts
        waiting := rest }
  /-- Without an active session cuts are counted only. -/
  | count (a : Previews) (hquiet : a.active = false) (cuts : ℕ) :
      PreviewMove a { a with cuts := cuts }
  | deliver (a : Previews) (p : Preview) (rest : List Preview) (hsub : ∀ q ∈ rest, q ∈ a.waiting)
      (hp : p ∈ a.waiting) (hepoch : p.epoch = a.epoch) (hactive : a.active = true)
      (hfloor : a.floor < p.generation) :
      PreviewMove a { a with waiting := rest, delivered := a.delivered ++ [(p.cuts, a.cuts)] }

/-- A preview over the floor of an active session has seen all cuts, and so had each delivered
one. -/
structure Previews.Fresh (a : Previews) : Prop where
  known : ∀ p ∈ a.waiting, p.generation ≤ a.generation
  uncut : a.active = true → ∀ p ∈ a.waiting, p.epoch = a.epoch → a.floor < p.generation →
    p.cuts = a.cuts
  delivered : ∀ d ∈ a.delivered, d.1 = d.2

theorem PreviewMove.fresh (hmove : PreviewMove a b) (h : a.Fresh) : b.Fresh := by
  cases hmove with
  | forget rest hsub =>
    exact ⟨fun p hp => h.known p (hsub p hp), fun hactive p hp => h.uncut hactive p (hsub p hp),
      h.delivered⟩
  | queue rest hsub =>
    refine ⟨fun p hp => ?_, fun hactive p hp hepoch hfloor => ?_, h.delivered⟩
    · rcases hsub p hp with hp | rfl
      · exact Nat.le_succ_of_le (h.known p hp)
      · exact Nat.le_refl _
    · rcases hsub p hp with hp | rfl
      · exact h.uncut hactive p hp hepoch hfloor
      · rfl
  | cut rest hsub epoch cuts active =>
    refine ⟨fun p hp => Nat.le_succ_of_le (h.known p (hsub p hp)), fun _ p hp _ hfloor => ?_,
      h.delivered⟩
    have hknown := h.known p (hsub p hp)
    simp only at hfloor
    omega
  | count hquiet cuts =>
    refine ⟨h.known, fun hactive => ?_, h.delivered⟩
    simp only [hquiet] at hactive
    cases hactive
  | deliver p rest hsub hp hepoch hactive hfloor =>
    refine ⟨fun q hq => h.known q (hsub q hq), fun hactive q hq => h.uncut hactive q (hsub q hq),
      fun d hd => ?_⟩
    rcases List.mem_append.mp hd with hd | hd
    · exact h.delivered d hd
    · simp only [List.mem_singleton] at hd
      subst hd
      exact h.uncut hactive p hp hepoch hfloor

theorem Previews.Fresh.of_moves (hmoves : Relation.ReflTransGen PreviewMove a b) (h : a.Fresh) :
    b.Fresh := by
  induction hmoves with
  | refl => exact h
  | tail _ hmove ih => exact hmove.fresh ih

end WorkLedgers
