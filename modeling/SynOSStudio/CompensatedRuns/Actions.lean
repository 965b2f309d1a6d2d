import Mathlib.Tactic

/-!
# Actions that may raise

Rules for programs that change a state and may break off: from a precondition, what holds where
an action returns, and what holds where it raises.
-/

namespace CompensatedRuns

variable {ε σ α β : Type}

/-- From `P`, the action returns a value and a state in `Q`, or raises in a state in `E`. -/
def Ends (P : σ → Prop) (m : EStateM ε σ α) (Q : α → σ → Prop) (E : σ → Prop) : Prop :=
  ∀ s, P s → match m s with
    | .ok a t => Q a t
    | .error _ t => E t

variable {P P' : σ → Prop} {m : EStateM ε σ α} {Q Q' : α → σ → Prop} {E E' : σ → Prop}

namespace Ends

theorem mono (h : Ends P m Q E) (hP : ∀ s, P' s → P s) (hQ : ∀ a s, Q a s → Q' a s)
    (hE : ∀ s, E s → E' s) : Ends P' m Q' E' := by
  intro s hs
  have hm := h s (hP s hs)
  cases hx : m s with
  | ok a t => rw [hx] at hm; exact hQ a t hm
  | error e t => rw [hx] at hm; exact hE t hm

theorem pure (a : α) (h : ∀ s, P s → Q a s) : Ends P (pure a : EStateM ε σ α) Q E := h

theorem bind {f : α → EStateM ε σ β} {R : β → σ → Prop} (hm : Ends P m Q E)
    (hf : ∀ a, Ends (Q a) (f a) R E) : Ends P (m >>= f) R E := by
  intro s hs
  have h := hm s hs
  simp only [Bind.bind, EStateM.bind]
  cases hx : m s with
  | ok a t => rw [hx] at h; exact hf a t h
  | error e t => rw [hx] at h; exact h

theorem modify {f : σ → σ} {Q : PUnit → σ → Prop} (h : ∀ s, P s → Q ⟨⟩ (f s)) :
    Ends P (modify f : EStateM ε σ PUnit) Q E := h

theorem get : Ends P (get : EStateM ε σ σ) (fun a s => a = s ∧ P s) E := fun _ hs => ⟨rfl, hs⟩

theorem throw {e : ε} (h : ∀ s, P s → E s) : Ends P (throw e : EStateM ε σ α) Q E := h

theorem ite {c : Prop} [Decidable c] {m' : EStateM ε σ α} (h : c → Ends P m Q E)
    (h' : ¬ c → Ends P m' Q E) : Ends P (if c then m else m') Q E := by
  split
  exacts [h ‹_›, h' ‹_›]

/-- What holds of the elements still to come holds down to none. -/
theorem forM {τ : Type} {f : τ → EStateM ε σ PUnit} (inv : List τ → σ → Prop)
    (hstep : ∀ x rest, Ends (inv (x :: rest)) (f x) (fun _ => inv rest) E) (xs : List τ) :
    Ends (inv xs) (xs.forM f) (fun _ => inv []) E := by
  induction xs with
  | nil => exact fun _ hs => hs
  | cons x xs ih => exact (hstep x xs).bind fun _ => ih

end Ends

end CompensatedRuns
