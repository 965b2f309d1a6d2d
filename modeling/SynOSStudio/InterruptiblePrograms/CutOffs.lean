import SynOSStudio.InterruptiblePrograms.Invariants

/-!
# Where a program is cut off

`stoppedAt` is the operation that was to come next when the script ended, and `KeepsAt`
is the invariant predicate of programs whose invariant depends on that operation.
-/

namespace InterruptiblePrograms

variable {Op : Type} {Ans : Op → Type} {α β κ σ : Type}

section Definitions

variable (handle : (op : Op) → κ → σ → Ans op × σ) (inv : Op → σ → Prop)

/-- The operation before which a script cuts the program off. -/
def stoppedAt : Prog Op Ans α → List κ → σ → Option Op
  | .done _, _, _ => none
  | .call op _, [], _ => some op
  | .call op next, k :: ks, s => stoppedAt (next (handle op k s).1) ks (handle op k s).2

/-- Before each operation of the program its assertion holds, and `post` holds of the result. -/
def KeepsAt : Prog Op Ans α → (α → σ → Prop) → σ → Prop
  | .done a, post, s => post a s
  | .call op next, post, s =>
    inv op s ∧ ∀ k, KeepsAt (next (handle op k s).1) post (handle op k s).2

end Definitions

section Rules

variable {handle : (op : Op) → κ → σ → Ans op × σ} {inv : Op → σ → Prop}

theorem keepsAt_call (op : Op) (next : Ans op → Prog Op Ans α) (post : α → σ → Prop) (s : σ) :
    KeepsAt handle inv (.call op next) post s ↔
      inv op s ∧ ∀ k, KeepsAt handle inv (next (handle op k s).1) post (handle op k s).2 := Iff.rfl

theorem keepsAt_bind (p : Prog Op Ans α) (f : α → Prog Op Ans β) (post : β → σ → Prop) (s : σ) :
    KeepsAt handle inv (p >>= f) post s ↔
      KeepsAt handle inv p (fun a s => KeepsAt handle inv (f a) post s) s := by
  induction p generalizing s with
  | done a => rfl
  | call op next ih => simp only [Prog.call_bind, keepsAt_call, ih]

theorem KeepsAt.mono {p : Prog Op Ans α} {post post' : α → σ → Prop} {s : σ}
    (h : KeepsAt handle inv p post s) (hpost : ∀ a s, post a s → post' a s) :
    KeepsAt handle inv p post' s := by
  induction p generalizing s with
  | done a => exact hpost a s h
  | call op next ih => exact ⟨h.1, fun k => ih _ (h.2 k)⟩

/-- The bind rule with an assertion between the two parts. -/
theorem KeepsAt.then {p : Prog Op Ans α} {f : α → Prog Op Ans β} {first : α → σ → Prop}
    {post : β → σ → Prop} {s : σ} (hp : KeepsAt handle inv p first s)
    (hf : ∀ a s, first a s → KeepsAt handle inv (f a) post s) :
    KeepsAt handle inv (p >>= f) post s :=
  (keepsAt_bind p f post s).mpr (hp.mono hf)

/-- An execution ends with its result or before an operation whose assertion holds. -/
theorem KeepsAt.run {p : Prog Op Ans α} {post : α → σ → Prop} {s : σ}
    (h : KeepsAt handle inv p post s) (ks : List κ) :
    (∃ a, (p.run handle ks s).1 = some a ∧ stoppedAt handle p ks s = none ∧
      post a (p.run handle ks s).2) ∨
    ∃ op, (p.run handle ks s).1 = none ∧ stoppedAt handle p ks s = some op ∧
      inv op (p.run handle ks s).2 := by
  induction p generalizing s ks with
  | done a =>
    rw [Prog.run_done]
    exact Or.inl ⟨a, rfl, rfl, h⟩
  | call op next ih =>
    cases ks with
    | nil => exact Or.inr ⟨op, rfl, rfl, h.1⟩
    | cons k ks => exact ih _ (h.2 k) ks

end Rules

end InterruptiblePrograms
