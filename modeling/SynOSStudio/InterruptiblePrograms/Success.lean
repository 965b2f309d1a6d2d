import SynOSStudio.InterruptiblePrograms.Invariants

/-!
# Exact success conditions

`SucceedsIff` says of a fallible computation that a condition, fixed before it
runs, decides whether it returns a value or an error, and what holds of the value
and the state then. The conditions of two computations in sequence are joined by
a conjunction.
-/

namespace InterruptiblePrograms

variable {Op : Type} {Ans : Op → Type} {α β ε δ κ σ : Type}

section SucceedsIff

variable (handle : (op : Op) → κ → σ → Ans op × σ) (admissible : κ → Prop)

/-- Under admissible choices the computation returns a value exactly when `condition` holds,
and then `good` holds of the value and the final state. -/
def SucceedsIff (condition : Prop) (good : α → σ → Prop) (x : Attempt Op Ans ε α) (s : σ) : Prop :=
  Keeps handle admissible (fun _ => True) x.run (fun r s' => match r with
    | .ok a => condition ∧ good a s'
    | .error _ => ¬ condition) s

variable {handle admissible} {condition condition' : Prop} {good : α → σ → Prop} {s : σ}

theorem succeedsIff_pure {a : α} (h : good a s) :
    SucceedsIff handle admissible True good (pure a : Attempt Op Ans ε α) s := by
  unfold SucceedsIff
  rw [keeps_attempt_pure]
  exact ⟨trivial, h⟩

/-- A computed result whose success has been characterised. -/
theorem succeedsIff_ofExcept {r : Except ε α} (hok : condition → ∃ a, r = .ok a ∧ good a s)
    (herror : ¬ condition → ∃ e, r = .error e) :
    SucceedsIff handle admissible condition good (Attempt.ofExcept r : Attempt Op Ans ε α) s := by
  unfold SucceedsIff
  rw [keeps_ofExcept]
  by_cases h : condition
  · obtain ⟨a, rfl, ha⟩ := hok h
    exact ⟨h, ha⟩
  · obtain ⟨e, rfl⟩ := herror h
    exact h

/-- A check that passes is skipped. -/
theorem succeedsIff_passed {good' : β → σ → Prop} {r : Except ε α} {a : α}
    {f : α → Attempt Op Ans ε β} (hr : r = .ok a)
    (h : SucceedsIff handle admissible condition good' (f a) s) :
    SucceedsIff handle admissible condition good' (Attempt.ofExcept r >>= f) s := by
  subst hr
  exact h

/-- A check that fails ends the computation. -/
theorem succeedsIff_refused {good' : β → σ → Prop} {r : Except ε α} {e : ε}
    {f : α → Attempt Op Ans ε β} (hr : r = .error e) (hnot : ¬ condition) :
    SucceedsIff handle admissible condition good' (Attempt.ofExcept r >>= f) s := by
  subst hr
  exact hnot

/-- An operation that every admissible choice lets succeed. -/
theorem succeedsIff_call {op : Op} {view : Ans op → Except ε α}
    (h : ∀ k, admissible k → ∃ a, view (handle op k s).1 = .ok a ∧ good a (handle op k s).2) :
    SucceedsIff handle admissible True good (Attempt.call op view : Attempt Op Ans ε α) s := by
  refine (keeps_attempt_call _ _ _ _).mpr ⟨trivial, fun k hk => ?_⟩
  obtain ⟨a, ha, hgood⟩ := h k hk
  rw [ha]
  exact ⟨trivial, hgood⟩

theorem SucceedsIff.bind {good' : β → σ → Prop} {x : Attempt Op Ans ε α}
    {f : α → Attempt Op Ans ε β} (hx : SucceedsIff handle admissible condition good x s)
    (hf : ∀ a s', good a s' → SucceedsIff handle admissible condition' good' (f a) s') :
    SucceedsIff handle admissible (condition ∧ condition') good' (x >>= f) s := by
  refine (keeps_attempt_bind _ _ _ _).mpr (hx.mono fun r s' hr => ?_)
  cases r with
  | error e => exact fun hboth => hr hboth.1
  | ok a =>
    refine (hf a s' hr.2).mono fun r' s'' hr' => ?_
    cases r' with
    | error e => exact fun hboth => hr' hboth.2
    | ok b => exact ⟨⟨hr.1, hr'.1⟩, hr'.2⟩

/-- A first step that cannot fail leaves the condition to the rest. -/
theorem SucceedsIff.then {good' : β → σ → Prop} {x : Attempt Op Ans ε α}
    {f : α → Attempt Op Ans ε β} (hx : SucceedsIff handle admissible True good x s)
    (hf : ∀ a s', good a s' → SucceedsIff handle admissible condition good' (f a) s') :
    SucceedsIff handle admissible condition good' (x >>= f) s := by
  have h := hx.bind hf
  rwa [true_and] at h

theorem SucceedsIff.congr {x : Attempt Op Ans ε α}
    (h : SucceedsIff handle admissible condition good x s) (hiff : condition ↔ condition') :
    SucceedsIff handle admissible condition' good x s := by
  rwa [propext hiff] at h

theorem SucceedsIff.mapError {f : ε → δ} {x : Attempt Op Ans ε α}
    (h : SucceedsIff handle admissible condition good x s) :
    SucceedsIff handle admissible condition good (Attempt.mapError f x) s := by
  refine (keeps_mapError _ _ _ _).mpr (Keeps.mono h fun r s' hr => ?_)
  cases r <;> exact hr

/-- What an execution to the end returns. -/
theorem SucceedsIff.runToEnd {x : Attempt Op Ans ε α}
    (h : SucceedsIff handle admissible condition good x s) (ks : ℕ → κ)
    (hks : ∀ n, admissible (ks n)) :
    (condition → ∃ a, (x.run.runToEnd handle ks s).1 = .ok a ∧
      good a (x.run.runToEnd handle ks s).2) ∧
    (¬ condition → ∃ e, (x.run.runToEnd handle ks s).1 = .error e) := by
  have hend := Keeps.runToEnd h ks hks
  cases hr : (x.run.runToEnd handle ks s).1 with
  | error e =>
    rw [hr] at hend
    exact ⟨fun hc => absurd hc hend, fun _ => ⟨e, rfl⟩⟩
  | ok a =>
    rw [hr] at hend
    exact ⟨fun _ => ⟨a, rfl, hend.2⟩, fun hc => absurd hend.1 hc⟩

end SucceedsIff

end InterruptiblePrograms
