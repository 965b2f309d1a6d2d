import SynOSStudio.InterruptiblePrograms.Invariants

/-!
# Runs whose steps meet a condition

`Meets` says of one scripted execution that each of its operations met a condition on
the operation, the choice and the state before it. `KeepsUnder` is the invariant
predicate of programs for such executions only.
-/

namespace InterruptiblePrograms

variable {Op : Type} {Ans : Op → Type} {α β ε κ σ : Type}

section Definitions

variable (handle : (op : Op) → κ → σ → Ans op × σ) (guard : Op → κ → σ → Prop)

/-- Every operation that the execution performs meets the condition. -/
def Meets : Prog Op Ans α → List κ → σ → Prop
  | .done _, _, _ => True
  | .call _ _, [], _ => True
  | .call op next, k :: ks, s =>
    guard op k s ∧ Meets (next (handle op k s).1) ks (handle op k s).2

/-- As long as the operations meet the condition, `inv` holds before each of them and
`post` holds of the result. -/
def KeepsUnder (inv : σ → Prop) : Prog Op Ans α → (α → σ → Prop) → σ → Prop
  | .done a, post, s => post a s
  | .call op next, post, s =>
    inv s ∧ ∀ k, guard op k s → KeepsUnder inv (next (handle op k s).1) post (handle op k s).2

instance decidableMeets [∀ op k s, Decidable (guard op k s)] :
    (p : Prog Op Ans α) → (ks : List κ) → (s : σ) → Decidable (Meets handle guard p ks s)
  | .done _, _, _ => .isTrue trivial
  | .call _ _, [], _ => .isTrue trivial
  | .call op next, k :: ks, s =>
    have := decidableMeets (next (handle op k s).1) ks (handle op k s).2
    inferInstanceAs (Decidable (_ ∧ _))

end Definitions

section Rules

variable {handle : (op : Op) → κ → σ → Ans op × σ} {guard : Op → κ → σ → Prop} {inv : σ → Prop}

theorem Meets.mono {guard' : Op → κ → σ → Prop} {p : Prog Op Ans α} {ks : List κ} {s : σ}
    (h : Meets handle guard p ks s) (himp : ∀ op k s, guard op k s → guard' op k s) :
    Meets handle guard' p ks s := by
  induction p generalizing ks s with
  | done a => trivial
  | call op next ih =>
    cases ks with
    | nil => trivial
    | cons k ks => exact ⟨himp op k s h.1, ih _ h.2⟩

/-- Every execution meets the trivial condition. -/
theorem meets_true (p : Prog Op Ans α) (ks : List κ) (s : σ) :
    Meets handle (fun _ _ _ => True) p ks s := by
  induction p generalizing ks s with
  | done a => trivial
  | call op next ih =>
    cases ks with
    | nil => trivial
    | cons k ks => exact ⟨trivial, ih _ ks _⟩

theorem Meets.and {guard' : Op → κ → σ → Prop} {p : Prog Op Ans α} {ks : List κ} {s : σ}
    (h : Meets handle guard p ks s) (h' : Meets handle guard' p ks s) :
    Meets handle (fun op k s => guard op k s ∧ guard' op k s) p ks s := by
  induction p generalizing ks s with
  | done a => trivial
  | call op next ih =>
    cases ks with
    | nil => trivial
    | cons k ks => exact ⟨⟨h.1, h'.1⟩, ih _ h.2 h'.2⟩

theorem keepsUnder_call (op : Op) (next : Ans op → Prog Op Ans α) (post : α → σ → Prop) (s : σ) :
    KeepsUnder handle guard inv (.call op next) post s ↔
      inv s ∧ ∀ k, guard op k s →
        KeepsUnder handle guard inv (next (handle op k s).1) post (handle op k s).2 := Iff.rfl

theorem keepsUnder_bind (p : Prog Op Ans α) (f : α → Prog Op Ans β) (post : β → σ → Prop) (s : σ) :
    KeepsUnder handle guard inv (p >>= f) post s ↔
      KeepsUnder handle guard inv p (fun a s => KeepsUnder handle guard inv (f a) post s) s := by
  induction p generalizing s with
  | done a => rfl
  | call op next ih => simp only [Prog.call_bind, keepsUnder_call, ih]

theorem KeepsUnder.mono {p : Prog Op Ans α} {post post' : α → σ → Prop} {s : σ}
    (h : KeepsUnder handle guard inv p post s) (hpost : ∀ a s, post a s → post' a s) :
    KeepsUnder handle guard inv p post' s := by
  induction p generalizing s with
  | done a => exact hpost a s h
  | call op next ih => exact ⟨h.1, fun k hk => ih _ (h.2 k hk)⟩

/-- A fact about the results of every run may be used in the postcondition. -/
theorem KeepsUnder.and_yields {p : Prog Op Ans α} {post : α → σ → Prop} {post' : α → Prop} {s : σ}
    (h : KeepsUnder handle guard inv p post s) (hyields : Yields post' p) :
    KeepsUnder handle guard inv p (fun a s => post a s ∧ post' a) s := by
  induction p generalizing s with
  | done a => exact ⟨h, hyields⟩
  | call op next ih => exact ⟨h.1, fun k hk => ih _ (h.2 k hk) (hyields _)⟩

theorem keepsUnder_attempt_call (op : Op) (view : Ans op → Except ε α)
    (post : Except ε α → σ → Prop) (s : σ) :
    KeepsUnder handle guard inv (Attempt.call op view : Attempt Op Ans ε α).run post s ↔
      inv s ∧ ∀ k, guard op k s → post (view (handle op k s).1) (handle op k s).2 := Iff.rfl

/-- The bind rule with errors: an error ends the computation at once. -/
theorem keepsUnder_attempt_bind (x : Attempt Op Ans ε α) (f : α → Attempt Op Ans ε β)
    (post : Except ε β → σ → Prop) (s : σ) :
    KeepsUnder handle guard inv (x >>= f).run post s ↔
      KeepsUnder handle guard inv x.run (fun r s => match r with
        | .ok a => KeepsUnder handle guard inv (f a).run post s
        | .error e => post (.error e) s) s := by
  rw [ExceptT.run_bind, keepsUnder_bind]
  refine iff_of_eq (congrArg (fun q => KeepsUnder handle guard inv x.run q s) ?_)
  funext r s
  cases r <;> rfl

/-- The bind rule with an assertion between the two parts. -/
theorem keepsUnder_attempt_then {x : Attempt Op Ans ε α} {f : α → Attempt Op Ans ε β}
    {first : Except ε α → σ → Prop} {post : Except ε β → σ → Prop} {s : σ}
    (hx : KeepsUnder handle guard inv x.run first s)
    (herror : ∀ e s, first (.error e) s → post (.error e) s)
    (hok : ∀ a s, first (.ok a) s → KeepsUnder handle guard inv (f a).run post s) :
    KeepsUnder handle guard inv (x >>= f).run post s := by
  refine (keepsUnder_attempt_bind x f post s).mpr (hx.mono fun r s hr => ?_)
  cases r with
  | ok a => exact hok a s hr
  | error e => exact herror e s hr

theorem keepsUnder_ofExcept_bind {r : Except ε α} {f : α → Attempt Op Ans ε β}
    {post : Except ε β → σ → Prop} {s : σ} (herror : ∀ e, r = .error e → post (.error e) s)
    (hok : ∀ a, r = .ok a → KeepsUnder handle guard inv (f a).run post s) :
    KeepsUnder handle guard inv (Attempt.ofExcept r >>= f).run post s := by
  cases r with
  | ok a => exact hok a rfl
  | error e => exact herror e rfl

theorem keepsUnder_mapError {δ : Type} (f : ε → δ) (x : Attempt Op Ans ε α)
    (post : Except δ α → σ → Prop) (s : σ) :
    KeepsUnder handle guard inv (Attempt.mapError f x).run post s ↔
      KeepsUnder handle guard inv x.run (fun r s => post (r.mapError f) s) s :=
  keepsUnder_bind _ _ _ _

theorem keepsUnder_outcome {δ : Type} (x : Attempt Op Ans ε α)
    (post : Except δ (Except ε α) → σ → Prop) (s : σ) :
    KeepsUnder handle guard inv (Attempt.outcome x).run post s ↔
      KeepsUnder handle guard inv x.run (fun r s => post (.ok r) s) s :=
  keepsUnder_bind _ _ _ _

/-- What the allowed operations preserve, when they meet the condition, holds throughout the
program. -/
theorem KeepsUnder.of_within {p : Prog Op Ans α} {allowed : Op → Prop} {stable : σ → Prop} {s : σ}
    (hstep : ∀ op k s, allowed op → guard op k s → stable s → stable (handle op k s).2)
    (hinv : ∀ s, stable s → inv s) (hp : Within allowed p) (hs : stable s) :
    KeepsUnder handle guard inv p (fun _ s => stable s) s := by
  induction p generalizing s with
  | done a => exact hs
  | call op next ih => exact ⟨hinv s hs, fun k hk => ih _ (hp.2 _) (hstep op k s hp.1 hk hs)⟩

/-- Soundness for executions that may be cut off. -/
theorem KeepsUnder.run {p : Prog Op Ans α} {post : α → σ → Prop} {s : σ}
    (h : KeepsUnder handle guard inv p post s) (ks : List κ) (hks : Meets handle guard p ks s) :
    match p.run handle ks s with
    | (none, s') => inv s'
    | (some a, s') => post a s' := by
  induction p generalizing s ks with
  | done a =>
    rw [Prog.run_done]
    exact h
  | call op next ih =>
    cases ks with
    | nil => exact h.1
    | cons k ks => exact ih _ (h.2 k hks.1) ks hks.2

/-- A program whose results all restore the invariant leaves it true wherever it is cut off. -/
theorem KeepsUnder.run_inv {p : Prog Op Ans α} {post : α → σ → Prop} {s : σ}
    (h : KeepsUnder handle guard inv p post s) (hpost : ∀ a s, post a s → inv s)
    (ks : List κ) (hks : Meets handle guard p ks s) : inv (p.run handle ks s).2 := by
  have hrun := h.run ks hks
  rcases hres : p.run handle ks s with ⟨_ | a, s'⟩
  · rw [hres] at hrun
    exact hrun
  · rw [hres] at hrun
    exact hpost a s' hrun

end Rules

section Sequences

variable (handle : (op : Op) → κ → σ → Ans op × σ) (guard : Op → κ → σ → Prop)

/-- Execute programs one after another, each along its own script. -/
def runEach : List (Prog Op Ans α × List κ) → σ → σ
  | [], s => s
  | (p, ks) :: calls, s => runEach calls (p.run handle ks s).2

/-- Every operation that one of the executions performs meets the condition. -/
def MeetsEach : List (Prog Op Ans α × List κ) → σ → Prop
  | [], _ => True
  | (p, ks) :: calls, s =>
    Meets handle guard p ks s ∧ MeetsEach calls (p.run handle ks s).2

variable {handle guard} {inv : σ → Prop}

/-- What each program keeps, a sequence of executions keeps, wherever they are cut off. -/
theorem runEach_inv {calls : List (Prog Op Ans α × List κ)} {s : σ}
    (hkeeps : ∀ call ∈ calls, ∀ s, inv s → KeepsUnder handle guard inv call.1 (fun _ s => inv s) s)
    (hs : inv s) (hcalls : MeetsEach handle guard calls s) : inv (runEach handle calls s) := by
  induction calls generalizing s with
  | nil => exact hs
  | cons call calls ih =>
    have hcall := (hkeeps call List.mem_cons_self s hs).run_inv (fun _ _ h => h) call.2 hcalls.1
    exact ih (fun c hc => hkeeps c (List.mem_cons_of_mem call hc)) hcall hcalls.2

end Sequences

end InterruptiblePrograms
