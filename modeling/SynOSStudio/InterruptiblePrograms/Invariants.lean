import SynOSStudio.InterruptiblePrograms.Programs

/-!
# Invariants of interruptible programs

`Keeps` is a weakest-precondition predicate for a program that may stop before
any of its operations: an invariant holds at every stopping point and a
postcondition holds of the result. The rules below compose it along the monad,
and the soundness theorems turn it into facts about scripted executions.
-/

namespace InterruptiblePrograms

variable {Op : Type} {Ans : Op → Type} {α β ε κ σ : Type}

/-- An operation together with the answer it received. -/
abbrev Entry (Op : Type) (Ans : Op → Type) := (op : Op) × Ans op

/-- A handler that also keeps the list of performed operations, oldest first. -/
def logged (handle : (op : Op) → κ → σ → Ans op × σ) (op : Op) (k : κ)
    (s : σ × List (Entry Op Ans)) : Ans op × (σ × List (Entry Op Ans)) :=
  ((handle op k s.1).1, (handle op k s.1).2, s.2 ++ [⟨op, (handle op k s.1).1⟩])

/-- A computation that may stop with an error. -/
abbrev Attempt (Op : Type) (Ans : Op → Type) (ε α : Type) := ExceptT ε (Prog Op Ans) α

/-- Turn a computed result into a computation, the question mark of the source. -/
def Attempt.ofExcept (r : Except ε α) : Attempt Op Ans ε α :=
  ExceptT.mk (.done r)

/-- Perform a fallible operation and translate its error. -/
def Attempt.call (op : Op) (view : Ans op → Except ε α) : Attempt Op Ans ε α :=
  ExceptT.mk (.call op fun r => .done (view r))

/-- Run a computation with errors of one kind inside a computation with errors of another. -/
def Attempt.mapError {δ : Type} (f : ε → δ) (x : Attempt Op Ans ε α) : Attempt Op Ans δ α :=
  ExceptT.mk (x.run >>= fun r => .done (r.mapError f))

/-- Run a computation and hand on its result, error or not. -/
def Attempt.outcome {δ : Type} (x : Attempt Op Ans ε α) : Attempt Op Ans δ (Except ε α) :=
  ExceptT.mk (x.run >>= fun r => .done (.ok r))

section Keeps

variable (handle : (op : Op) → κ → σ → Ans op × σ) (admissible : κ → Prop) (inv : σ → Prop)

/-- Before every operation of the program `inv` holds, and `post` holds of what it
returns and of the state it leaves, for all admissible choices. -/
def Keeps : Prog Op Ans α → (α → σ → Prop) → σ → Prop
  | .done a, post, s => post a s
  | .call op next, post, s =>
    inv s ∧ ∀ k, admissible k → Keeps (next (handle op k s).1) post (handle op k s).2

variable {handle admissible inv}

@[simp] theorem keeps_done (a : α) (post : α → σ → Prop) (s : σ) :
    Keeps handle admissible inv (.done a : Prog Op Ans α) post s ↔ post a s := Iff.rfl

theorem keeps_call (op : Op) (next : Ans op → Prog Op Ans α) (post : α → σ → Prop) (s : σ) :
    Keeps handle admissible inv (.call op next) post s ↔
      inv s ∧ ∀ k, admissible k →
        Keeps handle admissible inv (next (handle op k s).1) post (handle op k s).2 := Iff.rfl

theorem keeps_bind (p : Prog Op Ans α) (f : α → Prog Op Ans β) (post : β → σ → Prop) (s : σ) :
    Keeps handle admissible inv (p >>= f) post s ↔
      Keeps handle admissible inv p (fun a s => Keeps handle admissible inv (f a) post s) s := by
  induction p generalizing s with
  | done a => rfl
  | call op next ih => simp only [Prog.call_bind, keeps_call, ih]

theorem Keeps.mono {p : Prog Op Ans α} {post post' : α → σ → Prop} {s : σ}
    (h : Keeps handle admissible inv p post s) (hpost : ∀ a s, post a s → post' a s) :
    Keeps handle admissible inv p post' s := by
  induction p generalizing s with
  | done a => exact hpost a s h
  | call op next ih => exact ⟨h.1, fun k hk => ih _ (h.2 k hk)⟩

/-- Two facts about one program may be proved apart and used together. -/
theorem Keeps.and {p : Prog Op Ans α} {post post' : α → σ → Prop} {s : σ}
    (h : Keeps handle admissible inv p post s) (h' : Keeps handle admissible inv p post' s) :
    Keeps handle admissible inv p (fun a s => post a s ∧ post' a s) s := by
  induction p generalizing s with
  | done a => exact ⟨h, h'⟩
  | call op next ih => exact ⟨h.1, fun k hk => ih _ (h.2 k hk) (h'.2 k hk)⟩

/-- Soundness for executions that may be cut off. -/
theorem Keeps.run {p : Prog Op Ans α} {post : α → σ → Prop} {s : σ}
    (h : Keeps handle admissible inv p post s) (ks : List κ) (hks : ∀ k ∈ ks, admissible k) :
    match p.run handle ks s with
    | (none, s') => inv s'
    | (some a, s') => post a s' := by
  induction p generalizing s ks with
  | done a => simpa using h
  | call op next ih =>
    cases ks with
    | nil => exact h.1
    | cons k ks =>
      exact ih _ (h.2 k (hks k (by simp))) ks fun k' hk' => hks k' (by simp [hk'])

/-- A program whose results all restore the invariant leaves it true wherever it is cut off. -/
theorem Keeps.run_inv {p : Prog Op Ans α} {post : α → σ → Prop} {s : σ}
    (h : Keeps handle admissible inv p post s) (hpost : ∀ a s, post a s → inv s)
    (ks : List κ) (hks : ∀ k ∈ ks, admissible k) : inv (p.run handle ks s).2 := by
  have hrun := h.run ks hks
  rcases hres : p.run handle ks s with ⟨_ | a, s'⟩
  · rw [hres] at hrun
    exact hrun
  · rw [hres] at hrun
    exact hpost a s' hrun

/-- Soundness for executions to the end. -/
theorem Keeps.runToEnd {p : Prog Op Ans α} {post : α → σ → Prop} {s : σ}
    (h : Keeps handle admissible inv p post s) (ks : ℕ → κ) (hks : ∀ n, admissible (ks n)) :
    post (p.runToEnd handle ks s).1 (p.runToEnd handle ks s).2 := by
  induction p generalizing s ks with
  | done a => exact h
  | call op next ih => exact ih _ (h.2 (ks 0) (hks 0)) _ fun n => hks (n + 1)

section Attempts

@[simp] theorem keeps_ofExcept (r : Except ε α) (post : Except ε α → σ → Prop) (s : σ) :
    Keeps handle admissible inv (Attempt.ofExcept r : Attempt Op Ans ε α).run post s ↔
      post r s := Iff.rfl

@[simp] theorem keeps_attempt_pure (a : α) (post : Except ε α → σ → Prop) (s : σ) :
    Keeps handle admissible inv (pure a : Attempt Op Ans ε α).run post s ↔
      post (.ok a) s := Iff.rfl

@[simp] theorem keeps_throw (e : ε) (post : Except ε α → σ → Prop) (s : σ) :
    Keeps handle admissible inv (throw e : Attempt Op Ans ε α).run post s ↔
      post (.error e) s := Iff.rfl

theorem keeps_attempt_call (op : Op) (view : Ans op → Except ε α)
    (post : Except ε α → σ → Prop) (s : σ) :
    Keeps handle admissible inv (Attempt.call op view : Attempt Op Ans ε α).run post s ↔
      inv s ∧ ∀ k, admissible k → post (view (handle op k s).1) (handle op k s).2 := Iff.rfl

/-- The bind rule with errors: an error ends the computation at once. -/
theorem keeps_attempt_bind (x : Attempt Op Ans ε α) (f : α → Attempt Op Ans ε β)
    (post : Except ε β → σ → Prop) (s : σ) :
    Keeps handle admissible inv (x >>= f).run post s ↔
      Keeps handle admissible inv x.run (fun r s => match r with
        | .ok a => Keeps handle admissible inv (f a).run post s
        | .error e => post (.error e) s) s := by
  rw [ExceptT.run_bind, keeps_bind]
  refine iff_of_eq (congrArg (fun q => Keeps handle admissible inv x.run q s) ?_)
  funext r s
  cases r <;> rfl

/-- The bind rule with an assertion between the two parts. -/
theorem keeps_attempt_then {x : Attempt Op Ans ε α} {f : α → Attempt Op Ans ε β}
    {first : Except ε α → σ → Prop} {post : Except ε β → σ → Prop} {s : σ}
    (hx : Keeps handle admissible inv x.run first s)
    (herror : ∀ e s, first (.error e) s → post (.error e) s)
    (hok : ∀ a s, first (.ok a) s → Keeps handle admissible inv (f a).run post s) :
    Keeps handle admissible inv (x >>= f).run post s := by
  refine (keeps_attempt_bind x f post s).mpr (hx.mono fun r s hr => ?_)
  cases r with
  | ok a => exact hok a s hr
  | error e => exact herror e s hr

theorem keeps_ofExcept_bind {r : Except ε α} {f : α → Attempt Op Ans ε β}
    {post : Except ε β → σ → Prop} {s : σ} (herror : ∀ e, r = .error e → post (.error e) s)
    (hok : ∀ a, r = .ok a → Keeps handle admissible inv (f a).run post s) :
    Keeps handle admissible inv (Attempt.ofExcept r >>= f).run post s := by
  cases r with
  | ok a => exact hok a rfl
  | error e => exact herror e rfl

theorem keeps_mapError {δ : Type} (f : ε → δ) (x : Attempt Op Ans ε α)
    (post : Except δ α → σ → Prop) (s : σ) :
    Keeps handle admissible inv (Attempt.mapError f x).run post s ↔
      Keeps handle admissible inv x.run (fun r s => post (r.mapError f) s) s :=
  keeps_bind _ _ _ _

theorem keeps_outcome {δ : Type} (x : Attempt Op Ans ε α)
    (post : Except δ (Except ε α) → σ → Prop) (s : σ) :
    Keeps handle admissible inv (Attempt.outcome x).run post s ↔
      Keeps handle admissible inv x.run (fun r s => post (.ok r) s) s :=
  keeps_bind _ _ _ _

end Attempts

section Within

variable (allowed : Op → Prop)

/-- Every operation that the program can perform is allowed. -/
def Within : Prog Op Ans α → Prop
  | .done _ => True
  | .call op next => allowed op ∧ ∀ r, Within (next r)

variable {allowed}

theorem within_bind {p : Prog Op Ans α} {f : α → Prog Op Ans β} (hp : Within allowed p)
    (hf : ∀ a, Within allowed (f a)) : Within allowed (p >>= f) := by
  induction p with
  | done a => exact hf a
  | call op next ih => exact ⟨hp.1, fun r => ih r (hp.2 r)⟩

theorem within_ofExcept (r : Except ε α) :
    Within allowed (Attempt.ofExcept r : Attempt Op Ans ε α).run := trivial

theorem within_pure (a : α) : Within allowed (pure a : Attempt Op Ans ε α).run := trivial

theorem within_throw (e : ε) : Within allowed (throw e : Attempt Op Ans ε α).run := trivial

theorem within_call {op : Op} (view : Ans op → Except ε α) (h : allowed op) :
    Within allowed (Attempt.call op view : Attempt Op Ans ε α).run := ⟨h, fun _ => trivial⟩

theorem within_attempt_bind {x : Attempt Op Ans ε α} {f : α → Attempt Op Ans ε β}
    (hx : Within allowed x.run) (hf : ∀ a, Within allowed (f a).run) :
    Within allowed (x >>= f).run := by
  rw [ExceptT.run_bind]
  refine within_bind hx fun r => ?_
  cases r with
  | ok a => exact hf a
  | error e => exact trivial

theorem within_ofExcept_bind {r : Except ε α} {f : α → Attempt Op Ans ε β}
    (hf : ∀ a, r = .ok a → Within allowed (f a).run) :
    Within allowed (Attempt.ofExcept r >>= f).run := by
  cases r with
  | ok a => exact hf a rfl
  | error e => trivial

theorem within_mapError {δ : Type} {f : ε → δ} {x : Attempt Op Ans ε α}
    (hx : Within allowed x.run) : Within allowed (Attempt.mapError f x).run :=
  within_bind hx fun _ => trivial

theorem within_outcome {δ : Type} {x : Attempt Op Ans ε α} (hx : Within allowed x.run) :
    Within allowed (Attempt.outcome x : Attempt Op Ans δ _).run :=
  within_bind hx fun _ => trivial

/-- What the allowed operations preserve holds throughout the program. -/
theorem Keeps.of_within {p : Prog Op Ans α} {stable : σ → Prop} {s : σ}
    (hstep : ∀ op k s, allowed op → admissible k → stable s → stable (handle op k s).2)
    (hinv : ∀ s, stable s → inv s) (hp : Within allowed p) (hs : stable s) :
    Keeps handle admissible inv p (fun _ s => stable s) s := by
  induction p generalizing s with
  | done a => exact hs
  | call op next ih => exact ⟨hinv s hs, fun k hk => ih _ (hp.2 _) (hstep op k s hp.1 hk hs)⟩

theorem Within.mono {p : Prog Op Ans α} {allowed' : Op → Prop} (h : Within allowed p)
    (himp : ∀ op, allowed op → allowed' op) : Within allowed' p := by
  induction p with
  | done a => trivial
  | call op next ih => exact ⟨himp op h.1, fun r => ih r (h.2 r)⟩

/-- Every result that the program can return satisfies `post`, whatever the answers are. -/
def Yields (post : α → Prop) : Prog Op Ans α → Prop
  | .done a => post a
  | .call _ next => ∀ r, Yields post (next r)

theorem yields_bind {p : Prog Op Ans α} {f : α → Prog Op Ans β} {post : α → Prop}
    {post' : β → Prop} (hp : Yields post p) (hf : ∀ a, post a → Yields post' (f a)) :
    Yields post' (p >>= f) := by
  induction p with
  | done a => exact hf a hp
  | call op next ih => exact fun r => ih r (hp r)

theorem yields_call {op : Op} {view : Ans op → Except ε α} {post : Except ε α → Prop}
    (h : ∀ r, post (view r)) : Yields post (Attempt.call op view : Attempt Op Ans ε α).run :=
  h

theorem Yields.mono {p : Prog Op Ans α} {post post' : α → Prop} (h : Yields post p)
    (himp : ∀ a, post a → post' a) : Yields post' p := by
  induction p with
  | done a => exact himp a h
  | call op next ih => exact fun r => ih r (h r)

theorem yields_true (p : Prog Op Ans α) : Yields (fun _ => True) p := by
  induction p with
  | done a => trivial
  | call op next ih => exact ih

/-- The first part decides what the second part is run with. -/
theorem within_bind_of_yields {p : Prog Op Ans α} {f : α → Prog Op Ans β} {post : α → Prop}
    (hp : Within allowed p) (hyields : Yields post p) (hf : ∀ a, post a → Within allowed (f a)) :
    Within allowed (p >>= f) := by
  induction p with
  | done a => exact hf a hyields
  | call op next ih => exact ⟨hp.1, fun r => ih r (hp.2 r) (hyields r)⟩

theorem yields_attempt_then {x : Attempt Op Ans ε α} {f : α → Attempt Op Ans ε β}
    {first : Except ε α → Prop} {post : Except ε β → Prop} (hx : Yields first x.run)
    (herror : ∀ e, first (.error e) → post (.error e))
    (hok : ∀ a, first (.ok a) → Yields post (f a).run) : Yields post (x >>= f).run := by
  rw [ExceptT.run_bind]
  refine yields_bind hx fun r hr => ?_
  cases r with
  | ok a => exact hok a hr
  | error e => exact herror e hr

/-- An error of the first part is an error of the whole. -/
theorem yields_attempt_bind {x : Attempt Op Ans ε α} {f : α → Attempt Op Ans ε β}
    {post : Except ε β → Prop}
    (hx : Yields (fun r => ∀ e, r = .error e → post (.error e)) x.run)
    (hf : ∀ a, Yields post (f a).run) : Yields post (x >>= f).run :=
  yields_attempt_then hx (fun e he => he e rfl) fun a _ => hf a

/-- Where errors do not matter only the last part does. -/
theorem yields_attempt_last {x : Attempt Op Ans ε α} {f : α → Attempt Op Ans ε β}
    {post : Except ε β → Prop} (herror : ∀ e, post (.error e))
    (hf : ∀ a, Yields post (f a).run) : Yields post (x >>= f).run :=
  yields_attempt_then (yields_true _) (fun e _ => herror e) fun a _ => hf a

theorem yields_mapError {x : Attempt Op Ans ε α} {δ : Type} {f : ε → δ} {post : Except δ α → Prop}
    (hx : Yields (fun r => post (r.mapError f)) x.run) :
    Yields post (Attempt.mapError f x).run :=
  yields_bind hx fun _ hr => hr

theorem within_attempt_bind_of_yields {x : Attempt Op Ans ε α} {f : α → Attempt Op Ans ε β}
    {post : Except ε α → Prop} (hx : Within allowed x.run) (hyields : Yields post x.run)
    (hf : ∀ a, post (.ok a) → Within allowed (f a).run) : Within allowed (x >>= f).run := by
  rw [ExceptT.run_bind]
  refine within_bind_of_yields hx hyields fun r hr => ?_
  cases r with
  | ok a => exact hf a hr
  | error e => trivial

theorem yields_outcome {x : Attempt Op Ans ε α} {δ : Type} {post : Except ε α → Prop}
    (hx : Yields post x.run) :
    Yields (fun r => ∀ a, r = .ok a → post a) (Attempt.outcome x : Attempt Op Ans δ _).run := by
  refine yields_bind hx fun r hr => ?_
  rintro a ⟨⟩
  exact hr

theorem within_true (p : Prog Op Ans α) : Within (fun _ => True) p := by
  induction p with
  | done a => trivial
  | call op next ih => exact ⟨trivial, ih⟩

end Within

end Keeps

end InterruptiblePrograms
