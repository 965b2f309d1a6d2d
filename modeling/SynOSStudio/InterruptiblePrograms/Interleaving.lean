import Mathlib.Logic.Relation
import SynOSStudio.InterruptiblePrograms.Invariants

/-!
# Interleaved programs

Threads share one state, and any thread whose next operation is enabled may take the
next step. `Safe` is a rely–guarantee predicate for one thread: whatever the other
threads do within its rely, each of its own steps keeps the shared invariant and stays
within its guarantee. Threads that are safe alone are safe together.
-/

namespace InterruptiblePrograms

variable {ι Op : Type} {Ans : Op → Type} {α β δ ε κ σ : Type}

/-- What an operation of each thread answers and does, and when it can happen at all. -/
structure Machine (ι Op : Type) (Ans : Op → Type) (κ σ : Type) where
  handle : ι → (op : Op) → κ → σ → Ans op × σ
  enabled : Op → κ → σ → Prop

/-- The rest of each thread's program, and the shared state. -/
structure Config (ι Op : Type) (Ans : Op → Type) (α σ : Type) where
  threads : ι → Prog Op Ans α
  state : σ

section Execution

variable [DecidableEq ι] (machine : Machine ι Op Ans κ σ) (admissible : ι → Op → κ → σ → Prop)

/-- The configuration after one operation of a thread. -/
def Config.advance (c : Config ι Op Ans α σ) (i : ι) (op : Op) (next : Ans op → Prog Op Ans α)
    (k : κ) : Config ι Op Ans α σ where
  threads := Function.update c.threads i (next (machine.handle i op k c.state).1)
  state := (machine.handle i op k c.state).2

inductive Step (c : Config ι Op Ans α σ) : Config ι Op Ans α σ → Prop where
  | perform (i : ι) (op : Op) (next : Ans op → Prog Op Ans α) (k : κ)
      (hthread : c.threads i = .call op next) (henabled : machine.enabled op k c.state)
      (hadmissible : admissible i op k c.state) : Step c (c.advance machine i op next k)

/-- What some interleaving of the threads can lead to. -/
abbrev Reaches : Config ι Op Ans α σ → Config ι Op Ans α σ → Prop :=
  Relation.ReflTransGen (Step machine admissible)

variable [∀ op k s, Decidable (machine.enabled op k s)] [∀ i op k s, Decidable (admissible i op k s)]

/-- Some steps of one thread in a row; `none` when one of them cannot happen. -/
def stepsOf (i : ι) : List κ → Prog Op Ans α → σ → Option (Prog Op Ans α × σ)
  | [], p, s => some (p, s)
  | _ :: _, .done _, _ => none
  | k :: ks, .call op next, s =>
    if machine.enabled op k s ∧ admissible i op k s then
      stepsOf i ks (next (machine.handle i op k s).1) (machine.handle i op k s).2
    else none

/-- Run the threads in turns. -/
def Config.runTurns : List (ι × List κ) → Config ι Op Ans α σ → Option (Config ι Op Ans α σ)
  | [], c => some c
  | (i, ks) :: turns, c =>
    match stepsOf machine admissible i ks (c.threads i) c.state with
    | none => none
    | some (p, s) => runTurns turns ⟨Function.update c.threads i p, s⟩

variable {machine admissible}

theorem reaches_stepsOf {i : ι} {ks : List κ} {c : Config ι Op Ans α σ} {p : Prog Op Ans α} {s : σ}
    (h : stepsOf machine admissible i ks (c.threads i) c.state = some (p, s)) :
    Reaches machine admissible c ⟨Function.update c.threads i p, s⟩ := by
  induction ks generalizing c with
  | nil =>
    cases h
    rw [Function.update_eq_self]
  | cons k ks ih =>
    cases hthread : c.threads i with
    | done a =>
      rw [hthread] at h
      cases h
    | call op next =>
      rw [hthread] at h
      unfold stepsOf at h
      split_ifs at h with hcan
      have hstep : Step machine admissible c (c.advance machine i op next k) :=
        .perform i op next k hthread hcan.1 hcan.2
      have hrest := ih (c := c.advance machine i op next k)
        (by simpa [Config.advance, Function.update_self] using h)
      simp only [Config.advance, Function.update_idem] at hrest
      exact .head hstep hrest

theorem reaches_runTurns {turns : List (ι × List κ)} {c c' : Config ι Op Ans α σ}
    (h : c.runTurns machine admissible turns = some c') : Reaches machine admissible c c' := by
  induction turns generalizing c with
  | nil =>
    cases h
    exact .refl
  | cons turn turns ih =>
    obtain ⟨i, ks⟩ := turn
    unfold Config.runTurns at h
    cases hsteps : stepsOf machine admissible i ks (c.threads i) c.state with
    | none =>
      rw [hsteps] at h
      cases h
    | some r =>
      rw [hsteps] at h
      exact (reaches_stepsOf hsteps).trans (ih h)

end Execution

/-- What every thread keeps true, which steps are considered, and what a thread may expect of
the others and must itself do. -/
structure Protocol (ι Op κ σ : Type) where
  invariant : σ → Prop
  admissible : ι → Op → κ → σ → Prop
  rely : ι → σ → σ → Prop
  guarantee : ι → σ → σ → Prop
  rely_refl : ∀ i s, rely i s s
  rely_trans : ∀ {i s s' s''}, rely i s s' → rely i s' s'' → rely i s s''
  rely_of_guarantee : ∀ {i j s s'}, i ≠ j → invariant s → guarantee j s s' → rely i s s'

section Safe

variable (machine : Machine ι Op Ans κ σ) (P : Protocol ι Op κ σ) (i : ι)

/-- Under the rely every step of the program keeps the invariant and the guarantee, and `post`
holds of its result from then on. -/
def Safe : Prog Op Ans α → (α → σ → Prop) → σ → Prop
  | .done a, post, s => ∀ s', P.rely i s s' → P.invariant s' → post a s'
  | .call op next, post, s => ∀ s', P.rely i s s' → P.invariant s' → ∀ k,
    machine.enabled op k s' → P.admissible i op k s' →
      P.invariant (machine.handle i op k s').2 ∧ P.guarantee i s' (machine.handle i op k s').2 ∧
        Safe (next (machine.handle i op k s').1) post (machine.handle i op k s').2

/-- An assertion that the other threads cannot make false. -/
def Protocol.Stable (assertion : σ → Prop) : Prop :=
  ∀ s s', P.rely i s s' → P.invariant s' → assertion s → assertion s'

variable {machine P i} {post : α → σ → Prop} {s : σ}

theorem Safe.of_rely {p : Prog Op Ans α} (h : Safe machine P i p post s) {s' : σ}
    (hrely : P.rely i s s') : Safe machine P i p post s' := by
  cases p with
  | done a => exact fun s'' hrely' => h s'' (P.rely_trans hrely hrely')
  | call op next => exact fun s'' hrely' => h s'' (P.rely_trans hrely hrely')

/-- A program may be considered after the interference that precedes its next step. -/
theorem safe_of_forall_rely {p : Prog Op Ans α}
    (h : ∀ s', P.rely i s s' → P.invariant s' → Safe machine P i p post s') :
    Safe machine P i p post s := by
  cases p with
  | done a => exact fun s' hrely hinv => h s' hrely hinv s' (P.rely_refl i s') hinv
  | call op next => exact fun s' hrely hinv => h s' hrely hinv s' (P.rely_refl i s') hinv

theorem safe_done (hstable : ∀ a, P.Stable i (post a)) {a : α} (hpost : post a s) :
    Safe machine P i (.done a : Prog Op Ans α) post s :=
  fun s' hrely hinv => hstable a s s' hrely hinv hpost

theorem Safe.mono {p : Prog Op Ans α} {post' : α → σ → Prop} (h : Safe machine P i p post s)
    (hpost : ∀ a s, P.invariant s → post a s → post' a s) : Safe machine P i p post' s := by
  induction p generalizing s with
  | done a => exact fun s' hrely hinv => hpost a s' hinv (h s' hrely hinv)
  | call op next ih =>
    intro s' hrely hinv k henabled hk
    obtain ⟨hinv', hguarantee, hrest⟩ := h s' hrely hinv k henabled hk
    exact ⟨hinv', hguarantee, ih _ hrest⟩

/-- What every result satisfies, whatever the answers are, holds of it here too. -/
theorem Safe.and_yields {p : Prog Op Ans α} {result : α → Prop} (h : Safe machine P i p post s)
    (hp : Yields result p) : Safe machine P i p (fun a s => post a s ∧ result a) s := by
  induction p generalizing s with
  | done a => exact fun s' hrely hinv => ⟨h s' hrely hinv, hp⟩
  | call op next ih =>
    intro s' hrely hinv k henabled hk
    obtain ⟨hinv', hguarantee, hrest⟩ := h s' hrely hinv k henabled hk
    exact ⟨hinv', hguarantee, ih _ hrest (hp _)⟩

theorem safe_bind {p : Prog Op Ans α} {f : α → Prog Op Ans β} {post : β → σ → Prop}
    (h : Safe machine P i p (fun a s => Safe machine P i (f a) post s) s) :
    Safe machine P i (p >>= f) post s := by
  induction p generalizing s with
  | done a => exact safe_of_forall_rely fun s' hrely hinv => h s' hrely hinv
  | call op next ih =>
    intro s' hrely hinv k henabled hk
    obtain ⟨hinv', hguarantee, hrest⟩ := h s' hrely hinv k henabled hk
    exact ⟨hinv', hguarantee, ih _ hrest⟩

/-- One operation, from any state that keeps a stable assertion. -/
theorem safe_call {assertion : σ → Prop} (hstable : P.Stable i assertion) (hassertion : assertion s)
    {op : Op} {next : Ans op → Prog Op Ans α}
    (h : ∀ s', P.invariant s' → assertion s' → ∀ k, machine.enabled op k s' →
      P.admissible i op k s' →
        P.invariant (machine.handle i op k s').2 ∧
        P.guarantee i s' (machine.handle i op k s').2 ∧
        Safe machine P i (next (machine.handle i op k s').1) post (machine.handle i op k s').2) :
    Safe machine P i (.call op next) post s :=
  fun s' hrely hinv => h s' hinv (hstable s s' hrely hinv hassertion)

/-- A program of operations that keep a stable assertion. -/
theorem Safe.of_within {p : Prog Op Ans α} {allowed : Op → Prop} {assertion : σ → Prop}
    (hstable : P.Stable i assertion)
    (hstep : ∀ op k s, allowed op → P.admissible i op k s → machine.enabled op k s →
      P.invariant s → assertion s → P.invariant (machine.handle i op k s).2 ∧
        P.guarantee i s (machine.handle i op k s).2 ∧ assertion (machine.handle i op k s).2)
    (hp : Within allowed p) (hassertion : assertion s) :
    Safe machine P i p (fun _ s => assertion s) s := by
  induction p generalizing s with
  | done a => exact safe_done (fun _ => hstable) hassertion
  | call op next ih =>
    refine safe_call hstable hassertion fun s' hinv hassertion' k henabled hk => ?_
    obtain ⟨hinv', hguarantee, hnext⟩ := hstep op k s' hp.1 hk henabled hinv hassertion'
    exact ⟨hinv', hguarantee, ih _ (hp.2 _) hnext⟩

section Attempts

variable {post : Except ε α → σ → Prop}

theorem safe_pure (hstable : ∀ r, P.Stable i (post r)) {a : α} (h : post (.ok a) s) :
    Safe machine P i (pure a : Attempt Op Ans ε α).run post s := safe_done hstable h

theorem safe_throw (hstable : ∀ r, P.Stable i (post r)) {e : ε} (h : post (.error e) s) :
    Safe machine P i (throw e : Attempt Op Ans ε α).run post s := safe_done hstable h

theorem safe_ofExcept (hstable : ∀ r, P.Stable i (post r)) {r : Except ε α} (h : post r s) :
    Safe machine P i (Attempt.ofExcept r : Attempt Op Ans ε α).run post s := safe_done hstable h

theorem safe_attempt_call {assertion : σ → Prop} (hstable : P.Stable i assertion)
    (hassertion : assertion s) {op : Op} {view : Ans op → Except ε α}
    (h : ∀ s', P.invariant s' → assertion s' → ∀ k, machine.enabled op k s' →
      P.admissible i op k s' →
        P.invariant (machine.handle i op k s').2 ∧
        P.guarantee i s' (machine.handle i op k s').2 ∧
        ∀ s'', P.rely i (machine.handle i op k s').2 s'' → P.invariant s'' →
          post (view (machine.handle i op k s').1) s'') :
    Safe machine P i (Attempt.call op view : Attempt Op Ans ε α).run post s :=
  safe_call hstable hassertion h

theorem safe_attempt_bind {x : Attempt Op Ans ε α} {f : α → Attempt Op Ans ε β}
    {post : Except ε β → σ → Prop}
    (h : Safe machine P i x.run (fun r s => match r with
      | .ok a => Safe machine P i (f a).run post s
      | .error e => ∀ s', P.rely i s s' → P.invariant s' → post (.error e) s') s) :
    Safe machine P i (x >>= f).run post s := by
  rw [ExceptT.run_bind]
  refine safe_bind (h.mono fun r s' _ hr => ?_)
  cases r <;> exact hr

/-- An error of the first part is the result of the whole. -/
theorem safe_attempt_then {x : Attempt Op Ans ε α} {f : α → Attempt Op Ans ε β}
    {first : Except ε α → σ → Prop} {post : Except ε β → σ → Prop}
    (hstable : ∀ r, P.Stable i (post r)) (hx : Safe machine P i x.run first s)
    (herror : ∀ e s, first (.error e) s → post (.error e) s)
    (hok : ∀ a s, P.invariant s → first (.ok a) s → Safe machine P i (f a).run post s) :
    Safe machine P i (x >>= f).run post s := by
  refine safe_attempt_bind (hx.mono fun r s' hinv hr => ?_)
  cases r with
  | ok a => exact hok a s' hinv hr
  | error e => exact fun s'' hrely hinv' => hstable _ s' s'' hrely hinv' (herror e s' hr)

/-- A check that passes is skipped. -/
theorem safe_passed {r : Except ε α} {a : α} {f : α → Attempt Op Ans ε β}
    {post : Except ε β → σ → Prop} (hr : r = .ok a) (h : Safe machine P i (f a).run post s) :
    Safe machine P i (Attempt.ofExcept r >>= f).run post s := by
  subst hr
  exact h

theorem safe_mapError {f : ε → δ} {x : Attempt Op Ans ε α} {post : Except δ α → σ → Prop}
    (h : Safe machine P i x.run (fun r s => ∀ s', P.rely i s s' → P.invariant s' →
      post (r.mapError f) s') s) :
    Safe machine P i (Attempt.mapError f x).run post s :=
  safe_bind h

theorem safe_outcome {x : Attempt Op Ans ε α} {post : Except δ (Except ε α) → σ → Prop}
    (h : Safe machine P i x.run (fun r s => ∀ s', P.rely i s s' → P.invariant s' →
      post (.ok r) s') s) :
    Safe machine P i (Attempt.outcome x : Attempt Op Ans δ _).run post s :=
  safe_bind h

end Attempts

end Safe

/-- Threads that are safe alone are safe together, and what they establish holds. -/
theorem Safe.reaches [DecidableEq ι] {machine : Machine ι Op Ans κ σ} {P : Protocol ι Op κ σ}
    {post : ι → α → σ → Prop} {c c' : Config ι Op Ans α σ}
    (hreaches : Reaches machine P.admissible c c') (hinv : P.invariant c.state)
    (hsafe : ∀ i, Safe machine P i (c.threads i) (post i) c.state) :
    P.invariant c'.state ∧ ∀ i, Safe machine P i (c'.threads i) (post i) c'.state := by
  induction hreaches with
  | refl => exact ⟨hinv, hsafe⟩
  | tail _ hstep ih =>
    obtain ⟨hinv, hsafe⟩ := ih
    cases hstep with
    | perform i op next k hthread henabled hadmissible =>
      rename_i c₁ _
      have hi := hsafe i
      rw [hthread] at hi
      obtain ⟨hinv', hguarantee, hrest⟩ :=
        hi c₁.state (P.rely_refl i _) hinv k henabled hadmissible
      refine ⟨hinv', fun j => ?_⟩
      by_cases hj : j = i
      · subst hj
        simpa [Config.advance] using hrest
      · simpa [Config.advance, Function.update_of_ne hj] using
          (hsafe j).of_rely (P.rely_of_guarantee hj hinv hguarantee)

/-- What a thread has established when it returned holds in every later state. -/
theorem Safe.result [DecidableEq ι] {machine : Machine ι Op Ans κ σ} {P : Protocol ι Op κ σ}
    {post : ι → α → σ → Prop} {c c' : Config ι Op Ans α σ}
    (hreaches : Reaches machine P.admissible c c') (hinv : P.invariant c.state)
    (hsafe : ∀ i, Safe machine P i (c.threads i) (post i) c.state) {i : ι} {a : α}
    (hdone : c'.threads i = .done a) : post i a c'.state := by
  obtain ⟨hinv', hsafe'⟩ := Safe.reaches hreaches hinv hsafe
  have hi := hsafe' i
  rw [hdone] at hi
  exact hi c'.state (P.rely_refl i _) hinv'

end InterruptiblePrograms
