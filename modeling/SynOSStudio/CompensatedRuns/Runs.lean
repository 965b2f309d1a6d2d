import Mathlib.Tactic

/-!
# Runs that are compensated when they fail

A list of tasks is carried out in order. A task that raises may be passed over, or be undone and
then passed over, or end the run; in the last case it is undone, and after it every task that
went through, the latest first. A chain of assertions, one pair for each place in the list, says
what holds between the tasks on the way forward and on the way back.
-/

namespace CompensatedRuns

/-- What is done about a task that raised. -/
inductive Verdict where
  | proceed
  | compensate
  | abort
  deriving DecidableEq

structure Task (σ ε : Type) where
  act : σ → Except ε Unit × σ
  undo : σ → σ
  verdict : ε → Verdict

variable {σ ε : Type}

/-- Undo the tasks that went through, given the latest first. -/
def unwind (done : List (Task σ ε)) (s : σ) : σ :=
  done.foldl (fun s task => task.undo s) s

/-- The state when a run ends, and whether it came to its end. -/
def run : List (Task σ ε) → List (Task σ ε) → σ → Bool × σ
  | [], _, s => (true, s)
  | task :: tasks, done, s =>
    let ended := task.act s
    match ended.1 with
    | .ok () => run tasks (task :: done) ended.2
    | .error e =>
      match task.verdict e with
      | .proceed => run tasks done ended.2
      | .compensate => run tasks done (task.undo ended.2)
      | .abort => (false, unwind done (task.undo ended.2))

/-- What a task does to the assertions around it: `A` and `B` hold before and after it on the way
forward, `U` and `V` before and after it while the run is undone. -/
structure Leg (task : Task σ ε) (A U B V : σ → Prop) : Prop where
  forward : ∀ s, A s → (task.act s).1 = .ok () → B (task.act s).2
  proceeds : ∀ s e, A s → (task.act s).1 = .error e → task.verdict e = .proceed →
    B (task.act s).2 ∧ ∀ t, V t → U t
  compensates : ∀ s e, A s → (task.act s).1 = .error e → task.verdict e = .compensate →
    B (task.undo (task.act s).2) ∧ ∀ t, V t → U t
  aborts : ∀ s e, A s → (task.act s).1 = .error e → task.verdict e = .abort →
    U (task.undo (task.act s).2)
  back : ∀ s, V s → U (task.undo s)

/-- Legs that fit together. -/
inductive Chain : List (Task σ ε) → (A U B V : σ → Prop) → Prop where
  | nil (A U : σ → Prop) : Chain [] A U A U
  | cons {task : Task σ ε} {tasks : List (Task σ ε)} {A U B V C W : σ → Prop}
      (leg : Leg task A U B V) (chain : Chain tasks B V C W) : Chain (task :: tasks) A U C W

variable {task : Task σ ε} {tasks more : List (Task σ ε)} {A U B V C W : σ → Prop}

theorem Chain.append (hfirst : Chain tasks A U B V) (hthen : Chain more B V C W) :
    Chain (tasks ++ more) A U C W := by
  induction hfirst with
  | nil A U => exact hthen
  | cons leg _ ih => exact .cons leg (ih hthen)

/-- A task that never raises two of the three ways needs only the other obligations. -/
theorem Leg.of_aborting (hverdict : ∀ s e, A s → (task.act s).1 = .error e →
      task.verdict e = .abort)
    (forward : ∀ s, A s → (task.act s).1 = .ok () → B (task.act s).2)
    (aborts : ∀ s e, A s → (task.act s).1 = .error e → U (task.undo (task.act s).2))
    (back : ∀ s, V s → U (task.undo s)) : Leg task A U B V where
  forward := forward
  proceeds s e hs he hv := by simp [hverdict s e hs he] at hv
  compensates s e hs he hv := by simp [hverdict s e hs he] at hv
  aborts s e hs he _ := aborts s e hs he
  back := back

/-- A task that keeps both assertions, whatever it does. -/
theorem Leg.of_keeping (hact : ∀ s, A s → A (task.act s).2) (hundo : ∀ s, A s → A (task.undo s))
    (hback : ∀ s, U s → U (task.undo s)) (hAU : ∀ s, A s → U s) : Leg task A U A U where
  forward s hs _ := hact s hs
  proceeds s _ hs _ _ := ⟨hact s hs, fun _ h => h⟩
  compensates s _ hs _ _ := ⟨hundo _ (hact s hs), fun _ h => h⟩
  aborts s _ hs _ _ := hAU _ (hundo _ (hact s hs))
  back := hback

/-- The tasks already done do not matter to whether and how a run gets to its end; a run that
breaks off hands them a state in which they can be undone. -/
theorem Chain.run_done (hchain : Chain tasks A U B V) (done : List (Task σ ε)) (s : σ) (hs : A s) :
    ((run tasks done s).1 = true ∧ B (run tasks done s).2) ∨
      ((run tasks done s).1 = false ∧ ∃ t, U t ∧ (run tasks done s).2 = unwind done t) := by
  induction hchain generalizing done s with
  | nil A U => exact .inl ⟨rfl, hs⟩
  | @cons task tasks A U B V C W leg chain ih =>
    rw [run]
    cases he : (task.act s).1 with
    | ok _ =>
      rcases ih (task :: done) _ (leg.forward s hs he) with hend | ⟨hfalse, t, ht, heq⟩
      · exact .inl hend
      · exact .inr ⟨hfalse, _, leg.back t ht, heq⟩
    | error e =>
      cases hv : task.verdict e with
      | proceed =>
        obtain ⟨hB, hVU⟩ := leg.proceeds s e hs he hv
        rcases ih done _ hB with hend | ⟨hfalse, t, ht, heq⟩
        · exact .inl (by simpa [hv] using hend)
        · exact .inr ⟨by simpa [hv] using hfalse, t, hVU t ht, by simpa [hv] using heq⟩
      | compensate =>
        obtain ⟨hB, hVU⟩ := leg.compensates s e hs he hv
        rcases ih done _ hB with hend | ⟨hfalse, t, ht, heq⟩
        · exact .inl (by simpa [hv] using hend)
        · exact .inr ⟨by simpa [hv] using hfalse, t, hVU t ht, by simpa [hv] using heq⟩
      | abort => exact .inr ⟨by simp [hv], _, leg.aborts s e hs he hv, by simp [hv]⟩

/-- A run that gets to its end establishes the last assertion, one that breaks off goes all the
way back to the first. -/
theorem Chain.run (hchain : Chain tasks A U B V) (s : σ) (hs : A s) :
    ((run tasks [] s).1 = true → B (run tasks [] s).2) ∧
      ((run tasks [] s).1 = false → U (run tasks [] s).2) := by
  rcases hchain.run_done [] s hs with ⟨htrue, hB⟩ | ⟨hfalse, t, ht, heq⟩
  · exact ⟨fun _ => hB, fun h => absurd (htrue.symm.trans h) (by decide)⟩
  · exact ⟨fun h => absurd (hfalse.symm.trans h) (by decide), fun _ => heq ▸ ht⟩

end CompensatedRuns
