import SynOSStudio.InterruptiblePrograms.Success
import SynOSStudio.RecoveryEngine.Recovery

/-!
# Runs in which no operation fails

When the environment injects no fault, an operation has the effect that the world
gives it. The lemmas say what the shared steps of the engines do then.
-/

namespace RecoveryEngine

open InterruptiblePrograms

/-- The operation is not made to fail. -/
def Choice.Faultless (k : Choice) : Prop :=
  k.fault = none

/-- Without faults the computation succeeds exactly under a condition. -/
abbrev CompletesIff {ε α : Type} (condition : Prop) (good : α → World → Prop) (x : Action ε α)
    (w : World) : Prop :=
  SucceedsIff perform Choice.Faultless condition good x w

variable {ε α : Type} {w : World}

theorem orFault_of_faultless {k : Choice} (h : k.Faultless) (r : Except String α × World) :
    orFault k w r = r := by
  unfold orFault
  rw [h]

theorem utcNow_completes :
    CompletesIff True (fun now w' => now = w.clock.now ∧ w' = { w with clock := w.clock.tick })
      (utcNow : Action ε Timestamp) w := by
  refine succeedsIff_call fun k _ => ?_
  exact ⟨w.clock.now, rfl, rfl, rfl⟩

/-- A command on the volume that the volume accepts. -/
theorem disk_completes {op : DiskOp} {f : String → ε} {good : op.Result → World → Prop}
    (h : ∀ uuid text, ∃ a, (w.disk.effect uuid text op).1 = .ok a ∧
      good a { w with disk := (w.disk.effect uuid text op).2 }) :
    CompletesIff True good (Attempt.call (.disk op) (Except.mapError f) : Action ε op.Result) w := by
  refine succeedsIff_call fun k hk => ?_
  obtain ⟨a, ha, hgood⟩ := h k.uuid k.text
  have hperform : perform (.disk op) k w = w.diskEffect k op := orFault_of_faultless hk _
  rw [hperform]
  exact ⟨a, by simp only [World.diskEffect, ha, Except.mapError], hgood⟩

theorem record_completes {op : RecordOp} {f : String → ε} {good : op.Result → World → Prop}
    (h : ∃ a, (w.recordEffect op).1 = .ok a ∧ good a (w.recordEffect op).2) :
    CompletesIff True good
      (Attempt.call (.record op) (Except.mapError f) : Action ε op.Result) w := by
  refine succeedsIff_call fun k hk => ?_
  obtain ⟨a, ha, hgood⟩ := h
  have hperform : perform (.record op) k w = w.recordEffect op := orFault_of_faultless hk _
  rw [hperform, ha]
  exact ⟨a, rfl, hgood⟩

/-- Without faults a lock operation has its effect. -/
theorem perform_lock_of_faultless {k : Choice} (hk : k.Faultless) (op : LockOp) :
    perform (.lock op) k w = w.lockEffect op := by
  show lockOrFault k w op = _
  unfold lockOrFault
  split_ifs
  · exact orFault_of_faultless hk _
  · rfl

theorem realDirectory_completes (name : String) :
    CompletesIff True (fun present w' => present = (w.disk.top name).isSome ∧ w = w')
      (Recovery.realDirectory name) w :=
  disk_completes fun _ _ => ⟨_, rfl, rfl, rfl⟩

theorem loadPending_completes (h : ∀ t ∈ w.pending, t.Valid) :
    CompletesIff True (fun found w' => found = w.pending ∧ w = w')
      TransactionStore.loadPending w := by
  have hload : CompletesIff True (fun found w' => found = w.pending ∧ w = w')
      (Attempt.call (.rollback .load)
        (Except.mapError (TransactionStore.ioError "Could not inspect rollback transaction")) :
          Action TransactionError (Option RollbackTransaction)) w := by
    refine succeedsIff_call fun k hk => ?_
    have hperform : perform (.rollback .load) k w = (.ok w.pending, w) := orFault_of_faultless hk _
    rw [hperform]
    exact ⟨w.pending, rfl, rfl, rfl⟩
  refine hload.then ?_
  rintro found w' ⟨rfl, rfl⟩
  cases hp : w.pending with
  | none => exact succeedsIff_pure ⟨rfl, rfl⟩
  | some t =>
    exact succeedsIff_passed ((RollbackTransaction.validate_eq_ok t).mpr (h t hp))
      (succeedsIff_pure ⟨rfl, rfl⟩)

theorem update_completes {t : RollbackTransaction} (hpending : w.pending.isSome) (hvalid : t.Valid) :
    CompletesIff True (fun _ w' => w' = { w with pending := some t })
      (TransactionStore.update t) w := by
  refine succeedsIff_passed ((RollbackTransaction.validate_eq_ok t).mpr hvalid) ?_
  refine succeedsIff_call fun k hk => ?_
  obtain ⟨t₀, ht₀⟩ := Option.isSome_iff_exists.mp hpending
  have hperform : perform (.rollback (.replace t)) k w =
      (.ok true, { w with pending := some t }) := by
    rw [show perform (.rollback (.replace t)) k w = w.rollbackEffect (.replace t) from
      orFault_of_faultless hk _]
    simp only [World.rollbackEffect, ht₀]
    rfl
  rw [hperform]
  exact ⟨(), rfl, rfl⟩

end RecoveryEngine
