import SynOSStudio.InterruptiblePrograms.Interleaving
import SynOSStudio.RecoveryEngine.PackageHook

/-!
# Concurrent calls

Any number of engine calls over one store. Each of their operations is one step of an
interleaving; an operation that waits for the start lock can only happen when no other
call holds it. The shared state records who holds which lock and which steps were taken.
-/

namespace RecoveryEngine

open InterruptiblePrograms

namespace ConcurrentCalls

section Calls

/-- A call of an engine, with the random identifiers that it draws. -/
inductive Call where
  | schedule (target : DeploymentId) (id : RollbackId) (fallback : DeploymentId)
  | cancel
  | beforePackages (policy : AptSnapshotPolicy) (ids : PackageIds)
  | afterPackages (policy : AptSnapshotPolicy) (id : DeploymentId)
  | delete (layout : LayoutSupport) (id : DeploymentId)
  | deleteAutomatic (layout : LayoutSupport) (id : DeploymentId) (minimum : ℕ)

/-- What a call returns, as far as it is of interest. -/
inductive CallResult where
  | scheduled (result : Except RollbackError RollbackTransaction)
  | finished

def Call.program : Call → Prog HostOp HostOp.Ans CallResult
  | .schedule target id fallback =>
    (Rollback.schedule target id fallback).run >>= fun r => pure (.scheduled r)
  | .cancel => Rollback.cancel.run >>= fun _ => pure .finished
  | .beforePackages policy ids =>
    (PackageHook.beforePackages policy ids).run >>= fun _ => pure .finished
  | .afterPackages policy id =>
    (PackageHook.afterPackages policy id).run >>= fun _ => pure .finished
  | .delete layout id => (Operations.delete layout id).run >>= fun _ => pure .finished
  | .deleteAutomatic layout id minimum =>
    (Operations.deleteAutomatic layout id minimum).run >>= fun _ => pure .finished

/-- The identifier of the transaction that a call may publish. -/
def Call.transactionId : Call → Option RollbackId
  | .schedule _ id _ => some id
  | _ => none

/-- The identifier of the snapshot that a call may create. -/
def Call.drawn : Call → Option DeploymentId
  | .schedule _ _ fallback => some fallback
  | .beforePackages _ ids => some ids.deployment
  | .afterPackages _ id => some id
  | _ => none

end Calls

/-- Early boot has not yet begun to apply the transaction. -/
def Waiting (t : RollbackTransaction) : Prop :=
  t.phase = .preparing ∨ t.phase = .armed

section Sharing

variable {ι : Type}

/-- One step: who took it, what it was, and the worlds around it. -/
structure Event (ι : Type) where
  thread : ι
  op : HostOp
  before : World
  after : World

/-- The world with the holders of its locks, the snapshots that had a record when the
operation lock was last released, and all steps so far. -/
structure Shared (ι : Type) where
  world : World
  startHolder : Option ι
  operationHolder : Option ι
  settled : List DeploymentId
  trace : List (Event ι)

def startHolderAfter (i : ι) : (op : HostOp) → op.Ans → Option ι → Option ι
  | .lock .acquireStart, .ok _, _ => some i
  | .lock .releaseStart, _, _ => none
  | _, _, holder => holder

def operationHolderAfter (i : ι) : (op : HostOp) → op.Ans → Option ι → Option ι
  | .lock .acquireOperation, .ok true, _ => some i
  | .lock .releaseOperation, _, _ => none
  | _, _, holder => holder

def settledAfter (w : World) : HostOp → List DeploymentId → List DeploymentId
  | .lock .releaseOperation, settled => settled ++ w.records.map DeploymentRecord.id
  | _, settled => settled

def handle (i : ι) (op : HostOp) (k : Choice) (s : Shared ι) : op.Ans × Shared ι :=
  ((perform op k s.world).1,
    { world := (perform op k s.world).2
      startHolder := startHolderAfter i op (perform op k s.world).1 s.startHolder
      operationHolder := operationHolderAfter i op (perform op k s.world).1 s.operationHolder
      settled := settledAfter s.world op s.settled
      trace := s.trace ++ [⟨i, op, s.world, (perform op k s.world).2⟩] })

/-- Taking the start lock waits for its holder, unless it fails before it waits. -/
def enabled : HostOp → Choice → Shared ι → Prop
  | .lock .acquireStart, k, s => k.fault.isSome ∨ s.startHolder = none
  | _, _, _ => True

/-- Whether an operation is enabled, evaluated. -/
def isEnabled : HostOp → Choice → Shared ι → Bool
  | .lock .acquireStart, k, s => k.fault.isSome || s.startHolder.isNone
  | _, _, _ => true

theorem isEnabled_iff (op : HostOp) (k : Choice) (s : Shared ι) :
    isEnabled op k s = true ↔ enabled op k s := by
  unfold isEnabled enabled
  split <;> simp

instance (op : HostOp) (k : Choice) (s : Shared ι) : Decidable (enabled op k s) :=
  decidable_of_iff _ (isEnabled_iff op k s)

def machine : Machine ι HostOp HostOp.Ans Choice (Shared ι) where
  handle := handle
  enabled := enabled

instance (op : HostOp) (k : Choice) (s : Shared ι) : Decidable (machine.enabled op k s) :=
  inferInstanceAs (Decidable (enabled op k s))

/-- The calls before any of them has taken a step. -/
def start (calls : ι → Call) (w : World) :
    Config ι HostOp HostOp.Ans CallResult (Shared ι) where
  threads i := (calls i).program
  state :=
    { world := w
      startHolder := none
      operationHolder := none
      settled := w.records.map DeploymentRecord.id
      trace := [] }

end Sharing

section Locking

variable {ι ε α : Type} {P : Protocol ι HostOp Choice (Shared ι)} {i : ι}

/-- To run under a lock: what holds before gives what holds under the lock, and what the body
leaves is still there when the lock is released. -/
theorem safe_withLock {acquire release : LockOp} {view : Except String acquire.Result → Except ε Unit}
    {body : Action ε α} {before inside : Shared ι → Prop} {during after : Except ε α → Shared ι → Prop}
    (hbefore : P.Stable i before) (hinside : P.Stable i inside)
    (hduring : ∀ r, P.Stable i (during r)) (hafter : ∀ r, P.Stable i (after r))
    (hacquire : ∀ s k, P.invariant s → before s → enabled (.lock acquire) k s →
      P.invariant (handle i (.lock acquire) k s).2 ∧
        P.guarantee i s (handle i (.lock acquire) k s).2 ∧
        match view (handle i (.lock acquire) k s).1 with
        | .ok _ => inside (handle i (.lock acquire) k s).2
        | .error e => after (.error e) (handle i (.lock acquire) k s).2)
    (hbody : ∀ s, inside s → Safe machine P i body.run during s)
    (hrelease : ∀ r s k, P.invariant s → during r s →
      P.invariant (handle i (.lock release) k s).2 ∧
        P.guarantee i s (handle i (.lock release) k s).2 ∧ after r (handle i (.lock release) k s).2)
    {s : Shared ι} (h : before s) :
    Safe machine P i (Operations.withLock (Attempt.call (.lock acquire) view) release body).run
      after s := by
  refine safe_attempt_bind (safe_attempt_call hbefore h fun s₁ hinv h₁ k henabled _ => ?_)
  obtain ⟨hinv₁, hguarantee, hanswer⟩ := hacquire s₁ k hinv h₁ henabled
  refine ⟨hinv₁, hguarantee, fun s₂ hrely hinv₂ => ?_⟩
  have hview : view (machine.handle i (.lock acquire) k s₁).1 =
      view (handle i (.lock acquire) k s₁).1 := rfl
  rw [hview]
  cases hv : view (handle i (.lock acquire) k s₁).1 with
  | error e =>
    rw [hv] at hanswer
    have hleft := hafter _ _ _ hrely hinv₂ hanswer
    exact fun s₃ hrely₃ hinv₃ => hafter _ _ _ hrely₃ hinv₃ hleft
  | ok u =>
    rw [hv] at hanswer
    refine safe_attempt_bind (safe_outcome ((hbody s₂ (hinside _ _ hrely hinv₂ hanswer)).mono
      fun r s₃ _ h₃ s₄ hrely₄ hinv₄ => ?_))
    refine safe_attempt_bind (safe_attempt_call (hduring r) (hduring r _ _ hrely₄ hinv₄ h₃)
      fun s₅ hinv₅ h₅ k₅ _ _ => ?_)
    obtain ⟨hinv₆, hguarantee₆, hlast⟩ := hrelease r s₅ k₅ hinv₅ h₅
    exact ⟨hinv₆, hguarantee₆, fun s₆ hrely₆ hinv₆ =>
      safe_ofExcept hafter (hafter r _ _ hrely₆ hinv₆ hlast)⟩

end Locking

end ConcurrentCalls

end RecoveryEngine
