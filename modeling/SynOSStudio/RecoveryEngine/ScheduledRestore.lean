import Mathlib.Data.List.DropRight
import SynOSStudio.RecoveryEngine.ConcurrentCalls
import SynOSStudio.RecoveryEngine.SnapshotScope
import SynOSStudio.RecoveryEngine.RollbackSafety.Boots

/-!
# Scheduled restores among concurrent calls

A call that schedules a restore cleans up after a failure by clearing the one-shot entry
and removing the pending transaction, without looking whose they are. The theorem says
what holds in every interleaving in which no such step meets the transaction or the
entry of another call.
-/

namespace RecoveryEngine

open InterruptiblePrograms ConcurrentCalls

namespace ScheduledRestore

variable {ι : Type}

section Statement

variable (calls : ι → Call) (i : ι)

/-- The transaction is the one that the call publishes. -/
def Own (t : RollbackTransaction) : Prop :=
  (calls i).transactionId = some t.id

instance (t : RollbackTransaction) : Decidable (Own calls i t) :=
  inferInstanceAs (Decidable (_ = _))

/-- The pending transaction, unless the call has published it. -/
def others (w : World) : Option RollbackTransaction :=
  w.pending.filter fun t => decide (¬ Own calls i t)

/-- No step of a scheduling call meets what another call has left: its update and its
selection of the entry do not find the transaction of another call, and its cleanup finds no
entry to clear, removes its own transaction and no other. A step that fails does nothing. -/
def Undisturbed (op : HostOp) (k : Choice) (s : Shared ι) : Prop :=
  match calls i, op with
  | .schedule _ id _, .rollback (.replace _) =>
    k.fault.isSome ∨ ∀ t ∈ s.world.pending, t.id = id
  | .schedule _ id _, .boot .armOnce =>
    k.fault.isSome ∨ ∀ t ∈ s.world.pending, t.id = id
  | .schedule _ _ _, .boot .clearOnce =>
    k.fault.isSome ∨ s.world.boot.nextEntry = none
  | .schedule _ id _, .rollback .remove =>
    ∀ t ∈ s.world.pending, t.id = id ↔ k.fault = none
  | _, _ => True

/-- A step by which a `cancel` call takes a scheduled restore back. -/
def CancelAct (e : Event ι) : Prop :=
  match calls e.thread, e.op with
  | .cancel, .boot .clearOnce | .cancel, .rollback .remove => True
  | _, _ => False

/-- The steps since the last step of a call. -/
def since [DecidableEq ι] (trace : List (Event ι)) : List (Event ι) :=
  trace.rtakeWhile fun e => decide (e.thread ≠ i)

/-- The call neither changed the one-shot entry nor the transaction of another call, and
its own transaction is not pending. -/
def LeftAsFound (s : Shared ι) : Prop :=
  (∀ t ∈ s.world.pending, ¬ Own calls i t) ∧
    ∀ e ∈ s.trace, e.thread = i →
      e.after.boot.nextEntry = e.before.boot.nextEntry ∧
        others calls i e.after = others calls i e.before

/-- The transaction is pending and its entry is selected for the next boot. -/
def Scheduled (t : RollbackTransaction) (w : World) : Prop :=
  w.pending = some t ∧ w.boot.nextEntry = some t.grubEntryId

/-- No two calls draw the same transaction identifier. -/
def Distinct : Prop :=
  ∀ i j t, Own calls i t → Own calls j t → i = j

/-- The identifiers are fresh, and no two transactions are pending. -/
structure Initial (w : World) : Prop where
  distinct : Distinct calls
  fresh : ∀ t ∈ w.pending, ∀ i, ¬ Own calls i t
  one : w.pending = none ∨ w.package = none

end Statement

section Rules

variable {calls : ι → Call} {i j : ι} {s s' : Shared ι} {w w' : World}

theorem others_eq_some {t : RollbackTransaction} :
    others calls i w = some t ↔ w.pending = some t ∧ ¬ Own calls i t := by
  simp [others, Option.filter_eq_some_iff]

/-- What one step of a call does to the shared state. -/
structure Respects (calls : ι → Call) (i : ι) (s s' : Shared ι) : Prop where
  event : ∃ op, s'.trace = s.trace ++ [⟨i, op, s.world, s'.world⟩] ∧
    (¬ CancelAct calls ⟨i, op, s.world, s'.world⟩ →
      others calls i s'.world = others calls i s.world ∧
        (s'.world.boot.nextEntry = s.world.boot.nextEntry ∨ ∃ t ∈ s.world.pending, Own calls i t))
  published : ∀ t, s'.world.pending = some t → ¬ Own calls i t → s.world.pending = some t
  holder : s'.startHolder = s.startHolder ∨
    (s.startHolder = none ∧ s'.startHolder = some i) ∨
      (s.startHolder = some i ∧ s'.startHolder = none)
  begins : s.world.pending = none → s'.world.pending ≠ none → s.startHolder = some i
  beginsPackage : s.world.package = none → s'.world.package ≠ none → s.startHolder = some i

/-- What a call may expect of the steps of the others. -/
structure Expects (calls : ι → Call) (i : ι) (s s' : Shared ι) : Prop where
  trace : ∃ events, s'.trace = s.trace ++ events ∧ (∀ e ∈ events, e.thread ≠ i) ∧
    ∀ t, Own calls i t → Scheduled t s.world → (∀ e ∈ events, ¬ CancelAct calls e) →
      Scheduled t s'.world
  own : ∀ t, Own calls i t → s'.world.pending = some t → s.world.pending = some t
  held : s.startHolder = some i → s'.startHolder = some i ∧
    (s.world.pending = none → s'.world.pending = none) ∧
    (s.world.package = none → s'.world.package = none)

theorem Expects.refl (s : Shared ι) : Expects calls i s s where
  trace := ⟨[], by simp, by simp, fun _ _ h _ => h⟩
  own := fun _ _ h => h
  held := fun h => ⟨h, id, id⟩

theorem Expects.trans {s'' : Shared ι} (h : Expects calls i s s') (h' : Expects calls i s' s'') :
    Expects calls i s s'' where
  trace := by
    obtain ⟨events, htrace, hothers, hkept⟩ := h.trace
    obtain ⟨events', htrace', hothers', hkept'⟩ := h'.trace
    refine ⟨events ++ events', by rw [htrace', htrace, List.append_assoc], ?_, ?_⟩
    · intro e he
      rcases List.mem_append.mp he with he | he
      · exact hothers e he
      · exact hothers' e he
    · intro t ht hscheduled hno
      refine hkept' t ht (hkept t ht hscheduled fun e he => ?_) fun e he => ?_
      · exact hno e (List.mem_append_left _ he)
      · exact hno e (List.mem_append_right _ he)
  own := fun t ht hpending => h.own t ht (h'.own t ht hpending)
  held := by
    intro hheld
    obtain ⟨hheld', hpending, hpackage⟩ := h.held hheld
    obtain ⟨hheld'', hpending', hpackage'⟩ := h'.held hheld'
    exact ⟨hheld'', fun hnone => hpending' (hpending hnone), fun hnone => hpackage' (hpackage hnone)⟩

/-- A step of one call is within what every other call expects. -/
theorem Respects.expects (hdistinct : Distinct calls) (hne : i ≠ j) (h : Respects calls j s s') :
    Expects calls i s s' where
  trace := by
    obtain ⟨op, htrace, hkept⟩ := h.event
    refine ⟨[⟨j, op, s.world, s'.world⟩], htrace, by simpa using hne.symm, ?_⟩
    rintro t ht ⟨hpending, hentry⟩ hno
    have hforeign : ¬ Own calls j t := fun hj => hne (hdistinct i j t ht hj)
    obtain ⟨hothers, hentry'⟩ := hkept (hno _ (by simp))
    have hsame : others calls j s'.world = some t :=
      hothers.trans (others_eq_some.mpr ⟨hpending, hforeign⟩)
    refine ⟨(others_eq_some.mp hsame).1, ?_⟩
    rcases hentry' with hentry' | ⟨t', ht', hown⟩
    · exact hentry'.trans hentry
    · rw [hpending] at ht'
      cases ht'
      exact absurd hown hforeign
  own := fun t ht hpending => h.published t hpending fun hj => hne (hdistinct i j t ht hj)
  held := by
    intro hheld
    have hother : s.startHolder ≠ some j := by
      rw [hheld]
      exact fun he => hne (Option.some_inj.mp he)
    refine ⟨?_, fun hnone => ?_, fun hnone => ?_⟩
    · rcases h.holder with hsame | ⟨hfree, -⟩ | ⟨hj, -⟩
      · exact hsame.trans hheld
      · rw [hheld] at hfree
        cases hfree
      · exact absurd hj hother
    · by_contra hsome
      exact hother (h.begins hnone hsome)
    · by_contra hsome
      exact hother (h.beginsPackage hnone hsome)

/-- At most one transaction is pending, of whichever kind. -/
def OnePending (s : Shared ι) : Prop :=
  s.world.pending = none ∨ s.world.package = none

def protocol (hdistinct : Distinct calls) : Protocol ι HostOp Choice (Shared ι) where
  invariant := OnePending
  admissible := Undisturbed calls
  rely := Expects calls
  guarantee := Respects calls
  rely_refl := fun _ s => .refl s
  rely_trans := fun h h' => h.trans h'
  rely_of_guarantee := fun hne _ h => h.expects hdistinct hne

end Rules

section Assertions

variable {calls : ι → Call} {i : ι} {s s' : Shared ι}

/-- No step of the call so far has changed the entry or the transaction of another call. -/
def Harmless (calls : ι → Call) (i : ι) (s : Shared ι) : Prop :=
  ∀ e ∈ s.trace, e.thread = i →
    e.after.boot.nextEntry = e.before.boot.nextEntry ∧
      others calls i e.after = others calls i e.before

/-- The steps so far were harmless, and only `possible` can be pending of what is the call's
own. -/
structure Slot (calls : ι → Call) (i : ι) (possible : Option RollbackTransaction)
    (s : Shared ι) : Prop where
  own : ∀ t, Own calls i t → s.world.pending = some t → possible = some t
  harmless : Harmless calls i s

/-- The call holds the start lock. -/
def Held (i : ι) (s : Shared ι) : Prop :=
  s.startHolder = some i

theorem Slot.leftAsFound (h : Slot calls i none s) : LeftAsFound calls i s := by
  refine ⟨fun t hpending hown => ?_, h.harmless⟩
  cases h.own t hown hpending

theorem Slot.of_expects {possible : Option RollbackTransaction} (h : Slot calls i possible s)
    (hexpects : Expects calls i s s') : Slot calls i possible s' where
  own := fun t ht hpending => h.own t ht (hexpects.own t ht hpending)
  harmless := by
    obtain ⟨events, htrace, hothers, -⟩ := hexpects.trace
    intro e he hthread
    rw [htrace] at he
    rcases List.mem_append.mp he with he | he
    · exact h.harmless e he hthread
    · exact absurd hthread (hothers e he)

/-- A step of the call that leaves the pending transactions and the entry as they are. -/
structure Unwritten (i : ι) (op : HostOp) (s s' : Shared ι) : Prop where
  pending : s'.world.pending = s.world.pending
  package : s'.world.package = s.world.package
  entry : s'.world.boot.nextEntry = s.world.boot.nextEntry
  trace : s'.trace = s.trace ++ [⟨i, op, s.world, s'.world⟩]

variable {op : HostOp}

theorem Unwritten.others (h : Unwritten i op s s') :
    others calls i s'.world = others calls i s.world := by
  unfold ScheduledRestore.others
  rw [h.pending]

theorem Unwritten.onePending (h : Unwritten i op s s') (hone : OnePending s) : OnePending s' := by
  unfold OnePending
  rwa [h.pending, h.package]

theorem Unwritten.respects (h : Unwritten i op s s')
    (hholder : s'.startHolder = s.startHolder ∨ (s.startHolder = none ∧ s'.startHolder = some i) ∨
      (s.startHolder = some i ∧ s'.startHolder = none)) : Respects calls i s s' where
  event := ⟨op, h.trace, fun _ => ⟨h.others, .inl h.entry⟩⟩
  published := fun _ hpending _ => h.pending ▸ hpending
  holder := hholder
  begins := fun hnone hsome => absurd (h.pending.trans hnone) hsome
  beginsPackage := fun hnone hsome => absurd (h.package.trans hnone) hsome

/-- A harmless step keeps the earlier steps harmless. -/
theorem Harmless.append (h : Harmless calls i s)
    (htrace : s'.trace = s.trace ++ [⟨i, op, s.world, s'.world⟩])
    (hentry : s'.world.boot.nextEntry = s.world.boot.nextEntry)
    (hothers : ScheduledRestore.others calls i s'.world = ScheduledRestore.others calls i s.world) :
    Harmless calls i s' := by
  intro e he hthread
  rw [htrace] at he
  rcases List.mem_append.mp he with he | he
  · exact h e he hthread
  · rw [List.mem_singleton] at he
    subst he
    exact ⟨hentry, hothers⟩

theorem Unwritten.harmless (h : Unwritten i op s s') (hharmless : Harmless calls i s) :
    Harmless calls i s' :=
  hharmless.append h.trace h.entry h.others

theorem Unwritten.slot {possible : Option RollbackTransaction} (h : Unwritten i op s s')
    (hslot : Slot calls i possible s) : Slot calls i possible s' where
  own := fun t ht hpending => hslot.own t ht (h.pending ▸ hpending)
  harmless := h.harmless hslot.harmless

/-- The operations that write neither a pending transaction nor the entry, and leave the
start lock alone. -/
def Neutral : HostOp → Prop
  | .rollback .load | .package .load => True
  | .rollback _ | .package _ => False
  | .boot .armOnce | .boot .clearOnce => False
  | .lock .acquireStart | .lock .releaseStart => False
  | _ => True

/-- An operation that changes nothing in the world is of this kind. -/
theorem unwritten_of_world {k : Choice} (h : (perform op k s.world).2 = s.world) :
    Unwritten i op s (handle i op k s).2 where
  pending := by simp only [handle, h]
  package := by simp only [handle, h]
  entry := by simp only [handle, h]
  trace := rfl

/-- Only the generated menu can change. -/
theorem perform_boot_neutral {op : BootOp} (hop : Neutral (.boot op)) (k : Choice) (w : World) :
    ∃ menu, (perform (.boot op) k w).2 = { w with boot := { w.boot with menu := menu } } := by
  have heffect : ∃ menu, (w.bootEffect k op).2 = { w with boot := { w.boot with menu := menu } } := by
    cases op with
    | armOnce | clearOnce => cases hop
    | verifyGrubEntry t =>
      by_cases h : World.menuEntry w.boot.menu = some t.grubEntryId <;>
        simp only [World.bootEffect, h, if_true, if_false] <;> exact ⟨_, rfl⟩
    | _ => exact ⟨_, rfl⟩
  rcases orFault_world k w (w.bootEffect k op) with h | h
  · exact ⟨w.boot.menu, h⟩
  · exact heffect.imp fun _ he => h.trans he

theorem neutral_unwritten (hop : Neutral op) (k : Choice) (s : Shared ι) :
    Unwritten i op s (handle i op k s).2 ∧ (handle i op k s).2.startHolder = s.startHolder := by
  cases op with
  | now => exact ⟨⟨rfl, rfl, rfl, rfl⟩, rfl⟩
  | disk op =>
    obtain ⟨_, he⟩ := perform_disk k s.world op
    exact ⟨⟨by simp only [handle, he], by simp only [handle, he], by simp only [handle, he], rfl⟩,
      rfl⟩
  | record op =>
    obtain ⟨_, he⟩ := perform_record k s.world op
    exact ⟨⟨by simp only [handle, he], by simp only [handle, he], by simp only [handle, he], rfl⟩,
      rfl⟩
  | lineage mutation =>
    obtain ⟨_, he⟩ := perform_lineage k s.world mutation
    exact ⟨⟨by simp only [handle, he], by simp only [handle, he], by simp only [handle, he], rfl⟩,
      rfl⟩
  | cleanup op =>
    obtain ⟨_, he⟩ := perform_cleanup k s.world op
    exact ⟨⟨by simp only [handle, he], by simp only [handle, he], by simp only [handle, he], rfl⟩,
      rfl⟩
  | rollback op =>
    cases op with
    | load =>
      rcases orFault_world k s.world (s.world.rollbackEffect .load) with he | he <;>
        exact ⟨unwritten_of_world he, rfl⟩
    | _ => cases hop
  | package op =>
    cases op with
    | load =>
      rcases orFault_world k s.world (s.world.packageEffect .load) with he | he <;>
        exact ⟨unwritten_of_world he, rfl⟩
    | _ => cases hop
  | boot op =>
    obtain ⟨_, he⟩ := perform_boot_neutral hop k s.world
    exact ⟨⟨by simp only [handle, he], by simp only [handle, he], by simp only [handle, he], rfl⟩,
      rfl⟩
  | lock op =>
    obtain ⟨_, he⟩ := perform_lock k s.world op
    refine ⟨⟨by simp only [handle, he], by simp only [handle, he], by simp only [handle, he], rfl⟩,
      ?_⟩
    cases op with
    | acquireStart | releaseStart => cases hop
    | _ => rfl

end Assertions

section NeutralPrograms

variable {α ε : Type}

theorem Neutral.of_reading {op : HostOp} (h : Operations.Reading op) : Neutral op := by
  cases op with
  | rollback op =>
    cases op with
    | load => trivial
    | _ => cases h
  | package op =>
    cases op with
    | load => trivial
    | _ => cases h
  | boot op => cases h
  | lock op => cases h
  | _ => trivial

theorem neutral_of_reading {p : Prog HostOp HostOp.Ans α} (h : Within Operations.Reading p) :
    Within Neutral p :=
  h.mono fun _ => Neutral.of_reading

theorem neutral_of_confined {id : DeploymentId} {p : Prog HostOp HostOp.Ans α}
    (h : Within (Operations.Confined id) p) : Within Neutral p := by
  refine h.mono fun op hop => ?_
  cases op with
  | rollback op =>
    cases op with
    | load => trivial
    | _ => cases hop
  | package op =>
    cases op with
    | load => trivial
    | _ => cases hop
  | boot op =>
    cases op with
    | armOnce | clearOnce => cases hop
    | _ => trivial
  | lock op =>
    cases op with
    | acquireStart | releaseStart => cases hop
    | _ => trivial
  | _ => trivial

theorem neutral_withOperationLock {body : Action OperationError α} (h : Within Neutral body.run) :
    Within Neutral (Operations.withOperationLock body).run :=
  within_attempt_bind (within_call _ trivial) fun _ =>
    within_attempt_bind (within_outcome h) fun _ =>
    within_attempt_bind (within_call _ trivial) fun _ => within_ofExcept _

theorem neutral_createSnapshot (layout : LayoutSupport) (id : DeploymentId)
    (request : Operations.SnapshotRequest) :
    Within Neutral (Operations.createSnapshot layout id request).run :=
  within_attempt_bind (within_ofExcept _) fun _ =>
    within_attempt_bind (within_call _ trivial) fun _ =>
    within_attempt_bind (within_call _ trivial) fun _ =>
    neutral_withOperationLock (within_attempt_bind (within_call _ trivial) fun _ =>
      neutral_of_confined (Operations.confined_createSnapshotLocked request _))

theorem neutral_loadRollback : Within Neutral TransactionStore.loadPending.run :=
  neutral_of_reading Operations.reading_loadRollback

theorem neutral_loadPackage : Within Neutral PackageTransactionStore.loadPending.run :=
  neutral_of_reading Operations.reading_loadPackage

theorem neutral_inspectLayout : Within Neutral (Rollback.inspectLayout : Action ε LayoutReport).run :=
  within_call _ trivial

theorem neutral_verifyTarget (id : DeploymentId) : Within Neutral (Rollback.verifyTarget id).run := by
  have hverify : ∀ layout, Within Neutral (Operations.verify layout id).run := fun layout =>
    within_attempt_bind (within_ofExcept _) fun _ =>
      within_attempt_bind (within_call _ trivial) fun _ =>
      neutral_withOperationLock (neutral_of_reading Operations.reading_verifyLocked)
  exact within_attempt_bind neutral_inspectLayout fun report =>
    within_attempt_bind (within_mapError (hverify report.support)) fun _ =>
    within_attempt_bind (within_call _ trivial) fun _ => within_pure _

theorem neutral_prepare (id : DeploymentId) : Within Neutral (Rollback.prepare id).run := by
  have hpackage : Within Neutral Rollback.packageTransactionPending.run :=
    within_attempt_bind (within_mapError neutral_loadPackage) fun _ => within_pure _
  have huuid : ∀ report, Within Neutral (Rollback.rootFilesystemUuid report).run := fun _ =>
    within_attempt_bind (within_ofExcept _) fun _ =>
      within_attempt_bind (within_call _ trivial) fun _ => within_ofExcept _
  exact within_attempt_bind (within_mapError neutral_loadRollback) fun _ =>
    within_attempt_bind (within_ofExcept _) fun _ =>
    within_attempt_bind hpackage fun _ =>
    within_attempt_bind (within_ofExcept _) fun _ =>
    within_attempt_bind neutral_inspectLayout fun report =>
    within_attempt_bind (within_ofExcept _) fun _ =>
    within_attempt_bind (neutral_verifyTarget id) fun _ =>
    within_attempt_bind (within_ofExcept _) fun _ =>
    within_attempt_bind (huuid report) fun _ =>
    within_attempt_bind (within_call _ trivial) fun _ =>
    within_attempt_bind (within_call _ trivial) fun _ => within_pure _

theorem neutral_createFallback (id : DeploymentId) :
    Within Neutral (Rollback.createFallback id).run :=
  within_attempt_bind neutral_inspectLayout fun _ =>
    within_mapError (neutral_createSnapshot _ _ _)

end NeutralPrograms

section Safety

variable {calls : ι → Call} {hdistinct : Distinct calls} {i : ι} {s : Shared ι}
variable {α β ε : Type} {possible : Option RollbackTransaction}

/-- The call is safe whatever the other calls do. -/
abbrev CallSafe (hdistinct : Distinct calls) (i : ι) (p : Prog HostOp HostOp.Ans α)
    (post : α → Shared ι → Prop) (s : Shared ι) : Prop :=
  Safe machine (protocol hdistinct) i p post s

theorem stable_slot : (protocol hdistinct).Stable i (Slot calls i possible) :=
  fun _ _ hexpects _ h => h.of_expects hexpects

/-- An assertion that no neutral step of the call and no other call makes false. -/
structure Lasting (hdistinct : Distinct calls) (i : ι) (assertion : Shared ι → Prop) : Prop where
  stable : (protocol hdistinct).Stable i assertion
  kept : ∀ op k s, Neutral op → assertion s → assertion (handle i op k s).2

theorem lasting_true : Lasting hdistinct i fun _ => True :=
  ⟨fun _ _ _ _ _ => trivial, fun _ _ _ _ _ => trivial⟩

theorem lasting_held : Lasting hdistinct i (Held i) where
  stable := fun _ _ hexpects _ h => (hexpects.held h).1
  kept := fun _ k s hop h => ((neutral_unwritten hop k s).2).trans h

/-- Under the start lock no transaction of either kind begins. -/
theorem lasting_noPending :
    Lasting hdistinct i fun s => Held i s ∧ s.world.pending = none where
  stable := fun _ _ hexpects _ h => ⟨(hexpects.held h.1).1, (hexpects.held h.1).2.1 h.2⟩
  kept := fun _ k s hop h => ⟨((neutral_unwritten hop k s).2).trans h.1,
    ((neutral_unwritten hop k s).1.pending (i := i)).trans h.2⟩

theorem lasting_noPackage :
    Lasting hdistinct i fun s => Held i s ∧ s.world.package = none where
  stable := fun _ _ hexpects _ h => ⟨(hexpects.held h.1).1, (hexpects.held h.1).2.2 h.2⟩
  kept := fun _ k s hop h => ⟨((neutral_unwritten hop k s).2).trans h.1,
    ((neutral_unwritten hop k s).1.package (i := i)).trans h.2⟩

theorem safe_neutral {extra : Shared ι → Prop} (hextra : Lasting hdistinct i extra)
    {p : Prog HostOp HostOp.Ans α} (hp : Within Neutral p) (h : Slot calls i possible s ∧ extra s) :
    CallSafe hdistinct i p (fun _ s => Slot calls i possible s ∧ extra s) s := by
  refine Safe.of_within (fun s s' hexpects hone h => ?_) (fun op k s hop _ _ hone h => ?_) hp h
  · exact ⟨h.1.of_expects hexpects, hextra.stable s s' hexpects hone h.2⟩
  · obtain ⟨hunwritten, hholder⟩ := neutral_unwritten (i := i) hop k s
    exact ⟨hunwritten.onePending hone, hunwritten.respects (.inl hholder),
      hunwritten.slot h.1, hextra.kept op k s hop h.2⟩

/-- Taking the start lock fails without effect or makes the call its holder. -/
theorem acquireStart_cases (i : ι) (k : Choice) (s : Shared ι) :
    Unwritten i (.lock .acquireStart) s (handle i (.lock .acquireStart) k s).2 ∧
      ((∃ e, (handle i (.lock .acquireStart) k s).1 = .error e ∧
          (handle i (.lock .acquireStart) k s).2.startHolder = s.startHolder) ∨
        (k.fault = none ∧ (handle i (.lock .acquireStart) k s).1 = .ok () ∧
          Held i (handle i (.lock .acquireStart) k s).2)) := by
  obtain ⟨_, he⟩ := perform_lock k s.world .acquireStart
  refine ⟨⟨by simp only [handle, he], by simp only [handle, he], by simp only [handle, he], rfl⟩, ?_⟩
  have hperform : perform (.lock .acquireStart) k s.world =
      orFault k s.world (s.world.lockEffect .acquireStart) := rfl
  cases hk : k.fault with
  | some e =>
    simp only [orFault, hk] at hperform
    refine .inl ⟨e, ?_, ?_⟩
    · simp only [handle, hperform]
      rfl
    · simp only [handle, hperform]
      rfl
  | none =>
    simp only [orFault, hk] at hperform
    refine .inr ⟨rfl, ?_, ?_⟩
    · simp only [handle, hperform]
      rfl
    · simp only [Held, handle, hperform]
      rfl

theorem releaseStart_unwritten (i : ι) (k : Choice) (s : Shared ι) :
    Unwritten i (.lock .releaseStart) s (handle i (.lock .releaseStart) k s).2 ∧
      (handle i (.lock .releaseStart) k s).2.startHolder = none :=
  ⟨⟨rfl, rfl, rfl, rfl⟩, rfl⟩

/-- Run under the start lock. `possible` says what the call may have published by then. -/
theorem safe_withStartLock {view : Except String Unit → Except ε Unit}
    {body : Action ε α} {published : Except ε α → Option RollbackTransaction}
    (hview : ∀ e, ∃ e', view (.error e) = .error e') (hok : view (.ok ()) = .ok ())
    (herror : ∀ e, published (.error e) = none)
    (hbody : ∀ s, Slot calls i none s → Held i s → CallSafe hdistinct i body.run
      (fun r s => Slot calls i (published r) s ∧ Held i s) s)
    (h : Slot calls i none s) :
    CallSafe hdistinct i
      (Operations.withLock (Attempt.call (.lock .acquireStart) view) .releaseStart body).run
      (fun r s => Slot calls i (published r) s) s := by
  refine safe_attempt_bind (safe_attempt_call stable_slot h fun s₁ hone hslot k henabled _ => ?_)
  obtain ⟨hunwritten, hcases⟩ := acquireStart_cases i k s₁
  have hslot' := hunwritten.slot hslot
  rcases hcases with ⟨e, hanswer, hholder⟩ | ⟨hfault, hanswer, hheld⟩
  · refine ⟨hunwritten.onePending hone, hunwritten.respects (.inl hholder), fun s₂ hexpects _ => ?_⟩
    obtain ⟨e', he'⟩ := hview e
    rw [show view (machine.handle i (.lock .acquireStart) k s₁).1 = .error e' from
      (congrArg view hanswer).trans he']
    intro s₃ hexpects' _
    rw [herror]
    exact (hslot'.of_expects hexpects).of_expects hexpects'
  · have hfree : s₁.startHolder = none := by
      rcases henabled with hsome | hfree
      · rw [hfault] at hsome
        cases hsome
      · exact hfree
    refine ⟨hunwritten.onePending hone, hunwritten.respects (.inr (.inl ⟨hfree, hheld⟩)),
      fun s₂ hexpects _ => ?_⟩
    rw [show view (machine.handle i (.lock .acquireStart) k s₁).1 = .ok () from
      (congrArg view hanswer).trans hok]
    refine safe_attempt_bind (safe_outcome ?_)
    refine (hbody s₂ (hslot'.of_expects hexpects) (hexpects.held hheld).1).mono
      fun r s₃ _ hr s₄ hexpects₄ hone₄ => ?_
    have hboth : Slot calls i (published r) s₄ ∧ Held i s₄ :=
      ⟨hr.1.of_expects hexpects₄, (hexpects₄.held hr.2).1⟩
    have hstable : (protocol hdistinct).Stable i fun s => Slot calls i (published r) s ∧ Held i s :=
      fun s s' hexpects hone h => ⟨h.1.of_expects hexpects, (hexpects.held h.2).1⟩
    refine safe_attempt_bind (safe_attempt_call hstable hboth fun s₅ hone₅ hboth₅ k₅ _ _ => ?_)
    obtain ⟨hreleased, hfree⟩ := releaseStart_unwritten i k₅ s₅
    refine ⟨hreleased.onePending hone₅, hreleased.respects (.inr (.inr ⟨hboth₅.2, hfree⟩)),
      fun s₆ hexpects₆ _ => ?_⟩
    exact safe_ofExcept (fun _ => stable_slot) ((hreleased.slot hboth₅.1).of_expects hexpects₆)

end Safety

section Publishing

variable {calls : ι → Call} {hdistinct : Distinct calls} {i : ι} {s : Shared ι}
variable {t : RollbackTransaction} {possible : Option RollbackTransaction}

theorem stable_of_lasting {extra : Shared ι → Prop} (hextra : Lasting hdistinct i extra) :
    (protocol hdistinct).Stable i fun s => Slot calls i possible s ∧ extra s :=
  fun s s' hexpects hone h => ⟨h.1.of_expects hexpects, hextra.stable s s' hexpects hone h.2⟩

/-- An answer without a pending record holds for as long as the start lock is held. -/
theorem load_safe {ε β : Type} {op : HostOp} (hop : Neutral op) {field : World → Option β}
    {view : op.Ans → Except ε (Option β)} {check : β → Except ε Unit}
    {next : Option β → Action ε (Option β)} (hnext : next none = pure none)
    (hfound : ∀ record, next (some record) = (do
      Attempt.ofExcept (check record)
      pure (some record)))
    (hanswer : ∀ k w, (∃ e, view (perform op k w).1 = .error e) ∨
      view (perform op k w).1 = .ok (field w))
    (hlasting : Lasting hdistinct i fun s => Held i s ∧ field s.world = none)
    (hfield : ∀ {s s' : Shared ι}, Unwritten i op s s' → field s'.world = field s.world)
    (h : Slot calls i possible s ∧ Held i s) :
    CallSafe hdistinct i (Attempt.call op view >>= next).run (fun r s =>
      (Slot calls i possible s ∧ Held i s) ∧ (r = .ok none → field s.world = none)) s := by
  refine safe_attempt_bind (safe_attempt_call (stable_of_lasting lasting_held) h
    fun s₁ hone h₁ k _ _ => ?_)
  obtain ⟨hunwritten, hholder⟩ := neutral_unwritten (i := i) hop k s₁
  have h₂ : Slot calls i possible (handle i op k s₁).2 ∧ Held i (handle i op k s₁).2 :=
    ⟨hunwritten.slot h₁.1, hholder.trans h₁.2⟩
  refine ⟨hunwritten.onePending hone, hunwritten.respects (.inl hholder),
    fun s₂ hexpects hone₂ => ?_⟩
  have h₃ : Slot calls i possible s₂ ∧ Held i s₂ :=
    ⟨h₂.1.of_expects hexpects, (hexpects.held h₂.2).1⟩
  have hstable : ∀ r : Except ε (Option β), (protocol hdistinct).Stable i
      fun s => (Slot calls i possible s ∧ Held i s) ∧ (r = .ok none → field s.world = none) :=
    fun r s s' hexpects hone h => ⟨⟨h.1.1.of_expects hexpects, (hexpects.held h.1.2).1⟩,
      fun hr => (hlasting.stable s s' hexpects hone ⟨h.1.2, h.2 hr⟩).2⟩
  rcases hanswer k s₁.world with ⟨e, he⟩ | he
  · rw [show view (machine.handle i op k s₁).1 = .error e from he]
    intro s₄ hexpects' _
    exact ⟨⟨h₃.1.of_expects hexpects', (hexpects'.held h₃.2).1⟩, fun hr => by cases hr⟩
  · rw [show view (machine.handle i op k s₁).1 = .ok (field s₁.world) from he]
    cases hp : field s₁.world with
    | none =>
      show Safe machine (protocol hdistinct) i (next none).run _ s₂
      rw [hnext]
      have hnone := hlasting.stable _ _ hexpects hone₂ ⟨h₂.2, (hfield hunwritten).trans hp⟩
      exact safe_pure hstable ⟨h₃, fun _ => hnone.2⟩
    | some found =>
      show Safe machine (protocol hdistinct) i (next (some found)).run _ s₂
      rw [hfound]
      refine safe_attempt_bind (safe_ofExcept (fun _ => stable_of_lasting lasting_held) h₃ |>.mono
        fun r s₄ _ h₄ => ?_)
      cases r with
      | error e =>
        intro s₅ hexpects₅ _
        exact ⟨⟨h₄.1.of_expects hexpects₅, (hexpects₅.held h₄.2).1⟩, fun hr => by cases hr⟩
      | ok u => exact safe_pure hstable ⟨h₄, fun hr => by cases hr⟩

theorem loadPackage_safe (h : Slot calls i possible s ∧ Held i s) :
    CallSafe hdistinct i PackageTransactionStore.loadPending.run (fun r s =>
      (Slot calls i possible s ∧ Held i s) ∧ (r = .ok none → s.world.package = none)) s := by
  refine load_safe (show Neutral (.package .load) from trivial) rfl (fun _ => rfl) (fun k w => ?_) lasting_noPackage Unwritten.package h
  rcases orFault_cases k w (w.packageEffect .load) with ⟨e, he⟩ | he
  · exact .inl ⟨e, congrArg Prod.fst he⟩
  · exact .inr (congrArg Prod.fst he)

theorem loadRollback_safe (h : Slot calls i possible s ∧ Held i s) :
    CallSafe hdistinct i TransactionStore.loadPending.run (fun r s =>
      (Slot calls i possible s ∧ Held i s) ∧ (r = .ok none → s.world.pending = none)) s := by
  refine load_safe (show Neutral (.rollback .load) from trivial) rfl (fun _ => rfl) (fun k w => ?_) lasting_noPending Unwritten.pending h
  have hview : ∀ answer : Except String (Option RollbackTransaction),
      perform (.rollback .load) k w = (answer, w) →
        Except.mapError (TransactionStore.ioError "Could not inspect rollback transaction")
          (perform (.rollback .load) k w).1 =
        Except.mapError (TransactionStore.ioError "Could not inspect rollback transaction") answer :=
    fun answer h => congrArg _ (congrArg Prod.fst h)
  rcases orFault_cases k w (w.rollbackEffect .load) with ⟨e, he⟩ | he
  · exact .inl ⟨_, hview _ he⟩
  · exact .inr (hview _ he)

theorem others_eq_none {w : World} (h : ∀ t ∈ w.pending, Own calls i t) : others calls i w = none := by
  rw [Option.eq_none_iff_forall_ne_some]
  intro t ht
  obtain ⟨hpending, hforeign⟩ := others_eq_some.mp ht
  exact hforeign (h t hpending)

/-- A step that only creates, replaces or removes the call's own transaction. -/
theorem own_step {op : HostOp} {k : Choice} {next : Option RollbackTransaction}
    (hworld : (perform op k s.world).2 = { s.world with pending := next })
    (hholder : (handle i op k s).2.startHolder = s.startHolder)
    (hbefore : ∀ t ∈ s.world.pending, Own calls i t) (hafter : ∀ t ∈ next, Own calls i t)
    (hbegins : s.world.pending = none → next ≠ none → Held i s) (hharmless : Harmless calls i s) :
    Respects calls i s (handle i op k s).2 ∧ Slot calls i next (handle i op k s).2 ∧
      (handle i op k s).2.world = { s.world with pending := next } := by
  have hworld' : (handle i op k s).2.world = { s.world with pending := next } := hworld
  have hothers : others calls i (handle i op k s).2.world = others calls i s.world := by
    rw [others_eq_none hbefore, others_eq_none (by rw [hworld']; exact hafter)]
  refine ⟨⟨⟨op, rfl, fun _ => ⟨hothers, .inl (by rw [hworld'])⟩⟩, ?_, .inl hholder, ?_, ?_⟩,
    ⟨?_, ?_⟩, hworld'⟩
  · rw [hworld']
    exact fun t hpending hforeign => absurd (hafter t hpending) hforeign
  · rw [hworld']
    exact hbegins
  · rw [hworld']
    exact fun hnone hsome => absurd hnone hsome
  · rw [hworld']
    exact fun t _ hpending => hpending
  · exact hharmless.append rfl (by rw [hworld']) hothers

/-- Creating the transaction under the start lock, with no package transaction pending. -/
theorem create_safe (hown : Own calls i t)
    (h : Slot calls i none s ∧ Held i s ∧ s.world.package = none) :
    CallSafe hdistinct i (TransactionStore.create t).run (fun r s =>
      Slot calls i (if r.isOk then some t else none) s ∧ Held i s) s := by
  refine safe_attempt_bind (safe_ofExcept (fun _ => stable_of_lasting lasting_noPackage) h |>.mono
    fun r s₁ _ h₁ => ?_)
  cases r with
  | error e => exact fun s₂ hexpects _ => ⟨h₁.1.of_expects hexpects, (hexpects.held h₁.2.1).1⟩
  | ok u =>
    refine safe_attempt_call (stable_of_lasting lasting_noPackage) h₁ fun s₂ hone h₂ k _ _ => ?_
    obtain ⟨hslot, hheld, hpackage⟩ := h₂
    rcases perform_create_cases k s₂.world t with ⟨hworld, hfailed⟩ | ⟨-, hnone, he⟩
    · have hunwritten : Unwritten i (.rollback (.create t)) s₂ (handle i _ k s₂).2 :=
        unwritten_of_world hworld
      refine ⟨hunwritten.onePending hone, hunwritten.respects (.inl rfl), fun s₃ hexpects _ => ?_⟩
      have h₃ : Slot calls i none s₃ ∧ Held i s₃ :=
        ⟨(hunwritten.slot hslot).of_expects hexpects, (hexpects.held hheld).1⟩
      rcases hfailed with ⟨e, hanswer⟩ | hanswer
      · rw [show (machine.handle i (.rollback (.create t)) k s₂).1 = .error e from hanswer]
        exact h₃
      · rw [show (machine.handle i (.rollback (.create t)) k s₂).1 = .ok false from hanswer]
        exact h₃
    · obtain ⟨hrespects, hslot', hworld⟩ := own_step (congrArg Prod.snd he) rfl
        (by rw [hnone]; exact fun t' h => by cases h) (fun t' h => by cases h; exact hown)
        (fun _ _ => hheld) hslot.harmless
      refine ⟨.inr ((congrArg World.package hworld).trans hpackage), hrespects,
        fun s₃ hexpects _ => ?_⟩
      rw [show (machine.handle i (.rollback (.create t)) k s₂).1 = .ok true from
        congrArg Prod.fst he]
      exact ⟨hslot'.of_expects hexpects, (hexpects.held hheld).1⟩

theorem createTransaction_safe (hown : Own calls i t) (h : Slot calls i none s) :
    CallSafe hdistinct i (Rollback.createTransaction t).run (fun r s =>
      Slot calls i (if r.isOk then some t else none) s) s := by
  refine safe_withStartLock (fun e => ⟨_, rfl⟩) rfl (fun e => rfl) (fun s₁ hslot hheld => ?_) h
  refine safe_attempt_bind (safe_mapError ((loadPackage_safe ⟨hslot, hheld⟩).mono
    fun r s₂ _ h₂ s₃ hexpects _ => ?_))
  have h₃ : Slot calls i none s₃ ∧ Held i s₃ :=
    ⟨h₂.1.1.of_expects hexpects, (hexpects.held h₂.1.2).1⟩
  cases r with
  | error e => exact fun s₄ hexpects₄ _ => ⟨h₃.1.of_expects hexpects₄, (hexpects₄.held h₃.2).1⟩
  | ok found =>
    cases found with
    | some package =>
      exact safe_throw (fun _ => stable_of_lasting lasting_held) h₃
    | none =>
      have hnone : s₃.world.package = none := (hexpects.held h₂.1.2).2.2 (h₂.2 rfl)
      refine safe_mapError ((create_safe hown ⟨h₃.1, h₃.2, hnone⟩).mono
        fun r s₄ _ h₄ s₅ hexpects₅ _ => ?_)
      cases r <;> exact ⟨h₄.1.of_expects hexpects₅, (hexpects₅.held h₄.2).1⟩

section Schedule

variable {target fallback : DeploymentId} {id : RollbackId}

theorem own_iff (hcall : calls i = .schedule target id fallback) (t : RollbackTransaction) :
    Own calls i t ↔ t.id = id := by
  unfold Own
  rw [hcall]
  exact ⟨fun h => (Option.some_inj.mp h).symm, fun h => congrArg some h.symm⟩

theorem stable_harmless : (protocol hdistinct).Stable i (Harmless calls i) :=
  fun _ _ hexpects _ h =>
    (Slot.of_expects ⟨fun _ _ hpending => hpending, h⟩ hexpects).harmless

theorem updateTransaction_safe (hcall : calls i = .schedule target id fallback)
    (hown : Own calls i t) (h : Harmless calls i s) :
    CallSafe hdistinct i (Rollback.updateTransaction t).run (fun r s =>
      Harmless calls i s ∧ (r.isOk = true → Slot calls i (some t) s)) s := by
  refine safe_mapError (safe_attempt_bind ?_)
  refine (safe_ofExcept (fun _ => stable_harmless) h).mono fun r s₁ _ h₁ => ?_
  cases r with
  | error e => exact fun s₂ hexpects hone s₃ hexpects₃ hone₃ =>
      ⟨stable_harmless _ _ hexpects₃ hone₃ (stable_harmless _ _ hexpects hone h₁), fun h => by cases h⟩
  | ok u =>
    refine safe_attempt_call stable_harmless h₁ fun s₂ hone h₂ k _ hadmissible => ?_
    have hundisturbed : k.fault.isSome ∨ ∀ t ∈ s₂.world.pending, t.id = id := by
      simpa only [protocol, Undisturbed, hcall] using hadmissible
    rcases perform_replace_cases k s₂.world t with ⟨hworld, hfailed⟩ | ⟨hfault, hsome, he⟩
    · have hunwritten : Unwritten i (.rollback (.replace t)) s₂ (handle i _ k s₂).2 :=
        unwritten_of_world hworld
      refine ⟨hunwritten.onePending hone, hunwritten.respects (.inl rfl), fun s₃ hexpects hone₃ => ?_⟩
      have h₃ : Harmless calls i s₃ :=
        stable_harmless _ _ hexpects hone₃ (hunwritten.harmless h₂)
      rcases hfailed with ⟨e, hanswer⟩ | hanswer
      · rw [show (machine.handle i (.rollback (.replace t)) k s₂).1 = .error e from hanswer]
        exact fun s₄ hexpects₄ hone₄ =>
          ⟨stable_harmless _ _ hexpects₄ hone₄ h₃, fun h => by cases h⟩
      · rw [show (machine.handle i (.rollback (.replace t)) k s₂).1 = .ok false from hanswer]
        exact fun s₄ hexpects₄ hone₄ =>
          ⟨stable_harmless _ _ hexpects₄ hone₄ h₃, fun h => by cases h⟩
    · have hbefore : ∀ t ∈ s₂.world.pending, Own calls i t := by
        rcases hundisturbed with hsome | hids
        · rw [hfault] at hsome
          cases hsome
        · exact fun t' ht' => (own_iff hcall t').mpr (hids t' ht')
      have hpackage : s₂.world.package = none := hone.resolve_left hsome
      obtain ⟨hrespects, hslot, hworld⟩ := own_step (congrArg Prod.snd he) rfl hbefore
        (fun t' h => by cases h; exact hown) (fun hnone _ => absurd hnone hsome) h₂
      refine ⟨.inr ((congrArg World.package hworld).trans hpackage), hrespects,
        fun s₃ hexpects _ s₄ hexpects₄ _ => ?_⟩
      have h₄ := (hslot.of_expects hexpects).of_expects hexpects₄
      exact ⟨h₄.harmless, fun _ => h₄⟩

/-- What a scheduled restore keeps after its call returned. -/
def Kept [DecidableEq ι] (calls : ι → Call) (i : ι) (t : RollbackTransaction) (s : Shared ι) : Prop :=
  (∀ e ∈ since i s.trace, ¬ CancelAct calls e) → Scheduled t s.world

theorem since_append [DecidableEq ι] {trace events : List (Event ι)}
    (h : ∀ e ∈ events, e.thread ≠ i) : since i (trace ++ events) = since i trace ++ events := by
  unfold since List.rtakeWhile
  rw [List.reverse_append, List.takeWhile_append_of_pos (by simpa using h), List.reverse_append,
    List.reverse_reverse]

theorem stable_kept [DecidableEq ι] (hown : Own calls i t) :
    (protocol hdistinct).Stable i (Kept calls i t) := by
  intro s s' hexpects _ h hno
  obtain ⟨events, htrace, hothers, hscheduled⟩ := hexpects.trace
  rw [htrace, since_append hothers] at hno
  refine hscheduled t hown (h fun e he => ?_) fun e he => ?_
  · exact hno e (List.mem_append_left _ he)
  · exact hno e (List.mem_append_right _ he)

/-- Selecting the entry fails, or finds a pending transaction and selects its entry. -/
theorem world_armOnce_cases (w : World) :
    (∃ e, w.armOnce = (.error e, w)) ∨ ∃ t, w.pending = some t ∧ w.armOnce =
      (.ok t.grubEntryId, { w with boot := { w.boot with nextEntry := some t.grubEntryId } }) := by
  cases hp : w.pending with
  | none => exact .inl ⟨_, by simp only [World.armOnce, hp]; rfl⟩
  | some t =>
    cases hv : t.validate with
    | error e => exact .inl ⟨e.message, by simp only [World.armOnce, hp, hv]⟩
    | ok u =>
      by_cases hphase : t.phase = .armed
      · by_cases hprotocol : t.recoveryProtocolVersion = recoveryProtocolVersion
        · refine .inr ⟨t, rfl, ?_⟩
          simp only [World.armOnce, hp, hv, hphase, hprotocol, ne_eq, not_true, if_false]
        · refine .inl ⟨"A legacy recovery transaction cannot be selected for boot", ?_⟩
          simp only [World.armOnce, hp, hv, hphase, hprotocol, ne_eq, not_true, if_false,
            not_false_iff, if_true]
      · refine .inl
          ⟨"Only an armed rollback transaction can select the one-shot GRUB entry", ?_⟩
        simp only [World.armOnce, hp, hv, hphase, ne_eq, not_false_iff, if_true]

theorem armOnce_cases (k : Choice) (w : World) :
    (∃ e, perform (.boot .armOnce) k w = (.error e, w)) ∨
    (k.fault = none ∧ ∃ t, w.pending = some t ∧ perform (.boot .armOnce) k w =
      (.ok t.grubEntryId, { w with boot := { w.boot with nextEntry := some t.grubEntryId } })) := by
  have hperform : perform (.boot .armOnce) k w = orFault k w w.armOnce := rfl
  cases hk : k.fault with
  | some e =>
    simp only [orFault, hk] at hperform
    exact .inl ⟨e, hperform⟩
  | none =>
    simp only [orFault, hk] at hperform
    rw [hperform]
    rcases world_armOnce_cases w with ⟨e, he⟩ | ⟨t, hp, he⟩
    · exact .inl ⟨e, he⟩
    · exact .inr ⟨rfl, t, hp, he⟩

/-- The last step of a call that succeeds: its restore is scheduled then. -/
theorem armOnce_safe [DecidableEq ι] (hcall : calls i = .schedule target id fallback)
    (hown : Own calls i t) (h : Slot calls i (some t) s) :
    CallSafe hdistinct i Rollback.armOnce.run (fun r s => match r with
      | .ok entry => entry = t.grubEntryId ∧ Kept calls i t s
      | .error _ => Harmless calls i s) s := by
  refine safe_attempt_call stable_slot h fun s₁ hone h₁ k _ hadmissible => ?_
  have hundisturbed : k.fault.isSome ∨ ∀ t ∈ s₁.world.pending, t.id = id := by
    simpa only [protocol, Undisturbed, hcall] using hadmissible
  rcases armOnce_cases k s₁.world with ⟨e, he⟩ | ⟨hfault, t', hpending, he⟩
  · have hunwritten : Unwritten i (.boot .armOnce) s₁ (handle i _ k s₁).2 :=
      unwritten_of_world (congrArg Prod.snd he)
    refine ⟨hunwritten.onePending hone, hunwritten.respects (.inl rfl), fun s₂ hexpects hone₂ => ?_⟩
    rw [show (machine.handle i (.boot .armOnce) k s₁).1 = .error e from congrArg Prod.fst he]
    exact stable_harmless _ _ hexpects hone₂ (hunwritten.harmless h₁.harmless)
  · have hown' : Own calls i t' := by
      rcases hundisturbed with hsome | hids
      · rw [hfault] at hsome
        cases hsome
      · exact (own_iff hcall t').mpr (hids t' hpending)
    have hsame : t = t' := Option.some_inj.mp (h₁.own t' hown' hpending)
    subst hsame
    have hworld : (handle i (.boot .armOnce) k s₁).2.world =
        { s₁.world with boot := { s₁.world.boot with nextEntry := some t.grubEntryId } } :=
      congrArg Prod.snd he
    have hrespects : Respects calls i s₁ (handle i (.boot .armOnce) k s₁).2 := by
      refine ⟨⟨.boot .armOnce, rfl, fun _ => ⟨?_, .inr ⟨t, hpending, hown⟩⟩⟩, ?_, .inl rfl, ?_, ?_⟩
      · rw [hworld]
        rfl
      · rw [hworld]
        exact fun _ h _ => h
      · rw [hworld]
        exact fun hnone hsome => absurd hnone hsome
      · rw [hworld]
        exact fun hnone hsome => absurd hnone hsome
    have hkept : Kept calls i t (handle i (.boot .armOnce) k s₁).2 := by
      intro _
      rw [hworld]
      exact ⟨hpending, rfl⟩
    refine ⟨?_, hrespects, fun s₂ hexpects hone₂ => ?_⟩
    · show OnePending (handle i (.boot .armOnce) k s₁).2
      unfold OnePending
      rw [hworld]
      exact hone
    · rw [show (machine.handle i (.boot .armOnce) k s₁).1 = .ok t.grubEntryId from
        congrArg Prod.fst he]
      exact ⟨rfl, stable_kept hown _ _ hexpects hone₂ hkept⟩

/-- In an undisturbed cleanup there is no entry to clear. -/
theorem clearOnce_safe (hcall : calls i = .schedule target id fallback)
    (h : Harmless calls i s) :
    CallSafe hdistinct i Rollback.clearOnce.run (fun _ s => Harmless calls i s) s := by
  refine safe_attempt_call stable_harmless h fun s₁ hone h₁ k _ hadmissible => ?_
  have hundisturbed : k.fault.isSome ∨ s₁.world.boot.nextEntry = none := by
    simpa only [protocol, Undisturbed, hcall] using hadmissible
  have hworld : (perform (.boot .clearOnce) k s₁.world).2 = s₁.world := by
    rcases orFault_cases k s₁.world (s₁.world.bootEffect k .clearOnce) with ⟨e, he⟩ | he
    · exact congrArg Prod.snd he
    · rcases hundisturbed with hsome | hnone
      · obtain ⟨e, hk⟩ := Option.isSome_iff_exists.mp hsome
        show (orFault k s₁.world _).2 = _
        simp only [orFault, hk]
      · refine (congrArg Prod.snd he).trans ?_
        show { s₁.world with boot := { s₁.world.boot with nextEntry := none } } = s₁.world
        rw [← hnone]
  have hunwritten : Unwritten i (.boot .clearOnce) s₁ (handle i _ k s₁).2 :=
    unwritten_of_world hworld
  exact ⟨hunwritten.onePending hone, hunwritten.respects (.inl rfl), fun s₂ hexpects hone₂ =>
    stable_harmless _ _ hexpects hone₂ (hunwritten.harmless h₁)⟩

/-- An undisturbed cleanup removes the call's own transaction, if it is pending. -/
theorem removeTransaction_safe (hcall : calls i = .schedule target id fallback)
    (h : Harmless calls i s) :
    CallSafe hdistinct i Rollback.removeTransaction.run (fun _ s => Slot calls i none s) s := by
  refine safe_mapError (safe_attempt_call stable_harmless h fun s₁ hone h₁ k _ hadmissible => ?_)
  have hundisturbed : ∀ t ∈ s₁.world.pending, t.id = id ↔ k.fault = none := by
    simpa only [protocol, Undisturbed, hcall] using hadmissible
  suffices hstep : OnePending (handle i (.rollback .remove) k s₁).2 ∧
      Respects calls i s₁ (handle i (.rollback .remove) k s₁).2 ∧
      Slot calls i none (handle i (.rollback .remove) k s₁).2 by
    obtain ⟨hone', hrespects, hslot⟩ := hstep
    exact ⟨hone', hrespects, fun s₂ hexpects _ s₃ hexpects₃ _ =>
      (hslot.of_expects hexpects).of_expects hexpects₃⟩
  cases hk : k.fault with
  | some e =>
    have hworld : (perform (.rollback .remove) k s₁.world).2 = s₁.world := by
      show (orFault k s₁.world _).2 = _
      simp only [orFault, hk]
    have hunwritten : Unwritten i (.rollback .remove) s₁ (handle i _ k s₁).2 :=
      unwritten_of_world hworld
    refine ⟨hunwritten.onePending hone, hunwritten.respects (.inl rfl), ?_,
      hunwritten.harmless h₁⟩
    intro t hown hpending
    rw [hunwritten.pending] at hpending
    have hfault := (hundisturbed t hpending).mp ((own_iff hcall t).mp hown)
    rw [hk] at hfault
    cases hfault
  | none =>
    have hworld : (perform (.rollback .remove) k s₁.world).2 = { s₁.world with pending := none } := by
      show (orFault k s₁.world _).2 = _
      simp only [orFault, hk]
      rfl
    obtain ⟨hrespects, hslot, hworld'⟩ := own_step hworld rfl
      (fun t ht => (own_iff hcall t).mpr ((hundisturbed t ht).mpr hk)) (fun _ h => by cases h)
      (fun _ hne => absurd rfl hne) h₁
    exact ⟨.inl (congrArg World.pending hworld'), hrespects, hslot⟩

theorem cleanupFailedSchedule_safe (hcall : calls i = .schedule target id fallback)
    (h : Harmless calls i s) :
    CallSafe hdistinct i Rollback.cleanupFailedSchedule.run (fun _ s => Slot calls i none s) s := by
  refine safe_attempt_bind (safe_outcome ((clearOnce_safe hcall h).mono
    fun _ s₁ _ h₁ s₂ hexpects₂ hone₂ => ?_))
  have h₂ : Harmless calls i s₂ := stable_harmless _ _ hexpects₂ hone₂ h₁
  refine safe_attempt_bind (safe_outcome ((removeTransaction_safe hcall h₂).mono
    fun _ s₃ _ h₃ s₄ hexpects₄ _ => ?_))
  have h₄ : Slot calls i none s₄ ∧ True := ⟨h₃.of_expects hexpects₄, trivial⟩
  have hgrub : Within Neutral Rollback.regenerateGrub.run := within_call _ trivial
  refine safe_attempt_bind (safe_outcome ((safe_neutral lasting_true hgrub h₄).mono
    fun _ s₅ _ h₅ s₆ hexpects₆ _ => ?_))
  exact safe_ofExcept (fun _ => stable_slot) (h₅.1.of_expects hexpects₆)

/-- What the publishing closure establishes. -/
def Published [DecidableEq ι] (calls : ι → Call) (i : ι)
    (r : Except RollbackError RollbackTransaction) (s : Shared ι) : Prop :=
  match r with
  | .ok t => Own calls i t ∧ t.phase = .armed ∧ Kept calls i t s
  | .error _ => Harmless calls i s

theorem stable_published [DecidableEq ι] (r : Except RollbackError RollbackTransaction) :
    (protocol hdistinct).Stable i (Published calls i r) := by
  intro s s' hexpects hone h
  cases r with
  | ok t => exact ⟨h.1, h.2.1, stable_kept h.1 s s' hexpects hone h.2.2⟩
  | error e => exact stable_harmless s s' hexpects hone h

/-- From the transition on. -/
theorem arm_safe [DecidableEq ι] (hcall : calls i = .schedule target id fallback)
    (hown : Own calls i t) {armed : RollbackTransaction} {now : Timestamp}
    (htransition : t.transition .armed now = .ok armed) (h : Harmless calls i s) :
    CallSafe hdistinct i (do
      Rollback.updateTransaction armed
      let armedEntry ← Rollback.armOnce
      Attempt.ofExcept (ensure (armedEntry == armed.grubEntryId)
        ⟨.bootIntegration, "GRUB armed an unexpected recovery entry"⟩)
      pure armed : Action RollbackError RollbackTransaction).run (Published calls i) s := by
  obtain ⟨-, -, harmed⟩ := RollbackTransaction.transition_eq_ok htransition
  have hown' : Own calls i armed := by
    rw [harmed]
    exact hown
  have hphase : armed.phase = .armed := by rw [harmed]
  refine safe_attempt_bind ((updateTransaction_safe hcall hown' h).mono fun r s₁ _ h₁ => ?_)
  cases r with
  | error e => exact fun s₂ hexpects hone => stable_harmless _ _ hexpects hone h₁.1
  | ok u =>
    refine safe_attempt_bind ((armOnce_safe hcall hown' (h₁.2 rfl)).mono fun r s₂ _ h₂ => ?_)
    cases r with
    | error e => exact fun s₃ hexpects hone => stable_harmless _ _ hexpects hone h₂
    | ok entry =>
      obtain ⟨rfl, hkept⟩ := h₂
      exact safe_passed ((ensure_eq_ok _ _).mpr (beq_self_eq_true _))
        (safe_pure stable_published ⟨hown', hphase, hkept⟩)

theorem publish_safe [DecidableEq ι] (hcall : calls i = .schedule target id fallback)
    (hown : Own calls i t) (h : Slot calls i none s) :
    CallSafe hdistinct i (Rollback.publish t).run (Published calls i) s := by
  refine safe_attempt_bind ((createTransaction_safe hown h).mono fun r s₁ _ h₁ => ?_)
  cases r with
  | error e => exact fun s₂ hexpects hone => stable_harmless _ _ hexpects hone h₁.harmless
  | ok u =>
    have hgrub : Within Neutral Rollback.regenerateGrub.run := within_call _ trivial
    refine safe_attempt_bind ((safe_neutral lasting_true hgrub ⟨h₁, trivial⟩).mono
      fun r s₂ _ h₂ => ?_)
    cases r with
    | error e => exact fun s₃ hexpects hone => stable_harmless _ _ hexpects hone h₂.1.harmless
    | ok u =>
      have hverify : Within Neutral (Rollback.verifyGrubEntry t).run := within_call _ trivial
      refine safe_attempt_bind ((safe_neutral lasting_true hverify h₂).mono fun r s₃ _ h₃ => ?_)
      cases r with
      | error e => exact fun s₄ hexpects hone => stable_harmless _ _ hexpects hone h₃.1.harmless
      | ok u =>
        have hnow : Within Neutral (utcNow : Action RollbackError Timestamp).run :=
          within_call _ trivial
        refine safe_attempt_bind ((safe_neutral lasting_true hnow h₃).mono fun r s₄ _ h₄ => ?_)
        cases r with
        | error e => exact fun s₅ hexpects hone => stable_harmless _ _ hexpects hone h₄.1.harmless
        | ok now =>
          cases htransition : t.transition .armed now with
          | error e =>
            simp only [htransition]
            exact safe_throw stable_published h₄.1.harmless
          | ok armed =>
            simp only [htransition]
            exact arm_safe hcall hown htransition h₄.1.harmless

/-- What holds of a call that has returned, from then on. -/
def Settled [DecidableEq ι] (calls : ι → Call) (i : ι) (r : CallResult) (s : Shared ι) : Prop :=
  match r with
  | .scheduled (.ok t) => Own calls i t ∧ t.phase = .armed ∧ Kept calls i t s
  | .scheduled (.error _) => LeftAsFound calls i s
  | .finished => True

theorem LeftAsFound.slot (h : LeftAsFound calls i s) : Slot calls i none s :=
  ⟨fun t hown hpending => absurd hown (h.1 t hpending), h.2⟩

theorem stable_settled [DecidableEq ι] (r : CallResult) :
    (protocol hdistinct).Stable i (Settled calls i r) := by
  intro s s' hexpects hone h
  match r with
  | .scheduled (.ok t) => exact ⟨h.1, h.2.1, stable_kept h.1 s s' hexpects hone h.2.2⟩
  | .scheduled (.error e) => exact ((LeftAsFound.slot h).of_expects hexpects).leftAsFound
  | .finished => trivial

/-- The end of a scheduling call, with the cleanup after a failure. -/
theorem finish_safe [DecidableEq ι] (hcall : calls i = .schedule target id fallback)
    (hown : Own calls i t) (h : Slot calls i none s) :
    CallSafe hdistinct i (do
      let result ← Attempt.outcome (Rollback.publish t)
      match result with
      | .ok armed => pure armed
      | .error error => do
        let cleanup ← Attempt.outcome Rollback.cleanupFailedSchedule
        throw (match cleanup with
          | .ok () => error
          | .error problem =>
            ⟨error.code, error.message ++ "; cleanup also failed: " ++ problem.message⟩) :
        Action RollbackError RollbackTransaction).run
      (fun r s => Settled calls i (.scheduled r) s) s := by
  refine safe_attempt_bind (safe_outcome ((publish_safe hcall hown h).mono
    fun r s₁ _ h₁ s₂ hexpects hone => ?_))
  have h₂ := stable_published r s₁ s₂ hexpects hone h₁
  cases r with
  | ok armed => exact safe_pure (fun r => stable_settled (.scheduled r)) h₂
  | error e =>
    refine safe_attempt_bind (safe_outcome ((cleanupFailedSchedule_safe hcall h₂).mono
      fun r s₃ _ h₃ s₄ hexpects₄ _ => ?_))
    exact safe_throw (fun r => stable_settled (.scheduled r)) (h₃.of_expects hexpects₄).leftAsFound

theorem schedule_safe [DecidableEq ι] (hcall : calls i = .schedule target id fallback)
    (h : Slot calls i none s) :
    CallSafe hdistinct i (Rollback.schedule target id fallback).run
      (fun r s => Settled calls i (.scheduled r) s) s := by
  have hnow : Within Neutral (utcNow : Action RollbackError Timestamp).run := within_call _ trivial
  refine safe_attempt_bind ((safe_neutral lasting_true (neutral_prepare target)
    ⟨h, trivial⟩).mono fun r s₁ _ h₁ => ?_)
  cases r with
  | error e => exact fun s₂ hexpects _ => (h₁.1.of_expects hexpects).leftAsFound
  | ok prepared =>
    refine safe_attempt_bind ((safe_neutral lasting_true (neutral_createFallback fallback)
      h₁).mono fun r s₂ _ h₂ => ?_)
    cases r with
    | error e => exact fun s₃ hexpects _ => (h₂.1.of_expects hexpects).leftAsFound
    | ok record =>
      refine safe_attempt_bind ((safe_neutral lasting_true hnow h₂).mono fun r s₃ _ h₃ => ?_)
      cases r with
      | error e => exact fun s₄ hexpects _ => (h₃.1.of_expects hexpects).leftAsFound
      | ok now => exact finish_safe hcall ((own_iff hcall _).mpr rfl) h₃.1

end Schedule

end Publishing

section OtherCalls

variable {calls : ι → Call} {hdistinct : Distinct calls} {i : ι} {s : Shared ι} {α : Type}

theorem stable_true : (protocol hdistinct).Stable i fun _ => True :=
  fun _ _ _ _ _ => trivial

section Cancel

def CancelOp (op : HostOp) : Prop :=
  Neutral op ∨ op = .boot .clearOnce ∨ op = .rollback .remove

/-- Cancelling may remove any transaction and clears the entry. -/
theorem cancel_step {op : HostOp} {k : Choice} (hcall : calls i = .cancel)
    (hop : op = .boot .clearOnce ∨ op = .rollback .remove) (hone : OnePending s)
    (hpending : (perform op k s.world).2.pending = s.world.pending ∨
      (perform op k s.world).2.pending = none)
    (hpackage : (perform op k s.world).2.package = s.world.package)
    (hholder : (handle i op k s).2.startHolder = s.startHolder) :
    OnePending (handle i op k s).2 ∧ Respects calls i s (handle i op k s).2 := by
  have hact : CancelAct calls ⟨i, op, s.world, (handle i op k s).2.world⟩ := by
    rcases hop with rfl | rfl <;> simp only [CancelAct, hcall]
  have hpending' : (handle i op k s).2.world.pending = s.world.pending ∨
      (handle i op k s).2.world.pending = none := hpending
  have hpackage' : (handle i op k s).2.world.package = s.world.package := hpackage
  refine ⟨?_, ⟨⟨op, rfl, fun h => absurd hact h⟩, ?_, .inl hholder, ?_, ?_⟩⟩
  · unfold OnePending
    rcases hpending' with hsame | hnone
    · rwa [hsame, hpackage']
    · exact .inl hnone
  · intro t ht _
    rcases hpending' with hsame | hnone
    · rwa [hsame] at ht
    · rw [hnone] at ht
      cases ht
  · intro hnone hsome
    rcases hpending' with hsame | hnone'
    · exact absurd (hsame.trans hnone) hsome
    · exact absurd hnone' hsome
  · exact fun hnone hsome => absurd (hpackage'.trans hnone) hsome

theorem cancel_safe (hcall : calls i = .cancel) :
    CallSafe hdistinct i Rollback.cancel.run (fun _ _ => True) s := by
  have hwithin : Within CancelOp Rollback.cancel.run := by
    refine within_attempt_bind ((within_mapError neutral_loadRollback).mono fun _ h => .inl h)
      fun found => ?_
    cases found with
    | none => exact within_throw _
    | some t =>
      exact within_attempt_bind (within_ofExcept _) fun _ =>
        within_attempt_bind (within_call _ (.inr (.inl rfl))) fun _ =>
        within_attempt_bind (within_mapError (within_call _ (.inr (.inr rfl)))) fun _ =>
        within_call _ (.inl trivial)
  refine Safe.of_within stable_true (fun op k s hop _ _ hone _ => ?_) hwithin trivial
  rcases hop with hop | rfl | rfl
  · obtain ⟨hunwritten, hholder⟩ := neutral_unwritten (i := i) hop k s
    exact ⟨hunwritten.onePending hone, hunwritten.respects (.inl hholder), trivial⟩
  · obtain ⟨_, hworld⟩ := perform_boot k s.world .clearOnce
    obtain ⟨hone', hrespects⟩ := cancel_step hcall (.inl rfl) hone (.inl (by rw [hworld]))
      (by rw [hworld]) (rfl : (handle i (.boot .clearOnce) k s).2.startHolder = _)
    exact ⟨hone', hrespects, trivial⟩
  · have hworld : (perform (.rollback .remove) k s.world).2 = s.world ∨
        (perform (.rollback .remove) k s.world).2 = { s.world with pending := none } :=
      orFault_world k s.world (s.world.rollbackEffect .remove)
    have hpending : (perform (.rollback .remove) k s.world).2.pending = s.world.pending ∨
        (perform (.rollback .remove) k s.world).2.pending = none :=
      hworld.imp (congrArg World.pending) (congrArg World.pending)
    have hpackage : (perform (.rollback .remove) k s.world).2.package = s.world.package := by
      rcases hworld with hworld | hworld <;> rw [hworld]
    obtain ⟨hone', hrespects⟩ := cancel_step hcall (.inr rfl) hone hpending hpackage
      (rfl : (handle i (.rollback .remove) k s).2.startHolder = _)
    exact ⟨hone', hrespects, trivial⟩

end Cancel

section Packages

variable {possible : Option RollbackTransaction}

/-- A step that writes only the package transaction. -/
theorem package_step {op : PackageOp} {k : Choice} (hone : OnePending s)
    (hslot : Slot calls i possible s)
    (hbegins : s.world.package = none → (perform (.package op) k s.world).2.package ≠ none →
      Held i s ∧ s.world.pending = none) :
    OnePending (handle i (.package op) k s).2 ∧ Respects calls i s (handle i (.package op) k s).2 ∧
      Slot calls i possible (handle i (.package op) k s).2 ∧
      (handle i (.package op) k s).2.world.pending = s.world.pending := by
  obtain ⟨_, _, hworld⟩ := perform_package k s.world op
  have hpending : (handle i (.package op) k s).2.world.pending = s.world.pending := by
    simp only [handle, hworld]
  have hentry : (handle i (.package op) k s).2.world.boot.nextEntry = s.world.boot.nextEntry := by
    simp only [handle, hworld]
  have hothers : others calls i (handle i (.package op) k s).2.world = others calls i s.world := by
    unfold others
    rw [hpending]
  refine ⟨?_, ⟨⟨.package op, rfl, fun _ => ⟨hothers, .inl hentry⟩⟩, ?_, .inl rfl, ?_, ?_⟩,
    ⟨?_, ?_⟩, hpending⟩
  · unfold OnePending
    rw [hpending]
    rcases hone with hnone | hnone
    · exact .inl hnone
    · by_cases hafter : (perform (.package op) k s.world).2.package = none
      · exact .inr hafter
      · exact .inl (hbegins hnone hafter).2
  · exact fun _ ht _ => hpending ▸ ht
  · exact fun hnone hsome => absurd (hpending.trans hnone) hsome
  · exact fun hnone hsome => (hbegins hnone hsome).1
  · exact fun t hown ht => hslot.own t hown (hpending ▸ ht)
  · exact hslot.harmless.append rfl hentry hothers

/-- Updating and archiving never begin a package transaction. -/
def Continues : HostOp → Prop
  | .package (.replace _) | .package (.archive _) => True
  | op => Neutral op

theorem package_none_of_continues {op : PackageOp} (hop : Continues (.package op)) (k : Choice)
    {w : World} (hnone : w.package = none) : (perform (.package op) k w).2.package = none := by
  rcases orFault_world k w (w.packageEffect op) with he | he
  · exact (congrArg World.package he).trans hnone
  · refine (congrArg World.package he).trans ?_
    cases op with
    | load => exact hnone
    | create t => cases hop
    | replace t => simp only [World.packageEffect, hnone]
    | archive t => simp only [World.packageEffect, hnone]

theorem continues_step {op : HostOp} (hop : Continues op) (k : Choice) (hone : OnePending s)
    (hslot : Slot calls i possible s) :
    OnePending (handle i op k s).2 ∧ Respects calls i s (handle i op k s).2 ∧
      Slot calls i possible (handle i op k s).2 := by
  have hneutral : Neutral op → OnePending (handle i op k s).2 ∧
      Respects calls i s (handle i op k s).2 ∧ Slot calls i possible (handle i op k s).2 := by
    intro hop
    obtain ⟨hunwritten, hholder⟩ := neutral_unwritten (i := i) hop k s
    exact ⟨hunwritten.onePending hone, hunwritten.respects (.inl hholder), hunwritten.slot hslot⟩
  cases op with
  | package op =>
    have hnever : s.world.package = none → (perform (.package op) k s.world).2.package ≠ none →
        Held i s ∧ s.world.pending = none :=
      fun hnone hsome => absurd (package_none_of_continues hop k hnone) hsome
    obtain ⟨hone', hrespects, hslot', -⟩ := package_step hone hslot hnever
    exact ⟨hone', hrespects, hslot'⟩
  | _ => exact hneutral hop

theorem continues_safe {p : Prog HostOp HostOp.Ans α} (hp : Within Continues p)
    (h : Slot calls i possible s) :
    CallSafe hdistinct i p (fun _ s => Slot calls i possible s) s :=
  Safe.of_within stable_slot (fun _ k _ hop _ _ hone h => continues_step hop k hone h) hp h

theorem continues_update (t : PackageTransaction) :
    Within Continues (PackageTransactionStore.update t).run :=
  within_attempt_bind (within_ofExcept _) fun _ => within_call _ trivial

theorem continues_archive (t : PackageTransaction) :
    Within Continues (PackageTransactionStore.archive t).run :=
  within_attempt_bind (within_ofExcept _) fun _ =>
    within_attempt_bind (continues_update t) fun _ => within_call _ trivial

theorem continues_of_neutral {p : Prog HostOp HostOp.Ans α} (h : Within Neutral p) :
    Within Continues p := by
  refine h.mono fun op hop => ?_
  cases op with
  | package op =>
    cases op with
    | load => exact hop
    | _ => trivial
  | _ => exact hop

theorem continues_interruptAndArchive (t : PackageTransaction) (failure : String) :
    Within Continues (PackageHook.interruptAndArchive t failure).run :=
  within_attempt_bind (within_call _ trivial) fun _ =>
    within_attempt_bind (within_ofExcept _) fun _ => continues_archive _

theorem continues_createApt (title : String) (kind : DeploymentKind) (label : String)
    (id : DeploymentId) : Within Continues (PackageHook.createApt title kind label id).run :=
  within_attempt_bind (within_call _ trivial) fun _ =>
    within_attempt_bind (within_mapError (within_attempt_bind (within_ofExcept _) fun _ =>
      continues_of_neutral (neutral_createSnapshot _ _ _))) fun _ => within_pure _

/-- The operations while the start lock is held and no rollback is pending. -/
def Begins : HostOp → Prop
  | .package _ => True
  | op => Neutral op

theorem begins_of_continues {p : Prog HostOp HostOp.Ans α} (h : Within Continues p) :
    Within Begins p := by
  refine h.mono fun op hop => ?_
  cases op with
  | package op => trivial
  | _ => exact hop

theorem begins_safe {p : Prog HostOp HostOp.Ans α} (hp : Within Begins p)
    (h : Slot calls i possible s ∧ Held i s ∧ s.world.pending = none) :
    CallSafe hdistinct i p
      (fun _ s => Slot calls i possible s ∧ Held i s ∧ s.world.pending = none) s := by
  refine Safe.of_within (stable_of_lasting lasting_noPending) (fun op k s hop _ _ hone h => ?_) hp h
  obtain ⟨hslot, hheld, hnone⟩ := h
  have hneutral : Neutral op → OnePending (handle i op k s).2 ∧
      Respects calls i s (handle i op k s).2 ∧ Slot calls i possible (handle i op k s).2 ∧
      Held i (handle i op k s).2 ∧ (handle i op k s).2.world.pending = none := by
    intro hop
    obtain ⟨hunwritten, hholder⟩ := neutral_unwritten (i := i) hop k s
    exact ⟨hunwritten.onePending hone, hunwritten.respects (.inl hholder), hunwritten.slot hslot,
      hholder.trans hheld, hunwritten.pending.trans hnone⟩
  cases op with
  | package op =>
    obtain ⟨hone', hrespects, hslot', hpending⟩ :=
      @package_step _ calls i s possible op k hone hslot fun _ _ => ⟨hheld, hnone⟩
    exact ⟨hone', hrespects, hslot', hheld, hpending.trans hnone⟩
  | _ => exact hneutral hop

theorem beginTransactionLocked_safe (id : Uuid) (hslot : Slot calls i none s) (hheld : Held i s) :
    CallSafe hdistinct i (PackageHook.beginTransactionLocked id).run
      (fun _ s => Slot calls i none s ∧ Held i s) s := by
  refine safe_attempt_bind (safe_mapError ((loadRollback_safe ⟨hslot, hheld⟩).mono
    fun r s₁ _ h₁ s₂ hexpects hone => ?_))
  have h₂ : Slot calls i none s₂ ∧ Held i s₂ :=
    ⟨h₁.1.1.of_expects hexpects, (hexpects.held h₁.1.2).1⟩
  cases r with
  | error e => exact fun s₃ hexpects₃ _ => ⟨h₂.1.of_expects hexpects₃, (hexpects₃.held h₂.2).1⟩
  | ok found =>
    cases found with
    | some t => exact safe_throw (fun _ => stable_of_lasting lasting_held) h₂
    | none =>
      have hnone : s₂.world.pending = none := (hexpects.held h₁.1.2).2.1 (h₁.2 rfl)
      have hstale : ∀ stale, Within Begins (PackageHook.archiveStale stale).run := by
        intro stale
        unfold PackageHook.archiveStale
        split_ifs
        · exact begins_of_continues (continues_archive _)
        · exact within_attempt_bind (within_call _ trivial) fun _ =>
            within_attempt_bind (within_ofExcept _) fun _ =>
            begins_of_continues (continues_archive _)
      have hload : Within Begins PackageTransactionStore.loadPending.run :=
        begins_of_continues (continues_of_neutral neutral_loadPackage)
      refine (begins_safe (within_attempt_bind hload fun found => ?_) ⟨h₂.1, h₂.2, hnone⟩).mono
        fun _ s₃ _ h₃ => ⟨h₃.1, h₃.2.1⟩
      have hcreate : ∀ now : Timestamp, Within Begins
          (PackageTransactionStore.create (PackageTransaction.new id now)).run := fun now =>
        within_attempt_bind (within_ofExcept _) fun _ => within_call _ trivial
      cases found with
      | none =>
        exact within_attempt_bind (within_call _ trivial) fun now =>
          within_attempt_bind (hcreate now) fun _ => within_pure _
      | some stale =>
        exact within_attempt_bind (hstale stale) fun _ =>
          within_attempt_bind (within_call _ trivial) fun now =>
          within_attempt_bind (hcreate now) fun _ => within_pure _

theorem beginTransaction_safe (id : Uuid) (h : Slot calls i none s) :
    CallSafe hdistinct i (PackageHook.beginTransaction id).run
      (fun _ s => Slot calls i none s) s := by
  refine safe_attempt_bind ((continues_safe (continues_of_neutral
    (neutral_inspectLayout (ε := String))) h).mono fun r s₁ _ h₁ => ?_)
  cases r with
  | error e => exact fun s₂ hexpects _ => h₁.of_expects hexpects
  | ok report =>
    refine safe_attempt_bind ((safe_ofExcept (fun _ => stable_slot) h₁).mono fun r s₂ _ h₂ => ?_)
    cases r with
    | error e => exact fun s₃ hexpects _ => h₂.of_expects hexpects
    | ok u =>
      exact safe_withStartLock (fun e => ⟨e, rfl⟩) rfl (fun _ => rfl)
        (fun s₃ hslot hheld => beginTransactionLocked_safe id hslot hheld) h₂

theorem beforePackages_safe (policy : AptSnapshotPolicy) (ids : PackageIds)
    (h : Slot calls i none s) :
    CallSafe hdistinct i (PackageHook.beforePackages policy ids).run
      (fun _ s => Slot calls i none s) s := by
  unfold PackageHook.beforePackages
  split_ifs with hpolicy hbefore
  · exact safe_pure (fun _ => stable_slot) h
  · refine safe_attempt_bind ((beginTransaction_safe ids.transaction h).mono fun r s₁ _ h₁ => ?_)
    cases r with
    | error e => exact fun s₂ hexpects _ => h₁.of_expects hexpects
    | ok transaction =>
      refine continues_safe (within_attempt_bind (within_outcome (continues_createApt _ _ _ _))
        fun created => ?_) h₁
      cases created with
      | error e =>
        exact within_attempt_bind (continues_interruptAndArchive _ _) fun _ => within_throw _
      | ok deployment =>
        refine within_attempt_bind ?_ fun _ => within_pure _
        refine within_attempt_bind (within_call _ trivial) fun now =>
          within_attempt_bind (within_ofExcept _) fun recorded => ?_
        split_ifs
        · exact within_attempt_bind (continues_update _) fun _ => within_pure _
        · exact within_attempt_bind (within_call _ trivial) fun _ =>
            within_attempt_bind (within_ofExcept _) fun _ =>
            within_attempt_bind (continues_archive _) fun _ => within_pure _
  · refine safe_attempt_bind ((beginTransaction_safe ids.transaction h).mono fun r s₁ _ h₁ => ?_)
    cases r with
    | error e => exact fun s₂ hexpects _ => h₁.of_expects hexpects
    | ok transaction =>
      exact continues_safe (within_attempt_bind (within_call _ trivial) fun now =>
        within_attempt_bind (within_ofExcept _) fun _ =>
        within_attempt_bind (continues_update _) fun _ => within_pure _) h₁

theorem afterPackages_safe (policy : AptSnapshotPolicy) (id : DeploymentId)
    (h : Slot calls i none s) :
    CallSafe hdistinct i (PackageHook.afterPackages policy id).run
      (fun _ s => Slot calls i none s) s := by
  have hpost : ∀ t, Within Continues (PackageHook.recordPostSnapshot t id).run := by
    intro t
    refine within_attempt_bind (within_outcome (continues_createApt _ _ _ _)) fun created => ?_
    cases created with
    | error e =>
      exact within_attempt_bind (continues_interruptAndArchive _ _) fun _ => within_throw _
    | ok deployment =>
      exact within_attempt_bind (within_call _ trivial) fun _ =>
        within_attempt_bind (within_ofExcept _) fun _ =>
        within_attempt_bind (continues_archive _) fun _ => within_pure _
  have hfinish : ∀ t, Within Continues (PackageHook.finishWithoutPost t).run := by
    intro t
    unfold PackageHook.finishWithoutPost
    split_ifs
    · exact within_attempt_bind (within_call _ trivial) fun _ =>
        within_attempt_bind (within_ofExcept _) fun _ => continues_archive _
    · exact continues_interruptAndArchive _ _
  refine continues_safe (within_attempt_bind (continues_of_neutral neutral_loadPackage)
    fun found => ?_) h
  split_ifs
  · cases found with
    | none => exact within_throw _
    | some t =>
      simp only
      split_ifs
      · exact within_attempt_bind (hpost t) fun _ => within_pure _
      · exact within_throw _
      · exact within_attempt_bind (continues_interruptAndArchive _ _) fun _ => within_throw _
  · cases found with
    | none => exact within_pure _
    | some t =>
      simp only
      split_ifs
      · exact within_attempt_bind (hfinish t) fun _ => within_pure _
      · exact within_pure _

end Packages

section Delete

theorem deleteWithRestorableFloor_safe (layout : LayoutSupport) (id : DeploymentId)
    (minimum : Option ℕ) (h : Slot calls i none s) :
    CallSafe hdistinct i (Operations.deleteWithRestorableFloor layout id minimum).run
      (fun _ s => Slot calls i none s) s := by
  have hlayout : Within Neutral (Operations.ensureSupportedLayout layout).run := within_ofExcept _
  have hstore : Within Neutral Operations.ensureStoreDirectories.run := within_call _ trivial
  have hacquire : Within Neutral Operations.acquireLock.run := within_call _ trivial
  have hdelete : ∀ s, Slot calls i none s → CallSafe hdistinct i
      (Operations.withLock Operations.acquireStart .releaseStart
        (Operations.deleteLocked id minimum)).run (fun _ s => Slot calls i none s) s := by
    intro s h
    refine safe_withStartLock (fun e => ⟨_, rfl⟩) rfl (fun _ => rfl) (fun s₁ hslot hheld => ?_) h
    exact safe_neutral lasting_held (neutral_of_confined (Operations.confined_deleteLocked minimum))
      ⟨hslot, hheld⟩
  refine safe_attempt_bind ((safe_neutral lasting_true hlayout ⟨h, trivial⟩).mono
    fun r s₁ _ h₁ => ?_)
  cases r with
  | error e => exact fun s₂ hexpects _ => h₁.1.of_expects hexpects
  | ok u =>
    refine safe_attempt_bind ((safe_neutral lasting_true hstore h₁).mono fun r s₂ _ h₂ => ?_)
    cases r with
    | error e => exact fun s₃ hexpects _ => h₂.1.of_expects hexpects
    | ok u =>
      refine safe_attempt_bind ((safe_neutral lasting_true hacquire h₂).mono fun r s₃ _ h₃ => ?_)
      cases r with
      | error e => exact fun s₄ hexpects _ => h₃.1.of_expects hexpects
      | ok u =>
        refine safe_attempt_bind (safe_outcome ((hdelete s₃ h₃.1).mono
          fun r s₄ _ h₄ s₅ hexpects₅ _ => ?_))
        have hrelease : Within Neutral (do
            let _ : Unit ← Attempt.call (.lock .releaseOperation) fun _ => .ok ()
            Attempt.ofExcept r : Action OperationError Unit).run :=
          within_attempt_bind (within_call _ trivial) fun _ => within_ofExcept _
        exact (safe_neutral lasting_true hrelease ⟨h₄.of_expects hexpects₅, trivial⟩).mono
          fun _ _ _ h => h.1

end Delete

section Results

variable [DecidableEq ι]

theorem call_safe (h : Slot calls i none s) :
    CallSafe hdistinct i (calls i).program (Settled calls i) s := by
  have hfinished : ∀ {ε α : Type} {x : Action ε α},
      CallSafe hdistinct i x.run (fun _ _ => True) s →
        CallSafe hdistinct i (x.run >>= fun _ => pure CallResult.finished) (Settled calls i) s := by
    intro ε α x hx
    exact safe_bind (hx.mono fun _ _ _ _ => safe_done stable_settled trivial)
  cases hcall : calls i with
  | schedule target id fallback =>
    refine safe_bind ((schedule_safe hcall h).mono fun r s₁ _ h₁ => ?_)
    exact safe_done stable_settled h₁
  | cancel => exact hfinished (cancel_safe hcall)
  | beforePackages policy ids =>
    exact hfinished ((beforePackages_safe policy ids h).mono fun _ _ _ _ => trivial)
  | afterPackages policy id =>
    exact hfinished ((afterPackages_safe policy id h).mono fun _ _ _ _ => trivial)
  | delete layout id =>
    exact hfinished ((deleteWithRestorableFloor_safe layout id none h).mono fun _ _ _ _ => trivial)
  | deleteAutomatic layout id minimum =>
    exact hfinished
      ((deleteWithRestorableFloor_safe layout id (some minimum) h).mono fun _ _ _ _ => trivial)

/-- In every interleaving of undisturbed steps, at most one transaction is pending, of
whichever kind. A call that has scheduled a restore has it pending, armed and selected until
a cancelling call acts on it, and a scheduling call that has failed left the pending
transaction and the entry as it found them. -/
theorem scheduled_restore_is_kept {w₀ : World} (h : Initial calls w₀)
    {c : Config ι HostOp HostOp.Ans CallResult (Shared ι)}
    (hreaches : Reaches machine (Undisturbed calls) (start calls w₀) c) :
    (c.state.world.pending = none ∨ c.state.world.package = none) ∧
    (∀ i t, c.threads i = .done (.scheduled (.ok t)) → t.phase = .armed ∧
      ((∀ e ∈ since i c.state.trace, ¬ CancelAct calls e) → Scheduled t c.state.world)) ∧
    ∀ i e, c.threads i = .done (.scheduled (.error e)) → LeftAsFound calls i c.state := by
  have hslot : ∀ i, Slot calls i none (start calls w₀).state := by
    intro i
    refine ⟨fun t hown hpending => absurd hown (h.fresh t hpending i), fun e he => ?_⟩
    cases he
  have hsafe : ∀ i, CallSafe h.distinct i ((start calls w₀).threads i) (Settled calls i)
      (start calls w₀).state := fun i => call_safe (hslot i)
  refine ⟨(Safe.reaches (P := protocol h.distinct) hreaches h.one hsafe).1, ?_, ?_⟩
  · intro i t hdone
    have hsettled := Safe.result (P := protocol h.distinct) hreaches h.one hsafe hdone
    exact hsettled.2
  · intro i e hdone
    exact Safe.result (P := protocol h.distinct) hreaches h.one hsafe hdone

end Results

section Instance

/-! Two calls that schedule a restore of the same snapshot. -/

/-- The condition of a step, evaluated. -/
def undisturbed (calls : ι → Call) (i : ι) (op : HostOp) (k : Choice) (s : Shared ι) : Bool :=
  match calls i, op with
  | .schedule _ id _, .rollback (.replace _) =>
    k.fault.isSome || decide (∀ t ∈ s.world.pending, t.id = id)
  | .schedule _ id _, .boot .armOnce => k.fault.isSome || decide (∀ t ∈ s.world.pending, t.id = id)
  | .schedule _ _ _, .boot .clearOnce => k.fault.isSome || s.world.boot.nextEntry = none
  | .schedule _ id _, .rollback .remove =>
    decide (∀ t ∈ s.world.pending, t.id = id ↔ k.fault = none)
  | _, _ => true

theorem undisturbed_iff (calls : ι → Call) (i : ι) (op : HostOp) (k : Choice) (s : Shared ι) :
    undisturbed calls i op k s = true ↔ Undisturbed calls i op k s := by
  unfold undisturbed Undisturbed
  split <;> simp

instance (calls : ι → Call) (i : ι) (op : HostOp) (k : Choice) (s : Shared ι) :
    Decidable (Undisturbed calls i op k s) :=
  decidable_of_iff _ (undisturbed_iff calls i op k s)

def twoCalls : Fin 2 → Call
  | 0 => .schedule (.repeated 2) (.repeated 10) (.repeated 11)
  | 1 => .schedule (.repeated 2) (.repeated 12) (.repeated 13)

theorem twoCalls_distinct : Distinct twoCalls := by
  have hids : ∀ i j : Fin 2,
      (twoCalls i).transactionId = (twoCalls j).transactionId → i = j := by decide
  intro i j t hi hj
  exact hids i j (hi.trans hj.symm)

def idleWorld : World :=
  { RollbackSafety.sampleWorld with pending := none, boot := ⟨none, none⟩ }

theorem idleWorld_initial : Initial twoCalls idleWorld where
  distinct := twoCalls_distinct
  fresh := fun t ht => by cases ht
  one := .inl rfl

/-- The steps of a successful call up to the claim of the start lock. -/
def preparation : List Choice :=
  List.replicate 12 RollbackSafety.success ++
    [{ RollbackSafety.success with text := "" }] ++ List.replicate 2 RollbackSafety.success ++
    [{ RollbackSafety.success with text := (Uuid.repeated 4).hyphenated }] ++
    List.replicate 24 RollbackSafety.success

def publication : List Choice :=
  List.replicate 9 RollbackSafety.success

/-- A failed publication, the cleanup after it and the regeneration of the menu. -/
def failedPublication : List Choice :=
  List.replicate 7 RollbackSafety.success

def isScheduled (p : Prog HostOp HostOp.Ans CallResult) : Bool :=
  match p with
  | .done (.scheduled (.ok _)) => true
  | _ => false

theorem done_of_isScheduled {p : Prog HostOp HostOp.Ans CallResult} (h : isScheduled p = true) :
    ∃ t, p = .done (.scheduled (.ok t)) := by
  unfold isScheduled at h
  split at h
  · exact ⟨_, rfl⟩
  · cases h

theorem scheduled_alone_runs :
    ((start twoCalls idleWorld).runTurns machine (Undisturbed twoCalls)
      [(0, preparation ++ publication)]).any (fun c => isScheduled (c.threads 0)) = true := by
  decide +kernel

theorem twoCalls_no_cancel (e : Event (Fin 2)) : ¬ CancelAct twoCalls e := by
  obtain ⟨thread, op, before, after⟩ := e
  fin_cases thread <;> exact id

/-- A call that meets no other call schedules its restore. -/
theorem scheduled_alone_is_kept :
    ∃ c t, Reaches machine (Undisturbed twoCalls) (start twoCalls idleWorld) c ∧
      c.threads 0 = .done (.scheduled (.ok t)) ∧ Scheduled t c.state.world := by
  obtain ⟨c, hrun, hscheduled⟩ := (Option.any_eq_true _ _).mp scheduled_alone_runs
  obtain ⟨t, hdone⟩ := done_of_isScheduled hscheduled
  have hreaches := reaches_runTurns hrun
  have hkept := (scheduled_restore_is_kept idleWorld_initial hreaches).2.1 0 t hdone
  exact ⟨c, t, hreaches, hdone, hkept.2 fun e _ => twoCalls_no_cancel e⟩

/-- Two calls prepare a restore; the first publishes, and the cleanup after the failed
publication of the second removes the transaction of the first. -/
theorem interrupted_runs :
    ((start twoCalls idleWorld).runTurns machine (fun _ _ _ _ => True)
      [(1, preparation), (0, preparation ++ publication), (1, failedPublication)]).any
      (fun c => isScheduled (c.threads 0) && c.state.world.pending.isNone) = true := by
  decide +kernel

/-- Without a condition on the steps a scheduled restore is lost. -/
theorem scheduled_restore_is_lost :
    ¬ ∀ c, Reaches machine (fun _ _ _ _ => True) (start twoCalls idleWorld) c →
      ∀ i t, c.threads i = .done (.scheduled (.ok t)) →
        (∀ e ∈ since i c.state.trace, ¬ CancelAct twoCalls e) → Scheduled t c.state.world := by
  intro hkept
  obtain ⟨c, hrun, hlost⟩ := (Option.any_eq_true _ _).mp interrupted_runs
  rw [Bool.and_eq_true, Option.isNone_iff_eq_none] at hlost
  obtain ⟨t, hdone⟩ := done_of_isScheduled hlost.1
  have hscheduled := hkept c (reaches_runTurns hrun) 0 t hdone fun e _ => twoCalls_no_cancel e
  rw [hscheduled.1] at hlost
  exact absurd hlost.2 (by simp)

end Instance

end OtherCalls

end ScheduledRestore

end RecoveryEngine
