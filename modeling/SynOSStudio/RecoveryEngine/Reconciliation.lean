import SynOSStudio.RecoveryEngine.RollbackSafety.Boots

/-!
# Reconciling a terminal transaction over interrupted runs

`reconcile` repeats all of its bookkeeping as long as the transaction is pending, and
stops once it removed it. Whatever runs were cut off before, a completed run leaves
everything recorded, except that GRUB is only regenerated by the run that removed the
transaction, directly after it did.
-/

namespace RecoveryEngine

open InterruptiblePrograms RollbackSafety

namespace Reconciliation

/-- The pending transaction was removed. -/
def removed : Entry HostOp HostOp.Ans :=
  ⟨.rollback .remove, (.ok () : Except String Unit)⟩

/-- GRUB was regenerated. -/
def regenerated : Entry HostOp HostOp.Ans :=
  ⟨.boot .regenerateGrub, (.ok () : Except String Unit)⟩

/-- No run was cut off or failed between removing the transaction and regenerating GRUB. -/
def Unbroken (log : Log) : Prop :=
  ∀ before after, log = before ++ removed :: after → ∃ rest, after = regenerated :: rest

/-- One run, cut off where the script ends. -/
def reconcileRun (script : List Choice) (s : State) :
    Option (Except ConfirmationError ConfirmationOutcome) × State :=
  Confirmation.reconcile.run.run (logged perform) script s

/-- The state after a sequence of runs, each cut off anywhere. -/
def afterRuns (scripts : List (List Choice)) (s : State) : State :=
  scripts.foldl (fun s script => (reconcileRun script s).2) s

section Statement

/-- The start: a terminal transaction is pending, the GRUB configuration was generated for a
pending transaction, and only a confirmed transaction may have its old root scheduled. -/
structure Terminal (t : RollbackTransaction) (w : World) : Prop where
  pending : w.pending = some t
  terminal : t.phase = .confirmed ∨ t.phase = .reverted ∨ t.phase = .failed
  menu : w.boot.menu ≠ none
  unscheduled : t.phase ≠ .confirmed → ∀ record ∈ w.cleanups, record.transactionId ≠ t.id

/-- The activation that the phase stands for is recorded, exactly once. A failed transaction
activated nothing. -/
def Activated (t : RollbackTransaction) (lineage : LineageStore) : Prop :=
  match t.phase with
  | .confirmed => ∃ l, lineage.file = some l ∧ l.Records t.id .confirmed
  | .reverted => ∃ l, lineage.file = some l ∧ l.Records t.id .reverted
  | _ => True

def Scheduled (t : RollbackTransaction) (w : World) : Prop :=
  ∃ record ∈ w.cleanups, record.transactionId = t.id ∧ record.oldRootName = t.oldRootName

/-- The bookkeeping that is complete once the transaction is no longer pending. -/
structure Recorded (t : RollbackTransaction) (w₀ w : World) : Prop where
  pending : w.pending = none
  history : w.history = Function.update w₀.history t.id (some t)
  activated : Activated t w.lineage
  failed : t.phase = .failed → w.lineage = w₀.lineage
  nextEntry : w.boot.nextEntry = none
  /-- The old root of a confirmed restore is scheduled for deletion or is gone. -/
  scheduled : t.phase = .confirmed → Scheduled t w ∨ w.disk.top t.oldRootName = none

/-- The state that a single uninterrupted run reaches. -/
structure Finished (t : RollbackTransaction) (w₀ w : World) : Prop where
  recorded : Recorded t w₀ w
  menu : w.boot.menu = none

/-- The old root is as it was, unless the confirmation and its activation are durable. -/
def OldRootKept (t : RollbackTransaction) (w₀ w : World) : Prop :=
  w.disk.top t.oldRootName = w₀.disk.top t.oldRootName ∨
    t.phase = .confirmed ∧ ∃ l, w.lineage.file = some l ∧ l.Records t.id .confirmed

end Statement

section Logs

/-- The transaction was removed and the next operation regenerated GRUB. -/
def Complete (log : Log) : Prop :=
  ∃ before after, log = before ++ removed :: regenerated :: after ∧ removed ∉ before ∧
    removed ∉ after

/-- The transaction was removed and the next operation did not regenerate GRUB. -/
def Stuck (log : Log) : Prop :=
  ∃ before after, log = before ++ removed :: after ∧ after.head? ≠ some regenerated

theorem removed_ne_regenerated : removed ≠ regenerated := by
  intro h
  cases congrArg Sigma.fst h

/-- A list splits in one way only around its single occurrence of an element. -/
theorem split_unique {α : Type} {x : α} {l₁ l₂ r₁ r₂ : List α} (hl : x ∉ l₁) (hr : x ∉ r₁)
    (h : l₁ ++ x :: r₁ = l₂ ++ x :: r₂) : r₁ = r₂ := by
  induction l₁ generalizing l₂ with
  | nil =>
    cases l₂ with
    | nil => simpa using h
    | cons y l₂ =>
      obtain ⟨rfl, htail⟩ := List.cons.inj h
      exact absurd (htail ▸ by simp) hr
  | cons y l₁ ih =>
    cases l₂ with
    | nil =>
      obtain ⟨rfl, -⟩ := List.cons.inj h
      exact absurd List.mem_cons_self hl
    | cons z l₂ => exact ih (fun hmem => hl (List.mem_cons_of_mem y hmem)) (List.cons.inj h).2

theorem Complete.unbroken {log : Log} (h : Complete log) : Unbroken log := by
  obtain ⟨before, after, rfl, hbefore, hafter⟩ := h
  intro b a heq
  have hne : removed ∉ regenerated :: after := by
    simpa [removed_ne_regenerated] using hafter
  exact ⟨after, (split_unique hbefore hne heq).symm⟩

theorem Stuck.not_unbroken {log : Log} (h : Stuck log) : ¬ Unbroken log := by
  obtain ⟨before, after, rfl, hhead⟩ := h
  intro hunbroken
  obtain ⟨rest, rfl⟩ := hunbroken before after rfl
  exact hhead rfl

theorem Complete.append {log : Log} {entry : Entry HostOp HostOp.Ans} (h : Complete log)
    (hne : entry ≠ removed) : Complete (log ++ [entry]) := by
  obtain ⟨before, after, rfl, hbefore, hafter⟩ := h
  refine ⟨before, after ++ [entry], by simp, hbefore, ?_⟩
  simpa [hafter] using hne.symm

theorem Stuck.append {log : Log} {entry : Entry HostOp HostOp.Ans} (h : Stuck log)
    (hne : entry ≠ regenerated) : Stuck (log ++ [entry]) := by
  obtain ⟨before, after, rfl, hhead⟩ := h
  refine ⟨before, after ++ [entry], by simp, ?_⟩
  cases after with
  | nil => simpa using hne
  | cons e es => simpa using hhead

end Logs

section Operations

/-- The operations that leave alone everything a reconciliation is about. -/
def Reads : HostOp → Prop
  | .now | .record _ | .package _ | .lock _ => True
  | .disk op => Quiet (.disk op)
  | .rollback .load | .cleanup .list | .cleanup (.load _) => True
  | .boot .armOnce | .boot .clearOnce | .boot .regenerateGrub => False
  | .boot _ => True
  | _ => False

/-- Two worlds with the same records of the restore, the same volume and GRUB state. -/
structure Same (w w' : World) : Prop where
  pending : w'.pending = w.pending
  history : w'.history = w.history
  lineage : w'.lineage = w.lineage
  cleanups : w'.cleanups = w.cleanups
  disk : w'.disk = w.disk
  boot : w'.boot = w.boot

/-- An operation without an effect on the world. -/
theorem same_orFault {α : Type} {k : Choice} {w : World} {r : Except String α × World}
    (h : r.2 = w) : Same w (orFault k w r).2 := by
  have heq : (orFault k w r).2 = w := by
    rcases orFault_world k w r with he | he
    · exact he
    · exact he.trans h
  rw [heq]
  exact ⟨rfl, rfl, rfl, rfl, rfl, rfl⟩

theorem perform_reads {op : HostOp} (h : Reads op) (k : Choice) (w : World) :
    Same w (perform op k w).2 := by
  cases op with
  | now => exact ⟨rfl, rfl, rfl, rfl, rfl, rfl⟩
  | disk op =>
    have hquiet : Quiet (.disk op) := h
    have hdisk := (perform_quiet hquiet k w).2
    obtain ⟨disk, he⟩ := perform_disk k w op
    rw [he] at hdisk ⊢
    exact ⟨rfl, rfl, rfl, rfl, hdisk, rfl⟩
  | record op =>
    obtain ⟨_, he⟩ := perform_record k w op
    rw [he]
    exact ⟨rfl, rfl, rfl, rfl, rfl, rfl⟩
  | package op =>
    obtain ⟨_, _, he⟩ := perform_package k w op
    rw [he]
    exact ⟨rfl, rfl, rfl, rfl, rfl, rfl⟩
  | lock op =>
    obtain ⟨_, he⟩ := perform_lock k w op
    rw [he]
    exact ⟨rfl, rfl, rfl, rfl, rfl, rfl⟩
  | lineage mutation => cases h
  | rollback op =>
    cases op with
    | load => exact same_orFault rfl
    | _ => cases h
  | cleanup op =>
    cases op with
    | list | load id => exact same_orFault rfl
    | _ => cases h
  | boot op =>
    cases op with
    | armOnce | clearOnce | regenerateGrub => cases h
    | verifyGrubEntry t =>
      refine same_orFault ?_
      by_cases he : World.menuEntry w.boot.menu = some t.grubEntryId <;>
        simp only [World.bootEffect, he, if_true, if_false]
    | _ => exact same_orFault rfl

theorem ne_removed_of_reads {op : HostOp} (h : Reads op) (r : op.Ans) :
    (⟨op, r⟩ : Entry HostOp HostOp.Ans) ≠ removed := by
  intro heq
  obtain rfl : op = .rollback .remove := congrArg Sigma.fst heq
  exact h

theorem ne_regenerated_of_reads {op : HostOp} (h : Reads op) (r : op.Ans) :
    (⟨op, r⟩ : Entry HostOp HostOp.Ans) ≠ regenerated := by
  intro heq
  obtain rfl : op = .boot .regenerateGrub := congrArg Sigma.fst heq
  exact h

end Operations

section Invariant

variable (t : RollbackTransaction) (w₀ : World)

/-- The transaction is still pending. `stage` counts the steps of the current run: the
activation, the scheduled deletion, the boot entry and the history entry. -/
structure Replaying (stage : ℕ) (s : State) : Prop where
  pending : s.1.pending = some t
  others : ∀ id, id ≠ t.id → s.1.history id = w₀.history id
  oldRoot : s.1.disk.top t.oldRootName = w₀.disk.top t.oldRootName
  menu : s.1.boot.menu = w₀.boot.menu
  unscheduled : t.phase ≠ .confirmed → ∀ record ∈ s.1.cleanups, record.transactionId ≠ t.id
  lineage : t.phase = .failed → s.1.lineage = w₀.lineage
  log : removed ∉ s.2
  activated : 1 ≤ stage → Activated t s.1.lineage
  scheduled : 2 ≤ stage → t.phase = .confirmed → Scheduled t s.1
  nextEntry : 3 ≤ stage → s.1.boot.nextEntry = none
  archived : 4 ≤ stage → s.1.history t.id = some t

/-- A stage says nothing of those after it. -/
theorem before {stage later : ℕ} {P : Prop} (h : stage < later) (hle : later ≤ stage) : P :=
  absurd h (not_lt.mpr hle)

/-- The transaction was removed. -/
structure Settled (s : State) : Prop where
  recorded : Recorded t w₀ s.1
  oldRoot : t.phase ≠ .confirmed → s.1.disk.top t.oldRootName = w₀.disk.top t.oldRootName ∧
    ∀ record ∈ s.1.cleanups, record.transactionId ≠ t.id
  grub : s.1.boot.menu = none ∧ Complete s.2 ∨ s.1.boot.menu = w₀.boot.menu ∧ Stuck s.2

/-- The invariant of every run. -/
def Inv (s : State) : Prop :=
  Replaying t w₀ 0 s ∨ Settled t w₀ s

abbrev Always {α : Type} (p : Prog HostOp HostOp.Ans α) (post : α → State → Prop) (s : State) :
    Prop :=
  Keeps (logged perform) (fun _ => True) (Inv t w₀) p post s

end Invariant

variable {t : RollbackTransaction} {w₀ : World} {stage : ℕ} {s : State}

section Replay

theorem Replaying.restart (h : Replaying t w₀ stage s) : Replaying t w₀ 0 s where
  pending := h.pending
  others := h.others
  oldRoot := h.oldRoot
  menu := h.menu
  unscheduled := h.unscheduled
  lineage := h.lineage
  log := h.log
  activated hstage := absurd hstage (by decide)
  scheduled hstage := absurd hstage (by decide)
  nextEntry hstage := absurd hstage (by decide)
  archived hstage := absurd hstage (by decide)

theorem Replaying.inv (h : Replaying t w₀ stage s) : Inv t w₀ s :=
  .inl h.restart

theorem not_mem_append_singleton {α : Type} {x y : α} {l : List α} (h : x ∉ l) (hne : y ≠ x) :
    x ∉ l ++ [y] := by
  simp [h, hne.symm]

theorem Replaying.of_same {w : World} {entry : Entry HostOp HostOp.Ans}
    (h : Replaying t w₀ stage s) (hsame : Same s.1 w) (hne : entry ≠ removed) :
    Replaying t w₀ stage (w, s.2 ++ [entry]) where
  pending := hsame.pending.trans h.pending
  others id hid := (congrFun hsame.history id).trans (h.others id hid)
  oldRoot := by rw [hsame.disk]; exact h.oldRoot
  menu := by rw [hsame.boot]; exact h.menu
  unscheduled hp := by rw [hsame.cleanups]; exact h.unscheduled hp
  lineage hp := hsame.lineage.trans (h.lineage hp)
  log := not_mem_append_singleton h.log hne
  activated hs := by rw [hsame.lineage]; exact h.activated hs
  scheduled hs hp := by
    unfold Scheduled
    rw [hsame.cleanups]
    exact h.scheduled hs hp
  nextEntry hs := by rw [hsame.boot]; exact h.nextEntry hs
  archived hs := (congrFun hsame.history t.id).trans (h.archived hs)

theorem Replaying.reads_spec {α : Type} {p : Prog HostOp HostOp.Ans α}
    (h : Replaying t w₀ stage s) (hp : Within Reads p) :
    Always t w₀ p (fun _ s' => Replaying t w₀ stage s') s :=
  Keeps.of_within (fun _ k s hop _ hs => hs.of_same (perform_reads hop k s.1)
    (ne_removed_of_reads hop _)) (fun _ hs => hs.inv) hp h

/-- A mutation of the lineage, which a failed transaction does not make. -/
theorem mutateLineage_spec (mutation : LineageMutation) (hphase : t.phase ≠ .failed)
    (h : Replaying t w₀ 0 s) :
    Always t w₀ (Confirmation.mutateLineage mutation).run (fun r s' => Replaying t w₀ 0 s' ∧
      ∀ lineage, r = .ok lineage → ∃ store,
        s.1.lineage.mutate mutation = .ok (lineage, store) ∧ s'.1.lineage = store) s := by
  refine (keeps_attempt_call _ _ _ _).mpr ⟨h.inv, fun k _ => ?_⟩
  have hkept : Replaying t w₀ 0 (logged perform (.lineage mutation) k s).2 := by
    obtain ⟨lineage, he⟩ := perform_lineage k s.1 mutation
    have hne : (⟨.lineage mutation, (perform (.lineage mutation) k s.1).1⟩ :
        Entry HostOp HostOp.Ans) ≠ removed := by
      intro heq
      cases congrArg Sigma.fst heq
    have hlog := not_mem_append_singleton h.log hne
    simp only [logged, he]
    exact ⟨h.pending, h.others, h.oldRoot, h.menu, h.unscheduled, fun hp => absurd hp hphase,
      hlog, before (by decide), before (by decide), before (by decide), before (by decide)⟩
  refine ⟨hkept, fun lineage hok => ?_⟩
  rcases orFault_cases k s.1 (.ok (s.1.lineageEffect mutation).1, (s.1.lineageEffect mutation).2)
    with ⟨e, he⟩ | he
  · have hperform : perform (.lineage mutation) k s.1 = (.error e, s.1) := he
    simp only [logged, hperform] at hok
    cases hok
  · have hperform : perform (.lineage mutation) k s.1 = _ := he
    simp only [logged, hperform, World.lineageEffect] at hok ⊢
    cases hmutate : s.1.lineage.mutate mutation with
    | error e =>
      simp only [hmutate] at hok
      cases hok
    | ok result =>
      simp only [hmutate] at hok ⊢
      cases hok
      exact ⟨result.2, rfl, rfl⟩

theorem recordLineageActivation_spec {outcome : ActivationOutcome}
    (hphase : t.phase = .confirmed ∧ outcome = .confirmed ∨
      t.phase = .reverted ∧ outcome = .reverted) (h : Replaying t w₀ 0 s) :
    Always t w₀ (Confirmation.recordLineageActivation t outcome).run (fun r s' =>
      match r with
      | .ok _ => Replaying t w₀ 1 s'
      | .error _ => Replaying t w₀ 0 s') s := by
  have hfailed : t.phase ≠ .failed := by
    rcases hphase with ⟨hp, -⟩ | ⟨hp, -⟩ <;> simp [hp]
  have hdiscover : Within Reads (DeploymentStore.discover :
      Action ConfirmationError DiscoveryReport).run := within_call _ trivial
  have hnow : Within Reads (utcNow : Action ConfirmationError Timestamp).run :=
    within_call _ trivial
  refine (keeps_attempt_bind _ _ _ _).mpr ((h.reads_spec hdiscover).mono fun r s₁ h₁ => ?_)
  cases r with
  | error e => exact h₁
  | ok report =>
    refine (keeps_attempt_bind _ _ _ _).mpr
      ((mutateLineage_spec _ hfailed h₁).mono fun r s₂ h₂ => ?_)
    cases r with
    | error e => exact h₂.1
    | ok lineage =>
      refine (keeps_attempt_bind _ _ _ _).mpr ((h₂.1.reads_spec hnow).mono fun r s₃ h₃ => ?_)
      cases r with
      | error e => exact h₃
      | ok now =>
        refine (keeps_attempt_bind _ _ _ _).mpr
          ((mutateLineage_spec _ hfailed h₃).mono fun r s₄ h₄ => ?_)
        cases r with
        | error e => exact h₄.1
        | ok lineage =>
          obtain ⟨h₄, hmutated⟩ := h₄
          obtain ⟨store, hmutate, hstore⟩ := hmutated lineage rfl
          have hrecords := LineageStore.records_of_recordActivation hmutate
          have hactivated : Activated t s₄.1.lineage := by
            rw [hstore]
            rcases hphase with ⟨hp, rfl⟩ | ⟨hp, rfl⟩ <;> simpa [Activated, hp] using hrecords
          exact ⟨h₄.pending, h₄.others, h₄.oldRoot, h₄.menu, h₄.unscheduled, h₄.lineage, h₄.log,
            fun _ => hactivated, before (by decide), before (by decide), before (by decide)⟩

theorem within_loadCleanup (id : RollbackId) : Within Reads (Confirmation.loadCleanup id).run := by
  refine within_attempt_bind (within_call _ trivial) fun found => ?_
  cases found with
  | none => exact within_pure _
  | some record => exact within_attempt_bind (within_ofExcept _) fun _ => within_pure _

/-- A predicate of the invariant that no reading operation changes. -/
structure Readable (t : RollbackTransaction) (w₀ : World) (Q : State → Prop) : Prop where
  inv : ∀ s, Q s → Inv t w₀ s
  reads : ∀ op k s, Reads op → Q s → Q (logged perform op k s).2

theorem Readable.spec {Q : State → Prop} {α : Type} {p : Prog HostOp HostOp.Ans α}
    (hQ : Readable t w₀ Q) (h : Q s) (hp : Within Reads p) :
    Always t w₀ p (fun _ s' => Q s') s :=
  Keeps.of_within (fun op k s hop _ => hQ.reads op k s hop) hQ.inv hp h

theorem readable_replaying : Readable t w₀ (Replaying t w₀ stage) where
  inv _ h := h.inv
  reads _ k s hop h := h.of_same (perform_reads hop k s.1) (ne_removed_of_reads hop _)

/-- A cleanup record that was found is in the store, under the name that it is valid for. -/
theorem loadCleanup_spec {Q : State → Prop} (hQ : Readable t w₀ Q) (id : RollbackId) (h : Q s) :
    Always t w₀ (Confirmation.loadCleanup id).run (fun r s' => Q s' ∧
      ∀ record, r = .ok (some record) → record ∈ s'.1.cleanups ∧ record.transactionId = id ∧
        record.oldRootName = oldRootPrefix ++ record.transactionId.hyphenated) s := by
  have hreads : Reads (.cleanup (.load id)) := trivial
  refine (keeps_attempt_bind _ _ _ _).mpr
    ((keeps_attempt_call _ _ _ _).mpr ⟨hQ.inv s h, fun k _ => ?_⟩)
  have h' := hQ.reads _ k s hreads h
  have hcleanups := (perform_reads hreads k s.1).cleanups
  rcases orFault_cases k s.1 (s.1.cleanupEffect (.load id)) with ⟨e, he⟩ | he
  · have hanswer : (logged perform (.cleanup (.load id)) k s).1 = .error e :=
      congrArg Prod.fst he
    rw [hanswer]
    exact ⟨h', nofun⟩
  · have hanswer : (logged perform (.cleanup (.load id)) k s).1 = .ok (s.1.cleanup? id) :=
      congrArg Prod.fst he
    rw [hanswer]
    cases hfound : s.1.cleanup? id with
    | none => exact ⟨h', nofun⟩
    | some record =>
      have hmem : record ∈ s.1.cleanups := List.mem_of_find?_eq_some hfound
      have hid : record.transactionId = id := by simpa using List.find?_some hfound
      refine (keeps_attempt_bind _ _ _ _).mpr ?_
      rw [keeps_ofExcept]
      cases hvalid : record.validate with
      | error e => exact ⟨h', nofun⟩
      | ok u =>
        refine ⟨h', ?_⟩
        rintro _ ⟨⟩
        exact ⟨hcleanups ▸ hmem, hid, RootCleanupRecord.validate_oldRootName hvalid⟩

theorem oldRootName_eq (t : RollbackTransaction) :
    t.oldRootName = oldRootPrefix ++ t.id.hyphenated := rfl

/-- What writing a cleanup record does. -/
theorem perform_writeCleanup (record : RootCleanupRecord) (k : Choice) (w : World) :
    (∃ e, perform (.cleanup (.write record)) k w = (.error e, w)) ∨
    perform (.cleanup (.write record)) k w = (.ok (), { w with
      cleanups := record :: w.cleanups.filter fun r => r.transactionId != record.transactionId }) :=
  orFault_cases k w _

/-- A confirmed restore schedules its old root. -/
theorem scheduleOldRootCleanup_spec (hphase : t.phase = .confirmed) (h : Replaying t w₀ 1 s) :
    Always t w₀ (Confirmation.scheduleOldRootCleanup t).run (fun r s' =>
      match r with
      | .ok _ => Replaying t w₀ 2 s'
      | .error _ => Replaying t w₀ 1 s') s := by
  have hnow : Within Reads (utcNow : Action ConfirmationError Timestamp).run :=
    within_call _ trivial
  -- in a confirmed restore only the schedule is new at the second stage
  have hsecond : ∀ s', Replaying t w₀ 1 s' → Scheduled t s'.1 → Replaying t w₀ 2 s' :=
    fun s' h' hs => ⟨h'.pending, h'.others, h'.oldRoot, h'.menu, h'.unscheduled, h'.lineage, h'.log,
      fun _ => h'.activated (by decide), fun _ _ => hs, before (by decide), before (by decide)⟩
  refine (keeps_attempt_bind _ _ _ _).mpr ((h.reads_spec hnow).mono fun r s₁ h₁ => ?_)
  cases r with
  | error e => exact h₁
  | ok now =>
    refine (keeps_attempt_bind _ _ _ _).mpr
      ((loadCleanup_spec readable_replaying t.id h₁).mono fun r s₂ h₂ => ?_)
    obtain ⟨h₂, hfound⟩ := h₂
    cases r with
    | error e => exact h₂
    | ok existing =>
      cases existing with
      | some record =>
        obtain ⟨hmem, hid, hname⟩ := hfound record rfl
        refine (keeps_attempt_bind _ _ _ _).mpr ?_
        rw [keeps_ofExcept]
        cases ensure (record.oldRootName == (RootCleanupRecord.new t now).oldRootName) _ with
        | error e => exact h₂
        | ok u => exact hsecond s₂ h₂ ⟨record, hmem, hid, by rw [hname, hid, oldRootName_eq]⟩
      | none =>
        refine (keeps_attempt_bind _ _ _ _).mpr ((keeps_attempt_bind _ _ _ _).mpr ?_)
        rw [keeps_ofExcept]
        cases (RootCleanupRecord.new t now).validate with
        | error e => exact h₂
        | ok u =>
          refine (keeps_attempt_call _ _ _ _).mpr ⟨h₂.inv, fun k _ => ?_⟩
          have hlog : ∀ r, removed ∉ s₂.2 ++ [⟨.cleanup (.write (.new t now)), r⟩] := fun r =>
            not_mem_append_singleton h₂.log fun heq => by cases congrArg Sigma.fst heq
          rcases perform_writeCleanup (.new t now) k s₂.1 with ⟨e, he⟩ | he
          · simp only [logged, he]
            exact ⟨h₂.pending, h₂.others, h₂.oldRoot, h₂.menu, h₂.unscheduled, h₂.lineage, hlog _,
              h₂.activated, before (by decide), before (by decide), before (by decide)⟩
          · simp only [logged, he]
            refine hsecond _ ⟨h₂.pending, h₂.others, h₂.oldRoot, h₂.menu,
              fun hp => absurd hphase hp, h₂.lineage, hlog _, h₂.activated, before (by decide),
              before (by decide), before (by decide)⟩ ?_
            exact ⟨.new t now, List.mem_cons_self, rfl, rfl⟩

theorem clearOnce_spec (h : Replaying t w₀ 2 s) :
    Always t w₀ Confirmation.clearOnce.run (fun r s' =>
      match r with
      | .ok _ => Replaying t w₀ 3 s'
      | .error _ => Replaying t w₀ 2 s') s := by
  refine (keeps_attempt_call _ _ _ _).mpr ⟨h.inv, fun k _ => ?_⟩
  have hlog : ∀ r, removed ∉ s.2 ++ [⟨.boot .clearOnce, r⟩] := fun r =>
    not_mem_append_singleton h.log fun heq => by cases congrArg Sigma.fst heq
  rcases orFault_cases k s.1 (s.1.bootEffect k .clearOnce) with ⟨e, he⟩ | he
  · have hperform : perform (.boot .clearOnce) k s.1 = (.error e, s.1) := he
    simp only [logged, hperform]
    exact ⟨h.pending, h.others, h.oldRoot, h.menu, h.unscheduled, h.lineage, hlog _,
      h.activated, h.scheduled, before (by decide), before (by decide)⟩
  · have hperform : perform (.boot .clearOnce) k s.1 =
        (.ok (), { s.1 with boot := { s.1.boot with nextEntry := none } }) := he
    simp only [logged, hperform]
    exact ⟨h.pending, h.others, h.oldRoot, h.menu, h.unscheduled, h.lineage, hlog _,
      fun _ => h.activated (by decide), fun _ => h.scheduled (by decide), fun _ => rfl,
      before (by decide)⟩

theorem archiveTransaction_spec (h : Replaying t w₀ 3 s) :
    Always t w₀ (Confirmation.archiveTransaction t).run (fun r s' =>
      match r with
      | .ok _ => Replaying t w₀ 4 s'
      | .error _ => Replaying t w₀ 3 s') s := by
  refine (keeps_mapError _ _ _ _).mpr ((keeps_attempt_bind _ _ _ _).mpr ?_)
  rw [keeps_ofExcept]
  cases ensure t.phase.isTerminal _ with
  | error e => exact h
  | ok u =>
    refine (keeps_attempt_bind _ _ _ _).mpr ?_
    rw [keeps_ofExcept]
    cases t.validate with
    | error e => exact h
    | ok u =>
      refine (keeps_attempt_call _ _ _ _).mpr ⟨h.inv, fun k _ => ?_⟩
      have hlog : ∀ r, removed ∉ s.2 ++ [⟨.rollback (.archive t), r⟩] := fun r =>
        not_mem_append_singleton h.log fun heq => by cases congrArg Sigma.fst heq
      rcases orFault_cases k s.1 (s.1.rollbackEffect (.archive t)) with ⟨e, he⟩ | he
      · have hperform : perform (.rollback (.archive t)) k s.1 = (.error e, s.1) := he
        simp only [logged, hperform]
        exact ⟨h.pending, h.others, h.oldRoot, h.menu, h.unscheduled, h.lineage, hlog _,
          h.activated, h.scheduled, h.nextEntry, before (by decide)⟩
      · have hperform : perform (.rollback (.archive t)) k s.1 =
            (.ok (), { s.1 with history := Function.update s.1.history t.id (some t) }) := he
        simp only [logged, hperform]
        refine ⟨h.pending, fun id hid => ?_, h.oldRoot, h.menu, h.unscheduled, h.lineage, hlog _,
          fun _ => h.activated (by decide), fun _ => h.scheduled (by decide),
          fun _ => h.nextEntry (by decide), fun _ => by simp⟩
        exact (Function.update_of_ne hid _ _).trans (h.others id hid)

/-- Removing the transaction settles everything but GRUB. -/
theorem removeTransaction_spec (h : Replaying t w₀ 4 s) :
    Always t w₀ Confirmation.removeTransaction.run (fun r s' =>
      match r with
      | .ok _ => Settled t w₀ s' ∧ s'.1.boot.menu = w₀.boot.menu ∧
          ∃ log, s'.2 = log ++ [removed] ∧ removed ∉ log
      | .error _ => Replaying t w₀ 4 s') s := by
  refine (keeps_mapError _ _ _ _).mpr ((keeps_attempt_call _ _ _ _).mpr ⟨h.inv, fun k _ => ?_⟩)
  rcases orFault_cases k s.1 (s.1.rollbackEffect .remove) with ⟨e, he⟩ | he
  · have hperform : perform (.rollback .remove) k s.1 = (.error e, s.1) := he
    have hlog : removed ∉ s.2 ++ [⟨.rollback .remove, (.error e : Except String Unit)⟩] :=
      not_mem_append_singleton h.log fun heq => by
        cases eq_of_heq (Sigma.mk.inj heq).2
    simp only [logged, hperform]
    exact ⟨h.pending, h.others, h.oldRoot, h.menu, h.unscheduled, h.lineage, hlog, h.activated,
      h.scheduled, h.nextEntry, h.archived⟩
  · have hperform : perform (.rollback .remove) k s.1 =
        (.ok (), { s.1 with pending := none }) := he
    simp only [logged, hperform]
    refine ⟨⟨⟨rfl, ?_, h.activated (by decide), h.lineage, h.nextEntry (by decide),
      fun hp => .inl (h.scheduled (by decide) hp)⟩, fun hp => ⟨h.oldRoot, h.unscheduled hp⟩,
      .inr ⟨h.menu, s.2, [], rfl, by simp⟩⟩, h.menu, s.2, rfl, h.log⟩
    funext id
    by_cases hid : id = t.id
    · subst hid
      simpa using h.archived (by decide)
    · rw [Function.update_of_ne hid]
      exact h.others id hid

theorem regenerateGrub_spec {log : Log} (h : Settled t w₀ s) (hmenu : s.1.boot.menu = w₀.boot.menu)
    (hlog : s.2 = log ++ [removed]) (hnot : removed ∉ log) :
    Always t w₀ Confirmation.regenerateGrub.run (fun _ s' => Settled t w₀ s') s := by
  refine (keeps_attempt_call _ _ _ _).mpr ⟨.inr h, fun k _ => ?_⟩
  rcases orFault_cases k s.1 (s.1.bootEffect k .regenerateGrub) with ⟨e, he⟩ | he
  · have hperform : perform (.boot .regenerateGrub) k s.1 = (.error e, s.1) := he
    simp only [logged, hperform]
    refine ⟨h.recorded, h.oldRoot, .inr ⟨hmenu, log,
      [⟨.boot .regenerateGrub, (.error e : Except String Unit)⟩], by
        rw [hlog, List.append_assoc]
        rfl, ?_⟩⟩
    intro heq
    cases eq_of_heq (Sigma.mk.inj (Option.some.inj heq)).2
  · have hperform : perform (.boot .regenerateGrub) k s.1 =
        (.ok (), { s.1 with boot := { s.1.boot with menu := s.1.pending } }) := he
    simp only [logged, hperform]
    refine ⟨⟨h.recorded.pending, h.recorded.history, h.recorded.activated, h.recorded.failed,
      h.recorded.nextEntry, h.recorded.scheduled⟩, h.oldRoot, .inl ⟨h.recorded.pending, log, [],
      by rw [hlog, List.append_assoc]; rfl, hnot, List.not_mem_nil⟩⟩

/-- What every branch does before it regenerates GRUB, and what comes then. -/
theorem removal_spec {α : Type} {rest : Action ConfirmationError α}
    {post : Except ConfirmationError α → State → Prop} (h : Replaying t w₀ 2 s)
    (herror : ∀ e s', Inv t w₀ s' → post (.error e) s')
    (hrest : ∀ s' log, Settled t w₀ s' → s'.1.boot.menu = w₀.boot.menu →
      s'.2 = log ++ [removed] → removed ∉ log → Always t w₀ rest.run post s') :
    Always t w₀ (do
      Confirmation.clearOnce
      Confirmation.archiveTransaction t
      Confirmation.removeTransaction
      rest : Action ConfirmationError α).run post s := by
  refine (keeps_attempt_bind _ _ _ _).mpr ((clearOnce_spec h).mono fun r s₁ h₁ => ?_)
  cases r with
  | error e => exact herror e s₁ h₁.inv
  | ok u =>
    refine (keeps_attempt_bind _ _ _ _).mpr ((archiveTransaction_spec h₁).mono fun r s₂ h₂ => ?_)
    cases r with
    | error e => exact herror e s₂ h₂.inv
    | ok u =>
      refine (keeps_attempt_bind _ _ _ _).mpr ((removeTransaction_spec h₂).mono fun r s₃ h₃ => ?_)
      cases r with
      | error e => exact herror e s₃ h₃.inv
      | ok u =>
        obtain ⟨h₃, hmenu, log, hlog, hnot⟩ := h₃
        exact hrest s₃ log h₃ hmenu hlog hnot

/-- A run that returned a value has settled the transaction. -/
def SettledIfOk {α : Type} (t : RollbackTransaction) (w₀ : World)
    (r : Except ConfirmationError α) (s : State) : Prop :=
  Inv t w₀ s ∧ (r.isOk = true → Settled t w₀ s)

theorem finishRecorded_spec (h : Replaying t w₀ 2 s) :
    Always t w₀ (Confirmation.finishRecorded t).run (SettledIfOk t w₀) s :=
  removal_spec h (fun _ _ hinv => ⟨hinv, nofun⟩) fun _ _ h' hmenu hlog hnot =>
    (regenerateGrub_spec h' hmenu hlog hnot).mono fun _ _ h'' => ⟨.inr h'', fun _ => h''⟩

end Replay

section OldRoots

theorem Settled.of_same {w : World} {entry : Entry HostOp HostOp.Ans} (h : Settled t w₀ s)
    (hsame : Same s.1 w) (hremoved : entry ≠ removed) (hregenerated : entry ≠ regenerated) :
    Settled t w₀ (w, s.2 ++ [entry]) where
  recorded :=
    { pending := hsame.pending.trans h.recorded.pending
      history := hsame.history.trans h.recorded.history
      activated := by rw [hsame.lineage]; exact h.recorded.activated
      failed := fun hp => hsame.lineage.trans (h.recorded.failed hp)
      nextEntry := by rw [hsame.boot]; exact h.recorded.nextEntry
      scheduled := fun hp => by
        unfold Scheduled
        rw [hsame.cleanups, hsame.disk]
        exact h.recorded.scheduled hp }
  oldRoot hp := by
    rw [hsame.cleanups, hsame.disk]
    exact h.oldRoot hp
  grub := by
    rw [hsame.boot]
    exact h.grub.imp (fun hc => ⟨hc.1, hc.2.append hremoved⟩)
      fun hs => ⟨hs.1, hs.2.append hregenerated⟩

theorem readable_settled : Readable t w₀ (Settled t w₀) where
  inv _ := .inr
  reads _ k s hop h := h.of_same (perform_reads hop k s.1) (ne_removed_of_reads hop _)
    (ne_regenerated_of_reads hop _)

/-- A command on the volume that leaves the old root as it is, or deletes it after a
confirmation. -/
theorem Settled.of_disk {disk : Disk} {op : DiskOp} {r : (HostOp.disk op).Ans}
    (h : Settled t w₀ s)
    (hnone : s.1.disk.top t.oldRootName = none → disk.top t.oldRootName = none)
    (hkept : t.phase ≠ .confirmed → disk.top t.oldRootName = s.1.disk.top t.oldRootName) :
    Settled t w₀ ({ s.1 with disk := disk }, s.2 ++ [⟨.disk op, r⟩]) where
  recorded :=
    { pending := h.recorded.pending
      history := h.recorded.history
      activated := h.recorded.activated
      failed := h.recorded.failed
      nextEntry := h.recorded.nextEntry
      scheduled := fun hp => (h.recorded.scheduled hp).imp_right hnone }
  oldRoot hp := ⟨(hkept hp).trans (h.oldRoot hp).1, (h.oldRoot hp).2⟩
  grub := h.grub.imp
    (fun hc => ⟨hc.1, hc.2.append fun heq => by cases congrArg Sigma.fst heq⟩)
    fun hs => ⟨hs.1, hs.2.append fun heq => by cases congrArg Sigma.fst heq⟩

/-- The names that a cleanup of old roots may touch. -/
def MayClean (t : RollbackTransaction) (name : String) : Prop :=
  t.phase ≠ .confirmed → name ≠ t.oldRootName

/-- What a cleanup of old roots does: it reads, and deletes below and at allowed names. -/
def Tidies (t : RollbackTransaction) (op : HostOp) : Prop :=
  Reads op ∨ ∃ name, MayClean t name ∧
    (op = .disk (.delete name) ∨ ∃ path, op = .disk (.deleteDescendant name path))

/-- What deleting at or below a name does to the top level. -/
theorem effect_top (disk : Disk) (uuid : Uuid) (text : String) {name : String} {op : DiskOp}
    (hop : op = .delete name ∨ ∃ path, op = .deleteDescendant name path) (other : String) :
    (disk.top other = none → (disk.effect uuid text op).2.top other = none) ∧
      (name ≠ other → (disk.effect uuid text op).2.top other = disk.top other) := by
  rcases hop with rfl | ⟨path, rfl⟩
  · cases hname : disk.top name with
    | none => simp [Disk.effect, hname]
    | some v =>
      simp only [Disk.effect, hname, Disk.setTop_top]
      refine ⟨fun hnone => ?_, fun hne => Function.update_of_ne hne.symm _ _⟩
      by_cases heq : other = name
      · simp [heq]
      · rw [Function.update_of_ne heq, hnone]
  · simp only [Disk.effect, Disk.withDescendants, Disk.setTop_top]
    refine ⟨fun hnone => ?_, fun hne => Function.update_of_ne hne.symm _ _⟩
    by_cases heq : other = name
    · subst heq
      simp [hnone]
    · rw [Function.update_of_ne heq, hnone]

theorem Settled.deletes {op : DiskOp} {name : String} (h : Settled t w₀ s)
    (hname : MayClean t name) (hop : op = .delete name ∨ ∃ path, op = .deleteDescendant name path)
    (k : Choice) : Settled t w₀ (logged perform (.disk op) k s).2 := by
  rcases orFault_cases k s.1 (s.1.diskEffect k op) with ⟨e, he⟩ | he
  · have hperform : perform (.disk op) k s.1 = (.error e, { s.1 with disk := s.1.disk }) := he
    simp only [logged, hperform]
    exact h.of_disk id fun _ => rfl
  · have hperform : perform (.disk op) k s.1 = s.1.diskEffect k op := he
    obtain ⟨hnone, hkept⟩ := effect_top s.1.disk k.uuid k.text hop t.oldRootName
    simp only [logged, hperform, World.diskEffect]
    exact h.of_disk hnone fun hp => hkept (hname hp)

theorem Settled.tidies {op : HostOp} (h : Settled t w₀ s) (hop : Tidies t op) (k : Choice) :
    Settled t w₀ (logged perform op k s).2 := by
  rcases hop with hop | ⟨name, hname, rfl | ⟨path, rfl⟩⟩
  · exact readable_settled.reads op k s hop h
  · exact h.deletes hname (.inl rfl) k
  · exact h.deletes hname (.inr ⟨path, rfl⟩) k

theorem Settled.tidies_spec {α : Type} {p : Prog HostOp HostOp.Ans α} (h : Settled t w₀ s)
    (hp : Within (Tidies t) p) : Always t w₀ p (fun _ s' => Settled t w₀ s') s :=
  Keeps.of_within (fun _ k _ hop _ hs => hs.tidies hop k) (fun _ => .inr) hp h

/-- Reading does not fill a free name. -/
theorem readable_free (name : String) (claim : Prop) :
    Readable t w₀ fun s => Settled t w₀ s ∧ (claim → s.1.disk.top name = none) where
  inv _ h := .inr h.1
  reads op k s hop h := by
    refine ⟨readable_settled.reads op k s hop h.1, fun hclaim => ?_⟩
    have hdisk := (perform_reads hop k s.1).disk
    show (perform op k s.1).2.disk.top name = none
    rw [hdisk]
    exact h.2 hclaim

/-- A name that is reported as missing is free. -/
theorem inspect_spec {f : String → ConfirmationError} (name : String) (h : Settled t w₀ s) :
    Always t w₀ (Attempt.call (.disk (.realDirectory name)) (Except.mapError f) :
      Action ConfirmationError Bool).run (fun r s' => Settled t w₀ s' ∧
        (r = .ok false → s'.1.disk.top name = none)) s := by
  have hreads : Reads (.disk (.realDirectory name)) := trivial
  refine (keeps_attempt_call _ _ _ _).mpr ⟨.inr h, fun k _ => ?_⟩
  refine ⟨readable_settled.reads _ k s hreads h, fun hr => ?_⟩
  rcases orFault_cases k s.1 (s.1.diskEffect k (.realDirectory name)) with ⟨e, he⟩ | he
  · have hperform : perform (.disk (.realDirectory name)) k s.1 = (.error e, s.1) := he
    simp only [logged, hperform] at hr
    cases hr
  · have hperform : perform (.disk (.realDirectory name)) k s.1 =
        (.ok (s.1.disk.top name).isSome, s.1) := he
    simp only [logged, hperform] at hr ⊢
    exact Option.not_isSome_iff_eq_none.mp (by simp [Except.ok.inj hr])

/-- A name that was deleted is free. -/
theorem delete_spec {f : String → ConfirmationError} {name : String} (hname : MayClean t name)
    (h : Settled t w₀ s) :
    Always t w₀ (Attempt.call (.disk (.delete name)) (Except.mapError f) :
      Action ConfirmationError Unit).run (fun r s' => Settled t w₀ s' ∧
        (r = .ok () → s'.1.disk.top name = none)) s := by
  refine (keeps_attempt_call _ _ _ _).mpr ⟨.inr h, fun k _ => ?_⟩
  refine ⟨h.deletes hname (.inl rfl) k, fun hr => ?_⟩
  rcases orFault_cases k s.1 (s.1.diskEffect k (.delete name)) with ⟨e, he⟩ | he
  · have hperform : perform (.disk (.delete name)) k s.1 = (.error e, s.1) := he
    simp only [logged, hperform] at hr
    cases hr
  · have hperform : perform (.disk (.delete name)) k s.1 = s.1.diskEffect k (.delete name) := he
    simp only [logged, hperform, World.diskEffect, Disk.effect] at hr ⊢
    cases htop : s.1.disk.top name with
    | none =>
      simp only [htop] at hr
      cases hr
    | some v => simp [Disk.setTop]

/-- When an old root is reported as removed, its name is free. -/
theorem cleanupOldRootAt_spec {name : String} (hname : MayClean t name) (h : Settled t w₀ s) :
    Always t w₀ (Confirmation.cleanupOldRootAt name).run (fun r s' => Settled t w₀ s' ∧
      (r = .ok .removed → s'.1.disk.top name = none)) s := by
  have hlist : Within (Tidies t) (Attempt.call (.disk (.listDescendants name)) (Except.mapError
      (Confirmation.commandError "listing descendant subvolumes below the old root")) :
        Action ConfirmationError (List (List String))).run := within_call _ (.inl trivial)
  have hdescendants : ∀ paths, Within (Tidies t) (Confirmation.deleteDescendants name paths).run :=
    within_deleteDescendants (fun _ => .inl trivial)
      fun path => .inr ⟨name, hname, .inr ⟨path, rfl⟩⟩
  refine (keeps_attempt_bind _ _ _ _).mpr ?_
  rw [keeps_ofExcept]
  cases Confirmation.validateOldRootName name with
  | error e => exact ⟨h, nofun⟩
  | ok u =>
    refine (keeps_attempt_bind _ _ _ _).mpr ((inspect_spec name h).mono fun r s₁ h₁ => ?_)
    rcases r with e | present
    · exact ⟨h₁.1, nofun⟩
    · cases present with
      | false => exact ⟨h₁.1, fun _ => h₁.2 rfl⟩
      | true =>
        refine (keeps_attempt_bind _ _ _ _).mpr ((h₁.1.tidies_spec hlist).mono fun r s₂ h₂ => ?_)
        cases r with
        | error e => exact ⟨h₂, nofun⟩
        | ok paths =>
          refine (keeps_attempt_bind _ _ _ _).mpr
            ((h₂.tidies_spec (hdescendants _)).mono fun r s₃ h₃ => ?_)
          cases r with
          | error e => exact ⟨h₃, nofun⟩
          | ok blocked =>
            cases blocked with
            | cons b bs => exact ⟨h₃, nofun⟩
            | nil =>
              refine (keeps_attempt_bind _ _ _ _).mpr
                ((delete_spec hname h₃).mono fun r s₄ h₄ => ?_)
              cases r with
              | error e => exact ⟨h₄.1, nofun⟩
              | ok u => exact ⟨h₄.1, fun _ => h₄.2 rfl⟩

theorem cleanupOldRoot_spec {record : RootCleanupRecord} (hname : MayClean t record.oldRootName)
    (h : Settled t w₀ s) :
    Always t w₀ (Confirmation.cleanupOldRoot record).run (fun r s' => Settled t w₀ s' ∧
      (r = .ok .removed → s'.1.disk.top record.oldRootName = none)) s := by
  have hlayout : Within (Tidies t) (Attempt.call (.boot .layout) (Except.mapError fun _ =>
      ⟨.identityMismatch, "The running root no longer has the SynOS Btrfs layout"⟩) :
        Action ConfirmationError String).run := within_call _ (.inl trivial)
  have hmount : Within (Tidies t) (Attempt.call (.disk .mount) (Except.mapError
      (Confirmation.commandError "mounting the Btrfs top level for old-root cleanup")) :
        Action ConfirmationError Unit).run := within_call _ (.inl trivial)
  have hunmount : Within Reads (Attempt.call (.disk .unmount) (Except.mapError
      (Confirmation.commandError "unmounting the Btrfs top level after old-root cleanup")) :
        Action ConfirmationError Unit).run := within_call _ trivial
  refine (keeps_attempt_bind _ _ _ _).mpr ((h.tidies_spec hlayout).mono fun r s₁ h₁ => ?_)
  cases r with
  | error e => exact ⟨h₁, nofun⟩
  | ok text =>
    refine (keeps_attempt_bind _ _ _ _).mpr ((h₁.tidies_spec hmount).mono fun r s₂ h₂ => ?_)
    cases r with
    | error e => exact ⟨h₂, nofun⟩
    | ok u =>
      refine (keeps_attempt_bind _ _ _ _).mpr ((keeps_outcome _ _ _).mpr
        ((cleanupOldRootAt_spec hname h₂).mono fun result s₃ h₃ => ?_))
      refine (keeps_attempt_bind _ _ _ _).mpr ((keeps_outcome _ _ _).mpr
        (((readable_free record.oldRootName (result = .ok .removed)).spec h₃ hunmount).mono
          fun unmount s₄ h₄ => ?_))
      rcases result with e | outcome
      · exact ⟨h₄.1, nofun⟩
      · rcases unmount with e | u
        · exact ⟨h₄.1, nofun⟩
        · exact h₄

/-- A listed record is valid, and belongs to this transaction only after a confirmation. -/
structure Listed (t : RollbackTransaction) (record : RootCleanupRecord) : Prop where
  name : record.oldRootName = oldRootPrefix ++ record.transactionId.hyphenated
  foreign : t.phase ≠ .confirmed → record.transactionId ≠ t.id

theorem Listed.mayClean {record : RootCleanupRecord} (h : Listed t record) :
    MayClean t record.oldRootName := by
  intro hp heq
  rw [h.name, oldRootName_eq] at heq
  exact h.foreign hp (Uuid.hyphenated_injective ((String.append_right_inj _).mp heq))

theorem Settled.of_cleanups {cleanups : List RootCleanupRecord} {op : CleanupOp}
    {r : (HostOp.cleanup op).Ans} (h : Settled t w₀ s)
    (hscheduled : t.phase = .confirmed → Scheduled t s.1 →
      Scheduled t { s.1 with cleanups := cleanups } ∨ s.1.disk.top t.oldRootName = none)
    (hforeign : t.phase ≠ .confirmed → ∀ record ∈ cleanups, record.transactionId ≠ t.id) :
    Settled t w₀ ({ s.1 with cleanups := cleanups }, s.2 ++ [⟨.cleanup op, r⟩]) where
  recorded :=
    { pending := h.recorded.pending
      history := h.recorded.history
      activated := h.recorded.activated
      failed := h.recorded.failed
      nextEntry := h.recorded.nextEntry
      scheduled := fun hp => (h.recorded.scheduled hp).elim (hscheduled hp) .inr }
  oldRoot hp := ⟨(h.oldRoot hp).1, hforeign hp⟩
  grub := h.grub.imp
    (fun hc => ⟨hc.1, hc.2.append fun heq => by cases congrArg Sigma.fst heq⟩)
    fun hs => ⟨hs.1, hs.2.append fun heq => by cases congrArg Sigma.fst heq⟩

/-- The record of a removed old root is deleted. -/
theorem completeOldRootCleanup_spec {record : RootCleanupRecord} (hlisted : Listed t record)
    (h : Settled t w₀ s) (hfree : s.1.disk.top record.oldRootName = none) :
    Always t w₀ (Confirmation.completeOldRootCleanup record).run (fun _ s' => Settled t w₀ s') s := by
  refine (keeps_attempt_call _ _ _ _).mpr ⟨.inr h, fun k _ => ?_⟩
  rcases orFault_cases k s.1 (s.1.cleanupEffect (.remove record.transactionId)) with ⟨e, he⟩ | he
  · have hperform : perform (.cleanup (.remove record.transactionId)) k s.1 =
        (.error e, { s.1 with cleanups := s.1.cleanups }) := he
    simp only [logged, hperform]
    exact h.of_cleanups (fun _ => .inl) fun hp => (h.oldRoot hp).2
  · have hperform : perform (.cleanup (.remove record.transactionId)) k s.1 =
        (.ok (), { s.1 with
          cleanups := s.1.cleanups.filter fun r => r.transactionId != record.transactionId }) := he
    simp only [logged, hperform]
    refine h.of_cleanups (fun _ hscheduled => ?_) fun hp r hr =>
      (h.oldRoot hp).2 r (List.mem_of_mem_filter hr)
    by_cases hid : record.transactionId = t.id
    · right
      rw [oldRootName_eq, ← hid, ← hlisted.name]
      exact hfree
    · obtain ⟨own, hmem, hown, hname⟩ := hscheduled
      refine .inl ⟨own, List.mem_filter.mpr ⟨hmem, ?_⟩, hown, hname⟩
      simpa [hown] using fun heq : t.id = record.transactionId => hid heq.symm

/-- Writing a valid cleanup record keeps every old root scheduled. -/
theorem writeCleanup_spec {record : RootCleanupRecord} (hlisted : Listed t record)
    (h : Settled t w₀ s) :
    Always t w₀ (Confirmation.writeCleanup record).run (fun _ s' => Settled t w₀ s') s := by
  refine (keeps_attempt_bind _ _ _ _).mpr ?_
  rw [keeps_ofExcept]
  cases record.validate with
  | error e => exact h
  | ok u =>
    refine (keeps_attempt_call _ _ _ _).mpr ⟨.inr h, fun k _ => ?_⟩
    rcases perform_writeCleanup record k s.1 with ⟨e, he⟩ | he
    · have hperform : perform (.cleanup (.write record)) k s.1 =
          (.error e, { s.1 with cleanups := s.1.cleanups }) := he
      simp only [logged, hperform]
      exact h.of_cleanups (fun _ => .inl) fun hp => (h.oldRoot hp).2
    · simp only [logged, he]
      refine h.of_cleanups (fun _ hscheduled => .inl ?_) fun hp r hr => ?_
      · by_cases hid : record.transactionId = t.id
        · exact ⟨record, List.mem_cons_self, hid, by rw [hlisted.name, hid, oldRootName_eq]⟩
        · obtain ⟨own, hmem, hown, hname⟩ := hscheduled
          refine ⟨own, List.mem_cons_of_mem _ (List.mem_filter.mpr ⟨hmem, ?_⟩), hown, hname⟩
          simpa [hown] using fun heq : t.id = record.transactionId => hid heq.symm
      · rcases List.mem_cons.mp hr with rfl | hr
        · exact hlisted.foreign hp
        · exact (h.oldRoot hp).2 r (List.mem_of_mem_filter hr)

theorem deferOldRootCleanup_spec {record : RootCleanupRecord} (blocked : List String)
    (diagnostic : String) (hlisted : Listed t record) (h : Settled t w₀ s) :
    Always t w₀ (Confirmation.deferOldRootCleanup record blocked diagnostic).run
      (fun _ s' => Settled t w₀ s') s := by
  have hnow : Within Reads (utcNow : Action ConfirmationError Timestamp).run :=
    within_call _ trivial
  refine (keeps_attempt_bind _ _ _ _).mpr ((readable_settled.spec h hnow).mono fun r s₁ h₁ => ?_)
  cases r with
  | error e => exact h₁
  | ok now =>
    refine (keeps_attempt_bind _ _ _ _).mpr ?_
    rw [keeps_ofExcept]
    cases hdeferred : record.recordDeferred blocked diagnostic now with
    | error e => exact h₁
    | ok record' =>
      obtain ⟨hid, hname⟩ := RootCleanupRecord.recordDeferred_eq_ok hdeferred
      have hlisted' : Listed t record' :=
        ⟨by rw [hname, hid, hlisted.name], fun hp => hid ▸ hlisted.foreign hp⟩
      refine (keeps_attempt_bind _ _ _ _).mpr
        ((readable_settled.spec h₁ (within_loadCleanup _)).mono fun r s₂ h₂ => ?_)
      cases r with
      | error e => exact h₂
      | ok existing =>
        cases existing with
        | none => exact h₂
        | some _ => exact writeCleanup_spec hlisted' h₂

theorem retryRecords_spec {records : List RootCleanupRecord}
    (hlisted : ∀ record ∈ records, Listed t record) (h : Settled t w₀ s) :
    Always t w₀ (Confirmation.retryRecords records).run (fun _ s' => Settled t w₀ s') s := by
  induction records generalizing s with
  | nil => exact h
  | cons record records ih =>
    have hrecord := hlisted record List.mem_cons_self
    have hrest := fun r hr => hlisted r (List.mem_cons_of_mem record hr)
    -- a deferred deletion goes on with the other records
    have hdefer : ∀ blocked diagnostic s', Settled t w₀ s' → Always t w₀ (do
        Confirmation.deferOldRootCleanup record blocked diagnostic
        let _ ← Confirmation.retryRecords records
        pure true : Action ConfirmationError Bool).run (fun _ s' => Settled t w₀ s') s' := by
      intro blocked diagnostic s' h'
      refine (keeps_attempt_bind _ _ _ _).mpr
        ((deferOldRootCleanup_spec blocked diagnostic hrecord h').mono fun r s₁ h₁ => ?_)
      cases r with
      | error e => exact h₁
      | ok u =>
        refine (keeps_attempt_bind _ _ _ _).mpr ((ih hrest h₁).mono fun r s₂ h₂ => ?_)
        cases r <;> exact h₂
    refine (keeps_attempt_bind _ _ _ _).mpr ((keeps_outcome _ _ _).mpr
      ((cleanupOldRoot_spec hrecord.mayClean h).mono fun result s₁ h₁ => ?_))
    rcases result with e | outcome
    · exact hdefer _ _ s₁ h₁.1
    · cases outcome with
      | removed =>
        refine (keeps_attempt_bind _ _ _ _).mpr
          ((completeOldRootCleanup_spec hrecord h₁.1 (h₁.2 rfl)).mono fun r s₂ h₂ => ?_)
        cases r with
        | error e => exact h₂
        | ok u => exact ih hrest h₂
      | deferred blocked diagnostic => exact hdefer _ _ s₁ h₁.1

theorem pendingRootCleanups_spec (h : Settled t w₀ s) :
    Always t w₀ Confirmation.pendingRootCleanups.run (fun r s' => Settled t w₀ s' ∧
      ∀ records, r = .ok records → ∀ record ∈ records, Listed t record) s := by
  have hreads : Reads (.cleanup .list) := trivial
  refine (keeps_attempt_bind _ _ _ _).mpr ((keeps_attempt_call _ _ _ _).mpr
    ⟨.inr h, fun k _ => ?_⟩)
  have h' := readable_settled.reads _ k s hreads h
  rcases orFault_cases k s.1 (s.1.cleanupEffect .list) with ⟨e, he⟩ | he
  · have hanswer : (logged perform (.cleanup .list) k s).1 = .error e := congrArg Prod.fst he
    rw [hanswer]
    exact ⟨h', nofun⟩
  · have hanswer : (logged perform (.cleanup .list) k s).1 =
        .ok (s.1.cleanups.insertionSort fun a b => a.createdAt ≤ b.createdAt) :=
      congrArg Prod.fst he
    rw [hanswer]
    refine (keeps_attempt_bind _ _ _ _).mpr ?_
    rw [keeps_ofExcept]
    cases ensure (_ : Bool) _ with
    | error e => exact ⟨h', nofun⟩
    | ok u =>
      refine (keeps_attempt_bind _ _ _ _).mpr ?_
      rw [keeps_ofExcept]
      cases hvalid : ensure (List.all _ fun record : RootCleanupRecord => record.validate.isOk)
          (Confirmation.cleanupError "Root cleanup record is invalid") with
      | error e => exact ⟨h', nofun⟩
      | ok u =>
        refine ⟨h', ?_⟩
        rintro _ ⟨⟩ record hmem
        have hok : record.validate.isOk = true :=
          List.all_eq_true.mp ((ensure_eq_ok _ _).mp hvalid) record hmem
        have hvalidate : record.validate = .ok () := by
          cases hv : record.validate with
          | error e => simp [hv, Except.isOk, Except.toBool] at hok
          | ok u => rfl
        refine ⟨RootCleanupRecord.validate_oldRootName hvalidate, fun hp => ?_⟩
        have hstored : record ∈ s.1.cleanups := (List.perm_insertionSort _ _).mem_iff.mp hmem
        exact (h.oldRoot hp).2 record hstored

theorem retryPendingRootCleanups_spec (h : Settled t w₀ s) :
    Always t w₀ Confirmation.retryPendingRootCleanups.run (fun _ s' => Settled t w₀ s') s := by
  refine (keeps_attempt_bind _ _ _ _).mpr ((pendingRootCleanups_spec h).mono fun r s₁ h₁ => ?_)
  rcases r with e | records
  · exact h₁.1
  · simp only
    split_ifs with hempty
    · exact h₁.1
    · refine (keeps_attempt_bind _ _ _ _).mpr
        ((retryRecords_spec (h₁.2 records rfl) h₁.1).mono fun r s₂ h₂ => ?_)
      cases r <;> exact h₂

end OldRoots

section Runs

theorem finishConfirmed_spec (hphase : t.phase = .confirmed) (h : Replaying t w₀ 0 s) :
    Always t w₀ (Confirmation.finishConfirmed t).run (SettledIfOk t w₀) s := by
  refine (keeps_attempt_bind _ _ _ _).mpr
    ((recordLineageActivation_spec (.inl ⟨hphase, rfl⟩) h).mono fun r s₁ h₁ => ?_)
  cases r with
  | error e => exact ⟨h₁.inv, nofun⟩
  | ok u =>
    refine (keeps_attempt_bind _ _ _ _).mpr
      ((scheduleOldRootCleanup_spec hphase h₁).mono fun r s₂ h₂ => ?_)
    cases r with
    | error e => exact ⟨h₂.inv, nofun⟩
    | ok record =>
      refine removal_spec h₂ (fun _ _ hinv => ⟨hinv, nofun⟩) fun s₃ log h₃ hmenu hlog hnot => ?_
      refine (keeps_attempt_bind _ _ _ _).mpr
        ((regenerateGrub_spec h₃ hmenu hlog hnot).mono fun r s₄ h₄ => ?_)
      cases r with
      | error e => exact ⟨.inr h₄, nofun⟩
      | ok u =>
        refine (keeps_attempt_bind _ _ _ _).mpr
          ((retryPendingRootCleanups_spec h₄).mono fun r s₅ h₅ => ?_)
        cases r <;> exact ⟨.inr h₅, fun _ => h₅⟩

theorem finishReverted_spec (hphase : t.phase = .reverted) (h : Replaying t w₀ 0 s) :
    Always t w₀ (Confirmation.finishReverted t).run (SettledIfOk t w₀) s := by
  refine (keeps_attempt_bind _ _ _ _).mpr
    ((recordLineageActivation_spec (.inr ⟨hphase, rfl⟩) h).mono fun r s₁ h₁ => ?_)
  cases r with
  | error e => exact ⟨h₁.inv, nofun⟩
  | ok u =>
    exact finishRecorded_spec ⟨h₁.pending, h₁.others, h₁.oldRoot, h₁.menu, h₁.unscheduled,
      h₁.lineage, h₁.log, fun _ => h₁.activated (by decide), fun _ hp => by simp [hphase] at hp,
      before (by decide), before (by decide)⟩

theorem finishFailed_spec (hphase : t.phase = .failed) (h : Replaying t w₀ 0 s) :
    Always t w₀ (Confirmation.finishFailed t).run (SettledIfOk t w₀) s :=
  finishRecorded_spec ⟨h.pending, h.others, h.oldRoot, h.menu, h.unscheduled, h.lineage, h.log,
    fun _ => by simp [Activated, hphase], fun _ hp => by simp [hphase] at hp,
    before (by decide), before (by decide)⟩

/-- Loading the pending transaction answers with the stored one. -/
theorem pending_spec {Q : State → Prop} (hQ : Readable t w₀ Q) (h : Q s) :
    Always t w₀ Confirmation.pending.run (fun r s' => Q s' ∧
      ∀ found, r = .ok found → found = s.1.pending) s := by
  have hreads : Reads (.rollback .load) := trivial
  refine (keeps_mapError _ _ _ _).mpr ((keeps_attempt_bind _ _ _ _).mpr
    ((keeps_attempt_call _ _ _ _).mpr ⟨hQ.inv s h, fun k _ => ?_⟩))
  have h' := hQ.reads _ k s hreads h
  rcases orFault_cases k s.1 (s.1.rollbackEffect .load) with ⟨e, he⟩ | he
  · have hperform : perform (.rollback .load) k s.1 = (.error e, s.1) := he
    simp only [logged, hperform, Except.mapError] at h' ⊢
    exact ⟨h', fun found hf => by cases hf⟩
  · have hperform : perform (.rollback .load) k s.1 = (.ok s.1.pending, s.1) := he
    simp only [logged, hperform, Except.mapError] at h' ⊢
    rcases hp : s.1.pending with _ | p
    · rw [hp] at h'
      exact ⟨h', fun found hf => (Except.ok.inj hf).symm⟩
    · rw [hp] at h'
      refine (keeps_attempt_bind _ _ _ _).mpr ?_
      rw [keeps_ofExcept]
      cases p.validate with
      | error e => exact ⟨h', fun found hf => by cases hf⟩
      | ok u => exact ⟨h', fun found hf => (Except.ok.inj hf).symm⟩

/-- While the transaction is pending, a run repeats its bookkeeping. -/
theorem reconcile_replaying_spec
    (hterminal : t.phase = .confirmed ∨ t.phase = .reverted ∨ t.phase = .failed)
    (h : Replaying t w₀ 0 s) :
    Always t w₀ Confirmation.reconcile.run (SettledIfOk t w₀) s := by
  refine (keeps_attempt_bind _ _ _ _).mpr
    ((pending_spec readable_replaying h).mono fun r s₁ h₁ => ?_)
  obtain ⟨h₁, hfound⟩ := h₁
  rcases r with e | found
  · exact ⟨h₁.inv, nofun⟩
  · obtain rfl := (hfound found rfl).trans h.pending
    rcases hterminal with hphase | hphase | hphase
    · simp only [hphase]
      refine (keeps_attempt_bind _ _ _ _).mpr ((finishConfirmed_spec hphase h₁).mono fun r s₂ h₂ => ?_)
      rcases r with e | pass
      · exact ⟨h₂.1, nofun⟩
      · exact ⟨h₂.1, fun _ => h₂.2 rfl⟩
    · simp only [hphase]
      refine (keeps_attempt_bind _ _ _ _).mpr ((finishReverted_spec hphase h₁).mono fun r s₂ h₂ => ?_)
      rcases r with e | u
      · exact ⟨h₂.1, nofun⟩
      · exact ⟨h₂.1, fun _ => h₂.2 rfl⟩
    · simp only [hphase]
      refine (keeps_attempt_bind _ _ _ _).mpr ((finishFailed_spec hphase h₁).mono fun r s₂ h₂ => ?_)
      rcases r with e | u
      · exact ⟨h₂.1, nofun⟩
      · exact ⟨h₂.1, fun _ => h₂.2 rfl⟩

/-- After the transaction was removed, a run only retries the deletion of old roots. -/
theorem reconcile_settled_spec (h : Settled t w₀ s) :
    Always t w₀ Confirmation.reconcile.run (SettledIfOk t w₀) s := by
  refine (keeps_attempt_bind _ _ _ _).mpr
    ((pending_spec readable_settled h).mono fun r s₁ h₁ => ?_)
  obtain ⟨h₁, hfound⟩ := h₁
  rcases r with e | found
  · exact ⟨.inr h₁, nofun⟩
  · obtain rfl := (hfound found rfl).trans h.recorded.pending
    refine (keeps_attempt_bind _ _ _ _).mpr
      ((retryPendingRootCleanups_spec h₁).mono fun r s₂ h₂ => ?_)
    rcases r with e | pass
    · exact ⟨.inr h₂, nofun⟩
    · cases pass <;> exact ⟨.inr h₂, fun _ => h₂⟩

theorem reconcile_spec
    (hterminal : t.phase = .confirmed ∨ t.phase = .reverted ∨ t.phase = .failed)
    (h : Inv t w₀ s) : Always t w₀ Confirmation.reconcile.run (SettledIfOk t w₀) s :=
  h.elim (reconcile_replaying_spec hterminal) reconcile_settled_spec

theorem afterRuns_inv
    (hterminal : t.phase = .confirmed ∨ t.phase = .reverted ∨ t.phase = .failed)
    (scripts : List (List Choice)) (h : Inv t w₀ s) : Inv t w₀ (afterRuns scripts s) := by
  induction scripts generalizing s with
  | nil => exact h
  | cons script scripts ih =>
    exact ih ((reconcile_spec hterminal h).run_inv (fun _ _ h' => h'.1) script fun _ _ => trivial)

theorem Terminal.inv (h : Terminal t w₀) : Inv t w₀ (w₀, []) :=
  .inl ⟨h.pending, fun _ _ => rfl, rfl, rfl, h.unscheduled, fun _ => rfl, List.not_mem_nil,
    before (by decide), before (by decide), before (by decide), before (by decide)⟩

theorem Settled.oldRootKept (h : Settled t w₀ s) : OldRootKept t w₀ s.1 := by
  by_cases hp : t.phase = .confirmed
  · have hactivated := h.recorded.activated
    simp only [Activated, hp] at hactivated
    exact .inr ⟨hp, hactivated⟩
  · exact .inl (h.oldRoot hp).1

theorem Inv.oldRootKept (h : Inv t w₀ s) : OldRootKept t w₀ s.1 :=
  h.elim (fun hreplaying => .inl hreplaying.oldRoot) Settled.oldRootKept

/-- GRUB was regenerated without the entry exactly when no run was broken off before it. -/
theorem Settled.finished_iff (h : Settled t w₀ s) (hmenu : w₀.boot.menu ≠ none) :
    Finished t w₀ s.1 ↔ Unbroken s.2 := by
  constructor
  · intro hfinished
    rcases h.grub with hcomplete | hstuck
    · exact hcomplete.2.unbroken
    · exact absurd (hstuck.1.symm.trans hfinished.menu) hmenu
  · intro hunbroken
    rcases h.grub with hcomplete | hstuck
    · exact ⟨h.recorded, hcomplete.1⟩
    · exact absurd hunbroken hstuck.2.not_unbroken

/-- Whatever runs were cut off or failed before, a run that completes leaves the state of a
single uninterrupted run exactly when no run was broken off between the removal of the
transaction and the regeneration of GRUB; and no run deletes the old root before the
confirmation and its activation are durable. -/
theorem reconcile_resumes_iff (h : Terminal t w₀) (scripts : List (List Choice)) :
    OldRootKept t w₀ (afterRuns scripts (w₀, [])).1 ∧
    ∀ last outcome, (reconcileRun last (afterRuns scripts (w₀, []))).1 = some (.ok outcome) →
      (Finished t w₀ (reconcileRun last (afterRuns scripts (w₀, []))).2.1 ↔
        Unbroken (reconcileRun last (afterRuns scripts (w₀, []))).2.2) := by
  have hinv := afterRuns_inv h.terminal scripts h.inv
  refine ⟨hinv.oldRootKept, fun last outcome hlast => ?_⟩
  have hrun := (reconcile_spec h.terminal hinv).run last fun _ _ => trivial
  unfold reconcileRun at hlast ⊢
  rcases hres : Confirmation.reconcile.run.run (logged perform) last (afterRuns scripts (w₀, []))
    with ⟨r, s'⟩
  rw [hres] at hrun hlast
  obtain rfl : r = some (.ok outcome) := hlast
  exact (hrun.2 rfl).finished_iff h.menu

end Runs

section Instance

/-! The sample host with a failed restore. -/

def failedTransaction : RollbackTransaction :=
  { sampleTransaction with
    phase := .failed
    updatedAt := 120
    failure := some "Rollback target snapshot is not read-only" }

def failedWorld : World :=
  { sampleWorld with pending := some failedTransaction }

theorem failed_terminal : Terminal failedTransaction failedWorld where
  pending := rfl
  terminal := .inr (.inr rfl)
  menu := nofun
  unscheduled _ _ hmem := by cases hmem

/-- A run that is cut off before the removal is repeated by the next one. -/
theorem reconcile_resumes_before_removal :
    let s := afterRuns [List.replicate 3 success] (failedWorld, [])
    (reconcileRun (List.replicate 5 success) s).1 = some (.ok .failedRecorded) ∧
      (Finished failedTransaction failedWorld (reconcileRun (List.replicate 5 success) s).2.1 ↔
        Unbroken (reconcileRun (List.replicate 5 success) s).2.2) := by
  have hlast : (reconcileRun (List.replicate 5 success)
      (afterRuns [List.replicate 3 success] (failedWorld, []))).1 =
        some (.ok .failedRecorded) := by
    decide +kernel
  exact ⟨hlast, (reconcile_resumes_iff failed_terminal [List.replicate 3 success]).2 _ _ hlast⟩

/-- A run that is cut off right after the removal leaves the recovery entry in GRUB, and the
next run completes without regenerating it. -/
theorem reconcile_leaves_grub_entry :
    let s := afterRuns [List.replicate 4 success] (failedWorld, [])
    Terminal failedTransaction failedWorld ∧
      (reconcileRun (List.replicate 5 success) s).1 = some (.ok .noAction) ∧
      (reconcileRun (List.replicate 5 success) s).2.1.pending = none ∧
      (reconcileRun (List.replicate 5 success) s).2.1.boot.menu = some sampleTransaction := by
  refine ⟨failed_terminal, ?_⟩
  decide +kernel

end Instance

end Reconciliation

end RecoveryEngine
