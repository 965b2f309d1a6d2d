import SynOSStudio.InterruptiblePrograms.Invariants
import SynOSStudio.RecoveryEngine.Disk
import SynOSStudio.RecoveryEngine.Lineage
import SynOSStudio.RecoveryEngine.PackageTransaction
import SynOSStudio.RecoveryEngine.RootCleanup

/-!
# The host of the recovery engine

The durable state that the recovery programs share, and the operations on it at
which a program can be interrupted, fail or be interleaved with another program.
An operation that fails changes nothing; a choice says whether it fails and
supplies what the environment decides.
-/

namespace RecoveryEngine

open InterruptiblePrograms

/-- The clock of the host: the readings to come, and how many have been taken. -/
structure Clock where
  readings : ℕ → Timestamp
  ticks : ℕ

def Clock.now (clock : Clock) : Timestamp :=
  clock.readings clock.ticks

def Clock.tick (clock : Clock) : Clock :=
  { clock with ticks := clock.ticks + 1 }

/-- The artifacts that a restore transaction binds. -/
structure RecoveryBootArtifacts where
  kernelRelease : String
  kernelSha256 : String
  initramfsSha256 : String
  confirmSha256 : String

/-- What the environment decides at an operation. -/
structure Choice where
  /-- The diagnostic of a failure, if the operation fails. -/
  fault : Option String
  uuid : Uuid
  text : String
  artifacts : RecoveryBootArtifacts

/-- The GRUB state: the one-shot selector, and the pending record from which the current
configuration was generated. -/
structure Boot where
  nextEntry : Option String
  menu : Option RollbackTransaction

structure Locks where
  operation : Bool
  start : Bool

structure World where
  clock : Clock
  disk : Disk
  records : List DeploymentRecord
  lineage : LineageStore
  pending : Option RollbackTransaction
  history : RollbackId → Option RollbackTransaction
  package : Option PackageTransaction
  packageHistory : Uuid → Option PackageTransaction
  cleanups : List RootCleanupRecord
  boot : Boot
  locks : Locks

structure DiscoveryReport where
  deployments : List DeploymentRecord
  issues : List String

inductive RecordOp where
  | load (id : DeploymentId)
  | discover
  | write (record : DeploymentRecord)
  | remove (id : DeploymentId)

inductive RollbackOp where
  | load
  | create (transaction : RollbackTransaction)
  | replace (transaction : RollbackTransaction)
  | remove
  | archive (transaction : RollbackTransaction)

inductive PackageOp where
  | load
  | create (transaction : PackageTransaction)
  | replace (transaction : PackageTransaction)
  | archive (transaction : PackageTransaction)

inductive CleanupOp where
  | list
  | load (id : RollbackId)
  | write (record : RootCleanupRecord)
  | remove (id : RollbackId)

inductive BootOp where
  | layout
  | bootId
  | kernelRelease
  | commandLine
  | rootFilesystemUuid
  | ensureEnvironmentBlock
  | provisionArtifacts
  | verifySecureBoot (id : DeploymentId)
  | protectedConfirm
  | hashConfirm
  | regenerateGrub
  | verifyGrubEntry (transaction : RollbackTransaction)
  | armOnce
  | clearOnce

inductive LockOp where
  | acquireOperation
  | releaseOperation
  | acquireStart
  | releaseStart
  | acquireBrowse (id : DeploymentId)
  | storeDirectories
  | freeSpace

inductive HostOp where
  | now
  | disk (op : DiskOp)
  | record (op : RecordOp)
  | lineage (mutation : LineageMutation)
  | rollback (op : RollbackOp)
  | package (op : PackageOp)
  | cleanup (op : CleanupOp)
  | boot (op : BootOp)
  | lock (op : LockOp)

def RecordOp.Result : RecordOp → Type
  | .load _ => Option DeploymentRecord
  | .discover => DiscoveryReport
  | _ => Unit

/-- `create` and `replace` report whether they found the file in the state they need. -/
def RollbackOp.Result : RollbackOp → Type
  | .load => Option RollbackTransaction
  | .create _ | .replace _ => Bool
  | _ => Unit

def PackageOp.Result : PackageOp → Type
  | .load => Option PackageTransaction
  | .create _ | .replace _ => Bool
  | .archive _ => Unit

def CleanupOp.Result : CleanupOp → Type
  | .list => List RootCleanupRecord
  | .load _ => Option RootCleanupRecord
  | _ => Unit

def BootOp.Result : BootOp → Type
  | .layout | .bootId | .kernelRelease | .commandLine | .rootFilesystemUuid | .hashConfirm
  | .armOnce => String
  | .provisionArtifacts => RecoveryBootArtifacts
  | _ => Unit

/-- Taking the operation lock reports whether it was free. -/
def LockOp.Result : LockOp → Type
  | .acquireOperation => Bool
  | _ => Unit

/-- The answer to an operation. Reading the clock cannot fail. -/
def HostOp.Ans : HostOp → Type
  | .now => Timestamp
  | .disk op => Except String op.Result
  | .record op => Except String op.Result
  | .lineage _ => Except String (Except LineageError SystemLineage)
  | .rollback op => Except String op.Result
  | .package op => Except String op.Result
  | .cleanup op => Except String op.Result
  | .boot op => Except String op.Result
  | .lock op => Except String op.Result

namespace World

def record? (w : World) (id : DeploymentId) : Option DeploymentRecord :=
  w.records.find? fun record => record.id == id

def cleanup? (w : World) (id : RollbackId) : Option RootCleanupRecord :=
  w.cleanups.find? fun record => record.transactionId == id

/-- A record that `discover` lists: a recorded snapshot must exist on disk unless the
record is already being deleted. -/
def discoverable (disk : Disk) (record : DeploymentRecord) : Bool :=
  record.validate.isOk &&
    (record.snapshotUuid.isNone || (disk.snapshots record.id).isSome || record.state == .deleting)

/-- Newest first, then by identifier. -/
def discoveryOrder (a b : DeploymentRecord) : Bool :=
  b.createdAt < a.createdAt ||
    (a.createdAt == b.createdAt && a.id.hyphenated ≤ b.id.hyphenated)

def discover (w : World) : DiscoveryReport where
  deployments := (w.records.filter (discoverable w.disk)).insertionSort
    fun a b => discoveryOrder a b = true
  issues := (w.records.filter fun record => !discoverable w.disk record).map fun record =>
    record.id.hyphenated ++ ".json"

def recordEffect (w : World) : (op : RecordOp) → Except String op.Result × World
  | .load id => (.ok (w.record? id), w)
  | .discover => (.ok w.discover, w)
  | .write record =>
    (.ok (), { w with records := record :: w.records.filter fun r => r.id != record.id })
  | .remove id => (.ok (), { w with records := w.records.filter fun r => r.id != id })

def rollbackEffect (w : World) : (op : RollbackOp) → Except String op.Result × World
  | .load => (.ok w.pending, w)
  | .create transaction =>
    match w.pending with
    | none => (.ok true, { w with pending := some transaction })
    | some _ => (.ok false, w)
  | .replace transaction =>
    match w.pending with
    | some _ => (.ok true, { w with pending := some transaction })
    | none => (.ok false, w)
  | .remove => (.ok (), { w with pending := none })
  | .archive transaction =>
    (.ok (), { w with history := Function.update w.history transaction.id (some transaction) })

def packageEffect (w : World) : (op : PackageOp) → Except String op.Result × World
  | .load => (.ok w.package, w)
  | .create transaction =>
    match w.package with
    | none => (.ok true, { w with package := some transaction })
    | some _ => (.ok false, w)
  | .replace transaction =>
    match w.package with
    | some _ => (.ok true, { w with package := some transaction })
    | none => (.ok false, w)
  | .archive transaction =>
    match w.package, w.packageHistory transaction.id with
    | none, _ => (.error ("Could not archive package transaction: " ++ Disk.noSuchFile), w)
    | some _, some _ => (.error "Package transaction history entry already exists", w)
    | some stored, none =>
      (.ok (), { w with
        package := none
        packageHistory := Function.update w.packageHistory transaction.id (some stored) })

def cleanupEffect (w : World) : (op : CleanupOp) → Except String op.Result × World
  | .list =>
    (.ok (w.cleanups.insertionSort fun a b => a.createdAt ≤ b.createdAt), w)
  | .load id => (.ok (w.cleanup? id), w)
  | .write record =>
    (.ok (), { w with
      cleanups := record :: w.cleanups.filter fun r => r.transactionId != record.transactionId })
  | .remove id =>
    (.ok (), { w with cleanups := w.cleanups.filter fun r => r.transactionId != id })

/-- The recovery entry that the generated configuration offers. -/
def menuEntry (menu : Option RollbackTransaction) : Option String :=
  match menu with
  | some t => if t.phase = .preparing ∨ t.phase = .armed then some t.grubEntryId else none
  | none => none

/-- `arm_pending_once`: select the entry of the pending transaction. -/
def armOnce (w : World) : Except String String × World :=
  match w.pending with
  | none => (.error "No rollback transaction is pending", w)
  | some t =>
    match t.validate with
    | .error e => (.error e.message, w)
    | .ok () =>
      if t.phase ≠ .armed then
        (.error "Only an armed rollback transaction can select the one-shot GRUB entry", w)
      else if t.recoveryProtocolVersion ≠ recoveryProtocolVersion then
        (.error "A legacy recovery transaction cannot be selected for boot", w)
      else
        (.ok t.grubEntryId, { w with boot := { w.boot with nextEntry := some t.grubEntryId } })

def bootEffect (k : Choice) (w : World) : (op : BootOp) → Except String op.Result × World
  | .layout | .bootId | .kernelRelease | .commandLine | .rootFilesystemUuid | .hashConfirm =>
    (.ok k.text, w)
  | .ensureEnvironmentBlock | .verifySecureBoot _ | .protectedConfirm => (.ok (), w)
  | .provisionArtifacts => (.ok k.artifacts, w)
  | .regenerateGrub => (.ok (), { w with boot := { w.boot with menu := w.pending } })
  | .verifyGrubEntry transaction =>
    if menuEntry w.boot.menu = some transaction.grubEntryId then (.ok (), w)
    else (.error "The generated GRUB configuration does not contain the recovery entry", w)
  | .armOnce => w.armOnce
  | .clearOnce => (.ok (), { w with boot := { w.boot with nextEntry := none } })

/-- The start lock is taken by waiting; the handler of an interleaved system lets the
operation happen only when the lock is free. -/
def lockEffect (w : World) : (op : LockOp) → Except String op.Result × World
  | .acquireOperation =>
    if w.locks.operation then (.ok false, w)
    else (.ok true, { w with locks := { w.locks with operation := true } })
  | .releaseOperation => (.ok (), { w with locks := { w.locks with operation := false } })
  | .acquireStart => (.ok (), { w with locks := { w.locks with start := true } })
  | .releaseStart => (.ok (), { w with locks := { w.locks with start := false } })
  | .acquireBrowse _ | .storeDirectories | .freeSpace => (.ok (), w)

def lineageEffect (w : World) (mutation : LineageMutation) :
    Except LineageError SystemLineage × World :=
  match w.lineage.mutate mutation with
  | .ok (lineage, store) => (.ok lineage, { w with lineage := store })
  | .error e => (.error e, w)

def diskEffect (k : Choice) (w : World) (op : DiskOp) : Except String op.Result × World :=
  ((w.disk.effect k.uuid k.text op).1, { w with disk := (w.disk.effect k.uuid k.text op).2 })

end World

/-- Releasing a lock happens when a file closes, which cannot fail. -/
def LockOp.fallible : LockOp → Bool
  | .releaseOperation | .releaseStart => false
  | _ => true

/-- A chosen fault answers with its diagnostic and leaves the world as it was. -/
def orFault {α : Type} (k : Choice) (w : World) (r : Except String α × World) :
    Except String α × World :=
  match k.fault with
  | some message => (.error message, w)
  | none => r

/-- Releasing a lock ignores a chosen fault. -/
def lockOrFault (k : Choice) (w : World) (op : LockOp) : Except String op.Result × World :=
  if op.fallible then orFault k w (w.lockEffect op) else w.lockEffect op

/-- The answer and the effect of an operation under a choice. -/
def perform : (op : HostOp) → Choice → World → op.Ans × World
  | .now, _, w => (w.clock.now, { w with clock := w.clock.tick })
  | .disk op, k, w => orFault k w (w.diskEffect k op)
  | .record op, k, w => orFault k w (w.recordEffect op)
  | .lineage mutation, k, w =>
    orFault k w (.ok (w.lineageEffect mutation).1, (w.lineageEffect mutation).2)
  | .rollback op, k, w => orFault k w (w.rollbackEffect op)
  | .package op, k, w => orFault k w (w.packageEffect op)
  | .cleanup op, k, w => orFault k w (w.cleanupEffect op)
  | .boot op, k, w => orFault k w (w.bootEffect k op)
  | .lock op, k, w => lockOrFault k w op

section Frames

/-! Each group of operations changes only its own part of the world. -/

variable (k : Choice) (w : World)

theorem orFault_world {α : Type} (r : Except String α × World) :
    (orFault k w r).2 = w ∨ (orFault k w r).2 = r.2 := by
  unfold orFault
  cases k.fault with
  | none => exact .inr rfl
  | some message => exact .inl rfl

/-- An operation fails without effect or has the effect of the world. -/
theorem orFault_cases {α : Type} (r : Except String α × World) :
    (∃ e, orFault k w r = (.error e, w)) ∨ orFault k w r = r := by
  unfold orFault
  cases k.fault with
  | none => exact .inr rfl
  | some message => exact .inl ⟨message, rfl⟩

theorem perform_disk (op : DiskOp) :
    ∃ disk, (perform (.disk op) k w).2 = { w with disk := disk } := by
  rcases orFault_world k w (w.diskEffect k op) with h | h
  · exact ⟨w.disk, h⟩
  · exact ⟨_, h⟩

theorem perform_record (op : RecordOp) :
    ∃ records, (perform (.record op) k w).2 = { w with records := records } := by
  have heffect : ∃ records, (w.recordEffect op).2 = { w with records := records } := by
    cases op <;> exact ⟨_, rfl⟩
  rcases orFault_world k w (w.recordEffect op) with h | h
  · exact ⟨w.records, h⟩
  · exact heffect.imp fun _ he => h.trans he

theorem perform_lineage (mutation : LineageMutation) :
    ∃ lineage, (perform (.lineage mutation) k w).2 = { w with lineage := lineage } := by
  have heffect : ∃ lineage, (w.lineageEffect mutation).2 = { w with lineage := lineage } := by
    unfold World.lineageEffect
    split <;> exact ⟨_, rfl⟩
  rcases orFault_world k w (.ok (w.lineageEffect mutation).1, (w.lineageEffect mutation).2)
    with h | h
  · exact ⟨w.lineage, h⟩
  · exact heffect.imp fun _ he => h.trans he

theorem perform_rollback (op : RollbackOp) :
    ∃ pending history, (perform (.rollback op) k w).2 =
      { w with pending := pending, history := history } := by
  have heffect : ∃ pending history, (w.rollbackEffect op).2 =
      { w with pending := pending, history := history } := by
    cases op with
    | create t =>
      cases hp : w.pending <;> simp only [World.rollbackEffect, hp] <;> exact ⟨_, _, rfl⟩
    | replace t =>
      cases hp : w.pending <;> simp only [World.rollbackEffect, hp] <;> exact ⟨_, _, rfl⟩
    | _ => exact ⟨_, _, rfl⟩
  rcases orFault_world k w (w.rollbackEffect op) with h | h
  · exact ⟨w.pending, w.history, h⟩
  · obtain ⟨pending, history, he⟩ := heffect
    exact ⟨pending, history, h.trans he⟩

/-- A creation changes nothing, or finds nothing pending and writes the transaction. -/
theorem perform_create_cases (t : RollbackTransaction) :
    ((perform (.rollback (.create t)) k w).2 = w ∧
      ((∃ e, (perform (.rollback (.create t)) k w).1 = .error e) ∨
        (perform (.rollback (.create t)) k w).1 = .ok false)) ∨
    (k.fault = none ∧ w.pending = none ∧
      perform (.rollback (.create t)) k w = (.ok true, { w with pending := some t })) := by
  have hperform : perform (.rollback (.create t)) k w =
      orFault k w (w.rollbackEffect (.create t)) := rfl
  cases hk : k.fault with
  | some e =>
    simp only [orFault, hk] at hperform
    rw [hperform]
    exact .inl ⟨rfl, .inl ⟨e, rfl⟩⟩
  | none =>
    simp only [orFault, hk] at hperform
    rw [hperform]
    cases hp : w.pending with
    | none =>
      refine .inr ⟨rfl, rfl, ?_⟩
      simp only [World.rollbackEffect, hp]
      rfl
    | some t' =>
      refine .inl ⟨?_, .inr ?_⟩ <;> simp only [World.rollbackEffect, hp]
      rfl

/-- An update changes nothing, or finds a transaction pending and writes over it. -/
theorem perform_replace_cases (t : RollbackTransaction) :
    ((perform (.rollback (.replace t)) k w).2 = w ∧
      ((∃ e, (perform (.rollback (.replace t)) k w).1 = .error e) ∨
        (perform (.rollback (.replace t)) k w).1 = .ok false)) ∨
    (k.fault = none ∧ w.pending ≠ none ∧
      perform (.rollback (.replace t)) k w = (.ok true, { w with pending := some t })) := by
  have hperform : perform (.rollback (.replace t)) k w =
      orFault k w (w.rollbackEffect (.replace t)) := rfl
  cases hk : k.fault with
  | some e =>
    simp only [orFault, hk] at hperform
    rw [hperform]
    exact .inl ⟨rfl, .inl ⟨e, rfl⟩⟩
  | none =>
    simp only [orFault, hk] at hperform
    rw [hperform]
    cases hp : w.pending with
    | some t' =>
      refine .inr ⟨rfl, by simp, ?_⟩
      simp only [World.rollbackEffect, hp]
      rfl
    | none =>
      refine .inl ⟨?_, .inr ?_⟩ <;> simp only [World.rollbackEffect, hp]
      rfl

theorem perform_package (op : PackageOp) :
    ∃ package history, (perform (.package op) k w).2 =
      { w with package := package, packageHistory := history } := by
  have heffect : ∃ package history, (w.packageEffect op).2 =
      { w with package := package, packageHistory := history } := by
    cases op with
    | load => exact ⟨_, _, rfl⟩
    | create t =>
      cases hp : w.package <;> simp only [World.packageEffect, hp] <;> exact ⟨_, _, rfl⟩
    | replace t =>
      cases hp : w.package <;> simp only [World.packageEffect, hp] <;> exact ⟨_, _, rfl⟩
    | archive t =>
      cases hp : w.package <;> cases hh : w.packageHistory t.id <;>
        simp only [World.packageEffect, hp, hh] <;> exact ⟨_, _, rfl⟩
  rcases orFault_world k w (w.packageEffect op) with h | h
  · exact ⟨w.package, w.packageHistory, h⟩
  · obtain ⟨package, history, he⟩ := heffect
    exact ⟨package, history, h.trans he⟩

theorem perform_cleanup (op : CleanupOp) :
    ∃ cleanups, (perform (.cleanup op) k w).2 = { w with cleanups := cleanups } := by
  have heffect : ∃ cleanups, (w.cleanupEffect op).2 = { w with cleanups := cleanups } := by
    cases op <;> exact ⟨_, rfl⟩
  rcases orFault_world k w (w.cleanupEffect op) with h | h
  · exact ⟨w.cleanups, h⟩
  · exact heffect.imp fun _ he => h.trans he

theorem armOnce_world : ∃ boot, w.armOnce.2 = { w with boot := boot } := by
  unfold World.armOnce
  repeat' split
  all_goals exact ⟨_, rfl⟩

theorem perform_boot (op : BootOp) :
    ∃ boot, (perform (.boot op) k w).2 = { w with boot := boot } := by
  have heffect : ∃ boot, (w.bootEffect k op).2 = { w with boot := boot } := by
    cases op with
    | armOnce => exact armOnce_world w
    | verifyGrubEntry t =>
      by_cases h : World.menuEntry w.boot.menu = some t.grubEntryId <;>
        simp only [World.bootEffect, h, if_true, if_false] <;> exact ⟨_, rfl⟩
    | _ => exact ⟨_, rfl⟩
  rcases orFault_world k w (w.bootEffect k op) with h | h
  · exact ⟨w.boot, h⟩
  · exact heffect.imp fun _ he => h.trans he

theorem perform_lock (op : LockOp) :
    ∃ locks, (perform (.lock op) k w).2 = { w with locks := locks } := by
  have heffect : ∃ locks, (w.lockEffect op).2 = { w with locks := locks } := by
    cases op with
    | acquireOperation =>
      cases h : w.locks.operation <;> simp only [World.lockEffect, h, if_true] <;> exact ⟨_, rfl⟩
    | _ => exact ⟨_, rfl⟩
  show ∃ locks, (lockOrFault k w op).2 = { w with locks := locks }
  unfold lockOrFault
  split_ifs with hf
  · rcases orFault_world k w (w.lockEffect op) with h | h
    · exact ⟨w.locks, h⟩
    · exact heffect.imp fun _ he => h.trans he
  · exact heffect

/-- Only the operations on records change the records. -/
theorem perform_records {op : HostOp} (hop : ∀ op', op ≠ .record op') : (perform op k w).2.records = w.records := by
  cases op with
  | now => rfl
  | disk op =>
    obtain ⟨_, he⟩ := perform_disk k w op
    rw [he]
  | record op => exact absurd rfl (hop op)
  | lineage mutation =>
    obtain ⟨_, he⟩ := perform_lineage k w mutation
    rw [he]
  | rollback op =>
    obtain ⟨_, _, he⟩ := perform_rollback k w op
    rw [he]
  | package op =>
    obtain ⟨_, _, he⟩ := perform_package k w op
    rw [he]
  | cleanup op =>
    obtain ⟨_, he⟩ := perform_cleanup k w op
    rw [he]
  | boot op =>
    obtain ⟨_, he⟩ := perform_boot k w op
    rw [he]
  | lock op =>
    obtain ⟨_, he⟩ := perform_lock k w op
    rw [he]

/-- Only the commands change the volume. -/
theorem perform_volume {op : HostOp} (hop : ∀ op', op ≠ .disk op') : (perform op k w).2.disk = w.disk := by
  cases op with
  | now => rfl
  | disk op => exact absurd rfl (hop op)
  | record op =>
    obtain ⟨_, he⟩ := perform_record k w op
    rw [he]
  | lineage mutation =>
    obtain ⟨_, he⟩ := perform_lineage k w mutation
    rw [he]
  | rollback op =>
    obtain ⟨_, _, he⟩ := perform_rollback k w op
    rw [he]
  | package op =>
    obtain ⟨_, _, he⟩ := perform_package k w op
    rw [he]
  | cleanup op =>
    obtain ⟨_, he⟩ := perform_cleanup k w op
    rw [he]
  | boot op =>
    obtain ⟨_, he⟩ := perform_boot k w op
    rw [he]
  | lock op =>
    obtain ⟨_, he⟩ := perform_lock k w op
    rw [he]

/-- The records after an operation on records. -/
theorem perform_record_cases (op : RecordOp) :
    (perform (.record op) k w).2.records = w.records ∨
    (∃ record, op = .write record ∧ (perform (.record op) k w).2.records =
      record :: w.records.filter fun r => r.id != record.id) ∨
    (∃ id, op = .remove id ∧
      (perform (.record op) k w).2.records = w.records.filter fun r => r.id != id) := by
  rcases orFault_world k w (w.recordEffect op) with he | he
  · exact .inl (congrArg World.records he)
  · cases op with
    | load => exact .inl (congrArg World.records he)
    | discover => exact .inl (congrArg World.records he)
    | write record => exact .inr (.inl ⟨record, rfl, congrArg World.records he⟩)
    | remove id => exact .inr (.inr ⟨id, rfl, congrArg World.records he⟩)

end Frames

/-- A computation of the recovery engine. -/
abbrev Action (ε α : Type) := Attempt HostOp HostOp.Ans ε α

/-- `Utc::now()`. -/
def utcNow {ε : Type} : Action ε Timestamp :=
  Attempt.call .now .ok

end RecoveryEngine
