import SynOSStudio.RecoveryEngine.RollbackSafety.Userspace

/-!
# A restore never loses the running system

Boots are sequences of `execute` and `reconcile`, each cut off anywhere and with
any operation failing. In every state they reach before a confirmation is stored,
the subvolume that was running when the restore was armed exists exactly once.
-/

namespace RecoveryEngine

open InterruptiblePrograms

namespace RollbackSafety

variable {R : Restore}

/-- One boot: the initramfs runs `execute`, and userspace may run `reconcile` when
`execute` was not cut off. -/
structure Boot where
  requested : Option RollbackId
  bootId : String
  initramfs : List Choice
  userspace : Option (List Choice)

def Boot.run (boot : Boot) (s : State) : State :=
  let execution :=
    (Recovery.execute boot.requested boot.bootId).run.run (logged perform) boot.initramfs s
  match execution.1, boot.userspace with
  | some _, some script => (Confirmation.reconcile.run.run (logged perform) script execution.2).2
  | _, _ => execution.2

/-- The state after a sequence of boots. -/
def runBoots (boots : List Boot) (s : State) : State :=
  boots.foldl (fun s boot => boot.run s) s

section Boots

theorem Boot.run_safe (boot : Boot) {s : State} (h : Safe R s) : Safe R (boot.run s) := by
  have hexecute := (execute_safe boot.requested boot.bootId h).run_inv (fun _ _ => id)
    boot.initramfs fun _ _ => trivial
  unfold Boot.run
  dsimp only
  split
  · exact (reconcile_safe hexecute).run_inv (fun _ _ => id) _ fun _ _ => trivial
  · exact hexecute

theorem runBoots_safe (boots : List Boot) {s : State} (h : Safe R s) :
    Safe R (runBoots boots s) := by
  induction boots generalizing s with
  | nil => exact h
  | cons boot boots ih => exact ih (boot.run_safe h)

/-- The start: a valid armed transaction, the running system at `@root`, and no subvolume
of an earlier attempt. Subvolume identifiers are unique on the volume. -/
structure Armed (t : RollbackTransaction) (current : Subvolume) (w : World) : Prop where
  pending : w.pending = some t
  phase : t.phase = .armed
  valid : t.Valid
  root : w.disk.top rootName = some current
  noOld : w.disk.top t.oldRootName = none
  noNew : w.disk.top t.newRootName = none
  used : current.subvolId < w.disk.nextSubvolId
  unique : ∀ name v, w.disk.top name = some v → v.subvolId = current.subvolId → name = rootName

def restoreOf (t : RollbackTransaction) (current : Subvolume) (w : World) : Restore :=
  ⟨t.id, t.targetDeploymentId, current, w.disk.snapshots⟩

/-- What holds in a state that a sequence of boots reaches before a confirmation. -/
structure RunningSystemKept (t : RollbackTransaction) (current : Subvolume) (w : World)
    (s : State) : Prop where
  /-- The running subvolume exists exactly once, as `@root` or as the old root. -/
  exactlyOnce : ∃ name, (name = rootName ∨ name = t.oldRootName) ∧
    s.1.disk.top name = some current ∧
    ∀ other v, s.1.disk.top other = some v → v.subvolId = current.subvolId → other = name
  /-- The deployment snapshots, the target among them, are as they were. -/
  deployments : s.1.disk.snapshots = w.disk.snapshots
  /-- Before applying, after a failure and after a revert only `@root` is there. -/
  untouched : ∀ p, s.1.pending = some p →
    p.phase = .armed ∨ p.phase = .failed ∨ p.phase = .reverted →
    s.1.disk.top rootName = some current ∧ s.1.disk.top t.oldRootName = none ∧
      s.1.disk.top t.newRootName = none
  /-- An unconfirmed boot runs a writable snapshot of the target. -/
  booted : ∀ p, s.1.pending = some p → p.phase = .bootedUnconfirmed →
    (∃ v source, s.1.disk.top rootName = some v ∧
      w.disk.snapshots t.targetDeploymentId = some source ∧
      v.parentUuid = some source.uuid ∧ v.readOnly = false) ∧
    s.1.disk.top t.oldRootName = some current ∧ s.1.disk.top t.newRootName = none
  order : NoApplyAfterRevert (restoreOf t current w) s.2

theorem Armed.safe {t : RollbackTransaction} {current : Subvolume} {w : World}
    (h : Armed t current w) : Safe (restoreOf t current w) (w, []) := by
  have hhere : Here (restoreOf t current w) (some t) w.disk false (w, []) :=
    ⟨h.pending, rfl, by simp [Stored], by simp [NoApplyAfterRevert]⟩
  refine hhere.safe ⟨?_, ⟨.untouched, ⟨h.root, h.noOld, h.noNew⟩, ?_⟩, ⟨rfl, h.used, ?_⟩, by simp⟩
  · rintro _ ⟨⟩
    exact ⟨rfl, rfl⟩
  · simp [h.phase, Consistent]
  · intro name v hroot _ _ hv hid
    exact hroot (h.unique name v hv hid)

theorem Safe.kept {t : RollbackTransaction} {current : Subvolume} {w : World} {s : State}
    (h : Safe (restoreOf t current w) s) (hnot : ¬ Stored .confirmed s.2) :
    RunningSystemKept t current w s := by
  rcases h with h | ⟨pending, disk, reverting, hhere, hs⟩
  · exact absurd h hnot
  · obtain ⟨layout, hholds, hcons⟩ := hs.layout
    obtain ⟨hhome, hunique⟩ := hholds.home_unique hs.kept
    have hdisk := hhere.disk_eq
    have hpending := hhere.pending_eq
    refine ⟨⟨layout.home _, ?_, by rw [hdisk]; exact hhome, by rw [hdisk]; exact hunique⟩,
      by rw [hdisk]; exact hs.kept.snapshots, ?_, ?_, hhere.order⟩
    · cases layout
      · exact .inl rfl
      · exact .inl rfl
      · exact .inr rfl
      · exact .inr rfl
    · intro p hp hphase
      rw [hpending] at hp
      subst hp
      obtain rfl : layout = .untouched := by
        rcases hphase with hphase | hphase | hphase <;> simpa [hphase, Consistent] using hcons
      rw [hdisk]
      exact hholds
    · intro p hp hphase
      rw [hpending] at hp
      subst hp
      obtain rfl : layout = .activated := by simpa [hphase, Consistent] using hcons
      obtain ⟨⟨v, hroot, ⟨source, hsource, hparent⟩, hwritable, -⟩, hold, hnew⟩ := hholds
      rw [hdisk]
      exact ⟨⟨v, source, hroot, hsource, hparent, hwritable⟩, hold, hnew⟩

/-- Whatever boots happen, however their programs are cut off and whichever operations
fail, the running system is kept until a confirmation is stored. -/
theorem running_system_is_never_lost {t : RollbackTransaction} {current : Subvolume} {w : World}
    (h : Armed t current w) (boots : List Boot)
    (hnot : ¬ Stored .confirmed (runBoots boots (w, [])).2) :
    RunningSystemKept t current w (runBoots boots (w, [])) :=
  (runBoots_safe boots h.safe).kept hnot

end Boots

section Instance

/-! A host with an armed restore, and a boot that applies the target and loses power
between the two renames. -/

def sampleDigest : String := String.ofList (List.replicate 64 'a')

def sampleTransaction : RollbackTransaction :=
  { RollbackTransaction.new (.repeated 1) 100 (.repeated 2) (.repeated 3)
      (Uuid.repeated 4).hyphenated "6.12.0" sampleDigest sampleDigest sampleDigest with
    phase := .armed }

def sampleRecord (id : DeploymentId) (kind : DeploymentKind) (snapshot : Uuid) :
    DeploymentRecord where
  schemaVersion := deploymentSchemaVersion
  id := id
  parentId := none
  kind := kind
  state := .ready
  createdAt := 50
  title := "System snapshot"
  reason := "Requested by the administrator"
  scheduleId := none
  snapshotUuid := some snapshot.hyphenated
  snapshotParentUuid := none
  kernelRelease := some "6.12.0"
  initramfsSha256 := some sampleDigest
  bootArtifactSha256 := some sampleDigest
  dpkgStatusSha256 := some sampleDigest
  mokCertificateSha256 := none
  pinned := false
  failure := none

def sampleRoot : Subvolume := ⟨256, .repeated 5, none, false, []⟩

def sampleDisk : Disk where
  top name := if name = rootName then some sampleRoot else none
  snapshots id :=
    if id = .repeated 2 then some ⟨257, .repeated 6, none, true, []⟩
    else if id = .repeated 3 then some ⟨258, .repeated 7, none, true, []⟩
    else none
  directories id := id = .repeated 2 ∨ id = .repeated 3
  nextSubvolId := 300

def sampleWorld : World where
  clock := ⟨fun n => 200 + n, 0⟩
  disk := sampleDisk
  records := [sampleRecord (.repeated 2) .manual (.repeated 6),
    sampleRecord (.repeated 3) .preRollback (.repeated 7)]
  lineage := ⟨none, fun _ => 1000⟩
  pending := some sampleTransaction
  history _ := none
  package := none
  packageHistory _ := none
  cleanups := []
  boot := ⟨some sampleTransaction.grubEntryId, some sampleTransaction⟩
  locks := ⟨false, false⟩

/-- The choice of an operation that succeeds. -/
def success : Choice :=
  ⟨none, .repeated 8, sampleDigest, ⟨"6.12.0", sampleDigest, sampleDigest, sampleDigest⟩⟩

def sampleBoots : List Boot :=
  [⟨some (.repeated 1), (Uuid.repeated 9).hyphenated, List.replicate 27 success, none⟩]

theorem sampleArmed : Armed sampleTransaction sampleRoot sampleWorld where
  pending := rfl
  phase := rfl
  valid := (RollbackTransaction.validate_eq_ok _).mp (by decide +kernel)
  root := rfl
  noOld := by decide +kernel
  noNew := by decide +kernel
  used := by decide
  unique := by
    intro name v hv _
    by_contra hne
    simp [sampleWorld, sampleDisk, hne] at hv

instance (phase : RollbackPhase) (log : Log) : Decidable (Stored phase log) :=
  inferInstanceAs (Decidable (∃ entry ∈ log, storedPhase entry = some phase))

theorem sampleBoots_cut_off :
    (runBoots sampleBoots (sampleWorld, [])).1.disk.top rootName = none ∧
      ¬ Stored .confirmed (runBoots sampleBoots (sampleWorld, [])).2 := by
  decide +kernel

/-- At the end of this run there is no `@root`: the running system is the old root. -/
theorem running_system_kept_without_root :
    (runBoots sampleBoots (sampleWorld, [])).1.disk.top rootName = none ∧
      RunningSystemKept sampleTransaction sampleRoot sampleWorld
        (runBoots sampleBoots (sampleWorld, [])) :=
  ⟨sampleBoots_cut_off.1,
    running_system_is_never_lost sampleArmed sampleBoots sampleBoots_cut_off.2⟩

end Instance

end RollbackSafety

end RecoveryEngine
