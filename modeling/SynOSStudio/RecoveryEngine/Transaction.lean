import SynOSStudio.RecoveryEngine.Deployment

/-!
# Rollback transactions

The durable record of one system restore, its phases, and the operations that
change it. Every change ends with the same validation; `Valid` collects what it
checks, so that later proofs use named conditions and not the sequence of tests.
-/

namespace RecoveryEngine

def rollbackSchemaVersion : ℕ := 3
def recoveryProtocolVersion : ℕ := 2
def legacyRecoveryProtocolVersion : ℕ := 1
def maxApplyAttempts : ℕ := 3
def maxFailureLength : ℕ := 2000

inductive RollbackPhase where
  | preparing | armed | applying | bootedUnconfirmed | reverting | reverted | confirmed | failed
  deriving DecidableEq, Repr

inductive RecoveryCheckpoint where
  | initramfsEntered | validating | applyStarted | writableTargetCreated | currentRootProtected
  | targetRootActivated | bootedUnconfirmedRecorded | revertStarted | restoredRootMovedAside
  | fallbackRootActivated | discardedRootDeleted | revertedRecorded
  deriving DecidableEq, Repr

namespace RollbackPhase

def canTransitionTo : RollbackPhase → RollbackPhase → Bool
  | .preparing, .armed | .preparing, .failed => true
  | .armed, .applying | .armed, .failed => true
  | .applying, .bootedUnconfirmed | .applying, .reverting | .applying, .failed => true
  | .bootedUnconfirmed, .confirmed | .bootedUnconfirmed, .reverting => true
  | .reverting, .reverted | .reverting, .failed => true
  | _, _ => false

def isTerminal : RollbackPhase → Bool
  | .reverted | .confirmed | .failed => true
  | _ => false

/-- The derived `Debug` text, which error messages quote. -/
def debug : RollbackPhase → String
  | .preparing => "Preparing"
  | .armed => "Armed"
  | .applying => "Applying"
  | .bootedUnconfirmed => "BootedUnconfirmed"
  | .reverting => "Reverting"
  | .reverted => "Reverted"
  | .confirmed => "Confirmed"
  | .failed => "Failed"

/-- The phases in which an apply attempt must have been recorded. -/
def requiresAttempt : RollbackPhase → Bool
  | .applying | .bootedUnconfirmed | .reverting | .reverted | .confirmed => true
  | _ => false

end RollbackPhase

structure RollbackTransaction where
  schemaVersion : ℕ
  id : RollbackId
  targetDeploymentId : DeploymentId
  fallbackDeploymentId : DeploymentId
  phase : RollbackPhase
  createdAt : Timestamp
  updatedAt : Timestamp
  recoveryProtocolVersion : ℕ
  initramfsAttempts : ℕ
  initramfsBootId : Option String
  checkpoint : Option RecoveryCheckpoint
  checkpointAt : Option Timestamp
  applyAttempts : ℕ
  applyingBootId : Option String
  rootFilesystemUuid : String
  kernelRelease : String
  recoveryKernelSha256 : String
  recoveryInitramfsSha256 : String
  recoveryConfirmSha256 : String
  grubEntryId : String
  failure : Option String
  deriving DecidableEq

inductive TransactionErrorCode where
  | alreadyPending | notFound | unsupportedSchema | invalidRecord | invalidTransition
  | attemptLimit | io
  deriving DecidableEq, Repr

structure TransactionError where
  code : TransactionErrorCode
  message : String
  deriving DecidableEq, Repr

def validateUuid (value name : String) : Except TransactionError Unit :=
  match Uuid.parseStr value with
  | none => .error ⟨.invalidRecord, s!"Rollback {name} is not a UUID"⟩
  | some parsed =>
    ensure (parsed.hyphenated == value)
      ⟨.invalidRecord, s!"Rollback {name} is not in canonical form"⟩

def validateKernelRelease (value : String) : Except TransactionError Unit :=
  ensure (safeKernelRelease value)
    ⟨.invalidRecord, "Rollback kernel release contains unsafe characters"⟩

def validateDigest (value name : String) : Except TransactionError Unit :=
  ensure (isSha256 value) ⟨.invalidRecord, s!"Rollback {name} digest is invalid"⟩

def isZeroDigest (value : String) : Bool :=
  value.toList.all (· == '0')

theorem validateUuid_eq_ok (value name : String) :
    validateUuid value name = .ok () ↔ canonicalUuid value = true := by
  unfold validateUuid canonicalUuid
  cases Uuid.parseStr value <;> simp

namespace RollbackTransaction

def grubEntryFor (id : RollbackId) : String :=
  "synos-btrfs-snapshots-manager-" ++ id.hyphenated

def oldRootName (t : RollbackTransaction) : String :=
  "@root.snapshots-manager-old-" ++ t.id.hyphenated

def newRootName (t : RollbackTransaction) : String :=
  "@root.snapshots-manager-new-" ++ t.id.hyphenated

/-- `RollbackTransaction::new`, with the random identifier and the clock reading as arguments. -/
def new (id : RollbackId) (now : Timestamp) (targetDeploymentId fallbackDeploymentId : DeploymentId)
    (rootFilesystemUuid kernelRelease recoveryKernelSha256 recoveryInitramfsSha256
      recoveryConfirmSha256 : String) : RollbackTransaction where
  schemaVersion := rollbackSchemaVersion
  id := id
  targetDeploymentId := targetDeploymentId
  fallbackDeploymentId := fallbackDeploymentId
  phase := .preparing
  createdAt := now
  updatedAt := now
  recoveryProtocolVersion := RecoveryEngine.recoveryProtocolVersion
  initramfsAttempts := 0
  initramfsBootId := none
  checkpoint := none
  checkpointAt := none
  applyAttempts := 0
  applyingBootId := none
  rootFilesystemUuid := rootFilesystemUuid
  kernelRelease := kernelRelease
  recoveryKernelSha256 := recoveryKernelSha256
  recoveryInitramfsSha256 := recoveryInitramfsSha256
  recoveryConfirmSha256 := recoveryConfirmSha256
  grubEntryId := grubEntryFor id
  failure := none

/-- The part of the validation that depends on the protocol version. -/
def validateProtocol (t : RollbackTransaction) : Except TransactionError Unit :=
  if t.recoveryProtocolVersion = RecoveryEngine.recoveryProtocolVersion then
    ensure (!([t.recoveryKernelSha256, t.recoveryInitramfsSha256,
        t.recoveryConfirmSha256].any isZeroDigest))
      ⟨.invalidRecord, "Current recovery protocol artifacts must have non-zero digests"⟩
  else if t.recoveryProtocolVersion = legacyRecoveryProtocolVersion then
    ensure (isZeroDigest t.recoveryConfirmSha256)
      ⟨.invalidRecord, "Legacy recovery transactions cannot bind a v2 confirmation artifact"⟩
  else
    .error ⟨.unsupportedSchema, s!"Unsupported recovery protocol {t.recoveryProtocolVersion}"⟩

/-- The record of the latest initramfs entry. -/
def validateInitramfsEntry (t : RollbackTransaction) : Except TransactionError Unit := do
  ensure (!(t.initramfsAttempts == 0 &&
      (t.initramfsBootId.isSome || t.checkpoint.isSome || t.checkpointAt.isSome)))
    ⟨.invalidRecord, "A rollback without initramfs attempts cannot contain recovery checkpoints"⟩
  if 0 < t.initramfsAttempts then
    match t.initramfsBootId with
    | none => .error ⟨.invalidRecord, "An initramfs attempt must record its boot ID"⟩
    | some bootId => validateUuid bootId "initramfs entry boot ID"
    ensure (t.checkpoint.isSome && t.checkpointAt.isSome)
      ⟨.invalidRecord, "An initramfs attempt must record a durable checkpoint"⟩

def validateApplyingBoot (t : RollbackTransaction) : Except TransactionError Unit :=
  match t.applyingBootId with
  | some bootId => validateUuid bootId "initramfs boot ID"
  | none => .ok ()

def validFailure (failure : String) : Bool :=
  !failure.toList.isEmpty && failure.toList.length ≤ maxFailureLength &&
    !failure.toList.any isControl

def validate (t : RollbackTransaction) : Except TransactionError Unit := do
  ensure (t.schemaVersion == rollbackSchemaVersion)
    ⟨.unsupportedSchema, s!"Unsupported rollback transaction schema {t.schemaVersion}"⟩
  ensure (t.targetDeploymentId != t.fallbackDeploymentId)
    ⟨.invalidRecord, "Rollback target and fallback must be different deployments"⟩
  validateUuid t.rootFilesystemUuid "root filesystem UUID"
  validateKernelRelease t.kernelRelease
  validateDigest t.recoveryKernelSha256 "recovery kernel"
  validateDigest t.recoveryInitramfsSha256 "recovery initramfs"
  validateDigest t.recoveryConfirmSha256 "recovery confirmation engine"
  t.validateProtocol
  ensure (t.grubEntryId == grubEntryFor t.id)
    ⟨.invalidRecord, "GRUB entry ID does not match the rollback transaction"⟩
  ensure (!decide (t.updatedAt < t.createdAt))
    ⟨.invalidRecord, "Rollback transaction timestamps are out of order"⟩
  ensure (t.applyAttempts ≤ maxApplyAttempts)
    ⟨.attemptLimit, "Rollback transaction exceeds the apply attempt limit"⟩
  ensure (t.initramfsAttempts ≤ maxApplyAttempts)
    ⟨.attemptLimit, "Rollback transaction exceeds the initramfs attempt limit"⟩
  t.validateInitramfsEntry
  ensure (t.checkpoint.isSome == t.checkpointAt.isSome)
    ⟨.invalidRecord, "Rollback checkpoint and timestamp must be recorded together"⟩
  ensure (!(t.checkpointAt.any fun timestamp => timestamp < t.createdAt))
    ⟨.invalidRecord, "Rollback checkpoint timestamp predates the transaction"⟩
  ensure (!((t.phase == .preparing || t.phase == .armed) && t.applyAttempts != 0))
    ⟨.invalidRecord, "A rollback transaction cannot have apply attempts before applying"⟩
  ensure (!(t.phase.requiresAttempt && t.applyAttempts == 0))
    ⟨.invalidRecord, "An applied rollback transaction must record at least one attempt"⟩
  ensure (!(0 < t.applyAttempts && t.applyingBootId.isNone))
    ⟨.invalidRecord, "An attempted rollback must record its initramfs boot ID"⟩
  ensure (t.applyAttempts ≤ t.initramfsAttempts)
    ⟨.invalidRecord, "Rollback apply attempts exceed initramfs entries"⟩
  t.validateApplyingBoot
  ensure (!(t.phase == .failed && t.failure.isNone))
    ⟨.invalidRecord, "A failed rollback transaction must contain a diagnostic"⟩
  ensure (!(t.phase != .failed && t.failure.isSome))
    ⟨.invalidRecord, "Only a failed rollback transaction may contain a diagnostic"⟩
  ensure (t.failure.all validFailure)
    ⟨.invalidRecord, "Rollback failure diagnostic is invalid"⟩

/-- What `validate` accepts. -/
structure Valid (t : RollbackTransaction) : Prop where
  schema : t.schemaVersion = rollbackSchemaVersion
  distinct : t.targetDeploymentId ≠ t.fallbackDeploymentId
  rootUuid : canonicalUuid t.rootFilesystemUuid = true
  kernel : safeKernelRelease t.kernelRelease = true
  kernelDigest : isSha256 t.recoveryKernelSha256 = true
  initramfsDigest : isSha256 t.recoveryInitramfsSha256 = true
  confirmDigest : isSha256 t.recoveryConfirmSha256 = true
  protocol : t.validateProtocol = .ok ()
  grubEntry : t.grubEntryId = grubEntryFor t.id
  updated : t.createdAt ≤ t.updatedAt
  applyLimit : t.applyAttempts ≤ maxApplyAttempts
  initramfsLimit : t.initramfsAttempts ≤ maxApplyAttempts
  noEntry : t.initramfsAttempts = 0 →
    t.initramfsBootId = none ∧ t.checkpoint = none ∧ t.checkpointAt = none
  entry : 0 < t.initramfsAttempts →
    (∃ bootId, t.initramfsBootId = some bootId ∧ canonicalUuid bootId = true) ∧
      t.checkpoint.isSome ∧ t.checkpointAt.isSome
  checkpointTime : ∀ timestamp ∈ t.checkpointAt, t.createdAt ≤ timestamp
  noAttempt : t.phase = .preparing ∨ t.phase = .armed → t.applyAttempts = 0
  attempt : t.phase.requiresAttempt = true → 0 < t.applyAttempts
  attemptBoot : 0 < t.applyAttempts → t.applyingBootId.isSome
  attemptEntries : t.applyAttempts ≤ t.initramfsAttempts
  applyingBoot : ∀ bootId ∈ t.applyingBootId, canonicalUuid bootId = true
  failedDiagnostic : t.phase = .failed ↔ t.failure.isSome
  diagnostic : ∀ failure ∈ t.failure, validFailure failure = true

theorem validateInitramfsEntry_eq_ok (t : RollbackTransaction) :
    t.validateInitramfsEntry = .ok () ↔
      (t.initramfsAttempts = 0 →
        t.initramfsBootId = none ∧ t.checkpoint = none ∧ t.checkpointAt = none) ∧
      (0 < t.initramfsAttempts →
        (∃ bootId, t.initramfsBootId = some bootId ∧ canonicalUuid bootId = true) ∧
          t.checkpoint.isSome ∧ t.checkpointAt.isSome) := by
  unfold validateInitramfsEntry
  rw [bind_eq_ok_unit, ensure_eq_ok]
  rcases Nat.eq_zero_or_pos t.initramfsAttempts with h | h
  · cases t.initramfsBootId <;> cases t.checkpoint <;> cases t.checkpointAt <;> simp [h, pure,
      Except.pure]
  · have hne : t.initramfsAttempts ≠ 0 := by omega
    cases hb : t.initramfsBootId with
    | none => simp [h, hne, bind, Except.bind]
    | some bootId => simp [h, hne, bind_eq_ok_unit, validateUuid_eq_ok]

theorem validateApplyingBoot_eq_ok (t : RollbackTransaction) :
    t.validateApplyingBoot = .ok () ↔
      ∀ bootId ∈ t.applyingBootId, canonicalUuid bootId = true := by
  unfold validateApplyingBoot
  cases t.applyingBootId <;> simp [validateUuid_eq_ok]

theorem validate_eq_ok (t : RollbackTransaction) : t.validate = .ok () ↔ t.Valid := by
  unfold validate
  simp only [bind_eq_ok_unit, ensure_eq_ok, validateUuid_eq_ok, validateKernelRelease,
    validateDigest, validateInitramfsEntry_eq_ok, validateApplyingBoot_eq_ok]
  constructor
  · rintro ⟨h₁, h₂, h₃, h₄, h₅, h₆, h₇, h₈, h₉, h₁₀, h₁₁, h₁₂, h₁₃, h₁₄, h₁₅, h₁₆, h₁₇, h₁₈,
      h₁₉, h₂₀, h₂₁, h₂₂, h₂₃⟩
    refine ⟨by simpa using h₁, by simpa using h₂, h₃, h₄, h₅, h₆, h₇, h₈, by simpa using h₉,
      by simpa using h₁₀, by simpa using h₁₁, by simpa using h₁₂, h₁₃.1, h₁₃.2, ?_, ?_, ?_, ?_,
      by simpa using h₁₉, h₂₀, ?_, ?_⟩
    · simpa [Option.any_eq_false] using h₁₅
    · intro hp
      rcases hp with hp | hp <;> simpa [hp] using h₁₆
    · intro h
      simp only [h, Bool.true_and, Bool.not_eq_eq_eq_not, Bool.not_true, beq_eq_false_iff_ne] at h₁₇
      omega
    · intro h
      simp only [h, Bool.not_eq_eq_eq_not, Bool.not_true] at h₁₈
      cases hb : t.applyingBootId <;> simp_all
    · cases hf : t.failure <;> by_cases hp : t.phase = .failed <;> simp_all
    · cases hf : t.failure <;> simp_all
  · intro h
    refine ⟨by simpa using h.schema, by simpa using h.distinct, h.rootUuid, h.kernel,
      h.kernelDigest, h.initramfsDigest, h.confirmDigest, h.protocol, by simpa using h.grubEntry,
      by simpa using h.updated, by simpa using h.applyLimit, by simpa using h.initramfsLimit,
      ⟨h.noEntry, h.entry⟩, ?_, ?_, ?_, ?_, ?_, by simpa using h.attemptEntries, h.applyingBoot,
      ?_, ?_, ?_⟩
    · rcases Nat.eq_zero_or_pos t.initramfsAttempts with h₀ | h₀
      · simp [h.noEntry h₀]
      · simp [h.entry h₀]
    · have := h.checkpointTime
      cases hc : t.checkpointAt <;> simp_all
    · have := h.noAttempt
      by_cases hp : t.phase = .preparing ∨ t.phase = .armed <;> simp_all
    · by_cases hp : t.phase.requiresAttempt = true
      · have := h.attempt hp
        simp only [hp, Bool.true_and, Bool.not_eq_eq_eq_not, Bool.not_true, beq_eq_false_iff_ne]
        omega
      · simp [hp]
    · by_cases hp : 0 < t.applyAttempts
      · simpa [hp] using h.attemptBoot hp
      · simp [hp]
    · have := h.failedDiagnostic
      cases hf : t.failure <;> simp_all
    · have := h.failedDiagnostic
      cases hf : t.failure <;> simp_all
    · have := h.diagnostic
      cases hf : t.failure <;> simp_all

/-- The changed record if it passes validation, the end of every mutator. -/
def checked (t : RollbackTransaction) : Except TransactionError RollbackTransaction := do
  t.validate
  pure t

theorem checked_eq_ok (t t' : RollbackTransaction) : t.checked = .ok t' ↔ t' = t ∧ t.Valid := by
  rw [← validate_eq_ok, checked]
  cases t.validate <;> simp [bind, Except.bind, pure, Except.pure, eq_comm]

/-- Guards in front of a change of the record. -/
theorem guarded_eq_ok {condition : Bool} {error : TransactionError}
    {rest : Unit → Except TransactionError RollbackTransaction} {t' : RollbackTransaction} :
    (ensure condition error >>= rest) = .ok t' ↔ condition = true ∧ rest () = .ok t' := by
  cases condition <;> simp [ensure, bind, Except.bind]

def recordInitramfsEntry (t : RollbackTransaction) (bootId : String) (now : Timestamp) :
    Except TransactionError RollbackTransaction := do
  ensure (t.phase == .armed || t.phase == .applying)
    ⟨.invalidTransition, "Only an armed or interrupted rollback may enter initramfs recovery"⟩
  ensure (t.initramfsAttempts < maxApplyAttempts)
    ⟨.attemptLimit, "Rollback initramfs attempt limit has been reached"⟩
  checked { t with
    initramfsAttempts := t.initramfsAttempts + 1
    initramfsBootId := some bootId
    checkpoint := some .initramfsEntered
    checkpointAt := some now
    updatedAt := now }

def recordCheckpoint (t : RollbackTransaction) (value : RecoveryCheckpoint) (now : Timestamp) :
    Except TransactionError RollbackTransaction := do
  ensure t.initramfsBootId.isSome
    ⟨.invalidTransition, "A recovery checkpoint requires an initramfs entry record"⟩
  checked { t with checkpoint := some value, checkpointAt := some now, updatedAt := now }

def transition (t : RollbackTransaction) (next : RollbackPhase) (now : Timestamp) :
    Except TransactionError RollbackTransaction := do
  ensure (t.phase.canTransitionTo next)
    ⟨.invalidTransition,
      s!"Rollback transaction cannot transition from {t.phase.debug} to {next.debug}"⟩
  checked { t with phase := next, updatedAt := now }

def beginApply (t : RollbackTransaction) (bootId : String) (now : Timestamp) :
    Except TransactionError RollbackTransaction := do
  ensure (t.phase == .armed || t.phase == .applying)
    ⟨.invalidTransition, "Only an armed or interrupted applying transaction can begin applying"⟩
  ensure (t.applyAttempts < maxApplyAttempts)
    ⟨.attemptLimit, "Rollback apply attempt limit has been reached"⟩
  ensure (t.initramfsBootId == some bootId)
    ⟨.invalidTransition, "Rollback apply must follow a recorded initramfs entry in the same boot"⟩
  checked { t with
    phase := .applying
    applyAttempts := t.applyAttempts + 1
    applyingBootId := some bootId
    checkpoint := some .applyStarted
    checkpointAt := some now
    updatedAt := now }

def recordFailure (t : RollbackTransaction) (failure : String) (now : Timestamp) :
    Except TransactionError RollbackTransaction := do
  ensure (!t.phase.isTerminal)
    ⟨.invalidTransition, "A terminal rollback transaction cannot record another failure"⟩
  checked { t with
    phase := .failed
    failure := some (sanitized maxFailureLength failure)
    updatedAt := now }

theorem recordInitramfsEntry_eq_ok {t t' : RollbackTransaction} {bootId : String}
    {now : Timestamp} (h : t.recordInitramfsEntry bootId now = .ok t') :
    t'.Valid ∧ t' = { t with
      initramfsAttempts := t.initramfsAttempts + 1
      initramfsBootId := some bootId
      checkpoint := some .initramfsEntered
      checkpointAt := some now
      updatedAt := now } := by
  simp only [recordInitramfsEntry, guarded_eq_ok, checked_eq_ok] at h
  obtain ⟨-, -, rfl, hv⟩ := h
  exact ⟨hv, rfl⟩

theorem recordCheckpoint_eq_ok {t t' : RollbackTransaction} {value : RecoveryCheckpoint}
    {now : Timestamp} (h : t.recordCheckpoint value now = .ok t') :
    t'.Valid ∧ t' = { t with
      checkpoint := some value
      checkpointAt := some now
      updatedAt := now } := by
  simp only [recordCheckpoint, guarded_eq_ok, checked_eq_ok] at h
  obtain ⟨-, rfl, hv⟩ := h
  exact ⟨hv, rfl⟩

theorem transition_eq_ok {t t' : RollbackTransaction} {next : RollbackPhase} {now : Timestamp}
    (h : t.transition next now = .ok t') :
    t'.Valid ∧ t.phase.canTransitionTo next = true ∧
      t' = { t with phase := next, updatedAt := now } := by
  simp only [transition, guarded_eq_ok, checked_eq_ok] at h
  obtain ⟨hp, rfl, hv⟩ := h
  exact ⟨hv, hp, rfl⟩

theorem beginApply_eq_ok {t t' : RollbackTransaction} {bootId : String} {now : Timestamp}
    (h : t.beginApply bootId now = .ok t') :
    t'.Valid ∧ t' = { t with
      phase := .applying
      applyAttempts := t.applyAttempts + 1
      applyingBootId := some bootId
      checkpoint := some .applyStarted
      checkpointAt := some now
      updatedAt := now } := by
  simp only [beginApply, guarded_eq_ok, checked_eq_ok] at h
  obtain ⟨-, -, -, rfl, hv⟩ := h
  exact ⟨hv, rfl⟩

theorem recordFailure_eq_ok {t t' : RollbackTransaction} {failure : String} {now : Timestamp}
    (h : t.recordFailure failure now = .ok t') :
    t'.Valid ∧ t' = { t with
      phase := .failed
      failure := some (sanitized maxFailureLength failure)
      updatedAt := now } := by
  simp only [recordFailure, guarded_eq_ok, checked_eq_ok] at h
  obtain ⟨-, rfl, hv⟩ := h
  exact ⟨hv, rfl⟩

/-- After an initramfs entry a checkpoint keeps a record valid exactly when its time is not
before the creation of the record. -/
theorem Valid.checkpoint_iff {t : RollbackTransaction} (h : t.Valid)
    (hentry : 0 < t.initramfsAttempts) (value : RecoveryCheckpoint) (now : Timestamp) :
    ({ t with checkpoint := some value, checkpointAt := some now, updatedAt := now }).Valid ↔
      t.createdAt ≤ now := by
  constructor
  · intro h'
    exact h'.updated
  · intro hnow
    refine ⟨h.schema, h.distinct, h.rootUuid, h.kernel, h.kernelDigest, h.initramfsDigest,
      h.confirmDigest, h.protocol, h.grubEntry, hnow, h.applyLimit, h.initramfsLimit, ?_,
      fun _ => ⟨(h.entry hentry).1, rfl, rfl⟩, ?_, h.noAttempt, h.attempt, h.attemptBoot,
      h.attemptEntries, h.applyingBoot, h.failedDiagnostic, h.diagnostic⟩
    · intro hzero
      exact absurd hzero (Nat.ne_of_gt hentry)
    · rintro timestamp ⟨⟩
      exact hnow

/-- Between two phases that record an attempt only the time decides. -/
theorem Valid.phase_iff {t : RollbackTransaction} (h : t.Valid) {next : RollbackPhase}
    (hphase : t.phase.requiresAttempt = true) (hnext : next.requiresAttempt = true)
    (now : Timestamp) :
    ({ t with phase := next, updatedAt := now }).Valid ↔ t.createdAt ≤ now := by
  have hnotFailed : t.phase ≠ .failed := by
    intro e
    simp [e, RollbackPhase.requiresAttempt] at hphase
  have hdiagnostic : t.failure = none := by
    have := h.failedDiagnostic
    cases hf : t.failure <;> simp_all
  constructor
  · intro h'
    exact h'.updated
  · intro hnow
    refine ⟨h.schema, h.distinct, h.rootUuid, h.kernel, h.kernelDigest, h.initramfsDigest,
      h.confirmDigest, h.protocol, h.grubEntry, hnow, h.applyLimit, h.initramfsLimit, h.noEntry,
      h.entry, h.checkpointTime, ?_, fun _ => h.attempt hphase, h.attemptBoot, h.attemptEntries,
      h.applyingBoot, ?_, h.diagnostic⟩
    · intro hp
      rcases hp with rfl | rfl <;> simp [RollbackPhase.requiresAttempt] at hnext
    · cases next <;> simp_all [RollbackPhase.requiresAttempt]

theorem checked_of_valid {t : RollbackTransaction} (h : t.Valid) : t.checked = .ok t :=
  (checked_eq_ok t t).mpr ⟨rfl, h⟩

theorem checked_of_not_valid {t : RollbackTransaction} (h : ¬ t.Valid) :
    ∃ e, t.checked = .error e := by
  cases hc : t.checked with
  | error e => exact ⟨e, rfl⟩
  | ok t' => exact absurd ((checked_eq_ok t t').mp hc).2 h

end RollbackTransaction

end RecoveryEngine
