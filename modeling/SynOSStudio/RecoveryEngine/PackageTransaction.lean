import SynOSStudio.RecoveryEngine.Transaction

/-!
# Package transactions

The record that one APT run keeps while its snapshots are taken.
-/

namespace RecoveryEngine

def packageTransactionSchemaVersion : ℕ := 1

inductive PackageTransactionPhase where
  | preparingPre | awaitingPost | complete | interrupted
  deriving DecidableEq, Repr

def PackageTransactionPhase.isTerminal : PackageTransactionPhase → Bool
  | .complete | .interrupted => true
  | _ => false

structure PackageTransaction where
  schemaVersion : ℕ
  id : Uuid
  phase : PackageTransactionPhase
  createdAt : Timestamp
  updatedAt : Timestamp
  preDeploymentId : Option DeploymentId
  postDeploymentId : Option DeploymentId
  failure : Option String
  deriving DecidableEq

namespace PackageTransaction

/-- `PackageTransaction::new`, with the random identifier and the clock reading as arguments. -/
def new (id : Uuid) (now : Timestamp) : PackageTransaction where
  schemaVersion := packageTransactionSchemaVersion
  id := id
  phase := .preparingPre
  createdAt := now
  updatedAt := now
  preDeploymentId := none
  postDeploymentId := none
  failure := none

/-- The references and the diagnostic that each phase allows. -/
def validatePhase (t : PackageTransaction) : Except String Unit :=
  match t.phase with
  | .preparingPre =>
    ensure (t.preDeploymentId.isNone && t.postDeploymentId.isNone && t.failure.isNone)
      "A preparing package transaction contains later state"
  | .awaitingPost =>
    ensure (t.postDeploymentId.isNone && t.failure.isNone)
      "An awaiting package transaction has invalid snapshot references"
  | .complete =>
    ensure (!(t.preDeploymentId.isNone && t.postDeploymentId.isNone) && t.failure.isNone)
      "A complete package transaction is incomplete"
  | .interrupted =>
    ensure (t.postDeploymentId.isNone && t.failure.isSome)
      "An interrupted package transaction has invalid terminal state"

def validate (t : PackageTransaction) : Except String Unit := do
  ensure (t.schemaVersion == packageTransactionSchemaVersion)
    s!"Unsupported package transaction schema {t.schemaVersion}"
  ensure (!decide (t.updatedAt < t.createdAt)) "Package transaction timestamps are out of order"
  t.validatePhase
  ensure (t.failure.all RollbackTransaction.validFailure)
    "Package transaction failure diagnostic is invalid"

/-- A guard, a change and the validation of the changed record. -/
def update (guard : Bool) (message : String) (t : PackageTransaction) :
    Except String PackageTransaction := do
  ensure guard message
  t.validate
  pure t

def recordPre (t : PackageTransaction) (deployment : DeploymentId) (now : Timestamp) :
    Except String PackageTransaction :=
  update (t.phase == .preparingPre) "Only a preparing transaction can record its pre snapshot"
    { t with preDeploymentId := some deployment, phase := .awaitingPost, updatedAt := now }

def skipPre (t : PackageTransaction) (now : Timestamp) : Except String PackageTransaction :=
  update (t.phase == .preparingPre) "Only a preparing transaction can skip its pre snapshot"
    { t with phase := .awaitingPost, updatedAt := now }

def completeWithoutPost (t : PackageTransaction) (now : Timestamp) :
    Except String PackageTransaction :=
  update (t.phase == .awaitingPost && t.preDeploymentId.isSome)
    "Only a pre-snapshot transaction can finish without post"
    { t with phase := .complete, updatedAt := now }

def recordPost (t : PackageTransaction) (deployment : DeploymentId) (now : Timestamp) :
    Except String PackageTransaction :=
  update (t.phase == .awaitingPost) "Only an awaiting transaction can record its post snapshot"
    { t with postDeploymentId := some deployment, phase := .complete, updatedAt := now }

def sanitizeFailure (value : String) : String :=
  let cs := trimmed (sanitized maxFailureLength value).toList
  if cs.isEmpty then "Unspecified package hook failure" else String.ofList cs

def interrupt (t : PackageTransaction) (failure : String) (now : Timestamp) :
    Except String PackageTransaction :=
  update (!t.phase.isTerminal) "A terminal package transaction cannot be interrupted again"
    { t with
      phase := .interrupted
      postDeploymentId := none
      failure := some (sanitizeFailure failure)
      updatedAt := now }

/-- A mutator succeeds exactly when its guard holds and the changed record is valid. -/
theorem update_eq_ok {guard : Bool} {message : String} {t t' : PackageTransaction} :
    update guard message t = .ok t' ↔ guard = true ∧ t.validate = .ok () ∧ t' = t := by
  unfold update
  cases guard <;> cases t.validate <;>
    simp [ensure, bind, Except.bind, pure, Except.pure, eq_comm]

theorem recordPre_eq_ok {t t' : PackageTransaction} {deployment : DeploymentId} {now : Timestamp}
    (h : t.recordPre deployment now = .ok t') : t.phase = .preparingPre ∧ t'.validate = .ok () ∧
      t' = { t with preDeploymentId := some deployment, phase := .awaitingPost, updatedAt := now } := by
  obtain ⟨hphase, hvalid, rfl⟩ := update_eq_ok.mp h
  exact ⟨by simpa using hphase, hvalid, rfl⟩

theorem skipPre_eq_ok {t t' : PackageTransaction} {now : Timestamp} (h : t.skipPre now = .ok t') :
    t'.validate = .ok () ∧ t' = { t with phase := .awaitingPost, updatedAt := now } := by
  obtain ⟨-, hvalid, rfl⟩ := update_eq_ok.mp h
  exact ⟨hvalid, rfl⟩

theorem completeWithoutPost_eq_ok {t t' : PackageTransaction} {now : Timestamp}
    (h : t.completeWithoutPost now = .ok t') :
    t'.validate = .ok () ∧ t' = { t with phase := .complete, updatedAt := now } := by
  obtain ⟨-, hvalid, rfl⟩ := update_eq_ok.mp h
  exact ⟨hvalid, rfl⟩

theorem recordPost_eq_ok {t t' : PackageTransaction} {deployment : DeploymentId} {now : Timestamp}
    (h : t.recordPost deployment now = .ok t') : t'.validate = .ok () ∧
      t' = { t with postDeploymentId := some deployment, phase := .complete, updatedAt := now } := by
  obtain ⟨-, hvalid, rfl⟩ := update_eq_ok.mp h
  exact ⟨hvalid, rfl⟩

theorem interrupt_eq_ok {t t' : PackageTransaction} {failure : String} {now : Timestamp}
    (h : t.interrupt failure now = .ok t') : t'.validate = .ok () ∧
      t' = { t with
        phase := .interrupted
        postDeploymentId := none
        failure := some (sanitizeFailure failure)
        updatedAt := now } := by
  obtain ⟨-, hvalid, rfl⟩ := update_eq_ok.mp h
  exact ⟨hvalid, rfl⟩

theorem trimmed_sublist (cs : List Char) : (trimmed cs).Sublist cs := by
  have hinner : (cs.dropWhile isWhitespace).Sublist cs := List.dropWhile_sublist _
  have houter := (List.dropWhile_sublist (l := (cs.dropWhile isWhitespace).reverse)
    (p := isWhitespace)).reverse
  rw [List.reverse_reverse] at houter
  exact houter.trans hinner

/-- Every stored diagnostic passes its own check. -/
theorem validFailure_sanitizeFailure (value : String) :
    RollbackTransaction.validFailure (sanitizeFailure value) = true := by
  have hsub := trimmed_sublist (sanitized maxFailureLength value).toList
  unfold sanitizeFailure
  simp only
  split_ifs with hempty
  · decide
  · have hlength : (sanitized maxFailureLength value).toList.length ≤ maxFailureLength := by
      simp [sanitized]
    have hcontrol : ∀ c ∈ (sanitized maxFailureLength value).toList, isControl c = false := by
      intro c hc
      simp only [sanitized, String.toList_ofList] at hc
      obtain ⟨c', -, rfl⟩ := List.mem_map.mp (List.mem_of_mem_take hc)
      by_cases h : isControl c' = true
      · rw [if_pos h]
        decide
      · rw [if_neg h]
        simpa using h
    simp only [RollbackTransaction.validFailure, String.toList_ofList, Bool.and_eq_true,
      Bool.not_eq_true']
    refine ⟨⟨by simpa using hempty, ?_⟩, ?_⟩
    · simpa using hsub.length_le.trans hlength
    · simpa using fun c hc => hcontrol c (hsub.subset hc)

/-- What `validate` accepts, phase by phase. -/
theorem validate_eq_ok {t : PackageTransaction} : t.validate = .ok () ↔
    t.schemaVersion = packageTransactionSchemaVersion ∧ t.createdAt ≤ t.updatedAt ∧
      t.validatePhase = .ok () ∧ t.failure.all RollbackTransaction.validFailure = true := by
  simp only [validate, bind_eq_ok_unit, ensure_eq_ok, beq_iff_eq, Bool.not_eq_true',
    decide_eq_false_iff_not, not_lt]

theorem validate_new (id : Uuid) (now : Timestamp) : (new id now).validate = .ok () :=
  validate_eq_ok.mpr ⟨rfl, le_refl now, rfl, rfl⟩

/-- An open transaction can always be interrupted. -/
theorem interrupt_succeeds {t : PackageTransaction} (hvalid : t.validate = .ok ())
    (hopen : t.phase.isTerminal = false) (failure : String) {now : Timestamp}
    (hnow : t.createdAt ≤ now) : ∃ t', t.interrupt failure now = .ok t' := by
  obtain ⟨hschema, -, -, -⟩ := validate_eq_ok.mp hvalid
  refine ⟨_, update_eq_ok.mpr ⟨by simpa using hopen, validate_eq_ok.mpr ⟨hschema, hnow, ?_, ?_⟩,
    rfl⟩⟩
  · simp [validatePhase]
  · simpa using validFailure_sanitizeFailure failure

theorem recordPost_succeeds {t : PackageTransaction} (hvalid : t.validate = .ok ())
    (hphase : t.phase = .awaitingPost) (deployment : DeploymentId) {now : Timestamp}
    (hnow : t.createdAt ≤ now) : ∃ t', t.recordPost deployment now = .ok t' := by
  obtain ⟨hschema, -, hphases, hfailure⟩ := validate_eq_ok.mp hvalid
  simp only [validatePhase, hphase, ensure_eq_ok, Bool.and_eq_true] at hphases
  refine ⟨_, update_eq_ok.mpr ⟨by simpa using hphase, validate_eq_ok.mpr ⟨hschema, hnow, ?_,
    hfailure⟩, rfl⟩⟩
  simpa [validatePhase] using hphases.2

theorem completeWithoutPost_succeeds {t : PackageTransaction} (hvalid : t.validate = .ok ())
    (hphase : t.phase = .awaitingPost) (hpre : t.preDeploymentId.isSome = true) {now : Timestamp}
    (hnow : t.createdAt ≤ now) : ∃ t', t.completeWithoutPost now = .ok t' := by
  obtain ⟨hschema, -, hphases, hfailure⟩ := validate_eq_ok.mp hvalid
  simp only [validatePhase, hphase, ensure_eq_ok, Bool.and_eq_true] at hphases
  refine ⟨_, update_eq_ok.mpr ⟨by simp [hphase, hpre], validate_eq_ok.mpr ⟨hschema, hnow, ?_,
    hfailure⟩, rfl⟩⟩
  simpa [validatePhase, hpre] using hphases.2

end PackageTransaction

end RecoveryEngine
