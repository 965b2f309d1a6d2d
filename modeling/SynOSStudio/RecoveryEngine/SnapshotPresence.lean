import SynOSStudio.InterruptiblePrograms.Guards
import SynOSStudio.RecoveryEngine.SnapshotDeletion

/-!
# Which snapshots the metadata vouches for

A creation commits its completed record before its last two steps, and when one of
these fails it deletes the snapshot while that record is still stored. The theorem
says that nothing else leaves a record without its snapshot, and that an automatic
deletion keeps as many restorable snapshots as it was told to.
-/

namespace RecoveryEngine

open InterruptiblePrograms

namespace SnapshotPresence

open SnapshotDeletion (Call StoreValid runCalls)

section Statement

/-- A snapshot is deleted only while no record names it, or its record is being deleted. -/
def Unnamed (op : HostOp) (k : Choice) (w : World) : Prop :=
  match op with
  | .disk (.deleteSnapshot id) => k.fault.isSome ∨
      ∀ record ∈ w.records, record.id = id → record.snapshotUuid.isSome → record.state = .deleting
  | _ => True

/-- The steps of all calls meet the condition. -/
def CallsMeet : List (Call × List Choice) → World → Prop
  | [], _ => True
  | (call, script) :: calls, w =>
    Meets perform Unnamed call.program script w ∧ CallsMeet calls (call.runIn script w)

/-- Every record that names a snapshot has it, or is being deleted. -/
def Vouched (w : World) : Prop :=
  ∀ record ∈ w.records, record.snapshotUuid.isSome → record.state ≠ .deleting →
    (w.disk.snapshots record.id).isSome

/-- The stored records are valid, have different identifiers, and are ready only without
a failure. -/
structure Recorded (w : World) : Prop where
  valid : ∀ record ∈ w.records, record.validate = .ok ()
  ids : (w.records.map DeploymentRecord.id).Nodup
  unfailed : ∀ record ∈ w.records, record.state = .ready → record.failure = none

/-- The records that can be restored and whose snapshot is present. -/
def restorable (w : World) : List DeploymentRecord :=
  w.records.filter fun record => record.canRestore && (w.disk.snapshots record.id).isSome

end Statement

section Steps

variable {op : HostOp} {k : Choice} {w : World} {id : DeploymentId}

theorem Recorded.congr {w' : World} (h : Recorded w) (hrecords : w'.records = w.records) :
    Recorded w' := by
  constructor <;> rw [hrecords]
  · exact h.valid
  · exact h.ids
  · exact h.unfailed

/-- A command keeps the snapshots, or one is created or deleted. -/
theorem perform_snapshots (op : DiskOp) (k : Choice) (w : World) :
    (perform (.disk op) k w).2.disk.snapshots = w.disk.snapshots ∨
    (∃ id v, op = .snapshotSystem id ∧
      (perform (.disk op) k w).2.disk.snapshots = Function.update w.disk.snapshots id (some v)) ∨
    (∃ id, op = .deleteSnapshot id ∧ k.fault = none ∧
      (perform (.disk op) k w).2.disk.snapshots = Function.update w.disk.snapshots id none) := by
  cases hk : k.fault with
  | some e =>
    have he : perform (.disk op) k w = (.error e, w) := by
      show orFault k w (w.diskEffect k op) = _
      simp only [orFault, hk]
      rfl
    exact .inl (by rw [he])
  | none =>
    have he : (perform (.disk op) k w).2.disk = (w.disk.effect k.uuid k.text op).2 := by
      show (orFault k w (w.diskEffect k op)).2.disk = _
      simp only [orFault, hk, World.diskEffect]
    rw [he]
    cases op with
    | snapshotSystem id =>
      dsimp only [Disk.effect]
      split
      · exact .inr (.inl ⟨id, _, rfl, rfl⟩)
      · exact .inl rfl
      · exact .inl rfl
    | deleteSnapshot id =>
      dsimp only [Disk.effect]
      split
      · exact .inr (.inr ⟨id, rfl, rfl, rfl⟩)
      · exact .inl rfl
    | snapshotDeployment | rename | delete | «show» | isReadOnly | rootParent | listDescendants
    | createDirectory | removeDirectory =>
      left
      dsimp only [Disk.effect]
      split <;> rfl
    | _ => exact .inl rfl

/-- What the calls may write: a record that names a snapshot only when it is being deleted,
unless it is the one with the identifier `id`. -/
def Writes (id : Option DeploymentId) : HostOp → Prop
  | .record (.write record) => record.validate = .ok () ∧
      (record.state = .ready → record.failure = none) ∧
      (record.snapshotUuid = none ∨ record.state = .deleting ∨ id = some record.id)
  | _ => True

/-- The stored records are sound and vouched for, and the snapshot `id` is present. -/
structure Kept (id : Option DeploymentId) (w : World) : Prop where
  recorded : Recorded w
  vouched : Vouched w
  present : ∀ d ∈ id, (w.disk.snapshots d).isSome

theorem Kept.congr {id : Option DeploymentId} {w' : World} (h : Kept id w)
    (hrecords : w'.records = w.records) (hdisk : w'.disk = w.disk) : Kept id w' := by
  refine ⟨h.recorded.congr hrecords, ?_, ?_⟩
  · unfold Vouched
    rw [hrecords, hdisk]
    exact h.vouched
  · rw [hdisk]
    exact h.present

theorem Recorded.step (hop : Writes none op ∨ Writes (some id) op) (h : Recorded w) :
    Recorded (perform op k w).2 := by
  cases op with
  | record op =>
    rcases perform_record_cases k w op with he | ⟨record, rfl, he⟩ | ⟨removed, rfl, he⟩
    · exact h.congr he
    · have hrecord : record.validate = .ok () ∧ (record.state = .ready → record.failure = none) := by
        rcases hop with hop | hop <;> exact ⟨hop.1, hop.2.1⟩
      constructor <;> rw [he]
      · intro r hr
        rcases List.mem_cons.mp hr with rfl | hr
        · exact hrecord.1
        · exact h.valid r (List.mem_of_mem_filter hr)
      · exact SnapshotDeletion.nodup_replaced record h.ids
      · intro r hr
        rcases List.mem_cons.mp hr with rfl | hr
        · exact hrecord.2
        · exact h.unfailed r (List.mem_of_mem_filter hr)
    · constructor <;> rw [he]
      · exact fun r hr => h.valid r (List.mem_of_mem_filter hr)
      · exact h.ids.sublist (List.filter_sublist.map DeploymentRecord.id)
      · exact fun r hr => h.unfailed r (List.mem_of_mem_filter hr)
  | _ => exact h.congr (perform_records k w fun _ he => by cases he)

/-- A step that meets the condition keeps the records vouched for. -/
theorem Kept.step {id : Option DeploymentId} (hop : Writes id op) (hguard : Unnamed op k w)
    (hdelete : ∀ d ∈ id, op ≠ .disk (.deleteSnapshot d)) (h : Kept id w) :
    Kept id (perform op k w).2 := by
  have hrecorded : Recorded (perform op k w).2 := by
    cases id with
    | none => exact h.recorded.step (.inl hop : _ ∨ Writes (some (.repeated 0)) _)
    | some id => exact h.recorded.step (.inr hop)
  cases op with
  | disk op =>
    have hrecords : (perform (.disk op) k w).2.records = w.records :=
      perform_records k w fun _ he => by cases he
    rcases perform_snapshots op k w with he | ⟨d, v, rfl, he⟩ | ⟨d, rfl, hk, he⟩
    · refine ⟨hrecorded, ?_, ?_⟩
      · unfold Vouched
        rw [hrecords, he]
        exact h.vouched
      · rw [he]
        exact h.present
    · have hkeeps : ∀ d', (w.disk.snapshots d').isSome →
          ((perform (.disk (.snapshotSystem d)) k w).2.disk.snapshots d').isSome := by
        intro d' hd'
        rw [he]
        by_cases heq : d' = d <;> simp [Function.update, heq, hd']
      refine ⟨hrecorded, fun r hr huuid hstate => hkeeps _ ?_, fun d' hd' => hkeeps _ ?_⟩
      · exact h.vouched r (hrecords ▸ hr) huuid hstate
      · exact h.present d' hd'
    · refine ⟨hrecorded, fun r hr huuid hstate => ?_, fun d' hd' => ?_⟩
      · rw [hrecords] at hr
        have hne : r.id ≠ d := by
          rintro rfl
          rcases hguard with hfault | hunnamed
          · rw [hk] at hfault
            cases hfault
          · exact hstate (hunnamed r hr rfl huuid)
        rw [he, Function.update_of_ne hne]
        exact h.vouched r hr huuid hstate
      · have hne : d' ≠ d := by
          rintro rfl
          exact hdelete d' hd' rfl
        rw [he, Function.update_of_ne hne]
        exact h.present d' hd'
  | record op =>
    have hdisk : (perform (.record op) k w).2.disk = w.disk := perform_volume k w fun _ he => by cases he
    refine ⟨hrecorded, fun r hr huuid hstate => ?_, by rw [hdisk]; exact h.present⟩
    rw [hdisk]
    rcases perform_record_cases k w op with he | ⟨record, rfl, he⟩ | ⟨removed, rfl, he⟩
    · exact h.vouched r (he ▸ hr) huuid hstate
    · rw [he] at hr
      rcases List.mem_cons.mp hr with rfl | hr
      · rcases hop.2.2 with hnone | hdeleting | hid
        · rw [hnone] at huuid
          cases huuid
        · exact absurd hdeleting hstate
        · exact h.present _ hid
      · exact h.vouched r (List.mem_of_mem_filter hr) huuid hstate
    · rw [he] at hr
      exact h.vouched r (List.mem_of_mem_filter hr) huuid hstate
  | _ =>
    exact h.congr (perform_records k w fun _ he => by cases he)
      (perform_volume k w fun _ he => by cases he)

end Steps

section Programs

open Operations

variable {α β ε : Type} {id : DeploymentId}

/-- Under the condition the program keeps the records vouched for. -/
def Keeping (p : Prog HostOp HostOp.Ans α) : Prop :=
  ∀ w, Kept none w → KeepsUnder perform Unnamed (Kept none) p (fun _ w => Kept none w) w

theorem keeping_of_within {p : Prog HostOp HostOp.Ans α} (h : Within (Writes none) p) :
    Keeping p := fun _ hw =>
  KeepsUnder.of_within (fun _ _ _ hop hguard hw => hw.step hop hguard fun _ hd => by cases hd)
    (fun _ hw => hw) h hw

theorem keeping_bind {x : Action ε α} {f : α → Action ε β} (hx : Keeping x.run)
    (hf : ∀ a, Keeping (f a).run) : Keeping (x >>= f).run := fun w hw =>
  keepsUnder_attempt_then (hx w hw) (fun _ _ hw => hw) fun a w hw => hf a w hw

theorem keeping_outcome {δ : Type} {x : Action ε α} (hx : Keeping x.run) :
    Keeping (Attempt.outcome x : Action δ (Except ε α)).run := fun w hw =>
  (keepsUnder_outcome x _ w).mpr (hx w hw)

theorem keeping_withLock {acquire : LockOp} {view : Except String acquire.Result → Except ε Unit}
    {release : LockOp} {body : Action ε α} (hbody : Keeping body.run) :
    Keeping (withLock (Attempt.call (.lock acquire) view) release body).run :=
  keeping_bind (keeping_of_within (within_call _ trivial)) fun _ =>
    keeping_bind (keeping_outcome hbody) fun _ =>
    keeping_of_within (within_attempt_bind (within_call _ trivial) fun _ => within_ofExcept _)

theorem writes_of_reading {p : Prog HostOp HostOp.Ans α} (h : Within Reading p) :
    Within (Writes none) p := by
  refine h.mono fun op hop => ?_
  cases op with
  | record op =>
    cases op with
    | write => cases hop
    | _ => trivial
  | _ => trivial

theorem writes_writeRecord {record : DeploymentRecord} {id : Option DeploymentId}
    (hfailure : record.state = .ready → record.failure = none)
    (hnames : record.snapshotUuid = none ∨ record.state = .deleting ∨ id = some record.id) :
    Within (Writes id) (writeRecord record).run := by
  refine within_ofExcept_bind fun _ hok => within_call _ ⟨?_, hfailure, hnames⟩
  cases hvalid : record.validate with
  | error e =>
    rw [hvalid] at hok
    cases hok
  | ok u => rfl

theorem writes_removeDeployment : Within (Writes none) (removeDeployment id).run := by
  refine within_attempt_bind (within_call _ trivial) fun present => ?_
  split_ifs
  · exact within_attempt_bind (within_call _ trivial) fun _ => within_call _ trivial
  · exact within_call _ trivial

section Creation

/-- The steps of a capture after its snapshot was created. -/
def Committing (id : DeploymentId) : HostOp → Prop
  | .disk (.deleteSnapshot _) => False
  | .record (.write record) => record.validate = .ok () ∧
      (record.state = .ready → record.failure = none) ∧ record.id = id
  | _ => True

theorem Committing.step {op : HostOp} {k : Choice} {w : World} (hop : Committing id op)
    (hguard : Unnamed op k w) (h : Kept (some id) w) : Kept (some id) (perform op k w).2 := by
  refine h.step ?_ hguard ?_
  · cases op with
    | record op =>
      cases op with
      | write record =>
        obtain ⟨hvalid, hfailure, hid⟩ := hop
        exact ⟨hvalid, hfailure, .inr (.inr (congrArg some hid.symm))⟩
      | _ => trivial
    | _ => trivial
  · rintro d - rfl
    exact hop

theorem committing_writeRecord {record : DeploymentRecord} (hid : record.id = id)
    (hfailure : record.failure = none) : Within (Committing id) (writeRecord record).run := by
  refine within_ofExcept_bind fun _ hok => within_call _ ⟨?_, fun _ => hfailure, hid⟩
  cases hvalid : record.validate with
  | error e =>
    rw [hvalid] at hok
    cases hok
  | ok u => rfl

/-- The snapshot is there when its creation has succeeded. -/
theorem snapshotSystem_present {k : Choice} {w : World} {u : Unit}
    (h : (perform (.disk (.snapshotSystem id)) k w).1 = .ok u) :
    ((perform (.disk (.snapshotSystem id)) k w).2.disk.snapshots id).isSome := by
  have hperform : perform (.disk (.snapshotSystem id)) k w =
      orFault k w (w.diskEffect k (.snapshotSystem id)) := rfl
  rw [hperform] at h ⊢
  unfold orFault at h ⊢
  cases hk : k.fault with
  | some e =>
    rw [hk] at h
    cases h
  | none =>
    rw [hk] at h
    show ((Disk.effect k.uuid k.text (.snapshotSystem id) w.disk).2.snapshots id).isSome
    replace h : (Disk.effect k.uuid k.text (.snapshotSystem id) w.disk).1 = .ok u := h
    dsimp only [Disk.effect] at h ⊢
    split at h
    · simp_all
    · cases h
    · cases h

/-- Once the snapshot is there, the completed record may name it. -/
theorem keeping_capture {record : DeploymentRecord} (state : DeploymentState)
    (hfailure : record.failure = none) : Keeping (capture record state).run := by
  have hstep : ∀ {δ : Type} {record' : DeploymentRecord} {x : Action OperationError δ},
      Within (Committing record.id) x.run → Within (Committing record.id) (step record' x).run :=
    fun h => within_mapError h
  refine keeping_bind (keeping_of_within (within_mapError (within_call _ trivial))) fun _ w hw => ?_
  have hsnapshot : KeepsUnder perform Unnamed (Kept none)
      (step record (Attempt.call (.disk (.snapshotSystem record.id))
        (Except.mapError commandError)) : Action _ Unit).run
      (fun r w => Kept none w ∧ ∀ u, r = .ok u → (w.disk.snapshots record.id).isSome) w := by
    refine (keepsUnder_mapError _ _ _ _).mpr ((keepsUnder_attempt_call _ _ _ _).mpr ⟨hw, ?_⟩)
    intro k hk
    refine ⟨hw.step trivial hk fun _ hd => (by cases hd), fun u hu => ?_⟩
    cases hresult : (perform (.disk (.snapshotSystem record.id)) k w).1 with
    | error e =>
      rw [hresult] at hu
      cases hu
    | ok u => exact snapshotSystem_present hresult
  refine keepsUnder_attempt_then hsnapshot (fun _ _ hw => hw.1) fun u w hw => ?_
  have hkept : Kept (some record.id) w :=
    ⟨hw.1.recorded, hw.1.vouched, fun d hd => by cases hd; exact hw.2 u rfl⟩
  have hdrop : ∀ w, Kept (some record.id) w → Kept none w :=
    fun _ h => ⟨h.recorded, h.vouched, fun _ hd => by cases hd⟩
  refine KeepsUnder.mono (KeepsUnder.of_within (fun _ _ _ (hop : Committing record.id _) hguard h =>
    hop.step hguard h) hdrop ?_ hkept) fun _ w h => hdrop w h
  exact within_attempt_bind (hstep (within_call _ trivial)) fun _ =>
    within_attempt_bind (hstep (within_call _ trivial)) fun _ =>
    within_attempt_bind (hstep (within_attempt_bind (within_call _ trivial) fun _ =>
      within_attempt_bind (within_ofExcept _) fun _ => within_pure _)) fun _ =>
    within_attempt_bind (hstep (within_call _ trivial)) fun _ =>
    within_attempt_bind (hstep (within_call _ trivial)) fun _ =>
    within_attempt_bind (hstep (within_call _ trivial)) fun _ =>
    within_attempt_bind (hstep (within_call _ trivial)) fun _ =>
    within_attempt_bind (hstep (within_ofExcept _)) fun _ =>
    within_attempt_bind (hstep (committing_writeRecord rfl hfailure)) fun _ =>
    within_attempt_bind (hstep (within_call _ trivial)) fun _ =>
    within_attempt_bind (hstep (within_call _ trivial)) fun _ => within_pure _

theorem keeping_createSnapshotLocked (request : SnapshotRequest) (report : DiscoveryReport) :
    Keeping (createSnapshotLocked id request report).run := by
  refine keeping_bind (keeping_of_within (within_call _ trivial)) fun lineage =>
    keeping_bind (keeping_of_within (within_call _ trivial)) fun now =>
    keeping_bind (keeping_of_within (within_ofExcept _)) fun _ =>
    keeping_bind (keeping_of_within (writes_writeRecord (fun hready => by cases hready) (.inl rfl)))
      fun _ => keeping_bind (keeping_outcome (keeping_capture _ rfl)) fun result => ?_
  cases result with
  | ok record => exact keeping_of_within (within_pure _)
  | error failure =>
    refine keeping_of_within ?_
    have hcleanup : Within (Writes none) (cleanupSnapshot id).run :=
      within_attempt_bind writes_removeDeployment fun _ => within_call _ trivial
    exact within_attempt_bind (within_outcome hcleanup) fun _ =>
      within_attempt_bind (within_outcome (writes_writeRecord (fun hready => by cases hready)
        (.inl rfl))) fun _ => within_throw _

theorem keeping_createSnapshot (layout : LayoutSupport) (request : SnapshotRequest) :
    Keeping (createSnapshot layout id request).run :=
  keeping_bind (keeping_of_within (within_ofExcept _)) fun _ =>
    keeping_bind (keeping_of_within (within_call _ trivial)) fun _ =>
    keeping_bind (keeping_of_within (within_call _ trivial)) fun _ =>
    keeping_withLock (keeping_bind (keeping_of_within (within_call _ trivial)) fun _ =>
      keeping_createSnapshotLocked request _)

end Creation

section Deletion

theorem writes_finishDeleting : Within (Writes none) (finishDeleting id).run :=
  within_attempt_bind writes_removeDeployment fun _ =>
    within_attempt_bind (within_call _ trivial) fun _ =>
    within_attempt_bind (within_call _ trivial) fun _ =>
    within_attempt_bind (within_call _ trivial) fun _ =>
    within_attempt_bind (within_call _ trivial) fun _ =>
    within_attempt_bind (within_call _ trivial) fun _ => within_call _ trivial

theorem writes_ensureAutomatic {record : DeploymentRecord} (minimum : ℕ) :
    Within (Writes none) (ensureAutomatic record minimum).run :=
  within_attempt_bind (within_ofExcept _) fun _ =>
    within_attempt_bind (within_ofExcept _) fun _ =>
    within_attempt_bind (within_call _ trivial) fun _ =>
    within_attempt_bind (within_ofExcept _) fun _ => within_ofExcept _

theorem writes_beginDeleting {record : DeploymentRecord} (minimum : Option ℕ) :
    Within (Writes none) (beginDeleting record minimum).run := by
  have hrest : Within (Writes none) (do
      Attempt.ofExcept (ensure record.canDelete
        ⟨.isProtected, "This system snapshot is pinned or protects a boot transaction"⟩)
      Attempt.ofExcept (ensure (record.state.canTransitionTo .deleting)
        ⟨.isProtected, "This system snapshot cannot enter the deleting state"⟩)
      writeRecord { record with state := .deleting } : Action OperationError Unit).run :=
    within_attempt_bind (within_ofExcept _) fun _ => within_attempt_bind (within_ofExcept _)
      fun _ => writes_writeRecord (fun hready => by cases hready) (.inr (.inl rfl))
  cases minimum with
  | none => exact hrest
  | some minimum => exact within_attempt_bind (writes_ensureAutomatic minimum) fun _ => hrest

theorem writes_deleteLocked (minimum : Option ℕ) :
    Within (Writes none) (deleteLocked id minimum).run := by
  refine within_attempt_bind (within_call _ trivial) fun _ =>
    within_attempt_bind (writes_of_reading reading_loadRecord) fun record =>
    within_attempt_bind (writes_of_reading reading_ensureNotTransactionReferenced) fun _ => ?_
  split_ifs
  · exact writes_finishDeleting
  · exact within_attempt_bind (writes_beginDeleting minimum) fun _ => writes_finishDeleting

theorem keeping_deleteWithRestorableFloor (layout : LayoutSupport) (minimum : Option ℕ) :
    Keeping (deleteWithRestorableFloor layout id minimum).run :=
  keeping_bind (keeping_of_within (within_ofExcept _)) fun _ =>
    keeping_bind (keeping_of_within (within_call _ trivial)) fun _ =>
    keeping_withLock (keeping_withLock (keeping_of_within (writes_deleteLocked minimum)))

end Deletion

theorem keeping_discard {p : Prog HostOp HostOp.Ans α} (h : Keeping p) :
    Keeping (p >>= fun _ => pure ()) := fun w hw =>
  (keepsUnder_bind _ _ _ _).mpr (h w hw)

theorem keeping_call (call : Call) : Keeping call.program := by
  cases call with
  | create layout id request => exact keeping_discard (keeping_createSnapshot layout request)
  | delete layout id => exact keeping_discard (keeping_deleteWithRestorableFloor layout none)
  | deleteAutomatic layout id minimum =>
    exact keeping_discard (keeping_deleteWithRestorableFloor layout (some minimum))

/-- The calls keep the records vouched for while their steps meet the condition. -/
theorem kept_runCalls (calls : List (Call × List Choice)) {w : World} (h : Kept none w)
    (hmeets : CallsMeet calls w) : Kept none (runCalls calls w) := by
  induction calls generalizing w with
  | nil => exact h
  | cons call calls ih =>
    obtain ⟨hfirst, hrest⟩ := hmeets
    have hrun := (keeping_call call.1 w h).run_inv (fun _ _ hw => hw) call.2 hfirst
    exact ih (hrun.congr rfl rfl) hrest

end Programs

section Floor

open Operations

variable {α : Type} {id : DeploymentId} {minimum : ℕ} {w₀ w : World} {op : HostOp}

/-- The ready records are all kept, or enough restorable ones are. -/
def Floor (minimum : ℕ) (w₀ w : World) : Prop :=
  (∀ record ∈ w₀.records, record.state = .ready → record ∈ w.records) ∨
    minimum ≤ (restorable w).length

/-- The store with its snapshots has not changed. -/
structure Same (w₀ w : World) : Prop where
  records : w.records = w₀.records
  snapshots : w.disk.snapshots = w₀.disk.snapshots

theorem Same.floor (h : Same w₀ w) : Floor minimum w₀ w :=
  .inl fun _ hr _ => h.records ▸ hr

/-- The operations that change neither a record nor a snapshot. -/
def Idle : HostOp → Prop
  | .record (.write _) | .record (.remove _) => False
  | .disk (.snapshotSystem _) | .disk (.deleteSnapshot _) => False
  | _ => True

theorem Idle.step (hop : Idle op) (k : Choice) (h : Same w₀ w) : Same w₀ (perform op k w).2 := by
  cases op with
  | disk op =>
    refine ⟨(perform_records k w fun _ he => by cases he).trans h.records, ?_⟩
    rcases perform_snapshots op k w with he | ⟨_, _, rfl, -⟩ | ⟨_, rfl, -⟩
    · exact he.trans h.snapshots
    · cases hop
    · cases hop
  | record op =>
    refine ⟨?_, (congrArg Disk.snapshots (perform_volume k w fun _ he => by cases he)).trans
      h.snapshots⟩
    rcases perform_record_cases k w op with he | ⟨_, rfl, -⟩ | ⟨_, rfl, -⟩
    · exact he.trans h.records
    · cases hop
    · cases hop
  | _ =>
    exact ⟨(perform_records k w fun _ he => by cases he).trans h.records,
      (congrArg Disk.snapshots (perform_volume k w fun _ he => by cases he)).trans h.snapshots⟩

theorem same_of_within {p : Prog HostOp HostOp.Ans α} (hp : Within Idle p) (h : Same w₀ w) :
    Keeps perform (fun _ => True) (Floor minimum w₀) p (fun _ w => Same w₀ w) w :=
  Keeps.of_within (fun _ k _ hop _ h => hop.step k h) (fun _ h => h.floor) hp h

theorem idle_of_reading {p : Prog HostOp HostOp.Ans α} (h : Within Reading p) : Within Idle p := by
  refine h.mono fun op hop => ?_
  cases op with
  | disk op =>
    cases op with
    | snapshotSystem | deleteSnapshot => cases hop
    | _ => trivial
  | record op =>
    cases op with
    | write | remove => cases hop
    | _ => trivial
  | _ => trivial

/-- The operations that finish a deletion. -/
def Finishing (id : DeploymentId) : HostOp → Prop
  | .record (.write _) => False
  | .record (.remove d) => d = id
  | .disk (.snapshotSystem _) => False
  | .disk (.deleteSnapshot d) => d = id
  | _ => True

/-- No record of the snapshot is ready, and enough others are. -/
structure Settled (minimum : ℕ) (w₀ : World) (id : DeploymentId) (w : World) : Prop where
  floor : Floor minimum w₀ w
  unready : ∀ record ∈ w.records, record.id = id → record.state ≠ .ready

theorem Same.restorable (h : Same w₀ w) : restorable w = restorable w₀ := by
  unfold SnapshotPresence.restorable
  rw [h.records, h.snapshots]

theorem Idle.floor (hop : Idle op) (k : Choice) (h : Floor minimum w₀ w) :
    Floor minimum w₀ (perform op k w).2 := by
  have hsame : Same w (perform op k w).2 := hop.step k ⟨rfl, rfl⟩
  unfold Floor
  rw [hsame.restorable, hsame.records]
  exact h

theorem not_canRestore {record : DeploymentRecord} (h : record.state ≠ .ready) :
    record.canRestore = false := by
  simp [DeploymentRecord.canRestore, h]

/-- Removing a record that is not ready, or its snapshot, keeps the others. -/
theorem Finishing.step (hop : Finishing id op) (k : Choice) (h : Settled minimum w₀ id w) :
    Settled minimum w₀ id (perform op k w).2 := by
  by_cases hidle : Idle op
  · have hsame : Same w (perform op k w).2 := hidle.step k ⟨rfl, rfl⟩
    exact ⟨hidle.floor k h.floor, fun r hr => h.unready r (hsame.records ▸ hr)⟩
  · cases op with
    | disk op =>
      have hrecords : (perform (.disk op) k w).2.records = w.records :=
        perform_records k w fun _ he => by cases he
      refine ⟨?_, fun r hr => h.unready r (hrecords ▸ hr)⟩
      have hrestorable : restorable (perform (.disk op) k w).2 = restorable w := by
        unfold restorable
        rw [hrecords]
        refine List.filter_congr fun r hr => ?_
        by_cases hid : r.id = id
        · rw [not_canRestore (h.unready r hr hid), Bool.false_and, Bool.false_and]
        · rcases perform_snapshots op k w with he | ⟨_, _, rfl, -⟩ | ⟨d, rfl, -, he⟩
          · rw [he]
          · cases hop
          · have hd : d = id := hop
            rw [he, hd, Function.update_of_ne hid]
      unfold Floor
      rw [hrestorable, hrecords]
      exact h.floor
    | record op =>
      have hdisk : (perform (.record op) k w).2.disk = w.disk :=
        perform_volume k w fun _ he => by cases he
      rcases perform_record_cases k w op with he | ⟨_, rfl, -⟩ | ⟨d, rfl, he⟩
      · refine ⟨?_, fun r hr => h.unready r (he ▸ hr)⟩
        unfold Floor restorable
        rw [he, hdisk]
        exact h.floor
      · cases hop
      · have hd : d = id := hop
        subst hd
        refine ⟨?_, fun r hr => h.unready r (List.mem_of_mem_filter (he ▸ hr))⟩
        rcases h.floor with hkept | hfloor
        · refine .inl fun r hr hready => ?_
          rw [he, List.mem_filter]
          refine ⟨hkept r hr hready, ?_⟩
          simpa using fun hid => h.unready r (hkept r hr hready) hid hready
        · refine .inr (hfloor.trans_eq (congrArg List.length ?_))
          unfold restorable
          rw [he, hdisk, List.filter_filter]
          refine (List.filter_congr fun r hr => ?_).symm
          by_cases hid : r.id = d
          · rw [not_canRestore (h.unready r hr hid), Bool.false_and, Bool.false_and]
          · simp [hid]
    | _ => exact absurd trivial hidle

theorem settled_finishDeleting (h : Settled minimum w₀ id w) :
    Keeps perform (fun _ => True) (Floor minimum w₀) (finishDeleting id).run
      (fun _ w => Floor minimum w₀ w) w := by
  have hremove : Within (Finishing id) (removeDeployment id).run := by
    refine within_attempt_bind (within_call _ trivial) fun present => ?_
    split_ifs
    · exact within_attempt_bind (within_call _ rfl) fun _ => within_call _ trivial
    · exact within_call _ trivial
  have hfinish : Within (Finishing id) (finishDeleting id).run :=
    within_attempt_bind hremove fun _ =>
      within_attempt_bind (within_call _ trivial) fun _ =>
      within_attempt_bind (within_call _ trivial) fun _ =>
      within_attempt_bind (within_call _ trivial) fun _ =>
      within_attempt_bind (within_call _ trivial) fun _ =>
      within_attempt_bind (within_call _ rfl) fun _ => within_call _ trivial
  exact (Keeps.of_within (fun _ k _ hop _ h => hop.step k h) (fun _ h => h.floor) hfinish
    h).mono fun _ _ h => h.floor

theorem eq_ok_of_isOk {r : Except ModelError Unit} (h : r.isOk = true) : r = .ok () := by
  cases r with
  | ok u => rfl
  | error e => cases h

/-- A ready record names its snapshot. -/
theorem named_of_ready {record : DeploymentRecord} (hvalid : record.validate = .ok ())
    (hready : record.state = .ready) : record.snapshotUuid.isSome = true := by
  simp only [DeploymentRecord.validate, bind_eq_ok_unit, ensure_eq_ok] at hvalid
  obtain ⟨-, -, -, -, -, -, -, -, -, -, -, -, hidentity⟩ := hvalid
  cases huuid : record.snapshotUuid with
  | some uuid => rfl
  | none => simp [DeploymentRecord.requiresCompleteIdentity, hready, huuid, missing] at hidentity

/-- A store without issues lists every record. -/
theorem restorable_of_discover (hissues : w.discover.issues.isEmpty = true) :
    (w.discover.deployments.filter DeploymentRecord.canRestore).length = (restorable w).length := by
  have hall : ∀ r ∈ w.records, World.discoverable w.disk r = true := by
    intro r hr
    by_contra hnot
    have hmem : r.id.hyphenated ++ ".json" ∈ w.discover.issues :=
      List.mem_map_of_mem (List.mem_filter.mpr ⟨hr, by simpa using hnot⟩)
    rw [List.isEmpty_iff.mp hissues] at hmem
    cases hmem
  have hperm : w.discover.deployments.Perm w.records := by
    refine (List.perm_insertionSort _ _).trans ?_
    rw [List.filter_eq_self.mpr hall]
  refine ((hperm.filter _).length_eq).trans (congrArg List.length ?_)
  refine List.filter_congr fun r hr => ?_
  cases hrestore : r.canRestore with
  | false => rfl
  | true =>
    have hdiscoverable := hall r hr
    simp only [World.discoverable, Bool.and_eq_true] at hdiscoverable
    simp only [DeploymentRecord.canRestore, Bool.and_eq_true, beq_iff_eq] at hrestore
    obtain ⟨⟨hvalid, -⟩, hready⟩ := hrestore
    have hnamed := named_of_ready (eq_ok_of_isOk hvalid) hready
    simpa [Option.isSome_iff_ne_none.mp hnamed, hready] using hdiscoverable.2

/-- One record more than the minimum leaves the minimum. -/
theorem length_filter_id {records : List DeploymentRecord}
    (hids : (records.map DeploymentRecord.id).Nodup) (id : DeploymentId) :
    records.length ≤ (records.filter fun r => r.id != id).length + 1 := by
  induction records with
  | nil => exact Nat.zero_le _
  | cons r records ih =>
    rw [List.map_cons, List.nodup_cons] at hids
    by_cases hid : r.id = id
    · have hrest : records.filter (fun r => r.id != id) = records := by
        refine List.filter_eq_self.mpr fun r' hr' => ?_
        rw [bne_iff_ne]
        intro hid'
        exact hids.1 (List.mem_map.mpr ⟨r', hr', hid'.trans hid.symm⟩)
      rw [List.filter_cons_of_neg (by simpa using hid), hrest, List.length_cons]
    · rw [List.filter_cons_of_pos (by simpa using hid), List.length_cons, List.length_cons]
      have := ih hids.2
      omega

/-- An automatic deletion goes on only while the floor leaves room. -/
theorem floor_ensureAutomatic {record : DeploymentRecord} (h : Same w₀ w) :
    Keeps perform (fun _ => True) (Floor minimum w₀) (ensureAutomatic record minimum).run
      (fun r w => Same w₀ w ∧ (r = .ok () → record.canRestore = true →
        minimum < (restorable w₀).length)) w := by
  refine keeps_ofExcept_bind (fun e _ => ⟨h, fun he => by cases he⟩) fun _ _ => ?_
  refine keeps_ofExcept_bind (fun e _ => ⟨h, fun he => by cases he⟩) fun _ _ => ?_
  have hdiscover : Keeps perform (fun _ => True) (Floor minimum w₀)
      (DeploymentStore.discover : Action OperationError DiscoveryReport).run
      (fun r w' => Same w₀ w' ∧ ∀ report, r = .ok report → report.issues.isEmpty = true →
        report = w.discover) w := by
    have hidle : Idle (.record .discover) := trivial
    refine (keeps_attempt_call _ _ _ _).mpr ⟨h.floor, fun k _ => ⟨hidle.step k h, ?_⟩⟩
    intro report hreport hissues
    rcases orFault_cases k w (w.recordEffect .discover) with ⟨e, he⟩ | he
    · rw [show perform (.record .discover) k w = _ from he] at hreport
      cases hreport
      cases hissues
    · rw [show perform (.record .discover) k w = _ from he] at hreport
      cases hreport
      rfl
  refine keeps_attempt_then hdiscover (fun e _ hs => ⟨hs.1, fun he => by cases he⟩)
    fun report w₁ hs => ?_
  refine keeps_ofExcept_bind (fun e _ => ⟨hs.1, fun he => by cases he⟩) fun _ hissues => ?_
  refine (keeps_ofExcept _ _ _).mpr ⟨hs.1, fun hcount hrestore => ?_⟩
  rw [ensure_eq_ok] at hissues hcount
  have hreport := hs.2 report rfl hissues
  rw [hreport] at hissues hcount
  rw [restorable_of_discover hissues, h.restorable, hrestore] at hcount
  simpa using hcount

/-- The record that is marked was not needed for the floor. -/
theorem settled_of_written {record : DeploymentRecord} {w' : World} (hrecorded : Recorded w₀)
    (hmem : record ∈ w₀.records)
    (hroom : record.canRestore = true → minimum < (restorable w₀).length)
    (hrecords : w'.records = { record with state := .deleting } ::
      w₀.records.filter fun r => r.id != record.id)
    (hsnapshots : w'.disk.snapshots = w₀.disk.snapshots) :
    Settled minimum w₀ record.id w' := by
  constructor
  · by_cases hready : record.state = .ready
    · right
      have hrestore : record.canRestore = true := by
        simp [DeploymentRecord.canRestore, hready, hrecorded.unfailed record hmem hready,
          hrecorded.valid record hmem, Except.isOk, Except.toBool]
      have hrest : restorable w' = (restorable w₀).filter fun r => r.id != record.id := by
        unfold restorable
        rw [hrecords, hsnapshots, List.filter_cons_of_neg
          (by simp [DeploymentRecord.canRestore]), List.filter_filter, List.filter_filter]
        exact List.filter_congr fun r _ => Bool.and_comm _ _
      have hids : ((restorable w₀).map DeploymentRecord.id).Nodup :=
        hrecorded.ids.sublist (List.filter_sublist.map DeploymentRecord.id)
      have hlength := length_filter_id hids record.id
      have hmore := hroom hrestore
      rw [hrest]
      omega
    · left
      intro r hr hr'
      rw [hrecords]
      refine List.mem_cons_of_mem _ (List.mem_filter.mpr ⟨hr, ?_⟩)
      rw [bne_iff_ne]
      intro hid
      rw [List.inj_on_of_nodup_map hrecorded.ids hr hmem hid] at hr'
      exact hready hr'
  · intro r hr hid
    rw [hrecords] at hr
    rcases List.mem_cons.mp hr with rfl | hr
    · exact fun hready => by cases hready
    · have hne := (List.mem_filter.mp hr).2
      rw [bne_iff_ne] at hne
      exact absurd hid hne

theorem floor_beginDeleting {record : DeploymentRecord} (h : Same w₀ w) (hrecorded : Recorded w₀)
    (hmem : record ∈ w₀.records) :
    Keeps perform (fun _ => True) (Floor minimum w₀) (beginDeleting record (some minimum)).run
      (fun r w => Floor minimum w₀ w ∧ (r = .ok () → Settled minimum w₀ record.id w)) w := by
  have hfails : ∀ {w}, Same w₀ w → ∀ e : OperationError, Floor minimum w₀ w ∧
      ((.error e : Except OperationError Unit) = .ok () → Settled minimum w₀ record.id w) :=
    fun hs e => ⟨hs.floor, fun he => by cases he⟩
  refine keeps_attempt_then (floor_ensureAutomatic h) (fun e _ hs => hfails hs.1 e)
    fun _ w₁ hs => ?_
  obtain ⟨hsame, hroom⟩ := hs
  refine keeps_ofExcept_bind (fun e _ => hfails hsame e) fun _ _ => ?_
  refine keeps_ofExcept_bind (fun e _ => hfails hsame e) fun _ _ => ?_
  refine keeps_ofExcept_bind (fun e _ => hfails hsame e) fun _ _ => ?_
  refine (keeps_attempt_call _ _ _ _).mpr ⟨hsame.floor, fun k _ => ?_⟩
  rcases orFault_cases k w₁ (w₁.recordEffect (.write { record with state := .deleting }))
    with ⟨e, he⟩ | he
  · rw [show perform (.record (.write { record with state := .deleting })) k w₁ = _ from he]
    exact hfails hsame _
  · rw [show perform (.record (.write { record with state := .deleting })) k w₁ = _ from he]
    have hsettled : Settled minimum w₀ record.id
        (w₁.recordEffect (.write { record with state := .deleting })).2 :=
      settled_of_written hrecorded hmem (hroom rfl) (congrArg _ (congrArg _ hsame.records))
        hsame.snapshots
    exact ⟨hsettled.floor, fun _ => hsettled⟩

theorem same_loadRecord (h : Same w₀ w) :
    Keeps perform (fun _ => True) (Floor minimum w₀) (loadRecord id).run
      (fun r w' => Same w₀ w' ∧ ∀ record, r = .ok record → w.record? id = some record) w := by
  have hload : Keeps perform (fun _ => True) (Floor minimum w₀)
      (Attempt.call (.record (.load id)) (Except.mapError fun e =>
        ⟨.notFound, "Could not inspect metadata: " ++ e⟩) :
          Action OperationError (Option DeploymentRecord)).run
      (fun r w' => Same w₀ w' ∧ ∀ found, r = .ok found → found = w.record? id) w := by
    have hidle : Idle (.record (.load id)) := trivial
    refine (keeps_attempt_call _ _ _ _).mpr ⟨h.floor, fun k _ => ⟨hidle.step k h, ?_⟩⟩
    intro found hfound
    rcases orFault_cases k w (w.recordEffect (.load id)) with ⟨e, he⟩ | he
    · rw [show perform (.record (.load id)) k w = _ from he] at hfound
      cases hfound
    · rw [show perform (.record (.load id)) k w = _ from he] at hfound
      cases hfound
      rfl
  refine keeps_attempt_then hload (fun e _ hs => ⟨hs.1, fun _ he => by cases he⟩)
    fun found w₁ hs => ?_
  obtain ⟨hsame, hfound⟩ := hs
  cases found with
  | none => exact ⟨hsame, fun _ he => by cases he⟩
  | some record =>
    refine keeps_ofExcept_bind (fun e _ => ⟨hsame, fun _ he => by cases he⟩) fun _ _ => ?_
    refine keeps_ofExcept_bind (fun e _ => ⟨hsame, fun _ he => by cases he⟩) fun _ _ => ?_
    refine (keeps_attempt_pure _ _ _).mpr ⟨hsame, fun record' he => ?_⟩
    cases he
    exact (hfound _ rfl).symm

theorem floor_deleteLocked (h : Same w₀ w) (hrecorded : Recorded w₀) :
    Keeps perform (fun _ => True) (Floor minimum w₀) (deleteLocked id (some minimum)).run
      (fun _ w => Floor minimum w₀ w) w := by
  refine keeps_attempt_then (same_of_within (within_call _ trivial) h) (fun _ _ hs => hs.floor)
    fun _ w₁ h₁ => ?_
  refine keeps_attempt_then (same_loadRecord h₁) (fun _ _ hs => hs.1.floor) fun record w₂ hs => ?_
  obtain ⟨h₂, hloaded⟩ := hs
  have hfound := hloaded record rfl
  refine keeps_attempt_then
    (same_of_within (idle_of_reading reading_ensureNotTransactionReferenced) h₂)
    (fun _ _ hs => hs.floor) fun _ w₃ h₃ => ?_
  have hmem : record ∈ w₀.records := h₁.records ▸ List.mem_of_find?_eq_some hfound
  have hid : record.id = id := by simpa using List.find?_some hfound
  split_ifs with hdeleting
  · refine settled_finishDeleting ⟨h₃.floor, fun r hr hr' => ?_⟩
    rw [h₃.records] at hr
    rw [List.inj_on_of_nodup_map hrecorded.ids hr hmem (hr'.trans hid.symm), hdeleting]
    exact fun hready => by cases hready
  · refine keeps_attempt_then (floor_beginDeleting h₃ hrecorded hmem) (fun _ _ hs => hs.1)
      fun _ w₄ hs => settled_finishDeleting ?_
    rw [← hid]
    exact hs.2 rfl

theorem floor_withLock {acquire : LockOp} {view : Except String acquire.Result →
    Except OperationError Unit} {release : LockOp} {body : Action OperationError α}
    (hbody : ∀ w, Same w₀ w → Keeps perform (fun _ => True) (Floor minimum w₀) body.run
      (fun _ w => Floor minimum w₀ w) w) (h : Same w₀ w) :
    Keeps perform (fun _ => True) (Floor minimum w₀)
      (withLock (Attempt.call (.lock acquire) view) release body).run
      (fun _ w => Floor minimum w₀ w) w := by
  refine keeps_attempt_then (same_of_within (within_call _ trivial) h) (fun _ _ hs => hs.floor)
    fun _ w₁ h₁ => ?_
  have houtcome : Keeps perform (fun _ => True) (Floor minimum w₀)
      (Attempt.outcome body : Action OperationError _).run (fun _ w => Floor minimum w₀ w) w₁ :=
    (keeps_outcome _ _ _).mpr (hbody w₁ h₁)
  refine keeps_attempt_then houtcome (fun _ _ hs => hs) fun result w₂ h₂ => ?_
  have hrelease : Within Idle (do
      let _ : Unit ← Attempt.call (.lock release) fun _ => .ok ()
      Attempt.ofExcept result : Action OperationError α).run :=
    within_attempt_bind (within_call _ trivial) fun _ => within_ofExcept _
  exact Keeps.of_within (fun _ k _ hop _ h => Idle.floor hop k h) (fun _ h => h) hrelease h₂

/-- An automatic deletion reads and marks its record under the locks. -/
theorem floor_deleteAutomatic (h : Recorded w) (layout : LayoutSupport) (id : DeploymentId)
    (minimum : ℕ) (script : List Choice) :
    Floor minimum w ((Call.deleteAutomatic layout id minimum).runIn script w) := by
  have hstart : Same w w := ⟨rfl, rfl⟩
  have hdelete : Keeps perform (fun _ => True) (Floor minimum w)
      (deleteAutomatic layout id minimum).run (fun _ w₁ => Floor minimum w w₁) w := by
    refine keeps_attempt_then (same_of_within (within_ofExcept _) hstart)
      (fun _ _ hs => hs.floor) fun _ w₁ h₁ => ?_
    refine keeps_attempt_then (same_of_within (within_call _ trivial) h₁)
      (fun _ _ hs => hs.floor) fun _ w₂ h₂ => ?_
    exact floor_withLock (fun _ hs => floor_withLock (fun _ hs => floor_deleteLocked hs h) hs) h₂
  have hcall : Keeps perform (fun _ => True) (Floor minimum w)
      (Call.deleteAutomatic layout id minimum).program (fun _ w₁ => Floor minimum w w₁) w :=
    (keeps_bind _ _ _ _).mpr hdelete
  exact hcall.run_inv (fun _ _ hs => hs) script fun _ _ => trivial

end Floor

section Results

variable {w : World}

theorem Kept.issues (h : Kept none w) : w.discover.issues = [] := by
  refine List.map_eq_nil_iff.mpr (List.filter_eq_nil_iff.mpr fun r hr => ?_)
  rw [Bool.not_eq_true, Bool.not_eq_false']
  have hvalid : r.validate.isOk = true := by
    rw [h.recorded.valid r hr]
    rfl
  unfold World.discoverable
  rw [hvalid, Bool.true_and]
  cases huuid : r.snapshotUuid with
  | none => rfl
  | some uuid =>
    by_cases hdeleting : r.state = .deleting
    · simp [hdeleting]
    · simp [h.vouched r hr (by rw [huuid]; rfl) hdeleting]

/-- While no creation deletes a snapshot that its committed record names, every reachable
store has the snapshots of its records and no issue, and an automatic deletion that takes
a record out of the ready state leaves as many restorable snapshots as it was told to. -/
theorem records_are_vouched {w₀ : World} (hrecorded : Recorded w₀) (hvouched : Vouched w₀)
    (calls : List (Call × List Choice)) (hmeets : CallsMeet calls w₀) :
    (∀ record ∈ (runCalls calls w₀).records, record.state = .ready →
      record.snapshotUuid.isSome → ((runCalls calls w₀).disk.snapshots record.id).isSome) ∧
    (runCalls calls w₀).discover.issues = [] ∧
    ∀ layout id minimum script, ∀ record ∈ (runCalls calls w₀).records, record.state = .ready →
      (∀ r ∈ ((Call.deleteAutomatic layout id minimum).runIn script (runCalls calls w₀)).records,
        r.id = record.id → r.state ≠ .ready) →
      minimum ≤ (restorable
        ((Call.deleteAutomatic layout id minimum).runIn script (runCalls calls w₀))).length := by
  have hkept : Kept none (runCalls calls w₀) :=
    kept_runCalls calls ⟨hrecorded, hvouched, fun _ hd => by cases hd⟩ hmeets
  refine ⟨fun r hr hready huuid => hkept.vouched r hr huuid ?_, hkept.issues, ?_⟩
  · rw [hready]
    exact fun hdeleting => by cases hdeleting
  · intro layout id minimum script record hrecord hready hleft
    rcases floor_deleteAutomatic hkept.recorded layout id minimum script with hstays | hfloor
    · exact absurd hready (hleft record (hstays record hrecord hready) rfl)
    · exact hfloor

end Results

section Instance

open SnapshotDeletion (emptyStore sampleId sampleCreate)

/-- The condition of a step, evaluated. -/
def unnamed (op : HostOp) (k : Choice) (w : World) : Bool :=
  match op with
  | .disk (.deleteSnapshot id) => k.fault.isSome || decide (∀ record ∈ w.records,
      record.id = id → record.snapshotUuid.isSome → record.state = .deleting)
  | _ => true

theorem unnamed_iff (op : HostOp) (k : Choice) (w : World) :
    unnamed op k w = true ↔ Unnamed op k w := by
  unfold unnamed Unnamed
  split <;> simp

instance (op : HostOp) (k : Choice) (w : World) : Decidable (Unnamed op k w) :=
  decidable_of_iff _ (unnamed_iff op k w)

instance decidableCallsMeet : (calls : List (Call × List Choice)) → (w : World) →
    Decidable (CallsMeet calls w)
  | [], _ => .isTrue trivial
  | (call, script) :: calls, w =>
    have := decidableCallsMeet calls (call.runIn script w)
    inferInstanceAs (Decidable (_ ∧ _))

theorem emptyStore_recorded : Recorded emptyStore where
  valid := fun _ hr => by cases hr
  ids := List.nodup_nil
  unfailed := fun _ hr => by cases hr

theorem emptyStore_vouched : Vouched emptyStore :=
  fun _ hr => by cases hr

/-- A creation that completes, and a deletion. -/
def createAndDelete : List (Call × List Choice) :=
  [(sampleCreate, List.replicate 30 RollbackSafety.success),
    (.delete .supported sampleId, List.replicate 9 RollbackSafety.success)]

theorem records_are_vouched_between :
    (runCalls createAndDelete emptyStore).discover.issues = [] :=
  (records_are_vouched emptyStore_recorded emptyStore_vouched createAndDelete
    (by decide +kernel)).2.1

/-- A creation whose sync after the commit fails, killed after its cleanup has deleted the
snapshot. -/
def killedCleanup : List (Call × List Choice) :=
  [(sampleCreate, List.replicate 17 RollbackSafety.success ++
    [{ RollbackSafety.success with fault := some "device busy" }] ++
    List.replicate 2 RollbackSafety.success)]

theorem killedCleanup_unvouched :
    ((runCalls killedCleanup emptyStore).records.map fun r => (r.state, r.snapshotUuid.isSome)) =
        [(.ready, true)] ∧
      (runCalls killedCleanup emptyStore).disk.snapshots sampleId = none ∧
      (runCalls killedCleanup emptyStore).discover.issues ≠ [] := by
  decide +kernel

end Instance

end SnapshotPresence

end RecoveryEngine
