import SynOSStudio.RecoveryEngine.ScheduledRestore

/-!
# The snapshots of a pending restore

A scheduling call verifies its target under the operation lock, but publishes the
reference to it later, under the start lock; a deletion holds both locks while it looks
for references. The theorem says what holds of concurrent calls when each transaction
still finds its two snapshots at the moment it is published.
-/

namespace RecoveryEngine

open InterruptiblePrograms ConcurrentCalls

namespace PendingReferences

variable {ι : Type}

section Statement

/-- A snapshot that is there, with a record in state `ready`. -/
def Usable (id : DeploymentId) (w : World) : Prop :=
  (w.record? id).any (fun record => record.state == .ready) = true ∧ (w.disk.snapshots id).isSome

/-- The target and the fallback of a transaction are there. -/
def Intact (t : RollbackTransaction) (w : World) : Prop :=
  Usable t.targetDeploymentId w ∧ Usable t.fallbackDeploymentId w

/-- A call that schedules a restore or deletes a snapshot. -/
def SchedulesOrDeletes : Call → Prop
  | .schedule _ _ _ | .delete _ _ | .deleteAutomatic _ _ _ => True
  | _ => False

variable (calls : ι → Call)

/-- A scheduling call that publishes its transaction finds the two snapshots there, and its
update finds no transaction of another call. A step that fails does nothing. -/
def Guarded (i : ι) (op : HostOp) (k : Choice) (s : Shared ι) : Prop :=
  match calls i, op with
  | .schedule _ _ _, .rollback (.create t) =>
    k.fault.isSome ∨ s.world.pending.isSome ∨ Intact t s.world
  | .schedule _ id _, .rollback (.replace _) =>
    k.fault.isSome ∨ ∀ t ∈ s.world.pending, t.id = id
  | _, _ => True

/-- No two calls draw the same identifier. -/
structure Distinct : Prop where
  transactions : ∀ i j id, (calls i).transactionId = some id → (calls j).transactionId = some id →
    i = j
  snapshots : ∀ i j id, (calls i).drawn = some id → (calls j).drawn = some id → i = j

/-- The identifiers that the calls draw are fresh, the operation lock is free and a pending
transaction refers to snapshots that are there. -/
structure Initial (w : World) : Prop where
  kinds : ∀ i, SchedulesOrDeletes (calls i)
  distinct : Distinct calls
  freshTransactions : ∀ t ∈ w.pending, ∀ i, (calls i).transactionId ≠ some t.id
  freshSnapshots : ∀ i id, (calls i).drawn = some id → w.record? id = none
  unlocked : w.locks.operation = false
  intact : ∀ t ∈ w.pending, Waiting t → Intact t w

end Statement

section Rules

variable {calls : ι → Call} {i j : ι} {s s' : Shared ι}

/-- Both transactions refer to the same snapshots. -/
def SameReferences (t t' : RollbackTransaction) : Prop :=
  t'.targetDeploymentId = t.targetDeploymentId ∧ t'.fallbackDeploymentId = t.fallbackDeploymentId

/-- Records and snapshots are the same. -/
structure SameStore (s s' : Shared ι) : Prop where
  records : ∀ id, s'.world.record? id = s.world.record? id
  snapshots : s'.world.disk.snapshots = s.world.disk.snapshots
  settled : s'.settled = s.settled

/-- The call has not yet begun to create its snapshot. -/
def Unrecorded (calls : ι → Call) (i : ι) (s : Shared ι) : Prop :=
  ∀ id, (calls i).drawn = some id → id ∉ s.settled ∧ s.world.record? id = none

/-- What holds in every state: a waiting transaction refers to settled snapshots that are
there; the transaction of a call refers to the snapshots of that call; a record whose creation
is not over is that of the call that holds the operation lock. -/
structure Sound (calls : ι → Call) (s : Shared ι) : Prop where
  intact : ∀ t ∈ s.world.pending, Waiting t → Intact t s.world ∧
    t.targetDeploymentId ∈ s.settled ∧ t.fallbackDeploymentId ∈ s.settled
  own : ∀ t ∈ s.world.pending, ∀ i target fallback, calls i = .schedule target t.id fallback →
    Waiting t ∧ t.targetDeploymentId = target ∧ t.fallbackDeploymentId = fallback
  recorded : ∀ id, (s.world.record? id).isSome → id ∈ s.settled ∨
    ∃ i, s.operationHolder = some i ∧ (calls i).drawn = some id
  lock : s.world.locks.operation = s.operationHolder.isSome

/-- How a call may change the holder of a lock. -/
def Passes (i : ι) (holder holder' : Option ι) : Prop :=
  holder' = holder ∨ (holder = none ∧ holder' = some i) ∨ (holder = some i ∧ holder' = none)

/-- What one step of a call does to the shared state. -/
structure Respects (calls : ι → Call) (i : ι) (s s' : Shared ι) : Prop where
  operation : Passes i s.operationHolder s'.operationHolder
  start : Passes i s.startHolder s'.startHolder
  settled : ∀ id ∈ s.settled, id ∈ s'.settled
  store : s.operationHolder ≠ some i → SameStore s s'
  unrecorded : ∀ j, i ≠ j → Unrecorded calls j s → Unrecorded calls j s'
  references : s.startHolder ≠ some i → ∀ t' ∈ s'.world.pending,
    ∃ t ∈ s.world.pending, SameReferences t t'

/-- What a call may expect of the steps of the others. -/
structure Expects (calls : ι → Call) (i : ι) (s s' : Shared ι) : Prop where
  operation : s'.operationHolder = some i ↔ s.operationHolder = some i
  start : s'.startHolder = some i ↔ s.startHolder = some i
  settled : ∀ id ∈ s.settled, id ∈ s'.settled
  store : s.operationHolder = some i → SameStore s s'
  unrecorded : Unrecorded calls i s → Unrecorded calls i s'
  references : s.startHolder = some i → ∀ t' ∈ s'.world.pending,
    ∃ t ∈ s.world.pending, SameReferences t t'

theorem SameStore.refl (s : Shared ι) : SameStore s s :=
  ⟨fun _ => rfl, rfl, rfl⟩

theorem SameStore.trans {s'' : Shared ι} (h : SameStore s s') (h' : SameStore s' s'') :
    SameStore s s'' :=
  ⟨fun id => (h'.records id).trans (h.records id), h'.snapshots.trans h.snapshots,
    h'.settled.trans h.settled⟩

theorem Expects.refl (s : Shared ι) : Expects calls i s s where
  operation := .rfl
  start := .rfl
  settled := fun _ h => h
  store := fun _ => .refl s
  unrecorded := fun hfresh => hfresh
  references := fun _ t ht => ⟨t, ht, rfl, rfl⟩

theorem Expects.trans {s'' : Shared ι} (h : Expects calls i s s') (h' : Expects calls i s' s'') :
    Expects calls i s s'' where
  operation := h'.operation.trans h.operation
  start := h'.start.trans h.start
  settled := fun id hid => h'.settled id (h.settled id hid)
  store := fun hheld => (h.store hheld).trans (h'.store (h.operation.mpr hheld))
  unrecorded := fun hfresh => h'.unrecorded (h.unrecorded hfresh)
  references := by
    intro hheld t ht
    obtain ⟨t', ht', htarget, hfallback⟩ := h'.references (h.start.mpr hheld) t ht
    obtain ⟨t'', ht'', htarget', hfallback'⟩ := h.references hheld t' ht'
    exact ⟨t'', ht'', htarget.trans htarget', hfallback.trans hfallback'⟩

/-- A lock that one call takes or releases stays with another call that holds it. -/
theorem Passes.other {holder holder' : Option ι} (hne : i ≠ j) (h : Passes j holder holder') :
    holder' = some i ↔ holder = some i := by
  rcases h with rfl | ⟨rfl, rfl⟩ | ⟨rfl, rfl⟩
  · exact .rfl
  · simpa using hne.symm
  · simpa using hne.symm

theorem ne_of_held {holder : Option ι} (hne : i ≠ j) (h : holder = some i) : holder ≠ some j := by
  rw [h]
  exact fun he => hne (Option.some_inj.mp he)

/-- A step of one call is within what every other call expects. -/
theorem Respects.expects (hne : i ≠ j) (h : Respects calls j s s') : Expects calls i s s' where
  operation := h.operation.other hne
  start := h.start.other hne
  settled := h.settled
  store := fun hheld => h.store (ne_of_held hne hheld)
  unrecorded := h.unrecorded i hne.symm
  references := fun hheld => h.references (ne_of_held hne hheld)

def protocol (calls : ι → Call) : Protocol ι HostOp Choice (Shared ι) where
  invariant := Sound calls
  admissible := Guarded calls
  rely := Expects calls
  guarantee := Respects calls
  rely_refl := fun _ s => .refl s
  rely_trans := fun h h' => h.trans h'
  rely_of_guarantee := fun hne _ h => h.expects hne

end Rules

section Steps

variable {calls : ι → Call} {i : ι} {s s' : Shared ι} {op : HostOp}

theorem Usable.congr {id : DeploymentId} {w w' : World} (h : Usable id w)
    (hrecord : w'.record? id = w.record? id)
    (hsnapshot : w'.disk.snapshots id = w.disk.snapshots id) : Usable id w' := by
  unfold Usable
  rw [hrecord, hsnapshot]
  exact h

theorem SameStore.intact (h : SameStore s s') {t : RollbackTransaction}
    (hintact : Intact t s.world) : Intact t s'.world :=
  ⟨hintact.1.congr (h.records _) (by rw [h.snapshots]),
    hintact.2.congr (h.records _) (by rw [h.snapshots])⟩

theorem SameStore.unrecorded (h : SameStore s s') (hfresh : Unrecorded calls i s) :
    Unrecorded calls i s' := by
  intro id hid
  rw [h.settled, h.records]
  exact hfresh id hid

/-- The operations that change neither the store, nor a pending restore, nor a lock. -/
def Quiet : HostOp → Prop
  | .disk (.snapshotSystem _) | .disk (.deleteSnapshot _) => False
  | .record (.write _) | .record (.remove _) => False
  | .rollback .load => True
  | .rollback _ => False
  | .lock (.acquireBrowse _) | .lock .storeDirectories | .lock .freeSpace => True
  | .lock _ => False
  | _ => True

theorem Quiet.of_reading (h : Operations.Reading op) : Quiet op := by
  cases op with
  | disk op =>
    cases op with
    | snapshotSystem | deleteSnapshot => cases h
    | _ => trivial
  | record op =>
    cases op with
    | write | remove => cases h
    | _ => trivial
  | rollback op =>
    cases op with
    | load => trivial
    | _ => cases h
  | lock op => cases h
  | _ => trivial

/-- A step that changes neither the store, nor a pending restore, nor a lock. -/
structure Untouched (s s' : Shared ι) : Prop where
  store : SameStore s s'
  pending : s'.world.pending = s.world.pending
  lock : s'.world.locks.operation = s.world.locks.operation
  operationHolder : s'.operationHolder = s.operationHolder
  startHolder : s'.startHolder = s.startHolder

/-- A step that changes neither the store nor a pending restore. The operation lock may be
taken when it is free. -/
structure Passing (i : ι) (s s' : Shared ι) : Prop where
  store : SameStore s s'
  pending : s'.world.pending = s.world.pending
  operation : Passes i s.operationHolder s'.operationHolder
  start : Passes i s.startHolder s'.startHolder
  held : ∀ j, s.operationHolder = some j → s'.operationHolder = some j
  lock : s.world.locks.operation = s.operationHolder.isSome →
    s'.world.locks.operation = s'.operationHolder.isSome

theorem Untouched.passing (h : Untouched s s') : Passing i s s' where
  store := h.store
  pending := h.pending
  operation := .inl h.operationHolder
  start := .inl h.startHolder
  held := fun _ hheld => h.operationHolder.trans hheld
  lock := fun hlock => by rw [h.lock, h.operationHolder, hlock]

theorem Passing.step (h : Passing i s s') (hsound : Sound calls s) :
    Sound calls s' ∧ Respects calls i s s' := by
  refine ⟨⟨?_, fun t ht => hsound.own t (h.pending ▸ ht), ?_, h.lock hsound.lock⟩,
    ⟨h.operation, h.start, fun _ hid => h.store.settled ▸ hid, fun _ => h.store,
      fun _ _ => h.store.unrecorded, fun _ t ht => ⟨t, h.pending ▸ ht, rfl, rfl⟩⟩⟩
  · intro t ht hwaiting
    rw [h.pending] at ht
    obtain ⟨hintact, hsettled⟩ := hsound.intact t ht hwaiting
    rw [h.store.settled]
    exact ⟨h.store.intact hintact, hsettled⟩
  · intro id hid
    rw [h.store.records] at hid
    rw [h.store.settled]
    exact (hsound.recorded id hid).imp_right fun ⟨j, hj, hdrawn⟩ => ⟨j, h.held j hj, hdrawn⟩

theorem Untouched.step (h : Untouched s s') (hsound : Sound calls s) :
    Sound calls s' ∧ Respects calls i s s' :=
  h.passing.step hsound

theorem untouched_of_world {k : Choice} (hrecords : (perform op k s.world).2.records = s.world.records)
    (hsnapshots : (perform op k s.world).2.disk.snapshots = s.world.disk.snapshots)
    (hpending : (perform op k s.world).2.pending = s.world.pending)
    (hlock : (perform op k s.world).2.locks.operation = s.world.locks.operation)
    (hoperation : (handle i op k s).2.operationHolder = s.operationHolder)
    (hstart : (handle i op k s).2.startHolder = s.startHolder)
    (hsettled : (handle i op k s).2.settled = s.settled) :
    Untouched s (handle i op k s).2 where
  store := by
    refine ⟨fun id => ?_, hsnapshots, hsettled⟩
    show (perform op k s.world).2.record? id = s.world.record? id
    unfold World.record?
    rw [hrecords]
  pending := hpending
  lock := hlock
  operationHolder := hoperation
  startHolder := hstart

/-- Only the creation and the deletion of a deployment's snapshot change the snapshots. -/
theorem effect_snapshots {op : DiskOp} (hop : Quiet (.disk op)) (uuid : Uuid) (text : String)
    (disk : Disk) : (disk.effect uuid text op).2.snapshots = disk.snapshots := by
  cases op with
  | snapshotSystem | deleteSnapshot => cases hop
  | snapshotDeployment | rename | delete | «show» | isReadOnly | rootParent | listDescendants
  | createDirectory | removeDirectory =>
    dsimp only [Disk.effect]
    split <;> rfl
  | _ => rfl

theorem quiet_untouched (hop : Quiet op) (k : Choice) (s : Shared ι) :
    Untouched s (handle i op k s).2 := by
  cases op with
  | now => exact untouched_of_world rfl rfl rfl rfl rfl rfl rfl
  | disk op =>
    have hsnapshots : (perform (.disk op) k s.world).2.disk.snapshots = s.world.disk.snapshots := by
      rcases orFault_world k s.world (s.world.diskEffect k op) with he | he
      · exact congrArg (fun w => w.disk.snapshots) he
      · exact (congrArg (fun w => w.disk.snapshots) he).trans (effect_snapshots hop _ _ _)
    obtain ⟨_, he⟩ := perform_disk k s.world op
    exact untouched_of_world (by rw [he]) hsnapshots (by rw [he]) (by rw [he]) rfl rfl rfl
  | record op =>
    have hworld : (perform (.record op) k s.world).2 = s.world := by
      cases op with
      | write | remove => cases hop
      | load | discover =>
        rcases orFault_world k s.world (s.world.recordEffect _) with he | he <;> exact he
    exact untouched_of_world (by rw [hworld]) (by rw [hworld]) (by rw [hworld]) (by rw [hworld])
      rfl rfl rfl
  | lineage mutation =>
    obtain ⟨_, he⟩ := perform_lineage k s.world mutation
    exact untouched_of_world (by rw [he]) (by rw [he]) (by rw [he]) (by rw [he]) rfl rfl rfl
  | rollback op =>
    cases op with
    | load =>
      have hworld : (perform (.rollback .load) k s.world).2 = s.world := by
        rcases orFault_world k s.world (s.world.rollbackEffect .load) with he | he <;> exact he
      exact untouched_of_world (by rw [hworld]) (by rw [hworld]) (by rw [hworld]) (by rw [hworld])
        rfl rfl rfl
    | _ => cases hop
  | package op =>
    obtain ⟨_, _, he⟩ := perform_package k s.world op
    exact untouched_of_world (by rw [he]) (by rw [he]) (by rw [he]) (by rw [he]) rfl rfl rfl
  | cleanup op =>
    obtain ⟨_, he⟩ := perform_cleanup k s.world op
    exact untouched_of_world (by rw [he]) (by rw [he]) (by rw [he]) (by rw [he]) rfl rfl rfl
  | boot op =>
    obtain ⟨_, he⟩ := perform_boot k s.world op
    exact untouched_of_world (by rw [he]) (by rw [he]) (by rw [he]) (by rw [he]) rfl rfl rfl
  | lock op =>
    have hworld : ∀ op, Quiet (.lock op) → (perform (.lock op) k s.world).2 = s.world := by
      intro op hop
      cases op with
      | acquireBrowse | storeDirectories | freeSpace =>
        rcases orFault_world k s.world (s.world.lockEffect _) with he | he <;> exact he
      | _ => cases hop
    have he := hworld op hop
    cases op with
    | acquireBrowse | storeDirectories | freeSpace =>
      exact untouched_of_world (by rw [he]) (by rw [he]) (by rw [he]) (by rw [he]) rfl rfl rfl
    | _ => cases hop

/-- A step that changes the store only at one snapshot. -/
structure Writes (id : DeploymentId) (s s' : Shared ι) : Prop where
  records : ∀ other, other ≠ id → s'.world.record? other = s.world.record? other
  snapshots : ∀ other, other ≠ id → s'.world.disk.snapshots other = s.world.disk.snapshots other
  settled : s'.settled = s.settled
  pending : s'.world.pending = s.world.pending
  lock : s'.world.locks.operation = s.world.locks.operation
  operationHolder : s'.operationHolder = s.operationHolder
  startHolder : s'.startHolder = s.startHolder

theorem Untouched.writes (h : Untouched s s') (id : DeploymentId) : Writes id s s' where
  records := fun other _ => h.store.records other
  snapshots := fun other _ => congrFun h.store.snapshots other
  settled := h.store.settled
  pending := h.pending
  lock := h.lock
  operationHolder := h.operationHolder
  startHolder := h.startHolder

theorem find?_filter_ne {id other : DeploymentId} (hne : other ≠ id)
    (records : List DeploymentRecord) :
    (records.filter fun r => r.id != id).find? (fun r => r.id == other) =
      records.find? fun r => r.id == other := by
  rw [List.find?_filter]
  congr 1
  funext r
  by_cases hid : r.id = other
  · simp [hid, hne]
  · simp [hid]

theorem perform_record_other {op : RecordOp} {id other : DeploymentId}
    (hop : Operations.Confined id (.record op)) (hne : other ≠ id) (k : Choice) (w : World) :
    (perform (.record op) k w).2.record? other = w.record? other := by
  rcases orFault_world k w (w.recordEffect op) with he | he
  · exact congrArg (fun w => World.record? w other) he
  · refine (congrArg (fun w => World.record? w other) he).trans ?_
    cases op with
    | load | discover => rfl
    | write record =>
      have hrecord : (record.id == other) = false := by
        rw [hop.1]
        simpa using hne.symm
      show (record :: w.records.filter fun r => r.id != record.id).find? _ = _
      rw [List.find?_cons_of_neg (by simp [hrecord]), hop.1]
      exact find?_filter_ne hne w.records
    | remove removed =>
      have hremoved : removed = id := hop
      subst hremoved
      exact find?_filter_ne hne w.records

theorem perform_disk_other {op : DiskOp} {id other : DeploymentId}
    (hop : Operations.Confined id (.disk op)) (hne : other ≠ id) (k : Choice) (w : World) :
    (perform (.disk op) k w).2.disk.snapshots other = w.disk.snapshots other := by
  rcases orFault_world k w (w.diskEffect k op) with he | he
  · exact congrArg (fun w => w.disk.snapshots other) he
  · refine (congrArg (fun w => w.disk.snapshots other) he).trans ?_
    by_cases hquiet : Quiet (.disk op)
    · exact congrFun (effect_snapshots hquiet _ _ _) other
    · cases op with
      | snapshotSystem source =>
        have hsource : source = id := hop
        subst hsource
        show (Disk.effect k.uuid k.text (.snapshotSystem source) w.disk).2.snapshots other = _
        dsimp only [Disk.effect]
        split <;> simp [hne]
      | deleteSnapshot source =>
        have hsource : source = id := hop
        subst hsource
        show (Disk.effect k.uuid k.text (.deleteSnapshot source) w.disk).2.snapshots other = _
        dsimp only [Disk.effect]
        split <;> simp [hne]
      | _ => exact absurd trivial hquiet

theorem confined_writes {id : DeploymentId} (hop : Operations.Confined id op) (k : Choice)
    (s : Shared ι) : Writes id s (handle i op k s).2 := by
  by_cases hquiet : Quiet op
  · exact (quiet_untouched hquiet k s).writes id
  · cases op with
    | disk op =>
      obtain ⟨_, he⟩ := perform_disk k s.world op
      have hworld : (handle i (.disk op) k s).2.world = (perform (.disk op) k s.world).2 := rfl
      exact ⟨fun other _ => by rw [hworld, he]; rfl,
        fun other hne => perform_disk_other hop hne k s.world, rfl, by rw [hworld, he],
        by rw [hworld, he], rfl, rfl⟩
    | record op =>
      obtain ⟨_, he⟩ := perform_record k s.world op
      have hworld : (handle i (.record op) k s).2.world = (perform (.record op) k s.world).2 := rfl
      exact ⟨fun other hne => perform_record_other hop hne k s.world,
        fun other _ => by rw [hworld, he], rfl, by rw [hworld, he], by rw [hworld, he], rfl, rfl⟩
    | rollback op =>
      cases op with
      | load => exact absurd trivial hquiet
      | _ => cases hop
    | lock op =>
      cases op with
      | acquireBrowse | storeDirectories | freeSpace => exact absurd trivial hquiet
      | _ => cases hop
    | _ => exact absurd trivial hquiet

/-- No pending transaction refers to the snapshot. -/
def Unreferenced (id : DeploymentId) (s : Shared ι) : Prop :=
  ∀ t ∈ s.world.pending, t.targetDeploymentId ≠ id ∧ t.fallbackDeploymentId ≠ id

/-- Under the operation lock a call writes a snapshot that it creates or one that is not
referred to. -/
theorem Writes.step {id : DeploymentId} (h : Writes id s s') (hsound : Sound calls s)
    (hheld : s.operationHolder = some i)
    (hfree : ∀ t ∈ s.world.pending, Waiting t →
      t.targetDeploymentId ≠ id ∧ t.fallbackDeploymentId ≠ id)
    (hid : (calls i).drawn = some id ∨ id ∈ s.settled) (hdistinct : Distinct calls) :
    Sound calls s' ∧ Respects calls i s s' := by
  refine ⟨⟨?_, ?_, ?_, ?_⟩, ⟨.inl h.operationHolder, .inl h.startHolder, ?_, ?_, ?_, ?_⟩⟩
  · intro t ht hwaiting
    rw [h.pending] at ht
    obtain ⟨⟨htarget, hfallback⟩, hsettled⟩ := hsound.intact t ht hwaiting
    obtain ⟨hne, hne'⟩ := hfree t ht hwaiting
    rw [h.settled]
    exact ⟨⟨htarget.congr (h.records _ hne) (h.snapshots _ hne),
      hfallback.congr (h.records _ hne') (h.snapshots _ hne')⟩, hsettled⟩
  · exact fun t ht => hsound.own t (h.pending ▸ ht)
  · intro other hother
    rw [h.settled, h.operationHolder]
    by_cases hne : other = id
    · subst hne
      exact hid.elim (fun hdrawn => .inr ⟨i, hheld, hdrawn⟩) .inl
    · rw [h.records other hne] at hother
      exact hsound.recorded other hother
  · rw [h.lock, h.operationHolder, hsound.lock]
  · exact fun other hother => h.settled ▸ hother
  · exact fun hother => absurd hheld hother
  · intro j hne hfresh other hother
    obtain ⟨hunsettled, hnone⟩ := hfresh other hother
    have hother' : other ≠ id := by
      rintro rfl
      exact hid.elim (fun hdrawn => hne (hdistinct.snapshots i j _ hdrawn hother)) hunsettled
    rw [h.settled, h.records other hother']
    exact ⟨hunsettled, hnone⟩
  · exact fun _ t ht => ⟨t, h.pending ▸ ht, rfl, rfl⟩

end Steps

section Locks

variable {calls : ι → Call} {i : ι} {s s' : Shared ι}

theorem mem_ids_iff (w : World) (id : DeploymentId) :
    id ∈ w.records.map DeploymentRecord.id ↔ (w.record? id).isSome := by
  simp [World.record?]

/-- The store and the pending restore are not changed when a lock changes hands. -/
theorem lock_store (op : LockOp) (k : Choice) (s : Shared ι) :
    (∀ id, (handle i (.lock op) k s).2.world.record? id = s.world.record? id) ∧
      (handle i (.lock op) k s).2.world.disk.snapshots = s.world.disk.snapshots ∧
      (handle i (.lock op) k s).2.world.pending = s.world.pending := by
  obtain ⟨_, he⟩ := perform_lock k s.world op
  have hworld : (handle i (.lock op) k s).2.world = (perform (.lock op) k s.world).2 := rfl
  rw [hworld, he]
  exact ⟨fun _ => rfl, rfl, rfl⟩

/-- Taking the operation lock fails without effect, or finds it free. -/
theorem acquireOperation_cases (k : Choice) (w : World) :
    ((perform (.lock .acquireOperation) k w).2 = w ∧
      ((∃ e, (perform (.lock .acquireOperation) k w).1 = .error e) ∨
        (perform (.lock .acquireOperation) k w).1 = .ok false)) ∨
    (w.locks.operation = false ∧ perform (.lock .acquireOperation) k w =
      (.ok true, { w with locks := { w.locks with operation := true } })) := by
  have hperform : perform (.lock .acquireOperation) k w =
      orFault k w (w.lockEffect .acquireOperation) := rfl
  rw [hperform]
  rcases orFault_cases k w (w.lockEffect .acquireOperation) with ⟨e, he⟩ | he
  · rw [he]
    exact .inl ⟨rfl, .inl ⟨e, rfl⟩⟩
  · rw [he]
    cases hlock : w.locks.operation with
    | true =>
      refine .inl ⟨?_, .inr ?_⟩ <;> simp only [World.lockEffect, hlock, if_true]
      rfl
    | false =>
      refine .inr ⟨rfl, ?_⟩
      simp only [World.lockEffect, hlock]
      rfl

theorem handle_acquireOperation_cases (hsound : Sound calls s) (k : Choice) :
    Passing i s (handle i (.lock .acquireOperation) k s).2 ∧
      ((handle i (.lock .acquireOperation) k s).1 = .ok true →
        (handle i (.lock .acquireOperation) k s).2.operationHolder = some i) ∧
      ((handle i (.lock .acquireOperation) k s).1 ≠ .ok true →
        (handle i (.lock .acquireOperation) k s).2.operationHolder = s.operationHolder) := by
  rcases acquireOperation_cases k s.world with ⟨hworld, hanswer⟩ | ⟨hfree, he⟩
  · have hholder : (handle i (.lock .acquireOperation) k s).2.operationHolder =
        s.operationHolder := by
      rcases hanswer with ⟨e, he⟩ | he <;> simp only [handle, he] <;> rfl
    have huntouched : Untouched s (handle i (.lock .acquireOperation) k s).2 :=
      untouched_of_world (by rw [hworld]) (by rw [hworld]) (by rw [hworld]) (by rw [hworld])
        hholder rfl rfl
    refine ⟨huntouched.passing, fun hok => ?_, fun _ => hholder⟩
    have hanswer' : (∃ e, (handle i (.lock .acquireOperation) k s).1 = .error e) ∨
        (handle i (.lock .acquireOperation) k s).1 = .ok false := hanswer
    rw [hok] at hanswer'
    rcases hanswer' with ⟨e, he⟩ | he <;> cases he
  · obtain ⟨hrecords, hsnapshots, hpending⟩ := lock_store (i := i) .acquireOperation k s
    have hnone : s.operationHolder = none := by
      rw [hsound.lock] at hfree
      simpa using hfree
    have hanswer : (handle i (.lock .acquireOperation) k s).1 = .ok true := congrArg Prod.fst he
    have hholder : (handle i (.lock .acquireOperation) k s).2.operationHolder = some i := by
      have := congrArg Prod.fst he
      simp only [handle, this]
      rfl
    have hlock : (handle i (.lock .acquireOperation) k s).2.world.locks.operation = true :=
      congrArg (fun r => r.2.locks.operation) he
    refine ⟨⟨⟨hrecords, hsnapshots, rfl⟩, hpending, .inr (.inl ⟨hnone, hholder⟩), .inl rfl, ?_, ?_⟩,
      fun _ => hholder, fun hne => absurd hanswer hne⟩
    · rw [hnone]
      exact fun j hj => by cases hj
    · rw [hlock, hholder]
      exact fun _ => rfl

/-- When the operation lock is released all records are settled. -/
theorem releaseOperation_step (hsound : Sound calls s) (hheld : s.operationHolder = some i)
    (k : Choice) :
    Sound calls (handle i (.lock .releaseOperation) k s).2 ∧
      Respects calls i s (handle i (.lock .releaseOperation) k s).2 ∧
      (handle i (.lock .releaseOperation) k s).2.operationHolder = none ∧
      ∀ id, (s.world.record? id).isSome →
        id ∈ (handle i (.lock .releaseOperation) k s).2.settled := by
  obtain ⟨hrecords, hsnapshots, hpending⟩ := lock_store (i := i) .releaseOperation k s
  have hsettled : (handle i (.lock .releaseOperation) k s).2.settled =
      s.settled ++ s.world.records.map DeploymentRecord.id := rfl
  have hmem : ∀ id ∈ s.settled, id ∈ (handle i (.lock .releaseOperation) k s).2.settled := by
    intro id hid
    rw [hsettled]
    exact List.mem_append_left _ hid
  have hall : ∀ id, (s.world.record? id).isSome →
      id ∈ (handle i (.lock .releaseOperation) k s).2.settled := by
    intro id hid
    rw [hsettled]
    exact List.mem_append_right _ ((mem_ids_iff _ _).mpr hid)
  refine ⟨⟨?_, ?_, ?_, rfl⟩,
    ⟨.inr (.inr ⟨hheld, rfl⟩), .inl rfl, hmem, fun hother => absurd hheld hother, ?_,
      fun _ t ht => ⟨t, hpending ▸ ht, rfl, rfl⟩⟩, rfl, hall⟩
  · intro t ht hwaiting
    rw [hpending] at ht
    obtain ⟨⟨htarget, hfallback⟩, htarget', hfallback'⟩ := hsound.intact t ht hwaiting
    exact ⟨⟨htarget.congr (hrecords _) (by rw [hsnapshots]),
      hfallback.congr (hrecords _) (by rw [hsnapshots])⟩, hmem _ htarget', hmem _ hfallback'⟩
  · exact fun t ht => hsound.own t (hpending ▸ ht)
  · intro id hid
    rw [hrecords] at hid
    exact .inl (hall id hid)
  · intro j _ hfresh id hid
    obtain ⟨hunsettled, hnone⟩ := hfresh id hid
    rw [hrecords, hsettled, List.mem_append, mem_ids_iff, hnone]
    exact ⟨by simpa using hunsettled, rfl⟩

/-- Taking the start lock fails without effect, or makes the call its holder. -/
theorem acquireStart_passing (k : Choice) (henabled : enabled (.lock .acquireStart) k s) :
    Passing i s (handle i (.lock .acquireStart) k s).2 ∧
      (handle i (.lock .acquireStart) k s).2.operationHolder = s.operationHolder ∧
      ((∃ e, (handle i (.lock .acquireStart) k s).1 = .error e) ∨
        (handle i (.lock .acquireStart) k s).2.startHolder = some i) := by
  have hperform : perform (.lock .acquireStart) k s.world =
      orFault k s.world (s.world.lockEffect .acquireStart) := rfl
  cases hk : k.fault with
  | some e =>
    simp only [orFault, hk] at hperform
    have hworld : (perform (.lock .acquireStart) k s.world).2 = s.world :=
      congrArg Prod.snd hperform
    have hholder : (handle i (.lock .acquireStart) k s).2.startHolder = s.startHolder := by
      simp only [handle, hperform]
      rfl
    have huntouched : Untouched s (handle i (.lock .acquireStart) k s).2 :=
      untouched_of_world (by rw [hworld]) (by rw [hworld]) (by rw [hworld]) (by rw [hworld])
        rfl hholder rfl
    exact ⟨huntouched.passing, rfl, .inl ⟨e, congrArg Prod.fst hperform⟩⟩
  | none =>
    simp only [orFault, hk] at hperform
    obtain ⟨hrecords, hsnapshots, hpending⟩ := lock_store (i := i) .acquireStart k s
    have hholder : (handle i (.lock .acquireStart) k s).2.startHolder = some i := by
      simp only [handle, hperform]
      rfl
    have hlock : (handle i (.lock .acquireStart) k s).2.world.locks.operation =
        s.world.locks.operation := by
      simp only [handle, hperform]
      rfl
    have hfree : s.startHolder = none := by
      rcases henabled with hsome | hfree
      · rw [hk] at hsome
        cases hsome
      · exact hfree
    exact ⟨⟨⟨hrecords, hsnapshots, rfl⟩, hpending, .inl rfl, .inr (.inl ⟨hfree, hholder⟩),
      fun _ hj => hj, hlock.trans⟩, rfl, .inr hholder⟩

theorem releaseStart_passing (k : Choice) (hheld : s.startHolder = some i) :
    Passing i s (handle i (.lock .releaseStart) k s).2 := by
  obtain ⟨hrecords, hsnapshots, hpending⟩ := lock_store (i := i) .releaseStart k s
  exact ⟨⟨hrecords, hsnapshots, rfl⟩, hpending, .inl rfl, .inr (.inr ⟨hheld, rfl⟩),
    fun _ hj => hj, fun hlock => hlock⟩

end Locks

section Safety

variable {calls : ι → Call} {i : ι} {s : Shared ι} {α : Type}

/-- The call is safe whatever the other calls do. -/
abbrev CallSafe (calls : ι → Call) (i : ι) (p : Prog HostOp HostOp.Ans α)
    (post : α → Shared ι → Prop) (s : Shared ι) : Prop :=
  Safe machine (protocol calls) i p post s

/-- An assertion that neither another call nor a quiet step of the call makes false. -/
structure Lasting (calls : ι → Call) (i : ι) (assertion : Shared ι → Prop) : Prop where
  stable : (protocol calls).Stable i assertion
  kept : ∀ s s', Untouched s s' → assertion s → assertion s'

/-- The call holds the operation lock. -/
def Operating (i : ι) (s : Shared ι) : Prop := s.operationHolder = some i

/-- The call does not hold the operation lock. -/
def Idle (i : ι) (s : Shared ι) : Prop := s.operationHolder ≠ some i

/-- The call holds the start lock. -/
def Starting (i : ι) (s : Shared ι) : Prop := s.startHolder = some i

theorem lasting_true : Lasting calls i fun _ => True :=
  ⟨fun _ _ _ _ _ => trivial, fun _ _ _ _ => trivial⟩

theorem Lasting.and {first second : Shared ι → Prop} (h : Lasting calls i first)
    (h' : Lasting calls i second) : Lasting calls i fun s => first s ∧ second s :=
  ⟨fun s s' hrely hinv hs => ⟨h.stable s s' hrely hinv hs.1, h'.stable s s' hrely hinv hs.2⟩,
    fun s s' hstep hs => ⟨h.kept s s' hstep hs.1, h'.kept s s' hstep hs.2⟩⟩

theorem lasting_operating : Lasting calls i (Operating i) :=
  ⟨fun _ _ hexpects _ h => hexpects.operation.mpr h, fun _ _ hstep h => hstep.operationHolder.trans h⟩

theorem lasting_idle : Lasting calls i (Idle i) :=
  ⟨fun _ _ hexpects _ h h' => h (hexpects.operation.mp h'),
    fun _ _ hstep h h' => h (hstep.operationHolder.symm.trans h')⟩

theorem lasting_starting : Lasting calls i (Starting i) :=
  ⟨fun _ _ hexpects _ h => hexpects.start.mpr h, fun _ _ hstep h => hstep.startHolder.trans h⟩

theorem lasting_settled (id : DeploymentId) : Lasting calls i fun s => id ∈ s.settled :=
  ⟨fun _ _ hexpects _ h => hexpects.settled id h, fun _ _ hstep h => hstep.store.settled ▸ h⟩

theorem lasting_unrecorded : Lasting calls i (Unrecorded calls i) :=
  ⟨fun _ _ hexpects _ h => hexpects.unrecorded h, fun _ _ hstep h => hstep.store.unrecorded h⟩

/-- Under the operation lock a record stays where it is. -/
theorem lasting_recorded (id : DeploymentId) :
    Lasting calls i fun s => Operating i s ∧ (s.world.record? id).isSome :=
  ⟨fun _ _ hexpects _ h => ⟨hexpects.operation.mpr h.1, by rw [(hexpects.store h.1).records]; exact h.2⟩,
    fun _ _ hstep h => ⟨hstep.operationHolder.trans h.1, by rw [hstep.store.records]; exact h.2⟩⟩

/-- Under the start lock no reference to a snapshot is added. -/
theorem lasting_unreferenced (id : DeploymentId) :
    Lasting calls i fun s => Starting i s ∧ Unreferenced id s := by
  refine ⟨fun s s' hexpects _ h => ⟨hexpects.start.mpr h.1, fun t ht => ?_⟩,
    fun s s' hstep h => ⟨hstep.startHolder.trans h.1, fun t ht => h.2 t (hstep.pending ▸ ht)⟩⟩
  obtain ⟨t', ht', htarget, hfallback⟩ := hexpects.references h.1 t ht
  rw [htarget, hfallback]
  exact h.2 t' ht'

theorem safe_quiet {assertion : Shared ι → Prop} (hlasting : Lasting calls i assertion)
    {p : Prog HostOp HostOp.Ans α} (hp : Within Quiet p) (h : assertion s) :
    CallSafe calls i p (fun _ s => assertion s) s := by
  refine Safe.of_within hlasting.stable (fun op k s hop _ _ hinv h => ?_) hp h
  have huntouched := quiet_untouched (i := i) hop k s
  obtain ⟨hsound, hrespects⟩ := huntouched.step (i := i) hinv
  exact ⟨hsound, hrespects, hlasting.kept _ _ huntouched h⟩

theorem safe_reading {assertion : Shared ι → Prop} (hlasting : Lasting calls i assertion)
    {p : Prog HostOp HostOp.Ans α} (hp : Within Operations.Reading p) (h : assertion s) :
    CallSafe calls i p (fun _ s => assertion s) s :=
  safe_quiet hlasting (hp.mono fun _ => .of_reading) h

/-- A record that could be loaded under the operation lock exists. -/
theorem loadRecord_safe {extra : Shared ι → Prop} (hextra : Lasting calls i extra)
    (id : DeploymentId) (h : extra s ∧ Operating i s) :
    CallSafe calls i (Operations.loadRecord id).run (fun r s =>
      extra s ∧ Operating i s ∧ (r.isOk = true → (s.world.record? id).isSome)) s := by
  have hheld : Lasting calls i fun s => extra s ∧ Operating i s := hextra.and lasting_operating
  have hrecorded : Lasting calls i fun s =>
      extra s ∧ Operating i s ∧ (s.world.record? id).isSome := hextra.and (lasting_recorded id)
  have hstable : ∀ r : Except OperationError DeploymentRecord, (protocol calls).Stable i fun s =>
      extra s ∧ Operating i s ∧ (r.isOk = true → (s.world.record? id).isSome) := by
    intro r s s' hexpects hinv hs
    obtain ⟨hextra', hheld'⟩ := hheld.stable s s' hexpects hinv ⟨hs.1, hs.2.1⟩
    exact ⟨hextra', hheld',
      fun hr => (hrecorded.stable s s' hexpects hinv ⟨hs.1, hs.2.1, hs.2.2 hr⟩).2.2⟩
  refine safe_attempt_bind (safe_attempt_call hheld.stable h fun s₁ hinv h₁ k _ _ => ?_)
  have huntouched := quiet_untouched (i := i) (show Quiet (.record (.load id)) from trivial) k s₁
  obtain ⟨hsound, hrespects⟩ := huntouched.step (i := i) hinv
  refine ⟨hsound, hrespects, fun s₂ hexpects hinv₂ => ?_⟩
  have h₂ := hheld.stable _ _ hexpects hinv₂ (hheld.kept _ _ huntouched h₁)
  rcases orFault_cases k s₁.world (s₁.world.recordEffect (.load id)) with ⟨e, he⟩ | he
  · rw [show (machine.handle i (.record (.load id)) k s₁).1 = .error e from congrArg Prod.fst he]
    exact fun s₃ hexpects₃ hinv₃ => hstable (.error _) s₂ s₃ hexpects₃ hinv₃
      ⟨h₂.1, h₂.2, fun hr => by cases hr⟩
  · rw [show (machine.handle i (.record (.load id)) k s₁).1 = .ok (s₁.world.record? id) from
      congrArg Prod.fst he]
    cases hfound : s₁.world.record? id with
    | none => exact safe_throw hstable ⟨h₂.1, h₂.2, fun hr => by cases hr⟩
    | some record =>
      have hsome : (s₁.world.record? id).isSome := by rw [hfound]; rfl
      have h₃ := hrecorded.stable _ _ hexpects hinv₂
        (hrecorded.kept _ _ huntouched ⟨h₁.1, h₁.2, hsome⟩)
      have hcheck : Within Quiet (do
          Attempt.ofExcept (record.validate.mapError fun e => ⟨.invalidIdentity, e.display⟩)
          Attempt.ofExcept (ensure (record.id == id)
            ⟨.invalidIdentity, DeploymentStore.idMismatch⟩)
          pure record : Action OperationError DeploymentRecord).run :=
        within_attempt_bind (within_ofExcept _) fun _ =>
          within_attempt_bind (within_ofExcept _) fun _ => within_pure _
      exact (safe_quiet hrecorded hcheck h₃).mono fun _ _ _ h => ⟨h.1, h.2.1, fun _ => h.2.2⟩

/-- To run under the operation lock. -/
theorem safe_withOperationLock {body : Action OperationError α} (before inside : Shared ι → Prop)
    (during : Except OperationError α → Shared ι → Prop)
    {after : Except OperationError α → Shared ι → Prop}
    (hbefore : (protocol calls).Stable i before)
    (hinside : (protocol calls).Stable i fun s => inside s ∧ Operating i s)
    (hduring : ∀ r, (protocol calls).Stable i fun s => during r s ∧ Operating i s)
    (hafter : ∀ r, (protocol calls).Stable i (after r))
    (htaken : ∀ s s', Passing i s s' → before s → Operating i s' → inside s')
    (hfailed : ∀ e s s', Passing i s s' → before s → s'.operationHolder = s.operationHolder →
      after (.error e) s')
    (hbody : ∀ s, inside s ∧ Operating i s →
      CallSafe calls i body.run (fun r s => during r s ∧ Operating i s) s)
    (hreleased : ∀ r s k, Sound calls s → during r s → Operating i s →
      after r (handle i (.lock .releaseOperation) k s).2)
    (h : before s) :
    CallSafe calls i (Operations.withOperationLock body).run after s := by
  refine safe_withLock hbefore hinside hduring hafter
    (fun s k hinv h _ => ?_) hbody (fun r s k hinv h => ?_) h
  · obtain ⟨hstep, hholds, hkeeps⟩ := handle_acquireOperation_cases (i := i) hinv k
    obtain ⟨hsound, hrespects⟩ := hstep.step hinv
    refine ⟨hsound, hrespects, ?_⟩
    have hinside' := htaken s _ hstep h
    have hfailed' := fun e => hfailed e s _ hstep h
    revert hholds hkeeps
    cases (handle i (.lock .acquireOperation) k s).1 with
    | error e => exact fun _ hkeeps => hfailed' _ (hkeeps fun he => by cases he)
    | ok taken =>
      cases taken with
      | false => exact fun _ hkeeps => hfailed' _ (hkeeps fun he => by cases he)
      | true => exact fun hholds _ => ⟨hinside' (hholds rfl), hholds rfl⟩
  · obtain ⟨hsound, hrespects, -, -⟩ := releaseOperation_step hinv h.2 k
    exact ⟨hsound, hrespects, hreleased r s k hinv h.1 h.2⟩

end Safety

section Scheduling

variable {calls : ι → Call} {i : ι} {s : Shared ι} {target fallback : DeploymentId}
variable {id : RollbackId} {α ε : Type}

/-- Before the call creates its fallback. -/
def Before (calls : ι → Call) (i : ι) (s : Shared ι) : Prop :=
  Idle i s ∧ Unrecorded calls i s

theorem lasting_before : Lasting calls i (Before calls i) :=
  lasting_idle.and lasting_unrecorded

theorem stable_ok {assertion kept : Shared ι → Prop} (hkept : Lasting calls i kept)
    (h : Lasting calls i assertion) (r : Except ε α) :
    (protocol calls).Stable i fun s => kept s ∧ (r.isOk = true → assertion s) :=
  fun s s' hexpects hinv hs => ⟨hkept.stable s s' hexpects hinv hs.1,
    fun hr => h.stable s s' hexpects hinv (hs.2 hr)⟩

/-- A release of the operation lock settles only what has a record. -/
theorem Unrecorded.release (h : Unrecorded calls i s) (k : Choice) :
    Unrecorded calls i (handle i (.lock .releaseOperation) k s).2 := by
  intro id hid
  obtain ⟨hunsettled, hnone⟩ := h id hid
  obtain ⟨hrecords, -, -⟩ := lock_store (i := i) .releaseOperation k s
  have hsettled : (handle i (.lock .releaseOperation) k s).2.settled =
      s.settled ++ s.world.records.map DeploymentRecord.id := rfl
  rw [hrecords, hsettled, List.mem_append, mem_ids_iff, hnone]
  exact ⟨by simpa using hunsettled, rfl⟩

theorem Before.of_passing {s' : Shared ι} (h : Before calls i s) (hstep : Passing i s s')
    (hholder : s'.operationHolder = s.operationHolder) : Before calls i s' :=
  ⟨fun h' => h.1 (hholder.symm.trans h'), hstep.store.unrecorded h.2⟩

theorem verifyLocked_safe (id : DeploymentId) (h : Unrecorded calls i s ∧ Operating i s) :
    CallSafe calls i (Operations.verifyLocked id).run (fun r s =>
      (Unrecorded calls i s ∧ (r.isOk = true → (s.world.record? id).isSome)) ∧ Operating i s) s := by
  have hrecorded : Lasting calls i fun s =>
      Unrecorded calls i s ∧ Operating i s ∧ (s.world.record? id).isSome :=
    lasting_unrecorded.and (lasting_recorded id)
  obtain ⟨rest, hverify, hrest⟩ := Operations.verifyLocked_reading id
  rw [hverify]
  refine safe_attempt_bind ((loadRecord_safe lasting_unrecorded id h).mono fun r s₁ _ h₁ => ?_)
  cases r with
  | error e =>
    intro s₂ hexpects hinv
    have h₂ := (lasting_unrecorded.and lasting_operating).stable s₁ s₂ hexpects hinv ⟨h₁.1, h₁.2.1⟩
    exact ⟨⟨h₂.1, fun he => by cases he⟩, h₂.2⟩
  | ok record =>
    exact (safe_reading hrecorded (hrest record).1 ⟨h₁.1, h₁.2.1, h₁.2.2 rfl⟩).mono
      fun _ _ _ h => ⟨⟨h.1, fun _ => h.2.2⟩, h.2.1⟩

/-- A target that was verified is settled. -/
theorem verify_safe (layout : LayoutSupport) (id : DeploymentId) (h : Before calls i s) :
    CallSafe calls i (Operations.verify layout id).run (fun r s =>
      Before calls i s ∧ (r.isOk = true → id ∈ s.settled)) s := by
  have hbefore : Lasting calls i (Before calls i) := lasting_before
  have hunrecorded : Lasting calls i (Unrecorded calls i) := lasting_unrecorded
  have hafter : ∀ r : Except OperationError DeploymentRecord, (protocol calls).Stable i fun s =>
      Before calls i s ∧ (r.isOk = true → id ∈ s.settled) :=
    stable_ok hbefore (lasting_settled id)
  have hlocked : ∀ s, Before calls i s →
      CallSafe calls i (Operations.withOperationLock (Operations.verifyLocked id)).run
        (fun r s => Before calls i s ∧ (r.isOk = true → id ∈ s.settled)) s := by
    intro s h
    refine safe_withOperationLock (Before calls i) (Unrecorded calls i)
      (fun r s => Unrecorded calls i s ∧ (r.isOk = true → (s.world.record? id).isSome))
      hbefore.stable (hunrecorded.and lasting_operating).stable
      (fun r s s' hexpects hinv h => ?_) hafter
      (fun s s' hstep h _ => hstep.store.unrecorded h.2)
      (fun e s s' hstep h hholder => ⟨h.of_passing hstep hholder, fun he => by cases he⟩)
      (fun s h => verifyLocked_safe id h) (fun r s k hsound h hheld => ?_) h
    · have hrecord : Lasting calls i fun s => Operating i s ∧ (s.world.record? id).isSome :=
        lasting_recorded id
      exact ⟨⟨hunrecorded.stable s s' hexpects hinv h.1.1,
        fun hr => (hrecord.stable s s' hexpects hinv ⟨h.2, h.1.2 hr⟩).2⟩, hexpects.operation.mpr h.2⟩
    · obtain ⟨-, -, hnone, hsettled⟩ := releaseOperation_step hsound hheld k
      refine ⟨⟨?_, h.1.release k⟩, fun hr => hsettled id (h.2 hr)⟩
      intro h'
      rw [hnone] at h'
      cases h'
  have hquiet : ∀ {β : Type} {x : Action OperationError β}, Within Quiet x.run → ∀ s,
      Before calls i s → CallSafe calls i x.run (fun _ s => Before calls i s) s :=
    fun hx _ h => safe_quiet hbefore hx h
  refine safe_attempt_then hafter (hquiet (within_ofExcept _) s h)
    (fun _ _ h => ⟨h, fun he => by cases he⟩) fun _ s₁ _ h₁ => ?_
  have hstore : Within Quiet Operations.ensureStoreDirectories.run := within_call _ trivial
  exact safe_attempt_then hafter (hquiet hstore s₁ h₁)
    (fun _ _ h => ⟨h, fun he => by cases he⟩) fun _ s₂ _ h₂ => hlocked s₂ h₂

theorem verifyTarget_safe (target : DeploymentId) (h : Before calls i s) :
    CallSafe calls i (Rollback.verifyTarget target).run (fun r s =>
      Before calls i s ∧ (r.isOk = true → target ∈ s.settled)) s := by
  have hbefore : Lasting calls i (Before calls i) := lasting_before
  have hsettled : Lasting calls i fun s => Before calls i s ∧ target ∈ s.settled :=
    hbefore.and (lasting_settled target)
  have hafter : ∀ r : Except RollbackError DeploymentRecord, (protocol calls).Stable i fun s =>
      Before calls i s ∧ (r.isOk = true → target ∈ s.settled) :=
    stable_ok hbefore (lasting_settled target)
  have hlayout : Within Quiet (Rollback.inspectLayout : Action RollbackError LayoutReport).run :=
    within_call _ trivial
  have hboot : ∀ record : DeploymentRecord, Within Quiet (do
      let _ : Unit ← Attempt.call (.boot (.verifySecureBoot target))
        (Except.mapError fun e => ⟨.invalidTarget, "Secure Boot validation failed: " ++ e⟩)
      pure record : Action RollbackError DeploymentRecord).run := fun _ =>
    within_attempt_bind (within_call _ trivial) fun _ => within_pure _
  refine safe_attempt_then hafter (safe_quiet hbefore hlayout h)
    (fun _ _ h => ⟨h, fun he => by cases he⟩) fun report s₁ _ h₁ => ?_
  refine safe_attempt_bind (safe_mapError ((verify_safe report.support target h₁).mono
    fun r s₂ _ h₂ s₃ hexpects hinv => ?_))
  cases r with
  | error e =>
    intro s₄ hexpects₄ hinv₄
    have h₃ := hbefore.stable s₂ s₃ hexpects hinv h₂.1
    exact ⟨hbefore.stable s₃ s₄ hexpects₄ hinv₄ h₃, fun he => by cases he⟩
  | ok record =>
    have h₃ := hsettled.stable s₂ s₃ hexpects hinv ⟨h₂.1, h₂.2 rfl⟩
    exact (safe_quiet hsettled (hboot record) h₃).mono fun _ _ _ h => ⟨h.1, fun _ => h.2⟩

theorem prepare_safe (target : DeploymentId) (h : Before calls i s) :
    CallSafe calls i (Rollback.prepare target).run (fun r s =>
      Before calls i s ∧ (r.isOk = true → target ∈ s.settled)) s := by
  have hbefore : Lasting calls i (Before calls i) := lasting_before
  have hsettled : Lasting calls i fun s => Before calls i s ∧ target ∈ s.settled :=
    hbefore.and (lasting_settled target)
  have hafter : ∀ r : Except RollbackError (DeploymentRecord × String × RecoveryBootArtifacts),
      (protocol calls).Stable i fun s => Before calls i s ∧ (r.isOk = true → target ∈ s.settled) :=
    stable_ok hbefore (lasting_settled target)
  have hpending : Within Quiet Rollback.pending.run :=
    within_mapError (Operations.reading_loadRollback.mono fun _ => .of_reading)
  have hpackage : Within Quiet Rollback.packageTransactionPending.run :=
    within_attempt_bind (within_mapError (Operations.reading_loadPackage.mono fun _ => .of_reading))
      fun _ => within_pure _
  have hlayout : Within Quiet (Rollback.inspectLayout : Action RollbackError LayoutReport).run :=
    within_call _ trivial
  have herror : ∀ (e : RollbackError) (s : Shared ι), Before calls i s → Before calls i s ∧
      ((.error e : Except RollbackError (DeploymentRecord × String × RecoveryBootArtifacts)).isOk =
        true → target ∈ s.settled) := fun _ _ h => ⟨h, fun he => by cases he⟩
  refine safe_attempt_then hafter (safe_quiet hbefore hpending h) herror fun _ s₁ _ h₁ => ?_
  refine safe_attempt_then hafter (safe_quiet hbefore (within_ofExcept _) h₁) herror
    fun _ s₂ _ h₂ => ?_
  refine safe_attempt_then hafter (safe_quiet hbefore hpackage h₂) herror fun _ s₃ _ h₃ => ?_
  refine safe_attempt_then hafter (safe_quiet hbefore (within_ofExcept _) h₃) herror
    fun _ s₄ _ h₄ => ?_
  refine safe_attempt_then hafter (safe_quiet hbefore hlayout h₄) herror fun report s₅ _ h₅ => ?_
  refine safe_attempt_then hafter (safe_quiet hbefore (within_ofExcept _) h₅) herror
    fun _ s₆ _ h₆ => ?_
  refine safe_attempt_then hafter (verifyTarget_safe target h₆) (fun _ _ h => herror _ _ h.1)
    fun record s₇ _ h₇ => ?_
  have hrest : Within Quiet (do
      Attempt.ofExcept (ensure record.canRestore
        ⟨.invalidTarget, "Only a complete, healthy system snapshot can be scheduled"⟩)
      let rootUuid ← Rollback.rootFilesystemUuid report
      Rollback.verifyOneShotSupport
      let artifacts ← Rollback.provisionRecoveryBootArtifacts
      pure (record, rootUuid, artifacts) :
        Action RollbackError (DeploymentRecord × String × RecoveryBootArtifacts)).run :=
    within_attempt_bind (within_ofExcept _) fun _ =>
      within_attempt_bind (within_attempt_bind (within_ofExcept _) fun _ =>
        within_attempt_bind (within_call _ trivial) fun _ => within_ofExcept _) fun _ =>
      within_attempt_bind (within_call _ trivial) fun _ =>
      within_attempt_bind (within_call _ trivial) fun _ => within_pure _
  exact (safe_quiet hsettled hrest ⟨h₇.1, h₇.2 rfl⟩).mono fun _ _ _ h => ⟨h.1, fun _ => h.2⟩

theorem yields_prepare (target : DeploymentId) :
    Yields (fun r => ∀ prepared, r = .ok prepared → prepared.1.id = target)
      (Rollback.prepare target).run := by
  have herror : ∀ e : RollbackError,
      ∀ prepared : DeploymentRecord × String × RecoveryBootArtifacts,
        .error e = (.ok prepared : Except RollbackError _) → prepared.1.id = target :=
    fun _ _ he => by cases he
  have htarget : Yields (Operations.HasId target) (Rollback.verifyTarget target).run := by
    refine yields_attempt_last Operations.hasId_error fun report => ?_
    have hverify : Yields (Operations.HasId target)
        (Attempt.mapError (fun e : OperationError => (⟨.invalidTarget, e.message⟩ : RollbackError))
          (Operations.verify report.support target)).run :=
      yields_mapError ((Operations.yields_verify report.support target).mono
        fun _ => Operations.hasId_mapError)
    refine yields_attempt_then hverify (fun e _ => Operations.hasId_error e)
      fun record hrecord => yields_attempt_last Operations.hasId_error fun _ => ?_
    rintro _ ⟨⟩
    exact hrecord _ rfl
  refine yields_attempt_last herror fun _ => yields_attempt_last herror fun _ =>
    yields_attempt_last herror fun _ => yields_attempt_last herror fun _ =>
    yields_attempt_last herror fun _ => yields_attempt_last herror fun _ =>
    yields_attempt_then htarget (fun e _ => herror e) fun record hrecord =>
    yields_attempt_last herror fun _ => yields_attempt_last herror fun _ =>
    yields_attempt_last herror fun _ => yields_attempt_last herror fun _ => ?_
  rintro _ ⟨⟩
  exact hrecord _ rfl

/-- The call is creating its snapshot. -/
def Creating (calls : ι → Call) (i : ι) (fallback target : DeploymentId) (s : Shared ι) : Prop :=
  ((calls i).drawn = some fallback ∧ fallback ∉ s.settled) ∧ target ∈ s.settled

theorem stable_creating (fallback target : DeploymentId) :
    (protocol calls).Stable i fun s => Creating calls i fallback target s ∧ Operating i s := by
  rintro s s' hexpects hinv ⟨⟨⟨hdrawn, hnew⟩, htarget⟩, hheld⟩
  have hsettled := (hexpects.store hheld).settled
  exact ⟨⟨⟨hdrawn, hsettled ▸ hnew⟩, hsettled ▸ htarget⟩, hexpects.operation.mpr hheld⟩

theorem create_safe (hdistinct : Distinct calls) {p : Prog HostOp HostOp.Ans α}
    (hp : Within (Operations.Confined fallback) p)
    (h : Creating calls i fallback target s ∧ Operating i s) :
    CallSafe calls i p (fun _ s => Creating calls i fallback target s ∧ Operating i s) s := by
  refine Safe.of_within (stable_creating fallback target) (fun op k s hop _ _ hsound h => ?_) hp h
  obtain ⟨⟨⟨hdrawn, hnew⟩, htarget⟩, hheld⟩ := h
  have hwrites := confined_writes (i := i) hop k s
  have hfree : ∀ t ∈ s.world.pending, Waiting t →
      t.targetDeploymentId ≠ fallback ∧ t.fallbackDeploymentId ≠ fallback := by
    intro t ht hwaiting
    obtain ⟨-, htarget', hfallback'⟩ := hsound.intact t ht hwaiting
    exact ⟨fun he => hnew (he ▸ htarget'), fun he => hnew (he ▸ hfallback')⟩
  obtain ⟨hsound', hrespects⟩ := hwrites.step hsound hheld hfree (.inl hdrawn) hdistinct
  exact ⟨hsound', hrespects, ⟨⟨hdrawn, hwrites.settled ▸ hnew⟩, hwrites.settled ▸ htarget⟩,
    hwrites.operationHolder.trans hheld⟩

/-- Ready to publish: the target is settled, and the call has released the operation lock. -/
def Prepared (i : ι) (target : DeploymentId) (s : Shared ι) : Prop :=
  Idle i s ∧ target ∈ s.settled

theorem lasting_prepared (target : DeploymentId) : Lasting calls i (Prepared i target) :=
  lasting_idle.and (lasting_settled target)

theorem createFallback_safe (hdistinct : Distinct calls) (hdrawn : (calls i).drawn = some fallback)
    (h : Before calls i s ∧ target ∈ s.settled) :
    CallSafe calls i (Rollback.createFallback fallback).run (fun _ s => Prepared i target s) s := by
  have hbefore : Lasting calls i fun s => Before calls i s ∧ target ∈ s.settled :=
    lasting_before.and (lasting_settled target)
  have hprepared : Lasting calls i (Prepared i target) := lasting_prepared target
  have hlayout : Within Quiet (Rollback.inspectLayout : Action RollbackError LayoutReport).run :=
    within_call _ trivial
  have hlocked : ∀ request, ∀ s, Before calls i s ∧ target ∈ s.settled →
      CallSafe calls i (Operations.withOperationLock (do
        let deployments ← DeploymentStore.discover
        Operations.createSnapshotLocked fallback request deployments)).run
        (fun _ s => Prepared i target s) s := by
    intro request s h
    refine safe_withOperationLock _ (Creating calls i fallback target)
      (fun _ => Creating calls i fallback target) hbefore.stable (stable_creating fallback target)
      (fun _ => stable_creating fallback target) (fun _ => hprepared.stable)
      (fun s s' hstep h _ => ?_) (fun _ s s' hstep h hholder => ?_)
      (fun s h => create_safe hdistinct ?_ h) (fun _ s k hsound h hheld => ?_) h
    · have hnew := (hstep.store.unrecorded h.1.2) fallback hdrawn
      exact ⟨⟨hdrawn, hnew.1⟩, hstep.store.settled ▸ h.2⟩
    · exact ⟨(h.1.of_passing hstep hholder).1, hstep.store.settled ▸ h.2⟩
    · exact within_attempt_bind (within_call _ trivial) fun report =>
        Operations.confined_createSnapshotLocked request report
    · obtain ⟨-, hrespects, hnone, -⟩ := releaseOperation_step hsound hheld k
      refine ⟨fun h' => ?_, hrespects.settled target h.2⟩
      rw [hnone] at h'
      cases h'
  have hcreate : ∀ layout request s, Before calls i s ∧ target ∈ s.settled →
      CallSafe calls i (Operations.createSnapshot layout fallback request).run
        (fun _ s => Prepared i target s) s := by
    intro layout request s h
    have hreserve : Within Quiet Operations.ensureTransactionReserve.run := within_call _ trivial
    have hstore : Within Quiet Operations.ensureStoreDirectories.run := within_call _ trivial
    have herror : ∀ (e : OperationError) (s : Shared ι), Before calls i s ∧ target ∈ s.settled →
        Prepared i target s := fun _ _ h => ⟨h.1.1, h.2⟩
    refine safe_attempt_then (fun _ => hprepared.stable)
      (safe_quiet hbefore (within_ofExcept _) h) herror fun _ s₁ _ h₁ => ?_
    refine safe_attempt_then (fun _ => hprepared.stable)
      (safe_quiet hbefore hreserve h₁) herror fun _ s₂ _ h₂ => ?_
    exact safe_attempt_then (fun _ => hprepared.stable)
      (safe_quiet hbefore hstore h₂) herror fun _ s₃ _ h₃ => hlocked request s₃ h₃
  refine safe_attempt_then (fun _ => hprepared.stable) (safe_quiet hbefore hlayout h)
    (fun _ _ h => ⟨h.1.1, h.2⟩) fun report s₁ _ h₁ => ?_
  exact safe_mapError ((hcreate report.support Rollback.preRollbackRequest s₁ h₁).mono
    fun _ s₂ _ h₂ s₃ hexpects hinv => hprepared.stable s₂ s₃ hexpects hinv h₂)

theorem yields_createFallback (fallback : DeploymentId) :
    Yields (Operations.HasId fallback) (Rollback.createFallback fallback).run :=
  yields_attempt_last Operations.hasId_error fun report =>
    yields_mapError ((Operations.yields_createSnapshot report.support _).mono
      fun _ => Operations.hasId_mapError)

end Scheduling

section Publishing

variable {calls : ι → Call} {i : ι} {s : Shared ι} {target fallback : DeploymentId}
variable {id : RollbackId} {t : RollbackTransaction} {α : Type}

/-- The transaction that a scheduling call publishes. -/
structure Publishes (target : DeploymentId) (id : RollbackId) (fallback : DeploymentId)
    (t : RollbackTransaction) : Prop where
  id : t.id = id
  target : t.targetDeploymentId = target
  fallback : t.fallbackDeploymentId = fallback
  waiting : Waiting t

/-- A record that is there belongs to a settled snapshot, unless its creation goes on. -/
theorem settled_of_usable (hsound : Sound calls s) {snapshot : DeploymentId}
    (husable : Usable snapshot s.world)
    (hcreating : ∀ j, s.operationHolder = some j → (calls j).drawn ≠ some snapshot) :
    snapshot ∈ s.settled := by
  have hsome : (s.world.record? snapshot).isSome := by
    obtain ⟨hready, -⟩ := husable
    cases hrecord : s.world.record? snapshot with
    | none =>
      rw [hrecord] at hready
      cases hready
    | some record => rfl
  rcases hsound.recorded snapshot hsome with hsettled | ⟨j, hj, hdrawn⟩
  · exact hsettled
  · exact absurd hdrawn (hcreating j hj)

/-- A step that writes the pending restore and nothing else. -/
theorem pending_step {op : HostOp} {k : Choice} {next : Option RollbackTransaction}
    (hsound : Sound calls s) (hworld : (perform op k s.world).2 = { s.world with pending := next })
    (hholders : (handle i op k s).2.operationHolder = s.operationHolder ∧
      (handle i op k s).2.startHolder = s.startHolder ∧ (handle i op k s).2.settled = s.settled)
    (hintact : ∀ t ∈ next, Waiting t → Intact t s.world ∧
      t.targetDeploymentId ∈ s.settled ∧ t.fallbackDeploymentId ∈ s.settled)
    (hown : ∀ t ∈ next, ∀ i target fallback, calls i = .schedule target t.id fallback →
      Waiting t ∧ t.targetDeploymentId = target ∧ t.fallbackDeploymentId = fallback)
    (hreferences : s.startHolder ≠ some i → ∀ t' ∈ next, ∃ t ∈ s.world.pending,
      SameReferences t t') :
    Sound calls (handle i op k s).2 ∧ Respects calls i s (handle i op k s).2 := by
  obtain ⟨hoperation, hstart, hsettled⟩ := hholders
  have hworld' : (handle i op k s).2.world = { s.world with pending := next } := hworld
  have hstore : SameStore s (handle i op k s).2 :=
    ⟨fun _ => by rw [hworld']; rfl, by rw [hworld'], hsettled⟩
  refine ⟨⟨?_, ?_, ?_, ?_⟩, ⟨.inl hoperation, .inl hstart, fun _ h => hsettled ▸ h,
    fun _ => hstore, fun _ _ => hstore.unrecorded, ?_⟩⟩
  · intro t ht hwaiting
    rw [hworld'] at ht
    obtain ⟨h, hmem⟩ := hintact t ht hwaiting
    rw [hsettled]
    exact ⟨hstore.intact h, hmem⟩
  · rw [hworld']
    exact hown
  · intro id hid
    rw [hstore.records] at hid
    rw [hsettled, hoperation]
    exact hsound.recorded id hid
  · rw [hworld', hoperation]
    exact hsound.lock
  · rw [hworld']
    exact hreferences

theorem Publishes.own (hdistinct : Distinct calls) (h : Publishes target id fallback t)
    (hcall : calls i = .schedule target id fallback) (j : ι) (target' fallback' : DeploymentId)
    (hj : calls j = .schedule target' t.id fallback') :
    Waiting t ∧ t.targetDeploymentId = target' ∧ t.fallbackDeploymentId = fallback' := by
  have hsame : i = j := by
    refine hdistinct.transactions i j id (by rw [hcall]; rfl) ?_
    rw [hj, ← h.id]
    rfl
  subst hsame
  rw [hcall] at hj
  cases hj
  exact ⟨h.waiting, h.target, h.fallback⟩

/-- A guarded creation refers to settled snapshots: the target was verified, and the call
itself has created the fallback. -/
theorem create_step (hdistinct : Distinct calls) (hcall : calls i = .schedule target id fallback)
    (hpublishes : Publishes target id fallback t) {k : Choice}
    (hguarded : Guarded calls i (.rollback (.create t)) k s) (hsound : Sound calls s)
    (hstarting : Starting i s) (hprepared : Prepared i target s) :
    Sound calls (handle i (.rollback (.create t)) k s).2 ∧
      Respects calls i s (handle i (.rollback (.create t)) k s).2 := by
  have hcan : k.fault.isSome ∨ s.world.pending.isSome ∨ Intact t s.world := by
    simpa only [Guarded, hcall] using hguarded
  rcases perform_create_cases k s.world t with ⟨hworld, -⟩ | ⟨hfault, hnone, he⟩
  · exact (untouched_of_world (by rw [hworld]) (by rw [hworld]) (by rw [hworld]) (by rw [hworld])
      rfl rfl rfl).step hsound
  · have hintact : Intact t s.world := by
      rw [hfault, hnone] at hcan
      simpa using hcan
    have hfallback : fallback ∈ s.settled := by
      refine settled_of_usable hsound (hpublishes.fallback ▸ hintact.2) fun j hj hdrawn => ?_
      have hsame : i = j := hdistinct.snapshots i j fallback (by rw [hcall]; rfl) hdrawn
      exact hprepared.1 (hsame ▸ hj)
    refine pending_step hsound (congrArg Prod.snd he) ⟨rfl, rfl, rfl⟩ ?_ ?_
      (fun hother => absurd hstarting hother)
    · rintro t' ⟨⟩ _
      exact ⟨hintact, hpublishes.target ▸ hprepared.2, hpublishes.fallback ▸ hfallback⟩
    · rintro t' ⟨⟩
      exact hpublishes.own hdistinct hcall

/-- A guarded update keeps the references: it finds the transaction of the call. -/
theorem replace_step (hdistinct : Distinct calls) (hcall : calls i = .schedule target id fallback)
    (hpublishes : Publishes target id fallback t) {k : Choice}
    (hguarded : Guarded calls i (.rollback (.replace t)) k s) (hsound : Sound calls s) :
    Sound calls (handle i (.rollback (.replace t)) k s).2 ∧
      Respects calls i s (handle i (.rollback (.replace t)) k s).2 := by
  have hcan : k.fault.isSome ∨ ∀ t ∈ s.world.pending, t.id = id := by
    simpa only [Guarded, hcall] using hguarded
  rcases perform_replace_cases k s.world t with ⟨hworld, -⟩ | ⟨hfault, hsome, he⟩
  · exact (untouched_of_world (by rw [hworld]) (by rw [hworld]) (by rw [hworld]) (by rw [hworld])
      rfl rfl rfl).step hsound
  · obtain ⟨found, hfound⟩ := Option.ne_none_iff_exists'.mp hsome
    have hid : found.id = id := by
      rw [hfault] at hcan
      exact (hcan.resolve_left (by simp)) found hfound
    obtain ⟨hwaiting, htarget, hfallback⟩ :=
      hsound.own found hfound i target fallback (by rw [hcall, hid])
    obtain ⟨hintact, htarget', hfallback'⟩ := hsound.intact found hfound hwaiting
    rw [htarget] at htarget'
    rw [hfallback] at hfallback'
    have hsame : SameReferences found t :=
      ⟨hpublishes.target.trans htarget.symm, hpublishes.fallback.trans hfallback.symm⟩
    refine pending_step hsound (congrArg Prod.snd he) ⟨rfl, rfl, rfl⟩ ?_ ?_ ?_
    · rintro t' ⟨⟩ _
      refine ⟨⟨?_, ?_⟩, hpublishes.target ▸ htarget', hpublishes.fallback ▸ hfallback'⟩
      · rw [hsame.1]
        exact hintact.1
      · rw [hsame.2]
        exact hintact.2
    · rintro t' ⟨⟩
      exact hpublishes.own hdistinct hcall
    · rintro _ t' ⟨⟩
      exact ⟨found, hfound, hsame⟩

theorem remove_step (k : Choice) (hsound : Sound calls s) :
    Sound calls (handle i (.rollback .remove) k s).2 ∧
      Respects calls i s (handle i (.rollback .remove) k s).2 := by
  rcases orFault_world k s.world (s.world.rollbackEffect .remove) with hworld | hworld
  · have hsame : (perform (.rollback .remove) k s.world).2 = s.world := hworld
    exact (untouched_of_world (by rw [hsame]) (by rw [hsame]) (by rw [hsame]) (by rw [hsame])
      rfl rfl rfl).step hsound
  · exact pending_step hsound hworld ⟨rfl, rfl, rfl⟩ (fun t h => by cases h) (fun t h => by cases h)
      fun _ t h => by cases h

/-- What a call does once its transaction is published. -/
def Finishes (target : DeploymentId) (id : RollbackId) (fallback : DeploymentId)
    (op : HostOp) : Prop :=
  Quiet op ∨ op = .rollback .remove ∨
    ∃ t, Publishes target id fallback t ∧ op = .rollback (.replace t)

theorem finish_safe (hdistinct : Distinct calls) (hcall : calls i = .schedule target id fallback)
    {p : Prog HostOp HostOp.Ans α} (hp : Within (Finishes target id fallback) p) :
    CallSafe calls i p (fun _ _ => True) s := by
  refine Safe.of_within lasting_true.stable (fun op k s hop hguarded _ hsound _ => ?_) hp trivial
  rcases hop with hop | rfl | ⟨t, hpublishes, rfl⟩
  · obtain ⟨hsound', hrespects⟩ := (quiet_untouched (i := i) hop k s).step (i := i) hsound
    exact ⟨hsound', hrespects, trivial⟩
  · obtain ⟨hsound', hrespects⟩ := remove_step (i := i) k hsound
    exact ⟨hsound', hrespects, trivial⟩
  · obtain ⟨hsound', hrespects⟩ := replace_step hdistinct hcall hpublishes hguarded hsound
    exact ⟨hsound', hrespects, trivial⟩

/-- The start lock is taken to publish the transaction. -/
theorem createTransaction_safe (hdistinct : Distinct calls)
    (hcall : calls i = .schedule target id fallback) (hpublishes : Publishes target id fallback t)
    (h : Prepared i target s) :
    CallSafe calls i (Rollback.createTransaction t).run (fun _ _ => True) s := by
  have hprepared : Lasting calls i (Prepared i target) := lasting_prepared target
  have hinside : Lasting calls i fun s => Prepared i target s ∧ Starting i s :=
    hprepared.and lasting_starting
  have hstarting : Lasting calls i (Starting i) := lasting_starting
  have hload : Within Quiet (Attempt.mapError Rollback.stateCommit
      PackageTransactionStore.loadPending).run :=
    within_mapError (Operations.reading_loadPackage.mono fun _ => .of_reading)
  have hlocked : ∀ s, Prepared i target s ∧ Starting i s →
      CallSafe calls i (Rollback.createTransactionLocked t).run (fun _ s => Starting i s) s := by
    intro s h
    refine safe_attempt_then (fun _ => hstarting.stable) (safe_quiet hinside hload h)
      (fun _ _ h => h.2) fun found s₁ _ h₁ => ?_
    refine safe_attempt_then (fun _ => hstarting.stable)
      (safe_quiet hinside (within_ofExcept _) h₁) (fun _ _ h => h.2) fun _ s₂ _ h₂ => ?_
    have hcreate : CallSafe calls i (TransactionStore.create t).run (fun _ s => Starting i s) s₂ := by
      refine safe_attempt_then (fun _ => hstarting.stable)
        (safe_quiet hinside (within_ofExcept _) h₂) (fun _ _ h => h.2) fun _ s₃ _ h₃ => ?_
      refine safe_attempt_call hinside.stable h₃ fun s₄ hsound h₄ k _ hguarded => ?_
      obtain ⟨hsound', hrespects⟩ :=
        create_step hdistinct hcall hpublishes hguarded hsound h₄.2 h₄.1
      exact ⟨hsound', hrespects, fun s₅ hexpects _ => hexpects.start.mpr h₄.2⟩
    exact safe_mapError (hcreate.mono fun _ _ _ h _ hexpects _ => hexpects.start.mpr h)
  refine safe_withLock hprepared.stable hinside.stable (fun _ => hstarting.stable)
    (fun _ => lasting_true.stable) (fun s k hsound h henabled => ?_) hlocked
    (fun _ s k hsound h => ?_) h
  · obtain ⟨hstep, hholder, hstart⟩ := acquireStart_passing (i := i) k henabled
    obtain ⟨hsound', hrespects⟩ := hstep.step hsound
    refine ⟨hsound', hrespects, ?_⟩
    have hprepared' : Prepared i target (handle i (.lock .acquireStart) k s).2 :=
      ⟨fun h' => h.1 (hholder.symm.trans h'), hstep.store.settled ▸ h.2⟩
    revert hstart
    cases (handle i (.lock .acquireStart) k s).1 with
    | error e => exact fun _ => trivial
    | ok u => exact fun hstart => ⟨hprepared', hstart.resolve_left (by rintro ⟨e, ⟨⟩⟩)⟩
  · obtain ⟨hsound', hrespects⟩ := (releaseStart_passing k h).step hsound
    exact ⟨hsound', hrespects, trivial⟩

theorem publish_safe (hdistinct : Distinct calls) (hcall : calls i = .schedule target id fallback)
    (hpublishes : Publishes target id fallback t) (h : Prepared i target s) :
    CallSafe calls i (Rollback.publish t).run (fun _ _ => True) s := by
  have hstable : ∀ _ : Except RollbackError RollbackTransaction,
      (protocol calls).Stable i fun _ => True := fun _ => lasting_true.stable
  refine safe_attempt_then hstable (createTransaction_safe hdistinct hcall hpublishes h)
    (fun _ _ h => h) fun _ s₁ _ _ => finish_safe hdistinct hcall ?_
  refine within_attempt_bind (within_call _ (.inl trivial)) fun _ =>
    within_attempt_bind (within_call _ (.inl trivial)) fun _ =>
    within_attempt_bind (within_call _ (.inl trivial)) fun now =>
    within_ofExcept_bind fun armed harmed => ?_
  have hpublishes' : Publishes target id fallback armed := by
    cases htransition : t.transition .armed now with
    | error e =>
      rw [htransition] at harmed
      cases harmed
    | ok armed' =>
      rw [htransition] at harmed
      cases harmed
      obtain ⟨-, -, hfields⟩ := RollbackTransaction.transition_eq_ok htransition
      rw [hfields]
      exact ⟨hpublishes.id, hpublishes.target, hpublishes.fallback, .inr rfl⟩
  have hupdate : Within (Finishes target id fallback) (Rollback.updateTransaction armed).run :=
    within_mapError (within_attempt_bind (within_ofExcept _) fun _ =>
      within_call _ (.inr (.inr ⟨armed, hpublishes', rfl⟩)))
  exact within_attempt_bind hupdate fun _ =>
    within_attempt_bind (within_call _ (.inl trivial)) fun _ =>
    within_attempt_bind (within_ofExcept _) fun _ => within_pure _

theorem within_cleanupFailedSchedule :
    Within (Finishes target id fallback) Rollback.cleanupFailedSchedule.run :=
  within_attempt_bind (within_outcome (within_call _ (.inl trivial))) fun _ =>
    within_attempt_bind (within_outcome (within_mapError (within_call _ (.inr (.inl rfl)))))
      fun _ =>
    within_attempt_bind (within_outcome (within_call _ (.inl trivial))) fun _ => within_ofExcept _

theorem schedule_safe (hdistinct : Distinct calls) (hcall : calls i = .schedule target id fallback)
    (h : Before calls i s) :
    CallSafe calls i (Rollback.schedule target id fallback).run (fun _ _ => True) s := by
  have hdrawn : (calls i).drawn = some fallback := by rw [hcall]; rfl
  have hstable : ∀ _ : Except RollbackError RollbackTransaction,
      (protocol calls).Stable i fun _ => True := fun _ => lasting_true.stable
  have hprepared : Lasting calls i (Prepared i target) := lasting_prepared target
  have hnow : Within Quiet (utcNow : Action RollbackError Timestamp).run := within_call _ trivial
  refine safe_attempt_then hstable ((prepare_safe target h).and_yields (yields_prepare target))
    (fun _ _ _ => trivial) fun prepared s₁ _ h₁ => ?_
  obtain ⟨record, rootUuid, artifacts⟩ := prepared
  obtain ⟨⟨hbefore, hsettled⟩, hid⟩ := h₁
  refine safe_attempt_then hstable ((createFallback_safe hdistinct hdrawn
    ⟨hbefore, hsettled rfl⟩).and_yields (yields_createFallback fallback))
    (fun _ _ _ => trivial) fun created s₂ _ h₂ => ?_
  refine safe_attempt_then hstable (safe_quiet hprepared hnow h₂.1) (fun _ _ _ => trivial)
    fun now s₃ _ h₃ => ?_
  have hpublishes : Publishes target id fallback (RollbackTransaction.new id now record.id
      created.id rootUuid artifacts.kernelRelease artifacts.kernelSha256 artifacts.initramfsSha256
      artifacts.confirmSha256) := ⟨rfl, hid _ rfl, h₂.2 _ rfl, .inl rfl⟩
  refine safe_attempt_bind (safe_outcome ((publish_safe hdistinct hcall hpublishes h₃).mono
    fun result _ _ _ _ _ _ => finish_safe hdistinct hcall ?_))
  cases result with
  | ok armed => exact within_pure _
  | error e =>
    exact within_attempt_bind (within_outcome within_cleanupFailedSchedule) fun _ => within_throw _

end Publishing

section Deleting

variable {calls : ι → Call} {i : ι} {s : Shared ι} {id : DeploymentId} {α : Type}

/-- The call holds both locks and may delete the snapshot. -/
def Deletes (id : DeploymentId) (i : ι) (s : Shared ι) : Prop :=
  (Starting i s ∧ Unreferenced id s) ∧ Operating i s ∧ id ∈ s.settled

theorem lasting_deletes : Lasting calls i (Deletes id i) :=
  (lasting_unreferenced id).and (lasting_operating.and (lasting_settled id))

theorem delete_safe (hdistinct : Distinct calls) {p : Prog HostOp HostOp.Ans α}
    (hp : Within (Operations.Confined id) p) (h : Deletes id i s) :
    CallSafe calls i p (fun _ s => Deletes id i s) s := by
  refine Safe.of_within lasting_deletes.stable (fun op k s hop _ _ hsound h => ?_) hp h
  obtain ⟨⟨hstarting, hfree⟩, hheld, hsettled⟩ := h
  have hwrites := confined_writes (i := i) hop k s
  obtain ⟨hsound', hrespects⟩ :=
    hwrites.step hsound hheld (fun t ht _ => hfree t ht) (.inr hsettled) hdistinct
  refine ⟨hsound', hrespects, ⟨hwrites.startHolder.trans hstarting, fun t ht => ?_⟩,
    hwrites.operationHolder.trans hheld, hwrites.settled ▸ hsettled⟩
  exact hfree t (hwrites.pending ▸ ht)

/-- What is pending refers to the snapshots that the loaded transaction refers to. -/
def Covers (found : Option RollbackTransaction) (s : Shared ι) : Prop :=
  ∀ t ∈ s.world.pending, ∃ t' ∈ found, SameReferences t' t

theorem lasting_covers (found : Option RollbackTransaction) :
    Lasting calls i fun s => Starting i s ∧ Covers found s := by
  refine ⟨fun s s' hexpects _ h => ⟨hexpects.start.mpr h.1, fun t ht => ?_⟩,
    fun s s' hstep h => ⟨hstep.startHolder.trans h.1, fun t ht => h.2 t (hstep.pending ▸ ht)⟩⟩
  obtain ⟨t', ht', htarget, hfallback⟩ := hexpects.references h.1 t ht
  obtain ⟨t'', ht'', htarget', hfallback'⟩ := h.2 t' ht'
  exact ⟨t'', ht'', htarget.trans htarget', hfallback.trans hfallback'⟩

theorem loadRollback_safe {extra : Shared ι → Prop} (hextra : Lasting calls i extra)
    (h : extra s ∧ Starting i s) :
    CallSafe calls i TransactionStore.loadPending.run (fun r s =>
      extra s ∧ Starting i s ∧ ∀ found, r = .ok found → Covers found s) s := by
  have hheld : Lasting calls i fun s => extra s ∧ Starting i s := hextra.and lasting_starting
  have hcovers : ∀ found, Lasting calls i fun s => extra s ∧ Starting i s ∧ Covers found s :=
    fun found => hextra.and (lasting_covers found)
  have hstable : ∀ r : Except TransactionError (Option RollbackTransaction),
      (protocol calls).Stable i fun s =>
        extra s ∧ Starting i s ∧ ∀ found, r = .ok found → Covers found s := by
    intro r s s' hexpects hinv hs
    obtain ⟨hextra', hstarting⟩ := hheld.stable s s' hexpects hinv ⟨hs.1, hs.2.1⟩
    exact ⟨hextra', hstarting, fun found hr =>
      ((hcovers found).stable s s' hexpects hinv ⟨hs.1, hs.2.1, hs.2.2 found hr⟩).2.2⟩
  refine safe_attempt_bind (safe_attempt_call hheld.stable h fun s₁ hinv h₁ k _ _ => ?_)
  have huntouched := quiet_untouched (i := i) (show Quiet (.rollback .load) from trivial) k s₁
  obtain ⟨hsound, hrespects⟩ := huntouched.step (i := i) hinv
  refine ⟨hsound, hrespects, fun s₂ hexpects hinv₂ => ?_⟩
  have h₂ := hheld.stable _ _ hexpects hinv₂ (hheld.kept _ _ huntouched h₁)
  rcases orFault_cases k s₁.world (s₁.world.rollbackEffect .load) with ⟨e, he⟩ | he
  · rw [show (machine.handle i (.rollback .load) k s₁).1 = .error e from congrArg Prod.fst he]
    exact fun s₃ hexpects₃ hinv₃ => hstable (.error _) s₂ s₃ hexpects₃ hinv₃
      ⟨h₂.1, h₂.2, fun _ hr => by cases hr⟩
  · rw [show (machine.handle i (.rollback .load) k s₁).1 = .ok s₁.world.pending from
      congrArg Prod.fst he]
    have hloaded : Covers s₁.world.pending s₁ := fun t ht => ⟨t, ht, rfl, rfl⟩
    have h₃ := (hcovers _).stable _ _ hexpects hinv₂
      ((hcovers _).kept _ _ huntouched ⟨h₁.1, h₁.2, hloaded⟩)
    cases hfound : s₁.world.pending with
    | none =>
      rw [hfound] at h₃
      exact safe_pure hstable ⟨h₃.1, h₃.2.1, fun _ hr => by cases hr; exact h₃.2.2⟩
    | some t =>
      rw [hfound] at h₃
      refine safe_attempt_then hstable (safe_quiet (hcovers _) (within_ofExcept _) h₃)
        (fun _ _ h => ⟨h.1, h.2.1, fun _ hr => by cases hr⟩) fun _ s₃ _ h₄ => ?_
      exact safe_pure hstable ⟨h₄.1, h₄.2.1, fun _ hr => by cases hr; exact h₄.2.2⟩

theorem ensureNotTransactionReferenced_safe {extra : Shared ι → Prop}
    (hextra : Lasting calls i extra) (h : extra s ∧ Starting i s) :
    CallSafe calls i (Operations.ensureNotTransactionReferenced id).run (fun r s =>
      extra s ∧ Starting i s ∧ (r.isOk = true → Unreferenced id s)) s := by
  have hheld : Lasting calls i fun s => extra s ∧ Starting i s := hextra.and lasting_starting
  have hfree : Lasting calls i fun s => extra s ∧ Starting i s ∧ Unreferenced id s :=
    hextra.and (lasting_unreferenced id)
  have hstable : ∀ r : Except OperationError Unit, (protocol calls).Stable i fun s =>
      extra s ∧ Starting i s ∧ (r.isOk = true → Unreferenced id s) := by
    intro r s s' hexpects hinv hs
    obtain ⟨hextra', hstarting⟩ := hheld.stable s s' hexpects hinv ⟨hs.1, hs.2.1⟩
    exact ⟨hextra', hstarting, fun hr =>
      (hfree.stable s s' hexpects hinv ⟨hs.1, hs.2.1, hs.2.2 hr⟩).2.2⟩
  refine safe_attempt_bind (safe_mapError ((loadRollback_safe hextra h).mono
    fun r s₁ _ h₁ s₂ hexpects hinv => ?_))
  have h₂ := hheld.stable _ _ hexpects hinv ⟨h₁.1, h₁.2.1⟩
  cases r with
  | error e =>
    exact fun s₃ hexpects₃ hinv₃ => hstable (.error _) s₂ s₃ hexpects₃ hinv₃
      ⟨h₂.1, h₂.2, fun he => by cases he⟩
  | ok found =>
    have hcovers : Lasting calls i fun s => extra s ∧ Starting i s ∧ Covers found s :=
      hextra.and (lasting_covers found)
    have h₃ := hcovers.stable _ _ hexpects hinv ⟨h₁.1, h₁.2.1, h₁.2.2 found rfl⟩
    show CallSafe calls i (do
      Attempt.ofExcept (ensure (!found.any (Operations.referencedBy id))
        ⟨.isProtected, "This system snapshot is referenced by a pending rollback"⟩)
      let package ← Attempt.mapError (fun e : String =>
        ⟨.invalidIdentity, "Could not validate pending package references: " ++ e⟩)
        PackageTransactionStore.loadPending
      Attempt.ofExcept (ensure (!package.any (Operations.packageReferencedBy id)) ⟨.isProtected,
        "This system snapshot is referenced by a pending package transaction"⟩) :
      Action OperationError Unit).run _ s₂
    cases hany : found.any (Operations.referencedBy id) with
    | true =>
      exact fun s₃ hexpects₃ hinv₃ => hstable (.error _) s₂ s₃ hexpects₃ hinv₃
        ⟨h₂.1, h₂.2, fun he => by cases he⟩
    | false =>
      have hunreferenced : Unreferenced id s₂ := by
        intro t ht
        obtain ⟨t', ht', htarget, hfallback⟩ := h₃.2.2 t ht
        rw [htarget, hfallback]
        have hnot : Operations.referencedBy id t' = false := by
          rw [ht'] at hany
          exact hany
        simpa [Operations.referencedBy] using hnot
      have hrest : Within Quiet (do
          let package ← Attempt.mapError (fun e : String =>
            ⟨.invalidIdentity, "Could not validate pending package references: " ++ e⟩)
            PackageTransactionStore.loadPending
          Attempt.ofExcept (ensure (!package.any (Operations.packageReferencedBy id))
            ⟨.isProtected, "This system snapshot is referenced by a pending package transaction"⟩) :
          Action OperationError Unit).run :=
        within_attempt_bind (within_mapError
          (Operations.reading_loadPackage.mono fun _ => .of_reading)) fun _ => within_ofExcept _
      exact (safe_quiet hfree hrest ⟨h₂.1, h₂.2, hunreferenced⟩).mono
        fun _ _ _ h => ⟨h.1, h.2.1, fun _ => h.2.2⟩

/-- A call that deletes has no snapshot of its own: what it loads is settled. -/
theorem deleteLocked_safe (hdistinct : Distinct calls) (hdrawn : (calls i).drawn = none)
    (minimum : Option ℕ) (h : Operating i s ∧ Starting i s) :
    CallSafe calls i (Operations.deleteLocked id minimum).run
      (fun _ s => Operating i s ∧ Starting i s) s := by
  have hheld : Lasting calls i fun s => Operating i s ∧ Starting i s :=
    lasting_operating.and lasting_starting
  have hbrowse : Within Quiet (Operations.acquireBrowse id).run := within_call _ trivial
  have hstable : ∀ _ : Except OperationError Unit, (protocol calls).Stable i fun s =>
      Operating i s ∧ Starting i s := fun _ => hheld.stable
  refine safe_attempt_then hstable (safe_quiet hheld hbrowse h) (fun _ _ h => h)
    fun _ s₁ _ h₁ => ?_
  refine safe_attempt_then hstable ((loadRecord_safe lasting_starting id
    ⟨h₁.2, h₁.1⟩).and_yields Operations.yields_loadRecord) (fun _ _ h => ⟨h.1.2.1, h.1.1⟩)
    fun record s₂ hsound h₂ => ?_
  obtain ⟨⟨hstarting, hoperating, hsome⟩, hid⟩ := h₂
  have hsettled : id ∈ s₂.settled := by
    rcases hsound.recorded id (hsome rfl) with hsettled | ⟨j, hj, hdrawn'⟩
    · exact hsettled
    · have hsame : i = j := Option.some_inj.mp (hoperating.symm.trans hj)
      rw [← hsame, hdrawn] at hdrawn'
      cases hdrawn'
  refine safe_attempt_then hstable (ensureNotTransactionReferenced_safe
    (lasting_operating.and (lasting_settled id)) ⟨⟨hoperating, hsettled⟩, hstarting⟩)
    (fun _ _ h => ⟨h.1.1, h.2.1⟩) fun _ s₃ _ h₃ => ?_
  exact (delete_safe hdistinct (Operations.confined_deleteLoaded minimum (hid record rfl))
    ⟨⟨h₃.2.1, h₃.2.2 rfl⟩, h₃.1⟩).mono fun _ _ _ h => ⟨h.2.1, h.1.1⟩

theorem deleteWithRestorableFloor_safe (hdistinct : Distinct calls)
    (hdrawn : (calls i).drawn = none) (layout : LayoutSupport) (minimum : Option ℕ) :
    CallSafe calls i (Operations.deleteWithRestorableFloor layout id minimum).run
      (fun _ _ => True) s := by
  have htrue : Lasting calls i fun _ => True := lasting_true
  have hoperating : Lasting calls i (Operating i) := lasting_operating
  have hheld : Lasting calls i fun s => Operating i s ∧ Starting i s :=
    lasting_operating.and lasting_starting
  have hstable : ∀ _ : Except OperationError Unit, (protocol calls).Stable i fun _ => True :=
    fun _ => htrue.stable
  have hstore : Within Quiet Operations.ensureStoreDirectories.run := within_call _ trivial
  have hstart : ∀ s, True ∧ Operating i s → CallSafe calls i
      (Operations.withLock Operations.acquireStart .releaseStart
        (Operations.deleteLocked id minimum)).run (fun _ s => True ∧ Operating i s) s := by
    intro s h
    refine safe_withLock hoperating.stable hheld.stable (fun _ => hheld.stable)
      (fun _ => (htrue.and hoperating).stable) (fun s k hsound h henabled => ?_)
      (fun s h => deleteLocked_safe hdistinct hdrawn minimum h) (fun _ s k hsound h => ?_) h.2
    · obtain ⟨hstep, hholder, hstart⟩ := acquireStart_passing (i := i) k henabled
      obtain ⟨hsound', hrespects⟩ := hstep.step hsound
      refine ⟨hsound', hrespects, ?_⟩
      have hoperating' : Operating i (handle i (.lock .acquireStart) k s).2 := hholder.trans h
      revert hstart
      cases (handle i (.lock .acquireStart) k s).1 with
      | error e => exact fun _ => ⟨trivial, hoperating'⟩
      | ok u => exact fun hstart => ⟨hoperating', hstart.resolve_left (by rintro ⟨e, ⟨⟩⟩)⟩
    · obtain ⟨hsound', hrespects⟩ := (releaseStart_passing k h.2).step hsound
      exact ⟨hsound', hrespects, trivial, h.1⟩
  refine safe_attempt_then hstable (safe_quiet htrue (within_ofExcept _) trivial)
    (fun _ _ h => h) fun _ s₁ _ h₁ => ?_
  refine safe_attempt_then hstable (safe_quiet htrue hstore h₁) (fun _ _ h => h)
    fun _ s₂ _ h₂ => ?_
  exact safe_withOperationLock (fun _ => True) (fun _ => True) (fun _ _ => True) htrue.stable
    (htrue.and hoperating).stable (fun _ => (htrue.and hoperating).stable) hstable
    (fun _ _ _ _ _ => trivial) (fun _ _ _ _ _ _ => trivial) hstart (fun _ _ _ _ _ _ => trivial) h₂

end Deleting

section Results

variable {calls : ι → Call} {i : ι} {s : Shared ι}

theorem call_safe (hdistinct : Distinct calls) (hkind : SchedulesOrDeletes (calls i))
    (h : Before calls i s) : CallSafe calls i (calls i).program (fun _ _ => True) s := by
  have hstable : ∀ _ : CallResult, (protocol calls).Stable i fun _ => True :=
    fun _ => lasting_true.stable
  cases hcall : calls i with
  | schedule target id fallback =>
    exact safe_bind ((schedule_safe hdistinct hcall h).mono
      fun _ _ _ _ => safe_done hstable trivial)
  | delete layout id =>
    exact safe_bind ((deleteWithRestorableFloor_safe hdistinct (by rw [hcall]; rfl) layout
      none).mono fun _ _ _ _ => safe_done hstable trivial)
  | deleteAutomatic layout id minimum =>
    exact safe_bind ((deleteWithRestorableFloor_safe hdistinct (by rw [hcall]; rfl) layout
      (some minimum)).mono fun _ _ _ _ => safe_done hstable trivial)
  | _ =>
    rw [hcall] at hkind
    cases hkind

theorem sound_start {w₀ : World} (h : Initial calls w₀) : Sound calls (start calls w₀).state where
  intact := by
    intro t ht hwaiting
    have hintact : Intact t w₀ := h.intact t ht hwaiting
    have hrecorded : ∀ id, Usable id w₀ → id ∈ w₀.records.map DeploymentRecord.id := by
      intro id husable
      rw [mem_ids_iff]
      obtain ⟨hready, -⟩ := husable
      cases hrecord : w₀.record? id with
      | none =>
        rw [hrecord] at hready
        cases hready
      | some record => rfl
    exact ⟨hintact, hrecorded _ hintact.1, hrecorded _ hintact.2⟩
  own := by
    intro t ht i target fallback hcall
    refine absurd ?_ (h.freshTransactions t ht i)
    rw [hcall]
    rfl
  recorded := fun id hid => .inl ((mem_ids_iff _ _).mpr hid)
  lock := h.unlocked

theorem before_start {w₀ : World} (h : Initial calls w₀) (i : ι) :
    Before calls i (start calls w₀).state := by
  refine ⟨fun hheld => (by cases hheld), fun id hid => ?_⟩
  have hnone := h.freshSnapshots i id hid
  refine ⟨fun hmem => ?_, hnone⟩
  have hsome := (mem_ids_iff w₀ id).mp hmem
  rw [hnone] at hsome
  cases hsome

/-- In every interleaving whose publications find their snapshots there, the snapshots of a
waiting transaction are there in every state. -/
theorem pending_restore_is_intact [DecidableEq ι] {w₀ : World} (h : Initial calls w₀)
    {c : Config ι HostOp HostOp.Ans CallResult (Shared ι)}
    (hreaches : Reaches machine (Guarded calls) (start calls w₀) c) :
    ∀ t ∈ c.state.world.pending, Waiting t → Intact t c.state.world := by
  have hsafe : ∀ i, CallSafe calls i ((start calls w₀).threads i) (fun _ _ => True)
      (start calls w₀).state :=
    fun i => call_safe h.distinct (h.kinds i) (before_start h i)
  have hsound := (Safe.reaches (P := protocol calls) hreaches (sound_start h) hsafe).1
  exact fun t ht hwaiting => (hsound.intact t ht hwaiting).1

end Results

section Instance

/-! A restore of a snapshot, and a deletion of the same snapshot. -/

open ScheduledRestore (idleWorld preparation publication)

instance (id : DeploymentId) (w : World) : Decidable (Usable id w) :=
  inferInstanceAs (Decidable (_ ∧ _))

instance (t : RollbackTransaction) (w : World) : Decidable (Intact t w) :=
  inferInstanceAs (Decidable (_ ∧ _))

/-- The condition of a step, evaluated. -/
def guarded (calls : ι → Call) (i : ι) (op : HostOp) (k : Choice) (s : Shared ι) : Bool :=
  match calls i, op with
  | .schedule _ _ _, .rollback (.create t) =>
    k.fault.isSome || (s.world.pending.isSome || decide (Intact t s.world))
  | .schedule _ id _, .rollback (.replace _) =>
    k.fault.isSome || decide (∀ t ∈ s.world.pending, t.id = id)
  | _, _ => true

theorem guarded_iff (calls : ι → Call) (i : ι) (op : HostOp) (k : Choice) (s : Shared ι) :
    guarded calls i op k s = true ↔ Guarded calls i op k s := by
  unfold guarded Guarded
  split <;> simp

instance (calls : ι → Call) (i : ι) (op : HostOp) (k : Choice) (s : Shared ι) :
    Decidable (Guarded calls i op k s) :=
  decidable_of_iff _ (guarded_iff calls i op k s)

def restoreAndDelete : Fin 2 → Call
  | 0 => .schedule (.repeated 2) (.repeated 10) (.repeated 11)
  | 1 => .delete .supported (.repeated 2)

theorem restoreAndDelete_distinct : Distinct restoreAndDelete where
  transactions := by
    have hnone : (restoreAndDelete 1).transactionId = none := rfl
    intro i j id hi hj
    fin_cases i <;> fin_cases j
    · rfl
    · cases hnone.symm.trans hj
    · cases hnone.symm.trans hi
    · rfl
  snapshots := by
    have hnone : (restoreAndDelete 1).drawn = none := rfl
    intro i j id hi hj
    fin_cases i <;> fin_cases j
    · rfl
    · cases hnone.symm.trans hj
    · cases hnone.symm.trans hi
    · rfl

theorem restoreAndDelete_initial : Initial restoreAndDelete idleWorld where
  kinds i := by fin_cases i <;> trivial
  distinct := restoreAndDelete_distinct
  freshTransactions := fun t ht => by cases ht
  freshSnapshots := by
    intro i id hid
    fin_cases i
    · cases hid
      decide +kernel
    · cases hid
  unlocked := rfl
  intact := fun t ht => by cases ht

/-- All operations of a deletion that completes. -/
def deletion : List Choice :=
  List.replicate 19 RollbackSafety.success

def isWaiting (w : World) : Bool :=
  w.pending.any fun t => decide (t.phase = .armed)

theorem exists_of_isWaiting {w : World} (h : isWaiting w = true) :
    ∃ t, w.pending = some t ∧ Waiting t := by
  obtain ⟨t, ht, hphase⟩ := (Option.any_eq_true _ _).mp h
  exact ⟨t, ht, .inr (of_decide_eq_true hphase)⟩

theorem restore_runs :
    ((start restoreAndDelete idleWorld).runTurns machine (Guarded restoreAndDelete)
      [(0, preparation ++ publication)]).any (fun c => isWaiting c.state.world) = true := by
  decide +kernel

/-- A restore that no deletion meets. -/
theorem pending_restore_is_intact_alone :
    ∃ c t, Reaches machine (Guarded restoreAndDelete) (start restoreAndDelete idleWorld) c ∧
      c.state.world.pending = some t ∧ Intact t c.state.world := by
  obtain ⟨c, hrun, hwaiting⟩ := (Option.any_eq_true _ _).mp restore_runs
  obtain ⟨t, hpending, hwaits⟩ := exists_of_isWaiting hwaiting
  have hreaches := reaches_runTurns hrun
  exact ⟨c, t, hreaches, hpending,
    pending_restore_is_intact restoreAndDelete_initial hreaches t hpending hwaits⟩

theorem deletion_between_runs :
    ((start restoreAndDelete idleWorld).runTurns machine (fun _ _ _ _ => True)
      [(0, preparation), (1, deletion), (0, publication)]).any (fun c =>
        isWaiting c.state.world && (c.state.world.disk.snapshots (.repeated 2)).isNone &&
          c.state.world.pending.any fun t => t.targetDeploymentId == .repeated 2) = true := by
  decide +kernel

/-- A deletion between the verification of the target and the publication of the transaction
is not noticed. -/
theorem pending_restore_refers_to_deleted_target :
    ¬ ∀ c, Reaches machine (fun _ _ _ _ => True) (start restoreAndDelete idleWorld) c →
      ∀ t ∈ c.state.world.pending, Waiting t → Intact t c.state.world := by
  intro hintact
  obtain ⟨c, hrun, hlost⟩ := (Option.any_eq_true _ _).mp deletion_between_runs
  rw [Bool.and_eq_true, Bool.and_eq_true] at hlost
  obtain ⟨⟨hwaiting, hgone⟩, htarget⟩ := hlost
  obtain ⟨t, hpending, hwaits⟩ := exists_of_isWaiting hwaiting
  have husable := (hintact c (reaches_runTurns hrun) t hpending hwaits).1
  rw [hpending, Option.any_some, beq_iff_eq] at htarget
  rw [htarget] at husable
  have hsome := husable.2
  rw [Option.isNone_iff_eq_none.mp hgone] at hsome
  cases hsome

end Instance

end PendingReferences

end RecoveryEngine
