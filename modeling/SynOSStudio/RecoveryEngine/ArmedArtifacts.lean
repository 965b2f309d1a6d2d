import SynOSStudio.RecoveryEngine.BootIntegration
import SynOSStudio.RecoveryEngine.ScheduledRestore

/-!
# The boot files of an armed restore

The copies in `recovery-boot` are shared by all scheduling calls, and each call
overwrites them before it claims the pending slot. The theorem says what holds when no
call overwrites the copies of a transaction that is already pending by others.
-/

namespace RecoveryEngine

open InterruptiblePrograms ConcurrentCalls BootIntegration

namespace ArmedArtifacts

variable {ι γ : Type}

section Sharing

/-- The shared state of the calls, with the files that a recovery boots from. -/
structure Stored (ι γ : Type) where
  shared : Shared ι
  recovery : BootFiles γ

def Stored.pending (s : Stored ι γ) : Option RollbackTransaction := s.shared.world.pending

def Stored.menu (s : Stored ι γ) : Option RollbackTransaction := s.shared.world.boot.menu

/-- What the environment decides at an operation, with the files of the running system at
that moment: they may have been regenerated since the last one. -/
structure Moment (γ : Type) where
  choice : Choice
  release : String
  system : BootFiles γ
  fault : Option ProvisionFault
  menu : MenuEnvironment

/-- `load_record` on the records of the world. -/
def storedRecord (w : World) (id : DeploymentId) : Except String DeploymentRecord :=
  match w.record? id with
  | none => .error ("Could not inspect metadata: " ++ Disk.noSuchFile)
  | some record => do
    record.validate.mapError ModelError.display
    ensure (record.id == id) DeploymentStore.idMismatch
    pure record

variable (sha256 : γ → String)

/-- How the operations on the boot files turn out, and the files afterwards. A provisioning
that fails may have replaced some of them. -/
def settle (op : HostOp) (m : Moment γ) (s : Stored ι γ) : Choice × BootFiles γ :=
  match op with
  | .boot .provisionArtifacts =>
    match m.choice.fault, provision sha256 m.fault m.release m.system s.recovery with
    | some _, _ => (m.choice, s.recovery)
    | none, (.ok artifacts, files) => ({ m.choice with artifacts := artifacts }, files)
    | none, (.error e, files) => ({ m.choice with fault := some e.message }, files)
  | .boot .regenerateGrub =>
    match recoveryMenuEntry sha256 { m.menu with record := storedRecord s.shared.world } s.recovery
      s.shared.world.pending with
    | .ok _ => (m.choice, s.recovery)
    | .error e => ({ m.choice with fault := some e.message }, s.recovery)
  | _ => (m.choice, s.recovery)

def handle (i : ι) (op : HostOp) (m : Moment γ) (s : Stored ι γ) : op.Ans × Stored ι γ :=
  ((ConcurrentCalls.handle i op (settle sha256 op m s).1 s.shared).1,
    ⟨(ConcurrentCalls.handle i op (settle sha256 op m s).1 s.shared).2, (settle sha256 op m s).2⟩)

def machine : Machine ι HostOp HostOp.Ans (Moment γ) (Stored ι γ) where
  handle := handle sha256
  enabled op m s := enabled op m.choice s.shared

instance (op : HostOp) (m : Moment γ) (s : Stored ι γ) :
    Decidable ((machine sha256).enabled op m s) :=
  inferInstanceAs (Decidable (enabled op m.choice s.shared))

def start (calls : ι → Call) (w : World) (files : BootFiles γ) :
    Config ι HostOp HostOp.Ans CallResult (Stored ι γ) where
  threads := (ConcurrentCalls.start calls w).threads
  state := ⟨(ConcurrentCalls.start calls w).state, files⟩

end Sharing

section Statement

open ScheduledRestore (Own Distinct)

variable (sha256 : γ → String) (calls : ι → Call)

/-- How many copies a provisioning puts in place. -/
def Moment.placed (m : Moment γ) : ℕ :=
  match systemFiles m.release m.system, m.fault with
  | .error _, _ => 0
  | .ok _, some fault => fault.placed
  | .ok _, none => 3

/-- The copies that a provisioning puts in place have the digests of the transaction. -/
structure Harmless (m : Moment γ) (t : RollbackTransaction) : Prop where
  kernel : 0 < m.placed → m.system.kernel.map sha256 = some t.recoveryKernelSha256
  initramfs : 1 < m.placed → m.system.initramfs.map sha256 = some t.recoveryInitramfsSha256
  confirm : 2 < m.placed → m.system.confirm.map sha256 = some t.recoveryConfirmSha256

/-- A provisioning that finds a waiting transaction copies files with its digests, and an
update finds no transaction of another call. A step that fails at once does nothing. -/
def Guarded (i : ι) (op : HostOp) (m : Moment γ) (s : Stored ι γ) : Prop :=
  match calls i, op with
  | .schedule _ _ _, .boot .provisionArtifacts =>
    m.choice.fault.isSome ∨ ∀ t ∈ s.pending, Waiting t → Harmless sha256 m t
  | .schedule _ id _, .rollback (.replace _) =>
    m.choice.fault.isSome ∨ ∀ t ∈ s.pending, t.id = id
  | _, _ => True

/-- All calls schedule a restore, with fresh identifiers; the pending transaction and the
one that the menu was generated from name their own entries. -/
structure Initial (w : World) : Prop where
  kinds : ∀ i, ∃ target id fallback, calls i = .schedule target id fallback
  distinct : Distinct calls
  freshPending : ∀ t ∈ w.pending, ∀ i, ¬ Own calls i t
  freshMenu : ∀ t ∈ w.boot.menu, ∀ i, ¬ Own calls i t
  pendingEntry : ∀ t ∈ w.pending, t.grubEntryId = RollbackTransaction.grubEntryFor t.id
  menuEntry : ∀ t ∈ w.boot.menu, t.grubEntryId = RollbackTransaction.grubEntryFor t.id

end Statement

section Rules

open ScheduledRestore (Own Distinct)

variable {sha256 : γ → String} {calls : ι → Call} {i j : ι} {s s' : Stored ι γ}

/-- Neither the pending transaction nor the menu is that of the call. -/
def Absent (calls : ι → Call) (i : ι) (s : Stored ι γ) : Prop :=
  (∀ t ∈ s.pending, ¬ Own calls i t) ∧ ∀ t ∈ s.menu, ¬ Own calls i t

/-- If the transaction of the call is pending the files have its digests. -/
def Secured (sha256 : γ → String) (calls : ι → Call) (i : ι) (s : Stored ι γ) : Prop :=
  ∀ t ∈ s.pending, Own calls i t → Waiting t → Matches sha256 s.recovery t

/-- The menu offers the entry of the call. -/
def Offered (calls : ι → Call) (i : ι) (s : Stored ι γ) : Prop :=
  ∃ t ∈ s.menu, Own calls i t ∧ Waiting t

/-- What one step of a call does to the shared state. -/
structure Respects (sha256 : γ → String) (calls : ι → Call) (i : ι) (s s' : Stored ι γ) : Prop where
  published : ∀ t, s'.pending = some t → ¬ Own calls i t → s.pending = some t
  files : ∀ t ∈ s.pending, Waiting t → Matches sha256 s.recovery t → Matches sha256 s'.recovery t
  menu : s'.menu = s.menu ∨ (s'.menu = s.pending ∧ s'.pending = s.pending ∧
    s'.recovery = s.recovery ∧ ∀ t ∈ s.pending, Waiting t → Matches sha256 s.recovery t)

/-- What a call may expect of the steps of the others. -/
structure Expects (sha256 : γ → String) (calls : ι → Call) (i : ι) (s s' : Stored ι γ) : Prop where
  own : ∀ t, Own calls i t → s'.pending = some t → s.pending = some t
  absent : Absent calls i s → Absent calls i s'
  secured : Secured sha256 calls i s → Secured sha256 calls i s'
  offered : (Offered calls i s → Secured sha256 calls i s) →
    Offered calls i s' → Secured sha256 calls i s'

theorem Expects.refl (s : Stored ι γ) : Expects sha256 calls i s s where
  own := fun _ _ h => h
  absent := fun h => h
  secured := fun h => h
  offered := fun h => h

theorem Expects.trans {s'' : Stored ι γ} (h : Expects sha256 calls i s s')
    (h' : Expects sha256 calls i s' s'') : Expects sha256 calls i s s'' where
  own := fun t ht hpending => h.own t ht (h'.own t ht hpending)
  absent := fun habsent => h'.absent (h.absent habsent)
  secured := fun hsecured => h'.secured (h.secured hsecured)
  offered := fun hoffered => h'.offered (h.offered hoffered)

theorem Respects.secured (h : Respects sha256 calls j s s')
    (hown : ∀ t, Own calls i t → s'.pending = some t → s.pending = some t)
    (hsecured : Secured sha256 calls i s) : Secured sha256 calls i s' := by
  intro t ht hthis hwaiting
  have hpending := hown t hthis ht
  exact h.files t hpending hwaiting (hsecured t hpending hthis hwaiting)

/-- A step of one call is within what every other call expects. -/
theorem Respects.expects (hdistinct : Distinct calls) (hne : i ≠ j)
    (h : Respects sha256 calls j s s') : Expects sha256 calls i s s' := by
  have hown : ∀ t, Own calls i t → s'.pending = some t → s.pending = some t :=
    fun t ht hpending => h.published t hpending fun hj => hne (hdistinct i j t ht hj)
  refine ⟨hown, fun habsent => ⟨fun t ht hthis => ?_, fun t ht hthis => ?_⟩, h.secured hown,
    fun hoffered hoffered' => ?_⟩
  · exact habsent.1 t (hown t hthis ht) hthis
  · rcases h.menu with hmenu | ⟨hmenu, -⟩
    · exact habsent.2 t (hmenu ▸ ht) hthis
    · exact habsent.1 t (hmenu ▸ ht) hthis
  · rcases h.menu with hmenu | ⟨-, hpending, hfiles, hmatches⟩
    · refine h.secured hown (hoffered ?_)
      obtain ⟨t, ht, hthis⟩ := hoffered'
      exact ⟨t, hmenu ▸ ht, hthis⟩
    · intro t ht _ hwaiting
      rw [hfiles]
      exact hmatches t (hpending ▸ ht) hwaiting

/-- The pending transaction and the menu name their own entries. -/
structure Entries (s : Stored ι γ) : Prop where
  pending : ∀ t ∈ s.pending, t.grubEntryId = RollbackTransaction.grubEntryFor t.id
  menu : ∀ t ∈ s.menu, t.grubEntryId = RollbackTransaction.grubEntryFor t.id

def protocol (sha256 : γ → String) (hdistinct : Distinct calls) :
    Protocol ι HostOp (Moment γ) (Stored ι γ) where
  invariant := Entries
  admissible := Guarded sha256 calls
  rely := Expects sha256 calls
  guarantee := Respects sha256 calls
  rely_refl := fun _ s => .refl s
  rely_trans := fun h h' => h.trans h'
  rely_of_guarantee := fun hne _ h => h.expects hdistinct hne

end Rules

section Steps

open ScheduledRestore (Own Distinct)

variable {sha256 : γ → String} {calls : ι → Call} {i : ι} {s s' : Stored ι γ} {op : HostOp}

/-- The operations that change neither a pending restore, nor the menu, nor the boot files. -/
def Plain : HostOp → Prop
  | .boot .provisionArtifacts | .boot .regenerateGrub => False
  | .rollback .load => True
  | .rollback _ => False
  | _ => True

/-- A step that changes neither a pending restore, nor the menu, nor the boot files. -/
structure Unchanged (s s' : Stored ι γ) : Prop where
  pending : s'.pending = s.pending
  menu : s'.menu = s.menu
  recovery : s'.recovery = s.recovery

theorem perform_plain_boot {op : BootOp} (hop : Plain (.boot op)) (k : Choice) (w : World) :
    (perform (.boot op) k w).2.boot.menu = w.boot.menu := by
  rcases orFault_world k w (w.bootEffect k op) with he | he
  · exact congrArg (fun w => w.boot.menu) he
  · refine (congrArg (fun w => w.boot.menu) he).trans ?_
    cases op with
    | regenerateGrub | provisionArtifacts => cases hop
    | armOnce =>
      rcases ScheduledRestore.world_armOnce_cases w with ⟨e, he⟩ | ⟨t, -, he⟩
      · exact congrArg (fun r => r.2.boot.menu) he
      · exact congrArg (fun r => r.2.boot.menu) he
    | verifyGrubEntry t =>
      by_cases h : World.menuEntry w.boot.menu = some t.grubEntryId <;>
        simp only [World.bootEffect, h, if_true, if_false]
    | _ => rfl

theorem perform_plain (hop : Plain op) (k : Choice) (w : World) :
    (perform op k w).2.pending = w.pending ∧ (perform op k w).2.boot.menu = w.boot.menu := by
  cases op with
  | now => exact ⟨rfl, rfl⟩
  | disk op =>
    obtain ⟨_, he⟩ := perform_disk k w op
    rw [he]
    exact ⟨rfl, rfl⟩
  | record op =>
    obtain ⟨_, he⟩ := perform_record k w op
    rw [he]
    exact ⟨rfl, rfl⟩
  | lineage mutation =>
    obtain ⟨_, he⟩ := perform_lineage k w mutation
    rw [he]
    exact ⟨rfl, rfl⟩
  | rollback op =>
    cases op with
    | load =>
      rcases orFault_world k w (w.rollbackEffect .load) with he | he <;>
        exact ⟨congrArg World.pending he, congrArg (fun w => w.boot.menu) he⟩
    | _ => cases hop
  | package op =>
    obtain ⟨_, _, he⟩ := perform_package k w op
    rw [he]
    exact ⟨rfl, rfl⟩
  | cleanup op =>
    obtain ⟨_, he⟩ := perform_cleanup k w op
    rw [he]
    exact ⟨rfl, rfl⟩
  | boot op =>
    refine ⟨?_, perform_plain_boot hop k w⟩
    obtain ⟨_, he⟩ := perform_boot k w op
    rw [he]
  | lock op =>
    obtain ⟨_, he⟩ := perform_lock k w op
    rw [he]
    exact ⟨rfl, rfl⟩

theorem settle_plain (hop : Plain op) (m : Moment γ) (s : Stored ι γ) :
    settle sha256 op m s = (m.choice, s.recovery) := by
  cases op with
  | boot op =>
    cases op with
    | provisionArtifacts | regenerateGrub => cases hop
    | _ => rfl
  | _ => rfl

theorem plain_unchanged (hop : Plain op) (m : Moment γ) (s : Stored ι γ) :
    Unchanged s (handle sha256 i op m s).2 := by
  have hsettle : settle sha256 op m s = (m.choice, s.recovery) := settle_plain hop m s
  obtain ⟨hpending, hmenu⟩ := perform_plain hop m.choice s.shared.world
  refine ⟨?_, ?_, congrArg Prod.snd hsettle⟩
  · show (perform op (settle sha256 op m s).1 s.shared.world).2.pending = _
    rw [hsettle]
    exact hpending
  · show (perform op (settle sha256 op m s).1 s.shared.world).2.boot.menu = _
    rw [hsettle]
    exact hmenu

theorem Unchanged.step (h : Unchanged s s') (hentries : Entries s) :
    Entries s' ∧ Respects sha256 calls i s s' := by
  refine ⟨⟨fun t ht => hentries.pending t (h.pending ▸ ht), fun t ht =>
    hentries.menu t (h.menu ▸ ht)⟩, ⟨fun t ht _ => h.pending ▸ ht, fun t _ _ hmatches => ?_,
    .inl h.menu⟩⟩
  rw [h.recovery]
  exact hmatches

/-- A provisioning puts the first copies in place, however it ends. -/
theorem provision_files (m : Moment γ) (recovery : BootFiles γ) :
    (provision sha256 m.fault m.release m.system recovery).2 =
      place m.placed m.system recovery := by
  unfold provision Moment.placed
  cases systemFiles m.release m.system with
  | error e => rfl
  | ok found =>
    cases m.fault with
    | none => rfl
    | some fault => rfl

/-- Provisioning changes nothing but the files. -/
theorem provision_step {target fallback : DeploymentId} {id : RollbackId}
    (hcall : calls i = .schedule target id fallback) {m : Moment γ}
    (hguarded : Guarded sha256 calls i (.boot .provisionArtifacts) m s) (hentries : Entries s) :
    Entries (handle sha256 i (.boot .provisionArtifacts) m s).2 ∧
      Respects sha256 calls i s (handle sha256 i (.boot .provisionArtifacts) m s).2 ∧
      (handle sha256 i (.boot .provisionArtifacts) m s).2.pending = s.pending ∧
      (handle sha256 i (.boot .provisionArtifacts) m s).2.menu = s.menu := by
  have hworld : ∀ k, (perform (.boot .provisionArtifacts) k s.shared.world).2 = s.shared.world := by
    intro k
    rcases orFault_world k s.shared.world
      (s.shared.world.bootEffect k .provisionArtifacts) with he | he <;> exact he
  have hpending : (handle sha256 i (.boot .provisionArtifacts) m s).2.pending = s.pending :=
    congrArg World.pending (hworld _)
  have hmenu : (handle sha256 i (.boot .provisionArtifacts) m s).2.menu = s.menu :=
    congrArg (fun w => w.boot.menu) (hworld _)
  have hcan : m.choice.fault.isSome ∨ ∀ t ∈ s.pending, Waiting t → Harmless sha256 m t := by
    simpa only [Guarded, hcall] using hguarded
  have hfiles : (handle sha256 i (.boot .provisionArtifacts) m s).2.recovery =
      if m.choice.fault.isSome then s.recovery else place m.placed m.system s.recovery := by
    rw [← @provision_files γ sha256]
    show (settle sha256 (.boot .provisionArtifacts) m s).2 = _
    unfold settle
    cases m.choice.fault with
    | some e => rfl
    | none =>
      generalize provision sha256 m.fault m.release m.system s.recovery = r
      obtain ⟨answer, files⟩ := r
      cases answer <;> rfl
  refine ⟨⟨fun t ht => hentries.pending t (hpending ▸ ht), fun t ht =>
    hentries.menu t (hmenu ▸ ht)⟩, ⟨fun t ht _ => hpending ▸ ht, fun t ht hwaiting hmatches => ?_,
    .inl hmenu⟩, hpending, hmenu⟩
  rw [hfiles]
  split_ifs with hfault
  · exact hmatches
  · have hharmless := hcan.resolve_left hfault t ht hwaiting
    exact hmatches.place m.placed hharmless.kernel hharmless.initramfs hharmless.confirm

/-- A generation that succeeds has seen the pending transaction match the files. -/
theorem regenerate_effect (sha256 : γ → String) (i : ι) (m : Moment γ) (s : Stored ι γ) :
    (handle sha256 i (.boot .regenerateGrub) m s).2.pending = s.pending ∧
      (handle sha256 i (.boot .regenerateGrub) m s).2.recovery = s.recovery ∧
      ((handle sha256 i (.boot .regenerateGrub) m s).2.menu = s.menu ∨
        ((handle sha256 i (.boot .regenerateGrub) m s).2.menu = s.pending ∧
          ∀ t ∈ s.pending, Waiting t → Matches sha256 s.recovery t)) := by
  refine ⟨?_, ?_, ?_⟩
  · obtain ⟨_, he⟩ := perform_boot (settle sha256 (.boot .regenerateGrub) m s).1 s.shared.world
      .regenerateGrub
    show (perform (.boot .regenerateGrub) _ s.shared.world).2.pending = _
    rw [he]
    rfl
  · show (settle sha256 (.boot .regenerateGrub) m s).2 = _
    unfold settle
    dsimp only
    split <;> rfl
  · show (perform (.boot .regenerateGrub) (settle sha256 (.boot .regenerateGrub) m s).1
        s.shared.world).2.boot.menu = _ ∨
      ((perform (.boot .regenerateGrub) (settle sha256 (.boot .regenerateGrub) m s).1
        s.shared.world).2.boot.menu = _ ∧ _)
    cases hentry : recoveryMenuEntry sha256 { m.menu with record := storedRecord s.shared.world }
        s.recovery s.shared.world.pending with
    | error e =>
      have hsettle : (settle sha256 (.boot .regenerateGrub) m s).1 =
          { m.choice with fault := some e.message } := by
        simp only [settle, hentry]
      rw [hsettle]
      exact .inl rfl
    | ok entry =>
      have hmatches : ∀ t ∈ s.pending, Waiting t → Matches sha256 s.recovery t := by
        intro t ht hwaiting
        rw [show s.shared.world.pending = some t from ht] at hentry
        exact recoveryMenuEntry_matches hentry hwaiting
      rcases orFault_world (settle sha256 (.boot .regenerateGrub) m s).1 s.shared.world
        (s.shared.world.bootEffect (settle sha256 (.boot .regenerateGrub) m s).1
          .regenerateGrub) with he | he
      · exact .inl (congrArg (fun w => w.boot.menu) he)
      · exact .inr ⟨congrArg (fun w => w.boot.menu) he, hmatches⟩

theorem regenerate_step (m : Moment γ) (hentries : Entries s) :
    Entries (handle sha256 i (.boot .regenerateGrub) m s).2 ∧
      Respects sha256 calls i s (handle sha256 i (.boot .regenerateGrub) m s).2 := by
  obtain ⟨hpending, hrecovery, hmenu⟩ := regenerate_effect sha256 i m s
  refine ⟨⟨fun t ht => hentries.pending t (hpending ▸ ht), fun t ht => ?_⟩,
    ⟨fun t ht _ => hpending ▸ ht, fun t _ _ hmatches => by rw [hrecovery]; exact hmatches,
      hmenu.imp_right fun h => ⟨h.1, hpending, hrecovery, h.2⟩⟩⟩
  rcases hmenu with hmenu | ⟨hmenu, -⟩
  · exact hentries.menu t (hmenu ▸ ht)
  · exact hentries.pending t (hmenu ▸ ht)

/-- A step that writes the pending restore: only with a transaction of the call. -/
theorem write_step {op : RollbackOp} {m : Moment γ} {next : Option RollbackTransaction}
    (hworld : (perform (.rollback op) m.choice s.shared.world).2 =
      { s.shared.world with pending := next })
    (hnext : ∀ t ∈ next, Own calls i t ∧ t.grubEntryId = RollbackTransaction.grubEntryFor t.id)
    (hentries : Entries s) :
    Entries (handle sha256 i (.rollback op) m s).2 ∧
      Respects sha256 calls i s (handle sha256 i (.rollback op) m s).2 ∧
      (handle sha256 i (.rollback op) m s).2.pending = next ∧
      (handle sha256 i (.rollback op) m s).2.menu = s.menu ∧
      (handle sha256 i (.rollback op) m s).2.recovery = s.recovery := by
  have hpending : (handle sha256 i (.rollback op) m s).2.pending = next :=
    congrArg World.pending hworld
  have hmenu : (handle sha256 i (.rollback op) m s).2.menu = s.menu :=
    congrArg (fun w => w.boot.menu) hworld
  refine ⟨⟨fun t ht => (hnext t (hpending ▸ ht)).2, fun t ht => hentries.menu t (hmenu ▸ ht)⟩,
    ⟨fun t ht hforeign => absurd (hnext t (hpending ▸ ht)).1 hforeign,
      fun _ _ _ hmatches => hmatches, .inl hmenu⟩, hpending, hmenu, rfl⟩

/-- A step on the pending restore that leaves it alone. -/
theorem unwritten_unchanged {op : RollbackOp} {m : Moment γ}
    (hworld : (perform (.rollback op) m.choice s.shared.world).2 = s.shared.world) :
    Unchanged s (handle sha256 i (.rollback op) m s).2 :=
  ⟨congrArg World.pending hworld, congrArg (fun w => w.boot.menu) hworld, rfl⟩

end Steps

section Safety

open ScheduledRestore (Own Distinct)

variable {sha256 : γ → String} {calls : ι → Call} {hdistinct : Distinct calls} {i : ι}
variable {s : Stored ι γ} {α : Type} {target fallback : DeploymentId} {id : RollbackId}
variable {t : RollbackTransaction}

/-- The call is safe whatever the other calls do. -/
abbrev CallSafe (sha256 : γ → String) (hdistinct : Distinct calls) (i : ι)
    (p : Prog HostOp HostOp.Ans α) (post : α → Stored ι γ → Prop) (s : Stored ι γ) : Prop :=
  Safe (machine sha256) (protocol sha256 hdistinct) i p post s

/-- Both transactions record the same digests. -/
structure SameArtifacts (t t' : RollbackTransaction) : Prop where
  kernel : t'.recoveryKernelSha256 = t.recoveryKernelSha256
  initramfs : t'.recoveryInitramfsSha256 = t.recoveryInitramfsSha256
  confirm : t'.recoveryConfirmSha256 = t.recoveryConfirmSha256

theorem SameArtifacts.matches {t t' : RollbackTransaction} (h : SameArtifacts t t')
    {files : BootFiles γ} (hmatches : Matches sha256 files t) : Matches sha256 files t' where
  kernel := by rw [h.kernel]; exact hmatches.kernel
  initramfs := by rw [h.initramfs]; exact hmatches.initramfs
  confirm := by rw [h.confirm]; exact hmatches.confirm

/-- What is pending of the call has the digests of its transaction. -/
def Owns (calls : ι → Call) (i : ι) (t : RollbackTransaction) (s : Stored ι γ) : Prop :=
  ∀ t' ∈ s.pending, Own calls i t' → SameArtifacts t' t ∧ Waiting t'

/-- The transaction is published: if its entry is offered the files match. -/
def Published (sha256 : γ → String) (calls : ι → Call) (i : ι) (t : RollbackTransaction)
    (s : Stored ι γ) : Prop :=
  Owns calls i t s ∧ (Offered calls i s → Secured sha256 calls i s)

/-- The entry of the transaction was found in the menu. -/
def Verified (sha256 : γ → String) (calls : ι → Call) (i : ι) (t : RollbackTransaction)
    (s : Stored ι γ) : Prop :=
  Owns calls i t s ∧ Secured sha256 calls i s

theorem stable_absent : (protocol sha256 hdistinct).Stable i (Absent calls i) :=
  fun _ _ hexpects _ h => hexpects.absent h

theorem stable_published : (protocol sha256 hdistinct).Stable i (Published sha256 calls i t) :=
  fun _ _ hexpects _ h => ⟨fun t' ht' hown => h.1 t' (hexpects.own t' hown ht') hown,
    hexpects.offered h.2⟩

theorem stable_verified : (protocol sha256 hdistinct).Stable i (Verified sha256 calls i t) :=
  fun _ _ hexpects _ h => ⟨fun t' ht' hown => h.1 t' (hexpects.own t' hown ht') hown,
    hexpects.secured h.2⟩

theorem stable_secured : (protocol sha256 hdistinct).Stable i (Secured sha256 calls i) :=
  fun _ _ hexpects _ h => hexpects.secured h

theorem Unchanged.secured {s' : Stored ι γ} (h : Unchanged s s')
    (hsecured : Secured sha256 calls i s) : Secured sha256 calls i s' := by
  intro t ht hown hwaiting
  rw [h.recovery]
  exact hsecured t (h.pending ▸ ht) hown hwaiting

/-- A plain program keeps what an unchanged state keeps. -/
theorem safe_plain {assertion : Stored ι γ → Prop}
    (hstable : (protocol sha256 hdistinct).Stable i assertion)
    (hkept : ∀ s s' : Stored ι γ, Unchanged s s' → assertion s → assertion s')
    {p : Prog HostOp HostOp.Ans α} (hp : Within Plain p) (h : assertion s) :
    CallSafe sha256 hdistinct i p (fun _ s => assertion s) s := by
  refine Safe.of_within hstable (fun op m s hop _ _ hentries h => ?_) hp h
  have hunchanged : Unchanged s (handle sha256 i op m s).2 := plain_unchanged hop m s
  have hstep : Entries (handle sha256 i op m s).2 ∧
      Respects sha256 calls i s (handle sha256 i op m s).2 := hunchanged.step hentries
  exact ⟨hstep.1, hstep.2, hkept _ _ hunchanged h⟩

theorem kept_absent (s s' : Stored ι γ) (h : Unchanged s s') (habsent : Absent calls i s) :
    Absent calls i s' :=
  ⟨fun t ht => habsent.1 t (h.pending ▸ ht), fun t ht => habsent.2 t (h.menu ▸ ht)⟩

theorem kept_owns {s s' : Stored ι γ} (h : s'.pending = s.pending) (howns : Owns calls i t s) :
    Owns calls i t s' :=
  fun t' ht' => howns t' (h ▸ ht')

theorem kept_verified (s s' : Stored ι γ) (h : Unchanged s s')
    (hverified : Verified sha256 calls i t s) : Verified sha256 calls i t s' :=
  ⟨kept_owns h.pending hverified.1, h.secured hverified.2⟩

theorem kept_published (s s' : Stored ι γ) (h : Unchanged s s')
    (hpublished : Published sha256 calls i t s) : Published sha256 calls i t s' := by
  refine ⟨kept_owns h.pending hpublished.1, fun hoffered => h.secured (hpublished.2 ?_)⟩
  obtain ⟨t', ht', hthis⟩ := hoffered
  exact ⟨t', h.menu ▸ ht', hthis⟩

/-- Plain operations, and those on the boot files. -/
def Ordinary (op : HostOp) : Prop :=
  Plain op ∨ op = .boot .provisionArtifacts ∨ op = .boot .regenerateGrub

theorem ordinary_of_neutral {p : Prog HostOp HostOp.Ans α}
    (h : Within ScheduledRestore.Neutral p) : Within Ordinary p := by
  refine h.mono fun op hop => ?_
  cases op with
  | rollback op =>
    cases op with
    | load => exact .inl trivial
    | _ => cases hop
  | boot op =>
    cases op with
    | provisionArtifacts => exact .inr (.inl rfl)
    | regenerateGrub => exact .inr (.inr rfl)
    | _ => exact .inl trivial
  | _ => exact .inl trivial

/-- Before it publishes, a call only prepares the files. -/
theorem safe_ordinary (hcall : calls i = .schedule target id fallback)
    {p : Prog HostOp HostOp.Ans α} (hp : Within Ordinary p) (h : Absent calls i s) :
    CallSafe sha256 hdistinct i p (fun _ s => Absent calls i s) s := by
  refine Safe.of_within stable_absent (fun op m s hop hguarded _ hentries habsent => ?_) hp h
  rcases hop with hop | rfl | rfl
  · have hunchanged : Unchanged s (handle sha256 i op m s).2 := plain_unchanged hop m s
    have hstep : Entries (handle sha256 i op m s).2 ∧
        Respects sha256 calls i s (handle sha256 i op m s).2 := hunchanged.step hentries
    exact ⟨hstep.1, hstep.2, kept_absent _ _ hunchanged habsent⟩
  · obtain ⟨hentries', hrespects, hpending, hmenu⟩ := provision_step hcall hguarded hentries
    exact ⟨hentries', hrespects, fun t ht => habsent.1 t (hpending ▸ ht),
      fun t ht => habsent.2 t (hmenu ▸ ht)⟩
  · obtain ⟨hentries', hrespects⟩ := regenerate_step m hentries
    obtain ⟨hpending, -, hmenu⟩ := regenerate_effect sha256 i m s
    refine ⟨hentries', hrespects, fun t ht => habsent.1 t (hpending ▸ ht), fun t ht => ?_⟩
    rcases hmenu with hmenu | ⟨hmenu, -⟩
    · exact habsent.2 t (hmenu ▸ ht)
    · exact habsent.1 t (hmenu ▸ ht)

/-- To create the transaction publishes it, with no entry in the menu yet. -/
theorem create_safe (hown : Own calls i t)
    (hentry : t.grubEntryId = RollbackTransaction.grubEntryFor t.id) (hwaiting : Waiting t)
    (h : Absent calls i s) :
    CallSafe sha256 hdistinct i (TransactionStore.create t).run (fun r s =>
      r.isOk = true → Published sha256 calls i t s) s := by
  have hstable : ∀ r : Except TransactionError Unit, (protocol sha256 hdistinct).Stable i
      fun s => r.isOk = true → Published sha256 calls i t s :=
    fun r s s' hexpects hinv h hr => stable_published s s' hexpects hinv (h hr)
  refine safe_attempt_then hstable (safe_plain stable_absent kept_absent (within_ofExcept _) h)
    (fun _ _ _ he => by cases he) fun _ s₁ _ h₁ => ?_
  refine safe_attempt_call stable_absent h₁ fun s₂ hentries h₂ m _ _ => ?_
  rcases perform_create_cases m.choice s₂.shared.world t with ⟨hworld, hfailed⟩ | ⟨-, -, he⟩
  · have hunchanged : Unchanged s₂ (handle sha256 i (.rollback (.create t)) m s₂).2 :=
      unwritten_unchanged hworld
    have hstep : Entries (handle sha256 i (.rollback (.create t)) m s₂).2 ∧
        Respects sha256 calls i s₂ (handle sha256 i (.rollback (.create t)) m s₂).2 :=
      hunchanged.step hentries
    refine ⟨hstep.1, hstep.2, fun s₃ _ _ => ?_⟩
    rcases hfailed with ⟨e, hanswer⟩ | hanswer
    · rw [show ((machine sha256).handle i (.rollback (.create t)) m s₂).1 = .error e from hanswer]
      exact fun hr => by cases hr
    · rw [show ((machine sha256).handle i (.rollback (.create t)) m s₂).1 = .ok false from hanswer]
      exact fun hr => by cases hr
  · have hnext : ∀ t' ∈ some t, Own calls i t' ∧
        t'.grubEntryId = RollbackTransaction.grubEntryFor t'.id := by
      rintro t' ⟨⟩
      exact ⟨hown, hentry⟩
    obtain ⟨hentries', hrespects, hpending, hmenu, -⟩ :=
      @write_step _ _ sha256 _ _ _ _ m _ (congrArg Prod.snd he) hnext hentries
    have hpublished : Published sha256 calls i t
        (handle sha256 i (.rollback (.create t)) m s₂).2 := by
      refine ⟨fun t' ht' _ => ?_, fun ⟨t', ht', hthis, _⟩ => ?_⟩
      · rw [hpending] at ht'
        cases ht'
        exact ⟨⟨rfl, rfl, rfl⟩, hwaiting⟩
      · exact absurd hthis (h₂.2 t' (hmenu ▸ ht'))
    exact ⟨hentries', hrespects, fun s₃ hexpects hinv _ =>
      stable_published _ s₃ hexpects hinv hpublished⟩

theorem createTransaction_safe (hown : Own calls i t)
    (hentry : t.grubEntryId = RollbackTransaction.grubEntryFor t.id) (hwaiting : Waiting t)
    (h : Absent calls i s) :
    CallSafe sha256 hdistinct i (Rollback.createTransaction t).run (fun r s =>
      r.isOk = true → Published sha256 calls i t s) s := by
  have hstable : ∀ r : Except RollbackError Unit, (protocol sha256 hdistinct).Stable i
      fun s => r.isOk = true → Published sha256 calls i t s :=
    fun r s s' hexpects hinv h hr => stable_published s s' hexpects hinv (h hr)
  have hacquire : Within Plain Rollback.acquireStart.run := within_call _ trivial
  have hload : Within Plain (Attempt.mapError Rollback.stateCommit
      PackageTransactionStore.loadPending).run := by
    refine within_mapError (within_attempt_bind (within_call _ trivial) fun found => ?_)
    cases found with
    | none => exact within_pure _
    | some package => exact within_attempt_bind (within_ofExcept _) fun _ => within_pure _
  have hlocked : ∀ s, Absent calls i s → CallSafe sha256 hdistinct i
      (Rollback.createTransactionLocked t).run
      (fun r s => r.isOk = true → Published sha256 calls i t s) s := by
    intro s h
    refine safe_attempt_then hstable (safe_plain stable_absent kept_absent hload h)
      (fun _ _ _ he => by cases he) fun found s₁ _ h₁ => ?_
    refine safe_attempt_then hstable (safe_plain stable_absent kept_absent (within_ofExcept _) h₁)
      (fun _ _ _ he => by cases he) fun _ s₂ _ h₂ => ?_
    refine safe_mapError ((create_safe hown hentry hwaiting h₂).mono
      fun r s₃ _ h₃ s₄ hexpects hinv hr => ?_)
    cases r with
    | error e => cases hr
    | ok u => exact stable_published s₃ s₄ hexpects hinv (h₃ rfl)
  refine safe_attempt_then hstable (safe_plain stable_absent kept_absent hacquire h)
    (fun _ _ _ he => by cases he) fun _ s₁ _ h₁ => ?_
  refine safe_attempt_bind (safe_outcome ((hlocked s₁ h₁).mono fun r s₂ _ h₂ s₃ hexpects hinv => ?_))
  have hrelease : Within Plain (do
      let _ : Unit ← Attempt.call (.lock .releaseStart) fun _ => .ok ()
      Attempt.ofExcept r : Action RollbackError Unit).run :=
    within_attempt_bind (within_call _ trivial) fun _ => within_ofExcept _
  cases r with
  | error e =>
    have hyields : Yields (fun r : Except RollbackError Unit => r.isOk = false) (do
        let _ : Unit ← Attempt.call (.lock .releaseStart) fun _ => .ok ()
        Attempt.ofExcept (.error e) : Action RollbackError Unit).run :=
      fun _ => rfl
    exact ((safe_plain (fun _ _ _ _ _ => trivial) (fun _ _ _ _ => trivial) hrelease trivial).and_yields
      hyields).mono fun r _ _ h hr => by rw [h.2] at hr; cases hr
  | ok u =>
    exact (safe_plain stable_published kept_published hrelease
      (stable_published s₂ s₃ hexpects hinv (h₂ rfl))).mono fun _ _ _ h _ => h

theorem isOk_of_mapError {ε δ α : Type} {f : ε → δ} {r : Except ε α}
    (h : (r.mapError f).isOk = true) : r.isOk = true := by
  cases r with
  | ok a => rfl
  | error e => cases h

/-- The check of the generated configuration succeeds only when the entry is offered. -/
theorem menuEntry_of_verified {k : Choice} {w : World}
    (h : (perform (.boot (.verifyGrubEntry t)) k w).1.isOk = true) :
    World.menuEntry w.boot.menu = some t.grubEntryId := by
  have hperform : perform (.boot (.verifyGrubEntry t)) k w =
      orFault k w (w.bootEffect k (.verifyGrubEntry t)) := rfl
  rw [hperform] at h
  rcases orFault_cases k w (w.bootEffect k (.verifyGrubEntry t)) with ⟨e, he⟩ | he
  · rw [he] at h
    cases h
  · rw [he] at h
    by_contra hmenu
    simp only [World.bootEffect, hmenu, if_false] at h
    cases h

theorem grubEntryFor_injective : Function.Injective RollbackTransaction.grubEntryFor := by
  have happend : ∀ start a b : String, start ++ a = start ++ b → a = b := by
    intro start a b h
    have hlists := congrArg String.toList h
    rw [String.toList_append, String.toList_append, List.append_cancel_left_eq] at hlists
    exact String.toList_injective hlists
  exact fun id id' h => Uuid.hyphenated_injective (happend _ _ _ h)

/-- An entry that is found in the menu is that of the call. -/
theorem offered_of_menuEntry (hown : Own calls i t)
    (hentry : t.grubEntryId = RollbackTransaction.grubEntryFor t.id) (hentries : Entries s)
    (h : World.menuEntry s.menu = some t.grubEntryId) : Offered calls i s := by
  cases hmenu : s.menu with
  | none =>
    rw [hmenu] at h
    cases h
  | some m =>
    rw [hmenu] at h
    unfold World.menuEntry at h
    dsimp only at h
    split_ifs at h with hwaiting
    have hid : m.id = t.id := by
      refine grubEntryFor_injective ?_
      rw [← hentries.menu m hmenu, ← hentry]
      exact Option.some_inj.mp h
    refine ⟨m, hmenu, ?_, hwaiting⟩
    unfold Own
    rw [hid]
    exact hown

/-- The check of the generated configuration secures the files. -/
theorem verifyGrubEntry_safe (hown : Own calls i t)
    (hentry : t.grubEntryId = RollbackTransaction.grubEntryFor t.id)
    (h : Published sha256 calls i t s) :
    CallSafe sha256 hdistinct i (Rollback.verifyGrubEntry t).run (fun r s =>
      r.isOk = true → Verified sha256 calls i t s) s := by
  refine safe_attempt_call stable_published h fun s₁ hentries h₁ m _ _ => ?_
  have hplain : Plain (.boot (.verifyGrubEntry t)) := trivial
  have hunchanged : Unchanged s₁ (handle sha256 i (.boot (.verifyGrubEntry t)) m s₁).2 :=
    plain_unchanged hplain m s₁
  have hstep : Entries (handle sha256 i (.boot (.verifyGrubEntry t)) m s₁).2 ∧
      Respects sha256 calls i s₁ (handle sha256 i (.boot (.verifyGrubEntry t)) m s₁).2 :=
    hunchanged.step hentries
  refine ⟨hstep.1, hstep.2, fun s₂ hexpects hinv hr => ?_⟩
  have hanswer : ((machine sha256).handle i (.boot (.verifyGrubEntry t)) m s₁).1.isOk = true :=
    isOk_of_mapError hr
  have hoffered : Offered calls i s₁ :=
    offered_of_menuEntry hown hentry hentries (menuEntry_of_verified hanswer)
  have hverified : Verified sha256 calls i t (handle sha256 i (.boot (.verifyGrubEntry t)) m s₁).2 :=
    kept_verified _ _ hunchanged ⟨h₁.1, h₁.2 hoffered⟩
  exact stable_verified _ s₂ hexpects hinv hverified

/-- An update that finds the transaction of the call leaves the files alone. -/
theorem updateTransaction_safe {armed : RollbackTransaction}
    (hcall : calls i = .schedule target id fallback) (hown : Own calls i armed)
    (hentry : armed.grubEntryId = RollbackTransaction.grubEntryFor armed.id)
    (hsame : SameArtifacts t armed) (hwaiting : Waiting armed) (h : Verified sha256 calls i t s) :
    CallSafe sha256 hdistinct i (Rollback.updateTransaction armed).run
      (fun _ s => Verified sha256 calls i t s) s := by
  refine safe_mapError ?_
  have hupdate : CallSafe sha256 hdistinct i (TransactionStore.update armed).run
      (fun _ s => Verified sha256 calls i t s) s := by
    refine safe_attempt_then (fun _ => stable_verified)
      (safe_plain stable_verified kept_verified (within_ofExcept _) h) (fun _ _ h => h)
      fun _ s₁ _ h₁ => ?_
    refine safe_attempt_call stable_verified h₁ fun s₂ hentries h₂ m _ hguarded => ?_
    have hcan : m.choice.fault.isSome ∨ ∀ t ∈ s₂.pending, t.id = id := by
      have hguarded' : Guarded sha256 calls i (.rollback (.replace armed)) m s₂ := hguarded
      simpa only [Guarded, hcall] using hguarded'
    rcases perform_replace_cases m.choice s₂.shared.world armed with
      ⟨hworld, -⟩ | ⟨hfault, hsome, he⟩
    · have hunchanged : Unchanged s₂ (handle sha256 i (.rollback (.replace armed)) m s₂).2 :=
        unwritten_unchanged hworld
      have hstep : Entries (handle sha256 i (.rollback (.replace armed)) m s₂).2 ∧
          Respects sha256 calls i s₂ (handle sha256 i (.rollback (.replace armed)) m s₂).2 :=
        hunchanged.step hentries
      exact ⟨hstep.1, hstep.2, fun s₃ hexpects hinv =>
        stable_verified _ s₃ hexpects hinv (kept_verified _ _ hunchanged h₂)⟩
    · obtain ⟨found, hfound⟩ := Option.ne_none_iff_exists'.mp hsome
      have hthis : Own calls i found := by
        rw [hfault] at hcan
        refine (ScheduledRestore.own_iff hcall found).mpr ?_
        exact hcan.resolve_left (by simp) found hfound
      have hnext : ∀ t' ∈ some armed, Own calls i t' ∧
          t'.grubEntryId = RollbackTransaction.grubEntryFor t'.id := by
        rintro t' ⟨⟩
        exact ⟨hown, hentry⟩
      obtain ⟨hentries', hrespects, hpending, -, hrecovery⟩ :=
        @write_step _ _ sha256 _ _ _ _ m _ (congrArg Prod.snd he) hnext hentries
      obtain ⟨hfoundSame, hfoundWaiting⟩ := h₂.1 found hfound hthis
      have hverified : Verified sha256 calls i t
          (handle sha256 i (.rollback (.replace armed)) m s₂).2 := by
        refine ⟨fun t' ht' _ => ?_, fun t' ht' _ _ => ?_⟩
        · rw [hpending] at ht'
          cases ht'
          exact ⟨⟨hsame.kernel.symm, hsame.initramfs.symm, hsame.confirm.symm⟩, hwaiting⟩
        · rw [hpending] at ht'
          cases ht'
          rw [hrecovery]
          exact hsame.matches (hfoundSame.matches (h₂.2 found hfound hthis hfoundWaiting))
      exact ⟨hentries', hrespects, fun s₃ hexpects hinv =>
        stable_verified _ s₃ hexpects hinv hverified⟩
  exact hupdate.mono fun _ s₁ _ h₁ s₂ hexpects hinv => stable_verified s₁ s₂ hexpects hinv h₁

/-- What holds when a scheduling call returns, from then on. -/
def Armed (sha256 : γ → String) (calls : ι → Call) (i : ι)
    (r : Except RollbackError RollbackTransaction) (s : Stored ι γ) : Prop :=
  ∀ armed, r = .ok armed → Own calls i armed ∧ armed.phase = .armed ∧ Secured sha256 calls i s

theorem stable_armed (r : Except RollbackError RollbackTransaction) :
    (protocol sha256 hdistinct).Stable i (Armed sha256 calls i r) :=
  fun s s' hexpects hinv h armed hr =>
    ⟨(h armed hr).1, (h armed hr).2.1, stable_secured s s' hexpects hinv (h armed hr).2.2⟩

theorem armed_error (e : RollbackError) (s : Stored ι γ) : Armed sha256 calls i (.error e) s :=
  fun _ hr => by cases hr

theorem publish_safe (hcall : calls i = .schedule target id fallback) (hown : Own calls i t)
    (hentry : t.grubEntryId = RollbackTransaction.grubEntryFor t.id) (hwaiting : Waiting t)
    (h : Absent calls i s) :
    CallSafe sha256 hdistinct i (Rollback.publish t).run (Armed sha256 calls i) s := by
  have hnow : Within Plain (utcNow : Action RollbackError Timestamp).run := within_call _ trivial
  have harm : Within Plain Rollback.armOnce.run := within_call _ trivial
  refine safe_attempt_then stable_armed (createTransaction_safe hown hentry hwaiting h)
    (fun e s _ => armed_error e s) fun _ s₁ _ h₁ => ?_
  have hregenerate : CallSafe sha256 hdistinct i Rollback.regenerateGrub.run
      (fun _ s => Published sha256 calls i t s) s₁ := by
    refine safe_attempt_call stable_published (h₁ rfl) fun s₂ hentries h₂ m _ _ => ?_
    obtain ⟨hentries', hrespects⟩ := regenerate_step m hentries
    obtain ⟨hpending, hrecovery, hmenu⟩ := regenerate_effect sha256 i m s₂
    have hpublished : Published sha256 calls i t (handle sha256 i (.boot .regenerateGrub) m s₂).2 := by
      refine ⟨kept_owns hpending h₂.1, fun hoffered => ?_⟩
      rcases hmenu with hmenu | ⟨-, hmatches⟩
      · obtain ⟨t', ht', hthis⟩ := hoffered
        exact hrespects.secured (fun t _ ht => hpending ▸ ht) (h₂.2 ⟨t', hmenu ▸ ht', hthis⟩)
      · intro t' ht' _ hwaiting'
        rw [hrecovery]
        exact hmatches t' (hpending ▸ ht') hwaiting'
    exact ⟨hentries', hrespects, fun s₃ hexpects hinv =>
      stable_published _ s₃ hexpects hinv hpublished⟩
  refine safe_attempt_then stable_armed hregenerate (fun e s _ => armed_error e s)
    fun _ s₂ _ h₂ => ?_
  refine safe_attempt_then stable_armed (verifyGrubEntry_safe hown hentry h₂)
    (fun e s _ => armed_error e s) fun _ s₃ _ h₃ => ?_
  refine safe_attempt_then stable_armed (safe_plain stable_verified kept_verified hnow (h₃ rfl))
    (fun e s _ => armed_error e s) fun now s₄ _ h₄ => ?_
  cases htransition : t.transition .armed now with
  | error e =>
    exact safe_throw stable_armed (armed_error _ _)
  | ok armed =>
    obtain ⟨-, -, harmed⟩ := RollbackTransaction.transition_eq_ok htransition
    have hown' : Own calls i armed := by
      rw [harmed]
      exact hown
    have hphase : armed.phase = .armed := by rw [harmed]
    have hentry' : armed.grubEntryId = RollbackTransaction.grubEntryFor armed.id := by
      rw [harmed]
      exact hentry
    have hsame : SameArtifacts t armed := by
      rw [harmed]
      exact ⟨rfl, rfl, rfl⟩
    refine safe_passed rfl (safe_attempt_then stable_armed
      (updateTransaction_safe hcall hown' hentry' hsame (.inr hphase) h₄)
      (fun e s _ => armed_error e s) fun _ s₅ _ h₅ => ?_)
    refine safe_attempt_then stable_armed (safe_plain stable_verified kept_verified harm h₅)
      (fun e s _ => armed_error e s) fun entry s₆ _ h₆ => ?_
    refine safe_attempt_then stable_armed
      (safe_plain stable_verified kept_verified (within_ofExcept _) h₆)
      (fun e s _ => armed_error e s) fun _ s₇ _ h₇ => ?_
    refine safe_pure stable_armed ?_
    rintro _ ⟨⟩
    exact ⟨hown', hphase, h₇.2⟩

/-- What the cleanup after a failure does. -/
def Cleans (op : HostOp) : Prop :=
  Plain op ∨ op = .rollback .remove ∨ op = .boot .regenerateGrub

theorem cleanup_safe {p : Prog HostOp HostOp.Ans α} (hp : Within Cleans p) :
    CallSafe sha256 hdistinct i p (fun _ _ => True) s := by
  refine Safe.of_within (fun _ _ _ _ _ => trivial) (fun op m s hop _ _ hentries _ => ?_) hp trivial
  rcases hop with hop | rfl | rfl
  · have hunchanged : Unchanged s (handle sha256 i op m s).2 := plain_unchanged hop m s
    have hstep : Entries (handle sha256 i op m s).2 ∧
        Respects sha256 calls i s (handle sha256 i op m s).2 := hunchanged.step hentries
    exact ⟨hstep.1, hstep.2, trivial⟩
  · have hworld : (perform (.rollback .remove) m.choice s.shared.world).2 = s.shared.world ∨
        (perform (.rollback .remove) m.choice s.shared.world).2 =
          { s.shared.world with pending := none } :=
      orFault_world m.choice s.shared.world (s.shared.world.rollbackEffect .remove)
    rcases hworld with hworld | hworld
    · have hunchanged : Unchanged s (handle sha256 i (.rollback .remove) m s).2 :=
        unwritten_unchanged hworld
      have hstep : Entries (handle sha256 i (.rollback .remove) m s).2 ∧
          Respects sha256 calls i s (handle sha256 i (.rollback .remove) m s).2 :=
        hunchanged.step hentries
      exact ⟨hstep.1, hstep.2, trivial⟩
    · obtain ⟨hentries', hrespects, -⟩ := @write_step _ _ sha256 calls i s _ m none hworld
        (fun t ht => by cases ht) hentries
      exact ⟨hentries', hrespects, trivial⟩
  · obtain ⟨hentries', hrespects⟩ := regenerate_step m hentries
    exact ⟨hentries', hrespects, trivial⟩

theorem within_cleanupFailedSchedule : Within Cleans Rollback.cleanupFailedSchedule.run :=
  within_attempt_bind (within_outcome (within_call _ (.inl trivial))) fun _ =>
    within_attempt_bind (within_outcome (within_mapError (within_call _ (.inr (.inl rfl)))))
      fun _ =>
    within_attempt_bind (within_outcome (within_call _ (.inr (.inr rfl)))) fun _ =>
    within_ofExcept _

theorem schedule_safe (hcall : calls i = .schedule target id fallback) (h : Absent calls i s) :
    CallSafe sha256 hdistinct i (Rollback.schedule target id fallback).run
      (Armed sha256 calls i) s := by
  have hnow : Within Ordinary (utcNow : Action RollbackError Timestamp).run :=
    within_call _ (.inl trivial)
  refine safe_attempt_then stable_armed
    (safe_ordinary hcall (ordinary_of_neutral (ScheduledRestore.neutral_prepare target)) h)
    (fun e s _ => armed_error e s) fun prepared s₁ _ h₁ => ?_
  refine safe_attempt_then stable_armed
    (safe_ordinary hcall (ordinary_of_neutral (ScheduledRestore.neutral_createFallback fallback)) h₁)
    (fun e s _ => armed_error e s) fun created s₂ _ h₂ => ?_
  refine safe_attempt_then stable_armed (safe_ordinary hcall hnow h₂)
    (fun e s _ => armed_error e s) fun now s₃ _ h₃ => ?_
  obtain ⟨record, rootUuid, artifacts⟩ := prepared
  have hpublish : CallSafe sha256 hdistinct i (Rollback.publish (RollbackTransaction.new id now
      record.id created.id rootUuid artifacts.kernelRelease artifacts.kernelSha256
      artifacts.initramfsSha256 artifacts.confirmSha256)).run (Armed sha256 calls i) s₃ :=
    publish_safe hcall ((ScheduledRestore.own_iff hcall _).mpr rfl) rfl (.inl rfl) h₃
  refine safe_attempt_bind (safe_outcome (hpublish.mono fun r s₄ _ h₄ s₅ hexpects hinv => ?_))
  have h₅ := stable_armed r s₄ s₅ hexpects hinv h₄
  cases r with
  | ok armed => exact safe_pure stable_armed h₅
  | error e =>
    have hcleanup : CallSafe sha256 hdistinct i (Attempt.outcome Rollback.cleanupFailedSchedule :
        Action RollbackError _).run (fun _ _ => True) s₅ :=
      cleanup_safe (within_outcome within_cleanupFailedSchedule)
    exact safe_attempt_then stable_armed hcleanup (fun e s _ => armed_error e s)
      fun _ _ _ _ => safe_throw stable_armed (armed_error _ _)

end Safety

section Results

open ScheduledRestore (Own Distinct)

variable {sha256 : γ → String} {calls : ι → Call}

/-- What a scheduling call has established holds of its result from then on. -/
def Settled (sha256 : γ → String) (calls : ι → Call) (i : ι) (r : CallResult)
    (s : Stored ι γ) : Prop :=
  match r with
  | .scheduled r => Armed sha256 calls i r s
  | .finished => True

/-- In every interleaving of guarded steps, while the transaction of a call that returned is
pending the files in `recovery-boot` have the digests that it recorded, and the generation
of its entry finds no mismatch. -/
theorem armed_restore_matches_files [DecidableEq ι] {w₀ : World} (h : Initial calls w₀)
    {files : BootFiles γ} {c : Config ι HostOp HostOp.Ans CallResult (Stored ι γ)}
    (hreaches : Reaches (machine sha256) (Guarded sha256 calls) (start calls w₀ files) c)
    {i : ι} {t : RollbackTransaction} (hdone : c.threads i = .done (.scheduled (.ok t)))
    (hpending : c.state.shared.world.pending = some t) :
    t.phase = .armed ∧ Matches sha256 c.state.recovery t ∧
      verifyArtifacts sha256 c.state.recovery t = .ok () := by
  have hentries : Entries (start calls w₀ files).state := ⟨h.pendingEntry, h.menuEntry⟩
  have hsafe : ∀ i, CallSafe sha256 h.distinct i ((start calls w₀ files).threads i)
      (Settled sha256 calls i) (start calls w₀ files).state := by
    intro i
    obtain ⟨target, id, fallback, hcall⟩ := h.kinds i
    have habsent : Absent calls i (start calls w₀ files).state :=
      ⟨fun t ht => h.freshPending t ht i, fun t ht => h.freshMenu t ht i⟩
    show CallSafe sha256 h.distinct i (calls i).program _ _
    rw [hcall]
    refine safe_bind ((schedule_safe hcall habsent).mono fun r s _ hr => safe_done ?_ hr)
    intro r s s' hexpects _ hs
    cases r with
    | scheduled r =>
      cases r with
      | error e => exact armed_error e s'
      | ok armed =>
        intro t ht
        obtain ⟨hown, hphase, hsecured⟩ := hs t ht
        exact ⟨hown, hphase, hexpects.secured hsecured⟩
    | finished => trivial
  have hsettled : Settled sha256 calls i (.scheduled (.ok t)) c.state :=
    Safe.result (P := protocol sha256 h.distinct) hreaches hentries hsafe hdone
  obtain ⟨hown, hphase, hsecured⟩ := hsettled t rfl
  have hmatches := hsecured t hpending hown (.inr hphase)
  exact ⟨hphase, hmatches, verifyArtifacts_eq_ok.mpr hmatches⟩

end Results

section Instance

open ScheduledRestore (twoCalls twoCalls_distinct idleWorld preparation publication isScheduled
  done_of_isScheduled)

instance (t : RollbackTransaction) : Decidable (Waiting t) :=
  inferInstanceAs (Decidable (_ ∨ _))

instance (sha256 : γ → String) (m : Moment γ) (t : RollbackTransaction) :
    Decidable (Harmless sha256 m t) :=
  decidable_of_iff ((0 < m.placed → m.system.kernel.map sha256 = some t.recoveryKernelSha256) ∧
    (1 < m.placed → m.system.initramfs.map sha256 = some t.recoveryInitramfsSha256) ∧
    (2 < m.placed → m.system.confirm.map sha256 = some t.recoveryConfirmSha256))
    ⟨fun ⟨hkernel, hinitramfs, hconfirm⟩ => ⟨hkernel, hinitramfs, hconfirm⟩,
      fun h => ⟨h.kernel, h.initramfs, h.confirm⟩⟩

/-- The condition of a step, evaluated. -/
def guarded (sha256 : γ → String) (calls : ι → Call) (i : ι) (op : HostOp) (m : Moment γ)
    (s : Stored ι γ) : Bool :=
  match calls i, op with
  | .schedule _ _ _, .boot .provisionArtifacts =>
    m.choice.fault.isSome || decide (∀ t ∈ s.pending, Waiting t → Harmless sha256 m t)
  | .schedule _ id _, .rollback (.replace _) =>
    m.choice.fault.isSome || decide (∀ t ∈ s.pending, t.id = id)
  | _, _ => true

theorem guarded_iff (sha256 : γ → String) (calls : ι → Call) (i : ι) (op : HostOp) (m : Moment γ)
    (s : Stored ι γ) : guarded sha256 calls i op m s = true ↔ Guarded sha256 calls i op m s := by
  unfold guarded Guarded
  split <;> simp

instance (sha256 : γ → String) (calls : ι → Call) (i : ι) (op : HostOp) (m : Moment γ)
    (s : Stored ι γ) : Decidable (Guarded sha256 calls i op m s) :=
  decidable_of_iff _ (guarded_iff sha256 calls i op m s)

/-- Files whose contents are a digit, and a digest of 64 characters. -/
def digitDigest (content : Fin 16) : String :=
  String.ofList (List.replicate 64 (Uuid.hexDigit content))

def filesOf (content : Fin 16) : BootFiles (Fin 16) :=
  ⟨some content, some content, some content⟩

/-- A step that succeeds while the system has these files. -/
def momentOf (content : Fin 16) (choice : Choice) : Moment (Fin 16) where
  choice := choice
  release := "6.12.0"
  system := filesOf content
  fault := none
  menu := ⟨fun _ => .error "", .ok (), .ok (), .ok⟩

theorem twoCalls_initial : Initial twoCalls idleWorld where
  kinds i := by
    fin_cases i
    · exact ⟨_, _, _, rfl⟩
    · exact ⟨_, _, _, rfl⟩
  distinct := twoCalls_distinct
  freshPending := fun t ht => by cases ht
  freshMenu := fun t ht => by cases ht
  pendingEntry := fun t ht => by cases ht
  menuEntry := fun t ht => by cases ht

local instance neZero_two : NeZero 2 := ⟨Nat.succ_ne_zero 1⟩

/-- The call has returned and its transaction is pending. -/
def isPending (c : Config (Fin 2) HostOp HostOp.Ans CallResult (Stored (Fin 2) (Fin 16))) : Bool :=
  match c.threads 0 with
  | .done (.scheduled (.ok t)) => c.state.shared.world.pending == some t
  | _ => false

theorem exists_of_isPending
    {c : Config (Fin 2) HostOp HostOp.Ans CallResult (Stored (Fin 2) (Fin 16))}
    (h : isPending c = true) : ∃ t, c.threads 0 = .done (.scheduled (.ok t)) ∧
      c.state.shared.world.pending = some t := by
  unfold isPending at h
  split at h
  · exact ⟨_, ‹_›, by simpa using h⟩
  · cases h

theorem scheduled_runs :
    ((start twoCalls idleWorld (filesOf 1)).runTurns (machine digitDigest)
      (Guarded digitDigest twoCalls) [(0, (preparation ++ publication).map (momentOf 2))]).any
      isPending = true := by
  decide +kernel

/-- A call that meets no other call arms a restore whose files match. -/
theorem armed_restore_matches_files_alone :
    ∃ c t, Reaches (machine digitDigest) (Guarded digitDigest twoCalls)
        (start twoCalls idleWorld (filesOf 1)) c ∧
      c.state.shared.world.pending = some t ∧ Matches digitDigest c.state.recovery t := by
  obtain ⟨c, hrun, hfinished⟩ := (Option.any_eq_true _ _).mp scheduled_runs
  obtain ⟨t, hdone, hpending⟩ := exists_of_isPending hfinished
  have hreaches := reaches_runTurns hrun
  exact ⟨c, t, hreaches, hpending,
    (armed_restore_matches_files twoCalls_initial hreaches hdone hpending).2.1⟩

theorem overwritten_runs :
    ((start twoCalls idleWorld (filesOf 1)).runTurns (machine digitDigest) (fun _ _ _ _ => True)
      [(1, (preparation.take 17).map (momentOf 2)),
        (0, (preparation ++ publication).map (momentOf 2)),
        (1, [momentOf 3 RollbackSafety.success])]).any (fun c =>
          isPending c && (c.state.recovery == filesOf 3) &&
            c.state.shared.world.pending.any fun t => t.recoveryKernelSha256 == digitDigest 2) =
      true := by
  decide +kernel

/-- A second call, which found nothing pending, provisions regenerated files after the first
has returned. -/
theorem armed_restore_loses_files :
    ¬ ∀ c, Reaches (machine digitDigest) (fun _ _ _ _ => True)
        (start twoCalls idleWorld (filesOf 1)) c →
      ∀ t, c.threads 0 = .done (.scheduled (.ok t)) → c.state.shared.world.pending = some t →
        Matches digitDigest c.state.recovery t := by
  intro hmatches
  obtain ⟨c, hrun, hlost⟩ := (Option.any_eq_true _ _).mp overwritten_runs
  rw [Bool.and_eq_true, Bool.and_eq_true, beq_iff_eq] at hlost
  obtain ⟨⟨hfinished, hfiles⟩, hdigest⟩ := hlost
  obtain ⟨t, hdone, hpending⟩ := exists_of_isPending hfinished
  have hkernel := (hmatches c (reaches_runTurns hrun) t hdone hpending).kernel
  rw [hpending, Option.any_some, beq_iff_eq] at hdigest
  rw [hfiles, hdigest] at hkernel
  revert hkernel
  decide +kernel

end Instance

end ArmedArtifacts

end RecoveryEngine
