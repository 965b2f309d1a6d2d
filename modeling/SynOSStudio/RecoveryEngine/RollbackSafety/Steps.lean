import SynOSStudio.RecoveryEngine.Confirmation
import SynOSStudio.RecoveryEngine.RootLayout

/-!
# The invariant of a restore

The invariant ties the phase of the stored transaction to the layout of the root
subvolumes: before anything is applied and after a revert is recorded the layout
is untouched, an unconfirmed boot has the activated one, and only while applying
or reverting can any of the four be found. The lemmas say what each operation of
the engines does to what a program knows of the state.
-/

namespace RecoveryEngine

open InterruptiblePrograms

namespace RollbackSafety

abbrev Log := List (Entry HostOp HostOp.Ans)

abbrev State := World × Log

/-- The phase that a performed operation made durable. -/
def storedPhase : Entry HostOp HostOp.Ans → Option RollbackPhase
  | ⟨.rollback (.create t), r⟩ =>
    match (r : Except String Bool) with
    | .ok true => some t.phase
    | _ => none
  | ⟨.rollback (.replace t), r⟩ =>
    match (r : Except String Bool) with
    | .ok true => some t.phase
    | _ => none
  | _ => none

def Stored (phase : RollbackPhase) (log : Log) : Prop :=
  ∃ entry ∈ log, storedPhase entry = some phase

/-- The commands by which `apply` puts the target in place. -/
def IsApply (R : Restore) : HostOp → Prop
  | .disk (.snapshotDeployment _ _) => True
  | .disk (.rename source destination) =>
    (source = rootName ∧ destination = R.old) ∨ (source = R.new ∧ destination = rootName)
  | _ => False

/-- Once a reverting phase is stored, no command of `apply` follows. -/
def NoApplyAfterRevert (R : Restore) (log : Log) : Prop :=
  ∀ before entry after, log = before ++ entry :: after → IsApply R entry.1 →
    ¬ Stored .reverting before

/-- The operations that change neither the pending transaction nor the volume. -/
def Quiet : HostOp → Prop
  | .rollback .load | .rollback (.archive _) => True
  | .rollback _ => False
  | .disk op =>
    match op with
    | .snapshotDeployment _ _ | .rename _ _ | .delete _ | .deleteDescendant _ _
    | .createDirectory _ | .removeDirectory _ | .snapshotSystem _ | .deleteSnapshot _ => False
    | _ => True
  | _ => True

theorem perform_quiet {op : HostOp} (h : Quiet op) (k : Choice) (w : World) :
    (perform op k w).2.pending = w.pending ∧ (perform op k w).2.disk = w.disk := by
  cases op with
  | now => exact ⟨rfl, rfl⟩
  | disk op =>
    have heffect : (w.diskEffect k op).2 = w := by
      cases op <;> simp only [Quiet] at h <;> simp only [World.diskEffect, Disk.effect] <;>
        split <;> rfl
    rcases orFault_world k w (w.diskEffect k op) with hw | hw <;> simp [perform, hw, heffect]
  | record op => obtain ⟨_, h⟩ := perform_record k w op; simp [h]
  | lineage mutation => obtain ⟨_, h⟩ := perform_lineage k w mutation; simp [h]
  | rollback op =>
    have heffect : (w.rollbackEffect op).2.pending = w.pending ∧
        (w.rollbackEffect op).2.disk = w.disk := by
      cases op <;> simp only [Quiet] at h <;> exact ⟨rfl, rfl⟩
    rcases orFault_world k w (w.rollbackEffect op) with hw | hw <;> simp [perform, hw, heffect]
  | package op => obtain ⟨_, _, h⟩ := perform_package k w op; simp [h]
  | cleanup op => obtain ⟨_, h⟩ := perform_cleanup k w op; simp [h]
  | boot op => obtain ⟨_, h⟩ := perform_boot k w op; simp [h]
  | lock op => obtain ⟨_, h⟩ := perform_lock k w op; simp [h]

section Invariant

variable (R : Restore)

/-- What a program knows between two operations: the pending record and the volume.
The flag is true once a reverting phase may have been stored. -/
structure Here (pending : Option RollbackTransaction) (disk : Disk) (reverting : Bool)
    (s : State) : Prop where
  pending_eq : s.1.pending = pending
  disk_eq : s.1.disk = disk
  stored : Stored .reverting s.2 → reverting = true
  order : NoApplyAfterRevert R s.2

/-- The layouts that a stored phase allows; a stored confirmation ends the invariant. -/
def Consistent : Option RollbackPhase → RootLayout → Prop
  | some .applying, _ | some .reverting, _ => True
  | some .bootedUnconfirmed, layout => layout = .activated
  | some .confirmed, _ => False
  | _, layout => layout = .untouched

structure Owned (t : RollbackTransaction) : Prop where
  id : t.id = R.id
  target : t.targetDeploymentId = R.target

/-- The invariant on the pending record and the volume. -/
structure Sound (pending : Option RollbackTransaction) (disk : Disk) (reverting : Bool) :
    Prop where
  owned : ∀ t ∈ pending, Owned R t
  layout : ∃ layout : RootLayout, layout.Holds R disk ∧
    Consistent (pending.map RollbackTransaction.phase) layout
  kept : R.Kept disk
  reverted : reverting = true → ∀ t ∈ pending, t.phase = .reverting ∨ t.phase = .reverted

/-- The invariant of a run; it ends when a confirmation is stored. -/
def Safe (s : State) : Prop :=
  Stored .confirmed s.2 ∨ ∃ pending disk reverting,
    Here R pending disk reverting s ∧ Sound R pending disk reverting

abbrev Always {α : Type} (p : Prog HostOp HostOp.Ans α) (post : α → State → Prop) (s : State) :
    Prop :=
  Keeps (logged perform) (fun _ => True) (Safe R) p post s

end Invariant

variable {R : Restore}

theorem Here.safe {pending : Option RollbackTransaction} {disk : Disk} {reverting : Bool}
    {s : State} (h : Here R pending disk reverting s) (hs : Sound R pending disk reverting) :
    Safe R s :=
  .inr ⟨_, _, _, h, hs⟩

section Logs

theorem eq_of_append_singleton {α : Type} {log before after : List α} {e e' : α}
    (h : log ++ [e] = before ++ e' :: after) :
    (before = log ∧ e' = e) ∨ ∃ rest, log = before ++ e' :: rest := by
  rcases List.eq_nil_or_concat after with rfl | ⟨rest, last, rfl⟩
  · obtain ⟨h₁, h₂⟩ := List.append_inj' h rfl
    exact .inl ⟨h₁.symm, by simpa using h₂.symm⟩
  · have h' : log ++ [e] = (before ++ e' :: rest) ++ [last] := by simpa using h
    exact .inr ⟨rest, (List.append_inj' h' rfl).1⟩

theorem noApplyAfterRevert_append {log : Log} {entry : Entry HostOp HostOp.Ans}
    (h : NoApplyAfterRevert R log) (he : IsApply R entry.1 → ¬ Stored .reverting log) :
    NoApplyAfterRevert R (log ++ [entry]) := by
  intro before entry' after heq happly
  rcases eq_of_append_singleton heq with ⟨rfl, rfl⟩ | ⟨rest, hlog⟩
  · exact he happly
  · exact h before entry' rest hlog happly

theorem stored_append {phase : RollbackPhase} {log : Log} {entry : Entry HostOp HostOp.Ans} :
    Stored phase (log ++ [entry]) ↔ Stored phase log ∨ storedPhase entry = some phase := by
  simp [Stored, or_and_right, exists_or]

theorem storedPhase_quiet {op : HostOp} (h : Quiet op) (r : op.Ans) :
    storedPhase ⟨op, r⟩ = none := by
  cases op with
  | rollback op => cases op <;> simp_all [Quiet, storedPhase]
  | _ => rfl

theorem not_isApply_of_quiet {op : HostOp} (h : Quiet op) : ¬ IsApply R op := by
  cases op with
  | disk op => cases op <;> simp_all [Quiet, IsApply]
  | _ => simp [IsApply]

end Logs

section Operations

variable {pending : Option RollbackTransaction} {disk : Disk} {reverting : Bool} {s : State}

theorem Here.quiet {op : HostOp} (h : Here R pending disk reverting s) (hq : Quiet op)
    (k : Choice) : Here R pending disk reverting (logged perform op k s).2 := by
  obtain ⟨hp, hd⟩ := perform_quiet hq k s.1
  refine ⟨hp.trans h.pending_eq, hd.trans h.disk_eq, fun hstored => ?_,
    noApplyAfterRevert_append h.order fun happly => absurd happly (not_isApply_of_quiet hq)⟩
  rcases stored_append.mp hstored with hlog | hentry
  · exact h.stored hlog
  · simp [storedPhase_quiet hq] at hentry

/-- A program of quiet operations leaves everything as it was. -/
theorem quiet_spec {α : Type} {p : Prog HostOp HostOp.Ans α}
    (h : Here R pending disk reverting s) (hs : Sound R pending disk reverting)
    (hp : Within Quiet p) : Always R p (fun _ s' => Here R pending disk reverting s') s :=
  Keeps.of_within (fun _ k _ hq _ h => h.quiet hq k) (fun _ h => h.safe hs) hp h

/-- After a confirmation is stored nothing is left to keep. -/
theorem confirmed_spec {α : Type} {p : Prog HostOp HostOp.Ans α} (h : Stored .confirmed s.2) :
    Always R p (fun _ s' => Safe R s') s := by
  have hkept : Always R p (fun _ s' => Stored .confirmed s'.2) s :=
    Keeps.of_within (fun _ _ _ _ _ h => stored_append.mpr (.inl h)) (fun _ => .inl)
      (within_true p) h
  exact hkept.mono fun _ _ => .inl

/-- A command on the volume either fails without effect or changes the volume as the
Btrfs model says. A command of `apply` is only given before a revert is stored. -/
theorem Here.command {op : DiskOp} (h : Here R pending disk reverting s)
    (happly : IsApply R (.disk op) → reverting = false) (k : Choice) :
    (∃ e, (logged perform (.disk op) k s).1 = .error e ∧
      Here R pending disk reverting (logged perform (.disk op) k s).2) ∨
    ∃ uuid text, (logged perform (.disk op) k s).1 = (disk.effect uuid text op).1 ∧
      Here R pending (disk.effect uuid text op).2 reverting (logged perform (.disk op) k s).2 := by
  have hstored : Stored .reverting (s.2 ++ [⟨.disk op, (perform (.disk op) k s.1).1⟩]) →
      reverting = true := by
    intro hst
    rcases stored_append.mp hst with hlog | hentry
    · exact h.stored hlog
    · simp [storedPhase] at hentry
  have horder : NoApplyAfterRevert R (s.2 ++ [⟨.disk op, (perform (.disk op) k s.1).1⟩]) := by
    refine noApplyAfterRevert_append h.order fun ha hst => ?_
    have hfalse := happly ha
    simp [h.stored hst] at hfalse
  cases hk : k.fault with
  | some e =>
    refine .inl ⟨e, ?_, ?_, ?_, hstored, horder⟩
    · simp only [logged, perform, orFault, hk]
      rfl
    · simpa [logged, perform, orFault, hk] using h.pending_eq
    · simpa [logged, perform, orFault, hk] using h.disk_eq
  | none =>
    refine .inr ⟨k.uuid, k.text, ?_, ?_, ?_, hstored, horder⟩
    · simp only [logged, perform, orFault, hk, World.diskEffect, h.disk_eq]
      rfl
    · simpa [logged, perform, orFault, hk, World.diskEffect] using h.pending_eq
    · simp [logged, perform, orFault, hk, World.diskEffect, h.disk_eq]

theorem disk_spec {ε α : Type} {op : DiskOp} (view : Except String op.Result → Except ε α)
    (h : Here R pending disk reverting s) (hs : Sound R pending disk reverting)
    (happly : IsApply R (.disk op) → reverting = false) :
    Always R (Attempt.call (.disk op) view : Action ε α).run (fun r s' =>
      (∃ e, r = view (.error e) ∧ Here R pending disk reverting s') ∨
      ∃ uuid text, r = view (disk.effect uuid text op).1 ∧
        Here R pending (disk.effect uuid text op).2 reverting s') s := by
  refine (keeps_attempt_call _ _ _ _).mpr ⟨h.safe hs, fun k _ => ?_⟩
  rcases h.command happly k with ⟨e, he, h'⟩ | ⟨uuid, text, he, h'⟩
  · exact .inl ⟨e, congrArg view he, h'⟩
  · exact .inr ⟨uuid, text, congrArg view he, h'⟩

/-- Reading a name at the top level answers from the volume. -/
theorem realDirectory_spec (name : String) (h : Here R pending disk reverting s)
    (hs : Sound R pending disk reverting) :
    Always R (Recovery.realDirectory name).run (fun r s' => Here R pending disk reverting s' ∧
      ∀ present, r = .ok present → present = (disk.top name).isSome) s := by
  refine (disk_spec _ h hs (by simp [IsApply])).mono fun r s' hr => ?_
  rcases hr with ⟨e, rfl, h'⟩ | ⟨uuid, text, rfl, h'⟩
  · exact ⟨h', fun present hp => by simp [Except.mapError] at hp⟩
  · exact ⟨h', fun present hp => (Except.ok.inj hp).symm⟩

/-- Storing a changed record of the same restore. -/
theorem update_spec {t t' : RollbackTransaction} (h : Here R (some t) disk reverting s)
    (hs : Sound R (some t) disk reverting) :
    Always R (TransactionStore.update t').run (fun r s' =>
      match r with
      | .ok () => Here R (some t') disk (reverting || decide (t'.phase = .reverting)) s' ∧
          (t'.phase = .confirmed → Stored .confirmed s'.2)
      | .error _ => Here R (some t) disk reverting s') s := by
  refine (keeps_attempt_bind _ _ _ _).mpr ?_
  rw [keeps_ofExcept]
  cases t'.validate with
  | error e => exact h
  | ok u =>
    refine (keeps_attempt_call _ _ _ _).mpr ⟨h.safe hs, fun k _ => ?_⟩
    have hpending := h.pending_eq
    cases hk : k.fault with
    | some e =>
      have hentry : storedPhase ⟨.rollback (.replace t'), .error e⟩ = none := rfl
      simp only [logged, perform, orFault, hk]
      refine ⟨hpending, h.disk_eq, fun hst => ?_, noApplyAfterRevert_append h.order (by simp [IsApply])⟩
      rcases stored_append.mp hst with hlog | he
      · exact h.stored hlog
      · simp [hentry] at he
    | none =>
      have hentry : storedPhase ⟨.rollback (.replace t'), .ok true⟩ = some t'.phase := rfl
      simp only [logged, perform, orFault, hk, World.rollbackEffect, hpending]
      refine ⟨⟨rfl, h.disk_eq, fun hst => ?_,
        noApplyAfterRevert_append h.order (by simp [IsApply])⟩, fun hc => ?_⟩
      · rcases stored_append.mp hst with hlog | he
        · simp [h.stored hlog]
        · rw [hentry] at he
          simp [Option.some.inj he]
      · exact stored_append.mpr (.inr (by rw [hentry, hc]))

/-- The record changes its bookkeeping but stays in its phase and restore. -/
structure SameRestore (t t' : RollbackTransaction) : Prop where
  id : t'.id = t.id
  target : t'.targetDeploymentId = t.targetDeploymentId
  phase : t'.phase = t.phase

theorem recordCheckpoint_same {t t' : RollbackTransaction} {value : RecoveryCheckpoint}
    {now : Timestamp} (h : t.recordCheckpoint value now = .ok t') : SameRestore t t' := by
  obtain ⟨-, rfl⟩ := RollbackTransaction.recordCheckpoint_eq_ok h
  exact ⟨rfl, rfl, rfl⟩

theorem recordInitramfsEntry_same {t t' : RollbackTransaction} {bootId : String}
    {now : Timestamp} (h : t.recordInitramfsEntry bootId now = .ok t') : SameRestore t t' := by
  obtain ⟨-, rfl⟩ := RollbackTransaction.recordInitramfsEntry_eq_ok h
  exact ⟨rfl, rfl, rfl⟩

/-- The clock is read without any effect on what a restore is about. -/
theorem utcNow_spec {ε : Type} (h : Here R pending disk reverting s)
    (hs : Sound R pending disk reverting) :
    Always R (utcNow : Action ε Timestamp).run (fun r s' =>
      Here R pending disk reverting s' ∧ ∃ now, r = .ok now) s := by
  have hquiet : Quiet .now := trivial
  exact (keeps_attempt_call _ _ _ _).mpr ⟨h.safe hs, fun k _ => ⟨h.quiet hquiet k, _, rfl⟩⟩

/-- A change of the record in memory that is stored over the record `t₀`. -/
theorem stored_spec {t₀ : RollbackTransaction}
    {change : Timestamp → Except TransactionError RollbackTransaction}
    (h : Here R (some t₀) disk reverting s) (hs : Sound R (some t₀) disk reverting) :
    Always R (Recovery.stored change).run (fun r s' =>
      match r with
      | .ok t' => (∃ now, change now = .ok t') ∧
          Here R (some t') disk (reverting || decide (t'.phase = .reverting)) s'
      | .error _ => Here R (some t₀) disk reverting s') s := by
  refine (keeps_attempt_bind _ _ _ _).mpr ((utcNow_spec h hs).mono fun r s' hr => ?_)
  obtain ⟨h', now, rfl⟩ := hr
  refine (keeps_attempt_bind _ _ _ _).mpr ?_
  rw [Recovery.attempt, keeps_ofExcept]
  cases hchange : change now with
  | error e => exact h'
  | ok t' =>
    refine (keeps_attempt_bind _ _ _ _).mpr ((keeps_mapError _ _ _ _).mpr ?_)
    refine (update_spec h' hs).mono fun r s'' hr => ?_
    cases r with
    | error e => exact hr
    | ok u => exact ⟨⟨now, hchange⟩, hr.1⟩

/-- Storing the in-memory record `t` with a checkpoint over the stored record `t₀`. -/
theorem persistCheckpoint_spec {t₀ t : RollbackTransaction} (value : RecoveryCheckpoint)
    (h : Here R (some t₀) disk reverting s) (hs : Sound R (some t₀) disk reverting) :
    Always R (Recovery.persistCheckpoint t value).run (fun r s' =>
      match r with
      | .ok t' => SameRestore t t' ∧
          Here R (some t') disk (reverting || decide (t'.phase = .reverting)) s'
      | .error _ => Here R (some t₀) disk reverting s') s := by
  refine (stored_spec h hs).mono fun r s' hr => ?_
  cases r with
  | error e => exact hr
  | ok t' =>
    obtain ⟨⟨now, hnow⟩, hhere⟩ := hr
    exact ⟨recordCheckpoint_same hnow, hhere⟩

/-- Entering a phase: the stored record moves there when the layout allows it. -/
theorem enterPhase_spec {t : RollbackTransaction} (phase : RollbackPhase)
    (value : RecoveryCheckpoint) (h : Here R (some t) disk reverting s)
    (hs : Sound R (some t) disk reverting) :
    Always R (Recovery.enterPhase t phase value).run (fun r s' =>
      match r with
      | .ok t' => t'.id = t.id ∧ t'.targetDeploymentId = t.targetDeploymentId ∧
          t'.phase = phase ∧ Here R (some t') disk (reverting || decide (phase = .reverting)) s'
      | .error _ => Here R (some t) disk reverting s') s := by
  refine (keeps_attempt_bind _ _ _ _).mpr ((utcNow_spec h hs).mono fun r s' hr => ?_)
  obtain ⟨h', now, rfl⟩ := hr
  refine (keeps_attempt_bind _ _ _ _).mpr ?_
  rw [Recovery.attempt, keeps_ofExcept]
  cases htr : t.transition phase now with
  | error e => exact h'
  | ok t₁ =>
    obtain ⟨-, -, rfl⟩ := RollbackTransaction.transition_eq_ok htr
    refine (persistCheckpoint_spec value h' hs).mono fun r s'' hr => ?_
    cases r with
    | error e => exact hr
    | ok t' =>
      obtain ⟨⟨hid, htarget, hphase⟩, hhere⟩ := hr
      have hphase' : t'.phase = phase := hphase
      rw [hphase'] at hhere
      exact ⟨hid, htarget, hphase', hhere⟩

theorem observe_spec {t : RollbackTransaction} (h : Here R pending disk reverting s)
    (hs : Sound R pending disk reverting) :
    Always R (Recovery.observe t).run (fun r s' => Here R pending disk reverting s' ∧
      ∀ view, r = .ok view → view = ((disk.top rootName).isSome,
        (disk.top t.oldRootName).isSome, (disk.top t.newRootName).isSome)) s := by
  refine (keeps_attempt_bind _ _ _ _).mpr ((realDirectory_spec _ h hs).mono fun r s₁ hr => ?_)
  cases r with
  | error e => exact ⟨hr.1, fun view hv => by cases hv⟩
  | ok root =>
    refine (keeps_attempt_bind _ _ _ _).mpr
      ((realDirectory_spec _ hr.1 hs).mono fun r s₂ hr₂ => ?_)
    cases r with
    | error e => exact ⟨hr₂.1, fun view hv => by cases hv⟩
    | ok old =>
      refine (keeps_attempt_bind _ _ _ _).mpr
        ((realDirectory_spec _ hr₂.1 hs).mono fun r s₃ hr₃ => ?_)
      cases r with
      | error e => exact ⟨hr₃.1, fun view hv => by cases hv⟩
      | ok new =>
        refine ⟨hr₃.1, fun view hv => ?_⟩
        obtain rfl := Except.ok.inj hv
        rw [hr.2 root rfl, hr₂.2 old rfl, hr₃.2 new rfl]

end Operations

end RollbackSafety

end RecoveryEngine
