import SynOSStudio.RecoveryEngine.RollbackSafety.Steps

/-!
# The initramfs engine keeps the invariant
-/

namespace RecoveryEngine

open InterruptiblePrograms

namespace RollbackSafety

variable {R : Restore}

section Moves

/-- While a restore is applied or reverted: the record in memory is the stored one, and
the volume is in a known layout. -/
structure Working (R : Restore) (phase : RollbackPhase) (layout : RootLayout)
    (t : RollbackTransaction) (disk : Disk) (s : State) : Prop where
  here : Here R (some t) disk (decide (phase = .reverting)) s
  phase_eq : t.phase = phase
  owned : Owned R t
  holds : layout.Holds R disk
  kept : R.Kept disk

variable {phase : RollbackPhase} {layout : RootLayout} {t : RollbackTransaction} {disk : Disk}
  {s : State}

theorem Working.sound (h : Working R phase layout t disk s)
    (hphase : phase = .applying ∨ phase = .reverting) :
    Sound R (some t) disk (decide (phase = .reverting)) := by
  refine ⟨?_, ⟨layout, h.holds, ?_⟩, h.kept, ?_⟩
  · rintro _ ⟨⟩
    exact h.owned
  · rcases hphase with rfl | rfl <;> simp [Consistent, h.phase_eq]
  · rintro hr _ ⟨⟩
    exact .inl (h.phase_eq.trans (by simpa using hr))

theorem Working.safe (h : Working R phase layout t disk s)
    (hphase : phase = .applying ∨ phase = .reverting) : Safe R s :=
  h.here.safe (h.sound hphase)

theorem within_sync : Within Quiet Recovery.sync.run :=
  within_call _ trivial

/-- The end of a move: the change is synced and a checkpoint is stored. -/
theorem syncCheckpoint_spec (value : RecoveryCheckpoint) (h : Working R phase layout t disk s)
    (hphase : phase = .applying ∨ phase = .reverting) :
    Always R (do Recovery.sync; Recovery.persistCheckpoint t value :
        Action RecoveryError RollbackTransaction).run (fun r s' =>
      match r with
      | .ok t' => Working R phase layout t' disk s'
      | .error _ => Safe R s') s := by
  have hsound := h.sound hphase
  refine (keeps_attempt_bind _ _ _ _).mpr
    ((quiet_spec h.here hsound within_sync).mono fun r s₁ h₁ => ?_)
  cases r with
  | error e => exact h₁.safe hsound
  | ok u =>
    refine (persistCheckpoint_spec value h₁ hsound).mono fun r s₂ hr => ?_
    cases r with
    | error e => exact hr.safe hsound
    | ok t' =>
      obtain ⟨hsame, hhere⟩ := hr
      have hp : t'.phase = phase := hsame.phase.trans h.phase_eq
      rw [hp, Bool.or_self] at hhere
      exact ⟨hhere, hp, ⟨hsame.id.trans h.owned.id, hsame.target.trans h.owned.target⟩,
        h.holds, h.kept⟩

/-- One move of `apply` or `revert`, from a layout to the next one. -/
theorem moved_spec {op : DiskOp} {view : Except String op.Result → Except RecoveryError Unit}
    (next : RootLayout) (value : RecoveryCheckpoint) (h : Working R phase layout t disk s)
    (hphase : phase = .applying ∨ phase = .reverting)
    (happly : IsApply R (.disk op) → phase = .applying)
    (hview : ∀ e, ∃ e', view (.error e) = .error e')
    (heffect : ∀ uuid text,
      (next.Holds R (disk.effect uuid text op).2 ∧ R.Kept (disk.effect uuid text op).2) ∨
      ∃ e, disk.effect uuid text op = (.error e, disk)) :
    Always R (Recovery.moved (Attempt.call (.disk op) view) t value).run (fun r s' =>
      match r with
      | .ok t' => ∃ disk', Working R phase next t' disk' s'
      | .error _ => Safe R s') s := by
  have hsound := h.sound hphase
  refine (keeps_attempt_bind _ _ _ _).mpr ((disk_spec view h.here hsound ?_).mono
    fun r s₁ hr => ?_)
  · intro ha
    simp [happly ha]
  rcases hr with ⟨e, rfl, h₁⟩ | ⟨uuid, text, rfl, h₁⟩
  · obtain ⟨e', he'⟩ := hview e
    rw [he']
    exact h₁.safe hsound
  · rcases heffect uuid text with ⟨hholds, hkept⟩ | ⟨e, heq⟩
    · have hnext : Working R phase next t (disk.effect uuid text op).2 s₁ :=
        ⟨h₁, h.phase_eq, h.owned, hholds, hkept⟩
      cases view (disk.effect uuid text op).1 with
      | error e => exact hnext.safe hphase
      | ok u =>
        refine (syncCheckpoint_spec value hnext hphase).mono fun r s₂ hr => ?_
        cases r with
        | error e => exact hr
        | ok t' => exact ⟨_, hr⟩
    · obtain ⟨e', he'⟩ := hview e
      rw [heq] at h₁ ⊢
      simp only [he']
      exact h₁.safe hsound

theorem Owned.old_eq (h : Owned R t) : t.oldRootName = R.old :=
  congrArg (fun id : RollbackId => oldRootPrefix ++ id.hyphenated) h.id

theorem Owned.new_eq (h : Owned R t) : t.newRootName = R.new :=
  congrArg (fun id : RollbackId => "@root.snapshots-manager-new-" ++ id.hyphenated) h.id

/-- The observed state is the view of the layout. -/
theorem Working.observe (h : Working R phase layout t disk s)
    (hphase : phase = .applying ∨ phase = .reverting) :
    Always R (Recovery.observe t).run (fun r s' => Working R phase layout t disk s' ∧
      ∀ view, r = .ok view → view = layout.view) s := by
  refine (observe_spec h.here (h.sound hphase)).mono fun r s' hr => ?_
  refine ⟨⟨hr.1, h.phase_eq, h.owned, h.holds, h.kept⟩, fun view hv => ?_⟩
  rw [hr.2 view hv, h.owned.old_eq, h.owned.new_eq]
  exact h.holds.view_eq

/-- A move followed by the rest of the loop. -/
theorem moved_bind_spec {α : Type} {op : DiskOp}
    {view : Except String op.Result → Except RecoveryError Unit}
    {rest : RollbackTransaction → Action RecoveryError α}
    {post : Except RecoveryError α → State → Prop}
    (next : RootLayout) (value : RecoveryCheckpoint) (h : Working R phase layout t disk s)
    (hphase : phase = .applying ∨ phase = .reverting)
    (happly : IsApply R (.disk op) → phase = .applying)
    (hview : ∀ e, ∃ e', view (.error e) = .error e')
    (heffect : ∀ uuid text,
      (next.Holds R (disk.effect uuid text op).2 ∧ R.Kept (disk.effect uuid text op).2) ∨
      ∃ e, disk.effect uuid text op = (.error e, disk))
    (hrest : ∀ t' disk' s', Working R phase next t' disk' s' → Always R (rest t').run post s')
    (herror : ∀ e s', Safe R s' → post (.error e) s') :
    Always R (Recovery.moved (Attempt.call (.disk op) view) t value >>= rest).run post s := by
  refine (keeps_attempt_bind _ _ _ _).mpr
    ((moved_spec next value h hphase happly hview heffect).mono fun r s₁ hr => ?_)
  cases r with
  | error e => exact herror e s₁ hr
  | ok t' =>
    obtain ⟨disk', h₁⟩ := hr
    exact hrest t' disk' s₁ h₁

theorem apply_spec (rounds : ℕ) (h : Working R .applying layout t disk s) :
    Always R (Recovery.apply rounds t).run (fun r s' =>
      match r with
      | .ok t' => ∃ disk', Working R .applying .activated t' disk' s'
      | .error _ => Safe R s') s := by
  have hphase : RollbackPhase.applying = .applying ∨ RollbackPhase.applying = .reverting :=
    .inl rfl
  induction rounds generalizing layout t disk s with
  | zero => exact h.safe hphase
  | succ rounds ih =>
    refine (keeps_attempt_bind _ _ _ _).mpr ((h.observe hphase).mono fun r s₁ hr => ?_)
    obtain ⟨h₁, hview⟩ := hr
    cases r with
    | error e => exact h₁.safe hphase
    | ok view =>
      obtain rfl := hview view rfl
      cases layout with
      | untouched =>
        refine moved_bind_spec .staged _ h₁ hphase (fun _ => rfl) (fun e => ⟨_, rfl⟩) ?_
          (fun _ _ _ => ih) fun _ _ => id
        rw [h₁.owned.target, h₁.owned.new_eq]
        exact fun uuid text => (h₁.holds.snapshot h₁.kept).imp_left And.right
      | staged =>
        refine moved_bind_spec .shielded _ h₁ hphase (fun _ => rfl) (fun e => ⟨_, rfl⟩) ?_
          (fun _ _ _ => ih) fun _ _ => id
        rw [h₁.owned.old_eq]
        exact fun uuid text => .inl (h₁.holds.protect h₁.kept).2
      | shielded =>
        refine moved_bind_spec .activated _ h₁ hphase (fun _ => rfl) (fun e => ⟨_, rfl⟩) ?_
          (fun _ _ _ => ih) fun _ _ => id
        rw [h₁.owned.new_eq]
        exact fun uuid text => .inl (h₁.holds.activate h₁.kept).2
      | activated => exact ⟨_, h₁⟩

/-- No command of `revert` is one of `apply`. -/
theorem revert_commands_not_apply :
    ¬ IsApply R (.disk (.delete R.new)) ∧ ¬ IsApply R (.disk (.rename R.old rootName)) ∧
      ¬ IsApply R (.disk (.rename rootName R.new)) := by
  obtain ⟨d₁, d₂, d₃, d₄, d₅, d₆⟩ := R.names_distinct
  simp [IsApply, d₂, d₃, d₄, d₆]

theorem revert_spec (rounds : ℕ) (h : Working R .reverting layout t disk s) :
    Always R (Recovery.revert rounds t).run (fun r s' =>
      match r with
      | .ok t' => ∃ disk', Working R .reverting .untouched t' disk' s'
      | .error _ => Safe R s') s := by
  have hphase : RollbackPhase.reverting = .applying ∨ RollbackPhase.reverting = .reverting :=
    .inr rfl
  obtain ⟨hdelete, hputBack, hmoveAside⟩ := revert_commands_not_apply (R := R)
  induction rounds generalizing layout t disk s with
  | zero => exact h.safe hphase
  | succ rounds ih =>
    refine (keeps_attempt_bind _ _ _ _).mpr ((h.observe hphase).mono fun r s₁ hr => ?_)
    obtain ⟨h₁, hview⟩ := hr
    cases r with
    | error e => exact h₁.safe hphase
    | ok view =>
      obtain rfl := hview view rfl
      cases layout with
      | untouched => exact ⟨_, h₁⟩
      | staged =>
        refine moved_bind_spec .untouched _ h₁ hphase (fun ha => ?_) (fun e => ⟨_, rfl⟩) ?_
          (fun _ _ _ => ih) fun _ _ => id
        · rw [h₁.owned.new_eq] at ha
          exact absurd ha hdelete
        · rw [h₁.owned.new_eq]
          exact fun uuid text => .inl (h₁.holds.discard h₁.kept).2
      | shielded =>
        refine moved_bind_spec .staged _ h₁ hphase (fun ha => ?_) (fun e => ⟨_, rfl⟩) ?_
          (fun _ _ _ => ih) fun _ _ => id
        · rw [h₁.owned.old_eq] at ha
          exact absurd ha hputBack
        · rw [h₁.owned.old_eq]
          exact fun uuid text => .inl (h₁.holds.putBack h₁.kept).2
      | activated =>
        refine moved_bind_spec .shielded _ h₁ hphase (fun ha => ?_) (fun e => ⟨_, rfl⟩) ?_
          (fun _ _ _ => ih) fun _ _ => id
        · rw [h₁.owned.new_eq] at ha
          exact absurd ha hmoveAside
        · rw [h₁.owned.new_eq]
          exact fun uuid text => .inl (h₁.holds.moveAside h₁.kept).2

end Moves

section Engine

variable {t : RollbackTransaction} {disk : Disk} {reverting : Bool} {s : State}

theorem Sound.same {t' : RollbackTransaction} (hs : Sound R (some t) disk reverting)
    (h : SameRestore t t') : Sound R (some t') disk reverting := by
  have howned := hs.owned t rfl
  have hreverted := fun hr => hs.reverted hr t rfl
  refine ⟨?_, ?_, hs.kept, ?_⟩
  · rintro _ ⟨⟩
    exact ⟨h.id.trans howned.id, h.target.trans howned.target⟩
  · obtain ⟨layout, hholds, hcons⟩ := hs.layout
    exact ⟨layout, hholds, by simpa [h.phase] using hcons⟩
  · rintro hr _ ⟨⟩
    rw [h.phase]
    exact hreverted hr

/-- A phase that is neither reverting nor reverted excludes a stored revert. -/
theorem Sound.not_reverting (hs : Sound R (some t) disk reverting) (h₁ : t.phase ≠ .reverting)
    (h₂ : t.phase ≠ .reverted) : reverting = false := by
  cases reverting with
  | false => rfl
  | true => exact absurd (hs.reverted rfl t rfl) (by simp [h₁, h₂])

theorem finishRevert_spec (layout : RootLayout) (h : Working R .reverting layout t disk s) :
    Always R (Recovery.finishRevert t).run (fun _ s' => Safe R s') s := by
  refine (keeps_attempt_bind _ _ _ _).mpr ((revert_spec _ h).mono fun r s₁ hr => ?_)
  cases r with
  | error e => exact hr
  | ok t₁ =>
    obtain ⟨disk₁, h₁⟩ := hr
    have hsound := h₁.sound (.inr rfl)
    refine (keeps_attempt_bind _ _ _ _).mpr
      ((enterPhase_spec .reverted _ h₁.here hsound).mono fun r s₂ hr => ?_)
    cases r with
    | error e => exact hr.safe hsound
    | ok t₂ =>
      obtain ⟨hid, htarget, hphase, hhere⟩ := hr
      refine hhere.safe ⟨?_, ⟨.untouched, h₁.holds, by simp [hphase, Consistent]⟩, h₁.kept, ?_⟩
      · rintro _ ⟨⟩
        exact ⟨hid.trans h₁.owned.id, htarget.trans h₁.owned.target⟩
      · rintro - _ ⟨⟩
        exact .inr hphase

theorem revertTransaction_spec (h : Here R (some t) disk reverting s)
    (hs : Sound R (some t) disk reverting) :
    Always R (Recovery.revertTransaction t).run (fun _ s' => Safe R s') s := by
  refine (keeps_attempt_bind _ _ _ _).mpr
    ((enterPhase_spec .reverting _ h hs).mono fun r s₁ hr => ?_)
  cases r with
  | error e => exact hr.safe hs
  | ok t₁ =>
    obtain ⟨hid, htarget, hphase, hhere⟩ := hr
    obtain ⟨layout, hholds, -⟩ := hs.layout
    have howned := hs.owned t rfl
    refine finishRevert_spec layout ⟨?_, hphase,
      ⟨hid.trans howned.id, htarget.trans howned.target⟩, hholds, hs.kept⟩
    simpa using hhere

/-- The reads of a validation change nothing. -/
theorem within_validateDeployments : Within Quiet (Recovery.validateDeployments t).run := by
  have hload : ∀ id, Within Quiet (Recovery.loadRecord id).run := by
    intro id
    refine within_mapError (within_attempt_bind (within_call _ trivial) fun found => ?_)
    cases found with
    | none => exact within_throw _
    | some record =>
      exact within_attempt_bind (within_ofExcept _) fun _ =>
        within_attempt_bind (within_ofExcept _) fun _ => within_pure _
  have hroot : ∀ id, Within Quiet (Recovery.ensureDeploymentRoot id).run := fun id =>
    within_attempt_bind (within_call _ trivial) fun _ => within_ofExcept _
  have hconfirm : Within Quiet (Recovery.validateConfirmArtifact t).run := by
    unfold Recovery.validateConfirmArtifact
    split_ifs
    · exact within_attempt_bind (within_call _ trivial) fun _ =>
        within_attempt_bind (within_call _ trivial) fun _ => within_ofExcept _
    · exact within_pure _
  refine within_attempt_bind hconfirm fun _ => within_attempt_bind (hload _) fun target =>
    within_attempt_bind (within_ofExcept _) fun _ => within_attempt_bind (hload _) fun _ =>
    within_attempt_bind (within_ofExcept _) fun _ => within_attempt_bind (hroot _) fun _ =>
    within_attempt_bind (hroot _) fun _ => ?_
  cases target.snapshotUuid with
  | none => exact within_throw _
  | some expected =>
    exact within_attempt_bind (within_call _ trivial) fun _ =>
      within_attempt_bind (within_ofExcept _) fun _ =>
      within_attempt_bind (within_call _ trivial) fun _ => within_ofExcept _

/-- Recording a failure of a restore that was not applied. -/
theorem recordFailure_spec (message : String) (h : Here R (some t) disk reverting s)
    (hs : Sound R (some t) disk reverting) (hphase : t.phase = .armed) :
    Always R (Recovery.recordFailure t message).run (fun _ s' => Safe R s') s := by
  refine (stored_spec h hs).mono fun r s₁ hr => ?_
  cases r with
  | error e => exact hr.safe hs
  | ok t' =>
    obtain ⟨⟨now, hnow⟩, hhere⟩ := hr
    obtain ⟨-, rfl⟩ := RollbackTransaction.recordFailure_eq_ok hnow
    obtain ⟨layout, hholds, hcons⟩ := hs.layout
    obtain rfl : layout = .untouched := by simpa [hphase, Consistent] using hcons
    have hfalse := hs.not_reverting (by simp [hphase]) (by simp [hphase])
    refine hhere.safe ⟨?_, ⟨.untouched, hholds, rfl⟩, hs.kept, by simp [hfalse]⟩
    rintro _ ⟨⟩
    exact ⟨(hs.owned t rfl).id, (hs.owned t rfl).target⟩

theorem enterInitramfs_spec (bootId : String) (h : Here R (some t) disk reverting s)
    (hs : Sound R (some t) disk reverting) (hphase : t.phase ≠ .reverting) :
    Always R (Recovery.enterInitramfs t bootId).run (fun r s' =>
      match r with
      | .ok t' => SameRestore t t' ∧ Here R (some t') disk reverting s'
      | .error _ => Safe R s') s := by
  refine (keeps_attempt_bind _ _ _ _).mpr ((stored_spec h hs).mono fun r s₁ hr => ?_)
  cases r with
  | error e => exact hr.safe hs
  | ok t₁ =>
    obtain ⟨⟨now, hnow⟩, h₁⟩ := hr
    have hsame := recordInitramfsEntry_same hnow
    have hs₁ := hs.same hsame
    rw [hsame.phase, decide_eq_false hphase, Bool.or_false] at h₁
    refine (persistCheckpoint_spec _ h₁ hs₁).mono fun r s₂ hr => ?_
    cases r with
    | error e => exact hr.safe hs₁
    | ok t₂ =>
      obtain ⟨⟨hid, htarget, hp⟩, h₂⟩ := hr
      have hp' : t₂.phase = t.phase := hp.trans hsame.phase
      rw [hp', decide_eq_false hphase, Bool.or_false] at h₂
      exact ⟨⟨hid.trans hsame.id, htarget.trans hsame.target, hp'⟩, h₂⟩

theorem applyTarget_spec (bootId : String) (h : Here R (some t) disk reverting s)
    (hs : Sound R (some t) disk reverting) (hfalse : reverting = false) :
    Always R (Recovery.applyTarget t bootId).run (fun _ s' => Safe R s') s := by
  subst hfalse
  refine (keeps_attempt_bind _ _ _ _).mpr ((stored_spec h hs).mono fun r s₁ hr => ?_)
  cases r with
  | error e => exact hr.safe hs
  | ok t₁ =>
    obtain ⟨⟨now, hnow⟩, h₁⟩ := hr
    obtain ⟨-, rfl⟩ := RollbackTransaction.beginApply_eq_ok hnow
    obtain ⟨layout, hholds, -⟩ := hs.layout
    have hworking : Working R .applying layout _ disk s₁ :=
      ⟨h₁, rfl, ⟨(hs.owned t rfl).id, (hs.owned t rfl).target⟩, hholds, hs.kept⟩
    refine (keeps_attempt_bind _ _ _ _).mpr ((apply_spec _ hworking).mono fun r s₂ hr => ?_)
    cases r with
    | error e => exact hr
    | ok t₂ =>
      obtain ⟨disk₂, h₂⟩ := hr
      have hsound := h₂.sound (.inl rfl)
      refine (keeps_attempt_bind _ _ _ _).mpr
        ((enterPhase_spec .bootedUnconfirmed _ h₂.here hsound).mono fun r s₃ hr => ?_)
      cases r with
      | error e => exact hr.safe hsound
      | ok t₃ =>
        obtain ⟨hid, htarget, hphase, h₃⟩ := hr
        refine h₃.safe ⟨?_, ⟨.activated, h₂.holds, by simp [hphase, Consistent]⟩, h₂.kept,
          by simp⟩
        rintro _ ⟨⟩
        exact ⟨hid.trans h₂.owned.id, htarget.trans h₂.owned.target⟩

theorem executeArmed_spec (requested : Option RollbackId) (bootId : String)
    (h : Here R (some t) disk reverting s) (hs : Sound R (some t) disk reverting)
    (hphase : t.phase = .armed) :
    Always R (Recovery.executeArmed t requested bootId).run (fun _ s' => Safe R s') s := by
  have hfalse := hs.not_reverting (by simp [hphase]) (by simp [hphase])
  have hfailed : ∀ message, Always R (Recovery.recordFailure t message >>= fun _ =>
      pure RecoveryOutcome.failedSafe).run (fun _ s' => Safe R s') s := fun message =>
    (keeps_attempt_bind _ _ _ _).mpr ((recordFailure_spec message h hs hphase).mono
      fun r s' hr => by cases r <;> exact hr)
  unfold Recovery.executeArmed
  split_ifs
  · exact hfailed _
  · exact h.safe hs
  · exact hfailed _
  · refine (keeps_attempt_bind _ _ _ _).mpr
      ((enterInitramfs_spec bootId h hs (by simp [hphase])).mono fun r s₁ hr => ?_)
    cases r with
    | error e => exact hr
    | ok t₁ =>
      obtain ⟨hsame, h₁⟩ := hr
      have hs₁ := hs.same hsame
      refine (keeps_attempt_bind _ _ _ _).mpr ((keeps_outcome _ _ _).mpr
        ((quiet_spec h₁ hs₁ within_validateDeployments).mono fun r s₂ h₂ => ?_))
      cases r with
      | error e =>
        refine (keeps_attempt_bind _ _ _ _).mpr
          ((recordFailure_spec _ h₂ hs₁ (hsame.phase.trans hphase)).mono fun r s₃ hr => ?_)
        cases r <;> exact hr
      | ok u => exact applyTarget_spec bootId h₂ hs₁ hfalse

theorem executeApplying_spec (requested : Option RollbackId) (bootId : String)
    (h : Here R (some t) disk reverting s) (hs : Sound R (some t) disk reverting)
    (hphase : t.phase = .applying) :
    Always R (Recovery.executeApplying t requested bootId).run (fun _ s' => Safe R s') s := by
  have hfalse := hs.not_reverting (by simp [hphase]) (by simp [hphase])
  unfold Recovery.executeApplying
  split_ifs
  · refine (keeps_attempt_bind _ _ _ _).mpr
      ((enterInitramfs_spec bootId h hs (by simp [hphase])).mono fun r s₁ hr => ?_)
    cases r with
    | error e => exact hr
    | ok t₁ =>
      obtain ⟨hsame, h₁⟩ := hr
      have hs₁ := hs.same hsame
      refine (keeps_attempt_bind _ _ _ _).mpr
        ((quiet_spec h₁ hs₁ within_validateDeployments).mono fun r s₂ h₂ => ?_)
      cases r with
      | error e => exact h₂.safe hs₁
      | ok u => exact applyTarget_spec bootId h₂ hs₁ hfalse
  · exact revertTransaction_spec h hs

/-- Loading the pending record answers with the stored one. -/
theorem loadPending_spec {pending : Option RollbackTransaction}
    (h : Here R pending disk reverting s) (hs : Sound R pending disk reverting) :
    Always R TransactionStore.loadPending.run (fun r s' => Here R pending disk reverting s' ∧
      ∀ found, r = .ok found → found = pending) s := by
  have hquiet : Quiet (.rollback .load) := trivial
  refine (keeps_attempt_bind _ _ _ _).mpr ((keeps_attempt_call _ _ _ _).mpr
    ⟨h.safe hs, fun k _ => ?_⟩)
  have h₁ := h.quiet hquiet k
  cases hk : k.fault with
  | some e =>
    simp only [logged, perform, orFault, hk, Except.mapError] at h₁ ⊢
    exact ⟨h₁, fun found hf => by cases hf⟩
  | none =>
    simp only [logged, perform, orFault, hk, World.rollbackEffect, Except.mapError,
      h.pending_eq] at h₁ ⊢
    cases pending with
    | none => exact ⟨h₁, fun found hf => (Except.ok.inj hf).symm⟩
    | some t =>
      refine (keeps_attempt_bind _ _ _ _).mpr ?_
      rw [keeps_ofExcept]
      cases t.validate with
      | error e => exact ⟨h₁, fun found hf => by cases hf⟩
      | ok u => exact ⟨h₁, fun found hf => (Except.ok.inj hf).symm⟩

theorem execute_here_spec {pending : Option RollbackTransaction} (requested : Option RollbackId)
    (bootId : String) (h : Here R pending disk reverting s)
    (hs : Sound R pending disk reverting) :
    Always R (Recovery.execute requested bootId).run (fun _ s' => Safe R s') s := by
  have htop : Within Quiet Recovery.ensureTopLevel.run := within_call _ trivial
  refine (keeps_attempt_bind _ _ _ _).mpr ((quiet_spec h hs htop).mono fun r s₁ h₁ => ?_)
  cases r with
  | error e => exact h₁.safe hs
  | ok u =>
    refine (keeps_attempt_bind _ _ _ _).mpr ((keeps_mapError _ _ _ _).mpr
      ((loadPending_spec h₁ hs).mono fun r s₂ hr => ?_))
    obtain ⟨h₂, hfound⟩ := hr
    cases r with
    | error e => exact h₂.safe hs
    | ok found =>
      obtain rfl := hfound found rfl
      cases found with
      | none => exact h₂.safe hs
      | some t =>
        simp only [Except.mapError]
        split
        · exact h₂.safe hs
        · exact h₂.safe hs
        · exact h₂.safe hs
        · exact h₂.safe hs
        · rename_i hphase
          exact executeArmed_spec requested bootId h₂ hs hphase
        · rename_i hphase
          exact executeApplying_spec requested bootId h₂ hs hphase
        · split_ifs
          · exact h₂.safe hs
          · exact revertTransaction_spec h₂ hs
        · rename_i hphase
          obtain ⟨layout, hholds, -⟩ := hs.layout
          refine finishRevert_spec layout ⟨⟨h₂.pending_eq, h₂.disk_eq, fun _ => rfl,
            h₂.order⟩, hphase, hs.owned t rfl, hholds, hs.kept⟩

/-- `execute` keeps the invariant wherever it is cut off. -/
theorem execute_safe (requested : Option RollbackId) (bootId : String) (h : Safe R s) :
    Always R (Recovery.execute requested bootId).run (fun _ s' => Safe R s') s := by
  rcases h with h | ⟨pending, disk, reverting, h, hs⟩
  · exact confirmed_spec h
  · exact execute_here_spec requested bootId h hs

end Engine

end RollbackSafety

end RecoveryEngine
