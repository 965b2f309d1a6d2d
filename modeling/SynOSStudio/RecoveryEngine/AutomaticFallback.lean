import SynOSStudio.RecoveryEngine.Faultless
import SynOSStudio.RecoveryEngine.RollbackSafety.Records

/-!
# The automatic fallback and the clock

A boot that finds an interrupted restore reverts it. Every checkpoint on the way is
validated against the clock, so the fallback succeeds exactly when none of the
readings that it takes lies before the creation of the transaction. How many
readings it takes depends only on the layout and the phase that it starts from.
-/

namespace RecoveryEngine

open InterruptiblePrograms

namespace AutomaticFallback

/-- A restore that a loss of power left in one of the layouts. -/
structure Interrupted (R : Restore) (t : RollbackTransaction) (layout : RootLayout) (w : World) :
    Prop where
  pending : w.pending = some t
  valid : t.Valid
  owned : RollbackSafety.Owned R t
  holds : layout.Holds R w.disk
  kept : R.Kept w.disk

/-- The boots that fall back: a restore that is being applied and is not requested again or
has no attempt left, an unconfirmed restore seen from another boot, a revert that began. -/
def FallsBack (t : RollbackTransaction) (requested : Option RollbackId) (bootId : String) : Prop :=
  match t.phase with
  | .applying => ¬ (requested = some t.id ∧ t.applyAttempts < maxApplyAttempts ∧
      t.initramfsAttempts < maxApplyAttempts)
  | .bootedUnconfirmed => t.applyingBootId ≠ some bootId
  | .reverting => True
  | _ => False

/-- The commands that lead from a layout back to the untouched one. -/
def moves : RootLayout → ℕ
  | .untouched => 0
  | .staged => 1
  | .shielded => 2
  | .activated => 3

/-- How often the fallback reads the clock: once for each command and twice for each phase
it enters. -/
def clockReadings (phase : RollbackPhase) (layout : RootLayout) : ℕ :=
  (if phase = .reverting then 0 else 2) + moves layout + 2

/-- None of the next `count` readings of the clock is before `limit`. -/
def NotBefore (limit : Timestamp) (clock : Clock) (count : ℕ) : Prop :=
  ∀ i < count, limit ≤ clock.readings (clock.ticks + i)

section Readings

variable {limit : Timestamp} {clock : Clock}

theorem notBefore_zero : NotBefore limit clock 0 ↔ True := by
  simp [NotBefore]

theorem notBefore_add (m n : ℕ) : NotBefore limit clock (m + n) ↔
    NotBefore limit clock m ∧ NotBefore limit { clock with ticks := clock.ticks + m } n := by
  constructor
  · intro h
    refine ⟨fun i hi => h i (by omega), fun i hi => ?_⟩
    have := h (m + i) (by omega)
    simpa [Nat.add_assoc] using this
  · rintro ⟨h₁, h₂⟩ i hi
    by_cases him : i < m
    · exact h₁ i him
    · have := h₂ (i - m) (by omega)
      rwa [show clock.ticks + m + (i - m) = clock.ticks + i by omega] at this

theorem notBefore_one : NotBefore limit clock 1 ↔ limit ≤ clock.now := by
  constructor
  · intro h
    exact h 0 (by omega)
  · intro h i hi
    obtain rfl : i = 0 := by omega
    exact h

end Readings

section Steps

variable {R : Restore}

/-- What the program knows between two steps, with the record that it holds in memory.
`after` counts the clock readings since `clock`. -/
structure Holding (R : Restore) (clock : Clock) (after : ℕ) (limit : Timestamp)
    (phase : RollbackPhase) (layout : RootLayout) (t : RollbackTransaction) (w : World) :
    Prop where
  pending : w.pending.isSome
  valid : t.Valid
  owned : RollbackSafety.Owned R t
  created : t.createdAt = limit
  phase : t.phase = phase
  holds : layout.Holds R w.disk
  kept : R.Kept w.disk
  ticks : w.clock = { clock with ticks := clock.ticks + after }

variable {clock : Clock} {limit : Timestamp} {phase : RollbackPhase} {layout : RootLayout}
  {n : ℕ} {t : RollbackTransaction} {w : World}

/-- A change of the record at the current time, where only the time can be refused, and
what is done with the changed record. -/
theorem changed_completes {β : Type} {good : β → World → Prop} {condition : Prop}
    (change : Timestamp → Except TransactionError RollbackTransaction)
    (next : Timestamp → RollbackTransaction) {f : RollbackTransaction → Action RecoveryError β}
    (h : Holding R clock n limit phase layout t w)
    (hchange : ∀ now, change now = (next now).checked)
    (hvalid : ∀ now, (next now).Valid ↔ limit ≤ now)
    (hf : ∀ now, (next now).Valid →
      CompletesIff condition good (f (next now)) { w with clock := w.clock.tick }) :
    CompletesIff (NotBefore limit { clock with ticks := clock.ticks + n } 1 ∧ condition) good
      (utcNow >>= fun now => Recovery.attempt (change now) >>= f) w := by
  refine utcNow_completes.then ?_
  rintro _ _ ⟨rfl, rfl⟩
  have hcond : NotBefore limit { clock with ticks := clock.ticks + n } 1 ↔
      limit ≤ w.clock.now := by
    rw [notBefore_one, ← h.ticks]
  by_cases hnow : limit ≤ w.clock.now
  · have hv := (hvalid _).mpr hnow
    have hok : (change w.clock.now).mapError Recovery.transactionError =
        .ok (next w.clock.now) := by
      rw [hchange, RollbackTransaction.checked_of_valid hv]
      rfl
    refine (succeedsIff_passed hok (hf _ hv)).congr ?_
    rw [hcond]
    exact ⟨fun hc => ⟨hnow, hc⟩, And.right⟩
  · obtain ⟨e, he⟩ := RollbackTransaction.checked_of_not_valid fun hv =>
      hnow ((hvalid w.clock.now).mp hv)
    have herror : (change w.clock.now).mapError Recovery.transactionError =
        .error (Recovery.transactionError e) := by
      rw [hchange, he]
      rfl
    exact succeedsIff_refused herror fun hc => hnow (hcond.mp hc.1)

theorem Holding.entered (h : Holding R clock n limit phase layout t w)
    (hphase : phase.requiresAttempt = true) : 0 < t.initramfsAttempts := by
  have hpos := h.valid.attempt (by rw [h.phase]; exact hphase)
  have hle := h.valid.attemptEntries
  omega

/-- The clock of the world after one more reading. -/
theorem Holding.tick (h : Holding R clock n limit phase layout t w) :
    w.clock.tick = { clock with ticks := clock.ticks + (n + 1) } := by
  rw [h.ticks]
  rfl

theorem persistCheckpoint_completes (value : RecoveryCheckpoint)
    (h : Holding R clock n limit phase layout t w) (hphase : phase.requiresAttempt = true) :
    CompletesIff (NotBefore limit { clock with ticks := clock.ticks + n } 1)
      (Holding R clock (n + 1) limit phase layout) (Recovery.persistCheckpoint t value) w := by
  have hentry := h.entered hphase
  have hboot : t.initramfsBootId.isSome = true := by
    obtain ⟨bootId, hb, -⟩ := (h.valid.entry hentry).1
    simp [hb]
  have hchange : ∀ now, t.recordCheckpoint value now = RollbackTransaction.checked
      { t with checkpoint := some value, checkpointAt := some now, updatedAt := now } := by
    intro now
    rw [RollbackTransaction.recordCheckpoint, hboot]
    rfl
  refine (changed_completes _ _ h hchange
    (fun now => by rw [h.valid.checkpoint_iff hentry, h.created]) fun now hv => ?_).congr
      (iff_of_eq (and_true _))
  have hpending : ({ w with clock := w.clock.tick }).pending.isSome := h.pending
  have hupdate : CompletesIff True (fun _ w' => w' = _) (Recovery.update _) _ :=
    (update_completes hpending hv).mapError
  refine hupdate.then ?_
  rintro _ _ rfl
  exact succeedsIff_pure ⟨rfl, hv, ⟨h.owned.id, h.owned.target⟩, h.created, h.phase, h.holds,
    h.kept, h.tick⟩

theorem enterPhase_completes (next : RollbackPhase) (value : RecoveryCheckpoint)
    (h : Holding R clock n limit phase layout t w) (hphase : phase.requiresAttempt = true)
    (hnext : next.requiresAttempt = true) (hcan : phase.canTransitionTo next = true) :
    CompletesIff (NotBefore limit { clock with ticks := clock.ticks + n } 2)
      (Holding R clock (n + 2) limit next layout) (Recovery.enterPhase t next value) w := by
  have hchange : ∀ now, t.transition next now = RollbackTransaction.checked
      { t with phase := next, updatedAt := now } := by
    intro now
    rw [RollbackTransaction.transition, h.phase, hcan]
    rfl
  refine (changed_completes _ _ h hchange
    (fun now => by rw [h.valid.phase_iff (h.phase ▸ hphase) hnext, h.created]) fun now hv => ?_).congr
      (notBefore_add 1 1).symm
  refine persistCheckpoint_completes (n := n + 1) value ⟨h.pending, hv,
    ⟨h.owned.id, h.owned.target⟩, h.created, rfl, h.holds, h.kept, h.tick⟩ hnext

theorem observe_completes (h : Holding R clock n limit phase layout t w) :
    CompletesIff True (fun view w' => view = layout.view ∧ w = w') (Recovery.observe t) w := by
  have hview := h.holds.view_eq
  refine (realDirectory_completes _).then ?_
  rintro _ _ ⟨rfl, rfl⟩
  refine (realDirectory_completes _).then ?_
  rintro _ _ ⟨rfl, rfl⟩
  refine (realDirectory_completes _).then ?_
  rintro _ _ ⟨rfl, rfl⟩
  refine succeedsIff_pure ⟨?_, rfl⟩
  rw [h.owned.old_eq, h.owned.new_eq]
  exact hview

/-- One command that leads to the next layout, with its checkpoint. -/
theorem moved_completes {next : RootLayout} {change : Action RecoveryError Unit} (value : RecoveryCheckpoint)
    (h : Holding R clock n limit phase layout t w) (hphase : phase.requiresAttempt = true)
    (hchange : CompletesIff True (fun _ w' => w' = { w with disk := w'.disk } ∧
      next.Holds R w'.disk ∧ R.Kept w'.disk) change w) :
    CompletesIff (NotBefore limit { clock with ticks := clock.ticks + n } 1)
      (Holding R clock (n + 1) limit phase next) (Recovery.moved change t value) w := by
  refine hchange.then fun _ w₁ h₁ => ?_
  obtain ⟨hw, hholds, hkept⟩ := h₁
  have hsync : CompletesIff True (fun _ w' => w₁ = w') Recovery.sync w₁ :=
    disk_completes fun _ _ => ⟨(), rfl, rfl⟩
  refine hsync.then ?_
  rintro _ _ rfl
  have hpending : w₁.pending = w.pending := by rw [hw]
  have hclock : w₁.clock = w.clock := by rw [hw]
  exact persistCheckpoint_completes value ⟨hpending ▸ h.pending, h.valid, h.owned, h.created,
    h.phase, hholds, hkept, hclock.trans h.ticks⟩ hphase

/-- A command whose effect on the volume is known. -/
theorem command_completes {op : DiskOp} {f : String → RecoveryError} {next : RootLayout}
    (h : ∀ uuid text, ∃ a, (w.disk.effect uuid text op).1 = .ok a ∧
      next.Holds R (w.disk.effect uuid text op).2 ∧ R.Kept (w.disk.effect uuid text op).2) :
    CompletesIff True (fun _ w' => w' = { w with disk := w'.disk } ∧
      next.Holds R w'.disk ∧ R.Kept w'.disk)
      (Attempt.call (.disk op) (Except.mapError f) : Action RecoveryError op.Result) w := by
  refine disk_completes fun uuid text => ?_
  obtain ⟨a, ha, hholds, hkept⟩ := h uuid text
  exact ⟨a, ha, rfl, hholds, hkept⟩

/-- The loop reaches the untouched layout with one reading of the clock for each command. -/
theorem revert_completes (rounds : ℕ) (hrounds : moves layout < rounds)
    (h : Holding R clock n limit .reverting layout t w) :
    CompletesIff (NotBefore limit { clock with ticks := clock.ticks + n } (moves layout))
      (Holding R clock (n + moves layout) limit .reverting .untouched)
      (Recovery.revert rounds t) w := by
  induction rounds generalizing layout n t w with
  | zero => omega
  | succ rounds ih =>
    refine (observe_completes h).then ?_
    rintro _ _ ⟨rfl, rfl⟩
    -- every command leads to the layout with one command less to go
    have hstep : ∀ (next : RootLayout) {change : Action RecoveryError Unit}
        (value : RecoveryCheckpoint), moves layout = moves next + 1 →
        CompletesIff True (fun _ w' => w' = { w with disk := w'.disk } ∧
          next.Holds R w'.disk ∧ R.Kept w'.disk) change w →
        CompletesIff (NotBefore limit { clock with ticks := clock.ticks + n } (moves layout))
          (Holding R clock (n + moves layout) limit .reverting .untouched)
          (Recovery.moved change t value >>= Recovery.revert rounds) w := by
      intro next change value hmoves hchange
      have hrest := (moved_completes value h rfl hchange).bind
        fun t' w' h' => ih (by omega) h'
      rw [hmoves, Nat.add_comm (moves next) 1, ← Nat.add_assoc]
      exact hrest.congr (notBefore_add 1 (moves next)).symm
    cases layout with
    | untouched => exact (succeedsIff_pure h).congr notBefore_zero.symm
    | staged =>
      refine hstep .untouched .discardedRootDeleted rfl (command_completes ?_)
      rw [h.owned.new_eq]
      exact fun uuid text => ⟨(), h.holds.discard h.kept⟩
    | shielded =>
      refine hstep .staged .fallbackRootActivated rfl (command_completes ?_)
      rw [h.owned.old_eq]
      exact fun uuid text => ⟨(), h.holds.putBack h.kept⟩
    | activated =>
      refine hstep .shielded .restoredRootMovedAside rfl (command_completes ?_)
      rw [h.owned.new_eq]
      exact fun uuid text => ⟨(), h.holds.moveAside h.kept⟩

theorem finishRevert_completes (h : Holding R clock n limit .reverting layout t w) :
    CompletesIff (NotBefore limit { clock with ticks := clock.ticks + n } (moves layout + 2))
      (fun outcome w' => outcome = .reverted ∧ RootLayout.untouched.Holds R w'.disk)
      (Recovery.finishRevert t) w := by
  have hrounds : moves layout < Recovery.revertRounds := by
    cases layout <;> decide
  refine ((revert_completes _ hrounds h).bind fun t₁ w₁ h₁ => ?_).congr
    (notBefore_add (moves layout) 2).symm
  rw [Nat.add_assoc clock.ticks n]
  have henter := enterPhase_completes .reverted .revertedRecorded h₁ rfl rfl rfl
  have hpure : ∀ t₂ w₂, Holding R clock (n + moves layout + 2) limit .reverted .untouched t₂ w₂ →
      CompletesIff True (fun outcome w' => outcome = .reverted ∧
        RootLayout.untouched.Holds R w'.disk)
        (pure .reverted : Action RecoveryError RecoveryOutcome) w₂ := fun _ _ h₂ =>
    succeedsIff_pure ⟨rfl, h₂.holds⟩
  exact (henter.bind hpure).congr (iff_of_eq (and_true _))

theorem revertTransaction_completes (h : Holding R clock n limit phase layout t w)
    (hphase : phase.requiresAttempt = true) (hcan : phase.canTransitionTo .reverting = true) :
    CompletesIff (NotBefore limit { clock with ticks := clock.ticks + n } (2 + (moves layout + 2)))
      (fun outcome w' => outcome = .reverted ∧ RootLayout.untouched.Holds R w'.disk)
      (Recovery.revertTransaction t) w := by
  refine ((enterPhase_completes .reverting .revertStarted h hphase rfl hcan).bind fun t₁ w₁ h₁ =>
    finishRevert_completes h₁).congr ?_
  rw [notBefore_add 2, Nat.add_assoc clock.ticks n]

end Steps

section Fallback

variable {R : Restore} {t : RollbackTransaction} {layout : RootLayout} {w : World}

theorem Interrupted.holding (h : Interrupted R t layout w) :
    Holding R w.clock 0 t.createdAt t.phase layout t w where
  pending := by simp [h.pending]
  valid := h.valid
  owned := h.owned
  created := rfl
  phase := rfl
  holds := h.holds
  kept := h.kept
  ticks := rfl

/-- The boot of an interrupted restore, when no operation fails. -/
theorem execute_completes {requested : Option RollbackId} {bootId : String}
    (h : Interrupted R t layout w) (hfall : FallsBack t requested bootId) :
    CompletesIff (NotBefore t.createdAt w.clock (clockReadings t.phase layout))
      (fun outcome w' => outcome = .reverted ∧ RootLayout.untouched.Holds R w'.disk)
      (Recovery.execute requested bootId) w := by
  have htop : CompletesIff True (fun _ w' => w = w') Recovery.ensureTopLevel w :=
    disk_completes fun _ _ => ⟨(), rfl, rfl⟩
  refine htop.then ?_
  rintro _ _ rfl
  have hvalid : ∀ p ∈ w.pending, p.Valid := by
    intro p hp
    rw [h.pending] at hp
    cases hp
    exact h.valid
  have hload : CompletesIff True (fun found w' => found = w.pending ∧ w = w')
      (Attempt.mapError Recovery.transactionError TransactionStore.loadPending) w :=
    (loadPending_completes hvalid).mapError
  refine hload.then ?_
  rintro _ _ ⟨rfl, rfl⟩
  rw [h.pending]
  have hholding := h.holding
  unfold FallsBack at hfall
  simp only
  cases hphase : t.phase with
  | preparing | armed | reverted | confirmed | failed => simp [hphase] at hfall
  | applying =>
    rw [hphase] at hfall hholding
    rw [Recovery.executeApplying, if_neg hfall]
    exact (revertTransaction_completes hholding rfl rfl).congr (by
      rw [show clockReadings .applying layout = 2 + (moves layout + 2) from rfl, Nat.add_zero])
  | bootedUnconfirmed =>
    rw [hphase] at hfall hholding
    rw [if_neg hfall]
    exact revertTransaction_completes hholding rfl rfl
  | reverting =>
    rw [hphase] at hholding
    refine (finishRevert_completes hholding).congr ?_
    rw [show clockReadings .reverting layout = moves layout + 2 by simp [clockReadings]]
    rfl

/-- Every state that a sequence of boots reaches before a confirmation, with a restore
that is being applied, unconfirmed or being reverted, is such an interrupted restore. -/
theorem interrupted_of_boots {current : Subvolume} {w₀ : World} {t₀ : RollbackTransaction}
    (h : RollbackSafety.Armed t₀ current w₀) (boots : List RollbackSafety.Boot)
    (hnot : ¬ RollbackSafety.Stored .confirmed (RollbackSafety.runBoots boots (w₀, [])).2)
    (hp : (RollbackSafety.runBoots boots (w₀, [])).1.pending = some t) :
    ∃ layout, Interrupted (RollbackSafety.restoreOf t₀ current w₀) t layout
      (RollbackSafety.runBoots boots (w₀, [])).1 := by
  have hvalid : RollbackSafety.PendingValid w₀ := by
    intro t' ht'
    rw [h.pending] at ht'
    cases ht'
    exact h.valid
  have hkept := RollbackSafety.runBoots_pendingValid boots (s := (w₀, [])) hvalid
  rcases RollbackSafety.runBoots_safe boots h.safe with hst | ⟨pending, disk, reverting, hhere, hs⟩
  · exact absurd hst hnot
  · obtain ⟨layout, hholds, -⟩ := hs.layout
    have howned : RollbackSafety.Owned _ t := hs.owned t (hhere.pending_eq.symm.trans hp)
    exact ⟨layout, hp, hkept t hp, howned, hhere.disk_eq ▸ hholds, hhere.disk_eq ▸ hs.kept⟩

/-- Without faults, the boot of an interrupted restore ends with the old system as the only
root exactly when none of the clock readings it takes is before the creation time. -/
theorem fallback_iff_clock_not_before_creation {requested : Option RollbackId} {bootId : String}
    (h : Interrupted R t layout w) (hfall : FallsBack t requested bootId) (choices : ℕ → Choice)
    (hchoices : ∀ n, (choices n).Faultless) :
    (((Recovery.execute requested bootId).run.runToEnd perform choices w).1 = .ok .reverted ∧
      RootLayout.untouched.Holds R
        ((Recovery.execute requested bootId).run.runToEnd perform choices w).2.disk) ↔
      NotBefore t.createdAt w.clock (clockReadings t.phase layout) := by
  obtain ⟨hsuccess, hfailure⟩ := (execute_completes h hfall).runToEnd choices hchoices
  constructor
  · rintro ⟨hok, -⟩
    by_contra hnot
    obtain ⟨e, he⟩ := hfailure hnot
    rw [he] at hok
    cases hok
  · intro hcond
    obtain ⟨outcome, hok, rfl, hholds⟩ := hsuccess hcond
    exact ⟨hok, hholds⟩

end Fallback

section Instance

/-! An unconfirmed restore of the sample host, seen from another boot. -/

def unconfirmedTransaction : RollbackTransaction :=
  { RollbackSafety.sampleTransaction with
    phase := .bootedUnconfirmed
    updatedAt := 120
    initramfsAttempts := 1
    initramfsBootId := some (Uuid.repeated 9).hyphenated
    checkpoint := some .bootedUnconfirmedRecorded
    checkpointAt := some 120
    applyAttempts := 1
    applyingBootId := some (Uuid.repeated 9).hyphenated }

def unconfirmedRestore : Restore :=
  ⟨.repeated 1, .repeated 2, RollbackSafety.sampleRoot, RollbackSafety.sampleDisk.snapshots⟩

def restoredRoot : Subvolume := ⟨300, .repeated 8, some (.repeated 6), false, []⟩

def unconfirmedDisk : Disk :=
  { RollbackSafety.sampleDisk with
    top := Function.update (Function.update (fun _ => none) rootName (some restoredRoot))
      unconfirmedRestore.old (some RollbackSafety.sampleRoot)
    nextSubvolId := 301 }

/-- The host with a clock that shows the time `now` throughout. -/
def unconfirmedWorld (now : Timestamp) : World :=
  { RollbackSafety.sampleWorld with
    clock := ⟨fun _ => now, 0⟩
    disk := unconfirmedDisk
    pending := some unconfirmedTransaction
    boot := ⟨none, some unconfirmedTransaction⟩ }

theorem unconfirmed_interrupted (now : Timestamp) :
    Interrupted unconfirmedRestore unconfirmedTransaction .activated (unconfirmedWorld now) where
  pending := rfl
  valid := (RollbackTransaction.validate_eq_ok _).mp (by decide +kernel)
  owned := ⟨rfl, rfl⟩
  holds := by
    obtain ⟨d₁, d₂, d₃, d₄, d₅, d₆⟩ := unconfirmedRestore.names_distinct
    have hother : restoredRoot.subvolId ≠ unconfirmedRestore.current.subvolId := by decide
    have hsource : ∃ source, unconfirmedRestore.snapshots unconfirmedRestore.target = some source ∧
        restoredRoot.parentUuid = some source.uuid := ⟨_, rfl, rfl⟩
    refine ⟨⟨restoredRoot, ?_, hsource, rfl, hother⟩, ?_, ?_⟩
    · simp [unconfirmedWorld, unconfirmedDisk, d₁]
    · simp [unconfirmedWorld, unconfirmedDisk, unconfirmedRestore]
    · simp [unconfirmedWorld, unconfirmedDisk, d₅, d₆]
  kept := by
    have hused : unconfirmedRestore.current.subvolId < unconfirmedDisk.nextSubvolId := by decide
    refine ⟨rfl, hused, fun name v hroot hold _ hv => ?_⟩
    simp [unconfirmedWorld, unconfirmedDisk, hroot, hold] at hv

theorem unconfirmed_fallsBack :
    FallsBack unconfirmedTransaction none (Uuid.repeated 10).hyphenated := by
  show some (Uuid.repeated 9).hyphenated ≠ some (Uuid.repeated 10).hyphenated
  decide +kernel

/-- With a clock that runs after the creation of the transaction the fallback succeeds. -/
theorem fallback_with_set_clock :
    NotBefore 100 (unconfirmedWorld 200).clock 7 ∧
    ((Recovery.execute none (Uuid.repeated 10).hyphenated).run.runToEnd perform
      (fun _ => RollbackSafety.success) (unconfirmedWorld 200)).1 = .ok .reverted := by
  have hclock : NotBefore 100 (unconfirmedWorld 200).clock 7 := by
    intro i _
    show (100 : Int) ≤ 200
    decide
  exact ⟨hclock, ((fallback_iff_clock_not_before_creation (unconfirmed_interrupted 200)
    unconfirmed_fallsBack (fun _ => RollbackSafety.success) fun _ => rfl).mpr hclock).1⟩

/-- With a clock that was reset to the epoch the fallback fails, although nothing else does. -/
theorem fallback_fails_with_reset_clock :
    Interrupted unconfirmedRestore unconfirmedTransaction .activated (unconfirmedWorld 0) ∧
    FallsBack unconfirmedTransaction none (Uuid.repeated 10).hyphenated ∧
    ∃ e, ((Recovery.execute none (Uuid.repeated 10).hyphenated).run.runToEnd perform
      (fun _ => RollbackSafety.success) (unconfirmedWorld 0)).1 = .error e := by
  refine ⟨unconfirmed_interrupted 0, unconfirmed_fallsBack,
    ((execute_completes (unconfirmed_interrupted 0) unconfirmed_fallsBack).runToEnd
      (fun _ => RollbackSafety.success) fun _ => rfl).2 fun hcond => ?_⟩
  exact absurd (hcond 0 (by decide)) (by decide)

end Instance

end AutomaticFallback

end RecoveryEngine
