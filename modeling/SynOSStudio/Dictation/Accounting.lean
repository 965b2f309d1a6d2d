import SynOSStudio.Dictation.CoherentSteps

/-!
# The accounting of phrases

In every run in which no start without the model takes phrases away, each phrase of the session
is counted until its result is delivered, and a service that is off comes to rest.
-/

namespace Dictation

open WorkLedgers Relation

section Runs

def runs (s : State) (acts : List Act) : Option State :=
  acts.foldlM step s

/-- No start of the run takes phrases of the current session away. -/
def SafeRun (s : State) : List Act → Prop
  | [] => True
  | act :: rest => s.SafeStart act ∧
    match step s act with
    | some t => SafeRun t rest
    | none => True

instance decidableSafeRun (s : State) : (acts : List Act) → Decidable (SafeRun s acts)
  | [] => isTrue trivial
  | act :: rest =>
    have : Decidable (match step s act with
        | some t => SafeRun t rest
        | none => True) :=
      match step s act with
      | some t => decidableSafeRun t rest
      | none => isTrue trivial
    inferInstanceAs (Decidable (_ ∧ _))

variable {s t : State} {act : Act} {acts : List Act}

theorem runs_cons (h : runs s (act :: acts) = some t) :
    ∃ u, step s act = some u ∧ runs u acts = some t := by
  simpa [runs, List.foldlM_cons, Option.bind_eq_some_iff] using h

theorem coherent_runs (h : s.Coherent) (hruns : runs s acts = some t) (hsafe : SafeRun s acts) :
    t.Coherent := by
  induction acts generalizing s with
  | nil =>
    cases hruns
    exact h
  | cons act rest ih =>
    obtain ⟨u, hstep, hrest⟩ := runs_cons hruns
    obtain ⟨hstart, hnext⟩ := hsafe
    rw [hstep] at hnext
    exact ih (coherent_step h hstart hstep) hrest hnext

theorem previewMoves_runs (hruns : runs s acts = some t) : s.PreviewMoves t := by
  induction acts generalizing s with
  | nil =>
    cases hruns
    exact ReflTransGen.refl
  | cons act rest ih =>
    obtain ⟨u, hstep, hrest⟩ := runs_cons hruns
    exact (previewMoves_step hstep).trans (ih hrest)

end Runs

section Draining

/-- The steps of the worker and of the main loop, which nobody has to ask for. -/
def Act.internal : Act → Bool
  | .take => true
  | .enter _ => true
  | .announce _ => true
  | .succeed _ _ => true
  | .fail => true
  | .abandon => true
  | .idle _ _ => true
  | _ => false

/-- What `_idle_check` asks of a service before it stops it. -/
def State.idle (s : State) : Bool :=
  !s.active && !s.testing && s.pending = 0

def Worker.load : Worker → ℕ
  | .waiting => 0
  | .took _ => 7
  | .running _ _ announced => 2 + 2 * (2 - announced)

def RecognitionQueue.load (queue : RecognitionQueue) : ℕ :=
  8 * (queue.finals.length + queue.preview.toList.length)

/-- A bound on the internal steps that are left. -/
def State.load (s : State) : ℕ :=
  s.posted.length + (s.worker.load + s.queue.load)

variable {s t : State} {act : Act}

theorem cancelRunning_load (which : WorkKind → Bool) :
    (s.cancelRunning which).load = s.worker.load := by
  unfold State.cancelRunning
  cases s.worker <;> rfl

theorem invalidatePartials_load : s.invalidatePartials.load ≤ s.load := by
  have hworker : s.invalidatePartials.worker.load = s.worker.load := cancelRunning_load _
  have hqueue : s.invalidatePartials.queue.load ≤ s.queue.load := by
    simp only [State.invalidatePartials, RecognitionQueue.clearPreview, RecognitionQueue.load,
      Option.toList_none, List.length_nil]
    omega
  have hposted : s.invalidatePartials.posted = s.posted := rfl
  simp only [State.load, hposted, hworker]
  omega

theorem cancelWork_load : s.cancelWork.load ≤ s.load := by
  have hworker : s.cancelWork.worker.load = s.worker.load := cancelRunning_load fun _ => true
  have hqueue : s.cancelWork.queue.load = 0 := rfl
  have hposted : s.cancelWork.posted = s.posted := rfl
  simp only [State.load, hposted, hworker, hqueue]
  omega

theorem endSession_load : s.endSession.load ≤ s.load := by
  have hcancel := cancelWork_load (s := ({ s with session := s.session + 1 } :
    State).invalidatePartials)
  have hinvalidate := invalidatePartials_load (s := { s with session := s.session + 1 })
  exact Nat.le_trans hcancel hinvalidate

/-- The service is off, and at most so much is left to do. -/
structure State.Off (s : State) (bound : ℕ) : Prop where
  active : s.active = false
  testing : s.testing = false
  load : s.load ≤ bound

variable {bound : ℕ}

theorem off_stop (h : s.load ≤ bound) : s.stop.Off bound := by
  refine ⟨rfl, rfl, Nat.le_trans ?_ h⟩
  exact endSession_load (s := { s with active := false, testing := false })

theorem off_afterPhrase {session : ℕ} {text stop : Bool} (h : s.Off bound) :
    (s.afterPhrase session text stop).Off bound := by
  unfold State.afterPhrase
  split
  · exact off_stop h.load
  · split
    · exact ⟨h.active, h.testing, h.load⟩
    · split
      · rename_i hactive
        simp [h.active] at hactive
      · split
        · exact ⟨h.active, h.testing, h.load⟩
        · exact h

/-- No callback starts anything while the service is off. -/
theorem off_run {callback : Callback} {opened live : Bool} (h : s.Off bound) :
    (s.run callback opened live).Off bound := by
  cases callback with
  | recognitionFinished session phrase text stop =>
    unfold State.run State.recognitionFinished State.whenCurrent
    simp only
    split
    · apply off_afterPhrase
      exact ⟨h.active, h.testing, h.load⟩
    · exact h
  | recognitionFailed session phrase =>
    unfold State.run State.recognitionFailed State.whenCurrent
    simp only
    split
    · refine ⟨rfl, h.testing, Nat.le_trans ?_ h.load⟩
      exact invalidatePartials_load (s := { s with
        pending := s.pending - 1, active := false, capture := none })
    · exact h
  | overloaded session =>
    unfold State.run State.overloaded State.whenCurrent
    simp only
    split
    · refine ⟨rfl, h.testing, Nat.le_trans ?_ h.load⟩
      exact invalidatePartials_load (s := { s with active := false, capture := none })
    · exact h
  | captureFailed session =>
    unfold State.run State.captureFailed State.whenCurrent
    simp only
    split
    · refine ⟨rfl, rfl, Nat.le_trans ?_ h.load⟩
      exact endSession_load (s := { s with active := false, testing := false })
    · exact h
  | preparationState session calibrating => simpa [State.run, State.preparationState, h.active]
  | prepared session => simpa [State.run, State.prepared, h.active]
  | setSessionState session => simpa [State.run, State.setSessionState, h.active]
  | previewFinished session generation cuts text =>
    simpa [State.run, State.previewFinished, State.previewIsValid, h.active]
  | noSpeech session => simpa [State.run, State.noSpeech, h.active]

theorem load_get {queue rest : RecognitionQueue} {work : Work}
    (h : queue.get = some (work, rest)) : queue.load = rest.load + 8 := by
  unfold RecognitionQueue.get at h
  split at h
  · rename_i hfinals
    cases h
    simp only [RecognitionQueue.load, hfinals, List.length_cons]
    omega
  · rename_i hfinals hpreview
    cases h
    simp [RecognitionQueue.load, hfinals, hpreview]
  · cases h

theorem off_leave {work : Work} {cancelled : Bool} {announced : ℕ} {callbacks : List Callback}
    (hactive : s.active = false) (htesting : s.testing = false)
    (hworker : s.worker = .running work cancelled announced) (hlength : callbacks.length ≤ 1) :
    0 < s.load ∧ (s.leave callbacks).Off (s.load - 1) := by
  have hload : s.load = s.posted.length + (2 + 2 * (2 - announced) + s.queue.load) := by
    simp [State.load, hworker, Worker.load]
  refine ⟨by omega, hactive, htesting, ?_⟩
  simp only [State.leave, State.load, Worker.load, List.length_append] at hload ⊢
  omega

/-- An internal step leaves a service off and has one step less to do. -/
theorem off_step (hactive : s.active = false) (htesting : s.testing = false)
    (hinternal : act.internal) (hstep : step s act = some t) :
    0 < s.load ∧ t.Off (s.load - 1) := by
  cases act with
  | take =>
    simp only [step] at hstep
    split at hstep
    · rename_i work queue hworker hget
      cases hstep
      have hqueue := load_get hget
      have hload : s.load = s.posted.length + (queue.load + 8) := by
        simp [State.load, hworker, Worker.load, hqueue]
      refine ⟨by omega, hactive, htesting, ?_⟩
      simp only [State.load, Worker.load] at hload ⊢
      omega
    · cases hstep
  | enter live =>
    simp only [step] at hstep
    split at hstep
    · rename_i work hworker
      cases hstep
      have hload : s.load = s.posted.length + (7 + s.queue.load) := by
        simp [State.load, hworker, Worker.load]
      refine ⟨by omega, hactive, htesting, ?_⟩
      have hentered : (s.enter work live).worker.load ≤ 6 := by
        simp only [State.enter]
        split <;> simp [Worker.load]
      simp only [State.load] at hload ⊢
      have hposted : (s.enter work live).posted = s.posted := rfl
      have hqueue : (s.enter work live).queue = s.queue := rfl
      rw [hposted, hqueue]
      omega
    · cases hstep
  | announce calibrating =>
    simp only [step] at hstep
    split at hstep
    · rename_i work cancelled announced hworker
      split at hstep
      · rename_i hprepare
        cases hstep
        obtain ⟨_, hannounced⟩ := hprepare
        have hload : s.load = s.posted.length + (2 + 2 * (2 - announced) + s.queue.load) := by
          simp [State.load, hworker, Worker.load]
        refine ⟨by omega, hactive, htesting, ?_⟩
        simp only [State.post, State.load, Worker.load, List.length_append, List.length_cons,
          List.length_nil] at hload ⊢
        omega
      · cases hstep
    · cases hstep
  | succeed text stop =>
    simp only [step] at hstep
    split at hstep
    · rename_i work cancelled announced hworker
      cases hstep
      apply off_leave hactive htesting hworker
      unfold State.successCallbacks
      cases work.kind with
      | prepare =>
        simp only
        split <;> simp
      | final phrase => simp
      | preview cuts => simp
    · cases hstep
  | fail =>
    simp only [step] at hstep
    split at hstep
    · rename_i work cancelled announced hworker
      cases hstep
      apply off_leave hactive htesting hworker
      unfold State.failureCallbacks
      cases work.kind <;> simp
    · cases hstep
  | abandon =>
    simp only [step] at hstep
    split at hstep
    · rename_i work announced hworker
      cases hstep
      exact off_leave hactive htesting hworker (by simp)
    · cases hstep
  | idle opened live =>
    simp only [step] at hstep
    split at hstep
    · rename_i callback rest hposted
      cases hstep
      have hload : s.load = ({ s with posted := rest } : State).load + 1 := by
        simp only [State.load, hposted, List.length_cons]
        omega
      refine ⟨by omega, ?_⟩
      apply off_run
      exact ⟨hactive, htesting, by omega⟩
    · cases hstep
  | _ => simp [Act.internal] at hinternal

/-- While an internal step is left to do, one is possible. -/
theorem rest_of_stuck (hstuck : ∀ act, act.internal → step s act = none) :
    s.posted = [] ∧ s.worker = .waiting ∧ s.queue.get = none := by
  have hposted : s.posted = [] := by
    cases hposted : s.posted with
    | nil => rfl
    | cons callback rest =>
      have hidle := hstuck (.idle true true) rfl
      simp [step, hposted] at hidle
  have hworker : s.worker = .waiting := by
    cases hworker : s.worker with
    | waiting => rfl
    | took work =>
      have henter := hstuck (.enter true) rfl
      simp [step, hworker] at henter
    | running work cancelled announced =>
      have hfail := hstuck .fail rfl
      simp [step, hworker] at hfail
  refine ⟨hposted, hworker, ?_⟩
  cases hget : s.queue.get with
  | none => rfl
  | some next =>
    have htake := hstuck .take rfl
    simp [step, hworker, hget] at htake

theorem State.Coherent.idle_of_stuck (h : s.Coherent) (hactive : s.active = false)
    (htesting : s.testing = false) (hstuck : ∀ act, act.internal → step s act = none) :
    s.idle = true := by
  obtain ⟨hposted, hworker, hget⟩ := rest_of_stuck hstuck
  have hfinals : s.queue.finals = [] := by
    unfold RecognitionQueue.get at hget
    split at hget
    · cases hget
    · cases hget
    · assumption
  have hcounted : s.pending = s.outstanding.length := h.sound.counted
  have hpending : s.pending = 0 := by
    rw [hcounted]
    simp [State.outstanding, State.inFlight, hposted, hworker, Worker.items,
      RecognitionQueue.items, hfinals]
  simp [State.idle, hactive, htesting, hpending]

/-- An internal step takes no phrases away. -/
theorem safe_of_internal (h : act.internal) : s.SafeStart act := by
  intro hact
  rw [hact] at h
  cases h

/-- A service that is off comes to rest. -/
theorem State.Coherent.drains {acts : List Act} (h : s.Coherent) (hactive : s.active = false)
    (htesting : s.testing = false) (hinternal : ∀ act ∈ acts, act.internal)
    (hruns : runs s acts = some t) :
    acts.length ≤ s.load ∧
      ((∀ act, act.internal → step t act = none) → t.idle = true) := by
  induction acts generalizing s with
  | nil =>
    cases hruns
    exact ⟨Nat.zero_le _, h.idle_of_stuck hactive htesting⟩
  | cons act rest ih =>
    obtain ⟨u, hstep, hrest⟩ := runs_cons hruns
    have hact := hinternal act List.mem_cons_self
    obtain ⟨hpositive, hoff⟩ := off_step hactive htesting hact hstep
    obtain ⟨hlength, hidle⟩ := ih (coherent_step h (safe_of_internal hact) hstep) hoff.active
      hoff.testing (fun act hact => hinternal act (List.mem_cons_of_mem _ hact)) hrest
    have hload := hoff.load
    refine ⟨?_, hidle⟩
    rw [List.length_cons]
    omega

end Draining

section Accounted

/-- Every phrase is accounted for: the count is right, a result is shown as awaited only if one
is, finals come in the order of acceptance within their session, no preview comes after a cut,
and a service that is off comes to rest after a bounded number of internal steps. -/
structure State.Accounted (s : State) : Prop where
  counted : s.pending = s.outstanding.length
  awaited : s.mode = .recognizing ∨ s.mode = .finishing → s.outstanding ≠ []
  ordered : (State.deliveredFinals s.transcripts).Pairwise fun x y => x.1.number < y.1.number
  current : ∀ session phrase now, .final session phrase now ∈ s.transcripts → now = session
  uncut : ∀ queued emitted, .preview queued emitted ∈ s.transcripts → queued = emitted
  drains : s.active = false → s.testing = false → ∀ acts t, (∀ act ∈ acts, act.internal) →
    runs s acts = some t →
    acts.length ≤ s.load ∧ ((∀ act, act.internal → step t act = none) → t.idle = true)

variable {s : State} {acts : List Act}

theorem State.Coherent.accounted (h : s.Coherent) (hfresh : s.previews.Fresh) : s.Accounted where
  counted := h.sound.counted
  awaited hmode hnone := by
    have hpending := h.settled hmode
    have hcounted : s.pending = s.outstanding.length := h.sound.counted
    simp [hnone] at hcounted
    exact hpending hcounted
  ordered := h.sound.ordered
  current session phrase now hmem := by
    have hdelivered : ((⟨session, phrase⟩ : Item), now) ∈ State.deliveredFinals s.transcripts := by
      rw [State.deliveredFinals, List.mem_filterMap]
      exact ⟨_, hmem, rfl⟩
    exact h.sound.inEpoch _ hdelivered
  uncut queued emitted hmem := by
    have hdelivered : (queued, emitted) ∈ State.deliveredPreviews s.transcripts := by
      rw [State.deliveredPreviews, List.mem_filterMap]
      exact ⟨_, hmem, rfl⟩
    exact hfresh.delivered _ hdelivered
  drains hactive htesting acts t hinternal hruns := h.drains hactive htesting hinternal hruns

theorem initial_fresh : initial.previews.Fresh := by
  refine ⟨?_, ?_, ?_⟩
  · simp [initial, State.previews, State.waiting, Worker.previews, RecognitionQueue.previews]
  · simp [initial, State.previews]
  · simp [initial, State.previews, State.deliveredPreviews]

/-- In a run whose starts take no phrases away, every phrase is accounted for in every state. -/
theorem accounted_of_safe_run (hruns : runs initial acts = some s)
    (hsafe : SafeRun initial acts) : s.Accounted := by
  have hcoherent := coherent_runs initial_coherent hruns hsafe
  have hfresh := initial_fresh.of_moves (previewMoves_runs hruns)
  exact hcoherent.accounted hfresh

/-- One phrase of a session, recognized after the session was finished. -/
def onePhrase : List Act :=
  [.start true, .take, .enter true, .succeed true false, .idle true true, .deliver 1 .audio,
    .take, .enter true, .finish [], .succeed true false, .idle true true, .idle true true]

theorem onePhrase_accounted : SafeRun initial onePhrase ∧
    ∃ s, runs initial onePhrase = some s ∧ s.transcripts = [.final 1 0 1] ∧ s.Accounted := by
  have hsafe : SafeRun initial onePhrase := by decide
  refine ⟨hsafe, _, rfl, by decide, ?_⟩
  exact accounted_of_safe_run rfl hsafe

/-- A phrase is recognized while the next one is queued; then the session is finished, and the
model is gone at the next start. -/
def lostPhrase : List Act :=
  [.start true, .take, .enter true, .succeed true false, .idle true true, .deliver 1 .audio,
    .deliver 1 .audio, .take, .enter true, .succeed true false, .finish [], .start false,
    .idle true true, .idle true true, .idle true true]

/-- The lost phrase is counted for ever, and the service shows that it is finishing. -/
theorem lostPhrase_not_accounted : ∃ s, runs initial lostPhrase = some s ∧
    s.pending = 1 ∧ s.outstanding = [] ∧ s.mode = .finishing ∧ s.load = 0 ∧ s.idle = false ∧
    ¬ s.Accounted := by
  refine ⟨_, rfl, by decide, by decide, by decide, by decide, by decide, ?_⟩
  intro haccounted
  have hcounted := haccounted.counted
  revert hcounted
  decide

end Accounted

end Dictation
