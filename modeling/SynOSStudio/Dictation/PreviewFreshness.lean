import SynOSStudio.Dictation.PhraseLedger
import SynOSStudio.WorkLedgers.Previews

/-!
# The freshness of previews

The previews that are queued, being recognized or posted, and what each step of the service does
to them.
-/

namespace Dictation

open WorkLedgers Relation

section View

def Work.previews (work : Work) : List Preview :=
  match work.kind with
  | .preview cuts => [⟨work.session, work.generation, cuts⟩]
  | _ => []

def Worker.previews : Worker → List Preview
  | .waiting => []
  | .took work => work.previews
  | .running work _ _ => work.previews

def Callback.previews : Callback → List Preview
  | .previewFinished session generation cuts _ => [⟨session, generation, cuts⟩]
  | _ => []

def RecognitionQueue.previews (queue : RecognitionQueue) : List Preview :=
  queue.finals.flatMap Work.previews ++ queue.preview.toList.flatMap fun work => work.1.previews

namespace State

/-- The previews that may still be emitted. -/
def waiting (s : State) : List Preview :=
  s.posted.flatMap Callback.previews ++ (s.worker.previews ++ s.queue.previews)

def deliveredPreviews (transcripts : List Transcript) : List (ℕ × ℕ) :=
  transcripts.filterMap fun
    | .final _ _ _ => none
    | .preview queued emitted => some (queued, emitted)

def previews (s : State) : Previews where
  epoch := s.session
  active := s.active
  generation := s.generation
  floor := s.floor
  cuts := s.cuts
  waiting := s.waiting
  delivered := deliveredPreviews s.transcripts

/-- What happens to the previews between two states. -/
abbrev PreviewMoves (s t : State) : Prop := ReflTransGen PreviewMove s.previews t.previews

end State

end View

section Waiting

variable {s : State} {work : Work} {queue rest : RecognitionQueue} {p : Preview}

@[simp] theorem cancelRunning_previews (which : WorkKind → Bool) :
    (s.cancelRunning which).previews = s.worker.previews := by
  unfold State.cancelRunning
  cases s.worker <;> rfl

@[simp] theorem invalidatePartials_worker_previews :
    s.invalidatePartials.worker.previews = s.worker.previews :=
  cancelRunning_previews _

@[simp] theorem cancelWork_worker_previews :
    s.cancelWork.worker.previews = s.worker.previews :=
  cancelRunning_previews fun _ => true

@[simp] theorem cancelWork_queue_previews : s.cancelWork.queue.previews = [] := rfl

theorem invalidatePartials_queue_previews (h : p ∈ s.invalidatePartials.queue.previews) :
    p ∈ s.queue.previews := by
  simp only [State.invalidatePartials, RecognitionQueue.clearPreview, RecognitionQueue.previews,
    Option.toList_none, List.flatMap_nil, List.append_nil] at h
  exact List.mem_append_left _ h

theorem RecognitionQueue.previews_get (h : queue.get = some (work, rest)) :
    queue.previews = work.previews ++ rest.previews := by
  unfold RecognitionQueue.get at h
  split at h
  · rename_i hfinals
    cases h
    simp [RecognitionQueue.previews, hfinals]
  · rename_i preview hfinals hpreview
    cases h
    simp [RecognitionQueue.previews, hfinals, hpreview]
  · cases h

theorem RecognitionQueue.previews_put (h : queue.put work = some rest) (hp : p ∈ rest.previews) :
    p ∈ queue.previews ∨ p ∈ work.previews := by
  unfold RecognitionQueue.put at h
  split at h
  · split at h
    · cases h
    · rename_i hempty
      cases h
      have hfinals : queue.finals = [] := by simpa using hempty
      right
      simpa [RecognitionQueue.previews, hfinals] using hp
  · split at h
    · cases h
    · cases h
      simp only [RecognitionQueue.previews, List.flatMap_append, List.mem_append] at hp ⊢
      simp only [List.flatMap_cons, List.flatMap_nil, List.append_nil, Option.toList_none,
        List.not_mem_nil, or_false] at hp
      rcases hp with hp | hp
      · exact Or.inl (Or.inl hp)
      · exact Or.inr hp

theorem RecognitionQueue.previews_put_getD (hp : p ∈ ((queue.put work).getD queue).previews) :
    p ∈ queue.previews ∨ p ∈ work.previews := by
  cases hput : queue.put work with
  | none =>
    rw [hput] at hp
    exact Or.inl hp
  | some rest =>
    rw [hput] at hp
    exact RecognitionQueue.previews_put hput hp

theorem State.successCallbacks_previews (cancelled text stop : Bool) :
    (s.successCallbacks work cancelled text stop).flatMap Callback.previews = work.previews := by
  unfold State.successCallbacks Work.previews
  cases hkind : work.kind with
  | prepare =>
    simp only
    split <;> rfl
  | final phrase => rfl
  | preview cuts => rfl

theorem State.failureCallbacks_previews :
    (State.failureCallbacks work).flatMap Callback.previews = [] := by
  unfold State.failureCallbacks
  cases work.kind <;> rfl

end Waiting

section Moves

variable {s t : State}

theorem previewMoves_of_forget (hsession : t.session = s.session) (hactive : t.active = s.active)
    (hgeneration : t.generation = s.generation) (hfloor : t.floor = s.floor)
    (hcuts : t.cuts = s.cuts) (htranscripts : t.transcripts = s.transcripts)
    (hsub : ∀ p ∈ t.waiting, p ∈ s.waiting) : s.PreviewMoves t := by
  have ht : t.previews = { s.previews with waiting := t.waiting } := by
    simp [State.previews, hsession, hactive, hgeneration, hfloor, hcuts, htranscripts]
  apply ReflTransGen.single
  rw [ht]
  exact PreviewMove.forget s.previews t.waiting hsub

theorem previewMoves_of_cut (hgeneration : t.generation = s.generation + 1)
    (hfloor : t.floor = s.generation + 1) (htranscripts : t.transcripts = s.transcripts)
    (hsub : ∀ p ∈ t.waiting, p ∈ s.waiting) : s.PreviewMoves t := by
  have ht : t.previews = { s.previews with
      epoch := t.session
      active := t.active
      generation := s.previews.generation + 1
      floor := s.previews.generation + 1
      cuts := t.cuts
      waiting := t.waiting } := by
    simp [State.previews, hgeneration, hfloor, htranscripts]
  apply ReflTransGen.single
  rw [ht]
  exact PreviewMove.cut s.previews t.waiting hsub t.session t.cuts t.active

/-- The previews that wait after the three parts of the state shrink. -/
theorem waiting_subset (hposted : t.posted = s.posted)
    (hworker : t.worker.previews = s.worker.previews)
    (hqueue : ∀ p ∈ t.queue.previews, p ∈ s.queue.previews) :
    ∀ p ∈ t.waiting, p ∈ s.waiting := by
  intro p hp
  simp only [State.waiting, hposted, hworker, List.mem_append] at hp ⊢
  rcases hp with hp | hp | hp
  · exact Or.inl hp
  · exact Or.inr (Or.inl hp)
  · exact Or.inr (Or.inr (hqueue p hp))

theorem endSession_waiting : ∀ p ∈ s.endSession.waiting, p ∈ s.waiting := by
  apply waiting_subset
  · rfl
  · simp [State.endSession]
  · intro p hp
    cases hp

theorem previewMoves_stop : s.PreviewMoves s.stop :=
  previewMoves_of_cut rfl rfl rfl endSession_waiting

theorem previewMoves_stopTest : s.PreviewMoves s.stopTest :=
  previewMoves_of_cut rfl rfl rfl endSession_waiting

theorem previewMoves_of_eq (h : t.previews = s.previews) : s.PreviewMoves t := by
  unfold State.PreviewMoves
  rw [h]

theorem previewMoves_start_idle {installed : Bool} (hactive : s.active = false)
    (htesting : s.testing = false) : s.PreviewMoves (s.start installed) := by
  cases installed with
  | false =>
    apply previewMoves_of_forget
    iterate 6 simp [State.start, hactive, htesting, State.setState, State.cancelWork]
    apply waiting_subset
    · simp [State.start, hactive, htesting, State.setState, State.cancelWork]
    · simp [State.start, hactive, htesting, State.setState]
    · intro p hp
      simp [State.start, hactive, htesting, State.setState] at hp
  | true =>
    apply previewMoves_of_cut
    iterate 3 simp [State.start, hactive, htesting, State.invalidatePartials, State.cancelWork]
    apply waiting_subset
    · simp [State.start, hactive, htesting, State.invalidatePartials, State.cancelWork]
    · simp [State.start, hactive, htesting]
    · intro p hp
      simp only [State.start, hactive, htesting] at hp
      rcases RecognitionQueue.previews_put_getD hp with hp | hp
      · cases invalidatePartials_queue_previews hp
      · cases hp

theorem previewMoves_start (installed : Bool) : s.PreviewMoves (s.start installed) := by
  cases hactive : s.active with
  | true => simp [State.start, hactive, previewMoves_of_eq]
  | false =>
    cases htesting : s.testing with
    | false => exact previewMoves_start_idle hactive htesting
    | true =>
      rw [start_of_testing hactive htesting]
      apply ReflTransGen.trans previewMoves_stopTest
      exact previewMoves_start_idle (s := s.stopTest) hactive rfl

theorem previews_post {callback : Callback} (h : callback.previews = []) :
    (s.post callback).previews = s.previews := by
  simp [State.previews, State.waiting, State.post, h]

theorem previewMoves_queueAudio (session : ℕ) : s.PreviewMoves (s.queueAudio session) := by
  unfold State.queueAudio
  split
  · exact previewMoves_of_eq rfl
  · simp only
    split
    · rw [State.PreviewMoves, previews_post rfl]
      apply previewMoves_of_cut <;> try rfl
      apply waiting_subset
      · rfl
      · exact invalidatePartials_worker_previews
      · intro p hp
        exact invalidatePartials_queue_previews hp
    · rename_i queue hput
      rw [State.PreviewMoves, previews_post rfl]
      apply previewMoves_of_cut <;> try rfl
      apply waiting_subset
      · rfl
      · exact invalidatePartials_worker_previews
      · intro p hp
        rcases RecognitionQueue.previews_put hput hp with hp | hp
        · exact invalidatePartials_queue_previews hp
        · cases hp

theorem previewMoves_queuePartial (session : ℕ) (live : Bool) :
    s.PreviewMoves (s.queuePartial session live) := by
  unfold State.queuePartial
  split
  · exact previewMoves_of_eq rfl
  · rename_i hcurrent
    have hsession : session = s.session := by
      by_contra hne
      exact hcurrent (Or.inl hne)
    subst hsession
    apply ReflTransGen.single
    have hmove := PreviewMove.queue s.previews ({ s with
        generation := s.generation + 1
        queue := (s.queue.put ⟨.preview s.cuts, s.session, s.generation + 1⟩).getD s.queue } :
          State).waiting
    apply hmove
    intro p hp
    simp only [State.waiting, List.mem_append] at hp
    simp only [State.previews, State.waiting, List.mem_append]
    rcases hp with hp | hp | hp
    · exact Or.inl (Or.inl hp)
    · exact Or.inl (Or.inr (Or.inl hp))
    · rcases RecognitionQueue.previews_put_getD hp with hp | hp
      · exact Or.inl (Or.inr (Or.inr hp))
      · right
        simpa [Work.previews] using hp

theorem previewMoves_deliver (session : ℕ) (delivery : State.Delivery) :
    s.PreviewMoves (s.deliver session delivery) := by
  cases delivery with
  | audio => exact previewMoves_queueAudio session
  | preview live => exact previewMoves_queuePartial session live

theorem previewMoves_flush (session : ℕ) (flushed : List State.Delivery) :
    s.PreviewMoves (s.flush session flushed) := by
  induction flushed generalizing s with
  | nil => exact ReflTransGen.refl
  | cons delivery rest ih => exact (previewMoves_deliver session delivery).trans ih

theorem previewMoves_finish (flushed : List State.Delivery) :
    s.PreviewMoves (s.finish flushed) := by
  unfold State.finish
  split
  · split
    · exact previewMoves_stop
    · rename_i session _
      have hflush := previewMoves_flush (s := { s with capture := none }) session flushed
      generalize ({ s with capture := none } : State).flush session flushed = u at hflush ⊢
      apply ReflTransGen.trans hflush
      apply previewMoves_of_cut <;> try rfl
      apply waiting_subset
      · rfl
      · exact invalidatePartials_worker_previews
      · intro p hp
        exact invalidatePartials_queue_previews hp
  · rename_i hactive
    apply ReflTransGen.single
    exact PreviewMove.count s.previews (by simpa [State.previews] using hactive) (s.cuts + 1)

theorem previewMoves_startTest_idle (hactive : s.active = false) (opened : Bool) :
    s.PreviewMoves (s.startTest opened) := by
  cases htesting : s.testing with
  | false =>
    rw [startTest_idle hactive htesting]
    exact previewMoves_of_cut rfl rfl rfl endSession_waiting
  | true =>
    apply previewMoves_of_eq
    simp [State.startTest, hactive, htesting]

theorem previewMoves_startTest (opened : Bool) : s.PreviewMoves (s.startTest opened) := by
  cases hactive : s.active with
  | false => exact previewMoves_startTest_idle hactive opened
  | true =>
    rw [startTest_of_active hactive]
    apply ReflTransGen.trans previewMoves_stop
    exact previewMoves_startTest_idle rfl opened

theorem previewMoves_captureFailed (session : ℕ) : s.PreviewMoves (s.captureFailed session) := by
  unfold State.captureFailed State.whenCurrent
  split
  · exact previewMoves_of_cut rfl rfl rfl
      (endSession_waiting (s := { s with active := false, testing := false }))
  · exact previewMoves_of_eq rfl

theorem previewMoves_prepared (session : ℕ) (opened : Bool) :
    s.PreviewMoves (s.prepared session opened) := by
  unfold State.prepared
  split
  · cases opened with
    | false => exact previewMoves_captureFailed (s := { s with
        capture := some session, captures := s.captures ++ [session] }) session
    | true => exact previewMoves_of_eq rfl
  · exact previewMoves_of_eq rfl

theorem previewMoves_afterPhrase (session : ℕ) (text stop : Bool) :
    s.PreviewMoves (s.afterPhrase session text stop) := by
  unfold State.afterPhrase
  split
  · exact previewMoves_stop
  · apply previewMoves_of_eq
    split
    · rfl
    · split
      · split <;> rfl
      · split <;> rfl

/-- The state without previews and floor of a session whose capture is given up. -/
theorem previewMoves_giveUp (pending : ℕ) :
    s.PreviewMoves ({ s with pending := pending, active := false, capture := none } :
      State).invalidatePartials := by
  apply previewMoves_of_cut <;> try rfl
  apply waiting_subset
  · rfl
  · exact invalidatePartials_worker_previews
  · intro p hp
    exact invalidatePartials_queue_previews hp

end Moves

section Callbacks

variable {s : State} {rest : List Callback}

theorem previewMoves_pop {callback : Callback} (hposted : s.posted = callback :: rest) :
    s.PreviewMoves { s with posted := rest } := by
  apply previewMoves_of_forget (s := s) (t := { s with posted := rest }) rfl rfl rfl rfl rfl rfl
  intro p hp
  simp only [State.waiting, hposted, List.flatMap_cons, List.append_assoc] at hp ⊢
  exact List.mem_append_right _ hp

theorem previewMoves_previewFinished {session generation cuts : ℕ} {text live : Bool}
    (hposted : s.posted = .previewFinished session generation cuts text :: rest) :
    s.PreviewMoves
      (({ s with posted := rest } : State).previewFinished session generation cuts text live) := by
  unfold State.previewFinished
  split
  · rename_i hvalid
    simp only [State.previewIsValid, Bool.and_eq_true, decide_eq_true_eq] at hvalid
    obtain ⟨⟨⟨⟨hsession, hfloor⟩, hactive⟩, _⟩, _⟩ := hvalid
    apply ReflTransGen.single
    have hmove := PreviewMove.deliver s.previews ⟨session, generation, cuts⟩
      ({ s with posted := rest } : State).waiting
    have ht : ({ s with
        posted := rest, transcripts := s.transcripts ++ [.preview cuts s.cuts] } :
          State).previews = { s.previews with
            waiting := ({ s with posted := rest } : State).waiting
            delivered := s.previews.delivered ++ [(cuts, s.previews.cuts)] } := by
      simp [State.previews, State.deliveredPreviews, State.waiting]
    rw [ht]
    apply hmove
    · intro p hp
      simp only [State.previews, State.waiting, hposted, List.flatMap_cons,
        List.append_assoc] at hp ⊢
      exact List.mem_append_right _ hp
    · simp [State.previews, State.waiting, hposted, Callback.previews]
    · exact hsession
    · exact hactive
    · exact hfloor
  · exact previewMoves_pop hposted

theorem previewMoves_run {callback : Callback} {opened live : Bool}
    (hposted : s.posted = callback :: rest) :
    s.PreviewMoves (({ s with posted := rest } : State).run callback opened live) := by
  have hpop := previewMoves_pop hposted
  cases callback with
  | recognitionFinished session phrase text stop =>
    apply hpop.trans
    unfold State.run State.recognitionFinished State.whenCurrent
    simp only
    split
    · refine ReflTransGen.trans (previewMoves_of_eq ?_) (previewMoves_afterPhrase session text stop)
      cases text with
      | false => simp [State.previews, State.waiting]
      | true => simp [State.previews, State.waiting, State.deliveredPreviews]
    · exact previewMoves_of_eq rfl
  | recognitionFailed session phrase =>
    apply hpop.trans
    unfold State.run State.recognitionFailed State.whenCurrent
    simp only
    split
    · exact previewMoves_giveUp (s := { s with posted := rest }) (s.pending - 1)
    · exact previewMoves_of_eq rfl
  | prepared session => exact hpop.trans (previewMoves_prepared session opened)
  | captureFailed session => exact hpop.trans (previewMoves_captureFailed session)
  | preparationState session calibrating =>
    apply hpop.trans
    apply previewMoves_of_eq
    unfold State.run State.preparationState
    simp only
    split <;> rfl
  | overloaded session =>
    apply hpop.trans
    unfold State.run State.overloaded State.whenCurrent
    simp only
    split
    · exact previewMoves_giveUp (s := { s with posted := rest }) s.pending
    · exact previewMoves_of_eq rfl
  | setSessionState session =>
    apply hpop.trans
    apply previewMoves_of_eq
    unfold State.run State.setSessionState
    simp only
    split <;> rfl
  | previewFinished session generation cuts text =>
    exact previewMoves_previewFinished hposted
  | noSpeech session =>
    apply hpop.trans
    apply previewMoves_of_eq
    unfold State.run State.noSpeech
    simp only
    split <;> rfl

end Callbacks

section Steps

variable {s t : State} {act : Act}

/-- Posting what a worker has left keeps no preview but those it had. -/
theorem previewMoves_leave {work : Work} {cancelled : Bool} {announced : ℕ}
    (hworker : s.worker = .running work cancelled announced) {callbacks : List Callback}
    (hsub : ∀ p ∈ callbacks.flatMap Callback.previews, p ∈ work.previews) :
    s.PreviewMoves (s.leave callbacks) := by
  apply previewMoves_of_forget (s := s) (t := s.leave callbacks) rfl rfl rfl rfl rfl rfl
  intro p hp
  simp only [State.leave, State.waiting, List.flatMap_append, List.mem_append, Worker.previews,
    hworker] at hp ⊢
  rcases hp with (hp | hp) | hp | hp
  · exact Or.inl hp
  · exact Or.inr (Or.inl (hsub p hp))
  · cases hp
  · exact Or.inr (Or.inr hp)

theorem previewMoves_step (h : step s act = some t) : s.PreviewMoves t := by
  cases act with
  | start installed =>
    cases h
    exact previewMoves_start installed
  | stop =>
    cases h
    exact previewMoves_stop
  | finish flushed =>
    cases h
    exact previewMoves_finish flushed
  | startTest opened =>
    cases h
    exact previewMoves_startTest opened
  | stopTest =>
    cases h
    exact previewMoves_stopTest
  | deliver session delivery =>
    simp only [step] at h
    split at h
    · cases h
      exact previewMoves_deliver session delivery
    · cases h
  | captureError session =>
    cases h
    exact previewMoves_of_eq (previews_post rfl)
  | captureSilent session =>
    cases h
    exact previewMoves_of_eq (previews_post rfl)
  | take =>
    simp only [step] at h
    split at h
    · rename_i work queue hworker hget
      cases h
      apply previewMoves_of_eq
      simp [State.previews, State.waiting, hworker, Worker.previews,
        RecognitionQueue.previews_get hget]
    · cases h
  | enter live =>
    simp only [step] at h
    split at h
    · rename_i work hworker
      cases h
      apply previewMoves_of_forget (s := s) (t := s.enter work live) rfl rfl rfl rfl rfl rfl
      intro p hp
      simp only [State.enter, State.waiting, List.mem_append, hworker] at hp ⊢
      rcases hp with hp | hp | hp
      · exact Or.inl hp
      · split at hp
        · exact Or.inr (Or.inl hp)
        · cases hp
      · exact Or.inr (Or.inr hp)
    · cases h
  | announce calibrating =>
    simp only [step] at h
    split at h
    · rename_i work cancelled announced hworker
      split at h
      · cases h
        apply previewMoves_of_eq
        rw [previews_post rfl]
        simp [State.previews, State.waiting, hworker, Worker.previews]
      · cases h
    · cases h
  | succeed text stop =>
    simp only [step] at h
    split at h
    · rename_i work cancelled announced hworker
      cases h
      apply previewMoves_leave hworker
      intro p hp
      rwa [State.successCallbacks_previews] at hp
    · cases h
  | fail =>
    simp only [step] at h
    split at h
    · rename_i work cancelled announced hworker
      cases h
      apply previewMoves_leave hworker
      intro p hp
      rw [State.failureCallbacks_previews] at hp
      cases hp
    · cases h
  | abandon =>
    simp only [step] at h
    split at h
    · rename_i work announced hworker
      cases h
      apply previewMoves_leave hworker
      intro p hp
      cases hp
    · cases h
  | idle opened live =>
    simp only [step] at h
    split at h
    · rename_i callback rest hposted
      cases h
      exact previewMoves_run hposted
    · cases h
  | timer session =>
    simp only [step] at h
    split at h
    · cases h
      apply previewMoves_of_eq
      unfold State.restoreListeningState
      split <;> rfl
    · cases h

end Steps

end Dictation
