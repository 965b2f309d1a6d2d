import SynOSStudio.Dictation.Coherence

/-!
# The service stays coherent

Each step keeps a coherent state coherent, as long as no start takes phrases of the current
session away.
-/

namespace Dictation

open WorkLedgers Relation

section Calls

variable {s t : State}

theorem initial_coherent : initial.Coherent where
  sound := ⟨by simp [initial, State.ledger, State.inFlight, Worker.items, RecognitionQueue.items],
    rfl, List.Pairwise.nil, by simp [initial, State.ledger, State.inFlight, Worker.items,
      RecognitionQueue.items], List.Pairwise.nil, by simp [initial, State.ledger,
      State.deliveredFinals], by simp [initial, State.ledger, State.deliveredFinals]⟩
  kept := trivial
  once n := by simp [initial, State.preparations, Worker.preparations,
    RecognitionQueue.preparations]
  fresh n _ := by simp [initial, State.preparations, Worker.preparations,
    RecognitionQueue.preparations]
  captured item hitem := by
    simp [initial, State.inFlight, Worker.items, RecognitionQueue.items] at hitem
  opened h := by simp [initial] at h
  testing h := by simp [initial] at h
  marked := trivial
  known n h := by simp [initial] at h
  settled h := by simp [initial] at h

/-- The parts of the state that ending a session leaves. -/
theorem endSession_inFlight : ∀ item ∈ s.endSession.inFlight, item ∈ s.inFlight := by
  intro item hitem
  have hsub : s.endSession.ledger.items.Sublist s.ledger.items := by
    simp only [State.ledger, State.inFlight, State.endSession, cancelWork_worker_items,
      invalidatePartials_worker_items, cancelWork_queue_items, List.append_nil]
    simp [State.cancelWork, State.invalidatePartials]
  exact hsub.subset hitem

theorem endSession_preparations (n : ℕ) :
    s.endSession.preparations.count n ≤ s.preparations.count n := by
  simp only [State.preparations, State.endSession, cancelWork_worker_preparations,
    invalidatePartials_worker_preparations, cancelWork_queue_preparations, List.count_append,
    List.count_nil]
  simp [State.cancelWork, State.invalidatePartials]

/-- A call that ends the session. -/
theorem coherent_of_endSession (h : s.Coherent) (hmoves : s.Moves t)
    (hsession : t.session = s.session + 1) (hpending : t.pending = 0)
    (hworker : t.worker = s.endSession.worker) (hqueue : t.queue = s.endSession.queue)
    (hposted : t.posted = s.posted) (hcaptures : t.captures = s.captures)
    (hcapture : t.active = false ∨ t.capture = none)
    (htesting : t.testing = true → t.active = false)
    (hmode : t.mode ≠ .recognizing ∧ t.mode ≠ .finishing) : t.Coherent := by
  have hinFlight : t.inFlight = s.endSession.inFlight := by
    simp only [State.inFlight, hworker, hqueue, hposted]
    rfl
  have hpreparations : t.preparations = s.endSession.preparations := by
    simp only [State.preparations, hworker, hqueue, hposted]
    rfl
  apply h.of_end hmoves (by omega) hpending
  · rw [hworker, State.endSession, cancelWork_worker_items]
    exact invalidatePartials_worker_items
  · intro n
    rw [hpreparations]
    have hn := endSession_preparations (s := s) n
    omega
  · exact hcaptures
  · exact hposted
  · rw [hinFlight]
    exact endSession_inFlight
  · exact hcapture
  · exact htesting
  · exact hmode

theorem coherent_stop (h : s.Coherent) : s.stop.Coherent := by
  apply coherent_of_endSession h moves_stop <;> try rfl
  · exact Or.inl rfl
  · exact fun _ => rfl
  · simp [State.stop]

theorem coherent_stopTest (h : s.Coherent) : s.stopTest.Coherent := by
  apply coherent_of_endSession h moves_stopTest <;> try rfl
  · exact Or.inr rfl
  · intro htesting
    cases htesting
  · simp [State.stopTest]

theorem coherent_startTest_idle (h : s.Coherent) (hactive : s.active = false) (opened : Bool) :
    (s.startTest opened).Coherent := by
  have hmoves := moves_startTest_idle hactive opened
  cases htesting : s.testing with
  | false =>
    rw [startTest_idle hactive htesting] at hmoves ⊢
    apply coherent_of_endSession h hmoves <;> try rfl
    · exact Or.inl hactive
    · exact fun _ => hactive
    · cases opened <;> simp
  | true =>
    have hsame : s.startTest opened = s := by
      simp [State.startTest, hactive, htesting]
    rwa [hsame]

theorem coherent_startTest (h : s.Coherent) (opened : Bool) :
    (s.startTest opened).Coherent := by
  cases hactive : s.active with
  | false => exact coherent_startTest_idle h hactive opened
  | true =>
    rw [startTest_of_active hactive]
    exact coherent_startTest_idle (coherent_stop h) rfl opened

theorem coherent_captureFailed (h : s.Coherent) (session : ℕ) :
    (s.captureFailed session).Coherent := by
  have hmoves : s.Moves (s.captureFailed session) := moves_captureFailed session
  unfold State.captureFailed State.whenCurrent at hmoves ⊢
  split
  · rename_i hsession
    rw [if_pos hsession] at hmoves
    apply coherent_of_endSession h hmoves <;> try rfl
    · exact Or.inl rfl
    · exact fun _ => rfl
    · simp
  · exact h

theorem cancellable_subset {item : Item} (hitem : item ∈ s.cancellable) :
    item ∈ s.worker.items ∨ item ∈ s.queue.items := by
  unfold State.cancellable at hitem
  rcases List.mem_append.mp hitem with hitem | hitem
  · left
    cases hworker : s.worker with
    | waiting => simp [hworker] at hitem
    | took work => simp [hworker] at hitem
    | running work cancelled announced => simpa [hworker, Worker.items] using hitem
  · exact Or.inr hitem

/-- What is cancelled by a start without the model is of no current phrase. -/
theorem coherent_start_refused (h : s.Coherent) (hactive : s.active = false)
    (htesting : s.testing = false) (hsafe : ∀ item ∈ s.cancellable, item.epoch ≠ s.session) :
    (s.start false).Coherent := by
  have hmoves : s.Moves (s.start false) := by
    apply moves_start_idle hactive htesting
    intro _ item hitem
    apply hsafe
    simp [State.cancellable, hitem]
  have hstart : s.start false = { s.cancelWork with finishMessage := false, mode := .error } := by
    simp [State.start, hactive, htesting, State.setState]
  rw [hstart] at hmoves ⊢
  apply h.of_same hmoves
  · rfl
  · change (s.cancelRunning fun _ => true).Kept s.session
    apply kept_cancelRunning h.kept
    intro work cancelled announced hworker _ item hitem
    apply hsafe
    simp [State.cancellable, hworker, hitem]
  · intro n
    simp only [State.preparations, cancelWork_worker_preparations, cancelWork_queue_preparations,
      List.count_append, List.count_nil]
    simp [State.cancelWork]
  · intro item hitem
    apply h.captured
    simp only [State.inFlight, cancelWork_worker_items, cancelWork_queue_items] at hitem
    simp only [State.cancelWork, List.append_nil] at hitem
    simp only [State.inFlight, List.mem_append] at hitem ⊢
    rcases hitem with hitem | hitem
    · exact Or.inl hitem
    · exact Or.inr (Or.inl hitem)
  · intro hon
    simp [State.cancelWork, hactive] at hon
  · intro hon
    simp [State.cancelWork, htesting] at hon
  · apply h.marked.mono
    rintro ⟨item, hitem, hsession⟩
    simp only [cancelWork_worker_items, cancelWork_queue_items, List.append_nil]
    rcases List.mem_append.mp hitem with hitem | hitem
    · exact ⟨item, hitem, hsession⟩
    · exfalso
      apply hsafe item _ hsession
      simp [State.cancellable, hitem]
  · exact h.known
  · simp

theorem coherent_start_installed (h : s.Coherent) (hactive : s.active = false)
    (htesting : s.testing = false) : (s.start true).Coherent := by
  have hmoves : s.Moves (s.start true) := by
    apply moves_start_idle hactive htesting
    intro hinstalled
    cases hinstalled
  have hworker : (s.start true).worker.preparations = s.worker.preparations := by
    simp [State.start, hactive, htesting]
  have hposted : (s.start true).posted = s.posted := by
    simp [State.start, hactive, htesting, State.invalidatePartials, State.cancelWork]
  have hqueue : (s.start true).queue.preparations = [(s.start true).session] := by
    simp [State.start, hactive, htesting, State.invalidatePartials, State.cancelWork,
      RecognitionQueue.clear, RecognitionQueue.clearPreview, RecognitionQueue.put,
      WorkKind.isPreview, maxFinals, RecognitionQueue.preparations, Work.preparations]
  apply h.of_end hmoves
  · simp [State.start, hactive, htesting, State.invalidatePartials, State.cancelWork]
  · simp [State.start, hactive, htesting]
  · simp [State.start, hactive, htesting]
  · intro n
    simp only [State.preparations, hworker, hposted, hqueue, List.count_append,
      List.count_singleton]
    by_cases hn : n = (s.start true).session
    · subst hn
      simp
      omega
    · have hne : ((s.start true).session == n) = false := by
        simpa using fun h => hn h.symm
      simp only [hne, hn]
      simp
  · simp [State.start, hactive, htesting, State.invalidatePartials, State.cancelWork]
  · exact hposted
  · intro item hitem
    rw [inFlight_start_installed hactive htesting] at hitem
    simp only [State.inFlight, List.mem_append] at hitem ⊢
    rcases hitem with hitem | hitem
    · exact Or.inl hitem
    · exact Or.inr (Or.inl hitem)
  · right
    simp [State.start, hactive, htesting]
  · intro hon
    simp [State.start, hactive, htesting, State.invalidatePartials, State.cancelWork] at hon
  · simp [State.start, hactive, htesting]

theorem coherent_start {installed : Bool} (h : s.Coherent)
    (hsafe : s.SafeStart (.start installed)) : (s.start installed).Coherent := by
  cases hactive : s.active with
  | true => simpa [State.start, hactive] using h
  | false =>
    cases htesting : s.testing with
    | false =>
      cases installed with
      | true => exact coherent_start_installed h hactive htesting
      | false =>
        apply coherent_start_refused h hactive htesting
        rcases hsafe rfl with hon | hsafe
        · simp [hactive] at hon
        · exact hsafe
    | true =>
      have htest := coherent_stopTest h
      have hactive' : s.stopTest.active = false := hactive
      have htesting' : s.stopTest.testing = false := rfl
      rw [start_of_testing hactive htesting]
      cases installed with
      | true => exact coherent_start_installed htest hactive' htesting'
      | false =>
        apply coherent_start_refused htest hactive' htesting'
        intro item hitem
        have hworker : item ∈ s.worker.items := by
          rcases cancellable_subset hitem with hitem | hitem
          · rwa [State.stopTest, State.endSession, cancelWork_worker_items,
              invalidatePartials_worker_items] at hitem
          · cases hitem
        have hle := h.worker_epoch_le hworker
        have hsession : s.stopTest.session = s.session + 1 := rfl
        omega

/-- The previews may be invalidated along with what a step shows. -/
theorem coherent_invalidated (h : s.Coherent) (hposted : t.posted = s.posted)
    (hsession : t.session = s.session) (hpending : t.pending = s.pending)
    (haccepted : t.accepted = s.accepted) (htranscripts : t.transcripts = s.transcripts)
    (hworker : t.worker = s.invalidatePartials.worker)
    (hqueue : t.queue = s.invalidatePartials.queue) (hcaptures : t.captures = s.captures)
    (hopened : t.active = true → ∀ n, t.capture = some n → n ∈ s.captures)
    (htesting : t.testing = true → t.active = false)
    (htest : t.testing = s.testing)
    (hsettled : t.mode = .recognizing ∨ t.mode = .finishing → t.pending ≠ 0) : t.Coherent := by
  have hitems : t.worker.items = s.worker.items := by
    rw [hworker, invalidatePartials_worker_items]
  have hqueueItems : t.queue.items = s.queue.items := by
    rw [hqueue, invalidatePartials_queue_items]
  apply h.of_quiet
  · simp only [State.ledger, State.inFlight, hposted, hsession, hpending, haccepted, htranscripts,
      hitems, hqueueItems]
  · exact hposted
  · exact hitems
  · exact hqueueItems
  · simp [State.preparations, hposted, hworker, hqueue]
  · exact hcaptures
  · rw [hworker]
    exact kept_invalidatePartials h.kept
  · exact hopened
  · intro hon
    refine ⟨htesting hon, ?_⟩
    rw [htest] at hon
    rw [hpending]
    exact (h.testing hon).2
  · exact hsettled

/-- A callback without a phrase or a preparation may be posted, but no change to `recognizing`. -/
theorem coherent_post {callback : Callback} (h : s.Coherent) (hitems : callback.items = [])
    (hpreparations : callback.preparations = [])
    (hmark : ∀ n, callback ≠ .setSessionState n) : (s.post callback).Coherent := by
  apply h.of_same (moves_of_eq (ledger_post s hitems)) rfl
  · exact h.kept
  · intro n
    simp [State.preparations, State.post, hpreparations]
  · intro item hitem
    rw [inFlight_post_quiet s hitems] at hitem
    exact h.captured item hitem
  · exact h.opened
  · exact h.testing
  · apply Marked.append
    · simp only [List.flatMap_cons, List.flatMap_nil, hitems, List.nil_append]
      exact h.marked
    · exact ⟨fun hcallback => absurd hcallback (hmark _), trivial⟩
  · intro n hn
    rcases List.mem_append.mp hn with hn | hn
    · exact h.known n hn
    · simp only [List.mem_singleton] at hn
      exact absurd hn.symm (hmark n)
  · exact h.settled

theorem coherent_queueAudio (h : s.Coherent) {session : ℕ} (hsession : session ∈ s.captures) :
    (s.queueAudio session).Coherent := by
  have hmoves : s.Moves (s.queueAudio session) := moves_queueAudio session
  unfold State.queueAudio at hmoves ⊢
  split
  · exact h
  · rename_i hcurrent
    rw [if_neg hcurrent] at hmoves
    simp only [not_or, not_not] at hcurrent
    obtain ⟨rfl, hactive⟩ := hcurrent
    simp only at hmoves ⊢
    split
    · apply coherent_post
      · exact coherent_invalidated h rfl rfl rfl rfl rfl rfl rfl rfl h.opened
          (fun htesting => (h.testing htesting).1) rfl h.settled
      · rfl
      · rfl
      · simp
    · rename_i queue hput
      have hitems := RecognitionQueue.items_put hput
      have hpreparations := RecognitionQueue.preparations_put hput
      rw [hput] at hmoves
      have htail : (⟨s.session, s.accepted⟩ : Item) ∈ queue.items := by
        rw [hitems]
        simp [Work.items, State.invalidatePartials]
      apply h.of_same hmoves rfl
      · exact kept_invalidatePartials h.kept
      · intro n
        simp [State.preparations, State.post, hpreparations, Callback.preparations,
          Work.preparations]
        simp [State.invalidatePartials, RecognitionQueue.clearPreview,
          RecognitionQueue.preparations]
      · intro item hitem
        simp only [State.inFlight, State.post, List.flatMap_append, List.mem_append,
          invalidatePartials_worker_items, hitems, invalidatePartials_queue_items] at hitem
        rcases hitem with (hitem | hitem) | hitem | hitem | hitem
        · exact h.captured item (List.mem_append_left _ hitem)
        · cases hitem
        · exact h.captured item (by simp [State.inFlight, hitem])
        · exact h.captured item (by simp [State.inFlight, hitem])
        · have hepoch : item.epoch = s.session := by
            simp only [Work.items, List.mem_singleton] at hitem
            rw [hitem]
          rwa [hepoch]
      · exact h.opened
      · intro htesting
        have hoff := (h.testing htesting).1
        exact absurd hoff hactive
      · apply Marked.append
        · apply h.marked.mono
          rintro ⟨item, hitem, hepoch⟩
          refine ⟨item, ?_, hepoch⟩
          simp only [State.post, List.mem_append, invalidatePartials_worker_items, hitems,
            invalidatePartials_queue_items] at hitem ⊢
          tauto
        · refine ⟨fun _ => ?_, trivial⟩
          exact ⟨_, List.mem_append_right _ (List.mem_append_right _ htail), rfl⟩
      · intro n hn
        rcases List.mem_append.mp hn with hn | hn
        · exact h.known n hn
        · simp only [List.mem_singleton, Callback.setSessionState.injEq] at hn
          exact Nat.le_of_eq hn
      · intro _
        simp [State.post]

theorem coherent_queuePartial (h : s.Coherent) (session : ℕ) (live : Bool) :
    (s.queuePartial session live).Coherent := by
  unfold State.queuePartial
  split
  · exact h
  · have hitems : ((s.queue.put ⟨.preview s.cuts, session, s.generation + 1⟩).getD
        s.queue).items = s.queue.items := RecognitionQueue.items_put_getD rfl
    have hpreparations : ((s.queue.put ⟨.preview s.cuts, session, s.generation + 1⟩).getD
        s.queue).preparations = s.queue.preparations := RecognitionQueue.preparations_put_getD rfl
    apply h.of_quiet
    · simp only [State.ledger, State.inFlight, hitems]
    · rfl
    · rfl
    · exact hitems
    · simp only [State.preparations, hpreparations]
    · rfl
    · exact h.kept
    · exact h.opened
    · exact h.testing
    · exact h.settled

theorem coherent_deliver (h : s.Coherent) {session : ℕ} (hsession : session ∈ s.captures)
    (delivery : State.Delivery) : (s.deliver session delivery).Coherent := by
  cases delivery with
  | audio => exact coherent_queueAudio h hsession
  | preview live => exact coherent_queuePartial h session live

theorem deliver_captures (session : ℕ) (delivery : State.Delivery) :
    (s.deliver session delivery).captures = s.captures := by
  cases delivery with
  | audio =>
    unfold State.deliver State.queueAudio
    simp only
    split
    · rfl
    · split <;> rfl
  | preview live =>
    unfold State.deliver State.queuePartial
    simp only
    split <;> rfl

theorem coherent_flush {session : ℕ} (flushed : List State.Delivery) (h : s.Coherent)
    (hsession : session ∈ s.captures) : (s.flush session flushed).Coherent := by
  induction flushed generalizing s with
  | nil => exact h
  | cons delivery rest ih =>
    apply ih (coherent_deliver h hsession delivery)
    rwa [deliver_captures]

theorem coherent_finish (h : s.Coherent) (flushed : List State.Delivery) :
    (s.finish flushed).Coherent := by
  unfold State.finish
  split
  · rename_i hactive
    split
    · exact coherent_stop h
    · rename_i session hcapture
      have hclosed : ({ s with capture := none } : State).Coherent := by
        apply h.of_quiet <;> try rfl
        · exact h.kept
        · intro _ n hn
          cases hn
        · exact h.testing
        · exact h.settled
      have hflush := coherent_flush flushed hclosed (h.opened hactive session hcapture)
      generalize ({ s with capture := none } : State).flush session flushed = u at hflush ⊢
      apply coherent_invalidated hflush <;> try rfl
      · intro hon
        cases hon
      · exact fun _ => rfl
      · intro hmode
        simp only [State.setState] at hmode ⊢
        split at hmode
        · assumption
        · simp at hmode
  · apply h.of_quiet <;> try rfl
    · exact h.kept
    · exact h.opened
    · exact h.testing
    · exact h.settled

end Calls

section Callbacks

variable {s t : State} {rest : List Callback} {callback : Callback}

theorem posted_marked (h : s.Coherent) (hposted : s.posted = callback :: rest) :
    Marked s.session rest (s.worker.items ++ s.queue.items) := by
  have hmarked := h.marked
  rw [hposted] at hmarked
  exact hmarked.2

theorem posted_known (h : s.Coherent) (hposted : s.posted = callback :: rest) {n : ℕ}
    (hn : .setSessionState n ∈ rest) : n ≤ s.session := by
  apply h.known n
  rw [hposted]
  exact List.mem_cons_of_mem _ hn

theorem posted_captured (h : s.Coherent) (hposted : s.posted = callback :: rest) {item : Item}
    (hitem : item ∈ ({ s with posted := rest } : State).inFlight) : item.epoch ∈ s.captures := by
  apply h.captured
  rw [inFlight_cons hposted]
  exact List.mem_append_right _ hitem

theorem posted_preparations (hposted : s.posted = callback :: rest) (n : ℕ) :
    s.preparations.count n = callback.preparations.count n +
      ({ s with posted := rest } : State).preparations.count n := by
  simp only [State.preparations, hposted, List.flatMap_cons, List.count_append]
  omega

theorem coherent_pop (h : s.Coherent) (hposted : s.posted = callback :: rest)
    (hother : ∀ item ∈ callback.items, item.epoch ≠ s.session) :
    ({ s with posted := rest } : State).Coherent := by
  apply h.of_same (move_pop hposted hother) rfl
  · exact h.kept
  · intro n
    have hn := posted_preparations hposted n
    simp only
    omega
  · intro item hitem
    exact posted_captured h hposted hitem
  · exact h.opened
  · exact h.testing
  · exact posted_marked h hposted
  · intro n hn
    exact posted_known h hposted hn
  · exact h.settled

/-- What a callback shows when it changes nothing else. -/
theorem coherent_shown (h : s.Coherent) (mode : Mode) (timers : List ℕ)
    (hsettled : mode = .recognizing ∨ mode = .finishing → s.pending ≠ 0) :
    ({ s with mode := mode, timers := timers } : State).Coherent := by
  apply h.of_quiet <;> try rfl
  · exact h.kept
  · exact h.opened
  · exact h.testing
  · exact hsettled

theorem coherent_prepared {session : ℕ} (h : s.Coherent)
    (hposted : s.posted = .prepared session :: rest) (opened : Bool) :
    (({ s with posted := rest } : State).prepared session opened).Coherent := by
  have hpop : ({ s with posted := rest } : State).Coherent :=
    coherent_pop h hposted (by simp [Callback.items])
  unfold State.prepared
  split
  · have hcapture : ({ s with
        posted := rest, capture := some session, captures := s.captures ++ [session] } :
          State).Coherent := by
      apply h.of_same
      · exact moves_quiet hposted rfl
      · rfl
      · exact h.kept
      · intro n
        have hn := posted_preparations hposted n
        simp only [Callback.preparations, List.count_append] at hn ⊢
        simp only [State.preparations] at hn ⊢
        omega
      · intro item hitem
        exact List.mem_append_left _ (posted_captured h hposted hitem)
      · intro _ n hn
        cases hn
        simp
      · exact h.testing
      · exact posted_marked h hposted
      · intro n hn
        exact posted_known h hposted hn
      · exact h.settled
    cases opened with
    | false => exact coherent_captureFailed hcapture session
    | true =>
      apply coherent_shown hcapture .listening s.timers
      simp
  · exact hpop

/-- After a phrase is taken off the count, the mode has to be shown anew. -/
theorem coherent_afterPhrase {session : ℕ} {text stop : Bool}
    (h : ({ s with mode := .idle } : State).Coherent) (htesting : s.testing = false) :
    (s.afterPhrase session text stop).Coherent := by
  have hshow (mode : Mode) (timers : List ℕ)
      (hsettled : mode = .recognizing ∨ mode = .finishing → s.pending ≠ 0) :
      ({ s with mode := mode, timers := timers } : State).Coherent :=
    coherent_shown h mode timers hsettled
  unfold State.afterPhrase
  split
  · have hstop := coherent_stop h
    exact hstop
  · split
    · rename_i hpending
      exact hshow _ s.timers (fun _ => hpending)
    · split
      · split
        · exact hshow .listening s.timers (by simp)
        · exact hshow .noSpeech _ (by simp)
      · rw [htesting]
        apply hshow _ s.timers
        split <;> simp

/-- The first posted callback settles a phrase of the current session. -/
theorem coherent_settle {session phrase : ℕ} (deliver : Bool) (transcripts : List Transcript)
    (h : s.Coherent) (hposted : s.posted = callback :: rest)
    (hitems : callback.items = [⟨session, phrase⟩]) (hsession : session = s.session)
    (htranscripts : State.deliveredFinals transcripts =
      State.deliveredFinals s.transcripts ++
        if deliver then [(⟨session, phrase⟩, s.session)] else []) :
    ({ s with
      posted := rest
      pending := s.pending - 1
      transcripts := transcripts
      mode := .idle } : State).Coherent := by
  have hledger : s.ledger.items = ⟨session, phrase⟩ ::
      ({ s with posted := rest } : State).inFlight := by
    simp only [State.ledger]
    rw [inFlight_cons hposted, hitems]
    rfl
  have hmove := Move.settle s.ledger _ _ hledger hsession deliver
  have hnext : ({ s with
      posted := rest
      pending := s.pending - 1
      transcripts := transcripts
      mode := .idle } : State).ledger = { s.ledger with
        pending := s.ledger.pending - 1
        items := ({ s with posted := rest } : State).inFlight
        delivered := s.ledger.delivered ++
          if deliver then [(⟨session, phrase⟩, s.ledger.epoch)] else [] } := by
    simp only [State.ledger, htranscripts]
    rfl
  apply h.of_same
  · apply ReflTransGen.single
    rw [hnext]
    exact hmove
  · rfl
  · exact h.kept
  · intro n
    have hn := posted_preparations hposted n
    simp only [State.preparations] at hn ⊢
    omega
  · intro item hitem
    exact posted_captured h hposted hitem
  · exact h.opened
  · intro htesting
    obtain ⟨hactive, hpending⟩ := h.testing htesting
    exact ⟨hactive, by simp [hpending]⟩
  · exact posted_marked h hposted
  · intro n hn
    exact posted_known h hposted hn
  · simp

theorem testing_of_posted {session phrase : ℕ} (h : s.Coherent)
    (hposted : s.posted = callback :: rest) (hitems : callback.items = [⟨session, phrase⟩])
    (hsession : session = s.session) : s.testing = false := by
  cases htesting : s.testing with
  | false => rfl
  | true =>
    have hitem : (⟨session, phrase⟩ : Item) ∈ s.inFlight := by
      rw [inFlight_cons hposted, hitems]
      simp
    have hpending := h.pending_ne hitem hsession
    exact absurd (h.testing htesting).2 hpending

theorem coherent_recognitionFinished {session phrase : ℕ} {text stop : Bool} (h : s.Coherent)
    (hposted : s.posted = .recognitionFinished session phrase text stop :: rest) :
    (({ s with posted := rest } : State).recognitionFinished session phrase text stop).Coherent := by
  unfold State.recognitionFinished State.whenCurrent
  split
  · rename_i hsession
    have hsettle := coherent_settle text (s.transcripts ++
      if text then [Transcript.final session phrase s.session] else []) h hposted rfl hsession
      (by cases text <;> simp [State.deliveredFinals])
    have htesting := testing_of_posted h hposted rfl hsession
    exact coherent_afterPhrase hsettle htesting
  · rename_i hsession
    apply coherent_pop h hposted
    simpa [Callback.items] using hsession

/-- A failed preparation was of a session whose microphone was never opened. -/
theorem pending_of_preparation {session : ℕ} (h : s.Coherent)
    (hposted : s.posted = .recognitionFailed session none :: rest) (hsession : session = s.session) :
    s.pending = 0 := by
  have hnone : s.session ∉ s.captures := by
    intro hmem
    have honce := h.once s.session
    have hcount := posted_preparations hposted s.session
    have hcaptured := List.count_pos_iff.mpr hmem
    simp only [Callback.preparations, hsession, List.count_singleton_self] at hcount
    omega
  have hcounted : s.pending = s.outstanding.length := h.sound.counted
  rw [hcounted, List.length_eq_zero_iff, State.outstanding, List.filter_eq_nil_iff]
  intro item hitem hepoch
  have hcaptured := h.captured item hitem
  simp only [decide_eq_true_eq] at hepoch
  rw [hepoch] at hcaptured
  exact hnone hcaptured

theorem State.Coherent.orderly (h : s.Coherent) : s.Orderly where
  kept work announced hworker item hitem := by
    have hkept := h.kept
    rw [hworker] at hkept
    exact hkept item hitem
  prepared session rest hposted hsession := pending_of_preparation h hposted hsession

/-- Recording is given up, with the phrases accepted so far still to come. -/
theorem coherent_giveUp {pending : ℕ} {mode : Mode} {finishMessage : Bool}
    (h : ({ s with pending := pending, mode := .idle } : State).Coherent)
    (hsettled : mode = .recognizing ∨ mode = .finishing → pending ≠ 0) :
    ({ ({ s with pending := pending, active := false, capture := none } :
      State).invalidatePartials with mode := mode, finishMessage := finishMessage } :
        State).Coherent := by
  apply coherent_invalidated h <;> try rfl
  · intro hon
    cases hon
  · exact fun _ => rfl
  · exact hsettled

theorem coherent_overloaded (h : s.Coherent) (session : ℕ) : (s.overloaded session).Coherent := by
  unfold State.overloaded State.whenCurrent
  split
  · apply coherent_giveUp (coherent_shown h .idle s.timers (by simp))
    intro hmode hpending
    simp [hpending] at hmode
  · exact h

theorem coherent_recognitionFailed {session : ℕ} {phrase : Option ℕ} (h : s.Coherent)
    (hposted : s.posted = .recognitionFailed session phrase :: rest) :
    (({ s with posted := rest } : State).recognitionFailed session).Coherent := by
  unfold State.recognitionFailed State.whenCurrent
  split
  · rename_i hsession
    have hsettle : ({ s with posted := rest, pending := s.pending - 1, mode := .idle } :
        State).Coherent := by
      cases phrase with
      | none =>
        have hpending := pending_of_preparation h hposted hsession
        have hpop := coherent_pop h hposted (by simp [Callback.items])
        have hshown := coherent_shown hpop .idle s.timers (by simp)
        simpa [hpending] using hshown
      | some phrase => exact coherent_settle false s.transcripts h hposted rfl hsession (by simp)
    apply coherent_giveUp (s := { s with posted := rest }) hsettle
    intro hmode hpending
    simp [hpending] at hmode
  · rename_i hsession
    apply coherent_pop h hposted
    cases phrase with
    | none => simp [Callback.items]
    | some phrase => simpa [Callback.items] using hsession

theorem coherent_setSessionState {session : ℕ} (h : s.Coherent)
    (hposted : s.posted = .setSessionState session :: rest) :
    (({ s with posted := rest } : State).setSessionState session).Coherent := by
  have hpop : ({ s with posted := rest } : State).Coherent :=
    coherent_pop h hposted (by simp [Callback.items])
  unfold State.setSessionState
  split
  · rename_i hcurrent
    apply coherent_shown hpop .recognizing s.timers
    intro _
    have hmarked := h.marked
    rw [hposted] at hmarked
    obtain ⟨item, hitem, hepoch⟩ := hmarked.1 (by rw [hcurrent.1])
    apply hpop.pending_ne _ hepoch
    simpa [State.inFlight] using hitem
  · exact hpop

theorem coherent_run {opened live : Bool} (h : s.Coherent) (hposted : s.posted = callback :: rest) :
    (({ s with posted := rest } : State).run callback opened live).Coherent := by
  cases callback with
  | recognitionFinished session phrase text stop => exact coherent_recognitionFinished h hposted
  | recognitionFailed session phrase => exact coherent_recognitionFailed h hposted
  | prepared session => exact coherent_prepared h hposted opened
  | setSessionState session => exact coherent_setSessionState h hposted
  | captureFailed session =>
    exact coherent_captureFailed (coherent_pop h hposted (by simp [Callback.items])) session
  | overloaded session =>
    exact coherent_overloaded (coherent_pop h hposted (by simp [Callback.items])) session
  | preparationState session calibrating =>
    have hpop := coherent_pop h hposted (by simp [Callback.items])
    unfold State.run State.preparationState
    simp only
    split
    · apply coherent_shown hpop _ s.timers
      split <;> simp
    · exact hpop
  | previewFinished session generation cuts text =>
    have hpop := coherent_pop h hposted (by simp [Callback.items])
    unfold State.run State.previewFinished
    simp only
    split
    · apply hpop.of_quiet <;> try rfl
      · simp [State.ledger, State.inFlight, State.deliveredFinals]
      · exact h.kept
      · exact h.opened
      · exact h.testing
      · exact h.settled
    · exact hpop
  | noSpeech session =>
    have hpop := coherent_pop h hposted (by simp [Callback.items])
    unfold State.run State.noSpeech
    simp only
    split
    · exact coherent_shown hpop .noSpeech _ (by simp)
    · exact hpop

end Callbacks

section WorkerSteps

variable {s t : State} {act : Act} {work : Work} {cancelled : Bool} {announced : ℕ}

theorem coherent_take {queue : RecognitionQueue} (h : s.Coherent) (hworker : s.worker = .waiting)
    (hget : s.queue.get = some (work, queue)) :
    ({ s with worker := .took work, queue := queue } : State).Coherent := by
  have hitems := RecognitionQueue.items_get hget
  have hpreparations := RecognitionQueue.preparations_get hget
  have hinFlight : ({ s with worker := .took work, queue := queue } : State).inFlight =
      s.inFlight := by
    simp [State.inFlight, hworker, hitems, Worker.items]
  apply h.of_same
  · apply moves_of_eq
    simp only [State.ledger, hinFlight]
  · rfl
  · trivial
  · intro n
    simp [State.preparations, hworker, hpreparations, Worker.preparations]
  · rw [hinFlight]
    exact h.captured
  · exact h.opened
  · exact h.testing
  · have hmarked := h.marked
    rw [hworker, hitems] at hmarked
    exact hmarked
  · exact h.known
  · exact h.settled

theorem coherent_enter (h : s.Coherent) (hworker : s.worker = .took work) (live : Bool) :
    (s.enter work live).Coherent := by
  have hsub : ∀ item ∈ (s.enter work live).worker.items, item ∈ s.worker.items := by
    intro item hitem
    simp only [State.enter] at hitem
    rw [hworker]
    split at hitem
    · exact hitem
    · cases hitem
  apply h.of_same (moves_enter hworker live) rfl
  · simp only [State.enter]
    split <;> trivial
  · intro n
    simp only [State.enter, State.preparations, hworker, List.count_append]
    split
    · exact Nat.le_refl _
    · simp only [Worker.preparations, List.count_nil]
      omega
  · intro item hitem
    apply h.captured
    simp only [State.inFlight, List.mem_append] at hitem ⊢
    rcases hitem with hitem | hitem | hitem
    · exact Or.inl hitem
    · exact Or.inr (Or.inl (hsub item hitem))
    · exact Or.inr (Or.inr hitem)
  · exact h.opened
  · exact h.testing
  · apply h.marked.mono
    rintro ⟨item, hitem, hepoch⟩
    rcases List.mem_append.mp hitem with hitem | hitem
    · refine ⟨item, List.mem_append_left _ ?_, hepoch⟩
      rw [hworker] at hitem
      cases hrun : s.mayRun work live with
      | true => simpa [State.enter, hrun, Worker.items] using hitem
      | false =>
        exact absurd hepoch (other_of_mayRun hrun item hitem)
    · exact ⟨item, List.mem_append_right _ hitem, hepoch⟩
  · exact h.known
  · exact h.settled

/-- The worker leaves its work with the phrases of the current session posted. -/
theorem coherent_leave {callbacks : List Callback} (h : s.Coherent)
    (hworker : s.worker = .running work cancelled announced)
    (hmoves : s.Moves (s.leave callbacks))
    (hitems : ∀ item ∈ callbacks.flatMap Callback.items, item ∈ work.items)
    (hpreparations : ∀ n, (callbacks.flatMap Callback.preparations).count n ≤
      work.preparations.count n)
    (hposted : ∀ item ∈ work.items, item.epoch = s.session →
      item ∈ callbacks.flatMap Callback.items)
    (hmark : ∀ n, .setSessionState n ∉ callbacks) : (s.leave callbacks).Coherent := by
  apply h.of_same hmoves rfl
  · trivial
  · intro n
    have hn := hpreparations n
    simp only [State.leave, State.preparations, hworker, Worker.preparations,
      List.flatMap_append, List.count_append, List.count_nil]
    omega
  · intro item hitem
    apply h.captured
    simp only [State.leave, State.inFlight, hworker, Worker.items, List.flatMap_append,
      List.mem_append, List.not_mem_nil, false_or] at hitem ⊢
    rcases hitem with (hitem | hitem) | hitem
    · exact Or.inl hitem
    · exact Or.inr (Or.inl (hitems item hitem))
    · exact Or.inr (Or.inr hitem)
  · exact h.opened
  · exact h.testing
  · apply Marked.append
    · apply h.marked.mono
      rintro ⟨item, hitem, hepoch⟩
      rw [hworker] at hitem
      rcases List.mem_append.mp hitem with hitem | hitem
      · exact ⟨item, List.mem_append_left _ (hposted item hitem hepoch), hepoch⟩
      · exact ⟨item, List.mem_append_right _ (List.mem_append_right _ hitem), hepoch⟩
    · exact marked_of_not_mem (hmark _)
  · intro n hn
    rcases List.mem_append.mp hn with hn | hn
    · exact h.known n hn
    · exact absurd hn (hmark n)
  · exact h.settled

theorem coherent_succeed (h : s.Coherent) (hworker : s.worker = .running work cancelled announced)
    (text stop : Bool) :
    (s.leave (s.successCallbacks work cancelled text stop)).Coherent := by
  have hitems : (s.successCallbacks work cancelled text stop).flatMap Callback.items =
      work.items := State.successCallbacks_items cancelled text stop
  apply coherent_leave h hworker
  · exact moves_leave hworker hitems
  · simp [hitems]
  · exact State.successCallbacks_preparations cancelled text stop
  · intro item hitem _
    rwa [hitems]
  · intro n
    unfold State.successCallbacks
    cases work.kind with
    | prepare =>
      simp only
      split <;> simp
    | final phrase => simp
    | preview cuts => simp

theorem coherent_fail (h : s.Coherent) (hworker : s.worker = .running work cancelled announced) :
    (s.leave (State.failureCallbacks work)).Coherent := by
  have hitems : (State.failureCallbacks work).flatMap Callback.items = work.items :=
    State.failureCallbacks_items
  apply coherent_leave h hworker
  · exact moves_leave hworker hitems
  · simp [hitems]
  · simp [State.failureCallbacks_preparations]
  · intro item hitem _
    rwa [hitems]
  · intro n
    unfold State.failureCallbacks
    cases work.kind <;> simp

theorem coherent_abandon (h : s.Coherent) (hworker : s.worker = .running work true announced) :
    (s.leave []).Coherent := by
  have hother := h.orderly.kept work announced hworker
  apply coherent_leave h hworker
  · exact moves_abandon hworker hother
  · simp
  · simp
  · intro item hitem hepoch
    exact absurd hepoch (hother item hitem)
  · simp

theorem coherent_announce (h : s.Coherent) (hworker : s.worker = .running work cancelled announced)
    (session : ℕ) (calibrating : Bool) :
    (({ s with worker := .running work cancelled (announced + 1) } : State).post
      (.preparationState session calibrating)).Coherent := by
  apply coherent_post
  · apply h.of_quiet
    · simp [State.ledger, State.inFlight, hworker, Worker.items]
    · rfl
    · simp [hworker, Worker.items]
    · rfl
    · simp [State.preparations, hworker, Worker.preparations]
    · rfl
    · have hkept := h.kept
      rw [hworker] at hkept
      cases cancelled with
      | false => trivial
      | true => exact hkept
    · exact h.opened
    · exact h.testing
    · exact h.settled
  · rfl
  · rfl
  · simp

theorem coherent_restore (h : s.Coherent) (session : ℕ) :
    (({ s with timers := s.timers.erase session } :
      State).restoreListeningState session).Coherent := by
  unfold State.restoreListeningState
  split
  · exact coherent_shown h .listening _ (by simp)
  · exact coherent_shown h s.mode _ h.settled

/-- A step keeps the service coherent. -/
theorem coherent_step (h : s.Coherent) (hsafe : s.SafeStart act) (hstep : step s act = some t) :
    t.Coherent := by
  cases act with
  | start installed =>
    cases hstep
    exact coherent_start h hsafe
  | stop =>
    cases hstep
    exact coherent_stop h
  | finish flushed =>
    cases hstep
    exact coherent_finish h flushed
  | startTest opened =>
    cases hstep
    exact coherent_startTest h opened
  | stopTest =>
    cases hstep
    exact coherent_stopTest h
  | deliver session delivery =>
    simp only [step] at hstep
    split at hstep
    · rename_i hsession
      cases hstep
      exact coherent_deliver h hsession delivery
    · cases hstep
  | captureError session =>
    cases hstep
    exact coherent_post h rfl rfl (by simp)
  | captureSilent session =>
    cases hstep
    exact coherent_post h rfl rfl (by simp)
  | take =>
    simp only [step] at hstep
    split at hstep
    · rename_i work queue hworker hget
      cases hstep
      exact coherent_take h hworker hget
    · cases hstep
  | enter live =>
    simp only [step] at hstep
    split at hstep
    · rename_i work hworker
      cases hstep
      exact coherent_enter h hworker live
    · cases hstep
  | announce calibrating =>
    simp only [step] at hstep
    split at hstep
    · rename_i work cancelled announced hworker
      split at hstep
      · cases hstep
        exact coherent_announce h hworker work.session calibrating
      · cases hstep
    · cases hstep
  | succeed text stop =>
    simp only [step] at hstep
    split at hstep
    · rename_i work cancelled announced hworker
      cases hstep
      exact coherent_succeed h hworker text stop
    · cases hstep
  | fail =>
    simp only [step] at hstep
    split at hstep
    · rename_i work cancelled announced hworker
      cases hstep
      exact coherent_fail h hworker
    · cases hstep
  | abandon =>
    simp only [step] at hstep
    split at hstep
    · rename_i work announced hworker
      cases hstep
      exact coherent_abandon h hworker
    · cases hstep
  | idle opened live =>
    simp only [step] at hstep
    split at hstep
    · rename_i callback rest hposted
      cases hstep
      exact coherent_run h hposted
    · cases hstep
  | timer session =>
    simp only [step] at hstep
    split at hstep
    · cases hstep
      exact coherent_restore h session
    · cases hstep

end WorkerSteps

end Dictation
