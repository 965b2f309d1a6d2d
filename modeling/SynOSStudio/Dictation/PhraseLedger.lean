import SynOSStudio.Dictation.Service
import SynOSStudio.WorkLedgers.Ledgers

/-!
# The ledger of phrases

The accepted phrases that are queued, being recognized or posted, and what each step of the
service does to them.
-/

namespace Dictation

open WorkLedgers Relation

section View

def Work.items (work : Work) : List Item :=
  match work.kind with
  | .final phrase => [⟨work.session, phrase⟩]
  | _ => []

def Worker.items : Worker → List Item
  | .waiting => []
  | .took work => work.items
  | .running work _ _ => work.items

def Callback.items : Callback → List Item
  | .recognitionFinished session phrase _ _ => [⟨session, phrase⟩]
  | .recognitionFailed session (some phrase) => [⟨session, phrase⟩]
  | _ => []

def RecognitionQueue.items (queue : RecognitionQueue) : List Item :=
  queue.finals.flatMap Work.items

namespace State

/-- The phrases whose result is still to come. -/
def inFlight (s : State) : List Item :=
  s.posted.flatMap Callback.items ++ (s.worker.items ++ s.queue.items)

def outstanding (s : State) : List Item :=
  s.inFlight.filter fun item => item.epoch = s.session

def deliveredFinals (transcripts : List Transcript) : List (Item × ℕ) :=
  transcripts.filterMap fun
    | .final session phrase current => some (⟨session, phrase⟩, current)
    | .preview _ _ => none

def ledger (s : State) : Ledger where
  epoch := s.session
  pending := s.pending
  items := s.inFlight
  issued := s.accepted
  delivered := deliveredFinals s.transcripts

end State

end View

section Items

variable {s : State} {work : Work} {queue : RecognitionQueue}

theorem Work.items_eq_nil (h : work.kind.isPreview) : work.items = [] := by
  unfold Work.items
  cases hkind : work.kind <;> simp_all [WorkKind.isPreview]

@[simp] theorem cancelRunning_items (which : WorkKind → Bool) :
    (s.cancelRunning which).items = s.worker.items := by
  unfold State.cancelRunning
  cases s.worker <;> rfl

@[simp] theorem invalidatePartials_worker_items :
    s.invalidatePartials.worker.items = s.worker.items :=
  cancelRunning_items _

@[simp] theorem cancelWork_worker_items : s.cancelWork.worker.items = s.worker.items :=
  cancelRunning_items fun _ => true

@[simp] theorem invalidatePartials_queue_items :
    s.invalidatePartials.queue.items = s.queue.items := rfl

@[simp] theorem cancelWork_queue_items : s.cancelWork.queue.items = [] := rfl

theorem RecognitionQueue.items_get {rest : RecognitionQueue}
    (h : queue.get = some (work, rest)) : queue.items = work.items ++ rest.items := by
  unfold RecognitionQueue.get at h
  split at h
  · rename_i hfinals
    cases h
    simp [RecognitionQueue.items, hfinals]
  · rename_i preview hfinals hpreview
    cases h
    simp [RecognitionQueue.items, hfinals, Work.items_eq_nil preview.2]
  · cases h

theorem RecognitionQueue.items_put {rest : RecognitionQueue} (h : queue.put work = some rest) :
    rest.items = queue.items ++ work.items := by
  unfold RecognitionQueue.put at h
  split at h
  · rename_i hpreview
    split at h
    · cases h
    · cases h
      simp [RecognitionQueue.items, Work.items_eq_nil hpreview]
  · split at h
    · cases h
    · cases h
      simp [RecognitionQueue.items]

theorem RecognitionQueue.items_put_getD (h : work.items = []) :
    ((queue.put work).getD queue).items = queue.items := by
  cases hput : queue.put work with
  | none => rfl
  | some rest => rw [Option.getD_some, RecognitionQueue.items_put hput, h, List.append_nil]

theorem State.successCallbacks_items (cancelled text stop : Bool) :
    (s.successCallbacks work cancelled text stop).flatMap Callback.items = work.items := by
  unfold State.successCallbacks Work.items
  cases hkind : work.kind with
  | prepare =>
    simp only
    split <;> rfl
  | final phrase => rfl
  | preview cuts => rfl

theorem State.failureCallbacks_items :
    (State.failureCallbacks work).flatMap Callback.items = work.items := by
  unfold State.failureCallbacks Work.items
  cases work.kind <;> rfl

end Items

section Moves

variable {s t : State}

theorem move_of_forget (hsession : t.session = s.session) (hpending : t.pending = s.pending)
    (haccepted : t.accepted = s.accepted) (htranscripts : t.transcripts = s.transcripts)
    (hsub : t.inFlight.Sublist s.inFlight) (hkeep : t.outstanding = s.outstanding) :
    Move s.ledger t.ledger := by
  have ht : t.ledger = { s.ledger with items := t.inFlight } := by
    simp [State.ledger, hsession, hpending, haccepted, htranscripts]
  rw [ht]
  apply Move.forget s.ledger _ hsub
  rw [State.outstanding, hsession] at hkeep
  exact hkeep

theorem move_of_advance (hsession : t.session = s.session + 1) (hpending : t.pending = 0)
    (haccepted : t.accepted = s.accepted) (htranscripts : t.transcripts = s.transcripts)
    (hsub : t.inFlight.Sublist s.inFlight) : Move s.ledger t.ledger := by
  have ht : t.ledger = { s.ledger with
      epoch := s.ledger.epoch + 1, pending := 0, items := t.inFlight } := by
    simp [State.ledger, hsession, hpending, haccepted, htranscripts]
  rw [ht]
  exact Move.advance s.ledger _ hsub

variable (s)

theorem ledger_invalidatePartials : s.invalidatePartials.ledger = s.ledger := by
  simp only [State.ledger, State.inFlight, invalidatePartials_worker_items]
  rfl

theorem ledger_post {callback : Callback} (h : callback.items = []) :
    (s.post callback).ledger = s.ledger := by
  simp [State.ledger, State.inFlight, State.post, h]

theorem inFlight_post_quiet {callback : Callback} (h : callback.items = []) :
    (s.post callback).inFlight = s.inFlight :=
  congrArg Ledger.items (ledger_post s h)

theorem inFlight_cancelWork :
    s.cancelWork.inFlight = s.posted.flatMap Callback.items ++ s.worker.items := by
  simp only [State.inFlight, cancelWork_worker_items, cancelWork_queue_items, List.append_nil]
  rfl

theorem move_endSession : Move s.ledger s.endSession.ledger := by
  apply move_of_advance
  · rfl
  · rfl
  · rfl
  · rfl
  · have hitems : s.endSession.inFlight = s.posted.flatMap Callback.items ++ s.worker.items := by
      simp only [State.inFlight, State.endSession, cancelWork_worker_items,
        invalidatePartials_worker_items, cancelWork_queue_items, List.append_nil]
      rfl
    rw [hitems, State.inFlight]
    simp

/-- What happens to the ledger between two states. -/
abbrev State.Moves (s t : State) : Prop := ReflTransGen Move s.ledger t.ledger

variable {s}

theorem moves_of_eq (h : t.ledger = s.ledger) : s.Moves t := by
  unfold State.Moves
  rw [h]

theorem moves_stop : s.Moves s.stop :=
  .single (move_endSession _)

theorem moves_stopTest : s.Moves s.stopTest :=
  .single (move_endSession _)

/-- Clearing the queue forgets no phrase of the current session if there is none in it. -/
theorem moves_cancelWork (hqueue : ∀ item ∈ s.queue.items, item.epoch ≠ s.session) :
    s.Moves s.cancelWork := by
  have hkept : s.queue.items.filter (fun item => item.epoch = s.session) = [] := by
    simpa [List.filter_eq_nil_iff] using hqueue
  have hout : s.outstanding = (s.posted.flatMap Callback.items ++ s.worker.items).filter
      (fun item => item.epoch = s.session) := by
    simp [State.outstanding, State.inFlight, hkept]
  apply ReflTransGen.single
  apply move_of_forget (s := s) (t := s.cancelWork) rfl rfl rfl rfl
  · rw [inFlight_cancelWork, State.inFlight]
    simp
  · rw [hout, ← inFlight_cancelWork]
    rfl

theorem start_of_testing (hactive : s.active = false) (htesting : s.testing = true)
    (installed : Bool) : s.start installed = s.stopTest.start installed := by
  have hactive' : s.stopTest.active = false := hactive
  have htesting' : s.stopTest.testing = false := rfl
  simp [State.start, hactive, htesting, hactive', htesting']

theorem inFlight_start_installed (hactive : s.active = false) (htesting : s.testing = false) :
    (s.start true).inFlight = s.posted.flatMap Callback.items ++ s.worker.items := by
  have hworker : (s.start true).worker.items = s.worker.items := by
    simp [State.start, hactive, htesting]
  have hqueue : (s.start true).queue.items = [] := by
    simp only [State.start, hactive, htesting]
    exact RecognitionQueue.items_put_getD rfl
  have hposted : (s.start true).posted = s.posted := by
    simp [State.start, hactive, htesting, State.invalidatePartials, State.cancelWork]
  rw [State.inFlight, hposted, hworker, hqueue, List.append_nil]

theorem moves_start_idle {installed : Bool} (hactive : s.active = false)
    (htesting : s.testing = false)
    (hqueue : installed = false → ∀ item ∈ s.queue.items, item.epoch ≠ s.session) :
    s.Moves (s.start installed) := by
  cases installed with
  | false =>
    have hstart : (s.start false).ledger = s.cancelWork.ledger := by
      simp [State.start, hactive, htesting]
      rfl
    have hcancel := moves_cancelWork (hqueue rfl)
    rwa [State.Moves, ← hstart] at hcancel
  | true =>
    apply ReflTransGen.single
    apply move_of_advance
    · simp [State.start, hactive, htesting, State.invalidatePartials, State.cancelWork]
    · simp [State.start, hactive, htesting]
    · simp [State.start, hactive, htesting, State.invalidatePartials, State.cancelWork]
    · simp [State.start, hactive, htesting, State.invalidatePartials, State.cancelWork]
    · rw [inFlight_start_installed hactive htesting, State.inFlight]
      simp

theorem moves_queueAudio (session : ℕ) : s.Moves (s.queueAudio session) := by
  unfold State.queueAudio
  split
  · exact moves_of_eq rfl
  · rename_i hcurrent
    have hsession : session = s.session := by
      by_contra hne
      exact hcurrent (Or.inl hne)
    subst hsession
    simp only
    split
    · apply moves_of_eq
      rw [ledger_post _ rfl, ledger_invalidatePartials]
    · rename_i queue hput
      have hitems := RecognitionQueue.items_put hput
      apply ReflTransGen.single
      have hledger : ({ s.invalidatePartials with
          pending := s.invalidatePartials.pending + 1
          queue := queue
          accepted := s.invalidatePartials.accepted + 1
          cuts := s.invalidatePartials.cuts + 1 } : State).ledger = { s.ledger with
            pending := s.ledger.pending + 1
            items := s.ledger.items ++ [⟨s.ledger.epoch, s.ledger.issued⟩]
            issued := s.ledger.issued + 1 } := by
        simp only [State.ledger, State.inFlight, invalidatePartials_worker_items, hitems,
          invalidatePartials_queue_items, List.append_assoc]
        rfl
      rw [ledger_post _ rfl, hledger]
      exact Move.accept s.ledger

theorem startTest_of_active (hactive : s.active = true) (opened : Bool) :
    s.startTest opened = s.stop.startTest opened := by
  have hactive' : s.stop.active = false := rfl
  simp [State.startTest, hactive, hactive']

theorem startTest_idle (hactive : s.active = false) (htesting : s.testing = false)
    (opened : Bool) :
    s.startTest opened = { s.endSession with
      testing := true
      capture := some s.endSession.session
      mode := if opened then .testing else .error } := by
  simp [State.startTest, hactive, htesting]

theorem moves_startTest_idle (hactive : s.active = false) (opened : Bool) :
    s.Moves (s.startTest opened) := by
  cases htesting : s.testing with
  | false =>
    rw [startTest_idle hactive htesting]
    exact .single (move_endSession s)
  | true =>
    apply moves_of_eq
    simp [State.startTest, hactive, htesting]

theorem moves_captureFailed (session : ℕ) : s.Moves (s.captureFailed session) := by
  unfold State.captureFailed State.whenCurrent
  split
  · exact .single (move_endSession { s with active := false, testing := false })
  · exact moves_of_eq rfl

end Moves

section Callbacks

variable {s : State} {rest : List Callback}

theorem inFlight_cons {callback : Callback} (hposted : s.posted = callback :: rest) :
    s.inFlight = callback.items ++ ({ s with posted := rest } : State).inFlight := by
  simp [State.inFlight, hposted]

/-- A callback of another session leaves the ledger with nothing but its item gone. -/
theorem move_pop {callback : Callback} (hposted : s.posted = callback :: rest)
    (hother : ∀ item ∈ callback.items, item.epoch ≠ s.session) :
    s.Moves { s with posted := rest } := by
  have hitems := inFlight_cons hposted
  have hnone : callback.items.filter (fun item => item.epoch = s.session) = [] := by
    simpa [List.filter_eq_nil_iff] using hother
  apply ReflTransGen.single
  apply move_of_forget (s := s) (t := { s with posted := rest }) rfl rfl rfl rfl
  · rw [hitems]
    simp
  · simp [State.outstanding, hitems, hnone]

/-- A callback that carries no phrase. -/
theorem moves_quiet {callback : Callback} (hposted : s.posted = callback :: rest)
    (hitems : callback.items = []) : s.Moves { s with posted := rest } := by
  apply moves_of_eq
  simp [State.ledger, State.inFlight, hposted, hitems]

end Callbacks

section WorkerSteps

variable {s t : State}

theorem other_of_mayRun {work : Work} {live : Bool} (hrun : s.mayRun work live = false) :
    ∀ item ∈ work.items, item.epoch ≠ s.session := by
  intro item hitem
  cases hkind : work.kind with
  | final phrase =>
    simp only [Work.items, hkind, List.mem_singleton] at hitem
    simp only [State.mayRun, hkind, Bool.and_true, decide_eq_false_iff_not] at hrun
    simpa [hitem] using hrun
  | prepare => simp [Work.items, hkind] at hitem
  | preview cuts => simp [Work.items, hkind] at hitem

theorem moves_enter {work : Work} (hworker : s.worker = .took work) (live : Bool) :
    s.Moves (s.enter work live) := by
  cases hrun : s.mayRun work live with
  | true =>
    apply moves_of_eq
    simp [State.enter, hrun, State.ledger, State.inFlight, hworker, Worker.items]
  | false =>
    have hnone : work.items.filter (fun item => item.epoch = s.session) = [] := by
      simpa [List.filter_eq_nil_iff] using other_of_mayRun hrun
    apply ReflTransGen.single
    apply move_of_forget <;> simp only [State.enter, hrun]
    · simp [State.inFlight, Worker.items]
    · simp [State.outstanding, State.inFlight, hworker, Worker.items, hnone]

theorem moves_leave {work : Work} {cancelled : Bool} {announced : ℕ}
    (hworker : s.worker = .running work cancelled announced) {callbacks : List Callback}
    (hitems : callbacks.flatMap Callback.items = work.items) :
    s.Moves (s.leave callbacks) := by
  apply moves_of_eq
  simp [State.leave, State.ledger, State.inFlight, hworker, Worker.items, hitems]

theorem moves_abandon {work : Work} {announced : ℕ}
    (hworker : s.worker = .running work true announced)
    (hother : ∀ item ∈ work.items, item.epoch ≠ s.session) : s.Moves (s.leave []) := by
  have hnone : work.items.filter (fun item => item.epoch = s.session) = [] := by
    simpa [List.filter_eq_nil_iff] using hother
  apply ReflTransGen.single
  apply move_of_forget <;> try rfl
  · simp [State.leave, State.inFlight, Worker.items]
  · simp [State.leave, State.outstanding, State.inFlight, hworker, Worker.items, hnone]

end WorkerSteps

section Steps

variable {s t : State} {act : Act}

/-- Running work of the current session is not cancelled, and a preparation that failed was of
a session without phrases. -/
structure State.Orderly (s : State) : Prop where
  kept : ∀ work announced, s.worker = .running work true announced →
    ∀ item ∈ work.items, item.epoch ≠ s.session
  prepared : ∀ session rest, s.posted = .recognitionFailed session none :: rest →
    session = s.session → s.pending = 0

/-- The phrases that cancelling the work takes away. -/
def State.cancellable (s : State) : List Item :=
  (match s.worker with
    | .running work _ _ => work.items
    | _ => []) ++ s.queue.items

/-- A start that does not find the model takes no phrase of the current session away. -/
def State.SafeStart (s : State) (act : Act) : Prop :=
  act = .start false → s.active = true ∨ ∀ item ∈ s.cancellable, item.epoch ≠ s.session

instance : Decidable (s.SafeStart act) :=
  inferInstanceAs (Decidable (_ → _))

end Steps

end Dictation
