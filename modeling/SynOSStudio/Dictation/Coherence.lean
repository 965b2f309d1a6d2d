import SynOSStudio.Dictation.PreviewFreshness
import Mathlib.Data.List.Count

/-!
# Coherent states

What holds between the session, its preparation and its capture, the work that runs and the mode
that is shown.
-/

namespace Dictation

open WorkLedgers Relation

section Preparations

def Work.preparations (work : Work) : List ℕ :=
  match work.kind with
  | .prepare => [work.session]
  | _ => []

def Worker.preparations : Worker → List ℕ
  | .waiting => []
  | .took work => work.preparations
  | .running work _ _ => work.preparations

def Callback.preparations : Callback → List ℕ
  | .prepared session => [session]
  | .recognitionFailed session none => [session]
  | _ => []

def RecognitionQueue.preparations (queue : RecognitionQueue) : List ℕ :=
  queue.finals.flatMap Work.preparations

/-- The sessions whose preparation has not opened or failed to open a microphone. -/
def State.preparations (s : State) : List ℕ :=
  s.posted.flatMap Callback.preparations ++ (s.worker.preparations ++ s.queue.preparations)

variable {s : State} {work : Work} {queue rest : RecognitionQueue}

@[simp] theorem cancelRunning_preparations (which : WorkKind → Bool) :
    (s.cancelRunning which).preparations = s.worker.preparations := by
  unfold State.cancelRunning
  cases s.worker <;> rfl

@[simp] theorem invalidatePartials_worker_preparations :
    s.invalidatePartials.worker.preparations = s.worker.preparations :=
  cancelRunning_preparations _

@[simp] theorem cancelWork_worker_preparations :
    s.cancelWork.worker.preparations = s.worker.preparations :=
  cancelRunning_preparations fun _ => true

@[simp] theorem invalidatePartials_queue_preparations :
    s.invalidatePartials.queue.preparations = s.queue.preparations := rfl

@[simp] theorem cancelWork_queue_preparations : s.cancelWork.queue.preparations = [] := rfl

theorem Work.preparations_eq_nil (h : work.kind.isPreview) : work.preparations = [] := by
  unfold Work.preparations
  cases hkind : work.kind <;> simp_all [WorkKind.isPreview]

theorem RecognitionQueue.preparations_get (h : queue.get = some (work, rest)) :
    queue.preparations = work.preparations ++ rest.preparations := by
  unfold RecognitionQueue.get at h
  split at h
  · rename_i hfinals
    cases h
    simp [RecognitionQueue.preparations, hfinals]
  · rename_i preview hfinals hpreview
    cases h
    simp [RecognitionQueue.preparations, hfinals, Work.preparations_eq_nil preview.2]
  · cases h

theorem RecognitionQueue.preparations_put (h : queue.put work = some rest) :
    rest.preparations = queue.preparations ++ work.preparations := by
  unfold RecognitionQueue.put at h
  split at h
  · rename_i hpreview
    split at h
    · cases h
    · cases h
      simp [RecognitionQueue.preparations, Work.preparations_eq_nil hpreview]
  · split at h
    · cases h
    · cases h
      simp [RecognitionQueue.preparations]

theorem RecognitionQueue.preparations_put_getD (h : work.preparations = []) :
    ((queue.put work).getD queue).preparations = queue.preparations := by
  cases hput : queue.put work with
  | none => rfl
  | some rest =>
    rw [Option.getD_some, RecognitionQueue.preparations_put hput, h, List.append_nil]

theorem State.successCallbacks_preparations (cancelled text stop : Bool) (n : ℕ) :
    ((s.successCallbacks work cancelled text stop).flatMap Callback.preparations).count n ≤
      work.preparations.count n := by
  unfold State.successCallbacks Work.preparations
  cases hkind : work.kind with
  | prepare =>
    simp only
    split <;> simp [Callback.preparations]
  | final phrase => simp [Callback.preparations]
  | preview cuts => simp [Callback.preparations]

theorem State.failureCallbacks_preparations :
    (State.failureCallbacks work).flatMap Callback.preparations = work.preparations := by
  unfold State.failureCallbacks Work.preparations
  cases work.kind <;> rfl

end Preparations

section Marks

/-- Each posted change to `recognizing` of the session has a phrase of the session behind it. -/
def Marked (session : ℕ) : List Callback → List Item → Prop
  | [], _ => True
  | callback :: rest, tail =>
    (callback = .setSessionState session →
      ∃ item ∈ rest.flatMap Callback.items ++ tail, item.epoch = session) ∧
    Marked session rest tail

variable {session : ℕ} {posted callbacks : List Callback} {tail tail' : List Item}

theorem Marked.mono (h : Marked session posted tail)
    (htail : (∃ item ∈ tail, item.epoch = session) → ∃ item ∈ tail', item.epoch = session) :
    Marked session posted tail' := by
  induction posted with
  | nil => trivial
  | cons callback rest ih =>
    obtain ⟨hmark, hrest⟩ := h
    refine ⟨fun hcallback => ?_, ih hrest⟩
    obtain ⟨item, hitem, hsession⟩ := hmark hcallback
    rcases List.mem_append.mp hitem with hitem | hitem
    · exact ⟨item, List.mem_append_left _ hitem, hsession⟩
    · obtain ⟨other, hother, hsession⟩ := htail ⟨item, hitem, hsession⟩
      exact ⟨other, List.mem_append_right _ hother, hsession⟩

theorem Marked.append (h : Marked session posted (callbacks.flatMap Callback.items ++ tail))
    (hcallbacks : Marked session callbacks tail) : Marked session (posted ++ callbacks) tail := by
  induction posted with
  | nil => exact hcallbacks
  | cons callback rest ih =>
    obtain ⟨hmark, hrest⟩ := h
    refine ⟨fun hcallback => ?_, ih hrest⟩
    have hitem := hmark hcallback
    simpa [List.flatMap_append, List.append_assoc] using hitem

theorem marked_of_not_mem (h : .setSessionState session ∉ posted) : Marked session posted tail := by
  induction posted with
  | nil => trivial
  | cons callback rest ih =>
    simp only [List.mem_cons, not_or] at h
    exact ⟨fun hcallback => absurd hcallback.symm h.1, ih h.2⟩

end Marks

section Kept

/-- Running work is cancelled only when its phrase is of another session. -/
def Worker.Kept (session : ℕ) : Worker → Prop
  | .running work true _ => ∀ item ∈ work.items, item.epoch ≠ session
  | _ => True

variable {s : State} {session : ℕ}

theorem kept_cancelRunning {which : WorkKind → Bool} (h : s.worker.Kept session)
    (hwhich : ∀ work cancelled announced, s.worker = .running work cancelled announced →
      which work.kind = true → ∀ item ∈ work.items, item.epoch ≠ session) :
    (s.cancelRunning which).Kept session := by
  unfold State.cancelRunning
  cases hworker : s.worker with
  | waiting => trivial
  | took work => trivial
  | running work cancelled announced =>
    cases hkind : which work.kind with
    | false => simpa [hkind, hworker] using h
    | true => simpa [hkind, Worker.Kept] using hwhich work cancelled announced hworker hkind

theorem kept_invalidatePartials (h : s.worker.Kept session) :
    s.invalidatePartials.worker.Kept session := by
  apply kept_cancelRunning h
  intro work cancelled announced _ hpreview item hitem
  rw [Work.items_eq_nil hpreview] at hitem
  cases hitem

/-- No cancellation matters to a session without phrases in the worker. -/
theorem kept_of_items {worker : Worker} (h : ∀ item ∈ worker.items, item.epoch ≠ session) :
    worker.Kept session := by
  cases worker with
  | waiting => trivial
  | took work => trivial
  | running work cancelled announced =>
    cases cancelled with
    | false => trivial
    | true => exact h

end Kept

section Coherent

/-- The invariant of the service. -/
structure State.Coherent (s : State) : Prop where
  sound : s.ledger.Sound
  kept : s.worker.Kept s.session
  once : ∀ n, s.preparations.count n + s.captures.count n ≤ 1
  fresh : ∀ n, s.session < n → s.preparations.count n + s.captures.count n = 0
  captured : ∀ item ∈ s.inFlight, item.epoch ∈ s.captures
  opened : s.active = true → ∀ n, s.capture = some n → n ∈ s.captures
  testing : s.testing = true → s.active = false ∧ s.pending = 0
  marked : Marked s.session s.posted (s.worker.items ++ s.queue.items)
  known : ∀ n, .setSessionState n ∈ s.posted → n ≤ s.session
  settled : s.mode = .recognizing ∨ s.mode = .finishing → s.pending ≠ 0

variable {s t : State}

theorem State.Coherent.epoch_le (h : s.Coherent) {item : Item} (hitem : item ∈ s.inFlight) :
    item.epoch ≤ s.session :=
  h.sound.known item hitem

theorem State.Coherent.worker_epoch_le (h : s.Coherent) {item : Item}
    (hitem : item ∈ s.worker.items) : item.epoch ≤ s.session := by
  apply h.epoch_le
  simp [State.inFlight, hitem]

theorem State.Coherent.pending_ne (h : s.Coherent) {item : Item} (hitem : item ∈ s.inFlight)
    (hepoch : item.epoch = s.session) : s.pending ≠ 0 := by
  have hcounted : s.pending = s.outstanding.length := h.sound.counted
  have hmem : item ∈ s.outstanding := by
    simp [State.outstanding, hitem, hepoch]
  have hlength := List.length_pos_of_mem hmem
  omega

/-- A session ends: nothing of the old session is counted, and at most a preparation of the new
session is queued. -/
theorem State.Coherent.of_end (h : s.Coherent) (hmoves : s.Moves t)
    (hsession : s.session < t.session) (hpending : t.pending = 0)
    (hworker : t.worker.items = s.worker.items)
    (hpreparations : ∀ n, t.preparations.count n ≤
      s.preparations.count n + if n = t.session then 1 else 0)
    (hcaptures : t.captures = s.captures) (hposted : t.posted = s.posted)
    (hinFlight : ∀ item ∈ t.inFlight, item ∈ s.inFlight)
    (hcapture : t.active = false ∨ t.capture = none)
    (htesting : t.testing = true → t.active = false)
    (hmode : t.mode ≠ .recognizing ∧ t.mode ≠ .finishing) : t.Coherent where
  sound := h.sound.of_moves hmoves
  kept := by
    apply kept_of_items
    intro item hitem
    rw [hworker] at hitem
    have hle := h.worker_epoch_le hitem
    omega
  once n := by
    have hn := hpreparations n
    have honce := h.once n
    have hfresh := h.fresh n
    rw [hcaptures]
    split at hn <;> omega
  fresh n hn := by
    have hcount := hpreparations n
    have hfresh := h.fresh n (by omega)
    rw [if_neg (by omega)] at hcount
    rw [hcaptures]
    omega
  captured item hitem := by
    rw [hcaptures]
    exact h.captured item (hinFlight item hitem)
  opened hactive n hn := by
    rcases hcapture with hcapture | hcapture
    · simp [hcapture] at hactive
    · simp [hcapture] at hn
  testing ht := ⟨htesting ht, hpending⟩
  marked := by
    apply marked_of_not_mem
    intro hmem
    rw [hposted] at hmem
    have hle := h.known _ hmem
    omega
  known n hn := by
    rw [hposted] at hn
    have hle := h.known n hn
    omega
  settled hsettled := by
    rcases hsettled with hsettled | hsettled
    · exact absurd hsettled hmode.1
    · exact absurd hsettled hmode.2

/-- The session goes on. -/
theorem State.Coherent.of_same (h : s.Coherent) (hmoves : s.Moves t)
    (hsession : t.session = s.session) (hkept : t.worker.Kept s.session)
    (hpreparations : ∀ n, t.preparations.count n + t.captures.count n ≤
      s.preparations.count n + s.captures.count n)
    (hcaptured : ∀ item ∈ t.inFlight, item.epoch ∈ t.captures)
    (hopened : t.active = true → ∀ n, t.capture = some n → n ∈ t.captures)
    (htesting : t.testing = true → t.active = false ∧ t.pending = 0)
    (hmarked : Marked s.session t.posted (t.worker.items ++ t.queue.items))
    (hknown : ∀ n, .setSessionState n ∈ t.posted → n ≤ s.session)
    (hsettled : t.mode = .recognizing ∨ t.mode = .finishing → t.pending ≠ 0) : t.Coherent where
  sound := h.sound.of_moves hmoves
  kept := by rwa [hsession]
  once n := Nat.le_trans (hpreparations n) (h.once n)
  fresh n hn := by
    have hfresh := h.fresh n (by omega)
    have hcount := hpreparations n
    omega
  captured := hcaptured
  opened := hopened
  testing := htesting
  marked := by rwa [hsession]
  known := by rwa [hsession]
  settled := hsettled

/-- Only what a step shows and whether it records change. -/
theorem State.Coherent.of_quiet (h : s.Coherent) (hledger : t.ledger = s.ledger)
    (hposted : t.posted = s.posted) (hworker : t.worker.items = s.worker.items)
    (hqueue : t.queue.items = s.queue.items)
    (hpreparations : t.preparations = s.preparations)
    (hcaptures : t.captures = s.captures) (hkept : t.worker.Kept s.session)
    (hopened : t.active = true → ∀ n, t.capture = some n → n ∈ s.captures)
    (htesting : t.testing = true → t.active = false ∧ t.pending = 0)
    (hsettled : t.mode = .recognizing ∨ t.mode = .finishing → t.pending ≠ 0) : t.Coherent := by
  have hsession : t.session = s.session := congrArg Ledger.epoch hledger
  have hinFlight : t.inFlight = s.inFlight := congrArg Ledger.items hledger
  apply h.of_same (moves_of_eq hledger) hsession hkept
  · intro n
    simp [hpreparations, hcaptures]
  · rw [hinFlight, hcaptures]
    exact h.captured
  · rw [hcaptures]
    exact hopened
  · exact htesting
  · rw [hposted, hworker, hqueue]
    exact h.marked
  · rw [hposted]
    exact h.known
  · exact hsettled

end Coherent

end Dictation
