import Mathlib.Data.List.Basic

/-!
# The dictation service

The session state of the service, its recognition queue, its worker thread and the callbacks
that it posts to the main loop. A phrase carries the number of its acceptance.
-/

namespace Dictation

/-- What a unit of work is for; a preview carries the number of cuts when it was queued. -/
inductive WorkKind where
  | prepare
  | final (phrase : ℕ)
  | preview (cuts : ℕ)
  deriving DecidableEq

def WorkKind.isPreview : WorkKind → Bool
  | .preview _ => true
  | _ => false

structure Work where
  kind : WorkKind
  session : ℕ
  generation : ℕ
  deriving DecidableEq

section Queue

/-- Bounded final work and a single replaceable preview. -/
structure RecognitionQueue where
  finals : List Work
  preview : Option {work : Work // work.kind.isPreview}
  deriving DecidableEq

def maxFinals : ℕ := 8

/-- `put`, with nothing for a refusal. -/
def RecognitionQueue.put (queue : RecognitionQueue) (work : Work) : Option RecognitionQueue :=
  if h : work.kind.isPreview then
    if queue.finals ≠ [] then none else some ⟨queue.finals, some ⟨work, h⟩⟩
  else if maxFinals ≤ queue.finals.length then none
  else some ⟨queue.finals ++ [work], none⟩

def RecognitionQueue.get (queue : RecognitionQueue) : Option (Work × RecognitionQueue) :=
  match queue.finals, queue.preview with
  | work :: rest, preview => some (work, ⟨rest, preview⟩)
  | [], some work => some (work.1, ⟨[], none⟩)
  | [], none => none

def RecognitionQueue.clear (_ : RecognitionQueue) : RecognitionQueue := ⟨[], none⟩

def RecognitionQueue.clearPreview (queue : RecognitionQueue) : RecognitionQueue :=
  ⟨queue.finals, none⟩

end Queue

/-- The worker thread. Work that runs has a cancel event and tells of its preparation at most
twice. -/
inductive Worker where
  | waiting
  | took (work : Work)
  | running (work : Work) (cancelled : Bool) (announced : ℕ)
  deriving DecidableEq

inductive Mode where
  | idle
  | preparing
  | calibrating
  | listening
  | recognizing
  | finishing
  | noSpeech
  | testing
  | error
  deriving DecidableEq

/-- The functions that `GLib.idle_add` is given. -/
inductive Callback where
  | preparationState (session : ℕ) (calibrating : Bool)
  | prepared (session : ℕ)
  | overloaded (session : ℕ)
  | setSessionState (session : ℕ)
  | previewFinished (session generation cuts : ℕ) (text : Bool)
  | recognitionFinished (session phrase : ℕ) (text stop : Bool)
  | recognitionFailed (session : ℕ) (phrase : Option ℕ)
  | captureFailed (session : ℕ)
  | noSpeech (session : ℕ)
  deriving DecidableEq

/-- An emitted transcript: a phrase with its session and the session then, or a preview with
the cuts when it was queued and the cuts then. -/
inductive Transcript where
  | final (session phrase current : ℕ)
  | preview (queued emitted : ℕ)
  deriving DecidableEq

structure State where
  active : Bool
  testing : Bool
  pending : ℕ
  session : ℕ
  generation : ℕ
  floor : ℕ
  capture : Option ℕ
  /-- The sessions whose microphone was opened. -/
  captures : List ℕ
  queue : RecognitionQueue
  worker : Worker
  posted : List Callback
  timers : List ℕ
  mode : Mode
  finishMessage : Bool
  /-- The number of accepted phrases. -/
  accepted : ℕ
  /-- The number of accepted phrases and of calls of `Stop` and `Finish`. -/
  cuts : ℕ
  transcripts : List Transcript
  deriving DecidableEq

def initial : State where
  active := false
  testing := false
  pending := 0
  session := 0
  generation := 0
  floor := 0
  capture := none
  captures := []
  queue := ⟨[], none⟩
  worker := .waiting
  posted := []
  timers := []
  mode := .idle
  finishMessage := false
  accepted := 0
  cuts := 0
  transcripts := []

namespace State

variable (s : State)

section Parts

def setState (mode : Mode) : State := { s with mode := mode }

def post (callback : Callback) : State := { s with posted := s.posted ++ [callback] }

/-- The cancel event of the running work is set if the work is of this kind. -/
def cancelRunning (which : WorkKind → Bool) : Worker :=
  match s.worker with
  | .running work cancelled announced => .running work (cancelled || which work.kind) announced
  | worker => worker

def invalidatePartials : State :=
  { s with
    generation := s.generation + 1
    floor := s.generation + 1
    worker := s.cancelRunning WorkKind.isPreview
    queue := s.queue.clearPreview }

def cancelWork : State :=
  { s with worker := s.cancelRunning fun _ => true, queue := s.queue.clear }

/-- What every call that ends a session does to it. -/
def endSession : State :=
  { ({ s with session := s.session + 1 } : State).invalidatePartials.cancelWork with pending := 0 }

end Parts

section Calls

def stop : State :=
  { ({ s with active := false, testing := false } : State).endSession with
    capture := none
    mode := .idle
    cuts := s.cuts + 1 }

def stopTest : State :=
  { ({ s with testing := false } : State).endSession with capture := none, mode := .idle }

/-- `Start` cancels the work before it looks for the model. -/
def start (installed : Bool) : State :=
  if s.active then s
  else
    let s := if s.testing then s.stopTest else s
    let s := { s.cancelWork with finishMessage := false }
    if installed then
      let s := { ({ s with session := s.session + 1 } : State).invalidatePartials with
        pending := 0
        active := true
        capture := none
        mode := .preparing }
      { s with queue := (s.queue.put ⟨.prepare, s.session, 0⟩).getD s.queue }
    else s.setState .error

/-- `_queue_audio` -/
def queueAudio (session : ℕ) : State :=
  if session ≠ s.session ∨ s.active = false then s
  else
    let s := s.invalidatePartials
    match s.queue.put ⟨.final s.accepted, session, s.generation⟩ with
    | none => s.post (.overloaded session)
    | some queue =>
      { s with
        pending := s.pending + 1
        queue := queue
        accepted := s.accepted + 1
        cuts := s.cuts + 1 }.post (.setSessionState session)

/-- `_queue_partial` -/
def queuePartial (session : ℕ) (live : Bool) : State :=
  if session ≠ s.session ∨ s.active = false ∨ live = false then s
  else
    let s := { s with generation := s.generation + 1 }
    { s with queue := (s.queue.put ⟨.preview s.cuts, session, s.generation⟩).getD s.queue }

/-- A phrase or a preview that a capture delivers. -/
inductive Delivery where
  | audio
  | preview (live : Bool)
  deriving DecidableEq

def deliver (session : ℕ) (delivery : Delivery) : State :=
  match delivery with
  | .audio => s.queueAudio session
  | .preview live => s.queuePartial session live

def flush (session : ℕ) (flushed : List Delivery) : State :=
  flushed.foldl (fun s delivery => s.deliver session delivery) s

/-- `Finish`, whose capture delivers what it holds before it stops. -/
def finish (flushed : List Delivery) : State :=
  if s.active then
    match s.capture with
    | none => s.stop
    | some session =>
      let s := ({ s with capture := none } : State).flush session flushed
      let s := { ({ s with active := false } : State).invalidatePartials with cuts := s.cuts + 1 }
      s.setState (if s.pending ≠ 0 then .finishing else .idle)
  else { s with cuts := s.cuts + 1 }

def startTest (opened : Bool) : State :=
  let s := if s.active then s.stop else s
  if s.testing then s
  else
    let s := s.endSession
    { s with
      testing := true
      capture := some s.session
      mode := if opened then .testing else .error }

end Calls

section Callbacks

def whenCurrent (session : ℕ) (then' : State) : State :=
  if session = s.session then then' else s

def overloaded (session : ℕ) : State :=
  s.whenCurrent session
    ({ ({ s with active := false, capture := none } : State).invalidatePartials with
      finishMessage := true }.setState (if s.pending ≠ 0 then .finishing else .error))

def recognitionFailed (session : ℕ) : State :=
  s.whenCurrent session
    ({ ({ s with pending := s.pending - 1, active := false, capture := none } :
        State).invalidatePartials with
      finishMessage := true }.setState (if s.pending - 1 ≠ 0 then .finishing else .error))

def captureFailed (session : ℕ) : State :=
  s.whenCurrent session
    { ({ s with active := false, testing := false } : State).endSession with
      capture := none
      mode := .error }

/-- The state after a phrase is delivered. -/
def afterPhrase (session : ℕ) (text stop : Bool) : State :=
  if stop then s.stop
  else if s.pending ≠ 0 then s.setState (if s.active then .recognizing else .finishing)
  else if s.active then
    if text then s.setState .listening
    else { s.setState .noSpeech with timers := s.timers ++ [session] }
  else if !s.testing then s.setState (if s.finishMessage then .error else .idle)
  else s

def recognitionFinished (session phrase : ℕ) (text stop : Bool) : State :=
  s.whenCurrent session
    ({ s with
      pending := s.pending - 1
      transcripts := s.transcripts ++
        if text then [Transcript.final session phrase s.session] else [] }.afterPhrase session text stop)

/-- `_partial_is_valid` -/
def previewIsValid (session generation : ℕ) (live : Bool) : Bool :=
  session = s.session && s.floor < generation && s.active && live

def previewFinished (session generation cuts : ℕ) (text live : Bool) : State :=
  if s.previewIsValid session generation live && text then
    { s with transcripts := s.transcripts ++ [.preview cuts s.cuts] }
  else s

def noSpeech (session : ℕ) : State :=
  if session = s.session ∧ s.active ∧ s.pending = 0 ∧ s.mode = .listening then
    { s.setState .noSpeech with timers := s.timers ++ [session] }
  else s

def restoreListeningState (session : ℕ) : State :=
  if session = s.session ∧ s.active ∧ s.mode = .noSpeech then s.setState .listening else s

def setSessionState (session : ℕ) : State :=
  if session = s.session ∧ s.active then s.setState .recognizing else s

def preparationState (session : ℕ) (calibrating : Bool) : State :=
  if session = s.session ∧ s.active ∧ s.capture = none then
    s.setState (if calibrating then .calibrating else .preparing)
  else s

/-- `_prepared`; the microphone opens or fails to. -/
def prepared (session : ℕ) (opened : Bool) : State :=
  if session = s.session ∧ s.active then
    let s := { s with capture := some session, captures := s.captures ++ [session] }
    if opened then s.setState .listening else s.captureFailed session
  else s

def run (callback : Callback) (opened live : Bool) : State :=
  match callback with
  | .preparationState session calibrating => s.preparationState session calibrating
  | .prepared session => s.prepared session opened
  | .overloaded session => s.overloaded session
  | .setSessionState session => s.setSessionState session
  | .previewFinished session generation cuts text =>
    s.previewFinished session generation cuts text live
  | .recognitionFinished session phrase text stop => s.recognitionFinished session phrase text stop
  | .recognitionFailed session _ => s.recognitionFailed session
  | .captureFailed session => s.captureFailed session
  | .noSpeech session => s.noSpeech session

end Callbacks

section WorkerSteps

/-- The checks between taking work and running it. -/
def mayRun (work : Work) (live : Bool) : Bool :=
  work.session = s.session &&
    match work.kind with
    | .preview _ => work.generation = s.generation && s.active && live && s.floor < work.generation
    | _ => true

def enter (work : Work) (live : Bool) : State :=
  { s with worker := if s.mayRun work live then .running work false 0 else .waiting }

/-- The callbacks of work that succeeds. -/
def successCallbacks (work : Work) (cancelled text stop : Bool) : List Callback :=
  match work.kind with
  | .prepare =>
    if cancelled || work.session ≠ s.session || !s.active then [] else [.prepared work.session]
  | .final phrase => [.recognitionFinished work.session phrase text stop]
  | .preview cuts => [.previewFinished work.session work.generation cuts text]

def failureCallbacks (work : Work) : List Callback :=
  match work.kind with
  | .prepare => [.recognitionFailed work.session none]
  | .final phrase => [.recognitionFailed work.session (some phrase)]
  | .preview _ => []

def leave (callbacks : List Callback) : State :=
  { s with worker := .waiting, posted := s.posted ++ callbacks }

end WorkerSteps

end State

section Steps

inductive Act where
  | start (installed : Bool)
  | stop
  | finish (flushed : List State.Delivery)
  | startTest (opened : Bool)
  | stopTest
  | deliver (session : ℕ) (delivery : State.Delivery)
  | captureError (session : ℕ)
  | captureSilent (session : ℕ)
  | take
  | enter (live : Bool)
  | announce (calibrating : Bool)
  | succeed (text stop : Bool)
  | fail
  | abandon
  | idle (opened live : Bool)
  | timer (session : ℕ)
  deriving DecidableEq

/-- One step of a caller, of the capture, of the worker or of the main loop. -/
def step (s : State) : Act → Option State
  | .start installed => some (s.start installed)
  | .stop => some s.stop
  | .finish flushed => some (s.finish flushed)
  | .startTest opened => some (s.startTest opened)
  | .stopTest => some s.stopTest
  | .deliver session delivery =>
    if session ∈ s.captures then some (s.deliver session delivery) else none
  | .captureError session => some (s.post (.captureFailed session))
  | .captureSilent session => some (s.post (.noSpeech session))
  | .take =>
    match s.worker, s.queue.get with
    | .waiting, some (work, queue) => some { s with worker := .took work, queue := queue }
    | _, _ => none
  | .enter live =>
    match s.worker with
    | .took work => some (s.enter work live)
    | _ => none
  | .announce calibrating =>
    match s.worker with
    | .running work cancelled announced =>
      if work.kind = .prepare ∧ announced < 2 then
        some ({ s with worker := .running work cancelled (announced + 1) }.post
          (.preparationState work.session calibrating))
      else none
    | _ => none
  | .succeed text stop =>
    match s.worker with
    | .running work cancelled _ => some (s.leave (s.successCallbacks work cancelled text stop))
    | _ => none
  | .fail =>
    match s.worker with
    | .running work _ _ => some (s.leave (State.failureCallbacks work))
    | _ => none
  | .abandon =>
    match s.worker with
    | .running _ true _ => some (s.leave [])
    | _ => none
  | .idle opened live =>
    match s.posted with
    | callback :: rest => some (({ s with posted := rest } : State).run callback opened live)
    | [] => none
  | .timer session =>
    if session ∈ s.timers then
      some ({ s with timers := s.timers.erase session }.restoreListeningState session)
    else none

end Steps

end Dictation
