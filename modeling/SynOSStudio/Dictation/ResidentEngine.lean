import SynOSStudio.Dictation.WorkerFrames

/-!
# The resident engine

One caller and its worker process: the loop of the caller over the two pipes, the loop of the
worker, its cancelled flag and the one signal that may be on its way.
-/

namespace Dictation.Resident

section Worker

/-- Where the worker is. It resets its flag on the way from `top` to `reading`; the status of an
answer and its text are looked up one after the other. -/
inductive Phase where
  | starting
  | top
  | reading
  | recognising (pcm : Bytes)
  | answering (status : Status) (text : Option Bytes)
  | writing (rest : Bytes)
  | exited
  deriving DecidableEq

/-- The worker, what it has read ahead, and its pipes. -/
structure Process where
  phase : Phase
  cancelled : Bool
  signalled : Bool
  buffer : Bytes
  input : Bytes
  output : Bytes
  deriving DecidableEq

def spawned : Process := ⟨.starting, false, false, [], [], []⟩

inductive WorkerAct where
  | greet (line : Bytes)
  | reset
  | fill (n : ℕ)
  | accept
  | infer (text : Option Bytes)
  | answer (metrics : {bytes : Bytes // newline ∉ bytes})
  | write (n : ℕ)
  | onCancel
  | exit
  deriving DecidableEq

def statusOf (cancelled : Bool) (text : Option Bytes) : Status :=
  if cancelled then .cancelled
  else if text.isNone then .error
  else .success

/-- The text is left out when the flag was set after the status was printed. -/
def Process.reply (p : Process) (status : Status) (text : Option Bytes)
    (metrics : {bytes : Bytes // newline ∉ bytes}) : Reply :=
  ⟨status, if p.cancelled then [] else text.getD [], metrics⟩

/-- One step of the worker. The line of a worker that is unavailable is a greeting before its
exit. -/
def Process.step (p : Process) (act : WorkerAct) : Option Process :=
  match act, p.phase with
  | .greet line, .starting =>
    if newline ∈ line then none else some { p with phase := .writing (line ++ [newline]) }
  | .reset, .top => some { p with phase := .reading, cancelled := false }
  | .fill n, .reading =>
    if 0 < n ∧ n ≤ p.input.length then
      some { p with buffer := p.buffer ++ p.input.take n, input := p.input.drop n }
    else none
  | .accept, .reading =>
    match readFrame p.buffer with
    | .more => none
    | .refused => some { p with phase := .exited }
    | .frame pcm rest => some { p with phase := .recognising pcm, buffer := rest }
  | .infer text, .recognising _ =>
    some { p with phase := .answering (statusOf p.cancelled text) text }
  | .answer metrics, .answering status text =>
    some { p with phase := .writing ((p.reply status text metrics).line ++ [newline]) }
  | .write n, .writing rest =>
    if 0 < n ∧ n ≤ rest.length then
      some { p with
        output := p.output ++ rest.take n
        phase := if rest.drop n = [] then .top else .writing (rest.drop n) }
    else none
  | .onCancel, phase =>
    if p.signalled ∧ phase ≠ .exited then some { p with cancelled := true, signalled := false }
    else none
  | .exit, _ => some { p with phase := .exited }
  | _, _ => none

end Worker

section Caller

/-- Where the loop of `_exchange` is. -/
inductive Point where
  | check
  | deadline
  | line
  | write
  | read
  deriving DecidableEq

/-- A call of `transcribe` in its exchange for the greeting or for the phrase. -/
structure Call where
  number : ℕ
  pcm : Bytes
  cancelled : Bool
  starting : Bool
  remaining : Bytes
  aborting : Bool
  point : Point
  deriving DecidableEq

inductive Outcome where
  | text (text : Bytes)
  | cancelled
  | timeout
  | error (message : String)
  | unavailable (message : String)
  deriving DecidableEq

structure Finished where
  number : ℕ
  pcm : Bytes
  cancelled : Bool
  outcome : Outcome
  deriving DecidableEq

/-- A text that a worker found, with the call that it worked for and the audio that it had. -/
structure Answer where
  call : ℕ
  pcm : Bytes
  text : Bytes
  deriving DecidableEq

/-- What the worker infers is an answer for the call that is made. -/
def found (call : Option Call) (p : Process) (act : WorkerAct) : List Answer :=
  match act, p.phase, call with
  | .infer (some text), .recognising pcm, some call => [⟨call.number, pcm, text⟩]
  | _, _, _ => []

structure State where
  process : Option Process
  response : Bytes
  call : Option Call
  calls : ℕ
  answers : List Answer
  finished : List Finished
  deriving DecidableEq

def initial : State := ⟨none, [], none, 0, [], []⟩

namespace State

variable (s : State) (call : Call)

def close : State := { s with process := none, response := [] }

def finish (outcome : Outcome) : State :=
  { s with
    call := none
    finished := s.finished ++ [⟨call.number, call.pcm, call.cancelled, outcome⟩] }

def goOn (point : Point) : State := { s with call := some { call with point := point } }

/-- `transcribe` up to its first exchange. -/
def begin (pcm : Bytes) (cancelled installed started : Bool) : State :=
  let call : Call := ⟨s.calls, pcm, cancelled, false, frame pcm, false, .check⟩
  let s := { s with calls := s.calls + 1 }
  if pcm.length < minFrame then s.finish call (.text [])
  else if pcm.length % 2 ≠ 0 ∨ maxFrame < pcm.length then
    s.finish call (.error "Invalid speech audio length")
  else if cancelled then s.finish call .cancelled
  else if s.process.isSome then { s with call := some call }
  else if !installed then s.finish call (.error "The selected speech model is not installed")
  else if !started then
    s.finish call (.unavailable "The recognition worker could not be started")
  else
    { s with
      process := some spawned
      call := some { call with starting := true, remaining := [] } }

/-- SIGUSR1 goes to a process that has not exited. -/
def signal : State :=
  { s with process := s.process.map fun p =>
      if p.phase = .exited then p else { p with signalled := true } }

/-- The look at the cancel event at the head of the loop. -/
def check (expired : Bool) : State :=
  if call.cancelled then
    if call.remaining ≠ [] ∨ call.starting then s.close.finish call .cancelled
    else if call.aborting = false then
      s.signal.goOn { call with aborting := true } .deadline
    else if expired then s.close.finish call .cancelled
    else s.goOn call .deadline
  else s.goOn call .deadline

def deadline (expired : Bool) : State :=
  if expired then s.close.finish call .timeout else s.goOn call .line

/-- What `transcribe` does with the result of an exchange. -/
def received (clean : Bytes → Bytes) (result : Result) : State :=
  if call.starting then
    if result.status ≠ some (ascii "ready") then
      s.close.finish call (.unavailable
        "The recognition library is missing or unsupported; reinstall Voice Typing")
    else
      { s with call := some { call with
          starting := false, remaining := frame call.pcm, aborting := false, point := .check } }
  else if result.status = some (ascii "cancelled") then s.finish call .cancelled
  else
    match result.text with
    | some text =>
      if result.status = some (ascii "success") then s.finish call (.text (clean text))
      else s.close.finish call (.error "Speech recognition failed")
    | none => s.close.finish call (.error "Speech recognition failed")

def line (loads : Bytes → Option Result) (clean : Bytes → Bytes) : State :=
  if newline ∈ s.response then
    let line := s.response.takeWhile (· ≠ newline)
    let s := { s with response := s.response.drop (line.length + 1) }
    match loads line with
    | none => s.close.finish call (.error "Invalid recognition worker response")
    | some result =>
      if call.aborting then
        if result.status ≠ some (ascii "cancelled") then s.close.finish call .cancelled
        else s.finish call .cancelled
      else s.received call clean result
  else s.goOn call .write

/-- A write of some bytes, or of none when the pipe is full. -/
def write (n : ℕ) : Option State :=
  match s.process with
  | none => none
  | some p =>
    if n = 0 then some (s.goOn call .read)
    else if n ≤ call.remaining.length ∧ n ≤ 16384 then
      if p.phase = .exited then some (s.close.finish call (.error "Recognition worker exited"))
      else
        some (({ s with process := some { p with input := p.input ++ call.remaining.take n } } :
          State).goOn { call with remaining := call.remaining.drop n } .read)
    else none

def maxResponse : ℕ := 1048576

/-- A read of some bytes, of none when there are none yet, or of the end. -/
def read (n : ℕ) : Option State :=
  match s.process with
  | none => none
  | some p =>
    if n = 0 then some (s.goOn call .check)
    else if p.output = [] then
      if p.phase = .exited then some (s.close.finish call (.error "Recognition worker exited"))
      else none
    else if n ≤ p.output.length ∧ n ≤ 65536 then
      let s := { s with
        process := some { p with output := p.output.drop n }
        response := s.response ++ p.output.take n }
      if maxResponse < s.response.length then
        some (s.close.finish call (.error "Recognition worker response is too large"))
      else some (s.goOn call .check)
    else none

def work (act : WorkerAct) : Option State :=
  match s.process with
  | none => none
  | some p =>
    (p.step act).map fun q => { s with
      process := some q
      answers := s.answers ++ found s.call p act }

end State

inductive Act where
  | begin (pcm : Bytes) (cancelled installed started : Bool)
  | cancel
  | close
  | check (expired : Bool)
  | deadline (expired : Bool)
  | line
  | write (n : ℕ)
  | read (n : ℕ)
  | work (act : WorkerAct)
  deriving DecidableEq

/-- One step of the caller, of its environment or of the worker. -/
def step (loads : Bytes → Option Result) (clean : Bytes → Bytes) (s : State) (act : Act) :
    Option State :=
  match act, s.call with
  | .begin pcm cancelled installed started, none =>
    some (s.begin pcm cancelled installed started)
  | .close, none => some s.close
  | .cancel, some call => some { s with call := some { call with cancelled := true } }
  | .check expired, some call =>
    if call.point = .check then some (s.check call expired) else none
  | .deadline expired, some call =>
    if call.point = .deadline then some (s.deadline call expired) else none
  | .line, some call => if call.point = .line then some (s.line call loads clean) else none
  | .write n, some call => if call.point = .write then s.write call n else none
  | .read n, some call => if call.point = .read then s.read call n else none
  | .work act, _ => s.work act
  | _, _ => none

end Caller

end Dictation.Resident
