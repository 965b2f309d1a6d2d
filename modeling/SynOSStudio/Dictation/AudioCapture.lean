import Mathlib.Algebra.Order.Ring.Rat
import Mathlib.Data.List.Basic
import Mathlib.Tactic

/-!
# The capture of speech

Audio arrives in frames that speech detection calls voiced or not. A phrase begins with the audio
that is kept from before it and ends with silence, with its greatest length or with the capture.
The level of the audio goes to the interface alone and is left out. The times are exact.
-/

namespace Dictation.Capture

abbrev Bytes := List UInt8

def RATE : ℕ := 16000

def BYTES_PER_SECOND : ℕ := RATE * 2

/-- `VadEngine.FRAME_BYTES` -/
def FRAME_BYTES : ℕ := 1024

/-- `int(0.35 * BYTES_PER_SECOND)` -/
def preRollLimit : ℕ := 11200

/-- The arguments of the constructor. A phrase is longer than the audio that is kept in front of
it, and silence takes time. -/
structure Settings where
  silenceSeconds : ℚ
  maxPhraseBytes : ℕ
  partialInterval : ℚ
  silence_pos : 0 < silenceSeconds
  preRoll_lt : preRollLimit < maxPhraseBytes

/-- The defaults, with which the service calls the constructor. -/
def Settings.standard : Settings where
  silenceSeconds := 4 / 5
  maxPhraseBytes := 12 * BYTES_PER_SECOND
  partialInterval := 4 / 5
  silence_pos := by norm_num
  preRoll_lt := by decide

structure AudioCapture where
  phrase : Bytes
  preRoll : List Bytes
  preRollSize : ℕ
  speaking : Bool
  lastVoice : ℚ
  lastPartial : ℚ
  lastSpeechNotice : ℚ
  onsetSeconds : ℚ
  audioSeconds : ℚ
  pendingPcm : Bytes
  lastFrameVoiced : Bool

inductive EndpointReason
  | silence | maxDuration | finish
  deriving DecidableEq

/-- The callbacks, without the level. -/
inductive Event
  | chunk (audio : Bytes) (endpointMs : ℚ) (reason : EndpointReason)
  | preview (audio : Bytes)
  | noSpeech
  deriving DecidableEq

namespace AudioCapture

variable (settings : Settings) (s : AudioCapture)

/-- The capture as it is when it starts. -/
def start (now : ℚ) : AudioCapture where
  phrase := []
  preRoll := []
  preRollSize := 0
  speaking := false
  lastVoice := 0
  lastPartial := 0
  lastSpeechNotice := now
  onsetSeconds := 0
  audioSeconds := 0
  pendingPcm := []
  lastFrameVoiced := false

def resetPhrase : AudioCapture :=
  { s with
    phrase := []
    preRoll := []
    preRollSize := 0
    speaking := false
    lastVoice := 0
    lastPartial := 0
    onsetSeconds := 0 }

/-- The loop that drops the oldest audio. -/
def evict : ℕ → List Bytes → ℕ × List Bytes
  | size, [] => (size, [])
  | size, data :: rest =>
    if preRollLimit < size then evict (size - data.length) rest else (size, data :: rest)

/-- Audio is kept while nobody speaks. -/
def remember (data : Bytes) : AudioCapture :=
  if s.speaking then s
  else
    let (preRollSize, preRoll) := evict (s.preRollSize + data.length) (s.preRoll ++ [data])
    { s with preRoll, preRollSize }

def seconds (data : Bytes) : ℚ :=
  data.length / BYTES_PER_SECOND

/-- The phrase that begins or goes on with voiced audio. -/
def extend (data : Bytes) (now : ℚ) : AudioCapture :=
  let s :=
    if s.speaking then { s with phrase := s.phrase ++ data }
    else
      { s with
        speaking := true
        lastPartial := now
        phrase := s.phrase ++ s.preRoll.flatten
        preRoll := []
        preRollSize := 0 }
  { s with lastVoice := s.audioSeconds, lastSpeechNotice := now }

/-- `_consume` up to the question whether the phrase is complete. -/
def collect (data : Bytes) (voiced : Bool) (now : ℚ) : AudioCapture :=
  let s := { s with audioSeconds := s.audioSeconds + seconds data }
  let s := s.remember data
  let s := { s with onsetSeconds := if voiced then s.onsetSeconds + seconds data else 0 }
  if voiced && (s.speaking || 3 / 25 ≤ s.onsetSeconds) then s.extend data now
  else if s.speaking then { s with phrase := s.phrase ++ data }
  else s

def phraseComplete : Bool :=
  s.speaking && (settings.silenceSeconds ≤ s.audioSeconds - s.lastVoice ||
    settings.maxPhraseBytes ≤ s.phrase.length)

def endpointMs : ℚ :=
  max 0 (s.audioSeconds - s.lastVoice) * 1000

def deliverChunk (audio : Bytes) (endpointMs : ℚ) (reason : EndpointReason) : List Event :=
  if audio = [] then [] else [.chunk audio endpointMs reason]

/-- `_consume` from that question on. -/
def conclude (now : ℚ) : AudioCapture × List Event :=
  if s.phraseComplete settings then
    (s.resetPhrase, deliverChunk s.phrase s.endpointMs
      (if settings.maxPhraseBytes ≤ s.phrase.length then .maxDuration else .silence))
  else if s.speaking && settings.partialInterval ≤ now - s.lastPartial &&
      BYTES_PER_SECOND / 4 ≤ s.phrase.length then
    ({ s with lastPartial := now }, [.preview s.phrase])
  else if !s.speaking && 8 ≤ now - s.lastSpeechNotice then
    ({ s with lastSpeechNotice := now }, [.noSpeech])
  else (s, [])

/-- `_consume`, on whole samples -/
def consume (data : Bytes) (voiced : Bool) (now : ℚ) : AudioCapture × List Event :=
  if data = [] then (s, []) else (s.collect data voiced now).conclude settings now

/-- The frames that are pending; the detector and the clock answer once for each of them. -/
def drain (voiced : ℕ → Bytes → Bool) (now : ℕ → ℚ) : ℕ → AudioCapture →
    AudioCapture × List Event
  | 0, s => (s, [])
  | n + 1, s =>
    let frame := s.pendingPcm.take FRAME_BYTES
    let s := { s with
      pendingPcm := s.pendingPcm.drop FRAME_BYTES
      lastFrameVoiced := voiced n frame }
    let (s, events) := s.consume settings frame (voiced n frame) (now n)
    let (s, later) := drain voiced now n s
    (s, events ++ later)

/-- `_process_pcm` with speech detection -/
def processPcm (voiced : ℕ → Bytes → Bool) (now : ℕ → ℚ) (data : Bytes) :
    AudioCapture × List Event :=
  let pendingPcm := s.pendingPcm ++ data
  drain settings voiced now (pendingPcm.length / FRAME_BYTES) { s with pendingPcm }

def stop (flush : Bool) (now : ℚ) : AudioCapture × List Event :=
  let (s, events) :=
    if flush && s.pendingPcm ≠ [] then s.consume settings s.pendingPcm s.lastFrameVoiced now
    else (s, [])
  let s := { s with pendingPcm := [] }
  let chunk := if flush && s.speaking then s.phrase else []
  let padding := List.replicate (BYTES_PER_SECOND / 2 - chunk.length) 0
  (s.resetPhrase, events ++
    if chunk = [] then [] else deliverChunk (chunk ++ padding) s.endpointMs .finish)

end AudioCapture

/-! ## Whole captures -/

/-- A frame, what the detector says of it, and when it comes. -/
structure Frame where
  data : Bytes
  voiced : Bool
  now : ℚ
  length_data : data.length = FRAME_BYTES

def feed (settings : Settings) : AudioCapture → List Frame → AudioCapture × List Event
  | s, [] => (s, [])
  | s, frame :: frames =>
    let (s, events) := s.processPcm settings (fun _ _ => frame.voiced) (fun _ => frame.now)
      frame.data
    let (s, later) := feed settings s frames
    (s, events ++ later)

def Event.phrase? : Event → Option Bytes
  | .chunk audio _ _ => some audio
  | _ => none

/-- The phrases of a capture that is stopped with a flush. -/
def delivered (settings : Settings) (started stopped : ℚ) (frames : List Frame) : List Bytes :=
  let (s, events) := feed settings (AudioCapture.start started) frames
  (events ++ (s.stop settings true stopped).2).filterMap Event.phrase?

end Dictation.Capture
