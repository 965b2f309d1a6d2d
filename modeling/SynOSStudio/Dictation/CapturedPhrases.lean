import SynOSStudio.Dictation.SpeechStretches

/-!
# The phrases of a capture

The buffers of the capture hold the frames that the shape of the capture counts, so that every
phrase is a stretch of the audio.
-/

namespace Dictation.Capture

open AudioCapture

/-- The audio of a stretch. -/
def audioOf (frames : List Frame) (p : ℕ × ℕ) : Bytes :=
  ((frames.take p.2).drop p.1).flatMap Frame.data

section Shapes

variable {settings : Settings} {shape : Shape} {voiced : Bool}

/-- The step of a shape up to the question whether the phrase is complete. -/
def Shape.collect (shape : Shape) (voiced : Bool) : Shape :=
  let count := shape.count + 1
  let onset := if voiced then shape.onset + 1 else 0
  match shape.start with
  | none =>
    if 4 ≤ onset then
      ⟨count, shape.base, onset, some (max shape.base (count - 10)), count, shape.finished⟩
    else ⟨count, shape.base, onset, none, shape.lastVoice, shape.finished⟩
  | some start =>
    ⟨count, shape.base, onset, some start, if voiced then count else shape.lastVoice,
      shape.finished⟩

def Shape.conclude (settings : Settings) (shape : Shape) : Shape :=
  match shape.start with
  | none => shape
  | some start =>
    if settings.Completes start shape.lastVoice shape.count then
      ⟨shape.count, shape.count, 0, none, 0, shape.finished ++ [(start, shape.count)]⟩
    else shape

theorem step_eq_conclude (hbase : shape.base ≤ shape.count) :
    shape.step settings voiced = (shape.collect voiced).conclude settings := by
  cases hstart : shape.start with
  | none =>
    by_cases hfour : 4 ≤ if voiced = true then shape.onset + 1 else 0
    · have hopen : ¬ settings.Completes (max shape.base (shape.count + 1 - 10)) (shape.count + 1)
          (shape.count + 1) := by
        intro hcompletes
        have hfull := completes_of_voiced hcompletes
        have hlimit := settings.preRoll_lt
        simp only [FRAME_BYTES, preRollLimit] at hfull hlimit
        omega
      simp only [Shape.step, Shape.collect, Shape.conclude, hstart, if_pos hfour]
      rw [if_neg hopen]
    · simp only [Shape.step, Shape.collect, Shape.conclude, hstart, if_neg hfour]
  | some start => simp only [Shape.step, Shape.collect, Shape.conclude, hstart]

end Shapes

/-! ## One frame -/

section Frames

variable {settings : Settings} {frames : List Frame} {frame : Frame} {s : AudioCapture}
  {events : List Event} {shape : Shape} {p : ℕ × ℕ} {kept : List Bytes} {n : ℕ} {now : ℚ}

theorem audioOf_concat (hp : p.2 ≤ frames.length) (frame : Frame) :
    audioOf (frames ++ [frame]) p = audioOf frames p := by
  rw [audioOf, List.take_append_of_le_length hp, audioOf]

theorem audioOf_end (hp : n ≤ frames.length) (frame : Frame) :
    audioOf (frames ++ [frame]) (n, frames.length + 1) =
      audioOf frames (n, frames.length) ++ frame.data := by
  have hall : (frames ++ [frame]).take (frames.length + 1) = frames ++ [frame] :=
    List.take_of_length_le (by simp)
  simp only [audioOf, hall, List.take_length]
  rw [List.drop_append_of_le_length hp, List.flatMap_append, List.flatMap_singleton]

theorem length_flatMap_data (frames : List Frame) :
    (frames.flatMap Frame.data).length = frames.length * FRAME_BYTES := by
  induction frames with
  | nil => rfl
  | cons frame frames ih =>
    rw [List.flatMap_cons, List.length_append, ih, frame.length_data, List.length_cons]
    ring

theorem length_audioOf (hp : p.2 ≤ frames.length) :
    (audioOf frames p).length = (p.2 - p.1) * FRAME_BYTES := by
  rw [audioOf, length_flatMap_data, List.length_drop, List.length_take, Nat.min_eq_left hp]

/-- The kept audio is that of the last ten frames. -/
theorem evict_frames (frames : List Frame) :
    evict (frames.length * FRAME_BYTES) (frames.map Frame.data) =
      ((frames.drop (frames.length - 10)).length * FRAME_BYTES,
        (frames.drop (frames.length - 10)).map Frame.data) := by
  induction frames with
  | nil => rfl
  | cons frame frames ih =>
    rw [List.map_cons, evict]
    split
    · next hfull =>
      have hlong : 10 ≤ frames.length := by
        simp only [List.length_cons, preRollLimit, FRAME_BYTES] at hfull
        omega
      have hsize : (frame :: frames).length * FRAME_BYTES - frame.data.length =
          frames.length * FRAME_BYTES := by
        rw [frame.length_data, List.length_cons, Nat.succ_mul, Nat.add_sub_cancel]
      have hdrop : (frame :: frames).length - 10 = frames.length - 10 + 1 := by
        rw [List.length_cons]
        omega
      rw [hsize, ih, hdrop, List.drop_succ_cons]
    · next hfits =>
      have hshort : (frame :: frames).length - 10 = 0 := by
        simp only [List.length_cons, preRollLimit, FRAME_BYTES] at hfits ⊢
        omega
      rw [hshort, List.drop_zero, List.map_cons]

/-- The capture holds what its shape counts. -/
structure Follows (frames : List Frame) (s : AudioCapture) (events : List Event)
    (shape : Shape) : Prop where
  count : shape.count = frames.length
  base_le : shape.base ≤ shape.count
  finished_le : ∀ p ∈ shape.finished, p.2 ≤ shape.count
  audioSeconds : s.audioSeconds = shape.count * frameSeconds
  onsetSeconds : s.onsetSeconds = shape.onset * frameSeconds
  pendingPcm : s.pendingPcm = []
  phrases : events.filterMap Event.phrase? = shape.finished.map (audioOf frames)
  waiting : shape.start = none → s.speaking = false ∧ s.phrase = [] ∧
    s.preRollSize = (shape.count - max shape.base (shape.count - 10)) * FRAME_BYTES ∧
    s.preRoll = (frames.drop (max shape.base (shape.count - 10))).map Frame.data
  speaking : ∀ start, shape.start = some start → s.speaking = true ∧
    s.phrase = audioOf frames (start, shape.count) ∧ s.lastVoice = shape.lastVoice * frameSeconds ∧
    start < shape.count ∧ shape.lastVoice ≤ shape.count

theorem follows_start (now : ℚ) : Follows [] (AudioCapture.start now) [] Shape.initial where
  count := rfl
  base_le := le_rfl
  finished_le := nofun
  audioSeconds := by simp [AudioCapture.start, Shape.initial]
  onsetSeconds := by simp [AudioCapture.start, Shape.initial]
  pendingPcm := rfl
  phrases := rfl
  waiting _ := ⟨rfl, rfl, rfl, rfl⟩
  speaking := nofun

theorem seconds_frame (frame : Frame) : seconds frame.data = frameSeconds := by
  rw [seconds, frame.length_data]
  norm_num [FRAME_BYTES, BYTES_PER_SECOND, RATE, frameSeconds]

theorem onset_iff (n : ℕ) : 3 / 25 ≤ (n : ℚ) * frameSeconds ↔ 4 ≤ n := by
  constructor
  · intro h
    by_contra hless
    have hthree : (n : ℚ) ≤ 3 := by exact_mod_cast Nat.lt_succ_iff.mp (not_le.mp hless)
    norm_num [frameSeconds] at h
    linarith
  · intro h
    have hfour : (4 : ℚ) ≤ n := by exact_mod_cast h
    norm_num [frameSeconds]
    linarith

theorem Follows.phrases_concat (h : Follows frames s events shape) (frame : Frame) :
    events.filterMap Event.phrase? = shape.finished.map (audioOf (frames ++ [frame])) := by
  rw [h.phrases]
  refine List.map_congr_left fun p hp => (audioOf_concat ?_ frame).symm
  rw [← h.count]
  exact h.finished_le p hp

/-- The audio that is kept with a new frame. -/
theorem Follows.remember (h : Follows frames s events shape) (hstart : shape.start = none)
    (frame : Frame) (s' : AudioCapture) (hspeaking : s'.speaking = s.speaking)
    (hsize : s'.preRollSize = s.preRollSize) (hroll : s'.preRoll = s.preRoll) :
    s'.remember frame.data = { s' with
      preRollSize := (shape.count + 1 - max shape.base (shape.count + 1 - 10)) * FRAME_BYTES
      preRoll := ((frames ++ [frame]).drop (max shape.base (shape.count + 1 - 10))).map
        Frame.data } := by
  obtain ⟨hquiet, -, hkeptSize, hkept⟩ := h.waiting hstart
  have hcount := h.count
  have hbase := h.base_le
  have hle : max shape.base (shape.count - 10) ≤ frames.length := by omega
  have hlength : ((frames ++ [frame]).drop (max shape.base (shape.count - 10))).length =
      shape.count + 1 - max shape.base (shape.count - 10) := by
    rw [List.length_drop, List.length_append, List.length_singleton, hcount]
  have hall : s'.preRoll ++ [frame.data] =
      ((frames ++ [frame]).drop (max shape.base (shape.count - 10))).map Frame.data := by
    rw [hroll, hkept, List.drop_append_of_le_length hle, List.map_append]
    rfl
  have hbytes : s'.preRollSize + frame.data.length =
      ((frames ++ [frame]).drop (max shape.base (shape.count - 10))).length * FRAME_BYTES := by
    rw [hlength, hsize, hkeptSize, frame.length_data, ← Nat.succ_mul]
    congr 1
    omega
  have hdrop : max shape.base (shape.count - 10) +
      (shape.count + 1 - max shape.base (shape.count - 10) - 10) =
        max shape.base (shape.count + 1 - 10) := by
    omega
  rw [AudioCapture.remember, hspeaking, hquiet, if_neg Bool.false_ne_true, hall, hbytes,
    evict_frames, hlength, List.drop_drop, hdrop]
  simp only [List.length_drop, List.length_append, List.length_singleton, hcount]

theorem audioOf_all (frames : List Frame) (n : ℕ) :
    audioOf frames (n, frames.length) = ((frames.drop n).map Frame.data).flatten := by
  rw [audioOf, List.take_length, List.flatMap_def]

theorem onsetSeconds_succ (n : ℕ) (voiced : Bool) :
    (if voiced = true then (n : ℚ) * frameSeconds + frameSeconds else 0) =
      ((if voiced = true then n + 1 else 0 : ℕ) : ℚ) * frameSeconds := by
  cases voiced with
  | false => simp
  | true =>
    simp only [if_true]
    push_cast
    ring

theorem Follows.collect_waiting (h : Follows frames s events shape) (hstart : shape.start = none)
    (frame : Frame) : Follows (frames ++ [frame])
      (s.collect frame.data frame.voiced frame.now) events (shape.collect frame.voiced) := by
  obtain ⟨hquiet, hphrase, -, -⟩ := h.waiting hstart
  have hcount := h.count
  have hbase := h.base_le
  have hlength : shape.count + 1 = (frames ++ [frame]).length := by simp [hcount]
  have hseconds : s.audioSeconds + seconds frame.data = (shape.count + 1 : ℕ) * frameSeconds := by
    rw [h.audioSeconds, seconds_frame]
    push_cast
    ring
  have honset := onsetSeconds_succ shape.onset frame.voiced
  have hremember := h.remember hstart frame
    { s with audioSeconds := s.audioSeconds + seconds frame.data } rfl rfl rfl
  simp only [AudioCapture.collect, hremember]
  simp only [hquiet, h.onsetSeconds, seconds_frame, honset, Bool.false_or]
  by_cases hfour : 4 ≤ if frame.voiced = true then shape.onset + 1 else 0
  · have hvoiced : frame.voiced = true := by
      by_contra hnot
      simp [hnot] at hfour
    have hbegins : (frame.voiced && decide (3 / 25 ≤
        ((if frame.voiced = true then shape.onset + 1 else 0 : ℕ) : ℚ) * frameSeconds)) = true := by
      rw [hvoiced, Bool.true_and, decide_eq_true_eq, onset_iff]
      simpa [hvoiced] using hfour
    simp only [Shape.collect, hstart, if_pos hfour, if_pos hbegins]
    refine ⟨hlength, hbase.trans (Nat.le_succ _),
      fun p hp => (h.finished_le p hp).trans (Nat.le_succ _), ?_, rfl, h.pendingPcm,
      h.phrases_concat frame, nofun, fun start hsome => ?_⟩
    · rw [← hseconds, seconds_frame]
      rfl
    · obtain rfl := Option.some.inj hsome
      refine ⟨rfl, ?_, ?_, ?_, le_rfl⟩
      · simp only [AudioCapture.extend, hphrase, hlength, audioOf_all]
        rfl
      · simp only [AudioCapture.extend]
        rw [← hseconds, seconds_frame]
        rfl
      · simp only
        omega
  · have hwaits : (frame.voiced && decide (3 / 25 ≤ ((if frame.voiced = true then shape.onset + 1
        else 0 : ℕ) : ℚ) * frameSeconds)) = false := by
      rw [Bool.and_eq_false_iff, decide_eq_false_iff_not, onset_iff]
      exact .inr hfour
    simp only [Shape.collect, hstart, if_neg hfour, hwaits, Bool.false_eq_true, if_false]
    refine ⟨hlength, hbase.trans (Nat.le_succ _),
      fun p hp => (h.finished_le p hp).trans (Nat.le_succ _), ?_, rfl, h.pendingPcm,
      h.phrases_concat frame, fun _ => ⟨rfl, hphrase, rfl, rfl⟩, nofun⟩
    rw [← hseconds, seconds_frame]

theorem Follows.collect_speaking {start : ℕ} (h : Follows frames s events shape)
    (hstart : shape.start = some start) (frame : Frame) : Follows (frames ++ [frame])
      (s.collect frame.data frame.voiced frame.now) events (shape.collect frame.voiced) := by
  obtain ⟨hspeaking, hphrase, hvoice, hlt, hlast⟩ := h.speaking start hstart
  have hcount := h.count
  have hlength : shape.count + 1 = (frames ++ [frame]).length := by simp [hcount]
  have hseconds : s.audioSeconds + frameSeconds = (shape.count + 1 : ℕ) * frameSeconds := by
    rw [h.audioSeconds]
    push_cast
    ring
  have honset := onsetSeconds_succ shape.onset frame.voiced
  have hremember : ({ s with audioSeconds := s.audioSeconds + frameSeconds } :
      AudioCapture).remember frame.data =
        { s with audioSeconds := s.audioSeconds + frameSeconds } := by
    rw [AudioCapture.remember, if_pos hspeaking]
  have haudio : s.phrase ++ frame.data = audioOf (frames ++ [frame]) (start, shape.count + 1) := by
    rw [hphrase, hcount, audioOf_end (hcount ▸ hlt.le)]
  simp only [AudioCapture.collect, seconds_frame, hremember]
  simp only [hspeaking, h.onsetSeconds, honset, Bool.true_or, Bool.and_true, if_true,
    Shape.collect, hstart]
  cases hvoiced : frame.voiced with
  | true =>
    simp only [if_true]
    refine ⟨hlength, h.base_le.trans (Nat.le_succ _),
      fun p hp => (h.finished_le p hp).trans (Nat.le_succ _), hseconds, rfl, h.pendingPcm,
      h.phrases_concat frame, nofun, fun start' hsome => ?_⟩
    obtain rfl := Option.some.inj hsome
    exact ⟨rfl, haudio, hseconds, hlt.trans (Nat.lt_succ_self _), le_rfl⟩
  | false =>
    simp only [Bool.false_eq_true, if_false]
    refine ⟨hlength, h.base_le.trans (Nat.le_succ _),
      fun p hp => (h.finished_le p hp).trans (Nat.le_succ _), hseconds, rfl, h.pendingPcm,
      h.phrases_concat frame, nofun, fun start' hsome => ?_⟩
    obtain rfl := Option.some.inj hsome
    exact ⟨rfl, haudio, hvoice, hlt.trans (Nat.lt_succ_self _), hlast.trans (Nat.le_succ _)⟩

theorem Follows.collect (h : Follows frames s events shape) (frame : Frame) :
    Follows (frames ++ [frame]) (s.collect frame.data frame.voiced frame.now) events
      (shape.collect frame.voiced) := by
  cases hstart : shape.start with
  | none => exact h.collect_waiting hstart frame
  | some start => exact h.collect_speaking hstart frame

theorem audioOf_ne_nil (hlt : p.1 < p.2) (hp : p.2 ≤ frames.length) : audioOf frames p ≠ [] := by
  intro hnil
  have hlength := length_audioOf hp
  rw [hnil, List.length_nil, FRAME_BYTES] at hlength
  omega

theorem Follows.phraseComplete_iff {start : ℕ} (h : Follows frames s events shape)
    (hstart : shape.start = some start) : s.phraseComplete settings = true ↔
      settings.Completes start shape.lastVoice shape.count := by
  obtain ⟨hspeaking, hphrase, hvoice, hlt, hlast⟩ := h.speaking start hstart
  have hsilence : s.audioSeconds - s.lastVoice =
      (shape.count - shape.lastVoice : ℕ) * frameSeconds := by
    rw [h.audioSeconds, hvoice, Nat.cast_sub hlast]
    ring
  rw [AudioCapture.phraseComplete, hspeaking, hsilence, hphrase, length_audioOf h.count.le,
    Bool.true_and, Bool.or_eq_true, decide_eq_true_eq, decide_eq_true_eq, Settings.Completes]

theorem Follows.conclude (settings : Settings) (h : Follows frames s events shape) (now : ℚ) :
    Follows frames (s.conclude settings now).1 (events ++ (s.conclude settings now).2)
      (shape.conclude settings) := by
  have hkeep : ∀ s' event, Event.phrase? event = none → s'.audioSeconds = s.audioSeconds →
      s'.onsetSeconds = s.onsetSeconds → s'.pendingPcm = s.pendingPcm →
      s'.speaking = s.speaking → s'.phrase = s.phrase → s'.preRollSize = s.preRollSize →
      s'.preRoll = s.preRoll → s'.lastVoice = s.lastVoice →
      Follows frames s' (events ++ [event]) shape := by
    intro s' event hevent haudio honset hpending hspeaking hphrase hsize hroll hvoice
    refine ⟨h.count, h.base_le, h.finished_le, haudio ▸ h.audioSeconds, honset ▸ h.onsetSeconds,
      hpending ▸ h.pendingPcm, ?_, ?_, ?_⟩
    · rw [List.filterMap_append, h.phrases]
      simp [hevent]
    · rw [hspeaking, hphrase, hsize, hroll]
      exact h.waiting
    · rw [hspeaking, hphrase, hvoice]
      exact h.speaking
  rw [AudioCapture.conclude]
  by_cases hcomplete : s.phraseComplete settings = true
  · rw [if_pos hcomplete]
    cases hstart : shape.start with
    | none =>
      rw [AudioCapture.phraseComplete, (h.waiting hstart).1] at hcomplete
      cases hcomplete
    | some start =>
      obtain ⟨-, hphrase, -, hlt, -⟩ := h.speaking start hstart
      have hne : s.phrase ≠ [] := by
        rw [hphrase]
        exact audioOf_ne_nil hlt h.count.le
      simp only [Shape.conclude, hstart]
      rw [if_pos ((h.phraseComplete_iff hstart).mp hcomplete)]
      refine ⟨h.count, le_rfl, fun p hp => ?_, h.audioSeconds, ?_, h.pendingPcm, ?_,
        fun _ => ⟨rfl, rfl, ?_, ?_⟩, nofun⟩
      · rcases List.mem_append.mp hp with hp | hp
        · exact h.finished_le p hp
        · rw [List.mem_singleton.mp hp]
      · simp [AudioCapture.resetPhrase]
      · rw [List.filterMap_append, h.phrases, List.map_append, deliverChunk, if_neg hne, hphrase]
        rfl
      · simp [AudioCapture.resetPhrase]
      · simp [AudioCapture.resetPhrase, h.count]
  · rw [if_neg hcomplete]
    have hshape : shape.conclude settings = shape := by
      cases hstart : shape.start with
      | none => simp only [Shape.conclude, hstart]
      | some start =>
        simp only [Shape.conclude, hstart]
        rw [if_neg fun hcompletes => hcomplete ((h.phraseComplete_iff hstart).mpr hcompletes)]
    rw [hshape]
    split
    · exact hkeep _ _ rfl rfl rfl rfl rfl rfl rfl rfl rfl
    · split
      · exact hkeep _ _ rfl rfl rfl rfl rfl rfl rfl rfl rfl
      · rwa [List.append_nil]

/-- A frame that comes on its own is consumed as it is. -/
theorem processPcm_frame (settings : Settings) (hpending : s.pendingPcm = []) (frame : Frame) :
    s.processPcm settings (fun _ _ => frame.voiced) (fun _ => frame.now) frame.data =
      (({ s with pendingPcm := [], lastFrameVoiced := frame.voiced } : AudioCapture).collect
        frame.data frame.voiced frame.now).conclude settings frame.now := by
  have hone : ([] ++ frame.data).length / FRAME_BYTES = 1 := by
    rw [List.nil_append, frame.length_data]
    decide
  have htake : ([] ++ frame.data).take FRAME_BYTES = frame.data :=
    List.take_of_length_le frame.length_data.le
  have hdrop : ([] ++ frame.data).drop FRAME_BYTES = [] :=
    List.drop_of_length_le frame.length_data.le
  have hne : frame.data ≠ [] := by
    intro hnil
    have hlength := frame.length_data
    rw [hnil] at hlength
    cases hlength
  rw [processPcm, hpending]
  simp only [hone, drain, htake, hdrop, consume, if_neg hne, List.append_nil]

theorem Follows.process (settings : Settings) (h : Follows frames s events shape)
    (frame : Frame) : Follows (frames ++ [frame])
      (s.processPcm settings (fun _ _ => frame.voiced) (fun _ => frame.now) frame.data).1
      (events ++ (s.processPcm settings (fun _ _ => frame.voiced) (fun _ => frame.now)
        frame.data).2) (shape.step settings frame.voiced) := by
  have hclear : Follows frames { s with pendingPcm := [], lastFrameVoiced := frame.voiced }
      events shape :=
    ⟨h.count, h.base_le, h.finished_le, h.audioSeconds, h.onsetSeconds, rfl, h.phrases, h.waiting,
      h.speaking⟩
  rw [processPcm_frame settings h.pendingPcm, step_eq_conclude h.base_le]
  exact (hclear.collect frame).conclude settings frame.now

theorem Follows.feed (settings : Settings) (h : Follows frames s events shape)
    (more : List Frame) : Follows (frames ++ more) (feed settings s more).1
      (events ++ (feed settings s more).2)
      ((more.map Frame.voiced).foldl (Shape.step settings) shape) := by
  induction more generalizing frames s events shape with
  | nil =>
    rw [List.append_nil]
    exact (List.append_nil events).symm ▸ h
  | cons frame more ih =>
    have hrest := ih (h.process settings frame)
    rw [List.append_assoc, List.append_assoc] at hrest
    exact hrest

theorem follows_feed (settings : Settings) (started : ℚ) (frames : List Frame) :
    Follows frames (Capture.feed settings (AudioCapture.start started) frames).1
      (Capture.feed settings (AudioCapture.start started) frames).2
      (shapeOf settings (frames.map Frame.voiced)) :=
  (follows_start started).feed settings frames

end Frames

/-! ## Whole captures -/

/-- The last phrase with zeros behind it. -/
def padded (padding : ℕ) (phrases : List Bytes) : List Bytes :=
  match phrases.getLast? with
  | none => []
  | some last => phrases.dropLast ++ [last ++ List.replicate padding 0]

/-- The next frame fills the phrase. -/
def Fills (settings : Settings) (s : AudioCapture) : Prop :=
  s.speaking = true ∧ settings.maxPhraseBytes ≤ s.phrase.length + FRAME_BYTES

/-- The phrases are these stretches of whatever audio has the flags, and no frame of a run of at
least four voiced frames is lost or repeated. -/
structure Segmented (settings : Settings) (flags : List Bool) (stretches : List (ℕ × ℕ)) :
    Prop where
  ordered : stretches.Pairwise fun p q => p.2 ≤ q.1
  within : ∀ p ∈ stretches, p.1 < p.2 ∧ p.2 ≤ flags.length
  bounded : ∀ p ∈ stretches, (p.2 - p.1) * FRAME_BYTES ≤ settings.maxPhraseBytes + FRAME_BYTES
  phrases : ∀ started stopped frames, frames.map Frame.voiced = flags →
    ∃ padding, delivered settings started stopped frames =
      padded padding (stretches.map (audioOf frames))
  once : ∀ i, InRun flags i → ∃! p, p ∈ stretches ∧ p.1 ≤ i ∧ i < p.2

section Captures

variable {settings : Settings} {flags : List Bool} {frames : List Frame} {phrases : List Bytes}
  {stretches : List (ℕ × ℕ)} {p : ℕ × ℕ} {i k padding : ℕ} {byte : UInt8} {started stopped : ℚ}

theorem padded_concat (padding : ℕ) (phrases : List Bytes) (last : Bytes) :
    padded padding (phrases ++ [last]) = phrases ++ [last ++ List.replicate padding 0] := by
  simp [padded]

theorem padded_zero (phrases : List Bytes) : padded 0 phrases = phrases := by
  rcases List.eq_nil_or_concat' phrases with rfl | ⟨phrases, last, rfl⟩
  · rfl
  · rw [padded_concat, List.replicate_zero, List.append_nil]

theorem mem_padded (hbyte : byte ≠ 0) :
    (∃ phrase ∈ padded padding phrases, byte ∈ phrase) ↔ ∃ phrase ∈ phrases, byte ∈ phrase := by
  rcases List.eq_nil_or_concat' phrases with rfl | ⟨phrases, last, rfl⟩
  · rfl
  · have hzeros : byte ∉ List.replicate padding 0 := fun hmem =>
      hbyte (List.eq_of_mem_replicate hmem)
    simp [padded_concat, or_and_right, exists_or, hzeros]

theorem delivered_eq (settings : Settings) (started stopped : ℚ) (frames : List Frame) :
    ∃ padding, delivered settings started stopped frames = padded padding
      ((shapeOf settings (frames.map Frame.voiced)).stretches.map (audioOf frames)) := by
  have h := follows_feed settings started frames
  rw [delivered]
  generalize feed settings (AudioCapture.start started) frames = result at h
  obtain ⟨s, events⟩ := result
  simp only [List.filterMap_append]
  simp only at h
  rw [h.phrases, Shape.stretches, List.map_append]
  cases hstart : (shapeOf settings (frames.map Frame.voiced)).start with
  | none =>
    refine ⟨0, ?_⟩
    rw [padded_zero]
    simp [AudioCapture.stop, h.pendingPcm, (h.waiting hstart).1]
  | some start =>
    obtain ⟨hspeaking, hphrase, -, hlt, -⟩ := h.speaking start hstart
    have hne : s.phrase ≠ [] := by
      rw [hphrase]
      exact audioOf_ne_nil hlt h.count.le
    refine ⟨BYTES_PER_SECOND / 2 - s.phrase.length, ?_⟩
    rw [Option.map_some, Option.toList_some, List.map_singleton, padded_concat, ← hphrase]
    simp [AudioCapture.stop, h.pendingPcm, hspeaking, hne, deliverChunk, Event.phrase?]

theorem fills_iff (settings : Settings) (started : ℚ) (frames : List Frame) :
    Fills settings (feed settings (AudioCapture.start started) frames).1 ↔
      (shapeOf settings (frames.map Frame.voiced)).AboutToSplit settings := by
  have h := follows_feed settings started frames
  cases hstart : (shapeOf settings (frames.map Frame.voiced)).start with
  | none =>
    rw [Fills, (h.waiting hstart).1, Shape.AboutToSplit, hstart]
    simp
  | some start =>
    obtain ⟨hspeaking, hphrase, -, hlt, -⟩ := h.speaking start hstart
    have hnext : (shapeOf settings (frames.map Frame.voiced)).count + 1 - start =
        (shapeOf settings (frames.map Frame.voiced)).count - start + 1 := by
      omega
    rw [Fills, hspeaking, hphrase, length_audioOf h.count.le, Shape.AboutToSplit, hstart]
    simp [hnext, Nat.succ_mul]

theorem mem_audioOf : byte ∈ audioOf frames p ↔
    ∃ m, p.1 ≤ m ∧ m < p.2 ∧ ∃ frame, frames[m]? = some frame ∧ byte ∈ frame.data := by
  rw [audioOf, List.mem_flatMap]
  constructor
  · rintro ⟨frame, hframe, hbyte⟩
    obtain ⟨m, hm⟩ := List.mem_iff_getElem?.mp hframe
    rw [List.getElem?_drop, List.getElem?_take] at hm
    split at hm
    · next hlt => exact ⟨p.1 + m, Nat.le_add_right _ _, hlt, frame, hm, hbyte⟩
    · cases hm
  · rintro ⟨m, hle, hlt, frame, hm, hbyte⟩
    refine ⟨frame, List.mem_iff_getElem?.mpr ⟨m - p.1, ?_⟩, hbyte⟩
    rw [List.getElem?_drop, List.getElem?_take, Nat.add_sub_cancel' hle, if_pos hlt, hm]

/-- The audio in which one frame differs from all others. -/
def marked (flags : List Bool) (i : ℕ) : List Frame :=
  flags.mapIdx fun m voiced =>
    ⟨List.replicate FRAME_BYTES (if m = i then 1 else 0), voiced, 0, List.length_replicate⟩

theorem voiced_marked (flags : List Bool) (i : ℕ) : (marked flags i).map Frame.voiced = flags := by
  refine List.ext_getElem? fun m => ?_
  rw [marked, List.getElem?_map, List.getElem?_mapIdx, Option.map_map]
  exact Option.map_id'

theorem mem_audioOf_marked (hi : i < flags.length) :
    1 ∈ audioOf (marked flags i) p ↔ p.1 ≤ i ∧ i < p.2 := by
  rw [mem_audioOf]
  constructor
  · rintro ⟨m, hle, hlt, frame, hframe, hbyte⟩
    rw [marked, List.getElem?_mapIdx] at hframe
    obtain ⟨voiced, -, rfl⟩ := Option.map_eq_some_iff.mp hframe
    have hone := List.eq_of_mem_replicate hbyte
    split at hone
    · next heq => exact heq ▸ ⟨hle, hlt⟩
    · cases hone
  · rintro ⟨hle, hlt⟩
    refine ⟨i, hle, hlt, ⟨List.replicate FRAME_BYTES 1, flags[i], 0, List.length_replicate⟩, ?_, ?_⟩
    · rw [marked, List.getElem?_mapIdx, List.getElem?_eq_getElem hi]
      simp
    · exact List.mem_replicate.mpr ⟨by decide, rfl⟩

theorem unique_stretch (h : stretches.Pairwise fun p q => p.2 ≤ q.1) {p q : ℕ × ℕ}
    (hp : p ∈ stretches) (hq : q ∈ stretches) (hip : p.1 ≤ i ∧ i < p.2)
    (hiq : q.1 ≤ i ∧ i < q.2) : p = q := by
  have hsame : stretches.Pairwise fun p q => (p.1 ≤ i ∧ i < p.2) → (q.1 ≤ i ∧ i < q.2) → p = q :=
    h.imp fun hle hp hq => absurd (hp.2.trans_le (hle.trans hq.1)) (lt_irrefl i)
  have hflip := hsame.imp fun {p q} hpq (hq : q.1 ≤ i ∧ i < q.2) (hp : p.1 ≤ i ∧ i < p.2) =>
    (hpq hp hq).symm
  exact List.Pairwise.forall_of_forall_of_flip (fun _ _ _ _ => rfl) hsame hflip hp hq hip hiq

theorem stretches_of_flags (settings : Settings) (flags : List Bool) :
    ((shapeOf settings flags).stretches.Pairwise fun p q => p.2 ≤ q.1) ∧
      ∀ p ∈ (shapeOf settings flags).stretches, p.1 < p.2 ∧ p.2 ≤ flags.length ∧
        (p.2 - p.1) * FRAME_BYTES ≤ settings.maxPhraseBytes + FRAME_BYTES := by
  obtain ⟨h, hcount⟩ := fits_take settings flags le_rfl
  rw [List.take_length] at h hcount
  have hbase := h.base_le
  rw [Shape.stretches]
  cases hstart : (shapeOf settings flags).start with
  | none =>
    rw [Option.map_none, Option.toList_none, List.append_nil]
    refine ⟨h.ordered, fun p hp => ?_⟩
    obtain ⟨hpos, hend, hsize⟩ := h.within p hp
    exact ⟨hpos, by omega, hsize⟩
  | some start =>
    obtain ⟨hle, hlt, hsize⟩ := h.speaking start hstart
    rw [Option.map_some, Option.toList_some]
    constructor
    · refine List.pairwise_append.mpr ⟨h.ordered, List.pairwise_singleton _ _, fun p hp q hq => ?_⟩
      rw [List.mem_singleton.mp hq]
      exact (h.within p hp).2.1.trans hle
    · intro p hp
      rcases List.mem_append.mp hp with hp | hp
      · obtain ⟨hpos, hend, hsize⟩ := h.within p hp
        exact ⟨hpos, by omega, hsize⟩
      · rw [List.mem_singleton.mp hp]
        exact ⟨hlt, hcount.le, hsize.le.trans (Nat.le_add_right _ _)⟩

/-- Whatever stretches the phrases are taken for, they hold the same frames. -/
theorem Segmented.covered (h : Segmented settings flags stretches) (hp : p ∈ stretches)
    (hi : i < flags.length) (hin : p.1 ≤ i ∧ i < p.2) :
    Covered (shapeOf settings flags).stretches i := by
  obtain ⟨padding, hphrases⟩ := h.phrases 0 0 (marked flags i) (voiced_marked flags i)
  obtain ⟨padding', hdelivered⟩ := delivered_eq settings 0 0 (marked flags i)
  rw [hphrases, voiced_marked] at hdelivered
  have hone : ∃ phrase ∈ padded padding (stretches.map (audioOf (marked flags i))),
      (1 : UInt8) ∈ phrase := by
    refine (mem_padded (by decide)).mpr ⟨_, List.mem_map_of_mem hp, ?_⟩
    exact (mem_audioOf_marked hi).mpr hin
  rw [hdelivered, mem_padded (by decide)] at hone
  obtain ⟨phrase, hphrase, hbyte⟩ := hone
  obtain ⟨q, hq, rfl⟩ := List.mem_map.mp hphrase
  exact ⟨q, hq, (mem_audioOf_marked hi).mp hbyte⟩

theorem lt_length_of_inRun (h : InRun flags i) : i < flags.length := by
  obtain ⟨j, hj, hlt, hfour⟩ := h
  exact (List.getElem?_eq_some_iff.mp (hfour i hj hlt)).1

/-- The phrases keep every run of voiced frames if and only if no phrase that a frame fills is cut
inside a run whose rest begins no other phrase. -/
theorem segmented_iff (settings : Settings) (flags : List Bool) :
    (∃ stretches, Segmented settings flags stretches) ↔
      ∀ k, (shapeOf settings (flags.take k)).AboutToSplit settings → ¬ CutsRun flags k := by
  constructor
  · rintro ⟨stretches, h⟩ k hsplit hcuts
    obtain ⟨⟨j, hj, hlt, hfour⟩, -⟩ := id hcuts
    have hrun : InRun flags (k + 1) := ⟨j, hj.trans (Nat.le_succ k), hlt, hfour⟩
    obtain ⟨p, ⟨hp, hin⟩, -⟩ := h.once (k + 1) hrun
    exact not_covered_of_cut settings hsplit hcuts (h.covered hp (lt_length_of_inRun hrun) hin)
  · intro hcuts
    obtain ⟨hordered, hwithin⟩ := stretches_of_flags settings flags
    refine ⟨(shapeOf settings flags).stretches, hordered,
      fun p hp => ⟨(hwithin p hp).1, (hwithin p hp).2.1⟩, fun p hp => (hwithin p hp).2.2,
      fun started stopped frames hflags => hflags ▸ delivered_eq settings started stopped frames,
      fun i hrun => ?_⟩
    obtain ⟨p, hp, hin⟩ := run_covered settings hcuts (lt_length_of_inRun hrun) hrun
    exact ⟨p, ⟨hp, hin⟩, fun q hq => unique_stretch hordered hq.1 hp hq.2 hin⟩

/-- No frame of a run of voiced frames is lost or repeated if and only if no phrase that is about
to be full is cut inside a run whose rest begins no other phrase. -/
theorem runs_are_kept_iff (settings : Settings) (started : ℚ) (frames : List Frame) :
    (∃ stretches, Segmented settings (frames.map Frame.voiced) stretches) ↔
      ∀ k, Fills settings (feed settings (AudioCapture.start started) (frames.take k)).1 →
        ¬ CutsRun (frames.map Frame.voiced) k := by
  rw [segmented_iff]
  refine forall_congr' fun k => ?_
  rw [fills_iff, List.map_take]

end Captures

/-! ## Speech that goes on for a little longer than a phrase -/

theorem shapeOf_speech {settings : Settings} {n : ℕ} (hlong : 4 ≤ n)
    (hshort : n * FRAME_BYTES < settings.maxPhraseBytes) :
    shapeOf settings (List.replicate n true) = ⟨n, 0, n, some 0, n, []⟩ := by
  induction n, hlong using Nat.le_induction with
  | base => rfl
  | succ n hlong ih =>
    have hopen : ¬ settings.Completes 0 (n + 1) (n + 1) := fun hcompletes => by
      have hfull : settings.maxPhraseBytes ≤ (n + 1 - 0) * FRAME_BYTES :=
        hcompletes.resolve_left (by
          rw [Nat.sub_self, Nat.cast_zero, zero_mul]
          exact not_le.mpr settings.silence_pos)
      exact absurd hfull (not_le.mpr hshort)
    have hless : n * FRAME_BYTES < settings.maxPhraseBytes :=
      lt_of_le_of_lt (Nat.mul_le_mul_right _ (Nat.le_succ n)) hshort
    rw [List.replicate_succ', shapeOf_concat, ih hless]
    simp [Shape.step, hopen]

/-- Three frames more than a phrase can hold are lost. -/
theorem speech_is_cut :
    ¬ ∃ stretches, Segmented Settings.standard (List.replicate 378 true) stretches := by
  rw [segmented_iff]
  intro hkept
  have hvoiced : ∀ m < 378, (List.replicate 378 true)[m]? = some true := by
    intro m hm
    rw [List.getElem?_replicate, if_pos hm]
  have hshape : shapeOf Settings.standard ((List.replicate 378 true).take 374) =
      ⟨374, 0, 374, some 0, 374, []⟩ := by
    rw [List.take_replicate]
    exact shapeOf_speech (by decide) (by decide)
  refine hkept 374 ?_ ⟨⟨373, by decide, by decide, fun m hm hlt => hvoiced m (by omega)⟩, ?_⟩
  · rw [hshape]
    exact ⟨0, rfl, by decide⟩
  · intro q hq hend hfour
    have hlast := (List.getElem?_eq_some_iff.mp (hfour (q + 3) (by omega) (by omega))).1
    rw [List.length_replicate] at hlast
    omega

end Dictation.Capture
