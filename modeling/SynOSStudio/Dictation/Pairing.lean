import SynOSStudio.Dictation.ResidentEngine

/-!
# Texts and their audio

A text that a call returns was found by the worker in the audio of that call, and a cancellation
ends the call that it was meant for and no other.
-/

namespace Dictation.Resident

section Steps

/-- What a step of the worker can do. -/
inductive WorkerStep (p : Process) : WorkerAct → Process → Prop where
  | greet (line : Bytes) (hphase : p.phase = .starting) (hline : newline ∉ line) :
      WorkerStep p (.greet line) { p with phase := .writing (line ++ [newline]) }
  | reset (hphase : p.phase = .top) :
      WorkerStep p .reset { p with phase := .reading, cancelled := false }
  | fill (n : ℕ) (hphase : p.phase = .reading) (hpositive : 0 < n) (hn : n ≤ p.input.length) :
      WorkerStep p (.fill n)
        { p with buffer := p.buffer ++ p.input.take n, input := p.input.drop n }
  | refuse (hphase : p.phase = .reading) (hframe : readFrame p.buffer = .refused) :
      WorkerStep p .accept { p with phase := .exited }
  | accept (pcm rest : Bytes) (hphase : p.phase = .reading)
      (hframe : readFrame p.buffer = .frame pcm rest) :
      WorkerStep p .accept { p with phase := .recognising pcm, buffer := rest }
  | infer (pcm : Bytes) (text : Option Bytes) (hphase : p.phase = .recognising pcm) :
      WorkerStep p (.infer text) { p with phase := .answering (statusOf p.cancelled text) text }
  | answer (status : Status) (text : Option Bytes) (metrics : {bytes : Bytes // newline ∉ bytes})
      (hphase : p.phase = .answering status text) :
      WorkerStep p (.answer metrics)
        { p with phase := .writing ((p.reply status text metrics).line ++ [newline]) }
  | write (rest : Bytes) (n : ℕ) (hphase : p.phase = .writing rest) (hpositive : 0 < n)
      (hn : n ≤ rest.length) :
      WorkerStep p (.write n) { p with
        output := p.output ++ rest.take n
        phase := if rest.drop n = [] then .top else .writing (rest.drop n) }
  | onCancel (hsignalled : p.signalled = true) (hphase : p.phase ≠ .exited) :
      WorkerStep p .onCancel { p with cancelled := true, signalled := false }
  | exit : WorkerStep p .exit { p with phase := .exited }

variable {p q : Process} {act : WorkerAct}

theorem Process.workerStep (h : p.step act = some q) : WorkerStep p act q := by
  unfold Process.step at h
  split at h
  · rename_i hphase
    split at h
    · cases h
    · rename_i hline
      cases h
      exact .greet _ hphase hline
  · rename_i hphase
    cases h
    exact .reset hphase
  · rename_i hphase
    split at h
    · rename_i hn
      cases h
      exact .fill _ hphase hn.1 hn.2
    · cases h
  · rename_i hphase
    split at h
    · cases h
    · rename_i hframe
      cases h
      exact .refuse hphase hframe
    · rename_i hframe
      cases h
      exact .accept _ _ hphase hframe
  · rename_i hphase
    cases h
    exact .infer _ _ hphase
  · rename_i hphase
    cases h
    exact .answer _ _ _ hphase
  · rename_i hphase
    split at h
    · rename_i hn
      cases h
      exact .write _ _ hphase hn.1 hn.2
    · cases h
  · split at h
    · rename_i hsignalled
      cases h
      exact .onCancel hsignalled.1 hsignalled.2
    · cases h
  · cases h
    exact .exit
  · cases h

end Steps

section Lines

/-- The phases in which the worker has no audio of a request. -/
def Phase.settled : Phase → Bool
  | .top => true
  | .reading => true
  | .writing rest => rest ≠ []
  | .exited => true
  | _ => false

def Phase.owed : Phase → Bytes
  | .writing rest => rest
  | _ => []

/-- A line of the worker is on its way or has come; what an exited worker owed is lost. -/
structure Delivers (p : Process) (response line : Bytes) : Prop where
  settled : p.phase.settled = true
  buffer : p.buffer = []
  input : p.input = []
  plain : newline ∉ line
  rest : ∃ owed, response ++ (p.output ++ owed) = line ++ [newline] ∧
    (p.phase ≠ .exited → owed = p.phase.owed)

variable {p q : Process} {act : WorkerAct} {response line : Bytes}

theorem Delivers.step (h : Delivers p response line) (hstep : WorkerStep p act q) :
    Delivers q response line := by
  obtain ⟨hsettled, hbuffer, hinput, hplain, owed, hrest, howed⟩ := h
  cases hstep with
  | greet line hphase hline => simp [hphase, Phase.settled] at hsettled
  | infer pcm text hphase => simp [hphase, Phase.settled] at hsettled
  | answer status text metrics hphase => simp [hphase, Phase.settled] at hsettled
  | refuse hphase hframe => simp [hbuffer, readFrame] at hframe
  | accept pcm rest hphase hframe => simp [hbuffer, readFrame] at hframe
  | fill n hphase hpositive hn =>
    simp only [hinput, List.length_nil] at hn
    omega
  | reset hphase =>
    refine ⟨rfl, hbuffer, hinput, hplain, owed, hrest, fun _ => ?_⟩
    rw [howed (by simp [hphase]), hphase]
    rfl
  | write rest n hphase hpositive hn =>
    have howedRest : owed = rest := by
      rw [howed (by simp [hphase]), hphase]
      rfl
    subst howedRest
    refine ⟨?_, hbuffer, hinput, hplain, owed.drop n, ?_, fun _ => ?_⟩
    · simp only
      split
      · rfl
      · rename_i hmore
        simpa [Phase.settled] using hmore
    · rw [← hrest, List.append_assoc p.output, List.take_append_drop]
    · simp only
      split
      · assumption
      · rfl
  | onCancel hsignalled hphase => exact ⟨hsettled, hbuffer, hinput, hplain, owed, hrest, howed⟩
  | exit => exact ⟨rfl, hbuffer, hinput, hplain, owed, hrest, fun hexited => absurd rfl hexited⟩

/-- What the caller reads is no longer in the pipe. -/
theorem Delivers.read (h : Delivers p response line) (n : ℕ) :
    Delivers { p with output := p.output.drop n } (response ++ p.output.take n) line := by
  obtain ⟨hsettled, hbuffer, hinput, hplain, owed, hrest, howed⟩ := h
  refine ⟨hsettled, hbuffer, hinput, hplain, owed, ?_, howed⟩
  rw [← hrest, List.append_assoc, ← List.append_assoc (p.output.take n), List.take_append_drop]

/-- When the newline has come, nothing more will. -/
theorem Delivers.complete (h : Delivers p response line) (hnewline : newline ∈ response) :
    response = line ++ [newline] ∧ p.output = [] ∧
      (p.phase = .top ∨ p.phase = .reading ∨ p.phase = .exited) := by
  obtain ⟨hsettled, _, _, hplain, owed, hrest, howed⟩ := h
  obtain ⟨hresponse, hnone⟩ := ByteStreams.eq_of_received hrest hplain hnewline
  obtain ⟨houtput, hlost⟩ := List.append_eq_nil_iff.mp hnone
  refine ⟨hresponse, houtput, ?_⟩
  cases hphase : p.phase with
  | top => simp
  | reading => simp
  | exited => simp
  | writing rest =>
    have hnil := howed (by simp [hphase])
    rw [hphase, Phase.owed, hlost] at hnil
    simp [hphase, Phase.settled, ← hnil] at hsettled
  | _ => simp [hphase, Phase.settled] at hsettled

end Lines

section Stages

/-- Both streams are between two frames, and no cancellation is left over. -/
structure Process.AtBoundary (p : Process) : Prop where
  phase : p.phase = .top ∨ p.phase = .reading ∨ p.phase = .exited
  buffer : p.buffer = []
  input : p.input = []
  output : p.output = []
  signalled : p.signalled = false
  reset : p.phase = .reading → p.cancelled = false

/-- The flag that the inference looks at. -/
def Process.aborts (p : Process) : Prop :=
  p.cancelled = true ∧ p.phase ≠ .top ∧ p.phase ≠ .exited

/-- The signal and the flag are those of the call. -/
structure Signals (call : Call) (p : Process) : Prop where
  aborting : call.aborting = true → call.remaining = [] ∧ call.cancelled = true
  signalled : p.signalled = true → call.aborting = true
  flagged : p.aborts → call.aborting = true ∧ p.signalled = false

/-- The exchange for the greeting. -/
structure Greets (call : Call) (p : Process) (response : Bytes) : Prop where
  remaining : call.remaining = []
  aborting : call.aborting = false
  cancelled : p.cancelled = false
  signalled : p.signalled = false
  line : (p = spawned ∧ response = []) ∨ ∃ line, Delivers p response line

/-- The exchange for the audio of the call. -/
inductive Stage (call : Call) (p : Process) (response : Bytes) (answers : List Answer) : Prop where
  | waiting (hphase : p.phase = .top ∨ p.phase = .reading ∨ p.phase = .exited)
      (hrequest : p.buffer ++ (p.input ++ call.remaining) = frame call.pcm)
      (houtput : p.output = []) (hresponse : response = [])
      (hanswers : ∀ answer ∈ answers, answer.call < call.number)
  | recognising (hphase : p.phase = .recognising call.pcm) (hbuffer : p.buffer = [])
      (hinput : p.input = []) (hremaining : call.remaining = []) (houtput : p.output = [])
      (hresponse : response = []) (hanswers : ∀ answer ∈ answers, answer.call < call.number)
  | answering (status : Status) (text : Option Bytes) (hphase : p.phase = .answering status text)
      (hbuffer : p.buffer = []) (hinput : p.input = []) (hremaining : call.remaining = [])
      (houtput : p.output = []) (hresponse : response = [])
      (hcancelled : status = .cancelled → p.cancelled = true)
      (hsuccess : status = .success → ∃ found, text = some found ∧
        ⟨call.number, call.pcm, found⟩ ∈ answers)
  | replied (reply : Reply) (hline : Delivers p response reply.line)
      (hremaining : call.remaining = [])
      (hcancelled : reply.status = .cancelled →
        call.aborting = true ∧ p.signalled = false ∧ (p.phase = .reading → p.cancelled = false))
      (hsuccess : reply.status = .success →
        call.aborting = true ∨ ⟨call.number, call.pcm, reply.text⟩ ∈ answers)

/-- What holds of the call that is made and its process. -/
def Call.Sound (call : Call) (p : Process) (s : State) : Prop :=
  call.number < s.calls ∧ SpeechAudio call.pcm ∧
    if call.starting then
      Greets call p s.response ∧ ∀ answer ∈ s.answers, answer.call < call.number
    else Signals call p ∧ Stage call p s.response s.answers

variable {call : Call} {p q : Process} {act : WorkerAct} {response : Bytes}
  {answers : List Answer}

theorem Signals.step (h : Signals call p) (hstep : WorkerStep p act q) : Signals call q := by
  obtain ⟨haborting, hsignalled, hflagged⟩ := h
  have hkept (hphase : p.phase ≠ .top) (hlive : p.phase ≠ .exited) (hon : p.cancelled = true) :
      call.aborting = true ∧ p.signalled = false := hflagged ⟨hon, hphase, hlive⟩
  cases hstep with
  | greet line hphase hline =>
    exact ⟨haborting, hsignalled, fun hq => hkept (by simp [hphase]) (by simp [hphase]) hq.1⟩
  | reset hphase => exact ⟨haborting, hsignalled, fun hq => by cases hq.1⟩
  | fill n hphase hpositive hn => exact ⟨haborting, hsignalled, hflagged⟩
  | refuse hphase hframe => exact ⟨haborting, hsignalled, fun hq => absurd rfl hq.2.2⟩
  | accept pcm rest hphase hframe =>
    exact ⟨haborting, hsignalled, fun hq => hkept (by simp [hphase]) (by simp [hphase]) hq.1⟩
  | infer pcm text hphase =>
    exact ⟨haborting, hsignalled, fun hq => hkept (by simp [hphase]) (by simp [hphase]) hq.1⟩
  | answer status text metrics hphase =>
    exact ⟨haborting, hsignalled, fun hq => hkept (by simp [hphase]) (by simp [hphase]) hq.1⟩
  | write rest n hphase hpositive hn =>
    exact ⟨haborting, hsignalled, fun hq => hkept (by simp [hphase]) (by simp [hphase]) hq.1⟩
  | onCancel hsent hphase =>
    exact ⟨haborting, fun hq => (by cases hq), fun _ => ⟨hsignalled hsent, rfl⟩⟩
  | exit => exact ⟨haborting, hsignalled, fun hq => absurd rfl hq.2.2⟩

/-- A worker that exits in the middle of a request owes a line that never comes. -/
theorem replied_of_exit (hbuffer : p.buffer = []) (hinput : p.input = [])
    (hremaining : call.remaining = []) (houtput : p.output = []) (hresponse : response = []) :
    Stage call { p with phase := .exited } response answers := by
  let reply : Reply := ⟨.error, [], ⟨[], by simp⟩⟩
  apply Stage.replied reply
  · refine ⟨rfl, hbuffer, hinput, newline_not_mem_line reply, reply.line ++ [newline], ?_,
      fun hlive => absurd rfl hlive⟩
    rw [hresponse, houtput]
    rfl
  · exact hremaining
  · intro hstatus
    cases hstatus
  · intro hstatus
    cases hstatus

theorem found_of_call_none (p : Process) (act : WorkerAct) : found none p act = [] := by
  unfold found
  split
  · rename_i hcall
    cases hcall
  · rfl

theorem found_eq_nil {call : Option Call} (h : ∀ text, act ≠ .infer text) :
    found call p act = [] := by
  cases act with
  | infer text => exact absurd rfl (h text)
  | _ => rfl

theorem found_cases (call : Option Call) (p : Process) (act : WorkerAct) :
    found call p act = [] ∨ ∃ call' pcm text, call = some call' ∧ p.phase = .recognising pcm ∧
      found call p act = [⟨call'.number, pcm, text⟩] := by
  unfold found
  split
  · rename_i text pcm call' hphase
    exact Or.inr ⟨call', pcm, text, rfl, hphase, rfl⟩
  · exact Or.inl rfl

/-- A worker that waits for the audio reads it whole or not at all. -/
theorem Stage.step_waiting (hpcm : SpeechAudio call.pcm) (hstep : WorkerStep p act q)
    (hphase : p.phase = .top ∨ p.phase = .reading ∨ p.phase = .exited)
    (hrequest : p.buffer ++ (p.input ++ call.remaining) = frame call.pcm)
    (houtput : p.output = []) (hresponse : response = [])
    (hanswers : ∀ answer ∈ answers, answer.call < call.number) :
    Stage call q response answers := by
  cases hstep with
  | greet line hstarting hline => simp [hstarting] at hphase
  | infer pcm text hrecognising => simp [hrecognising] at hphase
  | answer status text metrics hanswering => simp [hanswering] at hphase
  | write rest n hwriting hpositive hn => simp [hwriting] at hphase
  | reset htop => exact .waiting (Or.inr (Or.inl rfl)) hrequest houtput hresponse hanswers
  | fill n hreading hpositive hn =>
    refine .waiting hphase ?_ houtput hresponse hanswers
    rw [← hrequest, List.append_assoc, ← List.append_assoc (p.input.take n),
      List.take_append_drop]
  | refuse hreading hframe =>
    rcases readFrame_part hpcm hrequest with hpart | ⟨_, _, hpart⟩
    · simp [hframe] at hpart
    · simp [hframe] at hpart
  | accept pcm rest hreading hframe =>
    rcases readFrame_part hpcm hrequest with hpart | ⟨hrest, _, hpart⟩
    · simp [hframe] at hpart
    · rw [hframe] at hpart
      cases hpart
      obtain ⟨hinput, hremaining⟩ := List.append_eq_nil_iff.mp hrest
      exact .recognising rfl rfl hinput hremaining houtput hresponse hanswers
  | onCancel hsignalled hlive => exact .waiting hphase hrequest houtput hresponse hanswers
  | exit => exact .waiting (Or.inr (Or.inr rfl)) hrequest houtput hresponse hanswers

/-- What a worker infers from the audio of the call is the answer of the call. -/
theorem Stage.step_recognising (hstep : WorkerStep p act q)
    (hphase : p.phase = .recognising call.pcm) (hbuffer : p.buffer = []) (hinput : p.input = [])
    (hremaining : call.remaining = []) (houtput : p.output = []) (hresponse : response = [])
    (hanswers : ∀ answer ∈ answers, answer.call < call.number) :
    Stage call q response (answers ++ found (some call) p act) := by
  cases hstep with
  | greet line hstarting hline => simp [hstarting] at hphase
  | reset htop => simp [htop] at hphase
  | fill n hreading hpositive hn => simp [hreading] at hphase
  | refuse hreading hframe => simp [hreading] at hphase
  | accept pcm rest hreading hframe => simp [hreading] at hphase
  | answer status text metrics hanswering => simp [hanswering] at hphase
  | write rest n hwriting hpositive hn => simp [hwriting] at hphase
  | infer pcm text hrecognising =>
    refine .answering _ text rfl hbuffer hinput hremaining houtput hresponse ?_ ?_
    · intro hstatus
      unfold statusOf at hstatus
      split at hstatus
      · assumption
      · split at hstatus <;> cases hstatus
    · intro hstatus
      cases text with
      | none =>
        unfold statusOf at hstatus
        split at hstatus
        · cases hstatus
        · simp at hstatus
      | some text =>
        refine ⟨text, rfl, ?_⟩
        simp [found, hphase]
  | onCancel hsignalled hlive =>
    rw [found_eq_nil (by simp), List.append_nil]
    exact .recognising hphase hbuffer hinput hremaining houtput hresponse hanswers
  | exit =>
    rw [found_eq_nil (by simp), List.append_nil]
    exact replied_of_exit hbuffer hinput hremaining houtput hresponse

/-- The line of a reply tells of a success only with the text that was found, or in a call that
was cancelled in between. -/
theorem Stage.step_answering {status : Status} {text : Option Bytes} (hsignals : Signals call p)
    (hstep : WorkerStep p act q) (hphase : p.phase = .answering status text)
    (hbuffer : p.buffer = []) (hinput : p.input = []) (hremaining : call.remaining = [])
    (houtput : p.output = []) (hresponse : response = [])
    (hcancelled : status = .cancelled → p.cancelled = true)
    (hsuccess : status = .success → ∃ found, text = some found ∧
      ⟨call.number, call.pcm, found⟩ ∈ answers) : Stage call q response answers := by
  have hflagged (hon : p.cancelled = true) : call.aborting = true ∧ p.signalled = false :=
    hsignals.flagged ⟨hon, by simp [hphase], by simp [hphase]⟩
  cases hstep with
  | greet line hstarting hline => simp [hstarting] at hphase
  | reset htop => simp [htop] at hphase
  | fill n hreading hpositive hn => simp [hreading] at hphase
  | refuse hreading hframe => simp [hreading] at hphase
  | accept pcm rest hreading hframe => simp [hreading] at hphase
  | infer pcm text hrecognising => simp [hrecognising] at hphase
  | write rest n hwriting hpositive hn => simp [hwriting] at hphase
  | answer status' text' metrics hanswering =>
    rw [hphase] at hanswering
    cases hanswering
    apply Stage.replied (p.reply status text metrics)
    · refine ⟨by simp [Phase.settled], hbuffer, hinput, newline_not_mem_line _, _, ?_,
        fun _ => rfl⟩
      simp [hresponse, houtput, Phase.owed]
    · exact hremaining
    · intro hstatus
      obtain ⟨haborting, hsignalled⟩ := hflagged (hcancelled hstatus)
      exact ⟨haborting, hsignalled, fun hreading => by cases hreading⟩
    · intro hstatus
      obtain ⟨found, rfl, hfound⟩ := hsuccess hstatus
      cases hflag : p.cancelled with
      | true => exact Or.inl (hflagged hflag).1
      | false =>
        right
        simpa [Process.reply, hflag] using hfound
  | onCancel hsignalled hlive =>
    exact .answering status text hphase hbuffer hinput hremaining houtput hresponse (fun _ => rfl)
      hsuccess
  | exit => exact replied_of_exit hbuffer hinput hremaining houtput hresponse

theorem Stage.step_replied {reply : Reply} (hstep : WorkerStep p act q)
    (hline : Delivers p response reply.line) (hremaining : call.remaining = [])
    (hcancelled : reply.status = .cancelled →
      call.aborting = true ∧ p.signalled = false ∧ (p.phase = .reading → p.cancelled = false))
    (hsuccess : reply.status = .success →
      call.aborting = true ∨ ⟨call.number, call.pcm, reply.text⟩ ∈ answers) :
    Stage call q response answers := by
  refine .replied reply (hline.step hstep) hremaining ?_ hsuccess
  intro hstatus
  obtain ⟨haborting, hsignalled, hreset⟩ := hcancelled hstatus
  cases hstep with
  | reset htop => exact ⟨haborting, hsignalled, fun _ => rfl⟩
  | onCancel hsent hlive => simp [hsignalled] at hsent
  | write rest n hwriting hpositive hn =>
    refine ⟨haborting, hsignalled, fun hreading => ?_⟩
    simp only at hreading
    split at hreading <;> cases hreading
  | fill n hreading hpositive hn => exact ⟨haborting, hsignalled, hreset⟩
  | greet line hstarting hplain => exact ⟨haborting, hsignalled, fun h => by cases h⟩
  | refuse hreading hframe => exact ⟨haborting, hsignalled, fun h => by cases h⟩
  | accept pcm rest hreading hframe => exact ⟨haborting, hsignalled, fun h => by cases h⟩
  | infer pcm text hrecognising => exact ⟨haborting, hsignalled, fun h => by cases h⟩
  | answer status text metrics hanswering => exact ⟨haborting, hsignalled, fun h => by cases h⟩
  | exit => exact ⟨haborting, hsignalled, fun h => by cases h⟩

theorem Stage.step (h : Stage call p response answers) (hpcm : SpeechAudio call.pcm)
    (hsignals : Signals call p) (hstep : WorkerStep p act q) :
    Stage call q response (answers ++ found (some call) p act) := by
  have hnone (hphase : ∀ pcm, p.phase ≠ .recognising pcm) : found (some call) p act = [] := by
    rcases found_cases (some call) p act with hfound | ⟨_, pcm, _, _, hrecognising, _⟩
    · exact hfound
    · exact absurd hrecognising (hphase pcm)
  cases h with
  | waiting hphase hrequest houtput hresponse hanswers =>
    rw [hnone (by rcases hphase with h | h | h <;> simp [h]), List.append_nil]
    exact .step_waiting hpcm hstep hphase hrequest houtput hresponse hanswers
  | recognising hphase hbuffer hinput hremaining houtput hresponse hanswers =>
    exact .step_recognising hstep hphase hbuffer hinput hremaining houtput hresponse hanswers
  | answering status text hphase hbuffer hinput hremaining houtput hresponse hcancelled hsuccess =>
    rw [hnone (by simp [hphase]), List.append_nil]
    exact .step_answering hsignals hstep hphase hbuffer hinput hremaining houtput hresponse
      hcancelled hsuccess
  | replied reply hline hremaining hcancelled hsuccess =>
    have hsettled := hline.settled
    rw [hnone (by intro pcm hphase; simp [hphase, Phase.settled] at hsettled), List.append_nil]
    exact .step_replied hstep hline hremaining hcancelled hsuccess

theorem Greets.step (h : Greets call p response) (hstep : WorkerStep p act q) :
    Greets call q response := by
  obtain ⟨hremaining, haborting, hcancelled, hsignalled, hline⟩ := h
  rcases hline with ⟨rfl, hresponse⟩ | ⟨line, hline⟩
  · cases hstep with
    | greet line hphase hplain =>
      refine ⟨hremaining, haborting, hcancelled, hsignalled, Or.inr ⟨line, ?_⟩⟩
      refine ⟨by simp [Phase.settled], rfl, rfl, hplain, line ++ [newline], ?_, fun _ => rfl⟩
      simp [hresponse, spawned]
    | exit =>
      refine ⟨hremaining, haborting, hcancelled, hsignalled, Or.inr ⟨[], ?_⟩⟩
      refine ⟨rfl, rfl, rfl, by simp, [newline], ?_, fun hlive => absurd rfl hlive⟩
      simp [hresponse, spawned]
    | onCancel hsent hlive => simp [spawned] at hsent
    | reset hphase => simp [spawned] at hphase
    | fill n hphase hpositive hn => simp [spawned] at hphase
    | refuse hphase hframe => simp [spawned] at hphase
    | accept pcm rest hphase hframe => simp [spawned] at hphase
    | infer pcm text hphase => simp [spawned] at hphase
    | answer status text metrics hphase => simp [spawned] at hphase
    | write rest n hphase hpositive hn => simp [spawned] at hphase
  · have hnext := hline.step hstep
    refine ⟨hremaining, haborting, ?_, ?_, Or.inr ⟨line, hnext⟩⟩
    · cases hstep <;> first | exact hcancelled | rfl | simp_all
    · cases hstep <;> first | exact hsignalled | rfl

end Stages

end Dictation.Resident
