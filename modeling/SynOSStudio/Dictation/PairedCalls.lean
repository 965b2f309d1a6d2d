import SynOSStudio.Dictation.Pairing

/-!
# The calls of the resident engine

What holds between two calls, in a call, and of every call that has ended.
-/

namespace Dictation.Resident

section Invariant

/-- A text came from the worker that was given the audio of the call, or the audio was too short
for a worker to be asked. -/
def Finished.Answered (clean : Bytes → Bytes) (answers : List Answer) (f : Finished) : Prop :=
  ∀ text, f.outcome = .text text →
    (f.pcm.length < minFrame ∧ text = []) ∨
      ∃ found, ⟨f.number, f.pcm, found⟩ ∈ answers ∧ text = clean found

/-- What holds between two calls and in a call. -/
def State.Current (s : State) : Prop :=
  match s.call with
  | none => s.response = [] ∧ ∀ p, s.process = some p → p.AtBoundary
  | some call => ∃ p, s.process = some p ∧ call.Sound p s

structure State.Sound (clean : Bytes → Bytes) (s : State) : Prop where
  once : s.answers.Pairwise fun a b => a.call < b.call
  known : ∀ answer ∈ s.answers, answer.call < s.calls
  answered : ∀ f ∈ s.finished, f.Answered clean s.answers
  cancelled : ∀ f ∈ s.finished, f.outcome = .cancelled → f.cancelled = true
  current : s.Current

variable {clean : Bytes → Bytes} {loads : Bytes → Option Result} {s t : State} {call : Call}
  {p : Process}

theorem initial_sound : initial.Sound clean where
  once := List.Pairwise.nil
  known answer h := by cases h
  answered f h := by cases h
  cancelled f h := by cases h
  current := ⟨rfl, fun p h => by cases h⟩

theorem Finished.Answered.mono {f : Finished} {answers more : List Answer}
    (h : f.Answered clean answers) : f.Answered clean (answers ++ more) := by
  intro text htext
  rcases h text htext with hshort | ⟨found, hfound, rfl⟩
  · exact Or.inl hshort
  · exact Or.inr ⟨found, List.mem_append_left _ hfound, rfl⟩

/-- A call ends with an outcome that is its own, and leaves a process only at a boundary. -/
theorem sound_finish {outcome : Outcome} (h : s.Sound clean) (hcalls : t.calls = s.calls)
    (hanswers : t.answers = s.answers) (hfinished : t.finished = s.finished)
    (hresponse : t.response = []) (hprocess : ∀ p, t.process = some p → p.AtBoundary)
    (htext : ∀ text, outcome = .text text → (call.pcm.length < minFrame ∧ text = []) ∨
      ∃ found, ⟨call.number, call.pcm, found⟩ ∈ s.answers ∧ text = clean found)
    (hcancelled : outcome = .cancelled → call.cancelled = true) :
    (t.finish call outcome).Sound clean where
  once := by
    simp only [State.finish, hanswers]
    exact h.once
  known := by
    simp only [State.finish, hanswers, hcalls]
    exact h.known
  answered f hf := by
    simp only [State.finish, hfinished, List.mem_append, List.mem_singleton] at hf
    simp only [State.finish, hanswers]
    rcases hf with hf | rfl
    · exact h.answered f hf
    · exact htext
  cancelled f hf := by
    simp only [State.finish, hfinished, List.mem_append, List.mem_singleton] at hf
    rcases hf with hf | rfl
    · exact h.cancelled f hf
    · exact hcancelled
  current := ⟨hresponse, hprocess⟩

/-- A call that closes the process. -/
theorem sound_close {outcome : Outcome} (h : s.Sound clean) (hcalls : t.calls = s.calls)
    (hanswers : t.answers = s.answers) (hfinished : t.finished = s.finished)
    (htext : ∀ text, outcome ≠ .text text)
    (hcancelled : outcome = .cancelled → call.cancelled = true) :
    (t.close.finish call outcome).Sound clean := by
  apply sound_finish h (t := t.close) hcalls hanswers hfinished rfl
  · intro p hp
    cases hp
  · intro text ht
    exact absurd ht (htext text)
  · exact hcancelled

/-- A call goes on. -/
theorem sound_goOn (h : s.Sound clean) (hcalls : t.calls = s.calls)
    (hanswers : t.answers = s.answers) (hfinished : t.finished = s.finished)
    (hcall : t.call = some call) (hprocess : t.process = some p) (hsound : call.Sound p t) :
    t.Sound clean where
  once := by
    rw [hanswers]
    exact h.once
  known := by
    rw [hanswers, hcalls]
    exact h.known
  answered f hf := by
    rw [hfinished] at hf
    rw [hanswers]
    exact h.answered f hf
  cancelled f hf := by
    rw [hfinished] at hf
    exact h.cancelled f hf
  current := by
    rw [State.Current, hcall]
    exact ⟨p, hprocess, hsound⟩

theorem State.Sound.call_sound (h : s.Sound clean) (hcall : s.call = some call) :
    ∃ p, s.process = some p ∧ call.Sound p s := by
  have hcurrent := h.current
  rwa [State.Current, hcall] at hcurrent

theorem State.Sound.boundary (h : s.Sound clean) (hcall : s.call = none) :
    s.response = [] ∧ ∀ p, s.process = some p → p.AtBoundary := by
  have hcurrent := h.current
  rwa [State.Current, hcall] at hcurrent

end Invariant

section Calls

variable {clean : Bytes → Bytes} {loads : Bytes → Option Result} {s t : State} {call : Call}
  {p : Process}

/-- The audio is of no use to `Signals` and `Stage` beyond what the worker has of it. -/
theorem waiting_of_boundary {answers : List Answer} (hp : p.AtBoundary)
    (hremaining : call.remaining = frame call.pcm) (haborting : call.aborting = false)
    (hanswers : ∀ answer ∈ answers, answer.call < call.number) :
    Signals call p ∧ Stage call p [] answers := by
  refine ⟨⟨?_, ?_, ?_⟩, .waiting hp.phase ?_ hp.output rfl hanswers⟩
  · intro h
    simp [haborting] at h
  · intro h
    simp [hp.signalled] at h
  · rintro ⟨hon, htop, hexited⟩
    rcases hp.phase with hphase | hphase | hphase
    · exact absurd hphase htop
    · simp [hp.reset hphase] at hon
    · exact absurd hphase hexited
  · rw [hp.buffer, hp.input, hremaining]
    rfl

theorem sound_begin (h : s.Sound clean) (hcall : s.call = none) (pcm : Bytes)
    (cancelled installed started : Bool) :
    (s.begin pcm cancelled installed started).Sound clean := by
  obtain ⟨hresponse, hprocess⟩ := h.boundary hcall
  have hcounted : ({ s with calls := s.calls + 1 } : State).Sound clean := by
    refine ⟨h.once, fun answer hanswer => Nat.lt_succ_of_lt (h.known answer hanswer), h.answered,
      h.cancelled, ?_⟩
    have hcurrent := h.current
    simp only [State.Current, hcall] at hcurrent ⊢
    exact hcurrent
  unfold State.begin
  simp only
  split
  · rename_i hshort
    apply sound_finish hcounted <;> try rfl
    · exact hresponse
    · exact hprocess
    · rintro text ⟨⟩
      exact Or.inl ⟨hshort, rfl⟩
    · simp
  · rename_i hlong
    split
    · apply sound_finish hcounted <;> try rfl
      · exact hresponse
      · exact hprocess
      · simp
      · simp
    · rename_i hlength
      split
      · rename_i hcancelled
        apply sound_finish hcounted <;> try rfl
        · exact hresponse
        · exact hprocess
        · simp
        · intro _
          exact hcancelled
      · have hpcm : SpeechAudio pcm := by
          unfold SpeechAudio
          omega
        split
        · rename_i hsome
          obtain ⟨p, hp⟩ := Option.isSome_iff_exists.mp hsome
          apply sound_goOn hcounted (p := p) <;> try rfl
          · exact hp
          · refine ⟨Nat.lt_succ_self _, hpcm, ?_⟩
            rw [if_neg (by simp)]
            simp only [hresponse]
            exact waiting_of_boundary (hprocess p hp) rfl rfl h.known
        · rename_i hnone
          split
          · apply sound_finish hcounted <;> try rfl
            · exact hresponse
            · exact hprocess
            · simp
            · simp
          · split
            · apply sound_finish hcounted <;> try rfl
              · exact hresponse
              · exact hprocess
              · simp
              · simp
            · apply sound_goOn hcounted (p := spawned) <;> try rfl
              refine ⟨Nat.lt_succ_self _, hpcm, ?_⟩
              rw [if_pos (by simp)]
              refine ⟨⟨rfl, rfl, rfl, rfl, Or.inl ⟨rfl, hresponse⟩⟩, h.known⟩

theorem Stage.congr {other : Call} {response : Bytes} {answers : List Answer}
    (h : Stage call p response answers) (hnumber : other.number = call.number)
    (hpcm : other.pcm = call.pcm) (hremaining : other.remaining = call.remaining)
    (haborting : call.aborting = true → other.aborting = true) :
    Stage other p response answers := by
  cases h with
  | waiting hphase hrequest houtput hresponse hanswers =>
    rw [← hremaining, ← hpcm] at hrequest
    rw [← hnumber] at hanswers
    exact .waiting hphase hrequest houtput hresponse hanswers
  | recognising hphase hbuffer hinput hread houtput hresponse hanswers =>
    rw [← hpcm] at hphase
    rw [← hnumber] at hanswers
    exact .recognising hphase hbuffer hinput (hremaining.trans hread) houtput hresponse hanswers
  | answering status text hphase hbuffer hinput hread houtput hresponse hcancelled hsuccess =>
    rw [← hnumber, ← hpcm] at hsuccess
    exact .answering status text hphase hbuffer hinput (hremaining.trans hread) houtput hresponse
      hcancelled hsuccess
  | replied reply hline hread hcancelled hsuccess =>
    rw [← hnumber, ← hpcm] at hsuccess
    refine .replied reply hline (hremaining.trans hread) ?_ ?_
    · intro hstatus
      obtain ⟨hon, hrest⟩ := hcancelled hstatus
      exact ⟨haborting hon, hrest⟩
    · intro hstatus
      rcases hsuccess hstatus with hon | hanswer
      · exact Or.inl (haborting hon)
      · exact Or.inr hanswer

/-- Only what the loop of the caller does next, or the cancel event, changes. -/
theorem Call.Sound.congr {other : Call} (h : call.Sound p s) (hnumber : other.number = call.number)
    (hpcm : other.pcm = call.pcm) (hstarting : other.starting = call.starting)
    (hremaining : other.remaining = call.remaining) (haborting : other.aborting = call.aborting)
    (hcancelled : call.cancelled = true → other.cancelled = true)
    (hcalls : t.calls = s.calls) (hresponse : t.response = s.response)
    (hanswers : t.answers = s.answers) : other.Sound p t := by
  obtain ⟨hknown, haudio, hstage⟩ := h
  refine ⟨by rw [hnumber, hcalls]; exact hknown, by rw [hpcm]; exact haudio, ?_⟩
  rw [hstarting, hresponse, hanswers]
  split
  · rename_i hstart
    rw [if_pos hstart] at hstage
    obtain ⟨hgreets, hnumbers⟩ := hstage
    rw [hnumber]
    exact ⟨⟨hremaining.trans hgreets.remaining, haborting.trans hgreets.aborting,
      hgreets.cancelled, hgreets.signalled, hgreets.line⟩, hnumbers⟩
  · rename_i hstart
    rw [if_neg hstart] at hstage
    obtain ⟨hsignals, hstage⟩ := hstage
    refine ⟨⟨?_, ?_, ?_⟩, hstage.congr hnumber hpcm hremaining (fun h => haborting.trans h)⟩
    · intro hon
      rw [haborting] at hon
      obtain ⟨hread, hevent⟩ := hsignals.aborting hon
      exact ⟨hremaining.trans hread, hcancelled hevent⟩
    · rw [haborting]
      exact hsignals.signalled
    · rw [haborting]
      exact hsignals.flagged

theorem sound_point (h : s.Sound clean) (hprocess : s.process = some p) (hsound : call.Sound p s)
    (point : Point) : (s.goOn call point).Sound clean := by
  apply sound_goOn h <;> try rfl
  · exact hprocess
  · exact hsound.congr rfl rfl rfl rfl rfl id rfl rfl rfl

theorem sound_cancel (h : s.Sound clean) (hcall : s.call = some call) :
    ({ s with call := some { call with cancelled := true } } : State).Sound clean := by
  obtain ⟨p, hprocess, hsound⟩ := h.call_sound hcall
  apply sound_goOn h <;> try rfl
  · exact hprocess
  · exact hsound.congr rfl rfl rfl rfl rfl (fun _ => rfl) rfl rfl rfl

/-- The signal goes out once the whole request is written, and once in a call. -/
theorem sound_signal (h : s.Sound clean) (hprocess : s.process = some p) (hsound : call.Sound p s)
    (hcancelled : call.cancelled = true) (hremaining : call.remaining = [])
    (hstarting : call.starting = false) (haborting : call.aborting = false) :
    (s.signal.goOn { call with aborting := true } .deadline).Sound clean := by
  obtain ⟨hknown, haudio, hstage⟩ := hsound
  rw [hstarting, if_neg (by simp)] at hstage
  obtain ⟨hsignals, hstage⟩ := hstage
  have hquiet (hon : p.cancelled = true) (htop : p.phase ≠ .top) (hlive : p.phase ≠ .exited) :
      False := by
    have hflagged := (hsignals.flagged ⟨hon, htop, hlive⟩).1
    simp [haborting] at hflagged
  let q : Process := if p.phase = .exited then p else { p with signalled := true }
  have hphase : q.phase = p.phase := by
    simp only [q]
    split <;> rfl
  have hflag : q.cancelled = p.cancelled := by
    simp only [q]
    split <;> rfl
  have hbuffer : q.buffer = p.buffer := by
    simp only [q]
    split <;> rfl
  have hinput : q.input = p.input := by
    simp only [q]
    split <;> rfl
  have houtput : q.output = p.output := by
    simp only [q]
    split <;> rfl
  have hsent : (s.signal.goOn { call with aborting := true } .deadline).process = some q := by
    simp [State.goOn, State.signal, hprocess, q]
  refine sound_goOn h rfl rfl rfl rfl
    hsent ?_
  · refine ⟨hknown, haudio, ?_⟩
    simp only [hstarting]
    rw [if_neg (by simp)]
    refine ⟨⟨fun _ => ⟨hremaining, hcancelled⟩, fun _ => rfl, ?_⟩, ?_⟩
    · rintro ⟨hon, htop, hlive⟩
      rw [hflag] at hon
      rw [hphase] at htop hlive
      exact absurd (hquiet hon htop hlive) id
    · cases hstage with
      | waiting hwaiting hrequest hnone hresponse hanswers =>
        rw [← hphase] at hwaiting
        rw [← hbuffer, ← hinput] at hrequest
        exact .waiting hwaiting hrequest (houtput.trans hnone) hresponse hanswers
      | recognising hrecognising hb hi hread hnone hresponse hanswers =>
        exact .recognising (hphase.trans hrecognising) (hbuffer.trans hb) (hinput.trans hi) hread
          (houtput.trans hnone) hresponse hanswers
      | answering status text hanswering hb hi hread hnone hresponse hflagged hsuccess =>
        rw [← hflag] at hflagged
        exact .answering status text (hphase.trans hanswering) (hbuffer.trans hb) (hinput.trans hi)
          hread (houtput.trans hnone) hresponse hflagged hsuccess
      | replied reply hline hread hacknowledged hsuccess =>
        refine .replied reply ?_ hread ?_ (fun _ => Or.inl rfl)
        · obtain ⟨hsettled, hb, hi, hplain, owed, hrest, howed⟩ := hline
          refine ⟨?_, hbuffer.trans hb, hinput.trans hi, hplain, owed, ?_, ?_⟩
          · rwa [hphase]
          · rw [houtput]
            exact hrest
          · rw [hphase]
            exact howed
        · intro hstatus
          have hon := (hacknowledged hstatus).1
          simp [haborting] at hon

theorem sound_check (h : s.Sound clean) (hcall : s.call = some call) (expired : Bool) :
    (s.check call expired).Sound clean := by
  obtain ⟨p, hprocess, hsound⟩ := h.call_sound hcall
  unfold State.check
  split
  · rename_i hcancelled
    split
    · exact sound_close h rfl rfl rfl (by simp) (fun _ => hcancelled)
    · rename_i hwhole
      simp only [not_or, not_not, Bool.not_eq_true] at hwhole
      split
      · rename_i haborting
        exact sound_signal h hprocess hsound hcancelled hwhole.1 hwhole.2 haborting
      · split
        · exact sound_close h rfl rfl rfl (by simp) (fun _ => hcancelled)
        · exact sound_point h hprocess hsound .deadline
  · exact sound_point h hprocess hsound .deadline

theorem sound_deadline (h : s.Sound clean) (hcall : s.call = some call) (expired : Bool) :
    (s.deadline call expired).Sound clean := by
  obtain ⟨p, hprocess, hsound⟩ := h.call_sound hcall
  unfold State.deadline
  split
  · exact sound_close h rfl rfl rfl (by simp) (by simp)
  · exact sound_point h hprocess hsound .line

theorem line_of_response {response line : Bytes} (h : response = line ++ [newline])
    (hplain : newline ∉ line) : response.takeWhile (· ≠ newline) = line ∧
      response.drop (line.length + 1) = [] := by
  subst h
  constructor
  · rw [List.takeWhile_append_of_pos]
    · simp
    · intro b hb
      simp only [decide_eq_true_eq]
      rintro rfl
      exact hplain hb
  · simp

/-- After its greeting a worker is at a boundary. -/
theorem Greets.boundary {response : Bytes} (h : Greets call p response)
    (hnewline : newline ∈ response) : p.AtBoundary ∧
      ∃ line, newline ∉ line ∧ response = line ++ [newline] := by
  obtain ⟨_, _, hcancelled, hsignalled, hline⟩ := h
  rcases hline with ⟨_, hresponse⟩ | ⟨line, hline⟩
  · simp [hresponse] at hnewline
  · obtain ⟨hresponse, houtput, hphase⟩ := hline.complete hnewline
    exact ⟨⟨hphase, hline.buffer, hline.input, houtput, hsignalled, fun _ => hcancelled⟩, line,
      hline.plain, hresponse⟩

theorem sound_line_starting (h : s.Sound clean)
    (hprocess : s.process = some p) (hsound : call.Sound p s) (hstarting : call.starting = true)
    (hnewline : newline ∈ s.response) : (s.line call loads clean).Sound clean := by
  obtain ⟨hknown, haudio, hstage⟩ := hsound
  rw [hstarting, if_pos rfl] at hstage
  obtain ⟨hgreets, hanswers⟩ := hstage
  obtain ⟨hboundary, line, hplain, hresponse⟩ := hgreets.boundary hnewline
  obtain ⟨htake, hdrop⟩ := line_of_response hresponse hplain
  simp only [State.line, if_pos hnewline, htake, hdrop, hgreets.aborting]
  split
  · exact sound_close h rfl rfl rfl (by simp) (by simp)
  · simp only [State.received, hstarting, if_true, Bool.false_eq_true, if_false]
    split
    · exact sound_close h rfl rfl rfl (by simp) (by simp)
    · apply sound_goOn h <;> try rfl
      · exact hprocess
      · refine ⟨hknown, haudio, ?_⟩
        rw [if_neg (by simp)]
        exact waiting_of_boundary hboundary rfl rfl hanswers

/-- A line in the exchange for the audio is the line of a reply to it. -/
theorem Stage.replied_of_newline {response : Bytes} {answers : List Answer}
    (h : Stage call p response answers) (hnewline : newline ∈ response) :
    ∃ reply : Reply, Delivers p response reply.line ∧
      (reply.status = .cancelled →
        call.aborting = true ∧ p.signalled = false ∧ (p.phase = .reading → p.cancelled = false)) ∧
      (reply.status = .success →
        call.aborting = true ∨ ⟨call.number, call.pcm, reply.text⟩ ∈ answers) := by
  cases h with
  | waiting hphase hrequest houtput hresponse hanswers => simp [hresponse] at hnewline
  | recognising hphase hbuffer hinput hremaining houtput hresponse hanswers =>
    simp [hresponse] at hnewline
  | answering status text hphase hbuffer hinput hremaining houtput hresponse hcancelled hsuccess =>
    simp [hresponse] at hnewline
  | replied reply hline hremaining hcancelled hsuccess =>
    exact ⟨reply, hline, hcancelled, hsuccess⟩

theorem word_cancelled (status : Status) :
    status.word = ascii "cancelled" ↔ status = .cancelled := by
  cases status <;> decide

theorem word_success (status : Status) : status.word = ascii "success" ↔ status = .success := by
  cases status <;> decide

theorem sound_line_audio (hloads : Loads loads) (h : s.Sound clean)
    (hprocess : s.process = some p) (hsound : call.Sound p s) (hstarting : call.starting = false)
    (hnewline : newline ∈ s.response) : (s.line call loads clean).Sound clean := by
  obtain ⟨hknown, haudio, hstage⟩ := hsound
  rw [hstarting, if_neg (by simp)] at hstage
  obtain ⟨hsignals, hstage⟩ := hstage
  obtain ⟨reply, hline, hacknowledged, hsuccess⟩ := hstage.replied_of_newline hnewline
  obtain ⟨hresponse, houtput, hphase⟩ := hline.complete hnewline
  obtain ⟨htake, hdrop⟩ := line_of_response hresponse hline.plain
  simp only [State.line, if_pos hnewline, htake, hdrop]
  split
  · exact sound_close h rfl rfl rfl (by simp) (by simp)
  · rename_i result hresult
    have hread := hloads reply result hresult
    subst hread
    split
    · rename_i haborting
      have hevent := (hsignals.aborting haborting).2
      split
      · exact sound_close h rfl rfl rfl (by simp) (fun _ => hevent)
      · rename_i hstatus
        simp only [Reply.result, ne_eq, Option.some.injEq, not_not, word_cancelled] at hstatus
        obtain ⟨_, hsignalled, hreset⟩ := hacknowledged hstatus
        apply sound_finish h <;> try rfl
        · intro q hq
          rw [hprocess] at hq
          cases hq
          exact ⟨hphase, hline.buffer, hline.input, houtput, hsignalled, hreset⟩
        · simp
        · exact fun _ => hevent
    · rename_i haborting
      have hsignalled : p.signalled = false := by
        by_contra hon
        exact haborting (hsignals.signalled (by simpa using hon))
      have hreset : p.phase = .reading → p.cancelled = false := by
        intro hreading
        by_contra hon
        apply haborting
        exact (hsignals.flagged ⟨by simpa using hon, by simp [hreading], by simp [hreading]⟩).1
      simp only [State.received, hstarting, Bool.false_eq_true, if_false, Reply.result,
        Option.some.injEq, word_cancelled, word_success]
      split
      · rename_i hstatus
        exact absurd (hacknowledged hstatus).1 haborting
      · split
        · rename_i hstatus
          apply sound_finish h <;> try rfl
          · intro q hq
            rw [hprocess] at hq
            cases hq
            exact ⟨hphase, hline.buffer, hline.input, houtput, hsignalled, hreset⟩
          · rintro text ⟨⟩
            rcases hsuccess hstatus with hon | hanswer
            · exact absurd hon haborting
            · exact Or.inr ⟨reply.text, hanswer, rfl⟩
          · simp
        · exact sound_close h rfl rfl rfl (by simp) (by simp)

theorem sound_line (hloads : Loads loads) (h : s.Sound clean) (hcall : s.call = some call) :
    (s.line call loads clean).Sound clean := by
  obtain ⟨p, hprocess, hsound⟩ := h.call_sound hcall
  by_cases hnewline : newline ∈ s.response
  · cases hstarting : call.starting with
    | true => exact sound_line_starting h hprocess hsound hstarting hnewline
    | false => exact sound_line_audio hloads h hprocess hsound hstarting hnewline
  · rw [State.line, if_neg hnewline]
    exact sound_point h hprocess hsound .write

/-- Only a worker that waits for its audio is written to. -/
theorem sound_write (h : s.Sound clean) (hcall : s.call = some call) (n : ℕ)
    (hwrite : s.write call n = some t) : t.Sound clean := by
  obtain ⟨p, hprocess, hsound⟩ := h.call_sound hcall
  simp only [State.write, hprocess] at hwrite
  split at hwrite
  · cases hwrite
    exact sound_point h hprocess hsound .read
  · rename_i hn
    split at hwrite
    · rename_i hlength
      split at hwrite
      · cases hwrite
        exact sound_close h rfl rfl rfl (by simp) (by simp)
      · rename_i hlive
        cases hwrite
        have hmore : call.remaining ≠ [] := by
          intro hnil
          simp only [hnil, List.length_nil] at hlength
          omega
        apply sound_goOn h <;> try rfl
        obtain ⟨hknown, haudio, hstage⟩ := hsound
        refine ⟨hknown, haudio, ?_⟩
        cases hstarting : call.starting with
        | true =>
          rw [hstarting, if_pos rfl] at hstage
          exact absurd hstage.1.remaining hmore
        | false =>
          rw [hstarting, if_neg (by simp)] at hstage
          rw [if_neg (by simp)]
          obtain ⟨hsignals, hstage⟩ := hstage
          refine ⟨⟨?_, hsignals.signalled, hsignals.flagged⟩, ?_⟩
          · intro hon
            exact absurd (hsignals.aborting hon).1 hmore
          · cases hstage with
            | waiting hphase hrequest houtput hresponse hanswers =>
              refine .waiting hphase ?_ houtput hresponse hanswers
              rw [← hrequest, List.append_assoc p.input, List.take_append_drop]
            | recognising hphase hbuffer hinput hremaining houtput hresponse hanswers =>
              exact absurd hremaining hmore
            | answering status text hphase hbuffer hinput hremaining houtput hresponse =>
              exact absurd hremaining hmore
            | replied reply hline hremaining hcancelled hsuccess => exact absurd hremaining hmore
    · cases hwrite

theorem sound_read (h : s.Sound clean) (hcall : s.call = some call) (n : ℕ)
    (hread : s.read call n = some t) : t.Sound clean := by
  obtain ⟨p, hprocess, hsound⟩ := h.call_sound hcall
  simp only [State.read, hprocess] at hread
  split at hread
  · cases hread
    exact sound_point h hprocess hsound .check
  · split at hread
    · split at hread
      · cases hread
        exact sound_close h rfl rfl rfl (by simp) (by simp)
      · cases hread
    · rename_i houtput
      split at hread
      · split at hread
        · cases hread
          exact sound_close h rfl rfl rfl (by simp) (by simp)
        · cases hread
          apply sound_goOn h <;> try rfl
          obtain ⟨hknown, haudio, hstage⟩ := hsound
          refine ⟨hknown, haudio, ?_⟩
          cases hstarting : call.starting with
          | true =>
            rw [hstarting, if_pos rfl] at hstage
            rw [if_pos (by simp)]
            obtain ⟨⟨hremaining, haborting, hcancelled, hsignalled, hline⟩, hanswers⟩ := hstage
            refine ⟨⟨hremaining, haborting, hcancelled, hsignalled, ?_⟩, hanswers⟩
            rcases hline with ⟨rfl, _⟩ | ⟨line, hline⟩
            · exact absurd rfl houtput
            · exact Or.inr ⟨line, hline.read n⟩
          | false =>
            rw [hstarting, if_neg (by simp)] at hstage
            rw [if_neg (by simp)]
            obtain ⟨⟨haborting, hsignalled, hflagged⟩, hstage⟩ := hstage
            refine ⟨⟨haborting, hsignalled, hflagged⟩, ?_⟩
            cases hstage with
            | waiting hphase hrequest hnone hresponse hanswers => exact absurd hnone houtput
            | recognising hphase hbuffer hinput hremaining hnone hresponse hanswers =>
              exact absurd hnone houtput
            | answering status text hphase hbuffer hinput hremaining hnone hresponse =>
              exact absurd hnone houtput
            | replied reply hline hremaining hcancelled hsuccess =>
              exact .replied reply (hline.read n) hremaining hcancelled hsuccess
      · cases hread

end Calls

section Runs

variable {clean : Bytes → Bytes} {loads : Bytes → Option Result} {s t : State} {call : Call}
  {p q : Process} {act : Act} {acts : List Act}

/-- Between two calls the worker can do no more than start to wait, or exit. -/
theorem Process.AtBoundary.step {act : WorkerAct} (h : p.AtBoundary) (hstep : WorkerStep p act q) :
    q.AtBoundary := by
  obtain ⟨hphase, hbuffer, hinput, houtput, hsignalled, hreset⟩ := h
  cases hstep with
  | reset htop =>
    exact ⟨Or.inr (Or.inl rfl), hbuffer, hinput, houtput, hsignalled, fun _ => rfl⟩
  | exit =>
    exact ⟨Or.inr (Or.inr rfl), hbuffer, hinput, houtput, hsignalled, fun h => by cases h⟩
  | fill n hreading hpositive hn =>
    simp only [hinput, List.length_nil] at hn
    omega
  | refuse hreading hframe => simp [hbuffer, readFrame] at hframe
  | accept pcm rest hreading hframe => simp [hbuffer, readFrame] at hframe
  | onCancel hsent hlive => simp [hsignalled] at hsent
  | greet line hstarting hline => simp [hstarting] at hphase
  | infer pcm text hrecognising => simp [hrecognising] at hphase
  | answer status text metrics hanswering => simp [hanswering] at hphase
  | write rest n hwriting hpositive hn => simp [hwriting] at hphase

/-- While the worker recognises, the call has no answer yet. -/
theorem Call.Sound.unanswered (h : call.Sound p s) {pcm : Bytes}
    (hphase : p.phase = .recognising pcm) : call.starting = false ∧
      ∀ answer ∈ s.answers, answer.call < call.number := by
  obtain ⟨_, _, hstage⟩ := h
  cases hstarting : call.starting with
  | true =>
    rw [hstarting, if_pos rfl] at hstage
    rcases hstage.1.line with ⟨rfl, _⟩ | ⟨line, hline⟩
    · cases hphase
    · have hsettled := hline.settled
      simp [hphase, Phase.settled] at hsettled
  | false =>
    rw [hstarting, if_neg (by simp)] at hstage
    refine ⟨rfl, ?_⟩
    cases hstage.2 with
    | waiting hwaiting hrequest houtput hresponse hanswers => exact hanswers
    | recognising hrecognising hbuffer hinput hremaining houtput hresponse hanswers =>
      exact hanswers
    | answering status text hanswering => simp [hphase] at hanswering
    | replied reply hline =>
      have hsettled := hline.settled
      simp [hphase, Phase.settled] at hsettled

/-- The worker takes a step in a call. -/
theorem Call.Sound.work {act : WorkerAct} (h : call.Sound p s) (hstep : WorkerStep p act q)
    (hcalls : t.calls = s.calls) (hresponse : t.response = s.response)
    (hanswers : t.answers = s.answers ++ found (some call) p act) : call.Sound q t := by
  have hunanswered (pcm : Bytes) (hphase : p.phase = .recognising pcm) := h.unanswered hphase
  obtain ⟨hnumber, haudio, hstage⟩ := h
  refine ⟨by rwa [hcalls], haudio, ?_⟩
  rw [hresponse, hanswers]
  cases hstarting : call.starting with
  | true =>
    rw [hstarting, if_pos rfl] at hstage
    rw [if_pos rfl]
    refine ⟨hstage.1.step hstep, ?_⟩
    rcases found_cases (some call) p act with hnone | ⟨_, pcm, text, _, hphase, _⟩
    · rw [hnone, List.append_nil]
      exact hstage.2
    · have hlater := (hunanswered pcm hphase).1
      rw [hstarting] at hlater
      cases hlater
  | false =>
    rw [hstarting, if_neg (by simp)] at hstage
    rw [if_neg (by simp)]
    exact ⟨hstage.1.step hstep, hstage.2.step haudio hstage.1 hstep⟩

theorem sound_work {act : WorkerAct} (h : s.Sound clean) (hwork : s.work act = some t) :
    t.Sound clean := by
  unfold State.work at hwork
  split at hwork
  · cases hwork
  · rename_i p hprocess
    simp only [Option.map_eq_some_iff] at hwork
    obtain ⟨q, hstep, rfl⟩ := hwork
    have hworker := Process.workerStep hstep
    cases hcall : s.call with
    | none =>
      obtain ⟨hresponse, hboundary⟩ := h.boundary hcall
      rw [found_of_call_none, List.append_nil]
      refine ⟨h.once, h.known, h.answered, h.cancelled, ?_⟩
      refine ⟨hresponse, fun r hr => ?_⟩
      cases hr
      exact (hboundary p hprocess).step hworker
    | some call =>
      obtain ⟨r, hr, hsound⟩ := h.call_sound hcall
      rw [hprocess] at hr
      cases hr
      have hfresh : ∀ answer ∈ found (some call) p act, answer.call = call.number ∧
          ∀ other ∈ s.answers, other.call < answer.call := by
        intro answer hanswer
        rcases found_cases (some call) p act with hnone | ⟨_, pcm, text, hsame, hphase, hfound⟩
        · simp [hnone] at hanswer
        · cases hsame
          rw [hfound, List.mem_singleton] at hanswer
          subst hanswer
          exact ⟨rfl, (hsound.unanswered hphase).2⟩
      refine ⟨?_, ?_, fun f hf => (h.answered f hf).mono, h.cancelled, ?_⟩
      · rw [List.pairwise_append]
        refine ⟨h.once, ?_, fun other hother answer hanswer => (hfresh answer hanswer).2 other hother⟩
        rcases found_cases (some call) p act with hnone | ⟨_, pcm, text, _, _, hfound⟩
        · simp [hnone]
        · simp [hfound]
      · intro answer hanswer
        rcases List.mem_append.mp hanswer with hanswer | hanswer
        · exact h.known answer hanswer
        · rw [(hfresh answer hanswer).1]
          exact hsound.1
      · exact ⟨q, rfl, hsound.work hworker rfl rfl rfl⟩

theorem sound_step (hloads : Loads loads) (h : s.Sound clean)
    (hstep : step loads clean s act = some t) : t.Sound clean := by
  unfold step at hstep
  split at hstep
  · rename_i hcall
    cases hstep
    exact sound_begin h hcall _ _ _ _
  · rename_i hcall
    cases hstep
    exact ⟨h.once, h.known, h.answered, h.cancelled, by
      simp [State.Current, State.close, hcall]⟩
  · rename_i hcall
    cases hstep
    exact sound_cancel h hcall
  · rename_i hcall
    split at hstep
    · cases hstep
      exact sound_check h hcall _
    · cases hstep
  · rename_i hcall
    split at hstep
    · cases hstep
      exact sound_deadline h hcall _
    · cases hstep
  · rename_i hcall
    split at hstep
    · cases hstep
      exact sound_line hloads h hcall
    · cases hstep
  · rename_i hcall
    split at hstep
    · exact sound_write h hcall _ hstep
    · cases hstep
  · rename_i hcall
    split at hstep
    · exact sound_read h hcall _ hstep
    · cases hstep
  · exact sound_work h hstep
  · cases hstep

def runs (loads : Bytes → Option Result) (clean : Bytes → Bytes) (s : State) (acts : List Act) :
    Option State :=
  acts.foldlM (step loads clean) s

theorem sound_runs (hloads : Loads loads) (h : s.Sound clean)
    (hruns : runs loads clean s acts = some t) : t.Sound clean := by
  induction acts generalizing s with
  | nil =>
    cases hruns
    exact h
  | cons act rest ih =>
    simp only [runs, List.foldlM_cons, Option.bind_eq_bind, Option.bind_eq_some_iff] at hruns
    obtain ⟨u, hstep, hrest⟩ := hruns
    exact ih (sound_step hloads h hstep) hrest

/-- The caller is given the text of its own audio, the flag and the signal in a call are those of
its own cancel event, and a process is used again only where both streams are between two frames. -/
structure State.Paired (clean : Bytes → Bytes) (s : State) : Prop where
  texts : ∀ f ∈ s.finished, f.Answered clean s.answers
  once : s.answers.Pairwise fun a b => a.call ≠ b.call
  cancelled : ∀ f ∈ s.finished, f.outcome = .cancelled → f.cancelled = true
  aborts : ∀ call p, s.call = some call → s.process = some p →
    p.signalled = true ∨ p.aborts → call.cancelled = true
  reused : s.call = none → s.response = [] ∧ ∀ p, s.process = some p → p.AtBoundary

theorem Call.Sound.own_cancel (h : call.Sound p s) (habort : p.signalled = true ∨ p.aborts) :
    call.cancelled = true := by
  obtain ⟨_, _, hstage⟩ := h
  cases hstarting : call.starting with
  | true =>
    rw [hstarting, if_pos rfl] at hstage
    rcases habort with hsignalled | hflagged
    · simp [hstage.1.signalled] at hsignalled
    · simp [Process.aborts, hstage.1.cancelled] at hflagged
  | false =>
    rw [hstarting, if_neg (by simp)] at hstage
    rcases habort with hsignalled | hflagged
    · exact (hstage.1.aborting (hstage.1.signalled hsignalled)).2
    · exact (hstage.1.aborting (hstage.1.flagged hflagged).1).2

/-- In every interleaving of the calls with the worker, answers are paired with their audio. -/
theorem answers_are_paired (loads : Bytes → Option Result) (clean : Bytes → Bytes)
    (acts : List Act) (s : State) (hloads : Loads loads)
    (hruns : runs loads clean initial acts = some s) : s.Paired clean := by
  have hsound : s.Sound clean := sound_runs hloads initial_sound hruns
  refine ⟨hsound.answered, hsound.once.imp Nat.ne_of_lt, hsound.cancelled, ?_, hsound.boundary⟩
  intro call p hcall hprocess habort
  obtain ⟨q, hq, hcurrent⟩ := hsound.call_sound hcall
  rw [hprocess] at hq
  cases hq
  exact hcurrent.own_cancel habort

/-- A call that is cancelled while its worker starts. -/
def cancelledStart (pcm : Bytes) : List Act :=
  [.begin pcm false true true, .cancel, .check false]

theorem runs_cancelledStart {pcm : Bytes} (h : pcm.length = 16000) :
    runs loads clean initial (cancelledStart pcm) =
      some ⟨none, [], none, 1, [], [⟨0, pcm, true, .cancelled⟩]⟩ := by
  simp [runs, cancelledStart, step, initial, State.begin, State.check, State.close, State.finish,
    minFrame, maxFrame, h]

theorem cancelledStart_paired :
    ∃ s, runs readLine id initial (cancelledStart (List.replicate 16000 0)) = some s ∧
      (∃ f ∈ s.finished, f.outcome = .cancelled) ∧ s.Paired id := by
  have hlength : (List.replicate 16000 (0 : UInt8)).length = 16000 := List.length_replicate
  have hruns := @runs_cancelledStart id readLine _ hlength
  exact ⟨_, hruns, ⟨_, List.mem_singleton.mpr rfl, rfl⟩,
    answers_are_paired readLine id _ _ loads_readLine hruns⟩

end Runs

end Dictation.Resident
