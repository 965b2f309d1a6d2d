import SynOSStudio.BashGuess.World

/-!
# Private commands and what is learned

A line is private when the filter rejects it, or rejects one of its simple commands taken
alone. The filter looks at the last simple command of a line only, and a line that it
rejects still becomes the last event; so private lines are learned, and exactly when the
runs below say.
-/

namespace BashGuess

section Privacy

/-- The text between the operators `|`, `||`, `&&`, `;` and `&` outside quotes; `<&`, `>&`,
`>|` and `&>` are redirections. The third variable is the character before. -/
def splitCommands : Option Char → Bool → Option Char → Text → Text → List Text
  | _, _, _, segment, [] => [segment]
  | quote, escaped, before, segment, c :: rest =>
    if escaped then splitCommands quote false none (segment ++ [c]) rest
    else if c == '\\' && quote != some '\'' then
      splitCommands quote true none (segment ++ [c]) rest
    else if quote.isSome then
      splitCommands (if quote == some c then none else quote) false none (segment ++ [c]) rest
    else if c == '\'' || c == '"' then splitCommands (some c) false none (segment ++ [c]) rest
    else if c == ';' || ((c == '|' || c == '&') && before != some '<' && before != some '>' &&
        !(c == '&' && rest.head? == some '>')) then
      segment :: splitCommands none false none [] rest
    else splitCommands none false (some c) (segment ++ [c]) rest

def simpleCommands (line : Text) : List Text :=
  ((splitCommands none false none [] line).map trim).filter (· ≠ [])

/-- Lines that start with whitespace are among those that the filter rejects. -/
def PrivateLine (line : Text) : Prop :=
  historySafe line = false ∨ ∃ command ∈ simpleCommands line, historySafe command = false

theorem privateLine_of_leading_space {line : Text} (h : line.head?.any isWhitespace = true) :
    PrivateLine line := by
  left
  unfold historySafe
  rw [h]
  rfl

end Privacy

section Runs

def afterObservations (run : List Observation) (start : Learned) : Learned :=
  run.foldl (fun learned o => (observeCommandWithCwd o learned).2) start

/-- What is passed on to be recorded when the command after these is observed. -/
def passedOn (start : Learned) (earlier : List Observation) (o : Observation) :
    Option (HistoryEntry × Option TransitionEntry) :=
  (observeCommandWithCwd o (afterObservations earlier start)).1

/-- The entry was recorded or counted up when the line was observed. -/
def HistoryFrom (start : Learned) (run : List Observation) (entry : HistoryEntry) (line : Text) :
    Prop :=
  ∃ earlier o later recorded transition, run = earlier ++ o :: later ∧ o.line = line ∧
    passedOn start earlier o = some (recorded, transition) ∧
    recorded.command = entry.command ∧ recorded.cwd = entry.cwd

/-- The entry was recorded or counted up when the line, or the one after it, was observed. -/
def TransitionFrom (start : Learned) (run : List Observation) (entry : TransitionEntry)
    (line : Text) : Prop :=
  ∃ earlier o later recorded transition, run = earlier ++ o :: later ∧
    (o.line = line ∨ ∃ p, earlier.getLast? = some p ∧ p.line = line) ∧
    passedOn start earlier o = some (recorded, some transition) ∧
    transition.previous = entry.previous ∧ transition.next = entry.next ∧
    transition.cwd = entry.cwd

/-- No entry of the history or of the transitions comes from a private line. -/
def NeverLearned (start : Learned) (run : List Observation) : Prop :=
  ∀ line, PrivateLine line → (∀ entry, ¬ HistoryFrom start run entry line) ∧
    ∀ entry, ¬ TransitionFrom start run entry line

/-- What the helper knows when it starts: the entries loaded from its files. -/
def Learned.loaded (history : List HistoryEntry) (transitions : List TransitionEntry) : Learned :=
  ⟨none, "", history, transitions⟩

/-- The command of a line that a transition names. -/
def eventText (line : Text) : Option Text :=
  (deriveEvent line 0 0).map CommandEvent.normalized

/-- Two lines of which the second makes a transition out of the first. -/
def Follows (p o : Observation) : Prop :=
  p.exitCode = 0 ∧ ∃ previous next, eventText p.line = some previous ∧
    eventText o.line = some next ∧ historySafe previous = true ∧ previous ≠ next ∧
    previous ≠ [] ∧ next ≠ []

/-- A line that succeeds and passes the filter has only simple commands that pass it, and does
not make a transition out of a private line. -/
def KeepsPrivate (p : Option Observation) (o : Observation) : Prop :=
  o.exitCode = 0 → historySafe o.line = true →
    (∀ command ∈ simpleCommands o.line, historySafe command = true) ∧
    ∀ q, p = some q → Follows q o → ¬ PrivateLine q.line

def EachKeepsPrivate : Option Observation → List Observation → Prop
  | _, [] => True
  | p, o :: rest => KeepsPrivate p o ∧ EachKeepsPrivate (some o) rest

end Runs

section Steps

variable {o p : Observation} {learned start : Learned} {run earlier later : List Observation}

theorem deriveEvent_normalized (line : Text) (exitCode : Int32) (atMs : ℕ) :
    (deriveEvent line exitCode atMs).map CommandEvent.normalized = eventText line := by
  unfold eventText deriveEvent
  simp only
  split
  · rfl
  · split <;> rfl

theorem deriveEvent_exitCode {line : Text} {exitCode : Int32} {atMs : ℕ} {event : CommandEvent}
    (h : deriveEvent line exitCode atMs = some event) : event.exitCode = exitCode := by
  unfold deriveEvent at h
  simp only at h
  split at h
  · cases h
  · split at h
    · cases h
    · rw [← Option.some.inj h]

theorem learnTransition_fst (previous next : Text) (cwd : String) (atMs : ℕ) (learned : Learned) :
    (learnTransition previous next cwd atMs learned).1 =
      if previous = next ∨ previous = [] ∨ next = [] then none
      else some ⟨previous, next, cwd, 1, atMs⟩ := by
  unfold learnTransition
  split <;> rfl

theorem learnTransition_lastEvent (previous next : Text) (cwd : String) (atMs : ℕ)
    (learned : Learned) :
    (learnTransition previous next cwd atMs learned).2.lastEvent = learned.lastEvent := by
  unfold learnTransition
  split <;> rfl

/-- Every observed line becomes the last event, also one that the filter rejects. -/
theorem observe_lastEvent (o : Observation) (learned : Learned) :
    (observeCommandWithCwd o learned).2.lastEvent = deriveEvent o.line o.exitCode o.atMs := by
  unfold observeCommandWithCwd
  simp only
  split
  · rfl
  · split
    · rfl
    · exact learnTransition_lastEvent _ _ _ _ _

theorem observe_learns_iff {recorded : HistoryEntry} : (∃ transition,
    (observeCommandWithCwd o learned).1 = some (recorded, transition)) ↔
      (o.exitCode = 0 ∧ historySafe o.line = true) ∧
        recorded = ⟨trim o.line, o.cwd, 1, o.atMs⟩ := by
  unfold observeCommandWithCwd
  simp only
  split
  · rename_i hskip
    have hnot : ¬ (o.exitCode = 0 ∧ historySafe o.line = true) := by
      rintro ⟨hzero, hsafe⟩
      simp [hzero, hsafe] at hskip
    simp [hnot]
  · rename_i hlearns
    have hboth : o.exitCode = 0 ∧ historySafe o.line = true := by simpa using hlearns
    split <;> simp [hboth, eq_comm]

theorem adjacentEvents_eq_some {before now : CommandEvent} :
    adjacentEvents o learned = some (before, now) ↔
      learned.lastEvent = some before ∧ before.exitCode = 0 ∧
        historySafe before.normalized = true ∧
        deriveEvent o.line o.exitCode o.atMs = some now := by
  unfold adjacentEvents
  simp only [Option.bind_eq_some_iff, Option.filter_eq_some_iff, Option.map_eq_some_iff,
    Prod.mk.injEq, Bool.and_eq_true, beq_iff_eq]
  constructor
  · rintro ⟨event, ⟨hlast, hzero, hsafe⟩, current, hcurrent, rfl, rfl⟩
    exact ⟨hlast, hzero, hsafe, hcurrent⟩
  · rintro ⟨hlast, hzero, hsafe, hcurrent⟩
    exact ⟨before, ⟨hlast, hzero, hsafe⟩, now, hcurrent, rfl, rfl⟩

theorem observe_transition {recorded : HistoryEntry} {transition : TransitionEntry}
    (h : (observeCommandWithCwd o learned).1 = some (recorded, some transition)) :
    ∃ before now, adjacentEvents o learned = some (before, now) ∧
      before.normalized ≠ now.normalized ∧ before.normalized ≠ [] ∧ now.normalized ≠ [] ∧
      transition = ⟨before.normalized, now.normalized, o.cwd, 1, o.atMs⟩ := by
  unfold observeCommandWithCwd at h
  simp only at h
  split at h
  · cases h
  · split at h
    · cases h
    · rename_i before now hadjacent
      rw [learnTransition_fst] at h
      split at h
      · cases h
      · rename_i hdiffer
        push Not at hdiffer
        refine ⟨before, now, hadjacent, hdiffer.1, hdiffer.2.1, hdiffer.2.2, ?_⟩
        simp only [Option.some.injEq, Prod.mk.injEq] at h
        exact h.2.symm

theorem observe_transition_of {before now : CommandEvent} (hzero : o.exitCode = 0)
    (hsafe : historySafe o.line = true) (hadjacent : adjacentEvents o learned = some (before, now))
    (hdiffer : before.normalized ≠ now.normalized) (hbefore : before.normalized ≠ [])
    (hnow : now.normalized ≠ []) :
    (observeCommandWithCwd o learned).1 = some (⟨trim o.line, o.cwd, 1, o.atMs⟩,
      some ⟨before.normalized, now.normalized, o.cwd, 1, o.atMs⟩) := by
  have hlearns : ¬ ((o.exitCode != 0 || !historySafe o.line) = true) := by simp [hzero, hsafe]
  unfold observeCommandWithCwd
  simp only [if_neg hlearns, hadjacent, learnTransition_fst]
  rw [if_neg]
  rintro (h | h | h)
  · exact hdiffer h
  · exact hbefore h
  · exact hnow h

theorem lastEvent_afterObservations (hstart : start.lastEvent = none) (run : List Observation) :
    (afterObservations run start).lastEvent =
      run.getLast?.bind fun p => deriveEvent p.line p.exitCode p.atMs := by
  induction run using List.reverseRecOn with
  | nil => exact hstart
  | append_singleton run p _ =>
    rw [List.getLast?_concat]
    unfold afterObservations
    rw [List.foldl_append]
    exact observe_lastEvent p _

/-- A transition is passed on exactly when the line follows the one before. -/
theorem adjacent_of_follows (hstart : start.lastEvent = none)
    (hlast : earlier.getLast? = some p) (hfollows : Follows p o) :
    ∃ before now, adjacentEvents o (afterObservations earlier start) = some (before, now) ∧
      before.normalized ≠ now.normalized ∧ before.normalized ≠ [] ∧ now.normalized ≠ [] := by
  obtain ⟨hzero, previous, next, hprevious, hnext, hsafe, hdiffer, hbefore, hnow⟩ := hfollows
  rw [← deriveEvent_normalized p.line p.exitCode p.atMs, Option.map_eq_some_iff] at hprevious
  rw [← deriveEvent_normalized o.line o.exitCode o.atMs, Option.map_eq_some_iff] at hnext
  obtain ⟨before, hbeforeEvent, rfl⟩ := hprevious
  obtain ⟨now, hnowEvent, rfl⟩ := hnext
  refine ⟨before, now, ?_, hdiffer, hbefore, hnow⟩
  rw [adjacentEvents_eq_some, lastEvent_afterObservations hstart, hlast]
  exact ⟨hbeforeEvent, (deriveEvent_exitCode hbeforeEvent).trans hzero, hsafe, hnowEvent⟩

theorem follows_of_transition {recorded : HistoryEntry} {transition : TransitionEntry}
    (hstart : start.lastEvent = none)
    (h : passedOn start earlier o = some (recorded, some transition)) :
    ∃ p, earlier.getLast? = some p ∧ Follows p o := by
  obtain ⟨before, now, hadjacent, hdiffer, hbefore, hnow, -⟩ := observe_transition h
  rw [adjacentEvents_eq_some, lastEvent_afterObservations hstart] at hadjacent
  obtain ⟨hlast, hzero, hsafe, hcurrent⟩ := hadjacent
  obtain ⟨p, hp, hevent⟩ := Option.bind_eq_some_iff.mp hlast
  refine ⟨p, hp, (deriveEvent_exitCode hevent).symm.trans hzero, before.normalized,
    now.normalized, ?_, ?_, hsafe, hdiffer, hbefore, hnow⟩
  · rw [← deriveEvent_normalized p.line p.exitCode p.atMs, hevent]
    rfl
  · rw [← deriveEvent_normalized o.line o.exitCode o.atMs, hcurrent]
    rfl

/-- One observation after a run: private lines are kept out of what it passes on exactly when
its condition holds. -/
theorem keepsPrivate_iff (hstart : start.lastEvent = none) :
    KeepsPrivate earlier.getLast? o ↔
      ∀ recorded transition, passedOn start earlier o = some (recorded, transition) →
        ¬ PrivateLine o.line ∧
        (transition ≠ none → ∀ p, earlier.getLast? = some p → ¬ PrivateLine p.line) := by
  constructor
  · intro hkeeps recorded transition hpassed
    obtain ⟨⟨hzero, hsafe⟩, -⟩ := observe_learns_iff.mp ⟨transition, hpassed⟩
    obtain ⟨hcommands, hfollows⟩ := hkeeps hzero hsafe
    constructor
    · rintro (hrejected | ⟨command, hmem, hrejected⟩)
      · rw [hsafe] at hrejected
        cases hrejected
      · rw [hcommands command hmem] at hrejected
        cases hrejected
    · intro hsome p hlast
      obtain ⟨entry, rfl⟩ := Option.ne_none_iff_exists'.mp hsome
      obtain ⟨q, hq, hqfollows⟩ := follows_of_transition hstart hpassed
      rw [hlast] at hq
      cases hq
      exact hfollows p hlast hqfollows
  · intro hpassed hzero hsafe
    have hlearns : ∃ transition, passedOn start earlier o =
        some (⟨trim o.line, o.cwd, 1, o.atMs⟩, transition) :=
      observe_learns_iff.mpr ⟨⟨hzero, hsafe⟩, rfl⟩
    obtain ⟨transition, hsome⟩ := hlearns
    obtain ⟨hpublic, -⟩ := hpassed _ transition hsome
    constructor
    · intro command hmem
      by_contra hrejected
      exact hpublic (Or.inr ⟨command, hmem, by simpa using hrejected⟩)
    · intro q hlast hfollows
      obtain ⟨before, now, hadjacent, hdiffer, hbefore, hnow⟩ :=
        adjacent_of_follows hstart hlast hfollows
      have htransition := observe_transition_of hzero hsafe hadjacent hdiffer hbefore hnow
      exact (hpassed _ _ htransition).2 (by simp) q hlast

end Steps

section Entries

variable {α : Type} {start : Learned} {run : List Observation} {o : Observation}

theorem mem_keepRecent {lastUsed : α → ℕ} {entries : List α} {x : α}
    (h : x ∈ keepRecent lastUsed entries) : x ∈ entries := by
  unfold keepRecent at h
  split at h
  · exact (List.perm_insertionSort _ _).subset (List.mem_of_mem_drop h)
  · exact h

theorem mem_countEntry {same : α → Bool} {touch : α → α} {new x : α} {entries : List α}
    (h : x ∈ countEntry same touch new entries) :
    x ∈ entries ∨ x = new ∨ ∃ y ∈ entries, same y = true ∧ x = touch y := by
  unfold countEntry at h
  split at h
  · obtain ⟨i, hi, hx⟩ := List.getElem_of_mem h
    rw [List.length_modify] at hi
    rw [List.getElem_modify] at hx
    split at hx
    · rename_i hfound
      subst hfound
      exact Or.inr (Or.inr ⟨_, List.getElem_mem _, List.findIdx_getElem, hx.symm⟩)
    · exact Or.inl (hx ▸ List.getElem_mem hi)
  · rcases List.mem_append.mp h with hold | hnew
    · exact Or.inl hold
    · exact Or.inr (Or.inl (List.mem_singleton.mp hnew))

/-- An entry of the history was there before, or bears the command that was observed. -/
theorem mem_recordHistory {command : Text} {cwd : String} {atMs : ℕ} {history : List HistoryEntry}
    {entry : HistoryEntry} (h : entry ∈ recordHistory command cwd atMs history) :
    (∃ e ∈ history, e.command = entry.command ∧ e.cwd = entry.cwd) ∨
      command = entry.command ∧ cwd = entry.cwd := by
  rcases mem_countEntry (mem_keepRecent h) with hold | rfl | ⟨e, he, -, rfl⟩
  · exact Or.inl ⟨entry, hold, rfl, rfl⟩
  · exact Or.inr ⟨rfl, rfl⟩
  · exact Or.inl ⟨e, he, rfl, rfl⟩

theorem mem_recordTransition {previous next : Text} {cwd : String} {atMs : ℕ}
    {transitions : List TransitionEntry} {entry : TransitionEntry}
    (h : entry ∈ recordTransition previous next cwd atMs transitions) :
    (∃ e ∈ transitions, e.previous = entry.previous ∧ e.next = entry.next ∧ e.cwd = entry.cwd) ∨
      previous = entry.previous ∧ next = entry.next ∧ cwd = entry.cwd := by
  have hcounted : entry ∈ countEntry (TransitionEntry.same previous next cwd)
      (TransitionEntry.touch atMs) ⟨previous, next, cwd, 1, atMs⟩ transitions := by
    unfold recordTransition at h
    simp only at h
    split at h
    · exact h
    · exact mem_keepRecent h
  rcases mem_countEntry hcounted with hold | rfl | ⟨e, he, -, rfl⟩
  · exact Or.inl ⟨entry, hold, rfl, rfl, rfl⟩
  · exact Or.inr ⟨rfl, rfl, rfl⟩
  · exact Or.inl ⟨e, he, rfl, rfl, rfl⟩

theorem observe_history {learned : Learned} {entry : HistoryEntry}
    (h : entry ∈ (observeCommandWithCwd o learned).2.history) :
    (∃ e ∈ learned.history, e.command = entry.command ∧ e.cwd = entry.cwd) ∨
      ∃ recorded transition,
        (observeCommandWithCwd o learned).1 = some (recorded, transition) ∧
        recorded.command = entry.command ∧ recorded.cwd = entry.cwd := by
  unfold observeCommandWithCwd at h ⊢
  simp only at h ⊢
  split at h
  · exact Or.inl ⟨entry, h, rfl, rfl⟩
  · rename_i hlearns
    rw [if_neg hlearns]
    cases hadjacent : adjacentEvents o learned with
    | none =>
      rw [hadjacent] at h
      rcases mem_recordHistory h with hold | hkey
      · exact Or.inl hold
      · exact Or.inr ⟨_, _, rfl, hkey⟩
    | some pair =>
      rw [hadjacent] at h
      have hhistory : entry ∈ recordHistory (trim o.line) o.cwd o.atMs learned.history := by
        simp only at h
        unfold learnTransition at h
        split at h <;> exact h
      rcases mem_recordHistory hhistory with hold | hkey
      · exact Or.inl hold
      · exact Or.inr ⟨_, _, rfl, hkey⟩

theorem observe_transitions {learned : Learned} {entry : TransitionEntry}
    (h : entry ∈ (observeCommandWithCwd o learned).2.transitions) :
    (∃ e ∈ learned.transitions, e.previous = entry.previous ∧ e.next = entry.next ∧
        e.cwd = entry.cwd) ∨
      ∃ recorded transition,
        (observeCommandWithCwd o learned).1 = some (recorded, some transition) ∧
        transition.previous = entry.previous ∧ transition.next = entry.next ∧
        transition.cwd = entry.cwd := by
  unfold observeCommandWithCwd at h ⊢
  simp only at h ⊢
  split at h
  · exact Or.inl ⟨entry, h, rfl, rfl, rfl⟩
  · rename_i hlearns
    rw [if_neg hlearns]
    cases hadjacent : adjacentEvents o learned with
    | none =>
      rw [hadjacent] at h
      exact Or.inl ⟨entry, h, rfl, rfl, rfl⟩
    | some pair =>
      rw [hadjacent] at h
      obtain ⟨before, now⟩ := pair
      simp only at h ⊢
      unfold learnTransition at h ⊢
      split at h
      · exact Or.inl ⟨entry, h, rfl, rfl, rfl⟩
      · rename_i hdiffer
        simp only [if_neg hdiffer]
        rcases mem_recordTransition h with hold | hkey
        · exact Or.inl hold
        · exact Or.inr ⟨_, _, rfl, hkey⟩

theorem HistoryFrom.concat {entry : HistoryEntry} {line : Text}
    (h : HistoryFrom start run entry line) (o : Observation) :
    HistoryFrom start (run ++ [o]) entry line := by
  obtain ⟨earlier, p, later, recorded, transition, rfl, hline, hpassed, hkey⟩ := h
  exact ⟨earlier, p, later ++ [o], recorded, transition, by simp, hline, hpassed, hkey⟩

theorem TransitionFrom.concat {entry : TransitionEntry} {line : Text}
    (h : TransitionFrom start run entry line) (o : Observation) :
    TransitionFrom start (run ++ [o]) entry line := by
  obtain ⟨earlier, p, later, recorded, transition, rfl, hline, hpassed, hkey⟩ := h
  exact ⟨earlier, p, later ++ [o], recorded, transition, by simp, hline, hpassed, hkey⟩

theorem afterObservations_concat (run : List Observation) (o : Observation) (start : Learned) :
    afterObservations (run ++ [o]) start =
      (observeCommandWithCwd o (afterObservations run start)).2 := by
  unfold afterObservations
  rw [List.foldl_append]
  rfl

/-- Whatever the history holds was loaded or comes from an observed line. -/
theorem history_loaded_or_from {entry : HistoryEntry}
    (h : entry ∈ (afterObservations run start).history) :
    (∃ e ∈ start.history, e.command = entry.command ∧ e.cwd = entry.cwd) ∨
      ∃ line, HistoryFrom start run entry line := by
  induction run using List.reverseRecOn generalizing entry with
  | nil => exact Or.inl ⟨entry, h, rfl, rfl⟩
  | append_singleton run o ih =>
    rw [afterObservations_concat] at h
    rcases observe_history h with ⟨e, he, hcommand, hcwd⟩ | ⟨recorded, transition, hpassed, hkey⟩
    · rcases ih he with ⟨e', he', hcommand', hcwd'⟩ | ⟨line, hfrom⟩
      · exact Or.inl ⟨e', he', hcommand'.trans hcommand, hcwd'.trans hcwd⟩
      · obtain ⟨earlier, p, later, recorded, transition, hrun, hline, hpassed, hkey⟩ :=
          hfrom.concat o
        exact Or.inr ⟨line, earlier, p, later, recorded, transition, hrun, hline, hpassed,
          hkey.1.trans hcommand, hkey.2.trans hcwd⟩
    · exact Or.inr ⟨o.line, run, o, [], recorded, transition, rfl, rfl, hpassed, hkey⟩

theorem transitions_loaded_or_from {entry : TransitionEntry}
    (h : entry ∈ (afterObservations run start).transitions) :
    (∃ e ∈ start.transitions, e.previous = entry.previous ∧ e.next = entry.next ∧
        e.cwd = entry.cwd) ∨
      ∃ line, TransitionFrom start run entry line := by
  induction run using List.reverseRecOn generalizing entry with
  | nil => exact Or.inl ⟨entry, h, rfl, rfl, rfl⟩
  | append_singleton run o ih =>
    rw [afterObservations_concat] at h
    rcases observe_transitions h with ⟨e, he, hprevious, hnext, hcwd⟩ |
      ⟨recorded, transition, hpassed, hkey⟩
    · rcases ih he with ⟨e', he', hprevious', hnext', hcwd'⟩ | ⟨line, hfrom⟩
      · exact Or.inl ⟨e', he', hprevious'.trans hprevious, hnext'.trans hnext, hcwd'.trans hcwd⟩
      · obtain ⟨earlier, p, later, recorded, transition, hrun, hline, hpassed, hkey⟩ :=
          hfrom.concat o
        exact Or.inr ⟨line, earlier, p, later, recorded, transition, hrun, hline, hpassed,
          hkey.1.trans hprevious, hkey.2.1.trans hnext, hkey.2.2.trans hcwd⟩
    · exact Or.inr ⟨o.line, run, o, [], recorded, transition, rfl, Or.inl rfl, hpassed, hkey⟩

end Entries

section Runs

variable {start : Learned} {run : List Observation}

theorem eachKeepsPrivate_iff (p : Option Observation) (run : List Observation) :
    EachKeepsPrivate p run ↔ ∀ earlier o later, run = earlier ++ o :: later →
      KeepsPrivate (earlier.getLast?.or p) o := by
  induction run generalizing p with
  | nil =>
    refine iff_of_true trivial fun earlier o later h => ?_
    simp at h
  | cons first rest ih =>
    unfold EachKeepsPrivate
    rw [ih]
    constructor
    · rintro ⟨hfirst, hrest⟩ earlier o later hrun
      cases earlier with
      | nil =>
        obtain ⟨rfl, -⟩ := List.cons.inj hrun
        exact hfirst
      | cons head tail =>
        obtain ⟨rfl, hrun'⟩ := List.cons.inj hrun
        have h := hrest tail o later hrun'
        cases tail with
        | nil => exact h
        | cons second more =>
          rw [List.getLast?_cons_cons]
          rw [List.getLast?_eq_some_getLast (List.cons_ne_nil second more)] at h ⊢
          exact h
    · intro h
      refine ⟨h [] first rest rfl, fun earlier o later hrun => ?_⟩
      have hkeeps := h (first :: earlier) o later (by rw [hrun]; rfl)
      cases earlier with
      | nil => exact hkeeps
      | cons second more =>
        rw [List.getLast?_cons_cons] at hkeeps
        rw [List.getLast?_eq_some_getLast (List.cons_ne_nil second more)] at hkeeps ⊢
        exact hkeeps

theorem neverLearned_iff_passedOn : NeverLearned start run ↔
    ∀ earlier o later, run = earlier ++ o :: later → ∀ recorded transition,
      passedOn start earlier o = some (recorded, transition) →
        ¬ PrivateLine o.line ∧
        (transition ≠ none → ∀ p, earlier.getLast? = some p → ¬ PrivateLine p.line) := by
  constructor
  · intro hnever earlier o later hrun recorded transition hpassed
    constructor
    · intro hprivate
      exact (hnever o.line hprivate).1 recorded
        ⟨earlier, o, later, recorded, transition, hrun, rfl, hpassed, rfl, rfl⟩
    · intro hsome p hlast hprivate
      obtain ⟨entry, rfl⟩ := Option.ne_none_iff_exists'.mp hsome
      exact (hnever p.line hprivate).2 entry
        ⟨earlier, o, later, recorded, entry, hrun, Or.inr ⟨p, hlast, rfl⟩, hpassed, rfl, rfl, rfl⟩
  · intro hpassed line hprivate
    constructor
    · rintro entry ⟨earlier, o, later, recorded, transition, hrun, rfl, hfrom, -⟩
      exact (hpassed earlier o later hrun recorded transition hfrom).1 hprivate
    · rintro entry ⟨earlier, o, later, recorded, transition, hrun, hline, hfrom, -⟩
      obtain ⟨hpublic, hbefore⟩ := hpassed earlier o later hrun recorded _ hfrom
      rcases hline with rfl | ⟨p, hlast, rfl⟩
      · exact hpublic hprivate
      · exact hbefore (by simp) p hlast hprivate

/-- No private line is learned in a run exactly when each of its observations keeps the
private lines out. -/
theorem neverLearned_iff_eachKeepsPrivate (history : List HistoryEntry)
    (transitions : List TransitionEntry) (run : List Observation) :
    NeverLearned (.loaded history transitions) run ↔ EachKeepsPrivate none run := by
  rw [neverLearned_iff_passedOn, eachKeepsPrivate_iff]
  have hstep : ∀ earlier o, KeepsPrivate (earlier.getLast?.or none) o ↔ ∀ recorded transition,
      passedOn (.loaded history transitions) earlier o = some (recorded, transition) →
        ¬ PrivateLine o.line ∧
        (transition ≠ none → ∀ p, earlier.getLast? = some p → ¬ PrivateLine p.line) := by
    intro earlier o
    rw [Option.or_none]
    exact keepsPrivate_iff rfl
  simp only [hstep]

/-- A password on the command line of `curl` is learned when the output is piped. -/
def curlPiped : Observation :=
  ⟨"curl -u me:pw https://host/x | jq".toList, 0, 1, "/"⟩

theorem piped_credentials_are_learned :
    ¬ ∀ (history : List HistoryEntry) (transitions : List TransitionEntry)
      (run : List Observation), NeverLearned (.loaded history transitions) run := by
  intro h
  have hprivate : PrivateLine curlPiped.line :=
    Or.inr ⟨"curl -u me:pw https://host/x".toList, by decide +kernel, by decide +kernel⟩
  apply (h [] [] [curlPiped] curlPiped.line hprivate).1 ⟨curlPiped.line, "/", 1, 1⟩
  refine ⟨[], curlPiped, [], ⟨curlPiped.line, "/", 1, 1⟩, none, rfl, rfl, ?_, rfl, rfl⟩
  decide +kernel

/-- A command that was hidden by a leading blank becomes the first half of a transition. -/
example : ∃ transition, passedOn (.loaded [] []) [⟨" git status".toList, 0, 1, "/"⟩]
    ⟨"make".toList, 0, 2, "/"⟩ = some (⟨"make".toList, "/", 1, 2⟩, some transition) ∧
      String.ofList transition.previous = "git status" :=
  ⟨⟨"git status".toList, "make".toList, "/", 1, 2⟩, by decide +kernel, by decide +kernel⟩

end Runs

end BashGuess
