import SynOSStudio.BuildTools.BuildStatus
import SynOSStudio.KeyedLists.TrailingRuns

/-!
# Since when a state holds

The updates of one entry and base over any number of attempts, with the whole sequence of their
outcomes beside the file, of which the history of the record keeps the last ones only.
-/

namespace BuildTools.BuildStatus

open KeyedLists

inductive Update
  | queue (now : String)
  | test (now : String)
  | finish (now : String) (result : Result)
  | resolve (now : String)

/-- The file and every outcome of the entry and base, oldest first. -/
structure Tracked where
  file : StatusFile
  outcomes : List HistoryEntry

section Runs

variable (key : Key) (s : Tracked)

/-- The outcome that is recorded for an attempt that was interrupted. -/
def BaseRecord.interruption (now : String) (record : BaseRecord) : HistoryEntry :=
  ⟨now, .failed, record.engine, record.suite, none, none, some .interrupted⟩

def Tracked.step : Update → Tracked
  | .queue now => { s with file := (markQueued now s.file key).1 }
  | .test now => { s with file := (markTesting now s.file key).1 }
  | .finish now result =>
    ⟨(applyResult now s.file key result).1, s.outcomes ++ [result.history now]⟩
  | .resolve now =>
    ⟨(resolveStuckTesting now s.file).1, s.outcomes ++
      (((s.file.lookup key).filter fun record => record.state = .testing).map
        (BaseRecord.interruption now)).toList⟩

/-- The documented rule for `since` and `history`. -/
structure BaseRecord.Right (outcomes : List HistoryEntry) (record : BaseRecord) : Prop where
  history : record.history = outcomes.rtake historyLimit
  since : record.state ≠ .queued → record.state ≠ .testing →
    ∃ first, runStart HistoryEntry.state record.state outcomes = some first ∧
      record.since = some first.date

/-- What an update may do. -/
structure StepRight (update : Update) : Prop where
  others : ∀ other ≠ key, (s.step key update).file.lookup other = s.file.lookup other
  live : ∀ now, update = .queue now ∨ update = .test now →
    ∀ record, s.file.lookup key = some record →
      ∃ after, (s.step key update).file.lookup key = some after ∧
        after.since = record.since ∧ after.history = record.history
  changed : ∀ now result, update = .finish now result →
    ((applyResult now s.file key result).2 = true ↔
      s.outcomes.getLast?.map HistoryEntry.state ≠ some (mapState result.status))
  record : ∀ record, (s.step key update).file.lookup key = some record →
    record.Right (s.step key update).outcomes

/-- Every update of the run does what it may, and every record that is reached is right. -/
def RunRight : Tracked → List Update → Prop
  | _, [] => True
  | s, update :: updates => StepRight key s update ∧ RunRight (s.step key update) updates

/-- No other record is left in `testing` when the interrupted attempts are resolved, and the
attempt that is resolved does not go on with a run of failures that began on another date. -/
def Unmixed (s : Tracked) : Update → Prop
  | .resolve now =>
    (∀ other ≠ key, ∀ record, s.file.lookup other = some record → record.state ≠ .testing) ∧
      ∀ record, s.file.lookup key = some record → record.state = .testing →
        ∀ first, runStart HistoryEntry.state .failed s.outcomes = some first → first.date = now
  | _ => True

def RunUnmixed : Tracked → List Update → Prop
  | _, [] => True
  | s, update :: updates => Unmixed key s update ∧ RunUnmixed (s.step key update) updates

/-- The invariant: also while an attempt is queued or tested, the record has the start of the
run at the end of the outcomes. -/
structure Tracked.Sound : Prop where
  unrecorded : s.file.lookup key = none → s.outcomes = []
  right : ∀ record, s.file.lookup key = some record → record.Right s.outcomes
  dated : ∀ record, s.file.lookup key = some record → record.since ≠ none
  follows : ∀ record, s.file.lookup key = some record → ∀ last ∈ s.outcomes.getLast?,
    ∃ first, runStart HistoryEntry.state last.state s.outcomes = some first ∧
      record.since = some first.date

end Runs

section Steps

variable {key other : Key} {s : Tracked} {now : String} {state : State} {result : Result}

theorem bounded_eq_rtake (history : List HistoryEntry) :
    bounded history = history.rtake historyLimit := rfl

theorem lookup_mark_self :
    (mark now state s.file key).1.lookup key = some (.live now state (s.file.lookup key)) :=
  AList.lookup_insert s.file

/-- A mark moves the live state and the date of a record, and nothing else. -/
theorem live_some {record : BaseRecord} (h : record.since ≠ none) :
    BaseRecord.live now state (some record) = { record with state := state, date := now } := by
  obtain ⟨since, hsince⟩ := Option.ne_none_iff_exists'.mp h
  simp [BaseRecord.live, hsince]

/-- What is on record of the last attempt is the last outcome. -/
theorem Tracked.Sound.finalState_eq (h : s.Sound key) :
    finalState (s.file.lookup key) = s.outcomes.getLast?.map HistoryEntry.state := by
  cases hlookup : s.file.lookup key with
  | none => rw [h.unrecorded hlookup]; rfl
  | some record =>
    have hhistory := (h.right record hlookup).history
    simp only [finalState, Option.bind_some]
    rw [hhistory, historyLimit, getLast?_rtake]

/-- What a mark leaves of a record that there is. -/
theorem mark_keeps (h : s.Sound key) {record : BaseRecord}
    (hrecord : s.file.lookup key = some record) :
    (mark now state s.file key).1.lookup key =
      some { record with state := state, date := now } := by
  rw [lookup_mark_self, hrecord, live_some (h.dated record hrecord)]

theorem Tracked.Sound.mark (h : s.Sound key) (hstate : state = .queued ∨ state = .testing) :
    Tracked.Sound key ⟨(mark now state s.file key).1, s.outcomes⟩ := by
  have hlive {after : BaseRecord} (hafter : after.state = state) :
      ¬ (after.state ≠ .queued ∧ after.state ≠ .testing) := by
    rw [hafter]
    exact fun hne => hstate.elim hne.1 hne.2
  cases hlookup : s.file.lookup key with
  | none =>
    have houtcomes := h.unrecorded hlookup
    have hafter : (BuildStatus.mark now state s.file key).1.lookup key =
        some (.live now state none) := by
      rw [lookup_mark_self, hlookup]
    constructor
    · exact fun _ => houtcomes
    · intro after heq
      obtain rfl := Option.some.inj (hafter.symm.trans heq)
      exact ⟨by rw [houtcomes]; rfl, fun hqueued htesting =>
        absurd ⟨hqueued, htesting⟩ (hlive rfl)⟩
    · intro after heq
      obtain rfl := Option.some.inj (hafter.symm.trans heq)
      exact Option.some_ne_none now
    · intro _ _ last hlast
      rw [houtcomes] at hlast
      cases hlast
  | some record =>
    have hafter := @mark_keeps key s now state h _ hlookup
    constructor
    · exact fun hnone => absurd (hafter.symm.trans hnone) (Option.some_ne_none _)
    · intro after heq
      obtain rfl := Option.some.inj (hafter.symm.trans heq)
      exact ⟨(h.right record hlookup).history, fun hqueued htesting =>
        absurd ⟨hqueued, htesting⟩ (hlive rfl)⟩
    · intro after heq
      obtain rfl := Option.some.inj (hafter.symm.trans heq)
      exact h.dated record hlookup
    · intro after heq
      obtain rfl := Option.some.inj (hafter.symm.trans heq)
      exact h.follows record hlookup

/-- A record that is right and real also has the start of the run while it is marked. -/
theorem sound_of_right {last : HistoryEntry} {record : BaseRecord}
    (hlookup : s.file.lookup key = some record) (hlast : s.outcomes.getLast? = some last)
    (hstate : record.state = last.state)
    (hreal : record.state ≠ .queued ∧ record.state ≠ .testing)
    (hright : record.Right s.outcomes) : s.Sound key := by
  obtain ⟨first, hstart, hsince⟩ := hright.since hreal.1 hreal.2
  have hunique {other : BaseRecord} (hother : s.file.lookup key = some other) : other = record :=
    Option.some.inj (hother.symm.trans hlookup)
  constructor
  · exact fun hnone => absurd (hlookup.symm.trans hnone) (Option.some_ne_none _)
  · exact fun other hother => hunique hother ▸ hright
  · intro other hother
    rw [hunique hother, hsince]
    exact Option.some_ne_none _
  · intro other hother final hfinal
    rw [hlast, Option.mem_some_iff] at hfinal
    rw [hunique hother, ← hfinal, ← hstate]
    exact ⟨first, hstart, hsince⟩

/-- An outcome begins a run of its own unless it repeats the last one. -/
theorem Tracked.Sound.record_right (h : s.Sound key) :
    (result.record now (s.file.lookup key)).Right (s.outcomes ++ [result.history now]) := by
  constructor
  · have hprevious : ((s.file.lookup key).map BaseRecord.history).getD [] =
        s.outcomes.rtake historyLimit := by
      cases hlookup : s.file.lookup key with
      | none => rw [h.unrecorded hlookup]; rfl
      | some record => exact (h.right record hlookup).history
    show bounded (_ ++ [result.history now]) = _
    rw [hprevious, bounded_eq_rtake, rtake_rtake_concat]
  · intro _ _
    have hsince : (result.record now (s.file.lookup key)).since =
        if finalState (s.file.lookup key) = some (mapState result.status) then
          some (((s.file.lookup key).bind BaseRecord.since).getD (result.date now))
        else some (result.date now) := rfl
    have hstate : (result.record now (s.file.lookup key)).state = mapState result.status := rfl
    have houtcome : (result.history now).state = mapState result.status := rfl
    rw [hsince, hstate, h.finalState_eq, runStart_concat_of_eq houtcome]
    split
    · rename_i hsame
      obtain ⟨last, hlast, hlastState⟩ := Option.map_eq_some_iff.mp hsame
      cases hlookup : s.file.lookup key with
      | none =>
        rw [h.unrecorded hlookup] at hlast
        cases hlast
      | some record =>
        obtain ⟨first, hstart, hfirst⟩ := h.follows record hlookup last hlast
        rw [hlastState] at hstart
        exact ⟨first, by rw [hstart]; rfl, by simp [hfirst]⟩
    · rename_i hother
      exact ⟨result.history now, by rw [runStart_eq_none hother]; rfl, rfl⟩

theorem resolved_of_testing {record : BaseRecord} (h : record.state = .testing) :
    record.resolved now = { record with
      state := .failed
      date := now
      since := some now
      error := some .interrupted
      history := bounded (record.history ++ [record.interruption now]) } := if_pos h

theorem resolved_of_other {record : BaseRecord} (h : record.state ≠ .testing) :
    record.resolved now = record := if_neg h

/-- An interrupted attempt has the date of its resolution, which is right unless it goes on with
a run of failures. -/
theorem Tracked.Sound.resolved_right_iff (h : s.Sound key) {record : BaseRecord}
    (hrecord : s.file.lookup key = some record) (htesting : record.state = .testing) :
    (record.resolved now).Right (s.outcomes ++ [record.interruption now]) ↔
      ∀ first, runStart HistoryEntry.state .failed s.outcomes = some first → first.date = now := by
  have hstart : runStart HistoryEntry.state .failed (s.outcomes ++ [record.interruption now]) =
      (runStart HistoryEntry.state .failed s.outcomes).or (some (record.interruption now)) :=
    runStart_concat_of_eq rfl
  have hhistory : bounded (record.history ++ [record.interruption now]) =
      (s.outcomes ++ [record.interruption now]).rtake historyLimit := by
    rw [(h.right record hrecord).history, bounded_eq_rtake, rtake_rtake_concat]
  rw [resolved_of_testing htesting]
  constructor
  · intro hright first hfirst
    obtain ⟨other, hother, hnow⟩ := hright.since nofun nofun
    have hdate : some now = some other.date := hnow
    rw [hstart, hfirst] at hother
    rw [Option.some.inj hother, Option.some.inj hdate]
  · intro hfirst
    refine ⟨hhistory, fun _ _ => ?_⟩
    rw [hstart]
    cases hfailures : runStart HistoryEntry.state .failed s.outcomes with
    | none => exact ⟨record.interruption now, rfl, rfl⟩
    | some first => exact ⟨first, rfl, congrArg some (hfirst first hfailures).symm⟩

theorem lookup_resolve (k : Key) : (s.step key (.resolve now)).file.lookup k =
    (s.file.lookup k).map (BaseRecord.resolved now) :=
  lookup_mapRecords _

theorem outcomes_resolve_of_testing {record : BaseRecord}
    (hrecord : s.file.lookup key = some record) (htesting : record.state = .testing) :
    (s.step key (.resolve now)).outcomes = s.outcomes ++ [record.interruption now] := by
  simp [Tracked.step, hrecord, Option.filter, htesting]

theorem outcomes_resolve_of_other
    (h : ∀ record, s.file.lookup key = some record → record.state ≠ .testing) :
    (s.step key (.resolve now)).outcomes = s.outcomes := by
  cases hlookup : s.file.lookup key with
  | none => simp [Tracked.step, hlookup]
  | some record => simp [Tracked.step, hlookup, Option.filter, h record hlookup]

theorem resolved_eq_iff {record : BaseRecord} :
    record.resolved now = record ↔ record.state ≠ .testing := by
  constructor
  · intro heq htesting
    exact @resolved_state now record (heq.symm ▸ htesting)
  · exact resolved_of_other

theorem others_mark (h : other ≠ key) :
    (mark now state s.file key).1.lookup other = s.file.lookup other :=
  AList.lookup_insert_ne h

theorem lookup_finish_self : (s.step key (.finish now result)).file.lookup key =
    some (result.record now (s.file.lookup key)) :=
  AList.lookup_insert s.file

theorem applyResult_changed : (applyResult now s.file key result).2 = true ↔
    finalState (s.file.lookup key) ≠ some (mapState result.status) :=
  decide_eq_true_iff

/-- A mark does all that it may. -/
theorem Tracked.Sound.mark_stepRight (h : s.Sound key) {update : Update}
    (hstep : s.step key update = ⟨(BuildStatus.mark now state s.file key).1, s.outcomes⟩)
    (hstate : state = .queued ∨ state = .testing)
    (hfinish : ∀ now result, update ≠ .finish now result) :
    StepRight key s update where
  others other hne := by rw [hstep]; exact others_mark hne
  live _ _ record hrecord := by
    rw [hstep]
    exact ⟨_, mark_keeps h hrecord, rfl, rfl⟩
  changed now result heq := absurd heq (hfinish now result)
  record := by
    rw [hstep]
    exact (h.mark hstate).right

theorem Tracked.Sound.finish (h : s.Sound key) : (s.step key (.finish now result)).Sound key :=
  sound_of_right lookup_finish_self List.getLast?_concat rfl (mapState_final result.status)
    h.record_right

theorem Tracked.Sound.finish_stepRight (h : s.Sound key) :
    StepRight key s (.finish now result) where
  others _ hne := AList.lookup_insert_ne hne
  live _ heq := absurd heq (by simp)
  changed _ _ heq := by
    cases heq
    rw [applyResult_changed, h.finalState_eq]
  record := h.finish.right

theorem Tracked.Sound.resolve_others_iff :
    (∀ other ≠ key, (s.step key (.resolve now)).file.lookup other = s.file.lookup other) ↔
      ∀ other ≠ key, ∀ record, s.file.lookup other = some record → record.state ≠ .testing := by
  refine forall₂_congr fun other _ => ?_
  rw [lookup_resolve]
  cases hlookup : s.file.lookup other with
  | none => simp
  | some record => simpa using resolved_eq_iff

theorem Tracked.Sound.resolve_stepRight_iff (h : s.Sound key) :
    StepRight key s (.resolve now) ↔ Unmixed key s (.resolve now) := by
  have hrecord : (∀ record, (s.step key (.resolve now)).file.lookup key = some record →
      record.Right (s.step key (.resolve now)).outcomes) ↔
      ∀ record, s.file.lookup key = some record → record.state = .testing →
        ∀ first, runStart HistoryEntry.state .failed s.outcomes = some first →
          first.date = now := by
    rw [lookup_resolve]
    cases hlookup : s.file.lookup key with
    | none => simp
    | some record =>
      by_cases htesting : record.state = .testing
      · rw [outcomes_resolve_of_testing hlookup htesting]
        simpa [htesting] using h.resolved_right_iff hlookup htesting
      · have hother : ∀ other, s.file.lookup key = some other → other.state ≠ .testing := by
          rw [hlookup]
          rintro _ ⟨⟩
          exact htesting
        rw [outcomes_resolve_of_other hother]
        simpa [htesting, resolved_of_other htesting] using h.right record hlookup
  constructor
  · exact fun hright => ⟨Sound.resolve_others_iff.mp hright.others, hrecord.mp hright.record⟩
  · exact fun hunmixed =>
      ⟨Sound.resolve_others_iff.mpr hunmixed.1, fun _ heq => absurd heq (by simp),
        fun _ _ heq => (nomatch heq), hrecord.mpr hunmixed.2⟩

theorem Tracked.Sound.of_eq (h : s.Sound key) {after : Tracked}
    (hfile : after.file.lookup key = s.file.lookup key) (houtcomes : after.outcomes = s.outcomes) :
    after.Sound key := by
  constructor
  · rw [hfile, houtcomes]
    exact h.unrecorded
  · rw [hfile, houtcomes]
    exact h.right
  · rw [hfile]
    exact h.dated
  · rw [hfile, houtcomes]
    exact h.follows

theorem Tracked.Sound.resolve (h : s.Sound key) (hright : StepRight key s (.resolve now)) :
    (s.step key (.resolve now)).Sound key := by
  by_cases htesting : ∃ record, s.file.lookup key = some record ∧ record.state = .testing
  · obtain ⟨record, hlookup, htesting⟩ := htesting
    have hafter : (s.step key (.resolve now)).file.lookup key = some (record.resolved now) := by
      rw [lookup_resolve, hlookup]
      rfl
    have houtcomes : (s.step key (.resolve now)).outcomes =
        s.outcomes ++ [record.interruption now] := outcomes_resolve_of_testing hlookup htesting
    have hfailed : (record.resolved now).state = .failed := by rw [resolved_of_testing htesting]
    have hlast : (s.step key (.resolve now)).outcomes.getLast? =
        some (record.interruption now) := by
      rw [houtcomes, List.getLast?_concat]
    have hreal : (record.resolved now).state ≠ .queued ∧
        (record.resolved now).state ≠ .testing := by
      rw [hfailed]
      exact ⟨nofun, nofun⟩
    exact sound_of_right hafter hlast hfailed hreal (hright.record _ hafter)
  · have hother : ∀ record, s.file.lookup key = some record → record.state ≠ .testing :=
      fun record hlookup heq => htesting ⟨record, hlookup, heq⟩
    refine h.of_eq ?_ (outcomes_resolve_of_other hother)
    rw [lookup_resolve]
    cases hlookup : s.file.lookup key with
    | none => rfl
    | some record => exact congrArg some (resolved_of_other (hother record hlookup))

theorem step_queue : s.step key (.queue now) =
    ⟨(mark now .queued s.file key).1, s.outcomes⟩ := rfl

theorem step_test : s.step key (.test now) =
    ⟨(mark now .testing s.file key).1, s.outcomes⟩ := rfl

/-- An update of a sound record does what it may just when it is not mixed up with another
attempt, and the record is then sound again. -/
theorem Tracked.Sound.stepRight_iff (h : s.Sound key) (update : Update) :
    StepRight key s update ↔ Unmixed key s update := by
  cases update with
  | queue now =>
    exact iff_of_true (h.mark_stepRight step_queue (.inl rfl) (fun _ _ => nofun)) trivial
  | test now =>
    exact iff_of_true (h.mark_stepRight step_test (.inr rfl) (fun _ _ => nofun)) trivial
  | finish now result => exact iff_of_true h.finish_stepRight trivial
  | resolve now => exact h.resolve_stepRight_iff

theorem Tracked.Sound.step (h : s.Sound key) {update : Update} (hright : StepRight key s update) :
    (s.step key update).Sound key := by
  cases update with
  | queue now =>
    rw [step_queue]
    exact h.mark (.inl rfl)
  | test now =>
    rw [step_test]
    exact h.mark (.inr rfl)
  | finish now result => exact h.finish
  | resolve now => exact h.resolve hright

theorem Tracked.Sound.runRight_iff (updates : List Update) :
    ∀ {s : Tracked}, s.Sound key → (RunRight key s updates ↔ RunUnmixed key s updates) := by
  induction updates with
  | nil => exact fun _ => Iff.rfl
  | cons update updates ih =>
    intro s h
    constructor
    · exact fun ⟨hright, hrest⟩ =>
        ⟨(h.stepRight_iff update).mp hright, (ih (h.step hright)).mp hrest⟩
    · intro ⟨hunmixed, hrest⟩
      have hright := (h.stepRight_iff update).mpr hunmixed
      exact ⟨hright, (ih (h.step hright)).mpr hrest⟩

/-- Over a whole run, however much of it the history has lost, the only updates that break the
rule for `since` are the resolutions that go on with a run of failures or that find another entry
or base in `testing`. -/
theorem since_follows_the_rule_iff {file : StatusFile} (h : file.lookup key = none)
    (updates : List Update) :
    RunRight key ⟨file, []⟩ updates ↔ RunUnmixed key ⟨file, []⟩ updates := by
  refine Tracked.Sound.runRight_iff updates ⟨fun _ => rfl, ?_, ?_, ?_⟩
  all_goals
    intro record hrecord
    cases h.symm.trans hrecord

end Steps

/-- An attempt with nothing on record of it but how it ended. -/
def attempt (status : Status) («end» : String) : Result :=
  ⟨some "trixie", none, "live-build", "", some «end», none, status, none, none, none, none⟩

def workstation : Key := ("workstation", "trixie")

theorem interrupted_after_success : RunRight workstation ⟨∅, []⟩
    [.finish "2026-07-02" (attempt .success "2026-07-01"), .test "2026-07-02",
      .resolve "2026-07-03"] := by
  refine (since_follows_the_rule_iff rfl _).mpr ⟨trivial, trivial, ⟨?_, ?_⟩, trivial⟩
  · intro other hne record hrecord
    have hfinished := (others_mark hne).symm.trans hrecord
    cases (AList.lookup_insert_ne hne).symm.trans hfinished
  · intro _ _ _ first hfirst
    cases hfirst

/-- The bundle fails on the first of July and is still failing when the interrupted attempt is
resolved the day after, but since the day after. -/
theorem interrupted_after_failure : ¬ RunRight workstation ⟨∅, []⟩
    [.finish "2026-07-01" (attempt .failed "2026-07-01"), .test "2026-07-02",
      .resolve "2026-07-02"] := by
  rintro ⟨_, _, hresolve, _⟩
  obtain ⟨first, hfirst, hsince⟩ := (hresolve.record _ rfl).since nofun nofun
  cases hfirst
  revert hsince
  decide

end BuildTools.BuildStatus
