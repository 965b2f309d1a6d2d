import SynOSStudio.BuildTools.MatrixLedger

/-!
# The status files of the build matrix

What `build_status_data` derives from the report and how the two status files follow it
from write to write, over every run in which each target that finishes is the last
catalogued one to do so.
-/

namespace BuildTools.BuildMatrix

/-! ## The entries -/

theorem insert_apply (data : StatusFile) (target : Target) (entry : Option Entry) (id : String) :
    data.insert target entry id = if id = target.id then entry.or (data id) else data id := by
  cases entry with
  | none => simp [StatusFile.insert]
  | some entry =>
    by_cases hid : id = target.id
    · simp [StatusFile.insert, hid]
    · simp [StatusFile.insert, hid]

theorem foldlM_entries {report : Report} {entryOf : Target → Option Entry} (targets : List Target)
    (hids : (targets.map Target.id).Nodup)
    (h : ∀ target ∈ targets, statusEntry report target = .ok (entryOf target))
    (data : StatusFile) :
    targets.foldlM
      (fun data target => (statusEntry report target).map fun entry => data.insert target entry)
      data = .ok fun id =>
        ((targets.find? fun target => target.id = id).bind entryOf).or (data id) := by
  induction targets generalizing data with
  | nil => rfl
  | cons target targets ih =>
    rw [List.map_cons, List.nodup_cons] at hids
    rw [List.foldlM_cons, h target List.mem_cons_self]
    refine (ih hids.2 (fun other hother => h other (List.mem_cons_of_mem target hother)) _).trans ?_
    congr 1
    funext id
    simp only [insert_apply, List.find?_cons]
    by_cases hid : target.id = id
    · have hnone : (targets.find? fun other => other.id = id) = none :=
        find?_id_none fun other hother heq =>
          hids.1 (List.mem_map.mpr ⟨other, hother, heq.trans hid.symm⟩)
      simp [hnone, hid]
    · simp [hid, Ne.symm hid]

/-- What `build_status_data` makes of entries that it can all derive. -/
theorem buildStatusData_eq {report : Report} {entryOf : Target → Option Entry}
    {targets : List Target} (hids : (targets.map Target.id).Nodup)
    (h : ∀ target ∈ targets, statusEntry report target = .ok (entryOf target)) :
    buildStatusData targets report = .ok fun id =>
      (targets.find? fun target => target.id = id).bind entryOf := by
  refine (foldlM_entries targets hids h _).trans ?_
  simp only [Option.or_none]

/-- The last attempt on a target that has finished: in this run, or the one that the target
is skipped for. -/
def Plan.lastFinished (plan : Plan) (finished : Report) (target : Target) : Option Record :=
  if target ∈ plan.toRun then finished target.id else plan.loadedReport target.id

def Record.entry : Record → Option Entry
  | .full record => some record.entry
  | .crash _ _ _ => none

/-- The entries that the catalogued targets have earned. -/
def Plan.statusData (plan : Plan) (finished : Report) : StatusFile := fun id =>
  (plan.targets.find? fun target => target.id = id).bind fun target =>
    if target.kind = .catalog then (plan.lastFinished finished target).bind Record.entry else none

/-- An entry tells of a record. -/
def Carries : Record → Entry → Prop
  | .full record, entry => entry = record.entry
  | .crash _ status _, entry => entry.result = status

/-- A status file has the entry of the last finished attempt, and without one what it had. -/
def Shows (file before : StatusFile) (target : Target) : Option Record → Prop
  | some record => ∃ entry, file target.id = some entry ∧ Carries record entry
  | none => file target.id = before target.id

structure FilesExact {jobs : ℕ} (plan : Plan) (earlier : StatusFile) (m : Run jobs) : Prop where
  buildStatus : ∀ target ∈ plan.targets, target.kind = .catalog →
    Shows m.buildStatus (fun _ => none) target (plan.lastFinished m.finished target)
  catalogStatus : plan.updateCatalogStatusFile = true → ∀ target ∈ plan.targets,
    target.kind = .catalog →
      Shows m.catalogStatus earlier target (plan.lastFinished m.finished target)
  others : ∀ id, (∀ target ∈ plan.targets, target.kind = .catalog → target.id ≠ id) →
    m.buildStatus id = none ∧ m.catalogStatus id = earlier id
  untouched : plan.updateCatalogStatusFile = false → m.catalogStatus = earlier

/-! ## The writes -/

section Files

variable {jobs : ℕ} {plan : Plan} {earlierStatus earlier : StatusFile} {m m' : Run jobs}

/-- What the tracked file is to hold. -/
def Plan.catalogData (plan : Plan) (earlier : StatusFile) (finished : Report) : StatusFile :=
  if plan.updateCatalogStatusFile = true then merge earlier (plan.statusData finished) else earlier

/-- The tracked file before its write: it differs from what it was only where there is an
entry to write. -/
structure Stale (plan : Plan) (earlier : StatusFile) (m : Run jobs) : Prop where
  off : plan.updateCatalogStatusFile = false → m.catalogStatus = earlier
  kept : ∀ id, plan.statusData m.finished id = none → m.catalogStatus id = earlier id

/-- The two files have the entries of every target that has finished. -/
structure Written (plan : Plan) (earlier : StatusFile) (m : Run jobs) : Prop where
  buildStatus : m.buildStatus = plan.statusData m.finished
  catalogStatus : m.catalogStatus = plan.catalogData earlier m.finished

/-- The files at each point of the callback. -/
def FilesAt (plan : Plan) (earlierStatus earlier : StatusFile) (m : Run jobs) :
    Option Callback → Prop
  | none =>
    ((∀ id, m.finished id = none) ∧ m.buildStatus = earlierStatus ∧ m.catalogStatus = earlier) ∨
      ((∃ id, m.finished id ≠ none) ∧ Written plan earlier m)
  | some .deriving => Stale plan earlier m
  | some (.writingStatus data) => data = plan.statusData m.finished ∧ Stale plan earlier m
  | some .merging =>
    plan.updateCatalogStatusFile = true ∧ m.buildStatus = plan.statusData m.finished ∧
      Stale plan earlier m
  | some (.writingCatalog merged) =>
    plan.updateCatalogStatusFile = true ∧ m.buildStatus = plan.statusData m.finished ∧
      merged = plan.catalogData earlier m.finished
  | some .leaving => Written plan earlier m

theorem Written.stale (h : Written plan earlier m) : Stale plan earlier m := by
  constructor
  · intro hoff
    simp [h.catalogStatus, Plan.catalogData, hoff]
  · intro id hid
    rw [h.catalogStatus]
    unfold Plan.catalogData
    split
    · simp [merge, hid]
    · rfl

/-- The files do not depend on the workers outside of their callback. -/
theorem FilesAt.work {callback : Option Callback} (h : FilesAt plan earlierStatus earlier m callback)
    (pool : Pool Target String Attempt jobs) :
    FilesAt plan earlierStatus earlier { m with pool := pool } callback := by
  match callback, h with
  | none, .inl h => exact Or.inl h
  | none, .inr ⟨hsome, h⟩ => exact Or.inr ⟨hsome, h.buildStatus, h.catalogStatus⟩
  | some .deriving, h => exact ⟨h.off, h.kept⟩
  | some (.writingStatus _), h => exact ⟨h.1, h.2.off, h.2.kept⟩
  | some .merging, h => exact ⟨h.1, h.2.1, h.2.2.off, h.2.2.kept⟩
  | some (.writingCatalog _), h => exact h
  | some .leaving, h => exact ⟨h.buildStatus, h.catalogStatus⟩

/-- A merge over a stale file gives what a merge over the first one would. -/
theorem Stale.merge (h : Stale plan earlier m) (hon : plan.updateCatalogStatusFile = true) :
    merge m.catalogStatus (plan.statusData m.finished) = plan.catalogData earlier m.finished := by
  funext id
  simp only [Plan.catalogData, hon, if_true, BuildMatrix.merge]
  cases hid : plan.statusData m.finished id with
  | none => exact h.kept id hid
  | some entry => rfl

/-- More finished targets leave fewer without an entry. -/
theorem statusData_grows {finished finished' : Report}
    (h : ∀ id, finished id = none ∨ finished' id = finished id) {id : String}
    (hid : plan.statusData finished' id = none) : plan.statusData finished id = none := by
  unfold Plan.statusData at hid ⊢
  cases htarget : plan.targets.find? fun target => target.id = id with
  | none => rfl
  | some target =>
    rw [htarget, Option.bind_some] at hid
    rw [Option.bind_some]
    by_cases hkind : target.kind = .catalog
    · rw [if_pos hkind] at hid ⊢
      by_cases hrun : target ∈ plan.toRun
      · rw [Plan.lastFinished, if_pos hrun] at hid ⊢
        rcases h target.id with hnone | hsame
        · rw [hnone]
          rfl
        · rwa [hsame] at hid
      · rwa [Plan.lastFinished, if_neg hrun] at hid ⊢
    · rw [if_neg hkind]

/-- Once a target has finished, every entry can be derived. -/
theorem Ledger.derives (hids : (plan.targets.map Target.id).Nodup) (h : Ledger plan m)
    (hsome : ∃ id, m.finished id ≠ none) :
    buildStatusData plan.targets m.report = .ok (plan.statusData m.finished) := by
  refine buildStatusData_eq hids fun target htarget => ?_
  unfold statusEntry
  by_cases hkind : target.kind = .catalog
  · rw [if_pos hkind, if_pos hkind, h.report]
    by_cases hrun : target ∈ plan.toRun
    · obtain ⟨record, hrecord⟩ := h.catalog hsome target hrun hkind
      have hrunning : (Record.full record).status ≠ .running := by
        obtain ⟨_, _, _, _, _, hresult⟩ := h.finished _ _ hrecord
        rw [hresult]
        exact (Record.ofResult_final _ _ _).2
      simp only [hrecord, Option.some_or, if_neg hrunning, Plan.lastFinished, if_pos hrun]
      rfl
    · obtain ⟨record, hrecord, hstatus⟩ := Plan.skipped_record htarget hrun
      have hnone : m.finished target.id = none := by
        by_contra hfinished
        obtain ⟨other, hother⟩ := Option.ne_none_iff_exists'.mp hfinished
        obtain ⟨owner, howner, hid, -⟩ := h.finished _ _ hother
        have hsame : owner = target :=
          List.inj_on_of_nodup_map hids (Plan.toRun_sublist.subset howner) htarget hid
        exact hrun (hsame ▸ howner)
      have hrunning : (Record.full record).status ≠ .running := by
        show record.status ≠ .running
        rw [hstatus]
        exact nofun
      rw [hnone, Option.none_or, Plan.startReport_skipped hids htarget hrun]
      simp only [hrecord, if_neg hrunning, Plan.lastFinished, if_neg hrun]
      rfl
  · rw [if_neg hkind, if_neg hkind]

/-- A step of a run in which each target that finishes does so alone. -/
structure LoneStep (plan : Plan) (m m' : Run jobs) : Prop where
  step : Run.Step plan m m'
  lone : ∀ target ∈ plan.toRun, m.finished target.id = none → m'.finished target.id ≠ none →
    Lone plan m target

/-- The ledger with the files. -/
structure Sound (plan : Plan) (earlierStatus earlier : StatusFile) (m : Run jobs) : Prop where
  ledger : Ledger plan m
  files : FilesAt plan earlierStatus earlier m (m.callback.map Prod.snd)

theorem Sound.enter (hids : (plan.targets.map Target.id).Nodup)
    (h : Sound plan earlierStatus earlier m) {w : Fin jobs} {target : Target}
    {result : JobResult String Attempt} (hw : m.pool.workers w = .notifying target result)
    (hlock : m.callback = none)
    (hlone : ∀ other ∈ plan.toRun, m.finished other.id = none →
      (m.enter plan w target result).finished other.id ≠ none → Lone plan m other) :
    Sound plan earlierStatus earlier (m.enter plan w target result) := by
  have hfresh : m.finished target.id = none :=
    h.ledger.fresh w target result hw fun callback heq => by cases hlock.symm.trans heq
  have hnow : (m.enter plan w target result).finished target.id ≠ none := by
    simp [Run.enter]
  refine ⟨h.ledger.enter hids hw hlock
    (hlone target (h.ledger.notifying w target result hw).1 hfresh hnow), ?_⟩
  have hstale : Stale plan earlier m := by
    have hfiles := h.files
    rw [hlock] at hfiles
    rcases hfiles with ⟨-, -, hcatalog⟩ | ⟨-, hwritten⟩
    · exact ⟨fun _ => hcatalog, fun id _ => congrFun hcatalog id⟩
    · exact hwritten.stale
  show Stale plan earlier (m.enter plan w target result)
  refine ⟨hstale.off, fun id hid => hstale.kept id (statusData_grows (fun other => ?_) hid)⟩
  by_cases hother : other = target.id
  · exact Or.inl (hother ▸ hfresh)
  · exact Or.inr (Function.update_of_ne hother _ _)

theorem Sound.step (hids : (plan.targets.map Target.id).Nodup)
    (h : Sound plan earlierStatus earlier m) (hstep : LoneStep plan m m') :
    Sound plan earlierStatus earlier m' := by
  have hsome : ∀ w callback, m.callback = some (w, callback) → ∃ id, m.finished id ≠ none := by
    intro w callback hlock
    obtain ⟨target, -, -, hfinished⟩ := h.ledger.holder w callback hlock
    exact ⟨target.id, hfinished⟩
  have hfiles := h.files
  obtain ⟨hstep, hlone⟩ := hstep
  cases hstep with
  | work pool hpool hcallback => exact ⟨h.ledger.work hids hpool hcallback, hfiles.work pool⟩
  | enter w target result hw hlock halive => exact h.enter hids hw hlock hlone
  | derive w data hlock hdata =>
    rw [h.ledger.derives hids (hsome w _ hlock)] at hdata
    cases hdata
    rw [hlock] at hfiles
    exact ⟨h.ledger.goOn hlock _ _, rfl, hfiles.off, hfiles.kept⟩
  | writeStatus w data hlock =>
    rw [hlock] at hfiles
    obtain ⟨hdata, hstale⟩ := hfiles
    refine ⟨h.ledger.goOn hlock _ _, ?_⟩
    cases hflag : plan.updateCatalogStatusFile with
    | true => exact ⟨hflag, hdata, hstale.off, hstale.kept⟩
    | false =>
      refine ⟨hdata, (hstale.off hflag).trans ?_⟩
      simp [Plan.catalogData, hflag]
  | merge w data hlock hdata =>
    rw [h.ledger.derives hids (hsome w _ hlock)] at hdata
    cases hdata
    rw [hlock] at hfiles
    obtain ⟨hon, hstatus, hstale⟩ := hfiles
    exact ⟨h.ledger.goOn hlock _ _, hon, hstatus, hstale.merge hon⟩
  | writeCatalog w merged hlock =>
    rw [hlock] at hfiles
    obtain ⟨hon, hstatus, hmerged⟩ := hfiles
    exact ⟨h.ledger.goOn hlock _ _, hstatus, hmerged⟩
  | raise w callback error hlock hderives hdata =>
    rw [h.ledger.derives hids (hsome w _ hlock)] at hdata
    cases hdata
  | leave w target result hlock hw =>
    rw [hlock] at hfiles
    exact ⟨h.ledger.leave hlock hw,
      Or.inr ⟨hsome w _ hlock, hfiles.buildStatus, hfiles.catalogStatus⟩⟩

theorem Sound.run (hids : (plan.targets.map Target.id).Nodup)
    (hreach : Relation.ReflTransGen (LoneStep plan) (.start plan earlierStatus earlier) m) :
    Sound plan earlierStatus earlier m := by
  induction hreach with
  | refl => exact ⟨.start hids, Or.inl ⟨fun _ => rfl, rfl, rfl⟩⟩
  | tail _ hstep ih => exact ih.step hids hstep

/-- A catalogued target has finished, in this run or in the one before. -/
theorem Ledger.last_full (h : Ledger plan m) (hsome : ∃ id, m.finished id ≠ none)
    {target : Target} (htarget : target ∈ plan.targets) (hkind : target.kind = .catalog) :
    ∃ record, plan.lastFinished m.finished target = some (.full record) := by
  unfold Plan.lastFinished
  split
  · rename_i hrun
    exact h.catalog hsome target hrun hkind
  · rename_i hrun
    obtain ⟨record, hrecord, -⟩ := Plan.skipped_record htarget hrun
    exact ⟨record, hrecord⟩

theorem statusData_catalog (hids : (plan.targets.map Target.id).Nodup) {finished : Report}
    {target : Target} (htarget : target ∈ plan.targets) (hkind : target.kind = .catalog) :
    plan.statusData finished target.id = (plan.lastFinished finished target).bind Record.entry := by
  unfold Plan.statusData
  rw [find?_id hids htarget, Option.bind_some, if_pos hkind]

theorem statusData_other {finished : Report} {id : String}
    (h : ∀ target ∈ plan.targets, target.kind = .catalog → target.id ≠ id) :
    plan.statusData finished id = none := by
  unfold Plan.statusData
  cases hfind : plan.targets.find? fun target => target.id = id with
  | none => rfl
  | some target =>
    have hid : target.id = id := by simpa using List.find?_some hfind
    have hkind : target.kind ≠ .catalog := fun hkind =>
      h target (List.mem_of_find?_eq_some hfind) hkind hid
    rw [Option.bind_some, if_neg hkind]

/-- The files as written are exact. -/
theorem Written.exact (hids : (plan.targets.map Target.id).Nodup) (hledger : Ledger plan m)
    (hsome : ∃ id, m.finished id ≠ none) (h : Written plan earlier m) :
    FilesExact plan earlier m := by
  have hentry : ∀ target ∈ plan.targets, target.kind = .catalog →
      ∃ record, plan.lastFinished m.finished target = some (.full record) ∧
        plan.statusData m.finished target.id = some record.entry := by
    intro target htarget hkind
    obtain ⟨record, hrecord⟩ := hledger.last_full hsome htarget hkind
    refine ⟨record, hrecord, ?_⟩
    rw [statusData_catalog hids htarget hkind, hrecord]
    rfl
  refine ⟨fun target htarget hkind => ?_, fun hon target htarget hkind => ?_,
    fun id hid => ⟨?_, ?_⟩, fun hoff => ?_⟩
  · obtain ⟨record, hrecord, hdata⟩ := hentry target htarget hkind
    rw [hrecord]
    exact ⟨record.entry, (congrFun h.buildStatus target.id).trans hdata, rfl⟩
  · obtain ⟨record, hrecord, hdata⟩ := hentry target htarget hkind
    rw [hrecord]
    refine ⟨record.entry, ?_, rfl⟩
    rw [h.catalogStatus, Plan.catalogData, if_pos hon, merge, hdata]
    rfl
  · rw [h.buildStatus]
    exact statusData_other hid
  · exact h.stale.kept id (statusData_other hid)
  · exact h.stale.off hoff

/-- The record that a target finished with is in the report file, and its attempts justify it. -/
theorem Ledger.finished_record (hids : (plan.targets.map Target.id).Nodup) (h : Ledger plan m)
    {target : Target} (htarget : target ∈ plan.toRun) {record : Record}
    (hrecord : m.finished target.id = some record) :
    m.reportFile target.id = some record ∧
      ∃ result, Justified Target.id target (m.pool.outcomes target) result ∧
        record = Record.ofResult plan.runSmoke target result := by
  constructor
  · rw [h.reportFile, h.report, hrecord]
    rfl
  · obtain ⟨owner, howner, hid, result, hresult, heq⟩ := h.finished _ _ hrecord
    have hsame : owner = target :=
      List.inj_on_of_nodup_map (Plan.toRun_ids hids) howner htarget hid
    exact ⟨result, h.accounted.justified htarget hresult, hsame ▸ heq⟩

/-- Every target of a run that has ended has finished. -/
theorem Ledger.all_finished (h : Ledger plan m) (hjobs : 1 ≤ jobs) (hended : m.Ended plan) :
    ∀ target ∈ plan.toRun, m.finished target.id ≠ none := by
  intro target htarget hnone
  rcases hended with hempty | hworkers
  · rw [hempty] at htarget
    cases htarget
  · have hreturned : ∀ w, m.pool.workers w = .returned := by
      intro w
      refine (hworkers w).resolve_right ?_
      rw [h.alive]
      exact Finset.notMem_empty w
    have hrecorded := h.accounted.drained ⟨0, hjobs⟩ (hreturned _) target htarget
    obtain ⟨w, result, hw⟩ := h.recorded target htarget hrecorded hnone
    cases (hreturned w).symm.trans hw

theorem exitCode_eq_zero_iff {m : Run jobs}
    (h : ∀ target ∈ plan.toRun, ∃ record, m.report target.id = some record ∧
      record.status.Final) :
    m.exitCode plan = 0 ↔ ∀ target ∈ plan.toRun, ∃ record, m.report target.id = some record ∧
      record.status = .success := by
  unfold Run.exitCode Run.failed
  simp only [ite_eq_left_iff, Nat.one_ne_zero, imp_false, not_not, List.map_eq_nil_iff,
    List.filter_eq_nil_iff]
  constructor
  · intro hnone target htarget
    obtain ⟨record, hrecord, hpending, -⟩ := h target htarget
    refine ⟨record, hrecord, ?_⟩
    have hstatus := hnone target htarget
    rw [hrecord] at hstatus
    by_contra hsuccess
    exact hstatus (decide_eq_true ⟨hsuccess, hpending⟩)
  · intro hall target htarget
    obtain ⟨record, hrecord, hsuccess⟩ := hall target htarget
    rw [hrecord]
    simp [hsuccess]

/-- What the report, the status files and the exit code of a run say of its targets. -/
theorem matrix_accounts_for_every_target (hids : (plan.targets.map Target.id).Nodup)
    (hjobs : 1 ≤ jobs)
    (hreach : Relation.ReflTransGen (LoneStep plan) (.start plan earlierStatus earlier) m) :
    (∀ target ∈ plan.toRun, ∀ record, m.finished target.id = some record →
      m.reportFile target.id = some record ∧
      ∃ result, Justified Target.id target (m.pool.outcomes target) result ∧
        record = Record.ofResult plan.runSmoke target result) ∧
    (m.callback = none → (∃ id, m.finished id ≠ none) → FilesExact plan earlier m) ∧
    (m.callback = none → (∀ id, m.finished id = none) →
      m.buildStatus = earlierStatus ∧ m.catalogStatus = earlier) ∧
    (m.Ended plan →
      (∀ target ∈ plan.toRun, ∃ record, m.reportFile target.id = some record ∧
        record.status.Final) ∧
      (m.exitCode plan = 0 ↔ ∀ target ∈ plan.toRun, ∃ record,
        m.reportFile target.id = some record ∧ record.status = .success)) := by
  have h := Sound.run hids hreach
  refine ⟨fun target htarget record => h.ledger.finished_record hids htarget,
    fun hlock hsome => ?_, fun hlock hnone => ?_, fun hended => ?_⟩
  · have hfiles := h.files
    rw [hlock] at hfiles
    rcases hfiles with ⟨hnone, -, -⟩ | ⟨-, hwritten⟩
    · exact absurd (hnone _) hsome.choose_spec
    · exact hwritten.exact hids h.ledger hsome
  · have hfiles := h.files
    rw [hlock] at hfiles
    rcases hfiles with ⟨-, hfiles⟩ | ⟨⟨id, hid⟩, -⟩
    · exact hfiles
    · exact absurd (hnone id) hid
  · have hfinal : ∀ target ∈ plan.toRun, ∃ record, m.reportFile target.id = some record ∧
        record.status.Final := by
      intro target htarget
      obtain ⟨record, hrecord⟩ :=
        Option.ne_none_iff_exists'.mp (h.ledger.all_finished hjobs hended target htarget)
      obtain ⟨hreport, result, -, heq⟩ := h.ledger.finished_record hids htarget hrecord
      exact ⟨record, hreport, heq ▸ Record.ofResult_final _ _ _⟩
    rw [h.ledger.reportFile] at hfinal ⊢
    exact ⟨hfinal, exitCode_eq_zero_iff hfinal⟩

end Files

/-! ## Runs of one worker -/

section OneWorker

variable {plan : Plan} {earlierStatus earlier : StatusFile} {m : Run 1}

theorem LoneStep.quiet {jobs : ℕ} {m m' : Run jobs} (h : Run.Step plan m m')
    (hsame : m'.finished = m.finished) : LoneStep plan m m' :=
  ⟨h, fun _ _ hnone hsome => absurd (hsame ▸ hnone) hsome⟩

theorem steps_of_lone {m' : Run 1} (h : Relation.ReflTransGen (LoneStep plan) m m') :
    Relation.ReflTransGen (Run.Step plan) m m' :=
  Relation.ReflTransGen.mono (fun _ _ (hstep : LoneStep plan _ _) => hstep.step) m m' h

/-- A step of the one worker outside of its callback. -/
def Outside (c c' : Pool Target String Attempt 1) : Prop :=
  Pool.Step Target.id c c' ∧ ∀ target result, c.workers 0 ≠ .notifying target result

/-- Steps outside of the callback finish no target. -/
theorem outside_run {c c' : Pool Target String Attempt 1} (h : Relation.ReflTransGen Outside c c')
    (hpool : m.pool = c) : Relation.ReflTransGen (LoneStep plan) m { m with pool := c' } := by
  subst hpool
  induction h with
  | refl => exact .refl
  | tail _ hstep ih =>
    obtain ⟨hstep, hout⟩ := hstep
    refine ih.tail (.quiet (.work _ hstep fun w target result hw => ?_) rfl)
    rw [Fin.fin_one_eq_zero w] at hw
    exact absurd hw (hout target result)

/-- The first target is built, and its result is about to be reported. -/
theorem first_returns (target : Target) (rest : List Target) (attempt : Attempt) :
    ∃ pool, Relation.ReflTransGen Outside (.start (target :: rest)) pool ∧
      pool.workers 0 = .notifying target (.returned attempt) ∧
      .ok attempt ∈ pool.outcomes target ∧
      pool.queue.pending = rest ∧ pool.queue.inFlight = 0 := by
  refine ⟨_, (((Relation.ReflTransGen.refl.tail ⟨.take 0 rfl, nofun⟩).tail
    ⟨.markRunning 0 target rfl, nofun⟩).tail ⟨.buildReturns 0 target attempt rfl, nofun⟩).tail
    ⟨.recordResult 0 target (.returned attempt) rfl, nofun⟩, rfl, ?_, rfl, rfl⟩
  simp [Pool.outcomes, Pool.start, Pool.afterTake, LocalJobQueue.take, LocalJobQueue.new,
    Pool.place, Pool.logged]

/-- The worker returns once the queue is drained. -/
theorem worker_returns {c : Pool Target String Attempt 1} (hw : c.workers 0 = .taking)
    (hpending : c.queue.pending = []) (hflight : c.queue.inFlight = 0) :
    Outside c (c.place 0 .returned c.queue) := by
  constructor
  · have htake : Pool.Step Target.id c (c.afterTake 0) := .take 0 hw
    simpa [Pool.afterTake, LocalJobQueue.take, hpending, hflight] using htake
  · intro target result hnotifying
    cases hw.symm.trans hnotifying

/-- The callback of the one worker, when the entries can be derived. -/
theorem callback_writes {target : Target} {result : JobResult String Attempt} {data : StatusFile}
    (hw : m.pool.workers 0 = .notifying target result) (hlock : m.callback = some (0, .deriving))
    (hdata : buildStatusData plan.targets m.report = .ok data)
    (hon : plan.updateCatalogStatusFile = true) :
    Relation.ReflTransGen (LoneStep plan) m { m with
      buildStatus := data
      catalogStatus := merge m.catalogStatus data
      callback := none
      pool := m.pool.place 0 .taking m.pool.queue } := by
  have hderive : Relation.ReflTransGen (LoneStep plan) m _ :=
    .single (.quiet (.derive 0 data hlock hdata) rfl)
  have hstatus := hderive.tail (.quiet (.writeStatus 0 data rfl) rfl)
  rw [hon, if_pos rfl] at hstatus
  exact ((hstatus.tail (.quiet (.merge 0 data rfl hdata) rfl)).tail
    (.quiet (.writeCatalog 0 _ rfl) rfl)).tail (.quiet (.leave 0 target result rfl hw) rfl)

def adBlocking : Target :=
  ⟨"ad-blocking", .catalog, "debian", "trixie", "bundle-catalog/ad-blocking", "5f1a", "ad-blocking"⟩

def aiWorkstation : Target :=
  ⟨"ai-workstation", .catalog, "debian", "trixie", "bundle-catalog/ai-workstation", "77c0",
    "ai-workstation"⟩

def scheduledRun (targets : List Target) : Plan :=
  ⟨targets, fun _ => none, false, true, true, "1.4.0"⟩

def bootedAttempt : Attempt :=
  ⟨"1.4.0", "2026-01-05T02:00:00+00:00", "2026-01-05T02:40:00+00:00", 24000, .completed 0, [], [],
    "dist/matrix/targets/ad-blocking/build.log", some ⟨"dist/ad-blocking.iso", 2048, "c3ab"⟩,
    ⟨"passed", none⟩⟩

/-- The report once the first of two catalogued targets has finished. -/
def halfwayReport : Report :=
  Function.update (scheduledRun [adBlocking, aiWorkstation]).startReport adBlocking.id
    (some (.ofResult true adBlocking (.returned bootedAttempt)))

theorem halfwayReport_entries : ∃ data,
    buildStatusData [adBlocking, aiWorkstation] halfwayReport = .ok data ∧
      data aiWorkstation.id = some ⟨"1.4.0", none, .pending, none, none, none⟩ := by
  have hentry : (buildStatusData [adBlocking, aiWorkstation] halfwayReport).toOption.map
      (fun data => data aiWorkstation.id) =
        some (some ⟨"1.4.0", none, .pending, none, none, none⟩) := by decide +kernel
  cases hdata : buildStatusData [adBlocking, aiWorkstation] halfwayReport with
  | error error =>
    rw [hdata] at hentry
    cases hentry
  | ok data =>
    rw [hdata] at hentry
    exact ⟨data, rfl, Option.some.inj hentry⟩

/-- A target that waits gets an entry as soon as another one finishes. -/
theorem waiting_target_gets_an_entry :
    ¬ ∀ (jobs : ℕ) (plan : Plan) (earlierStatus earlier : StatusFile) (m : Run jobs),
      (plan.targets.map Target.id).Nodup → 1 ≤ jobs →
      Relation.ReflTransGen (Run.Step plan) (.start plan earlierStatus earlier) m →
      m.callback = none → (∃ id, m.finished id ≠ none) → FilesExact plan earlier m := by
  intro hclaim
  let plan := scheduledRun [adBlocking, aiWorkstation]
  let start : Run 1 := .start plan (fun _ => none) fun _ => none
  obtain ⟨pool, hpool, hw, -, -, -⟩ := first_returns adBlocking [aiWorkstation] bootedAttempt
  obtain ⟨data, hdata, hentry⟩ := halfwayReport_entries
  have hbuilt : Relation.ReflTransGen (Run.Step plan) start { start with pool := pool } :=
    steps_of_lone (outside_run hpool (m := start) rfl)
  have hentered := hbuilt.tail (.enter 0 adBlocking (.returned bootedAttempt) hw rfl
    (Finset.notMem_empty 0))
  have hwritten := hentered.trans (steps_of_lone (callback_writes hw rfl hdata rfl))
  have hexact := hclaim 1 plan _ _ _ (by decide +kernel) le_rfl hwritten rfl
    ⟨adBlocking.id, by simp [Run.enter]⟩
  have hunfinished : plan.lastFinished (Function.update start.finished adBlocking.id
      (some (.ofResult true adBlocking (.returned bootedAttempt)))) aiWorkstation = none := by
    decide +kernel
  have hshows : Shows data (fun _ => none) aiWorkstation
      (plan.lastFinished (Function.update start.finished adBlocking.id
        (some (.ofResult true adBlocking (.returned bootedAttempt)))) aiWorkstation) :=
    hexact.buildStatus aiWorkstation (List.mem_cons_of_mem _ List.mem_cons_self) rfl
  rw [hunfinished] at hshows
  cases hentry.symm.trans hshows

/-- A run of one catalogued target, to the end of its workers. -/
theorem matrix_accounts_for_a_single_target : ∃ m : Run 1,
    Relation.ReflTransGen (LoneStep (scheduledRun [adBlocking]))
      (.start (scheduledRun [adBlocking]) (fun _ => none) fun _ => none) m ∧
    FilesExact (scheduledRun [adBlocking]) (fun _ => none) m ∧
    m.exitCode (scheduledRun [adBlocking]) = 0 := by
  let plan := scheduledRun [adBlocking]
  let start : Run 1 := .start plan (fun _ => none) fun _ => none
  obtain ⟨pool, hpool, hw, hattempt, hpending, hflight⟩ :=
    first_returns adBlocking [] bootedAttempt
  have hbuilt : Relation.ReflTransGen (LoneStep plan) start { start with pool := pool } :=
    outside_run hpool (m := start) rfl
  have hentered := hbuilt.tail ⟨.enter 0 adBlocking (.returned bootedAttempt) hw rfl
    (Finset.notMem_empty 0), fun target htarget _ _ => ?_⟩
  swap
  · cases List.mem_singleton.mp htarget
    exact ⟨fun other hother _ hne => absurd (List.mem_singleton.mp hother) hne,
      fun _ => ⟨bootedAttempt, hattempt⟩⟩
  have hdata := (Sound.run (by decide +kernel) hentered).ledger.derives (by decide +kernel)
    ⟨adBlocking.id, by simp [Run.enter]⟩
  have hwritten := hentered.trans (callback_writes hw rfl hdata rfl)
  have hended := hwritten.trans (outside_run (Relation.ReflTransGen.refl.tail
    (worker_returns place_workers_same hpending hflight)) rfl)
  obtain ⟨-, hfiles, -, hexit⟩ :=
    matrix_accounts_for_every_target (by decide +kernel) le_rfl hended
  have hrecord : Function.update start.report adBlocking.id
      (some (.ofResult true adBlocking (.returned bootedAttempt))) adBlocking.id =
        some (.ofResult true adBlocking (.returned bootedAttempt)) := Function.update_self _ _ _
  refine ⟨_, hended, hfiles rfl ⟨adBlocking.id, by simp [Run.enter]⟩, (hexit (Or.inr ?_)).2.mpr ?_⟩
  · intro w
    rw [Fin.fin_one_eq_zero w]
    exact Or.inl place_workers_same
  · intro target htarget
    cases List.mem_singleton.mp htarget
    exact ⟨_, hrecord, by decide⟩

end OneWorker

end BuildTools.BuildMatrix
