import SynOSStudio.BuildTools.BuildMatrix
import SynOSStudio.BuildTools.ParallelRuns

/-!
# The ledger of the build matrix

Which record each target has in the report, and what the workers in their callback have to
do with it. One lemma for each kind of step; in all of them no target finishes while another
catalogued one is still to finish, and no catalogued one ends in a crash record.
-/

namespace BuildTools

section Pool

variable {Item Id Result : Type} [DecidableEq Item] [DecidableEq Id] {jobs : ℕ} {id : Item → Id}
  {c c' : Pool Item Id Result jobs}

omit [DecidableEq Item] in
/-- What a step does to the results and to the workers in their callback. -/
theorem Pool.Step.effect (h : Pool.Step id c c') :
    (∃ w item result, c.workers w = .recording item result ∧
      c'.queue.results = Function.update c.queue.results (id item) (some result) ∧
      c'.workers = Function.update c.workers w (.notifying item result)) ∨
    (∃ w item result, c.workers w = .notifying item result ∧ c'.workers w = .taking) ∨
    (c'.queue.results = c.queue.results ∧ ∀ w item result,
      c'.workers w = .notifying item result ↔ c.workers w = .notifying item result) := by
  have quiet : ∀ (w : Fin jobs) (worker : Worker Item Id Result) (queue : LocalJobQueue Item Id Result),
      (∀ item result, c.workers w ≠ .notifying item result) →
      (∀ item result, worker ≠ .notifying item result) → ∀ w' item result,
        (c.place w worker queue).workers w' = .notifying item result ↔
          c.workers w' = .notifying item result := by
    intro w worker queue hold hnew w' item result
    by_cases hw : w' = w
    · subst hw
      rw [place_workers_same]
      exact iff_of_false (hnew item result) (hold item result)
    · rw [place_workers_other hw]
  cases h with
  | take w hw =>
    have hold : ∀ item result, c.workers w ≠ .notifying item result := by
      rw [hw]
      exact nofun
    right
    right
    unfold Pool.afterTake LocalJobQueue.take
    cases c.queue.pending with
    | cons item rest => exact ⟨rfl, quiet w _ _ hold nofun⟩
    | nil =>
      by_cases hflight : c.queue.inFlight = 0
      · simp only [hflight, if_true]
        exact ⟨rfl, quiet w _ _ hold nofun⟩
      · simp only [hflight, if_false]
        exact ⟨rfl, quiet w _ _ hold nofun⟩
  | markRunning w item hw =>
    exact Or.inr (Or.inr ⟨rfl, quiet w _ _ (by rw [hw]; exact nofun) nofun⟩)
  | buildReturns w item result hw =>
    exact Or.inr (Or.inr ⟨rfl, quiet w _ c.queue (by rw [hw]; exact nofun) nofun⟩)
  | buildRaises w item failure hw =>
    exact Or.inr (Or.inr ⟨rfl, quiet w _ c.queue (by rw [hw]; exact nofun) nofun⟩)
  | retry w item failure hw hattempts =>
    exact Or.inr (Or.inr ⟨rfl, quiet w _ _ (by rw [hw]; exact nofun) nofun⟩)
  | giveUp w item failure hw hattempts =>
    exact Or.inr (Or.inr ⟨rfl, quiet w _ _ (by rw [hw]; exact nofun) nofun⟩)
  | requeue w item hw =>
    exact Or.inr (Or.inr ⟨rfl, quiet w _ _ (by rw [hw]; exact nofun) nofun⟩)
  | describe w item failure hw =>
    exact Or.inr (Or.inr ⟨rfl, quiet w _ _ (by rw [hw]; exact nofun) nofun⟩)
  | recordResult w item result hw => exact Or.inl ⟨w, item, result, hw, rfl, rfl⟩
  | onResult w item result hw => exact Or.inr (Or.inl ⟨w, item, result, hw, place_workers_same⟩)

omit [DecidableEq Id] in
/-- A recorded result is what the attempts of its item justify. -/
theorem Accounted.justified {items : List Item} (h : Accounted id items c) {item : Item}
    {result : JobResult Id Result} (hitem : item ∈ items)
    (hresult : c.queue.results (id item) = some result) :
    Justified id item (c.outcomes item) result := by
  rcases h.located item hitem with hwaiting | ⟨w, hheld⟩ | hrecorded
  · cases hresult.symm.trans hwaiting.unrecorded
  · cases hresult.symm.trans hheld.unrecorded
  · obtain ⟨result', hresult', hjustified⟩ := hrecorded.recorded
    cases hresult.symm.trans hresult'
    exact hjustified

end Pool

namespace BuildMatrix

/-! ## The report -/

theorem find?_id {targets : List Target} (hids : (targets.map Target.id).Nodup) {target : Target}
    (htarget : target ∈ targets) :
    (targets.find? fun other => other.id = target.id) = some target := by
  induction targets with
  | nil => cases htarget
  | cons first targets ih =>
    rw [List.map_cons, List.nodup_cons] at hids
    rw [List.find?_cons]
    rcases List.mem_cons.mp htarget with rfl | hmem
    · simp
    · have hne : first.id ≠ target.id := fun heq =>
        hids.1 (heq ▸ List.mem_map_of_mem hmem)
      simp [hne, ih hids.2 hmem]

theorem find?_id_none {targets : List Target} {id : String}
    (h : ∀ target ∈ targets, target.id ≠ id) :
    (targets.find? fun other => other.id = id) = none := by
  rw [List.find?_eq_none]
  intro target htarget
  simpa using h target htarget

namespace Plan

variable {plan : Plan}

theorem toRun_sublist : plan.toRun.Sublist plan.targets := by
  unfold toRun
  split
  · exact List.filter_sublist
  · exact List.Sublist.refl _

theorem toRun_ids (hids : (plan.targets.map Target.id).Nodup) :
    (plan.toRun.map Target.id).Nodup :=
  hids.sublist (plan.toRun_sublist.map Target.id)

theorem foldl_placeholders (targets : List Target) (report : Report)
    (hids : (targets.map Target.id).Nodup) (id : String) :
    targets.foldl plan.withPlaceholder report id =
      ((targets.find? fun target => target.id = id).map fun target =>
        Record.full (placeholder plan.engine target)).or (report id) := by
  induction targets generalizing report with
  | nil => rfl
  | cons target targets ih =>
    rw [List.map_cons, List.nodup_cons] at hids
    rw [List.foldl_cons, ih _ hids.2, List.find?_cons]
    by_cases hid : target.id = id
    · have hnone : (targets.find? fun other => other.id = id) = none :=
        find?_id_none fun other hother heq =>
          hids.1 (List.mem_map.mpr ⟨other, hother, heq.trans hid.symm⟩)
      simp [withPlaceholder, hnone, hid]
    · simp [withPlaceholder, hid, Function.update_of_ne (Ne.symm hid)]

theorem startReport_skipped (hids : (plan.targets.map Target.id).Nodup) {target : Target}
    (htarget : target ∈ plan.targets) (hskipped : target ∉ plan.toRun) :
    plan.startReport target.id = plan.loadedReport target.id := by
  have hnone : (plan.toRun.find? fun other => other.id = target.id) = none := by
    refine find?_id_none fun other hother heq => hskipped ?_
    have hsame : other = target :=
      List.inj_on_of_nodup_map hids (plan.toRun_sublist.subset hother) htarget heq
    exact hsame ▸ hother
  unfold startReport
  rw [foldl_placeholders plan.toRun _ (toRun_ids hids), hnone]
  rfl

/-- A target is skipped for a success on record. -/
theorem skipped_record {target : Target} (htarget : target ∈ plan.targets)
    (hskipped : target ∉ plan.toRun) :
    ∃ record : RunRecord, plan.loadedReport target.id = some (.full record) ∧
      record.status = .success := by
  unfold toRun at hskipped
  split at hskipped
  · have hcurrent : upToDate plan.loadedReport target = true := by
      by_contra hnot
      exact hskipped (List.mem_filter.mpr ⟨htarget, by simpa using hnot⟩)
    unfold upToDate at hcurrent
    split at hcurrent
    · rename_i record hrecord
      obtain ⟨hstatus, hchecksum⟩ := of_decide_eq_true hcurrent
      cases record with
      | full record => exact ⟨record, hrecord, hstatus⟩
      | crash => cases hchecksum
    · cases hcurrent
  · exact absurd htarget hskipped

end Plan

/-! ## The invariant -/

section Ledger

variable {jobs : ℕ} {plan : Plan} {earlierStatus earlier : StatusFile} {m m' : Run jobs}

/-- The records of the targets, and what the workers in their callback have to do with them. -/
structure Ledger (plan : Plan) (m : Run jobs) : Prop where
  accounted : Accounted Target.id plan.toRun m.pool
  alive : m.dead = ∅
  notifying : ∀ w target result, m.pool.workers w = .notifying target result →
    target ∈ plan.toRun ∧ m.pool.queue.results target.id = some result
  unique : ∀ w w' target result result', m.pool.workers w = .notifying target result →
    m.pool.workers w' = .notifying target result' → w = w'
  recorded : ∀ target ∈ plan.toRun, m.pool.queue.results target.id ≠ none →
    m.finished target.id = none → ∃ w result, m.pool.workers w = .notifying target result
  finished : ∀ id record, m.finished id = some record → ∃ target ∈ plan.toRun, target.id = id ∧
    ∃ result, m.pool.queue.results id = some result ∧
      record = Record.ofResult plan.runSmoke target result
  fresh : ∀ w target result, m.pool.workers w = .notifying target result →
    (∀ callback, m.callback ≠ some (w, callback)) → m.finished target.id = none
  holder : ∀ w callback, m.callback = some (w, callback) →
    ∃ target result, m.pool.workers w = .notifying target result ∧ m.finished target.id ≠ none
  report : ∀ id, m.report id = (m.finished id).or (plan.startReport id)
  reportFile : m.reportFile = m.report
  catalog : (∃ id, m.finished id ≠ none) → ∀ target ∈ plan.toRun, target.kind = .catalog →
    ∃ record, m.finished target.id = some (.full record)

/-- No other catalogued target is still to finish, and a catalogued one has an attempt that
returned. -/
structure Lone (plan : Plan) (m : Run jobs) (target : Target) : Prop where
  others : ∀ other ∈ plan.toRun, other.kind = .catalog → other ≠ target →
    m.finished other.id ≠ none
  returned : target.kind = .catalog → ∃ attempt, .ok attempt ∈ m.pool.outcomes target

theorem Ledger.start (hids : (plan.targets.map Target.id).Nodup) :
    Ledger plan (.start plan earlierStatus earlier : Run jobs) := by
  have htaking : ∀ w, (Run.start plan earlierStatus earlier : Run jobs).pool.workers w = .taking :=
    fun _ => rfl
  have hlock : (Run.start plan earlierStatus earlier : Run jobs).callback = none := rfl
  have hnone : ∀ id, (Run.start plan earlierStatus earlier : Run jobs).finished id = none :=
    fun _ => rfl
  refine ⟨.start (Plan.toRun_ids hids).of_map, rfl, ?_, ?_, ?_, ?_, ?_, ?_, fun _ => rfl, rfl, ?_⟩
  · intro w target result h
    cases (htaking w).symm.trans h
  · intro w _ target result _ h
    cases (htaking w).symm.trans h
  · intro target _ h
    exact absurd rfl h
  · intro id record h
    cases (hnone id).symm.trans h
  · intro w target result h
    cases (htaking w).symm.trans h
  · intro w callback h
    cases hlock.symm.trans h
  · rintro ⟨id, h⟩
    exact absurd (hnone id) h

/-- A worker records its result and is about to report it. -/
theorem Ledger.record (hids : (plan.targets.map Target.id).Nodup) (h : Ledger plan m)
    {pool : Pool Target String Attempt jobs} (haccounted : Accounted Target.id plan.toRun pool)
    {w : Fin jobs} {target : Target} {result : JobResult String Attempt}
    (hw : m.pool.workers w = .recording target result)
    (hresults : pool.queue.results =
      Function.update m.pool.queue.results target.id (some result))
    (hworkers : pool.workers = Function.update m.pool.workers w (.notifying target result)) :
    Ledger plan { m with pool := pool } := by
  have hinj := List.inj_on_of_nodup_map (Plan.toRun_ids hids)
  have hheld : (m.pool.workers w).held = some target := by
    rw [hw]
    rfl
  have htarget := h.accounted.held w target hheld
  have hnone : m.pool.queue.results target.id = none :=
    ((h.accounted.located target htarget).heldBy hheld).unrecorded
  have hsame : pool.workers w = .notifying target result := by
    rw [hworkers, Function.update_self]
  have hother : ∀ w', w' ≠ w → pool.workers w' = m.pool.workers w' := by
    intro w' hne
    rw [hworkers, Function.update_of_ne hne]
  have hkept : ∀ id result', m.pool.queue.results id = some result' →
      pool.queue.results id = some result' := by
    intro id result' hid
    rw [hresults, Function.update_of_ne, hid]
    rintro rfl
    cases hnone.symm.trans hid
  have honly : ∀ w' result', pool.workers w' = .notifying target result' → w' = w := by
    intro w' result' hw'
    by_contra hne
    have hresult' := (h.notifying w' target result' ((hother w' hne).symm.trans hw')).2
    cases hnone.symm.trans hresult'
  refine ⟨haccounted, h.alive, ?_, ?_, ?_, ?_, ?_, ?_, h.report, h.reportFile, h.catalog⟩
  · intro w' target' result' hw'
    by_cases hne : w' = w
    · rw [hne] at hw'
      cases hsame.symm.trans hw'
      exact ⟨htarget, (congrFun hresults target.id).trans (Function.update_self _ _ _)⟩
    · obtain ⟨hmem, hresult'⟩ := h.notifying w' target' result' ((hother w' hne).symm.trans hw')
      exact ⟨hmem, hkept _ _ hresult'⟩
  · intro w₁ w₂ target' result₁ result₂ h₁ h₂
    by_cases hid : target' = target
    · subst hid
      exact (honly w₁ result₁ h₁).trans (honly w₂ result₂ h₂).symm
    · have hold : ∀ w' result', pool.workers w' = .notifying target' result' →
          m.pool.workers w' = .notifying target' result' := by
        intro w' result' hw'
        by_cases hne : w' = w
        · rw [hne] at hw'
          cases hsame.symm.trans hw'
          exact absurd rfl hid
        · exact (hother w' hne).symm.trans hw'
      exact h.unique w₁ w₂ target' result₁ result₂ (hold w₁ result₁ h₁) (hold w₂ result₂ h₂)
  · intro target' htarget' hresult' hfinished
    by_cases hid : target' = target
    · exact ⟨w, result, hid ▸ hsame⟩
    · have hold : m.pool.queue.results target'.id ≠ none := by
        rw [← Function.update_of_ne (fun heq => hid (hinj htarget' htarget heq))
          (some result) m.pool.queue.results, ← hresults]
        exact hresult'
      obtain ⟨w', result', hw'⟩ := h.recorded target' htarget' hold hfinished
      have hne : w' ≠ w := by
        rintro rfl
        cases hw.symm.trans hw'
      exact ⟨w', result', (hother w' hne).trans hw'⟩
  · intro id record hrecord
    obtain ⟨target', htarget', hid, result', hresult', heq⟩ := h.finished id record hrecord
    exact ⟨target', htarget', hid, result', hkept id result' hresult', heq⟩
  · intro w' target' result' hw' hout
    by_cases hne : w' = w
    · rw [hne] at hw'
      cases hsame.symm.trans hw'
      by_contra hfinished
      obtain ⟨record, hrecord⟩ := Option.ne_none_iff_exists'.mp hfinished
      obtain ⟨-, -, -, result', hresult', -⟩ := h.finished _ _ hrecord
      cases hnone.symm.trans hresult'
    · exact h.fresh w' target' result' ((hother w' hne).symm.trans hw') hout
  · intro w' callback hlock
    obtain ⟨target', result', hw', hfinished⟩ := h.holder w' callback hlock
    have hne : w' ≠ w := by
      rintro rfl
      cases hw.symm.trans hw'
    exact ⟨target', result', (hother w' hne).trans hw', hfinished⟩

/-- A worker takes a step outside of its callback. -/
theorem Ledger.work (hids : (plan.targets.map Target.id).Nodup) (h : Ledger plan m)
    {pool : Pool Target String Attempt jobs} (hstep : Pool.Step Target.id m.pool pool)
    (hcallback : ∀ w target result, m.pool.workers w = .notifying target result →
      pool.workers w = .notifying target result) :
    Ledger plan { m with pool := pool } := by
  have haccounted :=
    h.accounted.step (List.inj_on_of_nodup_map (Plan.toRun_ids hids)) hstep
  rcases hstep.effect with ⟨w, target, result, hw, hresults, hworkers⟩ |
      ⟨w, target, result, hw, htaking⟩ | ⟨hresults, hworkers⟩
  · exact h.record hids haccounted hw hresults hworkers
  · cases (hcallback w target result hw).symm.trans htaking
  · refine ⟨haccounted, h.alive, ?_, ?_, ?_, ?_, ?_, ?_, h.report, h.reportFile, h.catalog⟩
    · intro w target result hw
      have hold := h.notifying w target result ((hworkers w target result).mp hw)
      exact ⟨hold.1, (congrFun hresults target.id).trans hold.2⟩
    · intro w w' target result result' hw hw'
      exact h.unique w w' target result result' ((hworkers w target result).mp hw)
        ((hworkers w' target result').mp hw')
    · intro target htarget hresult hfinished
      have hold : m.pool.queue.results target.id ≠ none := by
        rw [← hresults]
        exact hresult
      obtain ⟨w, result, hw⟩ := h.recorded target htarget hold hfinished
      exact ⟨w, result, (hworkers w target result).mpr hw⟩
    · intro id record hrecord
      obtain ⟨target, htarget, hid, result, hresult, heq⟩ := h.finished id record hrecord
      exact ⟨target, htarget, hid, result, (congrFun hresults id).trans hresult, heq⟩
    · intro w target result hw
      exact h.fresh w target result ((hworkers w target result).mp hw)
    · intro w callback hlock
      obtain ⟨target, result, hw, hfinished⟩ := h.holder w callback hlock
      exact ⟨target, result, (hworkers w target result).mpr hw, hfinished⟩

/-- The callback of a worker begins. -/
theorem Ledger.enter (hids : (plan.targets.map Target.id).Nodup) (h : Ledger plan m)
    {w : Fin jobs} {target : Target} {result : JobResult String Attempt}
    (hw : m.pool.workers w = .notifying target result) (hlock : m.callback = none)
    (hlone : Lone plan m target) : Ledger plan (m.enter plan w target result) := by
  have hinj := List.inj_on_of_nodup_map (Plan.toRun_ids hids)
  obtain ⟨htarget, hresult⟩ := h.notifying w target result hw
  have hsame : (m.enter plan w target result).finished target.id =
      some (Record.ofResult plan.runSmoke target result) := Function.update_self _ _ _
  have hother : ∀ id, id ≠ target.id →
      (m.enter plan w target result).finished id = m.finished id :=
    fun id hid => Function.update_of_ne hid _ _
  have hreport : (m.enter plan w target result).report target.id =
      some (Record.ofResult plan.runSmoke target result) := Function.update_self _ _ _
  have hcallback : (m.enter plan w target result).callback = some (w, .deriving) := rfl
  refine ⟨h.accounted, h.alive, h.notifying, h.unique, ?_, ?_, ?_, ?_, ?_, rfl, ?_⟩
  · intro other hmem hrecorded hnone
    have hid : other.id ≠ target.id := by
      intro heq
      cases hsame.symm.trans (heq ▸ hnone)
    exact h.recorded other hmem hrecorded ((hother _ hid).symm.trans hnone)
  · intro id record hrecord
    by_cases hid : id = target.id
    · rw [hid, hsame] at hrecord
      exact ⟨target, htarget, hid.symm, result, hid ▸ hresult, (Option.some.inj hrecord).symm⟩
    · exact h.finished id record ((hother id hid).symm.trans hrecord)
  · intro w' other result' hw' hout
    have hid : other.id ≠ target.id := by
      intro heq
      have hsameTarget : other = target := hinj (h.notifying w' other result' hw').1 htarget heq
      have hsameWorker : w' = w := h.unique w' w target result' result (hsameTarget ▸ hw') hw
      exact hout .deriving (hsameWorker ▸ hcallback)
    rw [hother _ hid]
    refine h.fresh w' other result' hw' fun callback heq => ?_
    cases hlock.symm.trans heq
  · intro w' callback heq
    cases hcallback.symm.trans heq
    refine ⟨target, result, hw, ?_⟩
    rw [hsame]
    exact Option.some_ne_none _
  · intro id
    by_cases hid : id = target.id
    · rw [hid, hreport, hsame]
      rfl
    · rw [hother id hid, ← h.report id]
      exact Function.update_of_ne hid _ _
  · intro _ other hmem hkind
    by_cases hid : other = target
    · subst hid
      obtain ⟨attempt, hattempt⟩ := hlone.returned hkind
      have hjustified := h.accounted.justified hmem hresult
      cases result with
      | returned attempt => exact ⟨_, hsame⟩
      | crashed id status logTail =>
        obtain ⟨failure, hfailure⟩ := hjustified.2.1 _ hattempt
        cases hfailure
    · have hne : other.id ≠ target.id := fun heq => hid (hinj hmem htarget heq)
      obtain ⟨record, hrecord⟩ :=
        h.catalog ⟨other.id, hlone.others other hmem hkind hid⟩ other hmem hkind
      exact ⟨record, (hother _ hne).trans hrecord⟩

/-- The callback goes on with the files. -/
theorem Ledger.goOn (h : Ledger plan m) {w : Fin jobs} {callback callback' : Callback}
    (hlock : m.callback = some (w, callback)) (buildStatus catalogStatus : StatusFile) :
    Ledger plan { m with
      buildStatus := buildStatus
      catalogStatus := catalogStatus
      callback := some (w, callback') } := by
  refine ⟨h.accounted, h.alive, h.notifying, h.unique, h.recorded, h.finished, ?_, ?_, h.report,
    h.reportFile, h.catalog⟩
  · intro w' target result hw' hout
    refine h.fresh w' target result hw' fun callback'' heq => ?_
    cases hlock.symm.trans heq
    exact hout callback' rfl
  · intro w' callback'' heq
    cases heq
    exact h.holder w callback hlock

/-- The callback returns. -/
theorem Ledger.leave (h : Ledger plan m) {w : Fin jobs} {target : Target}
    {result : JobResult String Attempt} (hlock : m.callback = some (w, .leaving))
    (hw : m.pool.workers w = .notifying target result) :
    Ledger plan { m with callback := none, pool := m.pool.place w .taking m.pool.queue } := by
  have hfinished : m.finished target.id ≠ none := by
    obtain ⟨target', result', hw', hfinished⟩ := h.holder w .leaving hlock
    cases hw.symm.trans hw'
    exact hfinished
  have hold : ∀ w' other result', (m.pool.place w .taking m.pool.queue).workers w' =
      .notifying other result' → w' ≠ w ∧ m.pool.workers w' = .notifying other result' := by
    intro w' other result' hw'
    by_cases hne : w' = w
    · rw [hne, place_workers_same] at hw'
      cases hw'
    · exact ⟨hne, (place_workers_other hne).symm.trans hw'⟩
  refine ⟨h.accounted.empty_handed (by rw [hw]; rfl) rfl nofun, h.alive, ?_, ?_, ?_, h.finished,
    ?_, nofun, h.report, h.reportFile, h.catalog⟩
  · intro w' other result' hw'
    exact h.notifying w' other result' (hold w' other result' hw').2
  · intro w₁ w₂ other result₁ result₂ h₁ h₂
    exact h.unique w₁ w₂ other result₁ result₂ (hold w₁ other result₁ h₁).2
      (hold w₂ other result₂ h₂).2
  · intro other hmem hrecorded hnone
    obtain ⟨w', result', hw'⟩ := h.recorded other hmem hrecorded hnone
    have hne : w' ≠ w := by
      rintro rfl
      cases hw.symm.trans hw'
      exact hfinished hnone
    exact ⟨w', result', (place_workers_other hne).trans hw'⟩
  · intro w' other result' hw' _
    obtain ⟨hne, hw'⟩ := hold w' other result' hw'
    refine h.fresh w' other result' hw' fun callback heq => hne ?_
    cases hlock.symm.trans heq
    rfl

end Ledger

end BuildMatrix

end BuildTools
