import SynOSStudio.BashGuess.Learning
import SynOSStudio.BashGuess.Snapshots

/-!
# Queries and the age of what they show

Only the refresh of the last invalidation is ever installed. Between an invalidation and
that refresh a query shows nothing that was collected before, except for processes and
services: their entities stay when their generation goes.
-/

namespace BashGuess

section Properties

/-- After a step that invalidated a snapshot, a query shows no entity collected before it. -/
def NeverStale (config : Config) (start : Engine) (steps : List Step) : Prop :=
  ∀ earlier step middle nowMs line later before after current domain,
    steps = earlier ++ step :: (middle ++ .query nowMs line :: later) →
    Engine.run config earlier start = some before → before.step config step = some after →
    Engine.run config middle after = some current →
    (before.snapshots domain).generation < (after.snapshots domain).generation →
    ∀ entity ∈ current.shown domain nowMs, before.clock ≤ entity.collectedAt

/-- A refresh is installed only if no step after the one that started it has invalidated its
snapshot again. -/
def OnlyCurrentInstalled (config : Config) (start : Engine) (steps : List Step) : Prop :=
  ∀ earlier step middle worker nowMs later before after current r entities,
    steps = earlier ++ step :: (middle ++ .install worker nowMs :: later) →
    Engine.run config earlier start = some before → before.step config step = some after →
    Engine.run config middle after = some current →
    (before.snapshots r.domain).generation < (after.snapshots r.domain).generation →
    r.generation = (after.snapshots r.domain).generation →
    current.workers worker = .collected r entities → current.accepts r = true →
    ∀ first second rest before' after', middle = first ++ second :: rest →
      Engine.run config first after = some before' → before'.step config second = some after' →
      ¬ (before'.snapshots r.domain).generation < (after'.snapshots r.domain).generation

def listsProcesses (o : Observation) : Prop :=
  (deriveEvent o.line o.exitCode o.atMs).map CommandEvent.action = some .processList ∧
    o.exitCode = 0

def listsServices (o : Observation) : Prop :=
  (deriveEvent o.line o.exitCode o.atMs).map CommandEvent.action = some .serviceList ∧
    o.exitCode = 0

/-- A successful listing of the processes or the services finds no entity in their snapshot. -/
def FindsCleared (e : Engine) : Step → Prop
  | .observe o _ =>
    (listsProcesses o → (e.snapshots .process).entities = []) ∧
    (listsServices o → (e.snapshots .service).entities = [])
  | _ => True

def EachFindsCleared (config : Config) : List Step → Engine → Prop
  | [], _ => True
  | step :: rest, e => FindsCleared e step ∧
      ∀ e', e.step config step = some e' → EachFindsCleared config rest e'

end Properties

section Steps

variable {config : Config} {e e' : Engine} {step : Step}

theorem refreshWhen_cases (domain : Domain) (cwd : String) (due : Bool)
    (update : Snapshot → Snapshot) (s : Snapshot) :
    refreshWhen domain cwd due update s = (s, none) ∨
      due = true ∧ refreshWhen domain cwd due update s =
        (update s, some ⟨domain, (update s).generation, cwd⟩) := by
  unfold refreshWhen
  cases due with
  | false => exact Or.inl rfl
  | true => exact Or.inr ⟨rfl, rfl⟩

/-- Domains whose entities stay when the command lists them. -/
def staysFor (action : Option Action) (o : Observation) (domain : Domain) : Prop :=
  (domain = .process ∧ action = some .processList ∧ o.exitCode = 0) ∨
    (domain = .service ∧ action = some .serviceList ∧ o.exitCode = 0)

/-- What an observed command does to a snapshot: nothing, or a new generation that starts a
refresh for itself at most, and without the old entities or with them by name. -/
theorem observeSnapshot_cases (action : Option Action) (o : Observation) (domain : Domain)
    (s : Snapshot) :
    observeSnapshot action o domain s = (s, none) ∨
      (observeSnapshot action o domain s).1.generation = s.generation + 1 ∧
      ((observeSnapshot action o domain s).1.entities = [] ∨
        (observeSnapshot action o domain s).1.entities = s.entities ∧ staysFor action o domain) ∧
      ∀ r, (observeSnapshot action o domain s).2 = some r →
        r.domain = domain ∧ r.generation = s.generation + 1 := by
  have hclears : ∀ {d cwd due} {update : Snapshot → Snapshot},
      (update s).generation = s.generation + 1 → (update s).entities = [] →
      refreshWhen d cwd due update s = (s, none) ∨
        (refreshWhen d cwd due update s).1.generation = s.generation + 1 ∧
        ((refreshWhen d cwd due update s).1.entities = [] ∨
          (refreshWhen d cwd due update s).1.entities = s.entities ∧ staysFor action o d) ∧
        ∀ r, (refreshWhen d cwd due update s).2 = some r →
          r.domain = d ∧ r.generation = s.generation + 1 := by
    intro d cwd due update hgeneration hentities
    rcases refreshWhen_cases d cwd due update s with h | ⟨-, h⟩
    · exact Or.inl h
    · rw [h]
      exact Or.inr ⟨hgeneration, Or.inl hentities, fun r hr => by
        cases hr
        exact ⟨rfl, hgeneration⟩⟩
  have hstays : ∀ {d cwd due}, (due = true → staysFor action o d) →
      refreshWhen d cwd due (Snapshot.bumped o.atMs) s = (s, none) ∨
        (refreshWhen d cwd due (Snapshot.bumped o.atMs) s).1.generation = s.generation + 1 ∧
        ((refreshWhen d cwd due (Snapshot.bumped o.atMs) s).1.entities = [] ∨
          (refreshWhen d cwd due (Snapshot.bumped o.atMs) s).1.entities = s.entities ∧
            staysFor action o d) ∧
        ∀ r, (refreshWhen d cwd due (Snapshot.bumped o.atMs) s).2 = some r →
          r.domain = d ∧ r.generation = s.generation + 1 := by
    intro d cwd due hdue
    rcases refreshWhen_cases d cwd due (Snapshot.bumped o.atMs) s with h | ⟨htrue, h⟩
    · exact Or.inl h
    · rw [h]
      exact Or.inr ⟨rfl, Or.inr ⟨rfl, hdue htrue⟩, fun r hr => by
        cases hr
        exact ⟨rfl, rfl⟩⟩
  cases domain with
  | docker =>
    unfold observeSnapshot observeDocker
    split
    · right
      refine ⟨rfl, Or.inl rfl, fun r hr => ?_⟩
      simp only at hr
      split at hr
      · cases hr
        exact ⟨rfl, rfl⟩
      · cases hr
    · exact Or.inl rfl
  | apt => exact hclears rfl rfl
  | process =>
    apply hstays
    intro hdue
    left
    simpa using hdue
  | service =>
    apply hstays
    intro hdue
    right
    simpa using hdue
  | git => exact hclears rfl rfl
  | host => exact hclears rfl rfl
  | file => exact hclears rfl rfl
  | artifact => exact hclears rfl rfl

/-- What each step can do. -/
theorem act_cases (h : e.act config step = some e') :
    (∃ o resolves, step = .observe o resolves ∧ e' = e.observe config o resolves) ∨
    e' = e ∨
    (∃ job rest queue, e.outbox = job :: rest ∧ (∀ j ∈ queue, j ∈ e.queue ∨ j = job) ∧
      e' = { e with outbox := rest, queue := queue }) ∨
    (∃ worker job rest, e.queue = job :: rest ∧
      e' = ({ e with queue := rest }).setWorker worker (.started job e.clock)) ∨
    (∃ worker job since output, e.workers worker = .started job since ∧
      e' = e.setWorker worker (finishedWorker since job output)) ∨
    ∃ worker nowMs r entities, e.workers worker = .collected r entities ∧
      e' = (e.install r entities nowMs).setWorker worker .idle := by
  cases step with
  | observe o resolves =>
    left
    simp only [Engine.act] at h
    split at h
    · exact ⟨o, resolves, rfl, (Option.some.inj h).symm⟩
    · cases h
  | query nowMs line =>
    right; left
    simp only [Engine.act] at h
    split at h
    · exact (Option.some.inj h).symm
    · cases h
  | submit =>
    right; right; left
    simp only [Engine.act] at h
    split at h
    · cases h
    · rename_i job rest houtbox
      refine ⟨job, rest, _, houtbox, ?_, (Option.some.inj h).symm⟩
      intro j hj
      split at hj
      · simpa using hj
      · exact Or.inl hj
  | take worker =>
    right; right; right; left
    simp only [Engine.act] at h
    split at h
    · rename_i job rest _ hqueue
      exact ⟨worker, job, rest, hqueue, (Option.some.inj h).symm⟩
    · cases h
  | finish worker output =>
    right; right; right; right; left
    simp only [Engine.act] at h
    split at h
    · rename_i job since hworker
      exact ⟨worker, job, since, output, hworker, (Option.some.inj h).symm⟩
    · cases h
  | install worker nowMs =>
    right; right; right; right; right
    simp only [Engine.act] at h
    split at h
    · rename_i r entities hworker
      exact ⟨worker, nowMs, r, entities, hworker, (Option.some.inj h).symm⟩
    · cases h

theorem install_snapshots (e : Engine) (r : Refresh) (entities : List Entity) (nowMs : ℕ)
    (domain : Domain) :
    (e.install r entities nowMs).snapshots domain = e.snapshots domain ∨
      (r.domain = domain ∧ r.generation = (e.snapshots domain).generation ∧
        (e.install r entities nowMs).snapshots domain =
          { e.snapshots domain with entities := entities, refreshedAtMs := nowMs }) := by
  unfold Engine.install
  split
  · rename_i haccepts
    by_cases hdomain : domain = r.domain
    · subst hdomain
      right
      unfold Engine.accepts at haccepts
      rw [Bool.and_eq_true, beq_iff_eq] at haccepts
      exact ⟨rfl, haccepts.1.symm, Function.update_self _ _ _⟩
    · exact Or.inl (Function.update_of_ne hdomain _ _)
  · exact Or.inl rfl

theorem install_rest (e : Engine) (r : Refresh) (entities : List Entity) (nowMs : ℕ) :
    (e.install r entities nowMs).workers = e.workers ∧
      (e.install r entities nowMs).outbox = e.outbox ∧
      (e.install r entities nowMs).queue = e.queue ∧
      (e.install r entities nowMs).clock = e.clock := by
  unfold Engine.install
  split <;> exact ⟨rfl, rfl, rfl, rfl⟩

theorem step_eq_some (h : e.step config step = some e') :
    ∃ acted, e.act config step = some acted ∧ e' = { acted with clock := acted.clock + 1 } := by
  unfold Engine.step at h
  obtain ⟨acted, hacted, rfl⟩ := Option.map_eq_some_iff.mp h
  exact ⟨acted, hacted, rfl⟩

theorem observe_generation (e : Engine) (o : Observation) (resolves : Domain → Bool)
    (domain : Domain) :
    (e.snapshots domain).generation ≤
      ((e.observe config o resolves).snapshots domain).generation := by
  rcases observeSnapshot_cases ((observeWorld config o e.learned).2.lastEvent.map
    CommandEvent.action) o domain (e.snapshots domain) with h | ⟨h, -⟩
  · exact (congrArg (fun p => p.1.generation) h).ge
  · exact (Nat.le_succ _).trans h.ge

theorem act_generation (h : e.act config step = some e') (domain : Domain) :
    (e.snapshots domain).generation ≤ (e'.snapshots domain).generation := by
  rcases act_cases h with ⟨o, resolves, -, rfl⟩ | rfl | ⟨job, rest, queue, -, -, rfl⟩ |
    ⟨worker, job, rest, -, rfl⟩ | ⟨worker, job, since, output, -, rfl⟩ |
    ⟨worker, nowMs, r, entities, -, rfl⟩
  · exact observe_generation e o resolves domain
  · exact le_rfl
  · exact le_rfl
  · exact le_rfl
  · exact le_rfl
  · show _ ≤ ((e.install r entities nowMs).snapshots domain).generation
    rcases install_snapshots e r entities nowMs domain with h | ⟨-, -, h⟩
    · rw [h]
    · rw [h]

theorem step_generation (h : e.step config step = some e') (domain : Domain) :
    (e.snapshots domain).generation ≤ (e'.snapshots domain).generation := by
  obtain ⟨acted, hacted, rfl⟩ := step_eq_some h
  exact act_generation hacted domain

theorem act_clock (h : e.act config step = some e') : e'.clock = e.clock := by
  rcases act_cases h with ⟨o, resolves, -, rfl⟩ | rfl | ⟨job, rest, queue, -, -, rfl⟩ |
    ⟨worker, job, rest, -, rfl⟩ | ⟨worker, job, since, output, -, rfl⟩ |
    ⟨worker, nowMs, r, entities, -, rfl⟩
  · rfl
  · rfl
  · rfl
  · rfl
  · rfl
  · exact (install_rest e r entities nowMs).2.2.2

/-- A refresh that waits somewhere or is being worked on. -/
def Engine.Pending (e : Engine) (r : Refresh) : Prop :=
  .refresh r ∈ e.outbox ∨ .refresh r ∈ e.queue ∨
    ∃ worker, (∃ since, e.workers worker = .started (.refresh r) since) ∨
      ∃ entities, e.workers worker = .collected r entities

theorem mem_learnedJobs {learned : Option (HistoryEntry × Option TransitionEntry)} {r : Refresh} :
    Job.refresh r ∉ learnedJobs config learned := by
  unfold learnedJobs
  intro h
  rcases List.mem_append.mp h with h | h
  · split at h <;> simp at h
  · split at h <;> simp at h

theorem mem_refreshJobs {snapshots : Domain → Snapshot × Option Refresh}
    {resolves : Domain → Bool} {r : Refresh} (h : Job.refresh r ∈ refreshJobs snapshots resolves) :
    ∃ domain, (snapshots domain).2 = some r := by
  obtain ⟨domain, -, hdomain⟩ := List.mem_filterMap.mp h
  split at hdomain
  · cases hdomain
  · obtain ⟨r', hr', heq⟩ := Option.map_eq_some_iff.mp hdomain
    cases heq
    exact ⟨domain, hr'⟩

/-- What an observed command submits is for the generations that it made. -/
theorem observe_pending {o : Observation} {resolves : Domain → Bool} {r : Refresh}
    (h : Job.refresh r ∈ (e.observe config o resolves).outbox) :
    r.generation = ((e.observe config o resolves).snapshots r.domain).generation := by
  rcases List.mem_append.mp h with h | h
  · exact absurd h mem_learnedJobs
  · obtain ⟨domain, hdomain⟩ := mem_refreshJobs h
    rcases observeSnapshot_cases ((observeWorld config o e.learned).2.lastEvent.map
      CommandEvent.action) o domain (e.snapshots domain) with hsame | ⟨hbump, -, hrefresh⟩
    · rw [hsame] at hdomain
      cases hdomain
    · obtain ⟨rfl, hgeneration⟩ := hrefresh r hdomain
      exact hgeneration.trans hbump.symm

theorem setWorker_eq {worker w : Fin 2} {new state : Worker}
    (h : (e.setWorker worker new).workers w = state) : state = new ∨ e.workers w = state := by
  unfold Engine.setWorker at h
  by_cases hw : w = worker
  · subst hw
    rw [← h]
    exact Or.inl (Function.update_self _ _ _)
  · right
    rw [← h]
    exact (Function.update_of_ne hw _ _).symm

theorem finishedWorker_collected {since : ℕ} {job : Job} {output : Option (List Text)}
    {r : Refresh} {entities : List Entity}
    (h : finishedWorker since job output = .collected r entities) :
    job = .refresh r ∧ ∀ entity ∈ entities, entity.collectedAt = since := by
  unfold finishedWorker at h
  split at h
  · cases h
    refine ⟨rfl, fun entity hentity => ?_⟩
    obtain ⟨name, -, rfl⟩ := List.mem_map.mp hentity
    rfl
  · cases h

theorem finishedWorker_not_started {since since' : ℕ} {job job' : Job}
    {output : Option (List Text)} : finishedWorker since job output ≠ .started job' since' := by
  unfold finishedWorker
  split <;> simp

/-- Pending refreshes were pending before, or are for the generation of the moment. -/
theorem act_pending (h : e.act config step = some e') {r : Refresh} (hpending : e'.Pending r) :
    e.Pending r ∨ r.generation = (e'.snapshots r.domain).generation := by
  rcases act_cases h with ⟨o, resolves, -, rfl⟩ | rfl | ⟨job, rest, queue, houtbox, hqueue, rfl⟩ |
    ⟨worker, job, rest, hqueue, rfl⟩ | ⟨worker, job, since, output, hworker, rfl⟩ |
    ⟨worker, nowMs, r', entities, hworker, rfl⟩
  · rcases hpending with houtbox | hrest
    · exact Or.inr (observe_pending houtbox)
    · exact Or.inl (Or.inr hrest)
  · exact Or.inl hpending
  · left
    rcases hpending with hmem | hmem | hworker
    · left
      rw [houtbox]
      exact List.mem_cons_of_mem job hmem
    · rcases hqueue _ hmem with hold | rfl
      · exact Or.inr (Or.inl hold)
      · left
        rw [houtbox]
        exact List.mem_cons_self
    · exact Or.inr (Or.inr hworker)
  · left
    rcases hpending with hmem | hmem | ⟨w, ⟨since, hw⟩ | ⟨entities, hw⟩⟩
    · exact Or.inl hmem
    · right; left
      rw [hqueue]
      exact List.mem_cons_of_mem job hmem
    · rcases setWorker_eq hw with hnew | hold
      · cases hnew
        right; left
        rw [hqueue]
        exact List.mem_cons_self
      · exact Or.inr (Or.inr ⟨w, Or.inl ⟨since, hold⟩⟩)
    · rcases setWorker_eq hw with hnew | hold
      · cases hnew
      · exact Or.inr (Or.inr ⟨w, Or.inr ⟨entities, hold⟩⟩)
  · left
    rcases hpending with hmem | hmem | ⟨w, ⟨since', hw⟩ | ⟨entities, hw⟩⟩
    · exact Or.inl hmem
    · exact Or.inr (Or.inl hmem)
    · rcases setWorker_eq hw with hnew | hold
      · exact absurd hnew.symm finishedWorker_not_started
      · exact Or.inr (Or.inr ⟨w, Or.inl ⟨since', hold⟩⟩)
    · rcases setWorker_eq hw with hnew | hold
      · obtain ⟨rfl, -⟩ := finishedWorker_collected hnew.symm
        exact Or.inr (Or.inr ⟨worker, Or.inl ⟨since, hworker⟩⟩)
      · exact Or.inr (Or.inr ⟨w, Or.inr ⟨entities, hold⟩⟩)
  · left
    obtain ⟨hworkers, houtbox, hqueue, -⟩ := install_rest e r' entities nowMs
    rcases hpending with hmem | hmem | ⟨w, ⟨since, hw⟩ | ⟨found, hw⟩⟩
    · left
      rw [← houtbox]
      exact hmem
    · right; left
      rw [← hqueue]
      exact hmem
    · rcases setWorker_eq hw with hnew | hold
      · cases hnew
      · rw [hworkers] at hold
        exact Or.inr (Or.inr ⟨w, Or.inl ⟨since, hold⟩⟩)
    · rcases setWorker_eq hw with hnew | hold
      · cases hnew
      · rw [hworkers] at hold
        exact Or.inr (Or.inr ⟨w, Or.inr ⟨found, hold⟩⟩)

/-- No refresh is for a generation that its snapshot has not reached. -/
def Engine.Bounded (e : Engine) : Prop :=
  ∀ r, e.Pending r → r.generation ≤ (e.snapshots r.domain).generation

theorem Engine.Bounded.act (hbounded : e.Bounded) (h : e.act config step = some e') :
    e'.Bounded := by
  intro r hpending
  rcases act_pending h hpending with hold | hnow
  · exact (hbounded r hold).trans (act_generation h r.domain)
  · exact hnow.le

theorem Engine.Bounded.stepped (hbounded : e.Bounded) (h : e.step config step = some e') :
    e'.Bounded := by
  obtain ⟨acted, hacted, rfl⟩ := step_eq_some h
  have hacted' := hbounded.act hacted
  exact fun r hpending => hacted' r hpending

end Steps

section Runs

variable {config : Config} {e e' start : Engine} {step : Step} {steps : List Step}
  {domain : Domain} {generation moment : ℕ}

theorem run_cons (step : Step) (rest : List Step) (e : Engine) :
    Engine.run config (step :: rest) e = (e.step config step).bind (Engine.run config rest) := rfl

theorem run_append (first second : List Step) (e : Engine) :
    Engine.run config (first ++ second) e =
      (Engine.run config first e).bind (Engine.run config second) := by
  induction first generalizing e with
  | nil => rfl
  | cons step rest ih =>
    rw [List.cons_append, run_cons, run_cons]
    cases e.step config step with
    | none => rfl
    | some next => exact ih next

/-- What every step keeps, a run keeps. -/
theorem run_keeps {P : Engine → Prop}
    (hstep : ∀ {e e' step}, P e → e.step config step = some e' → P e')
    (he : P e) (h : Engine.run config steps e = some e') : P e' := by
  induction steps generalizing e with
  | nil =>
    cases h
    exact he
  | cons step rest ih =>
    rw [run_cons] at h
    obtain ⟨next, hnext, hrest⟩ := Option.bind_eq_some_iff.mp h
    exact ih (hstep he hnext) hrest

theorem run_generation (h : Engine.run config steps e = some e') (domain : Domain) :
    (e.snapshots domain).generation ≤ (e'.snapshots domain).generation := by
  refine run_keeps (P := fun x =>
    (e.snapshots domain).generation ≤ (x.snapshots domain).generation) ?_ le_rfl h
  intro x x' step hle hstep
  exact hle.trans (step_generation hstep domain)

/-- From a moment on, a snapshot and all that may be installed in it is from after it. -/
structure Engine.Fresh (e : Engine) (domain : Domain) (generation moment : ℕ) : Prop where
  generation_le : generation ≤ (e.snapshots domain).generation
  clock_le : moment ≤ e.clock
  entities : ∀ entity ∈ (e.snapshots domain).entities, moment ≤ entity.collectedAt
  started : ∀ worker r since, e.workers worker = .started (.refresh r) since →
    r.domain = domain → generation ≤ r.generation → moment ≤ since
  collected : ∀ worker r entities, e.workers worker = .collected r entities →
    r.domain = domain → generation ≤ r.generation →
    ∀ entity ∈ entities, moment ≤ entity.collectedAt

theorem Engine.Fresh.act (hfresh : e.Fresh domain generation moment)
    (h : e.act config step = some e') : e'.Fresh domain generation moment := by
  have hgeneration := hfresh.generation_le.trans (act_generation h domain)
  have hclock : moment ≤ e'.clock := (act_clock h).symm ▸ hfresh.clock_le
  rcases act_cases h with ⟨o, resolves, -, rfl⟩ | rfl | ⟨job, rest, queue, -, -, rfl⟩ |
    ⟨worker, job, rest, -, rfl⟩ | ⟨worker, job, since, output, hworker, rfl⟩ |
    ⟨worker, nowMs, r, entities, hworker, rfl⟩
  · refine ⟨hgeneration, hclock, fun entity hentity => ?_, hfresh.started, hfresh.collected⟩
    apply hfresh.entities
    have hentity' : entity ∈ (observeSnapshot ((observeWorld config o e.learned).2.lastEvent.map
      CommandEvent.action) o domain (e.snapshots domain)).1.entities := hentity
    rcases observeSnapshot_cases ((observeWorld config o e.learned).2.lastEvent.map
      CommandEvent.action) o domain (e.snapshots domain) with hsame | ⟨-, hnone | ⟨hstays, -⟩, -⟩
    · rwa [hsame] at hentity'
    · rw [hnone] at hentity'
      cases hentity'
    · rwa [hstays] at hentity'
  · exact hfresh
  · exact ⟨hgeneration, hclock, hfresh.entities, hfresh.started, hfresh.collected⟩
  · refine ⟨hgeneration, hclock, hfresh.entities, fun w r since hw hdomain hle => ?_,
      fun w r entities hw hdomain hle => ?_⟩
    · rcases setWorker_eq hw with hnew | hold
      · cases hnew
        exact hfresh.clock_le
      · exact hfresh.started w r since hold hdomain hle
    · rcases setWorker_eq hw with hnew | hold
      · cases hnew
      · exact hfresh.collected w r entities hold hdomain hle
  · refine ⟨hgeneration, hclock, hfresh.entities, fun w r since' hw hdomain hle => ?_,
      fun w r entities hw hdomain hle => ?_⟩
    · rcases setWorker_eq hw with hnew | hold
      · exact absurd hnew.symm finishedWorker_not_started
      · exact hfresh.started w r since' hold hdomain hle
    · rcases setWorker_eq hw with hnew | hold
      · obtain ⟨rfl, hsince⟩ := finishedWorker_collected hnew.symm
        intro entity hentity
        rw [hsince entity hentity]
        exact hfresh.started worker r since hworker hdomain hle
      · exact hfresh.collected w r entities hold hdomain hle
  · have hworkers := (install_rest e r entities nowMs).1
    refine ⟨hgeneration, hclock, fun entity hentity => ?_, fun w r' since hw hdomain hle => ?_,
      fun w r' found hw hdomain hle => ?_⟩
    · have hentity' : entity ∈ ((e.install r entities nowMs).snapshots domain).entities := hentity
      rcases install_snapshots e r entities nowMs domain with hsame | ⟨hdomain, hcurrent, hnew⟩
      · rw [hsame] at hentity'
        exact hfresh.entities entity hentity'
      · rw [hnew] at hentity'
        exact hfresh.collected worker r entities hworker hdomain
          (hfresh.generation_le.trans hcurrent.ge) entity hentity'
    · rcases setWorker_eq hw with hnew | hold
      · cases hnew
      · rw [hworkers] at hold
        exact hfresh.started w r' since hold hdomain hle
    · rcases setWorker_eq hw with hnew | hold
      · cases hnew
      · rw [hworkers] at hold
        exact hfresh.collected w r' found hold hdomain hle

theorem Engine.Fresh.stepped (hfresh : e.Fresh domain generation moment)
    (h : e.step config step = some e') : e'.Fresh domain generation moment := by
  obtain ⟨acted, hacted, rfl⟩ := step_eq_some h
  have hacted' := hfresh.act hacted
  exact ⟨hacted'.generation_le, hacted'.clock_le.trans (Nat.le_succ _), hacted'.entities,
    hacted'.started, hacted'.collected⟩

theorem observeWorld_lastEvent (config : Config) (o : Observation) (learned : Learned) :
    (observeWorld config o learned).2.lastEvent = deriveEvent o.line o.exitCode o.atMs := by
  unfold observeWorld
  split
  · exact observe_lastEvent o learned
  · rfl

/-- A step that invalidates a snapshot leaves it fresh, when it finds the listed ones empty. -/
theorem fresh_of_bump (hbounded : e.Bounded) (hfinds : FindsCleared e step)
    (h : e.step config step = some e')
    (hbump : (e.snapshots domain).generation < (e'.snapshots domain).generation) :
    e'.Fresh domain ((e.snapshots domain).generation + 1) e.clock := by
  obtain ⟨acted, hacted, rfl⟩ := step_eq_some h
  have hclock : e.clock ≤ acted.clock + 1 := by
    rw [act_clock hacted]
    exact Nat.le_succ _
  have hbehind : ∀ r, e.Pending r → r.domain = domain →
      ¬ (e.snapshots domain).generation + 1 ≤ r.generation := by
    rintro r hpending rfl hle
    have hle' := hbounded r hpending
    omega
  rcases act_cases hacted with ⟨o, resolves, rfl, rfl⟩ | rfl | ⟨job, rest, queue, -, -, rfl⟩ |
    ⟨worker, job, rest, -, rfl⟩ | ⟨worker, job, since, output, -, rfl⟩ |
    ⟨worker, nowMs, r, entities, -, rfl⟩
  · refine ⟨hbump, hclock, fun entity hentity => ?_, fun w r since hw hdomain hle => ?_,
      fun w r entities hw hdomain hle => ?_⟩
    · have hentity' : entity ∈ (observeSnapshot ((observeWorld config o e.learned).2.lastEvent.map
        CommandEvent.action) o domain (e.snapshots domain)).1.entities := hentity
      rw [observeWorld_lastEvent] at hentity'
      rcases observeSnapshot_cases ((deriveEvent o.line o.exitCode o.atMs).map
        CommandEvent.action) o domain (e.snapshots domain) with
        hsame | ⟨-, hnone | ⟨hstays, hlists⟩, -⟩
      · have hgeneration : ((e.observe config o resolves).snapshots domain).generation =
            (e.snapshots domain).generation := by
          show (observeSnapshot _ o domain (e.snapshots domain)).1.generation = _
          rw [observeWorld_lastEvent, hsame]
        rw [hgeneration] at hbump
        exact absurd hbump (lt_irrefl _)
      · rw [hnone] at hentity'
        cases hentity'
      · rw [hstays] at hentity'
        rcases hlists with ⟨rfl, haction, hzero⟩ | ⟨rfl, haction, hzero⟩
        · rw [hfinds.1 ⟨haction, hzero⟩] at hentity'
          cases hentity'
        · rw [hfinds.2 ⟨haction, hzero⟩] at hentity'
          cases hentity'
    · exact absurd hle (hbehind r (Or.inr (Or.inr ⟨w, Or.inl ⟨since, hw⟩⟩)) hdomain)
    · exact absurd hle (hbehind r (Or.inr (Or.inr ⟨w, Or.inr ⟨entities, hw⟩⟩)) hdomain)
  · exact absurd hbump (lt_irrefl _)
  · exact absurd hbump (lt_irrefl _)
  · exact absurd hbump (lt_irrefl _)
  · exact absurd hbump (lt_irrefl _)
  · have hgeneration : ((e.install r entities nowMs).snapshots domain).generation =
        (e.snapshots domain).generation := by
      rcases install_snapshots e r entities nowMs domain with h | ⟨-, -, h⟩
      · rw [h]
      · rw [h]
    exact absurd hbump (by
      show ¬ _ < ((e.install r entities nowMs).snapshots domain).generation
      rw [hgeneration]
      exact lt_irrefl _)

theorem EachFindsCleared.drop {earlier rest : List Step}
    (h : EachFindsCleared config (earlier ++ rest) e)
    (hrun : Engine.run config earlier e = some e') : EachFindsCleared config rest e' := by
  induction earlier generalizing e with
  | nil =>
    cases hrun
    exact h
  | cons first more ih =>
    rw [run_cons] at hrun
    obtain ⟨next, hnext, hmore⟩ := Option.bind_eq_some_iff.mp hrun
    exact ih (h.2 next hnext) hmore

theorem shown_subset {nowMs : ℕ} {entity : Entity} (h : entity ∈ e.shown domain nowMs) :
    entity ∈ (e.snapshots domain).entities := by
  unfold Engine.shown at h
  simp only at h
  split at h
  · cases h
  · exact h

theorem bounded_start (learned : Learned) (cwd : String) (attemptedAtMs : ℕ)
    (aptResolves : Bool) : (Engine.start learned cwd attemptedAtMs aptResolves).Bounded := by
  intro r hpending
  rcases hpending with hmem | hmem | ⟨worker, ⟨since, hw⟩ | ⟨entities, hw⟩⟩
  · have hzero : r.generation = 0 := by
      rcases List.mem_append.mp hmem with hmem | hmem
      · simp only [List.mem_cons, Job.refresh.injEq, List.not_mem_nil, or_false,
          reduceCtorEq, false_or] at hmem
        rcases hmem with rfl | rfl <;> rfl
      · split at hmem
        · simp only [List.mem_cons, Job.refresh.injEq, List.not_mem_nil, or_false] at hmem
          rw [hmem]
        · cases hmem
    rw [hzero]
    exact Nat.zero_le _
  · cases hmem
  · cases hw
  · cases hw

theorem neverStale (hstart : start.Bounded) (heach : EachFindsCleared config steps start) :
    NeverStale config start steps := by
  intro earlier step middle nowMs line later before after current domain hsteps hbefore hafter
    hcurrent hbump entity hentity
  subst hsteps
  have hbounded : before.Bounded :=
    run_keeps (P := Engine.Bounded) (fun h hstep => h.stepped hstep) hstart hbefore
  have hfresh := fresh_of_bump hbounded (heach.drop hbefore).1 hafter hbump
  have hkept := run_keeps (P := fun x => x.Fresh domain _ _) (fun h hstep => h.stepped hstep)
    hfresh hcurrent
  exact hkept.entities entity (shown_subset hentity)

theorem onlyCurrentInstalled (config : Config) (start : Engine) (steps : List Step) :
    OnlyCurrentInstalled config start steps := by
  intro earlier step middle worker nowMs later before after current r entities hsteps hbefore
    hafter hcurrent hbump hgeneration hworker haccepts first second rest before' after' hmiddle
    hbefore' hafter' hagain
  subst hmiddle
  rw [run_append, hbefore', Option.bind_some, run_cons, hafter', Option.bind_some] at hcurrent
  have hfirst := run_generation hbefore' r.domain
  have hrest := run_generation hcurrent r.domain
  unfold Engine.accepts at haccepts
  rw [Bool.and_eq_true, beq_iff_eq] at haccepts
  have hinstalled := haccepts.1
  omega

/-- In a run whose listings of processes and services find these snapshots empty, no query
shows an entity from before an invalidation; and only current refreshes are ever installed. -/
theorem snapshots_fresh_of_findsCleared (config : Config) (learned : Learned) (cwd : String)
    (attemptedAtMs : ℕ) (aptResolves : Bool) (steps : List Step)
    (heach : EachFindsCleared config steps
      (.start learned cwd attemptedAtMs aptResolves)) :
    NeverStale config (.start learned cwd attemptedAtMs aptResolves) steps ∧
      OnlyCurrentInstalled config (.start learned cwd attemptedAtMs aptResolves) steps :=
  ⟨neverStale (bounded_start learned cwd attemptedAtMs aptResolves) heach,
    onlyCurrentInstalled config _ steps⟩

/-- A listing of the processes as the shell reports it. -/
def psAt (nowMs : ℕ) : Step :=
  .observe ⟨"ps".toList, 0, nowMs, "/"⟩ fun _ => true

local instance neZero_two : NeZero 2 := ⟨Nat.succ_ne_zero 1⟩

/-- The jobs of the start fail, and the first listing finds one process. -/
def oneProcessFound : List Step :=
  [.submit, .submit, .submit, psAt 1, .submit, .take 0, .finish 0 none, .take 0, .finish 0 none,
    .take 0, .finish 0 none, .take 0, .finish 0 (some ["4242".toList]), .install 0 2]

def quietConfig : Config := ⟨true, false, false⟩

def quietStart : Engine := .start ⟨none, "", [], []⟩ "/" 0 false

/-- After the second listing a query offers the process that the first one found. -/
theorem listed_process_is_stale :
    ¬ ∀ (config : Config) (learned : Learned) (cwd : String) (attemptedAtMs : ℕ)
      (aptResolves : Bool) (steps : List Step),
      NeverStale config (.start learned cwd attemptedAtMs aptResolves) steps ∧
        OnlyCurrentInstalled config (.start learned cwd attemptedAtMs aptResolves) steps := by
  intro h
  have hrun : ((Engine.run quietConfig oneProcessFound quietStart).bind fun before =>
      (before.step quietConfig (psAt 3)).bind fun after =>
        (Engine.run quietConfig [.submit] after).map fun current =>
          (before.clock, (before.snapshots .process).generation,
            (after.snapshots .process).generation, current.shown .process 3)) =
      some (14, 1, 2, [⟨"4242".toList, 11⟩]) := by decide +kernel
  obtain ⟨before, hbefore, hrun⟩ := Option.bind_eq_some_iff.mp hrun
  obtain ⟨after, hafter, hrun⟩ := Option.bind_eq_some_iff.mp hrun
  obtain ⟨current, hcurrent, hrun⟩ := Option.map_eq_some_iff.mp hrun
  simp only [Prod.mk.injEq] at hrun
  obtain ⟨hclock, hfirst, hsecond, hshown⟩ := hrun
  have hstale := (h quietConfig ⟨none, "", [], []⟩ "/" 0 false
    (oneProcessFound ++ psAt 3 :: ([.submit] ++ .query 3 "kill 4".toList :: []))).1
    oneProcessFound (psAt 3) [.submit] 3 "kill 4".toList [] before after current .process rfl
    hbefore hafter hcurrent (by omega) ⟨"4242".toList, 11⟩ (by rw [hshown]; exact List.mem_cons_self)
  rw [hclock] at hstale
  exact absurd hstale (by decide)

/-- A listing of the containers is followed by a query. -/
theorem listed_containers_are_fresh :
    NeverStale quietConfig quietStart [.submit, .submit, .submit,
      .observe ⟨"docker ps".toList, 0, 1, "/"⟩ fun _ => true, .submit, .query 2 "docker".toList] ∧
    OnlyCurrentInstalled quietConfig quietStart [.submit, .submit, .submit,
      .observe ⟨"docker ps".toList, 0, 1, "/"⟩ fun _ => true, .submit,
      .query 2 "docker".toList] := by
  apply snapshots_fresh_of_findsCleared
  have haction : (deriveEvent "docker ps".toList 0 1).map CommandEvent.action =
      some (.dockerList false) := by decide +kernel
  refine ⟨trivial, fun _ _ => ⟨trivial, fun _ _ => ⟨trivial, fun _ _ => ⟨⟨?_, ?_⟩, fun _ _ =>
    ⟨trivial, fun _ _ => ⟨trivial, fun _ _ => trivial⟩⟩⟩⟩⟩⟩
  · rintro ⟨hlists, -⟩
    rw [haction] at hlists
    cases hlists
  · rintro ⟨hlists, -⟩
    rw [haction] at hlists
    cases hlists

end Runs

end BashGuess
