import SynOSStudio.BuildTools.JobLedger

/-!
# Runs of the worker pool

Every step of every worker keeps the ledger, so it holds in each state that some
interleaving reaches. What a caller of `run_parallel` relies on is read off it.
-/

namespace BuildTools

variable {Item Id Result : Type} [DecidableEq Item] {jobs : ℕ} {id : Item → Id}
  {items : List Item} {c c' : Pool Item Id Result jobs} {item : Item} {w : Fin jobs}

section Steps

theorem Accounted.start (hnodup : items.Nodup) :
    Accounted id items (Pool.start items : Pool Item Id Result jobs) where
  located x hx := Or.inl {
    pending := List.count_eq_one_of_mem hnodup hx
    unheld := fun _ h => Option.some_ne_none x h.symm
    unrecorded := rfl
    attempts := rfl
    few := Nat.zero_lt_two
    raised := fun _ houtcome => absurd houtcome List.not_mem_nil }
  pending _ hx := hx
  held _ _ h := nomatch h
  inFlight := by
    have hempty : (Pool.start items : Pool Item Id Result jobs).holders = ∅ := by
      ext w
      rw [mem_holders]
      simp [Pool.start, Worker.held]
    rw [hempty]
    rfl
  results _ h := absurd rfl h
  drained _ h := nomatch h

/-- What `take` does to the ledger. -/
theorem Accounted.afterTake (h : Accounted id items c) (hw : c.workers w = .taking) :
    Accounted id items (c.afterTake w) := by
  have hheld : (c.workers w).held = none := by
    rw [hw]
    rfl
  cases hpending : c.queue.pending with
  | cons item rest =>
    have htake := h.takeItem hw hpending
    rwa [show c.afterTake w = c.place w (.marking item)
      { c.queue with pending := rest, inFlight := c.queue.inFlight + 1 } by
        simp [Pool.afterTake, LocalJobQueue.take, hpending]]
  | nil =>
    by_cases hflight : c.queue.inFlight = 0
    · have hdrained : Accounted id items (c.place w .returned c.queue) :=
        h.empty_handed hheld rfl fun _ => h.all_recorded hpending hflight
      rwa [show c.afterTake w = c.place w .returned c.queue by
        simp [Pool.afterTake, LocalJobQueue.take, hpending, hflight]]
    · have hwait : Accounted id items (c.place w .taking c.queue) :=
        h.empty_handed hheld rfl nofun
      rwa [show c.afterTake w = c.place w .taking c.queue by
        simp [Pool.afterTake, LocalJobQueue.take, hpending, hflight]]

/-- A worker moves on with its item while the queue stays as it is. -/
theorem Accounted.carry (h : Accounted id items c) {worker : Worker Item Id Result}
    (hheld : (c.workers w).held = some item) (hnew : worker.held = some item)
    (hstage : Stage id item (c.outcomes item) (c.queue.attempts (id item)) (c.workers w) →
      Stage id item (c.outcomes item) (c.queue.attempts (id item)) worker) :
    Accounted id items (c.place w worker c.queue) := by
  refine h.keep (w := w) hheld ?_ (fun w' hne => place_workers_other hne) ⟨rfl, rfl, rfl⟩
    (fun _ _ _ => rfl) (fun _ _ => rfl) ?_
  · rw [place_workers_same]
    exact hnew
  · rw [place_workers_same]
    exact hstage

/-- The attempt of a worker ends with this outcome. -/
theorem Accounted.attempt (h : Accounted id items c) {worker : Worker Item Id Result}
    {outcome : Except Failure Result} (hw : c.workers w = .building item)
    (hnew : worker.held = some item)
    (hstage : (c.queue.attempts (id item) = (c.outcomes item).length + 1 ∧
        c.queue.attempts (id item) ≤ maxAttemptsPerTarget ∧ AllRaised (c.outcomes item)) →
      Stage id item (c.outcomes item ++ [outcome]) (c.queue.attempts (id item)) worker) :
    Accounted id items ((c.place w worker c.queue).logged item outcome) := by
  have hheld : (c.workers w).held = some item := by
    rw [hw]
    rfl
  have hplace : ((c.place w worker c.queue).logged item outcome).workers w = worker := by
    simp [Pool.logged]
  have hothers : ∀ w', w' ≠ w →
      ((c.place w worker c.queue).logged item outcome).workers w' = c.workers w' := by
    intro w' hne
    simp [Pool.logged, place_workers_other hne]
  refine h.keep (w := w) hheld ?_ hothers ⟨rfl, rfl, rfl⟩
    (fun _ _ _ => rfl) (fun x hx => outcomes_logged_other outcome hx) fun hbuilding => ?_
  · rw [hplace]
    exact hnew
  · rw [hplace, outcomes_logged_same]
    rw [hw] at hbuilding
    exact hstage hbuilding

variable [DecidableEq Id]

theorem Accounted.markRunning (h : Accounted id items c)
    (hids : ∀ x ∈ items, ∀ y ∈ items, id x = id y → x = y) (hw : c.workers w = .marking item) :
    Accounted id items (c.place w (.building item) (c.queue.markRunning id item)) := by
  have hheld : (c.workers w).held = some item := by
    rw [hw]
    rfl
  have hattempts : (c.queue.markRunning id item).attempts (id item) =
      c.queue.attempts (id item) + 1 := Function.update_self _ _ _
  refine h.keep (w := w) hheld ?_ (fun w' hne => place_workers_other hne) ⟨rfl, rfl, rfl⟩
    (fun x hx hne => Function.update_of_ne (fun heq => hne (hids x hx item (h.held w item hheld) heq))
      _ _) (fun _ _ => rfl) fun hmarking => ?_
  · rw [place_workers_same]
    rfl
  · rw [hw] at hmarking
    obtain ⟨hlength, hfew, hraised⟩ := hmarking
    rw [place_workers_same]
    refine ⟨?_, ?_, hraised⟩
    · show (c.queue.markRunning id item).attempts (id item) = _
      rw [hattempts, hlength]
      rfl
    · show (c.queue.markRunning id item).attempts (id item) ≤ _
      rw [hattempts]
      exact hfew

theorem Accounted.step (hids : ∀ x ∈ items, ∀ y ∈ items, id x = id y → x = y)
    (h : Accounted id items c) (hstep : Pool.Step id c c') : Accounted id items c' := by
  cases hstep with
  | take w hw => exact h.afterTake hw
  | markRunning w item hw => exact h.markRunning hids hw
  | buildReturns w item result hw =>
    refine h.attempt hw rfl fun hbuilding => ?_
    obtain ⟨hlength, hfew, hraised⟩ := hbuilding
    exact ⟨by simpa using hlength, hfew, _, rfl, hraised⟩
  | buildRaises w item failure hw =>
    refine h.attempt hw rfl fun hbuilding => ?_
    obtain ⟨hlength, hfew, hraised⟩ := hbuilding
    exact ⟨by simpa using hlength, hfew, hraised.append failure⟩
  | retry w item failure hw hattempts =>
    refine h.carry (by rw [hw]; rfl) rfl fun hchecking => ?_
    rw [hw] at hchecking
    exact ⟨hchecking.1, hattempts, hchecking.2.2⟩
  | giveUp w item failure hw hattempts =>
    refine h.carry (by rw [hw]; rfl) rfl fun hchecking => ?_
    rw [hw] at hchecking
    exact ⟨hchecking.1, le_antisymm hchecking.2.1 (not_lt.mp hattempts), hchecking.2.2⟩
  | requeue w item hw => exact h.requeueItem hw
  | describe w item failure hw =>
    refine h.carry (by rw [hw]; rfl) rfl fun hdescribing => ?_
    rw [hw] at hdescribing
    obtain ⟨hlength, hattempts, hraised⟩ := hdescribing
    refine ⟨hlength, hattempts.le, hlength.symm.trans hattempts, hraised, w, failure, ?_⟩
    rw [← hattempts]
    rfl
  | recordResult w item result hw => exact h.recordItem hids hw
  | onResult w item result hw =>
    exact h.empty_handed (by rw [hw]; rfl) rfl nofun

theorem Accounted.reaches (hids : ∀ x ∈ items, ∀ y ∈ items, id x = id y → x = y)
    (h : Accounted id items c) (hreach : Pool.Reaches id c c') : Accounted id items c' := by
  induction hreach with
  | refl => exact h
  | tail _ hstep ih => exact ih.step hids hstep

end Steps

section Results

/-- The item whose attempt is in progress at a worker. -/
def Worker.running : Worker Item Id Result → Option Item
  | .building item => some item
  | _ => none

/-- How often `build_one` has been called for an item. -/
def Pool.calls (c : Pool Item Id Result jobs) (item : Item) : ℕ :=
  (c.outcomes item).length + (Finset.univ.filter fun w => (c.workers w).running = some item).card

/-- The items that some worker holds. -/
def Pool.heldItems (c : Pool Item Id Result jobs) (items : List Item) : Finset Item :=
  items.toFinset.filter fun item => ∃ w, (c.workers w).held = some item

/-- The item is in one of the three places and in no other. -/
def Pool.InOnePlace (id : Item → Id) (c : Pool Item Id Result jobs) (item : Item) : Prop :=
  (c.queue.pending.count item = 1 ∧ (∀ w, (c.workers w).held ≠ some item) ∧
    c.queue.results (id item) = none) ∨
  (c.queue.pending.count item = 0 ∧ (∃! w, (c.workers w).held = some item) ∧
    c.queue.results (id item) = none) ∨
  (c.queue.pending.count item = 0 ∧ (∀ w, (c.workers w).held ≠ some item) ∧
    ∃ result, c.queue.results (id item) = some result)

theorem Located.in_one_place (h : Located id c item) : c.InOnePlace id item := by
  rcases h with h | ⟨w, h⟩ | h
  · exact Or.inl ⟨h.pending, h.unheld, h.unrecorded⟩
  · exact Or.inr (Or.inl ⟨h.pending, ⟨w, (h.holder w).mpr rfl, fun w' => (h.holder w').mp⟩,
      h.unrecorded⟩)
  · obtain ⟨result, hresult, -⟩ := h.recorded
    exact Or.inr (Or.inr ⟨h.pending, h.unheld, result, hresult⟩)

omit [DecidableEq Item] in
theorem Worker.held_of_running {worker : Worker Item Id Result} (h : worker.running = some item) :
    worker = .building item := by
  cases worker <;> simp_all [Worker.running]

theorem Pool.calls_eq_outcomes (h : ∀ w, c.workers w ≠ .building item) :
    c.calls item = (c.outcomes item).length := by
  have hempty : (Finset.univ.filter fun w => (c.workers w).running = some item) = ∅ := by
    ext w
    simp only [Finset.mem_filter, Finset.mem_univ, true_and, Finset.notMem_empty, iff_false]
    intro hrunning
    exact h w (Worker.held_of_running hrunning)
  rw [Pool.calls, hempty, Finset.card_empty, add_zero]

theorem Pool.calls_le (h : ∀ w', (c.workers w').held = some item ↔ w' = w) :
    c.calls item ≤ (c.outcomes item).length + 1 := by
  have hsub : (Finset.univ.filter fun w => (c.workers w).running = some item) ⊆ {w} := by
    intro w' hw'
    rw [Finset.mem_filter] at hw'
    refine Finset.mem_singleton.mpr ((h w').mp ?_)
    rw [Worker.held_of_running hw'.2]
    rfl
  have hcard := Finset.card_le_card hsub
  rw [Finset.card_singleton] at hcard
  unfold Pool.calls
  omega

omit [DecidableEq Item] in
theorem Stage.few {outcomes : List (Except Failure Result)} {attempts : ℕ}
    {worker : Worker Item Id Result} (h : Stage id item outcomes attempts worker) :
    outcomes.length ≤ attempts ∧ attempts ≤ maxAttemptsPerTarget := by
  cases worker with
  | marking => exact ⟨h.1.ge, h.2.1.le⟩
  | building => exact ⟨by have := h.1; omega, h.2.1⟩
  | checking => exact ⟨h.1.ge, h.2.1⟩
  | requeueing => exact ⟨h.1.ge, h.2.1.le⟩
  | describing => exact ⟨h.1.ge, h.2.1.le⟩
  | recording => exact ⟨h.1.ge, h.2.1⟩
  | taking => exact h.elim
  | notifying => exact h.elim
  | returned => exact h.elim

omit [DecidableEq Item] in
theorem not_building_of_unheld (h : ∀ w, (c.workers w).held ≠ some item) (w : Fin jobs) :
    c.workers w ≠ .building item := by
  intro hw
  apply h w
  rw [hw]
  rfl

/-- No item is marked or built more often than the bound says. -/
theorem Located.few_attempts (h : Located id c item) :
    c.queue.attempts (id item) ≤ maxAttemptsPerTarget ∧ c.calls item ≤ maxAttemptsPerTarget := by
  rcases h with h | ⟨w, h⟩ | h
  · rw [Pool.calls_eq_outcomes (not_building_of_unheld h.unheld), ← h.attempts]
    exact ⟨h.few.le, h.few.le⟩
  · have hfew := h.stage.few
    refine ⟨hfew.2, ?_⟩
    by_cases hbuilding : c.workers w = .building item
    · have hstage := h.stage
      rw [hbuilding] at hstage
      have hlength : c.queue.attempts (id item) = (c.outcomes item).length + 1 := hstage.1
      have hcalls := Pool.calls_le h.holder
      omega
    · rw [Pool.calls_eq_outcomes fun w' hw' => ?_]
      · exact hfew.1.trans hfew.2
      · have heq : w' = w := (h.holder w').mp (by rw [hw']; rfl)
        exact hbuilding (heq ▸ hw')
  · rw [Pool.calls_eq_outcomes (not_building_of_unheld h.unheld), ← h.attempts]
    exact ⟨h.few, h.few⟩

theorem Accounted.card_heldItems (h : Accounted id items c) :
    (c.heldItems items).card = c.holders.card := by
  refine (Finset.card_bij (fun w hw => (c.workers w).held.get (mem_holders.mp hw)) ?_ ?_ ?_).symm
  · intro w hw
    have hheld : (c.workers w).held = some ((c.workers w).held.get (mem_holders.mp hw)) := by simp
    simp only [Pool.heldItems, Finset.mem_filter, List.mem_toFinset]
    exact ⟨h.held w _ hheld, w, hheld⟩
  · intro w hw w' hw' heq
    have hheld : (c.workers w).held = some ((c.workers w).held.get (mem_holders.mp hw)) := by simp
    have hheld' : (c.workers w').held = some ((c.workers w).held.get (mem_holders.mp hw)) := by
      rw [heq]
      simp
    have hlocated := (h.located _ (h.held w _ hheld)).heldBy hheld
    exact ((hlocated.holder w').mp hheld').symm
  · intro item hitem
    simp only [Pool.heldItems, Finset.mem_filter, List.mem_toFinset] at hitem
    obtain ⟨-, w, hw⟩ := hitem
    exact ⟨w, mem_holders.mpr (by rw [hw]; rfl), by simp [hw]⟩

omit [DecidableEq Item] in
/-- `take` hands out `None` only when nothing is pending and nothing in flight. -/
theorem take_drained {q : LocalJobQueue Item Id Result} {q' : LocalJobQueue Item Id Result}
    (h : q.take = (.drained, q')) : q.pending = [] ∧ q.inFlight = 0 := by
  unfold LocalJobQueue.take at h
  split at h
  · cases h
  · rename_i hpending
    split at h
    · rename_i hflight
      exact ⟨hpending, hflight⟩
    · cases h

variable [DecidableEq Id]

/-- What holds of the queue, the workers and the results in every state of a run. -/
theorem parallel_run_accounts_for_every_item (hids : (items.map id).Nodup) (hjobs : 1 ≤ jobs)
    (hreach : Pool.Reaches id (.start items) c) :
    (∀ item ∈ items, c.InOnePlace id item) ∧
    c.queue.inFlight = (c.heldItems items).card ∧
    (∀ item ∈ items, c.queue.attempts (id item) ≤ maxAttemptsPerTarget ∧
      c.calls item ≤ maxAttemptsPerTarget) ∧
    (∀ queue, c.queue.take = (.drained, queue) →
      ∀ item ∈ items, c.queue.results (id item) ≠ none) ∧
    ((∀ w, c.workers w = .returned) →
      (∀ i, c.queue.results i ≠ none → ∃ item ∈ items, id item = i) ∧
      ∀ item ∈ items, ∃ result, c.queue.results (id item) = some result ∧
        Justified id item (c.outcomes item) result) := by
  have hinj : ∀ x ∈ items, ∀ y ∈ items, id x = id y → x = y := List.inj_on_of_nodup_map hids
  have h := (Accounted.start hids.of_map).reaches hinj hreach
  refine ⟨fun item hitem => (h.located item hitem).in_one_place, ?_,
    fun item hitem => (h.located item hitem).few_attempts, fun queue htake => ?_,
    fun hreturned => ⟨h.results, fun item hitem => ?_⟩⟩
  · rw [h.card_heldItems]
    exact h.inFlight
  · obtain ⟨hpending, hflight⟩ := take_drained htake
    exact h.all_recorded hpending hflight
  · have hrecorded := h.drained ⟨0, hjobs⟩ (hreturned _) item hitem
    rcases h.located item hitem with hwaiting | ⟨w, hheld⟩ | hdone
    · exact absurd hwaiting.unrecorded hrecorded
    · exact absurd hheld.unrecorded hrecorded
    · exact hdone.recorded

/-- One worker whose first attempt raises and whose second returns. -/
theorem retried_run_reaches_its_end : ∃ c : Pool ℕ ℕ ℕ 1,
    Pool.Reaches (fun item => item) (.start [5]) c ∧ (∀ w, c.workers w = .returned) ∧
      c.queue.results 5 = some (.returned 7) := by
  refine ⟨_, (((((((((((Relation.ReflTransGen.refl).tail (.take 0 rfl)).tail
    (.markRunning 0 5 rfl)).tail (.buildRaises 0 5 ⟨"OSError", "disk full"⟩ rfl)).tail
    (.retry 0 5 ⟨"OSError", "disk full"⟩ rfl (by decide))).tail (.requeue 0 5 rfl)).tail
    (.take 0 rfl)).tail (.markRunning 0 5 rfl)).tail (.buildReturns 0 5 7 rfl)).tail
    (.recordResult 0 5 (.returned 7) rfl)).tail (.onResult 0 5 (.returned 7) rfl)).tail
    (.take 0 rfl), fun w => ?_, rfl⟩
  rw [Fin.fin_one_eq_zero w]
  rfl

theorem parallel_run_accounts_for_a_retried_item : ∃ c : Pool ℕ ℕ ℕ 1,
    (∀ item ∈ [5], c.InOnePlace (fun item => item) item) ∧ c.queue.inFlight = (c.heldItems [5]).card ∧
      c.calls 5 ≤ maxAttemptsPerTarget ∧ c.queue.results 5 = some (.returned 7) ∧
      ∃ result, c.queue.results 5 = some result ∧
        Justified (fun item => item) 5 (c.outcomes 5) result := by
  obtain ⟨c, hreach, hreturned, hresult⟩ := retried_run_reaches_its_end
  obtain ⟨hplace, hflight, hattempts, -, hend⟩ :=
    parallel_run_accounts_for_every_item (by decide) le_rfl hreach
  exact ⟨c, hplace, hflight, (hattempts 5 List.mem_cons_self).2, hresult,
    (hend hreturned).2 5 List.mem_cons_self⟩

end Results

end BuildTools
