import SynOSStudio.BuildTools.JobQueue

/-!
# The ledger of a parallel run

Every item is pending, held by one worker or recorded, whatever the order of the
workers' steps is, and its attempts are accounted for at each place. One lemma says
what a step leaves alone of the items it does not concern; the others follow the item
of the step from place to place.
-/

namespace BuildTools

variable {Item Id Result : Type} [DecidableEq Item] {jobs : ℕ} {id : Item → Id}
  {c c' : Pool Item Id Result jobs} {item x : Item} {w : Fin jobs}

/-- How the ended attempts of an item ended, oldest first. -/
def Pool.outcomes (c : Pool Item Id Result jobs) (item : Item) : List (Except Failure Result) :=
  (c.history.filter fun entry => entry.1 = item).map Prod.snd

def AllRaised (outcomes : List (Except Failure Result)) : Prop :=
  ∀ outcome ∈ outcomes, ∃ failure, outcome = .error failure

/-- A result is what the last attempt returned, or the crash record after two that raised. -/
def Justified (id : Item → Id) (item : Item) (outcomes : List (Except Failure Result)) :
    JobResult Id Result → Prop
  | .returned result => ∃ failed, outcomes = failed ++ [.ok result] ∧ AllRaised failed
  | .crashed crashId status logTail =>
    outcomes.length = maxAttemptsPerTarget ∧ AllRaised outcomes ∧
      ∃ (worker : ℕ) (failure : Failure), .crashed crashId status logTail =
        (crashRecord id item worker maxAttemptsPerTarget failure : JobResult Id Result)

/-- The attempts of an item, counted while a worker stands at a place with it. -/
def Stage (id : Item → Id) (item : Item) (outcomes : List (Except Failure Result)) (attempts : ℕ) :
    Worker Item Id Result → Prop
  | .marking _ => attempts = outcomes.length ∧ attempts < maxAttemptsPerTarget ∧ AllRaised outcomes
  | .building _ =>
    attempts = outcomes.length + 1 ∧ attempts ≤ maxAttemptsPerTarget ∧ AllRaised outcomes
  | .checking _ _ =>
    attempts = outcomes.length ∧ attempts ≤ maxAttemptsPerTarget ∧ AllRaised outcomes
  | .requeueing _ =>
    attempts = outcomes.length ∧ attempts < maxAttemptsPerTarget ∧ AllRaised outcomes
  | .describing _ _ =>
    attempts = outcomes.length ∧ attempts = maxAttemptsPerTarget ∧ AllRaised outcomes
  | .recording _ result =>
    attempts = outcomes.length ∧ attempts ≤ maxAttemptsPerTarget ∧ Justified id item outcomes result
  | .taking => False
  | .notifying _ _ => False
  | .returned => False

/-- The item waits for an attempt. -/
structure Waiting (id : Item → Id) (c : Pool Item Id Result jobs) (item : Item) : Prop where
  pending : c.queue.pending.count item = 1
  unheld : ∀ w, (c.workers w).held ≠ some item
  unrecorded : c.queue.results (id item) = none
  attempts : c.queue.attempts (id item) = (c.outcomes item).length
  few : c.queue.attempts (id item) < maxAttemptsPerTarget
  raised : AllRaised (c.outcomes item)

/-- The item is held by this worker and no other. -/
structure HeldBy (id : Item → Id) (c : Pool Item Id Result jobs) (item : Item) (w : Fin jobs) :
    Prop where
  pending : c.queue.pending.count item = 0
  holder : ∀ w', (c.workers w').held = some item ↔ w' = w
  unrecorded : c.queue.results (id item) = none
  stage : Stage id item (c.outcomes item) (c.queue.attempts (id item)) (c.workers w)

/-- The item has its result. -/
structure Recorded (id : Item → Id) (c : Pool Item Id Result jobs) (item : Item) : Prop where
  pending : c.queue.pending.count item = 0
  unheld : ∀ w, (c.workers w).held ≠ some item
  recorded : ∃ result, c.queue.results (id item) = some result ∧
    Justified id item (c.outcomes item) result
  attempts : c.queue.attempts (id item) = (c.outcomes item).length
  few : c.queue.attempts (id item) ≤ maxAttemptsPerTarget

def Located (id : Item → Id) (c : Pool Item Id Result jobs) (item : Item) : Prop :=
  Waiting id c item ∨ (∃ w, HeldBy id c item w) ∨ Recorded id c item

/-- The workers that hold an item. -/
def Pool.holders (c : Pool Item Id Result jobs) : Finset (Fin jobs) :=
  Finset.univ.filter fun w => (c.workers w).held.isSome

/-- The invariant of a run over these items. -/
structure Accounted (id : Item → Id) (items : List Item) (c : Pool Item Id Result jobs) : Prop where
  located : ∀ item ∈ items, Located id c item
  pending : ∀ item ∈ c.queue.pending, item ∈ items
  held : ∀ w item, (c.workers w).held = some item → item ∈ items
  inFlight : c.queue.inFlight = c.holders.card
  results : ∀ i, c.queue.results i ≠ none → ∃ item ∈ items, id item = i
  drained : ∀ w, c.workers w = .returned → ∀ item ∈ items, c.queue.results (id item) ≠ none

section Frame

/-- What a step of one worker leaves alone keeps an item at its place. -/
theorem Located.frame (h : Located id c x) (w : Fin jobs)
    (hpending : c'.queue.pending.count x = c.queue.pending.count x)
    (hresults : c'.queue.results (id x) = c.queue.results (id x))
    (hattempts : c'.queue.attempts (id x) = c.queue.attempts (id x))
    (houtcomes : c'.outcomes x = c.outcomes x)
    (hothers : ∀ w', w' ≠ w → c'.workers w' = c.workers w')
    (hold : (c.workers w).held ≠ some x) (hnew : (c'.workers w).held ≠ some x) :
    Located id c' x := by
  have hheld : ∀ w', (c'.workers w').held = some x ↔ (c.workers w').held = some x := by
    intro w'
    by_cases hw : w' = w
    · subst hw
      exact iff_of_false hnew hold
    · rw [hothers w' hw]
  rcases h with h | ⟨w', h⟩ | h
  · refine Or.inl ⟨hpending.trans h.pending, fun w' hw' => h.unheld w' ((hheld w').mp hw'),
      hresults.trans h.unrecorded, ?_, ?_, ?_⟩
    · rw [hattempts, houtcomes]
      exact h.attempts
    · rw [hattempts]
      exact h.few
    · rw [houtcomes]
      exact h.raised
  · have hne : w' ≠ w := by
      rintro rfl
      exact hold ((h.holder w').mpr rfl)
    refine Or.inr (Or.inl ⟨w', hpending.trans h.pending, fun w'' => (hheld w'').trans (h.holder w''),
      hresults.trans h.unrecorded, ?_⟩)
    rw [hattempts, houtcomes, hothers w' hne]
    exact h.stage
  · refine Or.inr (Or.inr ⟨hpending.trans h.pending, fun w' hw' => h.unheld w' ((hheld w').mp hw'),
      ?_, ?_, ?_⟩)
    · rw [hresults, houtcomes]
      exact h.recorded
    · rw [hattempts, houtcomes]
      exact h.attempts
    · rw [hattempts]
      exact h.few

/-- An item that a worker holds is at that worker's place. -/
theorem Located.heldBy (h : Located id c item) (hw : (c.workers w).held = some item) :
    HeldBy id c item w := by
  rcases h with h | ⟨w', h⟩ | h
  · exact absurd hw (h.unheld w)
  · have heq : w = w' := (h.holder w).mp hw
    subst heq
    exact h
  · exact absurd hw (h.unheld w)

theorem Located.waiting (h : Located id c item) (hpending : item ∈ c.queue.pending) :
    Waiting id c item := by
  have hcount : 0 < c.queue.pending.count item := List.count_pos_iff.mpr hpending
  rcases h with h | ⟨w, h⟩ | h
  · exact h
  · rw [h.pending] at hcount
    exact absurd hcount (lt_irrefl 0)
  · rw [h.pending] at hcount
    exact absurd hcount (lt_irrefl 0)

end Frame

section Holders

omit [DecidableEq Item]

variable {worker : Worker Item Id Result} {queue : LocalJobQueue Item Id Result}

@[simp] theorem place_workers_same : (c.place w worker queue).workers w = worker := by
  simp [Pool.place]

theorem place_workers_other {w' : Fin jobs} (h : w' ≠ w) :
    (c.place w worker queue).workers w' = c.workers w' := by
  simp [Pool.place, h]

theorem mem_holders {w' : Fin jobs} : w' ∈ c.holders ↔ (c.workers w').held.isSome := by
  simp [Pool.holders]

theorem holders_place_same (h : worker.held.isSome = (c.workers w).held.isSome) :
    (c.place w worker queue).holders = c.holders := by
  ext w'
  rw [mem_holders, mem_holders]
  by_cases hw : w' = w
  · subst hw
    rw [place_workers_same, h]
  · rw [place_workers_other hw]

theorem holders_place_insert (hold : (c.workers w).held = none) (hnew : worker.held.isSome) :
    (c.place w worker queue).holders.card = c.holders.card + 1 := by
  have hnot : w ∉ c.holders := by
    rw [mem_holders, hold]
    simp
  have hinsert : (c.place w worker queue).holders = insert w c.holders := by
    ext w'
    rw [Finset.mem_insert, mem_holders, mem_holders]
    by_cases hw : w' = w
    · subst hw
      simp [hnew]
    · rw [place_workers_other hw]
      simp [hw]
  rw [hinsert, Finset.card_insert_of_notMem hnot]

theorem holders_place_erase (hold : (c.workers w).held.isSome) (hnew : worker.held = none) :
    (c.place w worker queue).holders.card + 1 = c.holders.card := by
  have hmem : w ∈ c.holders := mem_holders.mpr hold
  have herase : (c.place w worker queue).holders = c.holders.erase w := by
    ext w'
    rw [Finset.mem_erase, mem_holders, mem_holders]
    by_cases hw : w' = w
    · subst hw
      simp [hnew]
    · rw [place_workers_other hw]
      simp [hw]
  rw [herase, Finset.card_erase_add_one hmem]

end Holders

section Steps

variable {items : List Item}

theorem outcomes_logged_same (outcome : Except Failure Result) :
    (c.logged item outcome).outcomes item = c.outcomes item ++ [outcome] := by
  simp [Pool.outcomes, Pool.logged]

theorem outcomes_logged_other (outcome : Except Failure Result) (h : x ≠ item) :
    (c.logged item outcome).outcomes x = c.outcomes x := by
  simp [Pool.outcomes, Pool.logged, h.symm]

theorem AllRaised.append {outcomes : List (Except Failure Result)} (h : AllRaised outcomes)
    (failure : Failure) : AllRaised (outcomes ++ [.error failure]) := by
  intro outcome houtcome
  rcases List.mem_append.mp houtcome with hmem | hmem
  · exact h outcome hmem
  · exact ⟨failure, List.mem_singleton.mp hmem⟩

/-- A step in which a worker keeps its item: the other items stay where they are. -/
theorem Accounted.keep (h : Accounted id items c) (hheld : (c.workers w).held = some item)
    (hnew : (c'.workers w).held = some item)
    (hothers : ∀ w', w' ≠ w → c'.workers w' = c.workers w')
    (hqueue : c'.queue.pending = c.queue.pending ∧ c'.queue.inFlight = c.queue.inFlight ∧
      c'.queue.results = c.queue.results)
    (hattempts : ∀ x ∈ items, x ≠ item → c'.queue.attempts (id x) = c.queue.attempts (id x))
    (houtcomes : ∀ x, x ≠ item → c'.outcomes x = c.outcomes x)
    (hstage : Stage id item (c.outcomes item) (c.queue.attempts (id item)) (c.workers w) →
      Stage id item (c'.outcomes item) (c'.queue.attempts (id item)) (c'.workers w)) :
    Accounted id items c' := by
  obtain ⟨hpending, hflight, hresults⟩ := hqueue
  have hsame : ∀ w', (c'.workers w').held = (c.workers w').held := by
    intro w'
    by_cases hw : w' = w
    · rw [hw, hnew, hheld]
    · rw [hothers w' hw]
  have hholders : c'.holders = c.holders := by
    ext w'
    rw [mem_holders, mem_holders, hsame]
  refine ⟨fun x hx => ?_, ?_, ?_, ?_, ?_, ?_⟩
  · by_cases hitem : x = item
    · subst hitem
      have hheldBy := (h.located x hx).heldBy hheld
      refine Or.inr (Or.inl ⟨w, ?_, fun w' => ?_, ?_, hstage hheldBy.stage⟩)
      · rw [hpending]
        exact hheldBy.pending
      · rw [hsame]
        exact hheldBy.holder w'
      · rw [hresults]
        exact hheldBy.unrecorded
    · refine (h.located x hx).frame w (by rw [hpending]) (by rw [hresults]) (hattempts x hx hitem)
        (houtcomes x hitem) hothers ?_ ?_
      · rw [hheld]
        exact fun heq => hitem (Option.some.inj heq).symm
      · rw [hnew]
        exact fun heq => hitem (Option.some.inj heq).symm
  · rw [hpending]
    exact h.pending
  · intro w' x hx
    exact h.held w' x ((hsame w').symm.trans hx)
  · rw [hflight, hholders]
    exact h.inFlight
  · rw [hresults]
    exact h.results
  · intro w' hw' x hx
    rw [hresults]
    have hne : w' ≠ w := by
      rintro rfl
      rw [hw'] at hnew
      cases hnew
    exact h.drained w' (hothers w' hne ▸ hw') x hx

/-- A step that moves an item between the queue, a worker and the results. -/
theorem Accounted.move (h : Accounted id items c)
    (hlocated : item ∈ items → Located id c' item)
    (hothers : ∀ w', w' ≠ w → c'.workers w' = c.workers w')
    (hold : ∀ x, (c.workers w).held = some x → x = item)
    (hnew : ∀ x, (c'.workers w).held = some x → x = item ∧ item ∈ items)
    (hframe : ∀ x ∈ items, x ≠ item → c'.queue.pending.count x = c.queue.pending.count x ∧
      c'.queue.results (id x) = c.queue.results (id x) ∧
      c'.queue.attempts (id x) = c.queue.attempts (id x) ∧ c'.outcomes x = c.outcomes x)
    (hpending : ∀ x ∈ c'.queue.pending, x ∈ items)
    (hflight : c'.queue.inFlight = c'.holders.card)
    (hresults : ∀ i, c'.queue.results i ≠ none → ∃ x ∈ items, id x = i)
    (hkept : ∀ i, c.queue.results i ≠ none → c'.queue.results i ≠ none)
    (hdrained : c'.workers w = .returned → ∀ x ∈ items, c'.queue.results (id x) ≠ none) :
    Accounted id items c' := by
  refine ⟨fun x hx => ?_, hpending, fun w' x hx => ?_, hflight, hresults, fun w' hw' x hx => ?_⟩
  · by_cases hitem : x = item
    · subst hitem
      exact hlocated hx
    · obtain ⟨hcount, hresult, hattempts, houtcomes⟩ := hframe x hx hitem
      exact (h.located x hx).frame w hcount hresult hattempts houtcomes hothers
        (fun heq => hitem (hold x heq)) fun heq => hitem (hnew x heq).1
  · by_cases hw : w' = w
    · subst hw
      obtain ⟨rfl, hitem⟩ := hnew x hx
      exact hitem
    · rw [hothers w' hw] at hx
      exact h.held w' x hx
  · by_cases hw : w' = w
    · subst hw
      exact hdrained hw' x hx
    · rw [hothers w' hw] at hw'
      exact hkept _ (h.drained w' hw' x hx)

/-- A worker takes the first pending item. -/
theorem Accounted.takeItem (h : Accounted id items c) (hw : c.workers w = .taking)
    {rest : List Item} (hpending : c.queue.pending = item :: rest) :
    Accounted id items (c.place w (.marking item)
      { c.queue with pending := rest, inFlight := c.queue.inFlight + 1 }) := by
  have hmem : item ∈ c.queue.pending := by
    rw [hpending]
    exact List.mem_cons_self
  have hwaiting := (h.located item (h.pending item hmem)).waiting hmem
  have hcount : rest.count item = 0 := by
    have hone := hwaiting.pending
    rw [hpending, List.count_cons_self] at hone
    omega
  refine h.move (fun hitem => Or.inr (Or.inl ⟨w, hcount, fun w' => ?_, hwaiting.unrecorded, ?_⟩))
    (fun w' hne => place_workers_other hne) (fun x hx => ?_) (fun x hx => ?_) (fun x hx hne => ?_)
    (fun x hx => ?_) ?_ h.results (fun _ hi => hi) (fun hreturned => ?_)
  · by_cases hne : w' = w
    · subst hne
      simp [Worker.held]
    · rw [place_workers_other hne]
      exact iff_of_false (hwaiting.unheld w') hne
  · rw [place_workers_same]
    exact ⟨hwaiting.attempts, hwaiting.few, hwaiting.raised⟩
  · rw [hw] at hx
    cases hx
  · rw [place_workers_same] at hx
    cases hx
    exact ⟨rfl, h.pending _ hmem⟩
  · refine ⟨?_, rfl, rfl, rfl⟩
    rw [hpending, List.count_cons_of_ne (Ne.symm hne)]
    rfl
  · refine h.pending x ?_
    rw [hpending]
    exact List.mem_cons_of_mem item hx
  · have hcard : (c.place w (.marking item)
        { c.queue with pending := rest, inFlight := c.queue.inFlight + 1 }).holders.card =
          c.holders.card + 1 := holders_place_insert (by rw [hw]; rfl) rfl
    show c.queue.inFlight + 1 = _
    rw [hcard, h.inFlight]
    norm_num
  · rw [place_workers_same] at hreturned
    cases hreturned

/-- With nothing pending and nothing in flight every item has its result. -/
theorem Accounted.all_recorded (h : Accounted id items c) (hpending : c.queue.pending = [])
    (hflight : c.queue.inFlight = 0) : ∀ x ∈ items, c.queue.results (id x) ≠ none := by
  intro x hx
  have hempty : c.holders = ∅ := by
    have hcard := h.inFlight
    rw [hflight] at hcard
    exact Finset.card_eq_zero.mp (by exact_mod_cast hcard.symm)
  rcases h.located x hx with hwaiting | ⟨w, hheld⟩ | hrecorded
  · have hcount := hwaiting.pending
    rw [hpending] at hcount
    cases hcount
  · have hmem : w ∈ c.holders := by
      rw [mem_holders, (hheld.holder w).mpr rfl]
      rfl
    rw [hempty] at hmem
    cases hmem
  · obtain ⟨result, hresult, -⟩ := hrecorded.recorded
    rw [hresult]
    exact Option.some_ne_none result

/-- A worker that holds nothing takes a place without an item. -/
theorem Accounted.empty_handed (h : Accounted id items c) {worker : Worker Item Id Result}
    (hold : (c.workers w).held = none) (hnew : worker.held = none)
    (hdrained : worker = .returned → ∀ x ∈ items, c.queue.results (id x) ≠ none) :
    Accounted id items (c.place w worker c.queue) := by
  have hholders : (c.place w worker c.queue).holders = c.holders :=
    holders_place_same (by rw [hnew, hold])
  refine ⟨fun x hx => ?_, h.pending, fun w' x hx => ?_, ?_, h.results, fun w' hw' => ?_⟩
  · refine (h.located x hx).frame w rfl rfl rfl rfl (fun w' hne => place_workers_other hne) ?_ ?_
    · rw [hold]
      exact Option.some_ne_none x ∘ Eq.symm
    · rw [place_workers_same, hnew]
      exact Option.some_ne_none x ∘ Eq.symm
  · by_cases hne : w' = w
    · rw [hne, place_workers_same, hnew] at hx
      cases hx
    · rw [place_workers_other hne] at hx
      exact h.held w' x hx
  · rw [hholders]
    exact h.inFlight
  · by_cases hne : w' = w
    · rw [hne, place_workers_same] at hw'
      exact hdrained hw'
    · rw [place_workers_other hne] at hw'
      exact h.drained w' hw'

/-- A worker puts its item back. -/
theorem Accounted.requeueItem (h : Accounted id items c) (hw : c.workers w = .requeueing item) :
    Accounted id items (c.place w .taking (c.queue.requeue item)) := by
  have hheld : (c.workers w).held = some item := by
    rw [hw]
    rfl
  have hitem := h.held w item hheld
  have hheldBy := (h.located item hitem).heldBy hheld
  have hstage := hheldBy.stage
  rw [hw] at hstage
  refine h.move (w := w) (fun _ => Or.inl ⟨?_, fun w' hw' => ?_, hheldBy.unrecorded, hstage.1,
    hstage.2.1, hstage.2.2⟩) (fun w' hne => place_workers_other hne) (fun x hx => ?_)
    (fun x hx => ?_) (fun x hx hne => ⟨?_, rfl, rfl, rfl⟩) (fun x hx => ?_) ?_ h.results
    (fun _ hi => hi) (fun hreturned => ?_)
  · show (c.queue.pending ++ [item]).count item = 1
    rw [List.count_append, hheldBy.pending, List.count_singleton_self]
  · by_cases hne : w' = w
    · rw [hne, place_workers_same] at hw'
      cases hw'
    · rw [place_workers_other hne] at hw'
      exact hne ((hheldBy.holder w').mp hw')
  · rw [hheld] at hx
    exact (Option.some.inj hx).symm
  · rw [place_workers_same] at hx
    cases hx
  · show (c.queue.pending ++ [item]).count x = _
    rw [List.count_append, List.count_singleton, if_neg (by simpa using Ne.symm hne), add_zero]
  · rcases List.mem_append.mp hx with hmem | hmem
    · exact h.pending x hmem
    · rw [List.mem_singleton.mp hmem]
      exact hitem
  · have hcard : (c.place w .taking (c.queue.requeue item)).holders.card + 1 = c.holders.card :=
      holders_place_erase (by rw [hheld]; rfl) rfl
    show c.queue.inFlight - 1 = _
    rw [h.inFlight, ← hcard]
    push_cast
    ring
  · rw [place_workers_same] at hreturned
    cases hreturned

variable [DecidableEq Id]

/-- A worker records the result of its item. -/
theorem Accounted.recordItem (h : Accounted id items c)
    (hids : ∀ x ∈ items, ∀ y ∈ items, id x = id y → x = y) {result : JobResult Id Result}
    (hw : c.workers w = .recording item result) :
    Accounted id items (c.place w (.notifying item result)
      (c.queue.recordResult id item result)) := by
  have hheld : (c.workers w).held = some item := by
    rw [hw]
    rfl
  have hitem := h.held w item hheld
  have hheldBy := (h.located item hitem).heldBy hheld
  have hstage := hheldBy.stage
  rw [hw] at hstage
  have hresult : (c.queue.recordResult id item result).results (id item) = some result :=
    Function.update_self _ _ _
  have hother : ∀ i, i ≠ id item →
      (c.queue.recordResult id item result).results i = c.queue.results i :=
    fun i hi => Function.update_of_ne hi _ _
  have hkept : ∀ i, c.queue.results i ≠ none →
      (c.queue.recordResult id item result).results i ≠ none := by
    intro i hi
    by_cases heq : i = id item
    · rw [heq, hresult]
      exact Option.some_ne_none result
    · rw [hother i heq]
      exact hi
  refine h.move (w := w) (fun _ => Or.inr (Or.inr ⟨hheldBy.pending, fun w' hw' => ?_,
    ⟨result, hresult, hstage.2.2⟩, hstage.1, hstage.2.1⟩))
    (fun w' hne => place_workers_other hne) (fun x hx => ?_) (fun x hx => ?_)
    (fun x hx hne => ⟨rfl, hother _ fun heq => hne (hids x hx item hitem heq), rfl, rfl⟩)
    h.pending ?_ (fun i hi => ?_) hkept (fun hreturned => ?_)
  · by_cases hne : w' = w
    · rw [hne, place_workers_same] at hw'
      cases hw'
    · rw [place_workers_other hne] at hw'
      exact hne ((hheldBy.holder w').mp hw')
  · rw [hheld] at hx
    exact (Option.some.inj hx).symm
  · rw [place_workers_same] at hx
    cases hx
  · have hcard : (c.place w (.notifying item result)
        (c.queue.recordResult id item result)).holders.card + 1 = c.holders.card :=
      holders_place_erase (by rw [hheld]; rfl) rfl
    show c.queue.inFlight - 1 = _
    rw [h.inFlight, ← hcard]
    push_cast
    ring
  · by_cases heq : i = id item
    · exact ⟨item, hitem, heq.symm⟩
    · exact h.results i (by rw [← hother i heq]; exact hi)
  · rw [place_workers_same] at hreturned
    cases hreturned

end Steps

end BuildTools
