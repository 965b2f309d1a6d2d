import SynOSStudio.BuildTools.KeyedLocks

/-!
# Builds never wait in a circle

Each worker asks for a keyed lock only while all it holds are locks of smaller keys, and for the
guard, for the print lock and for the locks of a fork only while it holds nothing. This is kept by
every step of every worker, so no interleaving leads to workers that wait for one another. The
guard also makes the lock of a key unique.
-/

namespace BuildTools.KeyedLocks

open InterruptiblePrograms LockOrders

/-- The lock was made for this key. -/
def Names (table : List Key) (lock : Lock) (key : Key) : Prop :=
  ∃ number, lock = .keyed number ∧ table[number]? = some key

/-- Both locks have keys, the first one the smaller. -/
def Before (table : List Key) (lock other : Lock) : Prop :=
  ∃ key key', Names table lock key ∧ Names table other key' ∧ key < key'

/-- What stays true while locks are added to the table. -/
def Lasting (fact : List Key → Prop) : Prop :=
  ∀ table table', table <+: table' → fact table → fact table'

section Order

variable {table table' : List Key} {lock other : Lock} {key key' : Key}

theorem Names.unique (h : Names table lock key) (h' : Names table lock key') : key = key' := by
  obtain ⟨number, rfl, hkey⟩ := h
  obtain ⟨number', heq, hkey'⟩ := h'
  cases heq
  exact Option.some_inj.mp (hkey.symm.trans hkey')

theorem Names.lasting (lock : Lock) (key : Key) : Lasting fun table => Names table lock key := by
  rintro table table' ⟨added, rfl⟩ ⟨number, rfl, hkey⟩
  refine ⟨number, rfl, ?_⟩
  rw [List.getElem?_append_left (List.getElem?_eq_some_iff.mp hkey).1]
  exact hkey

theorem Before.lasting (lock other : Lock) : Lasting fun table => Before table lock other := by
  rintro table table' hgrown ⟨key, key', hkey, hkey', hlt⟩
  exact ⟨key, key', Names.lasting _ _ _ _ hgrown hkey, Names.lasting _ _ _ _ hgrown hkey', hlt⟩

instance : IsStrictOrder Lock (Before table) where
  irrefl lock := by
    rintro ⟨key, key', hkey, hkey', hlt⟩
    cases hkey.unique hkey'
    exact lt_irrefl key hlt
  trans lock other last := by
    rintro ⟨key, key', hkey, hkey', hlt⟩ ⟨key'', key''', hkey'', hkey''', hlt'⟩
    cases hkey'.unique hkey''
    exact ⟨key, key''', hkey, hkey''', hlt.trans hlt'⟩

theorem lockOf_eq_some {number : ℕ} (h : Shared.lockOf table key = some number) :
    Names table (.keyed number) key := by
  have hfound : decide (table[number]? = some key) = true := by
    unfold Shared.lockOf at h
    exact (List.find?_eq_some_iff_append.mp h).1
  exact ⟨number, rfl, of_decide_eq_true hfound⟩

theorem not_mem_of_lockOf (h : Shared.lockOf table key = none) : key ∉ table := by
  intro hmem
  obtain ⟨number, hnumber, heq⟩ := List.getElem_of_mem hmem
  have hnot := List.find?_eq_none.mp h number
    (List.mem_reverse.mpr (List.mem_range.mpr hnumber))
  exact hnot (decide_eq_true (List.getElem?_eq_some_iff.mpr ⟨hnumber, heq⟩))

theorem names_append : Names (table ++ [key]) (.keyed table.length) key :=
  ⟨table.length, rfl, by simp⟩

end Order

section Protocol

variable {ι : Type}

/-- The locks are taken in the order of their keys, and a key has one lock. -/
structure Sound (s : Shared ι) : Prop where
  disciplined : s.holders.Disciplined (Before s.table)
  unique : s.table.Nodup

/-- What a worker may expect: nobody else changes what it holds and wants, and the table stays as
it is while it holds the guard. -/
structure Rely (i : ι) (s s' : Shared ι) : Prop where
  held : s'.holders.held i = s.holders.held i
  waiting : s'.holders.waiting i = s.holders.waiting i
  grown : s.table <+: s'.table
  guarded : .guard ∈ s.holders.held i → s'.table = s.table

structure Guarantee (i : ι) (s s' : Shared ι) : Prop where
  held : ∀ j, j ≠ i → s'.holders.held j = s.holders.held j
  waiting : ∀ j, j ≠ i → s'.holders.waiting j = s.holders.waiting j
  grown : s.table <+: s'.table
  guarded : s'.table = s.table ∨ .guard ∈ s.holders.held i

def protocol : Protocol ι BuildOp Answer (Shared ι) where
  invariant := Sound
  admissible _ _ _ _ := True
  rely := Rely
  guarantee := Guarantee
  rely_refl _ _ := ⟨rfl, rfl, List.prefix_rfl, fun _ => rfl⟩
  rely_trans h h' :=
    { held := h'.held.trans h.held
      waiting := h'.waiting.trans h.waiting
      grown := h.grown.trans h'.grown
      guarded := fun hguard =>
        (h'.guarded (h.held ▸ hguard)).trans (h.guarded hguard) }
  rely_of_guarantee hne hinv h :=
    { held := h.held _ hne
      waiting := h.waiting _ hne
      grown := h.grown
      guarded := fun hguard => h.guarded.resolve_right fun hother =>
        hne (hinv.disciplined.exclusive hguard hother) }

/-- The worker holds these locks and waits for this one. -/
def At (i : ι) (locks : List Lock) (wanted : Option Lock) (s : Shared ι) : Prop :=
  s.holders.held i = locks ∧ s.holders.waiting i = wanted

variable {i : ι} {locks : List Lock} {wanted : Option Lock} {lock : Lock} {s s' : Shared ι}
  {fact : List Key → Prop}

theorem stable_at (hfact : Lasting fact) :
    protocol.Stable i fun s => At i locks wanted s ∧ fact s.table := by
  rintro s s' hrely - ⟨⟨hheld, hwaiting⟩, hs⟩
  exact ⟨⟨hrely.held.trans hheld, hrely.waiting.trans hwaiting⟩, hfact _ _ hrely.grown hs⟩

/-- An operation that leaves the table alone and concerns the locks of one worker. -/
theorem guarantee_holders {holders : Holders ι Lock}
    (hheld : ∀ j, j ≠ i → holders.held j = s.holders.held j)
    (hwaiting : ∀ j, j ≠ i → holders.waiting j = s.holders.waiting j) :
    Guarantee i s { s with holders := holders } :=
  ⟨hheld, hwaiting, List.prefix_rfl, Or.inl rfl⟩

theorem guarantee_refl : Guarantee i s s :=
  guarantee_holders (fun _ _ => rfl) fun _ _ => rfl

end Protocol

section Triples

variable {ι : Type} [DecidableEq ι] {α β : Type}

/-- What a build returns or raises, with the same locks held as at its start. -/
def Result (i : ι) (locks : List Lock) (good : α → List Key → Prop) (r : Except Failure α)
    (s : Shared ι) : Prop :=
  At i locks none s ∧ ∀ a, r = .ok a → good a s.table

/-- From these locks and this fact, the build keeps the protocol and ends with the same locks. -/
def Keeping (i : ι) (locks : List Lock) (fact : List Key → Prop) (x : Build α)
    (good : α → List Key → Prop) : Prop :=
  ∀ s, At i locks none s → fact s.table →
    Safe Shared.machine protocol i x.run (Result i locks good) s

variable {i : ι} {locks : List Lock} {lock : Lock} {fact fact' : List Key → Prop}
  {good : α → List Key → Prop} {good' : β → List Key → Prop} {x : Build α} {f : α → Build β}

omit [DecidableEq ι] in
theorem stable_result (hgood : ∀ a, Lasting (good a)) (r : Except Failure α) :
    protocol.Stable i (Result i locks good r) := by
  have hlasting : Lasting fun table => ∀ a, r = .ok a → good a table :=
    fun _ _ hgrown h a ha => hgood a _ _ hgrown (h a ha)
  exact stable_at hlasting

theorem keeping_pure (hgood : ∀ a, Lasting (good a)) {a : α} (h : ∀ t, fact t → good a t) :
    Keeping i locks fact (pure a) good :=
  fun s hs hfact => safe_pure (stable_result hgood) ⟨hs, by rintro _ ⟨⟩; exact h _ hfact⟩

theorem keeping_throw (hgood : ∀ a, Lasting (good a)) (e : Failure) :
    Keeping i locks fact (throw e : Build α) good :=
  fun _ hs _ => safe_throw (stable_result hgood) ⟨hs, nofun⟩

theorem Keeping.bind (hgood' : ∀ b, Lasting (good' b)) (hx : Keeping i locks fact x good)
    (hf : ∀ a, Keeping i locks (good a) (f a) good') : Keeping i locks fact (x >>= f) good' :=
  fun s hs hfact => safe_attempt_then (stable_result hgood') (hx s hs hfact)
    (fun _ _ h => ⟨h.1, nofun⟩) fun a s' _ h => hf a s' h.1 (h.2 a rfl)

theorem Keeping.weaken (hx : Keeping i locks fact x good) (h : ∀ t, fact' t → fact t) :
    Keeping i locks fact' x good :=
  fun s hs hfact => hx s hs (h _ hfact)

/-- An operation that asks about the disk, or leaves other work to the environment. -/
theorem keeping_call {op : BuildOp} {view : op.Ans → Except Failure α}
    (hop : ∀ k (s : Shared ι), (Shared.handle i op k s).2 = s) (hfact : Lasting fact) :
    Keeping i locks fact (Attempt.call op view : Build α) fun _ => fact := by
  intro s hs hfacts
  refine safe_attempt_call (stable_at hfact) ⟨hs, hfacts⟩ fun s' hinv h k _ _ => ?_
  have hsame : (Shared.machine.handle i op k s').2 = s' := hop k s'
  rw [hsame]
  exact ⟨hinv, guarantee_refl, fun s'' hrely hinv' =>
    ⟨(stable_at hfact _ _ hrely hinv' h).1, fun _ _ => (stable_at hfact _ _ hrely hinv' h).2⟩⟩

theorem keeping_perform (work : Work) (hfact : Lasting fact) :
    Keeping i locks fact (perform work) fun _ => fact :=
  keeping_call (fun _ _ => rfl) hfact

/-- To ask for a lock that comes after all those held, and to go on when it is there. -/
theorem safe_request {rest : Build α} {post : Except Failure α → Shared ι → Prop} {s : Shared ι}
    (hfact : Lasting fact)
    (horder : ∀ table, fact table → ∀ other ∈ locks, Before table other lock)
    (hrest : ∀ s, At i (lock :: locks) none s → fact s.table →
      Safe Shared.machine protocol i rest.run post s)
    (hs : At i locks none s) (hfacts : fact s.table) :
    Safe Shared.machine protocol i
      (do
        Attempt.call (.request lock) .ok
        Attempt.call (.acquire lock) .ok
        rest : Build α).run post s := by
  refine safe_attempt_bind (safe_attempt_call (stable_at hfact) ⟨hs, hfacts⟩ ?_)
  intro s₁ hinv h₁ k _ _
  have hbefore : ∀ other ∈ s₁.holders.held i, Before s₁.table other lock := by
    rw [h₁.1.1]
    exact horder _ h₁.2
  refine ⟨⟨hinv.disciplined.request hbefore, hinv.unique⟩,
    guarantee_holders (fun _ _ => rfl) fun j hj => Holders.request_waiting_other hj, ?_⟩
  intro s₂ hrely₂ hinv₂
  have h₂ : At i locks (some lock) s₂ ∧ fact s₂.table :=
    stable_at hfact _ _ hrely₂ hinv₂ ⟨⟨h₁.1.1, Holders.request_waiting_same⟩, h₁.2⟩
  refine safe_attempt_bind (safe_attempt_call (stable_at hfact) h₂ fun s₃ hinv₃ h₃ k₃ hfree _ => ?_)
  refine ⟨⟨hinv₃.disciplined.acquire hfree, hinv₃.unique⟩,
    guarantee_holders (fun j hj => Holders.acquire_held_other hj)
      fun j hj => Holders.acquire_waiting_other hj, ?_⟩
  intro s₄ hrely₄ hinv₄
  have hheld : (s₃.holders.acquire i lock).held i = lock :: locks := by
    rw [Holders.acquire_held_same, h₃.1.1]
  have h₄ := stable_at hfact _ _ hrely₄ hinv₄ ⟨⟨hheld, Holders.acquire_waiting_same⟩, h₃.2⟩
  exact hrest s₄ h₄.1 h₄.2

/-- To give back the lock that was taken last. -/
theorem safe_release {r : Except Failure α} {s : Shared ι} (hgood : ∀ a, Lasting (good a))
    (hs : Result i (lock :: locks) good r s) :
    Safe Shared.machine protocol i
      (do
        Attempt.call (.release lock) .ok
        Attempt.ofExcept r : Build α).run (Result i locks good) s := by
  refine safe_attempt_bind (safe_attempt_call (stable_result hgood r) hs ?_)
  intro s₁ hinv h₁ k _ _
  refine ⟨⟨hinv.disciplined.release, hinv.unique⟩,
    guarantee_holders (fun j hj => Holders.release_held_other hj) fun _ _ => rfl, ?_⟩
  intro s₂ hrely₂ hinv₂
  have hheld : (s₁.holders.release i lock).held i = locks := by
    rw [Holders.release_held_same, h₁.1.1, List.erase_cons_head]
  exact safe_ofExcept (stable_result hgood)
    (stable_result hgood r _ _ hrely₂ hinv₂ ⟨⟨hheld, h₁.1.2⟩, h₁.2⟩)

theorem keeping_withLock (hfact : Lasting fact) (hgood : ∀ a, Lasting (good a))
    (horder : ∀ table, fact table → ∀ other ∈ locks, Before table other lock)
    (hbody : Keeping i (lock :: locks) fact x good) :
    Keeping i locks fact (withLock lock x) good := by
  intro s hs hfacts
  refine safe_request hfact horder (fun s₁ h₁ hfacts₁ => ?_) hs hfacts
  refine safe_attempt_bind (safe_outcome ((hbody s₁ h₁ hfacts₁).mono fun r s₂ _ h₂ => ?_))
  exact fun s₃ hrely₃ hinv₃ =>
    safe_release hgood (stable_result hgood r _ _ hrely₃ hinv₃ h₂)

/-- Locks in the order of their keys, all after those that are held already. -/
theorem keeping_withLocks {more : List Lock} (hfact : Lasting fact)
    (hgood : ∀ a, Lasting (good a)) (hbody : ∀ locks, Keeping i locks fact x good)
    (horder : ∀ table, fact table → more.Pairwise (Before table) ∧
      ∀ lock ∈ more, ∀ other ∈ locks, Before table other lock) :
    Keeping i locks fact (withLocks more x) good := by
  induction more generalizing locks with
  | nil => exact hbody locks
  | cons lock more ih =>
    refine keeping_withLock hfact hgood
      (fun table h other hother => (horder table h).2 lock List.mem_cons_self other hother) ?_
    refine ih fun table h => ?_
    obtain ⟨hpairs, hlater⟩ := horder table h
    rw [List.pairwise_cons] at hpairs
    refine ⟨hpairs.2, fun next hnext other hother => ?_⟩
    rcases List.mem_cons.mp hother with rfl | hother
    · exact hpairs.1 next hnext
    · exact hlater next (List.mem_cons_of_mem _ hnext) other hother

end Triples

section Lookups

variable {ι : Type} [DecidableEq ι] {i : ι} {fact : List Key → Prop}

omit [DecidableEq ι] in
/-- Whatever is known of the table lasts while the guard is held. -/
theorem stable_guarded {locks : List Lock} (extra : List Key → Prop) :
    protocol.Stable i fun s => At i (.guard :: locks) none s ∧ extra s.table := by
  rintro s s' hrely - ⟨⟨hheld, hwaiting⟩, hs⟩
  have hguard : .guard ∈ s.holders.held i := by
    rw [hheld]
    exact List.mem_cons_self
  refine ⟨⟨hrely.held.trans hheld, hrely.waiting.trans hwaiting⟩, ?_⟩
  rw [hrely.guarded hguard]
  exact hs

theorem lasting_and {other : List Key → Prop} (h : Lasting fact) (h' : Lasting other) :
    Lasting fun table => fact table ∧ other table :=
  fun _ _ hgrown hboth => ⟨h _ _ hgrown hboth.1, h' _ _ hgrown hboth.2⟩

/-- The lock of a key is the one in the table, or a new one that is put there. -/
theorem keeping_lockFor (hfact : Lasting fact) (key : Key) :
    Keeping i [] fact (lockFor key) fun lock table => Names table lock key ∧ fact table := by
  have hgood : ∀ lock, Lasting fun table => Names table lock key ∧ fact table :=
    fun lock => lasting_and (Names.lasting lock key) hfact
  refine keeping_withLock hfact hgood (fun _ _ _ hother => absurd hother List.not_mem_nil) ?_
  intro s hs hfacts
  refine safe_attempt_bind (safe_attempt_call (stable_at hfact) ⟨hs, hfacts⟩ ?_)
  intro s₁ hinv h₁ k _ _
  refine ⟨hinv, guarantee_refl, fun s₂ hrely₂ hinv₂ => ?_⟩
  show Safe _ _ _ (foundOrMade key (Shared.lockOf s₁.table key)).run _ _
  cases hlock : Shared.lockOf s₁.table key with
  | some number =>
    have hnamed := stable_guarded (fun table => Names table (.keyed number) key ∧ fact table)
      _ _ hrely₂ hinv₂ ⟨h₁.1, lockOf_eq_some hlock, h₁.2⟩
    exact safe_pure (stable_result hgood) ⟨hnamed.1, by rintro _ ⟨⟩; exact hnamed.2⟩
  | none =>
    have hstable : protocol.Stable i fun s => At i [.guard] none s ∧ key ∉ s.table ∧ fact s.table :=
      stable_guarded fun table => key ∉ table ∧ fact table
    have h₂ := hstable _ _ hrely₂ hinv₂ ⟨h₁.1, not_mem_of_lockOf hlock, h₁.2⟩
    refine safe_attempt_bind (safe_attempt_call hstable h₂ ?_)
    intro s₃ hinv₃ h₃ k₃ _ _
    have hgrown : s₃.table <+: s₃.table ++ [key] := List.prefix_append _ _
    refine ⟨⟨hinv₃.disciplined.mono fun lock other => Before.lasting lock other _ _ hgrown, ?_⟩,
      ⟨fun _ _ => rfl, fun _ _ => rfl, hgrown, Or.inr ?_⟩, ?_⟩
    · exact List.nodup_append.mpr ⟨hinv₃.unique, List.nodup_singleton key, by
        rintro a ha b hb rfl
        exact h₃.2.1 (List.mem_singleton.mp hb ▸ ha)⟩
    · rw [h₃.1.1]
      exact List.mem_cons_self
    · intro s₄ hrely₄ hinv₄
      have hnamed := stable_guarded
        (fun table => Names table (.keyed s₃.table.length) key ∧ fact table)
        _ _ hrely₄ hinv₄ ⟨h₃.1, names_append, hfact _ _ hgrown h₃.2.2⟩
      exact safe_pure (stable_result hgood) ⟨hnamed.1, by rintro _ ⟨⟩; exact hnamed.2⟩

/-- The locks were made for these keys, one for each. -/
def AllNamed (table : List Key) (locks : List Lock) (keys : List Key) : Prop :=
  List.Forall₂ (Names table) locks keys

theorem AllNamed.lasting (locks : List Lock) (keys : List Key) :
    Lasting fun table => AllNamed table locks keys :=
  fun _ _ hgrown h => h.imp fun _ _ hnamed => Names.lasting _ _ _ _ hgrown hnamed

theorem AllNamed.exists_key {table : List Key} {locks : List Lock} {keys : List Key} {lock : Lock}
    (h : AllNamed table locks keys) (hlock : lock ∈ locks) :
    ∃ key ∈ keys, Names table lock key := by
  induction h with
  | nil => exact absurd hlock List.not_mem_nil
  | cons hnamed hrest ih =>
    rcases List.mem_cons.mp hlock with rfl | hlock
    · exact ⟨_, List.mem_cons_self, hnamed⟩
    · obtain ⟨key, hkey, hnamed'⟩ := ih hlock
      exact ⟨key, List.mem_cons_of_mem _ hkey, hnamed'⟩

theorem AllNamed.pairwise {table : List Key} {locks : List Lock} {keys : List Key}
    (h : AllNamed table locks keys) (hkeys : keys.Pairwise (· < ·)) :
    locks.Pairwise (Before table) := by
  induction h with
  | nil => exact List.Pairwise.nil
  | @cons lock key locks keys hlock hlocks ih =>
    rw [List.pairwise_cons] at hkeys ⊢
    refine ⟨fun other hother => ?_, ih hkeys.2⟩
    obtain ⟨key', hkey', hnamed⟩ := AllNamed.exists_key hlocks hother
    exact ⟨key, key', hlock, hnamed, hkeys.1 key' hkey'⟩

theorem keeping_locksFor (keys : List Key) (hfact : Lasting fact) :
    Keeping i [] fact (locksFor keys)
      fun locks table => AllNamed table locks keys ∧ fact table := by
  induction keys generalizing fact with
  | nil =>
    exact keeping_pure (fun locks => lasting_and (AllNamed.lasting locks []) hfact)
      fun _ h => ⟨.nil, h⟩
  | cons key keys ih =>
    refine Keeping.bind (fun locks => lasting_and (AllNamed.lasting locks _) hfact)
      (keeping_lockFor hfact key) fun lock => ?_
    have hlock : Lasting fun table => Names table lock key ∧ fact table :=
      lasting_and (Names.lasting lock key) hfact
    refine Keeping.bind (fun locks => lasting_and (AllNamed.lasting locks _) hfact)
      (ih hlock) fun locks => ?_
    exact keeping_pure (fun locks => lasting_and (AllNamed.lasting locks _) hfact)
      fun table h => ⟨.cons h.2.1 h.1, h.2.2⟩

end Lookups

section Builds

variable {ι : Type} [DecidableEq ι] {i : ι} {α β : Type}

/-- A part of a build that holds no lock at its start and none at its end. -/
def Plain (i : ι) (x : Build α) : Prop :=
  Keeping i [] (fun _ => True) x fun _ _ => True

theorem lasting_true : Lasting fun _ => True :=
  fun _ _ _ => id

theorem plain_pure (a : α) : Plain i (pure a : Build α) :=
  keeping_pure (fun _ => lasting_true) fun _ _ => trivial

theorem plain_throw (e : Failure) : Plain i (throw e : Build α) :=
  keeping_throw (fun _ => lasting_true) e

theorem Plain.bind {x : Build α} {f : α → Build β} (hx : Plain i x) (hf : ∀ a, Plain i (f a)) :
    Plain i (x >>= f) :=
  Keeping.bind (fun _ => lasting_true) hx hf

theorem plain_perform (work : Work) : Plain i (perform work) :=
  keeping_perform work lasting_true

theorem plain_isFile (path : String) : Plain i (Attempt.call (.isFile path) .ok : Build Bool) :=
  keeping_call (fun _ _ => rfl) lasting_true

theorem keeping_notes {locks : List Lock} (unknown : List String) :
    Keeping i locks (fun _ => True)
      (forEach (fun path => do let _ ← perform (.note path)) unknown) fun _ _ => True := by
  induction unknown with
  | nil => exact keeping_pure (fun _ => lasting_true) fun _ _ => trivial
  | cons path unknown ih =>
    refine Keeping.bind (fun _ => lasting_true) ?_ fun _ => ih
    exact Keeping.bind (fun _ => lasting_true) (keeping_perform _ lasting_true) fun _ =>
      keeping_pure (fun _ => lasting_true) fun _ _ => trivial

/-- The keys of a recipe are asked for in their order. -/
theorem pairwise_cacheKeys (recipe : Recipe) :
    ((recipe.source_cache_keys.sort (· ≤ ·)).map fun key => "source-cache" :: key).Pairwise
      (· < ·) := by
  rw [List.pairwise_map]
  exact (Finset.sortedLT_sort recipe.source_cache_keys).pairwise.imp List.cons_lt_cons_self.mpr

theorem plain_noteUnknown (paths : List String) : Plain i (noteUnknown paths) := by
  unfold noteUnknown
  split_ifs
  · exact plain_pure ()
  · exact keeping_withLock lasting_true (fun _ => lasting_true)
      (fun _ _ _ hother => absurd hother List.not_mem_nil) (keeping_notes paths)

theorem plain_judge (result : ℤ × String) : Plain i (judge result) := by
  obtain ⟨returncode, tail⟩ := result
  by_cases hcode : returncode = 0
  · simp only [judge, hcode, if_true]
    exact plain_pure ()
  · simp only [judge, hcode, if_false]
    exact plain_throw _

theorem plain_prebuildUnder {keys : List Key} (hkeys : keys.Pairwise (· < ·)) :
    Plain i (prebuildUnder keys) := by
  refine Keeping.bind (fun _ => lasting_true) (keeping_locksFor keys lasting_true) fun locks => ?_
  refine keeping_withLocks (lasting_and (AllNamed.lasting locks keys) lasting_true)
    (fun _ => lasting_true) (fun held => ?_) fun table h => ?_
  · have hcall : Keeping i held (fun _ => True)
        (Attempt.call .prebuild id : Build (ℤ × String)) fun _ _ => True :=
      keeping_call (fun _ _ => rfl) lasting_true
    exact hcall.weaken fun _ _ => trivial
  · exact ⟨h.1.pairwise hkeys, fun _ _ _ hother => absurd hother List.not_mem_nil⟩

theorem plain_runPrebuild (skip : Bool) (recipe : Recipe) :
    Plain i (runPrebuild skip recipe) := by
  unfold runPrebuild
  split_ifs
  · exact plain_throw _
  · refine Plain.bind (plain_noteUnknown _) fun _ => ?_
    exact Plain.bind (plain_prebuildUnder (pairwise_cacheKeys recipe)) plain_judge
  · exact plain_pure ()

theorem keeping_fetchMissing {locks : List Lock} (path : String) (fetch : Work) :
    Keeping i locks (fun _ => True) (fetchMissing path fetch) fun _ _ => True := by
  refine Keeping.bind (fun _ => lasting_true) (keeping_call (fun _ _ => rfl) lasting_true)
    fun found => ?_
  cases found with
  | true => exact keeping_pure (fun _ => lasting_true) fun _ _ => trivial
  | false =>
    exact Keeping.bind (fun _ => lasting_true) (keeping_perform _ lasting_true) fun _ =>
      keeping_pure (fun _ => lasting_true) fun _ _ => trivial

/-- The lock of a download is asked for while nothing is held. -/
theorem plain_fetchOnce (key : Key) (path : String) (fetch : Work) :
    Plain i (fetchOnce key path fetch) := by
  refine Plain.bind (plain_isFile path) fun found => ?_
  cases found with
  | true => exact plain_pure ()
  | false =>
    refine Keeping.bind (fun _ => lasting_true) (keeping_lockFor lasting_true key) fun lock => ?_
    refine Keeping.weaken (keeping_withLock lasting_true (fun _ => lasting_true)
      (fun _ _ _ hother => absurd hother List.not_mem_nil) (keeping_fetchMissing path fetch)) ?_
    exact fun _ _ => trivial

theorem plain_unpackFork (suppress_scripts : Bool) (deb : String) :
    Plain i (unpackFork suppress_scripts deb) := by
  refine Plain.bind (plain_perform _) fun _ => ?_
  cases suppress_scripts with
  | true => exact plain_pure ()
  | false => exact Plain.bind (plain_perform _) fun _ => plain_pure ()

theorem plain_fetchFork (skip : Bool) (index : String) (suppress_scripts : Bool) :
    Plain i (fetchFork skip index suppress_scripts) := by
  refine Plain.bind (plain_perform _) fun _ => ?_
  cases skip with
  | true => exact plain_throw _
  | false =>
    refine Plain.bind (plain_fetchOnce _ _ _) fun _ => ?_
    refine Plain.bind (plain_perform _) fun deb => ?_
    exact Plain.bind (plain_fetchOnce _ _ _) fun _ => plain_unpackFork suppress_scripts deb

theorem plain_fetchForkOf (skip : Bool) (recipe : Recipe) : Plain i (fetchForkOf skip recipe) := by
  unfold fetchForkOf
  cases recipe.fork with
  | some index => exact plain_fetchFork skip index recipe.suppress_scripts
  | none => exact plain_pure ()

theorem plain_buildPackage (skip : Bool) (recipe : Recipe) :
    Plain i (buildPackage skip recipe) := by
  refine Plain.bind (plain_perform _) fun _ => ?_
  refine Plain.bind (plain_perform _) fun _ => ?_
  refine Plain.bind (plain_fetchForkOf skip recipe) fun _ => ?_
  refine Plain.bind (plain_runPrebuild skip recipe) fun _ => ?_
  exact Plain.bind (plain_perform _) fun _ => plain_pure ()

theorem plain_buildSource (skip : Bool) (recipe : Recipe) : Plain i (buildSource skip recipe) := by
  refine Plain.bind (plain_perform _) fun _ => ?_
  refine Plain.bind (keeping_call (fun _ _ => rfl) lasting_true) fun reuse => ?_
  cases reuse with
  | true => exact plain_pure ()
  | false =>
    refine Plain.bind (plain_buildPackage skip recipe) fun _ => ?_
    exact Plain.bind (plain_perform _) fun _ => plain_pure ()

/-- A worker holds nothing between two recipes. -/
theorem safe_worker (skip : Bool) (queue : List Recipe) {s : Shared ι} (hs : At i [] none s) :
    Safe Shared.machine protocol i (worker skip queue) (fun _ => At i [] none) s := by
  have hstable : protocol.Stable i fun s : Shared ι => At i [] none s ∧ True :=
    stable_at lasting_true
  induction queue generalizing s with
  | nil => exact fun s' hrely hinv => (hstable s s' hrely hinv ⟨hs, trivial⟩).1
  | cons recipe queue ih =>
    refine safe_bind ((plain_buildSource skip recipe s hs trivial).mono fun r s' _ hr => ?_)
    exact ih hr.1

end Builds

section Runs

variable {ι : Type} [DecidableEq ι] {skip : Bool} {queues : ι → List Recipe}
  {c : Config ι BuildOp BuildOp.Ans Unit (Shared ι)}

theorem sound_of_reaches
    (hreaches : Reaches Shared.machine (fun _ _ _ _ => True) (start skip queues) c) :
    Sound c.state := by
  have hstart : Sound (start skip queues).state := ⟨Holders.disciplined_none, List.nodup_nil⟩
  have hsafe : ∀ i, Safe Shared.machine protocol i ((start skip queues).threads i)
      (fun _ => At i [] none) (start skip queues).state :=
    fun i => safe_worker skip (queues i) ⟨rfl, rfl⟩
  exact (Safe.reaches hreaches hstart hsafe).1

/-- What is built under the lock of a key is built by one worker at a time. -/
theorem key_has_one_holder
    (hreaches : Reaches Shared.machine (fun _ _ _ _ => True) (start skip queues) c) {key : Key}
    {lock lock' : Lock} {i j : ι} (hlock : Names c.state.table lock key)
    (hlock' : Names c.state.table lock' key) (hi : lock ∈ c.state.holders.held i)
    (hj : lock' ∈ c.state.holders.held j) : i = j := by
  have hsound := sound_of_reaches hreaches
  obtain ⟨number, rfl, hkey⟩ := hlock
  obtain ⟨number', rfl, hkey'⟩ := hlock'
  have hsame : number = number' :=
    (List.getElem?_inj (List.getElem?_eq_some_iff.mp hkey).1 hsound.unique).mp
      (hkey.trans hkey'.symm)
  subst hsame
  exact hsound.disciplined.exclusive hi hj

end Runs

/-- However many workers build whatever recipes, and however their steps are interleaved, no
workers wait for locks that are held among themselves. -/
theorem builds_never_deadlock {ι : Type} [DecidableEq ι] (skip : Bool) (queues : ι → List Recipe)
    {c : Config ι BuildOp BuildOp.Ans Unit (Shared ι)}
    (hreaches : Reaches Shared.machine (fun _ _ _ _ => True) (start skip queues) c)
    (workers : Finset ι) : ¬ c.state.holders.Stuck workers :=
  (sound_of_reaches hreaches).disciplined.not_stuck workers

instance {ι : Type} [DecidableEq ι] [Fintype ι] (op : BuildOp) (k : Answer) (s : Shared ι) :
    Decidable (Shared.machine.enabled op k s) :=
  match op with
  | .acquire lock => inferInstanceAs (Decidable (∀ j, lock ∉ s.holders.held j))
  | .request _ | .release _ | .find _ | .insert _ | .isFile _ | .reusable | .work _ | .prebuild =>
    inferInstanceAs (Decidable True)

/-- A fork of a base package without a `prebuild.sh`. -/
def plymouthFork : Recipe :=
  ⟨"plymouth-synos", ∅, false, some "debian-trixie-main-amd64.Packages.gz", false⟩

/-- Nothing is there yet, and everything succeeds. -/
def absent : Answer := ⟨false, .ok "", .ok (0, "")⟩

/-- Two builds of forks of one archive: the first one fetches the index, the second one waits. -/
def contended : Option (Config (Fin 2) BuildOp BuildOp.Ans Unit (Shared (Fin 2))) :=
  (start false fun _ => [plymouthFork]).runTurns Shared.machine (fun _ _ _ _ => True)
    [(0, List.replicate 13 absent), (1, List.replicate 11 absent)]

theorem contended_isSome : contended.isSome = true := by decide +kernel

theorem index_builds_never_deadlock :
    (contended.get contended_isSome).state.holders.waiting 1 = some (.keyed 0) ∧
    .keyed 0 ∈ (contended.get contended_isSome).state.holders.held 0 ∧
    ∀ workers, ¬ (contended.get contended_isSome).state.holders.Stuck workers :=
  ⟨by decide +kernel, by decide +kernel, fun workers =>
    builds_never_deadlock false (fun _ => [plymouthFork])
      (reaches_runTurns (Option.some_get contended_isSome).symm) workers⟩

end BuildTools.KeyedLocks
