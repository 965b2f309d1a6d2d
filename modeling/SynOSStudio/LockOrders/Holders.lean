import Mathlib.Data.Finset.Max
import Mathlib.Order.Defs.Unbundled
import Mathlib.Tactic

/-!
# Locks taken in one order

Who holds which locks and who waits for which. Where every worker asks only for locks that come
after all those it holds, no set of workers can wait for one another.
-/

namespace LockOrders

/-- The locks of each worker, the last one taken first, and the lock that it waits for. -/
structure Holders (ι Lock : Type) where
  held : ι → List Lock
  waiting : ι → Option Lock

variable {ι Lock : Type} {holders : Holders ι Lock} {i j : ι} {lock other : Lock}
  {before before' : Lock → Lock → Prop}

namespace Holders

/-- Nobody holds or wants anything. -/
def none : Holders ι Lock := ⟨fun _ => [], fun _ => .none⟩

def Free (lock : Lock) (holders : Holders ι Lock) : Prop :=
  ∀ j, lock ∉ holders.held j

section Steps

variable [DecidableEq ι]

def request (i : ι) (lock : Lock) (holders : Holders ι Lock) : Holders ι Lock :=
  { holders with waiting := Function.update holders.waiting i (some lock) }

def acquire (i : ι) (lock : Lock) (holders : Holders ι Lock) : Holders ι Lock where
  held := Function.update holders.held i (lock :: holders.held i)
  waiting := Function.update holders.waiting i .none

def release [DecidableEq Lock] (i : ι) (lock : Lock) (holders : Holders ι Lock) : Holders ι Lock :=
  { holders with held := Function.update holders.held i ((holders.held i).erase lock) }

@[simp] theorem request_held : (holders.request i lock).held = holders.held := rfl

@[simp] theorem request_waiting_same : (holders.request i lock).waiting i = some lock :=
  Function.update_self _ _ _

@[simp] theorem request_waiting_other (h : j ≠ i) :
    (holders.request i lock).waiting j = holders.waiting j :=
  Function.update_of_ne h _ _

@[simp] theorem acquire_held_same :
    (holders.acquire i lock).held i = lock :: holders.held i :=
  Function.update_self _ _ _

@[simp] theorem acquire_held_other (h : j ≠ i) :
    (holders.acquire i lock).held j = holders.held j :=
  Function.update_of_ne h _ _

@[simp] theorem acquire_waiting_same : (holders.acquire i lock).waiting i = .none :=
  Function.update_self _ _ _

@[simp] theorem acquire_waiting_other (h : j ≠ i) :
    (holders.acquire i lock).waiting j = holders.waiting j :=
  Function.update_of_ne h _ _

section Release

variable [DecidableEq Lock]

@[simp] theorem release_held_same :
    (holders.release i lock).held i = (holders.held i).erase lock :=
  Function.update_self _ _ _

@[simp] theorem release_held_other (h : j ≠ i) :
    (holders.release i lock).held j = holders.held j :=
  Function.update_of_ne h _ _

@[simp] theorem release_waiting : (holders.release i lock).waiting = holders.waiting := rfl

end Release

end Steps

/-- Workers that each wait for a lock held within the set. -/
def Stuck (holders : Holders ι Lock) (workers : Finset ι) : Prop :=
  workers.Nonempty ∧ ∀ i ∈ workers, ∃ lock, holders.waiting i = some lock ∧
    ∃ j ∈ workers, lock ∈ holders.held j

/-- Each lock has one holder, and is asked for only by who holds none but earlier ones. -/
structure Disciplined (before : Lock → Lock → Prop) (holders : Holders ι Lock) : Prop where
  exclusive : ∀ {lock i j}, lock ∈ holders.held i → lock ∈ holders.held j → i = j
  ordered : ∀ {i lock}, holders.waiting i = some lock → ∀ other ∈ holders.held i,
    before other lock

theorem disciplined_none : Disciplined before (none : Holders ι Lock) where
  exclusive h := absurd h List.not_mem_nil
  ordered h := nomatch h

/-- The order may become known bit by bit. -/
theorem Disciplined.mono (h : Disciplined before holders)
    (himp : ∀ lock other, before lock other → before' lock other) :
    Disciplined before' holders where
  exclusive := h.exclusive
  ordered hwaiting other hother := himp _ _ (h.ordered hwaiting other hother)

section Steps

variable [DecidableEq ι]

theorem Disciplined.request (h : Disciplined before holders)
    (hbefore : ∀ other ∈ holders.held i, before other lock) :
    Disciplined before (holders.request i lock) where
  exclusive := h.exclusive
  ordered := by
    intro j lock' hwaiting other hother
    by_cases hj : j = i
    · subst hj
      rw [request_waiting_same] at hwaiting
      cases hwaiting
      exact hbefore other hother
    · rw [request_waiting_other hj] at hwaiting
      exact h.ordered hwaiting other hother

theorem mem_held_acquire (hmem : other ∈ (holders.acquire i lock).held j) :
    (j = i ∧ other = lock) ∨ other ∈ holders.held j := by
  by_cases hj : j = i
  · subst hj
    rw [acquire_held_same] at hmem
    exact (List.mem_cons.mp hmem).imp (fun h => ⟨rfl, h⟩) id
  · rw [acquire_held_other hj] at hmem
    exact Or.inr hmem

theorem mem_held_release [DecidableEq Lock] (hmem : other ∈ (holders.release i lock).held j) :
    other ∈ holders.held j := by
  by_cases hj : j = i
  · subst hj
    rw [release_held_same] at hmem
    exact List.mem_of_mem_erase hmem
  · rwa [release_held_other hj] at hmem

theorem Disciplined.acquire (h : Disciplined before holders) (hfree : Free lock holders) :
    Disciplined before (holders.acquire i lock) where
  exclusive := by
    intro other j k hj hk
    rcases mem_held_acquire hj with ⟨rfl, rfl⟩ | hold
    · rcases mem_held_acquire hk with ⟨rfl, -⟩ | hold'
      · rfl
      · exact absurd hold' (hfree k)
    · rcases mem_held_acquire hk with ⟨rfl, rfl⟩ | hold'
      · exact absurd hold (hfree j)
      · exact h.exclusive hold hold'
  ordered := by
    intro j lock' hwaiting other hother
    have hj : j ≠ i := by
      rintro rfl
      rw [acquire_waiting_same] at hwaiting
      cases hwaiting
    rw [acquire_waiting_other hj] at hwaiting
    rcases mem_held_acquire hother with ⟨rfl, -⟩ | hother
    · exact absurd rfl hj
    · exact h.ordered hwaiting other hother

theorem Disciplined.release [DecidableEq Lock] (h : Disciplined before holders) :
    Disciplined before (holders.release i lock) where
  exclusive hi hj := h.exclusive (mem_held_release hi) (mem_held_release hj)
  ordered hwaiting other hother := h.ordered hwaiting other (mem_held_release hother)

end Steps

/-- Among finitely many workers that wait, one waits for a lock that none of them holds. -/
theorem Disciplined.not_stuck [IsStrictOrder Lock before] (h : Disciplined before holders)
    (workers : Finset ι) : ¬ holders.Stuck workers := by
  rintro ⟨hnonempty, hstuck⟩
  have hstuck' : ∀ w : workers, ∃ lock, holders.waiting w = some lock ∧
      ∃ j ∈ workers, lock ∈ holders.held j := fun w => hstuck w w.2
  choose lock hwaiting holder hmem hheld using hstuck'
  -- each lock waited for comes before the one that its holder waits for
  have hnext : ∀ w : workers, before (lock w) (lock ⟨holder w, hmem w⟩) := fun w =>
    h.ordered (hwaiting ⟨holder w, hmem w⟩) (lock w) (hheld w)
  have : Nonempty workers := hnonempty.to_subtype
  have hfinite : (Set.range lock).Finite := Set.finite_range lock
  have hwell : (Set.range lock).WellFoundedOn (Function.swap before) :=
    hfinite.wellFoundedOn
  obtain ⟨m, hm, hmax⟩ := hwell.has_min Set.univ ⟨⟨_, ⟨Classical.arbitrary workers, rfl⟩⟩, trivial⟩
  obtain ⟨_, ⟨w, rfl⟩⟩ := m
  exact hmax ⟨_, ⟨⟨holder w, hmem w⟩, rfl⟩⟩ trivial (hnext w)

end Holders

end LockOrders
