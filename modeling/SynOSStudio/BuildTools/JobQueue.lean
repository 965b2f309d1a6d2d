import Mathlib.Data.Finset.Card
import Mathlib.Data.Fintype.Basic
import Mathlib.Logic.Relation
import Mathlib.Tactic

/-!
# The job queue and its workers

`LocalJobQueue` with the loop of `_worker`, for any number of workers. Each critical
section of the queue is one step, and so are the call of `build_one`, which returns
or raises as it likes, and the call of `on_result`; the steps of the workers
interleave in any order.
-/

namespace BuildTools

def maxAttemptsPerTarget : ℕ := 2

/-- An exception that `build_one` raised. -/
structure Failure where
  typeName : String
  message : String
  deriving DecidableEq

/-- What the results hold for an item: what `build_one` returned, or the crash record. -/
inductive JobResult (Id Result : Type) where
  | returned (result : Result)
  | crashed (id : Id) (status : String) (logTail : List String)
  deriving DecidableEq

structure LocalJobQueue (Item Id Result : Type) where
  pending : List Item
  inFlight : ℤ
  results : Id → Option (JobResult Id Result)
  attempts : Id → ℕ

inductive Taken (Item : Type) where
  | item (item : Item)
  | drained
  | wait

/-- Where a worker stands between two of its steps. -/
inductive Worker (Item Id Result : Type) where
  | taking
  | marking (item : Item)
  | building (item : Item)
  | checking (item : Item) (failure : Failure)
  | requeueing (item : Item)
  | describing (item : Item) (failure : Failure)
  | recording (item : Item) (result : JobResult Id Result)
  | notifying (item : Item) (result : JobResult Id Result)
  | returned

variable {Item Id Result : Type} [DecidableEq Item] [DecidableEq Id]

namespace LocalJobQueue

variable (id : Item → Id)

def new (items : List Item) : LocalJobQueue Item Id Result where
  pending := items
  inFlight := 0
  results _ := none
  attempts _ := 0

/-- One turn of the loop in `take`. -/
def take (q : LocalJobQueue Item Id Result) : Taken Item × LocalJobQueue Item Id Result :=
  match q.pending with
  | item :: rest => (.item item, { q with pending := rest, inFlight := q.inFlight + 1 })
  | [] => if q.inFlight = 0 then (.drained, q) else (.wait, q)

def markRunning (q : LocalJobQueue Item Id Result) (item : Item) : LocalJobQueue Item Id Result :=
  { q with attempts := Function.update q.attempts (id item) (q.attempts (id item) + 1) }

def recordResult (q : LocalJobQueue Item Id Result) (item : Item) (result : JobResult Id Result) :
    LocalJobQueue Item Id Result :=
  { q with
    results := Function.update q.results (id item) (some result)
    inFlight := q.inFlight - 1 }

def requeue (q : LocalJobQueue Item Id Result) (item : Item) : LocalJobQueue Item Id Result :=
  { q with pending := q.pending ++ [item], inFlight := q.inFlight - 1 }

end LocalJobQueue

/-- The record of an item whose last attempt raised. -/
def crashRecord (id : Item → Id) (item : Item) (worker attempt : ℕ) (failure : Failure) :
    JobResult Id Result :=
  .crashed (id item) "error"
    [s!"worker {worker} crashed on attempt {attempt}: {failure.typeName}: {failure.message}"]

/-- The queue, the workers, and the attempts that have ended, oldest first. -/
structure Pool (Item Id Result : Type) (jobs : ℕ) where
  queue : LocalJobQueue Item Id Result
  workers : Fin jobs → Worker Item Id Result
  history : List (Item × Except Failure Result)

namespace Pool

variable {jobs : ℕ} (id : Item → Id)

def start (items : List Item) : Pool Item Id Result jobs where
  queue := .new items
  workers _ := .taking
  history := []

/-- Give a worker its next position. -/
def place (c : Pool Item Id Result jobs) (w : Fin jobs) (worker : Worker Item Id Result)
    (queue : LocalJobQueue Item Id Result) : Pool Item Id Result jobs :=
  { c with workers := Function.update c.workers w worker, queue := queue }

def afterTake (w : Fin jobs) (c : Pool Item Id Result jobs) : Pool Item Id Result jobs :=
  match c.queue.take with
  | (.item item, queue) => c.place w (.marking item) queue
  | (.drained, queue) => c.place w .returned queue
  | (.wait, queue) => c.place w .taking queue

/-- Log an ended attempt. -/
def logged (c : Pool Item Id Result jobs) (item : Item) (outcome : Except Failure Result) :
    Pool Item Id Result jobs :=
  { c with history := c.history ++ [(item, outcome)] }

/-- The steps of the workers. -/
inductive Step (c : Pool Item Id Result jobs) : Pool Item Id Result jobs → Prop where
  | take (w : Fin jobs) (h : c.workers w = .taking) : Step c (c.afterTake w)
  | markRunning (w : Fin jobs) (item : Item) (h : c.workers w = .marking item) :
      Step c (c.place w (.building item) (c.queue.markRunning id item))
  | buildReturns (w : Fin jobs) (item : Item) (result : Result)
      (h : c.workers w = .building item) :
      Step c ((c.place w (.recording item (.returned result)) c.queue).logged item (.ok result))
  | buildRaises (w : Fin jobs) (item : Item) (failure : Failure)
      (h : c.workers w = .building item) :
      Step c ((c.place w (.checking item failure) c.queue).logged item (.error failure))
  | retry (w : Fin jobs) (item : Item) (failure : Failure)
      (h : c.workers w = .checking item failure)
      (hattempts : c.queue.attempts (id item) < maxAttemptsPerTarget) :
      Step c (c.place w (.requeueing item) c.queue)
  | giveUp (w : Fin jobs) (item : Item) (failure : Failure)
      (h : c.workers w = .checking item failure)
      (hattempts : ¬ c.queue.attempts (id item) < maxAttemptsPerTarget) :
      Step c (c.place w (.describing item failure) c.queue)
  | requeue (w : Fin jobs) (item : Item) (h : c.workers w = .requeueing item) :
      Step c (c.place w .taking (c.queue.requeue item))
  | describe (w : Fin jobs) (item : Item) (failure : Failure)
      (h : c.workers w = .describing item failure) :
      Step c (c.place w (.recording item
        (crashRecord id item w (c.queue.attempts (id item)) failure)) c.queue)
  | recordResult (w : Fin jobs) (item : Item) (result : JobResult Id Result)
      (h : c.workers w = .recording item result) :
      Step c (c.place w (.notifying item result) (c.queue.recordResult id item result))
  | onResult (w : Fin jobs) (item : Item) (result : JobResult Id Result)
      (h : c.workers w = .notifying item result) : Step c (c.place w .taking c.queue)

/-- What some interleaving of the workers can lead to. -/
abbrev Reaches : Pool Item Id Result jobs → Pool Item Id Result jobs → Prop :=
  Relation.ReflTransGen (Step id)

end Pool

/-- The item that a worker has taken and neither put back nor recorded. -/
def Worker.held : Worker Item Id Result → Option Item
  | .marking item => some item
  | .building item => some item
  | .checking item _ => some item
  | .requeueing item => some item
  | .describing item _ => some item
  | .recording item _ => some item
  | .taking => none
  | .notifying _ _ => none
  | .returned => none

end BuildTools
