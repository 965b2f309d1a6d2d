import Mathlib.Data.Int.Notation
import Mathlib.Data.List.Basic
import SynOSStudio.KeyedLists.StableOrder

/-!
# Snapshot retention

Keep or delete decisions about the snapshots of one volume. Times are nanoseconds; the date
library is a parameter.
-/

namespace SnapshotsManager

open KeyedLists

inductive CleanupPolicy
  | automatic
  | keepForever
  deriving DecidableEq

structure RetentionPolicy where
  isAutoSnapshotEnabled : Bool := true
  snapshotIntervalHours : ℕ := 1
  isAutoCleanupEnabled : Bool := true
  keepAllHours : ℕ := 24
  keepDailyDays : ℕ := 7
  keepWeeklyDays : ℕ := 30
  keepMonthlyDays : ℕ := 365
  keepYearly : Bool := true

inductive RetentionPolicyError
  | zeroBoundary
  | nonMonotonicBoundaries
  | invalidLocalOffset
  | invalidSnapshotInterval
  deriving DecidableEq

def RetentionPolicy.validate (policy : RetentionPolicy) : Except RetentionPolicyError Unit :=
  if ¬ (1 ≤ policy.snapshotIntervalHours ∧ policy.snapshotIntervalHours ≤ 24) then
    .error .invalidSnapshotInterval
  else if policy.keepAllHours = 0 ∨ policy.keepDailyDays = 0 ∨ policy.keepWeeklyDays = 0 ∨
      policy.keepMonthlyDays = 0 then
    .error .zeroBoundary
  else if policy.keepAllHours > policy.keepDailyDays * 24 ∨
      policy.keepDailyDays > policy.keepWeeklyDays ∨
      policy.keepWeeklyDays > policy.keepMonthlyDays then
    .error .nonMonotonicBoundaries
  else .ok ()

def RetentionPolicy.systemDefault : RetentionPolicy := { snapshotIntervalHours := 24 }
def RetentionPolicy.homeDefault : RetentionPolicy := { snapshotIntervalHours := 2 }

structure SnapshotCandidate where
  id : String
  createdAt : ℤ
  /-- The offset captured when the snapshot was created. -/
  localOffsetSeconds : ℤ
  cleanupPolicy : CleanupPolicy
  isReady : Bool
  isBusy : Bool
  isRestoreReferenced : Bool
  deriving DecidableEq

inductive RetentionTier
  | none
  | yearly
  | monthly
  | weekly
  | daily
  | all
  deriving DecidableEq

inductive RetentionAction
  | keep
  | delete
  | skip
  deriving DecidableEq

inductive RetentionReason
  | allWithinRecentWindow
  | newestInDay
  | newestInWeek
  | newestInMonth
  | newestInYear
  | bucketAlreadyOccupied
  | automaticCleanupDisabled
  | keepForever
  | futureTimestamp
  | notReady
  | busy
  | restoreReferenced
  | lastUsableSnapshot
  deriving DecidableEq

structure RetentionDecision where
  snapshotId : String
  tier : RetentionTier
  action : RetentionAction
  reason : RetentionReason
  deriving DecidableEq

/-- What the policy reads of a local date. -/
structure LocalDate where
  year : ℤ
  month : ℕ
  day : ℕ
  isoYear : ℤ
  isoWeek : ℕ
  deriving DecidableEq

/-- The date library: the offsets it accepts, and the date that a time has in one of them. -/
structure Calendar where
  eastOpt : ℤ → Bool
  withTimezone : ℤ → ℤ → LocalDate

section Decisions

def decision (snapshot : SnapshotCandidate) (action : RetentionAction) (tier : RetentionTier)
    (reason : RetentionReason) : RetentionDecision where
  snapshotId := snapshot.id
  tier := tier
  action := action
  reason := reason

/-- The tiers that claim slots, the only ones that a bucket decision is made for. -/
inductive BucketTier
  | daily
  | weekly
  | monthly
  | yearly

def BucketTier.tier : BucketTier → RetentionTier
  | daily => .daily
  | weekly => .weekly
  | monthly => .monthly
  | yearly => .yearly

def BucketTier.reason : BucketTier → RetentionReason
  | daily => .newestInDay
  | weekly => .newestInWeek
  | monthly => .newestInMonth
  | yearly => .newestInYear

def bucketDecision (snapshot : SnapshotCandidate) (tier : BucketTier) (claimed : Bool) :
    RetentionDecision :=
  if claimed then decision snapshot .keep tier.tier tier.reason
  else decision snapshot .delete .none .bucketAlreadyOccupied

/-- The buckets occupied so far. -/
structure Seen where
  days : List (ℤ × ℕ × ℕ) := []
  weeks : List (ℤ × ℕ) := []
  months : List (ℤ × ℕ) := []
  years : List ℤ := []

def hours (n : ℕ) : ℤ := n * 3600000000000

def days (n : ℕ) : ℤ := hours (n * 24)

variable (calendar : Calendar) (policy : RetentionPolicy) (now : ℤ)

/-- The bucket of a snapshot whose age has passed the recent window. -/
def fillSlot (seen : Seen) (snapshot : SnapshotCandidate) : RetentionDecision × Seen :=
  let age := now - snapshot.createdAt
  let date := calendar.withTimezone snapshot.createdAt snapshot.localOffsetSeconds
  if age < days policy.keepDailyDays then
    let key := (date.year, date.month, date.day)
    (bucketDecision snapshot .daily (key ∉ seen.days),
      { seen with days := seen.days.insert key })
  else if age < days policy.keepWeeklyDays then
    let key := (date.isoYear, date.isoWeek)
    (bucketDecision snapshot .weekly (key ∉ seen.weeks),
      { seen with weeks := seen.weeks.insert key })
  else if age < days policy.keepMonthlyDays then
    let key := (date.year, date.month)
    (bucketDecision snapshot .monthly (key ∉ seen.months),
      { seen with months := seen.months.insert key })
  else if policy.keepYearly then
    (bucketDecision snapshot .yearly (date.year ∉ seen.years),
      { seen with years := seen.years.insert date.year })
  else (decision snapshot .delete .none .bucketAlreadyOccupied, seen)

/-- One turn of the pass over the snapshots. -/
def judge (seen : Seen) (snapshot : SnapshotCandidate) :
    Except RetentionPolicyError (RetentionDecision × Seen) :=
  if !snapshot.isReady then .ok (decision snapshot .skip .none .notReady, seen)
  else if snapshot.isBusy then .ok (decision snapshot .skip .none .busy, seen)
  else if snapshot.isRestoreReferenced then
    .ok (decision snapshot .skip .none .restoreReferenced, seen)
  else if snapshot.cleanupPolicy = .keepForever then
    .ok (decision snapshot .keep .none .keepForever, seen)
  else if !policy.isAutoCleanupEnabled then
    .ok (decision snapshot .keep .none .automaticCleanupDisabled, seen)
  else if now - snapshot.createdAt < 0 then
    .ok (decision snapshot .keep .none .futureTimestamp, seen)
  else if now - snapshot.createdAt < hours policy.keepAllHours then
    .ok (decision snapshot .keep .all .allWithinRecentWindow, seen)
  else if !calendar.eastOpt snapshot.localOffsetSeconds then .error .invalidLocalOffset
  else .ok (fillSlot calendar policy now seen snapshot)

def judgeAll (seen : Seen) :
    List SnapshotCandidate → Except RetentionPolicyError (List RetentionDecision)
  | [] => .ok []
  | snapshot :: rest => do
    let (decision, seen) ← judge calendar policy now seen snapshot
    let decisions ← judgeAll seen rest
    return decision :: decisions

/-- The newest snapshot that would be deleted is kept. -/
def keepNewest : List RetentionDecision → List RetentionDecision
  | [] => []
  | decision :: decisions =>
    if decision.action = .delete then
      { decision with action := .keep, tier := .none, reason := .lastUsableSnapshot } :: decisions
    else decision :: keepNewest decisions

def keepLastUsable (decisions : List RetentionDecision) : List RetentionDecision :=
  if decisions.any fun decision => decision.action = .keep then decisions
  else keepNewest decisions

def evaluateRetention (snapshots : List SnapshotCandidate) :
    Except RetentionPolicyError (List RetentionDecision) := do
  policy.validate
  let ordered := greatestFirst SnapshotCandidate.createdAt snapshots
  let decisions ← judgeAll calendar policy now {} ordered
  return keepLastUsable decisions

end Decisions

end SnapshotsManager
