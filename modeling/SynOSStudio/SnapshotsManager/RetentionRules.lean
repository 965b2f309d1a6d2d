import SynOSStudio.KeyedLists.Correspondence
import SynOSStudio.SnapshotsManager.Retention

/-!
# The rules of retention

Which snapshots are deleted, said of the snapshots alone: no pass over them, no sets of occupied
buckets and no repair at the end.
-/

namespace SnapshotsManager

open KeyedLists

theorem validate_systemDefault : RetentionPolicy.systemDefault.validate = .ok () := rfl

theorem validate_homeDefault : RetentionPolicy.homeDefault.validate = .ok () := rfl

section Rules

def age (now : ℤ) (s : SnapshotCandidate) : ℤ := now - s.createdAt

def Usable (s : SnapshotCandidate) : Prop :=
  s.isReady ∧ ¬ s.isBusy ∧ ¬ s.isRestoreReferenced

/-- Nothing protects the snapshot from a cleanup. -/
def Eligible (policy : RetentionPolicy) (now : ℤ) (s : SnapshotCandidate) : Prop :=
  Usable s ∧ s.cleanupPolicy ≠ .keepForever ∧ policy.isAutoCleanupEnabled ∧
    hours policy.keepAllHours ≤ age now s

/-- A tier and a local bucket in it. -/
inductive Bucket
  | day (year : ℤ) (month day : ℕ)
  | week (year : ℤ) (week : ℕ)
  | month (year : ℤ) (month : ℕ)
  | year (year : ℤ)
  deriving DecidableEq

variable (calendar : Calendar) (policy : RetentionPolicy) (now : ℤ)

def bucketOf (s : SnapshotCandidate) : Option Bucket :=
  let date := calendar.withTimezone s.createdAt s.localOffsetSeconds
  if age now s < days policy.keepDailyDays then some (.day date.year date.month date.day)
  else if age now s < days policy.keepWeeklyDays then some (.week date.isoYear date.isoWeek)
  else if age now s < days policy.keepMonthlyDays then some (.month date.year date.month)
  else if policy.keepYearly then some (.year date.year)
  else none

/-- Newest first, and of equal times in the order they were found. -/
abbrev Newer (snapshots : List SnapshotCandidate) (t s : SnapshotCandidate) : Prop :=
  Precedes SnapshotCandidate.createdAt snapshots t s

/-- The snapshot is past every tier, or a newer one has its bucket. -/
def Doomed (snapshots : List SnapshotCandidate) (s : SnapshotCandidate) : Prop :=
  Eligible policy now s ∧
    (days policy.keepMonthlyDays ≤ age now s ∧ ¬ policy.keepYearly ∨
      ∃ t ∈ snapshots, Newer snapshots t s ∧ Eligible policy now t ∧
        bucketOf calendar policy now t = bucketOf calendar policy now s)

/-- No doomed snapshot of the list is newer. -/
def NewestDoomed (snapshots list : List SnapshotCandidate) (s : SnapshotCandidate) : Prop :=
  ∀ t ∈ list, Doomed calendar policy now snapshots t → t = s ∨ Newer snapshots s t

/-- No snapshot would be kept, and this is the newest of those to be deleted. -/
def Spared (snapshots : List SnapshotCandidate) (s : SnapshotCandidate) : Prop :=
  (∀ t ∈ snapshots, Usable t → Doomed calendar policy now snapshots t) ∧
    NewestDoomed calendar policy now snapshots snapshots s

theorem validate_monotone {policy : RetentionPolicy} (valid : policy.validate = .ok ()) :
    policy.keepDailyDays ≤ policy.keepWeeklyDays ∧
      policy.keepWeeklyDays ≤ policy.keepMonthlyDays := by
  unfold RetentionPolicy.validate at valid
  split_ifs at valid with interval zero order
  omega

/-- Only a snapshot past every tier has no bucket. -/
theorem bucketOf_eq_none_iff {calendar : Calendar} {policy : RetentionPolicy} {now : ℤ}
    (valid : policy.validate = .ok ()) {s : SnapshotCandidate} :
    bucketOf calendar policy now s = none ↔
      days policy.keepMonthlyDays ≤ age now s ∧ ¬ policy.keepYearly := by
  obtain ⟨weekly, monthly⟩ := validate_monotone valid
  unfold bucketOf days hours
  by_cases yearly : policy.keepYearly <;> split_ifs <;> simp [yearly] <;> omega

end Rules

section Turn

def Seen.Holds (seen : Seen) : Bucket → Prop
  | .day year month day => (year, month, day) ∈ seen.days
  | .week year week => (year, week) ∈ seen.weeks
  | .month year month => (year, month) ∈ seen.months
  | .year year => year ∈ seen.years

variable {calendar : Calendar} {policy : RetentionPolicy} {now : ℤ} {seen seen' : Seen}
  {s : SnapshotCandidate} {d : RetentionDecision}

/-- What one turn decides, and what it leaves occupied. -/
structure Judged (calendar : Calendar) (policy : RetentionPolicy) (now : ℤ) (seen seen' : Seen)
    (s : SnapshotCandidate) (d : RetentionDecision) : Prop where
  named : d.snapshotId = s.id
  skips : d.action = .skip ↔ ¬ Usable s
  deletes : d.action = .delete ↔ Eligible policy now s ∧
    ∀ b, bucketOf calendar policy now s = some b → seen.Holds b
  holds : ∀ b, seen'.Holds b ↔ seen.Holds b ∨
    Eligible policy now s ∧ bucketOf calendar policy now s = some b

@[simp] theorem bucketDecision_named (tier : BucketTier) (claimed : Bool) :
    (bucketDecision s tier claimed).snapshotId = s.id := by
  cases claimed <;> rfl

@[simp] theorem bucketDecision_skips (tier : BucketTier) (claimed : Bool) :
    (bucketDecision s tier claimed).action ≠ .skip := by
  cases claimed <;> simp [bucketDecision, decision]

@[simp] theorem bucketDecision_deletes (tier : BucketTier) (claimed : Bool) :
    (bucketDecision s tier claimed).action = .delete ↔ claimed = false := by
  cases claimed <;> simp [bucketDecision, decision]

/-- A bucket tier keeps the snapshot exactly when its bucket was free, and then occupies it. -/
theorem judged_of_bucket (eligible : Eligible policy now s) {tier : BucketTier} {b : Bucket}
    {claimed : Bool} (bucket : bucketOf calendar policy now s = some b)
    (free : claimed = false ↔ seen.Holds b)
    (holds : ∀ b', seen'.Holds b' ↔ seen.Holds b' ∨ b = b') :
    Judged calendar policy now seen seen' s (bucketDecision s tier claimed) where
  named := bucketDecision_named tier claimed
  skips := by simp [eligible.1]
  deletes := by simp [eligible, bucket, free]
  holds b' := by simp [eligible, bucket, holds]

theorem fillSlot_judged (eligible : Eligible policy now s) :
    Judged calendar policy now seen (fillSlot calendar policy now seen s).2 s
      (fillSlot calendar policy now seen s).1 := by
  let date := calendar.withTimezone s.createdAt s.localOffsetSeconds
  unfold fillSlot
  dsimp only
  split_ifs with daily weekly monthly yearly
  · have bucket : bucketOf calendar policy now s = some (.day date.year date.month date.day) := by
      simp [bucketOf, age, daily, date]
    refine judged_of_bucket eligible bucket (by simp [Seen.Holds, date]) fun b => ?_
    cases b <;> simp [Seen.Holds, date, or_comm, eq_comm]
  · have bucket : bucketOf calendar policy now s = some (.week date.isoYear date.isoWeek) := by
      simp [bucketOf, age, daily, weekly, date]
    refine judged_of_bucket eligible bucket (by simp [Seen.Holds, date]) fun b => ?_
    cases b <;> simp [Seen.Holds, date, or_comm, eq_comm]
  · have bucket : bucketOf calendar policy now s = some (.month date.year date.month) := by
      simp [bucketOf, age, daily, weekly, monthly, date]
    refine judged_of_bucket eligible bucket (by simp [Seen.Holds, date]) fun b => ?_
    cases b <;> simp [Seen.Holds, date, or_comm, eq_comm]
  · have bucket : bucketOf calendar policy now s = some (.year date.year) := by
      simp [bucketOf, age, daily, weekly, monthly, yearly, date]
    refine judged_of_bucket eligible bucket (by simp [Seen.Holds, date]) fun b => ?_
    cases b <;> simp [Seen.Holds, date, or_comm, eq_comm]
  · have bucket : bucketOf calendar policy now s = none := by
      simp [bucketOf, age, daily, weekly, monthly, yearly]
    exact ⟨rfl, by simp [decision, eligible.1], by simp [decision, eligible, bucket],
      by simp [bucket]⟩

/-- A decision made without a look at the buckets. -/
theorem judged_of_protected (protection : ¬ Eligible policy now s) {action : RetentionAction}
    {tier : RetentionTier} {reason : RetentionReason} (delete : action ≠ .delete)
    (skips : action = .skip ↔ ¬ Usable s) :
    Judged calendar policy now seen seen s (decision s action tier reason) :=
  ⟨rfl, skips, by simp [decision, delete, protection], by simp [protection]⟩

theorem judge_judged (accepted : calendar.eastOpt s.localOffsetSeconds) :
    ∃ d seen', judge calendar policy now seen s = .ok (d, seen') ∧
      Judged calendar policy now seen seen' s d := by
  unfold judge
  split_ifs with ready busy restore forever disabled future recent offset
  · exact ⟨_, _, rfl, judged_of_protected (by simp_all [Eligible, Usable]) (by simp)
      (by simp_all [Usable])⟩
  · exact ⟨_, _, rfl, judged_of_protected (by simp_all [Eligible, Usable]) (by simp)
      (by simp_all [Usable])⟩
  · exact ⟨_, _, rfl, judged_of_protected (by simp_all [Eligible, Usable]) (by simp)
      (by simp_all [Usable])⟩
  · exact ⟨_, _, rfl, judged_of_protected (by simp_all [Eligible, Usable]) (by simp)
      (by simp_all [Usable])⟩
  · exact ⟨_, _, rfl, judged_of_protected (by simp_all [Eligible, Usable]) (by simp)
      (by simp_all [Usable])⟩
  · refine ⟨_, _, rfl, judged_of_protected ?_ (by simp) (by simp_all [Usable])⟩
    intro eligible
    have := eligible.2.2.2
    simp only [age, hours] at this
    omega
  · refine ⟨_, _, rfl, judged_of_protected ?_ (by simp) (by simp_all [Usable])⟩
    intro eligible
    exact absurd eligible.2.2.2 (not_le.mpr recent)
  · simp [accepted] at offset
  · have usable : Usable s := by simp_all [Usable]
    exact ⟨_, _, rfl, fillSlot_judged
      ⟨usable, forever, by simpa using disabled, not_lt.mp recent⟩⟩

end Turn

section Pass

variable {calendar : Calendar} {policy : RetentionPolicy} {now : ℤ}
  {snapshots : List SnapshotCandidate} {s t : SnapshotCandidate} {d : RetentionDecision}

/-- The decision of the pass, before the repair. -/
structure Ruled (calendar : Calendar) (policy : RetentionPolicy) (now : ℤ)
    (snapshots : List SnapshotCandidate) (s : SnapshotCandidate) (d : RetentionDecision) :
    Prop where
  named : d.snapshotId = s.id
  skips : d.action = .skip ↔ ¬ Usable s
  deletes : d.action = .delete ↔ Doomed calendar policy now snapshots s

/-- Occupied are the buckets of the eligible snapshots that the pass has left behind. -/
def Occupied (calendar : Calendar) (policy : RetentionPolicy) (now : ℤ)
    (before : List SnapshotCandidate) (seen : Seen) : Prop :=
  ∀ b, seen.Holds b ↔ ∃ t ∈ before, Eligible policy now t ∧
    bucketOf calendar policy now t = some b

theorem occupied_nil : Occupied calendar policy now [] {} := by
  intro b
  cases b <;> simp [Seen.Holds]

theorem Judged.occupied {before : List SnapshotCandidate} {seen seen' : Seen}
    (judged : Judged calendar policy now seen seen' s d)
    (occupied : Occupied calendar policy now before seen) :
    Occupied calendar policy now (before ++ [s]) seen' := by
  intro b
  simp [judged.holds, occupied b, or_and_right, exists_or]

theorem Judged.ruled {before after : List SnapshotCandidate} {seen seen' : Seen}
    (valid : policy.validate = .ok ()) (judged : Judged calendar policy now seen seen' s d) (nodup : snapshots.Nodup)
    (order : greatestFirst SnapshotCandidate.createdAt snapshots = before ++ s :: after)
    (occupied : Occupied calendar policy now before seen) :
    Ruled calendar policy now snapshots s d := by
  refine ⟨judged.named, judged.skips, judged.deletes.trans (and_congr_right fun _ => ?_)⟩
  have behind : ∀ t, t ∈ before ↔ t ∈ snapshots ∧ Newer snapshots t s := by
    intro t
    constructor
    · intro ht
      have mem : t ∈ snapshots := mem_greatestFirst.mp (order ▸ List.mem_append_left _ ht)
      exact ⟨mem, (mem_before_iff nodup order mem).mp ht⟩
    · rintro ⟨mem, newer⟩
      exact (mem_before_iff nodup order mem).mpr newer
  cases bucket : bucketOf calendar policy now s with
  | none => simp [(bucketOf_eq_none_iff valid).mp bucket]
  | some b =>
    have inside : ¬ (days policy.keepMonthlyDays ≤ age now s ∧ ¬ policy.keepYearly) := by
      rw [← @bucketOf_eq_none_iff calendar _ _ valid, bucket]
      exact Option.some_ne_none b
    rw [or_iff_right inside]
    simp [occupied b, behind, and_assoc]

theorem judgeAll_ruled (valid : policy.validate = .ok ()) (nodup : snapshots.Nodup)
    (accepted : ∀ s ∈ snapshots, calendar.eastOpt s.localOffsetSeconds)
    (before rest : List SnapshotCandidate) (seen : Seen)
    (order : greatestFirst SnapshotCandidate.createdAt snapshots = before ++ rest)
    (occupied : Occupied calendar policy now before seen) :
    ∃ decisions, judgeAll calendar policy now seen rest = .ok decisions ∧
      List.Forall₂ (Ruled calendar policy now snapshots) rest decisions := by
  induction rest generalizing before seen with
  | nil => exact ⟨[], rfl, .nil⟩
  | cons s rest ih =>
    have ahead : s ∈ greatestFirst SnapshotCandidate.createdAt snapshots := by simp [order]
    have mem : s ∈ snapshots := mem_greatestFirst.mp ahead
    obtain ⟨d, seen', turn, judged⟩ := @judge_judged _ policy now seen _ (accepted s mem)
    obtain ⟨decisions, pass, ruled⟩ := ih (before ++ [s]) seen' (by simpa using order)
      (judged.occupied occupied)
    refine ⟨d :: decisions, ?_, .cons (judged.ruled valid nodup order occupied) ruled⟩
    simp [judgeAll, turn, pass, bind, Except.bind, pure, Except.pure]

end Pass

section Repair

variable {calendar : Calendar} {policy : RetentionPolicy} {now : ℤ}
  {snapshots ordered : List SnapshotCandidate} {decisions : List RetentionDecision}
  {s t : SnapshotCandidate} {d : RetentionDecision}

/-- The decision after the repair. -/
structure Settled (calendar : Calendar) (policy : RetentionPolicy) (now : ℤ)
    (snapshots : List SnapshotCandidate) (s : SnapshotCandidate) (d : RetentionDecision) :
    Prop where
  named : d.snapshotId = s.id
  skips : d.action = .skip ↔ ¬ Usable s
  deletes : d.action = .delete ↔
    Doomed calendar policy now snapshots s ∧ ¬ Spared calendar policy now snapshots s

theorem Ruled.keeps (ruled : Ruled calendar policy now snapshots s d) :
    d.action = .keep ↔ Usable s ∧ ¬ Doomed calendar policy now snapshots s := by
  have skips := ruled.skips
  have deletes := ruled.deletes
  have usable : Doomed calendar policy now snapshots s → Usable s := fun h => h.1.1
  cases action : d.action <;> simp_all

theorem Settled.keeps (settled : Settled calendar policy now snapshots s d) :
    d.action = .keep ↔ Usable s ∧ (Doomed calendar policy now snapshots s →
      Spared calendar policy now snapshots s) := by
  have skips := settled.skips
  have deletes := settled.deletes
  have usable : Doomed calendar policy now snapshots s → Usable s := fun h => h.1.1
  cases action : d.action <;> simp_all

theorem newestDoomed_head (sorted : (s :: ordered).Pairwise (Newer snapshots)) :
    NewestDoomed calendar policy now snapshots (s :: ordered) s := by
  intro t ht _
  rcases List.mem_cons.mp ht with rfl | ht
  · exact Or.inl rfl
  · exact Or.inr (List.rel_of_pairwise_cons sorted ht)

/-- Behind a doomed snapshot none is the newest of the doomed. -/
theorem not_newestDoomed_tail (nodup : snapshots.Nodup)
    (sorted : (s :: ordered).Pairwise (Newer snapshots))
    (doomed : Doomed calendar policy now snapshots s) (ht : t ∈ ordered) :
    ¬ NewestDoomed calendar policy now snapshots (s :: ordered) t := by
  intro newest
  have newer : Newer snapshots s t := List.rel_of_pairwise_cons sorted ht
  rcases newest s (by simp) doomed with rfl | h
  · exact Precedes.irrefl nodup newer
  · exact newer.asymm nodup h

theorem newestDoomed_cons (spared : ¬ Doomed calendar policy now snapshots s) :
    NewestDoomed calendar policy now snapshots (s :: ordered) t ↔
      NewestDoomed calendar policy now snapshots ordered t := by
  simp [NewestDoomed, spared]

theorem keepNewest_settles (nodup : snapshots.Nodup)
    (sorted : ordered.Pairwise (Newer snapshots))
    (ruled : List.Forall₂ (Ruled calendar policy now snapshots) ordered decisions) :
    List.Forall₂ (fun s d => d.snapshotId = s.id ∧ (d.action = .skip ↔ ¬ Usable s) ∧
      (d.action = .delete ↔ Doomed calendar policy now snapshots s ∧
        ¬ NewestDoomed calendar policy now snapshots ordered s))
      ordered (keepNewest decisions) := by
  induction ruled with
  | nil => exact .nil
  | @cons s d ordered decisions head tail ih =>
    unfold keepNewest
    split_ifs with delete
    · have doomed := head.deletes.mp delete
      have behind := (List.forall₂_and_left ordered decisions).mpr ⟨fun _ => id, tail⟩
      refine .cons ⟨head.named, by simp [doomed.1.1], by simp [newestDoomed_head sorted]⟩ ?_
      refine behind.imp fun t d h => ⟨h.2.named, h.2.skips, h.2.deletes.trans ?_⟩
      simp [not_newestDoomed_tail nodup sorted doomed h.1]
    · have spared : ¬ Doomed calendar policy now snapshots s := fun h => delete (head.deletes.mpr h)
      refine .cons ⟨head.named, head.skips, by simp [delete, spared]⟩ ?_
      simpa only [newestDoomed_cons spared] using ih sorted.of_cons

theorem keepLastUsable_settles (nodup : snapshots.Nodup)
    (ruled : List.Forall₂ (Ruled calendar policy now snapshots)
      (greatestFirst SnapshotCandidate.createdAt snapshots) decisions) :
    List.Forall₂ (Settled calendar policy now snapshots)
      (greatestFirst SnapshotCandidate.createdAt snapshots) (keepLastUsable decisions) := by
  have kept := exists_iff_of_forall₂ ruled fun _ _ h => h.keeps
  unfold keepLastUsable
  split_ifs with keep
  · obtain ⟨t, ht, usable, spared⟩ := kept.mp (by simpa using keep)
    refine ruled.imp fun s d h => ⟨h.named, h.skips, h.deletes.trans ?_⟩
    have some : ¬ Spared calendar policy now snapshots s := fun h =>
      spared (h.1 t (mem_greatestFirst.mp ht) usable)
    simp [some]
  · have none : ∀ t ∈ snapshots, Usable t → Doomed calendar policy now snapshots t := by
      intro t ht usable
      by_contra spared
      exact keep (by simpa using kept.mpr ⟨t, mem_greatestFirst.mpr ht, usable, spared⟩)
    refine (keepNewest_settles nodup (greatestFirst_precedes nodup) ruled).imp fun s d h => ?_
    refine ⟨h.1, h.2.1, h.2.2.trans ?_⟩
    simp only [Spared, NewestDoomed, mem_greatestFirst]
    tauto

theorem evaluateRetention_settles (valid : policy.validate = .ok ()) (nodup : snapshots.Nodup)
    (accepted : ∀ s ∈ snapshots, calendar.eastOpt s.localOffsetSeconds) :
    ∃ decisions, evaluateRetention calendar policy now snapshots = .ok decisions ∧
      List.Forall₂ (Settled calendar policy now snapshots)
        (greatestFirst SnapshotCandidate.createdAt snapshots) decisions := by
  obtain ⟨decisions, pass, ruled⟩ :=
    @judgeAll_ruled _ _ now _ valid nodup accepted []
      (greatestFirst SnapshotCandidate.createdAt snapshots) {} rfl occupied_nil
  refine ⟨keepLastUsable decisions, ?_, keepLastUsable_settles nodup ruled⟩
  simp [evaluateRetention, valid, pass, bind, Except.bind, pure, Except.pure]

end Repair

section Consequences

variable {calendar : Calendar} {policy : RetentionPolicy} {now : ℤ}
  {snapshots ordered : List SnapshotCandidate} {decisions : List RetentionDecision}
  {s t : SnapshotCandidate} {d : RetentionDecision}

theorem settled_names
    (settled : List.Forall₂ (Settled calendar policy now snapshots) ordered decisions) :
    decisions.map (·.snapshotId) = ordered.map (·.id) := by
  induction settled with
  | nil => rfl
  | cons head _ ih => simp [head.named, ih]

/-- The decision that bears the name of a snapshot is about that snapshot. -/
theorem settled_of_named (ids : (snapshots.map (·.id)).Nodup)
    (settled : List.Forall₂ (Settled calendar policy now snapshots)
      (greatestFirst SnapshotCandidate.createdAt snapshots) decisions)
    (hs : s ∈ snapshots) (hd : d ∈ decisions) (named : d.snapshotId = s.id) :
    Settled calendar policy now snapshots s d := by
  obtain ⟨i, hi, rfl⟩ := List.getElem_of_mem hd
  have hi' := settled.length_eq ▸ hi
  have about := settled.get hi' hi
  have same := List.inj_on_of_nodup_map ids
    (mem_greatestFirst.mp (List.get_mem _ ⟨i, hi'⟩)) hs (about.named.symm.trans named)
  exact same ▸ about

theorem exists_newestDoomed (sorted : ordered.Pairwise (Newer snapshots))
    (doomed : ∃ s ∈ ordered, Doomed calendar policy now snapshots s) :
    ∃ s ∈ ordered, Doomed calendar policy now snapshots s ∧
      NewestDoomed calendar policy now snapshots ordered s := by
  induction ordered with
  | nil => simp at doomed
  | cons s ordered ih =>
    by_cases head : Doomed calendar policy now snapshots s
    · exact ⟨s, by simp, head, newestDoomed_head sorted⟩
    · obtain ⟨t, ht, doomed, newest⟩ := ih sorted.of_cons (by simpa [head] using doomed)
      exact ⟨t, by simp [ht], doomed, (newestDoomed_cons head).mpr newest⟩

theorem some_snapshot_is_kept (nodup : snapshots.Nodup)
    (settled : List.Forall₂ (Settled calendar policy now snapshots)
      (greatestFirst SnapshotCandidate.createdAt snapshots) decisions)
    (eligible : ∃ s ∈ snapshots, Eligible policy now s) : ∃ d ∈ decisions, d.action = .keep := by
  rw [exists_iff_of_forall₂ settled fun _ _ h => h.keeps]
  by_cases kept : ∃ t ∈ snapshots, Usable t ∧ ¬ Doomed calendar policy now snapshots t
  · obtain ⟨t, ht, usable, spared⟩ := kept
    exact ⟨t, mem_greatestFirst.mpr ht, usable, fun doomed => absurd doomed spared⟩
  · have none : ∀ t ∈ snapshots, Usable t → Doomed calendar policy now snapshots t := by
      intro t ht usable
      by_contra spared
      exact kept ⟨t, ht, usable, spared⟩
    obtain ⟨s, hs, eligible⟩ := eligible
    obtain ⟨t, ht, doomed, newest⟩ := exists_newestDoomed (greatestFirst_precedes nodup)
      ⟨s, mem_greatestFirst.mpr hs, none s hs eligible.1⟩
    exact ⟨t, ht, doomed.1.1, fun _ => ⟨none, fun u hu => newest u (mem_greatestFirst.mpr hu)⟩⟩

/-- The snapshots that are left when the deletions have been carried out. -/
def survivors (decisions : List RetentionDecision) (snapshots : List SnapshotCandidate) :
    List SnapshotCandidate :=
  snapshots.filter fun s => ¬ ∃ d ∈ decisions, d.snapshotId = s.id ∧ d.action = .delete

theorem survivors_sublist : (survivors decisions snapshots).Sublist snapshots :=
  List.filter_sublist

theorem mem_survivors (ids : (snapshots.map (·.id)).Nodup)
    (settled : List.Forall₂ (Settled calendar policy now snapshots)
      (greatestFirst SnapshotCandidate.createdAt snapshots) decisions) :
    s ∈ survivors decisions snapshots ↔ s ∈ snapshots ∧
      (Doomed calendar policy now snapshots s → Spared calendar policy now snapshots s) := by
  simp only [survivors, List.mem_filter, decide_eq_true_eq]
  refine and_congr_right fun hs => ?_
  have named : s.id ∈ decisions.map (·.snapshotId) := by
    rw [settled_names settled]
    exact List.mem_map_of_mem (mem_greatestFirst.mpr hs)
  obtain ⟨d, hd, named⟩ := List.mem_map.mp named
  have about := settled_of_named ids settled hs hd named
  constructor
  · intro left doomed
    by_contra spared
    exact left ⟨d, hd, named, about.deletes.mpr ⟨doomed, spared⟩⟩
  · rintro left ⟨e, he, named', delete⟩
    have about := settled_of_named ids settled hs he named'
    obtain ⟨doomed, spared⟩ := about.deletes.mp delete
    exact spared (left doomed)

theorem Doomed.of_survivor (h : Doomed calendar policy now (survivors decisions snapshots) s) :
    Doomed calendar policy now snapshots s := by
  refine ⟨h.1, h.2.imp_right ?_⟩
  rintro ⟨t, ht, newer, eligible, bucket⟩
  exact ⟨t, survivors_sublist.subset ht, newer.of_sublist survivors_sublist, eligible, bucket⟩

/-- A survivor that is doomed again is the one that was spared, and it is alone. -/
theorem doomed_survivor_is_spared (ids : (snapshots.map (·.id)).Nodup)
    (settled : List.Forall₂ (Settled calendar policy now snapshots)
      (greatestFirst SnapshotCandidate.createdAt snapshots) decisions)
    (hs : s ∈ survivors decisions snapshots)
    (doomed : Doomed calendar policy now (survivors decisions snapshots) s) :
    Spared calendar policy now (survivors decisions snapshots) s := by
  have nodup : snapshots.Nodup := ids.of_map _
  have left : ∀ t, t ∈ survivors decisions snapshots ↔ _ := fun t => mem_survivors ids settled
  obtain ⟨none, newest⟩ := ((left s).mp hs).2 doomed.of_survivor
  have alone : ∀ t ∈ survivors decisions snapshots, Usable t → t = s := by
    intro t ht usable
    obtain ⟨ht, spared⟩ := (left t).mp ht
    have gone := none t ht usable
    rcases newest t ht gone with same | newer
    · exact same
    rcases (spared gone).2 s ((left s).mp hs).1 doomed.of_survivor with same | newer'
    · exact same.symm
    · exact absurd newer' (newer.asymm nodup)
  constructor
  · intro t ht usable
    rwa [alone t ht usable]
  · intro t ht gone
    exact Or.inl (alone t ht gone.1.1)

/-- One decision for each snapshot by the rules, some snapshot kept, no say of the order in which
they were found, and nothing more to delete the second time. -/
theorem retention_decisions_follow_the_rules (valid : policy.validate = .ok ())
    (ids : (snapshots.map (·.id)).Nodup)
    (accepted : ∀ s ∈ snapshots, calendar.eastOpt s.localOffsetSeconds) :
    ∃ decisions, evaluateRetention calendar policy now snapshots = .ok decisions ∧
      (decisions.map (·.snapshotId)).Perm (snapshots.map (·.id)) ∧
      (∀ s ∈ snapshots, ∀ d ∈ decisions, d.snapshotId = s.id →
        (d.action = .delete ↔
          Doomed calendar policy now snapshots s ∧ ¬ Spared calendar policy now snapshots s) ∧
        (d.action = .keep ↔ Usable s ∧ (Doomed calendar policy now snapshots s →
          Spared calendar policy now snapshots s))) ∧
      ((∃ s ∈ snapshots, Eligible policy now s) → ∃ d ∈ decisions, d.action = .keep) ∧
      ((snapshots.map (·.createdAt)).Nodup → ∀ other : List SnapshotCandidate,
        other.Perm snapshots → evaluateRetention calendar policy now other = .ok decisions) ∧
      ∃ again, evaluateRetention calendar policy now (survivors decisions snapshots) = .ok again ∧
        ∀ d ∈ again, d.action ≠ .delete := by
  have nodup : snapshots.Nodup := ids.of_map _
  obtain ⟨decisions, run, settled⟩ := @evaluateRetention_settles _ _ now _ valid nodup accepted
  refine ⟨decisions, run, ?_, ?_, some_snapshot_is_kept nodup settled, ?_, ?_⟩
  · rw [settled_names settled]
    exact (greatestFirst_perm _ _).map _
  · intro s hs d hd named
    have about := settled_of_named ids settled hs hd named
    exact ⟨about.deletes, about.keeps⟩
  · intro times other perm
    rw [← run, evaluateRetention, evaluateRetention, greatestFirst_eq_of_perm times perm]
  · have nodup' : (survivors decisions snapshots).Nodup := nodup.sublist survivors_sublist
    obtain ⟨again, run', settled'⟩ := @evaluateRetention_settles _ _ now _ valid nodup'
      fun s hs => accepted s (survivors_sublist.subset hs)
    refine ⟨again, run', fun d hd delete => ?_⟩
    obtain ⟨s, hs, doomed, spared⟩ :=
      (exists_iff_of_forall₂ settled' fun _ _ h => h.deletes).mp ⟨d, hd, delete⟩
    exact spared (doomed_survivor_is_spared ids settled (mem_greatestFirst.mp hs) doomed)

end Consequences

section Gregorian

/-- The year, the month and the day of a day counted from 1970, in eras of 400 years from March. -/
def civilFromDays (epochDay : ℤ) : ℤ × ℤ × ℤ :=
  let dayOfEra := (epochDay + 719468) % 146097
  let yearOfEra := (dayOfEra - dayOfEra / 1460 + dayOfEra / 36524 - dayOfEra / 146096) / 365
  let dayOfYear := dayOfEra - (365 * yearOfEra + yearOfEra / 4 - yearOfEra / 100)
  let march := (5 * dayOfYear + 2) / 153
  let month := if march < 10 then march + 3 else march - 9
  let year := yearOfEra + (epochDay + 719468) / 146097 * 400
  (if month ≤ 2 then year + 1 else year, month, dayOfYear - (153 * march + 2) / 5 + 1)

def newYearsDay (year : ℤ) : ℤ :=
  365 * (year - 1) + (year - 1) / 4 - (year - 1) / 100 + (year - 1) / 400 - 719162

/-- A week belongs to the year of its Thursday. -/
def gregorian : Calendar where
  eastOpt seconds := -86400 < seconds ∧ seconds < 86400
  withTimezone time offset :=
    let epochDay := (time / 1000000000 + offset) / 86400
    let (year, month, day) := civilFromDays epochDay
    let thursday := epochDay - (epochDay + 3) % 7 + 3
    let isoYear := (civilFromDays thursday).1
    ⟨year, month.toNat, day.toNat, isoYear, ((thursday - newYearsDay isoYear) / 7 + 1).toNat⟩

example : gregorian.withTimezone (1609455600 * 1000000000) 3600 = ⟨2021, 1, 1, 2020, 53⟩ := by
  decide

def automaticSnapshot (id : String) (createdAt : ℤ) : SnapshotCandidate :=
  ⟨id, createdAt, 28800, .automatic, true, false, false⟩

theorem two_old_snapshots_leave_one : ∃ decisions,
    evaluateRetention gregorian { keepYearly := false } (days 900)
      [automaticSnapshot "oldest" 0, automaticSnapshot "newest" (days 100)] = .ok decisions ∧
    (decisions.map (·.snapshotId)).Perm ["oldest", "newest"] ∧
    ∃ d ∈ decisions, d.action = .keep := by
  obtain ⟨decisions, run, names, -, kept, -⟩ :=
    @retention_decisions_follow_the_rules gregorian { keepYearly := false } (days 900)
      [automaticSnapshot "oldest" 0, automaticSnapshot "newest" (days 100)]
      rfl (by decide) (by decide)
  refine ⟨decisions, run, names, kept ⟨automaticSnapshot "oldest" 0, by simp, ?_⟩⟩
  simp [Eligible, Usable, automaticSnapshot, age, hours, days]

end Gregorian

end SnapshotsManager
