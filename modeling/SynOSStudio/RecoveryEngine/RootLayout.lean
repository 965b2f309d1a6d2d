import SynOSStudio.RecoveryEngine.Disk
import SynOSStudio.RecoveryEngine.RootCleanup

/-!
# The layouts of a restore

A restore moves between four layouts of the root subvolumes. Applying goes forward
through them and reverting goes back, one Btrfs command at a time; in each of them
the subvolume that was running before the restore exists under exactly one name.
-/

namespace RecoveryEngine

/-- The fixed data of one restore: its names, its target, the subvolume that was the
root when it was armed, and the deployment snapshots at that time. -/
structure Restore where
  id : RollbackId
  target : DeploymentId
  current : Subvolume
  snapshots : DeploymentId → Option Subvolume

namespace Restore

variable (R : Restore)

def old : String := oldRootPrefix ++ R.id.hyphenated

def new : String := "@root.snapshots-manager-new-" ++ R.id.hyphenated

/-- A writable snapshot of the target, different from the running subvolume. -/
structure IsCopy (v : Subvolume) : Prop where
  ofTarget : ∃ source, R.snapshots R.target = some source ∧ v.parentUuid = some source.uuid
  writable : v.readOnly = false
  isOther : v.subvolId ≠ R.current.subvolId

/-- What no step of a restore changes: the deployment snapshots are as they were, and
the running subvolume is nowhere but under the names of the restore. -/
structure Kept (disk : Disk) : Prop where
  snapshots : disk.snapshots = R.snapshots
  used : R.current.subvolId < disk.nextSubvolId
  elsewhere : ∀ name v, name ≠ rootName → name ≠ R.old → name ≠ R.new →
    disk.top name = some v → v.subvolId ≠ R.current.subvolId

end Restore

/-- The layouts, in the order in which applying reaches them. -/
inductive RootLayout where
  | untouched | staged | shielded | activated
  deriving DecidableEq, Repr

namespace RootLayout

/-- Which of `@root`, the old root and the new root exist. -/
def view : RootLayout → Bool × Bool × Bool
  | .untouched => (true, false, false)
  | .staged => (true, false, true)
  | .shielded => (false, true, true)
  | .activated => (true, true, false)

variable (R : Restore)

/-- The subvolumes under the three names. -/
def Holds (R : Restore) : RootLayout → Disk → Prop
  | .untouched, disk =>
    disk.top rootName = some R.current ∧ disk.top R.old = none ∧ disk.top R.new = none
  | .staged, disk =>
    disk.top rootName = some R.current ∧ disk.top R.old = none ∧
      ∃ v, disk.top R.new = some v ∧ R.IsCopy v
  | .shielded, disk =>
    disk.top rootName = none ∧ disk.top R.old = some R.current ∧
      ∃ v, disk.top R.new = some v ∧ R.IsCopy v
  | .activated, disk =>
    (∃ v, disk.top rootName = some v ∧ R.IsCopy v) ∧ disk.top R.old = some R.current ∧
      disk.top R.new = none

/-- The name under which the running subvolume is found. -/
def home (R : Restore) : RootLayout → String
  | .untouched | .staged => rootName
  | .shielded | .activated => R.old

end RootLayout

namespace Restore

variable {R : Restore}

theorem ne_append_of_length_lt {a b : String} (rest : String)
    (h : a.toList.length < b.toList.length) : a ≠ b ++ rest := by
  intro e
  have hlen := congrArg (fun text => text.toList.length) e
  simp only [String.toList_append, List.length_append] at hlen
  omega

theorem root_ne_old : rootName ≠ R.old :=
  ne_append_of_length_lt _ (by decide)

theorem root_ne_new : rootName ≠ R.new :=
  ne_append_of_length_lt _ (by decide)

theorem old_ne_new : R.old ≠ R.new := by
  unfold old new
  intro h
  exact absurd ((String.append_left_inj _).mp h) (by decide)

/-- The names of the restore are pairwise distinct, as rewriting rules. -/
theorem names_distinct :
    rootName ≠ R.old ∧ rootName ≠ R.new ∧ R.old ≠ R.new ∧
      R.old ≠ rootName ∧ R.new ≠ rootName ∧ R.new ≠ R.old :=
  ⟨root_ne_old, root_ne_new, old_ne_new, root_ne_old.symm, root_ne_new.symm, old_ne_new.symm⟩

end Restore

namespace RootLayout

open Restore

variable {R : Restore} {disk : Disk} {uuid : Uuid} {text : String}

theorem Holds.view_eq {layout : RootLayout} (h : layout.Holds R disk) :
    ((disk.top rootName).isSome, (disk.top R.old).isSome, (disk.top R.new).isSome) =
      layout.view := by
  cases layout with
  | untouched =>
    obtain ⟨hr, ho, hn⟩ := h
    simp [hr, ho, hn, view]
  | staged =>
    obtain ⟨hr, ho, v, hn, -⟩ := h
    simp [hr, ho, hn, view]
  | shielded =>
    obtain ⟨hr, ho, v, hn, -⟩ := h
    simp [hr, ho, hn, view]
  | activated =>
    obtain ⟨⟨v, hr, -⟩, ho, hn⟩ := h
    simp [hr, ho, hn, view]

/-- In every layout the running subvolume exists exactly once. -/
theorem Holds.home_unique {layout : RootLayout} (h : layout.Holds R disk) (hk : R.Kept disk) :
    disk.top (layout.home R) = some R.current ∧
      ∀ name v, disk.top name = some v → v.subvolId = R.current.subvolId →
        name = layout.home R := by
  have hcases : ∀ name v, disk.top name = some v → v.subvolId = R.current.subvolId →
      name = rootName ∨ name = R.old ∨ name = R.new := by
    intro name v hv hid
    by_contra hne
    simp only [not_or] at hne
    exact hk.elsewhere name v hne.1 hne.2.1 hne.2.2 hv hid
  cases layout with
  | untouched =>
    obtain ⟨hr, ho, hn⟩ := h
    refine ⟨hr, fun name v hv hid => ?_⟩
    rcases hcases name v hv hid with rfl | rfl | rfl
    · rfl
    · simp [ho] at hv
    · simp [hn] at hv
  | staged =>
    obtain ⟨hr, ho, copy, hn, hcopy⟩ := h
    refine ⟨hr, fun name v hv hid => ?_⟩
    rcases hcases name v hv hid with rfl | rfl | rfl
    · rfl
    · simp [ho] at hv
    · simp only [hn, Option.some.injEq] at hv
      exact absurd (hv ▸ hid) hcopy.isOther
  | shielded =>
    obtain ⟨hr, ho, copy, hn, hcopy⟩ := h
    refine ⟨ho, fun name v hv hid => ?_⟩
    rcases hcases name v hv hid with rfl | rfl | rfl
    · simp [hr] at hv
    · rfl
    · simp only [hn, Option.some.injEq] at hv
      exact absurd (hv ▸ hid) hcopy.isOther
  | activated =>
    obtain ⟨⟨copy, hr, hcopy⟩, ho, hn⟩ := h
    refine ⟨ho, fun name v hv hid => ?_⟩
    rcases hcases name v hv hid with rfl | rfl | rfl
    · simp only [hr, Option.some.injEq] at hv
      exact absurd (hv ▸ hid) hcopy.isOther
    · rfl
    · simp [hn] at hv

/-- Applying, first command: the writable snapshot, where the target still exists. -/
theorem Holds.snapshot (h : untouched.Holds R disk) (hk : R.Kept disk) :
    ((disk.effect uuid text (.snapshotDeployment R.target R.new)).1 = .ok () ∧
      staged.Holds R (disk.effect uuid text (.snapshotDeployment R.target R.new)).2 ∧
      R.Kept (disk.effect uuid text (.snapshotDeployment R.target R.new)).2) ∨
    ∃ e, disk.effect uuid text (.snapshotDeployment R.target R.new) = (.error e, disk) := by
  obtain ⟨hr, ho, hn⟩ := h
  obtain ⟨d₁, d₂, d₃, d₄, d₅, d₆⟩ := R.names_distinct
  have hsnap := hk.snapshots
  cases hs : R.snapshots R.target with
  | none => exact .inr ⟨Disk.noSuchFile, by simp [Disk.effect, hsnap, hs]⟩
  | some source =>
    left
    simp only [Disk.effect, hsnap, hs, hn, true_and]
    refine ⟨⟨by simp [d₂, hr], by simp [d₃, ho], _, by simp; rfl, ⟨source, hs, rfl⟩, rfl, ?_⟩,
      by simp [hsnap], Nat.lt_succ_of_lt hk.used, ?_⟩
    · exact (Nat.ne_of_lt hk.used).symm
    · intro name v h₁ h₂ h₃ hv
      simp only [Disk.setTop_top, Function.update_of_ne h₃] at hv
      exact hk.elsewhere name v h₁ h₂ h₃ hv

theorem rename_eq {source destination : String} {v : Subvolume}
    (hs : disk.top source = some v) (hd : disk.top destination = none) :
    disk.effect uuid text (.rename source destination) =
      (.ok (), (disk.setTop source none).setTop destination (some v)) := by
  simp [Disk.effect, hs, hd]

/-- Renaming among the names of the restore keeps what a restore must not change. -/
theorem kept_rename {source destination : String} {value : Option Subvolume} (hk : R.Kept disk)
    (hs : source = rootName ∨ source = R.old ∨ source = R.new)
    (hd : destination = rootName ∨ destination = R.old ∨ destination = R.new) :
    R.Kept ((disk.setTop source none).setTop destination value) := by
  refine ⟨hk.snapshots, hk.used, fun name v h₁ h₂ h₃ hv => ?_⟩
  have hs' : name ≠ source := by
    rcases hs with rfl | rfl | rfl <;> assumption
  have hd' : name ≠ destination := by
    rcases hd with rfl | rfl | rfl <;> assumption
  simp only [Disk.setTop_top, Function.update_of_ne hd', Function.update_of_ne hs'] at hv
  exact hk.elsewhere name v h₁ h₂ h₃ hv

/-- Applying, second command: the running root moves aside. -/
theorem Holds.protect (h : staged.Holds R disk) (hk : R.Kept disk) :
    (disk.effect uuid text (.rename rootName R.old)).1 = .ok () ∧
      shielded.Holds R (disk.effect uuid text (.rename rootName R.old)).2 ∧
      R.Kept (disk.effect uuid text (.rename rootName R.old)).2 := by
  obtain ⟨hr, ho, v, hn, hv⟩ := h
  obtain ⟨d₁, d₂, d₃, d₄, d₅, d₆⟩ := R.names_distinct
  rw [rename_eq hr ho]
  exact ⟨rfl, ⟨by simp [d₁], by simp, v, by simp [d₅, d₆, hn], hv⟩,
    kept_rename hk (.inl rfl) (.inr (.inl rfl))⟩

/-- Applying, third command: the snapshot becomes the root. -/
theorem Holds.activate (h : shielded.Holds R disk) (hk : R.Kept disk) :
    (disk.effect uuid text (.rename R.new rootName)).1 = .ok () ∧
      activated.Holds R (disk.effect uuid text (.rename R.new rootName)).2 ∧
      R.Kept (disk.effect uuid text (.rename R.new rootName)).2 := by
  obtain ⟨hr, ho, v, hn, hv⟩ := h
  obtain ⟨d₁, d₂, d₃, d₄, d₅, d₆⟩ := R.names_distinct
  rw [rename_eq hn hr]
  exact ⟨rfl, ⟨⟨v, by simp, hv⟩, by simp [d₃, d₄, ho], by simp [d₅]⟩,
    kept_rename hk (.inr (.inr rfl)) (.inl rfl)⟩

/-- Reverting, from the activated layout: the restored root moves aside. -/
theorem Holds.moveAside (h : activated.Holds R disk) (hk : R.Kept disk) :
    (disk.effect uuid text (.rename rootName R.new)).1 = .ok () ∧
      shielded.Holds R (disk.effect uuid text (.rename rootName R.new)).2 ∧
      R.Kept (disk.effect uuid text (.rename rootName R.new)).2 := by
  obtain ⟨⟨v, hr, hv⟩, ho, hn⟩ := h
  obtain ⟨d₁, d₂, d₃, d₄, d₅, d₆⟩ := R.names_distinct
  rw [rename_eq hr hn]
  exact ⟨rfl, ⟨by simp [d₂], by simp [d₃, d₄, ho], v, by simp, hv⟩,
    kept_rename hk (.inl rfl) (.inr (.inr rfl))⟩

/-- Reverting, from the shielded layout: the old root becomes the root again. -/
theorem Holds.putBack (h : shielded.Holds R disk) (hk : R.Kept disk) :
    (disk.effect uuid text (.rename R.old rootName)).1 = .ok () ∧
      staged.Holds R (disk.effect uuid text (.rename R.old rootName)).2 ∧
      R.Kept (disk.effect uuid text (.rename R.old rootName)).2 := by
  obtain ⟨hr, ho, v, hn, hv⟩ := h
  obtain ⟨d₁, d₂, d₃, d₄, d₅, d₆⟩ := R.names_distinct
  rw [rename_eq ho hr]
  exact ⟨rfl, ⟨by simp, by simp [d₄], v, by simp [d₅, d₆, hn], hv⟩,
    kept_rename hk (.inr (.inl rfl)) (.inl rfl)⟩

/-- Reverting, from the staged layout: the snapshot is discarded. -/
theorem Holds.discard (h : staged.Holds R disk) (hk : R.Kept disk) :
    (disk.effect uuid text (.delete R.new)).1 = .ok () ∧
      untouched.Holds R (disk.effect uuid text (.delete R.new)).2 ∧
      R.Kept (disk.effect uuid text (.delete R.new)).2 := by
  obtain ⟨hr, ho, v, hn, hv⟩ := h
  obtain ⟨d₁, d₂, d₃, d₄, d₅, d₆⟩ := R.names_distinct
  simp only [Disk.effect, hn, true_and]
  refine ⟨⟨by simp [d₂, hr], by simp [d₃, ho], by simp⟩, hk.snapshots, hk.used, ?_⟩
  intro name v h₁ h₂ h₃ hv
  simp only [Disk.setTop_top, Function.update_of_ne h₃] at hv
  exact hk.elsewhere name v h₁ h₂ h₃ hv

end RootLayout

end RecoveryEngine
