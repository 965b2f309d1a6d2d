import SynOSStudio.Installer.TargetEnvironment

/-!
# Tables of mounts under the target

What the commands of the four steps do to a table that has the target's mounts at its end, and the
states that the steps leave behind on the way forward and on the way back.
-/

namespace Installer

variable {target location : Location} {base m l : List Location}

/-! ## Places under the target -/

section Places

def targetLocations (target : Location) : List Location :=
  BTRFS_SUBVOLUMES.map (BtrfsSubvolume.location target) ++ [efiLocation target]

def chrootLocations (target : Location) : List Location :=
  chrootNames.map fun name => target ++ [name]

/-- The same places, from the target. -/
def relativeLocations : List Location :=
  [[], ["home"], ["var", "log"], [".snapshots"], ["var", "lib", "containers"],
    ["var", "lib", "libvirt", "images"], ["boot", "efi"]]

theorem relativeLocations_subvolumes :
    BTRFS_SUBVOLUMES.map (fun subvolume => relativeLocation subvolume.mountPoint) =
      relativeLocations.dropLast := by decide +kernel

theorem targetLocations_eq (target : Location) :
    targetLocations target = relativeLocations.map (target ++ ·) := by
  have hsubvolumes : BTRFS_SUBVOLUMES.map (BtrfsSubvolume.location target) =
      relativeLocations.dropLast.map (target ++ ·) := by
    rw [← relativeLocations_subvolumes, List.map_map]
    rfl
  rw [targetLocations, hsubvolumes]
  rfl

/-- No place comes at or below one that is mounted after it. -/
theorem targetLocations_pairwise (target : Location) :
    (targetLocations target).Pairwise fun earlier later => ¬ later <+: earlier := by
  have hrelative : relativeLocations.Pairwise fun earlier later => ¬ later <+: earlier := by decide
  rw [targetLocations_eq, List.pairwise_map]
  exact hrelative.imp fun h => by rwa [List.prefix_append_right_inj]

theorem target_prefix_of_mem (h : location ∈ targetLocations target) : target <+: location := by
  rw [targetLocations_eq] at h
  obtain ⟨relative, -, rfl⟩ := List.mem_map.mp h
  exact List.prefix_append _ _

theorem target_prefix_of_chroot (h : location ∈ chrootLocations target) : target <+: location := by
  obtain ⟨name, -, rfl⟩ := List.mem_map.mp h
  exact List.prefix_append _ _

/-- None of the places of the target is in the isolated environment. -/
theorem not_chroot_prefix {guest : Location} (hguest : guest ∈ chrootLocations target)
    (h : location ∈ targetLocations target) : ¬ guest <+: location := by
  have hrelative : ∀ name ∈ chrootNames, ∀ relative ∈ relativeLocations,
      ¬ [name] <+: relative := by decide
  obtain ⟨name, hname, rfl⟩ := List.mem_map.mp hguest
  rw [targetLocations_eq] at h
  obtain ⟨relative, hrel, rfl⟩ := List.mem_map.mp h
  rw [List.prefix_append_right_inj]
  exact hrelative name hname relative hrel

theorem chroot_prefix_eq {guest other : Location} (hguest : guest ∈ chrootLocations target)
    (hother : other ∈ chrootLocations target) (h : guest <+: other) : guest = other := by
  obtain ⟨name, -, rfl⟩ := List.mem_map.mp hguest
  obtain ⟨name', -, rfl⟩ := List.mem_map.mp hother
  rw [List.prefix_append_right_inj] at h
  simpa using h

end Places

/-! ## One command -/

section Commands

/-- Nothing is mounted at or below the target. -/
def Apart (target : Location) (base : List Location) : Prop := ∀ m ∈ base, ¬ target <+: m

theorem Apart.not_prefix (h : Apart target base) (hlocation : target <+: location) :
    ∀ m ∈ base, ¬ location <+: m :=
  fun m hm hprefix => h m hm (hlocation.trans hprefix)

theorem Apart.not_mem (h : Apart target base) (hlocation : target <+: location) :
    location ∉ base := fun hm => h.not_prefix hlocation location hm List.prefix_rfl

theorem dropLastMount_append_singleton (location : Location) (mounts : List Location) :
    dropLastMount location (mounts ++ [location]) = mounts := by
  simp [dropLastMount]

theorem canUmount_iff {mounts : List Location} :
    canUmount location mounts = true ↔ location ∈ mounts ∧
      ∀ m ∈ mounts, location <+: m → m = location := decide_eq_true_iff

/-- The last of the recorded mounts can be removed where it is mounted, and nothing happens where
it is not. -/
theorem umount_last (hbase : Apart target base)
    (hlaid : (l ++ [location]).Sublist (targetLocations target)) (hm : m <+: l ++ [location]) :
    (m = l ++ [location] ∧ canUmount location (base ++ m) = true ∧
      dropLastMount location (base ++ m) = base ++ l) ∨
    (m <+: l ∧ canUmount location (base ++ m) = false) := by
  have hlast : target <+: location :=
    target_prefix_of_mem (hlaid.subset (by simp))
  have hearlier : ∀ p ∈ l, ¬ location <+: p := by
    have hpairwise := (targetLocations_pairwise target).sublist hlaid
    rw [List.pairwise_append] at hpairwise
    exact fun p hp => hpairwise.2.2 p hp location (by simp)
  rcases List.prefix_concat_iff.mp hm with rfl | hm
  · refine .inl ⟨rfl, canUmount_iff.mpr ⟨by simp, ?_⟩, ?_⟩
    · intro p hp hprefix
      simp only [List.mem_append, List.mem_singleton] at hp
      rcases hp with hp | hp | hp
      · exact absurd hprefix (hbase.not_prefix hlast p hp)
      · exact absurd hprefix (hearlier p hp)
      · exact hp
    · rw [← List.append_assoc, dropLastMount_append_singleton]
  · refine .inr ⟨hm, ?_⟩
    rw [Bool.eq_false_iff]
    intro hcan
    rcases List.mem_append.mp (canUmount_iff.mp hcan).1 with hin | hin
    · exact hbase.not_mem hlast hin
    · exact hearlier location (hm.subset hin) List.prefix_rfl

end Commands

end Installer
