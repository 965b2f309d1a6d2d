import SynOSStudio.Installer.EnteredRuns

/-!
# Closing the environment and unmounting the target

What the last two steps, and the cleanups of the earlier ones, do from whatever state a run has
reached.
-/

namespace Installer

open CompensatedRuns

variable {R : Type} {host : TargetHost} {target : Location} {base m c guests : List Location}
  {held : HeldMounts} {files entered : GuestFile → GuestNode} {op : TargetOperation}

/-! ## Giving a file back -/

section Restoring

/-- An operation that undoes something fails only where the state does not permit it. -/
theorem ends_undoing {P Q E : View} (hop : op.undoes target = true)
    (hdone : ∀ values : TargetValues R, See P values → values.permits op = true →
      See Q (values.after host op))
    (hkept : ∀ values : TargetValues R, See P values → values.permits op = false → See E values) :
    Ends (See P) (checked host op : TargetAction R PUnit) (fun _ => See Q)
      (See fun held files => Steady host target → E held files) := by
  refine Ends.bind (ends_operate
    (Q := fun b held files => if b then Q held files else Steady host target → E held files)
    (fun values hvalues _ hpermits => by simpa [See] using hdone values hvalues hpermits)
    (fun values hvalues hexited => ?_)
    (fun held files _ ⟨n, effective, message, hraised⟩ hsteady => ?_)
    fun values hvalues hcut _ hsteady => (hsteady.not_cut (.inl hop) hcut).elim) fun b => ?_
  · have h : Steady host target → See E values := by
      intro hsteady
      refine hkept values hvalues (Bool.eq_false_iff.mpr fun hpermits => ?_)
      obtain ⟨n, hn⟩ := hexited hpermits
      rw [hsteady.undoes op n hop] at hn
      cases hn
    simpa [See] using h
  · rw [hsteady.undoes op n hop] at hraised
    cases hraised
  · cases b
    · exact .throw fun values h => by simpa [See] using h
    · exact .pure _ fun values h => by simpa [See] using h

/-- Exactly this state. -/
def Now (held : HeldMounts) (files : GuestFile → GuestNode) : View :=
  fun held' files' => held' = held ∧ files' = files

/-- The file was a directory when it had to be given back. -/
def Blocked (host : TargetHost) (target : Location) (files : GuestFile → GuestNode)
    (file : GuestFile) : View :=
  fun _ _ => Steady host target → files file = .other

theorem ends_unlinkExisting (file : GuestFile) :
    Ends (See (Now held files)) (unlinkExisting host file : TargetAction R PUnit)
      (fun _ => See (Now held (Function.update files file .absent)))
      (See (Blocked host target files file)) := by
  have hunlink : Ends (See fun held' files' => Now held files held' files' ∧ files file ≠ .absent)
      (checked host (.unlink file) : TargetAction R PUnit)
      (fun _ => See (Now held (Function.update files file .absent)))
      (See (Blocked host target files file)) := by
    refine ends_undoing (E := fun _ _ => files file = .other) rfl (fun values h _ => ⟨h.1.1, ?_⟩)
      fun values h hpermits => ?_
    · exact congrArg (fun files => Function.update files file GuestNode.absent) h.1.2
    · have hfiles : values.files = files := h.1.2
      simpa [TargetValues.permits, hfiles, h.2, See] using hpermits
  refine Ends.get.bind fun values => .ite (fun habsent => .pure _ fun values' h => ?_)
    fun hthere => hunlink.mono (fun values' h => ?_) (fun _ _ h => h) fun _ h => h
  · obtain ⟨rfl, hheld, hfiles⟩ := h
    refine ⟨hheld, ?_⟩
    rw [hfiles] at habsent ⊢
    exact (Function.update_eq_self_iff.mpr habsent.symm).symm
  · obtain ⟨rfl, hheld, hfiles⟩ := h
    exact ⟨⟨hheld, hfiles⟩, by rwa [← hfiles]⟩

theorem ends_mkdirParent {P : View} (file : GuestFile) :
    Ends (See P) (checked host (.mkdir (file.parent target)) : TargetAction R PUnit)
      (fun _ => See P) (See fun _ _ => Steady host target → False) := by
  refine ends_undoing (E := fun _ _ => False) (by cases file <;> simp [TargetOperation.undoes])
    (fun values h _ => h) fun values h hpermits => ?_
  simp [TargetValues.permits] at hpermits

theorem ends_fileBack {file : GuestFile} {node : GuestNode} {f : GuestNode → GuestNode}
    (hop : op.undoes target = true)
    (hpermits : ∀ values : TargetValues R, values.files file = node → values.permits op = true)
    (hafter : ∀ values : TargetValues R, values.after host op =
      values.setFile file (f (values.files file))) :
    Ends (See (Now held (Function.update files file node))) (checked host op : TargetAction R PUnit)
      (fun _ => See (Now held (Function.update files file (f node))))
      (See fun _ _ => Steady host target → False) := by
  refine ends_undoing (E := fun _ _ => False) hop (fun values h _ => ?_) fun values h hkept => ?_
  · rw [hafter]
    refine ⟨h.1, ?_⟩
    have hfiles : values.files = Function.update files file node := h.2
    simp [TargetValues.setFile, hfiles]
  · have hfile : values.files file = node := by
      have hfiles : values.files = Function.update files file node := h.2
      simp [hfiles]
    simp [hpermits values hfile] at hkept

theorem ends_restoreFile (file : GuestFile) (backup : FileBackup) :
    Ends (See (Now held files)) (restoreFile host target file backup : TargetAction R PUnit)
      (fun _ => See (Now held (Function.update files file backup.node)))
      (See (Blocked host target files file)) := by
  refine (ends_unlinkExisting file).bind fun _ => ?_
  have hnever : ∀ values : TargetValues R, See (fun _ _ => Steady host target → False) values →
      See (Blocked host target files file) values := fun _ h hsteady => (h hsteady).elim
  cases backup with
  | absent => exact .pure _ fun _ h => h
  | symlink link =>
    refine ((ends_mkdirParent file).bind fun _ => ?_).mono (fun _ h => h) (fun _ _ h => h) hnever
    exact ends_fileBack (f := fun _ => .symlink link) rfl
      (fun values h => by simp [TargetValues.permits, h]) fun _ => rfl
  | file data mode =>
    refine ((ends_mkdirParent file).bind fun _ => ?_).mono (fun _ h => h) (fun _ _ h => h) hnever
    refine (ends_fileBack (f := GuestNode.written host.newMode data) rfl
      (fun values h => by simp [TargetValues.permits, h]) fun _ => rfl).bind fun _ => ?_
    exact ends_fileBack (f := GuestNode.withMode mode) rfl
      (fun values h => by simp [TargetValues.permits, h, GuestNode.written]) fun _ => rfl

end Restoring

/-! ## Closing the environment -/

section Leaving

/-- A table from which nothing is gone but what is at or below some of these places. -/
structure Thinned (locations : List Location) (mounts mounts' : List Location)
    (failed : List Location) : Prop where
  kept : ∃ p : Location → Bool, mounts' = mounts.filter p ∧
    ∀ m, (∀ location ∈ locations, ¬ location <+: m) → p m = true
  gone : ∀ location ∈ locations, location ∉ failed → ∀ m ∈ mounts', ¬ location <+: m

theorem Thinned.succeeded {location : Location} {locations mounts mounts' failed : List Location}
    (h : Thinned locations (mounts.filter fun m => decide (¬ location <+: m)) mounts' failed) :
    Thinned (location :: locations) mounts mounts' failed where
  kept := by
    obtain ⟨p, hmounts, hp⟩ := h.kept
    refine ⟨fun m => decide (¬ location <+: m) && p m, ?_, fun m hm => ?_⟩
    · rw [hmounts, List.filter_filter]
      exact List.filter_congr fun _ _ => Bool.and_comm _ _
    · simp only [Bool.and_eq_true, decide_eq_true_eq]
      exact ⟨hm location (by simp), hp m fun other hother => hm other (by simp [hother])⟩
  gone := by
    obtain ⟨p, hmounts, -⟩ := h.kept
    intro other hother hfailed m hm
    rcases List.mem_cons.mp hother with rfl | hother
    · have hfiltered := List.mem_of_mem_filter (hmounts ▸ hm)
      simpa using (List.mem_filter.mp hfiltered).2
    · exact h.gone other hother hfailed m hm

theorem Thinned.failed {location : Location} {locations mounts mounts' failed : List Location}
    (h : Thinned locations mounts mounts' failed) :
    Thinned (location :: locations) mounts mounts' (location :: failed) where
  kept := by
    obtain ⟨p, hmounts, hp⟩ := h.kept
    exact ⟨p, hmounts, fun m hm => hp m fun other hother => hm other (by simp [hother])⟩
  gone other hother hfailed := by
    simp only [List.mem_cons, not_or] at hother hfailed
    exact h.gone other (hother.resolve_left hfailed.1) hfailed.2

/-- Places that are mounted, none at or below another: removing one tree leaves the others. -/
def Removable (locations mounts : List Location) : Prop :=
  (∀ location ∈ locations, location ∈ mounts) ∧
    locations.Pairwise fun location other => ¬ location <+: other

theorem ends_umountTrees (target : Location) (locations : List Location) (held : HeldMounts)
    (files : GuestFile → GuestNode) :
    Ends (See (Now held files)) (umountTrees host locations : TargetAction R (List Location))
      (fun failed => See fun held' files' => files' = files ∧
        (∃ mounts', held' = { held with mounts := mounts' } ∧
          Thinned locations held.mounts mounts' failed) ∧
        (Steady host target → Removable locations held.mounts → failed = []))
      (See fun _ _ => Steady host target → False) := by
  induction locations generalizing held with
  | nil =>
    refine .pure _ fun values h => ⟨h.2, ⟨held.mounts, ?_, ?_, by simp⟩, fun _ _ => rfl⟩
    · exact h.1
    · exact ⟨fun _ => true, by simp, fun _ _ => rfl⟩
  | cons location locations ih =>
    refine Ends.bind (Q := fun succeeded => See fun held' files' => files' = files ∧
        (succeeded = true → held' = { held with
          mounts := held.mounts.filter fun m => decide (¬ location <+: m) }) ∧
        (succeeded = false → held' = held ∧ (Steady host target → location ∉ held.mounts)))
      (ends_operate (fun values h _ _ => ⟨h.2, fun _ => ?_, by simp⟩) (fun values h hexited => ?_)
        (fun held' files' _ ⟨n, effective, message, hraised⟩ hsteady => ?_)
        fun values h hcut _ hsteady => hsteady.not_cut (.inl rfl) hcut) fun succeeded => ?_
    · obtain ⟨rfl, -⟩ := h
      rfl
    · obtain ⟨rfl, hfiles⟩ := h
      refine ⟨hfiles, by simp, fun _ => ⟨rfl, fun hsteady hmem => ?_⟩⟩
      obtain ⟨n, hn⟩ := hexited (by simpa [TargetValues.permits] using hmem)
      rw [hsteady.undoes _ n rfl] at hn
      cases hn
    · rw [hsteady.undoes _ n rfl] at hraised
      cases hraised
    cases succeeded with
    | true =>
      refine Ends.bind (P := See _) ((ih _).mono (fun values h => ⟨h.2.1 rfl, h.1⟩)
        (fun _ _ h => h) fun _ h => h) fun failed => .pure _ fun values h => ?_
      obtain ⟨hfiles, ⟨mounts', hheld, hthinned⟩, hsteady⟩ := h
      refine ⟨hfiles, ⟨mounts', hheld, hthinned.succeeded⟩, fun hs hremovable => hsteady hs ?_⟩
      have hapart := List.pairwise_cons.mp hremovable.2
      refine ⟨fun other hother => List.mem_filter.mpr ⟨hremovable.1 other (by simp [hother]), ?_⟩,
        hapart.2⟩
      simpa using hapart.1 other hother
    | false =>
      intro values h
      obtain ⟨hfiles, -, hkept⟩ := h
      obtain ⟨hheld, habsent⟩ := hkept rfl
      refine Ends.bind ((ih held).mono (fun values h => h) (fun _ _ h => h) fun _ h => h)
        (fun failed => .pure _ fun values' h => ?_) values ⟨hheld, hfiles⟩
      obtain ⟨hfiles', ⟨mounts', hheld', hthinned⟩, -⟩ := h
      refine ⟨hfiles', ⟨mounts', hheld', hthinned.failed⟩, fun hs hremovable => ?_⟩
      exact absurd (hremovable.1 location (by simp)) (habsent hs)

theorem chrootLocations_pairwise (target : Location) :
    (chrootLocations target).Pairwise fun location other => ¬ other <+: location := by
  have hnodup : (chrootLocations target).Nodup := by
    refine List.Nodup.map (fun name name' h => ?_) (by decide)
    simpa using h
  exact hnodup.imp_of_mem fun hlocation hother hne hprefix =>
    hne (chroot_prefix_eq hother hlocation hprefix).symm

theorem Recorded.removable (h : Recorded target base m c held) :
    Removable held.chrootMounts.reverse held.mounts := by
  refine ⟨fun location hlocation => ?_, ?_⟩
  · rw [h.mounts]
    exact List.mem_append_right _ (h.region.2 location (by simpa using hlocation))
  · exact List.pairwise_reverse.mpr ((chrootLocations_pairwise target).sublist h.guests)

/-- Where nothing failed, exactly the mounts of the environment are gone. -/
theorem Recorded.closed {mounts' failed : List Location} (hbase : Apart target base)
    (h : Recorded target base m c held)
    (hthinned : Thinned held.chrootMounts.reverse held.mounts mounts' failed)
    (hnone : held.chrootMounts.filter (fun location => decide (location ∈ failed)) = []) :
    mounts' = base ++ m := by
  obtain ⟨p, hmounts, hp⟩ := hthinned.kept
  have hguest : ∀ r ∈ held.chrootMounts.reverse, r ∈ chrootLocations target :=
    fun r hr => h.guests.subset (by simpa using hr)
  have hfirst : base.filter p = base := List.filter_eq_self.mpr fun q hq => hp q fun r hr =>
    hbase.not_prefix (target_prefix_of_chroot (hguest r hr)) q hq
  have hmiddle : m.filter p = m := List.filter_eq_self.mpr fun q hq => hp q fun r hr =>
    not_chroot_prefix (hguest r hr) (h.laid.subset (h.part.subset hq))
  have hlast : c.filter p = [] := by
    refine List.filter_eq_nil_iff.mpr fun q hq hpq => ?_
    obtain ⟨r, hr, hprefix⟩ := h.region.1 q hq
    have hin : q ∈ mounts' := by
      rw [hmounts, h.mounts]
      exact List.mem_filter.mpr ⟨by simp [hq], hpq⟩
    have hfailed : r ∉ failed := by simpa using List.filter_eq_nil_iff.mp hnone r hr
    exact hthinned.gone r (by simpa using hr) hfailed q hin hprefix
  rw [hmounts, h.mounts, List.filter_append, List.filter_append, hfirst, hmiddle, hlast,
    List.append_nil]

/-- The values after the mounts of the environment were removed, as far as that worked. -/
structure Unmounted (host : TargetHost) (target : Location) (check : Bool)
    (held held' : HeldMounts) : Prop where
  thinned : ∃ mounts' failed, Thinned held.chrootMounts.reverse held.mounts mounts' failed ∧
    (check = true → held.chrootMounts.filter (fun location => decide (location ∈ failed)) = []) ∧
    (Steady host target → Removable held.chrootMounts.reverse held.mounts → failed = []) ∧
    ∃ ready, held' = { held with
      mounts := mounts'
      chrootMounts := held.chrootMounts.filter fun location => decide (location ∈ failed)
      environmentReady := ready }

theorem ends_leaveMounts (target : Location) (check : Bool) (held : HeldMounts)
    (files : GuestFile → GuestNode) :
    Ends (See (Now held files)) (leaveMounts host check : TargetAction R PUnit)
      (fun _ => See fun held' files' => files' = files ∧ Unmounted host target check held held')
      (See fun _ _ => Steady host target →
        Removable held.chrootMounts.reverse held.mounts → False) := by
  refine Ends.get.bind fun values => ?_
  intro values' hvalues
  obtain ⟨rfl, rfl, rfl⟩ := hvalues
  refine Ends.bind ((ends_umountTrees target values.held.chrootMounts.reverse
    values.held values.files).mono (fun _ h => h) (fun _ _ h => h) fun _ h hsteady _ => h hsteady)
    (fun failed => ?_) values ⟨rfl, rfl⟩
  refine Ends.bind (Q := fun _ => See fun held' files' => files' = values.files ∧
      (∃ mounts', Thinned values.held.chrootMounts.reverse values.held.mounts mounts' failed ∧
        ∃ ready, held' = { values.held with
          mounts := mounts'
          chrootMounts := values.held.chrootMounts.filter fun location =>
            decide (location ∈ failed)
          environmentReady := ready }) ∧
      (Steady host target → Removable values.held.chrootMounts.reverse values.held.mounts →
        failed = [])) (ends_update fun held' files' h => ?_) fun _ => ?_
  · obtain ⟨hfiles, ⟨mounts', rfl, hthinned⟩, hsteady⟩ := h
    exact ⟨hfiles, ⟨mounts', hthinned, _, rfl⟩, hsteady⟩
  refine .ite (fun hremaining => .throw fun values' h hsteady hremovable => ?_)
    fun hremaining => .pure _ fun values' h => ?_
  · simp [h.2.2 hsteady hremovable] at hremaining
  · obtain ⟨hfiles, ⟨mounts', hthinned, ready, hheld⟩, hsteady⟩ := h
    refine ⟨hfiles, mounts', failed, hthinned, fun hcheck => ?_, hsteady, ready, hheld⟩
    simpa [hcheck] using hremaining

def givenBack (backups : GuestFile → Option FileBackup) (files : GuestFile → GuestNode) :
    GuestFile → GuestNode :=
  fun file => ((backups file).map FileBackup.node).getD (files file)

theorem ends_restoreBackup (file : GuestFile) (backup : Option FileBackup) :
    Ends (See (Now held files)) (restoreBackup host target file backup : TargetAction R PUnit)
      (fun _ => See (Now held (Function.update files file
        ((backup.map FileBackup.node).getD (files file)))))
      (See fun _ _ => Steady host target → backup.isSome = true ∧ files file = .other) := by
  cases backup with
  | none => exact .pure _ fun values h => by simpa using h
  | some backup =>
    exact (ends_restoreFile file backup).mono (fun _ h => h) (fun _ _ h => h)
      fun _ h hsteady => ⟨rfl, h hsteady⟩

/-- Closing the environment gives the files back and removes its mounts, as far as that works. -/
theorem ends_leaveChroot (check : Bool) (hwinding : Winding target base held files) :
    Ends (See (Now held files)) (leaveChroot host check : TargetAction R PUnit)
      (fun _ => See fun held' files' => files' = givenBack held.backups files ∧
        Unmounted host target check { held with backups := fun _ => none } held')
      (See fun _ _ => Steady host target → False) := by
  obtain ⟨⟨m, c, hrecorded⟩, htarget, hsafe⟩ := hwinding
  have hremovable : Removable held.chrootMounts.reverse held.mounts := hrecorded.removable
  have hclose : Ends (See (Now held files)) (closeChroot host target check : TargetAction R PUnit)
      (fun _ => See fun held' files' => files' = givenBack held.backups files ∧
        Unmounted host target check { held with backups := fun _ => none } held')
      (See fun _ _ => Steady host target → False) := by
    refine Ends.get.bind fun values => ?_
    intro values' hvalues
    obtain ⟨rfl, hnow⟩ := hvalues
    obtain ⟨rfl, rfl⟩ := hnow
    refine Ends.bind (P := See (Now values.held values.files))
      (Q := fun _ => See (Now { values.held with backups := fun _ => none } values.files))
      (ends_update fun held' files' h => ⟨by rw [h.1], h.2⟩) (fun _ => ?_) values ⟨rfl, rfl⟩
    refine ((ends_restoreBackup .resolver (values.held.backups .resolver)).mono (fun _ h => h)
      (fun _ _ h => h) fun _ h hsteady => ?_).bind fun _ => ?_
    · exact hsafe _ (h hsteady).1 (h hsteady).2
    refine ((ends_restoreBackup .policy (values.held.backups .policy)).mono (fun _ h => h)
      (fun _ _ h => h) fun _ h hsteady => ?_).bind fun _ => ?_
    · exact hsafe _ (h hsteady).1 (by simpa using (h hsteady).2)
    refine (ends_leaveMounts target check _ _).mono (fun _ h => h)
      (fun _ values' h => ⟨h.1.trans ?_, h.2⟩) fun _ h hsteady => h hsteady hremovable
    funext file
    cases file <;> simp [givenBack]
  refine Ends.get.bind fun values => ?_
  intro values' hvalues
  obtain ⟨rfl, hnow⟩ := hvalues
  have hfound : values.held.target = some target := by rw [hnow.1, htarget]
  cases hx : values.held.target with
  | none => simp [hx] at hfound
  | some found =>
    obtain rfl : found = target := Option.some.inj (hx.symm.trans hfound)
    exact hclose values hnow

theorem leaveChroot_finishes (hbase : Apart target base) :
    Ends (See (AllSaved target base guests entered)) (leaveChroot host true : TargetAction R PUnit)
      (fun _ => See fun held files => Complete target base held ∧ files = entered)
      (See (Windable host target base)) := by
  intro values hvalues
  have hwinding : Winding target base values.held values.files := hvalues.winding
  refine (ends_leaveChroot true hwinding).mono (fun _ h => h) (fun _ values' h => ?_)
    (fun _ h hsteady => (h hsteady).elim) values ⟨rfl, rfl⟩
  obtain ⟨⟨c, hinside⟩, hfiles⟩ := hvalues
  obtain ⟨hgiven, mounts', failed, hthinned, hchecked, -, ready, hheld⟩ := h
  have hnone := hchecked rfl
  refine ⟨?_, hgiven.trans ?_⟩
  · rw [hheld]
    exact ⟨hinside.recorded_all.closed hbase hthinned hnone, hinside.laid, hinside.topLevel, hnone,
      fun _ => rfl, hinside.onTarget⟩
  · funext file
    obtain ⟨-, backup, hbackup, hnode⟩ := (hfiles file).1 (by cases file <;> simp)
    simp [givenBack, hbackup, hnode]

theorem leaveChroot_winds (check : Bool) (hsteady : Steady host target)
    (hbase : Apart target base) :
    Ends (See (Winding target base)) (leaveChroot host check : TargetAction R PUnit)
      (fun _ => See (Wound target base)) fun _ => False := by
  intro values hvalues
  refine (ends_leaveChroot check hvalues).mono (fun _ h => h) (fun _ values' h => ?_)
    (fun _ h => h hsteady) values ⟨rfl, rfl⟩
  obtain ⟨⟨m, c, hrecorded⟩, htarget, -⟩ := hvalues
  obtain ⟨-, mounts', failed, hthinned, -, hfailed, ready, hheld⟩ := h
  have hnone :
      values.held.chrootMounts.filter (fun location => decide (location ∈ failed)) = [] := by
    simp [hfailed hsteady hrecorded.removable]
  unfold See
  rw [hheld]
  refine ⟨⟨m, ?_, hrecorded.part, hrecorded.laid, ?_, ?_⟩, htarget, fun _ => rfl⟩
  · exact (hrecorded.closed hbase hthinned hnone).trans (List.append_nil _).symm
  · exact (congrArg (List.Sublist · _) hnone).mpr (List.nil_sublist _)
  · exact (congrArg (Region · _) hnone).mpr (region_nil.mpr rfl)

end Leaving

/-! ## Unmounting the target -/

section Unmounting

variable {l btrfs : List Location} {top root efi : Bool} {location : Location}

/-- The mounts of the target are these, the first ones on record. -/
structure Standing (target : Location) (base l : List Location) (top root efi : Bool)
    (btrfs : List Location) (held : HeldMounts) : Prop where
  mounts : held.mounts = base ++ l
  part : l <+: layout target top root efi btrfs
  laid : (layout target top root efi btrfs).Sublist (targetLocations target)
  topLevel : held.topLevelMounted = top
  root : held.rootMounted = root
  efi : held.efiMounted = efi
  btrfs : held.btrfsMounts = btrfs
  guests : held.chrootMounts = []
  backups : ∀ file, held.backups file = none
  onTarget : held.target = some target

/-- The same, with the two files as they were. -/
def Standing.with (entered : GuestFile → GuestNode) (target : Location) (base l : List Location)
    (top root efi : Bool) (btrfs : List Location) : View :=
  fun held files => Standing target base l top root efi btrfs held ∧ files = entered

theorem Standing.winding (h : Standing target base l top root efi btrfs held) :
    Winding target base held files := by
  refine ⟨⟨l, [], ?_, ?_, ?_, ?_, ?_⟩, h.onTarget, fun file hsome => ?_⟩
  · rw [h.mounts, List.append_nil]
  · rw [recorded, h.topLevel, h.root, h.efi, h.btrfs]; exact h.part
  · rw [recorded, h.topLevel, h.root, h.efi, h.btrfs]; exact h.laid
  · rw [h.guests]; exact List.nil_sublist _
  · rw [h.guests]; exact region_nil.mpr rfl
  · simp [h.backups file] at hsome

theorem ends_umountStanding (l : List Location) (location : Location) :
    Ends (See (Standing.with entered target base (l ++ [location]) top root efi btrfs))
      (checked host (.umount location) : TargetAction R PUnit)
      (fun _ => See (Standing.with entered target base l top root efi btrfs))
      (See (Windable host target base)) := by
  refine ends_checked _ (fun values hvalues _ => ?_) (fun _ _ h _ => h.1.winding)
    fun _ _ hcut _ hsteady => (hsteady.not_cut (.inl rfl) hcut).elim
  obtain ⟨h, hfiles⟩ := hvalues
  refine ⟨⟨?_, (List.prefix_append _ _).trans h.part, h.laid, h.topLevel, h.root, h.efi, h.btrfs,
    h.guests, h.backups, h.onTarget⟩, hfiles⟩
  refine (congrArg (dropLastMount location) h.mounts).trans ?_
  rw [← List.append_assoc, dropLastMount_append_singleton]

/-- A flag and the mount it stands for, the last one, are cleared together. -/
theorem ends_whenStanding {flag : HeldMounts → Bool} {before : List Location} {r e : Bool}
    (clear : HeldMounts → HeldMounts) (location : Location) (after : List Location) (set : Bool)
    (hflag : ∀ held, Standing target base before false root efi btrfs held → flag held = set)
    (hbefore : before = after ++ if set then [location] else [])
    (hclear : ∀ held, Standing target base after false root efi btrfs held →
      Standing target base after false r e btrfs (clear held))
    (hsame : set = false → ∀ held, Standing target base after false root efi btrfs held →
      Standing target base after false r e btrfs held) :
    Ends (See (Standing.with entered target base before false root efi btrfs))
      (whenHeld flag do
        checked host (.umount location)
        update clear : TargetAction R PUnit)
      (fun _ => See (Standing.with entered target base after false r e btrfs))
      (See (Windable host target base)) := by
  refine ends_whenHeld ?_ fun held _ h hunset => ?_
  · cases set with
    | false =>
      exact fun values hvalues => absurd ((hflag _ hvalues.1.1).symm.trans hvalues.2) (by simp)
    | true =>
      refine Ends.bind ((ends_umountStanding after location).mono (fun values hvalues => ?_)
        (fun _ _ h => h) fun _ h => h) fun _ => ends_update fun held _ h => ⟨hclear held h.1, h.2⟩
      simpa [hbefore, See] using hvalues.1
  · obtain rfl : set = false := (hflag held h.1).symm.trans hunset
    exact ⟨hsame rfl held (by simpa [hbefore] using h.1), h.2⟩

theorem Complete.standing (h : Complete target base held) :
    Standing target base (layout target false held.rootMounted held.efiMounted held.btrfsMounts)
      false held.rootMounted held.efiMounted held.btrfsMounts held := by
  have hrecorded : recorded target held =
      layout target false held.rootMounted held.efiMounted held.btrfsMounts := by
    rw [recorded, layout, h.topLevel]
  exact ⟨by rw [h.mounts, hrecorded], List.prefix_rfl, hrecorded ▸ h.laid, h.topLevel, rfl, rfl,
    rfl, h.guests, h.backups, h.target⟩

theorem Standing.part_of {h : HeldMounts} {top' root' efi' : Bool} {btrfs' : List Location}
    (hs : Standing target base l top root efi btrfs held)
    (hl : l <+: layout target top' root' efi' btrfs')
    (hlaid : (layout target top' root' efi' btrfs').Sublist (layout target top root efi btrfs))
    (hmounts : h.mounts = held.mounts) (htop : h.topLevelMounted = top')
    (hroot : h.rootMounted = root') (hefi : h.efiMounted = efi') (hbtrfs : h.btrfsMounts = btrfs')
    (hguests : h.chrootMounts = held.chrootMounts) (hbackups : h.backups = held.backups)
    (htarget : h.target = held.target) : Standing target base l top' root' efi' btrfs' h where
  mounts := hmounts.trans hs.mounts
  part := hl
  laid := hlaid.trans hs.laid
  topLevel := htop
  root := hroot
  efi := hefi
  btrfs := hbtrfs
  guests := hguests.trans hs.guests
  backups file := by rw [hbackups, hs.backups]
  onTarget := htarget.trans hs.onTarget

theorem unmountTarget_execute :
    Ends (See fun held files => Complete target base held ∧ files = entered)
      (UnmountTargetStep.execute host : TargetAction R PUnit)
      (fun _ => See fun held files => (held.mounts = base ∧ files = entered) ∧
        Winding target base held files)
      (See (Windable host target base)) := by
  intro values hvalues
  set root := values.held.rootMounted
  set efi := values.held.efiMounted
  set btrfs := values.held.btrfsMounts
  have hstart : See (Standing.with entered target base (layout target false root efi btrfs) false
      root efi btrfs) values := ⟨hvalues.1.standing, hvalues.2⟩
  revert hstart
  clear hvalues
  generalize values = values'
  revert values'
  have hwinding : ∀ l root efi btrfs held files,
      Standing.with entered target base l false root efi btrfs held files →
        Windable host target base held files := fun _ _ _ _ _ _ h _ => h.1.winding
  refine (ends_requireTarget fun _ _ h => h.1.onTarget).bind fun found => ?_
  intro values' h
  obtain ⟨rfl, hstart⟩ := h
  revert hstart
  generalize values' = values''
  revert values''
  refine (ends_idle rfl (hwinding _ _ _ _)).bind fun _ => ?_
  refine (ends_idle rfl (hwinding _ _ _ _)).bind fun _ => ?_
  refine Ends.bind (Q := fun _ => See (Standing.with entered found base
      (layout found false root false btrfs) false root false btrfs))
    (ends_whenStanding (fun held => { held with efiMounted := false }) (efiLocation found)
      (layout found false root false btrfs) efi (fun _ h => h.efi)
      (by simp [layout])
      (fun held h => h.part_of List.prefix_rfl (by simp [layout]) rfl h.topLevel h.root rfl h.btrfs
        rfl rfl rfl)
      fun hunset held h => h.part_of List.prefix_rfl (by simp [layout]) rfl h.topLevel h.root
        (h.efi.trans hunset) h.btrfs rfl rfl rfl) fun _ => ?_
  refine Ends.get.bind fun now => ?_
  refine Ends.bind (Q := fun _ => See (Standing.with entered found base
      (layout found false root false []) false root false btrfs)) (fun values' h => ?_) fun _ => ?_
  · obtain ⟨rfl, hnow⟩ := h
    have hloop := Ends.forM (E := See (Windable host found base))
      (fun rest : List Location => (See (Standing.with entered found base
        (layout found false root false [] ++ rest.reverse) false root false btrfs) :
          TargetValues R → Prop))
      (fun x rest => by
        simpa [List.append_assoc] using
          ends_umountStanding (layout found false root false [] ++ rest.reverse) x)
      btrfs.reverse
    rw [hnow.1.btrfs]
    simpa using hloop now (by simpa [layout, See] using hnow)
  refine (ends_update (f := fun held => { held with btrfsMounts := [] })
    (Q := Standing.with entered found base (layout found false root false []) false root false [])
    fun held _ h => ⟨h.1.part_of List.prefix_rfl (by simp [layout]) rfl h.1.topLevel h.1.root
      h.1.efi rfl rfl rfl rfl, h.2⟩).bind fun _ => ?_
  refine Ends.bind (Q := fun _ => See (Standing.with entered found base [] false false false []))
    (ends_whenStanding (fun held => { held with rootMounted := false }) found [] root
      (fun _ h => h.root)
      (by simp [layout])
      (fun held h => h.part_of (by simp [layout]) (by simp [layout]) rfl h.topLevel rfl h.efi
        h.btrfs rfl rfl rfl)
      fun hunset held h => h.part_of (by simp [layout]) (by simp [layout]) rfl h.topLevel
        (h.root.trans hunset) h.efi h.btrfs rfl rfl rfl) fun _ => ?_
  refine (ends_idle rfl (hwinding _ _ _ _)).mono (fun _ h => h) (fun _ values' h => ?_) fun _ h => h
  exact ⟨⟨h.1.mounts.trans (List.append_nil _), h.2⟩, h.1.winding⟩

end Unmounting

end Installer
