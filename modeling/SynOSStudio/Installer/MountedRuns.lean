import SynOSStudio.Installer.TargetTables
import SynOSStudio.Installer.UndoneRuns

/-!
# Runs that mount the target

In every run of the pipeline, whatever the other steps do and whatever fails, the mounts that the
run made are gone when it succeeds; and when it fails, provided that the commands that undo them
do their work.
-/

namespace Installer

open CompensatedRuns

variable {F R : Type} {host : TargetHost} {target : Location} {base m c : List Location}
  {held : HeldMounts}

/-! ## What the values record -/

section Records

/-- The mounts of the target that the values of the context keep account of. -/
def recorded (target : Location) (held : HeldMounts) : List Location :=
  (if held.topLevelMounted then [target] else []) ++ (if held.rootMounted then [target] else []) ++
    held.btrfsMounts ++ if held.efiMounted then [efiLocation target] else []

/-- The mounts in the isolated environment: one at each place of the list, and none elsewhere. -/
def Region (guests c : List Location) : Prop :=
  (∀ q ∈ c, ∃ r ∈ guests, r <+: q) ∧ ∀ r ∈ guests, r ∈ c

/-- The mounts of the target are `m`, those of the environment are `c`, and the values record them
all. They may still record some that are gone. -/
structure Recorded (target : Location) (base m c : List Location) (held : HeldMounts) : Prop where
  mounts : held.mounts = base ++ m ++ c
  part : m <+: recorded target held
  laid : (recorded target held).Sublist (targetLocations target)
  guests : held.chrootMounts.Sublist (chrootLocations target)
  region : Region held.chrootMounts c

theorem region_nil : Region [] c ↔ c = [] := by
  simp [Region, List.eq_nil_iff_forall_not_mem]

end Records

/-! ## Operations -/

section Operations

def TargetOperation.mounts : TargetOperation → Bool
  | .mount .. | .bindTree .. => true
  | _ => false

/-- The operations that cleanups are made of. -/
def TargetOperation.undoes (target : Location) : TargetOperation → Bool
  | .umount _ | .umountTree _ | .unlink _ | .link .. | .write .. | .chmod .. => true
  | .mkdir location => location = GuestFile.parent target .resolver ∨
      location = GuestFile.parent target .policy
  | _ => false

/-- What undoes an operation succeeds where it can, and a command that mounts something is not cut
off between its effect and its end. -/
structure Steady (host : TargetHost) (target : Location) : Prop where
  undoes : ∀ op n, op.undoes target = true → host.ends op n = .done
  mounts : ∀ op n message, op.mounts = true → host.ends op n ≠ .raised true message

theorem Steady.not_cut {op : TargetOperation} (h : Steady host target)
    (hop : op.undoes target = true ∨ op.mounts = true)
    (hcut : ∃ n message, host.ends op n = .raised true message) : False := by
  obtain ⟨n, message, hcut⟩ := hcut
  rcases hop with hop | hop
  · rw [h.undoes op n hop] at hcut
    cases hcut
  · exact h.mounts op n message hop hcut

/-- An assertion about the mounts and the two files. -/
abbrev View := HeldMounts → (GuestFile → GuestNode) → Prop

def See (P : View) (values : TargetValues R) : Prop := P values.held values.files

variable {P Q E : View} {op : TargetOperation}

theorem ends_operate {Q : Bool → View}
    (hdone : ∀ values : TargetValues R, See P values → (∃ n, host.ends op n = .done) →
      values.permits op = true → See (Q true) (values.after host op))
    (hkept : ∀ values : TargetValues R, See P values →
      (values.permits op = true → ∃ n, host.ends op n = .exited) → See (Q false) values)
    (hraised : ∀ held files, P held files → (∃ n effective message,
      host.ends op n = .raised effective message) → E held files)
    (hcut : ∀ values : TargetValues R, See P values → (∃ n message,
      host.ends op n = .raised true message) → values.permits op = true →
        See E (values.after host op)) :
    Ends (See P) (operate host op : TargetAction R Bool) (fun b => See (Q b)) (See E) := by
  intro values hvalues
  have hafter : ∀ values' : TargetValues R, values'.held = values.held →
      values'.files = values.files → values'.permits op = values.permits op := by
    intro values' hheld hfiles
    cases op <;> simp [TargetValues.permits, hheld, hfiles]
  set counted := { values with issued := values.issued + 1 }
  have hpermitted : counted.permits op = values.permits op := hafter _ rfl rfl
  cases hend : host.ends op values.issued with
  | done =>
    cases hpermits : values.permits op with
    | true =>
      simpa [operate, hend, hpermits] using
        hdone counted hvalues ⟨_, hend⟩ (hpermitted.trans hpermits)
    | false =>
      have hcounted : See (Q false) counted :=
        hkept counted hvalues fun h => absurd (hpermitted.symm.trans h) (by simp [hpermits])
      simpa [operate, hend, hpermits] using hcounted
  | exited =>
    have hcounted : See (Q false) counted := hkept counted hvalues fun _ => ⟨_, hend⟩
    simpa [operate, hend] using hcounted
  | raised effective message =>
    have hkeeps : See E counted := hraised _ _ hvalues ⟨_, _, _, hend⟩
    cases effective with
    | false => simpa [operate, hend] using hkeeps
    | true =>
      cases hpermits : values.permits op with
      | true =>
        simpa [operate, hend, hpermits] using
          hcut counted hvalues ⟨_, _, hend⟩ (hpermitted.trans hpermits)
      | false => simpa [operate, hend, hpermits] using hkeeps

theorem ends_checked (op : TargetOperation)
    (hdone : ∀ values : TargetValues R, See P values → values.permits op = true →
      See Q (values.after host op))
    (hkept : ∀ held files, P held files → E held files)
    (hcut : ∀ values : TargetValues R, See P values → (∃ n message,
      host.ends op n = .raised true message) → values.permits op = true →
        See E (values.after host op)) :
    Ends (See P) (checked host op : TargetAction R PUnit) (fun _ => See Q) (See E) := by
  refine (ends_operate (Q := fun b held files => if b then Q held files else E held files)
    (fun values hvalues _ hpermits => by simpa [See] using hdone values hvalues hpermits)
    (fun values h _ => by simpa [See] using hkept _ _ h)
    (fun held files h _ => hkept held files h) hcut).bind fun b => ?_
  cases b
  · exact .throw fun values h => by simpa [See] using h
  · exact .pure _ fun values h => by simpa [See] using h

/-- An operation that touches neither the table nor the two files. -/
def TargetOperation.isIdle : TargetOperation → Bool
  | .makeSlave _ | .createSubvolume _ | .sync | .deactivateSwap | .mkdir _ | .readHostResolver
  | .inspect _ => true
  | _ => false

theorem TargetValues.after_idle (h : op.isIdle = true) (values : TargetValues R) :
    values.after host op = values := by
  cases op <;> first | rfl | simp [TargetOperation.isIdle] at h

theorem ends_idle (h : op.isIdle = true) (hPE : ∀ held files, P held files → E held files) :
    Ends (See P) (checked host op : TargetAction R PUnit) (fun _ => See P) (See E) :=
  ends_checked op (fun values hvalues _ => by rwa [TargetValues.after_idle h]) hPE
    fun values hvalues _ _ => by
      rw [TargetValues.after_idle h]
      exact hPE _ _ hvalues

theorem ends_update {E : TargetValues R → Prop} {f : HeldMounts → HeldMounts}
    (h : ∀ held files, P held files → Q (f held) files) :
    Ends (See P) (update f : TargetAction R PUnit) (fun _ => See Q) E :=
  .modify fun _ hvalues => h _ _ hvalues

theorem ends_whenHeld {flag : HeldMounts → Bool} {action : TargetAction R PUnit}
    {E : TargetValues R → Prop}
    (hset : Ends (See fun held files => P held files ∧ flag held = true) action
      (fun _ => See Q) E)
    (hunset : ∀ held files, P held files → flag held = false → Q held files) :
    Ends (See P) (whenHeld flag action) (fun _ => See Q) E := by
  refine Ends.get.bind fun values => ?_
  refine .ite (fun hflag => ?_) fun hflag => ?_
  · exact hset.mono (fun s hs => ⟨hs.2, by rw [← hs.1]; exact hflag⟩) (fun _ _ h => h)
      fun _ h => h
  · exact .pure _ fun s hs => hunset _ _ hs.2 (by rw [← hs.1]; simpa using hflag)

theorem ends_findmnt {location : Location} (hPE : ∀ held files, P held files → E held files) :
    Ends (See P) (findmnt host location : TargetAction R (Option String)) (fun _ => See P)
      (See E) := by
  intro values hvalues
  unfold findmnt
  cases host.findmnt location values.issued with
  | ok answer => exact hvalues
  | error message => exact hPE _ _ hvalues

theorem ends_requireCommands {commands : List String}
    (hPE : ∀ held files, P held files → E held files) :
    Ends (See P) (requireCommands host commands : TargetAction R PUnit) (fun _ => See P)
      (See E) :=
  .ite (fun _ => .pure _ fun _ h => h) fun _ => .throw fun _ h => hPE _ _ h

end Operations

/-! ## Mounting the target -/

section Mounting

variable {top root efi : Bool} {btrfs mounts : List Location}

/-- The values and the table, outside the isolated environment. -/
structure MountsAt (top root efi : Bool) (btrfs mounts : List Location) (held : HeldMounts) :
    Prop where
  mounts : held.mounts = mounts
  topLevel : held.topLevelMounted = top
  root : held.rootMounted = root
  efi : held.efiMounted = efi
  btrfs : held.btrfsMounts = btrfs
  guests : held.chrootMounts = []
  backups : ∀ file, held.backups file = none

def layout (target : Location) (top root efi : Bool) (btrfs : List Location) : List Location :=
  (if top then [target] else []) ++ (if root then [target] else []) ++ btrfs ++
    if efi then [efiLocation target] else []

theorem MountsAt.recorded_eq (h : MountsAt top root efi btrfs mounts held) :
    recorded target held = layout target top root efi btrfs := by
  rw [recorded, layout, h.topLevel, h.root, h.btrfs, h.efi]

theorem MountsAt.recorded (h : MountsAt top root efi btrfs (base ++ m) held)
    (hm : m <+: layout target top root efi btrfs)
    (hlaid : (layout target top root efi btrfs).Sublist (targetLocations target)) :
    Recorded target base m [] held where
  mounts := by rw [h.mounts, List.append_nil]
  part := by rwa [h.recorded_eq]
  laid := by rwa [h.recorded_eq]
  guests := by rw [h.guests]; exact List.nil_sublist _
  region := by rw [h.guests]; exact region_nil.mpr rfl

/-- Provided that what undoes the mounts does its work, they can still be undone. -/
def Undoable (host : TargetHost) (target : Location) (base : List Location) : View :=
  fun held _ => Steady host target → ∃ m, Recorded target base m [] held

theorem ends_mount {P : View} {op : TargetOperation} {f : HeldMounts → HeldMounts} {Q : View}
    (hop : op.mounts = true)
    (hafter : ∀ values : TargetValues R, See P values →
      Q (f (values.after host op).held) (values.after host op).files)
    (hP : ∀ held files, P held files → Undoable host target base held files) :
    Ends (See P) (do checked host op; update f : TargetAction R PUnit) (fun _ => See Q)
      (See (Undoable host target base)) :=
  (ends_checked op (Q := fun held files => Q (f held) files)
    (fun values hvalues _ => hafter values hvalues) hP
    fun _ _ hcut _ hsteady => (hsteady.not_cut (.inr hop) hcut).elim).bind
      fun _ => ends_update fun _ _ h => h

theorem MountsAt.undoable (h : MountsAt top root efi btrfs (base ++ m) held)
    (hm : m <+: layout target top root efi btrfs)
    (hlaid : (layout target top root efi btrfs).Sublist (targetLocations target))
    (files : GuestFile → GuestNode) : Undoable host target base held files :=
  fun _ => ⟨m, h.recorded hm hlaid⟩

/-- Nothing is mounted yet. -/
theorem MountsAt.cleared_undoable (h : MountsAt false false false [] base held)
    (files : GuestFile → GuestNode) : Undoable host target base held files :=
  MountsAt.undoable (m := []) (by simpa using h) List.nil_prefix
    (by simp [layout]) files

theorem target_sublist (target : Location) :
    [target].Sublist (BTRFS_SUBVOLUMES.map (BtrfsSubvolume.location target)) := by
  have hroot : relativeLocation "/" = [] := by decide +kernel
  rw [List.singleton_sublist]
  exact List.mem_map.mpr ⟨⟨"@root", "/", true⟩, by simp [BTRFS_SUBVOLUMES],
    by simp [BtrfsSubvolume.location, hroot]⟩

theorem ends_mountRoot (source : String) :
    Ends (See fun held _ => MountsAt false false false [] base held)
      (MountTargetStep.mountRoot host target source : TargetAction R PUnit)
      (fun _ => See fun held _ => MountsAt false true false [] (base ++ [target]) held)
      (See (Undoable host target base)) := by
  refine ends_mount rfl (fun values hvalues => ?_) fun held files h => h.cleared_undoable files
  exact ⟨congrArg (· ++ [target]) hvalues.mounts, hvalues.topLevel, rfl, hvalues.efi,
    hvalues.btrfs, hvalues.guests, hvalues.backups⟩

/-- The subvolumes mounted so far, and those still to come. -/
def Mounting (target : Location) (base : List Location) (rest : List BtrfsSubvolume) : View :=
  fun held _ => ∃ front, front ++ rest = BTRFS_SUBVOLUMES ∧
    MountsAt false false false (front.map (BtrfsSubvolume.location target))
      (base ++ front.map (BtrfsSubvolume.location target)) held

theorem Mounting.undoable {rest : List BtrfsSubvolume} {files : GuestFile → GuestNode}
    (h : Mounting target base rest held files) : Undoable host target base held files := by
  obtain ⟨front, hfront, hat⟩ := h
  refine hat.undoable ?_ ?_ files
  · simp [layout]
  · simp only [layout, Bool.false_eq_true, if_false, List.append_nil, List.nil_append,
      targetLocations]
    refine (List.Sublist.map _ ?_).trans (List.sublist_append_left _ _)
    exact hfront ▸ List.sublist_append_left front rest

theorem ends_mountSubvolume (source : String) (subvolume : BtrfsSubvolume)
    (rest : List BtrfsSubvolume) :
    Ends (See (Mounting target base (subvolume :: rest)))
      (MountTargetStep.mountSubvolume host target source subvolume : TargetAction R PUnit)
      (fun _ => See (Mounting target base rest)) (See (Undoable host target base)) := by
  refine (ends_idle rfl fun _ _ h => h.undoable).bind fun _ => ?_
  refine ends_mount rfl (fun values hvalues => ?_) fun _ _ h => h.undoable
  obtain ⟨front, hfront, hat⟩ := hvalues
  refine ⟨front ++ [subvolume], by simpa using hfront, ?_⟩
  refine ⟨?_, hat.topLevel, hat.root, hat.efi, ?_, hat.guests, hat.backups⟩
  · rw [List.map_append, ← List.append_assoc]
    exact congrArg (· ++ [subvolume.location target]) hat.mounts
  · rw [List.map_append]
    exact congrArg (· ++ [subvolume.location target]) hat.btrfs

theorem ends_mountSubvolumes (source : String) :
    Ends (See fun held _ => MountsAt false false false [] base held)
      (MountTargetStep.mountSubvolumes host target source : TargetAction R PUnit)
      (fun _ => See (Mounting target base [])) (See (Undoable host target base)) := by
  have htop : ∀ held files, MountsAt true false false [] (base ++ [target]) held →
      Undoable host target base held files := fun held files h =>
    h.undoable (by simp [layout])
      ((target_sublist target).trans (List.sublist_append_left _ _)) files
  refine (ends_checked (.mount [] source target)
    (Q := fun held _ => MountsAt false false false [] (base ++ [target]) held)
    (fun values hvalues _ => ⟨congrArg (· ++ [target]) hvalues.mounts, hvalues.topLevel,
      hvalues.root, hvalues.efi, hvalues.btrfs, hvalues.guests, hvalues.backups⟩)
    (fun held files h => h.cleared_undoable files)
    fun _ _ hcut _ hsteady => (hsteady.not_cut (.inr rfl) hcut).elim).bind fun _ => ?_
  refine (ends_update (f := fun held => { held with topLevelMounted := true })
    (Q := fun held _ => MountsAt true false false [] (base ++ [target]) held)
    fun held _ (h : MountsAt false _ _ _ _ held) =>
      ⟨h.mounts, rfl, h.root, h.efi, h.btrfs, h.guests, h.backups⟩).bind fun _ => ?_
  refine (Ends.forM
    (fun _ => See fun held _ => MountsAt true false false [] (base ++ [target]) held)
    (fun _ _ => ends_idle rfl htop) BTRFS_SUBVOLUMES).bind fun _ => ?_
  refine (ends_checked (.umount target)
    (Q := fun held _ => MountsAt true false false [] base held)
    (fun values hvalues _ => ⟨?_, hvalues.topLevel, hvalues.root, hvalues.efi, hvalues.btrfs,
      hvalues.guests, hvalues.backups⟩) htop
    fun _ _ hcut _ hsteady => (hsteady.not_cut (.inl rfl) hcut).elim).bind fun _ => ?_
  · exact (congrArg (dropLastMount target) hvalues.mounts).trans
      (dropLastMount_append_singleton target base)
  refine (ends_update (f := fun held => { held with topLevelMounted := false, btrfsMounts := [] })
    (Q := Mounting target base BTRFS_SUBVOLUMES)
    fun held _ (h : MountsAt true _ _ _ _ held) => ⟨[], rfl, by simpa using h.mounts, rfl, h.root,
      h.efi, rfl, h.guests, h.backups⟩).bind fun _ => ?_
  exact Ends.forM (fun rest => See (Mounting target base rest))
    (fun subvolume rest => ends_mountSubvolume source subvolume rest) BTRFS_SUBVOLUMES

/-- The target is mounted, and everything on record. -/
structure Complete (target : Location) (base : List Location) (held : HeldMounts) : Prop where
  mounts : held.mounts = base ++ recorded target held
  laid : (recorded target held).Sublist (targetLocations target)
  topLevel : held.topLevelMounted = false
  guests : held.chrootMounts = []
  backups : ∀ file, held.backups file = none
  target : held.target = some target

theorem Complete.recorded_all (h : Complete target base held) :
    Recorded target base (recorded target held) [] held where
  mounts := by rw [h.mounts, List.append_nil]
  part := List.prefix_rfl
  laid := h.laid
  guests := by rw [h.guests]; exact List.nil_sublist _
  region := by rw [h.guests]; exact region_nil.mpr rfl

theorem Complete.undoable (h : Complete target base held) (files : GuestFile → GuestNode) :
    Undoable host target base held files := fun _ => ⟨_, h.recorded_all⟩

/-- The root is mounted, with its subvolumes or without. -/
def Rooted (target : Location) (base : List Location) : View :=
  fun held _ => ∃ root btrfs,
    MountsAt false root false btrfs (base ++ layout target false root false btrfs) held ∧
    (layout target false root false btrfs).Sublist
      (BTRFS_SUBVOLUMES.map (BtrfsSubvolume.location target))

theorem Rooted.undoable {files : GuestFile → GuestNode} (h : Rooted target base held files) :
    Undoable host target base held files := by
  obtain ⟨root, btrfs, hat, hlaid⟩ := h
  exact hat.undoable List.prefix_rfl (hlaid.trans (List.sublist_append_left _ _)) files

theorem ends_partitionDevices {P E : View} (hPE : ∀ held files, P held files → E held files) :
    Ends (See P) (partitionDevices : TargetAction R _) (fun _ => See P) (See E) := by
  refine Ends.get.bind fun values => ?_
  cases values.partitionDevices with
  | none => exact .throw fun _ h => hPE _ _ h.2
  | some devices => exact .pure _ fun _ h => h.2

theorem ends_deviceOf {P E : View} {devices : List (String × String)} {name : String}
    (hPE : ∀ held files, P held files → E held files) :
    Ends (See P) (deviceOf devices name : TargetAction R _) (fun _ => See P) (See E) := by
  unfold deviceOf
  cases devices.lookup name with
  | none => exact .throw fun _ h => hPE _ _ h
  | some device => exact .pure _ fun _ h => h

theorem mountTarget_execute (filesystem : Filesystem) :
    Ends (See fun held _ => MountsAt false false false [] base held)
      (MountTargetStep.execute host target filesystem : TargetAction R PUnit)
      (fun _ => See fun held _ => Complete target base held)
      (See (Undoable host target base)) := by
  have hcleared : ∀ held files, MountsAt false false false [] base held →
      Undoable host target base held files := fun _ files h => h.cleared_undoable files
  refine (ends_partitionDevices hcleared).bind fun devices => ?_
  refine (ends_idle rfl hcleared).bind fun _ => (ends_deviceOf hcleared).bind fun source => ?_
  have hrooted : Ends (See fun held _ => MountsAt false false false [] base held)
      (MountTargetStep.mountFilesystem host target filesystem source : TargetAction R PUnit)
      (fun _ => See (Rooted target base)) (See (Undoable host target base)) := by
    refine .ite (fun _ => ?_) fun _ => ?_
    · refine (ends_mountSubvolumes source).mono (fun _ h => h) (fun _ values h => ?_) fun _ h => h
      obtain ⟨front, hfront, hat⟩ := h
      rw [List.append_nil] at hfront
      exact ⟨false, _, by simpa [layout] using hat, by simp [layout, hfront]⟩
    · refine (ends_mountRoot source).mono (fun _ h => h) 
        (fun _ values (h : MountsAt _ _ _ _ _ values.held) => ?_) fun _ h => h
      exact ⟨true, [], by simpa [layout] using h, by simpa [layout] using target_sublist target⟩
  refine hrooted.bind fun _ => ?_
  have hback : ∀ held files, Rooted target base held files →
      Undoable host target base held files := fun _ _ h => h.undoable
  refine (ends_idle rfl hback).bind fun _ => (ends_deviceOf hback).bind fun efi => ?_
  refine ends_mount rfl (fun values hvalues => ?_) hback
  obtain ⟨root, btrfs, hat, hlaid⟩ := hvalues
  have hrecorded : recorded target { values.held with
      mounts := values.held.mounts ++ [efiLocation target]
      efiMounted := true
      target := some target } =
      layout target false root false btrfs ++ [efiLocation target] := by
    simp [recorded, layout, hat.topLevel, hat.root, hat.btrfs]
  refine ⟨?_, ?_, hat.topLevel, hat.guests, hat.backups, rfl⟩
  · refine (congrArg (· ++ [efiLocation target]) hat.mounts).trans ?_
    exact (List.append_assoc _ _ _).trans (congrArg (base ++ ·) hrecorded.symm)
  · exact hrecorded ▸ hlaid.append_right [efiLocation target]

theorem mountTarget_verify {P E : View} (hPE : ∀ held files, P held files → E held files) :
    Ends (See P) (MountTargetStep.verify host target : TargetAction R PUnit) (fun _ => See P)
      (See E) := by
  refine (ends_partitionDevices hPE).bind fun devices => ?_
  refine (ends_deviceOf hPE).bind fun root => (ends_deviceOf hPE).bind fun efi => ?_
  refine Ends.get.bind fun values => ?_
  refine (Ends.forM (fun _ => See P) (fun expected _ => ?_) _).mono (fun _ h => h.2)
    (fun _ _ h => h) fun _ h => h
  refine (ends_findmnt hPE).bind fun answer => ?_
  cases answer with
  | none => exact .throw fun _ h => hPE _ _ h
  | some printed => exact .ite (fun _ => .throw fun _ h => hPE _ _ h) fun _ => .pure _ fun _ h => h

/-- The mounts of the target are the first ones of a list. -/
structure Left (target : Location) (base l : List Location) (top root efi : Bool)
    (btrfs : List Location) (held : HeldMounts) : Prop where
  mounts : ∃ m, m <+: l ∧ held.mounts = base ++ m
  laid : l.Sublist (targetLocations target)
  topLevel : held.topLevelMounted = top
  root : held.rootMounted = root
  efi : held.efiMounted = efi
  btrfs : held.btrfsMounts = btrfs

theorem Recorded.left (h : Recorded target base m [] held) :
    Left target base (recorded target held) held.topLevelMounted held.rootMounted held.efiMounted
      held.btrfsMounts held :=
  ⟨⟨m, h.part, by rw [h.mounts, List.append_nil]⟩, h.laid, rfl, rfl, rfl, rfl⟩

theorem ends_umountQuietly (hsteady : Steady host target) (hbase : Apart target base)
    (l : List Location) (location : Location) :
    Ends (See fun held _ => Left target base (l ++ [location]) top root efi btrfs held)
      (MountTargetStep.umountQuietly host location : TargetAction R PUnit)
      (fun _ => See fun held _ => Left target base l top root efi btrfs held)
      fun _ => False := by
  refine Ends.bind (Q := fun _ => See fun held _ => Left target base l top root efi btrfs held)
    (ends_operate (E := fun _ _ => False) (fun values hvalues _ hpermits => ?_)
      (fun values hvalues hkept => ?_) (fun held files h ⟨n, effective, message, hraised⟩ => ?_)
      fun values hvalues hcut _ => hsteady.not_cut (.inl rfl) hcut) fun _ => .pure _ fun _ h => h
  · obtain ⟨⟨m, hm, hmounts⟩, hlaid, htop, hroot, hefi, hbtrfs⟩ := hvalues
    have hcan : canUmount location (base ++ m) = true := hmounts ▸ hpermits
    rcases umount_last hbase hlaid hm with ⟨-, -, hdrop⟩ | ⟨-, hcannot⟩
    · exact ⟨⟨l, List.prefix_rfl, (congrArg (dropLastMount location) hmounts).trans hdrop⟩,
        (List.sublist_append_left _ _).trans hlaid, htop, hroot, hefi, hbtrfs⟩
    · simp [hcan] at hcannot
  · obtain ⟨⟨m, hm, hmounts⟩, hlaid, htop, hroot, hefi, hbtrfs⟩ := hvalues
    rcases umount_last hbase hlaid hm with ⟨-, hcan, -⟩ | ⟨hm, -⟩
    · obtain ⟨n, hexited⟩ := hkept (show canUmount location values.held.mounts = true by
        rw [hmounts]; exact hcan)
      rw [hsteady.undoes _ n rfl] at hexited
      cases hexited
    · exact ⟨⟨m, hm, hmounts⟩, (List.sublist_append_left _ _).trans hlaid, htop, hroot, hefi,
        hbtrfs⟩
  · rw [hsteady.undoes _ n rfl] at hraised
    cases hraised

theorem ends_umountAll (hsteady : Steady host target) (hbase : Apart target base)
    (l locations : List Location) :
    Ends (See fun held _ => Left target base (l ++ locations) top root efi btrfs held)
      (locations.reverse.forM (MountTargetStep.umountQuietly host) : TargetAction R PUnit)
      (fun _ => See fun held _ => Left target base l top root efi btrfs held)
      fun _ => False := by
  have h := Ends.forM (E := fun _ : TargetValues R => False)
    (fun rest : List Location => See fun held _ =>
      Left target base (l ++ rest.reverse) top root efi btrfs held)
    (fun x rest => by
      simpa [List.append_assoc] using
        ends_umountQuietly hsteady hbase (l ++ rest.reverse) x)
    locations.reverse
  simpa using h

/-- A flag and the mount it stands for are cleared together. -/
theorem ends_whenMounted {flag : HeldMounts → Bool} {before : List Location}
    {t r e : Bool} (clear : HeldMounts → HeldMounts) (location : Location)
    (after : List Location) (set : Bool) (hsteady : Steady host target) (hbase : Apart target base)
    (hflag : ∀ held, Left target base before top root efi btrfs held → flag held = set)
    (hbefore : before = after ++ if set then [location] else [])
    (hclear : ∀ held, Left target base after top root efi btrfs held →
      Left target base after t r e btrfs (clear held))
    (hsame : set = false → ∀ held, Left target base after top root efi btrfs held →
      Left target base after t r e btrfs held) :
    Ends (See fun held _ => Left target base before top root efi btrfs held)
      (whenHeld flag do
        MountTargetStep.umountQuietly host location
        update clear : TargetAction R PUnit)
      (fun _ => See fun held _ => Left target base after t r e btrfs held)
      fun _ => False := by
  refine ends_whenHeld ?_ fun held _ h hunset => ?_
  · cases set with
    | false =>
      exact fun values hvalues => absurd ((hflag _ hvalues.1).symm.trans hvalues.2) (by simp)
    | true =>
      refine Ends.bind
        (Q := fun _ => See fun held _ => Left target base after top root efi btrfs held)
        ((ends_umountQuietly hsteady hbase after location).mono (fun values hvalues => ?_)
          (fun _ _ h => h) fun _ h => h) fun _ => ends_update fun held _ h => hclear held h
      simpa [hbefore, See] using hvalues.1
  · obtain rfl : set = false := (hflag held h).symm.trans hunset
    exact hsame rfl held (by simpa [hbefore] using h)

/-- The cleanup of the step takes every mount of the target away. -/
theorem mountTarget_cleanup (hsteady : Steady host target) (hbase : Apart target base) :
    Ends (See fun held _ => ∃ m, Recorded target base m [] held)
      (MountTargetStep.cleanup host target : TargetAction R PUnit)
      (fun _ => See fun held _ => held.mounts = base) fun _ => False := by
  intro values ⟨m, hrecorded⟩
  have hleft := hrecorded.left
  set top := values.held.topLevelMounted
  set root := values.held.rootMounted
  set efi := values.held.efiMounted
  set btrfs := values.held.btrfsMounts
  refine Ends.bind (P := See fun held _ =>
      Left target base (layout target top root efi btrfs) top root efi btrfs held)
    (Q := fun _ => See fun held _ =>
      Left target base (layout target top root false btrfs) top root false btrfs held)
    (ends_whenMounted (fun held => { held with efiMounted := false }) (efiLocation target)
      (layout target top root false btrfs) efi hsteady hbase (fun _ h => h.efi)
      (by simp [layout])
      (fun held h => ⟨h.mounts, h.laid, h.topLevel, h.root, rfl, h.btrfs⟩)
      fun hunset held h => ⟨h.mounts, h.laid, h.topLevel, h.root, h.efi.trans hunset, h.btrfs⟩)
    (fun _ => ?_) values hleft
  refine Ends.get.bind fun now => ?_
  refine Ends.bind (Q := fun _ => See fun held _ =>
      Left target base (layout target top root false []) top root false btrfs held)
    (fun _ hnow => ?_) fun _ => ?_
  · obtain ⟨rfl, hnow⟩ := hnow
    rw [hnow.btrfs]
    exact ends_umountAll hsteady hbase (layout target top root false []) btrfs now
      (by simpa [layout, See] using hnow)
  refine (ends_update (f := fun held => { held with btrfsMounts := [] })
    (Q := fun held _ => Left target base (layout target top root false []) top root false [] held)
    fun held _ h => ⟨h.mounts, h.laid, h.topLevel, h.root, h.efi, rfl⟩).bind fun _ => ?_
  refine Ends.bind (Q := fun _ => See fun held _ =>
      Left target base (layout target top false false []) top false false [] held)
    (ends_whenMounted (fun held => { held with rootMounted := false }) target
      (layout target top false false []) root hsteady hbase (fun _ h => h.root)
      (by simp [layout])
      (fun held h => ⟨h.mounts, h.laid, h.topLevel, rfl, h.efi, h.btrfs⟩)
      fun hunset held h => ⟨h.mounts, h.laid, h.topLevel, h.root.trans hunset, h.efi, h.btrfs⟩)
    fun _ => ?_
  refine (ends_whenMounted (t := false) (r := false) (e := false)
      (fun held => { held with topLevelMounted := false }) target [] top hsteady hbase
      (fun _ h => h.topLevel) (by simp [layout])
      (fun held h => ⟨h.mounts, h.laid, rfl, h.root, h.efi, h.btrfs⟩)
      fun hunset held h => ⟨h.mounts, h.laid, h.topLevel.trans hunset, h.root, h.efi,
        h.btrfs⟩).mono (fun _ h => h) (fun _ values h => ?_) fun _ h => h
  obtain ⟨m, hm, hmounts⟩ := h.mounts
  exact hmounts.trans (by simp [List.prefix_nil.mp hm])

end Mounting

end Installer
