import SynOSStudio.Installer.MountedRuns

/-!
# Runs that enter the target

The isolated environment in the target: what opening it leaves on record wherever it breaks off,
and that closing it takes away all its mounts and gives the two files of the target back.
-/

namespace Installer

open CompensatedRuns

variable {R : Type} {host : TargetHost} {target : Location} {base m c guests : List Location}
  {held : HeldMounts} {files entered : GuestFile → GuestNode} {op : TargetOperation}

/-! ## Views -/

section Views

/-- The target is mounted, and so are these places of the environment. -/
structure Inside (target : Location) (base guests c : List Location) (held : HeldMounts) :
    Prop where
  mounts : held.mounts = base ++ recorded target held ++ c
  laid : (recorded target held).Sublist (targetLocations target)
  topLevel : held.topLevelMounted = false
  onTarget : held.target = some target
  recordedGuests : held.chrootMounts = guests
  part : guests <+: chrootLocations target
  region : Region guests c

/-- Files of the target that were saved may have been changed since, but not into directories. -/
def Kept (target : Location) (base guests : List Location) (entered : GuestFile → GuestNode)
    (saved : List GuestFile) : View :=
  fun held files => (∃ c, Inside target base guests c held) ∧ ∀ file,
    (file ∈ saved → files file ≠ .other ∧
      ∃ backup, held.backups file = some backup ∧ backup.node = entered file) ∧
    (file ∉ saved → held.backups file = none ∧ files file = entered file)

/-- The mounts that are left are on record, and what is saved can be given back. -/
def Winding (target : Location) (base : List Location) : View :=
  fun held files => (∃ m c, Recorded target base m c held) ∧ held.target = some target ∧
    ∀ file, (held.backups file).isSome = true → files file ≠ .other

/-- The environment is closed. -/
def Wound (target : Location) (base : List Location) : View :=
  fun held _ => (∃ m, Recorded target base m [] held) ∧ held.target = some target ∧
    ∀ file, held.backups file = none

theorem Inside.recorded_all (h : Inside target base guests c held) :
    Recorded target base (recorded target held) c held where
  mounts := h.mounts
  part := List.prefix_rfl
  laid := h.laid
  guests := by rw [h.recordedGuests]; exact h.part.sublist
  region := by rw [h.recordedGuests]; exact h.region

theorem Complete.inside (h : Complete target base held) : Inside target base [] [] held where
  mounts := by rw [h.mounts, List.append_nil]
  laid := h.laid
  topLevel := h.topLevel
  onTarget := h.target
  recordedGuests := h.guests
  part := List.nil_prefix
  region := region_nil.mpr rfl

theorem Kept.winding {saved : List GuestFile}
    (h : Kept target base guests entered saved held files) :
    Winding target base held files := by
  obtain ⟨⟨c, hinside⟩, hfiles⟩ := h
  refine ⟨⟨_, c, hinside.recorded_all⟩, hinside.onTarget, fun file hsome => ?_⟩
  by_cases hsaved : file ∈ saved
  · exact ((hfiles file).1 hsaved).1
  · simp [((hfiles file).2 hsaved).1] at hsome

theorem Wound.winding (h : Wound target base held files) : Winding target base held files := by
  obtain ⟨⟨m, hrecorded⟩, htarget, hnone⟩ := h
  exact ⟨⟨m, [], hrecorded⟩, htarget, fun file hsome => by simp [hnone file] at hsome⟩

/-- Winding, unless what undoes the mounts fails. -/
def Windable (host : TargetHost) (target : Location) (base : List Location) : View :=
  fun held files => Steady host target → Winding target base held files

end Views

/-! ## Opening the environment -/

section Entering

theorem ends_requireTarget {P E : View} (hP : ∀ held files, P held files →
      held.target = some target) :
    Ends (See P) (requireTarget : TargetAction R Location)
      (fun found => See fun held files => found = target ∧ P held files) (See E) := by
  refine Ends.get.bind fun values => ?_
  intro values' hvalues
  obtain ⟨rfl, hvalues⟩ := hvalues
  have htarget := hP _ _ hvalues
  cases hx : values.held.target with
  | none => simp [hx] at htarget
  | some found =>
    rw [hx] at htarget
    exact ⟨Option.some.inj htarget, hvalues⟩

/-- An operation that mounts something at a place of the environment. -/
theorem ends_mountRecorded {location : Location} {saved : List GuestFile}
    (hop : op.mounts = true)
    (hafter : ∀ values : TargetValues R, (values.after host op).files = values.files ∧
      ∃ below, (∀ q ∈ below, location <+: q) ∧ (values.after host op).held =
        { values.held with mounts := values.held.mounts ++ location :: below })
    (hpart : guests ++ [location] <+: chrootLocations target) :
    Ends (See (Kept target base guests entered saved))
      (EnterChrootStep.mountRecorded host op location : TargetAction R PUnit)
      (fun _ => See (Kept target base (guests ++ [location]) entered saved))
      (See (Windable host target base)) := by
  refine (ends_checked _
    (Q := fun held files => Kept target base (guests ++ [location]) entered saved
      { held with chrootMounts := held.chrootMounts ++ [location] } files)
    (fun values hvalues _ => ?_) (fun _ _ h _ => h.winding)
    fun _ _ hcut _ hsteady => (hsteady.not_cut (.inr hop) hcut).elim).bind
      fun _ => ends_update fun _ _ h => h
  obtain ⟨⟨c, hinside⟩, hfiles⟩ := hvalues
  obtain ⟨hsame, below, hbelow, hheld⟩ := hafter values
  unfold See
  rw [hheld, hsame]
  refine ⟨⟨c ++ location :: below, ?_, hinside.laid, hinside.topLevel, hinside.onTarget,
    congrArg (· ++ [location]) hinside.recordedGuests, hpart, fun q hq => ?_, fun r hr => ?_⟩,
    hfiles⟩
  · exact (congrArg (· ++ location :: below) hinside.mounts).trans (List.append_assoc _ _ _)
  · rcases List.mem_append.mp hq with hq | hq
    · obtain ⟨r, hr, hprefix⟩ := hinside.region.1 q hq
      exact ⟨r, List.mem_append_left _ hr, hprefix⟩
    · refine ⟨location, by simp, ?_⟩
      rcases List.mem_cons.mp hq with rfl | hq
      exacts [List.prefix_rfl, hbelow q hq]
  · rcases List.mem_append.mp hr with hr | hr
    · exact List.mem_append_left _ (hinside.region.2 r hr)
    · simp [List.mem_singleton.mp hr]

theorem after_mount (options : List String) (source : String) (location : Location)
    (values : TargetValues R) :
    (values.after host (.mount options source location)).files = values.files ∧
      ∃ below, (∀ q ∈ below, location <+: q) ∧
        (values.after host (.mount options source location)).held =
          { values.held with mounts := values.held.mounts ++ location :: below } :=
  ⟨rfl, [], by simp, rfl⟩

theorem after_bindTree (source location : Location) (values : TargetValues R) :
    (values.after host (.bindTree source location)).files = values.files ∧
      ∃ below, (∀ q ∈ below, location <+: q) ∧
        (values.after host (.bindTree source location)).held =
          { values.held with mounts := values.held.mounts ++ location :: below } := by
  refine ⟨rfl, boundBelow source location values.held.mounts, fun q hq => ?_, rfl⟩
  obtain ⟨mount, -, rfl⟩ := List.mem_map.mp hq
  exact List.prefix_append _ _

theorem ends_mountAll {saved : List GuestFile} :
    Ends (See (Kept target base [] entered saved))
      (EnterChrootStep.mountAll host target : TargetAction R PUnit)
      (fun _ => See (Kept target base (chrootLocations target) entered saved))
      (See (Windable host target base)) := by
  have hwinding : ∀ guests held files, Kept target base guests entered saved held files →
      Windable host target base held files := fun _ _ _ h _ => h.winding
  refine (ends_mountRecorded rfl (after_bindTree _ _) ?_).bind fun _ => ?_
  · exact ⟨[target ++ ["proc"], target ++ ["sys"], target ++ ["run"]], rfl⟩
  refine (ends_idle rfl (hwinding _)).bind fun _ => ?_
  refine (ends_mountRecorded rfl (after_mount _ _ _) ?_).bind fun _ => ?_
  · exact ⟨[target ++ ["sys"], target ++ ["run"]], rfl⟩
  refine (ends_mountRecorded rfl (after_bindTree _ _) ?_).bind fun _ => ?_
  · exact ⟨[target ++ ["run"]], rfl⟩
  refine (ends_idle rfl (hwinding _)).bind fun _ => ?_
  exact ends_mountRecorded rfl (after_mount _ _ _) ⟨[], rfl⟩

theorem ends_saveBackup {file : GuestFile} {saved : List GuestFile} (hfile : file ∉ saved) :
    Ends (See (Kept target base guests entered saved))
      (EnterChrootStep.saveBackup host file : TargetAction R PUnit)
      (fun _ => See (Kept target base guests entered (file :: saved)))
      (See (Windable host target base)) := by
  have hwinding : ∀ held files, Kept target base guests entered saved held files →
      Windable host target base held files := fun _ _ h _ => h.winding
  refine Ends.bind (Q := fun backup => See fun held files =>
      Kept target base guests entered saved held files ∧ files file ≠ .other ∧
        backup.node = entered file) ?_ fun backup => ends_update fun held files h => ?_
  · refine (ends_idle rfl hwinding).bind fun _ => Ends.get.bind fun values => ?_
    intro values' hvalues
    obtain ⟨rfl, hkept⟩ := hvalues
    have hsame := ((hkept.2 file).2 hfile).2
    cases hx : values.files file with
    | other => exact hwinding _ _ hkept
    | absent => exact ⟨hkept, by simp [hx], by rw [← hsame, hx]; rfl⟩
    | file data mode => exact ⟨hkept, by simp [hx], by rw [← hsame, hx]; rfl⟩
    | symlink link => exact ⟨hkept, by simp [hx], by rw [← hsame, hx]; rfl⟩
  · obtain ⟨⟨⟨c, hinside⟩, hfiles⟩, hnode, hbackup⟩ := h
    refine ⟨⟨c, hinside.mounts, hinside.laid, hinside.topLevel, hinside.onTarget,
      hinside.recordedGuests, hinside.part, hinside.region⟩, fun other => ?_⟩
    by_cases hother : other = file
    · subst hother
      exact ⟨fun _ => ⟨hnode, backup, by simp, hbackup⟩, fun h => absurd (by simp) h⟩
    · simpa [hother] using hfiles other

/-- The operations on the two files. -/
def TargetOperation.isFile : TargetOperation → Bool
  | .unlink _ | .link .. | .write .. | .chmod .. => true
  | _ => false

theorem after_file (host : TargetHost) (hop : op.isFile = true) (values : TargetValues R) :
    (values.after host op).held = values.held ∧ ∀ file, values.files file ≠ .other →
      (values.after host op).files file ≠ .other := by
  have hset : ∀ (changed : GuestFile) (node : GuestNode),
      (values.files changed ≠ .other → node ≠ .other) → ∀ file, values.files file ≠ .other →
        (values.setFile changed node).files file ≠ .other := by
    intro changed node hnode file hfile
    by_cases h : file = changed
    · subst h
      simpa [TargetValues.setFile] using hnode hfile
    · simpa [TargetValues.setFile, h] using hfile
  cases op with
  | unlink changed => exact ⟨rfl, hset changed .absent (by simp)⟩
  | link changed link => exact ⟨rfl, hset changed (.symlink link) (by simp)⟩
  | write changed data =>
    refine ⟨rfl, hset changed _ fun h => ?_⟩
    cases hx : values.files changed <;> simp_all [GuestNode.written]
  | chmod changed mode =>
    refine ⟨rfl, hset changed _ fun h => ?_⟩
    cases hx : values.files changed <;> simp_all [GuestNode.withMode]
  | _ => simp [TargetOperation.isFile] at hop

/-- Every file is saved. -/
def AllSaved (target : Location) (base guests : List Location)
    (entered : GuestFile → GuestNode) : View :=
  Kept target base guests entered [.policy, .resolver]

theorem AllSaved.of_files {files' : GuestFile → GuestNode}
    (h : AllSaved target base guests entered held files)
    (hfiles : ∀ file, files file ≠ .other → files' file ≠ .other) :
    AllSaved target base guests entered held files' := by
  refine ⟨h.1, fun file => ⟨fun hsaved => ?_, fun hsaved => ?_⟩⟩
  · exact ⟨hfiles file ((h.2 file).1 hsaved).1, ((h.2 file).1 hsaved).2⟩
  · cases file <;> simp at hsaved

theorem ends_fileOperation (hop : op.isFile = true) :
    Ends (See (AllSaved target base guests entered)) (checked host op : TargetAction R PUnit)
      (fun _ => See (AllSaved target base guests entered)) (See (Windable host target base)) := by
  have hafter : ∀ values : TargetValues R, See (AllSaved target base guests entered) values →
      See (AllSaved target base guests entered) (values.after host op) := by
    intro values hvalues
    obtain ⟨hheld, hfiles⟩ := after_file host hop values
    unfold See
    rw [hheld]
    exact AllSaved.of_files hvalues hfiles
  exact ends_checked op (fun values hvalues _ => hafter values hvalues) (fun _ _ h _ => h.winding)
    fun values hvalues _ _ _ => (hafter values hvalues).winding

theorem ends_replaceRegularFile {file : GuestFile} {data : List UInt8} {mode : ℕ} :
    Ends (See (AllSaved target base guests entered))
      (replaceRegularFile host target file data mode : TargetAction R PUnit)
      (fun _ => See (AllSaved target base guests entered)) (See (Windable host target base)) := by
  have hwinding : ∀ held files, AllSaved target base guests entered held files →
      Windable host target base held files := fun _ _ h _ => h.winding
  refine (ends_idle rfl hwinding).bind fun _ => ?_
  refine Ends.bind (Q := fun _ => See (AllSaved target base guests entered))
    (Ends.get.bind fun values => .ite (fun _ => .pure _ fun _ h => h.2)
      fun _ => (ends_fileOperation rfl).mono (fun _ h => h.2) (fun _ _ h => h) fun _ h => h)
    fun _ => ?_
  exact (ends_fileOperation rfl).bind fun _ => ends_fileOperation rfl

theorem enterChroot_execute (host : TargetHost) (entered : GuestFile → GuestNode) :
    Ends (See fun held files => Complete target base held ∧ files = entered)
      (EnterChrootStep.execute host : TargetAction R PUnit)
      (fun _ => See (AllSaved target base (chrootLocations target) entered))
      (See (Windable host target base)) := by
  refine (ends_requireTarget fun _ _ h => h.1.target).bind fun found => ?_
  intro values hvalues
  obtain ⟨rfl, hvalues⟩ := hvalues
  revert values
  refine Ends.bind (P := See fun held files => Complete found base held ∧ files = entered)
    (Q := fun _ => See (Kept found base [] entered [])) (ends_update fun held files h => ?_)
    fun _ => ?_
  · obtain ⟨hcomplete, rfl⟩ := h
    refine ⟨⟨[], hcomplete.inside.mounts, hcomplete.laid, hcomplete.topLevel, hcomplete.target,
      rfl, List.nil_prefix, region_nil.mpr rfl⟩, fun file => ⟨fun h => by simp at h, fun _ =>
        ⟨hcomplete.backups file, rfl⟩⟩⟩
  refine (Ends.forM (fun _ => See (Kept found base [] entered []))
    (fun _ _ => ends_idle rfl fun _ _ h _ => h.winding) chrootNames).bind fun _ => ?_
  refine ends_mountAll.bind fun _ => (ends_saveBackup (by simp)).bind fun _ => ?_
  refine (ends_saveBackup (by simp)).bind fun _ => ?_
  refine (ends_idle rfl fun _ _ h _ => h.winding).bind fun _ => ?_
  refine ends_replaceRegularFile.bind fun _ => ends_replaceRegularFile.bind fun _ => ?_
  refine ends_update fun held files h => ?_
  obtain ⟨⟨c, hinside⟩, hfiles⟩ := h
  exact ⟨⟨c, hinside.mounts, hinside.laid, hinside.topLevel, hinside.onTarget,
    hinside.recordedGuests, hinside.part, hinside.region⟩, hfiles⟩

theorem enterChroot_verify (host : TargetHost) {P E : View}
    (hPE : ∀ held files, P held files → E held files) :
    Ends (See P) (EnterChrootStep.verify host : TargetAction R PUnit) (fun _ => See P)
      (See E) := by
  refine Ends.bind (Q := fun _ => See P) ?_ fun _ => Ends.get.bind fun values => ?_
  · refine Ends.get.bind fun values => ?_
    cases values.held.target with
    | none => exact .throw fun _ h => hPE _ _ h.2
    | some found => exact .pure _ fun _ h => h.2
  refine .ite (fun _ => ?_) fun _ => .throw fun _ h => hPE _ _ h.2
  refine Ends.get.bind fun now => ?_
  refine (Ends.forM (fun _ => See P) (fun location _ => ?_) _).mono (fun _ h => h.2.2)
    (fun _ _ h => h) fun _ h => h
  refine (ends_findmnt hPE).bind fun answer => ?_
  exact .ite (fun _ => .throw fun _ h => hPE _ _ h) fun _ => .pure _ fun _ h => h

end Entering

end Installer
