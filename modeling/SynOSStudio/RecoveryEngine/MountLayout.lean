import SynOSStudio.SecurityKeys.SshConfig
import SynOSStudio.TextPasses.Passes

/-!
# The layout of the mounts

Whether a restore is supported is read from the table of mounts that the kernel prints, one mount
in a line.
-/

namespace RecoveryEngine.Layout

open ByteStreams TextPasses
open SecurityKeys.Ssh (Text lines splitWhitespace)

def EXPECTED_MOUNTS : List (Text × Text) :=
  [("/", "/@root"), ("/home", "/@home"), ("/var/log", "/@log"), ("/.snapshots", "/@snapshots"),
    ("/var/lib/containers", "/@containers"), ("/var/lib/libvirt/images", "/@libvirt")].map
      fun p => (p.1.toList, p.2.toList)

inductive LayoutSupport
  | supported | otherFilesystem | incompatibleBtrfs | unavailable
  deriving DecidableEq

structure MountReport where
  mountPoint : Text
  subvolume : Text
  filesystem : Text
  source : Text

structure LayoutReport where
  support : LayoutSupport
  rootFilesystem : Option Text
  rootSource : Option Text
  issues : List Text
  mounts : List MountReport

structure MountEntry where
  root : Text
  mountPoint : Text
  filesystem : Text
  source : Text
  deriving DecidableEq

/-- `str::split_once` -/
def splitOnce (sep : Text) : Text → Option (Text × Text)
  | [] => if sep = [] then some ([], []) else none
  | c :: rest =>
    if sep.isPrefixOf (c :: rest) then some ([], (c :: rest).drop sep.length)
    else (splitOnce sep rest).map fun p => (c :: p.1, p.2)

def unescapeMountField (value : Text) : Text :=
  let value := pass (literal "\\040".toList (by decide)) [' '] value
  let value := pass (literal "\\011".toList (by decide)) ['\t'] value
  let value := pass (literal "\\012".toList (by decide)) ['\n'] value
  pass (literal "\\134".toList (by decide)) ['\\'] value

def parseMountinfoLine (line : Text) : Option MountEntry :=
  match splitOnce " - ".toList line with
  | none => none
  | some (left, right) =>
    match splitWhitespace left, splitWhitespace right with
    | _ :: _ :: _ :: root :: mountPoint :: _ :: _, filesystem :: source :: _ =>
      some ⟨unescapeMountField root, unescapeMountField mountPoint, filesystem,
        unescapeMountField source⟩
    | _, _ => none

def BTRFS : Text := "btrfs".toList

/-- What is wrong at a required mount point. -/
def issue (entries : List MountEntry) (rootSource : Text) (expected : Text × Text) : Option Text :=
  let (mountPoint, subvolume) := expected
  match entries.find? (·.mountPoint = mountPoint) with
  | none => some ("Required mount ".toList ++ mountPoint ++ " is missing".toList)
  | some entry =>
    if entry.filesystem ≠ BTRFS then
      some (mountPoint ++ " uses ".toList ++ entry.filesystem ++ ", expected Btrfs".toList)
    else if entry.root ≠ subvolume then
      some (mountPoint ++ " uses subvolume ".toList ++ entry.root ++ ", expected ".toList ++
        subvolume)
    else if entry.source ≠ rootSource then
      some (mountPoint ++ " is on ".toList ++ entry.source ++ ", expected ".toList ++ rootSource)
    else none

def MountEntry.report (entry : MountEntry) : MountReport where
  mountPoint := entry.mountPoint
  subvolume := entry.root
  filesystem := entry.filesystem
  source := entry.source

def inspectMountinfo (contents : Text) : LayoutReport :=
  let entries := (lines contents).filterMap parseMountinfoLine
  match entries.find? (·.mountPoint = ['/']) with
  | none => ⟨.unavailable, none, none,
      ["The root mount is missing from /proc/self/mountinfo".toList], []⟩
  | some root =>
    let mounts := (entries.filter fun entry => entry.filesystem = BTRFS ||
      EXPECTED_MOUNTS.any fun p => entry.mountPoint = p.1).map MountEntry.report
    if root.filesystem ≠ BTRFS then
      ⟨.otherFilesystem, some root.filesystem, some root.source,
        ["Root filesystem is ".toList ++ root.filesystem ++ ", not Btrfs".toList], mounts⟩
    else
      let issues := EXPECTED_MOUNTS.filterMap (issue entries root.source)
      ⟨if issues = [] then .supported else .incompatibleBtrfs, some root.filesystem,
        some root.source, issues, mounts⟩

/-! ## Layouts that fit -/

/-- The mounts at the required mount points have the required subvolumes of one file system. -/
def Fits (mountAt : Text → Option MountEntry) : Prop :=
  ∃ source, ∀ p ∈ EXPECTED_MOUNTS, ∃ entry, mountAt p.1 = some entry ∧
    entry.filesystem = BTRFS ∧ entry.root = p.2 ∧ entry.source = source

section Support

variable {entries : List MountEntry} {source : Text} {p : Text × Text} {contents : Text}

theorem issue_eq_none : issue entries source p = none ↔
    ∃ entry, entries.find? (·.mountPoint = p.1) = some entry ∧
      entry.filesystem = BTRFS ∧ entry.root = p.2 ∧ entry.source = source := by
  simp only [issue]
  cases hfind : entries.find? (·.mountPoint = p.1) with
  | none => simp
  | some entry =>
    by_cases hfilesystem : entry.filesystem = BTRFS
    · by_cases hroot : entry.root = p.2
      · simp [hfilesystem, hroot]
      · simp [hfilesystem, hroot]
    · simp [hfilesystem]

theorem root_mem_expected : (['/'], "/@root".toList) ∈ EXPECTED_MOUNTS :=
  List.mem_cons_self

/-- The mounts that are found first decide. -/
theorem supported_iff : (inspectMountinfo contents).support = .supported ↔
    Fits fun point =>
      ((lines contents).filterMap parseMountinfoLine).find? (·.mountPoint = point) := by
  simp only [inspectMountinfo]
  generalize (lines contents).filterMap parseMountinfoLine = entries
  cases hroot : entries.find? (·.mountPoint = ['/']) with
  | none =>
    refine iff_of_false (by simp) ?_
    rintro ⟨source, hfits⟩
    obtain ⟨entry, hentry, _⟩ := hfits _ root_mem_expected
    cases hroot.symm.trans hentry
  | some root =>
    have hsource : ∀ source, (∀ p ∈ EXPECTED_MOUNTS, issue entries source p = none) →
        root.filesystem = BTRFS ∧ root.source = source := by
      intro source hnone
      obtain ⟨entry, hentry, hfilesystem, _, hsource⟩ :=
        issue_eq_none.mp (hnone _ root_mem_expected)
      obtain rfl := Option.some.inj (hroot.symm.trans hentry)
      exact ⟨hfilesystem, hsource⟩
    simp only [Fits, ← issue_eq_none]
    by_cases hfilesystem : root.filesystem = BTRFS
    · have hissues : EXPECTED_MOUNTS.filterMap (issue entries root.source) = [] ↔
          ∀ p ∈ EXPECTED_MOUNTS, issue entries root.source p = none :=
        List.filterMap_eq_nil_iff
      simp only [hfilesystem, ne_eq, not_true_eq_false, if_false]
      constructor
      · intro h
        refine ⟨root.source, hissues.mp ?_⟩
        by_contra hne
        rw [if_neg hne] at h
        cases h
      · rintro ⟨source, hnone⟩
        rw [if_pos (hissues.mpr ((hsource source hnone).2 ▸ hnone))]
    · simp only [ne_eq, hfilesystem, not_false_eq_true, if_true]
      exact iff_of_false (by simp) fun ⟨source, hnone⟩ => hfilesystem (hsource source hnone).1

end Support

end RecoveryEngine.Layout
