import SynOSStudio.Installer.Planning
import SynOSStudio.TextLines.Lines

/-!
# Shrinking NTFS volumes

The inspection that decides whether an NTFS volume may be shrunk, and to which size, from what
four commands that write nothing have to say.
-/

namespace Installer

open TextLines

inductive NtfsResizeBlockReason where
  | none
  | bitlocker
  | mounted
  | notNtfs
  | hibernated
  | unclean
  | inUse
  | invalid
  | inconsistent
  | probeFailed
  | checkFailed
  | rangeUnavailable
  | insufficientSpace
  | targetOutOfRange
  | targetRejected
  | mftRelocationUnsafe
  deriving DecidableEq

structure NtfsResizeInspection where
  device : String
  filesystem : String
  currentSizeBytes : ℤ
  minimumSizeBytes : ℤ
  maximumSizeBytes : ℤ
  blockReason : NtfsResizeBlockReason
  message : String
  probeExitCode : Option ℤ
  targetSizeBytes : Option ℤ
  deriving DecidableEq

def NtfsResizeInspection.safe (inspection : NtfsResizeInspection) : Bool :=
  inspection.blockReason == .none

section Commands

structure ReadOnlyCommand where
  arguments : List String
  timeout : ℕ
  inputText : Option String
  deriving DecidableEq

structure CompletedProcess where
  returncode : ℤ
  stdout : Text
  stderr : Text
  deriving DecidableEq

/-- A command ends, or it is missing or takes too long and there is an error with that text. -/
inductive CommandOutcome where
  | completed (process : CompletedProcess)
  | failed (error : Text)
  deriving DecidableEq

def runReadOnly (run : ReadOnlyCommand → CommandOutcome) (command : ReadOnlyCommand) :
    CompletedProcess :=
  match run command with
  | .completed process => process
  | .failed error => ⟨127, [], error⟩

def NTFS_PROBE : String := "/usr/bin/ntfs-3g.probe"
def NTFS_RESIZE : String := "/usr/sbin/ntfsresize"

variable (device : String)

def probeCommand : ReadOnlyCommand := ⟨[NTFS_PROBE, "--readwrite", device], 30, none⟩

def checkCommand : ReadOnlyCommand := ⟨[NTFS_RESIZE, "--check", "--no-action", device], 300, none⟩

def infoCommand : ReadOnlyCommand := ⟨[NTFS_RESIZE, "--info", "--no-action", device], 300, none⟩

def dryRunCommand (target : ℤ) : ReadOnlyCommand :=
  ⟨[NTFS_RESIZE, "--no-action", "--verbose", "--size", toString target, device], 1800, some "n\n"⟩

end Commands

section Outputs

/-- A letter of a pattern, in any case. -/
def matchesLetter (letter c : Char) : Bool :=
  c.toLower == letter.toLower || (letter.toLower == 'i' && [0x130, 0x131].contains c.toNat) ||
    (letter.toLower == 's' && c.toNat == 0x17f)

/-- What follows a word at the start of a text. -/
def afterWord : Text → Text → Option Text
  | [], text => some text
  | letter :: word, c :: text => if matchesLetter letter c then afterWord word text else none
  | _ :: _, [] => none

/-- What follows the white space at the start of a text, of which there must be some. -/
def afterSpaces (text : Text) : Option Text :=
  if text.head?.any isSpace then some (text.dropWhile isSpace) else none

/-- `_MINIMUM_RE` at the start of a text. No other way to divide it up would match. -/
def minimumAt (text : Text) : Option ℕ := do
  let text ← afterWord "You might resize at".toList text
  let text ← afterSpaces text
  let minimum ← digitsNumber (text.takeWhile Char.isDigit)
  let text ← afterSpaces (text.dropWhile Char.isDigit)
  let _ ← afterWord "bytes".toList text
  return minimum

/-- `_MFT_RELOCATION_RE` at the start of a text -/
def relocationAt (text : Text) : Bool :=
  match afterWord "Relocate record".toList text >>= afterSpaces with
  | some ('0' :: c :: _) => c == ':' || isSpace c
  | _ => false

/-- The minimum that is reported first. -/
def reportedMinimum (output : Text) : Option ℕ := output.tails.findSome? minimumAt

def relocatesMft (output : Text) : Bool := output.tails.any relocationAt

/-- The last line that is not blank. -/
def diagnostic (result : CompletedProcess) (fallback : String) : String :=
  match (((splitlines (result.stderr ++ '\n' :: result.stdout)).map strip).filter
      (· ≠ [])).getLast? with
  | none => fallback
  | some line => String.ofList line

def probeFailure (returncode : ℤ) : Option (NtfsResizeBlockReason × String) :=
  if returncode = 0 then none
  else if returncode = 12 then some (.invalid, "The selected volume is not valid NTFS.")
  else if returncode = 13 then
    some (.inconsistent, "NTFS is inconsistent; repair it with chkdsk in Windows.")
  else if returncode = 14 then some (.hibernated, "Windows hibernation or Fast Startup is active.")
  else if returncode = 15 then
    some (.unclean, "Windows did not cleanly unmount this NTFS volume.")
  else if returncode = 16 then some (.inUse, "The NTFS volume is already open or in use.")
  else some (.probeFailed, s!"NTFS mountability probing failed with code {returncode}.")

end Outputs

section Inspection

def alignUp (value alignment : ℤ) : ℤ := (value + alignment - 1) / alignment * alignment

def alignDown (value alignment : ℤ) : ℤ := value / alignment * alignment

/-- What is kept beyond the reported minimum. -/
def marginBytes (reportedMinimum : ℕ) : ℤ :=
  max ((reportedMinimum : ℤ) * 125 / 100) (reportedMinimum + 2 * GIB)

def minimumSizeBytes (currentSizeBytes : ℤ) (reportedMinimum : ℕ) : ℤ :=
  alignUp (min currentSizeBytes (marginBytes reportedMinimum)) MIB

def maximumSizeBytes (currentSizeBytes : ℤ) : ℤ := alignDown (currentSizeBytes - MIB) MIB

/-- What is refused before a command runs. -/
def volumeRefusal (normalizedFilesystem : String) (mounted : Bool) (currentSizeBytes : ℤ) :
    Option (NtfsResizeBlockReason × String) :=
  if normalizedFilesystem = "bitlocker" then
    some (.bitlocker, "BitLocker must be fully disabled and decrypted in Windows.")
  else if normalizedFilesystem ≠ "ntfs" then
    some (.notNtfs, "Only plain NTFS volumes can be shrunk in this release.")
  else if mounted then some (.mounted, "The NTFS volume is mounted or otherwise active.")
  else if currentSizeBytes ≤ 0 then
    some (.rangeUnavailable, "The current NTFS partition size is unavailable.")
  else none

/-- The check of the target against the range and the dry run. -/
def targetRefusal (run : ReadOnlyCommand → CommandOutcome) (device : String)
    (minimum maximum target : ℤ) : Option (NtfsResizeBlockReason × String) :=
  if target % MIB ≠ 0 ∨ target < minimum ∨ maximum < target then
    some (.targetOutOfRange, "The requested NTFS size is outside the freshly verified range.")
  else
    let dryRun := runReadOnly run (dryRunCommand device target)
    if dryRun.returncode ≠ 0 then
      some (.targetRejected, diagnostic dryRun "NTFS rejected the requested size.")
    else if relocatesMft (dryRun.stdout ++ '\n' :: dryRun.stderr) then
      some (.mftRelocationUnsafe, "Shrinking to this size would relocate the NTFS MFT; this " ++
        "release refuses that unsafe upstream code path.")
    else none

/-- The range of sizes, or why there is none. -/
def sizeRange (run : ReadOnlyCommand → CommandOutcome) (device : String)
    (currentSizeBytes : ℤ) : Except (NtfsResizeBlockReason × String × ℤ × ℤ) (ℤ × ℤ) :=
  let check := runReadOnly run (checkCommand device)
  if check.returncode ≠ 0 then
    .error (.checkFailed, diagnostic check "NTFS consistency checking failed.", 0, 0)
  else
    let info := runReadOnly run (infoCommand device)
    if info.returncode ≠ 0 then
      .error (.rangeUnavailable, diagnostic info "NTFS could not report a safe shrink range.", 0, 0)
    else
      match reportedMinimum (info.stdout ++ '\n' :: info.stderr) with
      | none => .error (.rangeUnavailable, "NTFS returned no trustworthy minimum size.", 0, 0)
      | some reported =>
        let minimum := minimumSizeBytes currentSizeBytes reported
        let maximum := maximumSizeBytes currentSizeBytes
        if maximum < minimum then
          .error (.insufficientSpace, "The volume has no safely reclaimable space.", minimum, maximum)
        else .ok (minimum, maximum)

/-- The assessment of one volume. Nothing is written. -/
def inspectNtfsResize (casing : Casing) (device : String) (currentSizeBytes : ℤ)
    (filesystem : String) (mounted : Bool) (targetSizeBytes : Option ℤ)
    (run : ReadOnlyCommand → CommandOutcome) : NtfsResizeInspection :=
  let blocked := fun (reason : NtfsResizeBlockReason) (message : String)
      (probeExitCode : Option ℤ) (minimum maximum : ℤ) =>
    (⟨device, casing.casefold filesystem, currentSizeBytes, minimum, maximum, reason, message,
      probeExitCode, targetSizeBytes⟩ : NtfsResizeInspection)
  match volumeRefusal (casing.casefold filesystem) mounted currentSizeBytes with
  | some (reason, message) => blocked reason message none 0 0
  | none =>
    let probe := runReadOnly run (probeCommand device)
    match probeFailure probe.returncode with
    | some (reason, message) => blocked reason message (some probe.returncode) 0 0
    | none =>
      match sizeRange run device currentSizeBytes with
      | .error (reason, message, minimum, maximum) =>
        blocked reason message (some probe.returncode) minimum maximum
      | .ok (minimum, maximum) =>
        match targetSizeBytes.bind (targetRefusal run device minimum maximum) with
        | some (reason, message) => blocked reason message (some probe.returncode) minimum maximum
        | none => ⟨device, "ntfs", currentSizeBytes, minimum, maximum, .none,
            "The NTFS volume passed every read-only shrink check.", some probe.returncode,
            targetSizeBytes⟩

end Inspection

section Safety

variable {run : ReadOnlyCommand → CommandOutcome} {device : String} {current : ℤ}

/-- The command was there, ended in time and exited with zero. -/
def Succeeded (run : ReadOnlyCommand → CommandOutcome) (command : ReadOnlyCommand) : Prop :=
  ∃ process, run command = .completed process ∧ process.returncode = 0

theorem succeeded_iff {command : ReadOnlyCommand} :
    (runReadOnly run command).returncode = 0 ↔ Succeeded run command := by
  unfold runReadOnly Succeeded
  cases run command with
  | completed process => simp
  | failed error => simp

/-- The minimum that the information command reports. -/
def Reported (run : ReadOnlyCommand → CommandOutcome) (device : String) (reported : ℕ) : Prop :=
  reportedMinimum ((runReadOnly run (infoCommand device)).stdout ++
    '\n' :: (runReadOnly run (infoCommand device)).stderr) = some reported

theorem sizeRange_ok {minimum maximum : ℤ}
    (h : sizeRange run device current = .ok (minimum, maximum)) :
    Succeeded run (checkCommand device) ∧ Succeeded run (infoCommand device) ∧
      ∃ reported, Reported run device reported ∧ minimum = minimumSizeBytes current reported ∧
        maximum = maximumSizeBytes current ∧ minimum ≤ maximum := by
  simp only [sizeRange] at h
  split at h
  · cases h
  · rename_i hcheck
    split at h
    · cases h
    · rename_i hinfo
      split at h
      · cases h
      · rename_i reported hreported
        split at h
        · cases h
        · rename_i hfits
          cases h
          exact ⟨succeeded_iff.mp (not_not.mp hcheck), succeeded_iff.mp (not_not.mp hinfo),
            reported, hreported, rfl, rfl, not_lt.mp hfits⟩

theorem sizeRange_reason {reason : NtfsResizeBlockReason} {message : String} {minimum maximum : ℤ}
    (h : sizeRange run device current = .error (reason, message, minimum, maximum)) :
    reason ≠ .none := by
  simp only [sizeRange] at h
  split at h
  · cases h
    simp
  · split at h
    · cases h
      simp
    · split at h
      · cases h
        simp
      · split at h
        · cases h
          simp
        · cases h

theorem probeFailure_none {returncode : ℤ} : probeFailure returncode = none ↔ returncode = 0 := by
  unfold probeFailure
  split_ifs <;> simp_all

theorem probeFailure_reason {returncode : ℤ} {reason : NtfsResizeBlockReason} {message : String}
    (h : probeFailure returncode = some (reason, message)) : reason ≠ .none := by
  unfold probeFailure at h
  split_ifs at h <;> cases h <;> simp

theorem volumeRefusal_reason {filesystem : String} {mounted : Bool}
    {reason : NtfsResizeBlockReason} {message : String}
    (h : volumeRefusal filesystem mounted current = some (reason, message)) :
    reason ≠ .none := by
  unfold volumeRefusal at h
  split_ifs at h <;> cases h <;> simp

theorem targetRefusal_reason {minimum maximum target : ℤ} {reason : NtfsResizeBlockReason}
    {message : String}
    (h : targetRefusal run device minimum maximum target = some (reason, message)) :
    reason ≠ .none := by
  simp only [targetRefusal] at h
  split_ifs at h <;> cases h <;> simp

theorem targetRefusal_none {minimum maximum target : ℤ}
    (h : targetRefusal run device minimum maximum target = none) :
    MIB ∣ target ∧ minimum ≤ target ∧ target ≤ maximum ∧
      Succeeded run (dryRunCommand device target) := by
  simp only [targetRefusal] at h
  split at h
  · cases h
  · rename_i hrange
    split at h
    · cases h
    · rename_i hdry
      simp only [not_or, not_not, not_lt] at hrange
      exact ⟨Int.dvd_of_emod_eq_zero hrange.1, hrange.2.1, hrange.2.2,
        succeeded_iff.mp (not_not.mp hdry)⟩

/-- A range that is not empty keeps the margin: had the minimum been cut to the current size, its
alignment would have put it above the maximum. -/
theorem margin_of_range {reported : ℕ}
    (h : minimumSizeBytes current reported ≤ maximumSizeBytes current) :
    marginBytes reported ≤ minimumSizeBytes current reported ∧
      maximumSizeBytes current ≤ current - MIB ∧ MIB ∣ minimumSizeBytes current reported := by
  simp only [minimumSizeBytes, maximumSizeBytes, alignUp, alignDown, MIB] at h ⊢
  omega

variable {casing : Casing} {filesystem : String} {mounted : Bool} {target : Option ℤ}

/-- What a safe result has gone through. -/
theorem inspect_safe
    (h : (inspectNtfsResize casing device current filesystem mounted target run).safe = true) :
    Succeeded run (probeCommand device) ∧
      (∃ minimum maximum, sizeRange run device current = .ok (minimum, maximum) ∧
        ∀ t, target = some t → targetRefusal run device minimum maximum t = none) ∧
      (inspectNtfsResize casing device current filesystem mounted target run).targetSizeBytes =
        target := by
  simp only [inspectNtfsResize] at h ⊢
  split at h
  · rename_i hrefused
    exact absurd (by simpa [NtfsResizeInspection.safe] using h) (volumeRefusal_reason hrefused)
  · split at h
    · rename_i hrefused
      exact absurd (by simpa [NtfsResizeInspection.safe] using h) (probeFailure_reason hrefused)
    · rename_i hprobe
      split at h
      · rename_i hrange
        exact absurd (by simpa [NtfsResizeInspection.safe] using h) (sizeRange_reason hrange)
      · rename_i minimum maximum hrange
        split at h
        · rename_i hrefused
          obtain ⟨t, -, hrefused⟩ := Option.bind_eq_some_iff.mp hrefused
          exact absurd (by simpa [NtfsResizeInspection.safe] using h) (targetRefusal_reason hrefused)
        · rename_i hnone
          refine ⟨succeeded_iff.mp (probeFailure_none.mp hprobe), ⟨minimum, maximum, hrange, ?_⟩, ?_⟩
          · rintro t rfl
            exact hnone
          · simp only [*]

/-- A safe target keeps the margin, and where no size keeps it the volume is blocked. -/
theorem ntfs_resize_fails_closed (casing : Casing) (device filesystem : String) (current : ℤ)
    (mounted : Bool) (target : Option ℤ) (run : ReadOnlyCommand → CommandOutcome) :
    (∀ t, (inspectNtfsResize casing device current filesystem mounted target run).safe = true →
      (inspectNtfsResize casing device current filesystem mounted target run).targetSizeBytes =
        some t →
      Succeeded run (probeCommand device) ∧ Succeeded run (checkCommand device) ∧
      Succeeded run (infoCommand device) ∧ Succeeded run (dryRunCommand device t) ∧
      ∃ reported : ℕ, Reported run device reported ∧ MIB ∣ t ∧ reported + 2 * GIB ≤ t ∧
        125 * (reported : ℤ) / 100 ≤ t ∧ t ≤ current - MIB) ∧
    ∀ reported, Reported run device reported →
      (∀ t, MIB ∣ t → ¬ (marginBytes reported ≤ t ∧ t ≤ current - MIB)) →
      (inspectNtfsResize casing device current filesystem mounted target run).safe = false := by
  constructor
  · intro t hsafe htarget
    obtain ⟨hprobe, ⟨minimum, maximum, hrange, hrefused⟩, hsame⟩ := inspect_safe hsafe
    rw [hsame] at htarget
    obtain ⟨hcheck, hinfo, reported, hreported, rfl, rfl, hle⟩ := sizeRange_ok hrange
    obtain ⟨hwhole, hleast, hmost, hdry⟩ := targetRefusal_none (hrefused t htarget)
    obtain ⟨hmargin, hmaximum, -⟩ := margin_of_range hle
    refine ⟨hprobe, hcheck, hinfo, hdry, reported, hreported, hwhole, ?_, ?_, ?_⟩
    · exact (le_max_right _ _).trans (hmargin.trans hleast)
    · rw [mul_comm]
      exact (le_max_left _ _).trans (hmargin.trans hleast)
    · exact hmost.trans hmaximum
  · intro reported hreported hnone
    by_contra hsafe
    rw [Bool.not_eq_false] at hsafe
    obtain ⟨-, ⟨minimum, maximum, hrange, -⟩, -⟩ := inspect_safe hsafe
    obtain ⟨-, -, other, hother, rfl, rfl, hle⟩ := sizeRange_ok hrange
    have hsame : other = reported := Option.some.inj (hother.symm.trans hreported)
    subst hsame
    obtain ⟨hmargin, hmaximum, hwhole⟩ := margin_of_range hle
    exact hnone _ hwhole ⟨hmargin, hle.trans hmaximum⟩

/-- A volume of 100 GiB that could be shrunk to 20 GiB. -/
def roomyVolume (command : ReadOnlyCommand) : CommandOutcome :=
  if command = infoCommand "/dev/sda3" then
    .completed ⟨0, "You might resize at 21474836480 bytes or 21475 MB.\n".toList, []⟩
  else .completed ⟨0, [], []⟩

theorem roomyVolume_shrinks :
    (inspectNtfsResize ⟨id, id⟩ "/dev/sda3" (100 * GIB) "ntfs" false (some (30 * GIB))
      roomyVolume).safe = true ∧
    ∃ reported : ℕ, Reported roomyVolume "/dev/sda3" reported ∧ reported + 2 * GIB ≤ 30 * GIB := by
  have hsafe : (inspectNtfsResize ⟨id, id⟩ "/dev/sda3" (100 * GIB) "ntfs" false (some (30 * GIB))
      roomyVolume).safe = true := by
    decide +kernel
  obtain ⟨-, -, -, -, reported, hreported, -, hmargin, -, -⟩ :=
    (ntfs_resize_fails_closed ⟨id, id⟩ "/dev/sda3" "ntfs" (100 * GIB) false (some (30 * GIB))
      roomyVolume).1 (30 * GIB) hsafe (inspect_safe hsafe).2.2
  exact ⟨hsafe, reported, hreported, hmargin⟩

end Safety

end Installer
