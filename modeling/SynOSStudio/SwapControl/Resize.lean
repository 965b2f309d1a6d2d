import SynOSStudio.SwapControl.Helper
import Mathlib.Data.List.TakeWhile

/-!
# Resizing the swap file

What a resize leaves behind when the calls of one command fail.
-/

namespace SwapControl

open ByteStreams

/-! ## The appended entry -/

section Entry

variable {line whole last fstab : Bytes}

/-- A line that starts with the path is no comment. -/
theorem isEntry_iff : isEntry line = true ↔ firstField line = SWAPFILE := by
  refine ⟨fun h => of_decide_eq_true (Bool.and_eq_true_iff.mp h).1, fun h => ?_⟩
  have hfield : ∃ rest, SWAPFILE = 47 :: rest := ⟨_, rfl⟩
  obtain ⟨rest, hrest⟩ := hfield
  obtain ⟨rest', hrest'⟩ : ∃ rest', line.dropWhile isBlank = 47 :: rest' := by
    rw [firstField, hrest] at h
    cases hdrop : line.dropWhile isBlank with
    | nil => simp [hdrop] at h
    | cons byte rest' =>
      rw [hdrop, List.takeWhile_cons] at h
      split at h
      · exact ⟨rest', by rw [(List.cons.inj h).1]⟩
      · cases h
  have hspace : ∀ byte ∈ line.takeWhile isBlank, isSpace byte = true := by
    intro byte hbyte
    have hblank := List.mem_takeWhile_imp hbyte
    simp only [isBlank, Bool.or_eq_true, decide_eq_true_eq] at hblank
    obtain (rfl | rfl) | rfl := hblank
    · rfl
    · rfl
    · rfl
  have hdrop : line.dropWhile isSpace = 47 :: rest' := by
    rw [← List.takeWhile_append_dropWhile (p := isBlank) (l := line),
      List.dropWhile_append_of_pos hspace, hrest']
    rfl
  rw [isEntry, h, hdrop]
  rfl

/-- An appended entry starts a line of its own, or follows blanks only. -/
def RoomForEntry (fstab : Bytes) : Prop :=
  Listed fstab ∨ ∃ whole last, fstab = whole ++ last ∧ EndsLine 10 whole ∧
    ∀ byte ∈ last, isBlank byte = true

theorem firstField_blank (h : ∀ byte ∈ last, isBlank byte = true) :
    firstField (last ++ line) = firstField line := by
  rw [firstField, List.dropWhile_append_of_pos h, firstField]

/-- What follows a field joins it. -/
theorem firstField_append (h : ¬ ∀ byte ∈ last, isBlank byte = true)
    (hentry : firstField (last ++ ENTRY) = SWAPFILE) : firstField last = SWAPFILE := by
  have hdrop : last.dropWhile isBlank ≠ [] := by
    rwa [Ne, List.dropWhile_eq_nil_iff]
  have hfield : ENTRY.takeWhile (fun byte => !isBlank byte) = SWAPFILE := by decide +kernel
  rw [firstField, List.dropWhile_append, List.isEmpty_eq_false_iff.mpr hdrop,
    if_neg Bool.false_ne_true, List.takeWhile_append, hfield] at hentry
  split_ifs at hentry
  · exact absurd (List.append_left_eq_self.mp hentry) hdrop
  · exact hentry

theorem listed_append (hwhole : EndsLine 10 whole) :
    Listed (whole ++ last) ↔ Listed whole ∨ Listed last := by
  unfold Listed
  rw [linesOf_append hwhole]
  simp only [List.mem_append, or_and_right, exists_or]

theorem listed_line (h : 10 ∉ last) : Listed last ↔ firstField last = SWAPFILE := by
  have hnil : firstField [] ≠ SWAPFILE := by decide
  unfold Listed
  rw [linesOf_no_sep h]
  split_ifs with hlast
  · simp [hlast, hnil]
  · simp [isEntry_iff]

theorem listed_entry (h : 10 ∉ last) :
    Listed (last ++ ENTRY) ↔ firstField (last ++ ENTRY) = SWAPFILE := by
  have hentry : ∃ body, ENTRY = body ++ [10] ∧ 10 ∉ body :=
    ⟨utf8Bytes "/swapfile none swap sw,pri=10 0 0".toList, by decide +kernel, by decide +kernel⟩
  obtain ⟨body, hbody, hnewline⟩ := hentry
  have hlines : linesOf 10 (last ++ ENTRY) = [last ++ ENTRY] := by
    rw [hbody, ← List.append_assoc]
    exact linesOf_append_sep (by simp [h, hnewline])
  unfold Listed
  rw [hlines]
  simp [isEntry_iff]

theorem listed_ensure_iff {m : Machine} :
    Listed (ensureSwapfileFstabEntry m).fstab ↔ RoomForEntry m.fstab := by
  by_cases hlisted : Listed m.fstab
  · rw [ensureSwapfileFstabEntry, if_pos hlisted]
    exact iff_of_true hlisted (.inl hlisted)
  rw [ensureSwapfileFstabEntry, if_neg hlisted, RoomForEntry, or_iff_right hlisted]
  obtain ⟨whole, last, hfstab, hwhole, hlast⟩ := exists_last_line 10 m.fstab
  have hunlisted : ¬ Listed whole ∧ ¬ firstField last = SWAPFILE := by
    rwa [hfstab, listed_append hwhole, not_or, listed_line hlast] at hlisted
  have happended : Listed (m.fstab ++ ENTRY) ↔ ∀ byte ∈ last, isBlank byte = true := by
    rw [hfstab, List.append_assoc, listed_append hwhole, or_iff_right hunlisted.1,
      listed_entry hlast]
    constructor
    · intro h
      by_contra hfield
      exact hunlisted.2 (firstField_append hfield h)
    · intro h
      rw [firstField_blank h]
      decide
  rw [happended]
  constructor
  · exact fun h => ⟨whole, last, hfstab, hwhole, h⟩
  · rintro ⟨whole', last', hfstab', hwhole', hblank⟩ byte hbyte
    rcases List.append_eq_append_iff.mp (hfstab.symm.trans hfstab') with
      ⟨middle, rfl, hrest⟩ | ⟨middle, rfl, hrest⟩
    · obtain rfl | ⟨body, rfl⟩ := (endsLine_append_iff hwhole).mp hwhole'
      · exact hblank byte (by rwa [hrest] at hbyte)
      · exact absurd (by rw [hrest]; simp) hlast
    · exact hblank byte (by rw [hrest]; exact List.mem_append_right _ hbyte)

end Entry

/-! ## The outcome -/

/-- The node without its blocks. -/
def outline : Option Node → Option Node
  | some (.regular file) => some (.regular { file with blocks := 0 })
  | node => node

/-- A resize succeeds, or it changes nothing. -/
structure AllOrNothing (sizeGib : ℕ) (m : Machine) (exit : Exit) (m' : Machine) : Prop where
  done : exit.code = 0 → sizeOf (m'.nodes .swapfile) = sizeGib * GIB ∧
    isActive (m'.nodes .swapfile) = true ∧ Listed m'.fstab
  kept : exit.code ≠ 0 → outline (m'.nodes .swapfile) = outline (m.nodes .swapfile) ∧
    m'.fstab = m.fstab
  noLeftover : m'.nodes .temporary = none ∧ m'.nodes .backup = none

/-- Why a resize is refused before anything is touched. -/
def refusal (root : Root) (sizeGib : ℕ) (m : Machine) : Option Exit :=
  (checkSwapfile m).or ((checkFilesystem root.filesystem).or (checkSpace root sizeGib m))

/-- The failing calls that building a replacement withstands. -/
def ReplacementWithstands (fault : Fault) (m : Machine) : Prop :=
  match fault.command with
  | .fallocate =>
    if fault.fails 0 then fault.leaves 0 = none else RoomForEntry m.fstab
  | .chmod | .mkswap =>
    fault.fails 0 = false ∧ RoomForEntry m.fstab
  | .swapoff =>
    isActive (m.nodes .swapfile) = true ∧ fault.fails 0 = true ∨ RoomForEntry m.fstab
  | .mv =>
    fault.fails 0 = false ∧ (m.nodes .swapfile ≠ none → fault.fails 1 = false) ∧
      RoomForEntry m.fstab
  | .swapon =>
    if fault.fails 1 then
      isActive (m.nodes .swapfile) = true → fault.fails 0 = true ∨ fault.fails 2 = false
    else
      RoomForEntry m.fstab

/-- The failing calls that recreating the file withstands. An old file of no length is lost. -/
def RecreationWithstands (fault : Fault) (m : Machine) : Prop :=
  match fault.command with
  | .fallocate =>
    if fault.fails 0 then
      ∀ file, m.nodes .swapfile = some (.regular file) → 0 < file.size ∧
        (fault.fails 1 = true → fault.leaves 1 = some file.size ∧ file.active = false)
    else
      RoomForEntry m.fstab
  | .chmod | .mkswap =>
    if fault.fails 0 then
      ∀ file, m.nodes .swapfile = some (.regular file) → 0 < file.size ∧
        (fault.fails 1 = true → file.active = false)
    else
      RoomForEntry m.fstab
  | .swapoff =>
    isActive (m.nodes .swapfile) = true ∧ fault.fails 0 = true ∨ RoomForEntry m.fstab
  | .mv => RoomForEntry m.fstab
  | .swapon =>
    if fault.fails 1 then
      ∀ file, m.nodes .swapfile = some (.regular file) → 0 < file.size ∧
        (file.active = true → fault.fails 0 = false ∧ fault.fails 2 = false)
    else
      RoomForEntry m.fstab

def Withstands (fault : Fault) (root : Root) (sizeGib : ℕ) (m : Machine) : Prop :=
  refusal root sizeGib m ≠ none ∨
    if sizeGib * GIB + ROOT_RESERVE_BYTES ≤ root.availableBytes then
      ReplacementWithstands fault m
    else
      RecreationWithstands fault m

section Layouts

variable {swapfile temporary backup node : Option Node}
  {fstab : Bytes} {copy : Option Bytes} {calls n : ℕ}

def layout (swapfile temporary backup : Option Node) : Path → Option Node
  | .swapfile => swapfile
  | .temporary => temporary
  | .backup => backup

/-- A process written out. -/
def process (swapfile temporary backup : Option Node) (fstab : Bytes) (copy : Option Bytes)
    (calls : ℕ) : Process :=
  ⟨⟨layout swapfile temporary backup, fstab, copy⟩, calls⟩

@[simp] theorem process_swapfile :
    (process swapfile temporary backup fstab copy calls).nodes .swapfile = swapfile := rfl

@[simp] theorem process_temporary :
    (process swapfile temporary backup fstab copy calls).nodes .temporary = temporary := rfl

@[simp] theorem process_backup :
    (process swapfile temporary backup fstab copy calls).nodes .backup = backup := rfl

@[simp] theorem process_fstab :
    (process swapfile temporary backup fstab copy calls).fstab = fstab := rfl

@[simp] theorem process_calls :
    (process swapfile temporary backup fstab copy calls).calls = calls := rfl

@[simp] theorem put_swapfile :
    (process swapfile temporary backup fstab copy calls).put .swapfile node =
      process node temporary backup fstab copy calls := by
  simp only [process, Process.put, Process.mk.injEq, Machine.mk.injEq, and_true]
  funext path
  cases path <;> rfl

@[simp] theorem put_temporary :
    (process swapfile temporary backup fstab copy calls).put .temporary node =
      process swapfile node backup fstab copy calls := by
  simp only [process, Process.put, Process.mk.injEq, Machine.mk.injEq, and_true]
  funext path
  cases path <;> rfl

@[simp] theorem put_backup :
    (process swapfile temporary backup fstab copy calls).put .backup node =
      process swapfile temporary node fstab copy calls := by
  simp only [process, Process.put, Process.mk.injEq, Machine.mk.injEq, and_true]
  funext path
  cases path <;> rfl

@[simp] theorem mk_process : (⟨(process swapfile temporary backup fstab copy calls).toMachine, n⟩ :
    Process) = process swapfile temporary backup fstab copy n := rfl

theorem exists_process (m : Machine) (h : m.nodes .temporary = none)
    (h' : m.nodes .backup = none) :
    ⟨m, 0⟩ = process (m.nodes .swapfile) none none m.fstab m.fstabTemporary 0 := by
  obtain ⟨nodes, fstab, copy⟩ := m
  simp only [process, Process.mk.injEq, Machine.mk.injEq, and_true]
  funext path
  cases path with
  | swapfile => rfl
  | temporary => exact h
  | backup => exact h'

end Layouts

section Operations

variable {fault : Fault} {p : Process} {path destination : Path} {length : ℕ} {command : Command}
  {fails : ℕ → Bool} {leaves : ℕ → Option ℕ}

theorem call_other (h : command ≠ fault.command) : call fault p command = (true, p) :=
  if_neg h

theorem call_same (h : command = fault.command) :
    call fault p command = (!fault.fails p.calls, { p with calls := p.calls + 1 }) :=
  if_pos h

theorem put_put {node node' : Option Node} : (p.put path node).put path node' = p.put path node' := by
  simp [Process.put]

theorem createSwapfile_other (hfallocate : fault.command ≠ .fallocate)
    (hchmod : fault.command ≠ .chmod) (hmkswap : fault.command ≠ .mkswap) :
    createSwapfile fault p path length = (true, p.put path (some (allocated length))) := by
  simp only [createSwapfile, fallocate, call_other hfallocate.symm, call_other hchmod.symm,
    call_other hmkswap.symm, Process.rm, put_put]

theorem createSwapfile_fallocate (h : fault.command = .fallocate) :
    createSwapfile fault p path length =
      if fault.fails p.calls then
        (false, { p.put path ((fault.leaves p.calls).map allocated) with calls := p.calls + 1 })
      else
        (true, { p.put path (some (allocated length)) with calls := p.calls + 1 }) := by
  obtain ⟨command, fails, leaves⟩ := fault
  obtain rfl := h
  cases hfails : fails p.calls
  · simp [createSwapfile, fallocate, call, Process.rm, Process.put, hfails]
  · simp [createSwapfile, fallocate, call, Process.rm, Process.put, hfails]

theorem createSwapfile_checked (h : fault.command = .chmod ∨ fault.command = .mkswap) :
    createSwapfile fault p path length = (!fault.fails p.calls,
      { p.put path (some (allocated length)) with calls := p.calls + 1 }) := by
  obtain ⟨command, fails, leaves⟩ := fault
  obtain rfl | rfl := h
  · cases h : fails p.calls
    · simp [createSwapfile, fallocate, call, Process.rm, Process.put, h]
    · simp [createSwapfile, fallocate, call, Process.rm, Process.put, h]
  · simp [createSwapfile, fallocate, call, Process.rm, Process.put]

/-- A query that fails finds nothing. -/
theorem swapfileIsActive_swapon (h : fault.command = .swapon) :
    swapfileIsActive fault p = (isActive (p.nodes .swapfile) && !fault.fails p.calls,
      { p with calls := p.calls + 1 }) := by
  rw [swapfileIsActive, call_same h.symm]
  cases hfails : fault.fails p.calls
  · simp
  · simp

end Operations

section Nodes

variable {file : File} {active : Bool}

@[simp] theorem pathExists_regular : pathExists (some (.regular file)) = true := rfl

@[simp] theorem pathExists_none : pathExists none = false := rfl

@[simp] theorem isActive_regular : isActive (some (.regular file)) = file.active := rfl

@[simp] theorem isActive_none : isActive none = false := rfl

@[simp] theorem sizeOf_regular : sizeOf (some (.regular file)) = file.size := rfl

@[simp] theorem setActive_regular :
    (Node.regular file).setActive active = .regular { file with active := active } := rfl

/-- The new file, swapped on. -/
def switchedOn (length : ℕ) : Node :=
  (allocated length).setActive true

end Nodes

section Replacement

variable {fault : Fault} {fails : ℕ → Bool} {leaves : ℕ → Option ℕ} {old : Option File}
  {file : File} {fstab : Bytes} {copy : Option Bytes} {p q : Process} {length n : ℕ}

theorem replace_uncreated (h : createSwapfile fault p .temporary length = (false, q)) :
    replaceSwapfile fault p length = (some errexit, q) := by
  rw [replaceSwapfile, h]

/-- Once the new file is there, only the switch can fail. -/
theorem replace_created (hswapon : fault.command ≠ .swapon) (hswapoff : fault.command ≠ .swapoff)
    (hmv : fault.command ≠ .mv)
    (h : createSwapfile fault p .temporary length =
      (true, process (old.map .regular) (some (allocated length)) none fstab copy n)) :
    replaceSwapfile fault p length =
      (none, process (some (switchedOn length)) none none fstab copy n) := by
  rw [replaceSwapfile, h]
  simp only [swapfileIsActive, swapoff, mv, swapon, call_other hswapon.symm,
    call_other hswapoff.symm, call_other hmv.symm, process_swapfile]
  rcases old with _ | ⟨size, blocks, _ | _⟩
  · simp [Process.rm, switchedOn]
  · simp [Process.rm, switchedOn]
  · simp [Process.rm, switchedOn]

theorem replace_fallocate (h : fault.command = .fallocate) :
    replaceSwapfile fault (process (old.map .regular) none none fstab copy 0) length =
      if fault.fails 0 then
        (some errexit,
          process (old.map .regular) ((fault.leaves 0).map allocated) none fstab copy 1)
      else
        (none, process (some (switchedOn length)) none none fstab copy 1) := by
  have hcreate := @createSwapfile_fallocate fault
    (process (old.map .regular) none none fstab copy 0) .temporary length h
  split_ifs with hfails
  · rw [process_calls, if_pos hfails, put_temporary, mk_process] at hcreate
    exact replace_uncreated hcreate
  · rw [process_calls, if_neg hfails, put_temporary, mk_process] at hcreate
    exact replace_created (by simp [h]) (by simp [h]) (by simp [h]) hcreate

theorem replace_checked (h : fault.command = .chmod ∨ fault.command = .mkswap) :
    replaceSwapfile fault (process (old.map .regular) none none fstab copy 0) length =
      if fault.fails 0 then
        (some errexit, process (old.map .regular) (some (allocated length)) none fstab copy 1)
      else
        (none, process (some (switchedOn length)) none none fstab copy 1) := by
  have hcreate := @createSwapfile_checked fault
    (process (old.map .regular) none none fstab copy 0) .temporary length h
  rw [process_calls, put_temporary, mk_process] at hcreate
  split_ifs with hfails
  · rw [hfails] at hcreate
    exact replace_uncreated hcreate
  · rw [Bool.eq_false_of_not_eq_true hfails] at hcreate
    have hother : fault.command ≠ .swapon ∧ fault.command ≠ .swapoff ∧ fault.command ≠ .mv := by
      rcases h with h | h
      · simp [h]
      · simp [h]
    exact replace_created hother.1 hother.2.1 hother.2.2 hcreate

theorem replace_swapoff (h : fault.command = .swapoff) :
    ∃ n, replaceSwapfile fault (process (old.map .regular) none none fstab copy 0) length =
      if isActive (old.map .regular) ∧ fault.fails 0 then
        (some ⟨1, "The existing swapfile could not be disabled; no files were changed"⟩,
          process (old.map .regular) none none fstab copy n)
      else
        (none, process (some (switchedOn length)) none none fstab copy n) := by
  rw [replaceSwapfile, createSwapfile_other (by simp [h]) (by simp [h]) (by simp [h])]
  rcases old with _ | ⟨size, blocks, _ | _⟩
  · exact ⟨0, by simp [swapfileIsActive, mv, swapon, call, h, Process.rm, switchedOn]⟩
  · exact ⟨0, by simp [swapfileIsActive, mv, swapon, call, h, Process.rm, switchedOn]⟩
  · refine ⟨1, ?_⟩
    cases hfails : fault.fails 0 with
    | false =>
      simp [swapfileIsActive, swapoff, mv, swapon, call, h, hfails, Process.rm, switchedOn]
    | true =>
      simp [swapfileIsActive, swapoff, call, h, hfails, Process.rm]

theorem replace_mv_none (h : fault.command = .mv) :
    replaceSwapfile fault (process none none none fstab copy 0) length =
      if fault.fails 0 then
        (some errexit, process none (some (allocated length)) none fstab copy 1)
      else
        (none, process (some (switchedOn length)) none none fstab copy 1) := by
  rw [replaceSwapfile, createSwapfile_other (by simp [h]) (by simp [h]) (by simp [h])]
  cases hfails : fault.fails 0 with
  | false => simp [swapfileIsActive, mv, swapon, call, h, hfails, Process.rm, switchedOn]
  | true => simp [swapfileIsActive, mv, call, h, hfails]

/-- The old file is off when it has been put aside, or could not be. -/
theorem replace_mv_some (h : fault.command = .mv) :
    replaceSwapfile fault (process (some (.regular file)) none none fstab copy 0) length =
      if fault.fails 0 then
        (some errexit, process (some (.regular { file with active := false }))
          (some (allocated length)) none fstab copy 1)
      else if fault.fails 1 then
        (some errexit, process none (some (allocated length))
          (some (.regular { file with active := false })) fstab copy 2)
      else
        (none, process (some (switchedOn length)) none none fstab copy 2) := by
  rw [replaceSwapfile, createSwapfile_other (by simp [h]) (by simp [h]) (by simp [h])]
  obtain ⟨size, blocks, _ | _⟩ := file
  · cases hfails : fault.fails 0 with
    | false =>
      cases hfails' : fault.fails 1 with
      | false =>
        simp [swapfileIsActive, mv, swapon, call, h, hfails, hfails', Process.rm, switchedOn]
      | true => simp [swapfileIsActive, mv, call, h, hfails, hfails', Process.rm]
    | true => simp [swapfileIsActive, mv, call, h, hfails]
  · cases hfails : fault.fails 0 with
    | false =>
      cases hfails' : fault.fails 1 with
      | false =>
        simp [swapfileIsActive, swapoff, mv, swapon, call, h, hfails, hfails', Process.rm,
          switchedOn]
      | true => simp [swapfileIsActive, swapoff, mv, call, h, hfails, hfails', Process.rm]
    | true => simp [swapfileIsActive, swapoff, mv, call, h, hfails]

/-- A file that was not known to be active is put back as it was. -/
theorem replace_swapon (h : fault.command = .swapon) :
    ∃ n, replaceSwapfile fault (process (old.map .regular) none none fstab copy 0) length =
      if fault.fails 1 then
        (some ⟨1, "The replacement swapfile could not be activated; the previous file was restored"⟩,
          process (old.map fun file => .regular { file with
            active := file.active && (fault.fails 0 || !fault.fails 2) }) none none fstab copy n)
      else
        (none, process (some (switchedOn length)) none none fstab copy n) := by
  rw [replaceSwapfile, createSwapfile_other (by simp [h]) (by simp [h]) (by simp [h])]
  simp only [swapfileIsActive_swapon h, put_temporary, process_swapfile, process_calls, mk_process]
  rcases old with _ | ⟨size, blocks, _ | _⟩
  · cases hfails : fault.fails 1 with
    | false => exact ⟨2, by simp [mv, swapon, call, h, hfails, Process.rm, switchedOn]⟩
    | true =>
      exact ⟨2, by simp [mv, swapon, call, h, hfails, Process.rm, replaceSwapfile.restoreBackup]⟩
  · cases hfails : fault.fails 1 with
    | false => exact ⟨2, by simp [mv, swapon, call, h, hfails, Process.rm, switchedOn]⟩
    | true =>
      exact ⟨2, by simp [mv, swapon, call, h, hfails, Process.rm, replaceSwapfile.restoreBackup]⟩
  · cases hquery : fault.fails 0 with
    | true =>
      cases hfails : fault.fails 1 with
      | false => exact ⟨2, by simp [mv, swapon, call, h, hfails, Process.rm, switchedOn]⟩
      | true =>
        exact ⟨2, by simp [mv, swapon, call, h, hfails, Process.rm, replaceSwapfile.restoreBackup]⟩
    | false =>
      cases hfails : fault.fails 1 with
      | false => exact ⟨2, by simp [swapoff, mv, swapon, call, h, hfails, Process.rm, switchedOn]⟩
      | true =>
        refine ⟨3, ?_⟩
        cases hagain : fault.fails 2 with
        | false =>
          simp [swapoff, mv, swapon, call, h, hfails, hagain, Process.rm,
            replaceSwapfile.restoreBackup]
        | true =>
          simp [swapoff, mv, swapon, call, h, hfails, hagain, Process.rm,
            replaceSwapfile.restoreBackup]

end Replacement

section Recreation

variable {fault : Fault} {old : Option File} {fstab : Bytes} {copy : Option Bytes}
  {length size n : ℕ} {wasActive : Bool}

def recreated : Exit :=
  ⟨1, "The replacement swapfile could not be activated; the previous size was recreated"⟩

/-- A file is made again when the old one was not empty. -/
def restored (size : ℕ) (node : Option Node) : Option Node :=
  if 0 < size then node else none

/-- The old file is off and away before the new one is made. -/
theorem recreate_released (hswapon : fault.command ≠ .swapon)
    (hswapoff : fault.command ≠ .swapoff) :
    recreateSwapfile fault (process (old.map .regular) none none fstab copy n) length size =
      match createAndActivate fault (process none none none fstab copy n) length with
      | (true, p) => (none, p)
      | (false, p) => (some recreated, recreateSwapfile.restoreSize fault size
          (isActive (old.map .regular)) (p.rm .swapfile)) := by
  simp only [recreateSwapfile, swapfileIsActive, swapoff, call_other hswapon.symm,
    call_other hswapoff.symm, process_swapfile, Process.rm, put_put]
  cases isActive (old.map .regular)
  · simp only [Bool.false_eq_true, if_false, put_swapfile]
    rfl
  · simp only [if_true, put_swapfile]
    rfl

theorem recreate_activated {n' : ℕ} (hswapon : fault.command ≠ .swapon)
    (hswapoff : fault.command ≠ .swapoff)
    (h : createSwapfile fault (process none none none fstab copy n) .swapfile length =
      (true, process (some (allocated length)) none none fstab copy n')) :
    recreateSwapfile fault (process (old.map .regular) none none fstab copy n) length size =
      (none, process (some (switchedOn length)) none none fstab copy n') := by
  rw [recreate_released hswapon hswapoff, createAndActivate, h]
  simp only [swapon, call_other hswapon.symm, put_swapfile]
  rfl

theorem recreate_failed {p : Process} (hswapon : fault.command ≠ .swapon)
    (hswapoff : fault.command ≠ .swapoff)
    (h : createSwapfile fault (process none none none fstab copy n) .swapfile length = (false, p)) :
    recreateSwapfile fault (process (old.map .regular) none none fstab copy n) length size =
      (some recreated, recreateSwapfile.restoreSize fault size (isActive (old.map .regular))
        (p.rm .swapfile)) := by
  rw [recreate_released hswapon hswapoff, createAndActivate, h]

theorem restoreSize_fallocate (h : fault.command = .fallocate) :
    ∃ n', recreateSwapfile.restoreSize fault size wasActive (process none none none fstab copy n) =
      process (restored size (if fault.fails n then (fault.leaves n).map allocated
        else some ((allocated size).setActive wasActive))) none none fstab copy n' := by
  by_cases hsize : 0 < size
  · refine ⟨n + 1, ?_⟩
    rw [recreateSwapfile.restoreSize, if_pos hsize, restored, if_pos hsize, createSwapfile_fallocate h,
      process_calls, put_swapfile, put_swapfile, mk_process, mk_process]
    cases fault.fails n with
    | true => rfl
    | false =>
      cases wasActive with
      | false => rfl
      | true => simp [swapon, call, h]
  · exact ⟨n, by rw [recreateSwapfile.restoreSize, if_neg hsize, restored,
      if_neg hsize]⟩

theorem restoreSize_checked (h : fault.command = .chmod ∨ fault.command = .mkswap) :
    ∃ n', recreateSwapfile.restoreSize fault size wasActive (process none none none fstab copy n) =
      process (restored size (some ((allocated size).setActive (wasActive && !fault.fails n))))
        none none fstab copy n' := by
  have hswapon : fault.command ≠ .swapon := by
    rcases h with h | h
    · simp [h]
    · simp [h]
  by_cases hsize : 0 < size
  · refine ⟨n + 1, ?_⟩
    rw [recreateSwapfile.restoreSize, if_pos hsize, restored, if_pos hsize, createSwapfile_checked h,
      process_calls, put_swapfile, mk_process]
    cases fault.fails n with
    | true =>
      rw [Bool.not_true, Bool.and_false]
      rfl
    | false =>
      cases wasActive with
      | false => rfl
      | true => simp [swapon, call_other hswapon.symm]
  · exact ⟨n, by rw [recreateSwapfile.restoreSize, if_neg hsize, restored,
      if_neg hsize]⟩

theorem recreate_fallocate (h : fault.command = .fallocate) :
    ∃ n, recreateSwapfile fault (process (old.map .regular) none none fstab copy 0) length size =
      if fault.fails 0 then
        (some recreated, process (restored size (if fault.fails 1 then (fault.leaves 1).map allocated
          else some ((allocated size).setActive (isActive (old.map .regular)))))
          none none fstab copy n)
      else
        (none, process (some (switchedOn length)) none none fstab copy n) := by
  have hcreate := @createSwapfile_fallocate fault (process none none none fstab copy 0)
    .swapfile length h
  by_cases hfails : fault.fails 0
  · rw [process_calls, if_pos hfails, put_swapfile, mk_process] at hcreate
    obtain ⟨n, hn⟩ := @restoreSize_fallocate fault fstab copy size 1 (isActive (old.map .regular)) h
    refine ⟨n, ?_⟩
    rw [if_pos hfails, recreate_failed (by simp [h]) (by simp [h]) hcreate, Process.rm,
      put_swapfile, hn]
  · rw [process_calls, if_neg hfails, put_swapfile, mk_process] at hcreate
    refine ⟨1, ?_⟩
    rw [if_neg hfails]
    exact recreate_activated (by simp [h]) (by simp [h]) hcreate

theorem recreate_checked (h : fault.command = .chmod ∨ fault.command = .mkswap) :
    ∃ n, recreateSwapfile fault (process (old.map .regular) none none fstab copy 0) length size =
      if fault.fails 0 then
        (some recreated, process (restored size (some
          ((allocated size).setActive (isActive (old.map .regular) && !fault.fails 1))))
          none none fstab copy n)
      else
        (none, process (some (switchedOn length)) none none fstab copy n) := by
  have hother : fault.command ≠ .swapon ∧ fault.command ≠ .swapoff := by
    rcases h with h | h
    · simp [h]
    · simp [h]
  have hcreate := @createSwapfile_checked fault (process none none none fstab copy 0)
    .swapfile length h
  rw [process_calls, put_swapfile, mk_process] at hcreate
  split_ifs with hfails
  · rw [hfails] at hcreate
    obtain ⟨n, hn⟩ := @restoreSize_checked fault fstab copy size 1 (isActive (old.map .regular)) h
    refine ⟨n, ?_⟩
    rw [recreate_failed hother.1 hother.2 hcreate, Process.rm, put_swapfile, hn]
  · rw [Bool.eq_false_of_not_eq_true hfails] at hcreate
    exact ⟨1, recreate_activated hother.1 hother.2 hcreate⟩

theorem recreate_mv (h : fault.command = .mv) :
    recreateSwapfile fault (process (old.map .regular) none none fstab copy 0) length size =
      (none, process (some (switchedOn length)) none none fstab copy 0) := by
  have hcreate := @createSwapfile_other fault (process none none none fstab copy 0) .swapfile length
    (by simp [h]) (by simp [h]) (by simp [h])
  rw [put_swapfile] at hcreate
  exact recreate_activated (by simp [h]) (by simp [h]) hcreate

theorem recreate_swapoff (h : fault.command = .swapoff) :
    ∃ n, recreateSwapfile fault (process (old.map .regular) none none fstab copy 0) length size =
      if isActive (old.map .regular) ∧ fault.fails 0 then
        (some ⟨1, "The existing swapfile could not be disabled; no files were changed"⟩,
          process (old.map .regular) none none fstab copy n)
      else
        (none, process (some (switchedOn length)) none none fstab copy n) := by
  have hcreate : ∀ p, createSwapfile fault p .swapfile length =
      (true, p.put .swapfile (some (allocated length))) := fun p =>
    createSwapfile_other (by simp [h]) (by simp [h]) (by simp [h])
  rcases old with _ | ⟨size, blocks, _ | _⟩
  · exact ⟨0, by simp [recreateSwapfile, swapfileIsActive, createAndActivate, hcreate, swapon, call,
      h, Process.rm, switchedOn]⟩
  · exact ⟨0, by simp [recreateSwapfile, swapfileIsActive, createAndActivate, hcreate, swapon, call,
      h, Process.rm, switchedOn]⟩
  · refine ⟨1, ?_⟩
    cases hfails : fault.fails 0 with
    | false =>
      simp [recreateSwapfile, swapfileIsActive, swapoff, createAndActivate, hcreate, swapon, call,
        h, hfails, Process.rm, switchedOn]
    | true => simp [recreateSwapfile, swapfileIsActive, swapoff, call, h, hfails]

theorem restoreSize_swapon (h : fault.command = .swapon) :
    ∃ n', recreateSwapfile.restoreSize fault size wasActive (process none none none fstab copy n) =
      process (restored size (some ((allocated size).setActive (wasActive && !fault.fails n))))
        none none fstab copy n' := by
  have hcreate : ∀ p, createSwapfile fault p .swapfile size =
      (true, p.put .swapfile (some (allocated size))) := fun p =>
    createSwapfile_other (by simp [h]) (by simp [h]) (by simp [h])
  by_cases hsize : 0 < size
  · rw [recreateSwapfile.restoreSize, if_pos hsize, restored, if_pos hsize, hcreate, put_swapfile]
    cases wasActive with
    | false => exact ⟨n, rfl⟩
    | true =>
      refine ⟨n + 1, ?_⟩
      cases hfails : fault.fails n with
      | false => simp [swapon, call, h, hfails]
      | true => simp [swapon, call, h, hfails, allocated]
  · exact ⟨n, by rw [recreateSwapfile.restoreSize, if_neg hsize, restored,
      if_neg hsize]⟩

theorem recreate_swapon (h : fault.command = .swapon) :
    ∃ n, recreateSwapfile fault (process (old.map .regular) none none fstab copy 0) length size =
      if fault.fails 1 then
        (some recreated, process (restored size (some ((allocated size).setActive
          (isActive (old.map .regular) && !fault.fails 0 && !fault.fails 2))))
          none none fstab copy n)
      else
        (none, process (some (switchedOn length)) none none fstab copy n) := by
  have hcreate : ∀ p, createSwapfile fault p .swapfile length =
      (true, p.put .swapfile (some (allocated length))) := fun p =>
    createSwapfile_other (by simp [h]) (by simp [h]) (by simp [h])
  have hreleased : recreateSwapfile fault (process (old.map .regular) none none fstab copy 0)
      length size =
      match createAndActivate fault (process none none none fstab copy 1) length with
      | (true, p) => (none, p)
      | (false, p) => (some recreated, recreateSwapfile.restoreSize fault size
          (isActive (old.map .regular) && !fault.fails 0)
          ((swapoff fault .swapfile p).2.rm .swapfile)) := by
    simp only [recreateSwapfile, swapfileIsActive_swapon h, process_swapfile, process_calls,
      mk_process]
    have hswapoff : ∀ p, call fault p .swapoff = (true, p) := fun _ => call_other (by simp [h])
    cases isActive (old.map .regular) && !fault.fails 0
    · simp only [Bool.false_eq_true, if_false, Process.rm, put_swapfile]
      rfl
    · simp only [if_true, swapoff, hswapoff, Process.rm, put_swapfile]
      rfl
  rw [hreleased, createAndActivate, hcreate, put_swapfile]
  split_ifs with hfails
  · obtain ⟨n, hn⟩ := @restoreSize_swapon fault fstab copy size 2
      (isActive (old.map .regular) && !fault.fails 0) h
    refine ⟨n, ?_⟩
    rw [← hn]
    simp [swapon, swapoff, call, h, hfails, Process.rm]
  · exact ⟨2, by simp [swapon, call, h, hfails, switchedOn]⟩

end Recreation

section Outcomes

variable {fault : Fault} {m : Machine} {sizeGib n : ℕ} {exit : Exit} {old : Option File}
  {file : File} {node temporary backup : Option Node} {copy : Option Bytes}

/-- The end of one of the two ways. -/
def Settles (sizeGib : ℕ) (m : Machine) (switched : Option Exit × Process) : Prop :=
  AllOrNothing sizeGib m (finish switched).1 (finish switched).2.toMachine

theorem settles_done :
    Settles sizeGib m (none, process (some (switchedOn (sizeGib * GIB))) none none m.fstab copy n) ↔
      RoomForEntry m.fstab := by
  have hensure : ∀ m' : Machine, (ensureSwapfileFstabEntry m').nodes = m'.nodes := by
    intro m'
    unfold ensureSwapfileFstabEntry
    split_ifs
    · rfl
    · rfl
  have hlisted := @listed_ensure_iff
    (process (some (switchedOn (sizeGib * GIB))) none none m.fstab copy n).toMachine
  rw [process_fstab] at hlisted
  rw [← hlisted]
  constructor
  · exact fun h => (h.done rfl).2.2
  · intro h
    refine ⟨fun _ => ⟨?_, ?_, h⟩, fun hcode => absurd rfl hcode, ?_⟩
    · rw [finish, hensure]
      rfl
    · rw [finish, hensure]
      rfl
    · rw [finish, hensure]
      exact ⟨rfl, rfl⟩

theorem settles_failed (h : exit.code ≠ 0) :
    Settles sizeGib m (some exit, process node temporary backup m.fstab copy n) ↔
      outline node = outline (m.nodes .swapfile) ∧ temporary = none ∧ backup = none := by
  constructor
  · exact fun h' => ⟨(h'.kept h).1, h'.noLeftover⟩
  · exact fun h' => ⟨fun hcode => absurd hcode h, fun _ => ⟨h'.1, rfl⟩, h'.2⟩

theorem settles_errexit :
    Settles sizeGib m (some errexit, process node temporary backup m.fstab copy n) ↔
      outline node = outline (m.nodes .swapfile) ∧ temporary = none ∧ backup = none :=
  settles_failed Nat.one_ne_zero

theorem settles_recreated :
    Settles sizeGib m (some recreated, process node none none m.fstab copy n) ↔
      outline node = outline (m.nodes .swapfile) := by
  rw [settles_failed Nat.one_ne_zero, and_iff_left ⟨rfl, rfl⟩]

/-- The file made again is the old one when it is switched on as that was. -/
theorem outline_restored {active : Bool} :
    outline (restored file.size (some ((allocated file.size).setActive active))) =
      outline (some (.regular file)) ↔ 0 < file.size ∧ active = file.active := by
  unfold restored
  split_ifs with hsize
  · simp [outline, allocated, hsize]
  · simp [outline, hsize]

theorem outline_partial {left : Option ℕ} :
    outline (restored file.size (left.map allocated)) = outline (some (.regular file)) ↔
      0 < file.size ∧ left = some file.size ∧ file.active = false := by
  unfold restored
  split_ifs with hsize
  · cases left with
    | none => simp [outline]
    | some left =>
      simp only [Option.map_some, outline, allocated, hsize, true_and, Option.some.injEq,
        Node.regular.injEq, File.mk.injEq, eq_comm (a := false)]
  · simp [outline, hsize]

theorem replacement_iff (hnode : m.nodes .swapfile = old.map .regular) :
    Settles sizeGib m (replaceSwapfile fault
      (process (old.map .regular) none none m.fstab copy 0) (sizeGib * GIB)) ↔
      ReplacementWithstands fault m := by
  cases h : fault.command with
  | fallocate =>
    rw [replace_fallocate h]
    simp only [ReplacementWithstands, h]
    split_ifs with hfails
    · rw [settles_errexit, hnode]
      simp
    · exact settles_done
  | chmod =>
    rw [replace_checked (.inl h)]
    simp only [ReplacementWithstands, h]
    split_ifs with hfails
    · simp [settles_errexit, hfails]
    · simp [settles_done, hfails]
  | mkswap =>
    rw [replace_checked (.inr h)]
    simp only [ReplacementWithstands, h]
    split_ifs with hfails
    · simp [settles_errexit, hfails]
    · simp [settles_done, hfails]
  | swapon =>
    obtain ⟨n, hrun⟩ := @replace_swapon fault old m.fstab copy (sizeGib * GIB) h
    rw [hrun]
    simp only [ReplacementWithstands, h]
    split_ifs with hfails
    · rw [settles_failed Nat.one_ne_zero, hnode]
      rcases old with _ | ⟨size, blocks, _ | _⟩
      · simp
      · simp
      · simp [outline]
    · exact settles_done
  | swapoff =>
    obtain ⟨n, hrun⟩ := @replace_swapoff fault old m.fstab copy (sizeGib * GIB) h
    rw [hrun]
    simp only [ReplacementWithstands, h, hnode]
    split_ifs with hfails
    · simp [settles_failed, hnode, hfails]
    · simp only [settles_done, hfails, false_or]
  | mv =>
    simp only [ReplacementWithstands, h, hnode]
    cases old with
    | none =>
      rw [Option.map_none, replace_mv_none h]
      split_ifs with hfails
      · simp [settles_errexit, hfails]
      · simp [settles_done, hfails]
    | some file =>
      rw [Option.map_some, replace_mv_some h]
      split_ifs with hfails hfails'
      · simp [settles_errexit, hfails]
      · simp [settles_errexit, hfails']
      · simp [settles_done, hfails, hfails']

theorem settles_restored (hnode : m.nodes .swapfile = old.map .regular) :
    Settles sizeGib m (some recreated, process (restored (sizeOf (old.map .regular)) node) none none
      m.fstab copy n) ↔
      ∀ file, old = some file →
        outline (restored file.size node) = outline (some (.regular file)) := by
  rw [settles_recreated, hnode]
  cases old with
  | none => simp [restored, sizeOf, outline]
  | some file => simp

theorem recreation_checked (hnode : m.nodes .swapfile = old.map .regular)
    (h : fault.command = .chmod ∨ fault.command = .mkswap) :
    Settles sizeGib m (recreateSwapfile fault
      (process (old.map .regular) none none m.fstab copy 0) (sizeGib * GIB)
      (sizeOf (old.map .regular))) ↔
      if fault.fails 0 then
        ∀ file, old = some file → 0 < file.size ∧ (fault.fails 1 = true → file.active = false)
      else
        RoomForEntry m.fstab := by
  obtain ⟨n, hrun⟩ := @recreate_checked fault old m.fstab copy (sizeGib * GIB)
    (sizeOf (old.map .regular)) h
  rw [hrun]
  by_cases hfails : fault.fails 0
  · rw [if_pos hfails, if_pos hfails, settles_restored hnode]
    refine forall₂_congr fun file hfile => ?_
    rw [hfile, Option.map_some, isActive_regular, sizeOf_regular, outline_restored]
    cases file.active <;> cases fault.fails 1 <;> simp
  · rw [if_neg hfails, if_neg hfails]
    exact settles_done

theorem recreation_iff (hnode : m.nodes .swapfile = old.map .regular) :
    Settles sizeGib m (recreateSwapfile fault
      (process (old.map .regular) none none m.fstab copy 0) (sizeGib * GIB)
      (sizeOf (old.map .regular))) ↔
      RecreationWithstands fault m := by
  have hold : ∀ file, m.nodes .swapfile = some (.regular file) ↔ old = some file := by
    intro file
    rw [hnode]
    cases old with
    | none => simp
    | some file => simp
  cases h : fault.command with
  | fallocate =>
    obtain ⟨n, hrun⟩ := @recreate_fallocate fault old m.fstab copy (sizeGib * GIB)
      (sizeOf (old.map .regular)) h
    rw [hrun]
    simp only [RecreationWithstands, h, hold]
    by_cases hfails : fault.fails 0
    · rw [if_pos hfails, if_pos hfails, settles_restored hnode]
      refine forall₂_congr fun file hfile => ?_
      rw [hfile, Option.map_some, isActive_regular, sizeOf_regular]
      by_cases hagain : fault.fails 1
      · rw [if_pos hagain, outline_partial, forall_prop_of_true hagain]
      · rw [if_neg hagain, outline_restored]
        simp [hagain]
    · rw [if_neg hfails, if_neg hfails]
      exact settles_done
  | chmod =>
    simp only [RecreationWithstands, h, hold]
    exact recreation_checked hnode (.inl h)
  | mkswap =>
    simp only [RecreationWithstands, h, hold]
    exact recreation_checked hnode (.inr h)
  | swapon =>
    obtain ⟨n, hrun⟩ := @recreate_swapon fault old m.fstab copy (sizeGib * GIB)
      (sizeOf (old.map .regular)) h
    rw [hrun]
    simp only [RecreationWithstands, h, hold]
    by_cases hfails : fault.fails 1
    · rw [if_pos hfails, if_pos hfails, settles_restored hnode]
      refine forall₂_congr fun file hfile => ?_
      rw [hfile, Option.map_some, isActive_regular, sizeOf_regular, outline_restored]
      cases file.active <;> cases fault.fails 0 <;> simp
    · rw [if_neg hfails, if_neg hfails]
      exact settles_done
  | swapoff =>
    obtain ⟨n, hrun⟩ := @recreate_swapoff fault old m.fstab copy (sizeGib * GIB)
      (sizeOf (old.map .regular)) h
    rw [hrun]
    simp only [RecreationWithstands, h, hnode]
    split_ifs with hfails
    · simp [settles_failed, hnode, hfails]
    · simp only [settles_done, hfails, false_or]
  | mv =>
    rw [recreate_mv h]
    simp only [RecreationWithstands, h]
    exact settles_done

theorem checkSwapfile_code (h : checkSwapfile m = some exit) : exit.code = 1 := by
  unfold checkSwapfile at h
  split_ifs at h
  · exact Option.some.inj h ▸ rfl
  · exact Option.some.inj h ▸ rfl

theorem checkFilesystem_code {filesystem : String} (h : checkFilesystem filesystem = some exit) :
    exit.code = 1 := by
  unfold checkFilesystem at h
  split_ifs at h
  · exact Option.some.inj h ▸ rfl
  · exact Option.some.inj h ▸ rfl

theorem checkSpace_code {root : Root} (h : checkSpace root sizeGib m = some exit) :
    exit.code = 1 := by
  unfold checkSpace at h
  split_ifs at h
  exact Option.some.inj h ▸ rfl

/-- What passes is a regular file, or nothing. -/
theorem checkSwapfile_none (h : checkSwapfile m = none) :
    ∃ old : Option File, m.nodes .swapfile = old.map .regular := by
  rcases hnode : m.nodes .swapfile with _ | ⟨file⟩ | ⟨dangling⟩ | _
  · exact ⟨none, rfl⟩
  · exact ⟨some file, rfl⟩
  · simp [checkSwapfile, hnode, isSymlink] at h
  · simp [checkSwapfile, hnode, isSymlink, isFile, pathExists] at h

theorem refused (htemporary : m.nodes .temporary = none) (hbackup : m.nodes .backup = none)
    (h : exit.code = 1) : AllOrNothing sizeGib m exit m :=
  ⟨fun hcode => by omega, fun _ => ⟨rfl, rfl⟩, htemporary, hbackup⟩

/-- A resize is all or nothing just when its way withstands the calls that fail. -/
theorem resize_all_or_nothing_iff {root : Root} (hsize : 1 ≤ sizeGib ∧ sizeGib ≤ 64)
    (htemporary : m.nodes .temporary = none) (hbackup : m.nodes .backup = none) :
    AllOrNothing sizeGib m (swapfileResize fault root sizeGib ⟨m, 0⟩).1
      (swapfileResize fault root sizeGib ⟨m, 0⟩).2.toMachine ↔
      Withstands fault root sizeGib m := by
  rw [swapfileResize, if_neg (Nat.not_lt.mpr hsize.2)]
  cases hswapfile : checkSwapfile m with
  | some exit =>
    refine iff_of_true (refused htemporary hbackup (checkSwapfile_code hswapfile)) (.inl ?_)
    simp [refusal, hswapfile]
  | none =>
    simp only [if_neg (Nat.ne_of_gt hsize.1)]
    cases hfilesystem : checkFilesystem root.filesystem with
    | some exit =>
      refine iff_of_true (refused htemporary hbackup (checkFilesystem_code hfilesystem)) (.inl ?_)
      simp [refusal, hswapfile, hfilesystem]
    | none =>
      cases hspace : checkSpace root sizeGib m with
      | some exit =>
        refine iff_of_true (refused htemporary hbackup (checkSpace_code hspace)) (.inl ?_)
        simp [refusal, hswapfile, hfilesystem, hspace]
      | none =>
        have hstale : checkStale m = none := by
          simp [checkStale, htemporary, hbackup]
        have hrefusal : refusal root sizeGib m = none := by
          simp [refusal, hswapfile, hfilesystem, hspace]
        obtain ⟨old, hnode⟩ := checkSwapfile_none hswapfile
        have hstart := exists_process m htemporary hbackup
        rw [hnode] at hstart
        rw [Withstands, or_iff_right (not_not_intro hrefusal)]
        simp only [hstale, hstart]
        by_cases havailable : sizeGib * GIB + ROOT_RESERVE_BYTES ≤ root.availableBytes
        · rw [if_pos havailable, if_pos havailable]
          exact replacement_iff hnode
        · rw [if_neg havailable, if_neg havailable, hnode]
          exact recreation_iff hnode

end Outcomes

/-! ## A first swap file of one gibibyte -/

def bare : Machine := ⟨fun _ => none, [], none⟩

def roomy : Root := ⟨"ext4", 100 * GIB⟩

def failing (command : Command) (n : ℕ) : Fault :=
  ⟨command, fun call => call == n, fun _ => none⟩

/-- The swap file cannot be activated, and is away again. -/
theorem bare_withstands_swapon :
    AllOrNothing 1 bare (swapfileResize (failing .swapon 1) roomy 1 ⟨bare, 0⟩).1
      (swapfileResize (failing .swapon 1) roomy 1 ⟨bare, 0⟩).2.toMachine := by
  refine (resize_all_or_nothing_iff ⟨le_rfl, by decide⟩ rfl rfl).mpr (.inr ?_)
  rw [if_pos (by decide)]
  exact fun h => absurd h (by decide)

/-- The file whose mode cannot be set stays, and the next resize is refused. -/
theorem chmod_leaves_temporary :
    let left := (swapfileResize (failing .chmod 0) roomy 1 ⟨bare, 0⟩).2.toMachine
    left.nodes .temporary ≠ none ∧
      (swapfileResize (failing .chmod 1) roomy 1 ⟨left, 0⟩).1 = ⟨1,
        "/swapfile.synos-new already exists; remove the stale temporary file first"⟩ ∧
      ¬ AllOrNothing 1 bare (swapfileResize (failing .chmod 0) roomy 1 ⟨bare, 0⟩).1 left := by
  intro left
  have hleft : left.nodes .temporary ≠ none := by decide +kernel
  exact ⟨hleft, by decide +kernel, fun h => hleft h.noLeftover.1⟩

end SwapControl
