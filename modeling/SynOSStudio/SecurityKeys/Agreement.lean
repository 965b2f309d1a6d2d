import SynOSStudio.SecurityKeys.Helper

/-!
# Agreement of the mapping files with the metadata

The managed block of a PAM file, the state that each command ends in, and what a
completed repair restores after a command that was killed.
-/

namespace SecurityKeys

open InterruptiblePrograms

section Pam

variable {purpose : Purpose} {lines rest : List String}

/-- Lines that do not start a managed block. -/
def Unmarked (purpose : Purpose) (lines : List String) : Prop :=
  ∀ line ∈ lines, line ≠ marker purpose ∧ line ≠ "# Managed by synos-yubikey-manager"

theorem unmarked_unmanaged (purpose : Purpose) (skipNext : Bool) (lines : List String) :
    Unmarked purpose (unmanaged purpose skipNext lines) := by
  induction lines generalizing skipNext with
  | nil => exact fun _ h => absurd h List.not_mem_nil
  | cons line rest ih =>
    unfold unmanaged
    split
    · exact ih true
    · rename_i hmarker
      split
      · exact ih false
      · intro l hl
        rcases List.mem_cons.mp hl with rfl | hmem
        · exact not_or.mp hmarker
        · exact ih false l hmem

theorem unmanaged_append (h : Unmarked purpose lines) :
    unmanaged purpose false (lines ++ rest) = lines ++ unmanaged purpose false rest := by
  induction lines with
  | nil => rfl
  | cons line tail ih =>
    have hline := h line List.mem_cons_self
    rw [List.cons_append, unmanaged, if_neg (not_or.mpr hline)]
    simp only [Bool.false_and, Bool.false_eq_true, if_false]
    rw [ih fun l hl => h l (List.mem_cons_of_mem line hl)]
    rfl

theorem unmanaged_of_unmarked (h : Unmarked purpose lines) :
    unmanaged purpose false lines = lines := by
  have happend : unmanaged purpose false (lines ++ []) = lines ++ unmanaged purpose false [] :=
    unmanaged_append h
  rwa [List.append_nil, unmanaged, List.append_nil] at happend

/-- The managed line is told apart from the other lines that the helper writes. -/
theorem pamLine_distinct (purpose : Purpose) :
    (pamLine purpose ≠ marker purpose ∧ pamLine purpose ≠ "# Managed by synos-yubikey-manager" ∧
      pamLine purpose ≠ "") ∧
      occursIn "pam_u2f.so" (pamLine purpose) = true ∧
      unmanaged purpose false [""] = [""] := by
  cases purpose <;> decide +kernel

theorem pamLine_unmarked (purpose : Purpose) :
    ¬ (pamLine purpose = marker purpose ∨ pamLine purpose = "# Managed by synos-yubikey-manager") := by
  obtain ⟨⟨hmarker, hmanaged, -⟩, -⟩ := pamLine_distinct purpose
  exact not_or.mpr ⟨hmarker, hmanaged⟩

theorem pamLine_names_module (purpose : Purpose) :
    occursIn "pam_u2f.so" (pamLine purpose) = true :=
  (pamLine_distinct purpose).2.1

theorem pamLine_not_mem_empty (purpose : Purpose) : pamLine purpose ∉ writtenLines [] := by
  intro hmem
  exact (pamLine_distinct purpose).1.2.2 (List.mem_singleton.mp hmem)

theorem unmanaged_block (purpose : Purpose) (rest : List String) :
    unmanaged purpose false (marker purpose :: pamLine purpose :: rest) =
      unmanaged purpose false rest := by
  rw [unmanaged, if_pos (Or.inl rfl), unmanaged, if_neg (pamLine_unmarked purpose),
    pamLine_names_module]
  rfl

/-- Reading back a file with the managed block gives the lines around it. -/
theorem unmanaged_withManaged (h : Unmarked purpose lines) :
    unmanaged purpose false (withManaged purpose lines) = lines := by
  unfold withManaged
  generalize lines.findIdx (occursIn "common-auth") = position
  have htake : Unmarked purpose (lines.take position) := fun l hl => h l (List.mem_of_mem_take hl)
  have hdrop : Unmarked purpose (lines.drop position) := fun l hl => h l (List.mem_of_mem_drop hl)
  rw [List.append_assoc, unmanaged_append htake, List.cons_append, List.singleton_append,
    unmanaged_block, unmanaged_of_unmarked hdrop, List.take_append_drop]

/-- What a PAM file holds besides the managed block does not name the managed line. -/
def CleanPam (purpose : Purpose) (lines : List String) : Prop :=
  pamLine purpose ∉ unmanaged purpose false lines

/-- The lines that `ensurePam` writes. -/
def ensuredLines (purpose : Purpose) (enabled : Bool) (lines : List String) : List String :=
  writtenLines (if enabled then withManaged purpose (unmanaged purpose false lines)
    else unmanaged purpose false lines)

theorem unmanaged_writtenLines {lines : List String} (hclean : CleanPam purpose lines) :
    CleanPam purpose (writtenLines lines) := by
  cases lines with
  | nil =>
    have hkept : unmanaged purpose false (writtenLines []) = writtenLines [] :=
      (pamLine_distinct purpose).2.2
    unfold CleanPam
    rw [hkept]
    exact pamLine_not_mem_empty purpose
  | cons line rest => exact hclean

theorem CleanPam.ensured (h : CleanPam purpose lines) (enabled : Bool) :
    CleanPam purpose (ensuredLines purpose enabled lines) := by
  have hunmarked := unmarked_unmanaged purpose false lines
  apply unmanaged_writtenLines
  unfold CleanPam
  cases enabled with
  | false =>
    simp only [Bool.false_eq_true, if_false]
    rw [unmanaged_of_unmarked hunmarked]
    exact h
  | true =>
    simp only [if_true]
    rw [unmanaged_withManaged hunmarked]
    exact h

theorem count_writtenLines (lines : List String) :
    (writtenLines lines).count (pamLine purpose) = lines.count (pamLine purpose) := by
  cases lines with
  | nil => exact List.count_eq_zero.mpr (pamLine_not_mem_empty purpose)
  | cons line rest => rfl

theorem count_withManaged (h : pamLine purpose ∉ lines) :
    (withManaged purpose lines).count (pamLine purpose) = 1 := by
  have hnone : lines.count (pamLine purpose) = 0 := List.count_eq_zero.mpr h
  have hblock : [marker purpose, pamLine purpose].count (pamLine purpose) = 1 := by
    rw [List.count_cons_of_ne (pamLine_distinct purpose).1.1.symm, List.count_singleton_self]
  have hsplit := congrArg (List.count (pamLine purpose))
    (List.take_append_drop (lines.findIdx (occursIn "common-auth")) lines)
  rw [List.count_append, hnone] at hsplit
  unfold withManaged
  rw [List.count_append, List.count_append, hblock]
  omega

/-- The managed line stands in the written file once or not at all. -/
theorem count_ensuredLines (h : CleanPam purpose lines) (enabled : Bool) :
    (ensuredLines purpose enabled lines).count (pamLine purpose) = if enabled then 1 else 0 := by
  unfold ensuredLines
  rw [count_writtenLines]
  cases enabled with
  | false => exact List.count_eq_zero.mpr h
  | true => exact count_withManaged h

end Pam

section Commands

variable {sys : System} {h : Host} {purpose : Purpose} {username serial credential : String}

/-- An entry that passes the checks of the helper. -/
def Enrollment.Valid (sys : System) (e : Enrollment) : Prop :=
  validateCommon sys e.username e.serial = .ok () ∧ CREDENTIAL_RE e.credential = true

/-- What every command keeps, wherever it is killed: a repair can do its work. -/
structure Repairable (sys : System) (h : Host) : Prop where
  valid : ∀ e ∈ h.metadata.enrollments, e.Valid sys
  pam : ∀ purpose, CleanPam purpose (h.pam purpose)

def Host.withMappings (h : Host) (purpose : Purpose) (mappings : Mappings) : Host :=
  { h with mappings := Function.update h.mappings purpose mappings }

def Host.withMetadata (h : Host) (metadata : Metadata) : Host :=
  { h with metadata := metadata }

def Host.withSudoState (h : Host) (users : List String) : Host :=
  { h with sudoState := users }

/-- The host after `ensurePam`. -/
def Host.ensured (h : Host) (purpose : Purpose) (enabled : Bool) : Host :=
  { h with pam := Function.update h.pam purpose (ensuredLines purpose enabled (h.pam purpose)) }

theorem Repairable.withMappings (hr : Repairable sys h) (purpose : Purpose) (mappings : Mappings) :
    Repairable sys (h.withMappings purpose mappings) := ⟨hr.valid, hr.pam⟩

theorem Repairable.withMetadata (hr : Repairable sys h) {metadata : Metadata}
    (hvalid : ∀ e ∈ metadata.enrollments, e.Valid sys) :
    Repairable sys (h.withMetadata metadata) := ⟨hvalid, hr.pam⟩

theorem Repairable.ensured (hr : Repairable sys h) (enabled : Bool) :
    Repairable sys (h.ensured purpose enabled) := by
  refine ⟨hr.valid, fun p => ?_⟩
  show CleanPam p (Function.update h.pam purpose _ p)
  by_cases hp : p = purpose
  · subst hp
    rw [Function.update_self]
    exact (hr.pam p).ensured enabled
  · rw [Function.update_of_ne hp]
    exact hr.pam p

/-- The host after `store`. -/
def Host.stored (h : Host) (metadata : Metadata) (purpose : Purpose) (mappings : Mappings) : Host :=
  ((h.withMappings purpose mappings).withMetadata metadata).ensured purpose
    (metadata.enrollments.any fun e => e.purpose == purpose)

theorem keeps_store {metadata : Metadata} {mappings : Mappings} (hr : Repairable sys h)
    (hvalid : ∀ e ∈ metadata.enrollments, e.Valid sys) :
    Keeps Host.handle (fun _ => True) (Repairable sys) (store metadata purpose mappings).run
      (fun _ h' => Repairable sys h') h :=
  have hmapped := hr.withMappings purpose mappings
  have hstored := hmapped.withMetadata hvalid
  ⟨hr, fun _ _ => ⟨hmapped, fun _ _ => ⟨hstored, fun _ _ => ⟨hstored, fun _ _ =>
    hstored.ensured _⟩⟩⟩⟩

def enrolledMetadata (m : Metadata) (purpose : Purpose) (username serial credential : String) :
    Metadata :=
  { m with enrollments := enrolledEntries m.enrollments purpose username serial credential }

def removedMetadata (m : Metadata) (purpose : Purpose) (username serial : String) : Metadata :=
  { m with enrollments := m.enrollments.filter fun e => !e.names purpose username serial }

/-- The credentials of the entries of one key. -/
def credentialsOf (entries : List Enrollment) (purpose : Purpose) (username serial : String) :
    List String :=
  (entries.filter fun e => e.names purpose username serial).map Enrollment.credential

def Host.enrolled (h : Host) (purpose : Purpose) (username serial credential : String) : Host :=
  h.stored (enrolledMetadata h.metadata purpose username serial credential) purpose
    ((h.mappings purpose).set username (addCredential (h.mappings purpose username) credential))

def Host.removed (h : Host) (purpose : Purpose) (username serial : String) : Host :=
  h.stored (removedMetadata h.metadata purpose username serial) purpose
    ((h.mappings purpose).set username ((h.mappings purpose username).filter fun c =>
      !(credentialsOf h.metadata.enrollments purpose username serial).contains c))

theorem enroll_eq (hcommon : validateCommon sys username serial = .ok ())
    (hcredential : CREDENTIAL_RE credential = true) :
    enroll sys purpose username serial credential = (do
      let metadata ← HelperProg.readMetadata
      let mappings ← HelperProg.readMappings purpose
      store (enrolledMetadata metadata purpose username serial credential) purpose
        (mappings.set username (addCredential (mappings username) credential))) := by
  unfold enroll
  rw [hcommon, hcredential]
  rfl

theorem remove_eq (hcommon : validateCommon sys username serial = .ok ()) :
    remove sys purpose username serial = (do
      let metadata ← HelperProg.readMetadata
      let mappings ← HelperProg.readMappings purpose
      store (removedMetadata metadata purpose username serial) purpose
        (mappings.set username ((mappings username).filter fun c =>
          !(credentialsOf metadata.enrollments purpose username serial).contains c))) := by
  unfold remove
  rw [hcommon]
  rfl

theorem valid_enrolledEntries {entries : List Enrollment} (hvalid : ∀ e ∈ entries, e.Valid sys)
    (hcommon : validateCommon sys username serial = .ok ())
    (hcredential : CREDENTIAL_RE credential = true) :
    ∀ e ∈ enrolledEntries entries purpose username serial credential, e.Valid sys := by
  unfold enrolledEntries
  split
  · exact hvalid
  · intro e he
    rcases List.mem_append.mp he with hold | hnew
    · exact hvalid e hold
    · rw [List.mem_singleton.mp hnew]
      exact ⟨hcommon, hcredential⟩

theorem validateEntries_ok {entries : List Enrollment} (hvalid : ∀ e ∈ entries, e.Valid sys) :
    validateEntries sys entries purpose = .ok () := by
  unfold validateEntries
  have hfiltered : ∀ e ∈ entries.filter (fun e => e.purpose == purpose), e.Valid sys :=
    fun e he => hvalid e (List.mem_of_mem_filter he)
  revert hfiltered
  generalize entries.filter (fun e => e.purpose == purpose) = filtered
  intro hfiltered
  induction filtered with
  | nil => rfl
  | cons e rest ih =>
    obtain ⟨hcommon, hcredential⟩ := hfiltered e List.mem_cons_self
    rw [List.forM, hcommon, hcredential]
    exact ih fun e' he' => hfiltered e' (List.mem_cons_of_mem e he')

/-- The host after a repair that came to its end. -/
def Host.repaired (h : Host) (sys : System) : Host :=
  let entries := h.metadata.enrollments
  ((((((h.withMappings .gdm (mappingsOf entries .gdm)).ensured .gdm
    (entries.any fun e => e.purpose == .gdm)).withMappings .sudo (mappingsOf entries .sudo)).ensured
      .sudo (entries.any fun e => e.purpose == .sudo)).withSudoState sys.passwordlessUsers).withMetadata
        { h.metadata with passwordlessSudoUsers := sys.passwordlessUsers })

theorem repairPurpose_eq {entries : List Enrollment} (hvalid : ∀ e ∈ entries, e.Valid sys) :
    repairPurpose sys entries purpose = (do
      HelperProg.writeMappings purpose (mappingsOf entries purpose)
      ensurePam purpose (entries.any fun e => e.purpose == purpose)) := by
  unfold repairPurpose
  rw [validateEntries_ok hvalid]
  rfl

theorem keeps_repairPurpose (hr : Repairable sys h) (purpose : Purpose) :
    Keeps Host.handle (fun _ => True) (Repairable sys)
      (repairPurpose sys h.metadata.enrollments purpose).run
      (fun r h' => r = .ok () ∧
        h' = (h.withMappings purpose (mappingsOf h.metadata.enrollments purpose)).ensured purpose
          (h.metadata.enrollments.any fun e => e.purpose == purpose)) h := by
  rw [repairPurpose_eq hr.valid]
  have hmapped := hr.withMappings purpose (mappingsOf h.metadata.enrollments purpose)
  exact ⟨hr, fun _ _ => ⟨hmapped, fun _ _ => ⟨hmapped, fun _ _ => ⟨rfl, rfl⟩⟩⟩⟩

theorem Repairable.repairedPurpose (hr : Repairable sys h) (purpose : Purpose) :
    Repairable sys ((h.withMappings purpose (mappingsOf h.metadata.enrollments purpose)).ensured
      purpose (h.metadata.enrollments.any fun e => e.purpose == purpose)) :=
  (hr.withMappings _ _).ensured _

/-- A repair keeps what it needs, and its end does not depend on the mappings before it. -/
theorem keeps_repairIntegrations (hr : Repairable sys h) :
    Keeps Host.handle (fun _ => True) (Repairable sys) (repairIntegrations sys).run
      (fun r h' => r = .ok () ∧ h' = h.repaired sys) h := by
  refine ⟨hr, fun _ _ => ?_⟩
  refine keeps_attempt_then (keeps_repairPurpose hr .gdm) nofun ?_
  rintro - h₁ ⟨-, rfl⟩
  have hr₁ := hr.repairedPurpose .gdm
  refine keeps_attempt_then (keeps_repairPurpose hr₁ .sudo) nofun ?_
  rintro - h₂ ⟨-, rfl⟩
  have hr₂ := hr₁.repairedPurpose .sudo
  exact ⟨hr₂, fun _ _ => ⟨⟨hr₂.valid, hr₂.pam⟩, fun _ _ => ⟨rfl, rfl⟩⟩⟩

end Commands

end SecurityKeys
