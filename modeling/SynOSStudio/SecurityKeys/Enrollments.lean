import SynOSStudio.SecurityKeys.Agreement

/-!
# Runs of the helper

Any sequence of enroll, remove and repair commands, each completed, or killed between two
of its file operations and followed by a completed repair. The PAM files are right after
each of them; the mapping files agree with the metadata exactly as long as no completed
command enrolls a key again with a new credential or removes a shared one.
-/

namespace SecurityKeys

open InterruptiblePrograms

inductive Command where
  | enroll (purpose : Purpose) (username serial credential : String)
  | remove (purpose : Purpose) (username serial : String)
  | repair

def Command.program (sys : System) : Command → HelperProg Unit
  | .enroll purpose username serial credential => SecurityKeys.enroll sys purpose username serial credential
  | .remove purpose username serial => SecurityKeys.remove sys purpose username serial
  | .repair => repairIntegrations sys

/-- The arguments pass the checks of the helper. -/
def Command.Valid (sys : System) : Command → Prop
  | .enroll _ username serial credential =>
    validateCommon sys username serial = .ok () ∧ CREDENTIAL_RE credential = true
  | .remove _ username serial => validateCommon sys username serial = .ok ()
  | .repair => True

/-- A command, completed or killed after so many file operations. -/
structure Event where
  command : Command
  killedAfter : Option ℕ

def completed (p : HelperProg Unit) (h : Host) : Host :=
  (p.run.runToEnd Host.handle (fun _ => ()) h).2

/-- The host after the command, or after the repair that follows a killed one. -/
def Event.after (sys : System) (e : Event) (h : Host) : Host :=
  match e.killedAfter with
  | none => completed (e.command.program sys) h
  | some n =>
    completed (repairIntegrations sys)
      ((e.command.program sys).run.run Host.handle (List.replicate n ()) h).2

def afterEvents (sys : System) : List Event → Host → Host
  | [], h => h
  | e :: rest, h => afterEvents sys rest (e.after sys h)

/-- No key has been enrolled, and the PAM files do not hold the managed line. -/
structure Host.Fresh (h : Host) : Prop where
  enrollments : h.metadata.enrollments = []
  mappings : ∀ purpose username, h.mappings purpose username = []
  pam : ∀ purpose, pamLine purpose ∉ h.pam purpose

/-- The credentials of a mapping file are those of the entries. -/
def Agreed (h : Host) : Prop :=
  ∀ purpose username credential, credential ∈ h.mappings purpose username ↔
    ∃ e ∈ h.metadata.enrollments, e.purpose = purpose ∧ e.username = username ∧
      e.credential = credential

/-- The managed line stands in a PAM file once if a key is enrolled for its purpose. -/
def PamRight (h : Host) : Prop :=
  ∀ purpose, (h.pam purpose).count (pamLine purpose) =
    if h.metadata.enrollments.any (fun e => e.purpose == purpose) then 1 else 0

/-- After a completed `remove` only credentials of other keys of the user are left. -/
def Revoked (e : Event) (h : Host) : Prop :=
  match e.command, e.killedAfter with
  | .remove purpose username serial, none => ∀ credential ∈ h.mappings purpose username,
      ∃ x ∈ h.metadata.enrollments, x.purpose = purpose ∧ x.username = username ∧
        x.serial ≠ serial ∧ x.credential = credential
  | _, _ => True

/-- A completed `enroll` names a new key, or a credential of the user that is enrolled
already; a completed `remove` takes no credential that another key of the user shares. -/
def Event.Accepted (e : Event) (h : Host) : Prop :=
  match e.command, e.killedAfter with
  | .enroll purpose username serial credential, none =>
    (∀ x ∈ h.metadata.enrollments, x.names purpose username serial = false) ∨
      ∃ x ∈ h.metadata.enrollments, x.purpose = purpose ∧ x.username = username ∧
        x.credential = credential
  | .remove purpose username serial, none =>
    ∀ x ∈ h.metadata.enrollments, x.names purpose username serial = true →
      ∀ y ∈ h.metadata.enrollments, y.purpose = purpose → y.username = username →
        y.names purpose username serial = false → y.credential ≠ x.credential
  | _, _ => True

def EachAccepted (sys : System) : List Event → Host → Prop
  | [], _ => True
  | e :: rest, h => e.Accepted h ∧ EachAccepted sys rest (e.after sys h)

section Entries

variable {entries : List Enrollment} {purpose : Purpose} {username serial credential : String}

theorem Enrollment.names_iff {e : Enrollment} : e.names purpose username serial = true ↔
    e.username = username ∧ e.serial = serial ∧ e.purpose = purpose := by
  simp [Enrollment.names, and_assoc]

theorem mem_addCredential {credentials : List String} {c : String} :
    c ∈ addCredential credentials credential ↔ c ∈ credentials ∨ c = credential := by
  unfold addCredential
  split
  · rename_i hmem
    constructor
    · exact Or.inl
    · rintro (h | rfl)
      · exact h
      · exact hmem
  · rw [List.mem_append, List.mem_singleton]

theorem mem_foldl_addCredential {added credentials : List String} {c : String} :
    c ∈ added.foldl addCredential credentials ↔ c ∈ credentials ∨ c ∈ added := by
  induction added generalizing credentials with
  | nil => simp
  | cons a rest ih =>
    rw [List.foldl_cons, ih, mem_addCredential, List.mem_cons, or_assoc]

theorem mem_mappingsOf : credential ∈ mappingsOf entries purpose username ↔
    ∃ e ∈ entries, e.purpose = purpose ∧ e.username = username ∧ e.credential = credential := by
  unfold mappingsOf
  rw [mem_foldl_addCredential, List.mem_map]
  constructor
  · rintro (h | ⟨e, he, rfl⟩)
    · cases h
    · obtain ⟨hmem, hboth⟩ := List.mem_filter.mp he
      rw [Bool.and_eq_true, beq_iff_eq, beq_iff_eq] at hboth
      exact ⟨e, hmem, hboth.1, hboth.2, rfl⟩
  · rintro ⟨e, he, hpurpose, husername, rfl⟩
    exact Or.inr ⟨e, List.mem_filter.mpr ⟨he, by simp [hpurpose, husername]⟩, rfl⟩

theorem mem_credentialsOf : credential ∈ credentialsOf entries purpose username serial ↔
    ∃ e ∈ entries, e.names purpose username serial = true ∧ e.credential = credential := by
  simp [credentialsOf, and_assoc]

end Entries

section Steps

variable {h : Host} {metadata : Metadata} {mappings : Mappings} {purpose : Purpose}
  {username serial credential : String}

theorem stored_mappings_self : (h.stored metadata purpose mappings).mappings purpose = mappings :=
  Function.update_self _ _ _

theorem stored_mappings_other {p : Purpose} (hp : p ≠ purpose) :
    (h.stored metadata purpose mappings).mappings p = h.mappings p :=
  Function.update_of_ne hp _ _

/-- What another user's or purpose's credentials are left by a stored mapping. -/
theorem stored_set_other {p : Purpose} {u : String} {credentials : List String}
    (hother : ¬ (p = purpose ∧ u = username)) :
    (h.stored metadata purpose ((h.mappings purpose).set username credentials)).mappings p u =
      h.mappings p u := by
  by_cases hp : p = purpose
  · subst hp
    rw [stored_mappings_self]
    exact Function.update_of_ne (fun hu => hother ⟨rfl, hu⟩) _ _
  · rw [stored_mappings_other hp]

theorem stored_set_self {credentials : List String} :
    (h.stored metadata purpose ((h.mappings purpose).set username credentials)).mappings purpose
      username = credentials := by
  rw [stored_mappings_self]
  exact Function.update_self _ _ _

theorem PamRight.stored (hpam : PamRight h) (hclean : ∀ p, CleanPam p (h.pam p))
    (hothers : ∀ p, p ≠ purpose → (metadata.enrollments.any fun e => e.purpose == p) =
      h.metadata.enrollments.any fun e => e.purpose == p) :
    PamRight (h.stored metadata purpose mappings) := by
  intro p
  by_cases hp : p = purpose
  · subst hp
    show (Function.update h.pam p _ p).count (pamLine p) = _
    rw [Function.update_self]
    exact count_ensuredLines (hclean p) _
  · show (Function.update h.pam purpose _ p).count (pamLine p) =
      if metadata.enrollments.any (fun e => e.purpose == p) then 1 else 0
    rw [Function.update_of_ne hp, hothers p hp]
    exact hpam p

theorem any_enrolledEntries {entries : List Enrollment} {p : Purpose} (hp : p ≠ purpose) :
    ((enrolledEntries entries purpose username serial credential).any fun e => e.purpose == p) =
      entries.any fun e => e.purpose == p := by
  unfold enrolledEntries
  split
  · rfl
  · simp [hp.symm]

theorem any_removedEntries {entries : List Enrollment} {p : Purpose} (hp : p ≠ purpose) :
    ((entries.filter fun e => !e.names purpose username serial).any fun e => e.purpose == p) =
      entries.any fun e => e.purpose == p := by
  rw [Bool.eq_iff_iff, List.any_eq_true, List.any_eq_true]
  constructor
  · rintro ⟨e, he, hpurpose⟩
    exact ⟨e, List.mem_of_mem_filter he, hpurpose⟩
  · rintro ⟨e, he, hpurpose⟩
    refine ⟨e, List.mem_filter.mpr ⟨he, ?_⟩, hpurpose⟩
    have hnot : ¬ e.names purpose username serial = true := by
      rw [Enrollment.names_iff]
      rintro ⟨-, -, heq⟩
      exact hp ((eq_of_beq hpurpose).symm.trans heq)
    simpa using hnot

theorem enrolled_entries_new (hnew : ∀ x ∈ h.metadata.enrollments,
    x.names purpose username serial = false) :
    (h.enrolled purpose username serial credential).metadata.enrollments =
      h.metadata.enrollments ++ [⟨username, serial, purpose, credential⟩] := by
  have hany : (h.metadata.enrollments.any fun e => e.names purpose username serial) = false := by
    rw [List.any_eq_false]
    exact fun x hx => by simp [hnew x hx]
  show enrolledEntries _ _ _ _ _ = _
  unfold enrolledEntries
  rw [hany]
  rfl

theorem enrolled_entries_known {x : Enrollment} (hx : x ∈ h.metadata.enrollments)
    (hnames : x.names purpose username serial = true) :
    (h.enrolled purpose username serial credential).metadata.enrollments =
      h.metadata.enrollments := by
  show enrolledEntries _ _ _ _ _ = _
  unfold enrolledEntries
  rw [if_pos (List.any_eq_true.mpr ⟨x, hx, hnames⟩)]

/-- The credentials listed after a completed `enroll`. -/
theorem mem_enrolled_mappings {p : Purpose} {u c : String} :
    c ∈ (h.enrolled purpose username serial credential).mappings p u ↔
      c ∈ h.mappings p u ∨ (p = purpose ∧ u = username) ∧ c = credential := by
  unfold Host.enrolled
  by_cases hsame : p = purpose ∧ u = username
  · obtain ⟨rfl, rfl⟩ := hsame
    rw [stored_set_self, mem_addCredential]
    simp
  · rw [stored_set_other hsame]
    simp [hsame]

theorem agreed_enrolled_new (hagreed : Agreed h)
    (hnew : ∀ x ∈ h.metadata.enrollments, x.names purpose username serial = false) :
    Agreed (h.enrolled purpose username serial credential) := by
  intro p u c
  rw [enrolled_entries_new hnew, mem_enrolled_mappings, hagreed p u c]
  constructor
  · rintro (⟨e, he, hfound⟩ | ⟨⟨rfl, rfl⟩, rfl⟩)
    · exact ⟨e, List.mem_append_left _ he, hfound⟩
    · exact ⟨_, List.mem_append_right _ (List.mem_singleton_self _), rfl, rfl, rfl⟩
  · rintro ⟨e, he, hp, hu, hc⟩
    rcases List.mem_append.mp he with hold | hadded
    · exact Or.inl ⟨e, hold, hp, hu, hc⟩
    · rw [List.mem_singleton.mp hadded] at hp hu hc
      exact Or.inr ⟨⟨hp.symm, hu.symm⟩, hc.symm⟩

theorem agreed_enrolled_known_iff (hagreed : Agreed h) {x : Enrollment}
    (hx : x ∈ h.metadata.enrollments) (hnames : x.names purpose username serial = true) :
    Agreed (h.enrolled purpose username serial credential) ↔
      ∃ x ∈ h.metadata.enrollments, x.purpose = purpose ∧ x.username = username ∧
        x.credential = credential := by
  have hentries : (h.enrolled purpose username serial credential).metadata.enrollments =
      h.metadata.enrollments := enrolled_entries_known hx hnames
  constructor
  · intro hafter
    rw [← hentries]
    exact (hafter purpose username credential).mp
      (mem_enrolled_mappings.mpr (Or.inr ⟨⟨rfl, rfl⟩, rfl⟩))
  · intro hlisted p u c
    rw [hentries, mem_enrolled_mappings, hagreed p u c]
    constructor
    · rintro (hfound | ⟨⟨rfl, rfl⟩, rfl⟩)
      · exact hfound
      · exact hlisted
    · exact Or.inl

/-- A completed `enroll` keeps the agreement exactly when it adds a new key or no new credential. -/
theorem agreed_enrolled_iff (hagreed : Agreed h) :
    Agreed (h.enrolled purpose username serial credential) ↔
      (∀ x ∈ h.metadata.enrollments, x.names purpose username serial = false) ∨
        ∃ x ∈ h.metadata.enrollments, x.purpose = purpose ∧ x.username = username ∧
          x.credential = credential := by
  by_cases hnew : ∀ x ∈ h.metadata.enrollments, x.names purpose username serial = false
  · exact iff_of_true (agreed_enrolled_new hagreed hnew) (Or.inl hnew)
  · rw [or_iff_right hnew]
    push Not at hnew
    obtain ⟨x, hx, hnames⟩ := hnew
    exact agreed_enrolled_known_iff hagreed hx (by simpa using hnames)

/-- A completed `remove` keeps the agreement exactly when no other key of the user shares a
credential with the removed one. -/
theorem agreed_removed_iff (hagreed : Agreed h) :
    Agreed (h.removed purpose username serial) ↔
      ∀ x ∈ h.metadata.enrollments, x.names purpose username serial = true →
        ∀ y ∈ h.metadata.enrollments, y.purpose = purpose → y.username = username →
          y.names purpose username serial = false → y.credential ≠ x.credential := by
  have hentries : ∀ e, e ∈ (h.removed purpose username serial).metadata.enrollments ↔
      e ∈ h.metadata.enrollments ∧ e.names purpose username serial = false := by
    intro e
    show e ∈ List.filter _ _ ↔ _
    rw [List.mem_filter, Bool.not_eq_true']
  have hlisted : ∀ c, c ∈ (h.removed purpose username serial).mappings purpose username ↔
      c ∈ h.mappings purpose username ∧
        c ∉ credentialsOf h.metadata.enrollments purpose username serial := by
    intro c
    unfold Host.removed
    rw [stored_set_self, List.mem_filter]
    simp
  constructor
  · intro hafter x hx hnames y hy hpurpose husername hkept heq
    have hmem := (hafter purpose username y.credential).mpr
      ⟨y, (hentries y).mpr ⟨hy, hkept⟩, hpurpose, husername, rfl⟩
    exact ((hlisted _).mp hmem).2 (mem_credentialsOf.mpr ⟨x, hx, hnames, heq.symm⟩)
  · intro hapart p u c
    by_cases hsame : p = purpose ∧ u = username
    · obtain ⟨rfl, rfl⟩ := hsame
      rw [hlisted, hagreed p u c]
      constructor
      · rintro ⟨⟨e, he, hp, hu, rfl⟩, hremoved⟩
        have hkept : e.names p u serial = false := by
          by_contra hnames
          exact hremoved (mem_credentialsOf.mpr ⟨e, he, by simpa using hnames, rfl⟩)
        exact ⟨e, (hentries e).mpr ⟨he, hkept⟩, hp, hu, rfl⟩
      · rintro ⟨e, he, hp, hu, rfl⟩
        obtain ⟨hmem, hkept⟩ := (hentries e).mp he
        refine ⟨⟨e, hmem, hp, hu, rfl⟩, fun hremoved => ?_⟩
        obtain ⟨x, hx, hnames, heq⟩ := mem_credentialsOf.mp hremoved
        exact hapart x hx hnames e hmem hp hu hkept heq.symm
    · unfold Host.removed
      rw [stored_set_other hsame, hagreed p u c]
      constructor
      · rintro ⟨e, he, hp, hu, hc⟩
        refine ⟨e, (hentries e).mpr ⟨he, ?_⟩, hp, hu, hc⟩
        by_contra hnames
        obtain ⟨husername, -, hpurpose⟩ := Enrollment.names_iff.mp (by simpa using hnames)
        exact hsame ⟨hp.symm.trans hpurpose, hu.symm.trans husername⟩
      · rintro ⟨e, he, hfound⟩
        exact ⟨e, ((hentries e).mp he).1, hfound⟩

/-- A completed repair makes the mappings agree again. -/
theorem agreed_repaired (sys : System) : Agreed (h.repaired sys) := by
  intro p u c
  cases p with
  | gdm => exact mem_mappingsOf
  | _ => exact mem_mappingsOf

theorem pamRight_repaired {sys : System} (hclean : ∀ p, CleanPam p (h.pam p)) :
    PamRight (h.repaired sys) := by
  intro p
  cases p with
  | gdm => exact count_ensuredLines (hclean .gdm) _
  | _ => exact count_ensuredLines (hclean .sudo) _

end Steps

section Runs

variable {sys : System} {h : Host} {e : Event} {events : List Event}

theorem completed_repair (hr : Repairable sys h) :
    completed (repairIntegrations sys) h = h.repaired sys :=
  ((keeps_repairIntegrations hr).runToEnd (fun _ => ()) fun _ => trivial).2

theorem Repairable.repaired (hr : Repairable sys h) : Repairable sys (h.repaired sys) := by
  have hr' := (hr.repairedPurpose .gdm).repairedPurpose .sudo
  exact ⟨hr'.valid, hr'.pam⟩

/-- Wherever a command is cut off, the host can be repaired. -/
theorem keeps_program {command : Command} (hr : Repairable sys h) (hvalid : command.Valid sys) :
    Keeps Host.handle (fun _ => True) (Repairable sys) (command.program sys).run
      (fun _ h' => Repairable sys h') h := by
  cases command with
  | enroll purpose username serial credential =>
    show Keeps _ _ _ (enroll sys purpose username serial credential).run _ h
    rw [enroll_eq hvalid.1 hvalid.2]
    exact ⟨hr, fun _ _ => ⟨hr, fun _ _ => keeps_store hr
      (valid_enrolledEntries hr.valid hvalid.1 hvalid.2)⟩⟩
  | remove purpose username serial =>
    show Keeps _ _ _ (remove sys purpose username serial).run _ h
    rw [remove_eq hvalid]
    exact ⟨hr, fun _ _ => ⟨hr, fun _ _ => keeps_store hr
      fun x hx => hr.valid x (List.mem_of_mem_filter hx)⟩⟩
  | repair =>
    refine (keeps_repairIntegrations hr).mono ?_
    rintro - h' ⟨-, rfl⟩
    exact hr.repaired

theorem Repairable.killed {command : Command} (hr : Repairable sys h)
    (hvalid : command.Valid sys) (n : ℕ) :
    Repairable sys ((command.program sys).run.run Host.handle (List.replicate n ()) h).2 :=
  (keeps_program hr hvalid).run_inv (fun _ _ hpost => hpost) _ fun _ _ => trivial

theorem completed_enroll {purpose : Purpose} {username serial credential : String}
    (hcommon : validateCommon sys username serial = .ok ())
    (hcredential : CREDENTIAL_RE credential = true) :
    completed (enroll sys purpose username serial credential) h =
      h.enrolled purpose username serial credential := by
  rw [enroll_eq hcommon hcredential]
  rfl

theorem completed_remove {purpose : Purpose} {username serial : String}
    (hcommon : validateCommon sys username serial = .ok ()) :
    completed (remove sys purpose username serial) h = h.removed purpose username serial := by
  rw [remove_eq hcommon]
  rfl

theorem Repairable.after (hr : Repairable sys h) (hvalid : e.command.Valid sys) :
    Repairable sys (e.after sys h) := by
  unfold Event.after
  cases e.killedAfter with
  | none => exact (keeps_program hr hvalid).runToEnd (fun _ => ()) fun _ => trivial
  | some n =>
    show Repairable sys (completed _ _)
    rw [completed_repair (hr.killed hvalid n)]
    exact (hr.killed hvalid n).repaired

theorem PamRight.after (hpam : PamRight h) (hr : Repairable sys h) (hvalid : e.command.Valid sys) :
    PamRight (e.after sys h) := by
  unfold Event.after
  cases e.killedAfter with
  | some n =>
    show PamRight (completed _ _)
    rw [completed_repair (hr.killed hvalid n)]
    exact pamRight_repaired (hr.killed hvalid n).pam
  | none =>
    show PamRight (completed _ _)
    obtain ⟨command, killedAfter⟩ := e
    cases command with
    | enroll purpose username serial credential =>
      show PamRight (completed (enroll sys purpose username serial credential) h)
      rw [completed_enroll hvalid.1 hvalid.2]
      exact hpam.stored hr.pam fun p hp => any_enrolledEntries hp
    | remove purpose username serial =>
      show PamRight (completed (remove sys purpose username serial) h)
      rw [completed_remove hvalid]
      exact hpam.stored hr.pam fun p hp => any_removedEntries hp
    | repair =>
      show PamRight (completed (repairIntegrations sys) h)
      rw [completed_repair hr]
      exact pamRight_repaired hr.pam

/-- One event keeps the agreement exactly when it is accepted. -/
theorem agreed_after_iff (hagreed : Agreed h) (hr : Repairable sys h)
    (hvalid : e.command.Valid sys) : Agreed (e.after sys h) ↔ e.Accepted h := by
  obtain ⟨command, killedAfter⟩ := e
  cases killedAfter with
  | some n =>
    refine iff_of_true ?_ ?_
    · show Agreed (completed _ _)
      rw [completed_repair (hr.killed hvalid n)]
      exact agreed_repaired sys
    · cases command <;> trivial
  | none =>
    cases command with
    | enroll purpose username serial credential =>
      show Agreed (completed (enroll sys purpose username serial credential) h) ↔ _
      rw [completed_enroll hvalid.1 hvalid.2]
      exact agreed_enrolled_iff hagreed
    | remove purpose username serial =>
      show Agreed (completed (remove sys purpose username serial) h) ↔ _
      rw [completed_remove hvalid]
      exact agreed_removed_iff hagreed
    | repair =>
      show Agreed (completed (repairIntegrations sys) h) ↔ _
      rw [completed_repair hr]
      exact iff_of_true (agreed_repaired sys) trivial

theorem unmanaged_sublist (purpose : Purpose) (skipNext : Bool) (lines : List String) :
    (unmanaged purpose skipNext lines).Sublist lines := by
  induction lines generalizing skipNext with
  | nil => exact List.Sublist.refl _
  | cons line rest ih =>
    unfold unmanaged
    split
    · exact (ih true).cons _
    · split
      · exact (ih false).cons _
      · exact (ih false).cons_cons _

theorem Host.Fresh.repairable (hfresh : h.Fresh) : Repairable sys h where
  valid x hx := by
    rw [hfresh.enrollments] at hx
    cases hx
  pam purpose hmem := hfresh.pam purpose ((unmanaged_sublist purpose false _).subset hmem)

theorem Host.Fresh.agreed (hfresh : h.Fresh) : Agreed h := by
  intro p u c
  rw [hfresh.mappings, hfresh.enrollments]
  exact iff_of_false List.not_mem_nil fun ⟨_, hx, _⟩ => List.not_mem_nil hx

theorem Host.Fresh.pamRight (hfresh : h.Fresh) : PamRight h := by
  intro p
  rw [hfresh.enrollments, List.count_eq_zero.mpr (hfresh.pam p)]
  rfl

theorem Agreed.revoked (hagreed : Agreed (e.after sys h)) (hvalid : e.command.Valid sys) :
    Revoked e (e.after sys h) := by
  obtain ⟨command, killedAfter⟩ := e
  cases command with
  | enroll => trivial
  | repair => trivial
  | remove purpose username serial =>
    cases killedAfter with
    | some n => trivial
    | none =>
      have hremoved : Event.after sys ⟨.remove purpose username serial, none⟩ h =
          h.removed purpose username serial := completed_remove hvalid
      rw [hremoved] at hagreed ⊢
      intro credential hcredential
      obtain ⟨x, hx, hpurpose, husername, hfound⟩ :=
        (hagreed purpose username credential).mp hcredential
      refine ⟨x, hx, hpurpose, husername, fun hserial => ?_, hfound⟩
      have hkept := (List.mem_filter.mp hx).2
      rw [Enrollment.names_iff.mpr ⟨husername, hserial, hpurpose⟩] at hkept
      cases hkept

/-- Accepted events keep the files right. -/
theorem right_afterEvents (hevents : ∀ e ∈ events, e.command.Valid sys)
    (haccepted : EachAccepted sys events h) (hagreed : Agreed h) (hr : Repairable sys h)
    (hpam : PamRight h) :
    Agreed (afterEvents sys events h) ∧ Repairable sys (afterEvents sys events h) ∧
      PamRight (afterEvents sys events h) := by
  induction events generalizing h with
  | nil => exact ⟨hagreed, hr, hpam⟩
  | cons first rest ih =>
    have hfirst := hevents first List.mem_cons_self
    exact ih (fun e' he' => hevents e' (List.mem_cons_of_mem first he')) haccepted.2
      ((agreed_after_iff hagreed hr hfirst).mpr haccepted.1) (hr.after hfirst)
      (hpam.after hr hfirst)

/-- After accepted events, every further event leaves the three files right exactly when it
is accepted too. -/
theorem files_right_iff_accepted {start : Host} (hfresh : start.Fresh)
    (hevents : ∀ e ∈ events, e.command.Valid sys) (haccepted : EachAccepted sys events start)
    (hvalid : e.command.Valid sys) :
    (Agreed (e.after sys (afterEvents sys events start)) ∧
      Revoked e (e.after sys (afterEvents sys events start)) ∧
      PamRight (e.after sys (afterEvents sys events start))) ↔
    e.Accepted (afterEvents sys events start) := by
  obtain ⟨hagreed, hr, hpam⟩ := right_afterEvents hevents haccepted hfresh.agreed
    hfresh.repairable hfresh.pamRight
  constructor
  · exact fun hright => (agreed_after_iff hagreed hr hvalid).mp hright.1
  · intro haccept
    have hafter := (agreed_after_iff hagreed hr hvalid).mpr haccept
    exact ⟨hafter, hafter.revoked hvalid, hpam.after hr hvalid⟩

end Runs

section Reenrolled

def aliceOnly : System := ⟨fun username => username == "alice", []⟩

def freshHost : Host := ⟨⟨[], []⟩, fun _ _ => [], fun _ => ["@include common-auth"], []⟩

theorem freshHost_fresh : freshHost.Fresh :=
  ⟨rfl, fun _ _ => rfl, fun purpose => by cases purpose <;> decide +kernel⟩

/-- One key is enrolled, and enrolled again with a new credential. -/
def reenrolled : List Event :=
  [⟨.enroll .gdm "alice" "1" "first,es256", none⟩, ⟨.enroll .gdm "alice" "1" "second,es256", none⟩]

theorem reenrolled_key_authenticates_after_remove :
    ¬ ∀ (sys : System) (start : Host) (events : List Event) (e : Event), start.Fresh →
      (∀ e ∈ events, e.command.Valid sys) → e.command.Valid sys →
      Agreed (e.after sys (afterEvents sys events start)) ∧
        Revoked e (e.after sys (afterEvents sys events start)) ∧
        PamRight (e.after sys (afterEvents sys events start)) := by
  intro h
  have hvalid : ∀ e ∈ reenrolled, e.command.Valid aliceOnly := by
    intro e he
    rcases List.mem_cons.mp he with rfl | he
    · exact ⟨rfl, by decide +kernel⟩
    · rw [List.mem_singleton.mp he]
      exact ⟨rfl, by decide +kernel⟩
  have hrevoked := (h aliceOnly freshHost reenrolled ⟨.remove .gdm "alice" "1", none⟩
    freshHost_fresh hvalid rfl).2.1
  obtain ⟨x, hx, -⟩ := hrevoked "second,es256" (by decide +kernel)
  have hnone : (Event.after aliceOnly ⟨.remove .gdm "alice" "1", none⟩
      (afterEvents aliceOnly reenrolled freshHost)).metadata.enrollments = [] := by
    decide +kernel
  rw [hnone] at hx
  cases hx

theorem removed_key_does_not_authenticate :
    (Agreed (Event.after aliceOnly ⟨.remove .gdm "alice" "1", none⟩
        (afterEvents aliceOnly [⟨.enroll .gdm "alice" "1" "first,es256", none⟩] freshHost)) ∧
      Revoked ⟨.remove .gdm "alice" "1", none⟩
        (Event.after aliceOnly ⟨.remove .gdm "alice" "1", none⟩
          (afterEvents aliceOnly [⟨.enroll .gdm "alice" "1" "first,es256", none⟩] freshHost)) ∧
      PamRight (Event.after aliceOnly ⟨.remove .gdm "alice" "1", none⟩
        (afterEvents aliceOnly [⟨.enroll .gdm "alice" "1" "first,es256", none⟩] freshHost))) ↔
    Event.Accepted ⟨.remove .gdm "alice" "1", none⟩
      (afterEvents aliceOnly [⟨.enroll .gdm "alice" "1" "first,es256", none⟩] freshHost) :=
  files_right_iff_accepted freshHost_fresh
    (by
      intro e he
      rw [List.mem_singleton.mp he]
      exact ⟨rfl, by decide +kernel⟩)
    ⟨Or.inl fun _ hx => absurd hx List.not_mem_nil, trivial⟩ rfl

end Reenrolled

end SecurityKeys
