import SynOSStudio.SecurityKeys.SudoPolicy

/-!
# Accounts without a password keep a way to sudo

An account reaches sudo without a password by a rule in an effective drop-in, or by a
credential in the sudo mapping while the managed line stands in the PAM file. Enabling
and enrolling keep every such way. `disable` asks for an enrollment before it takes the
last rule away; `remove` and `repair` take the last credential without asking.
-/

namespace SecurityKeys

open InterruptiblePrograms

section Rules

variable {username line : String} {c : Char}

theorem not_whitespace_of_userChar (h : userChar c = true) : whitespace c = false := by
  have hbound : (48 ≤ c.toNat ∧ c.toNat ≤ 57) ∨ (97 ≤ c.toNat ∧ c.toNat ≤ 122) ∨
      c.toNat = 95 ∨ c.toNat = 45 := by
    simp only [userChar, lowercase, digit, Bool.or_eq_true, Bool.and_eq_true, decide_eq_true_eq,
      beq_iff_eq] at h
    rcases h with ((h | h) | rfl) | rfl
    · exact Or.inr (Or.inl h)
    · exact Or.inl h
    · exact Or.inr (Or.inr (Or.inl rfl))
    · exact Or.inr (Or.inr (Or.inr rfl))
  simp [whitespace]
  omega

/-- A user name is not empty and has characters of user names only. -/
theorem userChar_of_USER_RE (h : USER_RE username = true) :
    ∃ first rest, username.toList = first :: rest ∧ ∀ c ∈ username.toList, userChar c = true := by
  unfold USER_RE at h
  split at h
  · cases h
  · rename_i first rest htext
    simp only [Bool.and_eq_true, List.all_eq_true] at h
    obtain ⟨⟨hfirst, -⟩, hrest⟩ := h
    refine ⟨first, rest, htext, fun c hc => ?_⟩
    rw [htext] at hc
    rcases List.mem_cons.mp hc with rfl | hc
    · simp only [Bool.or_eq_true] at hfirst
      simp only [userChar, Bool.or_eq_true]
      tauto
    · exact hrest c hc

/-- What the helper writes for a user reads back as a rule for the user. -/
theorem ruleUser_ruleLine (h : USER_RE username = true) :
    ruleUser (ruleLine username) = some username := by
  obtain ⟨first, rest, htext, hchars⟩ := userChar_of_USER_RE h
  have hline : (ruleLine username).toList =
      username.toList ++ " ALL=(ALL:ALL) NOPASSWD: ALL".toList := by
    simp [ruleLine]
  have hskip : skipSpaces (ruleLine username).toList = (ruleLine username).toList := by
    have hfirst := hchars first (by rw [htext]; exact List.mem_cons_self)
    rw [hline, htext, List.cons_append, skipSpaces, List.dropWhile_cons,
      not_whitespace_of_userChar hfirst]
    simp
  have hgrants : grantsAll " ALL=(ALL:ALL) NOPASSWD: ALL".toList = some [] := by decide +kernel
  have hstop : userChar ' ' = false := by decide +kernel
  have htail : " ALL=(ALL:ALL) NOPASSWD: ALL".toList =
      ' ' :: "ALL=(ALL:ALL) NOPASSWD: ALL".toList := by decide +kernel
  have htake : (ruleLine username).toList.takeWhile userChar = username.toList := by
    rw [hline, List.takeWhile_append_of_pos hchars, htail]
    simp [hstop]
  have hdrop : (ruleLine username).toList.dropWhile userChar =
      " ALL=(ALL:ALL) NOPASSWD: ALL".toList := by
    rw [hline, List.dropWhile_append_of_pos hchars, htail]
    simp [hstop]
  unfold ruleUser
  simp only [hskip, htake, hdrop, hgrants, String.ofList_toList, h, beq_self_eq_true,
    Bool.and_self, if_true]

theorem USER_RE_of_ruleUser (h : ruleUser line = some username) : USER_RE username = true := by
  simp only [ruleUser] at h
  split at h
  · rename_i hboth
    rw [Bool.and_eq_true] at hboth
    rw [← Option.some.inj h]
    exact hboth.1
  · cases h

/-- The reader of the managed file does not pass over a rule. -/
theorem not_ignoredLine (h : ruleUser line = some username) : ignoredLine line = false := by
  have huser := USER_RE_of_ruleUser h
  obtain ⟨first, rest, htext, hchars⟩ := userChar_of_USER_RE huser
  have hname : username = String.ofList ((skipSpaces line.toList).takeWhile userChar) := by
    simp only [ruleUser] at h
    split at h
    · exact (Option.some.inj h).symm
    · cases h
  have htake : (skipSpaces line.toList).takeWhile userChar = first :: rest := by
    rw [← htext, hname, String.toList_ofList]
  have hfirst := hchars first (by rw [htext]; exact List.mem_cons_self)
  unfold ignoredLine
  cases hskip : skipSpaces line.toList with
  | nil => rw [hskip] at htake; cases htake
  | cons c tail =>
    rw [hskip, List.takeWhile_cons] at htake
    split at htake
    · rename_i hc
      have hhash : userChar '#' = false := by decide +kernel
      have hne : c ≠ '#' := by
        rintro rfl
        rw [hhash] at hc
        cases hc
      simpa using hne
    · cases htake

theorem mem_managedUsers {users lines found : List String}
    (h : managedUsers users lines = .ok found) {user : String}
    (huser : user ∈ users ∨ ∃ line ∈ lines, ruleUser line = some user) : user ∈ found := by
  induction lines generalizing users with
  | nil =>
    cases h
    rcases huser with hmem | ⟨line, hline, -⟩
    · exact hmem
    · cases hline
  | cons first rest ih =>
    unfold managedUsers at h
    split at h
    · rename_i hignored
      apply ih h
      rcases huser with hmem | ⟨line, hline, hrule⟩
      · exact Or.inl hmem
      · rcases List.mem_cons.mp hline with rfl | hline
        · rw [not_ignoredLine hrule] at hignored
          cases hignored
        · exact Or.inr ⟨line, hline, hrule⟩
    · split at h
      · cases h
      · rename_i found' hfound
        apply ih h
        rw [mem_addCredential]
        rcases huser with hmem | ⟨line, hline, hrule⟩
        · exact Or.inl (Or.inl hmem)
        · rcases List.mem_cons.mp hline with rfl | hline
          · rw [hrule] at hfound
            exact Or.inl (Or.inr (Option.some.inj hfound))
          · exact Or.inr ⟨line, hline, hrule⟩

end Rules

section DropIns

variable {m : Machine} {username user name path : String}

/-- A rule for the user in a file that sudo includes. -/
def Machine.HasRule (m : Machine) (username : String) : Prop :=
  ∃ name file, m.dropIns.lookup name = some file ∧ effectiveName name = true ∧
    file.regular = true ∧ ∃ line ∈ file.lines, ruleUser line = some username

theorem mem_sudoersDropInPaths : name ∈ sudoersDropInPaths m ↔
    ∃ file, m.dropIns.lookup name = some file ∧ effectiveName name = true ∧
      file.regular = true := by
  unfold sudoersDropInPaths
  rw [List.mem_filter, Finset.mem_sort, Finmap.mem_keys, Bool.and_eq_true]
  constructor
  · rintro ⟨-, heffective, hregular⟩
    cases hlookup : m.dropIns.lookup name with
    | none => rw [hlookup] at hregular; cases hregular
    | some file =>
      rw [hlookup] at hregular
      exact ⟨file, rfl, heffective, hregular⟩
  · rintro ⟨file, hlookup, heffective, hregular⟩
    rw [hlookup]
    exact ⟨Finmap.mem_of_lookup_eq_some hlookup, heffective, hregular⟩

theorem mem_readEffective : username ∈ readEffectivePasswordlessUsers m ↔ m.HasRule username := by
  unfold readEffectivePasswordlessUsers
  rw [Finset.mem_sort, List.mem_toFinset, List.mem_filterMap]
  constructor
  · rintro ⟨line, hline, hrule⟩
    obtain ⟨name, hname, hmem⟩ := List.mem_flatMap.mp hline
    obtain ⟨file, hlookup, heffective, hregular⟩ := mem_sudoersDropInPaths.mp hname
    unfold Machine.linesOf at hmem
    rw [hlookup] at hmem
    exact ⟨name, file, hlookup, heffective, hregular, line, hmem, hrule⟩
  · rintro ⟨name, file, hlookup, heffective, hregular, line, hline, hrule⟩
    refine ⟨line, List.mem_flatMap.mpr ⟨name, ?_, ?_⟩, hrule⟩
    · exact mem_sudoersDropInPaths.mpr ⟨file, hlookup, heffective, hregular⟩
    · unfold Machine.linesOf
      rw [hlookup]
      exact hline

theorem lookup_writeDropIn (lines : List String) :
    (m.writeDropIn path lines).dropIns.lookup name =
      if name = path then some ⟨true, lines⟩ else m.dropIns.lookup name := by
  unfold Machine.writeDropIn
  split
  · rename_i heq
    rw [heq]
    exact Finmap.lookup_insert _
  · rename_i hne
    exact Finmap.lookup_insert_of_ne _ hne

theorem managed_effective : effectiveName MANAGED_SUDOERS = true := by decide +kernel

/-- The rewritten managed file holds the rules it held. -/
theorem Machine.HasRule.enableRule {users : List String}
    (hread : readManagedPasswordlessUsers m = .ok users) (hrule : m.HasRule user) : (enableRule username users m).machine.HasRule user := by
  obtain ⟨name, file, hlookup, heffective, hregular, line, hline, huser⟩ := hrule
  by_cases hmanaged : name = MANAGED_SUDOERS
  · subst hmanaged
    have husers : user ∈ users := by
      unfold readManagedPasswordlessUsers at hread
      split at hread
      · apply mem_managedUsers hread
        refine Or.inr ⟨line, ?_, huser⟩
        unfold Machine.linesOf
        rw [hlookup]
        exact hline
      · cases hread
    refine ⟨MANAGED_SUDOERS, _, (lookup_writeDropIn _).trans (if_pos rfl), heffective, rfl,
      ruleLine user, ?_, ruleUser_ruleLine (USER_RE_of_ruleUser huser)⟩
    apply List.mem_map_of_mem
    rw [Finset.mem_sort, Finset.mem_insert, List.mem_toFinset]
    exact Or.inr husers
  · refine ⟨name, file, ?_, heffective, hregular, line, hline, huser⟩
    exact (lookup_writeDropIn _).trans ((if_neg hmanaged).trans hlookup)

/-- A drop-in after the loop has passed it. -/
def DropIn.cleared (username : String) (file : DropIn) : DropIn :=
  if withoutRule username file.lines = file.lines then file
  else ⟨true, withoutRule username file.lines⟩

theorem cleared_lines (file : DropIn) :
    (file.cleared username).lines = withoutRule username file.lines := by
  unfold DropIn.cleared
  split
  · rename_i heq
    exact heq.symm
  · rfl

theorem withoutRule_withoutRule (lines : List String) :
    withoutRule username (withoutRule username lines) = withoutRule username lines := by
  simp [withoutRule]

theorem cleared_cleared (file : DropIn) :
    (file.cleared username).cleared username = file.cleared username := by
  have hlines : withoutRule username (file.cleared username).lines =
      (file.cleared username).lines := by
    rw [cleared_lines, withoutRule_withoutRule]
  rw [DropIn.cleared, if_pos hlines]

theorem lookup_disableRule (paths : List String) (attempted : Attempted) :
    (disableRule username paths attempted).machine.dropIns.lookup name =
      if name ∈ paths then (attempted.machine.dropIns.lookup name).map (DropIn.cleared username)
      else attempted.machine.dropIns.lookup name := by
  induction paths generalizing attempted with
  | nil => simp [disableRule]
  | cons path rest ih =>
    have hstep : ∀ next : Attempted, (∀ name, next.machine.dropIns.lookup name = if name = path then
        (attempted.machine.dropIns.lookup name).map (DropIn.cleared username)
        else attempted.machine.dropIns.lookup name) →
        (disableRule username rest next).machine.dropIns.lookup name =
          if name ∈ path :: rest then
            (attempted.machine.dropIns.lookup name).map (DropIn.cleared username)
          else attempted.machine.dropIns.lookup name := by
      intro next hnext
      rw [ih, hnext]
      by_cases hpath : name = path
      · simp [hpath, Function.comp_def, cleared_cleared]
      · simp [hpath]
    unfold disableRule
    simp only
    split
    · rename_i hsame
      apply hstep
      intro name
      split
      · rename_i hpath
        rw [hpath]
        unfold Machine.linesOf at hsame
        cases hlookup : attempted.machine.dropIns.lookup path with
        | none => rfl
        | some file =>
          rw [hlookup] at hsame
          simp [DropIn.cleared, hsame]
      · rfl
    · rename_i hchanged
      apply hstep
      intro name
      rw [lookup_writeDropIn]
      split
      · rename_i hpath
        rw [hpath]
        unfold Machine.linesOf at hchanged ⊢
        cases hlookup : attempted.machine.dropIns.lookup path with
        | none =>
          rw [hlookup] at hchanged
          exact absurd rfl hchanged
        | some file =>
          rw [hlookup] at hchanged
          simp [DropIn.cleared, hchanged]
      · rfl

/-- The rewritten drop-ins hold the rules of the other users and no others. -/
theorem hasRule_disableRule_iff :
    (disableRule username (sudoersDropInPaths m) ⟨m, []⟩).machine.HasRule user ↔
      m.HasRule user ∧ user ≠ username := by
  have hmem : ∀ (file : DropIn) line, line ∈ (file.cleared username).lines ↔
      line ∈ file.lines ∧ ruleUser line ≠ some username := by
    intro file line
    rw [cleared_lines, withoutRule, List.mem_filter]
    simp
  constructor
  · rintro ⟨name, file, hlookup, heffective, hregular, line, hline, huser⟩
    rw [lookup_disableRule] at hlookup
    split at hlookup
    · rename_i hpath
      obtain ⟨before, hbefore, -, hregularBefore⟩ := mem_sudoersDropInPaths.mp hpath
      simp only [hbefore, Option.map_some, Option.some.injEq] at hlookup
      subst hlookup
      obtain ⟨hold, hother⟩ := (hmem before line).mp hline
      rw [huser] at hother
      refine ⟨⟨name, before, hbefore, heffective, hregularBefore, line, hold, huser⟩, ?_⟩
      rintro rfl
      exact hother rfl
    · rename_i hpath
      exact absurd (mem_sudoersDropInPaths.mpr ⟨file, hlookup, heffective, hregular⟩) hpath
  · rintro ⟨⟨name, file, hlookup, heffective, hregular, line, hline, huser⟩, hne⟩
    have hpath := mem_sudoersDropInPaths.mpr ⟨file, hlookup, heffective, hregular⟩
    refine ⟨name, file.cleared username, ?_, heffective, ?_, line, ?_, huser⟩
    · rw [lookup_disableRule, if_pos hpath, hlookup]
      rfl
    · unfold DropIn.cleared
      split
      · exact hregular
      · rfl
    · rw [hmem, huser]
      exact ⟨hline, fun heq => hne (Option.some.inj heq)⟩

end DropIns

section Rollback

variable {m : Machine} {attempted : Attempted} {username name : String}

/-- Every drop-in that differs from the first state has its text there among the backups. -/
structure Attempted.Backed (m : Machine) (attempted : Attempted) : Prop where
  host : attempted.machine.host = m.host
  others : ∀ name, name ∉ attempted.backups.map Prod.fst →
    attempted.machine.dropIns.lookup name = m.dropIns.lookup name
  originals : ∀ backup ∈ attempted.backups,
    m.dropIns.lookup backup.1 = backup.2.map (DropIn.mk true)

theorem backed_start (m : Machine) : Attempted.Backed m ⟨m, []⟩ :=
  ⟨rfl, fun _ _ => rfl, fun _ h => absurd h List.not_mem_nil⟩

theorem lookup_restoreDropIn (backup : String × Option (List String)) :
    (restoreDropIn m backup).dropIns.lookup name =
      if name = backup.1 then backup.2.map (DropIn.mk true) else m.dropIns.lookup name := by
  obtain ⟨path, lines⟩ := backup
  cases lines with
  | none =>
    show (m.dropIns.erase path).lookup name = _
    split
    · rename_i heq
      rw [heq]
      exact Finmap.lookup_erase _ _
    · rename_i hne
      exact Finmap.lookup_erase_ne hne
  | some lines => exact lookup_writeDropIn lines

theorem restoreDropIn_host (backup : String × Option (List String)) :
    (restoreDropIn m backup).host = m.host := by
  obtain ⟨path, lines⟩ := backup
  cases lines <;> rfl

theorem Attempted.Backed.restored (h : attempted.Backed m) :
    attempted.backups.foldl restoreDropIn attempted.machine = m := by
  obtain ⟨machine, backups⟩ := attempted
  induction backups generalizing machine with
  | nil =>
    have hfiles : machine.dropIns = m.dropIns :=
      Finmap.ext_lookup fun name => h.others name List.not_mem_nil
    show machine = m
    cases machine
    cases m
    simp only [Machine.mk.injEq]
    exact ⟨h.host, hfiles⟩
  | cons backup rest ih =>
    apply ih
    constructor
    · exact (restoreDropIn_host backup).trans h.host
    · intro name hname
      show (restoreDropIn machine backup).dropIns.lookup name = _
      rw [lookup_restoreDropIn]
      split
      · rename_i heq
        rw [heq]
        exact (h.originals backup List.mem_cons_self).symm
      · rename_i hne
        apply h.others
        intro hmem
        rcases List.mem_cons.mp hmem with heq | hrest
        · exact hne heq
        · exact hname hrest
    · exact fun b hb => h.originals b (List.mem_cons_of_mem backup hb)

theorem Attempted.Backed.rolledBack (h : attempted.Backed m) :
    attempted.rolledBack m.host.metadata m.host.sudoState = m := by
  unfold Attempted.rolledBack
  rw [h.restored]
  rfl

theorem backed_enableRule (users : List String) (hsafe : m.safeOptional MANAGED_SUDOERS = true) :
    (enableRule username users m).Backed m := by
  constructor
  · rfl
  · intro name hname
    have hne : name ≠ MANAGED_SUDOERS := by simpa [enableRule] using hname
    exact (lookup_writeDropIn _).trans (if_neg hne)
  · intro backup hbackup
    rw [List.mem_singleton.mp hbackup]
    show m.dropIns.lookup MANAGED_SUDOERS = _
    unfold Machine.safeOptional at hsafe
    cases hlookup : m.dropIns.lookup MANAGED_SUDOERS with
    | none => rfl
    | some file =>
      rw [hlookup] at hsafe
      obtain ⟨regular, lines⟩ := file
      cases hsafe
      rfl

theorem backed_disableRule {paths : List String} (h : attempted.Backed m)
    (hpaths : ∀ path ∈ paths, path ∈ sudoersDropInPaths m) (hnodup : paths.Nodup)
    (hnew : ∀ path ∈ paths, path ∉ attempted.backups.map Prod.fst) :
    (disableRule username paths attempted).Backed m := by
  induction paths generalizing attempted with
  | nil => exact h
  | cons path rest ih =>
    have hrest : ∀ p ∈ rest, p ∈ sudoersDropInPaths m := fun p hp =>
      hpaths p (List.mem_cons_of_mem path hp)
    unfold SecurityKeys.disableRule
    simp only
    split
    · exact ih h hrest hnodup.of_cons fun p hp => hnew p (List.mem_cons_of_mem path hp)
    · have hfirst := h.others path (hnew path List.mem_cons_self)
      refine ih ⟨h.host, fun name hname => ?_, fun backup hbackup => ?_⟩ hrest hnodup.of_cons
        fun p hp => ?_
      · simp only [List.map_append, List.mem_append, List.map_cons, List.map_nil,
          List.mem_singleton, not_or] at hname
        exact (lookup_writeDropIn _).trans ((if_neg hname.2).trans (h.others name hname.1))
      · rcases List.mem_append.mp hbackup with hold | hadded
        · exact h.originals backup hold
        · rw [List.mem_singleton.mp hadded]
          obtain ⟨⟨regular, lines⟩, hlookup, -, hregular⟩ :=
            mem_sudoersDropInPaths.mp (hpaths path List.mem_cons_self)
          cases hregular
          show m.dropIns.lookup path = some ⟨true, attempted.machine.linesOf path⟩
          unfold Machine.linesOf
          rw [hfirst, hlookup]
      · simp only [List.map_append, List.mem_append, List.map_cons, List.map_nil,
          List.mem_singleton, not_or]
        refine ⟨hnew p (List.mem_cons_of_mem path hp), ?_⟩
        rintro rfl
        exact (List.nodup_cons.mp hnodup).1 hp

theorem nodup_sudoersDropInPaths : (sudoersDropInPaths m).Nodup :=
  (Finset.sort_nodup _ _).filter _

theorem backed_attemptedRule (enabled : Bool) (users : List String)
    (hsafe : m.safeOptional MANAGED_SUDOERS = true) :
    (attemptedRule username enabled users m).Backed m := by
  unfold attemptedRule
  split
  · exact backed_enableRule users hsafe
  · apply backed_disableRule (backed_start m) (fun _ hpath => hpath) nodup_sudoersDropInPaths
    intro path _ hmem
    cases hmem

end Rollback

section Requests

variable {policy : Policy} {m : Machine} {username user serial credential : String}

/-- A credential of the user while the managed line stands in the PAM file of sudo. -/
def Machine.HasKey (m : Machine) (username : String) : Prop :=
  m.host.mappings .sudo username ≠ [] ∧ pamLine .sudo ∈ m.host.pam .sudo

def Machine.SudoPath (m : Machine) (username : String) : Prop :=
  m.HasRule username ∨ m.HasKey username

/-- What a removal for sudo leaves of the credentials of a user, and an entry or a line of
another hand that keeps the PAM file in force. -/
def Host.KeepsKey (h : Host) (username serial user : String) : Prop :=
  (∃ credential ∈ h.mappings .sudo user, user = username →
    credential ∉ credentialsOf h.metadata.enrollments .sudo username serial) ∧
  ((∃ e ∈ h.metadata.enrollments, e.purpose = .sudo ∧ e.names .sudo username serial = false) ∨
    pamLine .sudo ∈ unmanaged .sudo false (h.pam .sudo))

/-- The command ends before it writes a drop-in, or puts the drop-ins back. -/
def PolicyRefused (policy : Policy) (m : Machine) (username : String) (enabled : Bool) : Prop :=
  policyChecks policy username enabled m ≠ .ok () ∨
  (∃ message, readManagedPasswordlessUsers m = .error message) ∨
  ∃ users, readManagedPasswordlessUsers m = .ok users ∧
    policy.visudo (attemptedRule username enabled users m).machine.dropIns ≠ .ok ()

/-- The repair ends before it writes the sudo mapping. -/
def RepairRefused (policy : Policy) (m : Machine) : Prop :=
  repairChecks policy m ≠ .ok () ∨
  ∃ purpose, validateEntries (policy.system m) m.host.metadata.enrollments purpose ≠ .ok ()

/-- The files before the command that leave a user with a sudo path one after it. -/
def Request.Leaves (policy : Policy) (m : Machine) (user : String) : Request → Prop
  | .key (.enroll _ _ _ _) => True
  | .key (.remove purpose username serial) =>
    m.HasRule user ∨ purpose = .gdm ∨
      validateCommon (policy.system m) username serial ≠ .ok () ∨
      m.host.KeepsKey username serial user
  | .key .repair =>
    m.HasRule user ∨ RepairRefused policy m ∨
      ∃ e ∈ m.host.metadata.enrollments, e.purpose = .sudo ∧ e.username = user
  | .passwordlessSudo username enabled =>
    enabled = true ∨ user ≠ username ∨ m.HasKey user ∨ PolicyRefused policy m username enabled

/-- Each command leaves every account without a password a sudo path that it had. -/
def EachLeaves (policy : Policy) : List Request → Machine → Prop
  | [], _ => True
  | request :: rest, m =>
    (∀ user, policy.hasUsablePassword user = false → m.SudoPath user →
      request.Leaves policy m user) ∧
    EachLeaves policy rest (request.after policy m)

/-- An account without a password that has a sudo path after some commands has one after
all later commands. -/
def NeverLockedOut (policy : Policy) (requests : List Request) (m : Machine) : Prop :=
  ∀ user, policy.hasUsablePassword user = false → ∀ earlier later, earlier ≤ later →
    (afterRequests policy (requests.take earlier) m).SudoPath user →
    (afterRequests policy (requests.take later) m).SudoPath user

theorem mem_writtenLines {purpose : Purpose} {lines : List String} :
    pamLine purpose ∈ writtenLines lines ↔ pamLine purpose ∈ lines := by
  rw [← List.count_pos_iff, ← List.count_pos_iff, count_writtenLines]

theorem mem_ensuredLines {purpose : Purpose} {enabled : Bool} {lines : List String} :
    pamLine purpose ∈ ensuredLines purpose enabled lines ↔
      enabled = true ∨ pamLine purpose ∈ unmanaged purpose false lines := by
  unfold ensuredLines
  rw [mem_writtenLines]
  cases enabled with
  | false => simp
  | true => simp [withManaged]

theorem stored_pam {h : Host} {metadata : Metadata} {purpose : Purpose} {mappings : Mappings} :
    (h.stored metadata purpose mappings).pam purpose =
      ensuredLines purpose (metadata.enrollments.any fun e => e.purpose == purpose)
        (h.pam purpose) :=
  Function.update_self _ _ _

theorem completed_enroll_refused {sys : System} {h : Host} {purpose : Purpose}
    (hnot : ¬ (validateCommon sys username serial = .ok () ∧ CREDENTIAL_RE credential = true)) :
    completed (enroll sys purpose username serial credential) h = h := by
  unfold enroll
  cases hcommon : validateCommon sys username serial with
  | error message => rfl
  | ok =>
    have hcredential : CREDENTIAL_RE credential = false := by
      simpa using fun h => hnot ⟨hcommon, h⟩
    rw [hcredential]
    rfl

theorem completed_remove_refused {sys : System} {h : Host} {purpose : Purpose}
    (hnot : validateCommon sys username serial ≠ .ok ()) :
    completed (remove sys purpose username serial) h = h := by
  unfold remove
  cases hcommon : validateCommon sys username serial with
  | error message => rfl
  | ok => exact absurd hcommon hnot

/-- An enrollment keeps the key of every user. -/
theorem Machine.HasKey.enrolled {purpose : Purpose} (hkey : m.HasKey user) :
    ({ m with host := m.host.enrolled purpose username serial credential } : Machine).HasKey
      user := by
  cases purpose with
  | gdm => exact hkey
  | _ =>
    obtain ⟨hmapping, -⟩ := hkey
    constructor
    · obtain ⟨c, hc⟩ := List.exists_mem_of_ne_nil _ hmapping
      exact List.ne_nil_of_mem (mem_enrolled_mappings.mpr (Or.inl hc))
    · show pamLine .sudo ∈ (Host.stored _ _ _ _).pam .sudo
      rw [stored_pam, mem_ensuredLines]
      left
      show (enrolledEntries _ _ _ _ _).any _ = true
      unfold enrolledEntries
      split
      · rename_i hany
        obtain ⟨e, he, hnames⟩ := List.any_eq_true.mp hany
        exact List.any_eq_true.mpr ⟨e, he, by simp [(Enrollment.names_iff.mp hnames).2.2]⟩
      · simp

theorem hasKey_removed_iff :
    ({ m with host := m.host.removed .sudo username serial } : Machine).HasKey user ↔
      m.host.KeepsKey username serial user := by
  have hmapping : (m.host.removed .sudo username serial).mappings .sudo user ≠ [] ↔
      ∃ credential ∈ m.host.mappings .sudo user, user = username →
        credential ∉ credentialsOf m.host.metadata.enrollments .sudo username serial := by
    unfold Host.removed
    by_cases hsame : user = username
    · subst hsame
      rw [stored_set_self, Ne, List.filter_eq_nil_iff]
      simp
    · rw [stored_set_other fun hboth => hsame hboth.2]
      constructor
      · intro hne
        obtain ⟨c, hc⟩ := List.exists_mem_of_ne_nil _ hne
        exact ⟨c, hc, fun heq => absurd heq hsame⟩
      · rintro ⟨c, hc, -⟩
        exact List.ne_nil_of_mem hc
  have hpam : pamLine .sudo ∈ (m.host.removed .sudo username serial).pam .sudo ↔
      (∃ e ∈ m.host.metadata.enrollments, e.purpose = .sudo ∧
        e.names .sudo username serial = false) ∨
      pamLine .sudo ∈ unmanaged .sudo false (m.host.pam .sudo) := by
    unfold Host.removed
    rw [stored_pam, mem_ensuredLines, List.any_eq_true]
    simp only [removedMetadata, List.mem_filter, Bool.not_eq_true', beq_iff_eq]
    apply or_congr_left
    constructor
    · rintro ⟨e, ⟨he, hnames⟩, hpurpose⟩
      exact ⟨e, he, hpurpose, hnames⟩
    · rintro ⟨e, he, hpurpose, hnames⟩
      exact ⟨e, ⟨he, hnames⟩, hpurpose⟩
  exact and_congr hmapping hpam

theorem completed_repair_valid {sys : System} {h : Host}
    (hvalid : ∀ purpose, validateEntries sys h.metadata.enrollments purpose = .ok ()) :
    completed (repairIntegrations sys) h = h.repaired sys := by
  unfold completed repairIntegrations
  show ((do
    repairPurpose sys h.metadata.enrollments .gdm
    repairPurpose sys h.metadata.enrollments .sudo
    HelperProg.writeSudoState sys.passwordlessUsers
    HelperProg.writeMetadata { h.metadata with
      passwordlessSudoUsers := sys.passwordlessUsers } : HelperProg Unit).run.runToEnd
        Host.handle (fun _ => ()) h).2 = _
  unfold repairPurpose
  rw [hvalid .gdm, hvalid .sudo]
  rfl

/-- A repair that an entry stops has not touched the files of sudo. -/
theorem hasKey_repair_refused {sys : System} {purpose : Purpose}
    (hnot : validateEntries sys m.host.metadata.enrollments purpose ≠ .ok ()) :
    ({ m with host := completed (repairIntegrations sys) m.host } : Machine).HasKey user ↔
      m.HasKey user := by
  unfold completed repairIntegrations
  show Machine.HasKey ⟨((do
    repairPurpose sys m.host.metadata.enrollments .gdm
    repairPurpose sys m.host.metadata.enrollments .sudo
    HelperProg.writeSudoState sys.passwordlessUsers
    HelperProg.writeMetadata { m.host.metadata with
      passwordlessSudoUsers := sys.passwordlessUsers } : HelperProg Unit).run.runToEnd
        Host.handle (fun _ => ()) m.host).2, m.dropIns⟩ user ↔ _
  unfold repairPurpose
  cases hgdm : validateEntries sys m.host.metadata.enrollments .gdm with
  | error message => exact Iff.rfl
  | ok =>
    cases hsudo : validateEntries sys m.host.metadata.enrollments .sudo with
    | error message => exact Iff.rfl
    | ok =>
      cases purpose with
      | gdm => exact absurd hgdm hnot
      | _ => exact absurd hsudo hnot

theorem hasKey_repaired_iff {sys : System} :
    ({ m with host := m.host.repaired sys } : Machine).HasKey user ↔
      ∃ e ∈ m.host.metadata.enrollments, e.purpose = .sudo ∧ e.username = user := by
  have hmapping : (m.host.repaired sys).mappings .sudo user ≠ [] ↔
      ∃ e ∈ m.host.metadata.enrollments, e.purpose = .sudo ∧ e.username = user := by
    show mappingsOf m.host.metadata.enrollments .sudo user ≠ [] ↔ _
    constructor
    · intro hne
      obtain ⟨c, hc⟩ := List.exists_mem_of_ne_nil _ hne
      obtain ⟨e, he, hpurpose, husername, -⟩ := mem_mappingsOf.mp hc
      exact ⟨e, he, hpurpose, husername⟩
    · rintro ⟨e, he, hpurpose, husername⟩
      exact List.ne_nil_of_mem (mem_mappingsOf.mpr ⟨e, he, hpurpose, husername, rfl⟩)
  unfold Machine.HasKey
  rw [hmapping]
  apply and_iff_left_of_imp
  rintro ⟨e, he, hpurpose, -⟩
  show pamLine .sudo ∈ ensuredLines .sudo _ _
  rw [mem_ensuredLines, List.any_eq_true]
  exact Or.inl ⟨e, he, beq_iff_eq.mpr hpurpose⟩

/-- A rejected change of the sudo policy leaves everything as it was. -/
theorem setPasswordlessSudo_refused {enabled : Bool}
    (hrefused : PolicyRefused policy m username enabled) :
    (setPasswordlessSudo policy username enabled m).2 = m := by
  unfold setPasswordlessSudo
  cases hchecks : policyChecks policy username enabled m with
  | error message => rfl
  | ok =>
    cases hread : readManagedPasswordlessUsers m with
    | error message => exact (backed_start m).rolledBack
    | ok users =>
      simp only
      cases hvisudo : policy.visudo (attemptedRule username enabled users m).machine.dropIns with
      | error message =>
        have hsafe : m.safeOptional MANAGED_SUDOERS = true := by
          unfold readManagedPasswordlessUsers at hread
          split at hread
          · assumption
          · cases hread
        exact (backed_attemptedRule enabled users hsafe).rolledBack
      | ok =>
        rcases hrefused with hnot | ⟨message, herror⟩ | ⟨found, hfound, hnot⟩
        · exact absurd hchecks hnot
        · rw [hread] at herror
          cases herror
        · rw [hread] at hfound
          cases hfound
          exact absurd hvisudo hnot

theorem setPasswordlessSudo_done {enabled : Bool}
    (hdone : ¬ PolicyRefused policy m username enabled) :
    ∃ users, readManagedPasswordlessUsers m = .ok users ∧
      (setPasswordlessSudo policy username enabled m).2 =
        (attemptedRule username enabled users m).machine.recordUsers := by
  unfold PolicyRefused at hdone
  push Not at hdone
  obtain ⟨hchecks, hread, hvisudo⟩ := hdone
  cases hresult : readManagedPasswordlessUsers m with
  | error message => exact absurd hresult (hread message)
  | ok users =>
    refine ⟨users, rfl, ?_⟩
    unfold setPasswordlessSudo
    rw [hchecks, hresult]
    simp only
    rw [hvisudo users hresult]

theorem disableRule_host (paths : List String) (attempted : Attempted) :
    (disableRule username paths attempted).machine.host = attempted.machine.host := by
  induction paths generalizing attempted with
  | nil => rfl
  | cons path rest ih =>
    unfold disableRule
    simp only
    split
    · exact ih _
    · exact ih _

theorem sudoPath_setPasswordlessSudo_iff {enabled : Bool} (hpath : m.SudoPath user) :
    (setPasswordlessSudo policy username enabled m).2.SudoPath user ↔
      (Request.passwordlessSudo username enabled).Leaves policy m user := by
  by_cases hrefused : PolicyRefused policy m username enabled
  · rw [setPasswordlessSudo_refused hrefused]
    exact iff_of_true hpath (Or.inr (Or.inr (Or.inr hrefused)))
  · obtain ⟨users, hread, hdone⟩ := setPasswordlessSudo_done hrefused
    rw [hdone]
    cases enabled with
    | true =>
      refine iff_of_true ?_ (Or.inl rfl)
      rcases hpath with hrule | hkey
      · exact Or.inl (hrule.enableRule hread)
      · exact Or.inr hkey
    | false =>
      have hrule : (attemptedRule username false users m).machine.recordUsers.HasRule user ↔
          m.HasRule user ∧ user ≠ username := hasRule_disableRule_iff
      have hkey : (attemptedRule username false users m).machine.recordUsers.HasKey user ↔
          m.HasKey user := by
        have hhost : (attemptedRule username false users m).machine.host = m.host :=
          disableRule_host _ _
        unfold Machine.HasKey Machine.recordUsers Host.withMetadata Host.withSudoState
        rw [hhost]
      unfold Machine.SudoPath Request.Leaves
      rw [hrule, hkey]
      constructor
      · rintro (⟨-, hne⟩ | hkept)
        · exact Or.inr (Or.inl hne)
        · exact Or.inr (Or.inr (Or.inl hkept))
      · rintro (hcases | hne | hkept | hagain)
        · cases hcases
        · rcases hpath with hbefore | hkept
          · exact Or.inl ⟨hbefore, hne⟩
          · exact Or.inr hkept
        · exact Or.inr hkept
        · exact absurd hagain hrefused

theorem sudoPath_enroll {purpose : Purpose} (hpath : m.SudoPath user) :
    ((Request.key (.enroll purpose username serial credential)).after policy m).SudoPath user := by
  show Machine.SudoPath ⟨completed (enroll (policy.system m) purpose username serial credential)
    m.host, m.dropIns⟩ user
  by_cases hvalid : validateCommon (policy.system m) username serial = .ok () ∧
      CREDENTIAL_RE credential = true
  · rw [completed_enroll hvalid.1 hvalid.2]
    rcases hpath with hrule | hkey
    · exact Or.inl hrule
    · exact Or.inr hkey.enrolled
  · rw [completed_enroll_refused hvalid]
    exact hpath

theorem sudoPath_remove_iff {purpose : Purpose} (hpath : m.SudoPath user) :
    ((Request.key (.remove purpose username serial)).after policy m).SudoPath user ↔
      (Request.key (.remove purpose username serial)).Leaves policy m user := by
  show Machine.SudoPath ⟨completed (remove (policy.system m) purpose username serial)
    m.host, m.dropIns⟩ user ↔ _
  by_cases hvalid : validateCommon (policy.system m) username serial = .ok ()
  · rw [completed_remove hvalid]
    cases purpose with
    | gdm => exact iff_of_true hpath (Or.inr (Or.inl rfl))
    | _ =>
      unfold Machine.SudoPath
      rw [hasKey_removed_iff]
      show m.HasRule user ∨ _ ↔ _
      constructor
      · rintro (hrule | hkept)
        · exact Or.inl hrule
        · exact Or.inr (Or.inr (Or.inr hkept))
      · rintro (hrule | hcases | hnot | hkept)
        · exact Or.inl hrule
        · cases hcases
        · exact absurd hvalid hnot
        · exact Or.inr hkept
  · rw [completed_remove_refused hvalid]
    exact iff_of_true hpath (Or.inr (Or.inr (Or.inl hvalid)))

theorem sudoPath_repair_iff (hpath : m.SudoPath user) :
    ((Request.key .repair).after policy m).SudoPath user ↔
      (Request.key .repair).Leaves policy m user := by
  unfold Request.after
  simp only
  cases hchecks : repairChecks policy m with
  | error message =>
    exact iff_of_true hpath (Or.inr (Or.inl (Or.inl (by rw [hchecks]; simp))))
  | ok =>
    simp only
    by_cases hvalid : ∀ purpose,
        validateEntries (policy.system m) m.host.metadata.enrollments purpose = .ok ()
    · rw [completed_repair_valid hvalid]
      unfold Machine.SudoPath
      rw [hasKey_repaired_iff]
      show m.HasRule user ∨ _ ↔ _
      constructor
      · rintro (hrule | hentry)
        · exact Or.inl hrule
        · exact Or.inr (Or.inr hentry)
      · rintro (hrule | (hnot | ⟨purpose, hnot⟩) | hentry)
        · exact Or.inl hrule
        · exact absurd hchecks hnot
        · exact absurd (hvalid purpose) hnot
        · exact Or.inr hentry
    · push Not at hvalid
      obtain ⟨purpose, hnot⟩ := hvalid
      refine iff_of_true ?_ (Or.inr (Or.inl (Or.inr ⟨purpose, hnot⟩)))
      rcases hpath with hrule | hkey
      · exact Or.inl hrule
      · exact Or.inr ((hasKey_repair_refused hnot).mpr hkey)

/-- A command leaves a user with a sudo path exactly when its condition holds. -/
theorem sudoPath_after_iff (hpath : m.SudoPath user) (request : Request) :
    (request.after policy m).SudoPath user ↔ request.Leaves policy m user := by
  cases request with
  | passwordlessSudo username enabled => exact sudoPath_setPasswordlessSudo_iff hpath
  | key command =>
    cases command with
    | enroll purpose username serial credential => exact iff_of_true (sudoPath_enroll hpath) trivial
    | remove purpose username serial => exact sudoPath_remove_iff hpath
    | repair => exact sudoPath_repair_iff hpath

theorem EachLeaves.kept {requests : List Request} (heach : EachLeaves policy requests m)
    (huser : policy.hasUsablePassword user = false) (hpath : m.SudoPath user) (later : ℕ) :
    (afterRequests policy (requests.take later) m).SudoPath user := by
  induction requests generalizing m later with
  | nil => simpa [afterRequests] using hpath
  | cons request rest ih =>
    cases later with
    | zero => exact hpath
    | succ n =>
      exact ih heach.2 ((sudoPath_after_iff hpath request).mpr (heach.1 user huser hpath)) n

/-- No account without a password loses its last sudo path exactly when each command of the
run leaves every such account one. -/
theorem never_locked_out_iff (policy : Policy) (m : Machine) (requests : List Request) :
    NeverLockedOut policy requests m ↔ EachLeaves policy requests m := by
  constructor
  · intro hnever
    induction requests generalizing m with
    | nil => trivial
    | cons request rest ih =>
      constructor
      · intro user huser hpath
        rw [← sudoPath_after_iff hpath]
        exact hnever user huser 0 1 (Nat.zero_le 1) hpath
      · apply ih
        intro user huser earlier later hle hpath
        exact hnever user huser (earlier + 1) (later + 1) (by omega) hpath
  · intro heach user huser earlier later hle hpath
    induction earlier generalizing requests m later with
    | zero => exact heach.kept huser hpath later
    | succ n ih =>
      cases requests with
      | nil => simpa [afterRequests] using hpath
      | cons request rest =>
        obtain ⟨k, rfl⟩ : ∃ k, later = k + 1 := ⟨later - 1, by omega⟩
        exact ih _ _ heach.2 k (by omega) hpath

/-- An account without a password enrolls its first key for sudo and removes it again. -/
theorem removed_last_key_locks_out :
    ¬ ∀ (policy : Policy) (m : Machine) (requests : List Request),
      NeverLockedOut policy requests m := by
  intro h
  have hkept := h ⟨fun username => username == "alice", some [("alice", "!")], true,
      fun _ => .ok ()⟩ ⟨freshHost, ∅⟩
    [.key (.enroll .sudo "alice" "1" "handle,key"), .key (.remove .sudo "alice" "1")]
    "alice" (by decide +kernel) 1 2 (by omega)
  rcases hkept (Or.inr ⟨by decide +kernel, by decide +kernel⟩) with
    ⟨name, file, hlookup, -⟩ | ⟨hmapping, -⟩
  · cases hlookup
  · exact hmapping (by decide +kernel)

end Requests

end SecurityKeys
