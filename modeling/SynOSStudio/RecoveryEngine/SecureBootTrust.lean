import SynOSStudio.RecoveryEngine.SecureBoot

/-!
# The trust that a Secure Boot check establishes

The walk over the DKMS tree meets every file, but the test of the names passes over modules that
are compressed with gzip or whose names are not text. Where no such module is in the tree, an
accepted target is trusted; where one is, it may be untrusted.
-/

namespace RecoveryEngine.SecureBoot

section Trees

/-- The regular files, by their paths below the directory. -/
def Listing.files (path : FilePath) : Listing → List FilePath
  | nil => []
  | failed _ => []
  | entry name .file rest => (path ++ [name]) :: rest.files path
  | entry _ _ rest => rest.files path
  | directory name inner rest => inner.files (path ++ [name]) ++ rest.files path
  | unreadable _ _ rest => rest.files path

/-- Nothing but readable directories and regular files. -/
def Listing.Plain : Listing → Prop
  | nil => True
  | failed _ => False
  | entry _ kind rest => kind = .file ∧ rest.Plain
  | directory _ inner rest => inner.Plain ∧ rest.Plain
  | unreadable _ _ _ => False

/-- A link or a special file somewhere. -/
def Listing.HasUnsafe : Listing → Prop
  | nil => False
  | failed _ => False
  | entry _ kind rest => kind = .symlink ∨ kind = .special ∨ rest.HasUnsafe
  | directory _ inner rest => inner.HasUnsafe ∨ rest.HasUnsafe
  | unreadable _ _ rest => rest.HasUnsafe

theorem Listing.HasUnsafe.not_plain {listing : Listing} (h : listing.HasUnsafe) :
    ¬ listing.Plain := by
  induction listing with
  | nil => exact h.elim
  | failed => exact h.elim
  | entry name kind rest ih =>
    rintro ⟨rfl, plain⟩
    rcases h with h | h | h
    · cases h
    · cases h
    · exact ih h plain
  | directory name inner rest ihInner ihRest =>
    rintro ⟨inside, beside⟩
    exact h.elim (fun h => ihInner h inside) fun h => ihRest h beside
  | unreadable => exact id

def Listing.modules (path : FilePath) (listing : Listing) : List FilePath :=
  (listing.files path).filter isKernelModule

theorem Listing.files_below (root path : FilePath) (listing : Listing) :
    listing.files (root ++ path) = (listing.files path).map (root ++ ·) := by
  induction listing generalizing path with
  | nil => rfl
  | failed => rfl
  | entry name kind rest ih => cases kind <;> simp [files, ih]
  | directory name inner rest ihInner ihRest => simp [files, ihInner, ihRest]
  | unreadable name error rest ih => exact ih path

theorem Listing.files_ne_nil {path file : FilePath} {listing : Listing}
    (h : file ∈ listing.files path) : ∃ front name, file = front ++ [name] := by
  induction listing generalizing path with
  | nil => simp [files] at h
  | failed => simp [files] at h
  | entry name kind rest ih =>
    cases kind with
    | file =>
      rcases List.mem_cons.mp h with rfl | h
      · exact ⟨path, name, rfl⟩
      · exact ih h
    | symlink => exact ih h
    | special => exact ih h
    | uninspectable => exact ih h
  | directory name inner rest ihInner ihRest =>
    exact (List.mem_append.mp h).elim ihInner ihRest
  | unreadable name error rest ih => exact ih h

theorem isKernelModule_below (root front : FilePath) (name : FileName) :
    isKernelModule (root ++ (front ++ [name])) = isKernelModule (front ++ [name]) := by
  simp [isKernelModule, fileName, ← List.append_assoc]

theorem Listing.modules_below (root : FilePath) (listing : Listing) :
    listing.modules root = (listing.modules []).map (root ++ ·) := by
  have below : listing.files root = (listing.files []).map (root ++ ·) := by
    simpa using listing.files_below root []
  rw [modules, modules, below, List.filter_map]
  congr 1
  refine List.filter_congr fun file hfile => ?_
  obtain ⟨front, name, rfl⟩ := files_ne_nil hfile
  exact isKernelModule_below root front name

end Trees

section Walk

/-- The modules below a waiting directory. -/
def modulesOf : Pending → List FilePath
  | (path, .ok listing) => listing.modules path
  | (_, .error _) => []

def PlainPending : Pending → Prop
  | (_, .ok listing) => listing.Plain
  | (_, .error _) => False

def turns : Pending → ℕ
  | (_, .ok listing) => 1 + listing.directories
  | (_, .error _) => 1

variable {display : FilePath → String} {path : FilePath} {listing : Listing}
  {pending pending' : List Pending} {modules modules' : List FilePath}

/-- What the reading of one directory keeps: the modules that are found or still ahead, the tree
that is plain, and the turns that are left. -/
structure Reads (path : FilePath) (listing : Listing) (pending pending' : List Pending)
    (modules modules' : List FilePath) : Prop where
  found : (modules' ++ pending'.flatMap modulesOf).Perm
    (modules ++ (listing.modules path ++ pending.flatMap modulesOf))
  plain : (∀ p ∈ pending', PlainPending p) ↔ listing.Plain ∧ ∀ p ∈ pending, PlainPending p
  turns : (pending'.map turns).sum = listing.directories + (pending.map turns).sum
  few : modules'.length ≤ maxDkmsModules

theorem readEntries_reads (few : modules.length ≤ maxDkmsModules)
    (h : readEntries display path listing pending modules = .ok (pending', modules')) :
    Reads path listing pending pending' modules modules' := by
  induction listing generalizing pending modules with
  | nil =>
    cases h
    exact ⟨by simp [Listing.modules, Listing.files], by simp [Listing.Plain],
      by simp [Listing.directories], few⟩
  | failed => cases h
  | entry name kind rest ih =>
    cases kind with
    | file =>
      simp only [readEntries] at h
      split_ifs at h with recognised many
      · have reads := ih (by omega) h
        exact ⟨by simpa [Listing.modules, Listing.files, recognised] using reads.found,
          by simpa [Listing.Plain] using reads.plain, reads.turns, reads.few⟩
      · have reads := ih few h
        exact ⟨by simpa [Listing.modules, Listing.files, recognised] using reads.found,
          by simpa [Listing.Plain] using reads.plain, reads.turns, reads.few⟩
    | symlink => cases h
    | special => cases h
    | uninspectable => cases h
  | directory name inner rest _ ih =>
    have reads := ih few h
    refine ⟨reads.found.trans ?_, ?_, ?_, reads.few⟩
    · simp only [Listing.modules, Listing.files, List.filter_append, List.flatMap_cons, modulesOf]
      refine List.Perm.append_left modules ?_
      rw [← List.append_assoc]
      exact List.Perm.append_right _ List.perm_append_comm
    · rw [reads.plain]
      simp only [Listing.Plain, List.forall_mem_cons, PlainPending]
      tauto
    · rw [reads.turns]
      simp only [List.map_cons, List.sum_cons, SecureBoot.turns, Listing.directories]
      omega
  | unreadable name error rest ih =>
    have reads := ih few h
    refine ⟨reads.found, ?_, ?_, reads.few⟩
    · rw [reads.plain]
      simp [Listing.Plain, PlainPending]
    · rw [reads.turns]
      simp only [List.map_cons, List.sum_cons, SecureBoot.turns, Listing.directories]
      omega

theorem readEntries_plain (plain : listing.Plain)
    (few : modules.length + (listing.modules path).length ≤ maxDkmsModules) :
    ∃ pending' modules', readEntries display path listing pending modules =
      .ok (pending', modules') := by
  induction listing generalizing pending modules with
  | nil => exact ⟨pending, modules, rfl⟩
  | failed => exact plain.elim
  | entry name kind rest ih =>
    obtain ⟨rfl, plain⟩ := plain
    simp only [readEntries]
    split_ifs with recognised many
    · simp only [Listing.modules, Listing.files, List.filter_cons, recognised, if_true,
        List.length_cons, List.length_append, List.length_nil] at few many
      omega
    · refine ih plain ?_
      simp only [Listing.modules, Listing.files, List.filter_cons, recognised, if_true,
        List.length_cons, List.length_append, List.length_nil] at few ⊢
      omega
    · refine ih plain ?_
      simpa [Listing.modules, Listing.files, recognised] using few
  | directory name inner rest _ ih =>
    refine ih plain.2 ?_
    simp only [Listing.modules, Listing.files, List.filter_append, List.length_append] at few ⊢
    omega
  | unreadable => exact plain.elim

theorem readPending_reads {fuel : ℕ} (enough : (pending.map turns).sum ≤ fuel)
    (few : modules.length ≤ maxDkmsModules)
    (h : readPending display fuel pending modules = .ok modules') :
    modules'.Perm (modules ++ pending.flatMap modulesOf) ∧ (∀ p ∈ pending, PlainPending p) ∧
      modules'.length ≤ maxDkmsModules := by
  induction fuel generalizing pending modules with
  | zero =>
    cases pending with
    | nil =>
      cases h
      exact ⟨by simp, by simp, few⟩
    | cons p pending =>
      obtain ⟨path, listing | listing⟩ := p <;>
        simp only [List.map_cons, List.sum_cons, turns] at enough <;> omega
  | succ fuel ih =>
    cases pending with
    | nil =>
      cases h
      exact ⟨by simp, by simp, few⟩
    | cons p pending =>
      obtain ⟨path, error | listing⟩ := p
      · cases h
      · simp only [readPending] at h
        cases read : readEntries display path listing pending modules with
        | error e =>
          rw [read] at h
          cases h
        | ok result =>
          obtain ⟨next, found⟩ := result
          rw [read] at h
          have reads := readEntries_reads few read
          have left : (next.map turns).sum = _ := reads.turns
          simp only [List.map_cons, List.sum_cons, turns] at enough
          have enough : (next.map turns).sum ≤ fuel := by omega
          obtain ⟨perm, plain, few'⟩ := ih enough reads.few h
          refine ⟨perm.trans reads.found, ?_, few'⟩
          simpa [PlainPending] using reads.plain.mp plain

theorem readPending_plain {fuel : ℕ} (enough : (pending.map turns).sum ≤ fuel)
    (plain : ∀ p ∈ pending, PlainPending p)
    (few : (modules ++ pending.flatMap modulesOf).length ≤ maxDkmsModules) :
    ∃ modules', readPending display fuel pending modules = .ok modules' := by
  induction fuel generalizing pending modules with
  | zero => cases pending <;> exact ⟨modules, rfl⟩
  | succ fuel ih =>
    cases pending with
    | nil => exact ⟨modules, rfl⟩
    | cons p pending =>
      obtain ⟨path, error | listing⟩ := p
      · exact (plain _ List.mem_cons_self).elim
      · obtain ⟨here, ahead⟩ := List.forall_mem_cons.mp plain
        simp only [List.flatMap_cons, modulesOf, List.length_append] at few
        obtain ⟨next, found, read⟩ := @readEntries_plain display path listing pending modules here
          (by omega)
        have reads := readEntries_reads (by omega) read
        have left := reads.turns
        simp only [List.map_cons, List.sum_cons, turns] at enough
        obtain ⟨modules', rest⟩ := @ih next found (by omega) (reads.plain.mpr ⟨here, ahead⟩)
          (by rw [reads.found.length_eq]; simpa using few)
        refine ⟨modules', ?_⟩
        simp only [readPending, read]
        exact rest

end Walk

section Roots

/-- The regular files, by their paths below `updates/dkms`. -/
def DkmsRoot.files : DkmsRoot → List FilePath
  | directory listing => listing.files []
  | _ => []

/-- The tree is one that the walk comes through: plain, and with few recognised modules. -/
def DkmsRoot.Walked : DkmsRoot → Prop
  | missing => True
  | directory listing => listing.Plain ∧ (listing.modules []).length ≤ maxDkmsModules
  | _ => False

/-- A link or a special file in the tree, or in its place. -/
def DkmsRoot.HasUnsafe : DkmsRoot → Prop
  | notDirectory => True
  | directory listing => listing.HasUnsafe
  | _ => False

theorem DkmsRoot.HasUnsafe.not_walked {tree : DkmsRoot} (h : tree.HasUnsafe) : ¬ tree.Walked := by
  cases tree with
  | directory listing => exact fun walked => Listing.HasUnsafe.not_plain h walked.1
  | notDirectory => exact id
  | _ => exact h.elim

variable {display : FilePath → String} {root : FilePath} {tree : DkmsRoot}
  {modules : List FilePath}

/-- The walk collects the recognised files, from wherever they are in the tree. -/
theorem collectDkmsModules_collects (h : collectDkmsModules display root tree = .ok modules) :
    tree.Walked ∧ ∀ path, path ∈ modules ↔
      ∃ file ∈ tree.files, isKernelModule file ∧ path = root ++ file := by
  cases tree with
  | missing =>
    cases h
    exact ⟨trivial, by simp [DkmsRoot.files]⟩
  | uninspectable => cases h
  | notDirectory => cases h
  | unreadable => cases h
  | directory listing =>
    obtain ⟨found, walk, sorted⟩ := bind_eq_ok.mp h
    cases sorted
    obtain ⟨perm, plain, few⟩ := readPending_reads (by simp [turns]) (Nat.zero_le _) walk
    have perm : found.Perm (listing.modules root) := by simpa [modulesOf] using perm
    refine ⟨⟨by simpa [PlainPending] using plain, ?_⟩, fun path => ?_⟩
    · rw [perm.length_eq, listing.modules_below, List.length_map] at few
      exact few
    · rw [List.mem_insertionSort, perm.mem_iff, listing.modules_below]
      simp only [Listing.modules, DkmsRoot.files, List.mem_map, List.mem_filter, and_assoc,
        @eq_comm _ path]

theorem collectDkmsModules_walked (h : tree.Walked) :
    ∃ modules, collectDkmsModules display root tree = .ok modules := by
  cases tree with
  | missing => exact ⟨[], rfl⟩
  | uninspectable => exact h.elim
  | notDirectory => exact h.elim
  | unreadable => exact h.elim
  | directory listing =>
    have few : (listing.modules root).length ≤ maxDkmsModules := by
      rw [listing.modules_below, List.length_map]
      exact h.2
    obtain ⟨found, walk⟩ := @readPending_plain display [(root, .ok listing)] []
      (1 + listing.directories) (by simp [turns]) (by simpa [PlainPending] using h.1)
      (by simpa [modulesOf] using few)
    exact ⟨found.insertionSort (· ≤ ·), bind_eq_ok.mpr ⟨found, walk, rfl⟩⟩

end Roots

section Trust

def moduleSuffixes : List FileName :=
  [".ko", ".ko.gz", ".ko.xz", ".ko.zst"].map encode

def IsModuleFile (file : FilePath) : Prop :=
  ∃ suffix ∈ moduleSuffixes, suffix <:+ fileName file

variable (sha256 : List UInt8 → String) (tools : Tools) (certificate : PlainFile)
  (snapshot : Snapshot) (record : DeploymentRecord)

/-- The MOK is present and enrolled, it is the recorded one, and its key is on every module. -/
structure Signed (state : ToolkitSecureBootState) (root : FilePath) : Prop where
  present : state.keyPresent ∧ state.certificatePresent ∧ state.enrolled
  digest : ∃ content, certificate.content = .ok (.ok content) ∧
    record.mokCertificateSha256 = some (sha256 content)
  keyed : ∃ serial, state.certificateSerial = some serial ∧ normalizeKey serial ≠ "" ∧
    ∀ file ∈ snapshot.dkms.files, IsModuleFile file → ∃ signature,
      tools.sigKey (root ++ file) = .ok signature ∧ normalizeKey signature = normalizeKey serial

/-- What an accepted target is promised to be. -/
def Trusted : Prop :=
  ∃ status, tools.status = .ok (.ok status) ∧ status.schema = 2 ∧
    ((status.secureBoot.status = .disabled ∨ status.secureBoot.status = .unsupported) ∧
        status.secureBoot.enabled = false ∨
      status.secureBoot.status = .enabled ∧ status.secureBoot.enabled ∧
        ∃ kernelRelease, record.kernelRelease = some kernelRelease ∧
          (∃ output, tools.list (kernelPath snapshot.root kernelRelease) = .ok output) ∧
          ((∀ file ∈ snapshot.dkms.files, ¬ IsModuleFile file) ∨
            Signed sha256 tools certificate snapshot record status.secureBoot
              (modulesRoot snapshot.root kernelRelease)))

def Enabled : Prop :=
  ∃ status, tools.status = .ok (.ok status) ∧ status.secureBoot.status = .enabled

/-- The check promises what it establishes, and accepts no tree with a link or a special file. -/
def Sound (display : FilePath → String) : Prop :=
  (verifyTarget display sha256 tools certificate snapshot record = .ok () →
      Trusted sha256 tools certificate snapshot record) ∧
    (Enabled tools → snapshot.dkms.HasUnsafe →
      verifyTarget display sha256 tools certificate snapshot record ≠ .ok ())

/-- A check comes before the rest. -/
theorem ensure_bind_eq_ok {ε α : Type} {condition : Bool} {error : ε} {rest : Unit → Except ε α}
    {a : α} : ensure condition error >>= rest = .ok a ↔ condition = true ∧ rest () = .ok a := by
  cases condition <;> simp [ensure, bind, Except.bind]

variable {sha256 tools certificate snapshot record} {display : FilePath → String}

theorem ensureRegularFile_eq_ok {path : FilePath} {file : PlainFile} {description : String} :
    ensureRegularFile display path file description = .ok () ↔
      ∃ metadata, file.metadata = .ok metadata ∧ metadata.isFile ∧ metadata.nlink = 1 := by
  unfold ensureRegularFile
  split
  · simp [*]
  · split_ifs with regular <;> simp_all

theorem hashRegularFile_eq_ok {path : FilePath} {file : PlainFile} {digest : String} :
    hashRegularFile display sha256 path file = .ok digest ↔
      (∃ metadata, file.metadata = .ok metadata ∧ metadata.isFile ∧ metadata.nlink = 1) ∧
        ∃ content, file.content = .ok (.ok content) ∧ sha256 content = digest := by
  unfold hashRegularFile
  rw [bind_eq_ok, ← @ensureRegularFile_eq_ok display path file "MOK certificate"]
  constructor
  · rintro ⟨_, regular, h⟩
    refine ⟨regular, ?_⟩
    split at h
    · cases h
    · cases h
    · exact ⟨_, ‹_›, Except.ok.inj h⟩
  · rintro ⟨regular, content, hcontent, rfl⟩
    exact ⟨(), regular, by rw [hcontent]⟩

theorem toolkitStatus_eq_ok {status : ToolkitStatus} :
    toolkitStatus tools = .ok status ↔ tools.status = .ok (.ok status) ∧ status.schema = 2 ∧
      (status.secureBoot.enabled ↔ status.secureBoot.status = .enabled) := by
  unfold toolkitStatus
  rw [bind_eq_ok]
  constructor
  · rintro ⟨answer, hanswer, h⟩
    split at h
    · cases h
    · simp only [ensure_bind_eq_ok, beq_iff_eq] at h
      obtain ⟨schema, enabled, h⟩ := h
      cases h
      exact ⟨hanswer, schema, by rw [enabled, beq_iff_eq]⟩
  · rintro ⟨hanswer, schema, enabled⟩
    refine ⟨_, hanswer, ?_⟩
    simp only [ensure_bind_eq_ok, beq_iff_eq]
    exact ⟨schema, Bool.eq_iff_iff.mpr (enabled.trans beq_iff_eq.symm), rfl⟩

theorem verifyModules_eq_ok {expectedKey : String} {files : List FilePath} :
    verifyModules display tools expectedKey files = .ok () ↔ ∀ file ∈ files, ∃ signature,
      tools.sigKey file = .ok signature ∧ normalizeKey signature = expectedKey := by
  induction files with
  | nil => simp [verifyModules]
  | cons file files ih =>
    rw [verifyModules, bind_eq_ok]
    simp only [ensure_bind_eq_ok, ih, beq_iff_eq, List.forall_mem_cons, ← and_assoc,
      exists_and_right]

theorem verifyTrust_eq_ok {state : ToolkitSecureBootState} {modules : List FilePath} :
    verifyTrust display sha256 tools state certificate record modules = .ok () ↔
      (state.keyPresent ∧ state.certificatePresent ∧ state.enrolled) ∧
        (∃ metadata, certificate.metadata = .ok metadata ∧ metadata.isFile ∧ metadata.nlink = 1) ∧
        (∃ content, certificate.content = .ok (.ok content) ∧
          record.mokCertificateSha256 = some (sha256 content)) ∧
        normalizeKey (state.certificateSerial.getD "") ≠ "" ∧
        ∀ file ∈ modules, ∃ signature, tools.sigKey file = .ok signature ∧
          normalizeKey signature = normalizeKey (state.certificateSerial.getD "") := by
  unfold verifyTrust
  simp only [ensure_bind_eq_ok, Bool.and_eq_true, and_assoc]
  refine and_congr_right fun _ => and_congr_right fun _ => and_congr_right fun _ => ?_
  cases recorded : record.mokCertificateSha256 with
  | none => simp
  | some expected =>
    dsimp only
    rw [bind_eq_ok]
    simp only [ensure_bind_eq_ok, hashRegularFile_eq_ok, verifyModules_eq_ok, beq_iff_eq,
      bne_iff_ne, Option.some.injEq]
    constructor
    · rintro ⟨_, ⟨regular, content, hcontent, rfl⟩, rfl, key, keyed⟩
      exact ⟨regular, ⟨content, hcontent, rfl⟩, key, keyed⟩
    · rintro ⟨regular, ⟨content, hcontent, same⟩, key, keyed⟩
      exact ⟨_, ⟨regular, content, hcontent, rfl⟩, same.symm, key, keyed⟩

/-- What the check asks of the snapshot when Secure Boot is enabled. -/
theorem verifyEnabled_eq_ok {state : ToolkitSecureBootState} :
    verifyEnabled display sha256 tools state certificate snapshot record = .ok () ↔
      ∃ kernelRelease, record.kernelRelease = some kernelRelease ∧
        (∃ metadata, snapshot.kernel.metadata = .ok metadata ∧ metadata.isFile ∧
          metadata.nlink = 1) ∧
        (∃ output, tools.list (kernelPath snapshot.root kernelRelease) = .ok output) ∧
        ∃ modules, collectDkmsModules display (modulesRoot snapshot.root kernelRelease)
            snapshot.dkms = .ok modules ∧
          (modules = [] ∨
            verifyTrust display sha256 tools state certificate record modules = .ok ()) := by
  unfold verifyEnabled
  cases record.kernelRelease with
  | none => simp
  | some kernelRelease =>
    simp only [bind_eq_ok, Option.some.injEq, exists_eq_left']
    constructor
    · rintro ⟨_, regular, h⟩
      refine ⟨ensureRegularFile_eq_ok.mp regular, ?_⟩
      split at h
      · cases h
      · obtain ⟨modules, collect, h⟩ := bind_eq_ok.mp h
        refine ⟨⟨_, ‹_›⟩, modules, collect, ?_⟩
        split_ifs at h with none
        · exact Or.inl (List.isEmpty_iff.mp none)
        · exact Or.inr h
    · rintro ⟨regular, ⟨output, signed⟩, modules, collect, h⟩
      refine ⟨(), ensureRegularFile_eq_ok.mpr regular, ?_⟩
      rw [signed]
      refine bind_eq_ok.mpr ⟨modules, collect, ?_⟩
      split_ifs with none
      · rfl
      · exact h.resolve_left fun h => none (List.isEmpty_iff.mpr h)

theorem verifyTarget_eq_ok :
    verifyTarget display sha256 tools certificate snapshot record = .ok () ↔
      ∃ status, tools.status = .ok (.ok status) ∧ status.schema = 2 ∧
        ((status.secureBoot.status = .disabled ∨ status.secureBoot.status = .unsupported) ∧
            status.secureBoot.enabled = false ∨
          status.secureBoot.status = .enabled ∧ status.secureBoot.enabled ∧
            verifyEnabled display sha256 tools status.secureBoot certificate snapshot record =
              .ok ()) := by
  unfold verifyTarget
  simp only [bind_eq_ok, toolkitStatus_eq_ok, and_assoc]
  refine exists_congr fun status => and_congr_right fun _ => and_congr_right fun _ => ?_
  cases state : status.secureBoot.status <;> simp [pure, Except.pure]

end Trust

section Soundness

variable {sha256 : List UInt8 → String} {tools : Tools} {certificate : PlainFile}
  {snapshot : Snapshot} {record : DeploymentRecord} {display : FilePath → String}

/-- Every module file of a tree that the walk comes through is recognised by its name. -/
def DkmsRoot.Recognised (tree : DkmsRoot) : Prop :=
  tree.Walked → ∀ file ∈ tree.files, IsModuleFile file → isKernelModule file

theorem signed_of_verifyTrust {state : ToolkitSecureBootState} {root : FilePath}
    {modules : List FilePath} (recognised : snapshot.dkms.Recognised)
    (collect : collectDkmsModules display root snapshot.dkms = .ok modules)
    (trust : verifyTrust display sha256 tools state certificate record modules = .ok ()) :
    Signed sha256 tools certificate snapshot record state root := by
  obtain ⟨walked, collected⟩ := collectDkmsModules_collects collect
  obtain ⟨present, -, digest, usable, keyed⟩ := verifyTrust_eq_ok.mp trust
  cases serial : state.certificateSerial with
  | none => exact absurd (by rw [serial]; decide +kernel) usable
  | some key =>
    rw [serial] at usable keyed
    refine ⟨present, digest, key, serial, usable, fun file hfile isModule => ?_⟩
    exact keyed _ ((collected _).mpr ⟨file, hfile, recognised walked file hfile isModule, rfl⟩)

theorem sound_of_recognised (recognised : snapshot.dkms.Recognised) :
    Sound sha256 tools certificate snapshot record display := by
  constructor
  · intro accepted
    obtain ⟨status, report, schema, off | ⟨on, enabled, checks⟩⟩ := verifyTarget_eq_ok.mp accepted
    · exact ⟨status, report, schema, Or.inl off⟩
    · obtain ⟨kernelRelease, release, -, signed, modules, collect, h⟩ :=
        verifyEnabled_eq_ok.mp checks
      refine ⟨status, report, schema, Or.inr ⟨on, enabled, kernelRelease, release, signed, ?_⟩⟩
      rcases h with rfl | trust
      · left
        intro file hfile isModule
        obtain ⟨walked, collected⟩ := collectDkmsModules_collects collect
        have found := (collected _).mpr
          ⟨file, hfile, recognised walked file hfile isModule, rfl⟩
        exact absurd found List.not_mem_nil
      · exact Or.inr (signed_of_verifyTrust recognised collect trust)
  · rintro ⟨status, report, on⟩ unsafeTree accepted
    obtain ⟨status', report', -, checks⟩ := verifyTarget_eq_ok.mp accepted
    have same : status = status' := Except.ok.inj (Except.ok.inj (report.symm.trans report'))
    subst same
    rcases checks with ⟨off | off, -⟩ | ⟨-, -, checks⟩
    · cases on.symm.trans off
    · cases on.symm.trans off
    · obtain ⟨_, -, -, -, modules, collect, -⟩ := verifyEnabled_eq_ok.mp checks
      exact unsafeTree.not_walked (collectDkmsModules_collects collect).1

/-- A restorable record of a system with DKMS modules. -/
def dkmsRecord (mok : String) : DeploymentRecord where
  schemaVersion := deploymentSchemaVersion
  id := ⟨List.replicate 32 0, rfl⟩
  parentId := none
  kind := .manual
  state := .ready
  createdAt := 0
  title := "test"
  reason := "test"
  scheduleId := none
  snapshotUuid := some "22222222-2222-2222-2222-222222222222"
  snapshotParentUuid := none
  kernelRelease := some "7.0.0"
  initramfsSha256 := some (String.ofList (List.replicate 64 'a'))
  bootArtifactSha256 := some (String.ofList (List.replicate 64 'b'))
  dpkgStatusSha256 := some (String.ofList (List.replicate 64 'c'))
  mokCertificateSha256 := some mok
  pinned := false
  failure := none

/-- Everything is in order, but one file has no signature. -/
def toolsButFor (file : FilePath) : Tools where
  status := .ok (.ok ⟨2, ⟨true, .enabled, true, true, true, some "AA:12"⟩⟩)
  list _ := .ok "signature"
  sigKey path := if path = file then .ok "" else .ok "aa12"

def privateFile : PlainFile := ⟨.ok ⟨true, 1⟩, .ok (.ok [])⟩

theorem accepts_unrecognised {tree : DkmsRoot} {file : FilePath} (walked : tree.Walked)
    (unrecognised : ¬ isKernelModule file) :
    verifyTarget display sha256 (toolsButFor (modulesRoot [] "7.0.0" ++ file)) privateFile
      ⟨[], privateFile, tree⟩ (dkmsRecord (sha256 [])) = .ok () := by
  have regular : ∃ metadata, privateFile.metadata = .ok metadata ∧ metadata.isFile ∧
      metadata.nlink = 1 := ⟨_, rfl, rfl, rfl⟩
  obtain ⟨modules, collect⟩ := @collectDkmsModules_walked display (modulesRoot [] "7.0.0") tree
    walked
  have other : ∀ path ∈ modules, path ≠ modulesRoot [] "7.0.0" ++ file := by
    rintro path hpath rfl
    obtain ⟨file', -, recognised, same⟩ := ((collectDkmsModules_collects collect).2 _).mp hpath
    exact unrecognised (List.append_cancel_left same ▸ recognised)
  have keyed : ∀ path ∈ modules, ∃ signature,
      (toolsButFor (modulesRoot [] "7.0.0" ++ file)).sigKey path = .ok signature ∧
        normalizeKey signature = normalizeKey "AA:12" := by
    intro path hpath
    exact ⟨"aa12", by simp [toolsButFor, other path hpath], by decide +kernel⟩
  refine verifyTarget_eq_ok.mpr ⟨_, rfl, rfl, Or.inr ⟨rfl, rfl, ?_⟩⟩
  refine verifyEnabled_eq_ok.mpr ⟨"7.0.0", rfl, regular, ⟨_, rfl⟩, modules, collect, Or.inr ?_⟩
  exact verifyTrust_eq_ok.mpr ⟨⟨rfl, rfl, rfl⟩, regular, ⟨[], rfl, rfl⟩, by decide +kernel, keyed⟩

end Soundness

end RecoveryEngine.SecureBoot
