import SynOSStudio.BuildTools.Bundles

/-!
# What applying a bundle changes

The names that a report without errors lets through, what writing one of them does to the
checkout, and from both what the whole loop of `apply_bundle` may change.
-/

namespace BuildTools

section Names

/-- Strictly below one of the directories that bundles are copied into. -/
def BelowBundleDirectory (path : CheckoutPath) : Prop :=
  ∃ directory ∈ BUNDLE_DIRECTORIES, ∃ rest, rest ≠ [] ∧ ".." ∉ rest ∧ path = directory :: rest

theorem pathParts_of_prefix {directory name : String} (hslash : '/' ∉ directory.toList)
    (hpart : directory ≠ "" ∧ directory ≠ ".")
    (h : startsWith (directory ++ "/") name = true) : ∃ rest, pathParts name = directory :: rest := by
  obtain ⟨rest, hrest⟩ := List.isPrefixOf_iff_prefix.mp h
  have hsplit : splitPath name = directory :: (rest.splitOn '/').map String.ofList := by
    unfold splitPath
    rw [← hrest, String.toList_append]
    show List.map String.ofList ((directory.toList ++ ['/'] ++ rest).splitOn '/') = _
    rw [List.append_assoc, List.singleton_append, List.splitOn_append_cons_self,
      List.splitOn_eq_singleton hslash, List.singleton_append, List.map_cons, String.ofList_toList]
  refine ⟨((rest.splitOn '/').map String.ofList).filter fun part => part != "" && part != ".", ?_⟩
  unfold pathParts
  rw [hsplit, List.filter_cons_of_pos (by simpa using hpart)]

theorem pathParts_of_allowedPrefix {name : String} (h : allowedPrefix name = true) :
    ∃ directory ∈ BUNDLE_DIRECTORIES, ∃ rest, pathParts name = directory :: rest := by
  have hcases : ∃ directory ∈ BUNDLE_DIRECTORIES, startsWith (directory ++ "/") name = true := by
    obtain ⟨start, hstart, hname⟩ := List.any_eq_true.mp h
    have hmap : ALLOWED_PREFIXES = BUNDLE_DIRECTORIES.map fun d => d ++ "/" := by decide
    rw [hmap] at hstart
    obtain ⟨directory, hdirectory, rfl⟩ := List.mem_map.mp hstart
    exact ⟨directory, hdirectory, hname⟩
  obtain ⟨directory, hdirectory, hstart⟩ := hcases
  have hplain : ∀ d ∈ BUNDLE_DIRECTORIES, '/' ∉ d.toList ∧ d ≠ "" ∧ d ≠ "." := by decide
  obtain ⟨hslash, hpart⟩ := hplain directory hdirectory
  exact ⟨directory, hdirectory, pathParts_of_prefix hslash hpart hstart⟩

end Names

section Inspection

variable {engine : Engine} {checkout : Checkout} {bundle : Bundle}

theorem inspectManifest_keeps {manifestName : String} (report : Report) :
    (inspectManifest engine checkout bundle manifestName report).files = report.files ∧
    (inspectManifest engine checkout bundle manifestName report).ignored = report.ignored ∧
    (inspectManifest engine checkout bundle manifestName report).integrity = report.integrity ∧
    (inspectManifest engine checkout bundle manifestName report).signature = report.signature ∧
    (inspectManifest engine checkout bundle manifestName report).descriptor = report.descriptor := by
  unfold inspectManifest
  split
  · exact ⟨rfl, rfl, rfl, rfl, rfl⟩
  · split
    · exact ⟨rfl, rfl, rfl, rfl, rfl⟩
    · exact ⟨rfl, rfl, rfl, rfl, rfl⟩

theorem inspectManifest_errors {manifestName : String} {report : Report}
    (h : (inspectManifest engine checkout bundle manifestName report).errors = []) :
    report.errors = [] := by
  unfold inspectManifest at h
  split at h
  · simp at h
  · split at h
    · simp at h
    · simp only [List.append_assoc, List.append_eq_nil_iff] at h
      exact h.1

/-- What a report without errors says. -/
structure Inspected (engine : Engine) (bundle : Bundle) (descriptor : Descriptor)
    (report : Report) : Prop where
  files : report.files = bundle.names
  ignored : report.ignored = ignoredNames bundle.names
  integrity : report.integrity = integrityReport engine bundle descriptor
  signature : report.signature = some (signatureStatus engine descriptor)
  descriptor : report.descriptor = some descriptor
  safe : unsafeErrors bundle.names = []

theorem inspected_of_errors (h : (inspectBundle engine checkout bundle).errors = []) :
    ∃ descriptor, engine.loadDescriptor (bundle.read "bundle.json") = .ok descriptor ∧
      Inspected engine bundle descriptor (inspectBundle engine checkout bundle) := by
  unfold inspectBundle at h ⊢
  split at h
  · cases h
  · rename_i hnamed
    rw [if_neg hnamed]
    cases hload : engine.loadDescriptor (bundle.read "bundle.json") with
    | error refusal =>
      rw [hload] at h
      cases h
    | ok descriptor =>
      rw [hload] at h
      obtain ⟨hfiles, hignored, hintegrity, hsignature, hdescriptor⟩ := inspectManifest_keeps _
      have herrors := inspectManifest_errors h
      exact ⟨descriptor, rfl, hfiles, hignored, hintegrity, hsignature, hdescriptor,
        (List.append_eq_nil_iff.mp herrors).2⟩

/-- The members that are not passed over are safe names with an allowed prefix. -/
theorem Inspected.copied_name {descriptor : Descriptor} {report : Report}
    (h : Inspected engine bundle descriptor report) {name : String} (hname : name ∈ bundle.names)
    (hcopied : report.passesOver name = false) :
    safeRelative name = true ∧ allowedPrefix name = true := by
  unfold Report.passesOver at hcopied
  rw [Bool.or_eq_false_iff] at hcopied
  obtain ⟨hdoc, hignored⟩ := hcopied
  have hsafe : safeRelative name = true := by
    by_contra hunsafe
    have hmem : "unsafe path in bundle: " ++ name ∈ unsafeErrors bundle.names :=
      List.mem_map.mpr ⟨name, List.mem_filter.mpr ⟨hname, by simp [hdoc, hunsafe]⟩, rfl⟩
    rw [h.safe] at hmem
    cases hmem
  refine ⟨hsafe, ?_⟩
  by_contra hbelow
  have hmem : name ∈ ignoredNames bundle.names :=
    List.mem_filter.mpr ⟨hname, by simp [hdoc, hsafe, hbelow]⟩
  rw [h.ignored] at hignored
  simp [hmem] at hignored

end Inspection

section Writing

/-- The bytes of the file at a path. -/
def Checkout.content (c : Checkout) (path : CheckoutPath) : Option (List UInt8) :=
  match c.node path with
  | some (.file content) => some content
  | _ => none

theorem Checkout.content_of_isFile {c : Checkout} {path : CheckoutPath} (h : c.isFile path = false) :
    c.content path = none := by
  cases hnode : c.node path with
  | none => simp [Checkout.content, hnode]
  | some node =>
    cases node with
    | file content => simp [Checkout.isFile, hnode] at h
    | directory => simp [Checkout.content, hnode]

/-- A write that succeeds sets the bytes of its target and of nothing else. -/
theorem Checkout.writeFile_spec {c c' : Checkout} {target : CheckoutPath} {content : List UInt8}
    (h : c.writeFile target content = .ok c') :
    c.node target ≠ some .directory ∧ c'.content target = some content ∧
      ∀ path, path ≠ target → c'.content path = c.content path := by
  unfold Checkout.writeFile at h
  split at h
  · cases h
  · rename_i hnofile
    split at h
    · cases h
    · rename_i hdirectory
      cases h
      refine ⟨hdirectory, ?_, fun path hpath => ?_⟩
      · simp [Checkout.content]
      · by_cases hparent : path ∈ parents target
        · have hbefore : c.content path = none := by
            apply Checkout.content_of_isFile
            have hall := List.find?_eq_none.mp hnofile path hparent
            simpa using hall
          rw [hbefore]
          simp [Checkout.content, hpath, hparent]
        · simp [Checkout.content, hpath, hparent]

end Writing

section Loop

variable {bundle : Bundle} {report : Report} {force : Bool}

/-- What the loop has written, against the checkout it started from. -/
structure Written (start : Checkout) (bundle : Bundle) (report : Report) (force : Bool)
    (s : Applying) : Prop where
  copied : ∀ name ∈ s.applied, name ∈ report.files ∧ report.passesOver name = false
  proper : ∀ name ∈ s.applied, ∀ directory ∈ BUNDLE_DIRECTORIES, pathParts name ≠ [directory]
  content : ∀ name ∈ s.applied, ∃ name' ∈ s.applied, pathParts name' = pathParts name ∧
    s.checkout.content (pathParts name) = some (bundle.read name')
  changed : ∀ path, (∀ name ∈ s.applied, pathParts name ≠ path) →
    s.checkout.content path = start.content path
  fresh : force = false → ∀ name ∈ s.applied, start.content (pathParts name) = none

/-- What one turn of the loop can do to the files. -/
theorem applyName_cases {s s' : Applying} {name : String}
    (h : s.applyName bundle report force name = .ok s') :
    (s'.checkout = s.checkout ∧ s'.applied = s.applied) ∨
    (report.passesOver name = false ∧ (force = false → s.checkout.node (pathParts name) = none) ∧
      s.checkout.writeFile (pathParts name) (bundle.read name) = .ok s'.checkout ∧
      s'.applied = s.applied ++ [name]) := by
  unfold Applying.applyName at h
  split at h
  · cases h
    exact Or.inl ⟨rfl, rfl⟩
  · rename_i hcopied
    split at h
    · cases h
    · split at h
      · cases h
        exact Or.inl ⟨rfl, rfl⟩
      · cases h
        exact Or.inl ⟨rfl, rfl⟩
    · rename_i hdirectory hfile
      refine Or.inr ⟨by simpa using hcopied, fun hforce => ?_, ?_⟩
      · cases hnode : s.checkout.node (pathParts name) with
        | none => rfl
        | some node =>
          cases node with
          | directory => exact absurd hforce (hdirectory hnode)
          | file content => exact absurd hforce (hfile content hnode)
      · unfold Applying.write at h
        split at h
        · cases h
        · rename_i checkout hwrite
          cases h
          exact ⟨hwrite, rfl⟩

theorem Written.start (c : Checkout) : Written c bundle report force ⟨c, [], [], []⟩ where
  copied _ h := absurd h List.not_mem_nil
  proper _ h := absurd h List.not_mem_nil
  content _ h := absurd h List.not_mem_nil
  changed _ _ := rfl
  fresh _ _ h := absurd h List.not_mem_nil

/-- One turn of the loop keeps the account of what was written. -/
theorem Written.applyName {start : Checkout} {s s' : Applying} {name : String}
    (h : Written start bundle report force s) (hname : name ∈ report.files)
    (hstep : s.applyName bundle report force name = .ok s') :
    Written start bundle report force s' := by
  rcases applyName_cases hstep with ⟨hcheckout, happlied⟩ | ⟨hcopied, habsent, hwrite, happlied⟩
  · obtain ⟨h1, h2, h3, h4, h5⟩ := h
    constructor <;> rw [happlied]
    · exact h1
    · exact h2
    · rw [hcheckout]
      exact h3
    · rw [hcheckout]
      exact h4
    · exact h5
  · obtain ⟨hdirectory, hcontent, hother⟩ := Checkout.writeFile_spec hwrite
    have hcases : ∀ n, n ∈ s'.applied ↔ n ∈ s.applied ∨ n = name := by
      intro n
      rw [happlied, List.mem_append, List.mem_singleton]
    constructor
    · intro n hn
      rcases (hcases n).mp hn with hold | rfl
      · exact h.copied n hold
      · exact ⟨hname, hcopied⟩
    · intro n hn directory hmem heq
      rcases (hcases n).mp hn with hold | rfl
      · exact h.proper n hold directory hmem heq
      · rw [heq] at hdirectory
        exact hdirectory (s.checkout.bundleDirectories directory hmem)
    · intro n hn
      by_cases heq : pathParts n = pathParts name
      · exact ⟨name, (hcases name).mpr (Or.inr rfl), heq.symm, by rw [heq]; exact hcontent⟩
      · rcases (hcases n).mp hn with hold | rfl
        · obtain ⟨n', hn', hpath, hbytes⟩ := h.content n hold
          exact ⟨n', (hcases n').mpr (Or.inl hn'), hpath, (hother _ heq).trans hbytes⟩
        · exact absurd rfl heq
    · intro path hpath
      have hne : path ≠ pathParts name := fun heq =>
        hpath name ((hcases name).mpr (Or.inr rfl)) heq.symm
      rw [hother path hne]
      exact h.changed path fun n hn => hpath n ((hcases n).mpr (Or.inl hn))
    · intro hforce n hn
      rcases (hcases n).mp hn with hold | rfl
      · exact h.fresh hforce n hold
      · have hnone : s.checkout.content (pathParts n) = none := by
          unfold Checkout.content
          rw [habsent hforce]
        by_cases hwritten : ∀ m ∈ s.applied, pathParts m ≠ pathParts n
        · rw [← h.changed _ hwritten]
          exact hnone
        · push Not at hwritten
          obtain ⟨m, hm, heq⟩ := hwritten
          obtain ⟨_, _, _, hbytes⟩ := h.content m hm
          rw [heq, hnone] at hbytes
          cases hbytes

theorem Written.applyNames {start : Checkout} {s : Applying} {names : List String}
    (h : Written start bundle report force s) (hnames : ∀ name ∈ names, name ∈ report.files) :
    Written start bundle report force (s.applyNames bundle report force names).1 := by
  induction names generalizing s with
  | nil => exact h
  | cons name rest ih =>
    unfold Applying.applyNames
    split
    · exact h
    · rename_i s' hstep
      exact ih (h.applyName (hnames name List.mem_cons_self) hstep)
        fun n hn => hnames n (List.mem_cons_of_mem name hn)

theorem Written.applyBundle (checkout : Checkout) :
    Written checkout bundle report force (applyBundle checkout bundle report force).2 :=
  (Written.start checkout).applyNames fun _ h => h

/-- Two checkouts differ in the bytes of the file at a path. -/
def Differs (c c' : Checkout) (path : CheckoutPath) : Prop :=
  c'.content path ≠ c.content path

/-- The `applied` list of a result or of a `Failure`. -/
def ApplyResult.reported : ApplyResult → Option (List String)
  | .returned applied _ => some applied
  | .failure _ applied => some applied
  | .raised _ => none

theorem reported_finish {s : Applying} {error : Option OSError} {applied : List String}
    (h : (s.finish error).reported = some applied) : applied = s.applied := by
  unfold Applying.finish at h
  split at h
  · cases h
  · split at h
    · exact (Option.some.inj h).symm
    · exact (Option.some.inj h).symm

end Loop

section Results

variable {engine : Engine} {bundle : Bundle} {force : Bool}

theorem BelowBundleDirectory.of_copied {descriptor : Descriptor} {report : Report} {name : String}
    (h : Inspected engine bundle descriptor report) (hname : name ∈ bundle.names)
    (hcopied : report.passesOver name = false)
    (hproper : ∀ directory ∈ BUNDLE_DIRECTORIES, pathParts name ≠ [directory]) :
    BelowBundleDirectory (pathParts name) := by
  obtain ⟨hsafe, hbelow⟩ := h.copied_name hname hcopied
  obtain ⟨directory, hdirectory, rest, hparts⟩ := pathParts_of_allowedPrefix hbelow
  refine ⟨directory, hdirectory, rest, ?_, ?_, hparts⟩
  · rintro rfl
    exact hproper directory hdirectory hparts
  · intro hup
    have hmem : ".." ∈ pathParts name := by
      rw [hparts]
      exact List.mem_cons_of_mem directory hup
    simp [safeRelative, hmem] at hsafe

/-- What applying a bundle without errors changes in the checkout. -/
theorem apply_bundle_changes {inspected : Checkout} (checkout : Checkout)
    (herrors : (inspectBundle engine inspected bundle).errors = []) :
    let report := inspectBundle engine inspected bundle
    let out := applyBundle checkout bundle report force
    (∀ name ∈ out.2.applied, BelowBundleDirectory (pathParts name)) ∧
    (∀ path, Differs checkout out.2.checkout path → ∃ name ∈ out.2.applied, pathParts name = path) ∧
    (force = false → ∀ path content, checkout.content path = some content →
      out.2.checkout.content path = some content) ∧
    ∀ applied, out.1.reported = some applied →
      (force = false → ∀ path, Differs checkout out.2.checkout path ↔
        ∃ name ∈ applied, pathParts name = path) ∧
      (∀ path, Differs checkout out.2.checkout path → ∃ name ∈ applied, pathParts name = path) ∧
      ∀ name ∈ applied, ∃ name' ∈ applied, pathParts name' = pathParts name ∧
        out.2.checkout.content (pathParts name) = some (bundle.read name') := by
  intro report out
  obtain ⟨descriptor, -, hinspected⟩ := inspected_of_errors herrors
  have hwritten : Written checkout bundle report force out.2 := Written.applyBundle checkout
  have hchanged : ∀ path, Differs checkout out.2.checkout path →
      ∃ name ∈ out.2.applied, pathParts name = path := by
    intro path hdiffers
    by_contra hnone
    push Not at hnone
    exact hdiffers (hwritten.changed path hnone)
  have hdiffers : force = false → ∀ name ∈ out.2.applied,
      Differs checkout out.2.checkout (pathParts name) := by
    intro hforce name hname
    obtain ⟨name', -, -, hbytes⟩ := hwritten.content name hname
    unfold Differs
    rw [hbytes, hwritten.fresh hforce name hname]
    exact Option.some_ne_none _
  refine ⟨fun name hname => ?_, hchanged, fun hforce path content hcontent => ?_,
    fun applied happlied => ?_⟩
  · obtain ⟨hfile, hcopied⟩ := hwritten.copied name hname
    rw [hinspected.files] at hfile
    exact BelowBundleDirectory.of_copied hinspected hfile hcopied (hwritten.proper name hname)
  · by_contra hdiff
    obtain ⟨name, hname, rfl⟩ := hchanged path (fun heq => hdiff (heq.trans hcontent))
    rw [hwritten.fresh hforce name hname] at hcontent
    cases hcontent
  · have heq : applied = out.2.applied := reported_finish happlied
    rw [heq]
    refine ⟨fun hforce path => ⟨hchanged path, ?_⟩, hchanged, hwritten.content⟩
    rintro ⟨name, hname, rfl⟩
    exact hdiffers hforce name hname

def bareNode : CheckoutPath → Option Node
  | [] => some .directory
  | [name] => if BUNDLE_DIRECTORIES.contains name then some .directory else none
  | _ => none

theorem bareNode_inDirectory (path path' : CheckoutPath) (hpath : bareNode path ≠ none)
    (hbelow : path' <+: path) (hne : path' ≠ path) : bareNode path' = some .directory := by
  match path with
  | [] => exact absurd (List.prefix_nil.mp hbelow) hne
  | [name] =>
    rcases List.prefix_cons_iff.mp hbelow with rfl | ⟨rest, rfl, hrest⟩
    · rfl
    · rw [List.prefix_nil.mp hrest] at hne
      exact absurd rfl hne
  | _ :: _ :: _ => exact absurd rfl hpath

theorem bareNode_directory (name : String) (hname : name ∈ BUNDLE_DIRECTORIES) :
    bareNode [name] = some .directory :=
  if_pos (List.contains_iff_mem.mpr hname)

/-- A checkout with the directories alone. -/
def bareCheckout : Checkout where
  node := bareNode
  inDirectory := bareNode_inDirectory
  bundleDirectories := bareNode_directory

/-- An engine that accepts every bundle for one manifest, without digests. -/
def plainEngine : Engine where
  version := "1.0.0"
  loadDescriptor _ := .ok ⟨1, none, "manifests/demo.yml", none, [], none⟩
  loadManifest _ := .ok ⟨[], none, none, [], none⟩
  profileErrors _ := .ok []
  sha256 _ := ""
  trustedSigners _ := none
  cryptography := false
  canonicalJson _ := []
  verify _ _ _ := false

/-- One manifest under two spellings of its name. -/
def demoBundle : Bundle where
  names := ["bundle.json", "manifests/./demo.yml", "manifests/demo.yml"]
  read _ := [1, 2, 3]

/-- The demo bundle inspected, applied, and applied by force a second time. -/
theorem demoBundle_runs :
    let inspection := inspectBundle plainEngine bareCheckout demoBundle
    let once := applyBundle bareCheckout demoBundle inspection false
    let again := applyBundle once.2.checkout demoBundle inspection true
    inspection.errors = [] ∧ once.1.reported = some ["manifests/./demo.yml"] ∧
      again.1.reported = some ["manifests/./demo.yml", "manifests/demo.yml"] ∧
      pathParts "manifests/demo.yml" = ["manifests", "demo.yml"] ∧
      ¬ Differs once.2.checkout again.2.checkout ["manifests", "demo.yml"] := by
  unfold Differs
  decide +kernel

theorem demoBundle_inspected : (inspectBundle plainEngine bareCheckout demoBundle).errors = [] :=
  demoBundle_runs.1

/-- Forced over itself, a bundle reports a file whose bytes stay the same. -/
theorem forced_copy_reports_unchanged_file :
    ¬ ∀ (engine : Engine) (inspected checkout : Checkout) (bundle : Bundle) (force : Bool),
      (inspectBundle engine inspected bundle).errors = [] →
      ∀ applied, (applyBundle checkout bundle (inspectBundle engine inspected bundle)
          force).1.reported = some applied →
        ∀ path, Differs checkout (applyBundle checkout bundle (inspectBundle engine inspected bundle)
            force).2.checkout path ↔ ∃ name ∈ applied, pathParts name = path := by
  intro h
  obtain ⟨-, -, hreported, hparts, hsame⟩ := demoBundle_runs
  have hiff := h plainEngine bareCheckout
    (applyBundle bareCheckout demoBundle (inspectBundle plainEngine bareCheckout demoBundle)
      false).2.checkout demoBundle true demoBundle_inspected
    ["manifests/./demo.yml", "manifests/demo.yml"] hreported ["manifests", "demo.yml"]
  exact hsame (hiff.mpr ⟨"manifests/demo.yml", by decide, hparts⟩)

theorem apply_demoBundle_changes :
    (applyBundle bareCheckout demoBundle (inspectBundle plainEngine bareCheckout demoBundle)
        false).1.reported = some ["manifests/./demo.yml"] ∧
    ∀ path, Differs bareCheckout (applyBundle bareCheckout demoBundle
        (inspectBundle plainEngine bareCheckout demoBundle) false).2.checkout path ↔
      ∃ name ∈ ["manifests/./demo.yml"], pathParts name = path := by
  have hreported : (applyBundle bareCheckout demoBundle
      (inspectBundle plainEngine bareCheckout demoBundle) false).1.reported =
        some ["manifests/./demo.yml"] := demoBundle_runs.2.1
  exact ⟨hreported, ((apply_bundle_changes bareCheckout demoBundle_inspected).2.2.2 _ hreported).1 rfl⟩

end Results

end BuildTools
