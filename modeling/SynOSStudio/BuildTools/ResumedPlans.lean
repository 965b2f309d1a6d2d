import SynOSStudio.BuildTools.BuildMatrix
import SynOSStudio.BuildTools.BundleTrees
import SynOSStudio.JsonText.Parsing

/-!
# What a resumed run builds

The planning of the catalog, core and saturation targets with their checksums, and what
`--resume` then skips. Only the generated saturation bundles have a date in them.
-/

namespace BuildTools.BuildMatrix

open JsonText

/-- The printers and the hash that the planner calls. -/
structure Libraries where
  sha256 : List UInt8 → String
  /-- `json.dumps(…, sort_keys=True)` -/
  dumps : Json → String
  /-- `yaml.safe_dump(…, sort_keys=False)` -/
  safeDump : Json → String
  /-- `yaml.safe_dump(…, sort_keys=False, allow_unicode=True, width=100)` -/
  safeDumpWide : Json → String
  repr : String → String

/-- A catalog entry with its folder, and what its manifest says. -/
structure CatalogEntry where
  id : String
  path : String
  folder : BundleFolder
  base : String
  suite : String
  profile : Option String

/-- What `build_saturation.plan` resolves for a base. -/
structure SaturationPlan where
  includedBundles : List String
  skippedBundles : List (String × String)
  addByProfile : List (String × List String)
  skippedAdd : List (String × String)
  excludedGroups : List (String × String)
  packageExclusions : List (String × String)
  concreteUnion : List String

/-- A base adapter under the name of its directory. -/
structure Adapter where
  name : String
  isName : ValidName name ∧ '\x00' ∉ name.toList
  baseId : String
  liveSuites : List String
  defaultSuite : String
  plan : SaturationPlan

structure Repository where
  catalog : List CatalogEntry
  profile : String
  adapters : List Adapter
  version : Option String

section Planning

variable (lib : Libraries) (repository : Repository)

def planCatalogTargets : List Target :=
  repository.catalog.map fun entry =>
    ⟨entry.id, .catalog, entry.base, entry.suite, entry.path,
      sha256Tree lib.sha256 entry.folder, entry.profile.getD entry.id⟩

/-- The manifest of a core or saturation build. -/
def leanManifest (name base suite profile : String) : Json :=
  .object [("schema_version", .number 1), ("name", .text name), ("version", .text "1.0.0"),
    ("base", .text base), ("suite", .text suite), ("arch", .text "amd64"),
    ("profile", .text profile), ("regions", .array [.text "us"]), ("brand", .text "synos"),
    ("mirrors", .object []),
    ("packages", .object [("repository", .text ""), ("takeover", .text "all")]),
    ("overrides", .object [])]

def Adapter.suites (adapter : Adapter) : List String :=
  if adapter.liveSuites = [] then [adapter.defaultSuite] else adapter.liveSuites

def coreManifest (base suite profile : String) : Json :=
  leanManifest s!"synos-core-{base}-{suite}" base suite profile

def planCoreTargets : List Target :=
  repository.adapters.flatMap fun adapter => adapter.suites.map fun suite =>
    ⟨s!"core-{adapter.baseId}-{suite}", .core, adapter.baseId, suite,
      s!".build/matrix/manifests/core-{adapter.baseId}-{suite}.yml",
      lib.sha256 (encode (lib.dumps (coreManifest adapter.baseId suite repository.profile))),
      repository.profile⟩

/-! ### The saturation bundle -/

def Adapter.targetSuite (adapter : Adapter) : String :=
  if adapter.defaultSuite ∈ adapter.liveSuites then adapter.defaultSuite
  else adapter.liveSuites.head?.getD adapter.defaultSuite

def Adapter.profileId (adapter : Adapter) : String :=
  s!"saturation-{adapter.name}"

def Adapter.reasonedLines (adapter : Adapter) : List String :=
  (adapter.plan.skippedBundles.map fun (gid, reason) =>
    s!"Skipped group {lib.repr gid} (unavailable on {adapter.name}): {reason}") ++
  (adapter.plan.excludedGroups.map fun (gid, reason) =>
    s!"Excluded group {lib.repr gid}: {reason}") ++
  (adapter.plan.skippedAdd.map fun (pid, reason) =>
    s!"Skipped profile {lib.repr pid}'s software.packages.add (unavailable on {adapter.name}): " ++
      reason) ++
  (adapter.plan.packageExclusions.map fun (name, reason) =>
    s!"Excluded package {lib.repr name}: {reason}")

def Adapter.profileDescription (adapter : Adapter) : String :=
  "Internal test-engine bundle, not a product: every application group in " ++
    "profiles/bundles.yml this base can serve, plus every machine profile's own " ++
    "software.packages.add, resolved for " ++ adapter.name ++ " — proves every package this " ++
    "engine ships resolves and installs together in one image, instead of one " ++
    "build per catalogued bundle (docs/BUILD_MATRIX.md). It cannot prove a " ++
    "bundle's own configuration (software.files, security.open_ports, a " ++
    "service's cap_add/env_file/exec, policy.kiosk_app, a pinned container " ++
    "image tag) — that stays with tools/catalog_conformance.py and the " ++
    "per-entry offline checks." ++
  if adapter.reasonedLines lib = [] then ""
  else " " ++ " ".intercalate (adapter.reasonedLines lib)

def sortedTexts (names : List String) : Json :=
  .array ((names.insertionSort (· ≤ ·)).map .text)

def Adapter.generateProfile (adapter : Adapter) : Json :=
  .object [("id", .text adapter.profileId), ("extends", .text "minimal"),
    ("description", .text (adapter.profileDescription lib)),
    ("software", .object [
      ("bundles", .array (adapter.plan.includedBundles.map .text)),
      ("packages", .object [
        ("add", sortedTexts (adapter.plan.addByProfile.flatMap Prod.snd).dedup),
        ("remove", sortedTexts (adapter.plan.packageExclusions.map Prod.fst))])])]

def Adapter.generateManifest (adapter : Adapter) : Json :=
  leanManifest adapter.profileId adapter.name adapter.targetSuite adapter.profileId

def Adapter.manifestRel (adapter : Adapter) : RelativePath :=
  ["manifests", adapter.profileId ++ ".yml"]

def Adapter.profileRel (adapter : Adapter) : RelativePath :=
  ["profiles", adapter.profileId ++ ".yml"]

/-- `bundle.json`, with the time at which it is written. -/
def Adapter.descriptor (adapter : Adapter) (version : Option String) (created : String) : Json :=
  .object [("format", .number 1), ("name", .text adapter.profileId),
    ("manifest", .text (pathText adapter.manifestRel)),
    ("engine", .object [("min", .text (version.getD "0.1.0"))]),
    ("generator", .object [("name", .text "SynOS saturation generator"),
      ("version", .text "1.0.0")]),
    ("created", .text created),
    ("description", .text (s!"Saturation test bundle (internal, not catalogued) — {adapter.name} " ++
      s!"{adapter.targetSuite} amd64, profile {adapter.profileId}, " ++
      s!"{adapter.plan.concreteUnion.length} packages")),
    ("files", .array [.text (pathText adapter.manifestRel), .text (pathText adapter.profileRel)])]

def descriptorText (descriptor : Json) : String :=
  String.ofList (pretty 0 descriptor ++ ['\n'])

theorem isName_profile (adapter : Adapter) :
    ValidName (adapter.profileId ++ ".yml") ∧ '\x00' ∉ (adapter.profileId ++ ".yml").toList := by
  have hchars : (adapter.profileId ++ ".yml").toList =
      "saturation-".toList ++ adapter.name.toList ++ ".yml".toList := by
    have hid : adapter.profileId = "saturation-" ++ adapter.name := rfl
    rw [hid, String.toList_append, String.toList_append]
  have hlong {short : String} (h : short.toList.length < 11) :
      adapter.profileId ++ ".yml" ≠ short := by
    intro heq
    have hlength := congrArg (fun name : String => name.toList.length) heq
    have htext : "saturation-".toList.length = 11 := rfl
    simp only [hchars, List.length_append, htext] at hlength
    omega
  refine ⟨⟨hlong (by decide), hlong (by decide), hlong (by decide), ?_⟩, ?_⟩
  all_goals
    rw [hchars, List.mem_append, List.mem_append, not_or, not_or]
  · exact ⟨⟨by decide, adapter.isName.1.2.2.2⟩, by decide⟩
  · exact ⟨⟨by decide, adapter.isName.2⟩, by decide⟩

theorem isFilePath_below {folder name : String} (hfolder : ValidName folder ∧ '\x00' ∉ folder.toList)
    (hname : ValidName name ∧ '\x00' ∉ name.toList) : IsFilePath [folder, name] where
  nonempty := List.cons_ne_nil _ _
  names := by
    rintro _ (_ | ⟨_, _ | ⟨_, ⟨⟩⟩⟩)
    · exact hfolder
    · exact hname

/-- `write_bundle`: the folder is written anew with its three files. -/
def Adapter.writeBundle (adapter : Adapter) (version : Option String) (created : String) :
    BundleFolder where
  files := [
    (["bundle.json"], encode (descriptorText (adapter.descriptor version created))),
    (adapter.manifestRel, encode (lib.safeDump adapter.generateManifest)),
    (adapter.profileRel, encode (lib.safeDumpWide (adapter.generateProfile lib)))]
  paths := by
    rintro _ (_ | ⟨_, _ | ⟨_, _ | ⟨_, ⟨⟩⟩⟩⟩)
    · refine ⟨List.cons_ne_nil _ _, ?_⟩
      rintro _ (_ | ⟨_, ⟨⟩⟩)
      decide
    · exact isFilePath_below (by decide) (isName_profile adapter)
    · exact isFilePath_below (by decide) (isName_profile adapter)
  ordered := by
    have hapart {first second : String} {rest rest' : RelativePath} (h : first < second) :
        first :: rest < second :: rest' ∧ ¬ (first :: rest) <+: (second :: rest') := by
      refine ⟨List.Lex.rel h, fun hbelow => ?_⟩
      exact h.ne (List.cons_prefix_cons.mp hbelow).1
    have hfirst : "bundle.json" < "manifests" := by decide
    have hsecond : "manifests" < "profiles" := by decide
    refine List.Pairwise.cons ?_ (List.pairwise_pair.mpr (hapart hsecond))
    rintro _ (_ | ⟨_, _ | ⟨_, ⟨⟩⟩⟩)
    · exact hapart hfirst
    · exact hapart (hfirst.trans hsecond)

/-- The clock says what time it is when the bundle of a base is written. -/
def planSaturationTargets (clock : String → String) : List Target :=
  repository.adapters.map fun adapter =>
    ⟨s!"saturation-{adapter.name}", .saturation, adapter.name, adapter.targetSuite,
      s!".build/matrix/saturation/{adapter.name}",
      sha256Tree lib.sha256 (adapter.writeBundle lib repository.version (clock adapter.name)),
      adapter.profileId⟩

def planTargets (clock : String → String) : List Target :=
  planCatalogTargets lib repository ++ planCoreTargets lib repository ++
    planSaturationTargets lib repository clock

end Planning

/-- A run in which each planned target succeeded: for each of them the report has a success, at
the checksum of a target with its name. -/
def EverySucceeded (targets : List Target) (report : Report) : Prop :=
  ∀ target ∈ targets, ∃ other ∈ targets, other.id = target.id ∧ ∃ record,
    report target.id = some record ∧ record.status = .success ∧
      record.checksum = some other.checksum

/-- Nothing that is unchanged is built again, and nothing that is changed is skipped. -/
structure ResumesExactly (lib : Libraries) (repository : Repository) (clock clock' : String → String)
    (folder : BundleFolder) : Prop where
  checksums : ((planTargets lib repository clock').map fun target => (target.id, target.checksum)) =
    (planTargets lib repository clock).map fun target => (target.id, target.checksum)
  skips : ∀ plan : Plan, plan.resume = true → plan.targets = planTargets lib repository clock' →
    EverySucceeded (planTargets lib repository clock) plan.previous → plan.toRun = []
  changed : ∀ other, treeStream other = treeStream folder → other = folder

/-- Each saturation bundle is written in the same second of both plannings, no two targets of one
name have different checksums, and the folder cannot be mistaken for another. -/
structure Timeless (lib : Libraries) (repository : Repository) (clock clock' : String → String)
    (folder : BundleFolder) : Prop where
  clocks : ∀ adapter ∈ repository.adapters, clock' adapter.name = clock adapter.name
  names : ∀ target ∈ planTargets lib repository clock,
    ∀ other ∈ planTargets lib repository clock, other.id = target.id →
      other.checksum = target.checksum
  folder : folder.Unmistakable

section Resuming

variable {lib : Libraries} {repository : Repository} {clock clock' : String → String}
  {folder : BundleFolder} {adapter : Adapter} {version : Option String} {created created' : String}

theorem pretty_injective : Function.Injective (pretty 0) := by
  intro v v' h
  have hread (v : Json) : parse (pretty 0 v ++ []) = some v := parse_pretty v rfl
  exact Option.some.inj ((hread v).symm.trans (h ▸ hread v'))

theorem descriptorText_injective : Function.Injective descriptorText := by
  intro v v' h
  have hchars := congrArg String.toList h
  rw [descriptorText, descriptorText, String.toList_ofList, String.toList_ofList] at hchars
  exact pretty_injective (List.append_cancel_right hchars)

/-- The time of writing is in the bytes of the bundle. -/
theorem writeBundle_stream_iff :
    treeStream (adapter.writeBundle lib version created) =
      treeStream (adapter.writeBundle lib version created') ↔ created = created' := by
  constructor
  · intro hstream
    simp only [treeStream, Adapter.writeBundle, List.flatMap_cons, filePiece] at hstream
    have hbytes := List.append_cancel_left (List.append_cancel_right hstream)
    have htext := encode_injective (List.append_cancel_right (List.cons.inj hbytes).2)
    have hdescriptor := descriptorText_injective htext
    simp only [Adapter.descriptor, Json.object.injEq, List.cons.injEq, Prod.mk.injEq,
      Json.text.injEq] at hdescriptor
    tauto
  · exact fun heq => heq ▸ rfl

/-- Over a hash without collisions, all checksums are the same just when the bundles are written
at the same times. -/
theorem checksums_same_iff (hhash : Function.Injective lib.sha256) :
    ((planTargets lib repository clock').map fun target => (target.id, target.checksum)) =
        (planTargets lib repository clock).map (fun target => (target.id, target.checksum)) ↔
      ∀ adapter ∈ repository.adapters, clock' adapter.name = clock adapter.name := by
  have hfront (later : List Target) :
      (planCatalogTargets lib repository ++ planCoreTargets lib repository ++ later).map
          (fun target => (target.id, target.checksum)) =
        (planCatalogTargets lib repository ++ planCoreTargets lib repository).map
          (fun target => (target.id, target.checksum)) ++
          later.map fun target => (target.id, target.checksum) := List.map_append ..
  rw [planTargets, planTargets, hfront, hfront, List.append_cancel_left_eq, planSaturationTargets, planSaturationTargets, List.map_map,
    List.map_map, List.map_inj_left]
  refine forall₂_congr fun adapter _ => ?_
  simp only [Function.comp_apply, Prod.mk.injEq, true_and, sha256Tree, hhash.eq_iff]
  exact writeBundle_stream_iff

theorem upToDate_iff {report : Report} {target : Target} : Plan.upToDate report target = true ↔
    ∃ record, report target.id = some record ∧ record.status = .success ∧
      record.checksum = some target.checksum := by
  unfold Plan.upToDate
  cases report target.id with
  | none => simp
  | some record => simp

theorem toRun_eq_nil_iff {plan : Plan} (h : plan.resume = true) : plan.toRun = [] ↔
    ∀ target ∈ plan.targets, Plan.upToDate plan.previous target = true := by
  simp [Plan.toRun, Plan.loadedReport, h, List.filter_eq_nil_iff]

/-- The record of a target that was built. -/
def succeeded (target : Target) : Record :=
  .full { placeholder "" target with status := .success }

/-- A report keeps one record for each name. -/
theorem skips_iff {targets targets' : List Target}
    (hsame : (targets'.map fun target => (target.id, target.checksum)) =
      targets.map fun target => (target.id, target.checksum)) :
    (∀ plan : Plan, plan.resume = true → plan.targets = targets' →
      EverySucceeded targets plan.previous → plan.toRun = []) ↔
      ∀ target ∈ targets, ∀ other ∈ targets, other.id = target.id →
        other.checksum = target.checksum := by
  have hplanned {targets targets' : List Target} {target : Target}
      (hsame : (targets'.map fun target => (target.id, target.checksum)) =
        targets.map fun target => (target.id, target.checksum)) (htarget : target ∈ targets) :
      ∃ again ∈ targets', again.id = target.id ∧ again.checksum = target.checksum := by
    have hpair : (target.id, target.checksum) ∈
        targets'.map fun target => (target.id, target.checksum) :=
      hsame ▸ List.mem_map_of_mem htarget
    obtain ⟨again, hagain, heq⟩ := List.mem_map.mp hpair
    exact ⟨again, hagain, Prod.mk.inj heq⟩
  constructor
  · intro hskips target htarget other hother hid
    let report : Report := fun id =>
      if id = target.id then some (succeeded other)
      else (targets.find? fun planned => planned.id = id).map succeeded
    have hrun : EverySucceeded targets report := by
      intro planned hplanned
      by_cases hkey : planned.id = target.id
      · exact ⟨other, hother, hid.trans hkey.symm, succeeded other, if_pos hkey, rfl, rfl⟩
      · obtain ⟨found, hfound⟩ : ∃ found,
            (targets.find? fun other => other.id = planned.id) = some found :=
          Option.isSome_iff_exists.mp (List.find?_isSome.mpr ⟨planned, hplanned, by simp⟩)
        have hfoundId : found.id = planned.id := by simpa using List.find?_some hfound
        refine ⟨found, List.mem_of_find?_eq_some hfound, hfoundId, succeeded found, ?_, rfl, rfl⟩
        simp [report, hkey, hfound]
    have hnone := hskips ⟨targets', report, true, false, false, ""⟩ rfl rfl hrun
    obtain ⟨again, hagain, hagainId, hagainChecksum⟩ := hplanned hsame htarget
    obtain ⟨record, hrecord, -, hchecksum⟩ :=
      upToDate_iff.mp ((toRun_eq_nil_iff rfl).mp hnone again hagain)
    have hreport : report again.id = some (succeeded other) := if_pos hagainId
    obtain rfl := Option.some.inj (hreport.symm.trans hrecord)
    exact (Option.some.inj hchecksum).trans hagainChecksum
  · intro hnames plan hresume htargets hrun
    rw [toRun_eq_nil_iff hresume, htargets]
    intro again hagain
    obtain ⟨target, htarget, hid, hchecksum⟩ := hplanned hsame.symm hagain
    obtain ⟨other, hother, hotherId, record, hrecord, hsuccess, hrecorded⟩ := hrun target htarget
    refine upToDate_iff.mpr ⟨record, hid ▸ hrecord, hsuccess, ?_⟩
    rw [hrecorded, hnames target htarget other hother hotherId, hchecksum]

end Resuming

section Examples

/-- A hash without collisions, and printers that print nothing. -/
def plainLibraries : Libraries where
  sha256 bytes := String.ofList (bytes.map fun byte => Char.ofNat byte.toNat)
  dumps _ := ""
  safeDump _ := ""
  safeDumpWide _ := ""
  repr name := name

theorem plainLibraries_injective : Function.Injective plainLibraries.sha256 := by
  intro bytes bytes' h
  refine List.map_injective_iff.mpr (fun byte byte' heq => ?_) (String.ofList_injective h)
  have hvalue (byte : UInt8) : (Char.ofNat byte.toNat).toNat = byte.toNat := by
    have hvalid : byte.toNat.isValidChar := .inl (by have hsmall := byte.toNat_lt; omega)
    rw [Char.ofNat, dif_pos hvalid]
    rfl
  rw [← UInt8.toNat_inj, ← hvalue byte, ← hvalue byte', heq]

def readme : BundleFolder where
  files := [(["README"], [83])]
  paths := by
    rintro _ (_ | ⟨_, ⟨⟩⟩)
    refine ⟨List.cons_ne_nil _ _, ?_⟩
    rintro _ (_ | ⟨_, ⟨⟩⟩)
    decide
  ordered := List.pairwise_singleton _ _

theorem readme_unmistakable : readme.Unmistakable where
  single := le_rfl
  plain := by
    rintro _ (_ | ⟨_, ⟨⟩⟩) path _ _ _ ⟨before, after, hcontent⟩
    have hlength := congrArg List.length hcontent
    simp at hlength
    omega

def debian : Adapter where
  name := "debian"
  isName := by decide
  baseId := "debian"
  liveSuites := ["trixie"]
  defaultSuite := "trixie"
  plan := ⟨["office"], [], [], [], [], [], ["libreoffice"]⟩

def oneOfEach : Repository where
  catalog := [⟨"workstation", "bundle-catalog/workstation", readme, "debian", "trixie", none⟩]
  profile := "minimal"
  adapters := [debian]
  version := some "0.9.0"

/-- Two files. -/
def cutReadme : BundleFolder where
  files := [(["README"], [83]), (["a"], [])]
  paths := by
    rintro _ (_ | ⟨_, _ | ⟨_, ⟨⟩⟩⟩)
    all_goals
      refine ⟨List.cons_ne_nil _ _, ?_⟩
      rintro _ (_ | ⟨_, ⟨⟩⟩)
      decide
  ordered := List.pairwise_pair.mpr ⟨List.Lex.rel (by decide), by decide⟩

end Examples

end BuildTools.BuildMatrix
