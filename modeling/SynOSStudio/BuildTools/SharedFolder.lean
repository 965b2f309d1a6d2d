import Mathlib.Tactic

/-!
# One build folder for many bundles

`clear_shared_folder` and the part of `build_one(shared=True)` up to the launcher, over
any sequence of bundles in one worker folder. The folder is the map of its files; there
are no links in it and no file operation fails.
-/

namespace BuildTools

/-- A path below the folder, as `Path` keeps it and without `..`. -/
abbrev FolderPath := List String

abbrev Folder := FolderPath → Option (List UInt8)

/-- An entry of the `files` list of a `bundle.json`, in one of the documented forms. -/
inductive ListedFile where
  | plain (rel : FolderPath)
  | object (path : FolderPath) (sha256 : String)
  deriving DecidableEq

def ListedFile.path : ListedFile → FolderPath
  | .plain rel => rel
  | .object path _ => path

/-- The `files` list of a `bundle.json` that is valid JSON. -/
abbrev Loads := List UInt8 → Option (List ListedFile)

/-- An archive whose `bundle.json` lists all its files. -/
structure Archive (loads : Loads) where
  files : Folder
  bundleJson : List UInt8
  listed : List ListedFile
  hasBundleJson : files ["bundle.json"] = some bundleJson
  loaded : loads bundleJson = some listed
  complete : ∀ path, files path ≠ none → path = ["bundle.json"] ∨ path ∈ listed.map ListedFile.path

section Clearing

/-- `safe_remove` of a file or of a directory with all that is in it. -/
def safeRemove (folder : Folder) (target : FolderPath) : Folder :=
  fun path => if target <+: path then none else folder path

/-- The loop over what the previous `bundle.json` lists. Joining an object to a path
raises a `TypeError`, which ends it. -/
def removeListed (folder : Folder) : List ListedFile → Folder × Except String (List FolderPath)
  | [] => (folder, .ok [])
  | .object _ _ :: _ => (folder, .error "TypeError")
  | .plain rel :: rest =>
    let out := removeListed (safeRemove folder rel) rest
    (out.1, out.2.map fun removed => rel :: removed)

def clearDist (folder : Folder) (removed : List FolderPath) :
    Folder × Except String (List FolderPath) :=
  (safeRemove folder ["dist"], .ok (removed ++ [["dist"]]))

/-- The folder afterwards, and what was removed or the exception, which the caller swallows. -/
def clearSharedFolder (loads : Loads) (folder : Folder) :
    Folder × Except String (List FolderPath) :=
  match folder ["bundle.json"] with
  | none => clearDist folder []
  | some bytes =>
    match removeListed folder ((loads bytes).getD []) with
    | (folder', .error exc) => (folder', .error exc)
    | (folder', .ok removed) =>
      clearDist (safeRemove folder' ["bundle.json"]) (removed ++ [["bundle.json"]])

def extractBundleArchive (files folder : Folder) : Folder :=
  fun path => (files path).or (folder path)

end Clearing

/-- How a call of `build_one` goes on once the folder has been cleared. -/
inductive Course where
  /-- The page gave no archive, and the folder was not touched. -/
  | noDownload
  /-- Nothing was unpacked. -/
  | archiveRefused
  /-- Unpacked, and given up before the launcher was started. -/
  | notLaunched
  /-- The build left these files under `dist` and `.build`, and was cleaned up or not. -/
  | launched (leaves : Folder) (cleanup : Bool)

/-- One call of `build_one` in the shared folder. -/
structure SharedBuild (loads : Loads) where
  archive : Archive loads
  /-- The manifest as a base override rewrites it. -/
  override : Option (FolderPath × List UInt8)
  course : Course
  overridesFile : ∀ path content, override = some (path, content) →
    path ≠ ["bundle.json"] ∧ archive.files path ≠ none

namespace SharedBuild

variable {loads : Loads}

def applyOverride (b : SharedBuild loads) (folder : Folder) : Folder :=
  match b.override with
  | none => folder
  | some (manifest, content) => Function.update folder manifest (some content)

/-- The folder when the launcher is started. -/
def atLauncher (b : SharedBuild loads) (folder : Folder) : Folder :=
  b.applyOverride (extractBundleArchive b.archive.files (clearSharedFolder loads folder).1)

/-- What a build may have changed. -/
def buildTree (path : FolderPath) : Prop :=
  ["dist"] <+: path ∨ [".build"] <+: path

instance (path : FolderPath) : Decidable (buildTree path) :=
  inferInstanceAs (Decidable (_ ∨ _))

/-- The folder when `build_one` returns. -/
def after (b : SharedBuild loads) (folder : Folder) : Folder :=
  match b.course with
  | .noDownload => folder
  | .archiveRefused => (clearSharedFolder loads folder).1
  | .notLaunched => b.atLauncher folder
  | .launched leaves cleanup =>
    let built : Folder := fun path => if buildTree path then leaves path else b.atLauncher folder path
    if cleanup then safeRemove built ["dist"] else built

end SharedBuild

def afterBuilds {loads : Loads} : List (SharedBuild loads) → Folder → Folder
  | [], folder => folder
  | b :: rest, folder => afterBuilds rest (b.after folder)

def emptyFolder : Folder := fun _ => none

section PlainNames

variable {loads : Loads}

/-- All files of an archive are listed by their plain names. -/
def Archive.PlainNames (archive : Archive loads) : Prop :=
  ∀ entry ∈ archive.listed, ∃ rel, entry = .plain rel

/-- Whatever is in the folder outside the build trees is listed by the `bundle.json` in it. -/
structure Listed (loads : Loads) (folder : Folder) : Prop where
  plain : ∀ bytes, folder ["bundle.json"] = some bytes →
    ∃ listed, loads bytes = some listed ∧ (∀ entry ∈ listed, ∃ rel, entry = .plain rel) ∧
      ∀ path, folder path ≠ none → SharedBuild.buildTree path ∨ path = ["bundle.json"] ∨
        path ∈ listed.map ListedFile.path
  empty : folder ["bundle.json"] = none → ∀ path, folder path ≠ none → SharedBuild.buildTree path

theorem safeRemove_elsewhere {folder : Folder} {target path : FolderPath}
    (h : ¬ target <+: path) : safeRemove folder target path = folder path := if_neg h

theorem safeRemove_none {folder : Folder} {target path : FolderPath} (h : folder path = none) :
    safeRemove folder target path = none := by
  unfold safeRemove
  split
  · rfl
  · exact h

/-- The loop removes every file that it is given by a plain name. -/
theorem removeListed_plain {folder : Folder} {listed : List ListedFile}
    (h : ∀ entry ∈ listed, ∃ rel, entry = .plain rel) :
    ∃ folder' removed, removeListed folder listed = (folder', .ok removed) ∧
      (∀ path, folder path = none → folder' path = none) ∧
      ∀ path ∈ listed.map ListedFile.path, folder' path = none := by
  induction listed generalizing folder with
  | nil => exact ⟨folder, [], rfl, fun _ h => h, fun _ h => absurd h List.not_mem_nil⟩
  | cons entry rest ih =>
    obtain ⟨rel, rfl⟩ := h entry List.mem_cons_self
    obtain ⟨folder', removed, hrun, hnone, hrest⟩ :=
      @ih (safeRemove folder rel) fun e he => h e (List.mem_cons_of_mem _ he)
    refine ⟨folder', rel :: removed, ?_, fun path hpath => hnone path (safeRemove_none hpath), ?_⟩
    · simp [removeListed, hrun, Except.map]
    · intro path hpath
      rcases List.mem_cons.mp hpath with hself | hmem
      · exact hnone path (if_pos (hself ▸ List.prefix_refl _))
      · exact hrest path hmem

/-- Clearing a folder whose files are listed leaves `.build` alone and nothing else. -/
theorem Listed.cleared {folder : Folder} (h : Listed loads folder) {path : FolderPath}
    (hpath : (clearSharedFolder loads folder).1 path ≠ none) : [".build"] <+: path := by
  unfold clearSharedFolder at hpath
  by_contra hbuild
  cases hjson : folder ["bundle.json"] with
  | none =>
    rw [hjson] at hpath
    by_cases hdist : ["dist"] <+: path
    · exact hpath (if_pos hdist)
    · apply hpath
      refine safeRemove_none ?_
      by_contra hfound
      rcases h.empty hjson path hfound with hleft | hleft
      · exact hdist hleft
      · exact hbuild hleft
  | some bytes =>
    obtain ⟨listed, hloads, hplain, hlisted⟩ := h.plain bytes hjson
    obtain ⟨folder', removed, hrun, hnone, hgone⟩ := @removeListed_plain folder _ hplain
    rw [hjson] at hpath
    simp only [hloads, Option.getD_some, hrun] at hpath
    by_cases hdist : ["dist"] <+: path
    · exact hpath (if_pos hdist)
    · apply hpath
      refine safeRemove_none ?_
      by_cases hbundle : ["bundle.json"] <+: path
      · exact if_pos hbundle
      · refine safeRemove_none ?_
        by_contra hfound
        rcases hlisted path fun hno => hfound (hnone path hno) with htree | rfl | hmem
        · rcases htree with hleft | hleft
          · exact hdist hleft
          · exact hbuild hleft
        · exact hbundle (List.prefix_refl _)
        · exact hfound (hgone path hmem)

variable {b : SharedBuild loads} {folder : Folder}

theorem atLauncher_override {path : FolderPath} :
    (b.atLauncher folder path ≠ none ↔
      extractBundleArchive b.archive.files (clearSharedFolder loads folder).1 path ≠ none) ∧
    ((∀ content, b.override ≠ some (path, content)) → b.atLauncher folder path =
      extractBundleArchive b.archive.files (clearSharedFolder loads folder).1 path) := by
  unfold SharedBuild.atLauncher SharedBuild.applyOverride
  cases hoverride : b.override with
  | none => exact ⟨Iff.rfl, fun _ => rfl⟩
  | some manifest =>
    obtain ⟨rel, content⟩ := manifest
    by_cases heq : path = rel
    · subst heq
      refine ⟨?_, fun hno => absurd rfl (hno content)⟩
      have hfile := (b.overridesFile path content hoverride).2
      have hextracted : extractBundleArchive b.archive.files (clearSharedFolder loads folder).1 path ≠
          none := by
        intro hnone
        exact hfile (Option.or_eq_none_iff.mp hnone).1
      simp [hextracted]
    · refine ⟨?_, fun _ => ?_⟩
      · simp [heq]
      · simp [heq]

/-- Started in a listed folder, the launcher finds the files of its archive. -/
theorem Listed.atLauncher (h : Listed loads folder) {path : FolderPath}
    (hpath : ¬ [".build"] <+: path) :
    (b.atLauncher folder path ≠ none ↔ b.archive.files path ≠ none) ∧
    ((∀ content, b.override ≠ some (path, content)) →
      b.atLauncher folder path = b.archive.files path) := by
  have hcleared : (clearSharedFolder loads folder).1 path = none := by
    by_contra hfound
    exact hpath (h.cleared hfound)
  have hextract : extractBundleArchive b.archive.files (clearSharedFolder loads folder).1 path =
      b.archive.files path := by
    unfold extractBundleArchive
    rw [hcleared, Option.or_none]
  rw [← hextract]
  exact atLauncher_override

theorem Listed.emptyFolder : Listed loads emptyFolder :=
  ⟨nofun, fun _ _ h => absurd rfl h⟩

theorem atLauncher_bundleJson : b.atLauncher folder ["bundle.json"] = some b.archive.bundleJson := by
  rw [atLauncher_override.2 fun content hoverride => (b.overridesFile _ _ hoverride).1 rfl]
  unfold extractBundleArchive
  rw [b.archive.hasBundleJson, Option.some_or]

/-- What is unpacked over a cleared folder is listed again. -/
theorem Listed.unpacked (h : Listed loads folder) (hplain : b.archive.PlainNames) {built : Folder}
    (hjson : built ["bundle.json"] = b.atLauncher folder ["bundle.json"])
    (hbuilt : ∀ path, ¬ SharedBuild.buildTree path → built path ≠ none →
      b.atLauncher folder path ≠ none) : Listed loads built := by
  rw [atLauncher_bundleJson] at hjson
  constructor
  · intro bytes hbytes
    rw [hjson] at hbytes
    cases hbytes
    refine ⟨b.archive.listed, b.archive.loaded, hplain, fun path hpath => ?_⟩
    by_cases htree : SharedBuild.buildTree path
    · exact Or.inl htree
    · have hbuild : ¬ [".build"] <+: path := fun hbelow => htree (Or.inr hbelow)
      have hfile := (h.atLauncher hbuild).1.mp (hbuilt path htree hpath)
      exact Or.inr (b.archive.complete path hfile)
  · intro hnone
    rw [hjson] at hnone
    cases hnone

theorem Listed.afterClearing (h : Listed loads folder) :
    Listed loads (clearSharedFolder loads folder).1 where
  plain bytes hbytes := by
    have hbelow : [".build"] <+: ["bundle.json"] :=
      h.cleared (by rw [hbytes]; exact Option.some_ne_none bytes)
    exact absurd hbelow (by decide)
  empty _ _ hpath := Or.inr (h.cleared hpath)

/-- A build changes its trees at will. -/
theorem Listed.afterLaunch (h : Listed loads folder) (hplain : b.archive.PlainNames)
    (leaves : Folder) :
    Listed loads fun path => if SharedBuild.buildTree path then leaves path
      else b.atLauncher folder path := by
  refine h.unpacked hplain (if_neg (by decide)) fun path htree hpath => ?_
  rwa [if_neg htree] at hpath

/-- `cleanup_one` in a shared folder removes `dist`. -/
theorem Listed.withoutDist (h : Listed loads folder) : Listed loads (safeRemove folder ["dist"]) where
  plain bytes hbytes := by
    rw [safeRemove_elsewhere (by decide)] at hbytes
    obtain ⟨listed, hloads, hplain, hlisted⟩ := h.plain bytes hbytes
    exact ⟨listed, hloads, hplain, fun path hpath =>
      hlisted path fun hnone => hpath (safeRemove_none hnone)⟩
  empty hnone path hpath := by
    rw [safeRemove_elsewhere (by decide)] at hnone
    exact h.empty hnone path fun hno => hpath (safeRemove_none hno)

theorem Listed.after (h : Listed loads folder) (hplain : b.archive.PlainNames) :
    Listed loads (b.after folder) := by
  unfold SharedBuild.after
  cases b.course with
  | noDownload => exact h
  | archiveRefused => exact h.afterClearing
  | notLaunched => exact h.unpacked hplain rfl fun _ _ hpath => hpath
  | launched leaves cleanup =>
    cases cleanup with
    | false => exact h.afterLaunch hplain leaves
    | true => exact (h.afterLaunch hplain leaves).withoutDist

theorem Listed.afterBuilds {builds : List (SharedBuild loads)} (h : Listed loads folder)
    (hbuilds : ∀ b ∈ builds, b.archive.PlainNames) : Listed loads (afterBuilds builds folder) := by
  induction builds generalizing folder with
  | nil => exact h
  | cons b rest ih =>
    exact ih (h.after (hbuilds b List.mem_cons_self))
      fun b' hb' => hbuilds b' (List.mem_cons_of_mem b hb')

/-- The folder holds the files of the archive, apart from `.build`, and their bytes are
the archive's but for an overridden manifest. -/
def SharedBuild.Exact (b : SharedBuild loads) (folder : Folder) : Prop :=
  ∀ path, ¬ [".build"] <+: path → (folder path ≠ none ↔ b.archive.files path ≠ none) ∧
    ((∀ content, b.override ≠ some (path, content)) → folder path = b.archive.files path)

/-- After bundles that list plain names, the launcher finds exactly its own archive. -/
theorem launcher_finds_exactly_its_archive (earlier : List (SharedBuild loads))
    (b : SharedBuild loads) (hearlier : ∀ b' ∈ earlier, b'.archive.PlainNames) :
    b.Exact (b.atLauncher (afterBuilds earlier emptyFolder)) :=
  fun _ hpath => (Listed.emptyFolder.afterBuilds hearlier).atLauncher hpath

end PlainNames

section Objects

/-- A reading of two `bundle.json` files. -/
def demoLoads : Loads
  | [1] => some [.object ["manifests", "first.yml"] "ab"]
  | [2] => some [.plain ["manifests", "second.yml"]]
  | _ => none

def firstArchive : Archive demoLoads where
  files path := if path = ["bundle.json"] then some [1]
    else if path = ["manifests", "first.yml"] then some [7] else none
  bundleJson := [1]
  listed := [.object ["manifests", "first.yml"] "ab"]
  hasBundleJson := rfl
  loaded := rfl
  complete path h := by
    split_ifs at h with hjson hmanifest
    · exact Or.inl hjson
    · exact Or.inr (List.mem_singleton.mpr hmanifest)
    · exact absurd rfl h

def secondArchive : Archive demoLoads where
  files path := if path = ["bundle.json"] then some [2]
    else if path = ["manifests", "second.yml"] then some [8] else none
  bundleJson := [2]
  listed := [.plain ["manifests", "second.yml"]]
  hasBundleJson := rfl
  loaded := rfl
  complete path h := by
    split_ifs at h with hjson hmanifest
    · exact Or.inl hjson
    · exact Or.inr (List.mem_singleton.mpr hmanifest)
    · exact absurd rfl h

/-- A build of an archive that leaves nothing behind. -/
def quietBuild (archive : Archive demoLoads) : SharedBuild demoLoads where
  archive := archive
  override := none
  course := .launched emptyFolder false
  overridesFile := nofun

/-- Digests in the first bundle's `bundle.json` keep its manifest in the folder. -/
theorem listed_objects_leak_into_the_next_build :
    ¬ ∀ (loads : Loads) (earlier : List (SharedBuild loads)) (b : SharedBuild loads),
      b.Exact (b.atLauncher (afterBuilds earlier emptyFolder)) := by
  intro h
  have hexact := (h demoLoads [quietBuild firstArchive] (quietBuild secondArchive)
    ["manifests", "first.yml"] (by decide)).1.mp (by decide)
  exact hexact rfl

theorem plain_names_do_not_leak :
    (quietBuild firstArchive).Exact ((quietBuild firstArchive).atLauncher
      (afterBuilds [quietBuild secondArchive] emptyFolder)) :=
  launcher_finds_exactly_its_archive [quietBuild secondArchive] (quietBuild firstArchive) (by
    intro b hb entry hentry
    rw [List.mem_singleton.mp hb] at hentry
    exact ⟨_, List.mem_singleton.mp hentry⟩)

end Objects

end BuildTools
