import Mathlib.Data.List.Lex
import Mathlib.Data.List.Sort
import Mathlib.Data.String.Basic
import Mathlib.Tactic

/-!
# Configuration bundles

What `tools/synos` reads from a bundle and what `inspect_bundle` reports about it. The
libraries for schemas, YAML and signatures are functions of the engine.
-/

namespace BuildTools

/-- The parts of a path below the checkout, as `Path` keeps them. -/
abbrev CheckoutPath := List String

inductive Node where
  | directory
  | file (content : List UInt8)
  deriving DecidableEq

def BUNDLE_DIRECTORIES : List String := ["manifests", "profiles", "branding", "keys", "answers"]

def ALLOWED_PREFIXES : List String :=
  ["manifests/", "profiles/", "branding/", "keys/", "answers/"]

def DOC_FILES : List String :=
  ["README.md", "build.sh", "build.ps1", "build.cmd", "build.command"]

def SUPPORTED_FORMATS : List ℕ := [1]

/-- The files and directories below `ROOT`, without links. Every entry is in a directory,
and the directories that bundles are copied into are there. -/
structure Checkout where
  node : CheckoutPath → Option Node
  inDirectory : ∀ path path', node path ≠ none → path' <+: path → path' ≠ path →
    node path' = some .directory
  bundleDirectories : ∀ name ∈ BUNDLE_DIRECTORIES, node [name] = some .directory

def Checkout.isFile (c : Checkout) (path : CheckoutPath) : Bool :=
  match c.node path with
  | some (.file _) => true
  | _ => false

/-- The members of a bundle, in the order of `names`, and their bytes. -/
structure Bundle where
  names : List String
  read : String → List UInt8

inductive DeclaredFile where
  | plain (name : String)
  | digest (path sha256 : String)
  deriving DecidableEq

def DeclaredFile.entry? : DeclaredFile → Option (String × String)
  | .plain _ => none
  | .digest path sha256 => some (path, sha256)

structure BundleSignature where
  keyId : String
  value : String
  deriving DecidableEq

structure Descriptor where
  format : ℕ
  name : Option String
  manifest : String
  engineMin : Option String
  files : List DeclaredFile
  signature : Option BundleSignature
  deriving DecidableEq

/-- The entries of `files` that carry a digest. -/
def Descriptor.entries (d : Descriptor) : List (String × String) :=
  d.files.filterMap DeclaredFile.entry?

structure Manifest where
  schemaErrors : List String
  profile : Option String
  brand : Option String
  regions : List String
  base : Option String

structure Signer where
  name : Option String
  publicKey : String

/-- What a generator signs. -/
structure SignedBody where
  format : ℕ
  name : Option String
  manifest : String
  files : List (String × String)

/-- Why `bundle.json` is refused: at least one error. -/
structure Refusal where
  first : String
  others : List String

/-- The engine and the libraries it validates with. -/
structure Engine where
  version : String
  loadDescriptor : List UInt8 → Except Refusal Descriptor
  loadManifest : List UInt8 → Except String Manifest
  profileErrors : List UInt8 → Except String (List String)
  sha256 : List UInt8 → String
  trustedSigners : String → Option Signer
  cryptography : Bool
  canonicalJson : SignedBody → List UInt8
  verify : String → String → List UInt8 → Bool

structure IntegrityReport where
  declared : ℕ
  verified : ℕ
  modified : List String
  missing : List String
  undeclared : List String
  deriving DecidableEq

inductive SignatureStatus where
  | none
  | valid (keyId : String) (signer : Option String)
  | invalid (keyId : String) (signer : Option String) (reason : Option String)
  | unknownSigner (keyId : String)
  | unverifiable (keyId : String) (reason : String)
  deriving DecidableEq

structure Report where
  files : List String
  warnings : List String
  errors : List String
  manifest : Option String
  name : Option String
  engineRequired : Option String
  engine : String
  descriptor : Option Descriptor
  ignored : List String
  integrity : Option IntegrityReport
  signature : Option SignatureStatus

section Names

def splitPath (name : String) : List String :=
  (name.toList.splitOn '/').map String.ofList

/-- `Path(name).parts` of a relative name. -/
def pathParts (name : String) : CheckoutPath :=
  (splitPath name).filter fun part => part != "" && part != "."

def startsWith (start name : String) : Bool :=
  start.toList.isPrefixOf name.toList

def endsWith (suffix name : String) : Bool :=
  suffix.toList.isSuffixOf name.toList

def safeRelative (name : String) : Bool :=
  !(startsWith "/" name || startsWith "\\" name || (pathParts name).contains ".." ||
    ((splitPath name).headD "").toList.contains ':')

def allowedPrefix (name : String) : Bool :=
  ALLOWED_PREFIXES.any fun start => startsWith start name

/-- The last part of a path without its suffix. -/
def stem (name : String) : String :=
  let last := ((pathParts name).getLastD "").toList
  match last.reverse.dropWhile (· != '.') with
  | [] => String.ofList last
  | '.' :: [] => String.ofList last
  | _ :: start =>
    if endsWith "." (String.ofList last) then String.ofList last else String.ofList start.reverse

def versionTuple (text : String) : List ℕ :=
  (text.toList.splitOn '.').map fun part => part.foldl (fun n c => 10 * n + (c.toNat - 48)) 0

end Names

section Inspection

/-- What the comparison with the declared digests has found so far. -/
def compareEntry (engine : Engine) (bundle : Bundle) (report : IntegrityReport)
    (entry : String × String) : IntegrityReport :=
  if !bundle.names.contains entry.1 then
    { report with missing := report.missing ++ [entry.1] }
  else if engine.sha256 (bundle.read entry.1) == entry.2 then
    { report with verified := report.verified + 1 }
  else
    { report with modified := report.modified ++ [entry.1] }

def integrityReport (engine : Engine) (bundle : Bundle) (descriptor : Descriptor) :
    Option IntegrityReport :=
  let entries := descriptor.entries
  if entries.isEmpty then
    none
  else
    let report := entries.foldl (compareEntry engine bundle) ⟨entries.length, 0, [], [], []⟩
    let listed := entries.map Prod.fst
    some { report with
      undeclared := (bundle.names.filter fun n => !listed.contains n && n != "bundle.json").insertionSort
        (· ≤ ·) }

def signedBody (descriptor : Descriptor) : SignedBody where
  format := descriptor.format
  name := descriptor.name
  manifest := descriptor.manifest
  files := descriptor.entries.insertionSort fun f g => f.1 ≤ g.1

def signedMessage (engine : Engine) (descriptor : Descriptor) : List UInt8 :=
  engine.canonicalJson (signedBody descriptor)

def signatureStatus (engine : Engine) (descriptor : Descriptor) : SignatureStatus :=
  match descriptor.signature with
  | none => .none
  | some signature =>
    if descriptor.entries.isEmpty then
      .invalid signature.keyId none (some "no file digests to sign")
    else
      match engine.trustedSigners signature.keyId with
      | none => .unknownSigner signature.keyId
      | some signer =>
        if !engine.cryptography then
          .unverifiable signature.keyId "python3-cryptography is not installed"
        else if engine.verify signer.publicKey signature.value (signedMessage engine descriptor) then
          .valid signature.keyId signer.name
        else
          .invalid signature.keyId signer.name none

def Bundle.isDocumentation (name : String) : Bool :=
  name == "bundle.json" || DOC_FILES.contains name

def unsafeErrors (names : List String) : List String :=
  (names.filter fun name => !Bundle.isDocumentation name && !safeRelative name).map
    fun name => "unsafe path in bundle: " ++ name

def ignoredNames (names : List String) : List String :=
  names.filter fun name =>
    !Bundle.isDocumentation name && safeRelative name && !allowedPrefix name

def engineErrors (engine : Engine) (descriptor : Descriptor) : List String :=
  (if SUPPORTED_FORMATS.contains descriptor.format then []
  else
    ["bundle format " ++ toString descriptor.format ++ " is not supported by engine " ++
      engine.version ++ " (supported: " ++ ", ".intercalate (SUPPORTED_FORMATS.map toString) ++ ")"]) ++
  match descriptor.engineMin with
  | none => []
  | some required =>
    if versionTuple engine.version < versionTuple required then
      ["the bundle needs engine " ++ required ++ " or newer; this checkout is " ++ engine.version]
    else []

def ignoredWarnings (ignored : List String) : List String :=
  if ignored.isEmpty then []
  else
    ["not part of a bundle, ignored: " ++ ", ".intercalate (ignored.take 5) ++
      (if 5 < ignored.length then " and " ++ toString (ignored.length - 5) ++ " more" else "") ++
      " (bundles carry " ++ ", ".intercalate ALLOWED_PREFIXES ++ ", README.md and the launchers)"]

def integrityWarnings : Option IntegrityReport → List String
  | none => []
  | some integrity =>
    (if integrity.modified.isEmpty then []
    else ["changed after generation: " ++ ", ".intercalate integrity.modified]) ++
    (if integrity.missing.isEmpty then []
    else ["listed in bundle.json but missing: " ++ ", ".intercalate integrity.missing])

def signatureWarnings : SignatureStatus → List String
  | .invalid keyId _ _ =>
    ["signature invalid (key " ++ keyId ++ "); treat the bundle as hand-made"]
  | .unknownSigner keyId =>
    ["signature unknown-signer (key " ++ keyId ++ "); treat the bundle as hand-made"]
  | _ => []

/-- Profiles, brands, regions and bases that are neither in the bundle nor in the checkout. -/
def referenceErrors (engine : Engine) (checkout : Checkout) (bundle : Bundle)
    (manifest : Manifest) : List String :=
  (match manifest.profile with
  | none => []
  | some profile =>
    if profile != "" && !bundle.names.contains ("profiles/" ++ profile ++ ".yml") &&
        !checkout.isFile ("profiles" :: pathParts (profile ++ ".yml")) then
      ["profile '" ++ profile ++ "' is neither in the bundle nor in this checkout"]
    else []) ++
  (match manifest.brand with
  | none => []
  | some brand =>
    if brand != "" && !bundle.names.contains ("branding/" ++ brand ++ "/brand.yml") &&
        !checkout.isFile ("branding" :: pathParts (brand ++ "/brand.yml")) then
      ["brand '" ++ brand ++ "' is neither in the bundle nor in this checkout"]
    else []) ++
  (manifest.regions.filter fun region =>
      !checkout.isFile ("regions" :: pathParts (region ++ ".yml"))).map
    (fun region => "region '" ++ region ++ "' does not exist in engine " ++ engine.version) ++
  (match manifest.base with
  | none => []
  | some base =>
    if base != "" && !checkout.isFile ("bases" :: pathParts (base ++ "/base.env")) then
      ["base '" ++ base ++ "' does not exist in engine " ++ engine.version]
    else [])

def profileErrorsOf (engine : Engine) (bundle : Bundle) : List String :=
  (bundle.names.filter fun name => startsWith "profiles/" name && endsWith ".yml" name &&
      name != "profiles/bundles.yml").flatMap fun name =>
    match engine.profileErrors (bundle.read name) with
    | .error exc => [name ++ ": " ++ exc]
    | .ok errors => errors.map fun e => name ++ " " ++ e

def keyWarnings (bundle : Bundle) : List String :=
  (bundle.names.filter fun name => startsWith "keys/" name && !endsWith ".asc" name).map
    fun name => name ++ ": repository keys are expected as ASCII-armored .asc files"

/-- The checks of the manifest and of what it refers to. -/
def inspectManifest (engine : Engine) (checkout : Checkout) (bundle : Bundle)
    (manifestName : String) (report : Report) : Report :=
  if !bundle.names.contains manifestName then
    { report with errors := report.errors ++
      [manifestName ++ " named by bundle.json is not in the bundle"] }
  else
    match engine.loadManifest (bundle.read manifestName) with
    | .error exc => { report with errors := report.errors ++ [manifestName ++ ": " ++ exc] }
    | .ok manifest =>
      { report with
        errors := report.errors ++ manifest.schemaErrors.map (fun e => manifestName ++ " " ++ e) ++
          profileErrorsOf engine bundle ++ referenceErrors engine checkout bundle manifest
        warnings := report.warnings ++ keyWarnings bundle }

/-- The report on a bundle whose descriptor could be read. -/
def inspectDescribed (engine : Engine) (checkout : Checkout) (bundle : Bundle)
    (descriptor : Descriptor) : Report :=
  let ignored := ignoredNames bundle.names
  let integrity := integrityReport engine bundle descriptor
  let signature := signatureStatus engine descriptor
  inspectManifest engine checkout bundle descriptor.manifest {
    files := bundle.names
    warnings := ignoredWarnings ignored ++ integrityWarnings integrity ++ signatureWarnings signature
    errors := engineErrors engine descriptor ++ unsafeErrors bundle.names
    manifest := some descriptor.manifest
    name := some (match descriptor.name with
      | some name => if name == "" then stem descriptor.manifest else name
      | none => stem descriptor.manifest)
    engineRequired := descriptor.engineMin
    engine := engine.version
    descriptor := some descriptor
    ignored := ignored
    integrity := integrity
    signature := some signature }

def inspectBundle (engine : Engine) (checkout : Checkout) (bundle : Bundle) : Report :=
  let report : Report := ⟨bundle.names, [], [], none, none, none, engine.version, none, [], none, none⟩
  if !bundle.names.contains "bundle.json" then
    { report with errors := ["bundle.json is missing (see docs/BUNDLE.md)"] }
  else
    match engine.loadDescriptor (bundle.read "bundle.json") with
    | .error refusal => { report with errors := refusal.first :: refusal.others }
    | .ok descriptor => inspectDescribed engine checkout bundle descriptor

end Inspection

section Application

/-- An exception of the file system. -/
inductive OSError where
  | isADirectory (path : CheckoutPath)
  | fileInTheWay (path : CheckoutPath)
  deriving DecidableEq

/-- The directories above a path. -/
def parents (path : CheckoutPath) : List CheckoutPath :=
  path.inits.filter (· != path)

theorem mem_parents {path path' : CheckoutPath} :
    path' ∈ parents path ↔ path' <+: path ∧ path' ≠ path := by
  simp [parents]

/-- `target.parent.mkdir(parents=True, exist_ok=True)` and `target.write_bytes`. -/
def Checkout.writeFile (c : Checkout) (target : CheckoutPath) (content : List UInt8) :
    Except OSError Checkout :=
  match (parents target).find? c.isFile with
  | some path => .error (.fileInTheWay path)
  | none =>
    if h : c.node target = some .directory then
      .error (.isADirectory target)
    else
      .ok {
        node := fun path =>
          if path = target then some (.file content)
          else if path ∈ parents target then some .directory
          else c.node path
        inDirectory := by
          intro path path' hpath hbelow hne
          have hparent : path' ∈ parents target → path' ≠ target := fun hmem =>
            (mem_parents.mp hmem).2
          by_cases htarget : path = target
          · subst htarget
            have hmem := mem_parents.mpr ⟨hbelow, hne⟩
            rw [if_neg hne, if_pos hmem]
          · rw [if_neg htarget] at hpath
            by_cases hmem : path ∈ parents target
            · have habove : path' ∈ parents target := by
                refine mem_parents.mpr ⟨hbelow.trans (mem_parents.mp hmem).1, ?_⟩
                rintro rfl
                exact hne (hbelow.eq_of_length_le (mem_parents.mp hmem).1.length_le)
              rw [if_neg (hparent habove), if_pos habove]
            · rw [if_neg hmem] at hpath
              have hdirectory := c.inDirectory path path' hpath hbelow hne
              have hneTarget : path' ≠ target := fun heq => h (heq ▸ hdirectory)
              rw [if_neg hneTarget]
              split
              · rfl
              · exact hdirectory
        bundleDirectories := by
          intro name hname
          have hdirectory := c.bundleDirectories name hname
          have hneTarget : [name] ≠ target := fun heq => h (heq ▸ hdirectory)
          rw [if_neg hneTarget]
          split
          · rfl
          · exact hdirectory }

/-- What `apply_bundle` has done so far. -/
structure Applying where
  checkout : Checkout
  applied : List String
  skipped : List String
  conflicts : List String

inductive ApplyResult where
  | returned (applied skipped : List String)
  | failure (conflicts applied : List String)
  | raised (error : OSError)

/-- Whether a member is passed over. -/
def Report.passesOver (report : Report) (name : String) : Bool :=
  Bundle.isDocumentation name || report.ignored.contains name

/-- Write a member into the checkout. -/
def Applying.write (s : Applying) (bundle : Bundle) (name : String) : Except OSError Applying :=
  match s.checkout.writeFile (pathParts name) (bundle.read name) with
  | .error error => .error error
  | .ok checkout => .ok { s with checkout := checkout, applied := s.applied ++ [name] }

/-- One turn of the loop of `apply_bundle`. -/
def Applying.applyName (s : Applying) (bundle : Bundle) (report : Report) (force : Bool)
    (name : String) : Except OSError Applying :=
  if report.passesOver name then
    .ok { s with skipped := s.skipped ++ [name] }
  else
    match s.checkout.node (pathParts name), force with
    | some .directory, false => .error (.isADirectory (pathParts name))
    | some (.file content), false =>
      if content = bundle.read name then
        .ok { s with skipped := s.skipped ++ [name] }
      else
        .ok { s with conflicts := s.conflicts ++ [name] }
    | _, _ => s.write bundle name

/-- The loop of `apply_bundle`, with the exception that ended it. -/
def Applying.applyNames (s : Applying) (bundle : Bundle) (report : Report) (force : Bool) :
    List String → Applying × Option OSError
  | [] => (s, none)
  | name :: rest =>
    match s.applyName bundle report force name with
    | .error error => (s, some error)
    | .ok s' => s'.applyNames bundle report force rest

/-- The result of the loop: an exception, the conflicts `Failure` or the two lists. -/
def Applying.finish (s : Applying) : Option OSError → ApplyResult
  | some error => .raised error
  | none =>
    if s.conflicts.isEmpty then .returned s.applied s.skipped else .failure s.conflicts s.applied

def applyBundle (checkout : Checkout) (bundle : Bundle) (report : Report) (force : Bool) :
    ApplyResult × Applying :=
  let run := Applying.applyNames ⟨checkout, [], [], []⟩ bundle report force report.files
  (run.1.finish run.2, run.1)

end Application

end BuildTools
