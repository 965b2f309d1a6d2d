import SynOSStudio.BuildTools.BundleApplication

/-!
# What a valid signature covers

A descriptor whose signature is valid and whose digests all match speaks for the members
it lists with a digest. Which members `apply_bundle` copies is decided by their names
alone.
-/

namespace BuildTools

section Comparison

variable {engine : Engine} {bundle : Bundle}

/-- The comparison only ever adds to its lists, and a member it accepts has its digest. -/
theorem compareEntry_spec (report : IntegrityReport) (entry : String × String)
    (hmodified : (compareEntry engine bundle report entry).modified = [])
    (hmissing : (compareEntry engine bundle report entry).missing = []) :
    report.modified = [] ∧ report.missing = [] ∧
      engine.sha256 (bundle.read entry.1) = entry.2 := by
  unfold compareEntry at hmodified hmissing
  split at hmodified
  · rename_i habsent
    rw [if_pos habsent] at hmissing
    simp at hmissing
  · rename_i hnamed
    rw [if_neg hnamed] at hmissing
    split at hmodified
    · rename_i hdigest
      rw [if_pos hdigest] at hmissing
      exact ⟨hmodified, hmissing, eq_of_beq hdigest⟩
    · simp at hmodified

theorem compareEntries_spec (entries : List (String × String)) (report : IntegrityReport)
    (hmodified : (entries.foldl (compareEntry engine bundle) report).modified = [])
    (hmissing : (entries.foldl (compareEntry engine bundle) report).missing = []) :
    (report.modified = [] ∧ report.missing = []) ∧
      ∀ entry ∈ entries, engine.sha256 (bundle.read entry.1) = entry.2 := by
  induction entries generalizing report with
  | nil => exact ⟨⟨hmodified, hmissing⟩, fun _ h => absurd h List.not_mem_nil⟩
  | cons entry rest ih =>
    obtain ⟨⟨hmod, hmis⟩, hrest⟩ := ih _ hmodified hmissing
    obtain ⟨hmod', hmis', hentry⟩ := compareEntry_spec report entry hmod hmis
    refine ⟨⟨hmod', hmis'⟩, fun e he => ?_⟩
    rcases List.mem_cons.mp he with rfl | hmem
    · exact hentry
    · exact hrest e hmem

theorem integrityReport_spec {descriptor : Descriptor} {integrity : IntegrityReport}
    (h : integrityReport engine bundle descriptor = some integrity)
    (hmodified : integrity.modified = []) (hmissing : integrity.missing = []) :
    ∀ entry ∈ descriptor.entries, engine.sha256 (bundle.read entry.1) = entry.2 := by
  unfold integrityReport at h
  by_cases hempty : descriptor.entries.isEmpty = true
  · simp only [hempty, if_true] at h
    cases h
  · simp only [hempty] at h
    cases h
    exact (compareEntries_spec _ _ hmodified hmissing).2

end Comparison

section Signatures

variable {engine : Engine} {bundle : Bundle} {descriptor : Descriptor}

/-- A path and a digest in the list that a trusted signer's valid signature covers. -/
def SignedFile (engine : Engine) (descriptor : Descriptor) (file : String × String) : Prop :=
  ∃ (signature : BundleSignature) (signer : Signer), descriptor.signature = some signature ∧
    engine.trustedSigners signature.keyId = some signer ∧
    engine.verify signer.publicKey signature.value (signedMessage engine descriptor) = true ∧
    file ∈ (signedBody descriptor).files

theorem mem_signedBody {file : String × String} :
    file ∈ (signedBody descriptor).files ↔ file ∈ descriptor.entries :=
  List.mem_insertionSort _

theorem SignedFile.of_valid {keyId : String} {signerName : Option String}
    (h : signatureStatus engine descriptor = .valid keyId signerName) {file : String × String}
    (hfile : file ∈ descriptor.entries) : SignedFile engine descriptor file := by
  unfold signatureStatus at h
  split at h
  · cases h
  · rename_i signature hsignature
    split at h
    · cases h
    · split at h
      · cases h
      · rename_i signer hsigner
        split at h
        · cases h
        · split at h
          · rename_i hverify
            exact ⟨signature, signer, hsignature, hsigner, hverify, mem_signedBody.mpr hfile⟩
          · cases h

theorem mem_entries {path sha256 : String} :
    (path, sha256) ∈ descriptor.entries ↔ .digest path sha256 ∈ descriptor.files := by
  unfold Descriptor.entries
  rw [List.mem_filterMap]
  constructor
  · rintro ⟨file, hfile, hentry⟩
    cases file with
    | plain name => cases hentry
    | digest path' sha256' =>
      cases hentry
      exact hfile
  · intro hfile
    exact ⟨_, hfile, rfl⟩

/-- A member with an allowed prefix is not passed over, whatever the descriptor lists. -/
theorem Inspected.passesOver_iff {report : Report} (h : Inspected engine bundle descriptor report)
    {name : String} (hname : name ∈ bundle.names) :
    report.passesOver name = false ↔ Bundle.isDocumentation name = false ∧ allowedPrefix name = true := by
  constructor
  · intro hcopied
    exact ⟨(Bool.or_eq_false_iff.mp hcopied).1, (h.copied_name hname hcopied).2⟩
  · rintro ⟨hdoc, hbelow⟩
    have hkept : name ∉ ignoredNames bundle.names := by
      intro hmem
      have hboth := (List.mem_filter.mp hmem).2
      simp [hbelow] at hboth
    unfold Report.passesOver
    rw [h.ignored, hdoc]
    simpa using hkept

/-- From a bundle that is reported as validly signed and unchanged, exactly the members
that carry a digest are applied under the signature. -/
theorem applies_signed_files_iff {inspected : Checkout} (integrity : IntegrityReport)
    (keyId : String) (signerName : Option String)
    (herrors : (inspectBundle engine inspected bundle).errors = [])
    (hdescriptor : (inspectBundle engine inspected bundle).descriptor = some descriptor)
    (hvalid : (inspectBundle engine inspected bundle).signature = some (.valid keyId signerName))
    (hintegrity : (inspectBundle engine inspected bundle).integrity = some integrity)
    (hmodified : integrity.modified = []) (hmissing : integrity.missing = []) :
    (∀ name ∈ bundle.names, (inspectBundle engine inspected bundle).passesOver name = false →
      SignedFile engine descriptor (name, engine.sha256 (bundle.read name))) ↔
    ∀ name ∈ bundle.names, Bundle.isDocumentation name = false → allowedPrefix name = true →
      ∃ sha256, .digest name sha256 ∈ descriptor.files := by
  obtain ⟨found, -, h⟩ := inspected_of_errors herrors
  have hsame : found = descriptor := Option.some.inj (h.descriptor.symm.trans hdescriptor)
  subst hsame
  have hstatus : signatureStatus engine found = .valid keyId signerName :=
    Option.some.inj (h.signature.symm.trans hvalid)
  have hdigests := integrityReport_spec (h.integrity.symm.trans hintegrity) hmodified hmissing
  constructor
  · intro hsigned name hname hdoc hbelow
    obtain ⟨-, -, -, -, -, hfile⟩ := hsigned name hname ((h.passesOver_iff hname).mpr ⟨hdoc, hbelow⟩)
    exact ⟨_, mem_entries.mp (mem_signedBody.mp hfile)⟩
  · intro hlisted name hname hcopied
    obtain ⟨hdoc, hbelow⟩ := (h.passesOver_iff hname).mp hcopied
    obtain ⟨sha256, hfile⟩ := hlisted name hname hdoc hbelow
    have hentry := mem_entries.mpr hfile
    have hdigest : engine.sha256 (bundle.read name) = sha256 := hdigests _ hentry
    rw [hdigest]
    exact SignedFile.of_valid hstatus hentry

/-- A descriptor with a digest for its manifest alone. -/
def signedDescriptor : Descriptor :=
  ⟨1, none, "manifests/demo.yml", none, [.digest "manifests/demo.yml" "ab"],
    some ⟨"studio-2026", "c0ffee"⟩⟩

/-- An engine that trusts the key which signed that descriptor. -/
def signingEngine : Engine where
  version := "1.0.0"
  loadDescriptor _ := .ok signedDescriptor
  loadManifest _ := .ok ⟨[], none, none, [], none⟩
  profileErrors _ := .ok []
  sha256 content := if content = [1, 2, 3] then "ab" else "cd"
  trustedSigners keyId := if keyId = "studio-2026" then some ⟨none, "d0"⟩ else none
  cryptography := true
  canonicalJson body := body.files.flatMap fun file => file.1.toUTF8.toList
  verify publicKey value message :=
    publicKey == "d0" && value == "c0ffee" && message == "manifests/demo.yml".toUTF8.toList

/-- The signed bundle, with further members. -/
def signedBundle (further : List String) : Bundle where
  names := ["bundle.json", "manifests/demo.yml"] ++ further
  read name := if name = "manifests/demo.yml" then [1, 2, 3] else [4]

theorem undeclared_key_is_applied :
    ¬ ∀ (engine : Engine) (inspected : Checkout) (bundle : Bundle) (descriptor : Descriptor)
      (integrity : IntegrityReport) (keyId : String) (signerName : Option String),
      (inspectBundle engine inspected bundle).errors = [] →
      (inspectBundle engine inspected bundle).descriptor = some descriptor →
      (inspectBundle engine inspected bundle).signature = some (.valid keyId signerName) →
      (inspectBundle engine inspected bundle).integrity = some integrity →
      integrity.modified = [] → integrity.missing = [] →
      ∀ name ∈ bundle.names, (inspectBundle engine inspected bundle).passesOver name = false →
        SignedFile engine descriptor (name, engine.sha256 (bundle.read name)) := by
  intro h
  obtain ⟨-, -, -, -, -, hfile⟩ := h signingEngine bareCheckout (signedBundle ["keys/extra.asc"])
    signedDescriptor ⟨1, 1, [], [], ["keys/extra.asc"]⟩ "studio-2026" none
    (by decide +kernel) (by decide +kernel) (by decide +kernel) (by decide +kernel) rfl rfl
    "keys/extra.asc" (by decide) (by decide +kernel)
  revert hfile
  decide +kernel

theorem declared_bundle_is_signed :
    (∀ name ∈ (signedBundle []).names,
      (inspectBundle signingEngine bareCheckout (signedBundle [])).passesOver name = false →
      SignedFile signingEngine signedDescriptor
        (name, signingEngine.sha256 ((signedBundle []).read name))) ↔
    ∀ name ∈ (signedBundle []).names, Bundle.isDocumentation name = false →
      allowedPrefix name = true → ∃ sha256, .digest name sha256 ∈ signedDescriptor.files :=
  applies_signed_files_iff ⟨1, 1, [], [], []⟩ "studio-2026" none (by decide +kernel) (by decide +kernel) (by decide +kernel)
    (by decide +kernel) rfl rfl

end Signatures

end BuildTools
