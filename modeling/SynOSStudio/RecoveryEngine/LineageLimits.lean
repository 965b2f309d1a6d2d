import SynOSStudio.RecoveryEngine.LineageFile

/-!
# The limits of the lineage file

`save_to` measures the JSON text, `load_from` the whole file, which ends with a line
break. A lineage whose text is shorter than the limit is saved and loaded again; one
whose text has exactly the length of the limit is saved and never loaded; a longer
one is refused, however few nodes and activations it has. As long as no text of
exactly that length is written, no sequence of store operations, failing or killed
anywhere, leaves a file that a later operation rejects.
-/

namespace RecoveryEngine

open InterruptiblePrograms JsonText

variable {instants : InstantText}

section Decoding

/-- What is saved is decoded again while the file stays within the limit. -/
theorem decodeLineage_serialized {lineage : SystemLineage} (hnumbers : lineage.Representable)
    (hvalid : lineage.validate = .ok ())
    (hfits : byteLength (serializedLineage instants lineage) < maxLineageBytes) :
    decodeLineage instants (serializedLineage instants lineage ++ ['\n']) = .ok lineage := by
  have hlength : byteLength (serializedLineage instants lineage ++ ['\n']) ≤ maxLineageBytes := by
    have hbreak : byteLength ['\n'] = 1 := rfl
    rw [byteLength_append, hbreak]
    omega
  have hparse : (parse (serializedLineage instants lineage ++ ['\n'])).bind
      (SystemLineage.ofJson instants) = some lineage := by
    rw [serializedLineage, parse_pretty _ rfl, Option.bind_some]
    exact SystemLineage.ofJson_toJson instants hnumbers
  unfold decodeLineage
  simp only [hparse, decide_eq_true hlength, ensure, if_true, hvalid]
  rfl

theorem decodeLineage_too_long {contents : List Char} (h : maxLineageBytes < byteLength contents) :
    decodeLineage instants contents =
      .error (.invalid "system lineage exceeds its size limit") := by
  have hlength : decide (byteLength contents ≤ maxLineageBytes) = false :=
    decide_eq_false (by omega)
  unfold decodeLineage
  rw [hlength]
  rfl

theorem decodeLineage_eq_ok {contents : List Char} {lineage : SystemLineage}
    (h : decodeLineage instants contents = .ok lineage) :
    lineage.validate = .ok () ∧ lineage.Representable := by
  unfold decodeLineage at h
  obtain ⟨_, -, h⟩ := bind_eq_ok.mp h
  cases hread : (parse contents).bind (SystemLineage.ofJson instants) with
  | none =>
    rw [hread] at h
    cases h
  | some read =>
    rw [hread] at h
    obtain ⟨_, hvalid, hpure⟩ := bind_eq_ok.mp h
    cases hpure
    obtain ⟨json, -, hjson⟩ := Option.bind_eq_some_iff.mp hread
    exact ⟨hvalid, SystemLineage.representable_of_ofJson instants hjson⟩

end Decoding

/-- The lineage file is missing or is accepted by `load_from`. -/
def Readable (instants : InstantText) (d : HistoryDirectory) : Prop :=
  ∀ contents, d.lookup lineageFileName = some contents →
    ∃ lineage, decodeLineage instants contents = .ok lineage

section Names

theorem lineageFileName_ne_temporary (drawn : Uuid) :
    lineageFileName ≠ lineageTemporaryName drawn := by
  intro h
  have hhead : "system-lineage.json".toList.head? =
      (".system-lineage-" ++ drawn.hyphenated ++ ".tmp").toList.head? :=
    congrArg (fun s : String => s.toList.head?) h
  rw [String.toList_append, String.toList_append] at hhead
  cases hhead

end Names

/-- No text is written that is exactly as long as the limit. -/
def OffLimit : DirectoryOp String Char → FileChoice → HistoryDirectory → Prop
  | .write _ content, _, _ => byteLength content ≠ maxLineageBytes
  | _, _, _ => True

instance : ∀ op k d, Decidable (OffLimit op k d)
  | .write _ content, _, _ => inferInstanceAs (Decidable (byteLength content ≠ maxLineageBytes))
  | .create _, _, _ => .isTrue trivial
  | .sync _, _, _ => .isTrue trivial
  | .rename _ _, _, _ => .isTrue trivial
  | .syncDirectory, _, _ => .isTrue trivial
  | .remove _, _, _ => .isTrue trivial
  | .read _, _, _ => .isTrue trivial
  | .list, _, _ => .isTrue trivial

section Keeping

variable {d : HistoryDirectory} {drawn : Uuid}

theorem readable_untouched {d' : HistoryDirectory} (h : Readable instants d)
    (hsame : Untouched (lineageTemporaryName drawn) d d') : Readable instants d' := by
  intro contents hcontents
  rw [hsame _ (lineageFileName_ne_temporary drawn)] at hcontents
  exact h contents hcontents

/-- Loading changes nothing and returns only what has been checked. -/
theorem keepsUnder_loadFrom (h : Readable instants d) :
    KeepsUnder DirectoryOp.handle OffLimit (Readable instants) (loadFrom instants).run
      (fun r d' => d' = d ∧ ∀ lineage, r = .ok (some lineage) → lineage.Representable) d := by
  have hread : KeepsUnder DirectoryOp.handle OffLimit (Readable instants)
      (Attempt.call (.read lineageFileName) lineageContents : LineageAttempt _).run
        (fun _ d' => d' = d) d :=
    (keepsUnder_attempt_call _ _ _ _).mpr ⟨h, fun k _ => handle_read _ k d⟩
  unfold loadFrom
  refine keepsUnder_attempt_then hread (fun e s hs => ⟨hs, fun _ he => by cases he⟩) ?_
  rintro contents s rfl
  cases contents with
  | none => exact ⟨rfl, fun _ he => by cases he⟩
  | some contents =>
    refine keepsUnder_ofExcept_bind (fun e _ => ⟨rfl, fun _ he => by cases he⟩) fun lineage hok => ?_
    refine ⟨rfl, fun read heq => ?_⟩
    cases heq
    exact (decodeLineage_eq_ok hok).2

/-- A save that writes no text of exactly the limit leaves a readable file. -/
theorem keepsUnder_saveTo {lineage : SystemLineage} (hnumbers : lineage.Representable)
    (h : Readable instants d) :
    KeepsUnder DirectoryOp.handle OffLimit (Readable instants) (saveTo instants drawn lineage).run
      (fun _ d' => Readable instants d') d := by
  unfold saveTo
  refine keepsUnder_ofExcept_bind (fun _ _ => h) fun _ hvalid => ?_
  refine keepsUnder_ofExcept_bind (fun _ _ => h) fun _ hlength => ?_
  have hfits : byteLength (serializedLineage instants lineage) ≤ maxLineageBytes :=
    of_decide_eq_true ((ensure_eq_ok _ _).mp hlength)
  have hbefore : ∀ d', Untouched (lineageTemporaryName drawn) d d' → Readable instants d' :=
    fun d' hsame => readable_untouched h hsame
  have hafter : (∃ k s, OffLimit (.write (lineageTemporaryName drawn)
      (serializedLineage instants lineage)) k s) → ∀ d', Replaced (lineageTemporaryName drawn)
        lineageFileName (serializedLineage instants lineage ++ ['\n']) d d' →
          Readable instants d' := by
    rintro ⟨k, s, hoff⟩ d' hreplaced contents hcontents
    rw [hreplaced.1, Option.some.injEq] at hcontents
    subst hcontents
    have hne : byteLength (serializedLineage instants lineage) ≠ maxLineageBytes := hoff
    exact ⟨lineage, decodeLineage_serialized hnumbers hvalid (by omega)⟩
  refine (keepsUnder_mapError _ _ _ _).mpr
    ((keepsUnder_replaceFile (lineageFileName_ne_temporary drawn) hbefore hafter).mono
      fun r d' hd' => ?_)
  rcases hd' with ⟨hsame, -⟩ | ⟨hwritten, hreplaced⟩
  · exact hbefore d' hsame
  · exact hafter hwritten d' hreplaced

/-- The mutation of a file whose numbers fit gives a lineage whose numbers fit. -/
def KeepsNumbers
    (mutation : Option SystemLineage → Except LineageError (Option SystemLineage × Bool)) : Prop :=
  ∀ file next changed, (∀ lineage ∈ file, lineage.Representable) →
    mutation file = .ok (some next, changed) → next.Representable

theorem representable_revised {changed : Bool} {next lineage : SystemLineage}
    (hnext : next.Representable) (h : LineageStore.revised changed next = .ok lineage) :
    lineage.Representable := by
  unfold LineageStore.revised LineageStore.advanceRevision at h
  split_ifs at h with hchanged hbound
  · cases h
    exact ⟨hnext.1, hbound⟩
  · cases h
    exact hnext

theorem keepsUnder_mutateFile
    {mutation : Option SystemLineage → Except LineageError (Option SystemLineage × Bool)}
    (hmutation : KeepsNumbers mutation) (h : Readable instants d) :
    KeepsUnder DirectoryOp.handle OffLimit (Readable instants)
      (mutateFile instants drawn mutation).run (fun _ d' => Readable instants d') d := by
  have hexists : KeepsUnder DirectoryOp.handle OffLimit (Readable instants) lineageExists.run
      (fun _ d' => d' = d) d :=
    (keepsUnder_attempt_call _ _ _ _).mpr ⟨h, fun k _ => handle_read _ k d⟩
  unfold mutateFile
  refine keepsUnder_attempt_then (keepsUnder_loadFrom h) (fun _ _ hs => hs.1 ▸ h) ?_
  rintro file _ ⟨rfl, hfile⟩
  refine keepsUnder_ofExcept_bind (fun _ _ => h) ?_
  rintro ⟨next, changed⟩ happly
  cases next with
  | none => exact h
  | some next =>
    have hnext : next.Representable := by
      refine hmutation file next changed (fun lineage hlineage => ?_) happly
      cases hlineage
      exact hfile lineage rfl
    refine keepsUnder_ofExcept_bind (fun _ _ => h) fun lineage hrevised => ?_
    have hlineage := representable_revised hnext hrevised
    refine keepsUnder_ofExcept_bind (fun _ _ => h) fun _ _ => ?_
    have hsave : KeepsUnder DirectoryOp.handle OffLimit (Readable instants)
        (saveTo instants drawn lineage >>= fun _ => pure lineage).run
          (fun _ d' => Readable instants d') _ :=
      keepsUnder_attempt_then (keepsUnder_saveTo hlineage h) (fun _ _ hs => hs) fun _ _ hs => hs
    cases changed with
    | true => exact hsave
    | false =>
      refine keepsUnder_attempt_then hexists (fun _ _ hs => hs ▸ h) ?_
      rintro present _ rfl
      cases present with
      | false => exact hsave
      | true => exact h

/-- A change of an existing lineage that leaves its schema and its revision alone. -/
theorem keepsNumbers_onExisting
    {change : SystemLineage → Except LineageError (SystemLineage × Bool)}
    (hchange : ∀ lineage next changed, change lineage = .ok (next, changed) →
      next.schemaVersion = lineage.schemaVersion ∧ next.revision = lineage.revision) :
    KeepsNumbers fun file => LineageMutation.onExisting file change := by
  intro file next changed hfile h
  cases file with
  | none => cases h
  | some lineage =>
    obtain ⟨⟨next', changed'⟩, hnext, hpure⟩ := bind_eq_ok.mp h
    cases hpure
    obtain ⟨hschema, hrevision⟩ := hchange lineage next changed hnext
    have hlineage := hfile lineage rfl
    unfold SystemLineage.Representable
    rw [hschema, hrevision]
    exact hlineage

theorem activate_numbers {transaction : RollbackTransaction} {outcome : ActivationOutcome}
    {at' : Timestamp} {lineage next : SystemLineage} {changed : Bool}
    (h : LineageMutation.activate transaction outcome at' lineage = .ok (next, changed)) :
    next.schemaVersion = lineage.schemaVersion ∧ next.revision = lineage.revision := by
  unfold LineageMutation.activate at h
  split at h
  · split_ifs at h
    cases h
    exact ⟨rfl, rfl⟩
  · split_ifs at h
    cases h
    exact ⟨rfl, rfl⟩

theorem markRemoved_numbers {id : DeploymentId} {at' : Timestamp} {lineage next : SystemLineage}
    {changed : Bool} (h : LineageMutation.markRemoved id at' lineage = .ok (next, changed)) :
    next.schemaVersion = lineage.schemaVersion ∧ next.revision = lineage.revision := by
  unfold LineageMutation.markRemoved at h
  split at h
  · cases h
  · split_ifs at h
    · cases h
      exact ⟨rfl, rfl⟩
    · cases h
      exact ⟨rfl, rfl⟩

theorem keepsNumbers_apply (mutation : LineageMutation) : KeepsNumbers mutation.apply := by
  cases mutation with
  | ensureInitialized deployments =>
    intro file next changed hfile h
    cases h
    cases file with
    | none => exact ⟨show 1 ≤ 2 ^ 32 - 1 by decide, show 1 ≤ maxRevision by decide⟩
    | some lineage => exact hfile lineage rfl
  | recordRecoveryPoint record =>
    intro file next changed hfile h
    simp only [LineageMutation.apply] at h
    split_ifs at h
    refine keepsNumbers_onExisting (fun lineage next changed hok => ?_) file next changed hfile h
    have hnext : next = (LineageMutation.appendPoint record lineage).1 :=
      (congrArg Prod.fst (Except.ok.inj hok)).symm
    rw [hnext]
    unfold LineageMutation.appendPoint
    split_ifs
    · exact ⟨rfl, rfl⟩
    · exact ⟨rfl, rfl⟩
  | recordActivation transaction outcome completedAt =>
    exact keepsNumbers_onExisting fun lineage next changed hok => activate_numbers hok
  | markSnapshotRemoved id removedAt =>
    exact keepsNumbers_onExisting fun lineage next changed hok => markRemoved_numbers hok

theorem keepsNumbers_detached (record : DeploymentRecord) : KeepsNumbers fun file =>
    LineageMutation.onExisting file fun lineage => .ok (appendDetached record lineage) := by
  refine keepsNumbers_onExisting fun lineage next changed hok => ?_
  have hnext : next = (appendDetached record lineage).1 :=
    (congrArg Prod.fst (Except.ok.inj hok)).symm
  rw [hnext]
  unfold appendDetached
  split_ifs
  · exact ⟨rfl, rfl⟩
  · exact ⟨rfl, rfl⟩

/-- Every method of the store leaves a readable file. -/
theorem keepsUnder_operation (operation : LineageOperation) (h : Readable instants d) :
    KeepsUnder DirectoryOp.handle OffLimit (Readable instants)
      (operation.program instants drawn).run (fun _ d' => Readable instants d') d := by
  have hmutate : ∀ mutation, KeepsNumbers mutation → KeepsUnder DirectoryOp.handle OffLimit
      (Readable instants) (mutateFile instants drawn mutation >>= fun _ => pure ()).run
        (fun _ d' => Readable instants d') d := fun mutation hmutation =>
    keepsUnder_attempt_then (keepsUnder_mutateFile hmutation h) (fun _ _ hs => hs) fun _ _ hs => hs
  cases operation with
  | load =>
    exact keepsUnder_attempt_then (keepsUnder_loadFrom h) (fun _ _ hs => hs.1 ▸ h)
      fun _ _ hs => hs.1 ▸ h
  | mutate mutation => exact hmutate _ (keepsNumbers_apply mutation)
  | recordDetachedRecoveryPoint record =>
    exact keepsUnder_ofExcept_bind (fun _ _ => h) fun _ _ =>
      hmutate _ (keepsNumbers_detached record)

end Keeping

section Results

variable {d : HistoryDirectory} {drawn : Uuid} {lineage : SystemLineage}

/-- What loading returns when no operation fails. -/
def loaded (instants : InstantText) (d : HistoryDirectory) :
    Except LineageError (Option SystemLineage) :=
  match d.lookup lineageFileName with
  | none => .ok none
  | some contents => (decodeLineage instants contents).map some

theorem keeps_loadFrom (instants : InstantText) (d : HistoryDirectory) :
    Keeps DirectoryOp.handle FileChoice.Faultless (fun _ => True) (loadFrom instants).run
      (fun r d' => r = loaded instants d ∧ d' = d) d := by
  unfold loadFrom
  refine (keeps_attempt_bind _ _ _ _).mpr ((keeps_attempt_call _ _ _ _).mpr
    ⟨trivial, fun k hk => ?_⟩)
  rw [handle_faultless _ hk]
  simp only [DirectoryOp.perform, loaded]
  cases d.lookup lineageFileName with
  | none => exact ⟨rfl, rfl⟩
  | some contents =>
    simp only [lineageContents]
    cases hdecode : decodeLineage instants contents with
    | error e => exact ⟨rfl, rfl⟩
    | ok lineage => exact ⟨rfl, rfl⟩

theorem runToEnd_loadFrom {ks : ℕ → FileChoice} (hks : ∀ n, (ks n).Faultless) :
    (loadFrom instants).run.runToEnd DirectoryOp.handle ks d = (loaded instants d, d) := by
  obtain ⟨hresult, hsame⟩ := (keeps_loadFrom instants d).runToEnd ks hks
  exact Prod.ext hresult hsame

theorem succeedsIff_loadFrom {file : Option SystemLineage} (h : loaded instants d = .ok file) :
    SucceedsIff DirectoryOp.handle FileChoice.Faultless True (fun r s => r = file ∧ s = d)
      (loadFrom instants) d := by
  refine (keeps_loadFrom instants d).mono fun r s hs => ?_
  rw [hs.1, h]
  exact ⟨trivial, rfl, hs.2⟩

theorem loaded_of_readable (h : Readable instants d) : ∃ file, loaded instants d = .ok file := by
  unfold loaded
  cases hcontents : d.lookup lineageFileName with
  | none => exact ⟨none, rfl⟩
  | some contents =>
    obtain ⟨lineage, hdecode⟩ := h contents hcontents
    exact ⟨some lineage, by simp only [hdecode, Except.map]⟩

theorem loaded_too_long {contents : List Char} (h : d.lookup lineageFileName = some contents)
    (hlong : maxLineageBytes < byteLength contents) :
    loaded instants d = .error (.invalid "system lineage exceeds its size limit") := by
  unfold loaded
  rw [h]
  simp only [decodeLineage_too_long hlong, Except.map]

/-- A save without failures succeeds when the text is within the limit. -/
theorem succeedsIff_saveTo (hvalid : lineage.validate = .ok ())
    (hlength : byteLength (serializedLineage instants lineage) ≤ maxLineageBytes)
    (hfresh : lineageTemporaryName drawn ∉ d) :
    SucceedsIff DirectoryOp.handle FileChoice.Faultless True
      (fun _ d' => d' = d.insert lineageFileName (serializedLineage instants lineage ++ ['\n']))
      (saveTo instants drawn lineage) d := by
  have hfits : ensure (decide (byteLength (serializedLineage instants lineage) ≤ maxLineageBytes))
      (LineageError.invalid "system lineage exceeds its size limit") = .ok () :=
    (ensure_eq_ok _ _).mpr (decide_eq_true hlength)
  unfold saveTo
  exact succeedsIff_passed hvalid (succeedsIff_passed hfits
    (succeedsIff_replaceFile hfresh).mapError)

/-- A save without failures succeeds exactly when the text is within the limit. -/
theorem runToEnd_saveTo {ks : ℕ → FileChoice} (hks : ∀ n, (ks n).Faultless)
    (hvalid : lineage.validate = .ok ()) (hfresh : lineageTemporaryName drawn ∉ d) :
    (saveTo instants drawn lineage).run.runToEnd DirectoryOp.handle ks d =
      if byteLength (serializedLineage instants lineage) ≤ maxLineageBytes then
        (.ok (), d.insert lineageFileName (serializedLineage instants lineage ++ ['\n']))
      else (.error (.invalid "system lineage exceeds its size limit"), d) := by
  split_ifs with hlength
  · obtain ⟨_, hok, hd⟩ := ((succeedsIff_saveTo hvalid hlength hfresh).runToEnd ks hks).1 trivial
    exact Prod.ext hok hd
  · have hsave : (saveTo instants drawn lineage).run =
        .done (.error (.invalid "system lineage exceeds its size limit")) := by
      unfold saveTo
      rw [hvalid, decide_eq_false hlength]
      rfl
    rw [hsave]
    rfl

/-- The initialization of an empty store. -/
theorem succeedsIff_initialize {deployments : List DeploymentRecord}
    (hmissing : d.lookup lineageFileName = none) (hfresh : lineageTemporaryName drawn ∉ d)
    (hvalid : (SystemLineage.migrate deployments).validate = .ok ())
    (hlength : byteLength (serializedLineage instants (.migrate deployments)) ≤ maxLineageBytes) :
    SucceedsIff DirectoryOp.handle FileChoice.Faultless True
      (fun _ d' => d' = d.insert lineageFileName
        (serializedLineage instants (.migrate deployments) ++ ['\n']))
      ((LineageOperation.mutate (.ensureInitialized deployments)).program instants drawn) d := by
  have hloaded : loaded instants d = .ok none := by
    unfold loaded
    rw [hmissing]
  have hmutate : SucceedsIff DirectoryOp.handle FileChoice.Faultless True
      (fun _ d' => d' = d.insert lineageFileName
        (serializedLineage instants (.migrate deployments) ++ ['\n']))
      (mutateFile instants drawn (LineageMutation.ensureInitialized deployments).apply) d := by
    unfold mutateFile
    refine (succeedsIff_loadFrom hloaded).then fun file s hs => ?_
    obtain ⟨rfl, rfl⟩ := hs
    refine succeedsIff_passed rfl (succeedsIff_passed rfl (succeedsIff_passed hvalid ?_))
    have habsent : SucceedsIff DirectoryOp.handle FileChoice.Faultless True
        (fun present s' => present = false ∧ s' = s) lineageExists s := by
      refine succeedsIff_call fun k hk => ⟨false, ?_, rfl, handle_read _ k s⟩
      rw [handle_faultless _ hk]
      simp only [DirectoryOp.perform, hmissing]
      rfl
    refine habsent.then fun present s' hs' => ?_
    obtain ⟨rfl, rfl⟩ := hs'
    exact (succeedsIff_saveTo hvalid hlength hfresh).then fun _ _ hsaved => succeedsIff_pure hsaved
  exact hmutate.then fun _ _ hd => succeedsIff_pure hd

/-- What a save that has succeeded, with or without failures on the way, leaves behind. -/
theorem keeps_saveTo_ok (instants : InstantText) (drawn : Uuid) (lineage : SystemLineage)
    (d : HistoryDirectory) :
    KeepsUnder DirectoryOp.handle (fun _ _ _ => True) (fun _ => True)
      (saveTo instants drawn lineage).run (fun r d' => r = .ok () → lineage.validate = .ok () ∧
        byteLength (serializedLineage instants lineage) ≤ maxLineageBytes ∧
        d'.lookup lineageFileName = some (serializedLineage instants lineage ++ ['\n'])) d := by
  unfold saveTo
  refine keepsUnder_ofExcept_bind (fun _ _ he => by cases he) fun _ hvalid => ?_
  refine keepsUnder_ofExcept_bind (fun _ _ he => by cases he) fun _ hlength => ?_
  have hfits : byteLength (serializedLineage instants lineage) ≤ maxLineageBytes :=
    of_decide_eq_true ((ensure_eq_ok _ _).mp hlength)
  refine (keepsUnder_mapError _ _ _ _).mpr
    ((keepsUnder_replaceFile (lineageFileName_ne_temporary drawn) (fun _ _ => trivial)
      (fun _ _ _ => trivial)).mono fun r d' hd' hok => ⟨hvalid, hfits, ?_⟩)
  rcases hd' with ⟨-, e, rfl⟩ | ⟨-, hreplaced⟩
  · cases hok
  · exact hreplaced.1

theorem saveTo_ok {d' : HistoryDirectory} {script : List FileChoice}
    (h : (saveTo instants drawn lineage).run.run DirectoryOp.handle script d = (some (.ok ()), d')) :
    lineage.validate = .ok () ∧ byteLength (serializedLineage instants lineage) ≤ maxLineageBytes ∧
      d'.lookup lineageFileName = some (serializedLineage instants lineage ++ ['\n']) := by
  have hrun := (keeps_saveTo_ok instants drawn lineage d).run script (meets_true _ script d)
  rw [h] at hrun
  exact hrun rfl

end Results

/-- One call of a store method, with the identifier it draws and the choices until it
returns or is killed. -/
structure LineageCall where
  operation : LineageOperation
  drawn : Uuid
  script : List FileChoice

def LineageCall.execution (instants : InstantText) (call : LineageCall) :
    Prog (DirectoryOp String Char) DirectoryAns (Except LineageError Unit) × List FileChoice :=
  ((call.operation.program instants call.drawn).run, call.script)

/-- The directory after a sequence of calls. -/
def runLineageCalls (instants : InstantText) (calls : List LineageCall) (d : HistoryDirectory) :
    HistoryDirectory :=
  runEach DirectoryOp.handle (calls.map (LineageCall.execution instants)) d

/-- No call writes a text that is exactly as long as the limit. -/
def CallsOffLimit (instants : InstantText) (calls : List LineageCall) (d : HistoryDirectory) :
    Prop :=
  MeetsEach DirectoryOp.handle OffLimit (calls.map (LineageCall.execution instants)) d

/-- A valid lineage is saved exactly when its text is within the limit, what has been saved
is loaded again unless its text is exactly as long as the limit, and calls that write no text of
that length, failing or killed anywhere, leave a file that loads. -/
theorem lineage_file_stays_loadable (instants : InstantText) :
    (∀ (lineage : SystemLineage) (drawn : Uuid) (d : HistoryDirectory) (ks : ℕ → FileChoice),
      lineage.validate = .ok () → lineageTemporaryName drawn ∉ d → (∀ n, (ks n).Faultless) →
      (saveTo instants drawn lineage).run.runToEnd DirectoryOp.handle ks d =
        if byteLength (serializedLineage instants lineage) ≤ maxLineageBytes then
          (.ok (), d.insert lineageFileName (serializedLineage instants lineage ++ ['\n']))
        else (.error (.invalid "system lineage exceeds its size limit"), d)) ∧
    (∀ (lineage : SystemLineage) (drawn : Uuid) (d d' : HistoryDirectory)
      (script : List FileChoice) (ks : ℕ → FileChoice), lineage.Representable →
      (saveTo instants drawn lineage).run.run DirectoryOp.handle script d = (some (.ok ()), d') →
      byteLength (serializedLineage instants lineage) ≠ maxLineageBytes →
      (∀ n, (ks n).Faultless) →
      ((loadFrom instants).run.runToEnd DirectoryOp.handle ks d').1 = .ok (some lineage)) ∧
    (∀ (calls : List LineageCall) (d : HistoryDirectory) (ks : ℕ → FileChoice),
      Readable instants d → CallsOffLimit instants calls d → (∀ n, (ks n).Faultless) →
      ∃ file, ((loadFrom instants).run.runToEnd DirectoryOp.handle ks
        (runLineageCalls instants calls d)).1 = .ok file) := by
  refine ⟨fun lineage drawn d ks hvalid hfresh hks => runToEnd_saveTo hks hvalid hfresh, ?_, ?_⟩
  · intro lineage drawn d d' script ks hnumbers hsaved hne hks
    obtain ⟨hvalid, hlength, hcontents⟩ := saveTo_ok hsaved
    have hdecode : decodeLineage instants (serializedLineage instants lineage ++ ['\n']) =
        .ok lineage := decodeLineage_serialized hnumbers hvalid (by omega)
    rw [runToEnd_loadFrom hks]
    simp only [loaded, hcontents, hdecode, Except.map]
  · intro calls d ks hreadable hcalls hks
    have hrun : Readable instants (runLineageCalls instants calls d) := by
      refine runEach_inv (fun execution hexecution s hs => ?_) hreadable hcalls
      obtain ⟨call, -, rfl⟩ := List.mem_map.mp hexecution
      exact keepsUnder_operation call.operation hs
    rw [runToEnd_loadFrom hks]
    exact loaded_of_readable hrun

/-! ### A lineage at the limit -/

/-- Instants as text: the epoch in its real form, every other instant as a signed number. -/
def epochText : InstantText where
  write instant :=
    if instant = 0 then "1970-01-01T00:00:00Z"
    else String.ofList ((if 0 ≤ instant then '+' else '-') :: Nat.toDigits 10 instant.natAbs)
  read s :=
    match s.toList with
    | '+' :: digits => some (Nat.ofDigitChars 10 digits 0)
    | '-' :: digits => some (-(Nat.ofDigitChars 10 digits 0))
    | _ => if s = "1970-01-01T00:00:00Z" then some 0 else none
  read_write := by
    intro instant
    have hdigits : Nat.ofDigitChars 10 (Nat.toDigits 10 instant.natAbs) 0 = instant.natAbs :=
      Nat.ofDigitChars_toDigits (by decide) (by decide)
    by_cases hzero : instant = 0
    · subst hzero
      rfl
    · by_cases hsign : 0 ≤ instant
      · have hvalue : (instant.natAbs : ℤ) = instant := Int.natAbs_of_nonneg hsign
        simp only [if_neg hzero, if_pos hsign, String.toList_ofList, hdigits, hvalue]
      · have hvalue : -(instant.natAbs : ℤ) = instant := by
          rw [Int.ofNat_natAbs_of_nonpos (le_of_not_ge hsign), neg_neg]
        simp only [if_neg hzero, if_neg hsign, String.toList_ofList, hdigits, hvalue]

section PlainText

/-- Quoting adds two bytes to a text without special characters. -/
theorem byteLength_quoted {s : String} (h : ∀ c ∈ s.toList, escapeChar c = [c]) :
    byteLength (quoted s) = byteLength s.toList + 2 := by
  have hflat : s.toList.flatMap escapeChar = s.toList := by
    have hmap : s.toList.flatMap escapeChar = s.toList.flatMap fun c => [c] :=
      List.flatMap_congr h
    rw [hmap, List.flatMap_singleton']
  have hquote : '"'.utf8Size = 1 := rfl
  simp only [quoted, hflat, byteLength_cons, byteLength_append, byteLength_nil, hquote]
  omega

theorem byteLength_replicate (n : ℕ) (c : Char) :
    byteLength (List.replicate n c) = n * c.utf8Size := by
  simp [byteLength]

theorem byteLength_eq_length {cs : List Char} (h : ∀ c ∈ cs, c.utf8Size = 1) :
    byteLength cs = cs.length := by
  induction cs with
  | nil => rfl
  | cons c cs ih =>
    rw [byteLength_cons, h c List.mem_cons_self, ih fun d hd => h d (List.mem_cons_of_mem c hd),
      List.length_cons]
    omega

theorem mem_hyphenated {u : Uuid} {c : Char} (h : c ∈ u.hyphenated.toList) :
    c = '-' ∨ ∃ digit, c = Uuid.hexDigit digit := by
  have hparts : c = '-' ∨ c ∈ u.digits.map Uuid.hexDigit := by
    simp only [Uuid.hyphenated, String.toList_ofList, Uuid.hyphenate, List.mem_append,
      List.mem_cons, or_assoc] at h
    rcases h with h | h | h | h | h | h | h | h | h
    all_goals first
      | exact Or.inl h
      | exact Or.inr (List.mem_of_mem_take h)
      | exact Or.inr (List.mem_of_mem_drop (List.mem_of_mem_take h))
      | exact Or.inr (List.mem_of_mem_drop h)
  refine hparts.imp_right fun hdigit => ?_
  obtain ⟨digit, -, rfl⟩ := List.mem_map.mp hdigit
  exact ⟨digit, rfl⟩

/-- The text of an identifier needs no escapes and has 36 bytes. -/
theorem byteLength_quoted_hyphenated (u : Uuid) : byteLength (quoted u.hyphenated) = 38 := by
  have hdigit : ∀ digit : Fin 16, escapeChar (Uuid.hexDigit digit) = [Uuid.hexDigit digit] ∧
      (Uuid.hexDigit digit).utf8Size = 1 := by decide
  have hlength : u.hyphenated.toList.length = 36 := by
    rw [Uuid.hyphenated, String.toList_ofList]
    exact Uuid.length_hyphenate (by simp [u.digits_length])
  have hsize : byteLength u.hyphenated.toList = 36 := by
    rw [← hlength]
    refine byteLength_eq_length fun c hc => ?_
    rcases mem_hyphenated hc with rfl | ⟨digit, rfl⟩
    · rfl
    · exact (hdigit digit).2
  rw [byteLength_quoted, hsize]
  intro c hc
  rcases mem_hyphenated hc with rfl | ⟨digit, rfl⟩
  · rfl
  · exact (hdigit digit).1

end PlainText

section Parentless

theorem checkNodes_of_nodup {nodes : List LineageNode} {seen : List DeploymentId}
    (hnodup : (nodes.map LineageNode.recoveryPointId).Nodup)
    (hseen : ∀ node ∈ nodes, node.recoveryPointId ∉ seen)
    (hcheck : ∀ node ∈ nodes, node.check = .ok ()) : checkNodes seen nodes = .ok () := by
  induction nodes generalizing seen with
  | nil => rfl
  | cons node nodes ih =>
    rw [List.map_cons, List.nodup_cons] at hnodup
    simp only [checkNodes, bind_eq_ok_unit, ensure_eq_ok]
    refine ⟨by simpa using hseen node List.mem_cons_self, hcheck node List.mem_cons_self,
      ih hnodup.2 (fun other hother hmem => ?_) fun other hother =>
        hcheck other (List.mem_cons_of_mem node hother)⟩
    rcases List.mem_cons.mp hmem with heq | hmem
    · exact hnodup.1 (heq ▸ List.mem_map_of_mem hother)
    · exact hseen other (List.mem_cons_of_mem node hother) hmem

theorem validateAcyclicFrom_of_none {parents : DeploymentId → Option DeploymentId} {fuel : ℕ}
    {completed ids : List DeploymentId} (hnone : ∀ id, parents id = none) :
    validateAcyclicFrom parents (fuel + 1) completed ids = .ok () := by
  induction ids generalizing completed with
  | nil => rfl
  | cons id ids ih =>
    have hwalk : ∃ path, walkParents parents completed (fuel + 1) [] (some id) = .ok path := by
      unfold walkParents
      split_ifs with hdone
      · exact ⟨[], rfl⟩
      · exact absurd ‹_› (by simp)
      · rw [hnone]
        exact ⟨[id], by cases fuel <;> rfl⟩
    obtain ⟨path, hpath⟩ := hwalk
    unfold validateAcyclicFrom
    rw [hpath]
    exact ih

/-- A history without parents, activations and head is valid when its nodes are. -/
theorem validate_parentless {lineage : SystemLineage}
    (hschema : lineage.schemaVersion = lineageSchemaVersion)
    (hlength : lineage.nodes.length ≤ maxLineageNodes)
    (hnodup : (lineage.nodes.map LineageNode.recoveryPointId).Nodup)
    (hcheck : ∀ node ∈ lineage.nodes, node.check = .ok ())
    (hparents : ∀ node ∈ lineage.nodes, node.parentId = none)
    (hhead : lineage.currentHeadId = none) (hactivations : lineage.activations = []) :
    lineage.validate = .ok () := by
  have hacyclic : validateAcyclic lineage.nodes = .ok () := by
    refine validateAcyclicFrom_of_none fun id => ?_
    cases hentry : KeyedLists.entry LineageNode.recoveryPointId lineage.nodes id with
    | none => rfl
    | some node => exact hparents node (KeyedLists.entry_mem hentry)
  simp only [SystemLineage.validate, bind_eq_ok_unit, ensure_eq_ok]
  refine ⟨by simp [hschema], by simp [hlength, hactivations], ?_, by simp [hhead], ?_, hacyclic, ?_⟩
  · exact checkNodes_of_nodup hnodup (fun _ _ => List.not_mem_nil) hcheck
  · exact List.all_eq_true.mpr fun node hnode => by simp [hparents node hnode]
  · rw [hactivations]
    rfl

end Parentless

section Crowd

/-- The first identifiers in the order of their numbers. -/
def crowdId (i : ℕ) : DeploymentId :=
  ⟨[Fin.ofNat 16 (i / 4096), Fin.ofNat 16 (i / 256), Fin.ofNat 16 (i / 16), Fin.ofNat 16 i] ++
    List.replicate 28 0, by simp⟩

theorem crowdId_injective {i j : ℕ} (hi : i < 65536) (hj : j < 65536) (h : crowdId i = crowdId j) :
    i = j := by
  have hdigits := congrArg Uuid.digits h
  simp only [crowdId, List.cons_append, List.nil_append, List.cons.injEq, Fin.ext_iff,
    Fin.val_ofNat, and_true] at hdigits
  omega

/-- The record of an imported snapshot with a title of the given length. -/
def crowdRecord (titleLength i : ℕ) : DeploymentRecord where
  schemaVersion := deploymentSchemaVersion
  id := crowdId i
  parentId := none
  kind := .imported
  state := .ready
  createdAt := 0
  title := String.ofList (List.replicate titleLength 'a')
  reason := "Imported from external storage"
  scheduleId := none
  snapshotUuid := some (crowdId i).hyphenated
  snapshotParentUuid := none
  kernelRelease := some "7.0.0"
  initramfsSha256 := some (String.ofList (List.replicate 64 'a'))
  bootArtifactSha256 := some (String.ofList (List.replicate 64 'b'))
  dpkgStatusSha256 := some (String.ofList (List.replicate 64 'c'))
  mokCertificateSha256 := none
  pinned := false
  failure := none

/-- Many imported snapshots, all but the first of them with titles of 58 characters. -/
def crowdRecords (count titleLength : ℕ) : List DeploymentRecord :=
  crowdRecord titleLength 0 :: (List.range count).map fun i => crowdRecord 58 (i + 1)

/-- The history that `ensure_initialized` makes of them. -/
def crowdLineage (count titleLength : ℕ) : SystemLineage :=
  .migrate (crowdRecords count titleLength)

def crowdNode (titleLength i : ℕ) : LineageNode :=
  .ofRecord (crowdRecord titleLength i)

theorem crowdLineage_eq (count titleLength : ℕ) : crowdLineage count titleLength =
    ⟨lineageSchemaVersion, 1, none, crowdNode titleLength 0 ::
      (List.range count).map (fun i => crowdNode 58 (i + 1)), []⟩ := by
  have hmem : ∀ record ∈ crowdRecords count titleLength,
      ∃ length i, record = crowdRecord length i := by
    intro record hrecord
    rcases List.mem_cons.mp hrecord with rfl | hrecord
    · exact ⟨_, _, rfl⟩
    · obtain ⟨i, -, rfl⟩ := List.mem_map.mp hrecord
      exact ⟨_, _, rfl⟩
  have hhead : ((crowdRecords count titleLength).filter fun record =>
      record.canRestore && record.kind != .imported) = [] := by
    refine List.filter_eq_nil_iff.mpr fun record hrecord => ?_
    obtain ⟨length, i, rfl⟩ := hmem record hrecord
    have hkind : (crowdRecord length i).kind = .imported := rfl
    simp [hkind]
  have hnodes : ((crowdRecords count titleLength).filter fun record => record.snapshotUuid.isSome) =
      crowdRecords count titleLength := by
    refine List.filter_eq_self.mpr fun record hrecord => ?_
    obtain ⟨length, i, rfl⟩ := hmem record hrecord
    rfl
  rw [crowdLineage, SystemLineage.migrate, hhead, hnodes, crowdRecords, List.map_cons,
    List.map_map]
  rfl

theorem crowdLineage_valid {count titleLength : ℕ} (hcount : count < 65535)
    (hpos : 0 < titleLength) (hle : titleLength ≤ 120) :
    (crowdLineage count titleLength).validate = .ok () := by
  have htitle : ∀ length, 0 < length → length ≤ 120 →
      invalidText (String.ofList (List.replicate length 'a')) 120 = false := by
    intro length hlength hle
    have hspace : isWhitespace 'a' = false := rfl
    have hcontrol : isControl 'a' = false := rfl
    simp [invalidText, List.all_replicate, List.any_replicate, hspace, hcontrol]
    omega
  have hcheck : ∀ length i, 0 < length → length ≤ 120 → (crowdNode length i).check = .ok () := by
    intro length i hlength hle
    have hinvalid : invalidText (crowdNode length i).title 120 = false := htitle length hlength hle
    simp only [LineageNode.check, bind_eq_ok_unit, ensure_eq_ok, hinvalid]
    exact ⟨rfl, rfl, rfl, rfl⟩
  have hmem : ∀ node ∈ (crowdLineage count titleLength).nodes,
      ∃ length i, 0 < length ∧ length ≤ 120 ∧ node = crowdNode length i := by
    intro node hnode
    rw [crowdLineage_eq] at hnode
    rcases List.mem_cons.mp hnode with rfl | hnode
    · exact ⟨titleLength, 0, hpos, hle, rfl⟩
    · obtain ⟨i, -, rfl⟩ := List.mem_map.mp hnode
      exact ⟨58, i + 1, by decide, by decide, rfl⟩
  have hids : (crowdLineage count titleLength).nodes.map LineageNode.recoveryPointId =
      (List.range (count + 1)).map crowdId := by
    rw [crowdLineage_eq, List.map_cons, List.map_map, List.range_succ_eq_map, List.map_cons,
      List.map_map]
    rfl
  refine validate_parentless ?_ ?_ ?_ ?_ ?_ ?_ ?_
  · rw [crowdLineage_eq]
  · rw [crowdLineage_eq, List.length_cons, List.length_map, List.length_range, maxLineageNodes]
    omega
  · rw [hids]
    refine List.Nodup.map_on (fun i hi j hj heq => ?_) List.nodup_range
    have hi' := List.mem_range.mp hi
    have hj' := List.mem_range.mp hj
    exact crowdId_injective (by omega) (by omega) heq
  · intro node hnode
    obtain ⟨length, i, hpos', hle', rfl⟩ := hmem node hnode
    exact hcheck length i hpos' hle'
  · intro node hnode
    obtain ⟨length, i, -, -, rfl⟩ := hmem node hnode
    rfl
  · rw [crowdLineage_eq]
  · rw [crowdLineage_eq]

/-- The bytes of one node inside the array of nodes. -/
theorem byteLength_crowdNode (titleLength i : ℕ) :
    byteLength (pretty 2 ((crowdNode titleLength i).toJson epochText)) = 283 + titleLength := by
  have hid : byteLength (quoted (crowdId i).hyphenated) = 38 := byteLength_quoted_hyphenated _
  have htitle : byteLength (quoted (String.ofList (List.replicate titleLength 'a'))) =
      titleLength + 2 := by
    have hsize : 'a'.utf8Size = 1 := rfl
    rw [byteLength_quoted, String.toList_ofList, byteLength_replicate, hsize, mul_one]
    intro c hc
    rw [String.toList_ofList] at hc
    rw [List.eq_of_mem_replicate hc]
    rfl
  have hmembers : (crowdNode titleLength i).members epochText =
      [("recovery_point_id", .text (crowdId i).hyphenated), ("parent_id", .null),
        ("relation", .text "legacy-unknown"), ("created_at", .text "1970-01-01T00:00:00Z"),
        ("kind", .text "imported"),
        ("title", .text (String.ofList (List.replicate titleLength 'a'))),
        ("snapshot_available", .bool true), ("removed_at", .null)] := rfl
  have hkeys : byteLength (quoted "recovery_point_id") = 19 ∧ byteLength (quoted "parent_id") = 11 ∧
      byteLength (quoted "relation") = 10 ∧ byteLength (quoted "created_at") = 12 ∧
      byteLength (quoted "kind") = 6 ∧ byteLength (quoted "title") = 7 ∧
      byteLength (quoted "snapshot_available") = 20 ∧ byteLength (quoted "removed_at") = 12 := by
    decide
  have htexts : ∀ s, byteLength (pretty 3 (.text s)) = byteLength (quoted s) := fun s => by
    rw [pretty]
  have hvalues : byteLength (quoted "legacy-unknown") = 16 ∧
      byteLength (quoted "1970-01-01T00:00:00Z") = 22 ∧ byteLength (quoted "imported") = 10 ∧
      byteLength (pretty 3 .null) = 4 ∧ byteLength (pretty 3 (.bool true)) = 4 := by
    decide
  rw [LineageNode.toJson, byteLength_object 2 (by rw [hmembers]; exact List.cons_ne_nil _ _),
    hmembers]
  simp only [List.map_cons, List.map_nil, List.sum_cons, List.sum_nil, memberBytes, htexts, hid,
    htitle, hkeys, hvalues]
  omega

theorem sum_itemBytes_crowd (count : ℕ) :
    ((((List.range count).map fun i => crowdNode 58 (i + 1)).map
      (LineageNode.toJson epochText)).map (itemBytes 2)).sum = 347 * count := by
  have hitem : ∀ i, itemBytes 2 ((crowdNode 58 (i + 1)).toJson epochText) = 347 := by
    intro i
    rw [itemBytes, byteLength_crowdNode]
  have hmap : ((((List.range count).map fun i => crowdNode 58 (i + 1)).map
      (LineageNode.toJson epochText)).map (itemBytes 2)) = List.replicate count 347 := by
    refine List.eq_replicate_iff.mpr ⟨by simp, fun bytes hbytes => ?_⟩
    obtain ⟨item, hitems, rfl⟩ := List.mem_map.mp hbytes
    obtain ⟨node, hnode, rfl⟩ := List.mem_map.mp hitems
    obtain ⟨i, -, rfl⟩ := List.mem_map.mp hnode
    exact hitem i
  rw [hmap, List.sum_replicate, smul_eq_mul, mul_comm]

/-- The bytes of the whole text. -/
theorem byteLength_crowdLineage (count titleLength : ℕ) :
    byteLength (serializedLineage epochText (crowdLineage count titleLength)) =
      347 * count + titleLength + 396 := by
  have hmembers : (crowdLineage count titleLength).members epochText =
      [("schema_version", .number 1), ("revision", .number 1), ("current_head_id", .null),
        ("nodes", .array ((crowdNode titleLength 0).toJson epochText ::
          ((List.range count).map fun i => crowdNode 58 (i + 1)).map
            (LineageNode.toJson epochText))), ("activations", .array [])] := by
    rw [crowdLineage_eq]
    rfl
  have hkeys : byteLength (quoted "schema_version") = 16 ∧ byteLength (quoted "revision") = 10 ∧
      byteLength (quoted "current_head_id") = 17 ∧ byteLength (quoted "nodes") = 7 ∧
      byteLength (quoted "activations") = 13 := by
    decide
  have hvalues : byteLength (pretty 1 (.number 1)) = 1 ∧ byteLength (pretty 1 .null) = 4 ∧
      byteLength (pretty 1 (.array [])) = 2 := by
    decide
  have hnodes : byteLength (pretty 1 (.array ((crowdNode titleLength 0).toJson epochText ::
      ((List.range count).map fun i => crowdNode 58 (i + 1)).map
        (LineageNode.toJson epochText)))) = 347 * count + titleLength + 293 := by
    rw [byteLength_array 1 (List.cons_ne_nil _ _), List.map_cons, List.sum_cons,
      sum_itemBytes_crowd, itemBytes, byteLength_crowdNode]
    omega
  rw [serializedLineage, SystemLineage.toJson,
    byteLength_object 0 (by rw [hmembers]; exact List.cons_ne_nil _ _), hmembers]
  simp only [List.map_cons, List.map_nil, List.sum_cons, List.sum_nil, memberBytes, hkeys, hvalues,
    hnodes]
  omega

/-- At the limit: one more character in one title and the valid history is refused; without
it, the initialization of an empty store with these snapshots succeeds and leaves a file that
`load` refuses. -/
theorem crowd_locks_the_store :
    (crowdLineage 12086 67).validate = .ok () ∧
      ((saveTo epochText (Uuid.repeated 1) (crowdLineage 12086 67)).run.runToEnd DirectoryOp.handle
        (fun _ => .faultless) ∅).1 = .error (.invalid "system lineage exceeds its size limit") ∧
    ∃ d, ((LineageOperation.mutate (.ensureInitialized (crowdRecords 12086 66))).program epochText
        (Uuid.repeated 1)).run.runToEnd DirectoryOp.handle (fun _ => .faultless) ∅ = (.ok (), d) ∧
      ((loadFrom epochText).run.runToEnd DirectoryOp.handle (fun _ => .faultless) d).1 =
        .error (.invalid "system lineage exceeds its size limit") := by
  have hsize : ∀ titleLength, byteLength (serializedLineage epochText
      (crowdLineage 12086 titleLength)) = titleLength + 4194238 := by
    intro titleLength
    rw [byteLength_crowdLineage]
    omega
  have hvalid : ∀ titleLength, 0 < titleLength → titleLength ≤ 120 →
      (crowdLineage 12086 titleLength).validate = .ok () := fun titleLength hpos hle =>
    crowdLineage_valid (by decide) hpos hle
  have hfaultless : ∀ n : ℕ, ((fun _ => .faultless : ℕ → FileChoice) n).Faultless := fun _ => rfl
  refine ⟨hvalid 67 (by decide) (by decide), ?_, ?_⟩
  · rw [runToEnd_saveTo hfaultless (hvalid 67 (by decide) (by decide)) (AList.notMem_empty _),
      if_neg (by rw [hsize, maxLineageBytes]; omega)]
  · have hlength := hsize 66
    have hinit : SucceedsIff DirectoryOp.handle FileChoice.Faultless True
        (fun _ d => d = (∅ : HistoryDirectory).insert lineageFileName
          (serializedLineage epochText (crowdLineage 12086 66) ++ ['\n']))
        ((LineageOperation.mutate (.ensureInitialized (crowdRecords 12086 66))).program epochText
          (Uuid.repeated 1)) ∅ :=
      succeedsIff_initialize rfl (AList.notMem_empty _) (hvalid 66 (by decide) (by decide))
        (hlength.trans (by rw [maxLineageBytes])).le
    obtain ⟨_, hok, hd⟩ := (hinit.runToEnd _ hfaultless).1 trivial
    refine ⟨(∅ : HistoryDirectory).insert lineageFileName
      (serializedLineage epochText (crowdLineage 12086 66) ++ ['\n']), Prod.ext hok hd, ?_⟩
    have hcontents : maxLineageBytes < byteLength
        (serializedLineage epochText (crowdLineage 12086 66) ++ ['\n']) := by
      have hbreak : byteLength ['\n'] = 1 := rfl
      rw [byteLength_append, hlength, hbreak, maxLineageBytes]
      omega
    rw [runToEnd_loadFrom hfaultless]
    exact loaded_too_long (AList.lookup_insert ∅) hcontents

end Crowd

end RecoveryEngine
