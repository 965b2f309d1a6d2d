import Mathlib.Data.List.AList
import Mathlib.Data.List.Sort
import SynOSStudio.InterruptiblePrograms.CutOffs

/-!
# The cache of built packages

`_build_source` over one package: the `.deb` files of the package in the work directory
and the fingerprint stamp beside them. A run may end before any of its file operations,
killed or with an exception that nothing in it catches, and the inputs change freely
between runs.
-/

namespace BuildTools

open InterruptiblePrograms

/-- What a `.deb` file holds: the start of an archive, or all that a build of these
inputs made. -/
inductive Deb (Inputs : Type) where
  | partly
  | built (inputs : Inputs)
  deriving DecidableEq

structure WorkDir (Inputs : Type) where
  debs : AList (fun _ : String => Deb Inputs)
  stamp : Option String

def WorkDir.empty {Inputs : Type} : WorkDir Inputs := ⟨∅, none⟩

/-- The file operations of a run. -/
inductive CacheOp (Inputs : Type) where
  | glob
  | readStamp
  | unlink (deb : String)
  | prepare (inputs : Inputs)
  | createDeb (deb : String)
  | finishDeb (deb : String) (inputs : Inputs)
  | truncateStamp
  | writeStamp (text : String)

/-- What `_build_source` returns. -/
inductive BuildSource where
  | reused (deb : String)
  | built (deb : String)
  | skipped
  deriving DecidableEq

variable {Inputs : Type}

abbrev CacheOp.Answer : CacheOp Inputs → Type
  | .glob => List String
  | .readStamp => Option String
  | .prepare _ => Bool
  | _ => Unit

abbrev CacheProg (Inputs α : Type) := Prog (CacheOp Inputs) CacheOp.Answer α

/-- Whether the package gets as far as `dpkg-deb` or is skipped is chosen from outside. -/
def WorkDir.handle : (op : CacheOp Inputs) → Bool → WorkDir Inputs → op.Answer × WorkDir Inputs
  | .glob, _, d => (d.debs.keys.insertionSort (· ≤ ·), d)
  | .readStamp, _, d => (d.stamp, d)
  | .unlink deb, _, d => ((), { d with debs := d.debs.erase deb })
  | .prepare _, ready, d => (ready, d)
  | .createDeb deb, _, d => ((), { d with debs := d.debs.insert deb .partly })
  | .finishDeb deb inputs, _, d => ((), { d with debs := d.debs.insert deb (.built inputs) })
  | .truncateStamp, _, d => ((), { d with stamp := some "" })
  | .writeStamp text, _, d => ((), { d with stamp := some text })

def CacheOp.perform (op : CacheOp Inputs) : CacheProg Inputs op.Answer :=
  Prog.perform op

section Source

variable (fingerprint : Inputs → String) (debName : Inputs → String)

/-- Whether the newest of the cached packages is used again. -/
def reusable (inputs : Inputs) (rebuild : Bool) (cached : List String) : CacheProg Inputs Bool :=
  if rebuild || cached.isEmpty then
    pure false
  else do
    let text : Option String ← CacheOp.perform .readStamp
    pure (text == some (fingerprint inputs))

def unlinkEach : List String → CacheProg Inputs Unit
  | [] => pure ()
  | old_deb :: rest => do
    CacheOp.perform (.unlink old_deb)
    unlinkEach rest

/-- What `build_package` does to the work directory; `none` is a skipped package. -/
def buildPackage (inputs : Inputs) : CacheProg Inputs (Option String) := do
  let ready : Bool ← CacheOp.perform (.prepare inputs)
  if ready then
    CacheOp.perform (.createDeb (debName inputs))
    CacheOp.perform (.finishDeb (debName inputs) inputs)
    pure (some (debName inputs))
  else
    pure none

def writeStamp (text : String) : CacheProg Inputs Unit := do
  CacheOp.perform .truncateStamp
  CacheOp.perform (.writeStamp text)

/-- The part of `_build_source` after the cached packages were found stale. -/
def rebuildSource (inputs : Inputs) (cached : List String) : CacheProg Inputs BuildSource := do
  unlinkEach cached
  match ← buildPackage debName inputs with
  | some deb => do
    writeStamp (fingerprint inputs)
    pure (.built deb)
  | none => pure .skipped

def buildSource (inputs : Inputs) (rebuild : Bool) : CacheProg Inputs BuildSource := do
  let cached : List String ← CacheOp.perform .glob
  if ← reusable fingerprint inputs rebuild cached then
    pure (.reused (cached.getLastD ""))
  else
    rebuildSource fingerprint debName inputs cached

end Source

/-- The directory holds exactly this package file. -/
def WorkDir.Only (d : WorkDir Inputs) (name : String) (deb : Deb Inputs) : Prop :=
  ∀ n x, d.debs.lookup n = some x ↔ n = name ∧ x = deb

/-- Package files may be gone, and nothing else has changed. -/
def WorkDir.Thinned (d d' : WorkDir Inputs) : Prop :=
  d'.stamp = d.stamp ∧ ∀ n x, d'.debs.lookup n = some x → d.debs.lookup n = some x

theorem WorkDir.Thinned.refl (d : WorkDir Inputs) : d.Thinned d :=
  ⟨rfl, fun _ _ h => h⟩

theorem WorkDir.Thinned.erase {d d' : WorkDir Inputs} (h : d.Thinned d') (name : String) :
    d.Thinned { d' with debs := d'.debs.erase name } := by
  refine ⟨h.1, fun n x hx => h.2 n x ?_⟩
  by_cases hn : n = name
  · rw [hn, AList.lookup_erase] at hx
    cases hx
  · rwa [AList.lookup_erase_ne hn] at hx

theorem WorkDir.only_insert {d : WorkDir Inputs} {name : String}
    (h : ∀ n, n ≠ name → d.debs.lookup n = none) (deb : Deb Inputs) :
    WorkDir.Only { d with debs := d.debs.insert name deb } name deb := by
  intro n x
  by_cases hn : n = name
  · rw [hn, AList.lookup_insert]
    simp [eq_comm]
  · rw [AList.lookup_insert_ne hn, h n hn]
    simp [hn]

section Specification

variable {fingerprint : Inputs → String} {debName : Inputs → String}

/-- What a run has done so far, by the operation that comes next. -/
def Underway (d : WorkDir Inputs) (inputs : Inputs) : CacheOp Inputs → WorkDir Inputs → Prop
  | .finishDeb name _, d' => d'.stamp = d.stamp ∧ d'.Only name .partly
  | .truncateStamp, d' => d'.stamp = d.stamp ∧ ∃ name, d'.Only name (.built inputs)
  | .writeStamp _, d' => d'.stamp = some ""
  | .glob, d' => d.Thinned d'
  | .readStamp, d' => d.Thinned d'
  | .unlink _, d' => d.Thinned d'
  | .prepare _, d' => d.Thinned d'
  | .createDeb _, d' => d.Thinned d'

theorem keepsAt_unlinkEach {d d' : WorkDir Inputs} {inputs : Inputs} (h : d.Thinned d')
    {cached : List String} (hcached : ∀ n ∈ d'.debs, n ∈ cached) :
    KeepsAt WorkDir.handle (Underway d inputs) (unlinkEach cached)
      (fun _ d'' => d.Thinned d'' ∧ ∀ n, d''.debs.lookup n = none) d' := by
  induction cached generalizing d' with
  | nil =>
    refine ⟨h, fun n => AList.lookup_eq_none.mpr fun hn => ?_⟩
    cases hcached n hn
  | cons old_deb rest ih =>
    refine ⟨h, fun _ => ih (h.erase old_deb) fun n hn => ?_⟩
    obtain ⟨hne, hmem⟩ := AList.mem_erase.mp hn
    exact (List.mem_cons.mp (hcached n hmem)).resolve_left hne

/-- What a run that came to its end has done. -/
def Ended (fingerprint : Inputs → String) (d : WorkDir Inputs) (inputs : Inputs) :
    BuildSource → WorkDir Inputs → Prop
  | .reused name, d' => d' = d ∧ d.stamp = some (fingerprint inputs) ∧ name ∈ d.debs
  | .built name, d' => d'.stamp = some (fingerprint inputs) ∧ d'.Only name (.built inputs)
  | .skipped, d' => d.Thinned d'

theorem keepsAt_buildPackage {d d' : WorkDir Inputs} {inputs : Inputs} (h : d.Thinned d')
    (hempty : ∀ n, d'.debs.lookup n = none) :
    KeepsAt WorkDir.handle (Underway d inputs) (buildPackage debName inputs)
      (fun deb d'' => match deb with
        | some name => d''.stamp = d.stamp ∧ d''.Only name (.built inputs)
        | none => d.Thinned d'') d' := by
  refine ⟨h, fun ready => ?_⟩
  cases ready with
  | false => exact h
  | true =>
    refine ⟨h, fun _ => ⟨⟨h.1, WorkDir.only_insert (fun n _ => hempty n) _⟩, fun _ => ⟨h.1, ?_⟩⟩⟩
    refine WorkDir.only_insert (fun n hn => ?_) _
    show AList.lookup n (d'.debs.insert (debName inputs) .partly) = none
    rw [AList.lookup_insert_ne hn]
    exact hempty n

theorem keepsAt_writeStamp {d d' : WorkDir Inputs} {inputs : Inputs} {name : String}
    (hstamp : d'.stamp = d.stamp) (honly : d'.Only name (.built inputs)) :
    KeepsAt WorkDir.handle (Underway d inputs) (writeStamp (fingerprint inputs))
      (fun _ d'' => Ended fingerprint d inputs (.built name) d'') d' :=
  ⟨⟨hstamp, name, honly⟩, fun _ => ⟨rfl, fun _ => ⟨rfl, honly⟩⟩⟩

theorem keepsAt_rebuildSource {d : WorkDir Inputs} {inputs : Inputs} {cached : List String}
    (hcached : ∀ n ∈ d.debs, n ∈ cached) :
    KeepsAt WorkDir.handle (Underway d inputs) (rebuildSource fingerprint debName inputs cached)
      (Ended fingerprint d inputs) d := by
  refine (keepsAt_unlinkEach (WorkDir.Thinned.refl d) hcached).then fun _ d' hunlinked => ?_
  refine (keepsAt_buildPackage hunlinked.1 hunlinked.2).then fun deb d'' hbuilt => ?_
  cases deb with
  | none => exact hbuilt
  | some name =>
    exact (keepsAt_writeStamp hbuilt.1 hbuilt.2).then fun _ _ hended => hended

theorem keepsAt_reusable (d : WorkDir Inputs) (inputs : Inputs) (rebuild : Bool)
    (cached : List String) :
    KeepsAt WorkDir.handle (Underway d inputs) (reusable fingerprint inputs rebuild cached)
      (fun reuse d' => d' = d ∧
        (reuse = true → d.stamp = some (fingerprint inputs) ∧ cached ≠ [])) d := by
  unfold reusable
  split
  · exact ⟨rfl, nofun⟩
  · rename_i hcond
    refine ⟨WorkDir.Thinned.refl d, fun _ => ⟨rfl, fun hreuse => ⟨eq_of_beq hreuse, ?_⟩⟩⟩
    rintro rfl
    simp at hcond

theorem keepsAt_buildSource (d : WorkDir Inputs) (inputs : Inputs) (rebuild : Bool) :
    KeepsAt WorkDir.handle (Underway d inputs)
      (buildSource fingerprint debName inputs rebuild) (Ended fingerprint d inputs) d := by
  refine ⟨WorkDir.Thinned.refl d, fun _ => ?_⟩
  have hmem : ∀ n, n ∈ d.debs.keys.insertionSort (· ≤ ·) ↔ n ∈ d.debs := fun n =>
    List.mem_insertionSort _
  refine (keepsAt_reusable d inputs rebuild _).then fun reuse d' hreuse => ?_
  obtain ⟨rfl, hreuse⟩ := hreuse
  cases reuse with
  | false => exact keepsAt_rebuildSource fun n hn => (hmem n).mpr hn
  | true =>
    obtain ⟨hstamp, hcached⟩ := hreuse rfl
    refine ⟨rfl, hstamp, (hmem _).mp ?_⟩
    rw [List.getLastD_eq_getLast?, List.getLast?_eq_some_getLast hcached]
    exact List.getLast_mem hcached

end Specification

/-- One call: the inputs of the moment, and how far it gets. -/
structure Run (Inputs : Type) where
  inputs : Inputs
  rebuild : Bool
  script : List Bool

section Runs

variable (fingerprint : Inputs → String) (debName : Inputs → String)

def Run.result (r : Run Inputs) (d : WorkDir Inputs) : Option BuildSource :=
  ((buildSource fingerprint debName r.inputs r.rebuild).run WorkDir.handle r.script d).1

def Run.after (r : Run Inputs) (d : WorkDir Inputs) : WorkDir Inputs :=
  ((buildSource fingerprint debName r.inputs r.rebuild).run WorkDir.handle r.script d).2

/-- A run that is cut off between the first bytes of the package file and the opening of
the stamp leaves the old stamp beside the new file. It does no harm when there was no
stamp, or when the file is complete and the stamp is the run's own. -/
def Run.Harmless (r : Run Inputs) (d : WorkDir Inputs) : Prop :=
  match stoppedAt WorkDir.handle (buildSource fingerprint debName r.inputs r.rebuild) r.script d with
  | some (.finishDeb _ _) => d.stamp = none ∨ d.stamp = some ""
  | some .truncateStamp =>
    d.stamp = none ∨ d.stamp = some "" ∨ d.stamp = some (fingerprint r.inputs)
  | _ => True

def afterRuns : List (Run Inputs) → WorkDir Inputs → WorkDir Inputs
  | [], d => d
  | r :: rest, d => afterRuns rest (r.after fingerprint debName d)

def EachHarmless : List (Run Inputs) → WorkDir Inputs → Prop
  | [], _ => True
  | r :: rest, d =>
    r.Harmless fingerprint debName d ∧ EachHarmless rest (r.after fingerprint debName d)

/-- Every package file that a later run hands out for reuse was completed from inputs
with that run's fingerprint. -/
def ReusesRight (d : WorkDir Inputs) : Prop :=
  ∀ (later : Run Inputs) (name : String),
    later.result fingerprint debName d = some (.reused name) →
    ∃ inputs, (later.after fingerprint debName d).debs.lookup name = some (.built inputs) ∧
      fingerprint inputs = fingerprint later.inputs

/-- A stamp that was written to its end speaks for every package file. -/
def Sound (d : WorkDir Inputs) : Prop :=
  ∀ text, d.stamp = some text → text = "" ∨ (∃ inputs, fingerprint inputs = text) ∧
    ∀ name deb, d.debs.lookup name = some deb → ∃ inputs, deb = .built inputs ∧
      fingerprint inputs = text

end Runs

section Results

variable {fingerprint : Inputs → String} {debName : Inputs → String} {d d' : WorkDir Inputs}

theorem Sound.thinned (h : Sound fingerprint d) (hthinned : d.Thinned d') :
    Sound fingerprint d' := by
  intro text htext
  rw [hthinned.1] at htext
  rcases h text htext with hempty | ⟨hinputs, hdebs⟩
  · exact Or.inl hempty
  · exact Or.inr ⟨hinputs, fun name deb hdeb => hdebs name deb (hthinned.2 name deb hdeb)⟩

theorem sound_of_stamp_empty (h : d.stamp = none ∨ d.stamp = some "") : Sound fingerprint d := by
  intro text htext
  rcases h with h | h
  · rw [h] at htext
    cases htext
  · rw [h] at htext
    exact Or.inl (Option.some.inj htext).symm

theorem sound_of_only {inputs : Inputs} {name : String} (honly : d.Only name (.built inputs))
    (hstamp : d.stamp = some (fingerprint inputs)) : Sound fingerprint d := by
  intro text htext
  rw [hstamp] at htext
  cases htext
  refine Or.inr ⟨⟨inputs, rfl⟩, fun n deb hdeb => ⟨inputs, ((honly n deb).mp hdeb).2, rfl⟩⟩

/-- A run that is not cut off at a harmful place keeps the stamp and the files together. -/
theorem Sound.after_harmless (h : Sound fingerprint d) {r : Run Inputs}
    (hr : r.Harmless fingerprint debName d) : Sound fingerprint (r.after fingerprint debName d) := by
  have hspec : KeepsAt WorkDir.handle (Underway d r.inputs)
    (buildSource fingerprint debName r.inputs r.rebuild) (Ended fingerprint d r.inputs) d :=
      keepsAt_buildSource d r.inputs r.rebuild
  rcases hspec.run r.script with ⟨result, -, -, hended⟩ | ⟨op, -, hstop, hunder⟩
  · cases result with
    | reused name =>
      have hsame : r.after fingerprint debName d = d := hended.1
      rw [hsame]
      exact h
    | built name => exact sound_of_only hended.2 hended.1
    | skipped => exact h.thinned hended
  · unfold Run.Harmless at hr
    rw [hstop] at hr
    cases op with
    | glob => exact h.thinned hunder
    | readStamp => exact h.thinned hunder
    | unlink deb => exact h.thinned hunder
    | prepare inputs => exact h.thinned hunder
    | createDeb deb => exact h.thinned hunder
    | finishDeb deb inputs =>
      apply sound_of_stamp_empty
      unfold Run.after
      rw [hunder.1]
      exact hr
    | truncateStamp =>
      obtain ⟨hstamp, name, honly⟩ := hunder
      rcases hr with hnone | hempty | hown
      · exact sound_of_stamp_empty (Or.inl (hstamp.trans hnone))
      · exact sound_of_stamp_empty (Or.inr (hstamp.trans hempty))
      · exact sound_of_only honly (hstamp.trans hown)
    | writeStamp text => exact sound_of_stamp_empty (Or.inr hunder)

theorem Sound.reusesRight (hnonempty : ∀ inputs, fingerprint inputs ≠ "")
    (h : Sound fingerprint d) : ReusesRight fingerprint debName d := by
  intro later name hresult
  have hspec : KeepsAt WorkDir.handle (Underway d later.inputs)
    (buildSource fingerprint debName later.inputs later.rebuild)
    (Ended fingerprint d later.inputs) d := keepsAt_buildSource d later.inputs later.rebuild
  unfold Run.result at hresult
  rcases hspec.run later.script with ⟨result, hres, -, hended⟩ | ⟨op, hres, -, -⟩
  · rw [hres] at hresult
    cases hresult
    obtain ⟨hsame, hstamp, hname⟩ := hended
    obtain ⟨deb, hdeb⟩ := Option.isSome_iff_exists.mp (AList.lookup_isSome.mpr hname)
    rcases h _ hstamp with hempty | ⟨-, hdebs⟩
    · exact absurd hempty (hnonempty _)
    · obtain ⟨inputs, rfl, hinputs⟩ := hdebs name deb hdeb
      unfold Run.after
      rw [hsame]
      exact ⟨inputs, hdeb, hinputs⟩
  · rw [hres] at hresult
    cases hresult

/-- Reuse of the only package file, when the stamp agrees. -/
theorem run_of_only {inputs : Inputs} {name : String} {deb : Deb Inputs}
    (honly : d.Only name deb) (hstamp : d.stamp = some (fingerprint inputs)) :
    (buildSource fingerprint debName inputs false).run WorkDir.handle [true, true] d =
      (some (.reused name), d) := by
  have hmem : ∀ n, n ∈ d.debs.keys.insertionSort (· ≤ ·) ↔ n = name := by
    intro n
    rw [List.mem_insertionSort]
    constructor
    · intro hn
      obtain ⟨x, hx⟩ := Option.isSome_iff_exists.mp (AList.lookup_isSome.mpr hn)
      exact ((honly n x).mp hx).1
    · rintro rfl
      exact AList.lookup_isSome.mp (Option.isSome_iff_exists.mpr ⟨deb, (honly n deb).mpr ⟨rfl, rfl⟩⟩)
  have hglob : (buildSource fingerprint debName inputs false).run WorkDir.handle [true, true] d =
      (reusable fingerprint inputs false (d.debs.keys.insertionSort (· ≤ ·)) >>= fun reuse =>
        if reuse then pure (.reused ((d.debs.keys.insertionSort (· ≤ ·)).getLastD ""))
        else rebuildSource fingerprint debName inputs (d.debs.keys.insertionSort (· ≤ ·))).run
          WorkDir.handle [true] d := rfl
  rw [hglob]
  generalize d.debs.keys.insertionSort (· ≤ ·) = cached at hmem
  have hne : cached ≠ [] := List.ne_nil_of_mem ((hmem name).mpr rfl)
  have hlast : cached.getLastD "" = name := by
    rw [List.getLastD_eq_getLast?, List.getLast?_eq_some_getLast hne]
    exact (hmem _).mp (List.getLast_mem hne)
  have hreusable : reusable fingerprint inputs false cached =
      (CacheOp.perform .readStamp >>= fun text : Option String =>
        pure (text == some (fingerprint inputs))) := by
    simp [reusable, hne]
  have hbeq : (d.stamp == some (fingerprint inputs)) = true := beq_iff_eq.mpr hstamp
  rw [hreusable]
  show (if d.stamp == some (fingerprint inputs) then pure (.reused (cached.getLastD ""))
    else rebuildSource fingerprint debName inputs cached : CacheProg Inputs BuildSource).run
      WorkDir.handle [] d = _
  rw [if_pos hbeq, hlast]
  rfl

/-- A package file that the stamp does not speak for is handed out. -/
theorem not_reusesRight_of_only {inputs : Inputs} {name : String} {deb : Deb Inputs}
    (honly : d.Only name deb) (hstamp : d.stamp = some (fingerprint inputs))
    (hwrong : ∀ i, deb = .built i → fingerprint i ≠ fingerprint inputs) :
    ¬ ReusesRight fingerprint debName d := by
  intro h
  have hrun : (buildSource fingerprint debName inputs false).run WorkDir.handle [true, true] d =
      (some (.reused name), d) := run_of_only honly hstamp
  obtain ⟨i, hlookup, hi⟩ := h ⟨inputs, false, [true, true]⟩ name (congrArg Prod.fst hrun)
  unfold Run.after at hlookup
  rw [hrun] at hlookup
  exact hwrong i ((honly name _).mp hlookup).2.symm hi

theorem Sound.harmless_of_reusesRight (h : Sound fingerprint d) {r : Run Inputs}
    (hright : ReusesRight fingerprint debName (r.after fingerprint debName d)) :
    r.Harmless fingerprint debName d := by
  have hspec : KeepsAt WorkDir.handle (Underway d r.inputs)
    (buildSource fingerprint debName r.inputs r.rebuild) (Ended fingerprint d r.inputs) d :=
      keepsAt_buildSource d r.inputs r.rebuild
  unfold Run.Harmless
  rcases hspec.run r.script with ⟨result, -, hstop, -⟩ | ⟨op, -, hstop, hunder⟩
  · rw [hstop]
    trivial
  · rw [hstop]
    cases op with
    | finishDeb name inputs =>
      obtain ⟨hstamp, honly⟩ := hunder
      cases htext : d.stamp with
      | none => exact Or.inl rfl
      | some text =>
        rcases h text htext with rfl | ⟨⟨i, rfl⟩, -⟩
        · exact Or.inr rfl
        · exact absurd hright (not_reusesRight_of_only honly (hstamp.trans htext) nofun)
    | truncateStamp =>
      obtain ⟨hstamp, name, honly⟩ := hunder
      cases htext : d.stamp with
      | none => exact Or.inl rfl
      | some text =>
        rcases h text htext with rfl | ⟨⟨i, rfl⟩, -⟩
        · exact Or.inr (Or.inl rfl)
        · by_cases hown : fingerprint i = fingerprint r.inputs
          · exact Or.inr (Or.inr (congrArg some hown))
          · refine absurd hright (not_reusesRight_of_only honly (hstamp.trans htext) ?_)
            rintro _ ⟨⟩ heq
            exact hown heq.symm
    | _ => trivial

theorem Sound.afterRuns {runs : List (Run Inputs)} (h : Sound fingerprint d)
    (hruns : EachHarmless fingerprint debName runs d) :
    Sound fingerprint (afterRuns fingerprint debName runs d) := by
  induction runs generalizing d with
  | nil => exact h
  | cons r rest ih => exact ih (h.after_harmless hruns.1) hruns.2

/-- After runs that were cut off at harmless places only, one more run leaves nothing
wrong to reuse exactly when it was not cut off at a harmful place either. -/
theorem reuses_right_iff_harmless (hnonempty : ∀ inputs, fingerprint inputs ≠ "")
    (runs : List (Run Inputs)) (hruns : EachHarmless fingerprint debName runs .empty)
    (last : Run Inputs) :
    ReusesRight fingerprint debName
        (last.after fingerprint debName (afterRuns fingerprint debName runs .empty)) ↔
      last.Harmless fingerprint debName (afterRuns fingerprint debName runs .empty) := by
  have hempty : Sound fingerprint (WorkDir.empty : WorkDir Inputs) :=
    sound_of_stamp_empty (Or.inl rfl)
  have hsound := hempty.afterRuns hruns
  constructor
  · exact hsound.harmless_of_reusesRight
  · exact fun hlast => (hsound.after_harmless hlast).reusesRight hnonempty

/-- Two manifests that are built in turn in one work directory. -/
def manifestFingerprint (second : Bool) : String :=
  if second then "fingerprint of the second manifest" else "fingerprint of the first manifest"

def manifestDeb (_ : Bool) : String := "synos-hello_1.0_all.deb"

/-- A complete build of the first manifest, and one of the second that is killed before
the stamp is written. -/
def killedRuns : List (Run Bool) :=
  [⟨false, false, [true, true, true, true, true, true]⟩,
    ⟨true, false, [true, true, true, true, true, true]⟩]

theorem killed_run_poisons_the_cache :
    ¬ ReusesRight manifestFingerprint manifestDeb
      (afterRuns manifestFingerprint manifestDeb killedRuns .empty) := by
  intro h
  obtain ⟨inputs, hlookup, hinputs⟩ := h ⟨false, false, [true, true]⟩ "synos-hello_1.0_all.deb" rfl
  have hsecond : some (Deb.built true) = some (Deb.built inputs) := hlookup
  cases hsecond
  revert hinputs
  decide

/-- The second manifest's build comes to its end. -/
theorem completed_runs_reuse_right :
    ReusesRight manifestFingerprint manifestDeb
        ((Run.mk true false [true, true, true, true, true, true, true, true]).after
          manifestFingerprint manifestDeb (afterRuns manifestFingerprint manifestDeb
            [⟨false, false, [true, true, true, true, true, true]⟩] .empty)) ↔
      (Run.mk true false [true, true, true, true, true, true, true, true]).Harmless
          manifestFingerprint manifestDeb (afterRuns manifestFingerprint manifestDeb
            [⟨false, false, [true, true, true, true, true, true]⟩] .empty) :=
  reuses_right_iff_harmless (by decide) [⟨false, false, [true, true, true, true, true, true]⟩]
    ⟨trivial, trivial⟩ _

end Results

end BuildTools
