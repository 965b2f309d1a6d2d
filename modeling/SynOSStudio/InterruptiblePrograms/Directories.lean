import Mathlib.Data.List.AList
import SynOSStudio.InterruptiblePrograms.Guards
import SynOSStudio.InterruptiblePrograms.Success

/-!
# Files in one directory

The operations that programs perform on the regular files of a directory, each of
which may fail, and the replacement of a file through a temporary one. Wherever a
replacement is cut off or fails, the target has its old or its new content, and no
other file than the temporary one has changed.
-/

namespace InterruptiblePrograms

/-- The regular files of a directory, by name. -/
abbrev Directory (Name Item : Type) := AList fun _ : Name => List Item

inductive DirectoryOp (Name Item : Type) where
  | create (name : Name)
  | write (name : Name) (content : List Item)
  | sync (name : Name)
  | rename (source target : Name)
  | syncDirectory
  | remove (name : Name)
  | read (name : Name)
  | list

inductive FileError where
  | notFound
  | alreadyExists
  | other (text : String)
  deriving DecidableEq, Repr

abbrev DirectoryAns {Name Item : Type} : DirectoryOp Name Item → Type
  | .read _ => Except FileError (List Item)
  | .list => Except FileError (List Name)
  | _ => Except FileError Unit

/-- Whether the operation fails, and how much a failing write leaves in the file. -/
structure FileChoice where
  fault : Option String
  written : ℕ

/-- The choice of an operation that does not fail. -/
def FileChoice.faultless : FileChoice := ⟨none, 0⟩

namespace DirectoryOp

variable {Name Item : Type} [DecidableEq Name]

/-- Append to a file that exists. -/
def appendTo (name : Name) (content : List Item) (d : Directory Name Item) :
    Directory Name Item :=
  match d.lookup name with
  | some old => d.insert name (old ++ content)
  | none => d

/-- An operation that does not fail on its own. -/
def perform (d : Directory Name Item) : (op : DirectoryOp Name Item) →
    DirectoryAns op × Directory Name Item
  | .create name => if name ∈ d then (.error .alreadyExists, d) else (.ok (), d.insert name [])
  | .write name content => (.ok (), appendTo name content d)
  | .sync _ => (.ok (), d)
  | .rename source target =>
    match d.lookup source with
    | some content => (.ok (), (d.erase source).insert target content)
    | none => (.error .notFound, d)
  | .syncDirectory => (.ok (), d)
  | .remove name => if name ∈ d then (.ok (), d.erase name) else (.error .notFound, d)
  | .read name =>
    match d.lookup name with
    | some content => (.ok content, d)
    | none => (.error .notFound, d)
  | .list => (.ok d.keys, d)

/-- An operation that fails: only a write may leave something behind. -/
def fail (text : String) (written : ℕ) (d : Directory Name Item) : (op : DirectoryOp Name Item) →
    DirectoryAns op × Directory Name Item
  | .write name content => (.error (.other text), appendTo name (content.take written) d)
  | .create _ => (.error (.other text), d)
  | .sync _ => (.error (.other text), d)
  | .rename _ _ => (.error (.other text), d)
  | .syncDirectory => (.error (.other text), d)
  | .remove _ => (.error (.other text), d)
  | .read _ => (.error (.other text), d)
  | .list => (.error (.other text), d)

def handle (op : DirectoryOp Name Item) (k : FileChoice) (d : Directory Name Item) :
    DirectoryAns op × Directory Name Item :=
  match k.fault with
  | none => perform d op
  | some text => fail text k.written d op

end DirectoryOp

section Replacement

variable {Name Item : Type} [DecidableEq Name]

/-- A computation on the files of a directory. -/
abbrev FileAttempt (Name Item α : Type) :=
  Attempt (DirectoryOp Name Item) DirectoryAns FileError α

/-- Write a file beside the target and move it over the target. -/
def commitFile (temporary target : Name) (content terminator : List Item) :
    FileAttempt Name Item Unit := do
  Attempt.call (.create temporary) id
  Attempt.call (.write temporary content) id
  Attempt.call (.write temporary terminator) id
  Attempt.call (.sync temporary) id
  Attempt.call (.rename temporary target) id
  Attempt.call .syncDirectory id

/-- Replace a file through a temporary one, which is removed when a step fails. -/
def replaceFile (temporary target : Name) (content terminator : List Item) :
    FileAttempt Name Item Unit := do
  match ← Attempt.outcome (commitFile temporary target content terminator) with
  | .ok () => pure ()
  | .error error => do
    let _ ← Attempt.outcome (ε := FileError) (Attempt.call (.remove temporary) id)
    throw error

/-- No file but the temporary one differs. -/
def Untouched (temporary : Name) (d d' : Directory Name Item) : Prop :=
  ∀ name, name ≠ temporary → d'.lookup name = d.lookup name

/-- The target has its new content, and no other file but the temporary one differs. -/
def Replaced (temporary target : Name) (content : List Item) (d d' : Directory Name Item) : Prop :=
  d'.lookup target = some content ∧
    ∀ name, name ≠ temporary → name ≠ target → d'.lookup name = d.lookup name

theorem Untouched.refl (temporary : Name) (d : Directory Name Item) : Untouched temporary d d :=
  fun _ _ => rfl

theorem Untouched.trans {temporary : Name} {d d' d'' : Directory Name Item}
    (h : Untouched temporary d d') (h' : Untouched temporary d' d'') :
    Untouched temporary d d'' :=
  fun name hname => (h' name hname).trans (h name hname)

theorem Replaced.untouched {temporary target : Name} {content : List Item}
    {d d' d'' : Directory Name Item} (h : Replaced temporary target content d d')
    (hne : target ≠ temporary) (h' : Untouched temporary d' d'') :
    Replaced temporary target content d d'' :=
  ⟨(h' target hne).trans h.1, fun name htemporary htarget =>
    (h' name htemporary).trans (h.2 name htemporary htarget)⟩

/-- The operations of a replacement that concern only the temporary file. -/
inductive OnTemporary (temporary : Name) : DirectoryOp Name Item → Prop
  | create : OnTemporary temporary (.create temporary)
  | write (content : List Item) : OnTemporary temporary (.write temporary content)
  | sync : OnTemporary temporary (.sync temporary)
  | syncDirectory : OnTemporary temporary .syncDirectory
  | remove : OnTemporary temporary (.remove temporary)

theorem untouched_appendTo (temporary : Name) (content : List Item) (d : Directory Name Item) :
    Untouched temporary d (DirectoryOp.appendTo temporary content d) := by
  intro name hname
  unfold DirectoryOp.appendTo
  cases d.lookup temporary with
  | none => rfl
  | some old => exact AList.lookup_insert_ne hname

/-- Such an operation leaves the other files alone, whether it fails or not. -/
theorem untouched_handle {temporary : Name} {op : DirectoryOp Name Item}
    (hop : OnTemporary temporary op) (k : FileChoice) (d : Directory Name Item) :
    Untouched temporary d (DirectoryOp.handle op k d).2 := by
  intro name hname
  unfold DirectoryOp.handle
  cases k.fault with
  | some text =>
    cases hop with
    | write content => exact untouched_appendTo temporary _ d name hname
    | create | sync | syncDirectory | remove => rfl
  | none =>
    cases hop with
    | write content => exact untouched_appendTo temporary _ d name hname
    | sync | syncDirectory => rfl
    | create =>
      simp only [DirectoryOp.perform]
      split_ifs
      · rfl
      · exact AList.lookup_insert_ne hname
    | remove =>
      simp only [DirectoryOp.perform]
      split_ifs
      · exact AList.lookup_erase_ne hname
      · rfl

theorem lookup_create_ok {temporary : Name} {k : FileChoice} {d : Directory Name Item}
    (h : (DirectoryOp.handle (.create temporary) k d).1 = .ok ()) :
    (DirectoryOp.handle (.create temporary) k d).2.lookup temporary = some [] := by
  unfold DirectoryOp.handle at h ⊢
  cases hfault : k.fault with
  | some text =>
    simp only [hfault] at h
    cases h
  | none =>
    simp only [hfault, DirectoryOp.perform] at h ⊢
    split_ifs at h ⊢
    exact AList.lookup_insert d

theorem lookup_write_ok {temporary : Name} {content old : List Item} {k : FileChoice}
    {d : Directory Name Item} (hold : d.lookup temporary = some old)
    (h : (DirectoryOp.handle (.write temporary content) k d).1 = .ok ()) :
    (DirectoryOp.handle (.write temporary content) k d).2.lookup temporary =
      some (old ++ content) := by
  unfold DirectoryOp.handle at h ⊢
  cases hfault : k.fault with
  | some text =>
    simp only [hfault] at h
    cases h
  | none =>
    simp only [DirectoryOp.perform, DirectoryOp.appendTo, hold]
    exact AList.lookup_insert d

theorem handle_sync (temporary : Name) (k : FileChoice) (d : Directory Name Item) :
    (DirectoryOp.handle (.sync temporary) k d).2 = d := by
  unfold DirectoryOp.handle
  cases k.fault <;> rfl

theorem handle_syncDirectory (k : FileChoice) (d : Directory Name Item) :
    (DirectoryOp.handle .syncDirectory k d).2 = d := by
  unfold DirectoryOp.handle
  cases k.fault <;> rfl

theorem handle_read (name : Name) (k : FileChoice) (d : Directory Name Item) :
    (DirectoryOp.handle (.read name) k d).2 = d := by
  unfold DirectoryOp.handle
  cases k.fault with
  | some text => rfl
  | none =>
    simp only [DirectoryOp.perform]
    split <;> rfl

/-- A rename either fails and changes nothing, or moves the content to the target. -/
theorem handle_rename {temporary target : Name} {content : List Item} {k : FileChoice}
    {d : Directory Name Item} (hcontent : d.lookup temporary = some content)
    (hne : target ≠ temporary) :
    (∃ e, (DirectoryOp.handle (.rename temporary target) k d).1 = .error e ∧
      (DirectoryOp.handle (.rename temporary target) k d).2 = d) ∨
    ((DirectoryOp.handle (.rename temporary target) k d).1 = .ok () ∧
      Replaced temporary target content d (DirectoryOp.handle (.rename temporary target) k d).2 ∧
      (DirectoryOp.handle (.rename temporary target) k d).2.lookup temporary = none) := by
  unfold DirectoryOp.handle
  cases k.fault with
  | some text => exact Or.inl ⟨.other text, rfl, rfl⟩
  | none =>
    refine Or.inr ?_
    simp only [DirectoryOp.perform, hcontent]
    refine ⟨trivial, ⟨AList.lookup_insert _, fun name htemporary htarget => ?_⟩, ?_⟩
    · rw [AList.lookup_insert_ne htarget, AList.lookup_erase_ne htemporary]
    · rw [AList.lookup_insert_ne hne.symm, AList.lookup_erase]

section Rules

variable {guard : DirectoryOp Name Item → FileChoice → Directory Name Item → Prop}
  {inv : Directory Name Item → Prop} {temporary target : Name} {content terminator : List Item}
  {d : Directory Name Item}

/-- One step on the temporary file: an error leaves the other files alone, and so does
success, which also says something of the temporary file. -/
theorem keepsUnder_onTemporary {α : Type} {op : DirectoryOp Name Item}
    {view : DirectoryAns op → Except FileError Unit} {s : Directory Name Item}
    {f : Unit → FileAttempt Name Item α} {post : Except FileError α → Directory Name Item → Prop}
    (good : Directory Name Item → Prop) (hop : OnTemporary temporary op)
    (hbefore : ∀ d', Untouched temporary d d' → inv d') (hs : Untouched temporary d s)
    (hgood : ∀ k, guard op k s → view (DirectoryOp.handle op k s).1 = .ok () →
      good (DirectoryOp.handle op k s).2)
    (herror : ∀ e s', Untouched temporary d s' → post (.error e) s')
    (hok : ∀ s', Untouched temporary d s' → good s' →
      KeepsUnder DirectoryOp.handle guard inv (f ()).run post s') :
    KeepsUnder DirectoryOp.handle guard inv (Attempt.call op view >>= f).run post s := by
  have hcall : KeepsUnder DirectoryOp.handle guard inv (Attempt.call op view).run (fun r d' =>
      Untouched temporary d d' ∧ (r = .ok () → good d')) s := by
    refine (keepsUnder_attempt_call _ _ _ _).mpr ⟨hbefore s hs, fun k hk => ?_⟩
    exact ⟨hs.trans (untouched_handle hop k s), fun hok => hgood k hk hok⟩
  exact keepsUnder_attempt_then hcall (fun e s' hs' => herror e s' hs'.1)
    fun _ s' hs' => hok s' hs'.1 (hs'.2 rfl)

/-- Wherever it is cut off, a commit has left the target as it was or has replaced it. -/
theorem keepsUnder_commitFile (hne : target ≠ temporary)
    (hbefore : ∀ d', Untouched temporary d d' → inv d')
    (hafter : (∃ k s, guard (.write temporary content) k s) → ∀ d',
      Replaced temporary target (content ++ terminator) d d' → inv d') :
    KeepsUnder DirectoryOp.handle guard inv (commitFile temporary target content terminator).run
      (fun r d' => (Untouched temporary d d' ∧ ∃ e, r = .error e) ∨
        (∃ k s, guard (.write temporary content) k s) ∧
          Replaced temporary target (content ++ terminator) d d' ∧
          d'.lookup temporary = none) d := by
  unfold commitFile
  have herror : ∀ (e : FileError) (s : Directory Name Item), Untouched temporary d s →
      (Untouched temporary d s ∧ ∃ e', (.error e : Except FileError Unit) = .error e') ∨
        (∃ k s, guard (.write temporary content) k s) ∧
          Replaced temporary target (content ++ terminator) d s ∧ s.lookup temporary = none :=
    fun e s hs => Or.inl ⟨hs, e, rfl⟩
  refine keepsUnder_onTemporary (fun s => s.lookup temporary = some []) .create hbefore
    (.refl _ _) (fun k _ hok => lookup_create_ok hok) herror fun s₁ hs₁ hcreated => ?_
  refine keepsUnder_onTemporary (fun s => s.lookup temporary = some content ∧
      ∃ k s, guard (.write temporary content) k s) (.write content) hbefore hs₁
    (fun k hk hok => ⟨lookup_write_ok hcreated hok, k, s₁, hk⟩) herror fun s₂ hs₂ hwritten => ?_
  refine keepsUnder_onTemporary (fun s => s.lookup temporary = some (content ++ terminator))
    (.write terminator) hbefore hs₂ (fun k _ hok => lookup_write_ok hwritten.1 hok) herror
    fun s₃ hs₃ hterminated => ?_
  refine keepsUnder_onTemporary (fun s => s.lookup temporary = some (content ++ terminator))
    .sync hbefore hs₃ (fun k _ _ => by rw [handle_sync]; exact hterminated) herror
    fun s₄ hs₄ hsynced => ?_
  have hrename : KeepsUnder DirectoryOp.handle guard inv
      (Attempt.call (.rename temporary target) id : FileAttempt Name Item Unit).run (fun r s =>
        match r with
        | .ok _ => Replaced temporary target (content ++ terminator) d s ∧
            s.lookup temporary = none
        | .error _ => Untouched temporary d s) s₄ := by
    refine (keepsUnder_attempt_call _ _ _ _).mpr ⟨hbefore s₄ hs₄, fun k _ => ?_⟩
    rcases handle_rename hsynced hne with ⟨e, herr, hsame⟩ | ⟨hok, hreplaced, hgone⟩
    · rw [herr, hsame]
      exact hs₄
    · rw [hok]
      exact ⟨⟨hreplaced.1, fun name htemporary htarget =>
        (hreplaced.2 name htemporary htarget).trans (hs₄ name htemporary)⟩, hgone⟩
  refine keepsUnder_attempt_then hrename herror fun _ s₅ hs₅ => ?_
  refine (keepsUnder_attempt_call _ _ _ _).mpr ⟨hafter hwritten.2 s₅ hs₅.1, fun k _ => ?_⟩
  rw [handle_syncDirectory]
  exact Or.inr ⟨hwritten.2, hs₅⟩

/-- Wherever it is cut off, a replacement has left the target as it was or has replaced it,
and it does replace it when it succeeds. -/
theorem keepsUnder_replaceFile (hne : target ≠ temporary)
    (hbefore : ∀ d', Untouched temporary d d' → inv d')
    (hafter : (∃ k s, guard (.write temporary content) k s) → ∀ d',
      Replaced temporary target (content ++ terminator) d d' → inv d') :
    KeepsUnder DirectoryOp.handle guard inv (replaceFile temporary target content terminator).run
      (fun r d' => (Untouched temporary d d' ∧ ∃ e, r = .error e) ∨
        (∃ k s, guard (.write temporary content) k s) ∧
          Replaced temporary target (content ++ terminator) d d') d := by
  unfold replaceFile
  refine (keepsUnder_attempt_bind _ _ _ _).mpr ((keepsUnder_outcome _ _ _).mpr
    ((keepsUnder_commitFile hne hbefore hafter).mono fun r s hs => ?_))
  cases r with
  | ok a =>
    rcases hs with ⟨-, e, he⟩ | ⟨hwritten, hreplaced, -⟩
    · cases he
    · exact Or.inr ⟨hwritten, hreplaced⟩
  | error e =>
    -- The removal of the temporary file changes neither alternative.
    have hinv : inv s := hs.elim (fun h => hbefore s h.1) fun h => hafter h.1 s h.2.1
    refine (keepsUnder_attempt_bind _ _ _ _).mpr ((keepsUnder_outcome _ _ _).mpr
      ((keepsUnder_attempt_call _ _ _ _).mpr ⟨hinv, fun k _ => ?_⟩))
    have hremoved : Untouched temporary s (DirectoryOp.handle (.remove temporary) k s).2 :=
      untouched_handle .remove k s
    rcases hs with ⟨huntouched, -⟩ | ⟨hwritten, hreplaced, -⟩
    · exact Or.inl ⟨huntouched.trans hremoved, e, rfl⟩
    · exact Or.inr ⟨hwritten, hreplaced.untouched hne hremoved⟩

end Rules

section Faultless

/-- The choices under which no operation fails on its own. -/
def FileChoice.Faultless (k : FileChoice) : Prop :=
  k.fault = none

theorem handle_faultless (op : DirectoryOp Name Item) {k : FileChoice} (hk : k.Faultless)
    (d : Directory Name Item) : DirectoryOp.handle op k d = DirectoryOp.perform d op := by
  unfold DirectoryOp.handle
  rw [hk]

variable {temporary target : Name} {content terminator : List Item} {d : Directory Name Item}

theorem erase_insert_of_notMem {name : Name} (h : name ∉ d) :
    (d.insert name content).erase name = d := by
  refine AList.ext ?_
  change List.kerase name (d.insert name content).entries = d.entries
  rw [AList.entries_insert_of_notMem h]
  exact List.kerase_cons_eq rfl

/-- An operation whose undisturbed outcome is known. -/
theorem succeedsIff_perform {op : DirectoryOp Name Item}
    {view : DirectoryAns op → Except FileError Unit} {d : Directory Name Item}
    (d' : Directory Name Item)
    (h : view (DirectoryOp.perform d op).1 = .ok () ∧ (DirectoryOp.perform d op).2 = d') :
    SucceedsIff DirectoryOp.handle FileChoice.Faultless True (fun _ s => s = d')
      (Attempt.call op view) d := by
  refine succeedsIff_call fun k hk => ⟨(), ?_, ?_⟩
  · rw [handle_faultless op hk]
    exact h.1
  · rw [handle_faultless op hk]
    exact h.2

theorem succeedsIff_commitFile (hfresh : temporary ∉ d) :
    SucceedsIff DirectoryOp.handle FileChoice.Faultless True
      (fun _ d' => d' = d.insert target (content ++ terminator))
      (commitFile temporary target content terminator) d := by
  have hcreated : DirectoryOp.perform d (.create temporary) = (.ok (), d.insert temporary []) := by
    simp only [DirectoryOp.perform, if_neg hfresh]
  have hwritten : ∀ old new : List Item,
      DirectoryOp.perform (d.insert temporary old) (.write temporary new) =
        (.ok (), d.insert temporary (old ++ new)) := by
    intro old new
    simp only [DirectoryOp.perform, DirectoryOp.appendTo, AList.lookup_insert, AList.insert_insert]
  have hrenamed : DirectoryOp.perform (d.insert temporary (content ++ terminator))
      (.rename temporary target) = (.ok (), d.insert target (content ++ terminator)) := by
    simp only [DirectoryOp.perform, AList.lookup_insert, erase_insert_of_notMem hfresh]
  unfold commitFile
  refine (succeedsIff_perform (d.insert temporary []) ?_).then fun _ s₁ hs₁ => ?_
  · rw [hcreated]
    exact ⟨rfl, rfl⟩
  subst hs₁
  refine (succeedsIff_perform (d.insert temporary content) ?_).then fun _ s₂ hs₂ => ?_
  · rw [hwritten]
    exact ⟨rfl, rfl⟩
  subst hs₂
  refine (succeedsIff_perform (d.insert temporary (content ++ terminator)) ?_).then
    fun _ s₃ hs₃ => ?_
  · rw [hwritten]
    exact ⟨rfl, rfl⟩
  subst hs₃
  refine (succeedsIff_perform (d.insert temporary (content ++ terminator)) ⟨rfl, rfl⟩).then
    fun _ s₄ hs₄ => ?_
  subst hs₄
  refine (succeedsIff_perform (d.insert target (content ++ terminator)) ?_).then
    fun _ s₅ hs₅ => ?_
  · rw [hrenamed]
    exact ⟨rfl, rfl⟩
  subst hs₅
  exact succeedsIff_perform _ ⟨rfl, rfl⟩

/-- Without failures, and with an unused name for the temporary file, the replacement
succeeds and leaves no temporary file. -/
theorem succeedsIff_replaceFile (hfresh : temporary ∉ d) :
    SucceedsIff DirectoryOp.handle FileChoice.Faultless True
      (fun _ d' => d' = d.insert target (content ++ terminator))
      (replaceFile temporary target content terminator) d := by
  have houtcome : SucceedsIff (ε := FileError) DirectoryOp.handle FileChoice.Faultless True
      (fun r s => r = .ok () ∧ s = d.insert target (content ++ terminator))
      (Attempt.outcome (commitFile temporary target content terminator)) d := by
    refine (keeps_outcome _ _ _).mpr (Keeps.mono (succeedsIff_commitFile hfresh) fun r s hr => ?_)
    cases r with
    | ok a => exact ⟨trivial, rfl, hr.2⟩
    | error e => exact absurd trivial hr
  unfold replaceFile
  refine houtcome.then fun r s hs => ?_
  obtain ⟨rfl, rfl⟩ := hs
  exact succeedsIff_pure rfl

end Faultless

end Replacement

end InterruptiblePrograms
