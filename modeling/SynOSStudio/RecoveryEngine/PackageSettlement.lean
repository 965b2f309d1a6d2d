import SynOSStudio.InterruptiblePrograms.Guards
import SynOSStudio.RecoveryEngine.PackageHook
import SynOSStudio.RecoveryEngine.SnapshotDeletion

/-!
# How package transactions are settled

Every package transaction that the hook begins is pending until it is archived, once. A
call after the packages ends without a pending transaction exactly when it found none, or
one that it looks at: one that waits for its post snapshot, or one still preparing while
the policy asks for a post snapshot.
-/

namespace RecoveryEngine

open InterruptiblePrograms

namespace PackageSettlement

section Calls

/-- A call of the hook, with the identifiers that it draws. -/
inductive Call where
  | before (policy : AptSnapshotPolicy) (ids : PackageIds)
  | after (policy : AptSnapshotPolicy) (id : DeploymentId)

def Call.program : Call → Prog HostOp HostOp.Ans (Except String (Option PackageTransaction))
  | .before policy ids => (PackageHook.beforePackages policy ids).run
  | .after policy id => (PackageHook.afterPackages policy id).run

def Call.transactionId : Call → Option Uuid
  | .before _ ids => some ids.transaction
  | .after _ _ => none

def Call.deploymentId : Call → DeploymentId
  | .before _ ids => ids.deployment
  | .after _ id => id

/-- The world with the operations performed so far. -/
abbrev State := World × List (Entry HostOp HostOp.Ans)

/-- Run a call until its script ends. The locks of a process end with it. -/
def Call.runIn (call : Call) (script : List Choice) (s : State) : State :=
  ({ (call.program.run (logged perform) script s).2.1 with locks := ⟨false, false⟩ },
    (call.program.run (logged perform) script s).2.2)

def runCalls (calls : List (Call × List Choice)) (s : State) : State :=
  calls.foldl (fun s call => call.1.runIn call.2 s) s

end Calls

section Statement

/-- The transaction that an operation has begun. -/
def begun : Entry HostOp HostOp.Ans → Option Uuid
  | ⟨.package (.create t), r⟩ =>
    match (r : Except String Bool) with
    | .ok true => some t.id
    | _ => none
  | _ => none

def Records (t : PackageTransaction) (d : DeploymentId) : Prop :=
  t.preDeploymentId = some d ∨ t.postDeploymentId = some d

/-- The transaction is the pending one or an entry of the history. -/
def Stored (w : World) (t : PackageTransaction) : Prop :=
  w.package = some t ∨ w.packageHistory t.id = some t

/-- Every transaction begun is pending or in the history, and not both; the entries of the
history are terminal and valid; no deployment is recorded by two transactions. -/
structure Accounted (s : State) : Prop where
  kept : ∀ entry ∈ s.2, ∀ id, begun entry = some id →
    (∃ t ∈ s.1.package, t.id = id) ∨ (s.1.packageHistory id).isSome
  once : ∀ t ∈ s.1.package, s.1.packageHistory t.id = none
  history : ∀ id t, s.1.packageHistory id = some t →
    t.id = id ∧ t.phase.isTerminal = true ∧ t.validate = .ok ()
  snapshots : ∀ t t' d, Stored s.1 t → Stored s.1 t' → Records t d → Records t' d → t = t'

/-- The clock is never before the creation of the pending transaction. -/
def NotBefore : HostOp → Choice → State → Prop
  | .now, _, s => ∀ t ∈ s.1.package, t.createdAt ≤ s.1.clock.now
  | _, _, _ => True

/-- No operation on the package transactions fails. -/
def StoreWorks : HostOp → Choice → State → Prop
  | .package _, k, _ => k.fault = none
  | _, _, _ => True

/-- In all calls the clock is never before the creation of the pending transaction. -/
def CallsMeet : List (Call × List Choice) → State → Prop
  | [], _ => True
  | (call, script) :: calls, s =>
    Meets (logged perform) NotBefore call.program script s ∧ CallsMeet calls (call.runIn script s)

/-- The calls draw identifiers that are all different and not used in the store, which is
in order and has a valid pending transaction, if any. -/
structure Initial (calls : List (Call × List Choice)) (w : World) : Prop where
  accounted : Accounted (w, [])
  valid : ∀ t ∈ w.package, t.validate = .ok ()
  transactionIds : (calls.filterMap fun call => call.1.transactionId).Nodup
  deploymentIds : (calls.map fun call => call.1.deploymentId).Nodup
  freshTransactions : ∀ call ∈ calls, ∀ t, Stored w t → call.1.transactionId ≠ some t.id
  freshDeployments : ∀ call ∈ calls, ∀ t, Stored w t → ¬ Records t call.1.deploymentId

/-- What a call after the packages finds when it leaves nothing pending. -/
def Settles (policy : AptSnapshotPolicy) (package : Option PackageTransaction) : Prop :=
  ∀ t ∈ package, t.phase = .awaitingPost ∨ (t.phase = .preparingPre ∧ policy.snapshotAfter = true)

end Statement

section Ledger

variable {ids ids' : Uuid → Prop} {drawn drawn' : DeploymentId → Prop} {s s' : State}
  {t t' : PackageTransaction}

/-- The store is in order and has used identifiers of these kinds only. -/
structure Ledger (ids : Uuid → Prop) (drawn : DeploymentId → Prop) (s : State) : Prop where
  accounted : Accounted s
  valid : ∀ t ∈ s.1.package, t.validate = .ok ()
  transactions : ∀ t, Stored s.1 t → ids t.id
  deployments : ∀ t d, Stored s.1 t → Records t d → drawn d

theorem Ledger.mono (h : Ledger ids drawn s) (hids : ∀ id, ids id → ids' id)
    (hdrawn : ∀ d, drawn d → drawn' d) : Ledger ids' drawn' s where
  accounted := h.accounted
  valid := h.valid
  transactions := fun t ht => hids _ (h.transactions t ht)
  deployments := fun t d ht hd => hdrawn d (h.deployments t d ht hd)

/-- The package transactions have not changed, and none was begun. -/
structure Same (s s' : State) : Prop where
  package : s'.1.package = s.1.package
  history : s'.1.packageHistory = s.1.packageHistory
  log : ∀ entry ∈ s'.2, ∀ id, begun entry = some id → entry ∈ s.2

theorem Same.refl (s : State) : Same s s := ⟨rfl, rfl, fun _ h _ _ => h⟩

theorem Same.stored (h : Same s s') (t : PackageTransaction) : Stored s'.1 t ↔ Stored s.1 t := by
  unfold Stored
  rw [h.package, h.history]

theorem Ledger.same (h : Ledger ids drawn s) (hsame : Same s s') : Ledger ids drawn s' where
  accounted :=
    { kept := by
        rw [hsame.package, hsame.history]
        exact fun entry he id hid => h.accounted.kept entry (hsame.log entry he id hid) id hid
      once := by
        rw [hsame.package, hsame.history]
        exact h.accounted.once
      history := by
        rw [hsame.history]
        exact h.accounted.history
      snapshots := fun t t' d ht ht' => h.accounted.snapshots t t' d ((hsame.stored t).mp ht)
        ((hsame.stored t').mp ht') }
  valid := by
    rw [hsame.package]
    exact h.valid
  transactions := fun t ht => h.transactions t ((hsame.stored t).mp ht)
  deployments := fun t d ht => h.deployments t d ((hsame.stored t).mp ht)

/-- The pending transaction is written over by one with the same identifier, which records
no deployment that another transaction has recorded. -/
theorem Ledger.replace (h : Ledger ids drawn s) (hpending : s.1.package = some t)
    (hid : t'.id = t.id) (hvalid : t'.validate = .ok ()) (hdrawn : ∀ d, drawn d → drawn' d)
    (hrecords : ∀ d, Records t' d → Records t d ∨ (¬ drawn d ∧ drawn' d))
    (hpending' : s'.1.package = some t') (hhistory : s'.1.packageHistory = s.1.packageHistory)
    (hlog : ∀ entry ∈ s'.2, ∀ id, begun entry = some id → entry ∈ s.2) :
    Ledger ids drawn' s' := by
  have hstored : ∀ u, Stored s'.1 u → u = t' ∨ (Stored s.1 u ∧ u ≠ t) := by
    intro u hu
    rcases hu with hu | hu
    · rw [hpending'] at hu
      exact .inl (Option.some.inj hu).symm
    · rw [hhistory] at hu
      refine .inr ⟨.inr hu, ?_⟩
      rintro rfl
      rw [h.accounted.once u hpending] at hu
      cases hu
  have hthis : Stored s.1 t := .inl hpending
  have hother : ∀ u d, Stored s.1 u → u ≠ t → Records u d → ¬ Records t' d := by
    intro u d hu hne hd hd'
    rcases hrecords d hd' with hold | ⟨hnew, -⟩
    · exact hne (h.accounted.snapshots u t d hu hthis hd hold)
    · exact hnew (h.deployments u d hu hd)
  refine ⟨⟨fun entry he id hbegun => ?_, fun u hu => ?_, ?_, fun u u' d hu hu' hd hd' => ?_⟩,
    fun u hu => ?_, fun u hu => ?_, fun u d hu hd => ?_⟩
  · rw [hpending', hhistory]
    rcases h.accounted.kept entry (hlog entry he id hbegun) id hbegun with ⟨u, hu, rfl⟩ | hsome
    · rw [hpending] at hu
      cases hu
      exact .inl ⟨t', rfl, hid⟩
    · exact .inr hsome
  · rw [hpending'] at hu
    cases hu
    rw [hhistory, hid]
    exact h.accounted.once t hpending
  · rw [hhistory]
    exact h.accounted.history
  · rcases hstored u hu with rfl | ⟨hu, hne⟩ <;> rcases hstored u' hu' with rfl | ⟨hu', hne'⟩
    · rfl
    · exact absurd hd (hother u' d hu' hne' hd')
    · exact absurd hd' (hother u d hu hne hd)
    · exact h.accounted.snapshots u u' d hu hu' hd hd'
  · rw [hpending'] at hu
    cases hu
    exact hvalid
  · rcases hstored u hu with rfl | ⟨hu, -⟩
    · rw [hid]
      exact h.transactions t hthis
    · exact h.transactions u hu
  · rcases hstored u hu with rfl | ⟨hu, -⟩
    · rcases hrecords d hd with hold | ⟨-, hnew⟩
      · exact hdrawn d (h.deployments t d hthis hold)
      · exact hnew
    · exact hdrawn d (h.deployments u d hu hd)

/-- The pending transaction moves into the history when it is terminal. -/
theorem Ledger.archive (h : Ledger ids drawn s) (hpending : s.1.package = some t)
    (hterminal : t.phase.isTerminal = true) (hpending' : s'.1.package = none)
    (hhistory : s'.1.packageHistory = Function.update s.1.packageHistory t.id (some t))
    (hlog : ∀ entry ∈ s'.2, ∀ id, begun entry = some id → entry ∈ s.2) :
    Ledger ids drawn s' := by
  have hstored : ∀ u, Stored s'.1 u → Stored s.1 u := by
    intro u hu
    rcases hu with hu | hu
    · rw [hpending'] at hu
      cases hu
    · rw [hhistory] at hu
      by_cases hid : u.id = t.id
      · rw [hid, Function.update_self] at hu
        cases hu
        exact .inl hpending
      · rw [Function.update_of_ne hid] at hu
        exact .inr hu
  refine ⟨⟨fun entry he id hbegun => ?_, fun u hu => ?_, fun id u hu => ?_,
    fun u u' d hu hu' => h.accounted.snapshots u u' d (hstored u hu) (hstored u' hu')⟩,
    fun u hu => ?_, fun u hu => h.transactions u (hstored u hu),
    fun u d hu => h.deployments u d (hstored u hu)⟩
  · right
    rw [hhistory]
    rcases h.accounted.kept entry (hlog entry he id hbegun) id hbegun with ⟨u, hu, rfl⟩ | hsome
    · rw [hpending] at hu
      cases hu
      rw [Function.update_self]
      rfl
    · by_cases hid : id = t.id
      · rw [hid, Function.update_self]
        rfl
      · rwa [Function.update_of_ne hid]
  · rw [hpending'] at hu
    cases hu
  · rw [hhistory] at hu
    by_cases hid : id = t.id
    · rw [hid, Function.update_self] at hu
      cases hu
      exact ⟨hid.symm, hterminal, h.valid t hpending⟩
    · rw [Function.update_of_ne hid] at hu
      exact h.accounted.history id u hu
  · rw [hpending'] at hu
    cases hu

/-- A new transaction is published when none is pending. -/
theorem Ledger.create (h : Ledger ids drawn s) (hpending : s.1.package = none)
    (hfresh : ¬ ids t.id) (hids : ∀ id, ids id → ids' id) (hid : ids' t.id)
    (hvalid : t.validate = .ok ()) (hrecords : ∀ d, ¬ Records t d)
    (hpending' : s'.1.package = some t) (hhistory : s'.1.packageHistory = s.1.packageHistory)
    (hlog : ∀ entry ∈ s'.2, ∀ id, begun entry = some id → entry ∈ s.2 ∨ id = t.id) :
    Ledger ids' drawn s' := by
  have hstored : ∀ u, Stored s'.1 u → u = t ∨ Stored s.1 u := by
    intro u hu
    rcases hu with hu | hu
    · rw [hpending'] at hu
      exact .inl (Option.some.inj hu).symm
    · rw [hhistory] at hu
      exact .inr (.inr hu)
  have hnone : s.1.packageHistory t.id = none := by
    cases hsome : s.1.packageHistory t.id with
    | none => rfl
    | some u =>
      have huid := (h.accounted.history _ _ hsome).1
      exact absurd (huid ▸ h.transactions u (.inr (by rw [huid]; exact hsome))) hfresh
  refine ⟨⟨fun entry he id hbegun => ?_, fun u hu => ?_, ?_, fun u u' d hu hu' hd hd' => ?_⟩,
    fun u hu => ?_, fun u hu => ?_, fun u d hu hd => ?_⟩
  · rw [hpending', hhistory]
    rcases hlog entry he id hbegun with hold | rfl
    · rcases h.accounted.kept entry hold id hbegun with ⟨u, hu, -⟩ | hsome
      · rw [hpending] at hu
        cases hu
      · exact .inr hsome
    · exact .inl ⟨t, rfl, rfl⟩
  · rw [hpending'] at hu
    cases hu
    rw [hhistory]
    exact hnone
  · rw [hhistory]
    exact h.accounted.history
  · rcases hstored u hu with rfl | hu
    · exact absurd hd (hrecords d)
    · rcases hstored u' hu' with rfl | hu'
      · exact absurd hd' (hrecords d)
      · exact h.accounted.snapshots u u' d hu hu' hd hd'
  · rw [hpending'] at hu
    cases hu
    exact hvalid
  · rcases hstored u hu with rfl | hu
    · exact hid
    · exact hids _ (h.transactions u hu)
  · rcases hstored u hu with rfl | hu
    · exact absurd hd (hrecords d)
    · exact h.deployments u d hu hd

end Ledger

section Steps

open SnapshotDeletion (WritesValid)

variable {α β ε : Type} {ids ids' : Uuid → Prop} {drawn drawn' : DeploymentId → Prop}
  {s s' : State} {t t' : PackageTransaction} {op : HostOp} {strict : Prop} {inv : State → Prop}

/-- The condition on the steps of a call; a strict one is on the store operations as well. -/
def Guard (strict : Prop) (op : HostOp) (k : Choice) (s : State) : Prop :=
  NotBefore op k s ∧ (strict → StoreWorks op k s)

theorem begun_of_not_create (hop : ∀ t, op ≠ .package (.create t)) (r : op.Ans) :
    begun ⟨op, r⟩ = none := by
  cases op with
  | package op =>
    cases op with
    | create t => exact absurd rfl (hop t)
    | _ => rfl
  | _ => rfl

/-- Only creations are begun. -/
theorem begun_logged (op : HostOp) (hop : ∀ t, op ≠ .package (.create t)) (k : Choice) (s : State) :
    ∀ entry ∈ (logged perform op k s).2.2, ∀ id, begun entry = some id → entry ∈ s.2 := by
  intro entry he id hid
  rcases List.mem_append.mp he with he | he
  · exact he
  · rw [List.mem_singleton.mp he, begun_of_not_create hop] at hid
    cases hid

theorem same_step (hop : WritesValid op) (k : Choice) (s : State) :
    Same s (logged perform op k s).2 := by
  have hlog : (∀ t, op ≠ .package (.create t)) := by
    rintro t rfl
    exact hop
  suffices h : (perform op k s.1).2.package = s.1.package ∧
      (perform op k s.1).2.packageHistory = s.1.packageHistory from
    ⟨h.1, h.2, begun_logged op hlog k s⟩
  cases op with
  | now => exact ⟨rfl, rfl⟩
  | disk op =>
    obtain ⟨_, he⟩ := perform_disk k s.1 op
    rw [he]
    exact ⟨rfl, rfl⟩
  | record op =>
    obtain ⟨_, he⟩ := perform_record k s.1 op
    rw [he]
    exact ⟨rfl, rfl⟩
  | lineage mutation =>
    obtain ⟨_, he⟩ := perform_lineage k s.1 mutation
    rw [he]
    exact ⟨rfl, rfl⟩
  | rollback op =>
    obtain ⟨_, _, he⟩ := perform_rollback k s.1 op
    rw [he]
    exact ⟨rfl, rfl⟩
  | package op =>
    cases op with
    | load =>
      rcases orFault_world k s.1 (s.1.packageEffect .load) with he | he <;>
        exact ⟨congrArg World.package he, congrArg World.packageHistory he⟩
    | _ => cases hop
  | cleanup op =>
    obtain ⟨_, he⟩ := perform_cleanup k s.1 op
    rw [he]
    exact ⟨rfl, rfl⟩
  | boot op =>
    obtain ⟨_, he⟩ := perform_boot k s.1 op
    rw [he]
    exact ⟨rfl, rfl⟩
  | lock op =>
    obtain ⟨_, he⟩ := perform_lock k s.1 op
    rw [he]
    exact ⟨rfl, rfl⟩

theorem Same.trans {s'' : State} (h : Same s s') (h' : Same s' s'') : Same s s'' where
  package := h'.package.trans h.package
  history := h'.history.trans h.history
  log := fun entry he id hid => h.log entry (h'.log entry he id hid) id hid

/-- The part of a call that does not write package transactions. -/
theorem outside_spec {p : Prog HostOp HostOp.Ans α} (hp : Within WritesValid p)
    (h : Ledger ids drawn s) (hinv : ∀ s, Ledger ids drawn s → inv s) :
    KeepsUnder (logged perform) (Guard strict) inv p (fun _ s' => Same s s') s :=
  KeepsUnder.of_within (fun _ k s' hop _ hs => hs.trans (same_step hop k s'))
    (fun _ hs => hinv _ (h.same hs)) hp (Same.refl s)

theorem now_spec (h : Ledger ids drawn s) (hinv : ∀ s, Ledger ids drawn s → inv s) :
    KeepsUnder (logged perform) (Guard strict) inv (utcNow : Action ε Timestamp).run
      (fun r s' => Same s s' ∧ ∃ now, r = .ok now ∧ ∀ t ∈ s.1.package, t.createdAt ≤ now) s := by
  have hop : WritesValid .now := trivial
  refine (keepsUnder_attempt_call _ _ _ _).mpr ⟨hinv s h, fun k hk => ⟨same_step hop k s, ?_⟩⟩
  exact ⟨s.1.clock.now, rfl, hk.1⟩

theorem load_spec (h : Ledger ids drawn s) (hinv : ∀ s, Ledger ids drawn s → inv s) :
    KeepsUnder (logged perform) (Guard strict) inv PackageTransactionStore.loadPending.run
      (fun r s' => Same s s' ∧ (∀ found, r = .ok found → found = s.1.package) ∧
        (strict → r = .ok s.1.package)) s := by
  have hload : KeepsUnder (logged perform) (Guard strict) inv
      (Attempt.call (.package .load) id : Action String (Option PackageTransaction)).run
      (fun r s' => Same s s' ∧ (∀ found, r = .ok found → found = s.1.package) ∧
        (strict → r = .ok s.1.package)) s := by
    have hop : WritesValid (.package .load) := trivial
    refine (keepsUnder_attempt_call _ _ _ _).mpr ⟨hinv s h, fun k hk => ⟨same_step hop k s, ?_⟩⟩
    show (∀ found, (perform (.package .load) k s.1).1 = .ok found → found = s.1.package) ∧
      (strict → (perform (.package .load) k s.1).1 = .ok s.1.package)
    have hperform : perform (.package .load) k s.1 = orFault k s.1 (.ok s.1.package, s.1) := rfl
    cases hfault : k.fault with
    | none =>
      simp only [hperform, orFault, hfault]
      exact ⟨fun found he => (Except.ok.inj he).symm, fun _ => rfl⟩
    | some e =>
      simp only [hperform, orFault, hfault]
      refine ⟨fun found he => (by cases he), fun hstrict => ?_⟩
      have hworks : k.fault = none := hk.2 hstrict
      rw [hfault] at hworks
      cases hworks
  refine keepsUnder_attempt_then hload (fun e s' hs => ⟨hs.1, fun _ he => (by cases he),
    fun hstrict => absurd (hs.2.2 hstrict) (by simp)⟩) fun found s₁ hs => ?_
  obtain ⟨hsame, hfound, -⟩ := hs
  have heq := hfound found rfl
  cases found with
  | none => exact ⟨hsame, fun found he => (Except.ok.inj he).symm.trans heq, fun _ => heq ▸ rfl⟩
  | some t =>
    have hvalid : t.validate = .ok () := h.valid t heq.symm
    refine keepsUnder_ofExcept_bind (fun e he => ?_) fun _ _ => ?_
    · rw [hvalid] at he
      cases he
    · exact ⟨hsame, fun found he => (Except.ok.inj he).symm.trans heq, fun _ => heq ▸ rfl⟩

end Steps

section Writes

open SnapshotDeletion (WritesValid)

variable {ids ids' : Uuid → Prop} {drawn drawn' : DeploymentId → Prop} {s : State}
  {t t' : PackageTransaction} {strict : Prop} {inv : State → Prop}

/-- The change of a transaction keeps its identifier, and records at most a deployment that no
transaction has recorded. -/
structure Continues (drawn drawn' : DeploymentId → Prop) (t t' : PackageTransaction) : Prop where
  id : t'.id = t.id
  grows : ∀ d, drawn d → drawn' d
  records : ∀ d, Records t' d → Records t d ∨ (¬ drawn d ∧ drawn' d)

theorem update_spec (h : Ledger ids drawn s) (hpending : s.1.package = some t)
    (hchange : Continues drawn drawn' t t') (hinv : ∀ s, Ledger ids drawn' s → inv s) :
    KeepsUnder (logged perform) (Guard strict) inv (PackageTransactionStore.update t').run
      (fun r s' => Ledger ids drawn' s' ∧ (r = .ok () → s'.1.package = some t') ∧
        (strict → t'.validate = .ok () → r = .ok ())) s := by
  have hbefore := h.mono (fun _ hid => hid) hchange.grows
  refine keepsUnder_ofExcept_bind (fun e he => ⟨hbefore, fun hr => (by cases hr),
    fun _ hvalid => ?_⟩)
    fun _ hvalid => ?_
  · rw [hvalid] at he
    cases he
  refine (keepsUnder_attempt_call _ _ _ _).mpr ⟨hinv s hbefore, fun k hk => ?_⟩
  have hlog := begun_logged (.package (.replace t')) (fun _ he => by cases he) k s
  have hperform : perform (.package (.replace t')) k s.1 =
      orFault k s.1 (.ok true, { s.1 with package := some t' }) := by
    show orFault k s.1 (s.1.packageEffect (.replace t')) = _
    simp only [World.packageEffect, hpending]
    rfl
  cases hfault : k.fault with
  | none =>
    simp only [orFault, hfault] at hperform
    have hafter : Ledger ids drawn' (logged perform (.package (.replace t')) k s).2 := by
      refine h.replace hpending hchange.id hvalid hchange.grows hchange.records ?_ ?_ hlog
      · exact congrArg (fun r => r.2.package) hperform
      · exact congrArg (fun r => r.2.packageHistory) hperform
    refine ⟨hafter, fun _ => congrArg (fun r => r.2.package) hperform, fun _ _ => ?_⟩
    simp only [logged, hperform]
  | some e =>
    simp only [orFault, hfault] at hperform
    have hsame : Same s (logged perform (.package (.replace t')) k s).2 :=
      ⟨congrArg (fun r => r.2.package) hperform, congrArg (fun r => r.2.packageHistory) hperform,
        hlog⟩
    refine ⟨hbefore.same hsame, fun hr => ?_, fun hstrict _ => ?_⟩
    · simp only [logged, hperform] at hr
      cases hr
    · have hworks : k.fault = none := hk.2 hstrict
      rw [hfault] at hworks
      cases hworks

theorem archive_spec (h : Ledger ids drawn s) (hpending : s.1.package = some t)
    (hchange : Continues drawn drawn' t t') (hterminal : t'.phase.isTerminal = true)
    (hvalid : t'.validate = .ok ()) (hinv : ∀ s, Ledger ids drawn' s → inv s) :
    KeepsUnder (logged perform) (Guard strict) inv (PackageTransactionStore.archive t').run
      (fun r s' => Ledger ids drawn' s' ∧ (r = .ok () → s'.1.package = none) ∧
        (strict → r = .ok ())) s := by
  refine keepsUnder_ofExcept_bind (fun e he => ?_) fun _ _ => ?_
  · rw [(ensure_eq_ok _ _).mpr hterminal] at he
    cases he
  refine keepsUnder_attempt_then (update_spec h hpending hchange hinv)
    (fun e s' hs => ⟨hs.1, fun hr => (by cases hr), fun hstrict => ?_⟩) fun _ s₁ hs => ?_
  · have hr := hs.2.2 hstrict hvalid
    cases hr
  obtain ⟨h₁, hupdated, -⟩ := hs
  have hpending₁ := hupdated rfl
  refine (keepsUnder_attempt_call _ _ _ _).mpr ⟨hinv s₁ h₁, fun k hk => ?_⟩
  have hlog := begun_logged (.package (.archive t')) (fun _ he => by cases he) k s₁
  have hperform : perform (.package (.archive t')) k s₁.1 = orFault k s₁.1 (.ok (), { s₁.1 with
      package := none
      packageHistory := Function.update s₁.1.packageHistory t'.id (some t') }) := by
    show orFault k s₁.1 (s₁.1.packageEffect (.archive t')) = _
    simp only [World.packageEffect, hpending₁, h₁.accounted.once t' hpending₁]
    rfl
  show Ledger ids drawn' (logged perform (.package (.archive t')) k s₁).2 ∧
    ((perform (.package (.archive t')) k s₁.1).1 = .ok () →
      (perform (.package (.archive t')) k s₁.1).2.package = none) ∧
    (strict → (perform (.package (.archive t')) k s₁.1).1 = .ok ())
  cases hfault : k.fault with
  | none =>
    simp only [orFault, hfault] at hperform
    refine ⟨h₁.archive hpending₁ hterminal ?_ ?_ hlog, fun _ => ?_, fun _ => ?_⟩
    · exact congrArg (fun r => r.2.package) hperform
    · exact congrArg (fun r => r.2.packageHistory) hperform
    · exact congrArg (fun r => r.2.package) hperform
    · exact congrArg Prod.fst hperform
  | some e =>
    simp only [orFault, hfault] at hperform
    have hsame : Same s₁ (logged perform (.package (.archive t')) k s₁).2 :=
      ⟨congrArg (fun r => r.2.package) hperform, congrArg (fun r => r.2.packageHistory) hperform,
        hlog⟩
    refine ⟨h₁.same hsame, fun hr => ?_, fun hstrict => ?_⟩
    · rw [hperform] at hr
      cases hr
    · have hworks : k.fault = none := hk.2 hstrict
      rw [hfault] at hworks
      cases hworks

theorem create_spec (h : Ledger ids drawn s) (hfresh : ¬ ids t.id)
    (hids : ∀ id, ids id → ids' id) (hid : ids' t.id) (hvalid : t.validate = .ok ())
    (hrecords : ∀ d, ¬ Records t d) (hinv : ∀ s, Ledger ids' drawn s → inv s) :
    KeepsUnder (logged perform) (Guard strict) inv (PackageTransactionStore.create t).run
      (fun r s' => Ledger ids' drawn s' ∧ (r = .ok () → s'.1.package = some t)) s := by
  have hbefore := h.mono hids fun _ hd => hd
  refine keepsUnder_ofExcept_bind (fun e he => ⟨hbefore, fun hr => by cases hr⟩) fun _ _ => ?_
  refine (keepsUnder_attempt_call _ _ _ _).mpr ⟨hinv s hbefore, fun k _ => ?_⟩
  have hperform : perform (.package (.create t)) k s.1 =
      orFault k s.1 (s.1.packageEffect (.create t)) := rfl
  have hfails : ∀ r : Except String Bool, r ≠ .ok true →
      perform (.package (.create t)) k s.1 = (r, s.1) →
      Ledger ids' drawn (logged perform (.package (.create t)) k s).2 := by
    intro r hr he
    refine hbefore.same ⟨congrArg (fun r => r.2.package) he,
      congrArg (fun r => r.2.packageHistory) he, fun entry hentry id hid => ?_⟩
    rcases List.mem_append.mp hentry with hold | hnew
    · exact hold
    · rw [List.mem_singleton.mp hnew, he] at hid
      cases r with
      | error e => cases hid
      | ok b =>
        cases b with
        | false => cases hid
        | true => exact absurd rfl hr
  cases hfault : k.fault with
  | some e =>
    simp only [orFault, hfault] at hperform
    refine ⟨hfails (.error e) (fun he => by cases he) hperform, fun hr => ?_⟩
    simp only [logged, hperform] at hr
    cases hr
  | none =>
    simp only [orFault, hfault] at hperform
    cases hpending : s.1.package with
    | some u =>
      simp only [World.packageEffect, hpending] at hperform
      refine ⟨hfails (.ok false) (fun he => by cases he) hperform, fun hr => ?_⟩
      simp only [logged, hperform] at hr
      cases hr
    | none =>
      simp only [World.packageEffect, hpending] at hperform
      refine ⟨h.create hpending hfresh hids hid hvalid hrecords ?_ ?_ ?_, fun _ => ?_⟩
      · exact congrArg (fun r => r.2.package) hperform
      · exact congrArg (fun r => r.2.packageHistory) hperform
      · intro entry hentry id hid
        rcases List.mem_append.mp hentry with hold | hnew
        · exact .inl hold
        · rw [List.mem_singleton.mp hnew, hperform] at hid
          exact .inr (Option.some.inj hid).symm
      · exact congrArg (fun r => r.2.package) hperform

end Writes

section Hooks

open PackageHook
open SnapshotDeletion (WritesValid)

variable {β : Type} {ids : Uuid → Prop} {drawn drawn' : DeploymentId → Prop} {s : State}
  {t : PackageTransaction} {strict : Prop} {inv : State → Prop}

/-- A transaction is changed at a reading of the clock. -/
theorem change_spec {change : Timestamp → Except String PackageTransaction}
    {rest : PackageTransaction → Action String β} {post : Except String β → State → Prop}
    (h : Ledger ids drawn s) (hpending : s.1.package = some t)
    (hinv : ∀ s, Ledger ids drawn s → inv s)
    (herror : ∀ e now s', Ledger ids drawn s' → t.createdAt ≤ now → change now = .error e →
      post (.error e) s')
    (hok : ∀ t' now s', Ledger ids drawn s' → s'.1.package = some t → change now = .ok t' →
      KeepsUnder (logged perform) (Guard strict) inv (rest t').run post s') :
    KeepsUnder (logged perform) (Guard strict) inv
      (utcNow >>= fun now => Attempt.ofExcept (change now) >>= rest).run post s := by
  refine keepsUnder_attempt_then (now_spec h hinv) (fun e s' hs => ?_) fun now s₁ hs => ?_
  · obtain ⟨-, _, he, -⟩ := hs
    cases he
  · obtain ⟨hsame, now', hnow, hcreated⟩ := hs
    cases hnow
    refine keepsUnder_ofExcept_bind (fun e he => ?_) fun t' ht' => ?_
    · exact herror e now s₁ (h.same hsame) (hcreated t hpending) he
    · exact hok t' now s₁ (h.same hsame) (hsame.package.trans hpending) ht'

/-- What the end of a transaction establishes. -/
def Ended (ids : Uuid → Prop) (drawn : DeploymentId → Prop) (strict : Prop) (s : State) : Prop :=
  Ledger ids drawn s ∧ (strict → s.1.package = none)

theorem interruptAndArchive_spec (h : Ledger ids drawn s) (hpending : s.1.package = some t)
    (hopen : t.phase.isTerminal = false) (failure : String)
    (hinv : ∀ s, Ledger ids drawn s → inv s) :
    KeepsUnder (logged perform) (Guard strict) inv (interruptAndArchive t failure).run
      (fun r s' => Ended ids drawn strict s' ∧ (r = .ok () → s'.1.package = none)) s := by
  have hvalid := h.valid t hpending
  refine change_spec h hpending hinv (fun e now s' _ hcreated he => ?_)
    fun t' now s₁ h₁ hpending₁ ht' => ?_
  · obtain ⟨t', ht'⟩ := PackageTransaction.interrupt_succeeds hvalid hopen failure hcreated
    rw [ht'] at he
    cases he
  · obtain ⟨hvalid', heq⟩ := PackageTransaction.interrupt_eq_ok ht'
    have hcontinues : Continues drawn drawn t t' := by
      subst heq
      refine ⟨rfl, fun _ hd => hd, fun d hd => ?_⟩
      rcases hd with hd | hd
      · exact .inl (.inl hd)
      · cases hd
    have hterminal : t'.phase.isTerminal = true := by
      rw [heq]
      rfl
    exact (archive_spec h₁ hpending₁ hcontinues hterminal hvalid' hinv).mono
      fun r s' hs => ⟨⟨hs.1, fun hstrict => hs.2.1 (hs.2.2 hstrict)⟩, hs.2.1⟩

theorem finishWithoutPost_spec (h : Ledger ids drawn s) (hpending : s.1.package = some t)
    (hphase : t.phase = .awaitingPost) (hinv : ∀ s, Ledger ids drawn s → inv s) :
    KeepsUnder (logged perform) (Guard strict) inv (finishWithoutPost t).run
      (fun _ s' => Ended ids drawn strict s') s := by
  have hvalid := h.valid t hpending
  unfold finishWithoutPost
  split_ifs with hpre
  · refine change_spec h hpending hinv (fun e now s' _ hcreated he => ?_)
      fun t' now s₁ h₁ hpending₁ ht' => ?_
    · obtain ⟨t', ht'⟩ :=
        PackageTransaction.completeWithoutPost_succeeds hvalid hphase hpre hcreated
      rw [ht'] at he
      cases he
    · obtain ⟨hvalid', heq⟩ := PackageTransaction.completeWithoutPost_eq_ok ht'
      have hcontinues : Continues drawn drawn t t' := by
        subst heq
        exact ⟨rfl, fun _ hd => hd, fun d hd => .inl hd⟩
      have hterminal : t'.phase.isTerminal = true := by
        rw [heq]
        rfl
      exact (archive_spec h₁ hpending₁ hcontinues hterminal hvalid' hinv).mono
        fun r s' hs => ⟨hs.1, fun hstrict => hs.2.1 (hs.2.2 hstrict)⟩
  · exact (interruptAndArchive_spec h hpending (by rw [hphase]; rfl) _ hinv).mono
      fun _ _ hs => hs.1

theorem within_createApt (title : String) (kind : DeploymentKind) (label : String)
    (id : DeploymentId) : Within WritesValid (createApt title kind label id).run :=
  within_attempt_bind (within_call _ trivial) fun _ =>
    within_attempt_bind (within_mapError (within_attempt_bind (within_ofExcept _) fun _ =>
      SnapshotDeletion.within_createSnapshot _ _ _)) fun _ => within_pure _

theorem yields_createApt (title : String) (kind : DeploymentKind) (label : String)
    (id : DeploymentId) :
    Yields (fun r => ∀ d, r = .ok d → d = id) (createApt title kind label id).run := by
  refine yields_attempt_last (fun e d he => by cases he) fun report => ?_
  refine yields_attempt_then (yields_mapError (yields_attempt_last
    (fun e => Operations.hasId_mapError (Operations.hasId_error e))
    fun _ => (Operations.yields_createSnapshot _ _).mono fun _ hr => Operations.hasId_mapError hr))
    (fun e _ d he => by cases he) fun record hrecord => ?_
  rintro d ⟨⟩
  exact hrecord record rfl

/-- The snapshot of a transaction is taken without touching the transaction. -/
theorem created_spec (title : String) (kind : DeploymentKind) (label : String) (id : DeploymentId)
    (h : Ledger ids drawn s) (hinv : ∀ s, Ledger ids drawn s → inv s) :
    KeepsUnder (logged perform) (Guard strict) inv
      (Attempt.outcome (createApt title kind label id) : Action String _).run
      (fun r s' => Same s s' ∧ ∃ created, r = .ok created ∧ ∀ d, created = .ok d → d = id) s :=
  (keepsUnder_outcome _ _ _).mpr (((outside_spec (within_createApt title kind label id) h
    hinv).and_yields (yields_createApt title kind label id)).mono
      fun r _ hs => ⟨hs.1, r, rfl, hs.2⟩)

/-- A deployment that was drawn now belongs to the transaction that records it. -/
theorem continues_record {t' : PackageTransaction} {id : DeploymentId} (hid : t'.id = t.id)
    (hfresh : ¬ drawn id) (hrecords : ∀ d, Records t' d → Records t d ∨ d = id) :
    Continues drawn (fun d => drawn d ∨ d = id) t t' := by
  refine ⟨hid, fun _ hd => .inl hd, fun d hd => ?_⟩
  rcases hrecords d hd with hold | rfl
  · exact .inl hold
  · exact .inr ⟨hfresh, .inr rfl⟩

theorem recordPostSnapshot_spec {id : DeploymentId} (h : Ledger ids drawn s)
    (hpending : s.1.package = some t) (hphase : t.phase = .awaitingPost) (hfresh : ¬ drawn id)
    (hinv : ∀ s, Ledger ids (fun d => drawn d ∨ d = id) s → inv s) :
    KeepsUnder (logged perform) (Guard strict) inv (recordPostSnapshot t id).run
      (fun _ s' => Ended ids (fun d => drawn d ∨ d = id) strict s') s := by
  have hvalid := h.valid t hpending
  have hgrow : ∀ s, Ledger ids drawn s → Ledger ids (fun d => drawn d ∨ d = id) s :=
    fun _ h => h.mono (fun _ hid => hid) fun _ hd => .inl hd
  refine keepsUnder_attempt_then (created_spec _ _ _ id h fun s h => hinv s (hgrow s h))
    (fun e s' hs => ?_) fun created s₁ hs => ?_
  · obtain ⟨-, _, he, -⟩ := hs
    cases he
  · obtain ⟨hsame, created', he, hcreated⟩ := hs
    cases he
    have h₁ := h.same hsame
    have hpending₁ : s₁.1.package = some t := hsame.package.trans hpending
    cases created with
    | error e =>
      refine keepsUnder_attempt_then (interruptAndArchive_spec h₁ hpending₁ (by rw [hphase]; rfl) e
        fun s h => hinv s (hgrow s h)) (fun e s' hs => ?_) fun _ s' hs => ?_
      · exact ⟨hgrow s' hs.1.1, hs.1.2⟩
      · exact ⟨hgrow s' hs.1.1, hs.1.2⟩
    | ok d =>
      have hd : d = id := hcreated d rfl
      subst hd
      refine change_spec h₁ hpending₁ (fun s h => hinv s (hgrow s h))
        (fun e now s' _ hnow he => ?_) fun t' now s₂ h₂ hpending₂ ht' => ?_
      · obtain ⟨t', ht'⟩ := PackageTransaction.recordPost_succeeds hvalid hphase d hnow
        rw [ht'] at he
        cases he
      · obtain ⟨hvalid', heq⟩ := PackageTransaction.recordPost_eq_ok ht'
        have hcontinues : Continues drawn (fun d' => drawn d' ∨ d' = d) t t' := by
          subst heq
          refine continues_record rfl hfresh fun d' hd' => ?_
          rcases hd' with hd' | hd'
          · exact .inl (.inl hd')
          · exact .inr (Option.some.inj hd').symm
        have hterminal : t'.phase.isTerminal = true := by
          rw [heq]
          rfl
        refine keepsUnder_attempt_then (archive_spec h₂ hpending₂ hcontinues hterminal hvalid' hinv)
          (fun e s' hs => ?_) fun _ s' hs => ?_
        · exact ⟨hs.1, fun hstrict => hs.2.1 (hs.2.2 hstrict)⟩
        · exact ⟨hs.1, fun hstrict => hs.2.1 (hs.2.2 hstrict)⟩

theorem afterPackages_spec {id : DeploymentId} (policy : AptSnapshotPolicy)
    (h : Ledger ids drawn s) (hfresh : ¬ drawn id)
    (hinv : ∀ s, Ledger ids (fun d => drawn d ∨ d = id) s → inv s) :
    KeepsUnder (logged perform) (Guard strict) inv (afterPackages policy id).run
      (fun _ s' => Ledger ids (fun d => drawn d ∨ d = id) s' ∧
        (strict → (s'.1.package = none ↔ Settles policy s.1.package))) s := by
  have hgrow : ∀ s, Ledger ids drawn s → Ledger ids (fun d => drawn d ∨ d = id) s :=
    fun _ h => h.mono (fun _ hid => hid) fun _ hd => .inl hd
  have hinv₀ : ∀ s, Ledger ids drawn s → inv s := fun s h => hinv s (hgrow s h)
  have hended : ∀ {s'}, Ended ids drawn strict s' → Settles policy s.1.package →
      Ledger ids (fun d => drawn d ∨ d = id) s' ∧
        (strict → (s'.1.package = none ↔ Settles policy s.1.package)) :=
    fun hs hsettles => ⟨hgrow _ hs.1, fun hstrict => iff_of_true (hs.2 hstrict) hsettles⟩
  refine keepsUnder_attempt_then (load_spec h hinv₀) (fun e s' hs => ?_) fun found s₁ hs => ?_
  · exact ⟨hgrow s' (h.same hs.1), fun hstrict => by cases hs.2.2 hstrict⟩
  obtain ⟨hsame, hfound, -⟩ := hs
  have h₁ := h.same hsame
  have hpending := hfound found rfl
  rw [← hpending] at hended ⊢
  have hpending₁ : s₁.1.package = found := hsame.package.trans hpending.symm
  have hleft : (s₁.1.package = none ↔ Settles policy found) →
      Ledger ids (fun d => drawn d ∨ d = id) s₁ ∧
        (strict → (s₁.1.package = none ↔ Settles policy found)) :=
    fun hiff => ⟨hgrow s₁ h₁, fun _ => hiff⟩
  have hstays : ∀ {t}, found = some t → ¬ Settles policy found →
      (s₁.1.package = none ↔ Settles policy found) := by
    intro t ht hnot
    refine iff_of_false ?_ hnot
    rw [hpending₁, ht]
    exact fun hnone => by cases hnone
  cases hafter : policy.snapshotAfter with
  | true =>
    simp only [if_true]
    cases found with
    | none => exact hleft (iff_of_true hpending₁ fun _ ht => by cases ht)
    | some t =>
      simp only
      split_ifs with hphase hterminal
      · have hsettles : Settles policy (some t) := by
          rintro _ ⟨⟩
          exact .inl hphase
        refine keepsUnder_attempt_then (recordPostSnapshot_spec h₁ hpending₁ hphase hfresh hinv)
          (fun e s' hs => ?_) fun _ s' hs => ?_
        · exact ⟨hs.1, fun hstrict => iff_of_true (hs.2 hstrict) hsettles⟩
        · exact ⟨hs.1, fun hstrict => iff_of_true (hs.2 hstrict) hsettles⟩
      · refine hleft (hstays rfl fun hsettles => ?_)
        rcases hsettles t rfl with hp | ⟨hp, -⟩
        · exact hphase hp
        · rw [hp] at hterminal
          cases hterminal
      · have hpreparing : t.phase = .preparingPre := by
          cases hp : t.phase <;> simp_all [PackageTransactionPhase.isTerminal]
        have hsettles : Settles policy (some t) := by
          rintro _ ⟨⟩
          exact .inr ⟨hpreparing, hafter⟩
        refine keepsUnder_attempt_then (interruptAndArchive_spec h₁ hpending₁
          (by simpa using hterminal) _ hinv₀) (fun e s' hs => ?_) fun _ s' hs => ?_
        · exact hended hs.1 hsettles
        · exact hended hs.1 hsettles
  | false =>
    simp only [Bool.false_eq_true, if_false]
    cases found with
    | none => exact hleft (iff_of_true hpending₁ fun _ ht => by cases ht)
    | some t =>
      simp only
      split_ifs with hphase
      · have hsettles : Settles policy (some t) := by
          rintro _ ⟨⟩
          exact .inl hphase
        refine keepsUnder_attempt_then (finishWithoutPost_spec h₁ hpending₁ hphase hinv₀)
          (fun e s' hs => ?_) fun _ s' hs => ?_
        · exact hended hs hsettles
        · exact hended hs hsettles
      · refine hleft (hstays rfl fun hsettles => ?_)
        rcases hsettles t rfl with hp | ⟨-, hp⟩
        · exact hphase hp
        · rw [hafter] at hp
          cases hp

theorem archiveStale_spec (h : Ledger ids drawn s) (hpending : s.1.package = some t)
    (hinv : ∀ s, Ledger ids drawn s → inv s) :
    KeepsUnder (logged perform) (Guard strict) inv (archiveStale t).run
      (fun _ s' => Ledger ids drawn s') s := by
  unfold archiveStale
  split_ifs with hterminal
  · exact (archive_spec h hpending ⟨rfl, fun _ hd => hd, fun _ hd => .inl hd⟩ hterminal
      (h.valid t hpending) hinv).mono fun _ _ hs => hs.1
  · have hopen : t.phase.isTerminal = false := by simpa using hterminal
    exact (interruptAndArchive_spec h hpending hopen _ hinv).mono fun _ _ hs => hs.1.1

/-- What a transaction that has begun looks like. -/
def Began (ids : Uuid → Prop) (drawn : DeploymentId → Prop)
    (r : Except String PackageTransaction) (s : State) : Prop :=
  Ledger ids drawn s ∧ ∀ t, r = .ok t → s.1.package = some t ∧ t.phase = .preparingPre

theorem beginTransactionLocked_spec {id : Uuid} (h : Ledger ids drawn s) (hfresh : ¬ ids id)
    (hinv : ∀ s, Ledger (fun i => ids i ∨ i = id) drawn s → inv s) :
    KeepsUnder (logged perform) (Guard strict) inv (beginTransactionLocked id).run
      (Began (fun i => ids i ∨ i = id) drawn) s := by
  have hgrow : ∀ s, Ledger ids drawn s → Ledger (fun i => ids i ∨ i = id) drawn s :=
    fun _ h => h.mono (fun _ hid => .inl hid) fun _ hd => hd
  have hinv₀ : ∀ s, Ledger ids drawn s → inv s := fun s h => hinv s (hgrow s h)
  have hfails : ∀ {s'}, Ledger ids drawn s' → ∀ e, Began (fun i => ids i ∨ i = id) drawn
      (.error e) s' := fun h _ => ⟨hgrow _ h, fun _ he => by cases he⟩
  have hreading : Within (Operations.Confined default) TransactionStore.loadPending.run :=
    Operations.confined_of_reading Operations.reading_loadRollback
  have hrollback : Within WritesValid
      (Attempt.mapError TransactionError.message TransactionStore.loadPending : Action String _).run :=
    within_mapError (SnapshotDeletion.within_of_confined hreading)
  refine keepsUnder_attempt_then (outside_spec hrollback h hinv₀)
    (fun e s' hs => hfails (h.same hs) e) fun rollback s₁ hs => ?_
  have h₁ := h.same hs
  refine keepsUnder_ofExcept_bind (fun e _ => hfails h₁ e) fun _ _ => ?_
  refine keepsUnder_attempt_then (load_spec h₁ hinv₀) (fun e s' hs => hfails (h₁.same hs.1) e)
    fun found s₂ hs => ?_
  obtain ⟨hsame, hfound, -⟩ := hs
  have h₂ := h₁.same hsame
  have hcreate : ∀ s₃, Ledger ids drawn s₃ → KeepsUnder (logged perform) (Guard strict) inv (do
      let now ← utcNow
      PackageTransactionStore.create (PackageTransaction.new id now)
      pure (PackageTransaction.new id now) : Action String PackageTransaction).run
      (Began (fun i => ids i ∨ i = id) drawn) s₃ := by
    intro s₃ h₃
    refine keepsUnder_attempt_then (now_spec h₃ hinv₀) (fun e s' hs => hfails (h₃.same hs.1) e)
      fun now s₄ hs => ?_
    have hrecords : ∀ d, ¬ Records (PackageTransaction.new id now) d := by
      rintro d (hd | hd) <;> cases hd
    refine keepsUnder_attempt_then (create_spec (h₃.same hs.1) hfresh (fun _ hid => .inl hid)
      (.inr rfl) (PackageTransaction.validate_new id now) hrecords hinv)
      (fun e s' hs => ⟨hs.1, fun _ he => by cases he⟩) fun _ s₅ hs => ⟨hs.1, fun t ht => ?_⟩
    cases ht
    exact ⟨hs.2 rfl, rfl⟩
  cases found with
  | none => exact hcreate s₂ h₂
  | some stale =>
    have hpending : s₂.1.package = some stale := hsame.package.trans (hfound _ rfl).symm
    exact keepsUnder_attempt_then (archiveStale_spec h₂ hpending hinv₀)
      (fun e _ hs => hfails hs e) fun _ s₃ h₃ => hcreate s₃ h₃

theorem beginTransaction_spec {id : Uuid} (h : Ledger ids drawn s) (hfresh : ¬ ids id)
    (hinv : ∀ s, Ledger (fun i => ids i ∨ i = id) drawn s → inv s) :
    KeepsUnder (logged perform) (Guard strict) inv (beginTransaction id).run
      (Began (fun i => ids i ∨ i = id) drawn) s := by
  have hgrow : ∀ s, Ledger ids drawn s → Ledger (fun i => ids i ∨ i = id) drawn s :=
    fun _ h => h.mono (fun _ hid => .inl hid) fun _ hd => hd
  have hinv₀ : ∀ s, Ledger ids drawn s → inv s := fun s h => hinv s (hgrow s h)
  have hfails : ∀ {s'}, Ledger ids drawn s' → ∀ e, Began (fun i => ids i ∨ i = id) drawn
      (.error e) s' := fun h _ => ⟨hgrow _ h, fun _ he => by cases he⟩
  have hlayout : Within WritesValid (Rollback.inspectLayout : Action String _).run :=
    within_call _ trivial
  refine keepsUnder_attempt_then (outside_spec hlayout h hinv₀)
    (fun e s' hs => hfails (h.same hs) e) fun report s₁ hs => ?_
  have h₁ := h.same hs
  refine keepsUnder_ofExcept_bind (fun e _ => hfails h₁ e) fun _ _ => ?_
  have hacquire : Within WritesValid acquireStart.run := within_call _ trivial
  refine keepsUnder_attempt_then (outside_spec hacquire h₁ hinv₀)
    (fun e s' hs => hfails (h₁.same hs) e) fun _ s₂ hs => ?_
  have hbody : KeepsUnder (logged perform) (Guard strict) inv
      (Attempt.outcome (beginTransactionLocked id) : Action String _).run
      (fun r s => Ledger (fun i => ids i ∨ i = id) drawn s ∧ ∀ result, r = .ok result →
        Began (fun i => ids i ∨ i = id) drawn result s) s₂ :=
    (keepsUnder_outcome _ _ _).mpr ((beginTransactionLocked_spec (h₁.same hs) hfresh hinv).mono
      fun r _ hr => ⟨hr.1, fun result he => by cases he; exact hr⟩)
  refine keepsUnder_attempt_then hbody (fun e _ hs => ⟨hs.1, fun _ he => by cases he⟩)
    fun result s₃ hs => ?_
  obtain ⟨h₃, hbegan⟩ := hs
  have hrelease : Within WritesValid
      (Attempt.call (.lock .releaseStart) fun _ => .ok () : Action String Unit).run :=
    within_call _ trivial
  refine keepsUnder_attempt_then (outside_spec hrelease h₃ hinv)
    (fun e s' hs => ⟨h₃.same hs, fun _ he => by cases he⟩) fun _ s₄ hs => ⟨h₃.same hs, ?_⟩
  intro t ht
  obtain ⟨hpending, hphase⟩ := (hbegan result rfl).2 t ht
  exact ⟨hs.package.trans hpending, hphase⟩

theorem recordPreSnapshot_spec {d : DeploymentId} (policy : AptSnapshotPolicy)
    (h : Ledger ids drawn s) (hpending : s.1.package = some t) (hfresh : ¬ drawn d)
    (hinv : ∀ s, Ledger ids (fun d' => drawn d' ∨ d' = d) s → inv s) :
    KeepsUnder (logged perform) (Guard strict) inv (recordPreSnapshot policy t d).run
      (fun _ s' => Ledger ids (fun d' => drawn d' ∨ d' = d) s') s := by
  have hgrow : ∀ s, Ledger ids drawn s → Ledger ids (fun d' => drawn d' ∨ d' = d) s :=
    fun _ h => h.mono (fun _ hid => hid) fun _ hd => .inl hd
  have hinv₀ : ∀ s, Ledger ids drawn s → inv s := fun s h => hinv s (hgrow s h)
  have hrecorded : ∀ t', t'.id = t.id → t'.preDeploymentId = some d →
      t'.postDeploymentId = t.postDeploymentId →
      Continues drawn (fun d' => drawn d' ∨ d' = d) t t' := by
    intro t' hid hpre hpost
    refine continues_record hid hfresh fun d' hd' => ?_
    rcases hd' with hd' | hd'
    · rw [hpre] at hd'
      exact .inr (Option.some.inj hd').symm
    · exact .inl (.inr (hpost ▸ hd'))
  refine change_spec h hpending hinv₀ (fun e now s' h' _ _ => hgrow s' h')
    fun t' now s₁ h₁ hpending₁ ht' => ?_
  obtain ⟨-, -, heq⟩ := PackageTransaction.recordPre_eq_ok ht'
  split_ifs with hafter
  · have hcontinues : Continues drawn (fun d' => drawn d' ∨ d' = d) t t' :=
      hrecorded t' (by rw [heq]) (by rw [heq]) (by rw [heq])
    exact keepsUnder_attempt_then (update_spec h₁ hpending₁ hcontinues hinv)
      (fun e _ hs => hs.1) fun _ _ hs => hs.1
  · refine change_spec h₁ hpending₁ hinv₀ (fun e now s' h' _ _ => hgrow s' h')
      fun t'' now' s₂ h₂ hpending₂ ht'' => ?_
    obtain ⟨hvalid, heq'⟩ := PackageTransaction.completeWithoutPost_eq_ok ht''
    have hcontinues : Continues drawn (fun d' => drawn d' ∨ d' = d) t t'' :=
      hrecorded t'' (by rw [heq', heq]) (by rw [heq', heq]) (by rw [heq', heq])
    have hterminal : t''.phase.isTerminal = true := by
      rw [heq']
      rfl
    exact keepsUnder_attempt_then (archive_spec h₂ hpending₂ hcontinues hterminal hvalid hinv)
      (fun e _ hs => hs.1) fun _ _ hs => hs.1

theorem beforePackages_spec (policy : AptSnapshotPolicy) (drawnIds : PackageIds)
    (h : Ledger ids drawn s) (hfreshId : ¬ ids drawnIds.transaction)
    (hfresh : ¬ drawn drawnIds.deployment)
    (hinv : ∀ s, Ledger (fun i => ids i ∨ i = drawnIds.transaction)
      (fun d => drawn d ∨ d = drawnIds.deployment) s → inv s) :
    KeepsUnder (logged perform) (Guard strict) inv (beforePackages policy drawnIds).run
      (fun _ s' => Ledger (fun i => ids i ∨ i = drawnIds.transaction)
        (fun d => drawn d ∨ d = drawnIds.deployment) s') s := by
  have hgrow : ∀ s, Ledger (fun i => ids i ∨ i = drawnIds.transaction) drawn s →
      Ledger (fun i => ids i ∨ i = drawnIds.transaction)
        (fun d => drawn d ∨ d = drawnIds.deployment) s :=
    fun _ h => h.mono (fun _ hid => hid) fun _ hd => .inl hd
  have hinv₀ : ∀ s, Ledger (fun i => ids i ∨ i = drawnIds.transaction) drawn s → inv s :=
    fun s h => hinv s (hgrow s h)
  unfold beforePackages
  by_cases hnone : (!policy.snapshotBefore && !policy.snapshotAfter) = true
  · rw [if_pos hnone]
    exact hgrow s (h.mono (fun _ hid => .inl hid) fun _ hd => hd)
  rw [if_neg hnone]
  refine keepsUnder_attempt_then (beginTransaction_spec h hfreshId hinv₀)
    (fun e s' hs => hgrow s' hs.1) fun t s₁ hs => ?_
  obtain ⟨h₁, hbegan⟩ := hs
  obtain ⟨hpending₁, hphase⟩ := hbegan t rfl
  split_ifs with hbefore
  · refine keepsUnder_attempt_then (created_spec _ _ _ drawnIds.deployment h₁ hinv₀)
      (fun e s' hs => hgrow s' (h₁.same hs.1)) fun created s₂ hs => ?_
    obtain ⟨hsame, created', he, hcreated⟩ := hs
    cases he
    have h₂ := h₁.same hsame
    have hpending₂ : s₂.1.package = some t := hsame.package.trans hpending₁
    cases created with
    | ok d =>
      have hd : d = drawnIds.deployment := hcreated d rfl
      subst hd
      exact keepsUnder_attempt_then (recordPreSnapshot_spec policy h₂ hpending₂ hfresh hinv)
        (fun e _ hs => hs) fun _ _ hs => hs
    | error e =>
      have hopen : t.phase.isTerminal = false := by
        rw [hphase]
        rfl
      exact keepsUnder_attempt_then (interruptAndArchive_spec h₂ hpending₂ hopen e hinv₀)
        (fun e s' hs => hgrow s' hs.1.1) fun _ s' hs => hgrow s' hs.1.1
  · refine change_spec h₁ hpending₁ hinv₀ (fun e now s' h' _ _ => hgrow s' h')
      fun t' now s₂ h₂ hpending₂ ht' => ?_
    obtain ⟨-, heq⟩ := PackageTransaction.skipPre_eq_ok ht'
    have hcontinues : Continues drawn drawn t t' := by
      subst heq
      exact ⟨rfl, fun _ hd => hd, fun d hd => .inl hd⟩
    exact keepsUnder_attempt_then (update_spec h₂ hpending₂ hcontinues hinv₀)
      (fun e s' hs => hgrow s' hs.1) fun _ s' hs => hgrow s' hs.1

end Hooks

section Runs

variable {ids : Uuid → Prop} {drawn : DeploymentId → Prop} {s : State}

/-- The identifiers used after a call. -/
def usedIds (ids : Uuid → Prop) (call : Call) (i : Uuid) : Prop :=
  ids i ∨ call.transactionId = some i

def usedDrawn (drawn : DeploymentId → Prop) (call : Call) (d : DeploymentId) : Prop :=
  drawn d ∨ d = call.deploymentId

theorem call_spec (call : Call) (h : Ledger ids drawn s)
    (hfreshId : ∀ i, call.transactionId = some i → ¬ ids i) (hfresh : ¬ drawn call.deploymentId) :
    KeepsUnder (logged perform) (Guard False) (Ledger (usedIds ids call) (usedDrawn drawn call))
      call.program (fun _ => Ledger (usedIds ids call) (usedDrawn drawn call)) s := by
  cases call with
  | before policy drawnIds =>
    have hids : ∀ i, (ids i ∨ i = drawnIds.transaction) → usedIds ids (.before policy drawnIds) i :=
      fun i hi => hi.imp_right fun he => congrArg some he.symm
    exact (beforePackages_spec policy drawnIds h (hfreshId _ rfl) hfresh
      fun _ hs => hs.mono hids fun _ hd => hd).mono fun _ _ hs => hs.mono hids fun _ hd => hd
  | after policy id =>
    exact (afterPackages_spec policy h hfresh fun _ hs => hs.mono (fun _ hi => .inl hi)
      fun _ hd => hd).mono fun _ _ hs => hs.1.mono (fun _ hi => .inl hi) fun _ hd => hd

theorem ledger_runIn (call : Call) (script : List Choice) (h : Ledger ids drawn s)
    (hfreshId : ∀ i, call.transactionId = some i → ¬ ids i) (hfresh : ¬ drawn call.deploymentId)
    (hmeets : Meets (logged perform) NotBefore call.program script s) :
    Ledger (usedIds ids call) (usedDrawn drawn call) (call.runIn script s) := by
  have hguard := hmeets.mono (fun _ _ _ hk => (⟨hk, False.elim⟩ : Guard False _ _ _))
  have hrun := (call_spec call h hfreshId hfresh).run_inv (fun _ _ hs => hs) script hguard
  exact hrun.same ⟨rfl, rfl, fun _ he _ _ => he⟩

/-- The store stays in order along calls that draw fresh identifiers. -/
theorem ledger_runCalls (calls : List (Call × List Choice)) (h : Ledger ids drawn s)
    (hids : (calls.filterMap fun call => call.1.transactionId).Nodup)
    (hdrawn : (calls.map fun call => call.1.deploymentId).Nodup)
    (hfreshIds : ∀ call ∈ calls, ∀ i, call.1.transactionId = some i → ¬ ids i)
    (hfresh : ∀ call ∈ calls, ¬ drawn call.1.deploymentId) (hmeets : CallsMeet calls s) :
    Ledger (fun i => ids i ∨ ∃ call ∈ calls, call.1.transactionId = some i)
      (fun d => drawn d ∨ ∃ call ∈ calls, d = call.1.deploymentId) (runCalls calls s) := by
  induction calls generalizing ids drawn s with
  | nil => exact h.mono (fun _ hi => .inl hi) fun _ hd => .inl hd
  | cons call calls ih =>
    obtain ⟨hfirst, hrest⟩ := hmeets
    have hcall := ledger_runIn call.1 call.2 h (hfreshIds call (List.mem_cons_self ..))
      (hfresh call (List.mem_cons_self ..)) hfirst
    rw [List.map_cons, List.nodup_cons] at hdrawn
    have hids' : (calls.filterMap fun call => call.1.transactionId).Nodup ∧
        ∀ other ∈ calls, ∀ i, other.1.transactionId = some i → call.1.transactionId ≠ some i := by
      cases hid : call.1.transactionId with
      | none =>
        simp only [List.filterMap_cons, hid] at hids
        exact ⟨hids, fun _ _ _ _ he => by cases he⟩
      | some i =>
        simp only [List.filterMap_cons, hid, List.nodup_cons] at hids
        refine ⟨hids.2, fun other hother i' hi' he => hids.1 ?_⟩
        cases he
        exact List.mem_filterMap.mpr ⟨other, hother, hi'⟩
    refine (ih hcall hids'.1 hdrawn.2 ?_ ?_ hrest).mono ?_ ?_
    · rintro other hother i hi (hused | hused)
      · exact hfreshIds other (List.mem_cons_of_mem _ hother) i hi hused
      · exact hids'.2 other hother i hi hused
    · rintro other hother (hused | hused)
      · exact hfresh other (List.mem_cons_of_mem _ hother) hused
      · exact hdrawn.1 (hused ▸ List.mem_map_of_mem hother)
    · rintro i ((hi | hi) | ⟨other, hother, hi⟩)
      · exact .inl hi
      · exact .inr ⟨call, List.mem_cons_self .., hi⟩
      · exact .inr ⟨other, List.mem_cons_of_mem _ hother, hi⟩
    · rintro d ((hd | hd) | ⟨other, hother, hd⟩)
      · exact .inl hd
      · exact .inr ⟨call, List.mem_cons_self .., hd⟩
      · exact .inr ⟨other, List.mem_cons_of_mem _ hother, hd⟩

theorem callsMeet_append {calls calls' : List (Call × List Choice)}
    (h : CallsMeet (calls ++ calls') s) :
    CallsMeet calls s ∧ CallsMeet calls' (runCalls calls s) := by
  induction calls generalizing s with
  | nil => exact ⟨trivial, h⟩
  | cons call calls ih =>
    obtain ⟨hfirst, hrest⟩ := h
    exact ⟨⟨hfirst, (ih hrest).1⟩, (ih hrest).2⟩

/-- The store before the calls is in order, with the identifiers that it uses. -/
theorem Initial.ledger {calls : List (Call × List Choice)} {w : World} (h : Initial calls w) :
    Ledger (fun i => ∃ t, Stored w t ∧ t.id = i) (fun d => ∃ t, Stored w t ∧ Records t d)
      (w, []) where
  accounted := h.accounted
  valid := h.valid
  transactions := fun t ht => ⟨t, ht, rfl⟩
  deployments := fun t _ ht hd => ⟨t, ht, hd⟩

theorem Initial.freshIds {calls : List (Call × List Choice)} {w : World} (h : Initial calls w) :
    ∀ call ∈ calls, ∀ i, call.1.transactionId = some i → ¬ ∃ t, Stored w t ∧ t.id = i := by
  rintro call hcall _ hi ⟨t, ht, rfl⟩
  exact h.freshTransactions call hcall t ht hi

theorem Initial.fresh {calls : List (Call × List Choice)} {w : World} (h : Initial calls w) :
    ∀ call ∈ calls, ¬ ∃ t, Stored w t ∧ Records t call.1.deploymentId := by
  rintro call hcall ⟨t, ht, hd⟩
  exact h.freshDeployments call hcall t ht hd

theorem Initial.prefix {calls calls' : List (Call × List Choice)} {w : World}
    (h : Initial (calls ++ calls') w) : Initial calls w where
  accounted := h.accounted
  valid := h.valid
  transactionIds := (List.filterMap_append .. ▸ h.transactionIds).of_append_left
  deploymentIds := (List.map_append .. ▸ h.deploymentIds).of_append_left
  freshTransactions := fun call hcall => h.freshTransactions call (List.mem_append_left _ hcall)
  freshDeployments := fun call hcall => h.freshDeployments call (List.mem_append_left _ hcall)

/-- Along any calls, each cut off anywhere, every transaction begun is accounted for. A last
call after the packages that returns and in which the store works leaves nothing pending
exactly when it found nothing, a transaction that waits for its post snapshot, or one that
is preparing while the policy asks for a post snapshot. -/
theorem package_hooks_settle {calls : List (Call × List Choice)} {w₀ : World}
    (h : Initial calls w₀) (hmeets : CallsMeet calls (w₀, [])) :
    Accounted (runCalls calls (w₀, [])) ∧
    ∀ earlier policy id script, calls = earlier ++ [(.after policy id, script)] →
      Meets (logged perform) StoreWorks (Call.after policy id).program script
        (runCalls earlier (w₀, [])) →
      ∀ r s', (Call.after policy id).program.run (logged perform) script
          (runCalls earlier (w₀, [])) = (some r, s') →
        (s'.1.package = none ↔ Settles policy (runCalls earlier (w₀, [])).1.package) := by
  refine ⟨(ledger_runCalls calls h.ledger h.transactionIds h.deploymentIds h.freshIds h.fresh
    hmeets).accounted, ?_⟩
  rintro earlier policy id script rfl hworks r s' hrun
  obtain ⟨hearlier, hlast, -⟩ := callsMeet_append hmeets
  have hbefore := h.prefix
  have hledger := ledger_runCalls earlier hbefore.ledger hbefore.transactionIds
    hbefore.deploymentIds hbefore.freshIds hbefore.fresh hearlier
  have hfresh : ¬ ((∃ t, Stored w₀ t ∧ Records t id) ∨
      ∃ call ∈ earlier, id = call.1.deploymentId) := by
    rintro (hused | ⟨call, hcall, he⟩)
    · exact h.fresh (.after policy id, script) (by simp) hused
    · have hids := h.deploymentIds
      rw [List.map_append, List.nodup_append] at hids
      exact hids.2.2 _ (List.mem_map_of_mem hcall) _ (List.mem_singleton_self _) he.symm
  have hguard := (hlast.and hworks).mono fun _ _ _ hk => (⟨hk.1, fun _ => hk.2⟩ : Guard True _ _ _)
  have hspec := (afterPackages_spec policy hledger hfresh fun _ _ => trivial).run script hguard
  replace hrun : (PackageHook.afterPackages policy id).run.run (logged perform) script
      (runCalls earlier (w₀, [])) = (some r, s') := hrun
  rw [hrun] at hspec
  exact hspec.2 trivial

end Runs

section Instance

open SnapshotDeletion (emptyStore)
open RollbackSafety (success)

instance : ∀ op k s, Decidable (NotBefore op k s)
  | .now, _, s => inferInstanceAs (Decidable (∀ t ∈ s.1.package, t.createdAt ≤ s.1.clock.now))
  | .disk _, _, _ => .isTrue trivial
  | .record _, _, _ => .isTrue trivial
  | .lineage _, _, _ => .isTrue trivial
  | .rollback _, _, _ => .isTrue trivial
  | .package _, _, _ => .isTrue trivial
  | .cleanup _, _, _ => .isTrue trivial
  | .boot _, _, _ => .isTrue trivial
  | .lock _, _, _ => .isTrue trivial

instance : ∀ op k s, Decidable (StoreWorks op k s)
  | .package _, k, _ => inferInstanceAs (Decidable (k.fault = none))
  | .now, _, _ => .isTrue trivial
  | .disk _, _, _ => .isTrue trivial
  | .record _, _, _ => .isTrue trivial
  | .lineage _, _, _ => .isTrue trivial
  | .rollback _, _, _ => .isTrue trivial
  | .cleanup _, _, _ => .isTrue trivial
  | .boot _, _, _ => .isTrue trivial
  | .lock _, _, _ => .isTrue trivial

instance decidableCallsMeet : (calls : List (Call × List Choice)) → (s : State) →
    Decidable (CallsMeet calls s)
  | [], _ => .isTrue trivial
  | (call, script) :: calls, s =>
    have := decidableCallsMeet calls (call.runIn script s)
    inferInstanceAs (Decidable (_ ∧ _))

/-- The hook before the packages, with a post snapshot only. -/
def begin (n : ℕ) : Call × List Choice :=
  (.before ⟨false, true⟩ ⟨.repeated 4, .repeated 5⟩, List.replicate n success)

theorem emptyStore_accounted : Accounted (emptyStore, []) where
  kept := fun _ he => by cases he
  once := fun _ ht => by cases ht
  history := fun _ _ ht => by cases ht
  snapshots := fun _ _ _ ht => by rcases ht with ht | ht <;> cases ht

theorem begin_initial (n : ℕ) (policy : AptSnapshotPolicy) (script : List Choice) :
    Initial [begin n, (.after policy (.repeated 6), script)] emptyStore where
  accounted := emptyStore_accounted
  valid := fun _ ht => by cases ht
  transactionIds := List.nodup_singleton _
  deploymentIds := by
    show [Uuid.repeated 5, Uuid.repeated 6].Nodup
    decide
  freshTransactions := fun _ _ _ ht => by rcases ht with ht | ht <;> cases ht
  freshDeployments := fun _ _ _ ht => by rcases ht with ht | ht <;> cases ht

/-- A hook after the packages that finds a waiting transaction leaves nothing pending. -/
theorem package_hooks_settle_once :
    ((Call.after ⟨true, false⟩ (.repeated 6)).program.run (logged perform)
      (List.replicate 4 success) (runCalls [begin 9] (emptyStore, []))).2.1.package = none := by
  have hreturns : ((Call.after ⟨true, false⟩ (.repeated 6)).program.run (logged perform)
      (List.replicate 4 success) (runCalls [begin 9] (emptyStore, []))).1.isSome = true := by
    decide +kernel
  obtain ⟨r, hr⟩ := Option.isSome_iff_exists.mp hreturns
  have hphase : (runCalls [begin 9] (emptyStore, [])).1.package.map PackageTransaction.phase =
      some .awaitingPost := by
    decide +kernel
  refine ((package_hooks_settle (begin_initial 9 ⟨true, false⟩ (List.replicate 4 success))
    (by decide +kernel)).2 [begin 9] ⟨true, false⟩ (.repeated 6) _ rfl (by decide +kernel) r _
    (Prod.ext hr rfl)).mpr fun t ht => .inl ?_
  rw [Option.mem_def.mp ht] at hphase
  exact Option.some.inj hphase

/-- The hook before the packages is killed when it has begun a transaction; then the policy
asks for no post snapshot, and the hook after the packages returns without an error. -/
theorem killed_hook_stays_pending :
    CallsMeet [begin 7, (.after ⟨true, false⟩ (.repeated 6), [success])] (emptyStore, []) ∧
    Meets (logged perform) StoreWorks (Call.after ⟨true, false⟩ (.repeated 6)).program [success]
      (runCalls [begin 7] (emptyStore, [])) ∧
    ((Call.after ⟨true, false⟩ (.repeated 6)).program.run (logged perform) [success]
      (runCalls [begin 7] (emptyStore, []))).1.any (fun r => r.isOk) = true ∧
    ((Call.after ⟨true, false⟩ (.repeated 6)).program.run (logged perform) [success]
      (runCalls [begin 7] (emptyStore, []))).2.1.package.isSome = true := by
  decide +kernel

end Instance

end PackageSettlement

end RecoveryEngine
