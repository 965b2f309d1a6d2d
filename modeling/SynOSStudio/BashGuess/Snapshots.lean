import SynOSStudio.BashGuess.World

/-!
# Snapshots and their refreshes

An observed command invalidates snapshots and starts refreshes; two workers take them from
a bounded queue, run their programs and install what they found. An entity bears the
earliest moment at which it can have been collected, which the code does not keep.
-/

namespace BashGuess

inductive Domain where
  | docker | apt | process | service | git | host | file | artifact
  deriving DecidableEq

structure Entity where
  name : Text
  collectedAt : ℕ
  deriving DecidableEq

/-- A snapshot of `WorldState`; only those of git and of the files have a directory. -/
structure Snapshot where
  generation : ℕ
  refreshedAtMs : ℕ
  cwd : String
  entities : List Entity
  deriving DecidableEq

/-- What a background job carries to its snapshot. -/
structure Refresh where
  domain : Domain
  generation : ℕ
  cwd : String
  deriving DecidableEq

/-- A job of the background queue; the others are the records of the history and the scan of
the command names. -/
inductive Job where
  | refresh (r : Refresh)
  | other
  deriving DecidableEq

inductive Worker where
  | idle
  | started (job : Job) (since : ℕ)
  | collected (r : Refresh) (entities : List Entity)
  deriving DecidableEq

section Observing

def Snapshot.bumped (nowMs : ℕ) (s : Snapshot) : Snapshot :=
  { s with generation := s.generation + 1, refreshedAtMs := nowMs }

/-- The entities go with the generation. -/
def Snapshot.cleared (nowMs : ℕ) (s : Snapshot) : Snapshot :=
  { s.bumped nowMs with entities := [] }

def Snapshot.clearedIn (cwd : String) (nowMs : ℕ) (s : Snapshot) : Snapshot :=
  { s.cleared nowMs with cwd := cwd }

/-- A snapshot is updated, and a refresh for its new generation started, under a condition. -/
def refreshWhen (domain : Domain) (cwd : String) (due : Bool) (update : Snapshot → Snapshot)
    (s : Snapshot) : Snapshot × Option Refresh :=
  if due then (update s, some ⟨domain, (update s).generation, cwd⟩) else (s, none)

def isDockerList : Option Action → Bool
  | some (.dockerList _) => true
  | _ => false

def isAptChange : Option Action → Bool
  | some (.aptUpdate _) | some .aptMutation => true
  | _ => false

def isGitAction : Option Action → Bool
  | some .gitMutation | some .gitStage | some .gitCommit => true
  | _ => false

def actionProducesArtifact : Option Action → Bool
  | some (.sshKeygen _) | some (.makeDirectory _) | some (.gitClone _) | some (.pythonVenv _) => true
  | _ => false

variable (action : Option Action) (o : Observation)

/-- A listing that failed invalidates too, but starts no refresh. -/
def observeDocker (s : Snapshot) : Snapshot × Option Refresh :=
  if isDockerList action then
    (s.cleared o.atMs,
      if o.exitCode = 0 then some ⟨.docker, (s.cleared o.atMs).generation, ""⟩ else none)
  else (s, none)

def observeApt (s : Snapshot) : Snapshot × Option Refresh :=
  refreshWhen .apt "" (o.exitCode == 0 && isAptChange action) (Snapshot.cleared o.atMs) s

/-- The processes stay when their generation goes. -/
def observeProcess (s : Snapshot) : Snapshot × Option Refresh :=
  refreshWhen .process "" (action == some .processList && o.exitCode == 0)
    (Snapshot.bumped o.atMs) s

/-- The services stay when their generation goes. -/
def observeService (s : Snapshot) : Snapshot × Option Refresh :=
  refreshWhen .service "" (action == some .serviceList && o.exitCode == 0)
    (Snapshot.bumped o.atMs) s

def observeGit (s : Snapshot) : Snapshot × Option Refresh :=
  refreshWhen .git o.cwd
    (o.exitCode == 0 && isGitAction action &&
      (s.cwd != o.cwd || action == some .gitMutation || 120000 < o.atMs - s.refreshedAtMs))
    (Snapshot.clearedIn o.cwd o.atMs) s

def observeHost (s : Snapshot) : Snapshot × Option Refresh :=
  refreshWhen .host "" (300000 < o.atMs - s.refreshedAtMs) (Snapshot.cleared o.atMs) s

def observeFile (s : Snapshot) : Snapshot × Option Refresh :=
  refreshWhen .file o.cwd
    (s.cwd != o.cwd || 120000 < o.atMs - s.refreshedAtMs || actionProducesArtifact action)
    (Snapshot.clearedIn o.cwd o.atMs) s

def observeArtifact (s : Snapshot) : Snapshot × Option Refresh :=
  refreshWhen .artifact o.cwd (o.exitCode == 0 && actionProducesArtifact action)
    (Snapshot.cleared o.atMs) s

def observeSnapshot : Domain → Snapshot → Snapshot × Option Refresh
  | .docker => observeDocker action o
  | .apt => observeApt action o
  | .process => observeProcess action o
  | .service => observeService action o
  | .git => observeGit action o
  | .host => observeHost o
  | .file => observeFile action o
  | .artifact => observeArtifact action o

end Observing

/-- The state of the helper with its background workers. What a request submits waits in the
outbox; the next request is read when it is empty. -/
structure Engine where
  learned : Learned
  snapshots : Domain → Snapshot
  outbox : List Job
  queue : List Job
  workers : Fin 2 → Worker
  clock : ℕ

/-- What does not change while the helper runs. -/
structure Config where
  historyEnabled : Bool
  historyPath : Bool
  transitionPath : Bool

section Stepping

def BACKGROUND_QUEUE_CAPACITY : ℕ := 16

inductive Step where
  | observe (o : Observation) (resolves : Domain → Bool)
  | query (nowMs : ℕ) (line : Text)
  | submit
  | take (worker : Fin 2)
  | finish (worker : Fin 2) (output : Option (List Text))
  | install (worker : Fin 2) (nowMs : ℕ)

def domains : List Domain :=
  [.docker, .apt, .process, .service, .git, .host, .file, .artifact]

/-- Refreshes whose program is looked up before they are submitted. -/
def resolvesFirst (domain : Domain) : Bool :=
  domain ∈ [.apt, .process, .service, .git]

def learnedJobs (config : Config)
    (learned : Option (HistoryEntry × Option TransitionEntry)) : List Job :=
  (if config.historyPath && learned.isSome then [.other] else []) ++
    if config.transitionPath && (learned.bind Prod.snd).isSome then [.other] else []

def refreshJobs (snapshots : Domain → Snapshot × Option Refresh) (resolves : Domain → Bool) :
    List Job :=
  domains.filterMap fun domain =>
    if resolvesFirst domain && !resolves domain then none
    else (snapshots domain).2.map .refresh

def observeWorld (config : Config) (o : Observation) (learned : Learned) :
    Option (HistoryEntry × Option TransitionEntry) × Learned :=
  if config.historyEnabled then observeCommandWithCwd o learned
  else (none, observeCommandWithoutLearning o learned)

def Engine.observe (config : Config) (e : Engine) (o : Observation) (resolves : Domain → Bool) :
    Engine :=
  let world := observeWorld config o e.learned
  let action := world.2.lastEvent.map CommandEvent.action
  let observed := fun domain => observeSnapshot action o domain (e.snapshots domain)
  { e with
    learned := world.2
    snapshots := fun domain => (observed domain).1
    outbox := learnedJobs config world.1 ++ refreshJobs observed resolves }

/-- The check of a refresh before it installs its result. -/
def Engine.accepts (e : Engine) (r : Refresh) : Bool :=
  let s := e.snapshots r.domain
  s.generation == r.generation &&
    ((r.domain != .git && r.domain != .file) || s.cwd == r.cwd)

def Engine.install (e : Engine) (r : Refresh) (entities : List Entity) (nowMs : ℕ) : Engine :=
  if e.accepts r then
    { e with
      snapshots := Function.update e.snapshots r.domain
        { e.snapshots r.domain with entities := entities, refreshedAtMs := nowMs } }
  else e

def Engine.setWorker (e : Engine) (worker : Fin 2) (w : Worker) : Engine :=
  { e with workers := Function.update e.workers worker w }

/-- A job that is over: what its program printed, or nothing when it failed. -/
def finishedWorker (since : ℕ) : Job → Option (List Text) → Worker
  | .refresh r, some names => .collected r (names.map fun name => ⟨name, since⟩)
  | _, _ => .idle

def Engine.act (config : Config) (e : Engine) : Step → Option Engine
  | .observe o resolves => if e.outbox = [] then some (e.observe config o resolves) else none
  | .query _ _ => if e.outbox = [] then some e else none
  | .submit =>
    match e.outbox with
    | [] => none
    | job :: rest => some { e with
        outbox := rest
        queue := if e.queue.length < BACKGROUND_QUEUE_CAPACITY then e.queue ++ [job] else e.queue }
  | .take worker =>
    match e.workers worker, e.queue with
    | .idle, job :: rest =>
      some ({ e with queue := rest }.setWorker worker (.started job e.clock))
    | _, _ => none
  | .finish worker output =>
    match e.workers worker with
    | .started job since => some (e.setWorker worker (finishedWorker since job output))
    | _ => none
  | .install worker nowMs =>
    match e.workers worker with
    | .collected r entities => some ((e.install r entities nowMs).setWorker worker .idle)
    | _ => none

def Engine.step (config : Config) (e : Engine) (step : Step) : Option Engine :=
  (e.act config step).map fun e => { e with clock := e.clock + 1 }

def Engine.run (config : Config) : List Step → Engine → Option Engine
  | [], e => some e
  | step :: rest, e => (e.step config step).bind (Engine.run config rest)

end Stepping

section Starting

/-- The snapshots after `prewarm_local_entities`. -/
def prewarmed (cwd : String) (attemptedAtMs : ℕ) : Domain → Snapshot
  | .git => ⟨0, 0, cwd, []⟩
  | .host => ⟨0, attemptedAtMs, "", []⟩
  | .file => ⟨0, attemptedAtMs, cwd, []⟩
  | _ => ⟨0, 0, "", []⟩

def Engine.start (learned : Learned) (cwd : String) (attemptedAtMs : ℕ) (aptResolves : Bool) :
    Engine where
  learned := { learned with lastEvent := none, currentCwd := cwd }
  snapshots := prewarmed cwd attemptedAtMs
  outbox := [.refresh ⟨.host, 0, ""⟩, .other, .refresh ⟨.file, 0, cwd⟩] ++
    if aptResolves then [.refresh ⟨.apt, 0, ""⟩] else []
  queue := []
  workers := fun _ => .idle
  clock := 0

end Starting

section Queries

/-- How long a query shows the entities of a snapshot. -/
def ttlMs : Domain → Option ℕ
  | .docker | .process => some 30000
  | .service => some 60000
  | .git | .file => some 120000
  | .host => some 300000
  | .artifact => some 600000
  | .apt => none

/-- The entities of a domain that a query can offer. -/
def Engine.shown (e : Engine) (domain : Domain) (nowMs : ℕ) : List Entity :=
  let s := e.snapshots domain
  if (ttlMs domain).any (fun ttl => ttl < nowMs - s.refreshedAtMs) ||
      (domain == .file && s.cwd != e.learned.currentCwd) then []
  else s.entities

end Queries

end BashGuess
