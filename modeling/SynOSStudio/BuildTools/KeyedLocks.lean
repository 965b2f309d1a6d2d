import Mathlib.Data.Finset.Sort
import Mathlib.Data.List.Lex
import Mathlib.Data.String.Basic
import SynOSStudio.InterruptiblePrograms.Interleaving
import SynOSStudio.LockOrders.Holders

/-!
# Locks of concurrent package builds

The workers of a package build as programs over a shared table of keyed locks: the lookup of a
lock under the guard of the table, the locks that `prebuild.sh` runs under, and those of the index
and of the package that a fork downloads. All other work of a build is an operation whose answer
the environment decides.
-/

namespace BuildTools.KeyedLocks

open InterruptiblePrograms LockOrders

/-- A key, the strings of its tuple. -/
abbrev Key := List String

inductive Lock where
  | guard
  | print
  | keyed (number : ℕ)
  deriving DecidableEq, Repr

inductive Failure where
  | packageError (text : String)
  | skipPackage (text : String)
  | raised (text : String)
  deriving DecidableEq, Repr

/-- What a build reads from the disk or runs. -/
inductive Work where
  | fingerprint
  | checkControl
  | stageRecipe
  | forkSpec
  | fetchIndex (index : String)
  | readIndex (index : String)
  | fetchDeb (deb : String)
  | unpack (deb : String)
  | unpackScripts (deb : String)
  | note (path : String)
  | assemble
  | writeStamp
  deriving DecidableEq, Repr

inductive BuildOp where
  | request (lock : Lock)
  | acquire (lock : Lock)
  | release (lock : Lock)
  | find (key : Key)
  | insert (key : Key)
  | isFile (path : String)
  | reusable
  | work (work : Work)
  | prebuild

abbrev BuildOp.Ans : BuildOp → Type
  | .find _ => Option ℕ
  | .insert _ => ℕ
  | .isFile _ | .reusable => Bool
  | .work _ => Except Failure String
  | .prebuild => Except Failure (ℤ × String)
  | _ => Unit

/-- What the environment decides about an operation. -/
structure Answer where
  yes : Bool
  outcome : Except Failure String
  exit : Except Failure (ℤ × String)

/-- The holders of all locks, and the keys in the order in which their locks were made: the lock
numbered `n` was made for the key at position `n`, and the newest lock of a key is in the table. -/
structure Shared (ι : Type) where
  holders : Holders ι Lock
  table : List Key

namespace Shared

variable {ι : Type}

/-- `_KEYED_LOCKS.get` -/
def lockOf (table : List Key) (key : Key) : Option ℕ :=
  (List.range table.length).reverse.find? fun n => table[n]? = some key

variable [DecidableEq ι]

def handle (i : ι) (op : BuildOp) (k : Answer) (s : Shared ι) : op.Ans × Shared ι :=
  match op with
  | .request lock => ((), { s with holders := s.holders.request i lock })
  | .acquire lock => ((), { s with holders := s.holders.acquire i lock })
  | .release lock => ((), { s with holders := s.holders.release i lock })
  | .find key => (lockOf s.table key, s)
  | .insert key => (s.table.length, { s with table := s.table ++ [key] })
  | .isFile _ => (k.yes, s)
  | .reusable => (k.yes, s)
  | .work _ => (k.outcome, s)
  | .prebuild => (k.exit, s)

/-- A lock can be taken when nobody holds it. -/
def enabled : BuildOp → Answer → Shared ι → Prop
  | .acquire lock, _, s => s.holders.Free lock
  | _, _, _ => True

def machine : Machine ι BuildOp BuildOp.Ans Answer (Shared ι) where
  handle := handle
  enabled := enabled

end Shared

/-! ## Programs of the workers -/

abbrev Build (α : Type) := Attempt BuildOp BuildOp.Ans Failure α

section Programs

variable {α : Type}

/-- A recipe, as far as the locks depend on it. -/
structure Recipe where
  name : String
  source_cache_keys : Finset Key
  has_prebuild : Bool
  fork : Option String
  suppress_scripts : Bool

def perform (work : Work) : Build String := Attempt.call (.work work) id

/-- `with lock:` -/
def withLock (lock : Lock) (body : Build α) : Build α := do
  Attempt.call (.request lock) .ok
  Attempt.call (.acquire lock) .ok
  let result ← Attempt.outcome body
  Attempt.call (.release lock) .ok
  Attempt.ofExcept result

/-- The locks of an `ExitStack`, given back in the opposite order. -/
def withLocks : List Lock → Build α → Build α
  | [], body => body
  | lock :: locks, body => withLock lock (withLocks locks body)

/-- The lock that is in the table already, or else a new one. -/
def foundOrMade (key : Key) : Option ℕ → Build Lock
  | some number => pure (.keyed number)
  | none => do
    let number ← Attempt.call (.insert key) .ok
    pure (.keyed number)

def lockFor (key : Key) : Build Lock :=
  withLock .guard do
    foundOrMade key (← Attempt.call (.find key) .ok)

def forEach (action : String → Build Unit) : List String → Build Unit
  | [] => pure ()
  | text :: texts => do
    action text
    forEach action texts

def locksFor : List Key → Build (List Lock)
  | [] => pure []
  | key :: keys => do
    let lock ← lockFor key
    let locks ← locksFor keys
    pure (lock :: locks)

/-- The paths of the keys that no known pattern covers. -/
def unknownPaths (keys : List Key) : List String :=
  keys.filterMap fun key =>
    match key with
    | "unknown-path" :: path :: _ => some path
    | _ => none

/-- The notes about unknown paths, printed under the print lock. -/
def noteUnknown (paths : List String) : Build Unit :=
  if paths = [] then
    pure ()
  else
    withLock .print (forEach (fun path => do let _ ← perform (.note path)) paths)

/-- What `prebuild.sh` returned. -/
def judge : ℤ × String → Build Unit
  | (returncode, tail) =>
    if returncode = 0 then pure () else throw (.skipPackage ("prebuild.sh failed: " ++ tail))

/-- `prebuild.sh`, under the locks of these keys. -/
def prebuildUnder (keys : List Key) : Build (ℤ × String) := do
  let locks ← locksFor keys
  withLocks locks (Attempt.call .prebuild id)

def runPrebuild (skip : Bool) (recipe : Recipe) : Build Unit :=
  if recipe.has_prebuild then
    if skip then
      throw (.skipPackage "SYNOS_SKIP_PREBUILD is set")
    else do
      let keys := recipe.source_cache_keys.sort (· ≤ ·)
      noteUnknown (unknownPaths keys)
      let result ← prebuildUnder (keys.map fun key => "source-cache" :: key)
      judge result
  else
    pure ()

/-- Download what is not there. -/
def fetchMissing (path : String) (fetch : Work) : Build Unit := do
  if ← Attempt.call (.isFile path) .ok then
    pure ()
  else do
    let _ ← perform fetch
    pure ()

/-- Download what is not there, and look once more under the lock of its key. -/
def fetchOnce (key : Key) (path : String) (fetch : Work) : Build Unit := do
  if ← Attempt.call (.isFile path) .ok then
    pure ()
  else do
    let lock ← lockFor key
    withLock lock (fetchMissing path fetch)

def unpackFork (suppress_scripts : Bool) (deb : String) : Build Unit := do
  let _ ← perform (.unpack deb)
  if suppress_scripts then
    pure ()
  else do
    let _ ← perform (.unpackScripts deb)
    pure ()

def fetchFork (skip : Bool) (index : String) (suppress_scripts : Bool) : Build Unit := do
  let _ ← perform .forkSpec
  if skip then
    throw (.skipPackage "SYNOS_SKIP_PREBUILD is set (forks need network)")
  else do
    fetchOnce ["fork-index", index] index (.fetchIndex index)
    let deb ← perform (.readIndex index)
    fetchOnce ["fork-deb", deb] deb (.fetchDeb deb)
    unpackFork suppress_scripts deb

def fetchForkOf (skip : Bool) (recipe : Recipe) : Build Unit :=
  match recipe.fork with
  | some index => fetchFork skip index recipe.suppress_scripts
  | none => pure ()

def buildPackage (skip : Bool) (recipe : Recipe) : Build Unit := do
  let _ ← perform .checkControl
  let _ ← perform .stageRecipe
  fetchForkOf skip recipe
  runPrebuild skip recipe
  let _ ← perform .assemble
  pure ()

def buildSource (skip : Bool) (recipe : Recipe) : Build Unit := do
  let _ ← perform .fingerprint
  if ← Attempt.call .reusable .ok then
    pure ()
  else do
    buildPackage skip recipe
    let _ ← perform .writeStamp
    pure ()

/-- A worker builds what it is given, one recipe after another, whatever each build ends with. -/
def worker (skip : Bool) : List Recipe → Prog BuildOp BuildOp.Ans Unit
  | [] => pure ()
  | recipe :: recipes => do
    let _ ← (buildSource skip recipe).run
    worker skip recipes

/-- Workers before any of them has taken a step. -/
def start {ι : Type} (skip : Bool) (queues : ι → List Recipe) :
    Config ι BuildOp BuildOp.Ans Unit (Shared ι) where
  threads i := worker skip (queues i)
  state := ⟨.none, []⟩

end Programs

end BuildTools.KeyedLocks
