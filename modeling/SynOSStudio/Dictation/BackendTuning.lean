import SynOSStudio.KeyedLists.FirstOccurrences
import Mathlib.Algebra.Order.Ring.Rat
import Mathlib.Data.NNRat.Floor
import Mathlib.Tactic

/-!
# Tuning the backend

Each candidate is probed with one cold request and two warm ones for every condition. A probe
stops where it has failed already; the run chooses among those that did not. A run that is
cancelled chooses nothing and is left out.
-/

namespace Dictation.Tuning

abbrev Text := List Char

/-- The text of a backend is in the order of its constructors. -/
inductive Backend
  | cpu | gpu
  deriving DecidableEq

/-- What a request comes to: the time it takes, the time that passes beside it, and the text with
the backend of the metrics, unless it raises a `RecognitionError`. -/
structure Reply where
  seconds : ℚ≥0
  overhead : ℚ≥0
  result : Option (Text × Option Backend)

structure Probe where
  backend : Backend
  threads : ℕ
  deriving DecidableEq

def candidates (cpuCount : ℕ) : List Probe :=
  let count := max 1 cpuCount
  let initial := min count 4
  let alternatives := KeyedLists.join [] [min count 8, min count 2]
  [⟨.cpu, initial⟩, ⟨.gpu, initial⟩] ++
    ((alternatives.filter (· ≠ initial)).map fun n => ⟨.cpu, n⟩)

/-- `statistics.median` -/
def median (times : List ℚ≥0) : ℚ≥0 :=
  let sorted := times.insertionSort (· ≤ ·)
  let half := sorted.length / 2
  if sorted.length % 2 = 1 then sorted.getD half 0
  else (sorted.getD (half - 1) 0 + sorted.getD half 0) / 2

structure Entry where
  score : ℚ≥0
  backend : Backend
  threads : ℕ
  deriving DecidableEq

/-- The order of the tuples. -/
def Entry.before (e f : Entry) : Bool :=
  e.score < f.score || e.score = f.score &&
    (e.backend = .cpu && f.backend = .gpu || e.backend = f.backend && e.threads < f.threads)

/-- `min` of the entries -/
def least : List Entry → Option Entry
  | [] => none
  | e :: es => some (es.foldl (fun best e => if e.before best then e else best) e)

def choose (scored : List Entry) : Option (Backend × ℕ) :=
  (least scored).map fun best =>
    match least (scored.filter (·.backend = .cpu)) with
    | some cpu =>
      if best.backend = .gpu ∧ cpu.score * (9 / 10) < best.score then (cpu.backend, cpu.threads)
      else (best.backend, best.threads)
    | none => (best.backend, best.threads)

/-- `outputs[::2]` -/
def firsts {β : Type} : List β → List β
  | [] => []
  | [b] => [b]
  | b :: _ :: rest => b :: firsts rest

/-- The outputs of repeated requests are equal. -/
def repeated {β : Type} [DecidableEq β] : List β → Bool
  | b :: b' :: rest => b = b' && repeated rest
  | _ => true

/-- What the probes leave for each other. -/
structure Findings where
  baseline : Option (List Text)
  scored : List Entry
  fastestClean : Option ℚ≥0

/-- The lists that a probe builds, and the clock. -/
structure Progress where
  outputs : List Text
  warm : List ℚ≥0
  actualBackends : List (Option Backend)
  now : ℚ≥0

section Run

variable {Audio : Type} (normalized : Text → Text) (noisy : Audio → Audio)
  (engine : Probe → ℕ → Audio → Reply)

def deadline : ℚ≥0 := 60

def conditions (samples : List Audio) : List Audio :=
  samples.flatMap fun sample => [sample, noisy sample]

/-- One cold request, then every condition twice. -/
def requestSequence (pcm : Audio) (additional : List Audio) : List Audio :=
  pcm :: (conditions noisy (pcm :: additional)).flatMap fun audio => [audio, audio]

/-- The exits of a candidate that has failed already. -/
def hasFailed (backend : Backend) (baseline : Option (List Text)) (iteration : ℕ)
    (s : Progress) : Bool :=
  s.actualBackends.getLast? ≠ some (some backend) || s.outputs.getLast? = some [] ||
    iteration ≠ 0 && baseline.any (fun signature =>
      s.outputs.getLast? ≠ signature[(iteration - 1) / 2]?) ||
    iteration = 1 && s.outputs[0]? ≠ s.outputs[1]? ||
    2 ≤ iteration && iteration % 2 = 0 &&
      s.outputs.getLast? ≠ s.outputs[s.outputs.length - 2]?

/-- The exit of a candidate that is much slower than another one. -/
def isSlow (fastestClean : Option ℚ≥0) (iteration : ℕ) (s : Progress) : Bool :=
  iteration = 2 && fastestClean.any fun fastest => fastest * (3 / 2) < median s.warm

def Progress.add (s : Progress) (iteration : ℕ) (reply : Reply) (text : Text)
    (backend : Option Backend) : Progress where
  outputs := s.outputs ++ [normalized text]
  warm := if iteration = 0 then s.warm else s.warm ++ [reply.seconds * 1000]
  actualBackends := s.actualBackends ++ [backend]
  now := s.now + reply.seconds + reply.overhead

/-- The requests of a probe. With `eager` it makes use of all exits, without it only of the one
for slow candidates. An error leaves nothing but the time. -/
def requests (eager : Bool) (p : Probe) (t : Findings) :
    ℕ → List Audio → Progress → Except ℚ≥0 Progress
  | _, [], s => .ok s
  | iteration, audio :: rest, s =>
    if deadline ≤ s.now then .error s.now
    else
      let reply := engine p iteration audio
      match reply.result with
      | none => .error (s.now + reply.seconds + reply.overhead)
      | some (text, backend) =>
        let s := s.add normalized iteration reply text backend
        if eager && hasFailed p.backend t.baseline iteration s || isSlow t.fastestClean iteration s
        then .ok s
        else requests eager p t (iteration + 1) rest s

/-- The checks of a whole sequence. -/
def passes (backend : Backend) (s : Progress) : Bool :=
  !(s.actualBackends.any (· ≠ some backend)) && s.outputs.all (· ≠ []) &&
    s.outputs[0]? = s.outputs[1]? && repeated s.outputs.tail

/-- The verdict on a sequence that passes the checks. -/
def Findings.score (t : Findings) (p : Probe) (s : Progress) : Findings :=
  let signature := firsts s.outputs.tail
  if t.baseline = none ∧ p.backend ≠ .cpu then t
  else
    let t := { t with baseline := some (t.baseline.getD signature) }
    if some signature ≠ t.baseline then t
    else
      let score := median s.warm
      if 0 < score then
        let cleanScore := median (s.warm.take 2)
        { t with
          scored := t.scored ++ [⟨score, p.backend, p.threads⟩]
          fastestClean := some ((t.fastestClean.map fun f => min f cleanScore).getD cleanScore) }
      else t

def Findings.judge (t : Findings) (p : Probe) (length : ℕ) (s : Progress) : Findings :=
  if s.outputs.length ≠ length then t
  else if ¬ passes p.backend s then t
  else t.score p s

/-- A probe, and the time at its end. -/
def probe (eager : Bool) (audios : List Audio) (t : Findings) (now : ℚ≥0) (p : Probe) :
    Findings × ℚ≥0 :=
  match requests normalized engine eager p t 0 audios ⟨[], [], [], now⟩ with
  | .error now => (t, now)
  | .ok s => (t.judge p audios.length s, s.now)

def tune (eager : Bool) (audios : List Audio) : List Probe → Findings → ℚ≥0 → Findings
  | [], t, _ => t
  | p :: ps, t, now =>
    if deadline ≤ now then t
    else
      let (t, now) := probe normalized engine eager audios t now p
      tune eager audios ps t now

/-- The probes of a run. -/
def probesOf (threads cpuCount : ℕ) : List Probe :=
  if threads ≠ 0 then [⟨.cpu, threads⟩, ⟨.gpu, threads⟩] else candidates cpuCount

def findings (eager : Bool) (pcm : Audio) (additional : List Audio) (threads cpuCount : ℕ) :
    Findings :=
  tune normalized engine eager (requestSequence noisy pcm additional)
    (probesOf threads cpuCount) ⟨none, [], none⟩ 0

/-- `BackendTuner.run`; none is a `RecognitionError`. -/
def run (eager : Bool) (pcm : Audio) (additional : List Audio) (threads cpuCount : ℕ) :
    Option (Backend × ℕ) :=
  choose (findings normalized noisy engine eager pcm additional threads cpuCount).scored

end Run

end Dictation.Tuning
