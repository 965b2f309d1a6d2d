import SynOSStudio.BashGuess.World

/-!
# The switch of an application profile

A profile is switched on and off by calls of `ufw` for its ports, and the switch is read from the
rules. The lower case of the standard library is a parameter.
-/

namespace Ufwall

open BashGuess (Text trim)

inductive Action
  | allow | deny | reject | limit
  deriving DecidableEq

inductive Direction
  | inbound | outbound
  deriving DecidableEq

structure UfwRule where
  number : ℕ
  port : Text
  action : Action
  direction : Direction
  source : Text
  destination : Text
  v6 : Bool
  deriving DecidableEq

structure AppProfile where
  name : Text
  title : Text
  description : Text
  ports : Text

structure UfwError where
  message : Text

def anywhere : Text := "Anywhere".toList

/-! ## Calls of ufw -/

/-- The arguments of the calls. -/
inductive Command
  | allow (spec : Text)
  | deleteAllow (spec : Text)

/-- The firewall, and what the calls to come answer. -/
structure Ufw where
  rules : List UfwRule
  answers : ℕ → Except UfwError Text

/-- The rule that `ufw allow` adds. -/
def allowRule (number : ℕ) (spec : Text) : UfwRule where
  number := number
  port := spec
  action := .allow
  direction := .inbound
  source := anywhere
  destination := anywhere
  v6 := false

/-- What `ufw delete allow` deletes. -/
def IsAllowRule (spec : Text) (rule : UfwRule) : Prop :=
  rule.port = spec ∧ rule.action = .allow ∧ rule.direction = .inbound ∧ rule.source = anywhere ∧
    rule.destination = anywhere

instance (spec : Text) : DecidablePred (IsAllowRule spec) := fun _ => instDecidableAnd

/-- What a call does when it succeeds. -/
def Command.apply (rules : List UfwRule) : Command → List UfwRule
  | .allow spec => rules ++ [allowRule (rules.length + 1) spec]
  | .deleteAllow spec => rules.filter fun rule => ¬ IsAllowRule spec rule

def runPkexecUfw (command : Command) (u : Ufw) : Except UfwError Text × Ufw :=
  let answers := fun n => u.answers (n + 1)
  match u.answers 0 with
  | .ok out => (.ok out, ⟨command.apply u.rules, answers⟩)
  | .error error => (.error error, ⟨u.rules, answers⟩)

/-! ## The backend -/

def portList (ports : Text) : List Text :=
  ((ports.splitOn '|').map trim).filter (· ≠ [])

def noPorts : UfwError := ⟨"No ports defined for this profile".toList⟩

/-- The loop of `allow_app`, which stops at the first error. -/
def allowPorts (lastResult : Except UfwError Text) : List Text → Ufw → Except UfwError Text × Ufw
  | [], u => (lastResult, u)
  | spec :: rest, u =>
    match runPkexecUfw (.allow spec) u with
    | (.ok out, u) => allowPorts (.ok out) rest u
    | (.error error, u) => (.error error, u)

def allowApp (ports : Text) (u : Ufw) : Except UfwError Text × Ufw :=
  if portList ports = [] then (.error noPorts, u) else allowPorts (.ok []) (portList ports) u

/-- The loop of `delete_app`, which goes on. -/
def deletePorts (lastResult : Except UfwError Text) : List Text → Ufw → Except UfwError Text × Ufw
  | [], u => (lastResult, u)
  | spec :: rest, u =>
    let (result, u) := runPkexecUfw (.deleteAllow spec) u
    deletePorts result rest u

def deleteApp (ports : Text) (u : Ufw) : Except UfwError Text × Ufw :=
  if portList ports = [] then (.error noPorts, u) else deletePorts (.ok []) (portList ports) u

def parseProfilePorts (ports : Text) : List Text :=
  ((ports.splitOnP fun c => c = '|' || c = ',').map trim).filter (· ≠ [])

/-- `split('/').next()` -/
def beforeSlash (text : Text) : Text :=
  text.takeWhile (· ≠ '/')

section Matching

variable (toLowercase : Text → Text)

def portsMatch (rulePort profilePort : Text) : Bool :=
  let rp := toLowercase rulePort
  let pp := toLowercase profilePort
  if rp = pp then true
  else if '/' ∉ pp then beforeSlash rp = pp
  else if '/' ∉ rp then rp = beforeSlash pp
  else false

def isAppAllowed (rules : List UfwRule) (profile : AppProfile) : Bool :=
  let profilePorts := parseProfilePorts profile.ports
  if profilePorts = [] then
    rules.any fun r => toLowercase r.port = toLowercase profile.name && r.action = .allow
  else
    rules.any fun r => r.action = .allow && profilePorts.any (portsMatch toLowercase r.port)

end Matching

end Ufwall
