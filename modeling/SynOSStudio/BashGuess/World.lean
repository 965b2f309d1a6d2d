import SynOSStudio.BashGuess.Shell

/-!
# What the command helper learns from a finished command

An observed line becomes the last event and, when it succeeded and the filter lets it
pass, an entry of the history and the second half of a transition.
-/

namespace BashGuess

inductive Action where
  | aptUpdate (command : String)
  | aptMutation
  | dockerList (elevated : Bool)
  | dockerBuild (image : Option String)
  | processList
  | serviceList
  | systemctlOperation (verb unit : String)
  | sshKeygen (privateKey : Option String)
  | makeDirectory (paths : List String)
  | gitClone (destination : String)
  | pythonVenv (path : String)
  | gitStage
  | gitCommit
  | gitMutation
  | other
  deriving DecidableEq

structure CommandEvent where
  action : Action
  normalized : Text
  exitCode : Int32
  atMs : ℕ
  focusFilter : Option Text
  deriving DecidableEq

structure HistoryEntry where
  command : Text
  cwd : String
  count : ℕ
  lastUsedMs : ℕ
  deriving DecidableEq

structure TransitionEntry where
  previous : Text
  next : Text
  cwd : String
  count : ℕ
  lastUsedMs : ℕ
  deriving DecidableEq

section Texts

def trim (text : Text) : Text :=
  (text.dropWhile isWhitespace).rdropWhile isWhitespace

def lowercased (text : Text) : Text :=
  text.map Char.toLower

/-- `str::len`, in bytes -/
def utf8Length (text : Text) : ℕ :=
  (text.map Char.utf8Size).sum

def contains (marker text : Text) : Bool :=
  text.tails.any marker.isPrefixOf

/-- `str::split`; the number counts characters of a separator that are still to be passed. -/
def splitAround (separator : Text) : ℕ → Text → Text → List Text
  | _, piece, [] => [piece]
  | k + 1, piece, _ :: rest => splitAround separator k piece rest
  | 0, piece, c :: rest =>
    if separator.isPrefixOf (c :: rest) then
      piece :: splitAround separator (separator.length - 1) [] rest
    else splitAround separator 0 (piece ++ [c]) rest

/-- The adjacent pairs of a list. -/
def windows2 {α : Type} (values : List α) : List (α × α) :=
  values.zip values.tail

end Texts

section Filter

def sensitiveMarkers : List String :=
  ["password", "passwd", "token", "secret", "api_key", "api-key", "apikey", "authorization",
    "bearer ", "cookie", "private-key", "private_key"]

def sensitiveFlags : List String :=
  ["--password", "--passwd", "--passphrase", "--token", "--secret", "--api-key", "--apikey",
    "--authorization"]

/-- A user name or password before the host of a URL. -/
def namesAuthority (lower : Text) : Bool :=
  contains "://".toList lower &&
    match (splitAround "://".toList 0 [] lower)[1]? with
    | none => false
    | some tail => (tail.takeWhile (· != '/')).contains '@'

def isLogin (pair : String × String) : Bool :=
  (pair.1 ∈ ["docker", "podman", "nerdctl"] && pair.2 == "login") ||
  (pair.1 ∈ ["npm", "pnpm", "yarn"] && pair.2 ∈ ["login", "adduser"]) ||
  pair == ("gh", "auth") || pair == ("aws", "configure")

def isSensitiveFlag (value : Text) : Bool :=
  sensitiveFlags.any fun flag =>
    lowercased value == flag.toList || (flag.toList ++ ['=']).isPrefixOf (lowercased value)

def isCurlCredential (value : Text) : Bool :=
  String.ofList value ∈ ["-u", "--user", "--proxy-user", "-H", "--header"] ||
    ["--user=", "--proxy-user=", "--header="].any fun flag => flag.toList.isPrefixOf value

/-- The rules of `history_safe` for the simple command at the end of a line. -/
def commandSafe (command : Text) (values : List Text) : Bool :=
  !(String.ofList command ∈ ["sshpass", "pass", "secret-tool"]) &&
  !((windows2 (values.map String.ofList)).any isLogin) &&
  !(values.any isSensitiveFlag) &&
  !(command == "curl".toList && (values.drop 1).any isCurlCredential) &&
  !(String.ofList command ∈ ["mysql", "mariadb"] && (values.drop 1).any "-p".toList.isPrefixOf)

def historySafe (line : Text) : Bool :=
  let trimmed := trim line
  let lower := lowercased trimmed
  !(line.head?.any isWhitespace) &&
  !(trimmed.isEmpty || 4096 < utf8Length trimmed || trimmed.any isControl) &&
  !(sensitiveMarkers.any (fun marker => contains marker.toList lower) || namesAuthority lower) &&
  match parseLine trimmed trimmed.length with
  | none => false
  | some parsed =>
    !((parsed.tokens.take parsed.commandStart).any fun token => token.value.contains '=') &&
    match parsed.commandValues with
    | [] => false
    | command :: rest => commandSafe command (command :: rest)

end Filter

section Events

/-- The variables of the loop of `split_pipeline` besides the segments that are complete. -/
def splitPipeline : Option Char → Bool → Text → Text → List Text
  | _, _, segment, [] => [segment]
  | quote, escaped, segment, c :: rest =>
    if escaped then splitPipeline quote false (segment ++ [c]) rest
    else if c == '\\' && quote != some '\'' then splitPipeline quote true (segment ++ [c]) rest
    else if quote.isSome then
      splitPipeline (if quote == some c then none else quote) false (segment ++ [c]) rest
    else if c == '\'' || c == '"' then splitPipeline (some c) false (segment ++ [c]) rest
    else if c == '|' && rest.head? != some '|' then
      segment :: splitPipeline none false [] rest
    else splitPipeline none false (segment ++ [c]) rest

def isOption (value : Text) : Bool :=
  value.head? == some '-'

def optionValue (values : List Text) (names : List String) : Option String :=
  let separate := (windows2 values).findSome? fun pair =>
    if String.ofList pair.1 ∈ names then some (String.ofList pair.2) else none
  separate.or (values.findSome? fun value => names.findSome? fun name =>
    if (name.toList ++ ['=']).isPrefixOf value && (value.drop (name.length + 1)) != [] then
      some (String.ofList (value.drop (name.length + 1)))
    else none)

def cloneValueOptions : List String :=
  ["-b", "--branch", "-c", "--config", "--depth", "--filter", "-j", "--jobs", "-o", "--origin",
    "--reference", "--reference-if-able", "--separate-git-dir", "--shallow-exclude",
    "--shallow-since", "--template", "-u", "--upload-pack"]

/-- The arguments that are neither options nor the values of options that take one; the flag
says that the first argument is such a value. -/
def positionals (takesValue stops : Text → Bool) : Bool → List Text → List Text
  | _, [] => []
  | true, _ :: rest => positionals takesValue stops false rest
  | false, value :: rest =>
    if takesValue value then positionals takesValue stops true rest
    else if stops value then positionals takesValue stops false rest
    else value :: positionals takesValue stops false rest

/-- The last piece of a text between separators. -/
def lastPiece (separator : Char) (text : Text) : Text :=
  text.rtakeWhile (· != separator)

def cloneDestination (args : List Text) : Option String :=
  match positionals (fun value => String.ofList value ∈ cloneValueOptions) isOption false args with
  | [] => none
  | [source] =>
    let tail := lastPiece ':' (lastPiece '/' (source.rdropWhile (· == '/')))
    let destination := if ".git".toList.isSuffixOf tail then tail.take (tail.length - 4) else tail
    if destination = [] then none else some (String.ofList destination)
  | _ :: destination :: _ => some (String.ofList destination)

def systemctlVerbs : List String :=
  ["start", "restart", "reload", "stop", "enable", "disable"]

def systemctlOperation (args : List Text) : Option Action :=
  match args.dropWhile fun value => !(String.ofList value ∈ systemctlVerbs) with
  | [] => none
  | verb :: rest => (rest.find? fun value => !isOption value).map fun unit =>
      .systemctlOperation (String.ofList verb) (String.ofList unit)

def mkdirPaths (args : List Text) : List String :=
  (positionals (fun value => String.ofList value ∈ ["-m", "--mode"]) isOption false args).map
    String.ofList

def actionOf (values : List Text) (elevated : Bool) : Action :=
  let words := values.map String.ofList
  if words.take 2 = ["apt", "update"] then .aptUpdate "apt"
  else if words.take 2 = ["apt-get", "update"] then .aptUpdate "apt-get"
  else if words.head?.any (· ∈ ["apt", "apt-get"]) && words[1]?.any (· ∈
      ["install", "reinstall", "remove", "purge", "autoremove", "autopurge"]) then .aptMutation
  else if words.take 2 = ["docker", "ps"] || words.take 3 = ["docker", "container", "ls"] then
    .dockerList elevated
  else if words.take 2 = ["docker", "build"] then .dockerBuild (optionValue values ["-t", "--tag"])
  else if words.take 1 = ["ps"] then .processList
  else if words.take 2 = ["systemctl", "list-units"] then .serviceList
  else if words.take 1 = ["systemctl"] then (systemctlOperation (values.drop 1)).getD .other
  else if words.take 1 = ["ssh-keygen"] then .sshKeygen (optionValue values ["-f"])
  else if words.take 1 = ["mkdir"] then .makeDirectory (mkdirPaths (values.drop 1))
  else if words.take 3 = ["python", "-m", "venv"] || words.take 3 = ["python3", "-m", "venv"] then
    .pythonVenv (String.ofList (((values.drop 3).reverse.find? fun value =>
      !isOption value).getD []))
  else if words.take 2 = ["git", "clone"] then
    match cloneDestination (values.drop 2) with
    | none => .gitMutation
    | some destination => .gitClone destination
  else if words.take 2 = ["git", "add"] then .gitStage
  else if words.take 2 = ["git", "commit"] then .gitCommit
  else if words.take 1 = ["git"] then .gitMutation
  else .other

def grepFilter (segment : Text) : Option Text :=
  let segment := trim segment
  match parseLine segment segment.length with
  | none => none
  | some parsed =>
    match parsed.commandValues with
    | [] => none
    | command :: rest =>
      if command = "grep".toList then rest.find? fun value => !isOption value else none

def isElevated (parsed : ParsedLine) : Bool :=
  (parsed.tokens.take parsed.commandStart).any fun token => token.value == "sudo".toList

/-- The words of a command as the event keeps them. -/
def joinWords (values : List Text) : Text :=
  [' '].intercalate values

def deriveEvent (line : Text) (exitCode : Int32) (atMs : ℕ) : Option CommandEvent :=
  let segments := splitPipeline none false [] line
  let primary := trim (segments.headD [])
  match parseLine primary primary.length with
  | none => none
  | some parsed =>
    if parsed.commandValues = [] then none
    else some
      { action := actionOf parsed.commandValues (isElevated parsed)
        normalized := joinWords parsed.commandValues
        exitCode := exitCode
        atMs := atMs
        focusFilter := segments[1]?.bind grepFilter }

end Events

section Learning

/-- The part of the world that learning reads and writes. -/
structure Learned where
  lastEvent : Option CommandEvent
  currentCwd : String
  history : List HistoryEntry
  transitions : List TransitionEntry

/-- A finished command as the shell reports it. -/
structure Observation where
  line : Text
  exitCode : Int32
  atMs : ℕ
  cwd : String

/-- `u32::saturating_add` -/
def saturatingSucc (count : ℕ) : ℕ :=
  min (count + 1) (2 ^ 32 - 1)

/-- The first entry with the same key is counted up; without one the new entry is added. -/
def countEntry {α : Type} (same : α → Bool) (touch : α → α) (new : α) (entries : List α) : List α :=
  if entries.any same then entries.modify (entries.findIdx same) touch else entries ++ [new]

/-- Only the 2000 entries used last are kept. -/
def keepRecent {α : Type} (lastUsed : α → ℕ) (entries : List α) : List α :=
  if 2000 < entries.length then
    (entries.insertionSort fun a b => lastUsed a ≤ lastUsed b).drop (entries.length - 2000)
  else entries

def HistoryEntry.same (command : Text) (cwd : String) (entry : HistoryEntry) : Bool :=
  entry.command == command && entry.cwd == cwd

def HistoryEntry.touch (atMs : ℕ) (entry : HistoryEntry) : HistoryEntry :=
  { entry with count := saturatingSucc entry.count, lastUsedMs := atMs }

def TransitionEntry.same (previous next : Text) (cwd : String) (entry : TransitionEntry) : Bool :=
  entry.previous == previous && entry.next == next && entry.cwd == cwd

def TransitionEntry.touch (atMs : ℕ) (entry : TransitionEntry) : TransitionEntry :=
  { entry with count := saturatingSucc entry.count, lastUsedMs := atMs }

def recordHistory (command : Text) (cwd : String) (atMs : ℕ) (history : List HistoryEntry) :
    List HistoryEntry :=
  keepRecent HistoryEntry.lastUsedMs
    (countEntry (HistoryEntry.same command cwd) (HistoryEntry.touch atMs) ⟨command, cwd, 1, atMs⟩
      history)

/-- Transitions are cut back only when one was added. -/
def recordTransition (previous next : Text) (cwd : String) (atMs : ℕ)
    (transitions : List TransitionEntry) : List TransitionEntry :=
  let same := TransitionEntry.same previous next cwd
  let counted := countEntry same (TransitionEntry.touch atMs) ⟨previous, next, cwd, 1, atMs⟩
    transitions
  if transitions.any same then counted else keepRecent TransitionEntry.lastUsedMs counted

def learnTransition (previous next : Text) (cwd : String) (atMs : ℕ) (learned : Learned) :
    Option TransitionEntry × Learned :=
  if previous = next ∨ previous = [] ∨ next = [] then (none, learned)
  else (some ⟨previous, next, cwd, 1, atMs⟩,
    { learned with transitions := recordTransition previous next cwd atMs learned.transitions })

/-- The event before and the event of the new line, when a transition may join them. -/
def adjacentEvents (o : Observation) (learned : Learned) : Option (CommandEvent × CommandEvent) :=
  (learned.lastEvent.filter fun event => event.exitCode == 0 && historySafe event.normalized).bind
    fun event => (deriveEvent o.line o.exitCode o.atMs).map fun current => (event, current)

def Learned.observed (learned : Learned) (o : Observation) : Learned :=
  { learned with
    currentCwd := o.cwd
    lastEvent := deriveEvent o.line o.exitCode o.atMs }

def Learned.recorded (learned : Learned) (o : Observation) : Learned :=
  { learned with history := recordHistory (trim o.line) o.cwd o.atMs learned.history }

def observeCommandWithCwd (o : Observation) (learned : Learned) :
    Option (HistoryEntry × Option TransitionEntry) × Learned :=
  let observed := learned.observed o
  if o.exitCode != 0 || !historySafe o.line then (none, observed)
  else
    let entry : HistoryEntry := ⟨trim o.line, o.cwd, 1, o.atMs⟩
    match adjacentEvents o learned with
    | none => (some (entry, none), observed.recorded o)
    | some (before, now) =>
      let result := learnTransition before.normalized now.normalized o.cwd o.atMs
        (observed.recorded o)
      (some (entry, result.1), result.2)

def observeCommandWithoutLearning (o : Observation) (learned : Learned) : Learned :=
  learned.observed o

end Learning

end BashGuess
