import SynOSStudio.BashGuess.Trimming
import SynOSStudio.ByteStreams.Lines
import SynOSStudio.Ufwall.AppSwitch

/-!
# What the switch says

The switch asks whether any allow rule has the port of a piece of the profile. A list of ports is
one rule but several pieces, none of which it matches, and one rule is enough where the profile has
many. What the calls left behind decides whether the switch is off again.
-/

namespace Ufwall

open BashGuess

/-! ## Port specifications -/

inductive Item where
  | port (n : ℕ)
  | range (first last : ℕ) (le : first ≤ last)

inductive Protocol where
  | tcp | udp
  deriving DecidableEq

def number (n : ℕ) : Text :=
  Nat.toDigits 10 n

def Item.text : Item → Text
  | port n => number n
  | range first last _ => number first ++ ':' :: number last

def Item.Names : Item → ℕ → Prop
  | port n, p => p = n
  | range first last _, p => first ≤ p ∧ p ≤ last

def suffix : Option Protocol → Text
  | none => []
  | some .tcp => "/tcp".toList
  | some .udp => "/udp".toList

/-- A port, a range or a list of them, with a protocol or for both. -/
structure Spec where
  front : List Item
  last : Item
  protocol : Option Protocol

namespace Spec

variable (spec : Spec)

/-- What is left of the specification between the commas. -/
def pieces : List Text :=
  spec.front.map Item.text ++ [spec.last.text ++ suffix spec.protocol]

def text : Text :=
  List.intercalate [','] spec.pieces

/-- It is no list. -/
def IsSingle : Prop :=
  spec.front = []

def Names (port : ℕ) (protocol : Protocol) : Prop :=
  (∃ item ∈ spec.front ++ [spec.last], item.Names port) ∧
    ∀ p ∈ spec.protocol, p = protocol

end Spec

/-- The ports of a profile. -/
def profilePorts (specs : List Spec) : Text :=
  List.intercalate ['|'] (specs.map Spec.text)

def profilePieces (specs : List Spec) : List Text :=
  specs.flatMap Spec.pieces

def portCharacters : Text := ":/tcpud".toList

/-- The lower case of digits and of lower case letters is what they are. -/
def KeepsPorts (toLowercase : Text → Text) : Prop :=
  ∀ text, (∀ c ∈ text, c.isDigit = true ∨ c ∈ ',' :: portCharacters) → toLowercase text = text

/-! ## The texts -/

section Texts

variable {spec : Spec} {specs : List Spec} {piece text : Text} {toLowercase : Text → Text}

theorem number_digits {n : ℕ} {c : Char} (h : c ∈ number n) : c.isDigit = true :=
  Nat.isDigit_of_mem_toDigits (by decide) (by decide) h

theorem item_characters {item : Item} {c : Char} (h : c ∈ item.text) :
    c.isDigit = true ∨ c = ':' := by
  cases item with
  | port n => exact .inl (number_digits h)
  | range first last le =>
    rcases List.mem_append.mp h with h | h
    · exact .inl (number_digits h)
    · rcases List.mem_cons.mp h with rfl | h
      · exact .inr rfl
      · exact .inl (number_digits h)

theorem item_ne_nil (item : Item) : item.text ≠ [] := by
  cases item with
  | port n => exact Nat.toDigits_ne_nil
  | range first last le => simp [Item.text]

theorem piece_characters (h : piece ∈ spec.pieces) {c : Char} (hc : c ∈ piece) :
    c.isDigit = true ∨ c ∈ portCharacters := by
  have hitem : ∀ item : Item, c ∈ item.text → c.isDigit = true ∨ c ∈ portCharacters :=
    fun item hmem => (item_characters hmem).imp_right fun heq => by
      rw [heq]
      decide
  rcases List.mem_append.mp h with h | h
  · obtain ⟨item, -, rfl⟩ := List.mem_map.mp h
    exact hitem item hc
  · rw [List.mem_singleton.mp h] at hc
    rcases List.mem_append.mp hc with hc | hc
    · exact hitem spec.last hc
    · right
      revert hc
      cases spec.protocol with
      | none => exact fun hc => absurd hc List.not_mem_nil
      | some protocol => cases protocol <;> exact fun hc => (by decide : ∀ d ∈ _, d ∈ _) c hc

theorem piece_plain (h : piece ∈ spec.pieces) {c : Char} (hc : c ∈ piece) :
    isWhitespace c = false ∧ c ≠ ',' ∧ c ≠ '|' := by
  rcases piece_characters h hc with hdigit | hmem
  · have halphanum : c.isAlphanum = true := TextLines.isAlphanum_iff.mpr (.inr hdigit)
    refine ⟨isWhitespace_of_isAlphanum halphanum, ?_, ?_⟩
    all_goals
      rintro rfl
      revert hdigit
      decide
  · exact (by decide : ∀ d ∈ portCharacters, isWhitespace d = false ∧ d ≠ ',' ∧ d ≠ '|') c hmem

theorem piece_ne_nil (h : piece ∈ spec.pieces) : piece ≠ [] := by
  rcases List.mem_append.mp h with h | h
  · obtain ⟨item, -, rfl⟩ := List.mem_map.mp h
    exact item_ne_nil item
  · rw [List.mem_singleton.mp h]
    simp [item_ne_nil]

theorem pieces_ne_nil (spec : Spec) : spec.pieces ≠ [] := by
  simp [Spec.pieces]

theorem text_characters {c : Char} (hc : c ∈ spec.text) :
    c = ',' ∨ ∃ piece ∈ spec.pieces, c ∈ piece :=
  ByteStreams.mem_intercalate hc

theorem bar_text (spec : Spec) : '|' ∉ spec.text := by
  intro hmem
  rcases text_characters hmem with heq | ⟨piece, hpiece, hc⟩
  · revert heq
    decide
  · exact (piece_plain hpiece hc).2.2 rfl

theorem text_plain {c : Char} (hc : c ∈ spec.text) : isWhitespace c = false := by
  rcases text_characters hc with rfl | ⟨piece, hpiece, hc⟩
  · decide
  · exact (piece_plain hpiece hc).1

theorem text_ne_nil (spec : Spec) : spec.text ≠ [] := by
  obtain ⟨piece, pieces, hpieces⟩ := List.exists_cons_of_ne_nil (pieces_ne_nil spec)
  have hne : piece ≠ [] := piece_ne_nil (hpieces ▸ List.mem_cons_self)
  obtain ⟨c, rest, rfl⟩ := List.exists_cons_of_ne_nil hne
  have hmem : c ∈ spec.text := by
    rw [Spec.text, hpieces]
    exact ByteStreams.mem_intercalate_of_mem List.mem_cons_self List.mem_cons_self
  exact List.ne_nil_of_mem hmem

theorem portList_profilePorts (hne : specs ≠ []) :
    portList (profilePorts specs) = specs.map Spec.text := by
  have hsplit : (profilePorts specs).splitOn '|' = specs.map Spec.text := by
    refine List.splitOn_intercalate '|' (fun text htext => ?_) ?_
    · obtain ⟨spec, -, rfl⟩ := List.mem_map.mp htext
      exact bar_text spec
    · simpa using hne
  have htrim : (specs.map Spec.text).map trim = specs.map Spec.text := by
    rw [List.map_map]
    exact List.map_congr_left fun spec _ => trim_word fun c hc => text_plain hc
  rw [portList, hsplit, htrim, List.filter_eq_self]
  intro text htext
  obtain ⟨spec, -, rfl⟩ := List.mem_map.mp htext
  exact decide_eq_true (text_ne_nil spec)

theorem splitOnP_text (spec : Spec) :
    (spec.text.splitOnP fun c => c = '|' || c = ',') = spec.pieces := by
  have hsplit : ∀ texts : List Text, texts ≠ [] → (∀ text ∈ texts, ∀ c ∈ text, c ≠ ',' ∧ c ≠ '|') →
      ((List.intercalate [','] texts).splitOnP fun c => c = '|' || c = ',') = texts := by
    intro texts hne h
    induction texts with
    | nil => exact absurd rfl hne
    | cons text texts ih =>
      obtain ⟨htext, htexts⟩ := List.forall_mem_cons.mp h
      have hsingle : (text.splitOnP fun c => c = '|' || c = ',') = [text] :=
        List.splitOnP_eq_singleton fun c hc => by simp [htext c hc]
      cases texts with
      | nil => rw [List.intercalate_singleton, hsingle]
      | cons next texts =>
        rw [List.intercalate_cons_cons, List.append_assoc, List.singleton_append,
          List.splitOnP_append_cons _ _ (by decide), hsingle, ih (List.cons_ne_nil _ _) htexts]
        rfl
  exact hsplit spec.pieces (pieces_ne_nil spec) fun piece hpiece c hc =>
    (piece_plain hpiece hc).2

theorem parseProfilePorts_profilePorts (hne : specs ≠ []) :
    parseProfilePorts (profilePorts specs) = profilePieces specs := by
  have hsplit : ((profilePorts specs).splitOnP fun c => c = '|' || c = ',') =
      profilePieces specs := by
    rw [profilePorts, profilePieces]
    induction specs with
    | nil => exact absurd rfl hne
    | cons spec specs ih =>
      cases specs with
      | nil => rw [List.map_singleton, List.intercalate_singleton, splitOnP_text,
          List.flatMap_singleton]
      | cons next specs =>
        rw [List.map_cons, List.map_cons, List.intercalate_cons_cons, List.append_assoc,
          List.singleton_append, List.splitOnP_append_cons _ _ (by decide), splitOnP_text,
          ← List.map_cons, ih (List.cons_ne_nil _ _)]
        rfl
  have hpiece : ∀ piece ∈ profilePieces specs, trim piece = piece ∧ piece ≠ [] := by
    intro piece hpiece
    obtain ⟨spec, -, hpiece⟩ := List.mem_flatMap.mp hpiece
    exact ⟨trim_word fun c hc => (piece_plain hpiece hc).1, piece_ne_nil hpiece⟩
  have htrim : (profilePieces specs).map trim = profilePieces specs := by
    conv_rhs => rw [← List.map_id (profilePieces specs)]
    exact List.map_congr_left fun piece h => (hpiece piece h).1
  rw [parseProfilePorts, hsplit, htrim, List.filter_eq_self]
  exact fun piece h => decide_eq_true (hpiece piece h).2

theorem lowercase_piece (hlower : KeepsPorts toLowercase) (h : piece ∈ spec.pieces) :
    toLowercase piece = piece :=
  hlower piece fun _ hc => (piece_characters h hc).imp_right fun hmem => List.mem_cons_of_mem _ hmem

theorem lowercase_text (hlower : KeepsPorts toLowercase) (spec : Spec) :
    toLowercase spec.text = spec.text := by
  refine hlower spec.text fun c hc => ?_
  rcases text_characters hc with rfl | ⟨piece, hpiece, hc⟩
  · exact .inr List.mem_cons_self
  · exact (piece_characters hpiece hc).imp_right fun hmem => List.mem_cons_of_mem _ hmem

/-- A single specification is a piece of its profile. -/
theorem single_text (h : spec.IsSingle) : spec.text ∈ spec.pieces := by
  have hpieces : spec.pieces = [spec.last.text ++ suffix spec.protocol] := by
    rw [Spec.pieces, h]
    rfl
  rw [Spec.text, hpieces, List.intercalate_singleton]
  exact List.mem_singleton_self _

/-- A comma stands in front of the protocol of a list. -/
theorem comma_beforeSlash (h : ¬ spec.IsSingle) : ',' ∈ beforeSlash spec.text := by
  obtain ⟨item, items, hfront⟩ := List.exists_cons_of_ne_nil h
  have hslash : ∀ c ∈ item.text, c ≠ '/' := by
    rintro c hc rfl
    rcases item_characters hc with hdigit | heq
    · revert hdigit
      decide
    · revert heq
      decide
  obtain ⟨piece, pieces, hrest⟩ := List.exists_cons_of_ne_nil
    (show items.map Item.text ++ [spec.last.text ++ suffix spec.protocol] ≠ [] by simp)
  have htext : spec.text = item.text ++ ',' :: List.intercalate [','] (piece :: pieces) := by
    rw [Spec.text, Spec.pieces, hfront, List.map_cons, List.cons_append, hrest,
      List.intercalate_cons_cons, List.append_assoc]
    rfl
  have hkeep : item.text.takeWhile (· ≠ '/') = item.text :=
    List.takeWhile_eq_self_iff.mpr fun c hc => decide_eq_true (hslash c hc)
  rw [beforeSlash, htext, List.takeWhile_append, hkeep, if_pos rfl]
  exact List.mem_append_right _ (by simp)

theorem mem_of_mem_beforeSlash {c : Char} (h : c ∈ beforeSlash text) : c ∈ text :=
  (List.takeWhile_sublist _).subset h

theorem portsMatch_self (text : Text) : portsMatch toLowercase text text = true := by
  simp [portsMatch]

/-- A list matches no piece. -/
theorem portsMatch_list (hlower : KeepsPorts toLowercase) (h : ¬ spec.IsSingle)
    {other : Spec} (hpiece : piece ∈ other.pieces) :
    portsMatch toLowercase spec.text piece = false := by
  have hcomma := comma_beforeSlash h
  have hmem := mem_of_mem_beforeSlash hcomma
  have hplain : ',' ∉ piece := fun hc => (piece_plain hpiece hc).2.1 rfl
  have hne : spec.text ≠ piece := fun heq => hplain (heq ▸ hmem)
  have hneBefore : beforeSlash spec.text ≠ piece := fun heq => hplain (heq ▸ hcomma)
  have hneAfter : spec.text ≠ beforeSlash piece := fun heq =>
    hplain (mem_of_mem_beforeSlash (heq ▸ hmem))
  simp only [portsMatch, lowercase_text hlower, lowercase_piece hlower hpiece]
  rw [if_neg hne]
  split
  · exact decide_eq_false hneBefore
  · split
    · exact decide_eq_false hneAfter
    · rfl

end Texts

/-! ## Calls -/

section Calls

variable {specs : List Text} {spec : Text} {u : Ufw} {lastResult : Except UfwError Text}
  {rule : UfwRule} {n : ℕ}

/-- The rules of a firewall after calls that allow ports. -/
structure Allowed (specs : List Text) (u u' : Ufw) : Prop where
  keep : ∀ rule ∈ u.rules, rule ∈ u'.rules
  add : ∀ spec ∈ specs, ∃ n, allowRule n spec ∈ u'.rules
  only : ∀ rule ∈ u'.rules, rule ∈ u.rules ∨ ∃ n, ∃ spec ∈ specs, rule = allowRule n spec
  answers : ∀ n, u'.answers n = u.answers (specs.length + n)

theorem allowPorts_ok {out : Text} (hanswer : u.answers 0 = .ok out) :
    allowPorts lastResult (spec :: specs) u = allowPorts (.ok out) specs
      ⟨u.rules ++ [allowRule (u.rules.length + 1) spec], fun n => u.answers (n + 1)⟩ := by
  simp [allowPorts, runPkexecUfw, hanswer, Command.apply]

theorem allowPorts_error {error : UfwError} (hanswer : u.answers 0 = .error error) :
    (allowPorts lastResult (spec :: specs) u).1 = .error error := by
  simp [allowPorts, runPkexecUfw, hanswer]

theorem Allowed.cons {u₁ u₂ : Ufw} (hrules : u₁.rules = u.rules ++ [allowRule n spec])
    (hanswers : ∀ k, u₁.answers k = u.answers (k + 1)) (h : Allowed specs u₁ u₂) :
    Allowed (spec :: specs) u u₂ := by
  refine ⟨fun rule hrule => h.keep rule ?_, fun other hother => ?_, fun rule hrule => ?_,
    fun k => ?_⟩
  · rw [hrules]
    exact List.mem_append_left _ hrule
  · rcases List.mem_cons.mp hother with rfl | hother
    · refine ⟨n, h.keep _ ?_⟩
      rw [hrules]
      exact List.mem_append_right _ (List.mem_singleton_self _)
    · exact h.add other hother
  · rcases h.only rule hrule with hrule | ⟨m, other, hother, rfl⟩
    · rw [hrules] at hrule
      rcases List.mem_append.mp hrule with hrule | hrule
      · exact .inl hrule
      · exact .inr ⟨n, spec, List.mem_cons_self, List.mem_singleton.mp hrule⟩
    · exact .inr ⟨m, other, List.mem_cons_of_mem _ hother, rfl⟩
  · rw [h.answers, hanswers, List.length_cons]
    congr 1
    omega

theorem allowPorts_spec (hlast : lastResult.isOk = true) (specs : List Text) (u : Ufw) :
    ((allowPorts lastResult specs u).1.isOk = true ↔
      ∀ i < specs.length, (u.answers i).isOk = true) ∧
    ((allowPorts lastResult specs u).1.isOk = true →
      Allowed specs u (allowPorts lastResult specs u).2) := by
  induction specs generalizing lastResult u with
  | nil =>
    refine ⟨iff_of_true hlast fun i hi => absurd hi (Nat.not_lt_zero i), fun _ => ?_⟩
    exact ⟨fun _ => id, nofun, fun _ => .inl, fun n => by rw [List.length_nil, Nat.zero_add]; rfl⟩
  | cons spec specs ih =>
    cases hanswer : u.answers 0 with
    | ok out =>
      have hout : (Except.ok out : Except UfwError Text).isOk = true := rfl
      obtain ⟨hok, hrules⟩ := ih hout
        ⟨u.rules ++ [allowRule (u.rules.length + 1) spec], fun n => u.answers (n + 1)⟩
      rw [allowPorts_ok hanswer]
      refine ⟨hok.trans ⟨fun hall i hi => ?_, fun hall i hi => ?_⟩, fun hresult => ?_⟩
      · cases i with
        | zero => rw [hanswer]; rfl
        | succ i => exact hall i (Nat.lt_of_succ_lt_succ hi)
      · exact hall (i + 1) (Nat.succ_lt_succ hi)
      · exact (hrules hresult).cons rfl fun _ => rfl
    | error error =>
      have hfails : ¬ (allowPorts lastResult (spec :: specs) u).1.isOk = true := by
        rw [allowPorts_error hanswer]
        exact Bool.false_ne_true
      refine ⟨iff_of_false hfails fun hall => ?_, fun hresult => absurd hresult hfails⟩
      have hfirst := hall 0 (Nat.succ_pos _)
      rw [hanswer] at hfirst
      cases hfirst

theorem deletePorts_cons : deletePorts lastResult (spec :: specs) u =
    deletePorts (u.answers 0) specs ⟨if (u.answers 0).isOk = true then
      (Command.deleteAllow spec).apply u.rules else u.rules, fun n => u.answers (n + 1)⟩ := by
  rw [deletePorts, runPkexecUfw]
  cases u.answers 0 <;> rfl

/-- What is deleted, although some of the calls fail. -/
theorem deletePorts_spec (lastResult : Except UfwError Text) (specs : List Text) (u : Ufw) :
    (deletePorts lastResult specs u).1 =
      (if specs = [] then lastResult else u.answers (specs.length - 1)) ∧
    ∀ rule, rule ∈ (deletePorts lastResult specs u).2.rules ↔ rule ∈ u.rules ∧
      ∀ i spec, specs[i]? = some spec → (u.answers i).isOk = true → ¬ IsAllowRule spec rule := by
  induction specs generalizing lastResult u with
  | nil => exact ⟨rfl, fun rule => ⟨fun h => ⟨h, fun i spec hspec => by simp at hspec⟩, And.left⟩⟩
  | cons spec specs ih =>
    rw [deletePorts_cons]
    obtain ⟨hresult, hrules⟩ := ih (u.answers 0) ⟨if (u.answers 0).isOk = true then
      (Command.deleteAllow spec).apply u.rules else u.rules, fun n => u.answers (n + 1)⟩
    refine ⟨?_, fun rule => ?_⟩
    · rw [hresult, if_neg (List.cons_ne_nil _ _)]
      cases specs with
      | nil => rfl
      | cons next specs => rfl
    · have hfirst : rule ∈ (if (u.answers 0).isOk = true then
          (Command.deleteAllow spec).apply u.rules else u.rules) ↔
            rule ∈ u.rules ∧ ((u.answers 0).isOk = true → ¬ IsAllowRule spec rule) := by
        split
        · next hok => simp [Command.apply, hok]
        · next hfails => simp [hfails]
      rw [hrules, hfirst, and_assoc]
      refine and_congr_right fun _ => ⟨fun ⟨hzero, hrest⟩ i other hother hok => ?_,
        fun hall => ⟨fun hok => hall 0 spec rfl hok, fun i other hother hok =>
          hall (i + 1) other hother hok⟩⟩
      cases i with
      | zero =>
        obtain rfl := Option.some.inj hother
        exact hzero hok
      | succ i => exact hrest i other hother hok

end Calls

/-! ## The truth of the switch -/

section Truth

variable (toLowercase : Text → Text) (profile : AppProfile) (specs : List Spec) (u : Ufw)

/-- An inbound allow rule from anywhere that names the port, or all ports. -/
def UfwRule.Covers (rule : UfwRule) (port : ℕ) (protocol : Protocol) : Prop :=
  rule.action = .allow ∧ rule.direction = .inbound ∧ rule.source = anywhere ∧
    rule.destination = anywhere ∧
    (rule.port = anywhere ∨ ∃ spec : Spec, rule.port = spec.text ∧ spec.Names port protocol)

def AllCovered : Prop :=
  ∀ port protocol, (∃ spec ∈ specs, spec.Names port protocol) →
    ∃ rule ∈ u.rules, rule.Covers port protocol

/-- The rule is about a port or a range of the profile, whatever the protocols are. -/
def UfwRule.Mentions (rule : UfwRule) : Prop :=
  ∃ piece ∈ profilePieces specs, beforeSlash (toLowercase rule.port) = beforeSlash piece

def NoneMentions : Prop :=
  ∀ rule ∈ u.rules, ¬ rule.Mentions toLowercase specs

/-- What the switch promises for a profile, a firewall and the answers of the calls. -/
structure TellsTruth : Prop where
  enabled : (allowApp profile.ports u).1.isOk = true →
    isAppAllowed toLowercase (allowApp profile.ports u).2.rules profile = true
  covered : isAppAllowed toLowercase u.rules profile = true → AllCovered specs u
  disabled : NoneMentions toLowercase specs u → (allowApp profile.ports u).1.isOk = true →
    (deleteApp profile.ports (allowApp profile.ports u).2).1.isOk = true →
    isAppAllowed toLowercase (deleteApp profile.ports (allowApp profile.ports u).2).2.rules
      profile = false

/-- An allow rule, of whatever direction and source, has the port of a piece of the profile. -/
def SomeMatches : Prop :=
  ∃ rule ∈ u.rules, rule.action = .allow ∧
    ∃ piece ∈ profilePieces specs, portsMatch toLowercase rule.port piece = true

/-- The calls that allow the ports succeed. -/
def AllowsAll : Prop :=
  ∀ i < specs.length, (u.answers i).isOk = true

/-- Where the switch keeps its promises: some specification is no list of ports unless a rule
matches from the start, the ports are covered if one allow rule matches, and every single
specification is deleted if the last call succeeds. -/
structure Suits : Prop where
  single : AllowsAll specs u →
    (∃ spec ∈ specs, spec.IsSingle) ∨ SomeMatches toLowercase specs u
  all : SomeMatches toLowercase specs u → AllCovered specs u
  deleted : NoneMentions toLowercase specs u → AllowsAll specs u →
    (u.answers (specs.length + (specs.length - 1))).isOk = true →
    ∀ spec ∈ specs, spec.IsSingle → ∃ i other, specs[i]? = some other ∧ other.text = spec.text ∧
      (u.answers (specs.length + i)).isOk = true

end Truth

section Switch

variable {toLowercase : Text → Text} {profile : AppProfile} {specs : List Spec} {u : Ufw}
  {rules : List UfwRule} {rule : UfwRule} {spec : Spec} {piece : Text}

theorem isAppAllowed_iff (hports : profile.ports = profilePorts specs) (hne : specs ≠ []) :
    isAppAllowed toLowercase rules profile = true ↔ ∃ rule ∈ rules, rule.action = .allow ∧
      ∃ piece ∈ profilePieces specs, portsMatch toLowercase rule.port piece = true := by
  have hpieces : profilePieces specs ≠ [] := by
    obtain ⟨spec, specs, rfl⟩ := List.exists_cons_of_ne_nil hne
    simp [profilePieces, pieces_ne_nil]
  simp only [isAppAllowed, hports, parseProfilePorts_profilePorts hne]
  rw [if_neg hpieces]
  simp

theorem mentions_of_portsMatch (hlower : KeepsPorts toLowercase)
    (hpiece : piece ∈ profilePieces specs)
    (h : portsMatch toLowercase rule.port piece = true) : rule.Mentions toLowercase specs := by
  obtain ⟨spec, -, hmem⟩ := List.mem_flatMap.mp hpiece
  refine ⟨piece, hpiece, ?_⟩
  have hkeep : ∀ text : Text, '/' ∉ text → beforeSlash text = text := fun text hslash =>
    List.takeWhile_eq_self_iff.mpr fun c hc => decide_eq_true fun heq => hslash (heq ▸ hc)
  simp only [portsMatch, lowercase_piece hlower hmem] at h
  split at h
  · next heq => rw [heq]
  · split at h
    · next hslash => rw [of_decide_eq_true h, hkeep piece hslash]
    · split at h
      · next hslash => rw [hkeep _ hslash, of_decide_eq_true h]
      · cases h

theorem allowApp_spec (hports : profile.ports = profilePorts specs) (hne : specs ≠ []) (u : Ufw) :
    ((allowApp profile.ports u).1.isOk = true ↔ AllowsAll specs u) ∧
    (AllowsAll specs u → Allowed (specs.map Spec.text) u (allowApp profile.ports u).2) := by
  have hlist : specs.map Spec.text ≠ [] := by simpa using hne
  have hspec := allowPorts_spec (show (Except.ok [] : Except UfwError Text).isOk = true from rfl)
    (specs.map Spec.text) u
  rw [allowApp, hports, portList_profilePorts hne, if_neg hlist]
  rw [List.length_map] at hspec
  exact ⟨hspec.1, fun hall => hspec.2 (hspec.1.mpr hall)⟩

theorem deleteApp_spec (hports : profile.ports = profilePorts specs) (hne : specs ≠ []) (u : Ufw) :
    (deleteApp profile.ports u).1 = u.answers (specs.length - 1) ∧
    ∀ rule, rule ∈ (deleteApp profile.ports u).2.rules ↔ rule ∈ u.rules ∧
      ∀ i other, specs[i]? = some other → (u.answers i).isOk = true →
        ¬ IsAllowRule other.text rule := by
  have hlist : specs.map Spec.text ≠ [] := by simpa using hne
  obtain ⟨hresult, hrules⟩ := deletePorts_spec (.ok []) (specs.map Spec.text) u
  rw [if_neg hlist, List.length_map] at hresult
  rw [deleteApp, hports, portList_profilePorts hne, if_neg hlist]
  refine ⟨hresult, fun rule => (hrules rule).trans (and_congr_right fun _ => ?_)⟩
  constructor
  · intro hall i other hother hok
    exact hall i other.text (by rw [List.getElem?_map, hother]; rfl) hok
  · intro hall i text htext hok
    rw [List.getElem?_map] at htext
    obtain ⟨other, hother, rfl⟩ := Option.map_eq_some_iff.mp htext
    exact hall i other hother hok

theorem isAllowRule_allowRule (n : ℕ) (text : Text) : IsAllowRule text (allowRule n text) :=
  ⟨rfl, rfl, rfl, rfl, rfl⟩

theorem piece_of_single (hspec : spec ∈ specs) (hsingle : spec.IsSingle) :
    spec.text ∈ profilePieces specs :=
  List.mem_flatMap.mpr ⟨spec, hspec, single_text hsingle⟩

/-- An added rule that matches is one for a single specification. -/
theorem single_of_match (hlower : KeepsPorts toLowercase) (hpiece : piece ∈ profilePieces specs)
    {n : ℕ} (h : portsMatch toLowercase (allowRule n spec.text).port piece = true) :
    spec.IsSingle := by
  by_contra hlist
  obtain ⟨other, -, hmem⟩ := List.mem_flatMap.mp hpiece
  rw [allowRule, portsMatch_list hlower hlist hmem] at h
  cases h

theorem allowed_matches_iff (hlower : KeepsPorts toLowercase) {u' : Ufw}
    (h : Allowed (specs.map Spec.text) u u') : SomeMatches toLowercase specs u' ↔
      (∃ spec ∈ specs, spec.IsSingle) ∨ SomeMatches toLowercase specs u := by
  constructor
  · rintro ⟨rule, hrule, hallow, piece, hpiece, hmatch⟩
    rcases h.only rule hrule with hrule | ⟨n, text, htext, rfl⟩
    · exact .inr ⟨rule, hrule, hallow, piece, hpiece, hmatch⟩
    · obtain ⟨spec, hspec, rfl⟩ := List.mem_map.mp htext
      exact .inl ⟨spec, hspec, single_of_match hlower hpiece hmatch⟩
  · rintro (⟨spec, hspec, hsingle⟩ | ⟨rule, hrule, hrest⟩)
    · obtain ⟨n, hadded⟩ := h.add spec.text (List.mem_map_of_mem hspec)
      exact ⟨_, hadded, rfl, spec.text, piece_of_single hspec hsingle, portsMatch_self _⟩
    · exact ⟨rule, h.keep rule hrule, hrest⟩

/-- What matches behind the calls that delete the ports again. -/
theorem deleted_matches_iff (hlower : KeepsPorts toLowercase) {u' : Ufw}
    (h : Allowed (specs.map Spec.text) u u') (hnone : NoneMentions toLowercase specs u)
    (hrules : ∀ rule, rule ∈ rules ↔ rule ∈ u'.rules ∧
      ∀ i other, specs[i]? = some other → (u'.answers i).isOk = true →
        ¬ IsAllowRule other.text rule) :
    (∃ rule ∈ rules, rule.action = .allow ∧
      ∃ piece ∈ profilePieces specs, portsMatch toLowercase rule.port piece = true) ↔
    ∃ spec ∈ specs, spec.IsSingle ∧ ∀ i other, specs[i]? = some other → other.text = spec.text →
      ¬ (u'.answers i).isOk = true := by
  constructor
  · rintro ⟨rule, hrule, -, piece, hpiece, hmatch⟩
    obtain ⟨hrule, hkept⟩ := (hrules rule).mp hrule
    rcases h.only rule hrule with hrule | ⟨n, text, htext, rfl⟩
    · exact absurd (mentions_of_portsMatch hlower hpiece hmatch) (hnone rule hrule)
    · obtain ⟨spec, hspec, rfl⟩ := List.mem_map.mp htext
      refine ⟨spec, hspec, single_of_match hlower hpiece hmatch, fun i other hother heq hok => ?_⟩
      refine hkept i other hother hok ?_
      rw [heq]
      exact isAllowRule_allowRule n spec.text
  · rintro ⟨spec, hspec, hsingle, hfails⟩
    obtain ⟨n, hadded⟩ := h.add spec.text (List.mem_map_of_mem hspec)
    refine ⟨_, (hrules _).mpr ⟨hadded, fun i other hother hok hrule => ?_⟩, rfl, spec.text,
      piece_of_single hspec hsingle, portsMatch_self _⟩
    exact hfails i other hother hrule.1.symm hok

/-- The switch tells the truth exactly where its any-rule-any-piece test and the calls that are
not checked do not matter. -/
theorem switch_tells_truth_iff (hlower : KeepsPorts toLowercase)
    (hports : profile.ports = profilePorts specs) (hne : specs ≠ []) (u : Ufw) :
    TellsTruth toLowercase profile specs u ↔ Suits toLowercase specs u := by
  obtain ⟨hallowOk, hallowed⟩ := allowApp_spec hports hne u
  obtain ⟨hresult, hrules⟩ := deleteApp_spec hports hne (allowApp profile.ports u).2
  have hdeleteOk : AllowsAll specs u →
      (deleteApp profile.ports (allowApp profile.ports u).2).1 =
        u.answers (specs.length + (specs.length - 1)) := by
    intro hall
    rw [hresult, (hallowed hall).answers, List.length_map]
  have hstillOn : NoneMentions toLowercase specs u → AllowsAll specs u →
      (isAppAllowed toLowercase (deleteApp profile.ports (allowApp profile.ports u).2).2.rules
        profile = true ↔ ∃ spec ∈ specs, spec.IsSingle ∧
          ∀ i other, specs[i]? = some other → other.text = spec.text →
            ¬ (u.answers (specs.length + i)).isOk = true) := by
    intro hnone hall
    have hanswers := (hallowed hall).answers
    rw [List.length_map] at hanswers
    rw [isAppAllowed_iff hports hne, deleted_matches_iff hlower (hallowed hall) hnone hrules]
    simp only [hanswers]
  constructor
  · intro h
    refine ⟨fun hall => ?_, fun hmatch => ?_, fun hnone hall hlast spec hspec hsingle => ?_⟩
    · rw [← allowed_matches_iff hlower (hallowed hall)]
      exact (isAppAllowed_iff hports hne).mp (h.enabled (hallowOk.mpr hall))
    · exact h.covered ((isAppAllowed_iff hports hne).mpr hmatch)
    · by_contra hnever
      have hoff := h.disabled hnone (hallowOk.mpr hall) (by rwa [hdeleteOk hall])
      have hon := (hstillOn hnone hall).mpr ⟨spec, hspec, hsingle, fun i other hother heq hok =>
        hnever ⟨i, other, hother, heq, hok⟩⟩
      rw [hoff] at hon
      cases hon
  · intro h
    refine ⟨fun hok => ?_, fun hon => ?_, fun hnone hok hlast => ?_⟩
    · have hall := hallowOk.mp hok
      exact (isAppAllowed_iff hports hne).mpr
        ((allowed_matches_iff hlower (hallowed hall)).mpr (h.single hall))
    · exact h.all ((isAppAllowed_iff hports hne).mp hon)
    · have hall := hallowOk.mp hok
      rw [hdeleteOk hall] at hlast
      by_contra hon
      rw [Bool.not_eq_false, hstillOn hnone hall] at hon
      obtain ⟨spec, hspec, hsingle, hfails⟩ := hon
      obtain ⟨i, other, hother, heq, hdeleted⟩ := h.deleted hnone hall hlast spec hspec hsingle
      exact hfails i other hother heq hdeleted

end Switch

/-! Two profiles on a firewall without rules: a secure shell with one port and a file server with
two lists of ports. -/

def fileServerSpecs : List Spec :=
  [⟨[.port 137], .port 138, some .udp⟩, ⟨[.port 139], .port 445, some .tcp⟩]

def fileServer : AppProfile where
  name := "Samba".toList
  title := "LanManager-like file and printer server for Unix".toList
  description := "The Samba software suite".toList
  ports := "137,138/udp|139,445/tcp".toList

def secureShellSpecs : List Spec :=
  [⟨[], .port 22, some .tcp⟩]

def secureShell : AppProfile where
  name := "OpenSSH".toList
  title := "Secure Shell".toList
  description := "OpenSSH server".toList
  ports := "22/tcp".toList

/-- No rules, and every call succeeds. -/
def willing : Ufw where
  rules := []
  answers _ := .ok []

theorem toLower_keepsPorts : KeepsPorts (List.map Char.toLower) := by
  intro text h
  have hchar : ∀ c ∈ text, c.toLower = c := by
    intro c hc
    rcases h c hc with hdigit | hmem
    · rw [TextLines.isDigit_iff] at hdigit
      refine TextLines.toLower_of_not_isUpper ?_
      rw [TextLines.isUpper_iff]
      omega
    · exact (by decide : ∀ d ∈ ',' :: portCharacters, d.toLower = d) c hmem
  conv_rhs => rw [← List.map_id text]
  exact List.map_congr_left hchar

theorem secure_shell_tells_truth :
    TellsTruth (List.map Char.toLower) secureShell secureShellSpecs willing := by
  refine (switch_tells_truth_iff toLower_keepsPorts (by decide +kernel) (List.cons_ne_nil _ _)
    willing).mpr ⟨fun _ => .inl ⟨_, List.mem_cons_self, rfl⟩, ?_, ?_⟩
  · rintro ⟨rule, hrule, -⟩
    cases hrule
  · rintro - - - spec hspec -
    exact ⟨0, spec, congrArg some (List.mem_singleton.mp hspec).symm, rfl, rfl⟩

/-- The switch is off although both calls succeeded. -/
theorem file_server_stays_off : ¬ TellsTruth (List.map Char.toLower) fileServer fileServerSpecs
    willing := by
  intro h
  have hon := h.enabled (by decide +kernel)
  revert hon
  decide +kernel

end Ufwall
