import SynOSStudio.BuildTools.Branding
import SynOSStudio.KeyedLists.FirstOccurrences

/-!
# Lists of packages

Abstract names are expanded to packages, each of which is listed once. What a name adds does not
depend on what is listed, so lists of names can be resolved one after the other.
-/

namespace BuildTools.Packages

open TextLines KeyedLists

/-! ## Resolution -/

inductive AbstractName
  | plain (name : Text)
  | guarded (name : Option Text) (onlyOn : List Text)

inductive Entry
  | unavailable (reason : Text)
  | templates (texts : List Text)

inductive ManifestError
  | unnamed
  | unavailable (profile item base reason : Text)
  | staleLanguages (base template code : Text)
  | unknownBundles (ids : List Text)

structure LanguageGap where
  template : Text
  lang : Text
  reason : Text

/-- The arguments of `resolve_packages` but for the names. -/
structure Settings where
  packageMap : Text → Option Entry
  languageMap : Option (Text → Option (Text → Option Entry))
  arch : Text
  langCodes : List Text
  baseId : Text
  profileId : Text
  suite : Option Text
  refuseUnavailable : Bool

structure Lists where
  concrete : List Text
  unmapped : List Text
  gaps : List LanguageGap

def Lists.empty : Lists := ⟨[], [], []⟩

def Lists.add (s : Lists) (name : Text) : Lists :=
  { s with concrete := join s.concrete [name] }

def langMark : Text := '$' :: '\x7b' :: "LANG".toList ++ ['\x7d']

def archMark : Text := '$' :: '\x7b' :: "ARCH".toList ++ ['\x7d']

/-- A name for the suite goes before the name for every suite. -/
def lookupKey {α : Type} (suite : Option Text) (table : Text → Option α) (name : Text) : Text :=
  match suite with
  | none => name
  | some suite =>
    if suite ≠ [] ∧ (table (name ++ '@' :: suite)).isSome then name ++ '@' :: suite else name

section Resolution

variable (settings : Settings)

def langEntry (template : Text) (table : Text → Option Entry) (code : Text) :
    Except ManifestError Entry :=
  match table (lookupKey settings.suite table code) with
  | none => .error (.staleLanguages settings.baseId template code)
  | some entry => .ok entry

def addLanguage (template : Text) (table : Text → Option Entry) (s : Lists) (code : Text) :
    Except ManifestError Lists := do
  match ← langEntry settings template table code with
  | .unavailable reason => return { s with gaps := s.gaps ++ [⟨template, code, reason⟩] }
  | .templates names =>
    return names.foldl (fun s name => s.add (replaceAll archMark settings.arch name)) s

def addTemplate (s : Lists) (template : Text) : Except ManifestError Lists :=
  if langMark <:+: template then
    match settings.languageMap.bind fun languages => languages template with
    | some table => settings.langCodes.foldlM (addLanguage settings template table) s
    | none => return settings.langCodes.foldl (fun s code =>
        s.add (replaceAll archMark settings.arch (replaceAll langMark code template))) s
  else return s.add (replaceAll archMark settings.arch template)

def addName (s : Lists) (item : Text) : Except ManifestError Lists :=
  match settings.packageMap (lookupKey settings.suite settings.packageMap item) with
  | none => return { s.add item with unmapped := s.unmapped ++ [item] }
  | some (.unavailable reason) =>
    if settings.refuseUnavailable then
      .error (.unavailable settings.profileId item settings.baseId reason)
    else return s
  | some (.templates texts) => texts.foldlM (addTemplate settings) s

def addItem (s : Lists) : AbstractName → Except ManifestError Lists
  | .plain name => addName settings s name
  | .guarded name onlyOn =>
    if onlyOn ≠ [] ∧ settings.baseId ∉ onlyOn then return s
    else
      match name with
      | none => .error .unnamed
      | some name => addName settings s name

def resolvePackages (abstract : List AbstractName) : Except ManifestError Lists :=
  abstract.foldlM (addItem settings) .empty

end Resolution

/-! ## What a step adds -/

/-- What is added to the lists. -/
def Lists.extend (s added : Lists) : Lists :=
  ⟨join s.concrete added.concrete, s.unmapped ++ added.unmapped, s.gaps ++ added.gaps⟩

theorem Lists.extend_assoc (s t u : Lists) : (s.extend t).extend u = s.extend (t.extend u) := by
  simp [extend, join_assoc]

@[simp] theorem Lists.extend_empty (s : Lists) : s.extend .empty = s := by
  simp [extend, empty, join, addAll]

/-- The step fails whatever the lists are, or it adds the same to all of them. -/
def Additive (step : Lists → Except ManifestError Lists) : Prop :=
  ∃ outcome : Except ManifestError Lists, ∀ s, step s = outcome.map s.extend

namespace Additive

variable {step next : Lists → Except ManifestError Lists} {α : Type}

theorem error (e : ManifestError) : Additive fun _ => .error e :=
  ⟨.error e, fun _ => rfl⟩

theorem pure (added : Lists) : Additive fun s => .ok (s.extend added) :=
  ⟨.ok added, fun _ => rfl⟩

theorem skip : Additive .ok :=
  ⟨.ok .empty, fun s => congrArg Except.ok s.extend_empty.symm⟩

theorem add (name : Text) : Additive fun s => .ok (s.add name) :=
  ⟨.ok ⟨[name], [], []⟩, fun s => by simp [Except.map, Lists.extend, Lists.add]⟩

theorem bind (h : Additive step) (h' : Additive next) : Additive fun s => step s >>= next := by
  obtain ⟨first, hfirst⟩ := h
  obtain ⟨second, hsecond⟩ := h'
  refine ⟨first.bind fun added => second.map added.extend, fun s => ?_⟩
  simp only [hfirst]
  cases first with
  | error e => rfl
  | ok added =>
    have hnext := hsecond (s.extend added)
    cases second with
    | error e => exact hnext
    | ok more =>
      rw [Except.map, s.extend_assoc] at hnext
      exact hnext

theorem foldlM {body : Lists → α → Except ManifestError Lists}
    (h : ∀ a, Additive fun s => body s a) (items : List α) :
    Additive fun s => items.foldlM body s := by
  induction items with
  | nil => exact skip
  | cons item items ih =>
    simp only [List.foldlM_cons]
    exact (h item).bind ih

theorem foldl_add (name : α → Text) (items : List α) :
    Additive fun s => .ok (items.foldl (fun s a => s.add (name a)) s) := by
  have hfold : Additive fun s => items.foldlM (fun s a => .ok (s.add (name a))) s :=
    foldlM (fun a => add (name a)) items
  have hpure (s : Lists) :
      items.foldlM (fun s a => (.ok (s.add (name a)) : Except ManifestError Lists)) s =
        .ok (items.foldl (fun s a => s.add (name a)) s) := List.foldlM_pure ..
  simpa only [hpure] using hfold

end Additive

section Steps

variable (settings : Settings)

theorem additive_addLanguage (template : Text) (table : Text → Option Entry) (code : Text) :
    Additive fun s => addLanguage settings template table s code := by
  unfold addLanguage
  cases hentry : langEntry settings template table code with
  | error e => exact .error e
  | ok entry =>
    cases entry with
    | unavailable reason =>
      have hpure : Additive fun s =>
          .ok { s with gaps := s.gaps ++ [⟨template, code, reason⟩] } := by
        simpa [Lists.extend, join, addAll] using
          Additive.pure ⟨[], [], [⟨template, code, reason⟩]⟩
      exact hpure
    | templates names => exact Additive.foldl_add (replaceAll archMark settings.arch) names

theorem additive_addTemplate (template : Text) :
    Additive fun s => addTemplate settings s template := by
  unfold addTemplate
  split_ifs
  · split
    · exact Additive.foldlM (additive_addLanguage settings template _) settings.langCodes
    · exact Additive.foldl_add _ settings.langCodes
  · exact Additive.add _

theorem additive_addName (item : Text) : Additive fun s => addName settings s item := by
  unfold addName
  split
  · have hpure : Additive fun s =>
        .ok { s.add item with unmapped := s.unmapped ++ [item] } := by
      simpa [Lists.extend, Lists.add] using Additive.pure ⟨[item], [item], []⟩
    exact hpure
  · split_ifs
    · exact .error _
    · exact .skip
  · exact Additive.foldlM (additive_addTemplate settings) _

theorem additive_addItem (item : AbstractName) : Additive fun s => addItem settings s item := by
  cases item with
  | plain name => exact additive_addName settings name
  | guarded name onlyOn =>
    simp only [addItem]
    split_ifs
    · exact .skip
    · cases name with
      | none => exact .error _
      | some name => exact additive_addName settings name

theorem additive_items (abstract : List AbstractName) :
    ∃ outcome : Except ManifestError Lists, ∀ s,
      abstract.foldlM (addItem settings) s = outcome.map s.extend :=
  Additive.foldlM (additive_addItem settings) abstract

end Steps

/-! ## Lists of names -/

section Laws

variable {settings : Settings} {first second third : List AbstractName} {a b r : Lists}

theorem nodup_foldlM {s : Lists} (hs : s.concrete.Nodup)
    (h : first.foldlM (addItem settings) s = .ok r) : r.concrete.Nodup := by
  obtain ⟨outcome, houtcome⟩ := additive_items settings first
  rw [houtcome] at h
  cases outcome with
  | error e => cases h
  | ok added =>
    cases h
    exact join_nodup hs

theorem resolvePackages_nodup (h : resolvePackages settings first = .ok r) : r.concrete.Nodup :=
  nodup_foldlM List.nodup_nil h

/-- Names are resolved behind others as they are alone. -/
theorem foldlM_eq (abstract : List AbstractName) (s : Lists) :
    abstract.foldlM (addItem settings) s = (resolvePackages settings abstract).map s.extend := by
  obtain ⟨outcome, houtcome⟩ := additive_items settings abstract
  have halone : resolvePackages settings abstract = outcome.map Lists.empty.extend :=
    houtcome .empty
  rw [halone, houtcome]
  cases outcome with
  | error e => rfl
  | ok added =>
    have hempty : s.extend (Lists.empty.extend added) = s.extend added := by
      rw [← Lists.extend_assoc, Lists.extend_empty]
    exact congrArg Except.ok hempty.symm

theorem resolvePackages_append (first second : List AbstractName) :
    resolvePackages settings (first ++ second) = do
      let a ← resolvePackages settings first
      let b ← resolvePackages settings second
      return a.extend b := by
  rw [resolvePackages, List.foldlM_append]
  refine bind_congr fun a => ?_
  rw [foldlM_eq]
  cases resolvePackages settings second with
  | error e => rfl
  | ok b => rfl

theorem fails_append_iff : (∃ e, resolvePackages settings (first ++ second) = .error e) ↔
    (∃ e, resolvePackages settings first = .error e) ∨
      ∃ e, resolvePackages settings second = .error e := by
  rw [resolvePackages_append]
  cases resolvePackages settings first with
  | error e => exact ⟨fun _ => .inl ⟨e, rfl⟩, fun _ => ⟨e, rfl⟩⟩
  | ok a =>
    cases resolvePackages settings second with
    | error e => exact ⟨fun _ => .inr ⟨e, rfl⟩, fun _ => ⟨e, rfl⟩⟩
    | ok b =>
      refine ⟨fun ⟨e, he⟩ => (nomatch he), ?_⟩
      rintro (⟨e, he⟩ | ⟨e, he⟩)
      · cases he
      · cases he

theorem resolvePackages_append_ok (ha : resolvePackages settings first = .ok a)
    (hb : resolvePackages settings second = .ok b) :
    resolvePackages settings (first ++ second) = .ok (a.extend b) := by
  rw [resolvePackages_append, ha, hb]
  rfl

/-- What resolves together resolves alone. -/
theorem resolvePackages_of_append (h : resolvePackages settings (first ++ second) = .ok r) :
    ∃ a b, resolvePackages settings first = .ok a ∧ resolvePackages settings second = .ok b ∧
      r = a.extend b := by
  rw [resolvePackages_append] at h
  cases ha : resolvePackages settings first with
  | error e => rw [ha] at h; cases h
  | ok a =>
    cases hb : resolvePackages settings second with
    | error e => rw [ha, hb] at h; cases h
    | ok b =>
      rw [ha, hb] at h
      cases h
      exact ⟨a, b, rfl, rfl, rfl⟩

/-- The packages of some of the names are packages of all of them. -/
theorem concrete_subset (h : resolvePackages settings (first ++ second ++ third) = .ok r) :
    ∃ b, resolvePackages settings second = .ok b ∧ b.concrete ⊆ r.concrete := by
  obtain ⟨both, c, hboth, -, rfl⟩ := resolvePackages_of_append h
  obtain ⟨a, b, -, hb, rfl⟩ := resolvePackages_of_append hboth
  exact ⟨b, hb, fun name hname => mem_join.mpr (.inl (mem_join.mpr (.inr hname)))⟩

end Laws

/-! ## The lists of an image -/

/-- What `render` reads for its lists of packages. -/
structure Request where
  settings : Settings
  bundles : Text → Option (List Text)
  bundleIds : List Text
  addRefs : List AbstractName
  remove : List Text
  usbguard : Bool
  compliance : Text
  directoryJoin : Text
  gpu : Text
  repositories : List (List Text)

structure Rendered where
  languagePacks : List Text
  beforeRemoval : List Text
  unmapped : List Text
  install : List Text
  remove : List Text
  appliance : List Text

namespace Request

variable (request : Request)

def bundleNames : List AbstractName :=
  request.bundleIds.flatMap fun id => ((request.bundles id).getD []).map .plain

/-- The names that security, the directory and the graphics hardware ask for. -/
def featureNames : List AbstractName :=
  (if request.usbguard then [.plain "usbguard".toList] else []) ++
    (if request.compliance ≠ "none".toList then [.plain "openscap".toList] else []) ++
    (if request.directoryJoin ≠ "none".toList then [.plain "directory".toList] else []) ++
    if request.gpu ≠ "none".toList then [.plain ("gpu-".toList ++ request.gpu)] else []

def isNamed : AbstractName → Bool
  | .plain _ => true
  | .guarded name _ => name.isSome

def check : Except ManifestError Unit :=
  let unknown := request.bundleIds.filter fun id => (request.bundles id).isNone
  if ¬ request.addRefs.all isNamed then .error .unnamed
  else if unknown ≠ [] then .error (.unknownBundles unknown)
  else .ok ()

def refusing : Settings := { request.settings with refuseUnavailable := true }

/-- The part of `render` that makes the lists of packages. -/
def render : Except ManifestError Rendered := do
  let languagePacks ← resolvePackages { request.refusing with profileId := [] }
    [.plain "translations".toList]
  request.check
  let installed ← resolvePackages request.refusing
    (request.bundleNames ++ request.addRefs ++ request.featureNames)
  let removed ← resolvePackages { request.settings with refuseUnavailable := false }
    (request.remove.map .plain)
  let appliance ← resolvePackages request.refusing request.addRefs
  return {
    languagePacks := languagePacks.concrete
    beforeRemoval := installed.concrete
    unmapped := installed.unmapped
    install := installed.concrete.filter (· ∉ removed.concrete)
    remove := removed.concrete
    appliance := (join appliance.concrete request.repositories.flatten).filter
      (· ∉ removed.concrete) }

end Request

section Rendering

variable {request : Request} {rendered : Rendered}

theorem bind_eq_ok {α β : Type} {x : Except ManifestError α} {f : α → Except ManifestError β} {b : β}
    (h : (x >>= f) = .ok b) : ∃ a, x = .ok a ∧ f a = .ok b := by
  cases x with
  | error e => cases h
  | ok a => exact ⟨a, rfl, h⟩

/-- The lists that an image is rendered with. -/
theorem render_eq_ok (h : request.render = .ok rendered) : ∃ settings installed appliance removed,
    resolvePackages settings (request.bundleNames ++ request.addRefs ++ request.featureNames) =
      .ok installed ∧
    resolvePackages settings request.addRefs = .ok appliance ∧
    rendered.beforeRemoval = installed.concrete ∧
    rendered.remove = removed ∧
    rendered.install = installed.concrete.filter (· ∉ removed) ∧
    rendered.appliance =
      (join appliance.concrete request.repositories.flatten).filter (· ∉ removed) := by
  unfold Request.render at h
  obtain ⟨languagePacks, -, h⟩ := bind_eq_ok h
  obtain ⟨-, -, h⟩ := bind_eq_ok h
  obtain ⟨installed, hinstalled, h⟩ := bind_eq_ok h
  obtain ⟨removed, -, h⟩ := bind_eq_ok h
  obtain ⟨appliance, happliance, h⟩ := bind_eq_ok h
  cases h
  exact ⟨_, installed, appliance, removed.concrete, hinstalled, happliance, rfl, rfl, rfl, rfl⟩

/-- Resolution takes lists of names apart: what it makes of two lists together is what it makes of
them one after the other. So the packages of an appliance are packages of the image. -/
theorem package_lists_agree (settings : Settings) (first second : List AbstractName)
    (request : Request) :
    ((∃ e, resolvePackages settings (first ++ second) = .error e) ↔
      (∃ e, resolvePackages settings first = .error e) ∨
        ∃ e, resolvePackages settings second = .error e) ∧
    (∀ a b, resolvePackages settings first = .ok a → resolvePackages settings second = .ok b →
      ∃ r, resolvePackages settings (first ++ second) = .ok r ∧
        r.concrete = a.concrete ++ b.concrete.filter (· ∉ a.concrete) ∧ r.concrete.Nodup ∧
        r.unmapped = a.unmapped ++ b.unmapped) ∧
    ∀ rendered, request.render = .ok rendered →
      (∀ name ∈ rendered.appliance,
        name ∈ rendered.beforeRemoval ∨ ∃ packages ∈ request.repositories, name ∈ packages) ∧
      rendered.install.Nodup ∧ rendered.appliance.Nodup ∧
      (∀ name ∈ rendered.install, name ∉ rendered.remove) ∧
      ∀ name ∈ rendered.appliance, name ∉ rendered.remove := by
  refine ⟨fails_append_iff, fun a b ha hb => ?_, fun rendered h => ?_⟩
  · have hboth := resolvePackages_append_ok ha hb
    refine ⟨a.extend b, hboth, ?_, resolvePackages_nodup hboth, rfl⟩
    exact (join_eq_append_filter (resolvePackages_nodup hb)).trans
      (congrArg _ (List.filter_congr fun name _ => decide_eq_decide.mpr Iff.rfl))
  · obtain ⟨settings, installed, appliance, removed, hinstalled, happliance, hbefore, hremove,
      hinstall, hlist⟩ := render_eq_ok h
    obtain ⟨again, hagain, hsub⟩ := concrete_subset hinstalled
    cases happliance.symm.trans hagain
    rw [hbefore, hremove, hinstall, hlist]
    refine ⟨fun name hname => ?_, ?_, ?_, ?_, ?_⟩
    · rcases mem_join.mp (List.mem_filter.mp hname).1 with hname | hname
      · exact .inl (hsub hname)
      · exact .inr (List.mem_flatten.mp hname)
    · exact (resolvePackages_nodup hinstalled).filter _
    · exact (join_nodup (resolvePackages_nodup happliance)).filter _
    · exact fun name hname => of_decide_eq_true (List.mem_filter.mp hname).2
    · exact fun name hname => of_decide_eq_true (List.mem_filter.mp hname).2

/-- Two editors, of which an appliance names one. -/
def editorSettings : Settings where
  packageMap name := if name = "editor".toList then
    some (.templates ["vim".toList, "nano".toList]) else none
  languageMap := none
  arch := "amd64".toList
  langCodes := ["en".toList]
  baseId := "debian".toList
  profileId := []
  suite := none
  refuseUnavailable := true

def editorRequest : Request where
  settings := editorSettings
  bundles _ := none
  bundleIds := []
  addRefs := [.plain "editor".toList]
  remove := ["nano".toList]
  usbguard := false
  compliance := "none".toList
  directoryJoin := "none".toList
  gpu := "none".toList
  repositories := [["kubelet".toList]]

theorem editor_lists_agree :
    (∃ r, resolvePackages editorSettings [.plain "vim".toList, .plain "editor".toList] = .ok r ∧
      r.concrete = ["vim".toList, "nano".toList]) ∧
    ∃ rendered, editorRequest.render = .ok rendered ∧
      rendered.appliance = ["vim".toList, "kubelet".toList] ∧ rendered.appliance.Nodup := by
  obtain ⟨-, hboth, hrender⟩ := package_lists_agree editorSettings [.plain "vim".toList]
    [.plain "editor".toList] editorRequest
  refine ⟨?_, ?_⟩
  · obtain ⟨r, hr, hconcrete, -, -⟩ := hboth ⟨["vim".toList], ["vim".toList], []⟩
      ⟨["vim".toList, "nano".toList], [], []⟩ (by rfl) (by rfl)
    exact ⟨r, hr, hconcrete⟩
  · refine ⟨⟨["translations".toList], ["vim".toList, "nano".toList], [], ["vim".toList],
      ["nano".toList], ["vim".toList, "kubelet".toList]⟩, by rfl, rfl, ?_⟩
    exact (hrender _ (by rfl)).2.2.1

end Rendering

end BuildTools.Packages
