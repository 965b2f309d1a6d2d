import SynOSStudio.KeyedLists.FirstOccurrences
import SynOSStudio.TextLines.Lines

/-!
# The entries of the live menu

There is one entry for each locale of the regions. A locale that several regions list belongs to
the first of them, and a label that is used already is told apart by its locale.
-/

namespace BuildTools.LiveRegions

open TextLines KeyedLists

/-! ## Rows -/

structure Region where
  id : Text
  name : Text
  locales : List Text
  labels : Text → Option Text
  timezone : Text
  keyboard : Text

structure Row where
  code : Text
  label : Text
  timezone : Text
  keyboard : Text
  deriving DecidableEq

inductive ManifestError
  | missingFile (id : Text)
  | missingKey (id : Text) (key : String)
  | declares (id declared : Text)
  | name (id : Text)
  | locale (id locale : Text)
  | keyboard (id : Text)
  | timezone (id : Text)
  | label (id label : Text)

def LANGUAGE_NAMES : List (String × String) :=
  [("fr", "French"), ("de", "German"), ("nl", "Dutch"), ("en", "English"), ("it", "Italian"),
    ("es", "Spanish"), ("pt", "Portuguese"), ("da", "Danish"), ("sv", "Swedish"),
    ("fi", "Finnish"), ("pl", "Polish"), ("ro", "Romanian"), ("el", "Greek"), ("tr", "Turkish"),
    ("uk", "Ukrainian"), ("ru", "Russian"), ("ja", "Japanese"), ("ko", "Korean"),
    ("zh", "Chinese"), ("ar", "Arabic"), ("hi", "Hindi"), ("id", "Indonesian"),
    ("vi", "Vietnamese"), ("th", "Thai"), ("cs", "Czech"), ("hu", "Hungarian"), ("sk", "Slovak"),
    ("sl", "Slovenian"), ("hr", "Croatian"), ("bg", "Bulgarian"), ("et", "Estonian"),
    ("lv", "Latvian"), ("lt", "Lithuanian"), ("no", "Norwegian"), ("nb", "Norwegian"),
    ("ga", "Irish"), ("mt", "Maltese"), ("is", "Icelandic"), ("he", "Hebrew")]

/-- The characters that GRUB cannot show. -/
def isGrubSpecial (c : Char) : Bool :=
  c == '"' || c == '\\' || c == '$' || c == '|'

section Rows

variable (upper : Text → Text)

def languageName (loc : Text) : Text :=
  let language := loc.takeWhile (· ≠ '_')
  ((LANGUAGE_NAMES.lookup (String.ofList language)).map String.toList).getD (upper language)

/-- The label that a region gives a locale. -/
def wantedLabel (region : Region) (loc : Text) : Text :=
  (region.labels loc).getD
    (if 1 < region.locales.length then region.name ++ " - ".toList ++ languageName upper loc
      else region.name)

def suffixed (label loc : Text) : Text :=
  label ++ ' ' :: '(' :: loc ++ [')']

structure LiveState where
  rows : List Row
  seen : List Text
  codes : List Text

def addRow (s : LiveState) (listing : Region × Text) : Except ManifestError LiveState :=
  let (region, loc) := listing
  if loc ∈ s.codes then .ok s
  else
    let label := wantedLabel upper region loc
    if label.any isGrubSpecial then .error (.label region.id label)
    else
      let label := if label ∈ s.seen then suffixed label loc else label
      .ok ⟨s.rows ++ [⟨loc, label, region.timezone, region.keyboard⟩], s.seen ++ [label],
        s.codes ++ [loc]⟩

def listings (regions : List Region) : List (Region × Text) :=
  regions.flatMap fun region => region.locales.map fun loc => (region, loc)

def liveRegionRows (regions : List Region) : Except ManifestError (List Row) :=
  ((listings regions).foldlM (addRow upper) ⟨[], [], []⟩).map LiveState.rows

end Rows

/-! ## Labels that are told apart -/

/-- A label, and what it becomes where it is used already. -/
structure Wish where
  label : Text
  suffixed : Text

/-- What is in use behind some wishes: every label, and what a label became that was used before. -/
inductive Used : List Wish → Text → Prop
  | wanted {wishes : List Wish} {w : Wish} : w ∈ wishes → Used wishes w.label
  | again {wishes before after : List Wish} {w : Wish} :
    wishes = before ++ w :: after → Used before w.label → Used wishes w.suffixed

/-- No label is in use together with what it would become. -/
def Unclashed (wishes : List Wish) : Prop :=
  ∀ before w after, wishes = before ++ w :: after → Used before w.label → ¬ Used before w.suffixed

def grant (used : List Text) (w : Wish) : List Text :=
  used ++ [if w.label ∈ used then w.suffixed else w.label]

def granted (wishes : List Wish) : List Text :=
  wishes.foldl grant []

section Labels

variable {wishes before after : List Wish} {v w : Wish} {text : Text}

theorem append_singleton_eq_append_cons (h : wishes ++ [w] = before ++ v :: after) :
    (before = wishes ∧ v = w) ∨ ∃ rest, wishes = before ++ v :: rest := by
  induction after using List.reverseRecOn with
  | nil =>
    obtain ⟨hbefore, hlast⟩ := List.append_inj' h rfl
    exact .inl ⟨hbefore.symm, (List.singleton_inj.mp hlast).symm⟩
  | append_singleton rest last _ =>
    rw [← List.cons_append, ← List.append_assoc] at h
    exact .inr ⟨rest, (List.append_inj' h rfl).1⟩

theorem not_used_nil : ¬ Used [] text := by
  intro h
  cases h with
  | wanted hw => cases hw
  | again hsplit _ => simp at hsplit

theorem Used.append_singleton (h : Used wishes text) : Used (wishes ++ [w]) text := by
  cases h with
  | wanted hv => exact .wanted (List.mem_append_left _ hv)
  | again hsplit hbefore => exact .again (by rw [hsplit, List.append_assoc]; rfl) hbefore

theorem used_append_singleton : Used (wishes ++ [w]) text ↔
    Used wishes text ∨ text = w.label ∨ Used wishes w.label ∧ text = w.suffixed := by
  constructor
  · intro h
    cases h with
    | wanted hv =>
      rcases List.mem_append.mp hv with hv | hv
      · exact .inl (.wanted hv)
      · exact .inr (.inl (congrArg Wish.label (List.mem_singleton.mp hv)))
    | again hsplit hbefore =>
      rcases append_singleton_eq_append_cons hsplit with ⟨rfl, rfl⟩ | ⟨rest, hrest⟩
      · exact .inr (.inr ⟨hbefore, rfl⟩)
      · exact .inl (.again hrest hbefore)
  · rintro (h | rfl | ⟨h, rfl⟩)
    · exact h.append_singleton
    · exact .wanted (List.mem_append_right _ List.mem_cons_self)
    · exact .again rfl h

theorem granted_append (wishes : List Wish) (w : Wish) :
    granted (wishes ++ [w]) = grant (granted wishes) w :=
  List.foldl_concat ..

theorem mem_granted : text ∈ granted wishes ↔ Used wishes text := by
  induction wishes using List.reverseRecOn generalizing text with
  | nil => exact iff_of_false List.not_mem_nil not_used_nil
  | append_singleton wishes w ih =>
    rw [granted_append, grant, List.mem_append, List.mem_singleton, used_append_singleton, ih]
    by_cases hused : Used wishes w.label
    · rw [if_pos (ih.mpr hused)]
      constructor
      · rintro (h | h)
        · exact .inl h
        · exact .inr (.inr ⟨hused, h⟩)
      · rintro (h | rfl | ⟨_, h⟩)
        · exact .inl h
        · exact .inl hused
        · exact .inr h
    · rw [if_neg (mt ih.mp hused)]
      simp [hused]

theorem unclashed_append_singleton : Unclashed (wishes ++ [w]) ↔
    Unclashed wishes ∧ (Used wishes w.label → ¬ Used wishes w.suffixed) := by
  constructor
  · intro h
    refine ⟨fun before v after hsplit => h before v (after ++ [w]) ?_, h wishes w [] rfl⟩
    rw [hsplit, List.append_assoc, List.cons_append]
  · rintro ⟨hold, hnew⟩ before v after hsplit
    rcases append_singleton_eq_append_cons hsplit with ⟨rfl, rfl⟩ | ⟨rest, hrest⟩
    · exact hnew
    · exact hold before v rest hrest

/-- The labels are distinct just when no label clashes with what another becomes. -/
theorem granted_nodup_iff : (granted wishes).Nodup ↔ Unclashed wishes := by
  induction wishes using List.reverseRecOn with
  | nil => exact iff_of_true List.nodup_nil fun before w after hsplit => by simp at hsplit
  | append_singleton wishes w ih =>
    rw [granted_append, grant, ← List.concat_eq_append, List.nodup_concat,
      unclashed_append_singleton, ih]
    refine and_comm.trans (and_congr_right fun _ => ?_)
    by_cases hused : Used wishes w.label
    · simp [mem_granted, hused]
    · simp [mem_granted, hused]

end Labels

/-! ## Kept listings -/

abbrev sameLocale (a b : Region × Text) : Bool :=
  decide (a.2 = b.2)

/-- The listings that get a row: the first one of each locale. -/
def kept (regions : List Region) : List (Region × Text) :=
  addAll sameLocale [] (listings regions)

section Listings

variable {regions : List Region} {listing : Region × Text} {seen : List (Region × Text)}
  {loc : Text}

theorem mem_map_listings :
    loc ∈ (listings regions).map Prod.snd ↔ ∃ region ∈ regions, loc ∈ region.locales := by
  simp [listings]

theorem map_kept : (kept regions).map Prod.snd = join [] ((listings regions).map Prod.snd) :=
  map_addAll_key [] _

/-- What is added behind some listings belongs to the first region of its locale. -/
theorem find_of_mem_addAll
    (h : listing ∈ addAll sameLocale seen (listings regions)) :
    listing ∈ seen ∨ ¬ Has sameLocale seen listing ∧
      regions.find? (fun region => listing.2 ∈ region.locales) = some listing.1 := by
  induction regions generalizing seen with
  | nil => exact .inl h
  | cons region regions ih =>
    rw [listings, List.flatMap_cons, addAll_append] at h
    rcases ih h with hfirst | ⟨hnot, hfind⟩
    · rcases mem_of_mem_addAll hfirst with hseen | hown
      · exact .inl hseen
      · obtain ⟨loc, hloc, rfl⟩ := List.mem_map.mp hown
        refine (not_has_of_mem_addAll hfirst).imp_right fun hnot => ⟨hnot, ?_⟩
        exact List.find?_cons_of_pos (decide_eq_true hloc)
    · have hother : listing.2 ∉ region.locales := by
        intro hloc
        have hmem : (region, listing.2) ∈ region.locales.map fun loc => (region, loc) :=
          List.mem_map.mpr ⟨listing.2, hloc, rfl⟩
        have hhas : Has sameLocale
            (addAll sameLocale seen (region.locales.map fun loc => (region, loc)))
            (region, listing.2) := has_addAll (fun _ _ => decide_eq_true rfl) hmem
        obtain ⟨other, hother, hsame⟩ := hhas
        exact hnot ⟨other, hother, hsame⟩
      refine .inr ⟨fun hhas => hnot (hhas.mono (prefix_addAll _ _).subset), ?_⟩
      rw [List.find?_cons_of_neg (by simpa using hother), hfind]

theorem find_of_mem_kept (h : listing ∈ kept regions) :
    regions.find? (fun region => listing.2 ∈ region.locales) = some listing.1 :=
  ((find_of_mem_addAll h).resolve_left List.not_mem_nil).2

end Listings

/-! ## The rows of the kept listings -/

section Run

variable (upper : Text → Text)

def wish (listing : Region × Text) : Wish where
  label := wantedLabel upper listing.1 listing.2
  suffixed := suffixed (wantedLabel upper listing.1 listing.2) listing.2

def row (listing : Region × Text) (label : Text) : Row where
  code := listing.2
  label := label
  timezone := listing.1.timezone
  keyboard := listing.1.keyboard

/-- The state behind some kept listings. -/
def stateOf (before : List (Region × Text)) : LiveState where
  rows := (before.zip (granted (before.map (wish upper)))).map fun p => row p.1 p.2
  seen := granted (before.map (wish upper))
  codes := before.map Prod.snd

variable {upper} {regions : List Region} {before added : List (Region × Text)}
  {listing : Region × Text} {s : LiveState} {rows : List Row}

theorem length_granted (wishes : List Wish) : (granted wishes).length = wishes.length := by
  induction wishes using List.reverseRecOn with
  | nil => rfl
  | append_singleton wishes w ih => simp [granted_append, grant, ih]

theorem length_granted_wishes (upper : Text → Text) (before : List (Region × Text)) :
    (granted (before.map (wish upper))).length = before.length := by
  rw [length_granted, List.length_map]

theorem addRow_stateOf (h : addRow upper (stateOf upper before) listing = .ok s) :
    s = stateOf upper (addNew sameLocale before listing) := by
  obtain ⟨region, loc⟩ := listing
  simp only [addRow] at h
  by_cases hcode : loc ∈ (stateOf upper before).codes
  · have hhas : Has sameLocale before (region, loc) := by simpa [Has, stateOf] using hcode
    rw [if_pos hcode] at h
    rw [addNew_of_has hhas]
    exact (Except.ok.inj h).symm
  · have hhas : ¬ Has sameLocale before (region, loc) := by simpa [Has, stateOf] using hcode
    rw [if_neg hcode] at h
    split at h
    · cases h
    · have hlength := (length_granted_wishes upper before).symm
      rw [addNew_of_not_has hhas, ← Except.ok.inj h]
      simp only [stateOf, List.map_append, List.map_cons, List.map_nil, granted_append, grant,
        List.zip_append hlength, List.zip_cons_cons, List.zip_nil_left]
      rfl

theorem foldlM_addRow (before : List (Region × Text)) (h : added.foldlM (addRow upper) (stateOf upper before) = .ok s) :
    s = stateOf upper (addAll sameLocale before added) := by
  induction added generalizing before with
  | nil => exact (Except.ok.inj h).symm
  | cons listing added ih =>
    rw [List.foldlM_cons] at h
    cases hrow : addRow upper (stateOf upper before) listing with
    | error e => rw [hrow] at h; cases h
    | ok next =>
      rw [hrow, addRow_stateOf hrow] at h
      exact ih _ h

/-- The label can be shown. -/
def Shown (upper : Text → Text) (listing : Region × Text) : Prop :=
  (wantedLabel upper listing.1 listing.2).any isGrubSpecial = false

theorem shown_of_addRow (h : addRow upper (stateOf upper before) listing = .ok s)
    (hnew : ¬ Has sameLocale before listing) : Shown upper listing := by
  obtain ⟨region, loc⟩ := listing
  have hcode : loc ∉ (stateOf upper before).codes := by simpa [Has, stateOf] using hnew
  simp only [addRow] at h
  rw [if_neg hcode] at h
  split at h
  · cases h
  · next hshown => exact Bool.eq_false_iff.mpr hshown

theorem shown_of_foldlM (before : List (Region × Text)) (hbefore : ∀ listing ∈ before, Shown upper listing)
    (h : added.foldlM (addRow upper) (stateOf upper before) = .ok s) :
    ∀ listing ∈ addAll sameLocale before added, Shown upper listing := by
  induction added generalizing before with
  | nil => exact hbefore
  | cons listing added ih =>
    rw [List.foldlM_cons] at h
    cases hrow : addRow upper (stateOf upper before) listing with
    | error e => rw [hrow] at h; cases h
    | ok next =>
      rw [hrow, addRow_stateOf hrow] at h
      refine ih _ ?_ h
      by_cases hhas : Has sameLocale before listing
      · rwa [addNew_of_has hhas]
      · rw [addNew_of_not_has hhas]
        intro other hother
        rcases List.mem_append.mp hother with hother | hother
        · exact hbefore other hother
        · rw [List.mem_singleton.mp hother]
          exact shown_of_addRow hrow hhas

theorem shown_of_mem_kept (h : liveRegionRows upper regions = .ok rows)
    (hlisting : listing ∈ kept regions) : Shown upper listing := by
  unfold liveRegionRows at h
  cases hrun : (listings regions).foldlM (addRow upper) ⟨[], [], []⟩ with
  | error e => rw [hrun] at h; cases h
  | ok s => exact shown_of_foldlM [] (by simp) hrun listing hlisting

theorem liveRegionRows_eq (h : liveRegionRows upper regions = .ok rows) :
    rows = (stateOf upper (kept regions)).rows := by
  unfold liveRegionRows at h
  cases hrun : (listings regions).foldlM (addRow upper) ⟨[], [], []⟩ with
  | error e => rw [hrun] at h; cases h
  | ok s =>
    rw [hrun] at h
    have hrows : s.rows = rows := Except.ok.inj h
    rw [← hrows, foldlM_addRow [] hrun]
    rfl

theorem map_code_stateOf (upper : Text → Text) (before : List (Region × Text)) :
    (stateOf upper before).rows.map Row.code = before.map Prod.snd := by
  have hfst := List.map_fst_zip (length_granted_wishes upper before).ge
  calc (stateOf upper before).rows.map Row.code
      = ((before.zip (granted (before.map (wish upper)))).map Prod.fst).map Prod.snd := by
        simp only [stateOf, List.map_map]
        rfl
    _ = before.map Prod.snd := by rw [hfst]

theorem map_label_stateOf (upper : Text → Text) (before : List (Region × Text)) :
    (stateOf upper before).rows.map Row.label = granted (before.map (wish upper)) := by
  have hsnd := List.map_snd_zip (length_granted_wishes upper before).le
  calc (stateOf upper before).rows.map Row.label
      = (before.zip (granted (before.map (wish upper)))).map Prod.snd := by
        simp only [stateOf, List.map_map]
        rfl
    _ = granted (before.map (wish upper)) := hsnd

/-- A label is the one that its listing asks for, or what that becomes. -/
theorem label_of_mem_zip {label : Text}
    (h : (listing, label) ∈ before.zip (granted (before.map (wish upper)))) :
    label = (wish upper listing).label ∨ label = (wish upper listing).suffixed := by
  induction before using List.reverseRecOn with
  | nil => cases h
  | append_singleton before last ih =>
    have hlength := (length_granted_wishes upper before).symm
    rw [List.map_append, List.map_singleton, granted_append, grant, List.zip_append hlength,
      List.mem_append] at h
    rcases h with h | h
    · exact ih h
    · obtain ⟨hlisting, hlabel⟩ := Prod.mk.inj (List.mem_singleton.mp h)
      rw [hlabel, hlisting]
      by_cases hused : (wish upper last).label ∈ granted (before.map (wish upper))
      · exact .inr (if_pos hused)
      · exact .inl (if_neg hused)

theorem exists_listing_of_mem_stateOf {r : Row} (h : r ∈ (stateOf upper before).rows) :
    ∃ listing ∈ before, ∃ label, r = row listing label ∧
      (label = (wish upper listing).label ∨ label = (wish upper listing).suffixed) := by
  obtain ⟨p, hp, rfl⟩ := List.mem_map.mp h
  exact ⟨p.1, (List.of_mem_zip hp).1, p.2, rfl, label_of_mem_zip hp⟩

theorem exists_row_of_mem (upper : Text → Text) (h : listing ∈ before) : ∃ label,
    row listing label ∈ (stateOf upper before).rows ∧
      (label = (wish upper listing).label ∨ label = (wish upper listing).suffixed) := by
  have hfst := List.map_fst_zip (length_granted_wishes upper before).ge
  obtain ⟨p, hp, rfl⟩ := List.mem_map.mp (hfst ▸ h)
  exact ⟨p.2, List.mem_map.mpr ⟨p, hp, rfl⟩, label_of_mem_zip hp⟩

/-- Each locale of the regions has one row, with the settings of its first region, and the rows
have distinct labels. -/
structure Faithful (regions : List Region) (rows : List Row) : Prop where
  codes : (rows.map Row.code).Nodup
  labels : (rows.map Row.label).Nodup
  covers : ∀ loc, loc ∈ rows.map Row.code ↔ ∃ region ∈ regions, loc ∈ region.locales
  settings : ∀ r ∈ rows, ∃ region,
    regions.find? (fun region => r.code ∈ region.locales) = some region ∧
      r.timezone = region.timezone ∧ r.keyboard = region.keyboard

/-- What the labels need is all that the rows can miss. -/
theorem faithful_iff (h : liveRegionRows upper regions = .ok rows) :
    Faithful regions rows ↔ Unclashed ((kept regions).map (wish upper)) := by
  obtain rfl := liveRegionRows_eq h
  have hcodes := (map_code_stateOf upper (kept regions)).trans map_kept
  have hlabels := map_label_stateOf upper (kept regions)
  constructor
  · intro hfaithful
    rw [← granted_nodup_iff, ← hlabels]
    exact hfaithful.labels
  · intro hclash
    refine ⟨?_, ?_, fun loc => ?_, fun r hr => ?_⟩
    · rw [hcodes]
      exact join_nodup List.nodup_nil
    · rw [hlabels]
      exact granted_nodup_iff.mpr hclash
    · rw [hcodes, mem_join, mem_map_listings]
      exact or_iff_right List.not_mem_nil
    · obtain ⟨listing, hlisting, label, rfl, _⟩ := exists_listing_of_mem_stateOf hr
      exact ⟨listing.1, find_of_mem_kept hlisting, rfl, rfl⟩

def region (name loc : String) : Region where
  id := "fr".toList
  name := name.toList
  locales := [loc.toList]
  labels := fun _ => none
  timezone := "Europe/Paris".toList
  keyboard := "fr".toList

theorem two_regions_faithful :
    Faithful [region "France" "en_US", region "France" "fr_FR"]
      [row (region "France" "en_US", "en_US".toList) "France".toList,
        row (region "France" "fr_FR", "fr_FR".toList) "France (fr_FR)".toList] ↔
      Unclashed ((kept [region "France" "en_US", region "France" "fr_FR"]).map
        (wish (List.map Char.toUpper))) :=
  faithful_iff (by rfl)

/-- A suffixed label can be the name of an earlier region. -/
theorem suffixed_label_repeats :
    ∃ regions rows, liveRegionRows (List.map Char.toUpper) regions = .ok rows ∧
      ¬ (rows.map Row.label).Nodup := by
  refine ⟨[region "France (fr_FR)" "de_DE", region "France" "en_US", region "France" "fr_FR"],
    [row (region "France (fr_FR)" "de_DE", "de_DE".toList) "France (fr_FR)".toList,
      row (region "France" "en_US", "en_US".toList) "France".toList,
      row (region "France" "fr_FR", "fr_FR".toList) "France (fr_FR)".toList], by rfl, by decide⟩

end Run

end BuildTools.LiveRegions
