import SynOSStudio.BashGuess.Trimming
import SynOSStudio.RecoveryEngine.MountTables
import SynOSStudio.SnapshotsManager.AptHistory

/-!
# The history as APT prints it

A change is a name with its versions in parentheses, a field is a line, and a transaction is a block
of fields in any order with unknown ones between them. Every printed transaction is read back, and a
damaged block does not reach its neighbours.
-/

namespace SnapshotsManager.AptHistory

open BashGuess
open SecurityKeys.Ssh (lines stripLineBreak)
open RecoveryEngine.Layout (splitOnce splitOnce_skip)

/-! ## Printing -/

structure IsVersion (version : Text) : Prop where
  nonempty : version ≠ []
  plain : ∀ c ∈ version, isWhitespace c = false ∧ c ≠ ',' ∧ c ≠ '(' ∧ c ≠ ')'
  unmarked : version ≠ automaticMark

def AptOperation.hasOld : AptOperation → Bool
  | .install | .reinstall => false
  | .upgrade | .downgrade | .remove | .purge => true

def AptOperation.hasNew : AptOperation → Bool
  | .remove | .purge => false
  | .install | .reinstall | .upgrade | .downgrade => true

namespace AptPackageChange

variable (change : AptPackageChange)

def versions : List Text :=
  change.oldVersion.toList ++ change.newVersion.toList

/-- What stands in the parentheses. -/
def values : List Text :=
  change.versions ++ if change.automatic then [automaticMark] else []

def print : Text :=
  change.package ++ " (".toList ++ List.intercalate ", ".toList change.values ++ [')']

/-- A valid name, and the versions that the operation has. -/
structure Printable : Prop where
  package : validPackageName change.package = true
  oldVersion : change.oldVersion.isSome = change.operation.hasOld
  newVersion : change.newVersion.isSome = change.operation.hasNew
  versions : ∀ version ∈ change.versions, IsVersion version

end AptPackageChange

def AptOperation.field : AptOperation → Text
  | .install => "Install".toList
  | .upgrade => "Upgrade".toList
  | .downgrade => "Downgrade".toList
  | .remove => "Remove".toList
  | .purge => "Purge".toList
  | .reinstall => "Reinstall".toList

/-- A text that is kept: without control characters and outer blanks, and of a length within the
limits. -/
structure IsKept (maximum : ℕ) (text : Text) : Prop where
  nonempty : text ≠ []
  length : utf8Length text ≤ maximum
  control : text.any isControl = false
  trim_eq : trim text = text

inductive Field (Date : Type) where
  | start (date : Date)
  | endDate (date : Date)
  | commandLine (text : Text)
  | requestedBy (text : Text)
  | changes (operation : AptOperation) (items : List AptPackageChange)
  | unknown (name value : Text)

namespace Field

variable {Date : Type}

def name : Field Date → Text
  | start _ => "Start-Date".toList
  | endDate _ => "End-Date".toList
  | commandLine _ => "Commandline".toList
  | requestedBy _ => "Requested-By".toList
  | changes operation _ => operation.field
  | unknown name _ => name

def value (printDate : Date → Text) : Field Date → Text
  | start date => printDate date
  | endDate date => printDate date
  | commandLine text => text
  | requestedBy text => text
  | changes _ items => List.intercalate ", ".toList (items.map AptPackageChange.print)
  | unknown _ value => value

def print (printDate : Date → Text) (field : Field Date) : Text :=
  field.name ++ ':' :: ' ' :: field.value printDate

def Printable : Field Date → Prop
  | start _ => True
  | endDate _ => True
  | commandLine text => IsKept 4096 text
  | requestedBy text => IsKept 256 text
  | changes operation items => ∀ change ∈ items, change.operation = operation ∧ change.Printable
  | unknown name value => ':' ∉ name ∧ '\n' ∉ name ∧ '\n' ∉ value ∧
    name ∉ KnownField.names.map Prod.fst

def start? : Field Date → Option Date
  | start date => some date
  | _ => none

def endDate? : Field Date → Option Date
  | endDate date => some date
  | _ => none

def commandLine? : Field Date → Option Text
  | commandLine text => some text
  | _ => none

def requestedBy? : Field Date → Option Text
  | requestedBy text => some text
  | _ => none

def listed : Field Date → List AptPackageChange
  | changes _ items => items
  | _ => []

end Field

/-- A transaction and the fields it is printed in. -/
structure Record (Date : Type) [LinearOrder Date] where
  transaction : AptTransaction Date
  fields : List (Field Date)
  printable : ∀ field ∈ fields, field.Printable
  start : fields.filterMap Field.start? = [transaction.start]
  endDate : fields.filterMap Field.endDate? = transaction.endDate.toList
  commandLine : fields.filterMap Field.commandLine? = transaction.commandLine.toList
  requestedBy : fields.filterMap Field.requestedBy? = transaction.requestedBy.toList
  changes : fields.flatMap Field.listed = transaction.changes
  ordered : ∀ date ∈ transaction.endDate, transaction.start ≤ date

def newlineIf (b : Bool) : Text := if b then ['\n'] else []

/-- Blocks with empty lines between them; there may be a newline in front and at the end. -/
def history (lead trail : Bool) (blocks : List Text) : Text :=
  newlineIf lead ++ List.intercalate "\n\n".toList blocks ++ newlineIf trail

/-! ## Changes -/

section Changes

variable {depth : ℕ} {entry text rest : Text} {entries values : List Text}
  {operation : AptOperation} {change : AptPackageChange} {changes : List AptPackageChange}
  {c : Char}

theorem splitEntries_append (h : ∀ c ∈ text, c ≠ '(' ∧ c ≠ ')' ∧ (c = ',' → depth ≠ 0)) :
    splitEntries depth entry entries (text ++ rest) =
      splitEntries depth (entry ++ text) entries rest := by
  induction text generalizing entry with
  | nil => rw [List.nil_append, List.append_nil]
  | cons c text ih =>
    obtain ⟨⟨hopen, hclose, hcomma⟩, htext⟩ := List.forall_mem_cons.mp h
    rw [List.cons_append, splitEntries, if_neg hopen, if_neg hclose,
      if_neg fun hboth => hcomma hboth.1 hboth.2, ih htext, List.append_assoc]
    rfl

theorem isWhitespace_of_package (h : c.isAlphanum = true ∨ c ∈ ['+', '-', '.', ':', '_']) :
    isWhitespace c = false ∧ c ≠ ',' ∧ c ≠ '(' ∧ c ≠ ')' := by
  rcases h with h | h
  · refine ⟨isWhitespace_of_isAlphanum h, ?_, ?_, ?_⟩
    all_goals
      rintro rfl
      revert h
      decide
  · fin_cases h <;> decide

theorem package_plain (h : validPackageName change.package = true) :
    ∀ c ∈ change.package, isWhitespace c = false ∧ c ≠ ',' ∧ c ≠ '(' ∧ c ≠ ')' := by
  intro c hc
  rw [validPackageName, Bool.and_eq_true, List.all_eq_true] at h
  have hname := h.2 c hc
  rw [Bool.or_eq_true, List.contains_iff_mem] at hname
  exact isWhitespace_of_package hname

theorem mem_values (h : change.Printable) (hvalue : text ∈ change.values) :
    text ≠ [] ∧ ∀ c ∈ text, isWhitespace c = false ∧ c ≠ ',' ∧ c ≠ '(' ∧ c ≠ ')' := by
  rcases List.mem_append.mp hvalue with hversion | hmark
  · exact ⟨(h.versions text hversion).nonempty, (h.versions text hversion).plain⟩
  · split at hmark
    · rw [List.mem_singleton.mp hmark]
      exact ⟨by decide, by decide⟩
    · cases hmark

/-- Commas are followed by a blank. -/
def indented : List Text → List Text
  | [] => []
  | text :: texts => text :: texts.map (' ' :: ·)

theorem intercalate_indented (texts : List Text) :
    List.intercalate ", ".toList texts = List.intercalate [','] (indented texts) := by
  cases texts with
  | nil => rfl
  | cons text texts =>
    induction texts generalizing text with
    | nil => rw [List.intercalate_singleton, indented, List.map_nil, List.intercalate_singleton]
    | cons next texts ih =>
      rw [List.intercalate_cons_cons, ih, indented, indented, List.map_cons,
        List.intercalate_cons_cons, List.append_assoc, List.append_assoc]
      cases texts with
      | nil => simp
      | cons other texts => simp [List.intercalate_cons_cons]

theorem map_trim_indented {texts : List Text} (h : ∀ text ∈ texts, trim text = text) :
    (indented texts).map trim = texts := by
  cases texts with
  | nil => rfl
  | cons text texts =>
    obtain ⟨htext, htexts⟩ := List.forall_mem_cons.mp h
    have hrest : texts.map (trim ∘ (' ' :: ·)) = texts.map id :=
      List.map_congr_left fun other hother => htexts other hother
    rw [indented, List.map_cons, htext, List.map_map, hrest, List.map_id]

theorem mem_indented {texts : List Text} (h : text ∈ indented texts) :
    ∃ other ∈ texts, text = other ∨ text = ' ' :: other := by
  cases texts with
  | nil => cases h
  | cons first texts =>
    rcases List.mem_cons.mp h with rfl | h
    · exact ⟨text, List.mem_cons_self, .inl rfl⟩
    · obtain ⟨other, hother, rfl⟩ := List.mem_map.mp h
      exact ⟨other, List.mem_cons_of_mem _ hother, .inr rfl⟩

theorem values_ne_nil (h : change.Printable) : change.values ≠ [] := by
  have hversion : change.oldVersion.isSome ∨ change.newVersion.isSome := by
    rw [h.oldVersion, h.newVersion]
    cases change.operation <;> decide
  intro hnil
  rw [AptPackageChange.values, AptPackageChange.versions, List.append_eq_nil_iff,
    List.append_eq_nil_iff, Option.toList_eq_nil_iff, Option.toList_eq_nil_iff] at hnil
  simp [hnil.1] at hversion

theorem splitOn_values (h : change.Printable) :
    ((List.intercalate ", ".toList change.values).splitOn ',').map trim = change.values := by
  rw [intercalate_indented, List.splitOn_intercalate]
  · exact map_trim_indented fun text htext =>
      trim_word fun c hc => ((mem_values h htext).2 c hc).1
  · intro text htext hcomma
    obtain ⟨other, hother, rfl | rfl⟩ := mem_indented htext
    · exact ((mem_values h hother).2 ',' hcomma).2.1 rfl
    · rcases List.mem_cons.mp hcomma with hcomma | hcomma
      · cases hcomma
      · exact ((mem_values h hother).2 ',' hcomma).2.1 rfl
  · have hne := values_ne_nil h
    revert hne
    cases change.values with
    | nil => exact absurd rfl
    | cons text texts => exact fun _ => List.cons_ne_nil _ _

theorem contains_values (h : change.Printable) :
    change.values.contains automaticMark = change.automatic := by
  have hversions : automaticMark ∉ change.versions := fun hmem =>
    (h.versions automaticMark hmem).unmarked rfl
  rw [AptPackageChange.values, List.contains_append, List.contains_eq_mem,
    decide_eq_false hversions, Bool.false_or]
  cases change.automatic <;> rfl

theorem filter_values (h : change.Printable) :
    change.values.filter (· ≠ automaticMark) = change.versions := by
  have hversions : change.versions.filter (· ≠ automaticMark) = change.versions :=
    List.filter_eq_self.mpr fun version hmem => by
      simpa using (h.versions version hmem).unmarked
  rw [AptPackageChange.values, List.filter_append, hversions]
  cases change.automatic with
  | false => exact List.append_nil _
  | true => simp

theorem versions_operation (h : change.Printable) :
    change.versions ≠ [] ∧ change.versions.length ≤ 2 ∧
      change.operation.versions change.versions = (change.oldVersion, change.newVersion) := by
  obtain ⟨operation, package, oldVersion, newVersion, automatic⟩ := change
  have hold := h.oldVersion
  have hnew := h.newVersion
  cases operation <;> cases oldVersion <;> cases newVersion <;>
    simp_all [AptOperation.hasOld, AptOperation.hasNew, AptPackageChange.versions,
      AptOperation.versions]

theorem splitOnce_print (h : change.Printable) : splitOnce " (".toList change.print =
    some (change.package, List.intercalate ", ".toList change.values ++ [')']) := by
  have hblank : ' ' ∉ change.package := fun hmem => by
    have hplain := (package_plain h.package ' ' hmem).1
    revert hplain
    decide
  have hsep : " (".toList = [' ', '('] := rfl
  rw [AptPackageChange.print, hsep, List.append_assoc, List.append_assoc, splitOnce_skip hblank]
  simp [splitOnce]

/-- Every printed change is read back. -/
theorem parseChange_print (h : change.Printable) :
    parseChange change.operation change.print = .ok change := by
  obtain ⟨hne, hlength, hoperation⟩ := versions_operation h
  have hempty : [] ∉ change.versions := fun hmem => (h.versions [] hmem).nonempty rfl
  have hshape : ¬ (¬ validPackageName change.package = true ∨
      (List.intercalate ", ".toList change.values ++ [')']).getLast? ≠ some ')') := by
    simp [h.package]
  have hversions : ¬ (change.versions = [] ∨ 2 < change.versions.length ∨
      [] ∈ change.versions) := by
    simp [hne, hempty, hlength]
  simp only [parseChange, splitOnce_print h]
  rw [if_neg hshape]
  simp only [List.dropLast_concat, splitOn_values h, filter_values h, contains_values h]
  rw [if_neg hversions, hoperation]

/-! ## Lists of changes -/

/-- An entry that takes the depth back to where it was. -/
def Closed (item : Text) : Prop :=
  ∀ entry entries rest, splitEntries 0 entry entries (item ++ rest) =
    splitEntries 0 (entry ++ item) entries rest

theorem Closed.cons_blank (h : Closed text) : Closed (' ' :: text) := by
  intro entry entries rest
  rw [List.cons_append, splitEntries, if_neg (by decide), if_neg (by decide),
    if_neg (by decide), h, List.append_assoc]
  rfl

theorem closed_print (h : change.Printable) : Closed change.print := by
  intro entry entries rest
  have hpackage : ∀ c ∈ change.package ++ [' '],
      c ≠ '(' ∧ c ≠ ')' ∧ (c = ',' → (0 : ℕ) ≠ 0) := by
    intro c hc
    rcases List.mem_append.mp hc with hc | hc
    · obtain ⟨-, hcomma, hopen, hclose⟩ := package_plain h.package c hc
      exact ⟨hopen, hclose, fun heq => absurd heq hcomma⟩
    · rw [List.mem_singleton.mp hc]
      decide
  have hvalues : ∀ c ∈ List.intercalate ", ".toList change.values,
      c ≠ '(' ∧ c ≠ ')' ∧ (c = ',' → (1 : ℕ) ≠ 0) := by
    intro c hc
    rw [intercalate_indented] at hc
    rcases ByteStreams.mem_intercalate hc with rfl | ⟨text, htext, hc⟩
    · decide
    · obtain ⟨other, hother, rfl | rfl⟩ := mem_indented htext
      · obtain ⟨-, -, hopen, hclose⟩ := (mem_values h hother).2 c hc
        exact ⟨hopen, hclose, fun _ => one_ne_zero⟩
      · rcases List.mem_cons.mp hc with rfl | hc
        · decide
        · obtain ⟨-, -, hopen, hclose⟩ := (mem_values h hother).2 c hc
          exact ⟨hopen, hclose, fun _ => one_ne_zero⟩
  have hprint : change.print ++ rest = (change.package ++ [' ']) ++ '(' ::
      (List.intercalate ", ".toList change.values ++ ')' :: rest) := by
    simp [AptPackageChange.print]
  rw [hprint, splitEntries_append hpackage, splitEntries, if_pos rfl, Nat.zero_add,
    Nat.min_eq_left (by decide), splitEntries_append hvalues, splitEntries, if_neg (by decide),
    if_pos rfl, if_neg one_ne_zero]
  simp [AptPackageChange.print]

theorem splitEntries_intercalate {items : List Text} (hclosed : ∀ item ∈ items, Closed item)
    (hne : ∀ item ∈ items, trim item ≠ []) :
    splitEntries 0 [] entries (List.intercalate [','] items) =
      .ok (entries ++ items.map trim) := by
  induction items generalizing entries with
  | nil => simp [splitEntries, trim]
  | cons item items ih =>
    obtain ⟨hitem, hitems⟩ := List.forall_mem_cons.mp hclosed
    obtain ⟨hneItem, hneItems⟩ := List.forall_mem_cons.mp hne
    cases items with
    | nil =>
      have hend := hitem [] entries []
      rw [List.append_nil, List.nil_append] at hend
      rw [List.intercalate_singleton, hend, splitEntries, if_neg (by decide), if_neg hneItem]
      rfl
    | cons next items =>
      rw [List.intercalate_cons_cons, List.append_assoc, hitem, List.singleton_append,
        splitEntries, if_neg (by decide), if_neg (by decide), if_pos ⟨rfl, rfl⟩,
        ih hitems hneItems, List.append_assoc]
      rfl

theorem print_ne_nil (change : AptPackageChange) : change.print ≠ [] := by
  simp [AptPackageChange.print]

theorem plainEnds_print (h : change.Printable) : PlainEnds change.print := by
  refine ⟨fun c hc => ?_, fun c hc => ?_⟩
  · have hpackage : change.package ≠ [] := by
      intro hnil
      have hvalid := h.package
      rw [hnil] at hvalid
      cases hvalid
    obtain ⟨first, rest, hfirst⟩ := List.exists_cons_of_ne_nil hpackage
    rw [AptPackageChange.print, hfirst] at hc
    obtain rfl := Option.some.inj hc
    exact (package_plain h.package first (hfirst ▸ List.mem_cons_self)).1
  · rw [AptPackageChange.print, List.getLast?_concat] at hc
    obtain rfl := Option.some.inj hc
    decide

theorem trim_changes (h : ∀ change ∈ changes, change.operation = operation ∧ change.Printable) :
    trim (List.intercalate ", ".toList (changes.map AptPackageChange.print)) =
      List.intercalate ", ".toList (changes.map AptPackageChange.print) := by
  refine (PlainEnds.intercalate fun text htext => ?_).trim_eq
  obtain ⟨change, hchange, rfl⟩ := List.mem_map.mp htext
  exact ⟨print_ne_nil change, plainEnds_print (h change hchange).2⟩

theorem parseChanges_print (h : ∀ change ∈ changes, change.operation = operation ∧
    change.Printable) : parseChanges operation
      (List.intercalate ", ".toList (changes.map AptPackageChange.print)) = .ok changes := by
  have htrim : ∀ text ∈ changes.map AptPackageChange.print, trim text = text := by
    intro text htext
    obtain ⟨change, hchange, rfl⟩ := List.mem_map.mp htext
    exact (plainEnds_print (h change hchange).2).trim_eq
  have hentries : splitPackageEntries
      (List.intercalate ", ".toList (changes.map AptPackageChange.print)) =
        .ok (changes.map AptPackageChange.print) := by
    rw [splitPackageEntries, intercalate_indented, splitEntries_intercalate, List.nil_append,
      map_trim_indented htrim]
    · intro item hitem
      obtain ⟨text, htext, hcases⟩ := mem_indented hitem
      obtain ⟨change, hchange, rfl⟩ := List.mem_map.mp htext
      rcases hcases with rfl | rfl
      · exact closed_print (h change hchange).2
      · exact (closed_print (h change hchange).2).cons_blank
    · intro item hitem
      obtain ⟨text, htext, hcases⟩ := mem_indented hitem
      have hself := htrim text htext
      obtain ⟨change, hchange, rfl⟩ := List.mem_map.mp htext
      rcases hcases with rfl | rfl
      · rw [hself]
        exact print_ne_nil change
      · rw [trim_cons_blank, hself]
        exact print_ne_nil change
  rw [parseChanges, hentries]
  change (changes.map AptPackageChange.print).mapM (parseChange operation) = .ok changes
  clear htrim hentries
  induction changes with
  | nil => rfl
  | cons change changes ih =>
    obtain ⟨⟨rfl, hchange⟩, hchanges⟩ := List.forall_mem_cons.mp h
    rw [List.map_cons, List.mapM_cons, parseChange_print hchange, ih hchanges]
    rfl

end Changes

/-! ## Fields -/

section Fields

variable {Date : Type} {parseFromStr : Text → Option Date}
  {printDate : Date → Text} {draft : Draft Date} {field : Field Date} {fields : List (Field Date)}
  {line name rest : Text}

/-- What reading a field changes. -/
def Draft.apply (draft : Draft Date) : Field Date → Draft Date
  | .start date => { draft with start := some date }
  | .endDate date => { draft with endDate := some date }
  | .commandLine text => { draft with commandLine := some text }
  | .requestedBy text => { draft with requestedBy := some text }
  | .changes _ items => { draft with changes := draft.changes ++ items }
  | .unknown _ _ => draft

theorem boundedText_of_kept {maximum : ℕ} {text : Text} (h : IsKept maximum text) :
    boundedText text maximum = some text := by
  rw [boundedText, if_pos ⟨h.nonempty, h.length, by simp [h.control]⟩]

theorem addChanges_print {operation : AptOperation} {items : List AptPackageChange}
    (h : ∀ change ∈ items, change.operation = operation ∧ change.Printable) :
    draft.addChanges operation (List.intercalate ", ".toList (items.map AptPackageChange.print)) =
      .ok (draft.apply (.changes operation items)) := by
  rw [Draft.addChanges, parseChanges_print h]
  rfl

/-- The dates that the library prints are read by it, in a line and without outer blanks. -/
structure Inverts (parseFromStr : Text → Option Date) (printDate : Date → Text) : Prop where
  parse : ∀ date, parseFromStr (printDate date) = some date
  trim_eq : ∀ date, trim (printDate date) = printDate date
  line : ∀ date, '\n' ∉ printDate date

theorem splitOnce_colon (h : ':' ∉ name) : splitOnce [':'] (name ++ ':' :: rest) =
    some (name, rest) := by
  induction name with
  | nil => simp [splitOnce]
  | cons c name ih =>
    obtain ⟨hc, hname⟩ := List.ne_and_not_mem_of_not_mem_cons h
    rw [List.cons_append, splitOnce, ih hname, if_neg (by simpa [List.isPrefixOf] using hc)]
    rfl

theorem splitOnce_no_colon (h : ':' ∉ line) : splitOnce [':'] line = none := by
  induction line with
  | nil => rfl
  | cons c line ih =>
    obtain ⟨hc, hline⟩ := List.ne_and_not_mem_of_not_mem_cons h
    rw [splitOnce, ih hline, if_neg (by simpa [List.isPrefixOf] using hc)]
    rfl

theorem colon_name (h : field.Printable) : ':' ∉ field.name := by
  cases field with
  | unknown name value => exact h.1
  | changes operation items => cases operation <;> exact of_decide_eq_true rfl
  | _ => exact of_decide_eq_true rfl

theorem lookup_name (h : field.Printable) : KnownField.names.lookup field.name =
    match field with
    | .start _ => some .startDate
    | .endDate _ => some .endDate
    | .commandLine _ => some .commandline
    | .requestedBy _ => some .requestedBy
    | .changes operation _ => some (.changes operation)
    | .unknown _ _ => none := by
  cases field with
  | unknown name value =>
    refine List.lookup_eq_none_iff.mpr fun known hknown => ?_
    have hne : name ≠ known.1 := fun heq => h.2.2.2 (heq ▸ List.mem_map_of_mem hknown)
    exact bne_iff_ne.mpr hne
  | changes operation items => cases operation <;> rfl
  | _ => rfl

theorem readLine_print (hdate : Inverts parseFromStr printDate) (h : field.Printable) :
    draft.readLine parseFromStr (field.print printDate) = .ok (draft.apply field) := by
  rw [Draft.readLine, Field.print, splitOnce_colon (colon_name h)]
  simp only [trim_cons_blank, lookup_name h]
  cases field with
  | start date =>
    simp only [Field.value, hdate.trim_eq, Draft.readField, parseTimestamp, hdate.parse]
    rfl
  | endDate date =>
    simp only [Field.value, hdate.trim_eq, Draft.readField, parseTimestamp, hdate.parse]
    rfl
  | commandLine text =>
    have hkept : IsKept 4096 text := h
    simp only [Field.value, hkept.trim_eq, Draft.readField, boundedText_of_kept hkept]
    rfl
  | requestedBy text =>
    have hkept : IsKept 256 text := h
    simp only [Field.value, hkept.trim_eq, Draft.readField, boundedText_of_kept hkept]
    rfl
  | changes operation items =>
    simp only [Field.value, Draft.readField, trim_changes h]
    exact addChanges_print h
  | unknown name value => rfl

end Fields

end SnapshotsManager.AptHistory
