import SynOSStudio.Installer.PartedTables

/-!
# The readings of a table

The rows in which a table is printed, and what is read from each of them and from all of them.
-/

namespace Installer

open TextLines

section Tables

def digits (n : ℕ) : Text := Nat.toDigits 10 n

def bytesText (n : ℕ) : Text := digits n ++ ['B']

/-- A number that is not too long to be converted. -/
def Short (n : ℕ) : Prop := (digits n).length ≤ 4300

instance (n : ℕ) : Decidable (Short n) := inferInstanceAs (Decidable (_ ≤ _))

structure GptPartition where
  number : ℕ
  startBytes : ℕ
  sizeBytes : ℕ
  filesystem : Text
  name : Text
  flags : List Text

def flagsText (flags : List Text) : Text := ", ".toList.intercalate flags

/-- The fields that a user chooses, and the flags behind them. -/
def GptPartition.loose (p : GptPartition) : List Text := [p.filesystem, p.name, flagsText p.flags]

def endText (startBytes sizeBytes : ℕ) : Text := bytesText (startBytes + sizeBytes - 1)

inductive TableRow
  | partition (p : GptPartition)
  | free (startBytes sizeBytes : ℕ)

def TableRow.print : TableRow → Text
  | partition p => printRow (digits p.number) ([bytesText p.startBytes,
      endText p.startBytes p.sizeBytes, bytesText p.sizeBytes] ++ p.loose)
  | free startBytes sizeBytes => printRow (digits 1) [bytesText startBytes,
      endText startBytes sizeBytes, bytesText sizeBytes, "free".toList]

def TableRow.allocated : TableRow → Option GptPartition
  | partition p => some p
  | free _ _ => none

def TableRow.unallocated : TableRow → Option (ℕ × ℕ)
  | partition _ => none
  | free startBytes sizeBytes => some (startBytes, sizeBytes)

/-- A table with the disk that it is on. -/
structure GptTable where
  disk : Text
  sizeBytes : ℕ
  transport : Text
  logicalSector : ℕ
  physicalSector : ℕ
  model : Text
  diskFlags : Text
  rows : List TableRow

variable (table : GptTable)

def GptTable.partitions : List GptPartition := table.rows.filterMap TableRow.allocated

def GptTable.free : List (ℕ × ℕ) := table.rows.filterMap TableRow.unallocated

def GptTable.deviceRow : Text :=
  printRow ("/dev/".toList ++ table.disk) ([bytesText table.sizeBytes, table.transport,
    digits table.logicalSector, digits table.physicalSector, "gpt".toList] ++
    [table.model, table.diskFlags])

def GptTable.print : Text :=
  "BYT;\n".toList ++ (table.deviceRow ++ table.rows.flatMap TableRow.print)

/-- A flag is a word in lower case. -/
structure ValidFlag (casing : Casing) (flag : Text) : Prop where
  nonempty : flag ≠ []
  word : ∀ c ∈ flag, isSpace c = false ∧ c ≠ ','
  lower : casing.lower (String.ofList flag) = String.ofList flag

structure GptPartition.Valid (casing : Casing) (p : GptPartition) : Prop where
  number : 0 < p.number ∧ Short p.number
  start : Short p.startBytes
  size : 0 < p.sizeBytes ∧ Short p.sizeBytes
  flags : ∀ flag ∈ p.flags, ValidFlag casing flag

structure GptTable.Valid (casing : Casing) : Prop where
  device : Unbroken table.disk ∧ Unbroken table.transport
  sizes : Short table.sizeBytes ∧ 0 < table.logicalSector ∧ Short table.logicalSector
  numbers : (table.partitions.map GptPartition.number).Nodup
  partitions : ∀ p ∈ table.partitions, p.Valid casing
  free : ∀ region ∈ table.free, Short region.1 ∧ 0 < region.2 ∧ Short region.2

end Tables

section Rows

variable {casing : Casing} {numerals : Numerals}

theorem digits_not_space (n : ℕ) : ∀ c ∈ digits n, isSpace c = false := by
  intro c hc
  have hdigit := Nat.isDigit_of_mem_toDigits (by omega) (by omega) hc
  rw [isDigit_iff] at hdigit
  simp only [isSpace, Bool.or_eq_false_iff, Bool.and_eq_false_iff, decide_eq_false_iff_not,
    List.contains_eq_mem, List.mem_cons, List.not_mem_nil, or_false]
  omega

theorem digits_unbroken (n : ℕ) : Unbroken (digits n) :=
  fun c hc => not_break_of_not_space (digits_not_space n c hc)

theorem bytesText_unbroken (n : ℕ) : Unbroken (bytesText n) :=
  (digits_unbroken n).append (by decide)

theorem digits_cons (n : ℕ) : ∃ head tail, digits n = head :: tail ∧ isSpace head = false := by
  obtain ⟨head, tail, heq⟩ := List.exists_cons_of_ne_nil (@Nat.toDigits_ne_nil n 10)
  exact ⟨head, tail, heq, digits_not_space n head (by simp [digits, heq])⟩

theorem partedBytes_digits {n : ℕ} (h : Short n) : partedBytes numerals (digits n) = .ok n := by
  have hlast : (digits n).getLast? ≠ some 'B' := fun hB => by
    have hmem := List.mem_of_getLast? hB
    have hdigit := Nat.isDigit_of_mem_toDigits (by omega) (by omega) hmem
    simp at hdigit
  simp only [partedBytes, strip_of_plain (digits_not_space n), if_neg hlast]
  rw [digits, if_pos (numerals.digits n), numerals.value n h]

theorem partedBytes_bytesText {n : ℕ} (h : Short n) :
    partedBytes numerals (bytesText n) = .ok n := by
  have hplain : ∀ c ∈ bytesText n, isSpace c = false := fun c hc =>
    (List.mem_append.mp hc).elim (digits_not_space n c) fun hB =>
      List.mem_singleton.mp hB ▸ by decide
  have hnumber : (if (bytesText n).getLast? = some 'B' then (bytesText n).dropLast
      else bytesText n) = digits n := by
    simp [bytesText]
  simp only [partedBytes, strip_of_plain hplain, hnumber]
  rw [digits, if_pos (numerals.digits n), numerals.value n h]

/-- The flags of a partition in the order in which they are reported. -/
def sortedFlags (flags : List Text) : List String :=
  (flags.map String.ofList).insertionSort (· ≤ ·)

theorem flagsText_cons (flag : Text) (flags : List Text) :
    flagsText (flag :: flags) = [','].intercalate (flag :: flags.map (' ' :: ·)) := by
  have hspace (text : Text) (rest : List Text) :
      [','].intercalate ((' ' :: text) :: rest) = ' ' :: [','].intercalate (text :: rest) := by
    cases rest <;> simp [List.intercalate_cons_cons]
  induction flags generalizing flag with
  | nil => rfl
  | cons next flags ih =>
    rw [List.map_cons, List.intercalate_cons_cons, hspace, ← ih, flagsText,
      List.intercalate_cons_cons]
    simp [flagsText]

theorem ValidFlag.strip {flag : Text} (h : ValidFlag casing flag) : strip flag = flag :=
  strip_of_plain fun c hc => (h.word c hc).1

theorem ValidFlag.strip_space {flag : Text} (h : ValidFlag casing flag) :
    TextLines.strip (' ' :: flag) = flag := by
  rw [TextLines.strip, List.dropWhile_cons_of_pos (by decide)]
  exact h.strip

/-- The text of the flags is read back. -/
theorem partedFlags_flagsText {flags : List Text} (h : ∀ flag ∈ flags, ValidFlag casing flag) :
    partedFlags casing (flagsText flags) = sortedFlags flags := by
  cases flags with
  | nil => rfl
  | cons flag flags =>
    have hflag := h flag List.mem_cons_self
    have hrest : ∀ other ∈ flags, ValidFlag casing other := fun other hother =>
      h other (List.mem_cons_of_mem flag hother)
    have hsplit : (flagsText (flag :: flags)).splitOn ',' = flag :: flags.map (' ' :: ·) := by
      rw [flagsText_cons, List.splitOn_intercalate _ _ (by simp)]
      intro text htext hcomma
      rcases List.mem_cons.mp htext with rfl | htext
      · exact (hflag.word _ hcomma).2 rfl
      · obtain ⟨other, hother, rfl⟩ := List.mem_map.mp htext
        exact ((hrest other hother).word _ (by simpa using hcomma)).2 rfl
    have hkept : (flag :: flags.map (' ' :: ·)).filter (fun text => TextLines.strip text ≠ []) =
        flag :: flags.map (' ' :: ·) := by
      rw [List.filter_eq_self]
      intro text htext
      rcases List.mem_cons.mp htext with rfl | htext
      · simpa [hflag.strip] using hflag.nonempty
      · obtain ⟨other, hother, rfl⟩ := List.mem_map.mp htext
        simpa [(hrest other hother).strip_space] using (hrest other hother).nonempty
    have hlowered : (flags.map (' ' :: ·)).map (lowered casing) = flags.map String.ofList := by
      rw [List.map_map]
      refine List.map_congr_left fun other hother => ?_
      rw [Function.comp_apply, lowered, (hrest other hother).strip_space,
        (hrest other hother).lower]
    rw [partedFlags, hsplit, hkept, List.map_cons, hlowered, lowered, hflag.strip, hflag.lower]
    rfl

/-- What the first line of its row has of a partition. -/
def GptPartition.firstLine (p : GptPartition) : Option (List Text) := firstLineFields p.loose

/-- The row of the partition is not read as one of a partition. -/
def GptPartition.Lost (casing : Casing) (p : GptPartition) : Prop :=
  ∀ fields ∈ p.firstLine, ∃ field ∈ fields, ReadsFree casing field

/-- The row of the partition is read without its flags. -/
def GptPartition.Cut (p : GptPartition) : Prop := ∃ fields ∈ p.firstLine, fields.length < 3

instance (p : GptPartition) : Decidable (p.Lost casing) :=
  inferInstanceAs (Decidable (∀ _ ∈ p.firstLine, _))

instance (p : GptPartition) : Decidable p.Cut :=
  inferInstanceAs (Decidable (∃ _ ∈ p.firstLine, _))

def GptPartition.item (p : GptPartition) : PartedPartition where
  number := p.number
  startBytes := p.startBytes
  sizeBytes := p.sizeBytes
  flags := if p.Cut then [] else sortedFlags p.flags

/-- What is read from the row of a partition. -/
def GptPartition.reading (casing : Casing) (p : GptPartition) : Reading :=
  match p.firstLine with
  | none => .skip
  | some fields =>
    if fields.any fun field => ReadsFree casing field then .free p.startBytes p.sizeBytes
    else .partition p.item

theorem GptPartition.reading_item (casing : Casing) (p : GptPartition) :
    (p.reading casing).item = if p.Lost casing then none else some p.item := by
  have hlost : p.Lost casing ↔ ∀ fields ∈ p.firstLine, ∃ field ∈ fields, ReadsFree casing field :=
    Iff.rfl
  unfold GptPartition.reading
  simp only [hlost]
  rcases p.firstLine.eq_none_or_eq_some with hnone | ⟨fields, hsome⟩
  · simp [hnone, Reading.item]
  · by_cases hfree : ∃ field ∈ fields, ReadsFree casing field
    · simp [hsome, Reading.item, hfree]
    · simp [hsome, Reading.item, hfree]

theorem GptPartition.reading_extent {p : GptPartition} (h : ¬ p.Lost casing) :
    (p.reading casing).extent = none := by
  have hitem := p.reading_item casing
  rw [if_neg h] at hitem
  cases hreading : p.reading casing <;> rw [hreading] at hitem <;> first | rfl | cases hitem

theorem flagsText_unbroken {flags : List Text} (h : ∀ flag ∈ flags, ValidFlag casing flag) :
    Unbroken (flagsText flags) := by
  have hword {flag : Text} (hflag : ValidFlag casing flag) : Unbroken flag :=
    fun c hc => not_break_of_not_space (hflag.word c hc).1
  induction flags with
  | nil => exact fun c hc => absurd hc List.not_mem_nil
  | cons flag flags ih =>
    cases flags with
    | nil => simpa [flagsText] using hword (h flag List.mem_cons_self)
    | cons next flags =>
      rw [flagsText, List.intercalate_cons_cons]
      exact ((hword (h flag List.mem_cons_self)).append (by decide)).append
        (ih fun other hother => h other (List.mem_cons_of_mem flag hother))

/-- A first line with all its fields ends in the flags. -/
theorem GptPartition.Valid.firstLine_flags {p : GptPartition} (hp : p.Valid casing)
    {fields : List Text} (h : p.firstLine = some fields) (hcut : ¬ p.Cut) :
    fields.getLast? = some (flagsText p.flags) := by
  have hlength : 3 ≤ fields.length := by
    by_contra hshort
    exact hcut ⟨fields, h, by omega⟩
  have hflags := flagsText_unbroken hp.flags
  simp only [GptPartition.firstLine, GptPartition.loose, firstLineFields, if_pos hflags,
    Option.map_some] at h
  split_ifs at h <;> cases h <;> simp at hlength ⊢

theorem readFields_free {number start stop size : Text} {rest : List Text} {a b : ℕ}
    (hrest : ∃ field ∈ rest, ReadsFree casing field) (hstart : partedBytes numerals start = .ok a)
    (hsize : partedBytes numerals size = .ok b) :
    readFields casing numerals (number :: start :: stop :: size :: rest) = .ok (.free a b) := by
  have hany : (rest.any fun field => ReadsFree casing field) = true := by simpa using hrest
  simp only [readFields, if_pos hany, hstart, hsize]
  rfl

/-- The first line of a row is read as the reading of its partition. -/
theorem GptPartition.Valid.readFields {p : GptPartition} (hp : p.Valid casing)
    (numerals : Numerals) :
    (match p.firstLine with
      | some fields => readFields casing numerals (digits p.number ::
          ([bytesText p.startBytes, endText p.startBytes p.sizeBytes, bytesText p.sizeBytes] ++
            fields))
      | none => .ok .skip) = .ok (p.reading casing) := by
  unfold GptPartition.reading
  cases hfirst : p.firstLine with
  | none => rfl
  | some fields =>
    simp only [List.cons_append, List.nil_append]
    split
    · rename_i hfree
      exact readFields_free (by simpa using hfree) (partedBytes_bytesText hp.start)
        (partedBytes_bytesText hp.size.2)
    · rename_i hfree
      simp only [Installer.readFields, if_neg hfree, partedBytes_bytesText hp.start,
        partedBytes_bytesText hp.size.2]
      have hint : numerals.int (digits p.number) = .ok p.number :=
        numerals.value p.number hp.number.2
      have hdigit : numerals.isdigit (digits p.number) = true := numerals.digits p.number
      rw [if_pos hdigit, hint]
      by_cases hcut : p.Cut
      · have hlength : ¬ 3 ≤ fields.length := by
          obtain ⟨other, hother, hshort⟩ := hcut
          rw [hfirst, Option.mem_some_iff] at hother
          rw [hother]
          omega
        simp [GptPartition.item, hcut, hlength, bind, Except.bind, pure, Except.pure]
      · have hlength : 3 ≤ fields.length := by
          by_contra hshort
          exact hcut ⟨fields, hfirst, by omega⟩
        simp [GptPartition.item, hcut, hlength, hp.firstLine_flags hfirst hcut,
          partedFlags_flagsText hp.flags, bind, Except.bind, pure, Except.pure]

/-- What is read from the row of the device. -/
def GptTable.reading (casing : Casing) (table : GptTable) : Reading :=
  match firstLineFields [table.model, table.diskFlags] with
  | none => .skip
  | some fields =>
    if (digits table.physicalSector :: "gpt".toList :: fields).any
        fun field => ReadsFree casing field then
      .free table.sizeBytes table.logicalSector
    else .skip

def TableRow.reading (casing : Casing) : TableRow → Reading
  | partition p => p.reading casing
  | free startBytes sizeBytes => .free startBytes sizeBytes

/-- What is read from a text: the partitions and the free regions. -/
def Gives (casing : Casing) (numerals : Numerals) (text : Text)
    (items : List PartedPartition) (extents : List (ℤ × ℤ)) : Prop :=
  ∃ readings, (splitlines text).mapM (readLine casing numerals) = .ok readings ∧
    readings.filterMap Reading.item = items ∧ readings.filterMap Reading.extent = extents

variable {more text line : Text} {others : List Text} {items : List PartedPartition}
  {extents : List (ℤ × ℤ)} {reading : Reading} {table : GptTable}

theorem quiet_readings (h : ∀ other ∈ others, Quiet casing numerals other) :
    ∃ readings, others.mapM (readLine casing numerals) = .ok readings ∧
      readings.filterMap Reading.item = [] ∧ readings.filterMap Reading.extent = [] := by
  induction others with
  | nil => exact ⟨[], rfl, rfl, rfl⟩
  | cons other others ih =>
    obtain ⟨readings, hread, hitems, hextents⟩ :=
      ih fun later hlater => h later (List.mem_cons_of_mem other hlater)
    rcases h other List.mem_cons_self with hother | hother
    · refine ⟨.skip :: readings, ?_, hitems, hextents⟩
      rw [List.mapM_cons, hother, hread]
      rfl
    · refine ⟨.header :: readings, ?_, hitems, hextents⟩
      rw [List.mapM_cons, hother, hread]
      rfl

/-- One row adds what its first line is read as. -/
theorem Gives.row (h : Gives casing numerals more items extents)
    (hsplit : splitlines text = line :: (others ++ splitlines more))
    (hothers : ∀ other ∈ others, Quiet casing numerals other)
    (hline : readLine casing numerals line = .ok reading) :
    Gives casing numerals text (reading.item.toList ++ items)
      (reading.extent.toList ++ extents) := by
  obtain ⟨readings, hread, rfl, rfl⟩ := h
  obtain ⟨quiet, hquiet, hitems, hextents⟩ := quiet_readings hothers
  refine ⟨reading :: (quiet ++ readings), ?_, ?_, ?_⟩
  · rw [hsplit, List.mapM_cons, List.mapM_append, hline, hquiet, hread]
    rfl
  · cases reading <;> simp [Reading.item, List.filterMap_cons, hitems]
  · cases reading <;> simp [Reading.extent, List.filterMap_cons, hextents]

theorem plain_unbroken (a b c : ℕ) :
    ∀ field ∈ [bytesText a, endText a b, bytesText c], Unbroken field := by
  simp only [List.mem_cons, List.not_mem_nil, or_false, forall_eq_or_imp, forall_eq]
  exact ⟨bytesText_unbroken a, bytesText_unbroken _, bytesText_unbroken c⟩

theorem Gives.partition {p : GptPartition} (hp : p.Valid casing)
    (h : Gives casing numerals more items extents) :
    Gives casing numerals ((TableRow.partition p).print ++ more)
      ((p.reading casing).item.toList ++ items) ((p.reading casing).extent.toList ++ extents) := by
  obtain ⟨head, first, hdigits, hhead⟩ := digits_cons p.number
  have hfirst := digits_unbroken p.number
  have hread := hp.readFields numerals
  simp only [TableRow.print, hdigits] at hfirst hread ⊢
  obtain ⟨line, others, hsplit, hothers, hline⟩ := printRow_lines casing numerals p.loose more
    hhead hfirst (plain_unbroken p.startBytes p.sizeBytes p.sizeBytes) (by simp)
    (by simp [GptPartition.loose])
  exact h.row hsplit hothers (hline.trans hread)

theorem Gives.free (hcasing : casing.lower "free" = "free") {startBytes sizeBytes : ℕ}
    (hstart : Short startBytes) (hsize : Short sizeBytes)
    (h : Gives casing numerals more items extents) :
    Gives casing numerals ((TableRow.free startBytes sizeBytes).print ++ more) items
      ((↑startBytes, ↑sizeBytes) :: extents) := by
  obtain ⟨head, first, hdigits, hhead⟩ := digits_cons 1
  have hfirst := digits_unbroken 1
  have hfree : ReadsFree casing "free".toList := by
    rw [ReadsFree, lowered, strip_of_plain (by decide), String.ofList_toList, hcasing]
  simp only [TableRow.print, hdigits] at hfirst ⊢
  have hplain : ∀ field ∈ [bytesText startBytes, endText startBytes sizeBytes,
      bytesText sizeBytes] ++ ["free".toList], Unbroken field := fun field hfield =>
    (List.mem_append.mp hfield).elim (plain_unbroken _ _ _ field) fun hmem =>
      List.mem_singleton.mp hmem ▸ by decide
  obtain ⟨line, others, hsplit, hothers, hline⟩ := printRow_lines casing numerals [] more hhead
    hfirst hplain (by simp) (by simp)
  have hread : readLine casing numerals line = .ok (.free startBytes sizeBytes) :=
    hline.trans (readFields_free ⟨_, List.mem_singleton.mpr rfl, hfree⟩
      (partedBytes_bytesText hstart) (partedBytes_bytesText hsize))
  exact h.row hsplit hothers hread

theorem Gives.device (hvalid : table.Valid casing)
    (h : Gives casing numerals more items extents) :
    Gives casing numerals (table.deviceRow ++ more) items
      ((table.reading casing).extent.toList ++ extents) := by
  have hfirst : Unbroken ("/dev/".toList ++ table.disk) :=
    Unbroken.append (by decide) hvalid.device.1
  have hplain : ∀ field ∈ [bytesText table.sizeBytes, table.transport,
      digits table.logicalSector, digits table.physicalSector, "gpt".toList],
      Unbroken field := by
    simp only [List.mem_cons, List.not_mem_nil, or_false, forall_eq_or_imp, forall_eq]
    exact ⟨bytesText_unbroken _, hvalid.device.2, digits_unbroken _, digits_unbroken _, by decide⟩
  obtain ⟨line, others, hsplit, hothers, hline⟩ := printRow_lines casing numerals
    [table.model, table.diskFlags] more
    (by decide : isSpace '/' = false) hfirst hplain (by simp) (by simp)
  have hread : readLine casing numerals line = .ok (table.reading casing) := by
    rw [hline, GptTable.reading]
    cases firstLineFields [table.model, table.diskFlags] with
    | none => rfl
    | some fields =>
      simp only [List.cons_append, List.nil_append]
      split
      · rename_i hfree
        exact readFields_free (by simpa using hfree) (partedBytes_bytesText hvalid.sizes.1)
          (partedBytes_digits hvalid.sizes.2.2)
      · rename_i hfree
        have hpath : numerals.isdigit ("/dev/".toList ++ table.disk) = false :=
          numerals.slash _ (by simp)
        simp only [readFields, if_neg hfree]
        exact if_neg (ne_of_eq_of_ne hpath Bool.false_ne_true)
  have hitem : (table.reading casing).item = none := by
    unfold GptTable.reading
    split
    · rfl
    · split <;> rfl
  have hrow := h.row hsplit hothers hread
  rwa [hitem] at hrow

/-- What is read from the rows of a table. -/
theorem gives_rows (numerals : Numerals) (hcasing : casing.lower "free" = "free")
    {rows : List TableRow}
    (hpartitions : ∀ p ∈ rows.filterMap TableRow.allocated, p.Valid casing)
    (hfree : ∀ region ∈ rows.filterMap TableRow.unallocated,
      Short region.1 ∧ 0 < region.2 ∧ Short region.2) :
    Gives casing numerals (rows.flatMap TableRow.print)
      (rows.filterMap fun row => (row.reading casing).item)
      (rows.filterMap fun row => (row.reading casing).extent) := by
  induction rows with
  | nil => exact ⟨[], rfl, rfl, rfl⟩
  | cons row rows ih =>
    rw [List.flatMap_cons]
    cases row with
    | partition p =>
      have hrest := ih (fun q hq => hpartitions q (List.mem_cons_of_mem p hq)) hfree
      have hrow := Gives.partition (hpartitions p List.mem_cons_self) hrest
      have hcons {β : Type} (f : Reading → Option β) :
          (TableRow.partition p :: rows).filterMap (fun row => f (row.reading casing)) =
            (f (p.reading casing)).toList ++
              rows.filterMap fun row => f (row.reading casing) := by
        rw [List.filterMap_cons, TableRow.reading]
        cases f (p.reading casing) <;> rfl
      rwa [hcons, hcons]
    | free startBytes sizeBytes =>
      obtain ⟨hstart, -, hsize⟩ := hfree (startBytes, sizeBytes) List.mem_cons_self
      have hrest := ih hpartitions fun region hregion =>
        hfree region (List.mem_cons_of_mem _ hregion)
      exact Gives.free hcasing hstart hsize hrest

/-- The rows of partitions that are read, and the free regions. -/
def GptTable.readItems (casing : Casing) (table : GptTable) : List PartedPartition :=
  table.partitions.filterMap fun p => (p.reading casing).item

def GptTable.readExtents (casing : Casing) (table : GptTable) : List (ℤ × ℤ) :=
  (table.reading casing).extent.toList ++
    table.rows.filterMap fun row => (row.reading casing).extent

/-- What is made of the output for the table. -/
theorem probePartedGeometry_print (hcasing : casing.lower "free" = "free")
    (hvalid : table.Valid casing) :
    probePartedGeometry casing numerals (.ok table.print) =
      ⟨(table.readItems casing).insertionSort byNumber,
        (table.readExtents casing).insertionSort byExtent, ""⟩ := by
  obtain ⟨readings, hread, hitems, hextents⟩ := Gives.device hvalid
    (gives_rows numerals hcasing hvalid.partitions hvalid.free)
  have hrows : (table.rows.filterMap fun row => (row.reading casing).item) =
      table.readItems casing := by
    rw [GptTable.readItems, GptTable.partitions, List.filterMap_filterMap]
    refine List.filterMap_congr fun row _ => ?_
    cases row <;> rfl
  have hsplit : splitlines table.print =
      "BYT;".toList :: splitlines (table.deviceRow ++ table.rows.flatMap TableRow.print) := by
    have hprint : table.print = "BYT;".toList ++
        '\n' :: (table.deviceRow ++ table.rows.flatMap TableRow.print) := rfl
    rw [splitlines, hprint, splitlinesFrom_append (by decide), splitlinesFrom_newline]
    rfl
  have hheader : readLine casing numerals "BYT;".toList = .ok .header := rfl
  have hparse : parsePartedMachine casing numerals table.print =
      .ok ⟨(table.readItems casing).insertionSort byNumber,
        (table.readExtents casing).insertionSort byExtent, ""⟩ := by
    rw [parsePartedMachine, hsplit, List.mapM_cons, hheader, hread]
    simp only [bind, Except.bind, pure, Except.pure, List.mem_cons_self, if_true]
    have hskip {β : Type} (f : Reading → Option β) (h : f .header = none) :
        (Reading.header :: readings).filterMap f = readings.filterMap f := by
      rw [List.filterMap_cons, h]
    rw [hskip _ rfl, hskip _ rfl, hitems, hextents, hrows, GptTable.readExtents]
  rw [probePartedGeometry, hparse]

end Rows

end Installer
