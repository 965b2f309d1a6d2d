import SynOSStudio.Installer.ManualGeometry
import SynOSStudio.Installer.Preservation

/-!
# Disks as declared

What a disk has to be after the writes, and that the checks of the disk accept exactly these
disks.
-/

namespace Installer

open KeyedLists

section Outcome

variable (casing : Casing) (graph : StorageGraph) (after : DiskInventory)

def numberOf (p : PartitionInventory) : ℤ := p.identity.number

def partuuidOf (p : PartitionInventory) : String := p.identity.partuuid

/-- Number, PARTUUID, start, size, type, filesystem, its UUID and the set of flags are kept. -/
def Unchanged (p q : PartitionInventory) : Prop :=
  preservedPartition q = preservedPartition p

/-- Only the size has changed, to the target; the filesystem is still NTFS in some casing. -/
def Shrunk (p : PartitionInventory) (targetSizeBytes : ℤ) (q : PartitionInventory) : Prop :=
  preservedPartition q =
      { preservedPartition p with
        sizeBytes := targetSizeBytes
        filesystemType := q.filesystemType } ∧
    casing.casefold q.filesystemType = "ntfs"

/-- A new partition with the number, the range and a filesystem of its declaration. -/
def Created (declaration : PartitionDeclaration) (q : PartitionInventory) : Prop :=
  numberOf q = declaration.number ∧
  q.identity.startBytes = declaration.startMib * MIB ∧
  (∃ endMib, declaration.endMib = some endMib ∧
    q.identity.sizeBytes = (endMib - declaration.startMib) * MIB) ∧
  ∃ filesystem accepted, filesystemByBlock graph declaration.partitionId = some filesystem ∧
    acceptedTypes filesystem = some accepted ∧ casing.casefold q.filesystemType ∈ accepted

def Identified (q : PartitionInventory) : Prop :=
  partuuidOf q ≠ "" ∧ q.filesystemUuid ≠ ""

/-- The disk has the kept partitions, the resized and the declared ones, and nothing else. -/
structure AsDeclared (kept : List PartitionInventory)
    (resized : List (PartitionInventory × ℤ)) (deleted : List String) : Prop where
  keeps : ∀ p ∈ kept, ∃ q ∈ after.partitions, Unchanged p q
  shrinks : ∀ r ∈ resized, ∃ q ∈ after.partitions, Shrunk casing r.1 r.2 q
  creates : ∀ d ∈ graph.partitions, ∃ q ∈ after.partitions, Created casing graph d q
  nothingElse : ∀ q ∈ after.partitions, (∃ p ∈ kept, Unchanged p q) ∨
    (∃ r ∈ resized, Shrunk casing r.1 r.2 q) ∨ ∃ d ∈ graph.partitions, Created casing graph d q
  deletes : ∀ partuuid ∈ deleted, ∀ q ∈ after.partitions, partuuidOf q ≠ partuuid

/-- The new partitions carry identities. -/
def NewIdentified : Prop :=
  ∀ d ∈ graph.partitions, ∀ q ∈ after.partitions, numberOf q = d.number → Identified q

/-- No partition that is listed after the one with the number of `p` has the PARTUUID of `p`. -/
def ListedLast (p : PartitionInventory) : Prop :=
  after.partitions.Pairwise fun a b => numberOf a = numberOf p → partuuidOf b ≠ partuuidOf p

end Outcome

section Checks

variable {casing : Casing} {graph : StorageGraph} {after : DiskInventory}

theorem forM_ok_iff {α : Type} {check : α → Except String Unit} {items : List α} :
    items.forM check = .ok () ↔ ∀ item ∈ items, check item = .ok () := by
  induction items with
  | nil => simp [List.forM, pure, Except.pure]
  | cons first rest ih =>
    rw [List.forall_mem_cons, ← ih]
    exact check_then_ok

theorem keyed_ok {α : Type} {key : String} {value : Option α} {a : α} :
    keyed key value = .ok a ↔ value = some a := by
  cases value <;> simp [keyed]

theorem verifyPreserved_ok {p : PartitionInventory} :
    verifyPreserved after (preservedPartition p) = .ok () ↔
      ∃ q, currentByPartuuid after (partuuidOf p) = some q ∧ Unchanged p q := by
  have hpartuuid : (preservedPartition p).partuuid = partuuidOf p := rfl
  unfold verifyPreserved Unchanged
  rw [hpartuuid]
  cases currentByPartuuid after (partuuidOf p) with
  | none => simp
  | some q => simp [raiseIf_ok]

theorem resizedUnexpectedly_iff {p q : PartitionInventory} {target : ℤ} :
    resizedUnexpectedly casing (preservedPartition p) (preservedPartition q) target = false ↔
      Shrunk casing p target q := by
  unfold resizedUnexpectedly Shrunk
  simp only [Bool.or_eq_false_iff, bne_eq_false_iff_eq, preservedPartition,
    PreservedPartition.mk.injEq]
  tauto

theorem verifyResized_ok {p : PartitionInventory} {target : ℤ} :
    verifyResized casing after (preservedPartition p, target) = .ok () ↔
      ∃ q, currentByPartuuid after (partuuidOf p) = some q ∧ Shrunk casing p target q := by
  have hpartuuid : (preservedPartition p).partuuid = partuuidOf p := rfl
  unfold verifyResized
  rw [hpartuuid]
  cases currentByPartuuid after (partuuidOf p) with
  | none => simp
  | some q => simp [raiseIf_ok, resizedUnexpectedly_iff]

theorem verifyDeleted_ok {partuuid : String} :
    verifyDeleted after partuuid = .ok () ↔ ∀ q ∈ after.partitions, partuuidOf q ≠ partuuid := by
  unfold verifyDeleted
  rw [raiseIf_ok, Option.isSome_eq_false_iff, Option.isNone_iff_eq_none]
  exact entry_eq_none_iff

theorem verifyNewPartition_ok {d : PartitionDeclaration} :
    verifyNewPartition casing graph after d = .ok () ↔
      ∃ q, currentByNumber after d.number = some q ∧ Created casing graph d q ∧ Identified q := by
  unfold verifyNewPartition
  cases hq : currentByNumber after d.number with
  | none => simp
  | some q =>
    have hnumber : numberOf q = d.number := entry_key hq
    cases hend : d.endMib with
    | none => simp [Created, hend]
    | some endMib =>
      simp only [raiseIf_then_ok, Bool.or_eq_false_iff, bne_eq_false_iff_eq]
      simp only [bind_ok (x := keyed _ _), keyed_ok, Option.some.injEq, exists_eq_left',
        Created, Identified, partuuidOf, hnumber, hend, true_and, ne_eq]
      constructor
      · rintro ⟨⟨hstart, hsize⟩, filesystem, hfs, accepted, haccepted, hrest⟩
        rw [raiseIf_then_ok, raiseIf_ok] at hrest
        simp only [decide_eq_false_iff_not, not_not, Bool.or_eq_false_iff,
          beq_eq_false_iff_ne] at hrest
        exact ⟨⟨hstart, hsize, filesystem, accepted, hfs, haccepted, hrest.1⟩, hrest.2⟩
      · rintro ⟨⟨hstart, hsize, filesystem, accepted, hfs, haccepted, htype⟩, hids⟩
        refine ⟨⟨hstart, hsize⟩, filesystem, hfs, accepted, haccepted, ?_⟩
        rw [raiseIf_then_ok, raiseIf_ok]
        simp only [decide_eq_false_iff_not, not_not, Bool.or_eq_false_iff, beq_eq_false_iff_ne]
        exact ⟨htype, hids⟩

theorem numbersAre_iff {expected : List ℤ} :
    numbersAre after expected = true ↔
      (∀ q ∈ after.partitions, numberOf q ∈ expected) ∧
        ∀ n ∈ expected, ∃ q ∈ after.partitions, numberOf q = n := by
  unfold numbersAre
  simp [numberOf]

/-- A look-up by PARTUUID finds a partition that only the number and the PARTUUID of `p`
allow if and only if it is there and listed last. -/
theorem found_iff (hnumbers : (after.partitions.map numberOf).Nodup) {p : PartitionInventory}
    {fits : PartitionInventory → Prop}
    (hfits : ∀ q, fits q → numberOf q = numberOf p ∧ partuuidOf q = partuuidOf p) :
    (∃ q, currentByPartuuid after (partuuidOf p) = some q ∧ fits q) ↔
      (∃ q ∈ after.partitions, fits q) ∧ ListedLast after p := by
  constructor
  · rintro ⟨q, hq, hfit⟩
    obtain ⟨hnumber, -⟩ := hfits q hfit
    refine ⟨⟨q, entry_mem hq, hfit⟩, ?_⟩
    have hlast := pairwise_of_entry (List.Nodup.of_map numberOf hnumbers) hq
    apply List.Pairwise.imp_of_mem _ hlast
    intro a b ha hb hlater heq
    exact hlater (List.inj_on_of_nodup_map hnumbers ha (entry_mem hq) (heq.trans hnumber.symm))
  · rintro ⟨⟨q, hq, hfit⟩, hlast⟩
    obtain ⟨hnumber, hpartuuid⟩ := hfits q hfit
    refine ⟨q, ?_, hfit⟩
    rw [← hpartuuid]
    apply entry_of_pairwise hq
    apply hlast.imp
    rintro a b hlater rfl
    change partuuidOf b ≠ partuuidOf a
    rw [hpartuuid]
    exact hlater hnumber

theorem Unchanged.same {p q : PartitionInventory} (h : Unchanged p q) :
    numberOf q = numberOf p ∧ partuuidOf q = partuuidOf p :=
  ⟨congrArg PreservedPartition.number h, congrArg PreservedPartition.partuuid h⟩

theorem Shrunk.same {p q : PartitionInventory} {target : ℤ} (h : Shrunk casing p target q) :
    numberOf q = numberOf p ∧ partuuidOf q = partuuidOf p :=
  ⟨congrArg PreservedPartition.number h.1, congrArg PreservedPartition.partuuid h.1⟩

variable {kept : List PartitionInventory} {resized : List (PartitionInventory × ℤ)}
  {deleted : List String}

/-- The numbers of what the disk should have. -/
def expectedNumbers (graph : StorageGraph) (kept : List PartitionInventory)
    (resized : List (PartitionInventory × ℤ)) : List ℤ :=
  kept.map numberOf ++ resized.map (fun r => numberOf r.1) ++ graphNumbers graph

/-- With the numbers right and each expected partition present nothing else is there. -/
theorem nothingElse_of_numbers (hnumbers : (after.partitions.map numberOf).Nodup)
    (hkept : ∀ p ∈ kept, ∃ q ∈ after.partitions, Unchanged p q)
    (hresized : ∀ r ∈ resized, ∃ q ∈ after.partitions, Shrunk casing r.1 r.2 q)
    (hcreated : ∀ d ∈ graph.partitions, ∃ q ∈ after.partitions, Created casing graph d q)
    {q : PartitionInventory} (hq : q ∈ after.partitions)
    (hexpected : numberOf q ∈ expectedNumbers graph kept resized) :
    (∃ p ∈ kept, Unchanged p q) ∨ (∃ r ∈ resized, Shrunk casing r.1 r.2 q) ∨
      ∃ d ∈ graph.partitions, Created casing graph d q := by
  -- the partition that is there with the expected number is `q`
  have hsame : ∀ q' ∈ after.partitions, numberOf q' = numberOf q → q' = q := fun q' hq' heq =>
    List.inj_on_of_nodup_map hnumbers hq' hq heq
  unfold expectedNumbers graphNumbers at hexpected
  rcases List.mem_append.mp hexpected with hexpected | hexpected
  · rcases List.mem_append.mp hexpected with hexpected | hexpected
    · obtain ⟨p, hp, hnumber⟩ := List.mem_map.mp hexpected
      obtain ⟨q', hq', hfit⟩ := hkept p hp
      rw [hsame q' hq' (hfit.same.1.trans hnumber)] at hfit
      exact Or.inl ⟨p, hp, hfit⟩
    · obtain ⟨r, hr, hnumber⟩ := List.mem_map.mp hexpected
      obtain ⟨q', hq', hfit⟩ := hresized r hr
      rw [hsame q' hq' (hfit.same.1.trans hnumber)] at hfit
      exact Or.inr (Or.inl ⟨r, hr, hfit⟩)
  · obtain ⟨d, hd, hnumber⟩ := List.mem_map.mp hexpected
    obtain ⟨q', hq', hfit⟩ := hcreated d hd
    rw [hsame q' hq' (hfit.1.trans hnumber)] at hfit
    exact Or.inr (Or.inr ⟨d, hd, hfit⟩)

theorem AsDeclared.numbers (h : AsDeclared casing graph after kept resized deleted) :
    numbersAre after (expectedNumbers graph kept resized) = true := by
  rw [numbersAre_iff]
  unfold expectedNumbers graphNumbers
  constructor
  · intro q hq
    simp only [List.mem_append, List.mem_map]
    rcases h.nothingElse q hq with ⟨p, hp, hfit⟩ | ⟨r, hr, hfit⟩ | ⟨d, hd, hfit⟩
    · exact Or.inl (Or.inl ⟨p, hp, hfit.same.1.symm⟩)
    · exact Or.inl (Or.inr ⟨r, hr, hfit.same.1.symm⟩)
    · exact Or.inr ⟨d, hd, hfit.1.symm⟩
  · intro n hn
    simp only [List.mem_append, List.mem_map] at hn
    rcases hn with (⟨p, hp, rfl⟩ | ⟨r, hr, rfl⟩) | ⟨d, hd, rfl⟩
    · obtain ⟨q, hq, hfit⟩ := h.keeps p hp
      exact ⟨q, hq, hfit.same.1⟩
    · obtain ⟨q, hq, hfit⟩ := h.shrinks r hr
      exact ⟨q, hq, hfit.same.1⟩
    · obtain ⟨q, hq, hfit⟩ := h.creates d hd
      exact ⟨q, hq, hfit.1⟩

theorem created_iff (hnumbers : (after.partitions.map numberOf).Nodup)
    {d : PartitionDeclaration} :
    verifyNewPartition casing graph after d = .ok () ↔
      (∃ q ∈ after.partitions, Created casing graph d q) ∧
        ∀ q ∈ after.partitions, numberOf q = d.number → Identified q := by
  rw [verifyNewPartition_ok]
  constructor
  · rintro ⟨q, hq, hfit, hid⟩
    refine ⟨⟨q, entry_mem hq, hfit⟩, fun q' hq' hnumber => ?_⟩
    rwa [List.inj_on_of_nodup_map hnumbers hq' (entry_mem hq) (hnumber.trans hfit.1.symm)]
  · rintro ⟨⟨q, hq, hfit⟩, hid⟩
    refine ⟨q, ?_, hfit, hid q hq hfit.1⟩
    rw [← hfit.1]
    exact entry_of_nodup hnumbers hq

/-- The checks of both modes accept exactly the disks that are as declared, whose new
partitions are identified and whose old PARTUUIDs are not repeated later. -/
theorem checks_iff (hnumbers : (after.partitions.map numberOf).Nodup) :
    ((∀ p ∈ kept, verifyPreserved after (preservedPartition p) = .ok ()) ∧
      (∀ r ∈ resized, verifyResized casing after (preservedPartition r.1, r.2) = .ok ()) ∧
      (∀ partuuid ∈ deleted, verifyDeleted after partuuid = .ok ()) ∧
      numbersAre after (expectedNumbers graph kept resized) = true ∧
      ∀ d ∈ graph.partitions, verifyNewPartition casing graph after d = .ok ()) ↔
    AsDeclared casing graph after kept resized deleted ∧ NewIdentified graph after ∧
      ∀ p ∈ kept ++ resized.map Prod.fst, ListedLast after p := by
  simp only [verifyPreserved_ok, verifyResized_ok, verifyDeleted_ok, created_iff hnumbers,
    found_iff hnumbers (fun _ => Unchanged.same), found_iff hnumbers (fun _ => Shrunk.same)]
  constructor
  · rintro ⟨hkept, hresized, hdeleted, hnumber, hcreated⟩
    have hkeeps := fun p hp => (hkept p hp).1
    have hshrinks := fun r hr => (hresized r hr).1
    have hcreates := fun d hd => (hcreated d hd).1
    refine ⟨⟨hkeeps, hshrinks, hcreates, fun q hq => ?_, hdeleted⟩,
      fun d hd => (hcreated d hd).2, fun p hp => ?_⟩
    · exact nothingElse_of_numbers hnumbers hkeeps hshrinks hcreates hq
        ((numbersAre_iff.mp hnumber).1 q hq)
    · rcases List.mem_append.mp hp with hp | hp
      · exact (hkept p hp).2
      · obtain ⟨r, hr, rfl⟩ := List.mem_map.mp hp
        exact (hresized r hr).2
  · rintro ⟨h, hids, hlast⟩
    refine ⟨fun p hp => ⟨h.keeps p hp, hlast p (List.mem_append_left _ hp)⟩,
      fun r hr => ⟨h.shrinks r hr, hlast r.1 ?_⟩, h.deletes, h.numbers,
      fun d hd => ⟨h.creates d hd, hids d hd⟩⟩
    exact List.mem_append_right _ (List.mem_map_of_mem hr)

end Checks

end Installer
