import SynOSStudio.Installer.ManualChoices

/-!
# Tables that a manual plan edits

The commands of an accepted manual plan do not fail on the table of its disk, and they leave of it
what the graph declares.
-/

namespace Installer

open IntervalLists KeyedLists PartitionTables

/-! ## What the graph declares -/

section Declared

variable (disk : DiskInventory) (graph : StorageGraph)

def removedNumbers : List ℤ :=
  (disk.partitions.filter (marked disk graph .deletePartition)).map numberOf

def newEnds : List (ℤ × ℤ) :=
  (declaredResizes disk graph).map fun r => (numberOf r.1, r.1.identity.startBytes + r.2)

/-- What stays of the entries of a table. -/
def keptEntries (table : Table String) : List (Entry String) :=
  if replacesTable graph then []
  else (table.entries.filter fun e => e.number ∉ removedNumbers disk graph).map
    (Entry.cut (newEnds disk graph))

end Declared

/-! ## Resizes and removals -/

section Existing

variable {plan : StoragePlan} {disk : DiskInventory} {graph : StorageGraph}
  {selection : ManualStorageSelection} {diskPath : String} {table : Table String}

theorem mapM_map {α β γ : Type} {f : α → Except String β} {g : α → γ} {h : β → γ}
    {items : List α} {results : List β} (hresults : items.mapM f = .ok results)
    (heach : ∀ item ∈ items, ∀ result, f item = .ok result → h result = g item) :
    results.map h = items.map g := by
  induction items generalizing results with
  | nil =>
    cases hresults
    rfl
  | cons first rest ih =>
    rw [List.mapM_cons] at hresults
    obtain ⟨b, hb, hresults⟩ := bind_ok.mp hresults
    obtain ⟨bs, hbs, hresults⟩ := bind_ok.mp hresults
    cases hresults
    rw [List.map_cons, List.map_cons, heach first (by simp) b hb,
      ih hbs fun item hitem => heach item (by simp [hitem])]

theorem existingTarget_eq {p : PartitionInventory} (hp : p ∈ disk.partitions)
    (hunique : ∀ q ∈ disk.partitions, partuuidOf q = partuuidOf p → q = p) :
    existingTarget disk (referenceOf disk p) = some p :=
  entry_of_unique hp fun q hq hsame => hunique q hq (referenceOf_inj.mp hsame)

/-- The request to resize a partition. -/
def resizeRequest (selection : ManualStorageSelection) (p : PartitionInventory) :
    Option ManualPartitionResizeRequest :=
  entry ManualPartitionResizeRequest.partuuid selection.resizedPartitions (partuuidOf p)

def resizeDeclaration (disk : DiskInventory) (p : PartitionInventory)
    (request : ManualPartitionResizeRequest) : PartitionResizeDeclaration where
  targetReferenceId := referenceOf disk p
  filesystem := .ntfs
  originalSizeBytes := p.identity.sizeBytes
  targetSizeBytes := request.targetSizeMib * 1024 * 1024

theorem partitionResizes_eq (hkeep : selection.reinitializeGpt = false) :
    partitionResizes disk selection = disk.partitions.filterMap fun p =>
      (resizeRequest selection p).map (resizeDeclaration disk p) := by
  rw [partitionResizes, existingReferences, hkeep]
  simp only [Bool.false_eq_true, if_false, List.filterMap_map]
  rfl

theorem Chosen.resized_unique (h : Chosen disk selection) {p q : PartitionInventory}
    {request : ManualPartitionResizeRequest} (hp : p ∈ disk.partitions) (hq : q ∈ disk.partitions)
    (hrequest : resizeRequest selection p = some request)
    (hsame : partuuidOf q = partuuidOf p) : q = p :=
  h.accepted.resizedOnce request (entry_mem hrequest) q hq p hp
    (hsame.trans (entry_key hrequest).symm) (entry_key hrequest).symm

theorem Chosen.declared_resize (h : Chosen disk selection)
    (hkeep : selection.reinitializeGpt = false) {p : PartitionInventory}
    (hp : p ∈ disk.partitions) :
    entry PartitionResizeDeclaration.targetReferenceId (partitionResizes disk selection)
      (referenceOf disk p) = (resizeRequest selection p).map (resizeDeclaration disk p) := by
  rw [partitionResizes_eq hkeep]
  cases hrequest : resizeRequest selection p with
  | none =>
    rw [Option.map_none, entry_eq_none_iff]
    intro d hd hsame
    obtain ⟨q, -, hd⟩ := List.mem_filterMap.mp hd
    obtain ⟨request, hq, rfl⟩ := Option.map_eq_some_iff.mp hd
    have hpartuuid : partuuidOf q = partuuidOf p := referenceOf_inj.mp hsame
    rw [resizeRequest, hpartuuid] at hq
    rw [resizeRequest, hq] at hrequest
    cases hrequest
  | some request =>
    refine entry_of_unique (a := resizeDeclaration disk p request)
      (List.mem_filterMap.mpr ⟨p, hp, by rw [hrequest, Option.map_some]⟩) fun d hd hsame => ?_
    obtain ⟨q, hq, hd⟩ := List.mem_filterMap.mp hd
    obtain ⟨other, hother, rfl⟩ := Option.map_eq_some_iff.mp hd
    obtain rfl := h.resized_unique hp hq hrequest (referenceOf_inj.mp hsame)
    rw [hrequest] at hother
    cases hother
    rfl

theorem ManualChoice.newEnds_eq (h : ManualChoice plan disk graph selection)
    (hkeep : selection.reinitializeGpt = false) :
    newEnds disk graph = disk.partitions.filterMap fun p => (resizeRequest selection p).map
      fun request => (numberOf p, p.identity.startBytes + request.targetSizeMib * MIB) := by
  rw [newEnds, declaredResizes, h.partitions.2, List.map_filterMap]
  refine List.filterMap_congr fun p hp => ?_
  rw [h.chosen.declared_resize hkeep hp, Option.map_map, Option.map_map]
  refine congrArg (Option.map · _) (funext fun request => ?_)
  simp only [Function.comp_apply, resizeDeclaration, MIB, Prod.mk.injEq, true_and]
  ring

theorem ManualChoice.shrinks (h : ManualChoice plan disk graph selection)
    (hkeep : selection.reinitializeGpt = false) {resizes : List NtfsResizeCommandPlan}
    (hresizes : graph.partitionResizes.mapM (ntfsResize diskPath disk) = .ok resizes) :
    resizes.map (fun resize => (resize.partitionNumber, resize.targetEndBytes + 1)) =
      newEnds disk graph := by
  have hmap := mapM_map (h := fun resize : NtfsResizeCommandPlan =>
      some (resize.partitionNumber, resize.targetEndBytes + 1))
    (g := fun d => (existingTarget disk d.targetReferenceId).map fun p =>
      (numberOf p, p.identity.startBytes + d.targetSizeBytes)) hresizes ?_
  · have hsome : (newEnds disk graph).map some = graph.partitionResizes.map fun d =>
        (existingTarget disk d.targetReferenceId).map fun p =>
          (numberOf p, p.identity.startBytes + d.targetSizeBytes) := by
      rw [h.newEnds_eq hkeep, h.partitions.2, partitionResizes_eq hkeep, List.map_filterMap,
        List.map_filterMap]
      refine List.filterMap_congr fun p hp => ?_
      cases hrequest : resizeRequest selection p with
      | none => rfl
      | some request =>
        have htarget := existingTarget_eq hp fun q hq =>
          h.chosen.resized_unique hp hq hrequest
        simp only [Option.map_some, resizeDeclaration, htarget, MIB, Option.some.injEq,
          Prod.mk.injEq, true_and]
        ring
    rw [← hsome, ← Function.comp_def some, ← List.map_map] at hmap
    exact List.map_injective_iff.mpr (Option.some_injective _) hmap
  · intro d _ resize hresize
    unfold ntfsResize existingByReference at hresize
    obtain ⟨p, hp, hresize⟩ := bind_ok.mp hresize
    cases hresize
    rw [keyed_ok.mp hp]
    simp only [Option.map_some, numberOf, sub_add_cancel]

theorem ManualChoice.removedNumbers_eq (h : ManualChoice plan disk graph selection)
    (hkeep : selection.reinitializeGpt = false) :
    removedNumbers disk graph = (disk.partitions.filter fun p =>
      partuuidOf p ∈ selection.deletedPartuuids).map numberOf :=
  congrArg _ (List.filter_congr fun _ hp => h.marked_delete hkeep hp)

theorem ManualChoice.removes (h : ManualChoice plan disk graph selection)
    (hkeep : selection.reinitializeGpt = false) {commands : List (List String)}
    (hcommands : tableCommands diskPath disk graph = .ok commands) (table : Table String) :
    commands.foldlM (parted diskPath) table =
      (removedNumbers disk graph).foldlM Table.remove table := by
  rw [tableCommands, h.replaces.1, hkeep] at hcommands
  have hmap := mapM_map (h := some)
    (g := fun target => (existingTarget disk target).map fun p =>
      ["parted", "--script", diskPath, "rm", (numberOf p).repr]) hcommands ?_
  · have hsome : ((removedNumbers disk graph).map fun number =>
        ["parted", "--script", diskPath, "rm", number.repr]).map some = commands.map some := by
      rw [hmap, h.deletes hkeep, h.removedNumbers_eq hkeep, List.map_map, List.map_map,
        List.map_map]
      refine List.map_congr_left fun p hp => ?_
      obtain ⟨hmem, hdeleted⟩ := List.mem_filter.mp hp
      have htarget := existingTarget_eq hmem fun q hq hsame =>
        h.chosen.deletedOnce p hmem q hq (by simpa using hdeleted) hsame
      simp only [Function.comp_apply, htarget, Option.map_some]
    rw [← List.map_injective_iff.mpr (Option.some_injective _) hsome, List.foldlM_map]
    congr 1
    funext table number
    exact parted_rm number
  · intro target _ command hcommand
    unfold removalCommand existingByReference at hcommand
    obtain ⟨p, hp, hcommand⟩ := bind_ok.mp hcommand
    cases hcommand
    rw [keyed_ok.mp hp]
    rfl

end Existing

/-! ## Soundness -/

section Soundness

variable {diskPath : String} {table after : Table String}

/-- No call of `parted` breaks a table. -/
theorem parted_sound {words : List String} (h : table.Sound)
    (hafter : parted diskPath table words = some after) : after.Sound := by
  unfold parted at hafter
  split at hafter
  · split at hafter
    · unfold partedWords at hafter
      split at hafter
      · split at hafter
        · cases hafter
          exact Table.sound_clear
        · cases hafter
      · obtain ⟨number, -, hafter⟩ := Option.bind_eq_some_iff.mp hafter
        exact h.remove hafter
      · obtain ⟨number, -, hafter⟩ := Option.bind_eq_some_iff.mp hafter
        split at hafter
        · exact h.mark hafter
        · cases hafter
      · obtain ⟨range, -, hafter⟩ := Option.bind_eq_some_iff.mp hafter
        exact h.make hafter
      · obtain ⟨range, -, hafter⟩ := Option.bind_eq_some_iff.mp hafter
        exact h.make hafter
      · cases hafter
    · cases hafter
  · cases hafter

theorem runCommands_sound {commands : StorageCommandPlan} (h : table.Sound)
    (hafter : runCommands diskPath commands table = some after) : after.Sound := by
  obtain ⟨shrunk, hshrunk, hafter⟩ := Option.bind_eq_some_iff.mp hafter
  have hshrinks : ∀ {table after : Table String} {resize : NtfsResizeCommandPlan}, table.Sound →
      shrinkPartition table resize = some after → after.Sound := fun h hnext => h.shrink hnext
  have hsound := Table.Sound.foldlM hshrinks h hshrunk
  exact Table.Sound.foldlM parted_sound hsound hafter

end Soundness

/-! ## What stays -/

section Kept

variable {plan : StoragePlan} {disk : DiskInventory} {graph : StorageGraph}
  {selection : ManualStorageSelection} {diskPath : String} {table : Table String}

theorem Holds.number_inj (h : Holds table disk) (hnodup : table.numbers.Nodup)
    {p q : PartitionInventory} (hp : p ∈ disk.partitions) (hq : q ∈ disk.partitions)
    (hsame : numberOf q = numberOf p) : q = p := by
  rw [h.numbers] at hnodup
  exact List.inj_on_of_nodup_map hnodup hq hp hsame

theorem Holds.range_of (h : Holds table disk) (hnodup : table.numbers.Nodup) {e : Entry String}
    (he : e ∈ table.entries) {p : PartitionInventory} (hp : p ∈ disk.partitions)
    (hnumber : numberOf p = e.number) : e.range = p.range := by
  obtain ⟨q, hq, hsame, hrange⟩ := h.partition_of he
  rw [← hrange, h.number_inj hnodup hp hq (hsame.trans hnumber.symm)]

/-- Keyed results of a list have no more keys than the list. -/
theorem filterMap_keys_sublist {α β γ : Type} {key : α → β} {f : α → Option γ} (items : List α) :
    ((items.filterMap fun a => (f a).map fun c => (key a, c)).map Prod.fst).Sublist
      (items.map key) := by
  induction items with
  | nil => exact List.Sublist.slnil
  | cons a items ih =>
    cases hf : f a with
    | none =>
      rw [List.filterMap_cons_none (by rw [hf, Option.map_none])]
      exact ih.cons _
    | some c =>
      rw [List.filterMap_cons_some (by rw [hf, Option.map_some])]
      exact ih.cons_cons _

theorem ManualChoice.newEnds_nodup (h : ManualChoice plan disk graph selection)
    (hkeep : selection.reinitializeGpt = false) (hholds : Holds table disk)
    (hnodup : table.numbers.Nodup) : ((newEnds disk graph).map Prod.fst).Nodup := by
  rw [hholds.numbers] at hnodup
  have hends : newEnds disk graph = disk.partitions.filterMap fun p =>
      ((resizeRequest selection p).map fun request =>
        p.identity.startBytes + request.targetSizeMib * MIB).map
          fun stop => (numberOf p, stop) := by
    rw [h.newEnds_eq hkeep]
    exact List.filterMap_congr fun p _ => by rw [Option.map_map]; rfl
  rw [hends]
  exact hnodup.sublist (filterMap_keys_sublist _)

/-- What a new end is for. -/
theorem ManualChoice.mem_newEnds (h : ManualChoice plan disk graph selection)
    (hkeep : selection.reinitializeGpt = false) {number stop : ℤ} :
    (number, stop) ∈ newEnds disk graph ↔ ∃ p ∈ disk.partitions, ∃ request,
      resizeRequest selection p = some request ∧ numberOf p = number ∧
        p.identity.startBytes + request.targetSizeMib * MIB = stop := by
  rw [h.newEnds_eq hkeep, List.mem_filterMap]
  simp only [Option.map_eq_some_iff, Prod.mk.injEq]

theorem ManualChoice.not_resized (h : ManualChoice plan disk graph selection)
    (hkeep : selection.reinitializeGpt = false) (hholds : Holds table disk)
    (hnodup : table.numbers.Nodup) {p : PartitionInventory} (hp : p ∈ disk.partitions)
    (hrequest : resizeRequest selection p = none) :
    numberOf p ∉ (newEnds disk graph).map Prod.fst := by
  intro hmem
  obtain ⟨⟨number, stop⟩, hmem, hfirst⟩ := List.mem_map.mp hmem
  obtain ⟨q, hq, request, hother, hnumber, -⟩ := (h.mem_newEnds hkeep).mp hmem
  rw [hholds.number_inj hnodup hp hq (hnumber.trans hfirst), hrequest] at hother
  cases hother

theorem Chosen.resize_bounds (h : Chosen disk selection) {p : PartitionInventory}
    (hp : p ∈ disk.partitions) {request : ManualPartitionResizeRequest}
    (hrequest : resizeRequest selection p = some request) :
    0 < request.targetSizeMib ∧ request.targetSizeMib * MIB ≤ p.identity.sizeBytes := by
  have hmem := entry_mem hrequest
  obtain ⟨q, hq, hpartuuid, -, hle⟩ := h.accepted.targets request hmem
  have heq : q = p := h.accepted.resizedOnce request hmem q hq p hp hpartuuid
    (entry_key hrequest).symm
  exact ⟨h.targets request hmem, heq ▸ hle⟩

theorem ManualChoice.shrinkable (h : ManualChoice plan disk graph selection)
    (hkeep : selection.reinitializeGpt = false) (hholds : Holds table disk)
    (hnodup : table.numbers.Nodup) : ∀ q ∈ newEnds disk graph, q.1 ∈ table.numbers ∧
      ∀ e ∈ table.entries, e.number = q.1 → e.range.start < q.2 ∧ q.2 ≤ e.range.stop := by
  rintro ⟨number, stop⟩ hq
  obtain ⟨p, hp, request, hrequest, rfl, rfl⟩ := (h.mem_newEnds hkeep).mp hq
  refine ⟨hholds.numbers ▸ List.mem_map_of_mem hp, fun e he hnumber => ?_⟩
  obtain ⟨hpos, hle⟩ := h.chosen.resize_bounds hp hrequest
  rw [hholds.range_of hnodup he hp hnumber.symm]
  simp only [PartitionInventory.range, byteRange, MIB] at hle ⊢
  omega

theorem Chosen.resizeForPartuuid_eq (h : Chosen disk selection) (p : PartitionInventory) :
    resizeForPartuuid selection (partuuidOf p) = resizeRequest selection p := by
  cases hrequest : resizeRequest selection p with
  | none =>
    have hnone := entry_eq_none_iff.mp hrequest
    rw [resizeForPartuuid, List.find?_eq_none]
    exact fun request hmem hsame => hnone request hmem (by simpa using hsame)
  | some request =>
    rw [← entry_key hrequest]
    exact Installer.resizeForPartuuid_eq h.accepted (entry_mem hrequest)

/-- A shrunk entry has the range that the layout retains of its partition. -/
theorem ManualChoice.cut_range (h : ManualChoice plan disk graph selection)
    (hkeep : selection.reinitializeGpt = false) (hholds : Holds table disk)
    (hnodup : table.numbers.Nodup) {e : Entry String} (he : e ∈ table.entries)
    {p : PartitionInventory} (hp : p ∈ disk.partitions) (hnumber : numberOf p = e.number) :
    (e.cut (newEnds disk graph)).range = retainedRange selection p := by
  have hrange := hholds.range_of hnodup he hp hnumber
  have hresize : resizeForPartuuid selection p.identity.partuuid = resizeRequest selection p :=
    h.chosen.resizeForPartuuid_eq p
  rw [retainedRange, hresize]
  cases hrequest : resizeRequest selection p with
  | none =>
    rw [Entry.cut_of_not_mem, hrange]
    rw [← hnumber]
    exact h.not_resized hkeep hholds hnodup hp hrequest
  | some request =>
    rw [Entry.cut_of_mem (h.newEnds_nodup hkeep hholds hnodup)
      ((h.mem_newEnds hkeep).mpr ⟨p, hp, request, hrequest, hnumber, rfl⟩), hrange]
    rfl

theorem ManualChoice.not_removed (h : ManualChoice plan disk graph selection)
    (hkeep : selection.reinitializeGpt = false) (hholds : Holds table disk)
    (hnodup : table.numbers.Nodup) {p : PartitionInventory} (hp : p ∈ disk.partitions) :
    numberOf p ∉ removedNumbers disk graph ↔ partuuidOf p ∉ selection.deletedPartuuids := by
  rw [h.removedNumbers_eq hkeep, not_iff_not]
  constructor
  · intro hmem
    obtain ⟨q, hq, hnumber⟩ := List.mem_map.mp hmem
    obtain ⟨hq, hdeleted⟩ := List.mem_filter.mp hq
    rw [← hholds.number_inj hnodup hp hq hnumber]
    simpa using hdeleted
  · exact fun hdeleted => List.mem_map_of_mem (List.mem_filter.mpr ⟨hp, by simpa using hdeleted⟩)

/-- The entries that stay are those of the partitions that are not deleted, with what the layout
retains of them. -/
theorem ManualChoice.kept_partition (h : ManualChoice plan disk graph selection)
    (hholds : Holds table disk) (hnodup : table.numbers.Nodup) {e : Entry String}
    (he : e ∈ keptEntries disk graph table) : selection.reinitializeGpt = false ∧
      ∃ p ∈ disk.partitions, numberOf p = e.number ∧ partuuidOf p ∉ selection.deletedPartuuids ∧
        e.range = retainedRange selection p := by
  unfold keptEntries at he
  rw [h.replaces.2] at he
  split at he
  · cases he
  · rename_i hreplace
    have hkeep : selection.reinitializeGpt = false := by simpa using hreplace
    obtain ⟨g, hg, rfl⟩ := List.mem_map.mp he
    obtain ⟨hg, hstays⟩ := List.mem_filter.mp hg
    obtain ⟨p, hp, hnumber, -⟩ := hholds.partition_of hg
    refine ⟨hkeep, p, hp, ?_, ?_, h.cut_range hkeep hholds hnodup hg hp hnumber⟩
    · rw [Entry.cut_number]
      exact hnumber
    · rw [← h.not_removed hkeep hholds hnodup hp]
      rw [decide_eq_true_eq, ← hnumber] at hstays
      exact hstays

theorem ManualChoice.kept_numbers (h : ManualChoice plan disk graph selection)
    (hholds : Holds table disk) (hnodup : table.numbers.Nodup) (n : ℤ) :
    n ∈ (keptEntries disk graph table).map Entry.number ↔ n ∈ usedNumbers disk selection := by
  unfold usedNumbers
  constructor
  · intro hn
    obtain ⟨e, he, rfl⟩ := List.mem_map.mp hn
    obtain ⟨hkeep, p, hp, hnumber, hstays, -⟩ := h.kept_partition hholds hnodup he
    refine List.mem_map.mpr ⟨p, List.mem_filter.mpr ⟨hp, ?_⟩, hnumber⟩
    rw [hkeep, Bool.not_false, Bool.true_and, decide_eq_true_eq]
    exact hstays
  · intro hn
    obtain ⟨p, hp, rfl⟩ := List.mem_map.mp hn
    obtain ⟨hp, hstays⟩ := List.mem_filter.mp hp
    rw [Bool.and_eq_true, Bool.not_eq_true', decide_eq_true_eq] at hstays
    obtain ⟨hkeep, hstays⟩ := hstays
    have hmem : numberOf p ∈ table.numbers := hholds.numbers ▸ List.mem_map_of_mem hp
    obtain ⟨e, he, hnumber⟩ := List.mem_map.mp hmem
    have hkept : e ∈ table.entries.filter fun e => e.number ∉ removedNumbers disk graph := by
      rw [List.mem_filter, decide_eq_true_eq, hnumber]
      exact ⟨he, (h.not_removed hkeep hholds hnodup hp).mpr hstays⟩
    rw [keptEntries, h.replaces.2, hkeep, if_neg Bool.false_ne_true]
    exact List.mem_map.mpr ⟨_, List.mem_map_of_mem hkept, (Entry.cut_number _ e).trans hnumber⟩

/-- A partition that is marked to be preserved keeps its entry as it is. -/
theorem ManualChoice.preserved_kept (h : ManualChoice plan disk graph selection)
    (hholds : Holds table disk) (hnodup : table.numbers.Nodup) {p : PartitionInventory}
    (hp : p ∈ preservedPartitions disk graph) {e : Entry String} (he : e ∈ table.entries)
    (hnumber : e.number = numberOf p) : e ∈ keptEntries disk graph table := by
  obtain ⟨hp, hmarked⟩ := List.mem_filter.mp hp
  have htarget : referenceOf disk p ∈ targets graph .preserve :=
    List.mem_map.mpr ⟨_, List.mem_filter.mpr ⟨by simpa [marked] using hmarked, by simp⟩, rfl⟩
  rw [h.targets_of_table (by simp), tableOperations] at htarget
  cases hkeep : selection.reinitializeGpt with
  | true => simp [hkeep] at htarget
  | false =>
    obtain ⟨operation, hoperation, hsame⟩ := List.mem_map.mp htarget
    obtain ⟨hoperation, haction⟩ := List.mem_filter.mp hoperation
    have hreference : ∃ q ∈ disk.partitions, referenceOf disk q = referenceOf disk p ∧
        partuuidOf q ∉ selection.deletedPartuuids ∧ isResized selection (partuuidOf q) = false := by
      rw [← hsame]
      simp only [hkeep, Bool.false_eq_true, if_false, List.mem_append, List.mem_map,
        List.mem_singleton] at hoperation
      rcases hoperation with ((⟨item, hitem, rfl⟩ | ⟨item, hitem, rfl⟩) | ⟨item, hitem, rfl⟩) | rfl
      · obtain ⟨hexisting, hstays⟩ := List.mem_filter.mp hitem
        rw [existingReferences, hkeep, if_neg Bool.false_ne_true] at hexisting
        obtain ⟨q, hq, rfl⟩ := List.mem_map.mp hexisting
        rw [Bool.and_eq_true, decide_eq_true_eq, Bool.not_eq_true'] at hstays
        exact ⟨q, hq, rfl, hstays⟩
      all_goals simp at haction
    obtain ⟨q, hq, hqp, hstays, hresized⟩ := hreference
    have hpartuuid : partuuidOf q = partuuidOf p := referenceOf_inj.mp hqp
    rw [hpartuuid] at hstays hresized
    have hrequest : resizeRequest selection p = none := by
      rw [resizeRequest, entry_eq_none_iff]
      intro request hmem hsame
      exact (List.any_eq_false.mp hresized request hmem) (by simpa using hsame)
    have hends : e.number ∉ (newEnds disk graph).map Prod.fst := by
      rw [hnumber]
      exact h.not_resized hkeep hholds hnodup hp hrequest
    rw [keptEntries, h.replaces.2, hkeep, if_neg Bool.false_ne_true]
    refine List.mem_map.mpr ⟨e, List.mem_filter.mpr ⟨he, ?_⟩, Entry.cut_of_not_mem hends⟩
    rw [decide_eq_true_eq, hnumber]
    exact (h.not_removed hkeep hholds hnodup hp).mpr hstays

end Kept

/-! ## What is created -/

section Created

variable {plan : StoragePlan} {disk : DiskInventory} {graph : StorageGraph}
  {selection : ManualStorageSelection} {diskPath : String} {table : Table String}

theorem mem_declarePartitions {part : PartitionDeclaration}
    (hpart : part ∈ declarePartitions disk selection) :
    ∃ request ∈ selection.newPartitions, ∃ number, part = declarePartition disk request number := by
  rw [declarePartitions, ← List.map_uncurry_zip_eq_zipWith] at hpart
  obtain ⟨⟨request, number⟩, hpair, rfl⟩ := List.mem_map.mp hpart
  exact ⟨request, (List.of_mem_zip hpair).1, number, rfl⟩

theorem declared_numbers : (declarePartitions disk selection).map PartitionDeclaration.number =
    nextPartitionNumbers (usedNumbers disk selection) selection.newPartitions.length := by
  rw [declarePartitions, ← List.map_uncurry_zip_eq_zipWith, List.map_map]
  refine List.map_snd_zip ?_
  rw [nextPartitionNumbers_length]

/-- What a declaration says of its request alone. -/
theorem declared_requests {β : Type} {f : PartitionDeclaration → β}
    {g : ManualPartitionRequest → β}
    (h : ∀ request number, f (declarePartition disk request number) = g request) :
    (declarePartitions disk selection).map f = selection.newPartitions.map g := by
  rw [declarePartitions, ← List.map_uncurry_zip_eq_zipWith, List.map_map]
  calc _ = ((selection.newPartitions.zip (nextPartitionNumbers (usedNumbers disk selection)
        selection.newPartitions.length)).map Prod.fst).map g := by
        rw [List.map_map]
        exact List.map_congr_left fun pair _ => h pair.1 pair.2
    _ = _ := by
        rw [List.map_fst_zip]
        rw [nextPartitionNumbers_length]

theorem declared_ranges : (declarePartitions disk selection).map (fun part =>
    (declaredEntry part).range) = selection.newPartitions.map ManualPartitionRequest.range :=
  declared_requests fun _ _ => rfl

theorem ManualChoice.declares (h : ManualChoice plan disk graph selection) :
    List.Forall₂ Declares graph.partitions (graph.partitions.map declaredEntry) := by
  refine List.forall₂_map_right_iff.mpr (List.forall₂_same.mpr fun part hpart => ?_)
  rw [h.partitions.1] at hpart
  obtain ⟨request, -, number, rfl⟩ := mem_declarePartitions hpart
  exact ⟨rfl, ⟨request.endMib, rfl, rfl⟩, rfl⟩

/-- The commands before the new partitions leave what is to be kept. -/
theorem ManualChoice.edits (h : ManualChoice plan disk graph selection)
    (hholds : Holds table disk) (hnodup : table.numbers.Nodup)
    {resizes : List NtfsResizeCommandPlan} {commands : List (List String)}
    (hresizes : graph.partitionResizes.mapM (ntfsResize diskPath disk) = .ok resizes)
    (hcommands : tableCommands diskPath disk graph = .ok commands) :
    (resizes.foldlM shrinkPartition table).bind (commands.foldlM (parted diskPath)) =
      some ⟨table.size, keptEntries disk graph table⟩ := by
  cases hkeep : selection.reinitializeGpt with
  | true =>
    have hnone : graph.partitionResizes = [] := by
      rw [h.partitions.2, partitionResizes, existingReferences, hkeep, if_pos rfl]
      rfl
    rw [hnone] at hresizes
    cases hresizes
    rw [tableCommands, h.replaces.1, hkeep] at hcommands
    cases hcommands
    rw [keptEntries, h.replaces.2, hkeep, if_pos rfl]
    simp [parted, partedWords, Table.clear]
  | false =>
    have hshrinks : resizes.foldlM shrinkPartition table =
        (newEnds disk graph).foldlM (fun table q => table.shrink q.1 q.2) table := by
      rw [← h.shrinks hkeep hresizes, List.foldlM_map]
      rfl
    rw [hshrinks, Table.foldlM_shrink table (h.newEnds_nodup hkeep hholds hnodup)
      (h.shrinkable hkeep hholds hnodup), Option.bind_some, h.removes hkeep hcommands,
      Table.foldlM_remove]
    · rw [keptEntries, h.replaces.2, hkeep, if_neg Bool.false_ne_true, List.filter_map]
      simp only [Function.comp_def, Entry.cut_number]
    · rw [h.removedNumbers_eq hkeep]
      rw [hholds.numbers] at hnodup
      exact hnodup.sublist (List.filter_sublist.map _)
    · intro n hn
      rw [h.removedNumbers_eq hkeep] at hn
      obtain ⟨p, hp, rfl⟩ := List.mem_map.mp hn
      have hmem : numberOf p ∈ table.numbers :=
        hholds.numbers ▸ List.mem_map_of_mem (List.mem_filter.mp hp).1
      rw [Table.numbers, List.map_map]
      simp only [Function.comp_def, Entry.cut_number]
      exact hmem

/-- The new entries have room of their own beside what is kept. -/
theorem ManualChoice.fits (h : ManualChoice plan disk graph selection)
    (hpartitioned : disk.Partitioned) (hholds : Holds table disk) (hnodup : table.numbers.Nodup) :
    (graph.partitions.map declaredEntry).foldlM Table.create
        ⟨table.size, keptEntries disk graph table⟩ =
      some ⟨table.size, keptEntries disk graph table ++ graph.partitions.map declaredEntry⟩ := by
  have hrange : ∀ e ∈ graph.partitions.map declaredEntry,
      ∃ request ∈ selection.newPartitions, e.range = request.range := by
    intro e he
    obtain ⟨part, hpart, rfl⟩ := List.mem_map.mp he
    rw [h.partitions.1] at hpart
    obtain ⟨request, hrequest, number, rfl⟩ := mem_declarePartitions hpart
    exact ⟨request, hrequest, rfl⟩
  refine Table.foldlM_create _ ?_ (fun e he => ?_) (fun e he g hg => ?_) ?_
  · have hnumbers : (graph.partitions.map declaredEntry).map Entry.number =
        nextPartitionNumbers (usedNumbers disk selection) selection.newPartitions.length := by
      rw [h.partitions.1, ← declared_numbers, List.map_map]
      rfl
    rw [hnumbers]
    exact handed_nextPartitionNumbers (h.kept_numbers hholds hnodup) _
  · obtain ⟨request, hrequest, hsame⟩ := hrange e he
    rw [hsame]
    have hinside := request_inside hpartitioned h.chosen.accepted hrequest
    rwa [← hholds.size] at hinside
  · obtain ⟨request, hrequest, hsame⟩ := hrange e he
    obtain ⟨hkeep, p, hp, -, hstays, hretained⟩ := h.kept_partition hholds hnodup hg
    rw [hsame, hretained]
    exact (request_apart hpartitioned h.chosen.accepted hkeep hrequest hp hstays).symm
  · have hranges : (graph.partitions.map declaredEntry).map Entry.range =
        selection.newPartitions.map ManualPartitionRequest.range := by
      rw [h.partitions.1, ← declared_ranges, List.map_map]
      rfl
    obtain ⟨base, -, hvalid⟩ := h.chosen.accepted.requests
    have hapart : (selection.newPartitions.map ManualPartitionRequest.range).Pairwise
        fun a b => Disjoint a.points b.points := by
      rw [List.pairwise_map]
      exact (requests_ordered hvalid).2.imp fun hle =>
        apart_of_le (Int.mul_le_mul_of_nonneg_right hle (by decide))
    rw [← hranges, List.pairwise_map] at hapart
    exact hapart

end Created

/-! ## What is formatted -/

section Formatted

variable {plan : StoragePlan} {disk : DiskInventory} {graph : StorageGraph}
  {selection : ManualStorageSelection} {diskPath : String} {boot : BootTarget}

theorem value_inj : Function.Injective ManualPartitionRole.value := by
  intro a b h
  cases a <;> cases b <;> simp_all [ManualPartitionRole.value]

theorem declared_names : (declarePartitions disk selection).map PartitionDeclaration.name =
    (selection.newPartitions.map ManualPartitionRequest.role).map ManualPartitionRole.value := by
  rw [List.map_map]
  exact declared_requests fun _ _ => rfl

/-- A new partition is not among the existing ones. -/
theorem existingTarget_new (number : ℤ) :
    existingTarget disk (newPartitionId (diskId disk.stableId) number) = none := by
  rw [existingTarget, entry_eq_none_iff]
  exact fun p _ hsame => existing_ne_new _ _ _ hsame

theorem ManualChoice.created_esp (h : ManualChoice plan disk graph selection)
    (hboot : firstBootTarget graph = .ok boot) (hnew : selection.reusedEspPartuuid = "") :
    existingTarget disk boot.efiFilesystemId = none := by
  obtain ⟨rootId, espId, mounts, hesp, hcanonical⟩ := h.canonical
  have htarget : boot.efiFilesystemId = espId := by
    rw [hcanonical] at hboot
    cases hboot
    rfl
  rw [manualEspId, hnew, if_neg (by simp)] at hesp
  obtain ⟨part, hpart, hid⟩ := Option.map_eq_some_iff.mp (keyed_ok.mp hesp)
  obtain ⟨request, -, number, rfl⟩ := mem_declarePartitions (entry_mem hpart)
  rw [htarget, ← hid]
  exact existingTarget_new number

/-- The devices of a plan have different names. -/
theorem ManualChoice.devices_nodup (h : ManualChoice plan disk graph selection)
    (diskPath : String) (hboot : firstBootTarget graph = .ok boot) :
    ((manualDevices diskPath disk graph boot).map Prod.fst).Nodup := by
  have hnames : (graph.partitions.map fun part =>
      (part.name, partitionPath diskPath part.number)).map Prod.fst =
        (selection.newPartitions.map ManualPartitionRequest.role).map
          ManualPartitionRole.value := by
    rw [h.partitions.1, ← declared_names, List.map_map]
    rfl
  have hnodup := h.chosen.roles.map value_inj
  unfold manualDevices
  split
  · rw [hnames]
    exact hnodup
  · rename_i esp hesp
    have hreused : selection.reusedEspPartuuid ≠ "" := by
      intro hnew
      rw [h.created_esp hboot hnew] at hesp
      cases hesp
    rw [List.map_append, hnames]
    refine List.nodup_append.mpr ⟨hnodup, List.nodup_singleton _, fun name hname other hother => ?_⟩
    rw [List.mem_singleton.mp hother]
    rintro rfl
    obtain ⟨role, hrole, hvalue⟩ := List.mem_map.mp hname
    have hefi : role = .efiSystem := value_inj hvalue
    exact h.chosen.esp hreused (hefi ▸ hrole)

/-- The new partitions are formatted, each once and in their order. -/
theorem ManualChoice.format_targets (h : ManualChoice plan disk graph selection)
    (hboot : firstBootTarget graph = .ok boot) {format : List (List String)}
    (hformat : (graph.partitions.filter fun part =>
      part.partitionId ∈ targets graph .format).mapM
        (manualFormat graph (manualDevices diskPath disk graph boot)) = .ok format) :
    format.map formatTarget =
      graph.partitions.map fun part => some (partitionPath diskPath part.number) := by
  have hall : graph.partitions.filter (fun part => part.partitionId ∈ targets graph .format) =
      graph.partitions := by
    rw [List.filter_eq_self]
    intro part hpart
    rw [decide_eq_true_eq, h.formats]
    exact List.mem_map_of_mem hpart
  rw [hall] at hformat
  refine mapM_map hformat fun part hpart command hcommand => ?_
  unfold manualFormat at hcommand
  obtain ⟨filesystem, -, hcommand⟩ := bind_ok.mp hcommand
  obtain ⟨⟨name, device⟩, hdevice, hcommand⟩ := bind_ok.mp hcommand
  have hlisted : (part.name, partitionPath diskPath part.number) ∈
      manualDevices diskPath disk graph boot := by
    have hcreated := List.mem_map_of_mem
      (f := fun part => (part.name, partitionPath diskPath part.number)) hpart
    unfold manualDevices
    split
    · exact hcreated
    · exact List.mem_append_left _ hcreated
  have hfound := entry_of_nodup (h.devices_nodup diskPath hboot) hlisted
  rw [keyed_ok.mp hdevice] at hfound
  cases hfound
  exact formatCommand_last hcommand

end Formatted

/-! ## A manual plan -/

section Example

theorem windowsTable_sound : windowsTable.Sound where
  positive := by decide +kernel
  numbered := by decide +kernel
  apart := by
    have hmeets : windowsTable.entries.Pairwise fun e f => meets e.range f.range = false := by
      decide +kernel
    exact hmeets.imp meets_eq_false.mp
  inside := by decide +kernel

end Example

end Installer
