import SynOSStudio.Installer.ManualLayout

/-!
# The geometry of accepted manual layouts

Every allocatable extent lies MiB by MiB in a range that is free, deleted or given up by a
resize. So the new partitions of an accepted selection keep apart from each other and from
all that stays, and the editor's remaining extents are what is allocatable without them.
-/

namespace Installer

open IntervalLists

section Blocks

variable {m startBytes sizeBytes : ℤ}

/-- The MiB lies in the range as a whole. -/
def BlockIn (m : ℤ) (range : Extent ℤ) : Prop :=
  range.start ≤ m * MIB ∧ (m + 1) * MIB ≤ range.stop

/-- Rounding inward keeps exactly the whole MiB of a range. -/
theorem mem_alignedExtent :
    m ∈ (alignedExtent startBytes sizeBytes).points ↔ BlockIn m (byteRange startBytes sizeBytes) := by
  unfold alignedExtent BlockIn byteRange MIB
  simp only [Extent.mem_points]
  omega

/-- The byte range of a new partition. -/
def ManualPartitionRequest.range (request : ManualPartitionRequest) : Extent ℤ :=
  ⟨request.startMib * MIB, request.endMib * MIB⟩

theorem block_of_mem_range {request : ManualPartitionRequest} {x : ℤ}
    (h : x ∈ request.range.points) :
    request.startMib ≤ x / MIB ∧ x / MIB < request.endMib ∧
      x / MIB * MIB ≤ x ∧ x < (x / MIB + 1) * MIB := by
  unfold ManualPartitionRequest.range MIB at *
  simp only [Extent.mem_points] at h
  omega

end Blocks

section Allocatable

variable {disk : DiskInventory} {selection : ManualStorageSelection}

/-- What a resize leaves of a partition. -/
def retainedRange (selection : ManualStorageSelection) (p : PartitionInventory) : Extent ℤ :=
  match resizeForPartuuid selection p.identity.partuuid with
  | none => p.range
  | some request => byteRange p.identity.startBytes (request.targetSizeMib * MIB)

/-- The byte ranges that a selection frees: the free extents, the deleted partitions and the
ends of the resized ones. -/
def FreedRange (disk : DiskInventory) (selection : ManualStorageSelection) (range : Extent ℤ) :
    Prop :=
  (∃ e ∈ disk.freeExtents, range = e.range) ∨
  (∃ p ∈ disk.partitions, p.identity.partuuid ∈ selection.deletedPartuuids ∧ range = p.range) ∨
  ∃ request ∈ selection.resizedPartitions, ∃ p ∈ disk.partitions,
    p.identity.partuuid = request.partuuid ∧
    range = ⟨p.identity.startBytes + request.targetSizeMib * MIB, p.range.stop⟩

/-- The MiB that a selection makes available, before its new partitions. -/
def Allocatable (disk : DiskInventory) (selection : ManualStorageSelection) (m : ℤ) : Prop :=
  if selection.reinitializeGpt then 1 ≤ m ∧ m < disk.expectedSizeBytes / MIB - 1
  else ∃ range, FreedRange disk selection range ∧ BlockIn m range

/-- What the requests of a selection take. -/
def Requested (selection : ManualStorageSelection) (m : ℤ) : Prop :=
  ∃ request ∈ selection.newPartitions, request.startMib ≤ m ∧ m < request.endMib

theorem partitionForPartuuid_ok {partuuid : String} {p : PartitionInventory}
    (h : partitionForPartuuid disk partuuid = .ok p) :
    p ∈ disk.partitions ∧ p.identity.partuuid = partuuid := by
  unfold partitionForPartuuid at h
  split at h
  · cases h
  · rename_i found hfound
    cases h
    exact ⟨List.mem_of_find?_eq_some hfound, by simpa using List.find?_some hfound⟩

theorem mem_filter_proper {es : List ManualFreeExtent} {e : ManualFreeExtent} :
    e ∈ es.filter (fun item => 0 < sizeMib item) ↔ e ∈ es ∧ e.start < e.stop := by
  rw [List.mem_filter, decide_eq_true_eq, sizeMib, sub_pos]

theorem mem_union_filter_proper {es : List ManualFreeExtent} {m : ℤ} :
    m ∈ union (es.filter fun item => 0 < sizeMib item) ↔ m ∈ union es := by
  simp only [mem_union, mem_filter_proper, Extent.mem_points]
  constructor
  · rintro ⟨e, ⟨he, -⟩, hm⟩
    exact ⟨e, he, hm⟩
  · rintro ⟨e, he, hm⟩
    exact ⟨e, ⟨he, by omega⟩, hm⟩

theorem proper_filter (es : List ManualFreeExtent) :
    Proper (es.filter fun item => 0 < sizeMib item) :=
  fun _ he => (mem_filter_proper.mp he).2

theorem filter_of_proper {es : List ManualFreeExtent} (h : Proper es) :
    es.filter (fun item => 0 < sizeMib item) = es := by
  rw [List.filter_eq_self]
  intro e he
  rw [decide_eq_true_eq, sizeMib, sub_pos]
  exact h e he

end Allocatable

section Acceptance

variable {casing : Casing} {disk : DiskInventory} {selection : ManualStorageSelection}

theorem bind_ok {α β ε : Type} {x : Except ε α} {f : α → Except ε β} {b : β} :
    (x >>= f) = .ok b ↔ ∃ a, x = .ok a ∧ f a = .ok b := by
  cases x with
  | error e => simp [bind, Except.bind]
  | ok a => simp [bind, Except.bind]

theorem check_then_ok {α ε : Type} {check : Except ε Unit} {rest : Except ε α} {a : α} :
    (do check; rest) = .ok a ↔ check = .ok () ∧ rest = .ok a := by
  cases check with
  | error e => simp [bind, Except.bind]
  | ok _ => simp [bind, Except.bind]

theorem raiseIf_ok {condition : Bool} {message : String} :
    raiseIf condition message = .ok () ↔ condition = false := by
  unfold raiseIf
  cases condition <;> simp

theorem raiseIf_then_ok {α : Type} {condition : Bool} {message : String}
    {rest : Except String α} {a : α} :
    (do raiseIf condition message; rest) = .ok a ↔ condition = false ∧ rest = .ok a := by
  unfold raiseIf
  cases condition with
  | false => simp [bind, Except.bind]
  | true => simp [bind, Except.bind]

theorem forM_ok {α : Type} {check : α → Except String Unit} {items : List α}
    (h : items.forM check = .ok ()) : ∀ item ∈ items, check item = .ok () := by
  induction items with
  | nil => exact fun _ hitem => absurd hitem List.not_mem_nil
  | cons first rest ih =>
    obtain ⟨_, hfirst, hrest⟩ := bind_ok.mp h
    intro item hitem
    rcases List.mem_cons.mp hitem with rfl | hitem
    · exact hfirst
    · exact ih hrest item hitem

theorem mapM_ok {α β : Type} {f : α → Except String β} {items : List α} {results : List β}
    (h : items.mapM f = .ok results) (r : β) :
    r ∈ results ↔ ∃ item ∈ items, f item = .ok r := by
  induction items generalizing results with
  | nil =>
    rw [List.mapM_nil] at h
    cases h
    simp
  | cons first rest ih =>
    rw [List.mapM_cons] at h
    obtain ⟨b, hb, h⟩ := bind_ok.mp h
    obtain ⟨bs, hbs, h⟩ := bind_ok.mp h
    cases h
    simp only [List.mem_cons, ih hbs, exists_eq_or_imp, hb, Except.ok.injEq]
    rw [eq_comm]

theorem mapM_exists {α β : Type} {f : α → Except String β} {items : List α}
    (h : ∀ item ∈ items, ∃ r, f item = .ok r) : ∃ results, items.mapM f = .ok results := by
  induction items with
  | nil => exact ⟨[], rfl⟩
  | cons first rest ih =>
    obtain ⟨b, hb⟩ := h first List.mem_cons_self
    obtain ⟨bs, hbs⟩ := ih fun item hitem => h item (List.mem_cons_of_mem first hitem)
    refine ⟨b :: bs, ?_⟩
    rw [List.mapM_cons, hb]
    show (List.mapM f rest >>= fun bs => pure (b :: bs)) = _
    rw [hbs]
    rfl

/-- What the geometry needs of an accepted selection. -/
structure Accepted (disk : DiskInventory) (selection : ManualStorageSelection) : Prop where
  resizedOnce : ∀ request ∈ selection.resizedPartitions, ∀ p ∈ disk.partitions,
    ∀ q ∈ disk.partitions, p.identity.partuuid = request.partuuid →
      q.identity.partuuid = request.partuuid → p = q
  targets : ∀ request ∈ selection.resizedPartitions, ∃ p ∈ disk.partitions,
    p.identity.partuuid = request.partuuid ∧ 0 ≤ request.targetSizeMib ∧
      request.targetSizeMib * MIB ≤ p.identity.sizeBytes
  requestsOnce : (selection.resizedPartitions.map ManualPartitionResizeRequest.partuuid).Nodup
  requests : ∃ base, baseAllocatableExtents disk selection = .ok base ∧
    validateRequests base (-1) selection.newPartitions = .ok ()

theorem existingPartition_some {partuuid : String} {p : PartitionInventory}
    (h : existingPartition disk partuuid = some p) :
    p ∈ disk.partitions ∧ p.identity.partuuid = partuuid := by
  unfold existingPartition at h
  split at h
  · cases h
  · exact ⟨List.mem_reverse.mp (List.mem_of_find?_eq_some h), by simpa using List.find?_some h⟩

theorem resize_target {request : ManualPartitionResizeRequest}
    (h : validateResize casing disk request = .ok ()) :
    ∃ p ∈ disk.partitions, p.identity.partuuid = request.partuuid ∧
      0 ≤ request.targetSizeMib ∧ request.targetSizeMib * MIB ≤ p.identity.sizeBytes := by
  unfold validateResize at h
  split at h
  · cases h
  · rename_i p hp
    simp only [raiseIf_then_ok, raiseIf_ok] at h
    obtain ⟨-, -, -, hbounds⟩ := h
    obtain ⟨hmem, hpartuuid⟩ := existingPartition_some hp
    rw [Bool.or_eq_false_iff, decide_eq_false_iff_not, decide_eq_false_iff_not] at hbounds
    obtain ⟨hsmallest, hlargest⟩ := hbounds
    unfold MINIMUM_NTFS_MIB at hsmallest
    unfold MIB at hlargest ⊢
    exact ⟨p, hmem, hpartuuid, by omega, by omega⟩

theorem eq_of_nodup_filter_map {α β : Type} {f : α → β} {P : β → Bool} {items : List α}
    (h : ((items.map f).filter P).Nodup) {a b : α} (ha : a ∈ items) (hb : b ∈ items)
    (hP : P (f a) = true) (hab : f a = f b) : a = b := by
  rw [List.filter_map] at h
  refine List.inj_on_of_nodup_map h (List.mem_filter.mpr ⟨ha, hP⟩)
    (List.mem_filter.mpr ⟨hb, ?_⟩) hab
  rw [Function.comp_apply, ← hab]
  exact hP

theorem accepted (h : validateManualSelection casing disk selection = .ok ()) :
    Accepted disk selection := by
  unfold validateManualSelection at h
  simp only [raiseIf_then_ok] at h
  obtain ⟨-, -, -, h⟩ := h
  split at h
  · cases h
  · obtain ⟨_, -, h⟩ := bind_ok.mp h
    obtain ⟨_, hresizes, h⟩ := bind_ok.mp h
    obtain ⟨_, -, h⟩ := bind_ok.mp h
    obtain ⟨_, -, h⟩ := bind_ok.mp h
    obtain ⟨base, hbase, hrequests⟩ := bind_ok.mp h
    replace hresizes : validateResizes casing disk selection = .ok () := hresizes
    unfold validateResizes at hresizes
    simp only [raiseIf_then_ok] at hresizes
    obtain ⟨honce, horder, -, -, -, hall⟩ := hresizes
    have hnodup : (selection.resizedPartitions.map
        ManualPartitionResizeRequest.partuuid).Nodup := by simpa using honce
    have horder' : selection.resizedPartitions.map ManualPartitionResizeRequest.partuuid =
        (disk.partitions.map fun p => p.identity.partuuid).filter
          (· ∈ selection.resizedPartitions.map ManualPartitionResizeRequest.partuuid) := by
      simpa using horder
    refine ⟨?_, fun request hrequest => resize_target (forM_ok hall request hrequest), hnodup,
      base, hbase, hrequests⟩
    intro request hrequest p hp q hq hpid hqid
    have hunique := hnodup
    rw [horder'] at hunique
    refine eq_of_nodup_filter_map hunique hp hq ?_ (hpid.trans hqid.symm)
    rw [hpid, decide_eq_true_eq]
    exact List.mem_map_of_mem hrequest

/-- The new partitions of an accepted selection follow one another inside the extents. -/
theorem requests_ordered {base : List ManualFreeExtent} {previousEnd : ℤ}
    {requests : List ManualPartitionRequest}
    (h : validateRequests base previousEnd requests = .ok ()) :
    (∀ r ∈ requests, previousEnd ≤ r.startMib ∧ r.startMib < r.endMib ∧
      ∃ e ∈ base, e.start ≤ r.startMib ∧ r.endMib ≤ e.stop) ∧
    requests.Pairwise fun a b => a.endMib ≤ b.startMib := by
  induction requests generalizing previousEnd with
  | nil => exact ⟨fun _ hr => absurd hr List.not_mem_nil, List.Pairwise.nil⟩
  | cons request rest ih =>
    unfold validateRequests at h
    simp only [raiseIf_then_ok, Bool.or_eq_false_iff, decide_eq_false_iff_not, not_lt, not_le,
      Bool.not_eq_false'] at h
    obtain ⟨⟨-, hproper⟩, hafter, hfits, -, -, hrest⟩ := h
    obtain ⟨hall, hpairs⟩ := ih hrest
    obtain ⟨e, he, hinside⟩ := List.any_eq_true.mp hfits
    rw [Bool.and_eq_true, decide_eq_true_eq, decide_eq_true_eq] at hinside
    constructor
    · intro r hr
      rcases List.mem_cons.mp hr with rfl | hr
      · exact ⟨hafter, hproper, e, he, hinside⟩
      · obtain ⟨hle, hproper', hextent⟩ := hall r hr
        exact ⟨by omega, hproper', hextent⟩
    · rw [List.pairwise_cons]
      exact ⟨fun r hr => (hall r hr).1, hpairs⟩

end Acceptance

section Geometry

variable {disk : DiskInventory} {selection : ManualStorageSelection}

theorem shrunkTail_eq {request : ManualPartitionResizeRequest} {p : PartitionInventory}
    (h : Accepted disk selection) (hrequest : request ∈ selection.resizedPartitions)
    (hp : p ∈ disk.partitions) (hpartuuid : p.identity.partuuid = request.partuuid) :
    shrunkTail disk request = .ok (alignedExtent
      (p.identity.startBytes + request.targetSizeMib * MIB)
      (p.identity.sizeBytes - request.targetSizeMib * MIB)) := by
  unfold shrunkTail
  cases hfound : partitionForPartuuid disk request.partuuid with
  | error message =>
    unfold partitionForPartuuid at hfound
    split at hfound
    · rename_i hnone
      have hno := List.find?_eq_none.mp hnone p hp
      simp [hpartuuid] at hno
    · cases hfound
  | ok q =>
    obtain ⟨hq, hqid⟩ := partitionForPartuuid_ok hfound
    rw [h.resizedOnce request hrequest p hp q hq hpartuuid hqid]
    rfl

theorem tail_block {p : PartitionInventory} {target m : ℤ} :
    m ∈ (alignedExtent (p.identity.startBytes + target) (p.identity.sizeBytes - target)).points ↔
      BlockIn m ⟨p.identity.startBytes + target, p.range.stop⟩ := by
  rw [mem_alignedExtent]
  have hstop : byteRange (p.identity.startBytes + target) (p.identity.sizeBytes - target) =
      ⟨p.identity.startBytes + target, p.range.stop⟩ := by
    simp only [byteRange, PartitionInventory.range, Extent.mk.injEq, true_and]
    omega
  rw [hstop]

/-- The allocatable extents are ascending, not empty, and cover exactly the allocatable MiB. -/
theorem baseAllocatable_spec (h : Accepted disk selection) :
    ∃ base, baseAllocatableExtents disk selection = .ok base ∧ Ascending base ∧ Proper base ∧
      ∀ m, m ∈ union base ↔ Allocatable disk selection m := by
  unfold baseAllocatableExtents Allocatable
  by_cases hreplace : selection.reinitializeGpt = true
  · simp only [hreplace, if_true]
    refine ⟨_, rfl, ?_, ?_, ?_⟩
    · split
      · exact List.pairwise_singleton _ _
      · exact List.Pairwise.nil
    · intro e he
      split at he
      · rename_i hroom
        rw [List.mem_singleton.mp he]
        exact hroom
      · cases he
    · intro m
      split
      · rw [mem_union_singleton]
        rfl
      · simp only [mem_union, List.not_mem_nil, false_and, exists_false, false_iff]
        omega
  · simp only [hreplace, Bool.false_eq_true, if_false]
    have htail : ∀ request ∈ selection.resizedPartitions,
        ∃ tail, shrunkTail disk request = .ok tail := by
      intro request hrequest
      obtain ⟨p, hp, hpartuuid, -⟩ := h.targets request hrequest
      exact ⟨_, shrunkTail_eq h hrequest hp hpartuuid⟩
    obtain ⟨tails, htails⟩ := mapM_exists htail
    rw [htails]
    refine ⟨_, rfl, ascending_merge (proper_filter _), proper_merge (proper_filter _), fun m => ?_⟩
    unfold mergeExtents
    rw [mem_union_merge (proper_filter _), mem_union_filter_proper, mem_union_append,
      mem_union_append]
    have hfree : m ∈ union (disk.freeExtents.map fun item =>
        alignedExtent item.startBytes item.sizeBytes) ↔
        ∃ e ∈ disk.freeExtents, BlockIn m e.range := by
      simp only [mem_union, List.mem_map, exists_exists_and_eq_and, mem_alignedExtent]
      rfl
    have hdeleted : m ∈ union ((disk.partitions.filter fun p =>
        p.identity.partuuid ∈ selection.deletedPartuuids).map fun p =>
          alignedExtent p.identity.startBytes p.identity.sizeBytes) ↔
        ∃ p ∈ disk.partitions, p.identity.partuuid ∈ selection.deletedPartuuids ∧
          BlockIn m p.range := by
      simp only [mem_union, List.mem_map, List.mem_filter, decide_eq_true_eq,
        exists_exists_and_eq_and, mem_alignedExtent]
      exact exists_congr fun p => and_assoc
    have htail : m ∈ union tails ↔ ∃ request ∈ selection.resizedPartitions,
        ∃ p ∈ disk.partitions, p.identity.partuuid = request.partuuid ∧
          BlockIn m ⟨p.identity.startBytes + request.targetSizeMib * MIB, p.range.stop⟩ := by
      simp only [mem_union, mapM_ok htails]
      constructor
      · rintro ⟨e, ⟨request, hrequest, htail⟩, hm⟩
        obtain ⟨p, hp, hpartuuid, -⟩ := h.targets request hrequest
        rw [shrunkTail_eq h hrequest hp hpartuuid, Except.ok.injEq] at htail
        rw [← htail] at hm
        exact ⟨request, hrequest, p, hp, hpartuuid, tail_block.mp hm⟩
      · rintro ⟨request, hrequest, p, hp, hpartuuid, hblock⟩
        exact ⟨_, ⟨request, hrequest, shrunkTail_eq h hrequest hp hpartuuid⟩,
          tail_block.mpr hblock⟩
    rw [hfree, hdeleted, htail]
    constructor
    · rintro ((⟨e, he, hblock⟩ | ⟨p, hp, hdel, hblock⟩) | ⟨request, hr, p, hp, hid, hblock⟩)
      · exact ⟨_, Or.inl ⟨e, he, rfl⟩, hblock⟩
      · exact ⟨_, Or.inr (Or.inl ⟨p, hp, hdel, rfl⟩), hblock⟩
      · exact ⟨_, Or.inr (Or.inr ⟨request, hr, p, hp, hid, rfl⟩), hblock⟩
    · rintro ⟨range, ⟨e, he, rfl⟩ | ⟨p, hp, hdel, rfl⟩ | ⟨request, hr, p, hp, hid, rfl⟩, hblock⟩
      · exact Or.inl (Or.inl ⟨e, he, hblock⟩)
      · exact Or.inl (Or.inr ⟨p, hp, hdel, hblock⟩)
      · exact Or.inr ⟨request, hr, p, hp, hid, hblock⟩

theorem pairwise_ranges (hdisk : disk.Partitioned) {p q : PartitionInventory}
    (hp : p ∈ disk.partitions) (hq : q ∈ disk.partitions) (hne : p ≠ q) :
    Disjoint p.range.points q.range.points := by
  have hpairs := (List.pairwise_append.mp hdisk.disjoint).1
  rw [List.pairwise_map] at hpairs
  have : Std.Symm fun a b : PartitionInventory => Disjoint a.range.points b.range.points :=
    ⟨fun _ _ h => h.symm⟩
  exact hpairs.forall hp hq hne

theorem free_apart (hdisk : disk.Partitioned) {p : PartitionInventory} {e : FreeExtent}
    (hp : p ∈ disk.partitions) (he : e ∈ disk.freeExtents) :
    Disjoint p.range.points e.range.points :=
  (List.pairwise_append.mp hdisk.disjoint).2.2 _ (List.mem_map_of_mem hp) _
    (List.mem_map_of_mem he)

/-- What a selection frees lies inside the disk. -/
theorem freed_inside (hdisk : disk.Partitioned) (h : Accepted disk selection) {range : Extent ℤ}
    (hfreed : FreedRange disk selection range) :
    0 ≤ range.start ∧ range.stop ≤ disk.expectedSizeBytes := by
  rcases hfreed with ⟨e, he, rfl⟩ | ⟨p, hp, -, rfl⟩ | ⟨request, hrequest, p, hp, hid, rfl⟩
  · have hinside := hdisk.inside e.range (List.mem_append_right _ (List.mem_map_of_mem he))
    exact ⟨hinside.1, hinside.2.2⟩
  · have hinside := hdisk.inside p.range (List.mem_append_left _ (List.mem_map_of_mem hp))
    exact ⟨hinside.1, hinside.2.2⟩
  · have hinside := hdisk.inside p.range (List.mem_append_left _ (List.mem_map_of_mem hp))
    obtain ⟨q, -, -, htarget, -⟩ := h.targets request hrequest
    refine ⟨?_, hinside.2.2⟩
    have hstart : 0 ≤ p.identity.startBytes := hinside.1
    unfold MIB
    show 0 ≤ p.identity.startBytes + request.targetSizeMib * (1024 * 1024)
    omega

theorem resizeForPartuuid_eq (h : Accepted disk selection)
    {request : ManualPartitionResizeRequest} (hrequest : request ∈ selection.resizedPartitions) :
    resizeForPartuuid selection request.partuuid = some request := by
  unfold resizeForPartuuid
  cases hfound : selection.resizedPartitions.find? fun item => item.partuuid == request.partuuid with
  | none =>
    have hno := List.find?_eq_none.mp hfound request hrequest
    simp at hno
  | some found =>
    have hid : found.partuuid = request.partuuid := by simpa using List.find?_some hfound
    exact congrArg some (List.inj_on_of_nodup_map h.requestsOnce
      (List.mem_of_find?_eq_some hfound) hrequest hid)

theorem retained_subset (h : Accepted disk selection) {p : PartitionInventory}
    (hp : p ∈ disk.partitions) : (retainedRange selection p).points ⊆ p.range.points := by
  intro x hx
  unfold retainedRange at hx
  split at hx
  · exact hx
  · rename_i request hfound
    unfold resizeForPartuuid at hfound
    have hrequest := List.mem_of_find?_eq_some hfound
    have hid : request.partuuid = p.identity.partuuid := by simpa using List.find?_some hfound
    obtain ⟨q, hq, hqid, -, htarget⟩ := h.targets request hrequest
    have heq := h.resizedOnce request hrequest p hp q hq hid.symm hqid
    subst heq
    unfold byteRange at hx
    unfold PartitionInventory.range byteRange
    simp only [Extent.mem_points] at hx ⊢
    omega

/-- What a selection frees is apart from what it retains. -/
theorem freed_apart (hdisk : disk.Partitioned) (h : Accepted disk selection) {range : Extent ℤ}
    (hfreed : FreedRange disk selection range) {p : PartitionInventory} (hp : p ∈ disk.partitions)
    (hkept : p.identity.partuuid ∉ selection.deletedPartuuids) :
    Disjoint range.points (retainedRange selection p).points := by
  have hretained := retained_subset h hp
  rcases hfreed with ⟨e, he, rfl⟩ | ⟨q, hq, hdeleted, rfl⟩ | ⟨request, hrequest, q, hq, hid, rfl⟩
  · exact ((free_apart hdisk hp he).symm).mono_right hretained
  · have hne : q ≠ p := by
      rintro rfl
      exact hkept hdeleted
    exact (pairwise_ranges hdisk hq hp hne).mono_right hretained
  · rw [Set.disjoint_left]
    intro x hx hx'
    by_cases heq : q = p
    · subst heq
      unfold retainedRange at hx'
      rw [hid, resizeForPartuuid_eq h hrequest] at hx'
      unfold byteRange at hx'
      simp only [Extent.mem_points] at hx hx'
      omega
    · have hin : x ∈ q.range.points := by
        obtain ⟨r, -, -, htarget, -⟩ := h.targets request hrequest
        refine ⟨?_, hx.2⟩
        have hstart := hx.1
        unfold MIB at hstart
        show q.identity.startBytes ≤ x
        simp only at hstart
        omega
      exact Set.disjoint_left.mp (pairwise_ranges hdisk hq hp heq) hin (hretained hx')

/-- Each MiB of an accepted request is allocatable. -/
theorem request_allocatable (h : Accepted disk selection) {request : ManualPartitionRequest}
    (hrequest : request ∈ selection.newPartitions) {m : ℤ}
    (hm : request.startMib ≤ m ∧ m < request.endMib) : Allocatable disk selection m := by
  obtain ⟨base, hbase, hvalid⟩ := h.requests
  obtain ⟨base', hbase', -, -, hunion⟩ := baseAllocatable_spec h
  rw [hbase] at hbase'
  cases hbase'
  obtain ⟨-, -, e, he, hinside⟩ := (requests_ordered hvalid).1 request hrequest
  rw [← hunion]
  refine ⟨e, he, ?_⟩
  rw [Extent.mem_points]
  omega

theorem request_inside (hdisk : disk.Partitioned) (h : Accepted disk selection)
    {request : ManualPartitionRequest} (hrequest : request ∈ selection.newPartitions) :
    0 ≤ request.range.start ∧ request.range.start < request.range.stop ∧
      request.range.stop ≤ disk.expectedSizeBytes := by
  obtain ⟨base, hbase, hvalid⟩ := h.requests
  have hproper := ((requests_ordered hvalid).1 request hrequest).2.1
  have hfirst := request_allocatable h hrequest (m := request.startMib) ⟨le_rfl, hproper⟩
  have hlast := request_allocatable h hrequest (m := request.endMib - 1) ⟨by omega, by omega⟩
  unfold Allocatable at hfirst hlast
  unfold ManualPartitionRequest.range
  simp only
  split at hfirst
  · rename_i hreplace
    simp only [hreplace, if_true] at hlast
    unfold MIB at *
    omega
  · rename_i hkeep
    simp only [hkeep, Bool.false_eq_true, if_false] at hlast
    obtain ⟨range, hfreed, hblock⟩ := hfirst
    obtain ⟨range', hfreed', hblock'⟩ := hlast
    have hstart := (freed_inside hdisk h hfreed).1
    have hstop := (freed_inside hdisk h hfreed').2
    unfold BlockIn MIB at *
    omega

theorem request_apart (hdisk : disk.Partitioned) (h : Accepted disk selection)
    (hkeep : selection.reinitializeGpt = false) {request : ManualPartitionRequest}
    (hrequest : request ∈ selection.newPartitions) {p : PartitionInventory}
    (hp : p ∈ disk.partitions) (hkept : p.identity.partuuid ∉ selection.deletedPartuuids) :
    Disjoint request.range.points (retainedRange selection p).points := by
  rw [Set.disjoint_left]
  intro x hx hx'
  obtain ⟨hstart, hstop, hlow, hhigh⟩ := block_of_mem_range hx
  have hblock := request_allocatable h hrequest ⟨hstart, hstop⟩
  unfold Allocatable at hblock
  simp only [hkeep, Bool.false_eq_true, if_false] at hblock
  obtain ⟨range, hfreed, hin⟩ := hblock
  exact Set.disjoint_left.mp (freed_apart hdisk h hfreed hp hkept)
    ⟨hin.1.trans hlow, hhigh.trans_le hin.2⟩ hx'

/-- The new partitions of an accepted selection keep apart from each other and from what
stays, and the remaining extents are the allocatable MiB that no new partition takes. -/
theorem accepted_layout_is_apart (casing : Casing) (disk : DiskInventory)
    (selection : ManualStorageSelection) (hdisk : disk.Partitioned)
    (haccepted : validateManualSelection casing disk selection = .ok ()) :
    (selection.newPartitions.Pairwise fun a b => Disjoint a.range.points b.range.points) ∧
    (∀ request ∈ selection.newPartitions, 0 ≤ request.range.start ∧
      request.range.start < request.range.stop ∧ request.range.stop ≤ disk.expectedSizeBytes) ∧
    (selection.reinitializeGpt = false → ∀ request ∈ selection.newPartitions,
      ∀ p ∈ disk.partitions, p.identity.partuuid ∉ selection.deletedPartuuids →
        Disjoint request.range.points (retainedRange selection p).points) ∧
    ∃ extents, manualAvailableExtents disk selection = .ok extents ∧ Ascending extents ∧
      (extents.Pairwise fun a b => Disjoint a.points b.points) ∧ Proper extents ∧
      ∀ m, m ∈ union extents ↔ Allocatable disk selection m ∧ ¬ Requested selection m := by
  have h := accepted haccepted
  obtain ⟨base, hbase, hvalid⟩ := h.requests
  obtain ⟨hrequests, hordered⟩ := requests_ordered hvalid
  refine ⟨?_, fun r hr => request_inside hdisk h hr,
    fun hkeep r hr p hp hkept => request_apart hdisk h hkeep hr hp hkept, ?_⟩
  · refine hordered.imp ?_
    intro a b hle
    rw [Set.disjoint_left]
    intro x hx hx'
    obtain ⟨-, hstop, -⟩ := block_of_mem_range hx
    obtain ⟨hstart, -⟩ := block_of_mem_range hx'
    omega
  · obtain ⟨base', hbase', hascending, hproper, hunion⟩ := baseAllocatable_spec h
    rw [hbase] at hbase'
    cases hbase'
    have hoccupied : ∀ used ∈ occupiedExtents selection, used.start ≤ used.stop := by
      intro used hused
      obtain ⟨r, hr, rfl⟩ := List.mem_map.mp hused
      exact (hrequests r hr).2.1.le
    obtain ⟨hresult, hproperResult, hpoints⟩ := cutAll_spec hascending hproper hoccupied
    have hall : subtractExtents base (occupiedExtents selection) =
        cutAll base (occupiedExtents selection) := filter_of_proper hproperResult
    refine ⟨cutAll base (occupiedExtents selection), ?_, hresult, hresult.disjoint,
      hproperResult, fun m => ?_⟩
    · unfold manualAvailableExtents
      rw [hbase, ← hall]
      rfl
    · rw [hpoints m, hunion m]
      have hrequested : m ∈ union (occupiedExtents selection) ↔ Requested selection m := by
        simp only [mem_union, occupiedExtents, List.mem_map, exists_exists_and_eq_and,
          Extent.mem_points, Requested]
      rw [hrequested]

/-- A disk with one partition of two GiB before free space. -/
def halfEmptyDisk : DiskInventory where
  stableId := "wwn-0x5000"
  expectedSizeBytes := 64 * 1024 * MIB
  partitionTable := "gpt"
  partitionTableUuid := "5c2f7a10-0b5e-4d6e-9a51-3d1c6a0e7b11"
  partitions := [{
    identity := ⟨"/dev/sda1", 1, "11111111-aaaa-4bbb-8ccc-000000000001", MIB, 2048 * MIB⟩
    partitionType := "ebd0a0a2-b9e5-4433-87c0-68b6b72699c7"
    filesystemType := "ntfs"
    filesystemUuid := "01D9A0B1C2D3E4F5"
    mountpoints := []
    flags := [] }]
  freeExtents := [⟨2049 * MIB, 60000 * MIB⟩]
  topologyDigest := "9f3c"
  geometryProbeError := ""
  unsupportedDescendantTypes := []

def besideTheData : ManualStorageSelection where
  diskStableId := "wwn-0x5000"
  diskSizeBytes := 64 * 1024 * MIB
  diskTopologyDigest := "9f3c"
  reinitializeGpt := false
  deletedPartuuids := []
  reusedEspPartuuid := ""
  filesystem := .ext4
  newPartitions := [⟨.efiSystem, 2049, 3073⟩, ⟨.root, 3073, 40000⟩]
  resizedPartitions := []

theorem halfEmptyDisk_partitioned : halfEmptyDisk.Partitioned where
  disjoint := by
    simp only [DiskInventory.ranges, halfEmptyDisk, List.map_cons, List.map_nil, List.cons_append,
      List.nil_append, List.pairwise_cons, List.mem_singleton, List.not_mem_nil, forall_eq,
      false_imp_iff, implies_true, List.Pairwise.nil, and_true]
    rw [Set.disjoint_left]
    intro x hx hx'
    simp only [Extent.mem_points, PartitionInventory.range, FreeExtent.range, byteRange, MIB]
      at hx hx'
    omega
  inside := by decide +kernel

theorem halfEmptyDisk_accepts : validateManualSelection ⟨id, id⟩ halfEmptyDisk besideTheData =
    .ok () := by decide +kernel

theorem beside_the_data_is_apart :
    besideTheData.newPartitions.Pairwise fun a b => Disjoint a.range.points b.range.points :=
  (accepted_layout_is_apart ⟨id, id⟩ halfEmptyDisk besideTheData halfEmptyDisk_partitioned
    halfEmptyDisk_accepts).1

end Geometry

end Installer
