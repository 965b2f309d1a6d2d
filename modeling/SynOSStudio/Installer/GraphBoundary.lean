import SynOSStudio.Installer.StorageGraph

/-!
# The storage graph at the privilege boundary

What a decoder gives back of a record that was written, and what it says about a document
that it accepts. Two lemmas for each record, one for each direction, and the graph from them.
-/

namespace Installer

open StrictDocuments

variable {F : Type}

/-! ## Checks -/

section Checks

variable {v : Json F} {path : String} {expected : List String}

@[simp] theorem string_text (s : String) : string path (.text s : Json F) = .ok s := rfl

@[simp] theorem integer_integer (n : ℤ) : integer path (.integer n : Json F) = .ok n := rfl

@[simp] theorem boolean_bool (b : Bool) : boolean path (.bool b : Json F) = .ok b := rfl

theorem optional_ofOption {α : Type} {read : Json F → Except DecodeError α}
    {write : α → Written F} {a : Option α} (hread : ∀ a, read (write a).decoded = .ok a)
    (hnull : ∀ a, (write a).decoded ≠ .null) :
    optional read (Written.ofOption write a).decoded = .ok a := by
  cases a with
  | none => rfl
  | some a =>
    have hwritten := hread a
    have hsome := hnull a
    show optional read (write a).decoded = .ok (some a)
    cases hvalue : (write a).decoded with
    | null => exact absurd hvalue hsome
    | _ => rw [hvalue] at hwritten; simp [optional, hwritten]

theorem listOf_list {α : Type} {read : Json F → ℕ → Except DecodeError α}
    {write : α → Written F} {as : List α} (hread : ∀ a i, read (write a).decoded i = .ok a) :
    listOf path read (Written.list (as.map write)).decoded = .ok as := by
  rw [Written.decoded_list, List.map_map]
  exact readItems_write hread as

@[simp] theorem optional_integer (n : Option ℤ) :
    optional (integer path) (Written.ofOption .integer n : Written F).decoded = .ok n :=
  optional_ofOption (fun _ => rfl) fun _ => nofun

@[simp] theorem listOf_texts (path' : String) (texts : List String) :
    listOf path (fun text _ => string path' text)
      (Written.list (texts.map .text) : Written F).decoded = .ok texts :=
  listOf_list fun _ _ => rfl

@[simp] theorem listOf_members {α : Type} (enumeration : StrEnum α) (as : List α) :
    listOf path (fun item _ => enumeration.ofValue item)
      (Written.list (as.map fun a => .member (enumeration.value a)) : Written F).decoded = .ok as :=
  listOf_list fun a _ => enumeration.ofValue_value a

theorem string_ok {s : String} (h : string path v = .ok s) : v = .text s := by
  cases v with
  | text => cases h; rfl
  | _ => cases h

theorem integer_ok {n : ℤ} (h : integer path v = .ok n) : v = .integer n := by
  cases v with
  | integer => cases h; rfl
  | _ => cases h

theorem boolean_ok {b : Bool} (h : boolean path v = .ok b) : v = .bool b := by
  cases v with
  | bool => cases h; rfl
  | _ => cases h

theorem list_ok {items : List (Json F)} (h : list path v = .ok items) : v = .array items := by
  cases v with
  | array => cases h; rfl
  | _ => cases h

theorem sorted_eq_nil {names : List String} : sorted names = [] ↔ names = [] := by
  unfold sorted
  rw [← List.length_eq_zero_iff, List.length_insertionSort, List.length_eq_zero_iff]

theorem exactFields_ok {members : List (String × Json F)} :
    exactFields members expected path = .ok () ↔
      ∀ name, name ∈ members.map Prod.fst ↔ name ∈ expected := by
  have hunknown : sorted ((members.map Prod.fst).filter fun name => name ∉ expected) = [] ↔
      ∀ name ∈ members.map Prod.fst, name ∈ expected := by
    simp only [sorted_eq_nil, List.filter_eq_nil_iff, decide_eq_true_eq, not_not]
  have hmissing : sorted (expected.filter fun name => name ∉ members.map Prod.fst) = [] ↔
      ∀ name ∈ expected, name ∈ members.map Prod.fst := by
    simp only [sorted_eq_nil, List.filter_eq_nil_iff, decide_eq_true_eq, not_not]
  unfold exactFields
  split
  · rename_i unknown rest hsorted
    refine iff_of_false nofun fun h => ?_
    rw [hunknown.mpr fun name => (h name).mp] at hsorted
    cases hsorted
  · rename_i hnone
    split
    · rename_i missing rest hsorted
      refine iff_of_false nofun fun h => ?_
      rw [hmissing.mpr fun name => (h name).mpr] at hsorted
      cases hsorted
    · rename_i hnone'
      exact iff_of_true rfl fun name => ⟨hunknown.mp hnone name, hmissing.mp hnone' name⟩

theorem exactly_ok {get : String → Json F} (h : exactly path expected v = .ok get) :
    ∃ members, v = .object members ∧ get = field members ∧
      ∀ name, name ∈ members.map Prod.fst ↔ name ∈ expected := by
  simp only [exactly, bind_ok] at h
  obtain ⟨members, hmembers, _, hexact, h⟩ := h
  cases h
  cases v with
  | object => cases hmembers; exact ⟨_, rfl, rfl, exactFields_ok.mp hexact⟩
  | _ => cases hmembers

theorem exactly_of_names {members : List (String × Json F)}
    (h : members.map Prod.fst = expected) :
    exactly path expected (.object members) = .ok (field members) := by
  have hexact : exactFields members expected path = .ok () :=
    exactFields_ok.mpr fun name => by rw [h]
  simp only [exactly, mapping, bind_ok]
  exact ⟨members, rfl, (), hexact, rfl⟩

end Checks

/-! ## Fields that are what was read -/

section Fields

variable [DecidableEq F] {v : Json F} {path : String}

theorem same_string {s : String} (h : string path v = .ok s) :
    same (Written.text s).decoded v = true := by
  rw [string_ok h]
  simp [same]

theorem same_integer {n : ℤ} (h : integer path v = .ok n) :
    same (Written.integer n).decoded v = true := by
  rw [integer_ok h]
  simp [same]

theorem same_boolean {b : Bool} (h : boolean path v = .ok b) :
    same (Written.bool b).decoded v = true := by
  rw [boolean_ok h]
  simp [same]

theorem same_ofValue {α : Type} {enumeration : StrEnum α} {a : α}
    (h : enumeration.ofValue v = .ok a) :
    same (Written.member (enumeration.value a)).decoded v = true := by
  rw [StrEnum.ofValue_ok h]
  simp [same]

theorem same_plain (h : v.Valid) : same (Written.plain v).decoded v = true :=
  same_refl h

theorem same_optional {α : Type} {read : Json F → Except DecodeError α} {write : α → Written F}
    {a : Option α} (hread : ∀ a, read v = .ok a → same (write a).decoded v = true)
    (h : optional read v = .ok a) : same (Written.ofOption write a).decoded v = true := by
  cases v with
  | null => cases h; simp [Written.ofOption, same]
  | _ =>
    obtain ⟨b, hb, h⟩ := bind_ok.mp h
    cases h
    exact hread b hb

theorem same_list {α : Type} {read : Json F → ℕ → Except DecodeError α} {write : α → Written F}
    {as : List α} (hvalid : v.Valid)
    (hread : ∀ a item i, item.Valid → read item i = .ok a → same (write a).decoded item = true)
    (h : listOf path read v = .ok as) :
    same (Written.list (as.map write)).decoded v = true := by
  obtain ⟨items, hitems, h⟩ := bind_ok.mp h
  rw [list_ok hitems] at hvalid ⊢
  rw [Written.decoded_list, List.map_map]
  exact readItems_same hvalid hread h

theorem same_texts {texts : List String} {path' : String} (hvalid : v.Valid)
    (h : listOf path (fun text _ => string path' text) v = .ok texts) :
    same (Written.list (texts.map .text)).decoded v = true :=
  same_list hvalid (fun _ _ _ _ => same_string) h

theorem same_members {α : Type} {enumeration : StrEnum α} {as : List α} (hvalid : v.Valid)
    (h : listOf path (fun item _ => enumeration.ofValue item) v = .ok as) :
    same (Written.list (as.map fun a => .member (enumeration.value a))).decoded v = true :=
  same_list hvalid (fun _ _ _ _ => same_ofValue) h

end Fields

/-! ## The records of the graph -/

section Records

variable {index : ℕ} {v : Json F}

theorem blockReference_toDict (item : BlockReference) (index : ℕ) :
    blockReference (item.toDict : Written F).decoded index = .ok item := by
  refine bind_ok.mpr ⟨_, exactly_of_names rfl, ?_⟩
  simp [field, List.lookup_cons]

theorem partition_toDict (item : PartitionDeclaration) (index : ℕ) :
    partition (item.toDict : Written F).decoded index = .ok item := by
  refine bind_ok.mpr ⟨_, exactly_of_names rfl, ?_⟩
  simp [field, List.lookup_cons]

theorem partitionResize_toDict (item : PartitionResizeDeclaration) (index : ℕ) :
    partitionResize (item.toDict : Written F).decoded index = .ok item := by
  refine bind_ok.mpr ⟨_, exactly_of_names rfl, ?_⟩
  simp [field, List.lookup_cons]

theorem filesystem_toDict (item : FilesystemDeclaration) (index : ℕ) :
    filesystem (item.toDict : Written F).decoded index = .ok item := by
  refine bind_ok.mpr ⟨_, exactly_of_names rfl, ?_⟩
  simp [field, List.lookup_cons]

theorem subvolume_toDict (item : SubvolumeDeclaration) (index : ℕ) :
    subvolume (item.toDict : Written F).decoded index = .ok item := by
  refine bind_ok.mpr ⟨_, exactly_of_names rfl, ?_⟩
  simp [field, List.lookup_cons]

theorem mount_toDict (item : MountDeclaration) (index : ℕ) :
    mount (item.toDict : Written F).decoded index = .ok item := by
  refine bind_ok.mpr ⟨_, exactly_of_names rfl, ?_⟩
  simp [field, List.lookup_cons]

theorem bootTarget_toDict (item : BootTarget) (index : ℕ) :
    bootTarget (item.toDict : Written F).decoded index = .ok item := by
  refine bind_ok.mpr ⟨_, exactly_of_names rfl, ?_⟩
  simp [field, List.lookup_cons]

theorem operation_toDict (item : StorageGraphOperation) (index : ℕ) :
    operation (item.toDict : Written F).decoded index = .ok item := by
  refine bind_ok.mpr ⟨_, exactly_of_names rfl, ?_⟩
  simp [field, List.lookup_cons]

variable [DecidableEq F]

theorem same_blockReference {item : BlockReference} (hvalid : v.Valid)
    (h : blockReference v index = .ok item) : same item.toDict.decoded v = true := by
  simp only [blockReference, bind_ok] at h
  obtain ⟨_, hget, _, h₁, _, h₂, _, h₃, _, h₄, _, h₅, _, h₆, _, h₇, h⟩ := h
  obtain ⟨members, rfl, rfl, hnames⟩ := exactly_ok hget
  cases h
  refine same_object hvalid.1 hnames (by simp) rfl ?_
  simp only [Written.decodedMembers_cons, Written.decodedMembers_nil, List.forall_mem_cons]
  exact ⟨same_string h₁, same_ofValue h₂, same_string h₃, same_string h₄, same_integer h₅,
    same_integer h₆, same_string h₇, nofun⟩

theorem same_partition {item : PartitionDeclaration} (hvalid : v.Valid)
    (h : partition v index = .ok item) : same item.toDict.decoded v = true := by
  simp only [partition, bind_ok] at h
  obtain ⟨_, hget, _, h₆, _, h₁, _, h₂, _, h₃, _, h₄, _, h₅, _, h₇, h⟩ := h
  obtain ⟨members, rfl, rfl, hnames⟩ := exactly_ok hget
  cases h
  refine same_object hvalid.1 hnames (by simp) rfl ?_
  simp only [Written.decodedMembers_cons, Written.decodedMembers_nil, List.forall_mem_cons]
  exact ⟨same_string h₁, same_string h₂, same_integer h₃, same_string h₄, same_integer h₅,
    same_optional (fun _ => same_integer) h₆, same_texts (hvalid.2.field _) h₇, nofun⟩

theorem same_partitionResize {item : PartitionResizeDeclaration} (hvalid : v.Valid)
    (h : partitionResize v index = .ok item) : same item.toDict.decoded v = true := by
  simp only [partitionResize, bind_ok] at h
  obtain ⟨_, hget, _, h₁, _, h₂, _, h₃, _, h₄, h⟩ := h
  obtain ⟨members, rfl, rfl, hnames⟩ := exactly_ok hget
  cases h
  refine same_object hvalid.1 hnames (by simp) rfl ?_
  simp only [Written.decodedMembers_cons, Written.decodedMembers_nil, List.forall_mem_cons]
  exact ⟨same_string h₁, same_ofValue h₂, same_integer h₃, same_integer h₄, nofun⟩

theorem same_filesystem {item : FilesystemDeclaration} (hvalid : v.Valid)
    (h : filesystem v index = .ok item) : same item.toDict.decoded v = true := by
  simp only [filesystem, bind_ok] at h
  obtain ⟨_, hget, _, h₁, _, h₂, _, h₃, _, h₄, h⟩ := h
  obtain ⟨members, rfl, rfl, hnames⟩ := exactly_ok hget
  cases h
  refine same_object hvalid.1 hnames (by simp) rfl ?_
  simp only [Written.decodedMembers_cons, Written.decodedMembers_nil, List.forall_mem_cons]
  exact ⟨same_string h₁, same_string h₂, same_ofValue h₃, same_string h₄, nofun⟩

theorem same_subvolume {item : SubvolumeDeclaration} (hvalid : v.Valid)
    (h : subvolume v index = .ok item) : same item.toDict.decoded v = true := by
  simp only [subvolume, bind_ok] at h
  obtain ⟨_, hget, _, h₅, _, h₁, _, h₂, _, h₃, _, h₄, h⟩ := h
  obtain ⟨members, rfl, rfl, hnames⟩ := exactly_ok hget
  cases h
  refine same_object hvalid.1 hnames (by simp) rfl ?_
  simp only [Written.decodedMembers_cons, Written.decodedMembers_nil, List.forall_mem_cons]
  exact ⟨same_string h₁, same_string h₂, same_string h₃, same_string h₄, same_boolean h₅, nofun⟩

theorem same_mount {item : MountDeclaration} (hvalid : v.Valid)
    (h : mount v index = .ok item) : same item.toDict.decoded v = true := by
  simp only [mount, bind_ok] at h
  obtain ⟨_, hget, _, h₁, _, h₂, _, h₃, h⟩ := h
  obtain ⟨members, rfl, rfl, hnames⟩ := exactly_ok hget
  cases h
  refine same_object hvalid.1 hnames (by simp) rfl ?_
  simp only [Written.decodedMembers_cons, Written.decodedMembers_nil, List.forall_mem_cons]
  exact ⟨same_string h₁, same_string h₂, same_ofValue h₃, nofun⟩

theorem same_bootTarget {item : BootTarget} (hvalid : v.Valid)
    (h : bootTarget v index = .ok item) : same item.toDict.decoded v = true := by
  simp only [bootTarget, bind_ok] at h
  obtain ⟨_, hget, _, h₁, _, h₂, _, h₃, _, h₄, h⟩ := h
  obtain ⟨members, rfl, rfl, hnames⟩ := exactly_ok hget
  cases h
  refine same_object hvalid.1 hnames (by simp) rfl ?_
  simp only [Written.decodedMembers_cons, Written.decodedMembers_nil, List.forall_mem_cons]
  exact ⟨same_string h₁, same_string h₂, same_string h₃, same_string h₄, nofun⟩

theorem same_operation {item : StorageGraphOperation} (hvalid : v.Valid)
    (h : operation v index = .ok item) : same item.toDict.decoded v = true := by
  simp only [operation, bind_ok] at h
  obtain ⟨_, hget, _, h₁, _, h₂, h⟩ := h
  obtain ⟨members, rfl, rfl, hnames⟩ := exactly_ok hget
  cases h
  refine same_object hvalid.1 hnames (by simp) rfl ?_
  simp only [Written.decodedMembers_cons, Written.decodedMembers_nil, List.forall_mem_cons]
  exact ⟨same_ofValue h₁, same_string h₂, nofun⟩

end Records

/-! ## The graph -/

theorem graph_toDict (graph : StorageGraph) :
    StorageGraph.fromDict (graph.toDict : Written F).decoded = .ok graph := by
  refine bind_ok.mpr ⟨_, exactly_of_names rfl, ?_⟩
  simp [field, List.lookup_cons, listOf_list blockReference_toDict,
    listOf_list partition_toDict, listOf_list partitionResize_toDict,
    listOf_list filesystem_toDict, listOf_list subvolume_toDict, listOf_list mount_toDict,
    listOf_list bootTarget_toDict, listOf_list operation_toDict]

theorem same_graph [DecidableEq F] {graph : StorageGraph} {v : Json F} (hvalid : v.Valid)
    (h : StorageGraph.fromDict v = .ok graph) : same graph.toDict.decoded v = true := by
  simp only [StorageGraph.fromDict, bind_ok] at h
  obtain ⟨_, hget, _, h₀, _, h₁, _, h₂, _, h₃, _, h₄, _, h₅, _, h₆, _, h₇, _, h₈, _, h₉, _, h₁₀,
    _, h₁₁, _, h₁₂, h⟩ := h
  obtain ⟨members, rfl, rfl, hnames⟩ := exactly_ok hget
  cases h
  refine same_object hvalid.1 hnames (by simp) rfl ?_
  simp only [Written.decodedMembers_cons, Written.decodedMembers_nil, List.forall_mem_cons]
  exact ⟨same_integer h₀,
    same_ofValue h₁,
    same_string h₂,
    same_string h₃,
    same_list (hvalid.2.field _) (fun _ _ _ => same_blockReference) h₄,
    same_list (hvalid.2.field _) (fun _ _ _ => same_partition) h₅,
    same_list (hvalid.2.field _) (fun _ _ _ => same_partitionResize) h₆,
    same_list (hvalid.2.field _) (fun _ _ _ => same_filesystem) h₇,
    same_list (hvalid.2.field _) (fun _ _ _ => same_subvolume) h₈,
    same_list (hvalid.2.field _) (fun _ _ _ => same_mount) h₉,
    same_list (hvalid.2.field _) (fun _ _ _ => same_bootTarget) h₁₀,
    same_list (hvalid.2.field _) (fun _ _ _ => same_operation) h₁₁,
    same_members (hvalid.2.field _) h₁₂,
    nofun⟩

end Installer
