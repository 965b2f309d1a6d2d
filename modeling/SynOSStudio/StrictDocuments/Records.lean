import SynOSStudio.StrictDocuments.Values

/-!
# Strict decoders of records

Readers that either take a value as it is or refuse it, and what they say about the
documents they accept: reading what was written gives the record back, and writing what
was read gives the same document.
-/

namespace StrictDocuments

/-- An exception of a decoder. -/
inductive DecodeError where
  | typeError (message : String)
  | valueError (message : String)
  | notAMember (enumeration : String)
  deriving DecidableEq

variable {F α β : Type}

theorem bind_ok {x : Except DecodeError α} {f : α → Except DecodeError β} {b : β} :
    (x >>= f) = .ok b ↔ ∃ a, x = .ok a ∧ f a = .ok b := by
  cases x with
  | error e =>
    constructor
    · intro h
      cases h
    · rintro ⟨a, h, -⟩
      cases h
  | ok a =>
    constructor
    · exact fun h => ⟨a, rfl, h⟩
    · rintro ⟨a', h, hf⟩
      cases h
      exact hf

@[simp] theorem ok_bind (a : α) (f : α → Except DecodeError β) :
    ((Except.ok a : Except DecodeError α) >>= f) = f a := rfl

/-! ## Fields -/

/-- A field of an object. -/
def field (members : List (String × Json F)) (name : String) : Json F :=
  (members.lookup name).getD .null

theorem lookup_eq_field {members : List (String × Json F)} {name : String}
    (h : name ∈ members.map Prod.fst) : members.lookup name = some (field members name) := by
  obtain ⟨value, hvalue⟩ := lookup_isSome h
  rw [field, hvalue]
  rfl

theorem ValidMembers.field {members : List (String × Json F)} (h : ValidMembers members)
    (name : String) : (StrictDocuments.field members name).Valid := by
  unfold StrictDocuments.field
  cases hlookup : members.lookup name with
  | none => simp [Json.Valid]
  | some value => exact h.lookup hlookup

/-- An object that is read by exactly these fields is what the fields are written as. -/
theorem same_object [DecidableEq F] {out members : List (String × Json F)} {expected : List String}
    (hnodup : (members.map Prod.fst).Nodup)
    (hnames : ∀ name, name ∈ members.map Prod.fst ↔ name ∈ expected)
    (hexpected : expected.Nodup) (hout : out.map Prod.fst = expected)
    (hsame : ∀ member ∈ out, same member.2 (field members member.1) = true) :
    same (.object out) (.object members) = true := by
  have hperm : (members.map Prod.fst).Perm (out.map Prod.fst) :=
    (List.perm_ext_iff_of_nodup hnodup (hout ▸ hexpected)).mpr (hout ▸ hnames)
  rw [same, decide_eq_true hperm.symm, Bool.true_and]
  refine sameMembers_of_lookup fun member hmember => ⟨_, lookup_eq_field ?_, hsame member hmember⟩
  exact (hnames member.1).mpr (hout ▸ List.mem_map_of_mem hmember)

/-! ## Readers -/

/-- `Enum(value)`. -/
def StrEnum.ofValue (enumeration : StrEnum α) : Json F → Except DecodeError α
  | .text s =>
    match enumeration.members.find? fun a => enumeration.value a = s with
    | some a => .ok a
    | none => .error (.notAMember enumeration.name)
  | _ => .error (.notAMember enumeration.name)

@[simp] theorem StrEnum.ofValue_value (enumeration : StrEnum α) (a : α) :
    enumeration.ofValue (.text (enumeration.value a) : Json F) = .ok a := by
  simp [StrEnum.ofValue, enumeration.found a]

theorem StrEnum.ofValue_ok {enumeration : StrEnum α} {v : Json F} {a : α}
    (h : enumeration.ofValue v = .ok a) : v = .text (enumeration.value a) := by
  cases v with
  | text s =>
    simp only [StrEnum.ofValue] at h
    split at h
    · rename_i b hfind
      cases h
      have hvalue : enumeration.value a = s := by simpa using List.find?_some hfind
      rw [hvalue]
    · cases h
  | null => cases h
  | bool => cases h
  | integer => cases h
  | fraction => cases h
  | array => cases h
  | object => cases h

/-! ## Lists -/

section Lists

variable {read : Json F → ℕ → Except DecodeError α}

/-- A reader over the numbered items of a list. -/
def readItems (read : Json F → ℕ → Except DecodeError α) (items : List (Json F)) :
    Except DecodeError (List α) :=
  items.zipIdx.mapM fun item => read item.1 item.2

theorem mapM_zipIdx_write {write : α → Json F} (h : ∀ a i, read (write a) i = .ok a) (as : List α)
    (start : ℕ) :
    ((as.map write).zipIdx start).mapM (fun item => read item.1 item.2) = .ok as := by
  induction as generalizing start with
  | nil => rfl
  | cons a as ih =>
    rw [List.map_cons, List.zipIdx_cons, List.mapM_cons, h a start, ih (start + 1)]
    rfl

theorem readItems_write {write : α → Json F} (h : ∀ a i, read (write a) i = .ok a)
    (as : List α) : readItems read (as.map write) = .ok as :=
  mapM_zipIdx_write h as 0

theorem mapM_zipIdx_ok {items : List (Json F)} {start : ℕ} {as : List α}
    (h : (items.zipIdx start).mapM (fun item => read item.1 item.2) = .ok as) :
    List.Forall₂ (fun a item => ∃ i, read item i = .ok a) as items := by
  induction items generalizing start as with
  | nil =>
    cases h
    exact .nil
  | cons item items ih =>
    rw [List.zipIdx_cons, List.mapM_cons, bind_ok] at h
    obtain ⟨a, ha, h⟩ := h
    obtain ⟨rest, hrest, h⟩ := bind_ok.mp h
    cases h
    exact .cons ⟨start, ha⟩ (ih hrest)

/-- The items of a list that was read are what the read ones are written as. -/
theorem readItems_same [DecidableEq F] {write : α → Json F} {items : List (Json F)} {as : List α}
    (hvalid : ValidItems items)
    (hread : ∀ a item i, item.Valid → read item i = .ok a → same (write a) item = true)
    (h : readItems read items = .ok as) : same (.array (as.map write)) (.array items) = true := by
  have hitems : List.Forall₂ (fun a item => ∃ i, read item i = .ok a) as items := mapM_zipIdx_ok h
  rw [same]
  refine sameItems_of_forall₂ ?_
  rw [List.forall₂_map_left_iff]
  rw [validItems_iff] at hvalid
  clear h
  induction hitems with
  | nil => exact .nil
  | cons hhead _ ih =>
    obtain ⟨i, hi⟩ := hhead
    refine .cons (hread _ _ i (hvalid _ List.mem_cons_self) hi) (ih fun item hitem => ?_)
    exact hvalid item (List.mem_cons_of_mem _ hitem)

end Lists

end StrictDocuments
