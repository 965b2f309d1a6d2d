import Mathlib.Tactic

/-!
# Documents and the values that programs encode as documents

JSON values with any type of fractions, equality up to the order of the members of an
object, and the values that an encoder takes: tuples next to lists, and members of
enumerations that are written as their value. An object has each of its keys once.
-/

namespace StrictDocuments

inductive Json (F : Type) where
  | null
  | bool (b : Bool)
  | integer (n : ℤ)
  | fraction (x : F)
  | text (s : String)
  | array (items : List (Json F))
  | object (members : List (String × Json F))

variable {F : Type}

/-! ## Equality and validity -/

section Equality

variable [DecidableEq F]

mutual

/-- Two values are the same but for the order of members. -/
def same : Json F → Json F → Bool
  | .null, .null => true
  | .bool a, .bool b => a = b
  | .integer a, .integer b => a = b
  | .fraction a, .fraction b => a = b
  | .text a, .text b => a = b
  | .array as, .array bs => sameItems as bs
  | .object as, .object bs =>
    (as.map Prod.fst).Perm (bs.map Prod.fst) && sameMembers as bs
  | _, _ => false

def sameItems : List (Json F) → List (Json F) → Bool
  | [], [] => true
  | a :: as, b :: bs => same a b && sameItems as bs
  | _, _ => false

/-- Every member is one of these, with the same value. -/
def sameMembers : List (String × Json F) → List (String × Json F) → Bool
  | [], _ => true
  | (key, a) :: as, bs =>
    (match bs.lookup key with
      | some b => same a b
      | none => false) && sameMembers as bs

end

end Equality

mutual

/-- Every object in the value has each of its keys once. -/
def Json.Valid : Json F → Prop
  | .array items => ValidItems items
  | .object members => (members.map Prod.fst).Nodup ∧ ValidMembers members
  | _ => True

def ValidItems : List (Json F) → Prop
  | [] => True
  | item :: items => item.Valid ∧ ValidItems items

def ValidMembers : List (String × Json F) → Prop
  | [] => True
  | (_, value) :: members => value.Valid ∧ ValidMembers members

end

/-- A value as a decoder hands it out. -/
structure Document (F : Type) where
  value : Json F
  valid : value.Valid

theorem lookup_of_mem {members : List (String × Json F)} (hnodup : (members.map Prod.fst).Nodup)
    {key : String} {value : Json F} (hmem : (key, value) ∈ members) :
    members.lookup key = some value := by
  induction members with
  | nil => cases hmem
  | cons member members ih =>
    rw [List.map_cons, List.nodup_cons] at hnodup
    rw [List.lookup_cons]
    rcases List.mem_cons.mp hmem with rfl | htail
    · simp
    · have hne : key ≠ member.1 := by
        rintro rfl
        exact hnodup.1 (List.mem_map.mpr ⟨_, htail, rfl⟩)
      rw [beq_false_of_ne hne]
      exact ih hnodup.2 htail

theorem lookup_isSome {members : List (String × Json F)} {key : String}
    (h : key ∈ members.map Prod.fst) : ∃ value, members.lookup key = some value := by
  induction members with
  | nil => cases h
  | cons member members ih =>
    rw [List.lookup_cons]
    by_cases hkey : key = member.1
    · exact ⟨member.2, by simp [hkey]⟩
    · rw [beq_false_of_ne hkey]
      exact ih ((List.mem_cons.mp h).resolve_left hkey)

theorem mem_of_lookup {members : List (String × Json F)} {key : String} {value : Json F}
    (h : members.lookup key = some value) : key ∈ members.map Prod.fst := by
  induction members with
  | nil => cases h
  | cons member members ih =>
    rw [List.lookup_cons] at h
    split at h
    · rename_i hkey
      exact List.mem_cons.mpr (.inl (beq_iff_eq.mp hkey))
    · exact List.mem_cons_of_mem _ (ih h)

theorem ValidMembers.lookup {members : List (String × Json F)} (h : ValidMembers members)
    {key : String} {value : Json F} (hlookup : members.lookup key = some value) :
    value.Valid := by
  induction members with
  | nil => cases hlookup
  | cons member members ih =>
    obtain ⟨first, head⟩ := member
    rw [List.lookup_cons] at hlookup
    split at hlookup
    · exact Option.some.inj hlookup ▸ h.1
    · exact ih h.2 hlookup

theorem validItems_iff {items : List (Json F)} : ValidItems items ↔ ∀ item ∈ items, item.Valid := by
  induction items with
  | nil => simp [ValidItems]
  | cons item items ih => simp [ValidItems, ih]

section Reflexivity

variable [DecidableEq F]

mutual

theorem same_refl : ∀ {v : Json F}, v.Valid → same v v = true
  | .null, _ => by simp [same]
  | .bool _, _ => by simp [same]
  | .integer _, _ => by simp [same]
  | .fraction _, _ => by simp [same]
  | .text _, _ => by simp [same]
  | .array items, h => by
    rw [same]
    exact sameItems_refl h
  | .object members, h => by
    rw [same, decide_eq_true (List.Perm.refl _), Bool.true_and]
    exact sameMembers_refl h.2 fun key value hmem => lookup_of_mem h.1 hmem

theorem sameItems_refl : ∀ {items : List (Json F)}, ValidItems items → sameItems items items = true
  | [], _ => by simp [sameItems]
  | item :: items, h => by
    rw [sameItems, same_refl h.1, sameItems_refl h.2]
    rfl

theorem sameMembers_refl : ∀ {members all : List (String × Json F)}, ValidMembers members →
    (∀ key value, (key, value) ∈ members → all.lookup key = some value) →
      sameMembers members all = true
  | [], _, _, _ => by simp [sameMembers]
  | (key, value) :: members, all, h, hall => by
    rw [sameMembers, hall key value List.mem_cons_self,
      sameMembers_refl h.2 fun key' value' hmem => hall key' value' (List.mem_cons_of_mem _ hmem)]
    simp [same_refl h.1]

end

/-- Items that are the same one by one. -/
theorem sameItems_of_forall₂ {as bs : List (Json F)}
    (h : List.Forall₂ (fun a b => same a b = true) as bs) : sameItems as bs = true := by
  induction h with
  | nil => simp [sameItems]
  | cons hhead _ ih => simp [sameItems, hhead, ih]

theorem sameMembers_of_lookup {as bs : List (String × Json F)}
    (h : ∀ member ∈ as, ∃ value, bs.lookup member.1 = some value ∧ same member.2 value = true) :
    sameMembers as bs = true := by
  induction as with
  | nil => simp [sameMembers]
  | cons member as ih =>
    obtain ⟨key, a⟩ := member
    obtain ⟨value, hlookup, hsame⟩ := h (key, a) List.mem_cons_self
    rw [sameMembers, hlookup, ih fun other hother => h other (List.mem_cons_of_mem _ hother)]
    simp [hsame]

end Reflexivity

/-! ## Places in a value -/

/-- One step into a value. -/
inductive Place where
  | key (name : String)
  | index (i : ℕ)

/-- What a value holds at the end of a path. -/
def Json.at : Json F → List Place → Option (Json F)
  | v, [] => some v
  | .object members, .key name :: path => (members.lookup name).bind fun v => v.at path
  | .array items, .index i :: path => items[i]?.bind fun v => v.at path
  | _, _ :: _ => none

section Places

variable [DecidableEq F]

theorem sameItems_index {as bs : List (Json F)} (h : sameItems as bs = true) {i : ℕ}
    {b : Json F} (hb : bs[i]? = some b) : ∃ a, as[i]? = some a ∧ same a b = true := by
  induction as generalizing bs i with
  | nil =>
    cases bs with
    | nil => cases hb
    | cons => cases h
  | cons a as ih =>
    cases bs with
    | nil => cases hb
    | cons b' bs =>
      rw [sameItems, Bool.and_eq_true] at h
      cases i with
      | zero =>
        cases hb
        exact ⟨a, rfl, h.1⟩
      | succ i => exact ih h.2 hb

theorem sameMembers_lookup {as bs : List (String × Json F)} (h : sameMembers as bs = true)
    {name : String} {a : Json F} (ha : as.lookup name = some a) :
    ∃ b, bs.lookup name = some b ∧ same a b = true := by
  induction as with
  | nil => cases ha
  | cons member as ih =>
    obtain ⟨key, first⟩ := member
    rw [sameMembers, Bool.and_eq_true] at h
    rw [List.lookup_cons] at ha
    split at ha
    · rename_i hkey
      cases ha
      have hhead := h.1
      rw [← beq_iff_eq.mp hkey] at hhead
      split at hhead
      · exact ⟨_, ‹_›, hhead⟩
      · cases hhead
    · exact ih h.2 ha

/-- Whatever the second of two same values holds, the first holds at the same place. -/
theorem same_at {path : List Place} {a b : Json F} (h : same a b = true) {w : Json F}
    (hw : b.at path = some w) : ∃ u, a.at path = some u ∧ same u w = true := by
  induction path generalizing a b with
  | nil =>
    cases hw
    exact ⟨a, rfl, h⟩
  | cons place path ih =>
    cases b with
    | object bs =>
      cases place with
      | index => cases hw
      | key name =>
        cases a with
        | object as =>
          rw [same, Bool.and_eq_true, decide_eq_true_eq] at h
          obtain ⟨b, hb, hw⟩ := Option.bind_eq_some_iff.mp hw
          have hmem : name ∈ as.map Prod.fst := h.1.mem_iff.mpr (mem_of_lookup hb)
          obtain ⟨a, ha⟩ := lookup_isSome hmem
          obtain ⟨b', hb', hsame⟩ := sameMembers_lookup h.2 ha
          cases hb.symm.trans hb'
          obtain ⟨u, hu, hsame⟩ := ih hsame hw
          exact ⟨u, Option.bind_eq_some_iff.mpr ⟨a, ha, hu⟩, hsame⟩
        | _ => simp [same] at h
    | array bs =>
      cases place with
      | key => cases hw
      | index i =>
        cases a with
        | array as =>
          rw [same] at h
          obtain ⟨b, hb, hw⟩ := Option.bind_eq_some_iff.mp hw
          obtain ⟨a, ha, hsame⟩ := sameItems_index h hb
          obtain ⟨u, hu, hsame⟩ := ih hsame hw
          exact ⟨u, Option.bind_eq_some_iff.mpr ⟨a, ha, hu⟩, hsame⟩
        | _ => simp [same] at h
    | _ => cases place <;> cases hw

end Places

/-! ## Encoding -/

/-- A value as a program hands it to the encoder. -/
inductive Written (F : Type) where
  | plain (value : Json F)
  | member (value : String)
  | list (items : List (Written F))
  | tuple (items : List (Written F))
  | dict (members : List (String × Written F))

namespace Written

def text (s : String) : Written F :=
  .plain (.text s)

def integer (n : ℤ) : Written F :=
  .plain (.integer n)

def bool (b : Bool) : Written F :=
  .plain (.bool b)

def ofOption {α : Type} (write : α → Written F) : Option α → Written F
  | some a => write a
  | none => .plain .null

mutual

/-- What the decoder makes of the encoder's text. -/
def decoded : Written F → Json F
  | .plain value => value
  | .member value => .text value
  | .list items => .array (decodedItems items)
  | .tuple items => .array (decodedItems items)
  | .dict members => .object (decodedMembers members)

def decodedItems : List (Written F) → List (Json F)
  | [] => []
  | item :: items => item.decoded :: decodedItems items

def decodedMembers : List (String × Written F) → List (String × Json F)
  | [] => []
  | (key, value) :: members => (key, value.decoded) :: decodedMembers members

end

@[simp] theorem decoded_text (s : String) : (text s : Written F).decoded = .text s := rfl

@[simp] theorem decoded_integer (n : ℤ) : (integer n : Written F).decoded = .integer n := rfl

@[simp] theorem decoded_bool (b : Bool) : (bool b : Written F).decoded = .bool b := rfl

@[simp] theorem decoded_plain (value : Json F) : (plain value).decoded = value := rfl

@[simp] theorem decoded_member (value : String) :
    (member value : Written F).decoded = .text value := rfl

@[simp] theorem decodedMembers_nil : decodedMembers ([] : List (String × Written F)) = [] := rfl

@[simp] theorem decodedMembers_cons (key : String) (value : Written F)
    (members : List (String × Written F)) :
    decodedMembers ((key, value) :: members) = (key, value.decoded) :: decodedMembers members := rfl

theorem decodedItems_eq (items : List (Written F)) :
    decodedItems items = items.map decoded := by
  induction items with
  | nil => rfl
  | cons item items ih => rw [decodedItems, ih, List.map_cons]

theorem decoded_list (items : List (Written F)) :
    (list items).decoded = .array (items.map decoded) := by
  rw [decoded, decodedItems_eq]

end Written

/-! ## Enumerations -/

/-- An enumeration whose members are written as their value. -/
structure StrEnum (α : Type) where
  name : String
  members : List α
  value : α → String
  found : ∀ a, (members.find? fun b => value b = value a) = some a

end StrictDocuments
