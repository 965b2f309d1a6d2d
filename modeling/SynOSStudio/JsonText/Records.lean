import SynOSStudio.JsonText.Parsing

/-!
# Records as JSON objects

Reading an object with a fixed set of members: every member has to be known and
occurs once, a member that is missing reads as `null` where that is allowed. What
the writers produce is read back.
-/

namespace JsonText

variable {α : Type}

/-- The members of an object none of which is unknown or repeated. -/
def knownMembers (names : List String) : Json → Option (List (String × Json))
  | .object members =>
    if (members.map Prod.fst).all names.contains ∧ (members.map Prod.fst).Nodup then some members
    else none
  | _ => none

/-- Read a member that has to be there. -/
def required (members : List (String × Json)) (name : String) (read : Json → Option α) : Option α :=
  (members.lookup name).bind read

/-- Read a member that may be missing or `null`. -/
def optional (members : List (String × Json)) (name : String) (read : Json → Option α) :
    Option (Option α) :=
  match members.lookup name with
  | none => some none
  | some .null => some none
  | some value => (read value).map some

def ofOption (write : α → Json) : Option α → Json
  | none => .null
  | some a => write a

def readText : Json → Option String
  | .text s => some s
  | _ => none

def readBool : Json → Option Bool
  | .bool b => some b
  | _ => none

/-- Read an unsigned integer up to a largest one. -/
def readNat (largest : ℕ) : Json → Option ℕ
  | .number n => if n ≤ largest then some n else none
  | _ => none

def readArray (read : Json → Option α) : Json → Option (List α)
  | .array items => items.mapM read
  | _ => none

/-- Read one of the variants of an enumeration by its name. -/
def readVariant (variants : List α) (name : α → String) : Json → Option α
  | .text s => variants.find? fun variant => name variant == s
  | _ => none

theorem mapM_map_some {β : Type} {write : α → β} {read : β → Option α} {as : List α}
    (h : ∀ a ∈ as, read (write a) = some a) : (as.map write).mapM read = some as := by
  induction as with
  | nil => rfl
  | cons a as ih =>
    have hrest := ih fun b hb => h b (List.mem_cons_of_mem a hb)
    simp [h a List.mem_cons_self, hrest]

theorem readArray_map {write : α → Json} {read : Json → Option α} {as : List α}
    (h : ∀ a ∈ as, read (write a) = some a) :
    readArray read (.array (as.map write)) = some as :=
  mapM_map_some h

theorem readNat_number {largest n : ℕ} (h : n ≤ largest) : readNat largest (.number n) = some n :=
  if_pos h

theorem required_of_lookup {members : List (String × Json)} {name : String}
    {read : Json → Option α} {value : Json} {a : α} (hlookup : members.lookup name = some value)
    (hread : read value = some a) : required members name read = some a := by
  unfold required
  rw [hlookup]
  exact hread

/-- A member that the writer has put there is read back. -/
theorem optional_of_lookup {members : List (String × Json)} {name : String}
    {read : Json → Option α} {write : α → Json} {a : Option α}
    (hlookup : members.lookup name = some (ofOption write a))
    (hread : ∀ b ∈ a, read (write b) = some b) (hnull : read .null = none) :
    optional members name read = some a := by
  unfold optional
  rw [hlookup]
  cases a with
  | none => rfl
  | some b =>
    have hb := hread b rfl
    show (match some (write b) with
      | none => some none
      | some .null => some none
      | some value => (read value).map some) = some (some b)
    split
    · rename_i heq
      cases heq
    · rename_i heq
      rw [Option.some.inj heq, hnull] at hb
      cases hb
    · rename_i heq
      rw [← Option.some.inj heq, hb]
      rfl

end JsonText
