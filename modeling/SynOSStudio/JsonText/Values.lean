import Mathlib.Tactic

/-!
# JSON values and their pretty-printed text

The values are those that records without fractions and without negative numbers
need. The printer puts every item and every member on a line of its own, indented
by two spaces for each level, as the usual pretty printers do.
-/

namespace JsonText

inductive Json where
  | null
  | bool (b : Bool)
  | number (n : ℕ)
  | text (s : String)
  | array (items : List Json)
  | object (members : List (String × Json))

/-- A line break and the indentation of a level. -/
def indentation (depth : ℕ) : List Char :=
  '\n' :: List.replicate (2 * depth) ' '

/-- The text of one character inside quotes. -/
def escapeChar (c : Char) : List Char :=
  if c = '"' then ['\\', '"']
  else if c = '\\' then ['\\', '\\']
  else if c.toNat = 8 then ['\\', 'b']
  else if c.toNat = 9 then ['\\', 't']
  else if c.toNat = 10 then ['\\', 'n']
  else if c.toNat = 12 then ['\\', 'f']
  else if c.toNat = 13 then ['\\', 'r']
  else if c.toNat < 32 then
    ['\\', 'u', '0', '0', Nat.digitChar (c.toNat / 16), Nat.digitChar (c.toNat % 16)]
  else [c]

def quoted (s : String) : List Char :=
  '"' :: (s.toList.flatMap escapeChar ++ ['"'])

mutual

def pretty (depth : ℕ) : Json → List Char
  | .null => "null".toList
  | .bool true => "true".toList
  | .bool false => "false".toList
  | .number n => Nat.toDigits 10 n
  | .text s => quoted s
  | .array [] => "[]".toList
  | .array (item :: items) =>
    '[' :: (indentation (depth + 1) ++ (pretty (depth + 1) item ++ prettyItems depth items))
  | .object [] => "{}".toList
  | .object ((key, value) :: members) =>
    '{' :: (indentation (depth + 1) ++ (quoted key ++
      ':' :: ' ' :: (pretty (depth + 1) value ++ prettyMembers depth members)))

/-- What follows an item of an array. -/
def prettyItems (depth : ℕ) : List Json → List Char
  | [] => indentation depth ++ "]".toList
  | item :: items =>
    ',' :: (indentation (depth + 1) ++ (pretty (depth + 1) item ++ prettyItems depth items))

/-- What follows a member of an object. -/
def prettyMembers (depth : ℕ) : List (String × Json) → List Char
  | [] => indentation depth ++ "\x7d".toList
  | (key, value) :: members =>
    ',' :: (indentation (depth + 1) ++ (quoted key ++
      ':' :: ' ' :: (pretty (depth + 1) value ++ prettyMembers depth members)))

end

/-- The number of bytes of a text in UTF-8. -/
def byteLength (cs : List Char) : ℕ :=
  (cs.map Char.utf8Size).sum

@[simp] theorem byteLength_nil : byteLength [] = 0 := rfl

@[simp] theorem byteLength_cons (c : Char) (cs : List Char) :
    byteLength (c :: cs) = c.utf8Size + byteLength cs := by
  simp [byteLength]

@[simp] theorem byteLength_append (cs ds : List Char) :
    byteLength (cs ++ ds) = byteLength cs + byteLength ds := by
  simp [byteLength]

section Sizes

@[simp] theorem byteLength_indentation (depth : ℕ) :
    byteLength (indentation depth) = 2 * depth + 1 := by
  have hspaces : ∀ n, byteLength (List.replicate n ' ') = n := by
    intro n
    induction n with
    | zero => rfl
    | succ n ih =>
      have hsize : ' '.utf8Size = 1 := rfl
      rw [List.replicate_succ, byteLength_cons, ih, hsize]
      omega
  have hsize : '\n'.utf8Size = 1 := rfl
  rw [indentation, byteLength_cons, hspaces, hsize]
  omega

/-- The bytes of a member with the character and the line break before it. -/
def memberBytes (depth : ℕ) (member : String × Json) : ℕ :=
  2 * depth + 4 + byteLength (quoted member.1) + byteLength (pretty depth member.2)

/-- The bytes of an item with the character and the line break before it. -/
def itemBytes (depth : ℕ) (item : Json) : ℕ :=
  2 * depth + 2 + byteLength (pretty depth item)

theorem byteLength_prettyMembers (depth : ℕ) (members : List (String × Json)) :
    byteLength (prettyMembers depth members) =
      (members.map (memberBytes (depth + 1))).sum + (2 * depth + 2) := by
  induction members with
  | nil =>
    have hbracket : byteLength "\x7d".toList = 1 := rfl
    simp only [prettyMembers, byteLength_append, byteLength_indentation, hbracket, List.map_nil,
      List.sum_nil]
    omega
  | cons member members ih =>
    have hsizes : ','.utf8Size = 1 ∧ ':'.utf8Size = 1 ∧ ' '.utf8Size = 1 := ⟨rfl, rfl, rfl⟩
    simp only [prettyMembers, byteLength_append, byteLength_cons, byteLength_indentation, hsizes, ih,
      List.map_cons, List.sum_cons, memberBytes]
    omega

theorem byteLength_prettyItems (depth : ℕ) (items : List Json) :
    byteLength (prettyItems depth items) =
      (items.map (itemBytes (depth + 1))).sum + (2 * depth + 2) := by
  induction items with
  | nil =>
    have hbracket : byteLength "]".toList = 1 := rfl
    simp only [prettyItems, byteLength_append, byteLength_indentation, hbracket, List.map_nil,
      List.sum_nil]
    omega
  | cons item items ih =>
    have hsize : ','.utf8Size = 1 := rfl
    simp only [prettyItems, byteLength_append, byteLength_cons, byteLength_indentation, hsize, ih,
      List.map_cons, List.sum_cons, itemBytes]
    omega

theorem byteLength_object (depth : ℕ) {members : List (String × Json)} (h : members ≠ []) :
    byteLength (pretty depth (.object members)) =
      (members.map (memberBytes (depth + 1))).sum + (2 * depth + 2) := by
  cases members with
  | nil => exact absurd rfl h
  | cons member members =>
    have hsizes : '{'.utf8Size = 1 ∧ ':'.utf8Size = 1 ∧ ' '.utf8Size = 1 := ⟨rfl, rfl, rfl⟩
    simp only [pretty, byteLength_append, byteLength_cons, byteLength_indentation, hsizes,
      byteLength_prettyMembers, List.map_cons, List.sum_cons, memberBytes]
    omega

theorem byteLength_array (depth : ℕ) {items : List Json} (h : items ≠ []) :
    byteLength (pretty depth (.array items)) =
      (items.map (itemBytes (depth + 1))).sum + (2 * depth + 2) := by
  cases items with
  | nil => exact absurd rfl h
  | cons item items =>
    have hsize : '['.utf8Size = 1 := rfl
    simp only [pretty, byteLength_append, byteLength_cons, byteLength_indentation, hsize,
      byteLength_prettyItems, List.map_cons, List.sum_cons, itemBytes]
    omega

end Sizes

end JsonText
