import Mathlib.Tactic

/-!
# Identifiers and text checks of the recovery engine

Identifiers are UUIDs. The records name them by their canonical text, the
lowercase hyphenated form, while the parser also accepts the other spellings of
the `uuid` crate. The character classes are those of the source's `char` and
`u8` methods.
-/

namespace RecoveryEngine

instance digits_neZero : NeZero 16 := ⟨by decide⟩

/-- A UUID as its thirty-two hexadecimal digits. -/
structure Uuid where
  digits : List (Fin 16)
  digits_length : digits.length = 32
  deriving DecidableEq

namespace Uuid

/-- The UUID all of whose digits are equal, for concrete inputs. -/
def repeated (d : Fin 16) : Uuid :=
  ⟨List.replicate 32 d, by simp⟩

instance : Inhabited Uuid := ⟨repeated 0⟩

def hexDigit (d : Fin 16) : Char :=
  Nat.digitChar d

def hexValue (c : Char) : Option (Fin 16) :=
  if '0' ≤ c ∧ c ≤ '9' then some (Fin.ofNat 16 (c.toNat - '0'.toNat))
  else if 'a' ≤ c ∧ c ≤ 'f' then some (Fin.ofNat 16 (c.toNat - 'a'.toNat + 10))
  else if 'A' ≤ c ∧ c ≤ 'F' then some (Fin.ofNat 16 (c.toNat - 'A'.toNat + 10))
  else none

/-- Cut a list into the five groups of the hyphenated form. -/
def hyphenate (cs : List Char) : List Char :=
  cs.take 8 ++ '-' :: (cs.drop 8).take 4 ++ '-' :: (cs.drop 12).take 4 ++
    '-' :: (cs.drop 16).take 4 ++ '-' :: cs.drop 20

/-- The inverse of `hyphenate` on lists with hyphens at the four positions. -/
def unhyphenate (cs : List Char) : Option (List Char) :=
  if cs[8]? = some '-' ∧ cs[13]? = some '-' ∧ cs[18]? = some '-' ∧ cs[23]? = some '-' then
    some (cs.take 8 ++ (cs.drop 9).take 4 ++ (cs.drop 14).take 4 ++ (cs.drop 19).take 4 ++
      cs.drop 24)
  else
    none

/-- The canonical text, `Uuid::hyphenated`. -/
def hyphenated (u : Uuid) : String :=
  String.ofList (hyphenate (u.digits.map hexDigit))

def ofDigits (ds : List (Fin 16)) : Option Uuid :=
  if h : ds.length = 32 then some ⟨ds, h⟩ else none

/-- The thirty-two digits in the spellings the crate accepts: simple, hyphenated,
braced and as a URN. -/
def spelledDigits (cs : List Char) : Option (List Char) :=
  if cs.length = 32 then some cs
  else if cs.length = 36 then unhyphenate cs
  else if cs.length = 38 ∧ cs.head? = some '{' ∧ cs.getLast? = some '}' then
    unhyphenate (cs.tail.take 36)
  else if cs.length = 45 ∧ cs.take 9 = "urn:uuid:".toList then unhyphenate (cs.drop 9)
  else none

/-- `Uuid::parse_str`. -/
def parseStr (value : String) : Option Uuid :=
  ((spelledDigits value.toList).bind (List.mapM hexValue)).bind ofDigits

theorem hexValue_hexDigit (d : Fin 16) : hexValue (hexDigit d) = some d := by
  revert d
  decide

theorem mapM_hexValue_hexDigit (ds : List (Fin 16)) :
    (ds.map hexDigit).mapM hexValue = some ds := by
  induction ds with
  | nil => rfl
  | cons d ds ih => simp [hexValue_hexDigit, ih]

theorem length_hyphenate {cs : List Char} (h : cs.length = 32) : (hyphenate cs).length = 36 := by
  simp [hyphenate, h]

/-- Splitting a list of thirty-two characters along the five groups. -/
theorem exists_groups {cs : List Char} (h : cs.length = 32) :
    ∃ a b c d e : List Char, cs = a ++ b ++ c ++ d ++ e ∧ a.length = 8 ∧ b.length = 4 ∧
      c.length = 4 ∧ d.length = 4 ∧ e.length = 12 := by
  refine ⟨cs.take 8, (cs.drop 8).take 4, (cs.drop 12).take 4, (cs.drop 16).take 4, cs.drop 20,
    ?_, ?_, ?_, ?_, ?_, ?_⟩
  · have h₁ := List.take_append_drop 8 cs
    have h₂ := List.take_append_drop 4 (cs.drop 8)
    have h₃ := List.take_append_drop 4 (cs.drop 12)
    have h₄ := List.take_append_drop 4 (cs.drop 16)
    simp only [List.drop_drop] at h₂ h₃ h₄
    norm_num at h₂ h₃ h₄
    simp only [List.append_assoc, h₄, h₃, h₂, h₁]
  all_goals simp [h]

theorem unhyphenate_hyphenate {cs : List Char} (h : cs.length = 32) :
    unhyphenate (hyphenate cs) = some cs := by
  obtain ⟨a, b, c, d, e, rfl, ha, hb, hc, hd, he⟩ := exists_groups h
  have hyphens : hyphenate (a ++ b ++ c ++ d ++ e) =
      a ++ '-' :: (b ++ '-' :: (c ++ '-' :: (d ++ '-' :: e))) := by
    simp (disch := omega) [hyphenate, List.drop_append, List.drop_of_length_le, ha, hb, hc]
  rw [hyphens]
  simp (disch := omega) [unhyphenate, List.drop_append, List.drop_of_length_le,
    List.getElem?_append, ha, hb, hc, hd]
  exact ⟨rfl, rfl, rfl, rfl⟩

theorem parseStr_hyphenated (u : Uuid) : parseStr u.hyphenated = some u := by
  have hlen : (u.digits.map hexDigit).length = 32 := by simp [u.digits_length]
  have hspelled : spelledDigits (hyphenate (u.digits.map hexDigit)) =
      some (u.digits.map hexDigit) := by
    simp [spelledDigits, length_hyphenate hlen, unhyphenate_hyphenate hlen]
  rw [parseStr, hyphenated, String.toList_ofList, hspelled, Option.bind_some,
    mapM_hexValue_hexDigit, Option.bind_some]
  simp [ofDigits, u.digits_length]

theorem hyphenated_injective : Function.Injective hyphenated := by
  intro u v h
  have := congrArg parseStr h
  simpa [parseStr_hyphenated] using this

end Uuid

/-- The test shared by the source's `validate_uuid` functions: a UUID in canonical form. -/
def canonicalUuid (value : String) : Bool :=
  match Uuid.parseStr value with
  | some parsed => parsed.hyphenated == value
  | none => false

@[simp] theorem canonicalUuid_hyphenated (u : Uuid) : canonicalUuid u.hyphenated = true := by
  simp [canonicalUuid, Uuid.parseStr_hyphenated]

/-- `char::is_control`. -/
def isControl (c : Char) : Bool :=
  c.toNat < 0x20 || (0x7f ≤ c.toNat && c.toNat < 0xa0)

/-- `char::is_whitespace`. -/
def isWhitespace (c : Char) : Bool :=
  (0x09 ≤ c.toNat && c.toNat ≤ 0x0d) || c.toNat == 0x20 || c.toNat == 0x85 ||
    c.toNat == 0xa0 || c.toNat == 0x1680 || (0x2000 ≤ c.toNat && c.toNat ≤ 0x200a) ||
    c.toNat == 0x2028 || c.toNat == 0x2029 || c.toNat == 0x202f || c.toNat == 0x205f ||
    c.toNat == 0x3000

/-- `str::trim` on the characters of a text. -/
def trimmed (cs : List Char) : List Char :=
  ((cs.dropWhile isWhitespace).reverse.dropWhile isWhitespace).reverse

/-- The kernel releases the engine accepts. -/
def safeKernelRelease (value : String) : Bool :=
  !value.toList.isEmpty && value.toList.length ≤ 128 &&
    value.toList.all fun c => c.isAlphanum || "._+-".toList.contains c

def isSha256 (value : String) : Bool :=
  value.toList.length == 64 && value.toList.all fun c => c.isDigit || ('a' ≤ c && c ≤ 'f')

/-- Replace control characters and cut the text, as every stored diagnostic is. -/
def sanitized (limit : ℕ) (value : String) : String :=
  String.ofList ((value.toList.map fun c => if isControl c then ' ' else c).take limit)

end RecoveryEngine
