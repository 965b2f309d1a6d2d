import SynOSStudio.ByteStreams.Lines
import Mathlib.Data.List.DropRight
import Mathlib.Tactic

/-!
# The wire protocol of the command helper

Requests and responses, their lines and their decoders. A line is a list of fields between
tabs; every text of the user is written as the hexadecimal digits of its bytes.
-/

namespace BashGuess

inductive Request where
  | query (nowMs : UInt64) (line : String)
  | observe (exitCode : Int32) (nowMs : UInt64) (line cwd : String)
  | ping
  | quit
  deriving DecidableEq

inductive Response where
  | suggestion (insertion : String) (confidenceMilli : UInt16) (source : String)
  | none (authoritative : Bool)
  | ack
  | pong
  | error
  deriving DecidableEq

/-! ## Bytes and texts -/

section Bytes

def utf8 (s : String) : List UInt8 :=
  s.toByteArray.data.toList

/-- `String::from_utf8` -/
def fromUtf8 (bytes : List UInt8) : Option String :=
  String.fromUTF8? ⟨bytes.toArray⟩

@[simp] theorem fromUtf8_utf8 (s : String) : fromUtf8 (utf8 s) = some s := by
  have hvalid : (⟨(utf8 s).toArray⟩ : ByteArray) = s.toByteArray := by simp [utf8]
  rw [fromUtf8, hvalid, String.fromUTF8?, dif_pos s.isValidUTF8]
  rfl

/-- The bytes of a text from its characters. -/
theorem utf8_ofList (cs : List Char) :
    utf8 (String.ofList cs) = cs.flatMap String.utf8EncodeChar := by
  simp [utf8, List.utf8Encode]

end Bytes

/-! ## Numbers -/

section Numbers

/-- The value of at least one digit and nothing else. -/
def parseDigits (cs : List Char) : Option ℕ :=
  if cs ≠ [] ∧ cs.all Char.isDigit then some (Nat.ofDigitChars 10 cs 0) else none

/-- `str::parse` for an unsigned type with this largest value. -/
def parseUnsigned (largest : ℕ) : List Char → Option ℕ
  | '+' :: cs => (parseDigits cs).filter (· ≤ largest)
  | cs => (parseDigits cs).filter (· ≤ largest)

/-- `str::parse` for `i32`. -/
def parseSigned : List Char → Option Int32
  | '+' :: cs => ((parseDigits cs).filter (· < 2 ^ 31)).map fun n : ℕ => Int32.ofInt n
  | '-' :: cs => ((parseDigits cs).filter (· ≤ 2 ^ 31)).map fun n : ℕ => Int32.ofInt (-n)
  | cs => ((parseDigits cs).filter (· < 2 ^ 31)).map fun n : ℕ => Int32.ofInt n

def showSigned (n : Int32) : List Char :=
  if n.toInt < 0 then '-' :: Nat.toDigits 10 n.toInt.natAbs else Nat.toDigits 10 n.toInt.natAbs

theorem isDigit_of_mem_toDigits {n : ℕ} {c : Char} (h : c ∈ Nat.toDigits 10 n) :
    c.isDigit = true :=
  Nat.isDigit_of_mem_toDigits (by decide) (by decide) h

theorem parseDigits_toDigits (n : ℕ) : parseDigits (Nat.toDigits 10 n) = some n := by
  have hdigits : (Nat.toDigits 10 n).all Char.isDigit = true :=
    List.all_eq_true.mpr fun c hc => isDigit_of_mem_toDigits hc
  rw [parseDigits, if_pos ⟨Nat.toDigits_ne_nil, hdigits⟩,
    Nat.ofDigitChars_toDigits (by decide) (by decide)]

/-- The first character of a printed number is not a sign. -/
theorem toDigits_head (n : ℕ) : ∃ c cs, Nat.toDigits 10 n = c :: cs ∧ c ≠ '+' ∧ c ≠ '-' := by
  cases hdigits : Nat.toDigits 10 n with
  | nil => exact absurd hdigits Nat.toDigits_ne_nil
  | cons c cs =>
    have hc : c.isDigit = true := isDigit_of_mem_toDigits (hdigits ▸ List.mem_cons_self)
    refine ⟨c, cs, rfl, ?_, ?_⟩
    · rintro rfl
      cases hc
    · rintro rfl
      cases hc

theorem parseUnsigned_toDigits {largest n : ℕ} (h : n ≤ largest) :
    parseUnsigned largest (Nat.toDigits 10 n) = some n := by
  obtain ⟨c, cs, hdigits, hplus, -⟩ := toDigits_head n
  have hparse := parseDigits_toDigits n
  rw [hdigits] at hparse ⊢
  unfold parseUnsigned
  split
  · rename_i heq
    exact absurd (List.cons.inj heq).1 hplus
  · simp [hparse, h]

theorem parseSigned_showSigned (n : Int32) : parseSigned (showSigned n) = some n := by
  have hlow := Int32.le_toInt n
  have hhigh := Int32.toInt_lt n
  obtain ⟨c, cs, hdigits, hplus, hminus⟩ := toDigits_head n.toInt.natAbs
  have hparse := parseDigits_toDigits n.toInt.natAbs
  unfold showSigned
  split
  · rename_i hneg
    have habs : -(n.toInt.natAbs : ℤ) = n.toInt := by omega
    have hbound : n.toInt.natAbs ≤ 2 ^ 31 := by omega
    rw [parseSigned, hparse, Option.filter_some, if_pos (decide_eq_true hbound), Option.map_some,
      habs, Int32.ofInt_toInt]
  · rename_i hneg
    have habs : (n.toInt.natAbs : ℤ) = n.toInt := by omega
    have hbound : n.toInt.natAbs < 2 ^ 31 := by omega
    rw [hdigits] at hparse ⊢
    unfold parseSigned
    split
    · rename_i heq
      exact absurd (List.cons.inj heq).1 hplus
    · rename_i heq
      exact absurd (List.cons.inj heq).1 hminus
    · rw [hparse, Option.filter_some, if_pos (decide_eq_true hbound), Option.map_some, habs,
        Int32.ofInt_toInt]

end Numbers

/-! ## Hexadecimal digits -/

section Hex

def hexDigit (n : UInt8) : Char :=
  Nat.digitChar n.toNat

def encodeHex (value : String) : List Char :=
  (utf8 value).flatMap fun byte : UInt8 => [hexDigit (byte >>> 4), hexDigit (byte &&& 15)]

def nibble (c : Char) : Option UInt8 :=
  if '0' ≤ c ∧ c ≤ '9' then some (UInt8.ofNat (c.toNat - '0'.toNat))
  else if 'a' ≤ c ∧ c ≤ 'f' then some (UInt8.ofNat (c.toNat - 'a'.toNat + 10))
  else if 'A' ≤ c ∧ c ≤ 'F' then some (UInt8.ofNat (c.toNat - 'A'.toNat + 10))
  else none

/-- The bytes of the pairs of digits. -/
def decodePairs : List Char → Option (List UInt8)
  | [] => some []
  | [_] => none
  | high :: low :: rest => do
    let high ← nibble high
    let low ← nibble low
    let bytes ← decodePairs rest
    return ((high <<< 4) ||| low) :: bytes

def decodeHex (value : List Char) : Option String :=
  decodePairs value >>= fromUtf8

/-- A property of bytes that holds of every byte in turn. -/
theorem forall_byte {P : UInt8 → Prop} (h : ∀ n < 256, P (UInt8.ofNat n)) (byte : UInt8) :
    P byte := by
  have hbyte := h byte.toNat byte.toNat_lt
  rwa [UInt8.ofNat_toNat] at hbyte

theorem nibble_hexDigit (n : UInt8) (h : n < 16) : nibble (hexDigit n) = some n :=
  forall_byte (P := fun n => n < 16 → nibble (hexDigit n) = some n) (by decide +kernel) n h

theorem nibbles_of_byte (byte : UInt8) : byte >>> 4 < 16 ∧ byte &&& 15 < 16 ∧
    (byte >>> 4) <<< 4 ||| (byte &&& 15) = byte :=
  forall_byte (P := fun byte => byte >>> 4 < 16 ∧ byte &&& 15 < 16 ∧
    (byte >>> 4) <<< 4 ||| (byte &&& 15) = byte) (by decide +kernel) byte

theorem decodePairs_encode (bytes : List UInt8) :
    decodePairs (bytes.flatMap fun byte : UInt8 => [hexDigit (byte >>> 4), hexDigit (byte &&& 15)]) =
      some bytes := by
  induction bytes with
  | nil => rfl
  | cons byte bytes ih =>
    obtain ⟨hhigh, hlow, hbyte⟩ := nibbles_of_byte byte
    simp [decodePairs, nibble_hexDigit _ hhigh, nibble_hexDigit _ hlow, ih, hbyte]

theorem decodeHex_encodeHex (value : String) : decodeHex (encodeHex value) = some value := by
  rw [decodeHex, encodeHex, decodePairs_encode]
  exact fromUtf8_utf8 value

theorem encodeHex_plain {c : Char} {value : String} (h : c ∈ encodeHex value) :
    ' '.toNat < c.toNat ∧ c.toNat < 128 := by
  obtain ⟨byte, -, hc⟩ := List.mem_flatMap.mp h
  obtain ⟨hhigh, hlow, -⟩ := nibbles_of_byte byte
  have hdigit : ∀ n : UInt8, n < 16 → ' '.toNat < (hexDigit n).toNat ∧ (hexDigit n).toNat < 128 :=
    forall_byte (by decide +kernel)
  simp only [List.mem_cons, List.not_mem_nil, or_false] at hc
  rcases hc with rfl | rfl
  · exact hdigit _ hhigh
  · exact hdigit _ hlow

end Hex

/-! ## Lines -/

section Lines

/-- A line of these fields. -/
def wireLine (fields : List (List Char)) : List Char :=
  List.intercalate ['\t'] fields ++ ['\n']

/-- The fields of a line, without the line breaks at its end. -/
def wireFields (line : List Char) : List (List Char) :=
  (line.rdropWhile fun c => c == '\r' || c == '\n').splitOn '\t'

/-- A field of printable characters. -/
def Plain (field : List Char) : Prop :=
  ∀ c ∈ field, ' '.toNat < c.toNat ∧ c.toNat < 128

theorem wireFields_wireLine {fields : List (List Char)} (hne : fields ≠ [])
    (hplain : ∀ field ∈ fields, Plain field) : wireFields (wireLine fields) = fields := by
  have hbreak : ∀ c ∈ List.intercalate ['\t'] fields, (c == '\r' || c == '\n') = false := by
    intro c hc
    rcases ByteStreams.mem_intercalate hc with rfl | ⟨field, hfield, hc⟩
    · rfl
    · have hspace := (hplain field hfield c hc).1
      rw [Bool.or_eq_false_iff, beq_eq_false_iff_ne, beq_eq_false_iff_ne]
      constructor
      · rintro rfl
        exact absurd hspace (by decide)
      · rintro rfl
        exact absurd hspace (by decide)
  have htab : ∀ field ∈ fields, '\t' ∉ field := by
    intro field hfield htab
    exact absurd (hplain field hfield '\t' htab).1 (by decide)
  have hdrop : ((List.intercalate ['\t'] fields).rdropWhile fun c => c == '\r' || c == '\n') =
      List.intercalate ['\t'] fields := by
    rw [List.rdropWhile_eq_self_iff]
    intro hnil hlast
    rw [hbreak _ (List.getLast_mem hnil)] at hlast
    cases hlast
  rw [wireFields, wireLine, List.rdropWhile_concat_pos _ _ _ rfl, hdrop,
    List.splitOn_intercalate _ htab hne]

end Lines

/-! ## Requests and responses -/

section Codec

def unsignedField (n : ℕ) : List Char :=
  Nat.toDigits 10 n

def parseU64 (field : List Char) : Option UInt64 :=
  (parseUnsigned (2 ^ 64 - 1) field).map UInt64.ofNat

def parseU16 (field : List Char) : Option UInt16 :=
  (parseUnsigned (2 ^ 16 - 1) field).map UInt16.ofNat

def Request.fields : Request → List (List Char)
  | .query nowMs line => [['Q'], unsignedField nowMs.toNat, encodeHex line]
  | .observe exitCode nowMs line cwd =>
    [['O'], showSigned exitCode, unsignedField nowMs.toNat, encodeHex line, encodeHex cwd]
  | .ping => [['P']]
  | .quit => [['X']]

def encodeRequest (request : Request) : List Char :=
  wireLine request.fields

def decodeRequest (line : List Char) : Option Request :=
  match wireFields line with
  | [['Q'], nowMs, encoded] => do
    let nowMs ← parseU64 nowMs
    let line ← decodeHex encoded
    return .query nowMs line
  | [['O'], exitCode, nowMs, encoded, cwd] => do
    let exitCode ← parseSigned exitCode
    let nowMs ← parseU64 nowMs
    let line ← decodeHex encoded
    let cwd ← decodeHex cwd
    return .observe exitCode nowMs line cwd
  | [['P']] => some .ping
  | [['X']] => some .quit
  | _ => none

def Response.fields : Response → List (List Char)
  | .suggestion insertion confidenceMilli source =>
    [['S'], encodeHex insertion, unsignedField confidenceMilli.toNat, encodeHex source]
  | .none authoritative => [['N'], [if authoritative then '1' else '0']]
  | .ack => [['A']]
  | .pong => [['P']]
  | .error => [['E']]

def encodeResponse (response : Response) : List Char :=
  wireLine response.fields

def decodeResponse (line : List Char) : Option Response :=
  match wireFields line with
  | [['S'], insertion, confidence, source] => do
    let insertion ← decodeHex insertion
    let confidence ← parseU16 confidence
    let source ← decodeHex source
    return .suggestion insertion confidence source
  | [['N'], ['0']] => some (.none false)
  | [['N'], ['1']] => some (.none true)
  | [['A']] => some .ack
  | [['P']] => some .pong
  | [['E']] => some .error
  | _ => none

theorem parseU64_unsignedField (n : UInt64) : parseU64 (unsignedField n.toNat) = some n := by
  have hbound : n.toNat ≤ 2 ^ 64 - 1 := by
    have hlt := n.toNat_lt
    omega
  rw [parseU64, unsignedField, parseUnsigned_toDigits hbound, Option.map_some, UInt64.ofNat_toNat]

theorem parseU16_unsignedField (n : UInt16) : parseU16 (unsignedField n.toNat) = some n := by
  have hbound : n.toNat ≤ 2 ^ 16 - 1 := by
    have hlt := n.toNat_lt
    omega
  rw [parseU16, unsignedField, parseUnsigned_toDigits hbound, Option.map_some, UInt16.ofNat_toNat]

theorem plain_of_isDigit {c : Char} (h : c.isDigit = true) :
    ' '.toNat < c.toNat ∧ c.toNat < 128 := by
  simp only [Char.isDigit, Bool.and_eq_true, decide_eq_true_eq] at h
  have hlow : 48 ≤ c.toNat := h.1
  have hhigh : c.toNat ≤ 57 := h.2
  have hspace : ' '.toNat = 32 := rfl
  omega

theorem plain_unsignedField (n : ℕ) : Plain (unsignedField n) :=
  fun _ hc => plain_of_isDigit (isDigit_of_mem_toDigits hc)

theorem plain_showSigned (n : Int32) : Plain (showSigned n) := by
  intro c hc
  unfold showSigned at hc
  split at hc
  · rcases List.mem_cons.mp hc with rfl | hc
    · decide
    · exact plain_of_isDigit (isDigit_of_mem_toDigits hc)
  · exact plain_of_isDigit (isDigit_of_mem_toDigits hc)

theorem plain_encodeHex (value : String) : Plain (encodeHex value) :=
  fun _ hc => encodeHex_plain hc

theorem plain_singleton {c : Char} (h : ' '.toNat < c.toNat ∧ c.toNat < 128) : Plain [c] := by
  intro d hd
  rw [List.mem_singleton.mp hd]
  exact h

theorem Request.fields_ne_nil (r : Request) : r.fields ≠ [] := by
  cases r <;> exact List.cons_ne_nil _ _

theorem Request.fields_plain (r : Request) : ∀ field ∈ r.fields, Plain field := by
  cases r with
  | query nowMs line => simp [fields, plain_singleton, plain_unsignedField, plain_encodeHex]
  | observe exitCode nowMs line cwd =>
    simp [fields, plain_singleton, plain_unsignedField, plain_encodeHex, plain_showSigned]
  | ping => simp [fields, plain_singleton]
  | quit => simp [fields, plain_singleton]

theorem Response.fields_ne_nil (r : Response) : r.fields ≠ [] := by
  cases r <;> exact List.cons_ne_nil _ _

theorem Response.fields_plain (r : Response) : ∀ field ∈ r.fields, Plain field := by
  cases r with
  | suggestion insertion confidenceMilli source =>
    simp [fields, plain_singleton, plain_unsignedField, plain_encodeHex]
  | none authoritative => cases authoritative <;> simp [fields, plain_singleton]
  | ack => simp [fields, plain_singleton]
  | pong => simp [fields, plain_singleton]
  | error => simp [fields, plain_singleton]

theorem decodeRequest_encodeRequest (r : Request) : decodeRequest (encodeRequest r) = some r := by
  have hfields : wireFields (encodeRequest r) = r.fields :=
    wireFields_wireLine r.fields_ne_nil r.fields_plain
  rw [decodeRequest, hfields]
  cases r with
  | query nowMs line => simp [Request.fields, parseU64_unsignedField, decodeHex_encodeHex]
  | observe exitCode nowMs line cwd =>
    simp [Request.fields, parseSigned_showSigned, parseU64_unsignedField, decodeHex_encodeHex]
  | ping => rfl
  | quit => rfl

theorem decodeResponse_encodeResponse (r : Response) :
    decodeResponse (encodeResponse r) = some r := by
  have hfields : wireFields (encodeResponse r) = r.fields :=
    wireFields_wireLine r.fields_ne_nil r.fields_plain
  rw [decodeResponse, hfields]
  cases r with
  | suggestion insertion confidenceMilli source =>
    simp [Response.fields, parseU16_unsignedField, decodeHex_encodeHex]
  | none authoritative => cases authoritative <;> rfl
  | ack => rfl
  | pong => rfl
  | error => rfl

end Codec

/-! ## The bytes of a line -/

section WireBytes

/-- A single line whose control bytes are tabs and the line break at its end. -/
def SingleLine (bytes : List UInt8) : Prop :=
  ∃ body, bytes = body ++ [10] ∧ ∀ byte ∈ body, byte < 0x20 → byte = 9

theorem utf8EncodeChar_ascii {c : Char} (h : c.toNat < 128) :
    String.utf8EncodeChar c = [UInt8.ofNat c.toNat] := by
  have hsize : c.utf8Size = 1 := by
    rw [Char.utf8Size_eq_one_iff]
    exact UInt32.le_iff_toNat_le.mpr (by simpa using Nat.le_of_lt_succ h)
  rw [String.utf8EncodeChar_eq_singleton hsize]
  rfl

theorem wireLine_singleLine {fields : List (List Char)} (hplain : ∀ field ∈ fields, Plain field) :
    SingleLine (utf8 (String.ofList (wireLine fields))) := by
  refine ⟨(List.intercalate ['\t'] fields).flatMap String.utf8EncodeChar, ?_, ?_⟩
  · rw [utf8_ofList, wireLine, List.flatMap_append]
    rfl
  · intro byte hbyte hlow
    obtain ⟨c, hc, hbyte⟩ := List.mem_flatMap.mp hbyte
    rcases ByteStreams.mem_intercalate hc with rfl | ⟨field, hfield, hc⟩
    · exact List.mem_singleton.mp hbyte
    · obtain ⟨hspace, hascii⟩ := hplain field hfield c hc
      rw [utf8EncodeChar_ascii hascii, List.mem_singleton] at hbyte
      have hbyte : byte.toNat = c.toNat := by
        rw [hbyte, UInt8.toNat_ofNat']
        omega
      have hlow : byte.toNat < 0x20 := UInt8.lt_iff_toNat_lt.mp hlow
      have hspace : 32 < c.toNat := hspace
      omega

end WireBytes

end BashGuess
