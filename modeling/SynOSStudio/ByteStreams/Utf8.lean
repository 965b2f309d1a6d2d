import Mathlib.Data.List.Basic
import Mathlib.Data.String.Basic

/-!
# The bytes of a text

The UTF-8 bytes of a list of characters determine it, and a byte below 128 in them is a
character of its own.
-/

namespace ByteStreams

def utf8Bytes (cs : List Char) : List UInt8 :=
  cs.flatMap String.utf8EncodeChar

@[simp] theorem utf8Bytes_nil : utf8Bytes [] = [] := rfl

@[simp] theorem utf8Bytes_cons (c : Char) (cs : List Char) :
    utf8Bytes (c :: cs) = String.utf8EncodeChar c ++ utf8Bytes cs := List.flatMap_cons

@[simp] theorem utf8Bytes_append (cs ds : List Char) :
    utf8Bytes (cs ++ ds) = utf8Bytes cs ++ utf8Bytes ds := List.flatMap_append

theorem utf8Bytes_injective : Function.Injective utf8Bytes := by
  intro cs ds h
  have hbytes : (String.ofList cs).toByteArray = (String.ofList ds).toByteArray := by
    simpa [List.utf8Encode, utf8Bytes] using congrArg List.toByteArray h
  exact String.ofList_injective (String.toByteArray_inj.mp hbytes)

theorem toNat_of_mem_utf8EncodeChar {c : Char} {byte : UInt8}
    (hbyte : byte ∈ String.utf8EncodeChar c) (hascii : byte.toNat < 128) :
    byte.toNat = c.toNat := by
  have hval : c.val.toNat = c.toNat := rfl
  unfold String.utf8EncodeChar at hbyte
  simp only [hval] at hbyte
  split_ifs at hbyte
  all_goals
    simp only [List.mem_cons, List.not_mem_nil, or_false] at hbyte
    rcases hbyte with rfl | rfl | rfl | rfl
  all_goals
    rw [UInt8.toNat_ofNat'] at hascii ⊢
    omega

/-- A byte below 128 is a character. -/
theorem mem_of_mem_utf8Bytes {cs : List Char} {byte : UInt8} (hbyte : byte ∈ utf8Bytes cs)
    (hascii : byte.toNat < 128) : Char.ofNat byte.toNat ∈ cs := by
  obtain ⟨c, hc, hmem⟩ := List.mem_flatMap.mp hbyte
  rwa [toNat_of_mem_utf8EncodeChar hmem hascii, Char.ofNat_toNat]

theorem byteArray_toList (bytes : ByteArray) : bytes.toList = bytes.data.toList := by
  have hloop : ∀ n i read, bytes.size - i = n →
      ByteArray.toList.loop bytes i read = read.reverse ++ bytes.data.toList.drop i := by
    intro n
    induction n with
    | zero =>
      intro i read hn
      have hsize : ¬ i < bytes.size := by omega
      have hdrop : bytes.data.toList.length ≤ i := by
        rw [Array.length_toList]
        exact Nat.le_of_not_lt hsize
      rw [ByteArray.toList.loop, if_neg hsize, List.drop_eq_nil_of_le hdrop, List.append_nil]
    | succ n ih =>
      intro i read hn
      have hsize : i < bytes.size := by omega
      have hlength : i < bytes.data.toList.length := by
        rw [Array.length_toList]
        exact hsize
      have hget : bytes.get! i = bytes.data.toList[i] := by
        simp [ByteArray.get!, getElem!_pos, hsize]
      rw [ByteArray.toList.loop, if_pos hsize, ih (i + 1) _ (by omega),
        List.drop_eq_getElem_cons hlength, hget]
      simp
  exact hloop _ 0 [] rfl

theorem toUTF8_toList (s : String) : s.toUTF8.toList = utf8Bytes s.toList := by
  obtain ⟨cs, rfl⟩ : ∃ cs, s = String.ofList cs := ⟨s.toList, (String.ofList_toList).symm⟩
  rw [byteArray_toList]
  simp [utf8Bytes, List.utf8Encode]

/-- The characters of the bytes, where they are a text. -/
def decodeUtf8 (bytes : List UInt8) : Option (List Char) :=
  (String.fromUTF8? ⟨bytes.toArray⟩).map String.toList

@[simp] theorem decodeUtf8_utf8Bytes (cs : List Char) : decodeUtf8 (utf8Bytes cs) = some cs := by
  have hbytes : (⟨(utf8Bytes cs).toArray⟩ : ByteArray) = (String.ofList cs).toByteArray := by
    apply ByteArray.ext
    simp [utf8Bytes, List.utf8Encode]
  rw [decodeUtf8, hbytes, String.fromUTF8?, dif_pos (String.ofList cs).isValidUTF8]
  exact congrArg some String.toList_ofList

theorem utf8EncodeChar_ascii {c : Char} (hascii : c.toNat < 128) :
    String.utf8EncodeChar c = [UInt8.ofNat c.toNat] := by
  have hsize : c.utf8Size = 1 := by
    rw [Char.utf8Size_eq_one_iff]
    exact UInt32.le_iff_toNat_le.mpr (Nat.le_of_lt_succ hascii)
  rw [String.utf8EncodeChar_eq_singleton hsize]
  rfl

theorem mem_utf8Bytes_of_mem {cs : List Char} {c : Char} (hc : c ∈ cs) (hascii : c.toNat < 128) :
    UInt8.ofNat c.toNat ∈ utf8Bytes cs :=
  List.mem_flatMap.mpr ⟨c, hc, utf8EncodeChar_ascii hascii ▸ List.mem_singleton_self _⟩

/-- The bytes of any other character start with a byte that is no character. -/
theorem utf8EncodeChar_not_ascii {c : Char} (hascii : ¬ c.toNat < 128) :
    ∃ byte bytes, String.utf8EncodeChar c = byte :: bytes ∧ ¬ byte.toNat < 128 := by
  cases hencode : String.utf8EncodeChar c with
  | nil =>
    have hlength := String.length_utf8EncodeChar c
    rw [hencode] at hlength
    exact absurd hlength c.utf8Size_pos.ne
  | cons byte bytes =>
    refine ⟨byte, bytes, rfl, fun hbyte => hascii ?_⟩
    rw [← toNat_of_mem_utf8EncodeChar (hencode ▸ List.mem_cons_self) hbyte]
    exact hbyte

end ByteStreams
