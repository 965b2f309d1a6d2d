import SynOSStudio.BashGuess.ScanTurns
import SynOSStudio.ByteStreams.Utf8

/-!
# The scanner of a line, over its bytes

The loop of `parse_line` reads bytes, and whole characters only where a byte is not ASCII. It
comes to the tokens of the characters, each between the bytes where its characters stand.
-/

namespace BashGuess

open ByteStreams (utf8Bytes)

/-- The loop of `parse_line`. It stops where no character can be read. -/
def byteScan : List UInt8 → Scan → Option Scan
  | [], s => some s
  | byte :: bytes, s =>
    if byte.toNat < 128 then
      let turned := s.step (Char.ofNat byte.toNat) (bytes.head?.map fun b => Char.ofNat b.toNat)
      byteScan (if turned.2 then bytes.drop 1 else bytes) turned.1
    else
      match ByteArray.utf8DecodeChar? (byte :: bytes).toByteArray 0 with
      | none => none
      | some c => byteScan (bytes.drop (c.utf8Size - 1)) ((s.openToken.push c).advance c.utf8Size)
termination_by bytes => bytes.length
decreasing_by
  · split_ifs <;> simp
  · simp

/-- The tokens of `parse_line` for a whole line, and where its last simple command starts before
prefixes are unwrapped. -/
def parseBytes (bytes : List UInt8) : Option (List Token × ℕ) :=
  if bytes.any fun byte => byte == 10 || byte == 13 || byte == 0 then none
  else (byteScan bytes .start).map fun s =>
    let finished := { s with index := bytes.length }.finish
    (finished.tokens, finished.commandStart)

/-- The byte at which the character with the given number starts. -/
def byteOffset (text : Text) (n : ℕ) : ℕ :=
  (utf8Bytes (text.take n)).length

def Token.inBytes (text : Text) (token : Token) : Token :=
  ⟨token.value, byteOffset text token.start, byteOffset text token.stop⟩

def Scan.inBytes (text : Text) (s : Scan) : Scan :=
  { s with
    tokens := s.tokens.map (Token.inBytes text)
    tokenStart := s.tokenStart.map (byteOffset text)
    index := byteOffset text s.index }

theorem byteOffset_append (done rest : Text) :
    byteOffset (done ++ rest) done.length = (utf8Bytes done).length := by
  rw [byteOffset, List.take_left]

theorem byteOffset_mono {text : Text} {m n : ℕ} (h : m ≤ n) :
    byteOffset text m ≤ byteOffset text n := by
  obtain ⟨k, rfl⟩ := Nat.exists_eq_add_of_le h
  rw [byteOffset, byteOffset, List.take_add, ByteStreams.utf8Bytes_append, List.length_append]
  exact Nat.le_add_right _ _

namespace Scan

variable {s : Scan} {text : Text} {c : Char} {next other : Option Char} {m n : ℕ}

theorem inBytes_openToken : (s.inBytes text).openToken = s.openToken.inBytes text := by
  cases hstart : s.tokenStart with
  | none => simp [openToken, inBytes, hstart]
  | some start => simp [openToken, inBytes, hstart]

theorem inBytes_finishToken :
    (s.inBytes text).finishToken (s.inBytes text).index = (s.finishToken s.index).inBytes text := by
  cases hstart : s.tokenStart with
  | none => simp [finishToken, inBytes, hstart]
  | some start => simp [finishToken, inBytes, hstart, Token.inBytes]

theorem inBytes_advance (h : byteOffset text (s.index + n) = byteOffset text s.index + m) :
    (s.inBytes text).advance m = (s.advance n).inBytes text := by
  simp [advance, inBytes, h]

theorem inBytes_operator (h : byteOffset text (s.index + n) = byteOffset text s.index + n) :
    (s.inBytes text).operator n = (s.operator n).inBytes text := by
  cases hstart : s.tokenStart with
  | none => simp [operator, finishToken, inBytes, hstart, h]
  | some start => simp [operator, finishToken, inBytes, hstart, h, Token.inBytes]

/-- A turn over an ASCII character does not depend on how positions are counted. -/
theorem inBytes_step (hascii : isAscii c = true)
    (hone : byteOffset text (s.index + 1) = byteOffset text s.index + 1)
    (htwo : isDoubleOperator c next = true →
      byteOffset text (s.index + 2) = byteOffset text s.index + 2) :
    (s.inBytes text).step c next = ((s.step c next).1.inBytes text, (s.step c next).2) := by
  have hopen : (s.inBytes text).openToken = s.openToken.inBytes text := inBytes_openToken
  have hescaped : (s.inBytes text).escaped = s.escaped := rfl
  have hquote : (s.inBytes text).quote = s.quote := rfl
  have hadvance (t : Scan) (hindex : t.index = s.index) :
      (t.inBytes text).advance 1 = (t.advance 1).inBytes text :=
    inBytes_advance (by rw [hindex]; exact hone)
  simp only [step, hopen, hescaped, hquote, inBytes_finishToken]
  split_ifs with hnot hescaped hslash hquoted hsame hquote hspace hstart hdouble
  · simp [hascii] at hnot
  · exact congrArg (·, false) (hadvance (push { s with escaped := false } c) rfl)
  · exact congrArg (·, false) (hadvance { s.openToken with escaped := true } rfl)
  · exact congrArg (·, false) (hadvance { s with quote := none } rfl)
  · exact congrArg (·, false) (hadvance (s.push c) rfl)
  · exact congrArg (·, false) (hadvance { s.openToken with quote := some c } rfl)
  · exact congrArg (·, false) (hadvance (s.finishToken s.index) finishToken_index)
  · exact congrArg (·, true) (inBytes_operator (htwo hdouble))
  · exact congrArg (·, false) (inBytes_operator hone)
  · exact congrArg (·, false) (hadvance (s.openToken.push c) rfl)

theorem isAscii_operator (h : isOperatorStart c = true) : isAscii c = true := by
  rcases isOperatorStart_cases h with rfl | rfl | rfl | rfl | rfl
  all_goals rfl

theorem step_congr (h : isDoubleOperator c next = isDoubleOperator c other) :
    s.step c next = s.step c other := by
  unfold step
  rw [h]

theorem scan_cons (c : Char) (rest : Text) (s : Scan) : scan (c :: rest) s =
    scan (if (s.step c rest.head?).2 then rest.drop 1 else rest) (s.step c rest.head?).1 := by
  cases rest with
  | nil => simp [scan]
  | cons d rest =>
    rw [scan, List.head?_cons, List.drop_one, List.tail_cons]
    split_ifs
    · rfl
    · rfl

theorem step_index : (s.step c next).1.index = s.index + if (s.step c next).2 then 2 else 1 := by
  unfold step
  split_ifs
  all_goals simp_all [advance, push, openToken, operator]

theorem step_second (h : (s.step c next).2 = true) :
    isAscii c = true ∧ ∃ d, next = some d ∧ isAscii d = true := by
  cases next with
  | none =>
    unfold step at h
    split_ifs at h with hascii hescaped hslash hquoted hsame hquote hspace hstart hdouble
    cases (isDoubleOperator_none (c := c)).symm.trans hdouble
  | some d =>
    have hdouble := (step_double h).2.2
    exact ⟨isAscii_operator (isDoubleOperator_start hdouble).1, d, rfl,
      isAscii_operator (isDoubleOperator_start hdouble).2⟩

theorem isDoubleOperator_some {d : Char} (h : isDoubleOperator c (some d) = true) :
    isAscii d = true :=
  isAscii_operator (isDoubleOperator_start h).2

end Scan

theorem char_ofNat_byte {c : Char} (hascii : isAscii c = true) :
    Char.ofNat (UInt8.ofNat c.toNat).toNat = c := by
  have hlt : c.toNat < 128 := of_decide_eq_true hascii
  rw [UInt8.toNat_ofNat', Nat.mod_eq_of_lt (by omega), Char.ofNat_toNat]

/-- The next byte tells whether an operator is double. -/
theorem isDoubleOperator_byte (c : Char) (rest : Text) :
    isDoubleOperator c ((utf8Bytes rest).head?.map fun b => Char.ofNat b.toNat) =
      isDoubleOperator c rest.head? := by
  cases rest with
  | nil => rfl
  | cons d rest =>
    by_cases hascii : isAscii d = true
    · rw [ByteStreams.utf8Bytes_cons, ByteStreams.utf8EncodeChar_ascii (of_decide_eq_true hascii)]
      rw [List.cons_append, List.head?_cons, Option.map_some, char_ofNat_byte hascii,
        List.head?_cons]
    · obtain ⟨byte, bytes, hencode, hbyte⟩ :=
        ByteStreams.utf8EncodeChar_not_ascii fun h => hascii (decide_eq_true h)
      have hleft : isDoubleOperator c (some (Char.ofNat byte.toNat)) = false := by
        refine Bool.eq_false_of_not_eq_true fun h => hbyte ?_
        have hlt : (Char.ofNat byte.toNat).toNat < 128 :=
          of_decide_eq_true (Scan.isDoubleOperator_some h)
        have hvalid : byte.toNat.isValidChar := .inl (byte.toNat_lt.trans (by decide))
        have hvalue : (Char.ofNat byte.toNat).toNat = byte.toNat := by
          rw [Char.ofNat, dif_pos hvalid]
          rfl
        rwa [hvalue] at hlt
      have hright : isDoubleOperator c (some d) = false :=
        Bool.eq_false_of_not_eq_true fun h => hascii (Scan.isDoubleOperator_some h)
      rw [ByteStreams.utf8Bytes_cons, hencode]
      exact hleft.trans hright.symm

theorem byteOffset_add {done text : Text} (n : ℕ) :
    byteOffset (done ++ text) (done.length + n) =
      byteOffset (done ++ text) done.length + (utf8Bytes (text.take n)).length := by
  rw [byteOffset_append, byteOffset, List.take_length_add_append, ByteStreams.utf8Bytes_append,
    List.length_append]

/-- The scanner of the bytes does what the scanner of the characters does. -/
theorem byteScan_utf8Bytes (done rest : Text) {s : Scan} (hindex : s.index = done.length) :
    byteScan (utf8Bytes rest) (s.inBytes (done ++ rest)) =
      some ((scan rest s).inBytes (done ++ rest)) := by
  induction hlength : rest.length using Nat.strong_induction_on generalizing done rest s with
  | _ length ih =>
  cases rest with
  | nil =>
    rw [ByteStreams.utf8Bytes_nil, byteScan, scan]
  | cons c rest =>
    have hbytes : byteOffset (done ++ c :: rest) (done.length + 1) =
        byteOffset (done ++ c :: rest) done.length + c.utf8Size := by
      rw [byteOffset_add]
      simp
    by_cases hascii : isAscii c = true
    · have hlt : c.toNat < 128 := of_decide_eq_true hascii
      have hencode := ByteStreams.utf8EncodeChar_ascii hlt
      have hstep : (s.inBytes (done ++ c :: rest)).step c
          ((utf8Bytes rest).head?.map fun b => Char.ofNat b.toNat) =
            ((s.step c rest.head?).1.inBytes (done ++ c :: rest), (s.step c rest.head?).2) := by
        rw [Scan.step_congr (isDoubleOperator_byte c rest)]
        refine Scan.inBytes_step hascii ?_ fun hdouble => ?_
        · rw [hindex, hbytes, ← String.length_utf8EncodeChar, hencode, List.length_singleton]
        · rw [hindex, byteOffset_add]
          cases rest with
          | nil => cases Scan.isDoubleOperator_none.symm.trans hdouble
          | cons d rest =>
            have hsecond : d.toNat < 128 := of_decide_eq_true (Scan.isDoubleOperator_some hdouble)
            simp [ByteStreams.utf8EncodeChar_ascii hlt, ByteStreams.utf8EncodeChar_ascii hsecond]
      have hvalue : (UInt8.ofNat c.toNat).toNat < 128 := by
        rw [UInt8.toNat_ofNat', Nat.mod_eq_of_lt (by omega)]
        exact hlt
      rw [Scan.scan_cons, ByteStreams.utf8Bytes_cons, hencode, List.singleton_append, byteScan,
        if_pos hvalue, char_ofNat_byte hascii, hstep]
      by_cases hboth : (s.step c rest.head?).2 = true
      · obtain ⟨-, d, hnext, hsecond⟩ := Scan.step_second hboth
        obtain ⟨rest, rfl⟩ : ∃ tail, rest = d :: tail := List.head?_eq_some_iff.mp hnext
        have hdrop : (utf8Bytes (d :: rest)).drop 1 = utf8Bytes rest := by
          rw [ByteStreams.utf8Bytes_cons,
            ByteStreams.utf8EncodeChar_ascii (of_decide_eq_true hsecond)]
          rfl
        have hdone : done ++ c :: d :: rest = (done ++ [c, d]) ++ rest := by simp
        simp only [if_pos hboth, hdrop, List.drop_one, List.tail_cons]
        rw [hdone]
        refine ih rest.length (by simp [← hlength]) (done ++ [c, d]) rest ?_ rfl
        rw [Scan.step_index, if_pos hboth, hindex]
        simp
      · have hdone : done ++ c :: rest = (done ++ [c]) ++ rest := by simp
        simp only [if_neg hboth]
        rw [hdone]
        refine ih rest.length (by simp [← hlength]) (done ++ [c]) rest ?_ rfl
        rw [Scan.step_index, if_neg hboth, hindex]
        simp
    · obtain ⟨byte, bytes, hencode, hbyte⟩ :=
        ByteStreams.utf8EncodeChar_not_ascii fun h => hascii (decide_eq_true h)
      have hsize : (byte :: bytes).length = c.utf8Size :=
        hencode ▸ String.length_utf8EncodeChar c
      have hdecode : ByteArray.utf8DecodeChar? (utf8Bytes (c :: rest)).toByteArray 0 = some c := by
        rw [ByteStreams.utf8Bytes_cons, List.toByteArray_append,
          ByteArray.utf8DecodeChar?_utf8EncodeChar_append]
      have hstep : s.step c rest.head? = ((s.openToken.push c).advance 1, false) := by
        simp [Scan.step, hascii]
      have hrest : (bytes ++ utf8Bytes rest).drop (c.utf8Size - 1) = utf8Bytes rest := by
        rw [← hsize, List.length_cons, Nat.add_sub_cancel, List.drop_left]
      rw [Scan.scan_cons, hstep, if_neg Bool.false_ne_true]
      rw [ByteStreams.utf8Bytes_cons, hencode, List.cons_append] at hdecode ⊢
      rw [byteScan, if_neg hbyte, hdecode]
      have hdone : done ++ c :: rest = (done ++ [c]) ++ rest := by simp
      have hopen : ((s.inBytes (done ++ c :: rest)).openToken.push c).advance c.utf8Size =
          ((s.openToken.push c).advance 1).inBytes (done ++ c :: rest) := by
        rw [Scan.inBytes_openToken]
        exact Scan.inBytes_advance (s := s.openToken.push c) (hindex ▸ hbytes)
      simp only [hrest, hopen]
      rw [hdone]
      exact ih rest.length (by simp [← hlength]) (done ++ [c]) rest (by simp [Scan.advance, Scan.push, Scan.openToken, hindex]) rfl

namespace Scan

variable {s : Scan} {text : Text}

theorem turn_index (s : Scan) (c : Char) : (s.turn c).index = s.index + 1 := by
  rcases turn_cases s c with hgrows | ⟨commandStart, hturn⟩
  · exact hgrows.index
  · rw [hturn]

theorem scan_index : (scan text s).index = s.index + text.length := by
  rw [scan_eq_foldl]
  induction text generalizing s with
  | nil => rfl
  | cons c text ih =>
    rw [List.foldl_cons, ih, turn_index, List.length_cons]
    omega

theorem inBytes_finish : (s.inBytes text).finish = s.finish.inBytes text := by
  have hescaped : (s.inBytes text).escaped = s.escaped := rfl
  rw [finish, finish, hescaped]
  split_ifs
  · exact inBytes_finishToken (s := s.push '\\')
  · exact inBytes_finishToken

end Scan

theorem any_isLineBreak (text : Text) :
    ((utf8Bytes text).any fun byte => byte == 10 || byte == 13 || byte == 0) =
      text.any isLineBreak := by
  rw [Bool.eq_iff_iff, List.any_eq_true, List.any_eq_true]
  constructor
  · rintro ⟨byte, hmem, hbyte⟩
    have hcases : byte = 10 ∨ byte = 13 ∨ byte = 0 := by simpa [or_assoc] using hbyte
    rcases hcases with rfl | rfl | rfl
    all_goals exact ⟨_, ByteStreams.mem_of_mem_utf8Bytes hmem (by decide), rfl⟩
  · rintro ⟨c, hmem, hc⟩
    have hcases : c = '\n' ∨ c = '\r' ∨ c = '\x00' := by simpa [isLineBreak, or_assoc] using hc
    rcases hcases with rfl | rfl | rfl
    all_goals exact ⟨_, ByteStreams.mem_utf8Bytes_of_mem hmem (by decide), rfl⟩

/-- `parse_line` over the bytes of a line finds the tokens of its characters. -/
theorem parseBytes_utf8Bytes (text : Text) : parseBytes (utf8Bytes text) =
    (parseLine text text.length).map fun parsed =>
      (parsed.tokens.map (Token.inBytes text), (scan text .start).finish.commandStart) := by
  rw [parseBytes, any_isLineBreak, parseLine, if_neg (lt_irrefl _), List.take_length]
  split_ifs
  · rfl
  · have hscan := byteScan_utf8Bytes [] text (s := .start) rfl
    rw [List.nil_append] at hscan
    have hstart : Scan.start.inBytes text = Scan.start := rfl
    have hindex : { (scan text .start).inBytes text with index := (utf8Bytes text).length } =
        (scan text .start).inBytes text := by
      rw [Scan.inBytes, Scan.scan_index, byteOffset]
      simp [Scan.start]
    rw [← hstart, hscan, Option.map_some, Option.map_some, hindex, Scan.inBytes_finish]
    rfl

end BashGuess
