import SynOSStudio.BashGuess.Protocol
import SynOSStudio.ByteStreams.Lines

/-!
# The reader of protocol lines

`read_protocol_line` over a stream that arrives in pieces. What it keeps of a line depends
on the bytes of the line so far and not on the pieces: all of them up to the limit, nothing
beyond it.
-/

namespace BashGuess

open ByteStreams

def MAX_PROTOCOL_LINE_BYTES : ℕ := 64 * 1024

def newline : UInt8 := 10

inductive ProtocolLine where
  | eof
  | valid (line : String)
  | invalid
  deriving DecidableEq

/-- What a buffered reader has not handed out yet: the rest of its buffer and what the
coming reads return. No read returns an empty piece before the end. -/
structure Reader where
  pieces : List (List UInt8)
  nonempty : ∀ piece ∈ pieces, piece ≠ []

namespace Reader

def stream (reader : Reader) : List UInt8 :=
  reader.pieces.flatten

/-- `fill_buf` and `consume` of the whole buffer. -/
def next (piece : List UInt8) (rest : List (List UInt8)) : List (List UInt8) :=
  if piece = [] then rest else piece :: rest

theorem flatten_next (piece : List UInt8) (rest : List (List UInt8)) :
    (next piece rest).flatten = piece ++ rest.flatten := by
  unfold next
  split
  · rename_i h
    simp [h]
  · rfl

end Reader

/-- The result for a line that was read to its end. -/
def readLine (line : List UInt8) (oversized : Bool) : ProtocolLine :=
  if oversized then .invalid
  else
    match fromUtf8 line with
    | some line => .valid line
    | none => .invalid

/-- What is kept of the line after these bytes of a piece. -/
def keepBytes (line : List UInt8) (oversized : Bool) (bytes : List UInt8) : List UInt8 × Bool :=
  if oversized then (line, true)
  else if line.length + bytes.length ≤ MAX_PROTOCOL_LINE_BYTES then (line ++ bytes, false)
  else ([], true)

/-- The loop of `read_protocol_line` and the pieces it leaves. -/
def readLoop : List (List UInt8) → List UInt8 → Bool → ProtocolLine × List (List UInt8)
  | [], line, oversized =>
    if line = [] ∧ oversized = false then (.eof, []) else (readLine line oversized, [])
  | available :: rest, line, oversized =>
    match available.findIdx? (· == newline) with
    | some index =>
      let kept := keepBytes line oversized (available.take (index + 1))
      (readLine kept.1 kept.2, Reader.next (available.drop (index + 1)) rest)
    | none =>
      let kept := keepBytes line oversized available
      readLoop rest kept.1 kept.2

/-! ## What the reader keeps -/

section Kept

/-- What is kept of these bytes of a line. -/
def kept (bytes : List UInt8) : List UInt8 × Bool :=
  if bytes.length ≤ MAX_PROTOCOL_LINE_BYTES then (bytes, false) else ([], true)

theorem keepBytes_kept (before bytes : List UInt8) :
    keepBytes (kept before).1 (kept before).2 bytes = kept (before ++ bytes) := by
  unfold kept
  by_cases hbefore : before.length ≤ MAX_PROTOCOL_LINE_BYTES
  · simp only [if_pos hbefore, keepBytes, Bool.false_eq_true, if_false, List.length_append]
  · have hmore : ¬ (before ++ bytes).length ≤ MAX_PROTOCOL_LINE_BYTES := by
      rw [List.length_append]
      omega
    simp only [if_neg hbefore, if_neg hmore, keepBytes, if_true]

/-- The result for these bytes: the line, if it is short enough and a text. -/
def itemOf (line : List UInt8) : ProtocolLine :=
  if line.length ≤ MAX_PROTOCOL_LINE_BYTES then
    match fromUtf8 line with
    | some line => .valid line
    | none => .invalid
  else .invalid

theorem readLine_kept (line : List UInt8) : readLine (kept line).1 (kept line).2 = itemOf line := by
  unfold kept itemOf
  split
  · rfl
  · rfl

theorem kept_eq_start {bytes : List UInt8} :
    (kept bytes).1 = [] ∧ (kept bytes).2 = false ↔ bytes = [] := by
  unfold kept
  split
  · simp
  · rename_i h
    constructor
    · rintro ⟨-, h⟩
      cases h
    · rintro rfl
      exact absurd (Nat.zero_le _) h

end Kept

/-! ## One call -/

section Call

variable {pieces : List (List UInt8)} {before after : List UInt8}

theorem findIdx?_newline (h : newline ∉ before) :
    (before ++ newline :: after).findIdx? (· == newline) = some before.length := by
  induction before with
  | nil => simp [List.findIdx?_cons]
  | cons byte before ih =>
    have hne : (byte == newline) = false :=
      beq_eq_false_iff_ne.mpr fun heq => h (heq ▸ List.mem_cons_self)
    have hrest : newline ∉ before := fun hmem => h (List.mem_cons_of_mem byte hmem)
    simp [List.findIdx?_cons, hne, ih hrest]

theorem findIdx?_no_newline (h : newline ∉ before) :
    before.findIdx? (· == newline) = none := by
  rw [List.findIdx?_eq_none_iff]
  intro byte hbyte
  exact beq_eq_false_iff_ne.mpr fun heq => h (heq ▸ hbyte)

/-- A stream with a line break: the line up to it, and the rest is left. -/
theorem readLoop_line (begun : List UInt8) (hstream : pieces.flatten = before ++ newline :: after)
    (hbefore : newline ∉ before) :
    ∃ rest, readLoop pieces (kept begun).1 (kept begun).2 =
        (itemOf (begun ++ before ++ [newline]), rest) ∧ rest.flatten = after ∧
      ((∀ piece ∈ pieces, piece ≠ []) → ∀ piece ∈ rest, piece ≠ []) := by
  induction pieces generalizing begun before with
  | nil => simp at hstream
  | cons available pieces ih =>
    rw [List.flatten_cons] at hstream
    by_cases hhere : newline ∈ available
    · obtain ⟨first, last, rfl, hfirst⟩ := List.eq_append_cons_of_mem hhere
      rw [List.append_assoc, List.cons_append] at hstream
      obtain ⟨rfl, rfl⟩ := eq_of_append_sep hstream hfirst hbefore
      have hpiece : first ++ newline :: last = (first ++ [newline]) ++ last := by simp
      have hlength : first.length + 1 = (first ++ [newline]).length := by simp
      refine ⟨Reader.next last pieces, ?_, Reader.flatten_next last pieces, fun hne => ?_⟩
      · rw [readLoop, findIdx?_newline hfirst]
        simp only []
        rw [hpiece, hlength, List.take_left, List.drop_left, keepBytes_kept, readLine_kept,
          List.append_assoc]
      · have hpieces : ∀ piece ∈ pieces, piece ≠ [] := fun piece hpiece =>
          hne piece (List.mem_cons_of_mem _ hpiece)
        unfold Reader.next
        split
        · exact hpieces
        · rename_i hlast
          intro piece hpiece
          rcases List.mem_cons.mp hpiece with rfl | hpiece
          · exact hlast
          · exact hpieces piece hpiece
    · have hmem : newline ∈ pieces.flatten := by
        have hmem : newline ∈ available ++ pieces.flatten := by
          rw [hstream]
          exact List.mem_append_right _ List.mem_cons_self
        exact (List.mem_append.mp hmem).resolve_left hhere
      obtain ⟨first, last, hflatten, hfirst⟩ := List.eq_append_cons_of_mem hmem
      have hjoined : newline ∉ available ++ first := by
        rw [List.mem_append]
        exact not_or.mpr ⟨hhere, hfirst⟩
      rw [hflatten, ← List.append_assoc] at hstream
      obtain ⟨rfl, rfl⟩ := eq_of_append_sep hstream hjoined hbefore
      obtain ⟨rest, hrest, hafter, hne⟩ := ih (begun ++ available) hflatten hfirst
      refine ⟨rest, ?_, hafter, fun hpieces => hne fun piece hpiece =>
        hpieces piece (List.mem_cons_of_mem _ hpiece)⟩
      rw [readLoop, findIdx?_no_newline hhere]
      simp only []
      rw [keepBytes_kept, hrest]
      simp only [List.append_assoc]

/-- A stream without a line break: what is there of a line, and nothing is left. -/
theorem readLoop_tail (begun : List UInt8) (hstream : newline ∉ pieces.flatten) :
    readLoop pieces (kept begun).1 (kept begun).2 =
      (if begun ++ pieces.flatten = [] then .eof else itemOf (begun ++ pieces.flatten), []) := by
  induction pieces generalizing begun with
  | nil =>
    rw [readLoop, List.flatten_nil, List.append_nil]
    by_cases hbegun : begun = []
    · rw [if_pos (kept_eq_start.mpr hbegun), if_pos hbegun]
    · rw [if_neg fun h => hbegun (kept_eq_start.mp h), if_neg hbegun, readLine_kept]
  | cons available pieces ih =>
    rw [List.flatten_cons, List.mem_append, not_or] at hstream
    rw [readLoop, findIdx?_no_newline hstream.1]
    simp only []
    rw [keepBytes_kept, ih _ hstream.2, List.flatten_cons, List.append_assoc]

end Call

/-! ## All calls -/

section Calls

/-- `read_protocol_line` -/
def readProtocolLine (reader : Reader) : ProtocolLine × List (List UInt8) :=
  readLoop reader.pieces [] false

theorem readLoop_start (pieces : List (List UInt8)) :
    readLoop pieces [] false = readLoop pieces (kept []).1 (kept []).2 := rfl

/-- What a call leaves is a reader again. -/
theorem readProtocolLine_nonempty (reader : Reader) :
    ∀ piece ∈ (readProtocolLine reader).2, piece ≠ [] := by
  rw [readProtocolLine, readLoop_start]
  by_cases hmem : newline ∈ reader.stream
  · obtain ⟨before, after, hstream, hbefore⟩ := List.eq_append_cons_of_mem hmem
    obtain ⟨rest, hrest, -, hne⟩ := readLoop_line [] hstream hbefore
    rw [hrest]
    exact hne reader.nonempty
  · rw [readLoop_tail [] hmem]
    exact fun _ hpiece => absurd hpiece List.not_mem_nil

/-- The result of a call and the reader after it. -/
def Reader.call (reader : Reader) : ProtocolLine × Reader :=
  ((readProtocolLine reader).1, ⟨(readProtocolLine reader).2, readProtocolLine_nonempty reader⟩)

/-- The reader after this many calls. -/
def Reader.after : ℕ → Reader → Reader
  | 0, reader => reader
  | n + 1, reader => Reader.after n reader.call.2

theorem call_line {reader : Reader} {before after : List UInt8}
    (hstream : reader.stream = before ++ newline :: after) (hbefore : newline ∉ before) :
    reader.call.1 = itemOf (before ++ [newline]) ∧ reader.call.2.stream = after := by
  obtain ⟨rest, hrest, hafter, -⟩ := readLoop_line [] hstream hbefore
  have hread : readProtocolLine reader = (itemOf (before ++ [newline]), rest) := hrest
  constructor
  · exact congrArg Prod.fst hread
  · exact (congrArg (fun result => result.2.flatten) hread).trans hafter

theorem call_tail {reader : Reader} (hstream : newline ∉ reader.stream) :
    reader.call.1 = (if reader.stream = [] then .eof else itemOf reader.stream) ∧
      reader.call.2.stream = [] := by
  have hread : readProtocolLine reader =
      (if reader.stream = [] then .eof else itemOf reader.stream, []) := readLoop_tail [] hstream
  constructor
  · exact congrArg Prod.fst hread
  · exact congrArg (fun result => result.2.flatten) hread

/-- The calls return the lines of the stream one by one and then its end. -/
theorem call_after (i : ℕ) (reader : Reader) :
    (reader.after i).call.1 = ((linesOf newline reader.stream).map itemOf).getD i .eof := by
  induction i generalizing reader with
  | zero =>
    rw [Reader.after]
    by_cases hmem : newline ∈ reader.stream
    · obtain ⟨before, after, hstream, hbefore⟩ := List.eq_append_cons_of_mem hmem
      rw [(call_line hstream hbefore).1, hstream, linesOf_append_sep hbefore]
      rfl
    · rw [(call_tail hmem).1, linesOf_no_sep hmem]
      split
      · rfl
      · rfl
  | succ i ih =>
    rw [Reader.after, ih]
    by_cases hmem : newline ∈ reader.stream
    · obtain ⟨before, after, hstream, hbefore⟩ := List.eq_append_cons_of_mem hmem
      rw [(call_line hstream hbefore).2, hstream, linesOf_append_sep hbefore]
      rfl
    · rw [(call_tail hmem).2, linesOf_no_sep hmem]
      split
      · rfl
      · rfl

end Calls

/-! ## The protocol -/

def requestBytes (r : Request) : List UInt8 :=
  utf8 (String.ofList (encodeRequest r))

/-- Requests that were written one after another are read one after another, each short
enough to be taken. -/
theorem requests_are_read_back {rs : List Request} {reader : Reader}
    (hshort : ∀ r ∈ rs, (requestBytes r).length ≤ MAX_PROTOCOL_LINE_BYTES)
    (hstream : reader.stream = (rs.map requestBytes).flatten) {i : ℕ} {r : Request}
    (hr : rs[i]? = some r) :
    ∃ line, (reader.after i).call.1 = .valid line ∧ decodeRequest line.toList = some r := by
  have hlines : linesOf newline reader.stream = rs.map requestBytes := by
    rw [hstream]
    apply linesOf_flatten
    intro bytes hbytes
    obtain ⟨r, -, rfl⟩ := List.mem_map.mp hbytes
    obtain ⟨body, hbody, hcontrol⟩ := wireLine_singleLine r.fields_plain
    refine ⟨body, hbody, fun hmem => ?_⟩
    exact absurd (hcontrol newline hmem (by decide)) (by decide)
  have hitem : itemOf (requestBytes r) = .valid (String.ofList (encodeRequest r)) := by
    rw [itemOf, if_pos (hshort r (List.mem_of_getElem? hr)), requestBytes, fromUtf8_utf8]
  refine ⟨String.ofList (encodeRequest r), ?_, ?_⟩
  · rw [call_after, hlines, List.map_map, List.getD_eq_getElem?_getD, List.getElem?_map, hr]
    exact hitem
  · rw [String.toList_ofList]
    exact decodeRequest_encodeRequest r

/-- The codec gives every value back, its lines are single lines, and the reader returns
one item for each line of the stream however it arrives: the line if it is short enough and
a text, and a mark of invalid input otherwise. -/
theorem wire_protocol_is_faithful :
    (∀ r : Request, decodeRequest (encodeRequest r) = some r) ∧
      (∀ r : Response, decodeResponse (encodeResponse r) = some r) ∧
      (∀ r : Request, SingleLine (utf8 (String.ofList (encodeRequest r)))) ∧
      (∀ r : Response, SingleLine (utf8 (String.ofList (encodeResponse r)))) ∧
      ∀ (reader : Reader) (i : ℕ),
        (reader.after i).call.1 = ((linesOf newline reader.stream).map itemOf).getD i .eof :=
  ⟨decodeRequest_encodeRequest, decodeResponse_encodeResponse,
    fun r => wireLine_singleLine r.fields_plain, fun r => wireLine_singleLine r.fields_plain,
    fun reader i => call_after i reader⟩

end BashGuess
