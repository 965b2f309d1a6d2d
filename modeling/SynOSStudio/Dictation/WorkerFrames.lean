import SynOSStudio.ByteStreams.Lines

/-!
# The frames of the recognition worker

Audio goes to the worker with its length in front, and every answer is one line. No answer holds
a newline of its own, and the part of a frame that has come so far is never taken for a frame.
-/

namespace Dictation

abbrev Bytes := List UInt8

def ascii (s : String) : Bytes :=
  s.toList.map fun c => UInt8.ofNat c.toNat

def newline : UInt8 := 10

section Requests

/-- `struct.pack("<I", n)` -/
def pack (n : ℕ) : Bytes :=
  [UInt8.ofNat n, UInt8.ofNat (n / 256), UInt8.ofNat (n / 65536), UInt8.ofNat (n / 16777216)]

/-- What `transcribe` writes for a phrase. -/
def frame (pcm : Bytes) : Bytes :=
  pack pcm.length ++ pcm

def frameSize (a b c d : UInt8) : ℕ :=
  a.toNat + b.toNat * 256 + c.toNat * 65536 + d.toNat * 16777216

def minFrame : ℕ := 16000

def maxFrame : ℕ := 60 * 32000

/-- What the worker makes of the bytes that it has read. -/
inductive Reading where
  | more
  | refused
  | frame (pcm rest : Bytes)
  deriving DecidableEq

/-- The worker looks at the length before it reads the audio. -/
def readFrame : Bytes → Reading
  | a :: b :: c :: d :: rest =>
    let size := frameSize a b c d
    if size < minFrame ∨ maxFrame < size ∨ size % 2 ≠ 0 then .refused
    else if rest.length < size then .more
    else .frame (rest.take size) (rest.drop size)
  | _ => .more

/-- The lengths that both ends accept. -/
def SpeechAudio (pcm : Bytes) : Prop :=
  minFrame ≤ pcm.length ∧ pcm.length ≤ maxFrame ∧ pcm.length % 2 = 0

variable {pcm buffer rest : Bytes}

theorem frameSize_pack {n : ℕ} (h : n < 4294967296) :
    frameSize (UInt8.ofNat n) (UInt8.ofNat (n / 256)) (UInt8.ofNat (n / 65536))
      (UInt8.ofNat (n / 16777216)) = n := by
  simp only [frameSize, UInt8.toNat_ofNat']
  omega

theorem readFrame_pack (h : SpeechAudio pcm) (tail : Bytes) :
    readFrame (pack pcm.length ++ tail) =
      if tail.length < pcm.length then .more
      else .frame (tail.take pcm.length) (tail.drop pcm.length) := by
  obtain ⟨hmin, hmax, heven⟩ := h
  have hsize := frameSize_pack (n := pcm.length) (by simp only [maxFrame] at hmax; omega)
  have haccepted : ¬ (pcm.length < minFrame ∨ maxFrame < pcm.length ∨ pcm.length % 2 ≠ 0) := by
    omega
  simp only [pack, List.cons_append, List.nil_append, readFrame, hsize, if_neg haccepted]

/-- The part of a frame that has come so far is waited for, or it is the whole frame. -/
theorem readFrame_part (h : SpeechAudio pcm) (hpart : buffer ++ rest = frame pcm) :
    readFrame buffer = .more ∨
      (rest = [] ∧ buffer = frame pcm ∧ readFrame buffer = .frame pcm []) := by
  by_cases hlength : buffer.length < 4
  · left
    match buffer, hlength with
    | [], _ => rfl
    | [_], _ => rfl
    | [_, _], _ => rfl
    | [_, _, _], _ => rfl
  · have hpack : (pack pcm.length).length = 4 := rfl
    have hprefix : pack pcm.length <+: buffer := by
      apply List.prefix_of_prefix_length_le (List.prefix_append _ pcm)
      · rw [← frame, ← hpart]
        exact List.prefix_append _ _
      · omega
    obtain ⟨tail, rfl⟩ := hprefix
    rw [frame, List.append_assoc] at hpart
    have htail : tail ++ rest = pcm := List.append_cancel_left hpart
    rw [readFrame_pack h]
    have hlengths := congrArg List.length htail
    rw [List.length_append] at hlengths
    split
    · exact Or.inl rfl
    · have hrest : rest = [] := List.eq_nil_of_length_eq_zero (by omega)
      subst hrest
      rw [List.append_nil] at htail
      subst htail
      right
      simp [frame]

end Requests

section Replies

inductive Status where
  | cancelled
  | error
  | success
  deriving DecidableEq

def Status.word : Status → Bytes
  | .cancelled => ascii "cancelled"
  | .error => ascii "error"
  | .success => ascii "success"

def hexDigit (n : UInt8) : UInt8 :=
  if n < 10 then n + 48 else n + 87

/-- `json_string` -/
def jsonString (text : Bytes) : Bytes :=
  text.flatMap fun p =>
    if p = 34 ∨ p = 92 then [92, p]
    else if p < 32 then [92, 117, 48, 48, hexDigit (p >>> 4), hexDigit (p &&& 15)]
    else [p]

/-- The metrics are numbers and fixed words. -/
structure Reply where
  status : Status
  text : Bytes
  metrics : {bytes : Bytes // newline ∉ bytes}

def Reply.line (reply : Reply) : Bytes :=
  ascii "\x7b\"status\":\"" ++ reply.status.word ++ ascii "\",\"text\":\"" ++
    jsonString reply.text ++ ascii "\",\"metrics\":\x7b" ++ reply.metrics.1 ++ ascii "\x7d\x7d"

theorem newline_not_mem_escape (p : UInt8) :
    newline ∉ (if p = 34 ∨ p = 92 then [92, p]
      else if p < 32 then [92, 117, 48, 48, hexDigit (p >>> 4), hexDigit (p &&& 15)]
      else [p]) := by
  have hall : ∀ n < 256, newline ∉ (if UInt8.ofNat n = 34 ∨ UInt8.ofNat n = 92
      then [92, UInt8.ofNat n]
      else if UInt8.ofNat n < 32 then
        [92, 117, 48, 48, hexDigit (UInt8.ofNat n >>> 4), hexDigit (UInt8.ofNat n &&& 15)]
      else [UInt8.ofNat n]) := by
    decide +kernel
  have hp := hall p.toNat p.toNat_lt
  rwa [UInt8.ofNat_toNat] at hp

theorem newline_not_mem_jsonString (text : Bytes) : newline ∉ jsonString text := by
  intro hmem
  obtain ⟨p, _, hp⟩ := List.mem_flatMap.mp hmem
  exact newline_not_mem_escape p hp

theorem newline_not_mem_line (reply : Reply) : newline ∉ reply.line := by
  have hword : newline ∉ reply.status.word := by
    cases reply.status <;> decide
  have htext := newline_not_mem_jsonString reply.text
  have hmetrics := reply.metrics.2
  have hopen : newline ∉ ascii "\x7b\"status\":\"" := by decide
  have hmiddle : newline ∉ ascii "\",\"text\":\"" := by decide
  have hnumbers : newline ∉ ascii "\",\"metrics\":\x7b" := by decide
  have hclose : newline ∉ ascii "\x7d\x7d" := by decide
  simp only [Reply.line, List.mem_append, not_or]
  exact ⟨⟨⟨⟨⟨⟨hopen, hword⟩, hmiddle⟩, htext⟩, hnumbers⟩, hmetrics⟩, hclose⟩

end Replies

section Results

/-- What the engine looks up in the object of a line. -/
structure Result where
  status : Option Bytes
  text : Option Bytes
  deriving DecidableEq

def Reply.result (reply : Reply) : Result :=
  ⟨some reply.status.word, some reply.text⟩

/-- `json.loads` and the checks of its value: a line of the worker is refused, for what is no
UTF-8 in it, or read as what the worker printed. -/
def Loads (loads : Bytes → Option Result) : Prop :=
  ∀ (reply : Reply) result, loads reply.line = some result → result = reply.result

def unhex (p : UInt8) : UInt8 :=
  if p < 58 then p - 48 else p - 87

/-- A string after its opening quote, and what follows its closing quote. -/
def readString : Bytes → Option (Bytes × Bytes)
  | [] => none
  | 92 :: 117 :: _ :: _ :: a :: b :: rest =>
    (readString rest).map fun (text, rest) => (((unhex a) <<< 4 ||| unhex b) :: text, rest)
  | 92 :: p :: rest => (readString rest).map fun (text, rest) => (p :: text, rest)
  | p :: rest =>
    if p = 34 then some ([], rest)
    else (readString rest).map fun (text, rest) => (p :: text, rest)

def dropWord (word bytes : Bytes) : Option Bytes :=
  if word.isPrefixOf bytes then some (bytes.drop word.length) else none

/-- The reading of a line as the worker prints it. -/
def readLine (line : Bytes) : Option Result := do
  let line ← dropWord (ascii "\x7b\"status\":\"") line
  let (status, line) ← readString line
  match dropWord (ascii ",\"text\":\"") line with
  | none => return ⟨some status, none⟩
  | some line => (readString line).map fun (text, _) => ⟨some status, some text⟩

theorem dropWord_append (word bytes : Bytes) : dropWord word (word ++ bytes) = some bytes := by
  simp [dropWord]

theorem readString_escape (p : UInt8) (rest : Bytes) :
    readString ((if p = 34 ∨ p = 92 then [92, p]
      else if p < 32 then [92, 117, 48, 48, hexDigit (p >>> 4), hexDigit (p &&& 15)]
      else [p]) ++ rest) =
      (readString rest).map fun (text, rest) => (p :: text, rest) := by
  have hhex : ∀ n < 256, UInt8.ofNat n < 32 →
      (unhex (hexDigit (UInt8.ofNat n >>> 4)) <<< 4 |||
        unhex (hexDigit (UInt8.ofNat n &&& 15))) = UInt8.ofNat n := by
    decide +kernel
  split
  · rename_i hquote
    rcases hquote with rfl | rfl
    · simp [readString]
    · simp [readString]
  · rename_i hquote
    simp only [not_or] at hquote
    split
    · rename_i hcontrol
      have hp := hhex p.toNat p.toNat_lt
      rw [UInt8.ofNat_toNat] at hp
      simp [readString, hp hcontrol]
    · simp [readString, hquote]

theorem readString_jsonString (text rest : Bytes) :
    readString (jsonString text ++ 34 :: rest) = some (text, rest) := by
  induction text with
  | nil => simp [jsonString, readString]
  | cons p text ih =>
    have hcons : jsonString (p :: text) = (if p = 34 ∨ p = 92 then [92, p]
        else if p < 32 then [92, 117, 48, 48, hexDigit (p >>> 4), hexDigit (p &&& 15)]
        else [p]) ++ jsonString text := rfl
    rw [hcons, List.append_assoc, readString_escape, ih]
    rfl

/-- A line reads back as what was printed. -/
theorem readLine_line (reply : Reply) : readLine reply.line = some reply.result := by
  have hword : jsonString reply.status.word = reply.status.word := by
    cases reply.status <;> decide
  have hmiddle : ascii "\",\"text\":\"" = 34 :: ascii ",\"text\":\"" := by decide
  have hnumbers : ascii "\",\"metrics\":\x7b" = 34 :: ascii ",\"metrics\":\x7b" := by decide
  have hstatus := readString_jsonString reply.status.word
    (ascii ",\"text\":\"" ++ (jsonString reply.text ++
      34 :: (ascii ",\"metrics\":\x7b" ++ (reply.metrics.1 ++ ascii "\x7d\x7d"))))
  rw [hword] at hstatus
  simp only [readLine, Reply.line, hmiddle, hnumbers, List.append_assoc, List.cons_append,
    dropWord_append, hstatus, Option.bind_eq_bind, Option.bind_some, readString_jsonString]
  rfl

theorem loads_readLine : Loads readLine := by
  intro reply result h
  rw [readLine_line] at h
  exact (Option.some.inj h).symm

end Results

end Dictation
