import SynOSStudio.BashGuess.LineBytes
import SynOSStudio.BashGuess.WrittenLines

/-!
# Reading words

A reader goes through a word between quotes and behind backslashes. The scanner is such a reader,
except that a character which is not ASCII does not end its escape.
-/

namespace BashGuess

/-! ## Readers -/

/-- Between which quotes a reader is, and whether it is behind a backslash. -/
structure Mode where
  quote : Option Char
  escaped : Bool

namespace Mode

variable {m m' : Mode} {c q : Char} {v text : Text}

def plain : Mode := ⟨none, false⟩

def quoted (c : Char) : Mode := ⟨some c, false⟩

/-- What a reader makes of a character of a word. It stops at a character that ends the word, and
behind a backslash at one that is not ASCII. -/
def read? (m : Mode) (c : Char) : Option (Mode × Text) :=
  if m.escaped then if isAscii c then some (⟨m.quote, false⟩, [c]) else none
  else if c = '\\' ∧ m.quote ≠ some '\'' then some (⟨m.quote, true⟩, [])
  else if m.quote.isSome then if m.quote = some c then some (plain, []) else some (m, [c])
  else if c = '\'' ∨ c = '"' then some (quoted c, [])
  else if isAsciiWhitespace c || isOperatorStart c then none
  else some (m, [c])

def run? : Mode → Text → Option (Mode × Text)
  | m, [] => some (m, [])
  | m, c :: text => do
    let (m', v) ← m.read? c
    let (last, w) ← run? m' text
    some (last, v ++ w)

theorem run?_cons {last : Mode} {value : Text} (h : m.run? (c :: text) = some (last, value)) :
    ∃ m' v w, m.read? c = some (m', v) ∧ m'.run? text = some (last, w) ∧ value = v ++ w := by
  obtain ⟨⟨m', v⟩, hread, h⟩ := Option.bind_eq_some_iff.mp h
  obtain ⟨⟨last', w⟩, hrun, h⟩ := Option.bind_eq_some_iff.mp h
  cases h
  exact ⟨m', v, w, hread, hrun, rfl⟩

theorem run?_eq_cons {last : Mode} {w : Text} (hread : m.read? c = some (m', v))
    (hrun : m'.run? text = some (last, w)) : m.run? (c :: text) = some (last, v ++ w) := by
  simp [run?, hread, hrun]

/-- The quotes of a shell. -/
def Proper (m : Mode) : Prop :=
  m.quote = none ∨ m.quote = some '\'' ∨ m.quote = some '"'

theorem read?_cases (h : m.read? c = some (m', v)) :
    (m.escaped = true ∧ isAscii c = true ∧ m' = ⟨m.quote, false⟩ ∧ v = [c]) ∨
    (m.escaped = false ∧ (c = '\\' ∧ m.quote ≠ some '\'') ∧ m' = ⟨m.quote, true⟩ ∧ v = []) ∨
    (m.escaped = false ∧ m.quote = some c ∧ m' = plain ∧ v = []) ∨
    (m.escaped = false ∧ ¬ (c = '\\' ∧ m.quote ≠ some '\'') ∧ m.quote.isSome = true ∧
      m.quote ≠ some c ∧ m' = m ∧ v = [c]) ∨
    (m.escaped = false ∧ m.quote = none ∧ (c = '\'' ∨ c = '"') ∧ m' = quoted c ∧ v = []) ∨
    (m.escaped = false ∧ m.quote = none ∧ c ≠ '\\' ∧ ¬ (c = '\'' ∨ c = '"') ∧
      isAsciiWhitespace c = false ∧ isOperatorStart c = false ∧ m' = m ∧ v = [c]) := by
  unfold read? at h
  split_ifs at h with hescaped hascii hslash hquoted hsame hmark hend
  all_goals cases h
  · exact .inl ⟨hescaped, hascii, rfl, rfl⟩
  all_goals rw [Bool.not_eq_true] at hescaped
  · exact .inr (.inl ⟨hescaped, hslash, rfl, rfl⟩)
  · exact .inr (.inr (.inl ⟨hescaped, hsame, rfl, rfl⟩))
  · exact .inr (.inr (.inr (.inl ⟨hescaped, hslash, hquoted, hsame, rfl, rfl⟩)))
  all_goals have hnone : m.quote = none := Option.not_isSome_iff_eq_none.mp hquoted
  · exact .inr (.inr (.inr (.inr (.inl ⟨hescaped, hnone, hmark, rfl, rfl⟩))))
  · obtain ⟨hspace, hoperator⟩ : isAsciiWhitespace c = false ∧ isOperatorStart c = false := by
      simpa using hend
    have hback : c ≠ '\\' := fun hc => hslash ⟨hc, by simp [hnone]⟩
    exact .inr (.inr (.inr (.inr (.inr
      ⟨hescaped, hnone, hback, hmark, hspace, hoperator, rfl, rfl⟩))))

theorem ne_of_not_ascii (hascii : isAscii c = false) : c ≠ '\'' ∧ c ≠ '"' ∧ c ≠ '\\' := by
  refine ⟨?_, ?_, ?_⟩
  all_goals
    rintro rfl
    cases hascii

theorem read?_not_ascii (hascii : isAscii c = false) (hproper : m.Proper)
    (h : m.read? c = some (m', v)) : m' = m ∧ v = [c] := by
  obtain ⟨hsingle, hdouble, hslash⟩ := ne_of_not_ascii hascii
  rcases read?_cases h with ⟨-, hc, -⟩ | ⟨-, ⟨hc, -⟩, -⟩ | ⟨-, hquote, -⟩ |
    ⟨-, -, -, -, hmode, hvalue⟩ | ⟨-, -, hmark, -⟩ | ⟨-, -, -, -, -, -, hmode, hvalue⟩
  · cases hascii.symm.trans hc
  · exact absurd hc hslash
  · rw [Proper, hquote] at hproper
    simp [hsingle, hdouble] at hproper
  · exact ⟨hmode, hvalue⟩
  · exact absurd hmark (not_or.mpr ⟨hsingle, hdouble⟩)
  · exact ⟨hmode, hvalue⟩

theorem Proper.read (h : m.Proper) (hread : m.read? c = some (m', v)) : m'.Proper := by
  rcases read?_cases hread with ⟨-, -, rfl, -⟩ | ⟨-, -, rfl, -⟩ | ⟨-, -, rfl, -⟩ |
    ⟨-, -, -, -, rfl, -⟩ | ⟨-, -, hmark, rfl, -⟩ | ⟨-, -, -, -, -, -, rfl, -⟩
  · exact h
  · exact h
  · exact .inl rfl
  · exact h
  · exact .inr (hmark.imp (congrArg some) (congrArg some))
  · exact h

end Mode

/-! ## Pieces of words -/

section Pieces

variable {c : Char} {cs : Text}

theorem run_single (h : '\'' ∉ cs) :
    (Mode.quoted '\'').run? (cs ++ ['\'']) = some (Mode.plain, cs) := by
  induction cs with
  | nil => rfl
  | cons c cs ih =>
    obtain ⟨hc, hcs⟩ := not_or.mp (List.mem_cons.not.mp h)
    have hread : (Mode.quoted '\'').read? c = some (Mode.quoted '\'', [c]) := by
      simp [Mode.read?, Mode.quoted, hc]
    exact Mode.run?_eq_cons hread (ih hcs)

theorem run_double (cs : Text) :
    (Mode.quoted '"').run? (cs.flatMap doubleQuoted ++ ['"']) = some (Mode.plain, cs) := by
  induction cs with
  | nil => rfl
  | cons c cs ih =>
    rw [List.flatMap_cons, List.append_assoc]
    by_cases hc : c = '"' ∨ c = '\\'
    · have hslash : (Mode.quoted '"').read? '\\' = some (⟨some '"', true⟩, []) := by
        simp [Mode.read?, Mode.quoted]
      have hread : (⟨some '"', true⟩ : Mode).read? c = some (Mode.quoted '"', [c]) := by
        rcases hc with rfl | rfl
        all_goals rfl
      rw [doubleQuoted, if_pos hc]
      exact Mode.run?_eq_cons hslash (Mode.run?_eq_cons hread ih)
    · have hread : (Mode.quoted '"').read? c = some (Mode.quoted '"', [c]) := by
        obtain ⟨hquote, hslash⟩ := not_or.mp hc
        simp [Mode.read?, Mode.quoted, hslash, Ne.symm hquote]
      rw [doubleQuoted, if_neg hc]
      exact Mode.run?_eq_cons hread ih

theorem read_safe (h : isSafe c = true) : Mode.plain.read? c = some (Mode.plain, [c]) := by
  have hsafe : ((((isAsciiWhitespace c = false ∧ isOperatorStart c = false) ∧ ¬ c = '\'') ∧
      ¬ c = '"') ∧ ¬ c = '\\') ∧ ¬ c = '\x00' := by simpa [isSafe] using h
  obtain ⟨⟨⟨⟨⟨hspace, hoperator⟩, hsingle⟩, hdouble⟩, hslash⟩, -⟩ := hsafe
  simp [Mode.read?, Mode.plain, hspace, hoperator, hsingle, hdouble, hslash]

theorem Piece.text_ne_nil (piece : Piece) : piece.text ≠ [] := by
  cases piece with
  | bare c => exact List.cons_ne_nil _ _
  | escaped c => exact List.cons_ne_nil _ _
  | single cs => exact List.cons_ne_nil _ _
  | double cs => exact List.cons_ne_nil _ _

/-- Every way to write a character is read back, but for an escape in front of one that is not
ASCII. -/
theorem run_piece {piece : Piece} (hwritten : piece.Written)
    (hascii : ∀ c, piece = .escaped c → isAscii c = true) :
    Mode.plain.run? piece.text = some (Mode.plain, piece.value) := by
  cases piece with
  | bare c => exact Mode.run?_eq_cons (read_safe hwritten) rfl
  | escaped c =>
    have hread : (⟨none, true⟩ : Mode).read? c = some (Mode.plain, [c]) := by
      simp [Mode.read?, Mode.plain, hascii c rfl]
    have hrun : (⟨none, true⟩ : Mode).run? [c] = some (Mode.plain, [c]) :=
      Mode.run?_eq_cons hread rfl
    exact Mode.run?_eq_cons (v := []) rfl hrun
  | single cs => exact Mode.run?_eq_cons (v := []) rfl (run_single hwritten.1)
  | double cs => exact Mode.run?_eq_cons (v := []) rfl (run_double cs)

end Pieces

/-! ## The scanner as a reader -/

namespace Scan

variable {s t u : Scan} {m : Mode} {c : Char} {v w text : Text}

def mode (s : Scan) : Mode := ⟨s.quote, s.escaped⟩

/-- Some characters go into the open token. -/
structure Reads (s : Scan) (value : Text) (t : Scan) : Prop where
  tokens : t.tokens = s.tokens
  commandStart : t.commandStart = s.commandStart
  value : t.value = s.value ++ value
  tokenStart : t.tokenStart.isSome = true

theorem Reads.trans (h : s.Reads v t) (h' : t.Reads w u) : s.Reads (v ++ w) u :=
  ⟨h'.tokens.trans h.tokens, h'.commandStart.trans h.commandStart,
    by rw [h'.value, h.value, List.append_assoc], h'.tokenStart⟩

/-- A token is open between quotes and behind a backslash. -/
structure Inside (s : Scan) : Prop where
  proper : s.mode.Proper
  opened : s.quote.isSome = true ∨ s.escaped = true → s.tokenStart.isSome = true

/-- A character that is not ASCII is read in every mode, and none of them ends at it. -/
theorem turn_not_ascii (hascii : isAscii c = false) :
    (s.turn c).mode = s.mode ∧ s.Reads [c] (s.turn c) := by
  simp only [turn, step, hascii]
  exact ⟨rfl, rfl, rfl, rfl, rfl⟩

theorem turn_read (hread : s.mode.read? c = some (m, v)) (hinside : s.Inside) :
    (s.turn c).mode = m ∧ s.Reads v (s.turn c) := by
  by_cases hascii : isAscii c = true
  · rcases Mode.read?_cases hread with ⟨hescaped, -, rfl, rfl⟩ | ⟨hescaped, hslash, rfl, rfl⟩ |
      ⟨hescaped, hquote, rfl, rfl⟩ | ⟨hescaped, hslash, hquoted, hquote, rfl, rfl⟩ |
      ⟨hescaped, hquote, hmark, rfl, rfl⟩ |
      ⟨hescaped, hquote, hslash, hmark, hspace, hoperator, rfl, rfl⟩
    · have hturn : s.turn c = ({ s with escaped := false }.push c).advance 1 := by
        simp_all [turn, step, mode]
      rw [hturn]
      exact ⟨rfl, rfl, rfl, rfl, hinside.opened (.inr hescaped)⟩
    all_goals change s.escaped = false at hescaped
    · obtain ⟨rfl, hquote⟩ := hslash
      have hturn : s.turn '\\' = { s.openToken with escaped := true }.advance 1 := by
        simp_all [turn, step, mode]
      rw [hturn]
      exact ⟨rfl, rfl, rfl, (List.append_nil _).symm, rfl⟩
    · change s.quote = some c at hquote
      have hslash : ¬ (c = '\\' ∧ ¬ c = '\'') := by
        rintro ⟨rfl, -⟩
        have hproper := hinside.proper
        rw [Mode.Proper, mode, hquote] at hproper
        simp at hproper
      have hturn : s.turn c = { s with quote := none }.advance 1 := by
        simp [turn, step, hascii, hescaped, hquote, hslash]
      rw [hturn]
      exact ⟨by simp [mode, advance, hescaped, Mode.plain], rfl, rfl, (List.append_nil _).symm,
        hinside.opened (.inl (hquote ▸ rfl))⟩
    · change s.quote.isSome = true at hquoted
      change s.quote ≠ some c at hquote
      have hslash : ¬ (c = '\\' ∧ ¬ s.quote = some '\'') := hslash
      have hturn : s.turn c = (s.push c).advance 1 := by
        simp [turn, step, hascii, hescaped, hquoted, hquote, hslash]
      rw [hturn]
      exact ⟨rfl, rfl, rfl, rfl, hinside.opened (.inl hquoted)⟩
    · change s.quote = none at hquote
      have hturn : s.turn c = { s.openToken with quote := some c }.advance 1 := by
        rcases hmark with rfl | rfl
        · simp [turn, step, hquote, hescaped, isAscii]
        · simp [turn, step, hquote, hescaped, isAscii]
      rw [hturn]
      exact ⟨by simp [mode, advance, openToken, hescaped, Mode.quoted], rfl, rfl,
        (List.append_nil _).symm, rfl⟩
    · change s.quote = none at hquote
      have hturn : s.turn c = (s.openToken.push c).advance 1 := by
        obtain ⟨hsingle, hdouble⟩ := not_or.mp hmark
        simp [turn, step, hascii, hquote, hescaped, hslash, hsingle, hdouble, hspace, hoperator]
      rw [hturn]
      exact ⟨rfl, rfl, rfl, rfl, rfl⟩
  · rw [Bool.not_eq_true] at hascii
    obtain ⟨rfl, rfl⟩ := Mode.read?_not_ascii hascii hinside.proper hread
    exact turn_not_ascii hascii

theorem foldl_run (hrun : s.mode.run? text = some (m, v)) (hinside : s.Inside)
    (hopen : text ≠ [] ∨ s.tokenStart.isSome = true) :
    (text.foldl turn s).mode = m ∧ s.Reads v (text.foldl turn s) := by
  induction text generalizing s v with
  | nil =>
    cases hrun
    exact ⟨rfl, rfl, rfl, (List.append_nil _).symm, hopen.resolve_left (absurd rfl)⟩
  | cons c text ih =>
    obtain ⟨m', v', w, hread, hrest, rfl⟩ := Mode.run?_cons hrun
    obtain ⟨hmode, hreads⟩ := turn_read hread hinside
    obtain ⟨hlast, hmore⟩ := ih (hmode ▸ hrest)
      ⟨hmode ▸ hinside.proper.read hread, fun _ => hreads.tokenStart⟩ (.inr hreads.tokenStart)
    exact ⟨hlast, hreads.trans hmore⟩

theorem Inside.of_mode {pending : Bool} (hmode : s.mode = ⟨none, pending⟩)
    (hopen : pending = true → s.tokenStart.isSome = true) : s.Inside := by
  obtain ⟨hquote, hescaped⟩ := Mode.mk.inj hmode
  refine ⟨.inl (congrArg Mode.quote hmode), ?_⟩
  rintro (h | h)
  · rw [hquote] at h
    cases h
  · exact hopen (hescaped.symm.trans h)

theorem foldl_piece {piece : Piece} {pending pending' : Bool} (hwritten : piece.Written)
    (hnext : piece.next pending = some pending') (hmode : s.mode = ⟨none, pending⟩)
    (hopen : pending = true → s.tokenStart.isSome = true) :
    (piece.text.foldl turn s).mode = ⟨none, pending'⟩ ∧
      s.Reads piece.value (piece.text.foldl turn s) := by
  have hinside := Inside.of_mode hmode hopen
  cases pending with
  | false =>
    by_cases hascii : ∀ c, piece = .escaped c → isAscii c = true
    · have hplain : pending' = false := by
        cases piece with
        | escaped c =>
          cases hnext
          simp [hascii c rfl]
        | bare c => cases hnext; rfl
        | single cs => cases hnext; rfl
        | double cs => cases hnext; rfl
      rw [hplain]
      have hrun : s.mode.run? piece.text = some (Mode.plain, piece.value) := by
        rw [hmode]
        exact run_piece hwritten hascii
      exact foldl_run hrun hinside (.inl piece.text_ne_nil)
    · push Not at hascii
      obtain ⟨c, rfl, hascii⟩ := hascii
      have hascii : isAscii c = false := Bool.eq_false_of_not_eq_true hascii
      cases hnext
      obtain ⟨hslash, hfirst⟩ :=
        turn_read (s := s) (c := '\\') (m := ⟨none, true⟩) (v := []) (hmode ▸ rfl) hinside
      obtain ⟨hlast, hsecond⟩ := turn_not_ascii (s := s.turn '\\') hascii
      rw [hascii]
      exact ⟨hlast.trans hslash, hfirst.trans hsecond⟩
  | true =>
    cases piece with
    | bare c =>
      cases hnext
      by_cases hascii : isAscii c = true
      · have hread : s.mode.read? c = some (Mode.plain, [c]) := by
          simp [hmode, Mode.read?, hascii, Mode.plain]
        rw [hascii]
        exact turn_read hread hinside
      · rw [Bool.not_eq_true] at hascii
        rw [hascii]
        exact ⟨(turn_not_ascii hascii).1.trans hmode, (turn_not_ascii hascii).2⟩
    | escaped c =>
      rw [Piece.next] at hnext
      split_ifs at hnext with hc
      cases hnext
      rw [hc]
      obtain ⟨hplain, hfirst⟩ :=
        turn_read (s := s) (c := '\\') (m := Mode.plain) (v := ['\\']) (hmode ▸ rfl) hinside
      have hopened : (s.turn '\\').Inside :=
        Inside.of_mode hplain fun _ => hfirst.tokenStart
      obtain ⟨hlast, hsecond⟩ := turn_read (s := s.turn '\\') (c := '\\') (m := ⟨none, true⟩)
        (v := []) (hplain ▸ rfl) hopened
      exact ⟨hlast, hfirst.trans hsecond⟩
    | single cs => cases hnext
    | double cs => cases hnext

theorem foldl_pieces {pieces : List Piece} {pending pending' : Bool}
    (hwritten : ∀ piece ∈ pieces, piece.Written)
    (hnext : pieces.foldlM Piece.next pending = some pending')
    (hmode : s.mode = ⟨none, pending⟩)
    (hopen : (pieces = [] ∨ pending = true) → s.tokenStart.isSome = true) :
    ((pieces.flatMap Piece.text).foldl turn s).mode = ⟨none, pending'⟩ ∧
      s.Reads (pieces.flatMap Piece.value) ((pieces.flatMap Piece.text).foldl turn s) := by
  induction pieces generalizing s pending with
  | nil =>
    cases hnext
    exact ⟨hmode, rfl, rfl, (List.append_nil _).symm, hopen (.inl rfl)⟩
  | cons piece pieces ih =>
    rw [List.foldlM_cons] at hnext
    obtain ⟨middle, hpiece, hrest⟩ := Option.bind_eq_some_iff.mp hnext
    obtain ⟨hfirst, hreads⟩ := foldl_piece (hwritten piece List.mem_cons_self) hpiece hmode
      fun h => hopen (.inr h)
    rw [List.flatMap_cons, List.flatMap_cons, List.foldl_append]
    obtain ⟨hlast, hmore⟩ := ih (fun p hp => hwritten p (List.mem_cons_of_mem _ hp)) hrest hfirst
      fun _ => hreads.tokenStart
    exact ⟨hlast, hreads.trans hmore⟩

end Scan

end BashGuess
