import SynOSStudio.BashGuess.LineReading

/-!
# Words that are not read as written

An escape that stays open takes a quote for itself. From then on the scanner is ahead of the word:
it has read quotes and backslashes that the word does not have at that place, and never comes back.
-/

namespace BashGuess

/-! ## A reader that is ahead of another -/

namespace Mode

variable {a b m m' : Mode} {ahead v w text : Text} {c q : Char}

def IsMark (c : Char) : Prop := c = '\'' ∨ c = '"' ∨ c = '\\'

/-- Whether the reader is between quotes of a kind, as a number. -/
def inside (m : Mode) (q : Char) : ℕ := if m.quote = some q then 1 else 0

theorem IsMark.ascii (h : IsMark c) : isAscii c = true := by
  rcases h with rfl | rfl | rfl
  all_goals rfl

/-- Every mark is read, in every mode. -/
theorem exists_read? (b : Mode) (h : IsMark c) : ∃ m w, b.read? c = some (m, w) := by
  have hspace : (isAsciiWhitespace c || isOperatorStart c) = false := by
    rcases h with rfl | rfl | rfl
    all_goals rfl
  unfold read?
  simp only [h.ascii, hspace, if_true, Bool.false_eq_true, if_false]
  split_ifs
  all_goals exact ⟨_, _, rfl⟩

/-- What is not read as text is a mark. -/
theorem read?_value (hproper : m.Proper) (h : m.read? c = some (m', v)) :
    v = [] ∧ IsMark c ∨ v = [c] := by
  rcases read?_cases h with ⟨-, -, -, hv⟩ | ⟨-, ⟨hslash, -⟩, -, hv⟩ | ⟨-, hquote, -, hv⟩ |
    ⟨-, -, -, -, -, hv⟩ | ⟨-, -, hmark, -, hv⟩ | ⟨-, -, -, -, -, -, -, hv⟩
  · exact .inr hv
  · exact .inl ⟨hv, .inr (.inr hslash)⟩
  · rw [Proper, hquote] at hproper
    have hmark : c = '\'' ∨ c = '"' := by simpa using hproper
    exact .inl ⟨hv, hmark.imp_right .inl⟩
  · exact .inr hv
  · exact .inl ⟨hv, hmark.imp_right .inl⟩
  · exact .inr hv

/-- A quote is either read as text or it opens or closes. -/
theorem inside_read? (hq : q = '\'' ∨ q = '"') (h : m.read? c = some (m', v)) :
    (m'.inside q + v.count q) % 2 = (m.inside q + [c].count q) % 2 := by
  rcases read?_cases h with ⟨-, -, rfl, rfl⟩ | ⟨-, ⟨rfl, -⟩, rfl, rfl⟩ | ⟨-, hquote, rfl, rfl⟩ |
    ⟨-, -, -, -, rfl, rfl⟩ | ⟨-, hquote, -, rfl, rfl⟩ | ⟨-, -, -, -, -, -, rfl, rfl⟩
  · rfl
  · rcases hq with rfl | rfl
    · rfl
    · rfl
  · by_cases hc : c = q
    · simp [inside, plain, hquote, hc]
    · simp [inside, plain, hquote, hc]
  · rfl
  · by_cases hc : c = q
    · simp [inside, quoted, hquote, hc]
    · simp [inside, quoted, hquote, hc]
  · rfl

theorem escaped_of_read? (h : m.read? c = some (m', v)) (hescaped : m'.escaped = true) :
    m.escaped = false ∧ c = '\\' ∧ m.quote ≠ some '\'' ∧ v = [] ∧ m'.quote = m.quote := by
  rcases read?_cases h with ⟨-, -, rfl, -⟩ | ⟨hm, ⟨hslash, hquote⟩, rfl, hv⟩ | ⟨-, -, rfl, -⟩ |
    ⟨hm, -, -, -, rfl, -⟩ | ⟨-, -, -, rfl, -⟩ | ⟨hm, -, -, -, -, -, rfl, -⟩
  · cases hescaped
  · exact ⟨hm, hslash, hquote, hv, rfl⟩
  · cases hescaped
  · cases hm.symm.trans hescaped
  · cases hescaped
  · cases hm.symm.trans hescaped

/-- A backslash is text between single quotes only. -/
theorem slash_of_read? (h : m.read? '\\' = some (m', v)) (hm : m.escaped = false)
    (hescaped : m'.escaped = false) : m.quote = some '\'' ∧ m' = m ∧ v = ['\\'] := by
  by_cases hquote : m.quote = some '\''
  · have hread : m.read? '\\' = some (m, ['\\']) := by simp [read?, hm, hquote]
    cases hread.symm.trans h
    exact ⟨hquote, rfl, rfl⟩
  · have hread : m.read? '\\' = some (⟨m.quote, true⟩, []) := by simp [read?, hm, hquote]
    cases hread.symm.trans h
    cases hescaped

/-- The second reader has read some marks that the first one has not, as in `ahead`. -/
structure Lead (a b : Mode) (ahead : Text) : Prop where
  nonempty : ahead ≠ []
  marks : ∀ c ∈ ahead, IsMark c
  properFirst : a.Proper
  properSecond : b.Proper
  quotes : ∀ q, q = '\'' ∨ q = '"' → (ahead.count q + a.inside q + b.inside q) % 2 = 0
  firstEscaped : a.escaped = true → b.escaped = false →
    b.quote = some '\'' ∧ ahead.getLast? = some '\\'
  secondEscaped : b.escaped = true → a.escaped = false → a.quote = some '\''

/-- The second reader is not caught up by reading what it has read before. -/
theorem Lead.not_caught {m m' : Mode} (h : Lead a b [c]) (hfirst : a.read? c = some (m, [c]))
    (hsecond : b.read? c = some (m', [])) : False := by
  have hsingle := h.quotes '\'' (.inl rfl)
  have hdouble := h.quotes '"' (.inr rfl)
  have hescaped : b.escaped = false := by
    by_contra hb
    rw [Bool.not_eq_false] at hb
    have hmark := h.marks c (List.mem_singleton_self c)
    simp [read?, hb, hmark.ascii] at hsecond
  by_cases ha : a.escaped = true
  · obtain ⟨hquote, hlast⟩ := h.firstEscaped ha hescaped
    obtain rfl : c = '\\' := by simpa using hlast
    simp [read?, hescaped, hquote] at hsecond
  · rw [Bool.not_eq_true] at ha
    rcases h.marks c (List.mem_singleton_self c) with rfl | rfl | rfl
    all_goals
      rcases h.properFirst with hquote | hquote | hquote
      all_goals
        simp [read?, ha, hquote] at hfirst
      all_goals
        rcases h.properSecond with hother | hother | hother
        all_goals
          simp [read?, hescaped, hother, inside, hquote] at hsecond hsingle hdouble

/-- The second reader stays ahead, unless the first one reads what the second one has not. -/
theorem Lead.read (h : Lead a b ahead) (hread : a.read? c = some (m, v)) :
    (v = [c] ∧ ahead.head? ≠ some c) ∨
      ∃ m' w rest, b.read? c = some (m', w) ∧ v ++ rest = ahead ++ w ∧ Lead m m' rest := by
  by_cases hclash : v = [c] ∧ ahead.head? ≠ some c
  · exact .inl hclash
  obtain ⟨hmark, rest, hrest⟩ : IsMark c ∧ ∃ rest, ∀ w, v ++ (rest ++ w) = ahead ++ w := by
    rcases read?_value h.properFirst hread with ⟨rfl, hmark⟩ | rfl
    · exact ⟨hmark, ahead, fun w => rfl⟩
    · have hhead : ahead.head? = some c := by
        by_contra hhead
        exact hclash ⟨rfl, hhead⟩
      obtain ⟨rest, rfl⟩ := List.head?_eq_some_iff.mp hhead
      exact ⟨h.marks c List.mem_cons_self, rest, fun w => rfl⟩
  obtain ⟨m', w, hsecond⟩ := exists_read? b hmark
  have hcount (q : Char) : v.count q + (rest ++ w).count q = ahead.count q + w.count q := by
    rw [← List.count_append, ← List.count_append, hrest]
  refine .inr ⟨m', w, rest ++ w, hsecond, hrest w, ?_, ?_, h.properFirst.read hread,
    h.properSecond.read hsecond, ?_, ?_, ?_⟩
  · intro hnil
    obtain ⟨rfl, rfl⟩ := List.append_eq_nil_iff.mp hnil
    have hahead : v = ahead := by simpa using hrest []
    rcases read?_value h.properFirst hread with ⟨rfl, -⟩ | rfl
    · exact h.nonempty hahead.symm
    · exact (hahead ▸ h).not_caught hread hsecond
  · intro d hd
    have hmem : d ∈ ahead ++ w := by
      rw [← hrest]
      exact List.mem_append_right _ hd
    rcases List.mem_append.mp hmem with hd | hd
    · exact h.marks d hd
    · rcases read?_value h.properSecond hsecond with ⟨rfl, -⟩ | rfl
      · cases hd
      · rw [List.mem_singleton.mp hd]
        exact hmark
  · intro q hq
    have hbefore := h.quotes q hq
    have hfirst := inside_read? hq hread
    have hother := inside_read? hq hsecond
    have htotal := hcount q
    omega
  · intro hm hm'
    obtain ⟨ha, rfl, hquote, rfl, -⟩ := escaped_of_read? hread hm
    have hb : b.escaped = false := by
      by_contra hb
      exact hquote (h.secondEscaped (Bool.eq_true_of_not_eq_false hb) ha)
    obtain ⟨hsingle, rfl, rfl⟩ := slash_of_read? hsecond hb hm'
    have hlast := hrest ['\\']
    rw [List.nil_append] at hlast
    rw [hlast]
    exact ⟨hsingle, by simp⟩
  · intro hm' hm
    obtain ⟨hb, rfl, hquote, rfl, -⟩ := escaped_of_read? hsecond hm'
    have ha : a.escaped = false := by
      by_contra ha
      exact hquote (h.firstEscaped (Bool.eq_true_of_not_eq_false ha) hb).1
    obtain ⟨hsingle, rfl, -⟩ := slash_of_read? hread ha hm
    exact hsingle

end Mode

/-! ## Tokens that are not their words -/

namespace Scan

variable {s : Scan} {a m : Mode} {i : ℕ} {c : Char} {read v ahead text : Text}

theorem holds_foldl (h : s.Holds i v) (text : Text) : (text.foldl turn s).Holds i v := by
  induction text generalizing s with
  | nil => exact h
  | cons c text ih => exact ih h.turn

/-- The token starts with something that the word does not start with. -/
def Misses (i : ℕ) (read : Text) (s : Scan) : Prop :=
  ∃ wrong, s.Holds i wrong ∧ ∀ rest, ¬ wrong <+: read ++ rest

theorem Misses.foldl (h : s.Misses i read) (text : Text) : (text.foldl turn s).Misses i read :=
  h.imp fun _ h => ⟨holds_foldl h.1 text, h.2⟩

theorem Misses.append (h : s.Misses i read) (more : Text) : s.Misses i (read ++ more) := by
  obtain ⟨wrong, hholds, hwrong⟩ := h
  refine ⟨wrong, hholds, fun rest => ?_⟩
  rw [List.append_assoc]
  exact hwrong (more ++ rest)

/-- The open token is ahead of the word, of which some characters are read. -/
structure Ahead (i : ℕ) (a : Mode) (read ahead : Text) (s : Scan) : Prop where
  length : s.tokens.length = i
  opened : s.tokenStart.isSome = true
  value : s.value = read ++ ahead
  lead : Mode.Lead a s.mode ahead

theorem Ahead.inside (h : s.Ahead i a read ahead) : s.Inside :=
  ⟨h.lead.properSecond, fun _ => h.opened⟩

theorem Ahead.holds (h : s.Ahead i a read ahead) : s.Holds i (read ++ ahead) :=
  .inr ⟨h.length, h.opened, h.value ▸ List.prefix_rfl⟩

/-- The word goes on with a character, and the token with another. -/
theorem Ahead.misses (h : s.Ahead i a read ahead) (hhead : ahead.head? ≠ some c) :
    s.Misses i (read ++ [c]) := by
  refine ⟨read ++ ahead, h.holds, fun rest hprefix => ?_⟩
  rw [List.append_assoc, List.prefix_append_right_inj] at hprefix
  cases hahead : ahead with
  | nil => exact h.lead.nonempty hahead
  | cons d ahead =>
    rw [hahead] at hprefix hhead
    exact hhead (congrArg some (List.cons_prefix_cons.mp hprefix).1)

theorem Ahead.run (h : s.Ahead i a read ahead) (hrun : a.run? text = some (m, v)) :
    (text.foldl turn s).Misses i (read ++ v) ∨
      ∃ ahead, (text.foldl turn s).Ahead i m (read ++ v) ahead := by
  induction text generalizing s a read ahead v with
  | nil =>
    cases hrun
    exact .inr ⟨ahead, by rwa [List.append_nil]⟩
  | cons c text ih =>
    obtain ⟨m', v, w, hread, hrest, rfl⟩ := Mode.run?_cons hrun
    rcases h.lead.read hread with ⟨rfl, hhead⟩ | ⟨b, u, rest, hturn, hvalue, hlead⟩
    · rw [← List.append_assoc]
      exact .inl (((h.misses hhead).append w).foldl (c :: text))
    · obtain ⟨hmode, hreads⟩ := turn_read hturn h.inside
      have hahead : (s.turn c).Ahead i m' (read ++ v) rest := by
        refine ⟨?_, hreads.tokenStart, ?_, hmode.symm ▸ hlead⟩
        · rw [hreads.tokens, h.length]
        · rw [hreads.value, h.value, List.append_assoc, ← hvalue, List.append_assoc]
      rw [← List.append_assoc]
      exact ih hahead hrest

section Words

variable {piece : Piece} {pieces : List Piece}

theorem Ahead.read_piece (h : s.Ahead i Mode.plain read ahead) (hwritten : piece.Written) :
    (piece.text.foldl turn s).Misses i (read ++ piece.value) ∨
      ∃ ahead, (piece.text.foldl turn s).Ahead i Mode.plain (read ++ piece.value) ahead := by
  by_cases hascii : ∀ c, piece = .escaped c → isAscii c = true
  · exact h.run (run_piece hwritten hascii)
  · push Not at hascii
    obtain ⟨c, rfl, hascii⟩ := hascii
    -- The word has its own character here, and what is ahead of it are marks.
    refine .inl (Misses.foldl (s := s) (h.misses fun hhead => hascii ?_) _)
    exact (h.lead.marks c (List.mem_of_mem_head? hhead)).ascii

theorem Ahead.read_pieces (h : s.Ahead i Mode.plain read ahead)
    (hwritten : ∀ piece ∈ pieces, piece.Written) :
    ((pieces.flatMap Piece.text).foldl turn s).Misses i (read ++ pieces.flatMap Piece.value) ∨
      ∃ ahead, ((pieces.flatMap Piece.text).foldl turn s).Ahead i Mode.plain
        (read ++ pieces.flatMap Piece.value) ahead := by
  induction pieces generalizing s read ahead with
  | nil => exact .inr ⟨ahead, by simpa using h⟩
  | cons piece pieces ih =>
    rw [List.flatMap_cons, List.flatMap_cons, List.foldl_append, ← List.append_assoc]
    rcases h.read_piece (hwritten piece List.mem_cons_self) with hmisses | ⟨ahead, hahead⟩
    · exact .inl ((hmisses.append _).foldl _)
    · exact ih hahead fun p hp => hwritten p (List.mem_cons_of_mem _ hp)

/-- An open escape takes the first quote of a quoted piece. -/
theorem ahead_of_quote (hmode : s.mode = ⟨none, true⟩) (hopen : s.tokenStart.isSome = true)
    (hlength : s.tokens.length = i) (hvalue : s.value = read) (hc : c = '\'' ∨ c = '"') :
    (s.turn c).Ahead i (Mode.quoted c) read [c] := by
  have hinside : s.Inside := Inside.of_mode hmode fun _ => hopen
  have hread : s.mode.read? c = some (Mode.plain, [c]) := by
    rw [hmode]
    rcases hc with rfl | rfl
    · rfl
    · rfl
  obtain ⟨hplain, hreads⟩ := turn_read hread hinside
  refine ⟨by rw [hreads.tokens, hlength], hreads.tokenStart, by rw [hreads.value, hvalue], ?_⟩
  rw [hplain]
  refine ⟨List.cons_ne_nil _ _, ?_, .inr (hc.imp (congrArg some) (congrArg some)), .inl rfl, ?_,
    nofun, nofun⟩
  · intro d hd
    rw [List.mem_singleton.mp hd]
    exact hc.imp_right .inl
  · rintro q (rfl | rfl)
    all_goals
      rcases hc with rfl | rfl
      all_goals rfl

/-- What becomes of a word that is not harmless: its token is wrong, or ahead of it, or an escape
is open at its end. -/
def Spoilt (i : ℕ) (read : Text) (s : Scan) : Prop :=
  s.Misses i read ∨ (∃ ahead, s.Ahead i Mode.plain read ahead) ∨
    s.mode = ⟨none, true⟩ ∧ s.tokenStart.isSome = true ∧ s.tokens.length = i ∧ s.value = read

theorem spoilt_of_quote {text : Text} (hwritten : ∀ piece ∈ pieces, piece.Written)
    (hmode : s.mode = ⟨none, true⟩) (hopen : s.tokenStart.isSome = true)
    (hlength : s.tokens.length = i) (hvalue : s.value = read) (hc : c = '\'' ∨ c = '"')
    (hrun : (Mode.quoted c).run? text = some (Mode.plain, v)) :
    ((text ++ pieces.flatMap Piece.text).foldl turn (s.turn c)).Spoilt i
      (read ++ (v ++ pieces.flatMap Piece.value)) := by
  rw [List.foldl_append, ← List.append_assoc]
  rcases (ahead_of_quote hmode hopen hlength hvalue hc).run hrun with hmisses | ⟨ahead, hahead⟩
  · exact .inl ((hmisses.append _).foldl _)
  · exact (hahead.read_pieces hwritten).imp id .inl

theorem spoilt_pieces {pending : Bool} (hwritten : ∀ piece ∈ pieces, piece.Written)
    (hharm : pieces.foldlM Piece.next pending ≠ some false) (hmode : s.mode = ⟨none, pending⟩)
    (hopen : pending = true → s.tokenStart.isSome = true) (hlength : s.tokens.length = i)
    (hvalue : s.value = read) :
    ((pieces.flatMap Piece.text).foldl turn s).Spoilt i (read ++ pieces.flatMap Piece.value) := by
  induction pieces generalizing s pending read with
  | nil =>
    have hpending : pending = true := by
      cases pending with
      | false => exact absurd rfl hharm
      | true => rfl
    rw [hpending] at hmode
    exact .inr (.inr ⟨hmode, hopen hpending, hlength, by simpa using hvalue⟩)
  | cons piece pieces ih =>
    have hrest : ∀ p ∈ pieces, p.Written := fun p hp => hwritten p (List.mem_cons_of_mem _ hp)
    rw [List.flatMap_cons, List.flatMap_cons]
    cases hnext : piece.next pending with
    | some pending' =>
      obtain ⟨hlast, hreads⟩ := foldl_piece (hwritten piece List.mem_cons_self) hnext hmode hopen
      have htail : pieces.foldlM Piece.next pending' ≠ some false := by
        rw [List.foldlM_cons, hnext] at hharm
        exact hharm
      rw [List.foldl_append, ← List.append_assoc]
      exact ih hrest htail hlast (fun _ => hreads.tokenStart) (by rw [hreads.tokens, hlength])
        (by rw [hreads.value, hvalue])
    | none =>
      cases pending with
      | false =>
        cases piece with
        | bare c => cases hnext
        | escaped c => cases hnext
        | single cs => cases hnext
        | double cs => cases hnext
      | true =>
        have hwrittenPiece := hwritten piece List.mem_cons_self
        cases piece with
        | bare c => cases hnext
        | escaped c =>
          -- The backslash goes into the token, and the word goes on with another character.
          have hc : c ≠ '\\' := by
            intro hc
            rw [Piece.next, if_pos hc] at hnext
            cases hnext
          obtain ⟨-, hreads⟩ := turn_read (s := s) (c := '\\') (m := Mode.plain) (v := ['\\'])
            (hmode ▸ rfl) (Inside.of_mode hmode hopen)
          have hmisses : (s.turn '\\').Misses i (read ++ [c]) := by
            refine ⟨read ++ ['\\'], .inr ⟨by rw [hreads.tokens, hlength], hreads.tokenStart, ?_⟩,
              fun rest hprefix => ?_⟩
            · rw [hreads.value, hvalue]
            · rw [List.append_assoc, List.prefix_append_right_inj] at hprefix
              exact hc (List.cons_prefix_cons.mp hprefix).1.symm
          rw [← List.append_assoc]
          exact .inl ((hmisses.append _).foldl (c :: pieces.flatMap Piece.text))
        | single cs =>
          exact spoilt_of_quote hrest hmode (hopen rfl) hlength hvalue (.inl rfl)
            (run_single hwrittenPiece.1)
        | double cs =>
          exact spoilt_of_quote hrest hmode (hopen rfl) hlength hvalue (.inr rfl) (run_double cs)

/-- However the line goes on behind a word that is spoilt, the word is not read. -/
theorem Spoilt.finished (h : s.Spoilt i read) {rest : Text}
    (hrest : ∀ c, rest.head? = some c → isAscii c = true) :
    ∃ token, (scan rest s).finish.tokens[i]? = some token ∧ token.value ≠ read := by
  rcases h with ⟨wrong, hholds, hwrong⟩ | ⟨ahead, hahead⟩ | ⟨hmode, hopen, hlength, hvalue⟩
  · obtain ⟨token, htoken, hprefix⟩ := hholds.finished rest
    refine ⟨token, htoken, fun hread => hwrong [] ?_⟩
    rwa [List.append_nil, ← hread]
  · obtain ⟨token, htoken, hprefix⟩ := hahead.holds.finished rest
    refine ⟨token, htoken, fun hread => hahead.lead.nonempty ?_⟩
    rw [hread] at hprefix
    simpa using hprefix.length_le
  · obtain ⟨c, hholds⟩ : ∃ c, ∃ token, (scan rest s).finish.tokens[i]? = some token ∧
        read ++ [c] <+: token.value := by
      cases rest with
      | nil =>
        have hescaped : s.escaped = true := congrArg Mode.escaped hmode
        refine ⟨'\\', ?_⟩
        rw [scan, finish, if_pos hescaped]
        refine Holds.finishToken (s := s.push '\\') (.inr ⟨hlength, hopen, ?_⟩)
        rw [push, hvalue]
      | cons c rest =>
        have hread : s.mode.read? c = some (Mode.plain, [c]) := by
          simp [hmode, Mode.read?, hrest c rfl, Mode.plain]
        obtain ⟨-, hreads⟩ := turn_read hread (Inside.of_mode hmode fun _ => hopen)
        have hholds : (s.turn c).Holds i (read ++ [c]) := by
          refine .inr ⟨by rw [hreads.tokens, hlength], hreads.tokenStart, ?_⟩
          rw [hreads.value, hvalue]
        have hfinished := hholds.finished rest
        rw [scan_eq_foldl] at hfinished
        exact ⟨c, by rw [scan_eq_foldl]; exact hfinished⟩
    obtain ⟨token, htoken, hprefix⟩ := hholds
    refine ⟨token, htoken, fun hread => ?_⟩
    have hlength := hprefix.length_le
    rw [hread, List.length_append, List.length_singleton] at hlength
    omega

end Words

end Scan

end BashGuess
