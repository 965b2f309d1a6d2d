import SynOSStudio.BashGuess.World
import SynOSStudio.BashGuess.WordErrors

/-!
# Lines that are read as written

A line is read back, and cut at its single bars, unless an escape stays open at a character that is
not ASCII or two bars stand together.
-/

namespace BashGuess

open ByteStreams (utf8Bytes)

/-! ## Items -/

namespace Scan

variable {s : Scan} {c : Char}

/-- The values of the tokens, the open one with them. -/
def values (s : Scan) : List Text :=
  (s.finishToken s.index).tokens.map Token.value

/-- The scanner has come to the end of an item. -/
structure Between (s : Scan) : Prop where
  mode : s.mode = Mode.plain
  value : s.tokenStart = none → s.value = []

theorem between_start : Scan.start.Between := ⟨rfl, fun _ => rfl⟩

theorem values_of_none (hstart : s.tokenStart = none) : s.values = s.tokens.map Token.value := by
  simp [values, finishToken, hstart]

theorem values_of_isSome (hstart : s.tokenStart.isSome = true) :
    s.values = s.tokens.map Token.value ++ [s.value] := by
  obtain ⟨start, hstart⟩ := Option.isSome_iff_exists.mp hstart
  simp [values, finishToken, hstart]

theorem Between.finish (h : s.Between) : s.finish.tokens.map Token.value = s.values ∧
    s.finish.commandStart = s.commandStart := by
  have hescaped : s.escaped = false := congrArg Mode.escaped h.mode
  rw [Scan.finish, if_neg (Bool.not_eq_true _ ▸ hescaped)]
  exact ⟨rfl, finishToken_commandStart⟩

/-- What a separator does: the token ends. -/
structure Separates (s : Scan) (commandStart : ℕ) (t : Scan) : Prop where
  between : t.Between
  values : t.values = s.values
  tokenStart : t.tokenStart = none
  commandStart : t.commandStart = commandStart

theorem Between.finished (h : s.Between) (commandStart index : ℕ) :
    s.Separates commandStart
      { s.finishToken s.index with commandStart := commandStart, index := index } := by
  have hnone : (s.finishToken s.index).tokenStart = none := finishToken_tokenStart
  have hvalue : (s.finishToken s.index).value = [] := by
    unfold finishToken
    split
    · exact h.value ‹_›
    · rfl
  refine ⟨⟨?_, fun _ => hvalue⟩, values_of_none hnone, hnone, rfl⟩
  have hmode : (s.finishToken s.index).mode = s.mode := by
    rw [Scan.mode, finishToken_quote, finishToken_escaped, Scan.mode]
  exact hmode.trans h.mode

theorem Between.blank (h : s.Between) (hc : c = ' ' ∨ c = '\t') :
    s.Separates s.commandStart (s.turn c) := by
  obtain ⟨hquote, hescaped⟩ := Mode.mk.inj h.mode
  have hturn : s.turn c = (s.finishToken s.index).advance 1 := by
    rcases hc with rfl | rfl
    · simp [turn, step, hquote, hescaped, isAscii, isAsciiWhitespace]
    · simp [turn, step, hquote, hescaped, isAscii, isAsciiWhitespace]
  have hfinished := h.finished (s.finishToken s.index).commandStart (s.index + 1)
  rw [finishToken_commandStart] at hfinished
  rw [hturn, advance, finishToken_index, finishToken_commandStart]
  exact hfinished

theorem Between.read_operatorStart (h : s.Between) (hc : isOperatorStart c = true) :
    s.Separates s.values.length (s.turn c) := by
  obtain ⟨hquote, hescaped⟩ := Mode.mk.inj h.mode
  have hfinished := h.finished (s.finishToken s.index).tokens.length (s.index + 1)
  rw [turn, step_operator hquote hescaped hc, isDoubleOperator_none, if_neg Bool.false_ne_true,
    Scan.operator, finishToken_index, values, List.length_map]
  exact hfinished

theorem Separates.trans {t u : Scan} {m n : ℕ} (h : s.Separates m t) (h' : t.Separates n u) :
    s.Separates n u :=
  ⟨h'.between, h'.values.trans h.values, h'.tokenStart, h'.commandStart⟩

theorem Between.read_operator (h : s.Between) (operator : Operator) :
    s.Separates s.values.length (operator.text.foldl turn s) := by
  have hdouble {c : Char} (hc : isOperatorStart c = true) :
      s.Separates s.values.length ((s.turn c).turn c) := by
    have hfirst := h.read_operatorStart hc
    have hsecond := hfirst.between.read_operatorStart hc
    rw [hfirst.values] at hsecond
    exact hfirst.trans hsecond
  cases operator with
  | pipe => exact h.read_operatorStart rfl
  | or => exact hdouble rfl
  | and => exact hdouble rfl
  | semicolon => exact h.read_operatorStart rfl
  | background => exact h.read_operatorStart rfl

theorem Between.read_word {word : Word} (h : s.Between) (hstart : s.tokenStart = none)
    (hharmless : word.Harmless) :
    (word.text.foldl turn s).Between ∧
      (word.text.foldl turn s).values = s.values ++ [word.value] ∧
      (word.text.foldl turn s).commandStart = s.commandStart := by
  have hopen : word.pieces = [] ∨ false = true → s.tokenStart.isSome = true := by
    rintro (hnil | hfalse)
    · exact absurd hnil word.nonempty
    · cases hfalse
  obtain ⟨hmode, hreads⟩ := foldl_pieces word.written hharmless h.mode hopen
  have hsome : (word.text.foldl turn s).tokenStart.isSome = true := hreads.tokenStart
  refine ⟨⟨hmode, fun hnone => ?_⟩, ?_, hreads.commandStart⟩
  · rw [hnone] at hsome
    cases hsome
  · have hvalue := hreads.value
    rw [h.value hstart, List.nil_append] at hvalue
    rw [values_of_isSome hsome, values_of_none hstart]
    exact congr (congrArg HAppend.hAppend (congrArg _ hreads.tokens)) (congrArg (fun v => [v]) hvalue)

/-- No word stands first where a token is open. -/
def Follows (s : Scan) (items : List Item) : Prop :=
  s.tokenStart = none ∨ ∀ w, items.head? ≠ some (.word w)

theorem follows_of_none {items : List Item} (h : s.tokenStart = none) : s.Follows items :=
  .inl h

theorem Follows.tokenStart {word : Word} {items : List Item} (h : s.Follows (.word word :: items)) :
    s.tokenStart = none :=
  h.resolve_right fun hhead => hhead word rfl

theorem follows_word {word : Word} {items : List Item}
    (hapart : (Item.word word :: items).IsChain Item.Apart) : s.Follows items := by
  refine .inr fun w hhead => ?_
  obtain ⟨rest, rfl⟩ := List.head?_eq_some_iff.mp hhead
  exact (List.isChain_cons_cons.mp hapart).1

theorem Between.read_separator {item : Item} (h : s.Between) (hitem : item.word? = none) :
    ∃ commandStart, s.Separates commandStart (item.text.foldl turn s) ∧ ∀ items,
      lastCommand s.commandStart s.values.length (item :: items) =
        lastCommand commandStart s.values.length items := by
  cases item with
  | word word => cases hitem
  | space => exact ⟨s.commandStart, h.blank (.inl rfl), fun _ => rfl⟩
  | tab => exact ⟨s.commandStart, h.blank (.inr rfl), fun _ => rfl⟩
  | operator op => exact ⟨s.values.length, h.read_operator op, fun _ => rfl⟩

/-- A line of harmless words is read back. -/
theorem Between.read_items {items : List Item} (h : s.Between)
    (hapart : items.IsChain Item.Apart) (hfollows : s.Follows items)
    (hharmless : ∀ word ∈ wordsOf items, word.Harmless) :
    (scan (itemsText items) s).finish.tokens.map Token.value =
        s.values ++ (wordsOf items).map Word.value ∧
      (scan (itemsText items) s).finish.commandStart =
        lastCommand s.commandStart s.values.length items := by
  rw [scan_eq_foldl]
  induction items generalizing s with
  | nil =>
    rw [wordsOf, List.filterMap_nil, List.map_nil, List.append_nil]
    exact h.finish
  | cons item items ih =>
    rw [itemsText_cons, List.foldl_append]
    cases hword : item.word? with
    | some word =>
      obtain rfl := Item.eq_of_word? hword
      rw [wordsOf_word, List.forall_mem_cons] at hharmless
      obtain ⟨hbetween, hvalues, hcommand⟩ := h.read_word hfollows.tokenStart hharmless.1
      obtain ⟨htokens, hstart⟩ := ih hbetween hapart.tail (follows_word hapart) hharmless.2
      rw [hvalues, List.append_assoc] at htokens
      rw [hvalues, hcommand, List.length_append] at hstart
      exact ⟨htokens, hstart⟩
    | none =>
      obtain ⟨commandStart, hseparates, hcommand⟩ := h.read_separator hword
      rw [wordsOf_of_none hword] at hharmless ⊢
      have hitems := ih hseparates.between hapart.tail
        (follows_of_none hseparates.tokenStart) hharmless
      rwa [hseparates.values, hseparates.commandStart, ← hcommand] at hitems

theorem head_itemsText {word : Word} {items : List Item}
    (hapart : (Item.word word :: items).IsChain Item.Apart) :
    ∀ c, (itemsText items).head? = some c → isAscii c = true := by
  intro c hc
  cases items with
  | nil => cases hc
  | cons item items =>
    cases item with
    | word w => exact (List.isChain_cons_cons.mp hapart).1.elim
    | space => cases hc; rfl
    | tab => cases hc; rfl
    | operator op =>
      cases op with
      | pipe => cases hc; rfl
      | or => cases hc; rfl
      | and => cases hc; rfl
      | semicolon => cases hc; rfl
      | background => cases hc; rfl

/-- A line with another word is not. -/
theorem Between.misread_items {items : List Item} (h : s.Between)
    (hapart : items.IsChain Item.Apart) (hfollows : s.Follows items)
    (hharm : ¬ ∀ word ∈ wordsOf items, word.Harmless) :
    (scan (itemsText items) s).finish.tokens.map Token.value ≠
      s.values ++ (wordsOf items).map Word.value := by
  rw [scan_eq_foldl]
  induction items generalizing s with
  | nil => exact absurd (fun _ hword => nomatch hword) hharm
  | cons item items ih =>
    rw [itemsText_cons]
    cases hword : item.word? with
    | some word =>
      obtain rfl := Item.eq_of_word? hword
      have hstart := hfollows.tokenStart
      by_cases hword : word.Harmless
      · obtain ⟨hbetween, hvalues, -⟩ := h.read_word hstart hword
        have hrest : ¬ ∀ w ∈ wordsOf items, w.Harmless := fun hrest =>
          hharm (List.forall_mem_cons.mpr ⟨hword, hrest⟩)
        have hitems := ih hbetween hapart.tail (follows_word hapart) hrest
        rw [hvalues, List.append_assoc] at hitems
        rw [List.foldl_append]
        exact hitems
      · have hvalue : s.value = [] := h.value hstart
        have hspoilt := spoilt_pieces word.written hword h.mode nofun (i := s.tokens.length) rfl
          hvalue
        obtain ⟨token, htoken, hne⟩ := hspoilt.finished (head_itemsText hapart)
        intro heq
        rw [List.foldl_append] at heq
        rw [scan_eq_foldl] at htoken
        have hget : (((itemsText items).foldl turn ((Item.word word).text.foldl turn
            s)).finish.tokens.map Token.value)[s.tokens.length]? = some word.value := by
          rw [heq, values_of_none hstart, wordsOf_word]
          simp
        rw [List.getElem?_map] at hget
        exact hne (Option.some_injective _ ((congrArg _ htoken).symm.trans hget))
    | none =>
      obtain ⟨commandStart, hseparates, -⟩ := h.read_separator hword
      rw [wordsOf_of_none hword] at hharm ⊢
      rw [List.foldl_append, ← hseparates.values]
      exact ih hseparates.between hapart.tail (follows_of_none hseparates.tokenStart) hharm

end Scan

/-! ## Pipelines -/

section Pipelines

variable {cs segment rest : Text} {c : Char} {items : List Item}

theorem splitPipeline_quoted (h : '\'' ∉ cs) : splitPipeline (some '\'') false segment
    (cs ++ '\'' :: rest) = splitPipeline none false (segment ++ (cs ++ ['\''])) rest := by
  induction cs generalizing segment with
  | nil => simp [splitPipeline]
  | cons c cs ih =>
    obtain ⟨hc, hcs⟩ := not_or.mp (List.mem_cons.not.mp h)
    rw [List.cons_append, splitPipeline]
    simp [hc, ih hcs]

theorem splitPipeline_doubleQuoted (cs : Text) : splitPipeline (some '"') false segment
    (cs.flatMap doubleQuoted ++ '"' :: rest) =
      splitPipeline none false (segment ++ (cs.flatMap doubleQuoted ++ ['"'])) rest := by
  induction cs generalizing segment with
  | nil => simp [splitPipeline]
  | cons c cs ih =>
    rw [List.flatMap_cons, List.append_assoc]
    by_cases hc : c = '"' ∨ c = '\\'
    · simp [doubleQuoted, hc, splitPipeline, ih]
    · obtain ⟨hquote, hslash⟩ := not_or.mp hc
      simp [doubleQuoted, hquote, hslash, Ne.symm hquote, splitPipeline, ih]

theorem splitPipeline_piece {piece : Piece} (hwritten : piece.Written) :
    splitPipeline none false segment (piece.text ++ rest) =
      splitPipeline none false (segment ++ piece.text) rest := by
  cases piece with
  | bare c =>
    have hsafe : isSafe c = true := hwritten
    have hbar : c ≠ '|' := by
      rintro rfl
      cases hsafe
    have hparts : ((((isAsciiWhitespace c = false ∧ isOperatorStart c = false) ∧ ¬ c = '\'') ∧
        ¬ c = '"') ∧ ¬ c = '\\') ∧ ¬ c = '\x00' := by simpa [isSafe] using hsafe
    obtain ⟨⟨⟨⟨-, hsingle⟩, hdouble⟩, hslash⟩, -⟩ := hparts
    simp [Piece.text, splitPipeline, hbar, hsingle, hdouble, hslash]
  | escaped c => simp [Piece.text, splitPipeline]
  | single cs =>
    have hopen : splitPipeline none false segment ('\'' :: (cs ++ '\'' :: rest)) =
        splitPipeline (some '\'') false (segment ++ ['\'']) (cs ++ '\'' :: rest) := by
      simp [splitPipeline]
    have hquoted : splitPipeline (some '\'') false (segment ++ ['\'']) (cs ++ '\'' :: rest) =
        splitPipeline none false (segment ++ ['\''] ++ (cs ++ ['\''])) rest :=
      splitPipeline_quoted hwritten.1
    simpa [Piece.text] using hopen.trans hquoted
  | double cs =>
    have hopen : splitPipeline none false segment ('"' :: (cs.flatMap doubleQuoted ++ '"' :: rest)) =
        splitPipeline (some '"') false (segment ++ ['"']) (cs.flatMap doubleQuoted ++ '"' :: rest) := by
      simp [splitPipeline]
    have hquoted : splitPipeline (some '"') false (segment ++ ['"'])
        (cs.flatMap doubleQuoted ++ '"' :: rest) =
          splitPipeline none false (segment ++ ['"'] ++ (cs.flatMap doubleQuoted ++ ['"'])) rest :=
      splitPipeline_doubleQuoted cs
    simpa [Piece.text] using hopen.trans hquoted

theorem splitPipeline_word (word : Word) : splitPipeline none false segment (word.text ++ rest) =
    splitPipeline none false (segment ++ word.text) rest := by
  have hpieces : ∀ pieces : List Piece, (∀ piece ∈ pieces, piece.Written) → ∀ segment,
      splitPipeline none false segment (pieces.flatMap Piece.text ++ rest) =
        splitPipeline none false (segment ++ pieces.flatMap Piece.text) rest := by
    intro pieces hwritten
    induction pieces with
    | nil => simp
    | cons piece pieces ih =>
      intro segment
      rw [List.flatMap_cons, List.append_assoc,
        splitPipeline_piece (hwritten piece List.mem_cons_self),
        ih fun p hp => hwritten p (List.mem_cons_of_mem _ hp), List.append_assoc]
  exact hpieces word.pieces word.written segment

/-- Where the code cuts a line: at the second of two bars too. -/
def cutsOf : Text → List Item → List Text
  | segment, [] => [segment]
  | segment, .operator .pipe :: items => segment :: cutsOf [] items
  | segment, .operator .or :: items => (segment ++ ['|']) :: cutsOf [] items
  | segment, item :: items => cutsOf (segment ++ item.text) items

theorem Word.head_text (word : Word) : word.text.head? ≠ some '|' := by
  obtain ⟨piece, pieces, hpieces⟩ := List.exists_cons_of_ne_nil word.nonempty
  have hwritten := word.written piece (hpieces ▸ List.mem_cons_self)
  rw [Word.text, hpieces, List.flatMap_cons]
  intro hhead
  cases piece with
  | bare c =>
    obtain rfl : c = '|' := Option.some_injective _ hhead
    cases hwritten
  | escaped c => cases hhead
  | single cs => cases hhead
  | double cs => cases hhead

/-- No bar stands behind a bar. -/
theorem head_ne_bar {operator : Operator} (hbar : operator.hasPipe = true)
    (hapart : (Item.operator operator :: items).IsChain Item.Apart) :
    (itemsText items).head? ≠ some '|' := by
  cases items with
  | nil => nofun
  | cons item items =>
    have hitem := (List.isChain_cons_cons.mp hapart).1
    rw [itemsText_cons]
    cases item with
    | word word =>
      intro hhead
      have htext : word.text ≠ [] := by
        obtain ⟨piece, pieces, hpieces⟩ := List.exists_cons_of_ne_nil word.nonempty
        rw [Word.text, hpieces, List.flatMap_cons]
        exact List.append_ne_nil_of_left_ne_nil piece.text_ne_nil _
      rw [Item.text, List.head?_append_of_ne_nil _ htext] at hhead
      exact word.head_text hhead
    | space => nofun
    | tab => nofun
    | operator other =>
      rw [Item.Apart, hbar, Bool.true_and] at hitem
      cases other with
      | pipe => cases hitem
      | or => cases hitem
      | and => nofun
      | semicolon => nofun
      | background => nofun

theorem splitPipeline_items (hapart : items.IsChain Item.Apart) :
    splitPipeline none false segment (itemsText items) = cutsOf segment items := by
  induction items generalizing segment with
  | nil => rfl
  | cons item items ih =>
    rw [itemsText_cons]
    have hrest {segment : Text} :
        splitPipeline none false segment (itemsText items) = cutsOf segment items :=
      ih hapart.tail
    cases item with
    | word word => exact (splitPipeline_word word).trans hrest
    | space => exact hrest
    | tab => exact hrest
    | operator op =>
      cases op with
      | pipe =>
        have hbar := head_ne_bar rfl hapart
        rw [cutsOf, ← hrest]
        simp [Item.text, Operator.text, splitPipeline, hbar]
      | or =>
        have hbar := head_ne_bar rfl hapart
        rw [cutsOf, ← hrest]
        simp [Item.text, Operator.text, splitPipeline, hbar]
      | and =>
        have hcuts : cutsOf segment (.operator .and :: items) =
            cutsOf (segment ++ ['&', '&']) items := rfl
        rw [hcuts, ← hrest]
        simp [Item.text, Operator.text, splitPipeline]
      | semicolon => exact hrest
      | background => exact hrest

/-- Every `||` is a cut too many. -/
theorem length_cutsOf (segment other : Text) (items : List Item) :
    (cutsOf segment items).length = (segmentsOf other items).length +
      (items.filter fun item => item.operator? = some .or).length := by
  induction items generalizing segment other with
  | nil => rfl
  | cons item items ih =>
    cases item with
    | word word => exact ih _ _
    | space => exact ih _ _
    | tab => exact ih _ _
    | operator op =>
      cases op with
      | pipe =>
        have hrest := ih [] []
        simp only [cutsOf, segmentsOf, List.length_cons]
        rw [hrest]
        exact Nat.add_right_comm _ _ _
      | or =>
        have hrest := ih [] (other ++ ['|', '|'])
        have hsegments : segmentsOf other (.operator .or :: items) =
            segmentsOf (other ++ ['|', '|']) items := rfl
        simp only [cutsOf, List.length_cons]
        rw [hrest, hsegments]
        rfl
      | and => exact ih _ _
      | semicolon => exact ih _ _
      | background => exact ih _ _

theorem cutsOf_eq (h : Item.operator .or ∉ items) :
    cutsOf segment items = segmentsOf segment items := by
  induction items generalizing segment with
  | nil => rfl
  | cons item items ih =>
    obtain ⟨hitem, hitems⟩ := not_or.mp (List.mem_cons.not.mp h)
    cases item with
    | word word => exact ih hitems
    | space => exact ih hitems
    | tab => exact ih hitems
    | operator op =>
      cases op with
      | pipe => exact congrArg (segment :: ·) (ih hitems)
      | or => exact absurd rfl hitem
      | and => exact ih hitems
      | semicolon => exact ih hitems
      | background => exact ih hitems

theorem cutsOf_eq_iff : cutsOf segment items = segmentsOf segment items ↔
    Item.operator .or ∉ items := by
  refine ⟨fun heq hmem => ?_, cutsOf_eq⟩
  have hlength := length_cutsOf segment segment items
  have hcount : (items.filter fun item => item.operator? = some .or) = [] := by
    rw [heq] at hlength
    exact List.length_eq_zero_iff.mp (by omega)
  exact List.filter_eq_nil_iff.mp hcount _ hmem (decide_eq_true rfl)

end Pipelines

/-! ## Whole lines -/

section Lines

variable {text : Text} {line : Line}

theorem Piece.isLineBreak_text {piece : Piece} (hwritten : piece.Written) :
    ∀ c ∈ piece.text, isLineBreak c = false := by
  intro c hc
  cases piece with
  | bare d =>
    obtain rfl : c = d := List.mem_singleton.mp hc
    have hsafe : isSafe c = true := hwritten
    refine Bool.eq_false_of_not_eq_true fun hbreak => ?_
    have hcases : c = '\n' ∨ c = '\r' ∨ c = '\x00' := by simpa [isLineBreak, or_assoc] using hbreak
    rcases hcases with rfl | rfl | rfl
    all_goals cases hsafe
  | escaped d =>
    have hcases : c = '\\' ∨ c = d := by simpa [Piece.text] using hc
    rcases hcases with rfl | rfl
    · rfl
    · exact hwritten
  | single cs =>
    have hcases : c = '\'' ∨ c ∈ cs ∨ c = '\'' := by simpa [Piece.text] using hc
    rcases hcases with rfl | hmem | rfl
    · rfl
    · exact hwritten.2 c hmem
    · rfl
  | double cs =>
    have hcases : c = '"' ∨ (∃ d ∈ cs, c ∈ doubleQuoted d) ∨ c = '"' := by
      simpa [Piece.text] using hc
    rcases hcases with rfl | ⟨d, hd, hmem⟩ | rfl
    · rfl
    · have hvalue : c = '\\' ∨ c = d := by
        unfold doubleQuoted at hmem
        split_ifs at hmem
        · simpa using hmem
        · exact .inr (List.mem_singleton.mp hmem)
      rcases hvalue with rfl | rfl
      · rfl
      · exact hwritten c hd
    · rfl

theorem Line.isLineBreak_text (line : Line) : line.text.any isLineBreak = false := by
  refine Bool.eq_false_of_not_eq_true fun hbreak => ?_
  obtain ⟨c, hc, hbreak⟩ := List.any_eq_true.mp hbreak
  obtain ⟨item, -, hitem⟩ := List.mem_flatMap.mp hc
  cases item with
  | word word =>
    obtain ⟨piece, hpiece, hmem⟩ := List.mem_flatMap.mp hitem
    cases hbreak.symm.trans (Piece.isLineBreak_text (word.written piece hpiece) c hmem)
  | space => cases List.mem_singleton.mp hitem; cases hbreak
  | tab => cases List.mem_singleton.mp hitem; cases hbreak
  | operator op =>
    have hbars : c = '|' ∨ c = '&' ∨ c = ';' := by
      cases op
      all_goals
        simp only [Item.text, Operator.text, List.mem_cons, List.not_mem_nil, or_false,
          or_self] at hitem
        simp [hitem]
    rcases hbars with rfl | rfl | rfl
    all_goals cases hbreak

theorem byteOffset_lt {m n : ℕ} (h : m < n) (hlength : n ≤ text.length) :
    byteOffset text m < byteOffset text n := by
  have hm : m < text.length := Nat.lt_of_lt_of_le h hlength
  have hsucc : byteOffset text m < byteOffset text (m + 1) := by
    rw [byteOffset, byteOffset, List.take_succ_eq_append_getElem hm,
      ByteStreams.utf8Bytes_append, List.length_append]
    simp [Char.utf8Size_pos]
  exact hsucc.trans_le (byteOffset_mono h)

/-- A byte of a text at which a character starts, or the end of the text. -/
def OnBoundary (text : Text) (n : ℕ) : Prop :=
  ∃ k ≤ text.length, n = byteOffset text k

/-- The tokens of a line lie in it one after the other. -/
structure Placed (text : Text) (tokens : List Token) : Prop where
  nonempty : ∀ token ∈ tokens, token.start < token.stop
  boundary : ∀ token ∈ tokens, OnBoundary text token.start ∧ OnBoundary text token.stop
  disjoint : tokens.Pairwise fun first second => first.stop ≤ second.start

/-- Whatever the line is, its tokens are placed. -/
theorem placed_inBytes (text : Text) :
    Placed text ((scan text .start).finish.tokens.map (Token.inBytes text)) := by
  have hordered : (scan text .start).finish.Ordered := by
    rw [Scan.scan_eq_foldl]
    exact Scan.ordered_start.foldl.finish
  have hindex : (scan text .start).finish.index = text.length := by
    have hscan : (scan text .start).index = Scan.start.index + text.length := Scan.scan_index
    rw [Scan.finish, Scan.finishToken_index]
    split_ifs
    · exact hscan.trans (Nat.zero_add _)
    · exact hscan.trans (Nat.zero_add _)
  have hwithin : ∀ token ∈ (scan text .start).finish.tokens, token.stop ≤ text.length :=
    fun token htoken => hindex ▸ hordered.within token htoken
  refine ⟨?_, ?_, ?_⟩
  · rw [List.forall_mem_map]
    exact fun token htoken => byteOffset_lt (hordered.nonempty token htoken) (hwithin token htoken)
  · rw [List.forall_mem_map]
    intro token htoken
    have hstart := (hordered.nonempty token htoken).le.trans (hwithin token htoken)
    exact ⟨⟨token.start, hstart, rfl⟩, ⟨token.stop, hwithin token htoken, rfl⟩⟩
  · rw [List.pairwise_map]
    exact hordered.disjoint.imp byteOffset_mono

/-- The tokens of a line are its words, and its cuts are its single bars. -/
structure ReadAsWritten (line : Line) : Prop where
  tokens : ∃ tokens, parseBytes (utf8Bytes line.text) = some (tokens, lastCommand 0 0 line.items) ∧
    tokens.map Token.value = line.words.map Word.value ∧ Placed line.text tokens
  segments : splitPipeline none false [] line.text = segmentsOf [] line.items

theorem parseBytes_line (line : Line) : parseBytes (utf8Bytes line.text) =
    some ((scan line.text .start).finish.tokens.map (Token.inBytes line.text),
      (scan line.text .start).finish.commandStart) := by
  rw [parseBytes_utf8Bytes, parseLine, if_neg (lt_irrefl _), List.take_length,
    line.isLineBreak_text]
  rfl

/-- A line is read as it is written if its words are harmless and no two bars stand together. -/
theorem readAsWritten_iff (line : Line) : ReadAsWritten line ↔
    (∀ word ∈ line.words, word.Harmless) ∧ Item.operator .or ∉ line.items := by
  have hsegments : splitPipeline none false [] line.text = cutsOf [] line.items :=
    splitPipeline_items line.apart
  have hvalue : Token.value ∘ Token.inBytes line.text = Token.value := rfl
  constructor
  · rintro ⟨⟨tokens, hparse, hvalues, -⟩, hcuts⟩
    refine ⟨?_, cutsOf_eq_iff.mp (hsegments.symm.trans hcuts)⟩
    by_contra hharm
    rw [parseBytes_line, Option.some_inj] at hparse
    refine Scan.between_start.misread_items line.apart (.inl rfl) hharm ?_
    rw [← (Prod.mk.inj hparse).1, List.map_map, hvalue] at hvalues
    exact hvalues
  · rintro ⟨hharmless, hor⟩
    obtain ⟨hvalues, hstart⟩ :=
      Scan.between_start.read_items line.apart (.inl rfl) hharmless
    refine ⟨⟨_, ?_, ?_, placed_inBytes line.text⟩, hsegments.trans (cutsOf_eq hor)⟩
    · rw [parseBytes_line]
      exact congrArg (fun start => some (_, start)) hstart
    · rw [List.map_map, hvalue]
      exact hvalues

/-- An escaped accent and `x`, with a blank between them. -/
def accentLine : Line where
  items := [.word ⟨[.escaped 'é'], List.cons_ne_nil _ _, by simp [Piece.Written, isLineBreak]⟩,
    .space, .word ⟨[.bare 'x'], List.cons_ne_nil _ _, by simp [Piece.Written]; decide⟩]
  apart := by simp [Item.Apart]

/-- The blank behind an escaped accent is read as a part of its word. -/
theorem escaped_accent_takes_blank : accentLine.text = "\\é x".toList ∧
    accentLine.words.map Word.value = ["é".toList, "x".toList] ∧
    (parseBytes (utf8Bytes accentLine.text)).map (fun found => found.1.map Token.value) =
      some ["é x".toList] ∧ ¬ ReadAsWritten accentLine := by
  have hparse : (parseBytes (utf8Bytes accentLine.text)).map
      (fun found => found.1.map Token.value) = some ["é x".toList] := by
    rw [parseBytes_line, Option.map_some, List.map_map]
    decide +kernel
  refine ⟨rfl, rfl, hparse, ?_⟩
  rintro ⟨⟨tokens, hfound, hvalues, -⟩, -⟩
  rw [hfound, Option.map_some, Option.some_inj, hvalues] at hparse
  revert hparse
  decide +kernel

end Lines

end BashGuess
