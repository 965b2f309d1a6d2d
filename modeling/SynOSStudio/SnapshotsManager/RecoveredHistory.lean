import SynOSStudio.SnapshotsManager.PrintedHistory

/-!
# Transactions that are recovered

The lines of a printed block make up its transaction, also with a newline around it, and the text is
cut between the blocks whatever one of them holds.
-/

namespace SnapshotsManager.AptHistory

open ByteStreams
open BashGuess
open SecurityKeys.Ssh (lines stripLineBreak)
open RecoveryEngine.Layout (splitOnce)

/-! ## Lines -/

section Lines

variable {Date : Type} {parseFromStr : Text → Option Date} {printDate : Date → Text}
  {draft : Draft Date} {fields : List (Field Date)} {field : Field Date} {line rest : Text}

/-- A carriage return at the end of a line does not matter. -/
theorem readLine_return (draft : Draft Date) (line : Text) :
    draft.readLine parseFromStr (line ++ ['\r']) = draft.readLine parseFromStr line := by
  by_cases h : ':' ∈ line
  · obtain ⟨name, rest, rfl, hname⟩ := List.eq_append_cons_of_mem h
    rw [List.append_assoc, List.cons_append, Draft.readLine, Draft.readLine,
      splitOnce_colon hname, splitOnce_colon hname]
    simp only [trim_concat rest (show isWhitespace '\r' = true by decide)]
  · have hreturn : ':' ∉ line ++ ['\r'] := by simpa using h
    rw [Draft.readLine, Draft.readLine, splitOnce_no_colon h, splitOnce_no_colon hreturn]

def readLines (parseFromStr : Text → Option Date) (draft : Draft Date) (text : Text) :
    Except String (Draft Date) :=
  (lines text).foldlM (Draft.readLine parseFromStr) draft

theorem readLine_stripLineBreak (draft : Draft Date) (line : Text) :
    draft.readLine parseFromStr (stripLineBreak (line ++ ['\n'])) =
      draft.readLine parseFromStr line := by
  rw [stripLineBreak, List.getLast?_concat, if_pos rfl, List.dropLast_concat]
  split
  · next hlast =>
    obtain ⟨front, rfl⟩ := List.getLast?_eq_some_iff.mp hlast
    rw [List.dropLast_concat, readLine_return]
  · rfl

theorem readLines_append (h : '\n' ∉ line) : readLines parseFromStr draft (line ++ '\n' :: rest) =
    (draft.readLine parseFromStr line).bind fun next => readLines parseFromStr next rest := by
  rw [readLines, lines, linesOf_append_sep h, List.map_cons, List.foldlM_cons,
    readLine_stripLineBreak]
  rfl

theorem readLines_line (h : '\n' ∉ line) :
    readLines parseFromStr draft line = draft.readLine parseFromStr line := by
  rw [readLines, lines, linesOf_no_sep h]
  split
  · next hnil =>
    rw [hnil]
    rfl
  · have hlast : line.getLast? ≠ some '\n' := fun hlast => h (List.mem_of_getLast? hlast)
    rw [List.map_singleton, stripLineBreak, if_neg hlast, List.foldlM_cons]
    cases draft.readLine parseFromStr line <;> rfl

theorem newline_intercalate {texts : List Text} (h : ∀ text ∈ texts, '\n' ∉ text) :
    '\n' ∉ List.intercalate ", ".toList texts := by
  intro hmem
  rw [intercalate_indented] at hmem
  rcases mem_intercalate hmem with heq | ⟨text, htext, hmem⟩
  · revert heq
    decide
  · obtain ⟨other, hother, rfl | rfl⟩ := mem_indented htext
    · exact h text hother hmem
    · rcases List.mem_cons.mp hmem with heq | hmem
      · revert heq
        decide
      · exact h other hother hmem

theorem newline_change {change : AptPackageChange} (h : change.Printable) :
    '\n' ∉ change.print := by
  have hblank : isWhitespace '\n' = true := by decide
  have hpackage : '\n' ∉ change.package := fun hmem => by
    rw [(package_plain h.package '\n' hmem).1] at hblank
    cases hblank
  have hvalues : '\n' ∉ List.intercalate ", ".toList change.values :=
    newline_intercalate fun text htext hmem => by
      rw [((mem_values h htext).2 '\n' hmem).1] at hblank
      cases hblank
  have hend : '\n' ∉ " (".toList := by decide
  simp only [AptPackageChange.print, List.mem_append, List.mem_singleton, not_or]
  exact ⟨⟨⟨hpackage, hend⟩, hvalues⟩, by decide⟩

theorem newline_print (hdate : Inverts parseFromStr printDate) (h : field.Printable) :
    '\n' ∉ field.print printDate := by
  have hname : '\n' ∉ field.name := by
    cases field with
    | unknown name value => exact h.2.1
    | changes operation items => cases operation <;> exact of_decide_eq_true rfl
    | _ => exact of_decide_eq_true rfl
  have hkept : ∀ maximum text, IsKept maximum text → '\n' ∉ text := by
    intro maximum text hkept hmem
    have hcontrol := hkept.control
    rw [List.any_eq_false] at hcontrol
    exact hcontrol '\n' hmem (by decide)
  have hvalue : '\n' ∉ field.value printDate := by
    cases field with
    | start date => exact hdate.line date
    | endDate date => exact hdate.line date
    | commandLine text => exact hkept 4096 text h
    | requestedBy text => exact hkept 256 text h
    | changes operation items =>
      exact newline_intercalate fun text htext => by
        obtain ⟨change, hchange, rfl⟩ := List.mem_map.mp htext
        exact newline_change (h change hchange).2
    | unknown name value => exact h.2.2.1
  simp [Field.print, hname, hvalue]

/-- The fields of a block are read one after the other. -/
theorem readLines_fields (hdate : Inverts parseFromStr printDate) (trail : Bool)
    (h : ∀ field ∈ fields, field.Printable) :
    readLines parseFromStr draft
      (List.intercalate ['\n'] (fields.map (Field.print printDate)) ++ newlineIf trail) =
        .ok (fields.foldl Draft.apply draft) := by
  induction fields generalizing draft with
  | nil => cases trail <;> rfl
  | cons field fields ih =>
    obtain ⟨hfield, hfields⟩ := List.forall_mem_cons.mp h
    have hnewline := newline_print hdate hfield
    cases fields with
    | nil =>
      rw [List.map_singleton, List.intercalate_singleton]
      cases trail with
      | false =>
        rw [newlineIf, if_neg Bool.false_ne_true, List.append_nil, readLines_line hnewline,
          readLine_print hdate hfield]
        rfl
      | true =>
        rw [newlineIf, if_pos rfl, readLines_append hnewline, readLine_print hdate hfield]
        rfl
    | cons next fields =>
      rw [List.map_cons, List.map_cons, List.intercalate_cons_cons, List.append_assoc,
        List.append_assoc, List.singleton_append, readLines_append hnewline,
        readLine_print hdate hfield, Except.bind, ← List.map_cons, ih hfields]
      rfl

/-- The last field of a kind counts. -/
theorem foldl_apply {β : Type} (get : Draft Date → Option β) (pick : Field Date → Option β)
    (h : ∀ draft field, get (Draft.apply draft field) = (pick field).or (get draft))
    (fields : List (Field Date)) (draft : Draft Date) :
    get (fields.foldl Draft.apply draft) = (fields.filterMap pick).getLast?.or (get draft) := by
  induction fields generalizing draft with
  | nil => rfl
  | cons field fields ih =>
    rw [List.foldl_cons, ih, h, List.filterMap_cons]
    cases hpick : pick field with
    | none => rfl
    | some value =>
      rw [List.getLast?_cons]
      cases (fields.filterMap pick).getLast? <;> rfl

theorem foldl_apply_changes (fields : List (Field Date)) (draft : Draft Date) :
    (fields.foldl Draft.apply draft).changes = draft.changes ++ fields.flatMap Field.listed := by
  induction fields generalizing draft with
  | nil => simp
  | cons field fields ih =>
    rw [List.foldl_cons, ih, List.flatMap_cons, ← List.append_assoc]
    cases field <;> simp [Draft.apply, Field.listed]

end Lines

/-! ## Records -/

namespace Record

variable {Date : Type} [LinearOrder Date] {parseFromStr : Text → Option Date}
  {printDate : Date → Text} {lead trail : Bool}

def text (printDate : Date → Text) (record : Record Date) : Text :=
  List.intercalate ['\n'] (record.fields.map (Field.print printDate))

theorem foldl_fields (record : Record Date) :
    record.fields.foldl Draft.apply ⟨none, none, none, none, []⟩ =
      ⟨some record.transaction.start, record.transaction.endDate, record.transaction.commandLine,
        record.transaction.requestedBy, record.transaction.changes⟩ := by
  have hlast : ∀ {β : Type} (value : Option β), value.toList.getLast?.or none = value := by
    intro β value
    cases value <;> rfl
  have hstart := foldl_apply Draft.start Field.start? (by intro d f; cases f <;> rfl)
    record.fields ⟨none, none, none, none, []⟩
  have hend := foldl_apply Draft.endDate Field.endDate? (by intro d f; cases f <;> rfl)
    record.fields ⟨none, none, none, none, []⟩
  have hcommand := foldl_apply Draft.commandLine Field.commandLine?
    (by intro d f; cases f <;> rfl) record.fields ⟨none, none, none, none, []⟩
  have hrequester := foldl_apply Draft.requestedBy Field.requestedBy?
    (by intro d f; cases f <;> rfl) record.fields ⟨none, none, none, none, []⟩
  have hchanges := foldl_apply_changes record.fields ⟨none, none, none, none, []⟩
  rw [record.start] at hstart
  rw [record.endDate, hlast] at hend
  rw [record.commandLine, hlast] at hcommand
  rw [record.requestedBy, hlast] at hrequester
  rw [record.changes, List.nil_append] at hchanges
  cases hdraft : record.fields.foldl Draft.apply ⟨none, none, none, none, []⟩ with
  | mk start endDate commandLine requestedBy changes =>
    rw [hdraft] at hstart hend hcommand hrequester hchanges
    simp only at hstart hend hcommand hrequester hchanges
    rw [hstart, hend, hcommand, hrequester, hchanges]
    rfl

/-- A printed block is read back, also with a newline around it. -/
theorem parseTransaction_text (hdate : Inverts parseFromStr printDate) (record : Record Date)
    (lead trail : Bool) :
    parseTransaction parseFromStr (newlineIf lead ++ record.text printDate ++ newlineIf trail) =
      .ok record.transaction := by
  have hlines : readLines parseFromStr ⟨none, none, none, none, []⟩
      (newlineIf lead ++ record.text printDate ++ newlineIf trail) =
        .ok (record.fields.foldl Draft.apply ⟨none, none, none, none, []⟩) := by
    have hfields : readLines parseFromStr ⟨none, none, none, none, []⟩
        (record.text printDate ++ newlineIf trail) =
          .ok (record.fields.foldl Draft.apply ⟨none, none, none, none, []⟩) :=
      readLines_fields hdate trail record.printable
    have hempty : '\n' ∉ ([] : Text) := List.not_mem_nil
    cases lead with
    | false => exact hfields
    | true =>
      rw [newlineIf, if_pos rfl, List.append_assoc]
      exact (readLines_append hempty).trans hfields
  have hordered : ¬ record.transaction.endDate.any (· < record.transaction.start) = true := by
    intro hany
    cases hend : record.transaction.endDate with
    | none =>
      rw [hend] at hany
      cases hany
    | some date =>
      rw [hend] at hany
      exact absurd (of_decide_eq_true hany) (not_lt.mpr (record.ordered date hend))
  rw [parseTransaction]
  change (readLines _ _ _).bind Draft.finish = _
  rw [hlines, record.foldl_fields]
  simp only [Except.bind, Draft.finish]
  rw [if_neg hordered]

end Record

/-! ## Blocks -/

section Blocks

variable {Date : Type} [LinearOrder Date] {parseFromStr : Text → Option Date}
  {printDate : Date → Text} {lead trail : Bool} {sep piece block rest : Text}
  {blocks pieces : List Text} {records : List (Record Date)} {c : Char}

theorem splitAround_skip (sep piece front rest : Text) :
    splitAround sep front.length piece (front ++ rest) = splitAround sep 0 piece rest := by
  induction front with
  | nil => rfl
  | cons c front ih => exact ih

/-- The text is cut where the separator first occurs. -/
theorem splitAround_append (hsep : sep ≠ []) (h : ¬ sep <:+: block ++ sep.dropLast) :
    splitAround sep 0 piece (block ++ (sep ++ rest)) =
      (piece ++ block) :: splitAround sep 0 [] rest := by
  induction block generalizing piece with
  | nil =>
    obtain ⟨c, sep, rfl⟩ := List.exists_cons_of_ne_nil hsep
    rw [List.nil_append, List.cons_append, splitAround, if_pos, List.length_cons,
      Nat.add_sub_cancel, splitAround_skip, List.append_nil]
    rw [List.isPrefixOf_iff_prefix]
    exact ⟨rest, rfl⟩
  | cons c block ih =>
    rw [List.cons_append, List.infix_cons_iff, not_or] at h
    obtain ⟨hfirst, hblock⟩ := h
    have hmiss : ¬ sep.isPrefixOf (c :: (block ++ (sep ++ rest))) = true := by
      intro hmatch
      refine hfirst (List.prefix_of_prefix_length_le (List.isPrefixOf_iff_prefix.mp hmatch) ?_ ?_)
      · rw [← List.dropLast_append_getLast hsep]
        exact ⟨[sep.getLast hsep] ++ rest, by simp⟩
      · have hlength := List.length_pos_of_ne_nil hsep
        rw [List.length_cons, List.length_append, List.length_dropLast]
        omega
    rw [List.cons_append, splitAround, if_neg hmiss, ih hblock, List.append_assoc]
    rfl

theorem splitAround_last (h : ¬ sep <:+: block) :
    splitAround sep 0 piece block = [piece ++ block] := by
  induction block generalizing piece with
  | nil => rw [splitAround, List.append_nil]
  | cons c block ih =>
    rw [List.infix_cons_iff, not_or] at h
    obtain ⟨hfirst, hblock⟩ := h
    rw [splitAround, if_neg (fun hmatch => hfirst (List.isPrefixOf_iff_prefix.mp hmatch)),
      ih hblock, List.append_assoc]
    rfl

/-- A text without an empty line and without a newline at its ends. -/
structure IsBlock (block : Text) : Prop where
  dense : ¬ ['\n', '\n'] <:+: block
  head : block.head? ≠ some '\n'
  last : block.getLast? ≠ some '\n'

theorem not_infix_cons (hhead : block.head? ≠ some '\n') (h : ¬ ['\n', '\n'] <:+: block) :
    ¬ ['\n', '\n'] <:+: '\n' :: block := by
  rw [List.infix_cons_iff, not_or, List.cons_prefix_cons]
  refine ⟨fun ⟨_, hprefix⟩ => hhead ?_, h⟩
  obtain ⟨after, rfl⟩ := hprefix
  rfl

theorem not_infix_concat (hlast : block.getLast? ≠ some '\n') (h : ¬ ['\n', '\n'] <:+: block) :
    ¬ ['\n', '\n'] <:+: block ++ ['\n'] := by
  rw [List.infix_concat_iff, not_or]
  refine ⟨fun ⟨front, hfront⟩ => hlast ?_, h⟩
  have hblock : front ++ ['\n'] = block := by
    have happend : (front ++ ['\n']) ++ ['\n'] = block ++ ['\n'] := by
      rw [List.append_assoc]
      exact hfront
    exact List.append_cancel_right happend
  rw [← hblock, List.getLast?_concat]

theorem IsBlock.not_infix (h : IsBlock block) (hlead : lead = true → block ≠ []) (trail : Bool) :
    ¬ ['\n', '\n'] <:+: newlineIf lead ++ block ++ newlineIf trail := by
  have hfront : ¬ ['\n', '\n'] <:+: newlineIf lead ++ block ∧
      (newlineIf lead ++ block).getLast? ≠ some '\n' := by
    cases lead with
    | false => exact ⟨h.dense, h.last⟩
    | true =>
      refine ⟨not_infix_cons h.head h.dense, ?_⟩
      rw [List.getLast?_append_of_ne_nil _ (hlead rfl)]
      exact h.last
  cases trail with
  | false =>
    rw [newlineIf, newlineIf, if_neg Bool.false_ne_true, List.append_nil]
    exact hfront.1
  | true => exact not_infix_concat hfront.2 hfront.1

/-- A block, maybe with a newline in front of it or behind it. -/
def Extends (piece block : Text) : Prop :=
  ∃ lead trail, piece = newlineIf lead ++ block ++ newlineIf trail

theorem intercalate_cons (block : Text) (hne : blocks ≠ []) :
    newlineIf lead ++ List.intercalate "\n\n".toList (block :: blocks) ++ newlineIf trail =
      (newlineIf lead ++ block) ++ ("\n\n".toList ++ history false trail blocks) := by
  obtain ⟨next, blocks, rfl⟩ := List.exists_cons_of_ne_nil hne
  rw [List.intercalate_cons_cons, history]
  simp [newlineIf]

/-- The text is cut between the blocks. -/
theorem splitAround_history (lead trail : Bool) (h : ∀ block ∈ blocks, IsBlock block) :
    ∃ pieces blanks, splitAround "\n\n".toList 0 [] (history lead trail blocks) =
        pieces ++ blanks ∧ List.Forall₂ Extends pieces blocks ∧
      ∀ piece ∈ blanks, trim piece = [] := by
  induction blocks generalizing lead with
  | nil =>
    refine ⟨[], _, rfl, .nil, ?_⟩
    cases lead <;> cases trail <;> decide
  | cons block blocks ih =>
    obtain ⟨hblock, hblocks⟩ := List.forall_mem_cons.mp h
    by_cases hempty : lead = true ∧ block = []
    · obtain ⟨rfl, rfl⟩ := hempty
      cases blocks with
      | nil =>
        cases trail with
        | false => exact ⟨[['\n']], [], rfl, .cons ⟨true, false, rfl⟩ .nil, nofun⟩
        | true => exact ⟨[[]], [[]], rfl, .cons ⟨false, false, rfl⟩ .nil, by decide⟩
      | cons next blocks =>
        obtain ⟨pieces, blanks, hsplit, hextends, hblanks⟩ := ih true hblocks
        refine ⟨[] :: pieces, blanks, ?_, .cons ⟨false, false, rfl⟩ hextends, hblanks⟩
        rw [List.cons_append, ← hsplit]
        rfl
    · have hlead : lead = true → block ≠ [] := fun hlead hnil => hempty ⟨hlead, hnil⟩
      cases blocks with
      | nil =>
        refine ⟨[newlineIf lead ++ block ++ newlineIf trail], [], ?_,
          .cons ⟨lead, trail, rfl⟩ .nil, nofun⟩
        rw [history, List.intercalate_singleton]
        exact splitAround_last (hblock.not_infix hlead trail)
      | cons next blocks =>
        obtain ⟨pieces, blanks, hsplit, hextends, hblanks⟩ := ih false hblocks
        refine ⟨(newlineIf lead ++ block) :: pieces, blanks, ?_,
          .cons ⟨lead, false, (List.append_nil _).symm⟩ hextends, hblanks⟩
        have hcut : splitAround "\n\n".toList 0 []
            (newlineIf lead ++ block ++ ("\n\n".toList ++ history false trail (next :: blocks))) =
              (newlineIf lead ++ block) ::
                splitAround "\n\n".toList 0 [] (history false trail (next :: blocks)) :=
          splitAround_append (by decide) (hblock.not_infix hlead true)
        rw [history, intercalate_cons block (List.cons_ne_nil _ _), hcut, hsplit]
        rfl

/-- What a piece adds to the transactions. -/
def found (parseFromStr : Text → Option Date) (piece : Text) : List (AptTransaction Date) :=
  if trim piece = [] then [] else (parseTransaction parseFromStr piece).toOption.toList

theorem parseBlocks_transactions (parseFromStr : Text → Option Date) (index : ℕ)
    (pieces : List Text) : (parseBlocks parseFromStr index pieces).transactions =
      pieces.flatMap (found parseFromStr) := by
  induction pieces generalizing index with
  | nil => rfl
  | cons piece pieces ih =>
    rw [parseBlocks, List.flatMap_cons, found, ← ih (index + 1)]
    split
    · rfl
    · cases parseTransaction parseFromStr piece <;> rfl

theorem parseBlocks_issues (index : ℕ) (h : ∀ piece ∈ pieces, trim piece = [] ∨
    ∃ transaction, parseTransaction parseFromStr piece = .ok transaction) :
    (parseBlocks parseFromStr index pieces).issues = [] := by
  induction pieces generalizing index with
  | nil => rfl
  | cons piece pieces ih =>
    obtain ⟨hpiece, hpieces⟩ := List.forall_mem_cons.mp h
    rw [parseBlocks]
    split
    · exact ih (index + 1) hpieces
    · next hne =>
      obtain ⟨transaction, hok⟩ := hpiece.resolve_left hne
      rw [hok]
      exact ih (index + 1) hpieces

theorem length_found (piece : Text) : (found parseFromStr piece).length ≤ 1 := by
  rw [found]
  split
  · exact Nat.zero_le 1
  · cases parseTransaction parseFromStr piece <;> simp [Except.toOption]

theorem not_infix_append (h : '\n' ∉ piece) (hrest : ¬ ['\n', '\n'] <:+: '\n' :: rest) :
    ¬ ['\n', '\n'] <:+: piece ++ '\n' :: rest := by
  induction piece with
  | nil => exact hrest
  | cons c piece ih =>
    obtain ⟨hc, hpiece⟩ := List.ne_and_not_mem_of_not_mem_cons h
    rw [List.cons_append, List.infix_cons_iff, not_or, List.cons_prefix_cons]
    exact ⟨fun hboth => hc hboth.1, ih hpiece⟩

/-- Lines that are not empty are a block. -/
theorem isBlock_intercalate {ls : List Text} (hne : ls ≠ [])
    (h : ∀ line ∈ ls, line ≠ [] ∧ '\n' ∉ line) :
    IsBlock (List.intercalate ['\n'] ls) ∧ List.intercalate ['\n'] ls ≠ [] := by
  induction ls with
  | nil => exact absurd rfl hne
  | cons line ls ih =>
    obtain ⟨⟨hline, hnewline⟩, hls⟩ := List.forall_mem_cons.mp h
    have hhead : ∀ rest, (line ++ rest).head? ≠ some '\n' := by
      intro rest hhead
      rw [List.head?_append_of_ne_nil _ hline] at hhead
      exact hnewline (List.mem_of_head? hhead)
    cases ls with
    | nil =>
      rw [List.intercalate_singleton]
      refine ⟨⟨fun hinside => ?_, ?_, fun hlast => hnewline (List.mem_of_getLast? hlast)⟩, hline⟩
      · exact hnewline (hinside.subset List.mem_cons_self)
      · rw [← List.append_nil line]
        exact hhead []
    | cons next ls =>
      obtain ⟨hrest, hneRest⟩ := ih (List.cons_ne_nil _ _) hls
      rw [List.intercalate_cons_cons, List.append_assoc, List.singleton_append]
      refine ⟨⟨?_, hhead _, ?_⟩, by simp⟩
      · exact not_infix_append hnewline (not_infix_cons hrest.head hrest.dense)
      · rw [List.getLast?_append_of_ne_nil _ (List.cons_ne_nil _ _), List.getLast?_cons_of_ne_nil]
        · exact hrest.last
        · exact hneRest

theorem exists_start (record : Record Date) :
    .start record.transaction.start ∈ record.fields := by
  have hmem : record.transaction.start ∈ record.fields.filterMap Field.start? := by
    rw [record.start]
    exact List.mem_singleton_self _
  obtain ⟨field, hfield, hstart⟩ := List.mem_filterMap.mp hmem
  cases field with
  | start date =>
    obtain rfl := Option.some.inj hstart
    exact hfield
  | _ => cases hstart

theorem isBlock_text (hdate : Inverts parseFromStr printDate) (record : Record Date) :
    IsBlock (record.text printDate) := by
  refine (isBlock_intercalate ?_ fun line hline => ?_).1
  · exact List.ne_nil_of_mem (List.mem_map_of_mem (exists_start record))
  · obtain ⟨field, hfield, rfl⟩ := List.mem_map.mp hline
    exact ⟨by simp [Field.print], newline_print hdate (record.printable field hfield)⟩

theorem trim_piece (record : Record Date) (lead trail : Bool) :
    trim (newlineIf lead ++ record.text printDate ++ newlineIf trail) ≠ [] := by
  have hline : 'S' ∈ record.text printDate :=
    mem_intercalate_of_mem (List.mem_map_of_mem (exists_start record))
      (List.mem_append_left _ (show 'S' ∈ "Start-Date".toList by decide))
  exact trim_ne_nil (List.mem_append_left _ (List.mem_append_right _ hline)) (by decide)

theorem found_piece (hdate : Inverts parseFromStr printDate) (record : Record Date)
    (h : Extends piece (record.text printDate)) :
    found parseFromStr piece = [record.transaction] := by
  obtain ⟨lead, trail, rfl⟩ := h
  rw [found, if_neg (trim_piece record lead trail), record.parseTransaction_text hdate]
  rfl

theorem flatMap_found (hdate : Inverts parseFromStr printDate)
    (h : List.Forall₂ Extends pieces (records.map (Record.text printDate))) :
    pieces.flatMap (found parseFromStr) = records.map Record.transaction := by
  induction records generalizing pieces with
  | nil =>
    cases h
    rfl
  | cons record records ih =>
    obtain _ | ⟨hpiece, hpieces⟩ := h
    rw [List.flatMap_cons, found_piece hdate record hpiece, ih hpieces]
    rfl

theorem parsed_pieces (hdate : Inverts parseFromStr printDate)
    (h : List.Forall₂ Extends pieces (records.map (Record.text printDate))) :
    ∀ piece ∈ pieces, ∃ transaction, parseTransaction parseFromStr piece = .ok transaction := by
  induction records generalizing pieces with
  | nil =>
    cases h
    exact nofun
  | cons record records ih =>
    obtain _ | ⟨⟨lead, trail, rfl⟩, hpieces⟩ := h
    refine List.forall_mem_cons.mpr ⟨?_, ih hpieces⟩
    exact ⟨record.transaction, record.parseTransaction_text hdate lead trail⟩

theorem flatMap_blanks (h : ∀ piece ∈ pieces, trim piece = []) :
    pieces.flatMap (found parseFromStr) = [] := by
  rw [List.flatMap_eq_nil_iff]
  intro piece hpiece
  rw [found, if_pos (h piece hpiece)]

/-- Every printed transaction is recovered, in order and without an issue, and where one block is
replaced by any other text all the other ones are. -/
theorem history_is_recovered (hdate : Inverts parseFromStr printDate)
    (records : List (Record Date)) (lead trail : Bool) :
    parseAptHistory parseFromStr
        (history lead trail (records.map (Record.text printDate))) =
      ⟨records.map Record.transaction, []⟩ ∧
    ∀ before record after damaged, records = before ++ record :: after → IsBlock damaged →
      ∃ middle, middle.length ≤ 1 ∧
        (parseAptHistory parseFromStr (history lead trail (before.map (Record.text printDate) ++
          damaged :: after.map (Record.text printDate)))).transactions =
            before.map Record.transaction ++ middle ++ after.map Record.transaction := by
  have hrecord : ∀ others : List (Record Date), ∀ block ∈ others.map (Record.text printDate),
      IsBlock block := by
    intro others block hblock
    obtain ⟨record, -, rfl⟩ := List.mem_map.mp hblock
    exact isBlock_text hdate record
  constructor
  · obtain ⟨pieces, blanks, hsplit, hextends, hblanks⟩ :=
      splitAround_history lead trail (hrecord records)
    have hissues : ∀ piece ∈ pieces ++ blanks, trim piece = [] ∨
        ∃ transaction, parseTransaction parseFromStr piece = .ok transaction := by
      intro piece hpiece
      rcases List.mem_append.mp hpiece with hpiece | hpiece
      · exact .inr (parsed_pieces hdate hextends piece hpiece)
      · exact .inl (hblanks piece hpiece)
    have htransactions := parseBlocks_transactions parseFromStr 0 (pieces ++ blanks)
    rw [List.flatMap_append, flatMap_found hdate hextends, flatMap_blanks hblanks,
      List.append_nil] at htransactions
    rw [parseAptHistory, hsplit, ← htransactions, ← parseBlocks_issues 0 hissues]
  · rintro before record after damaged - hdamaged
    have hblocks : ∀ block ∈ before.map (Record.text printDate) ++
        damaged :: after.map (Record.text printDate), IsBlock block := by
      intro block hblock
      rcases List.mem_append.mp hblock with hblock | hblock
      · exact hrecord before block hblock
      · rcases List.mem_cons.mp hblock with rfl | hblock
        · exact hdamaged
        · exact hrecord after block hblock
    obtain ⟨pieces, blanks, hsplit, hextends, hblanks⟩ := splitAround_history lead trail hblocks
    have hbefore := List.forall₂_take_append _ _ _ hextends
    have hafter := List.forall₂_drop_append _ _ _ hextends
    rw [← List.take_append_drop (before.map (Record.text printDate)).length pieces] at hsplit
    generalize pieces.take (before.map (Record.text printDate)).length = front at hsplit hbefore
    generalize pieces.drop (before.map (Record.text printDate)).length = back at hsplit hafter
    obtain _ | ⟨-, hback⟩ := hafter
    next piece back =>
      refine ⟨found parseFromStr piece, length_found piece, ?_⟩
      rw [parseAptHistory, hsplit, parseBlocks_transactions, List.flatMap_append,
        List.flatMap_append, List.flatMap_cons, flatMap_found hdate hbefore,
        flatMap_found hdate hback, flatMap_blanks hblanks, List.append_nil, List.append_assoc]

end Blocks

/-! An installation that starts and ends at two known dates. -/

def printMoment (isEnd : Bool) : Text :=
  if isEnd then "2026-08-02  12:36:08".toList else "2026-08-02  12:34:43".toList

def parseMoment (text : Text) : Option Bool :=
  if text = printMoment false then some false
  else if text = printMoment true then some true
  else none

theorem moments_invert : Inverts parseMoment printMoment where
  parse := by decide
  trim_eq := by decide
  line := by decide

def keyPackage : AptPackageChange where
  operation := .install
  package := "python3-fido2:amd64".toList
  oldVersion := none
  newVersion := some "2.0.0-1".toList
  automatic := true

theorem keyPackage_printable : keyPackage.Printable where
  package := by decide
  oldVersion := rfl
  newVersion := rfl
  versions version hversion := by
    rw [List.mem_singleton.mp hversion]
    exact ⟨by decide, by decide, by decide⟩

def installation : Record Bool where
  transaction := ⟨false, some true, some "apt install".toList, none, [keyPackage]⟩
  fields := [.start false, .commandLine "apt install".toList, .changes .install [keyPackage],
    .unknown "Error".toList [], .endDate true]
  printable := by
    simp only [List.forall_mem_cons]
    exact ⟨trivial, ⟨by decide, by decide, by decide, by decide⟩,
      List.forall_mem_cons.mpr ⟨⟨rfl, keyPackage_printable⟩, nofun⟩,
      ⟨by decide, by decide, by decide, by decide⟩, trivial, nofun⟩
  start := rfl
  endDate := rfl
  commandLine := rfl
  requestedBy := rfl
  changes := rfl
  ordered := by decide

theorem installation_is_recovered :
    parseAptHistory parseMoment (history false true [installation.text printMoment]) =
      ⟨[installation.transaction], []⟩ :=
  (history_is_recovered moments_invert [installation] false true).1

end SnapshotsManager.AptHistory
