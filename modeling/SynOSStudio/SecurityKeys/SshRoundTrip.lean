import SynOSStudio.SecurityKeys.SshConfig

/-!
# Turning the persistence on and off

Where the managed block is found, and what is left of the configuration when the block is added,
the user inserts whole lines before and after it, and it is removed again.
-/

namespace SecurityKeys.Ssh

open ByteStreams

section Blocks

variable {content text text' pre post : Bytes} {lines : List Bytes} {line : Bytes} {m : Marks}
  {n : ℕ} {range : ManagedRange}

def IsMarker (line : Bytes) : Prop :=
  bareLine line = constant BEGIN_MARKER ∨ bareLine line = constant END_MARKER

def NoMarkers (text : Bytes) : Prop :=
  ∀ line ∈ linesOf 10 text, ¬ IsMarker line

def block : Bytes := constant MANAGED_BLOCK

theorem block_lines : linesOf 10 block =
    [constant (BEGIN_MARKER ++ "\n"), constant "Host *\n",
      constant "    Include config.d/synos-yubikey-manager.inc\n", constant (END_MARKER ++ "\n")] := by
  decide +kernel

theorem endsLine_block : EndsLine 10 block :=
  .inr ⟨block.dropLast, by decide +kernel⟩

theorem block_ne_nil : block ≠ [] := by
  decide +kernel

/-- Lines without a marker only move the offset. -/
theorem foldl_plain (h : ∀ line ∈ lines, ¬ IsMarker line) : lines.foldl Marks.line m =
    ⟨m.begins, m.ends, m.offset + lines.flatten.length⟩ := by
  induction lines generalizing m with
  | nil => rfl
  | cons line lines ih =>
    rw [List.forall_mem_cons, IsMarker, not_or] at h
    have hline : m.line line = ⟨m.begins, m.ends, m.offset + line.length⟩ := by
      rw [Marks.line, if_neg h.1.1, if_neg h.1.2]
    rw [List.foldl_cons, hline, ih h.2, List.flatten_cons, List.length_append, Nat.add_assoc]

theorem foldl_block : (linesOf 10 block).foldl Marks.line m =
    ⟨m.begins ++ [m.offset], m.ends ++ [m.offset + block.length], m.offset + block.length⟩ := by
  have hbegin : bareLine (constant (BEGIN_MARKER ++ "\n")) = constant BEGIN_MARKER := by
    decide +kernel
  have hbegin' : bareLine (constant (BEGIN_MARKER ++ "\n")) ≠ constant END_MARKER := by
    decide +kernel
  have hbody : ∀ line ∈ [constant "Host *\n",
      constant "    Include config.d/synos-yubikey-manager.inc\n"], ¬ IsMarker line := by
    unfold IsMarker
    decide +kernel
  have hend : bareLine (constant (END_MARKER ++ "\n")) = constant END_MARKER := by
    decide +kernel
  have hend' : bareLine (constant (END_MARKER ++ "\n")) ≠ constant BEGIN_MARKER := by
    decide +kernel
  have hflatten := @flatten_linesOf UInt8 _ 10 block
  rw [block_lines] at hflatten ⊢
  have hlength := congrArg List.length hflatten
  have hfold := @foldl_plain [_, _] (m.line (constant (BEGIN_MARKER ++ "\n"))) hbody
  simp only [List.flatten_cons, List.flatten_nil, List.append_nil, List.length_append,
    List.foldl_cons, List.foldl_nil] at hlength hfold ⊢
  rw [hfold, ← hlength]
  simp only [Marks.line, if_pos hbegin, if_neg hbegin', if_pos hend, if_neg hend', Nat.add_assoc]

/-- A line of a list is the first one or a later one. -/
theorem exists_split_cons {P : List Bytes → Bytes → Prop} {first : Bytes} :
    (∃ front line back, first :: lines = front ++ line :: back ∧ P front line) ↔
      P [] first ∨ ∃ front line back, lines = front ++ line :: back ∧ P (first :: front) line := by
  constructor
  · rintro ⟨front, line, back, heq, hP⟩
    cases front with
    | nil =>
      rw [List.nil_append, List.cons.injEq] at heq
      exact .inl (heq.1 ▸ hP)
    | cons other front =>
      rw [List.cons_append, List.cons.injEq] at heq
      exact .inr ⟨front, line, back, heq.2, heq.1 ▸ hP⟩
  · rintro (hP | ⟨front, line, back, heq, hP⟩)
    · exact ⟨[], first, lines, rfl, hP⟩
    · exact ⟨first :: front, line, back, by rw [heq]; rfl, hP⟩

/-- The places of the begin markers are those of the lines that are one. -/
theorem mem_begins : n ∈ (lines.foldl Marks.line m).begins ↔ n ∈ m.begins ∨
    ∃ front line back, lines = front ++ line :: back ∧ (bareLine line = constant BEGIN_MARKER ∧
      n = m.offset + front.flatten.length) := by
  induction lines generalizing m with
  | nil => simp
  | cons first lines ih =>
    have hfirst : n ∈ (m.line first).begins ↔
        n ∈ m.begins ∨ (bareLine first = constant BEGIN_MARKER ∧
          n = m.offset + ([] : List Bytes).flatten.length) := by
      unfold Marks.line
      by_cases hmarker : bareLine first = constant BEGIN_MARKER
      · simp [hmarker]
      · simp [hmarker]
    rw [List.foldl_cons, ih, hfirst, exists_split_cons, or_assoc]
    simp only [Marks.line, List.flatten_cons, List.flatten_nil, List.length_append, Nat.add_assoc]

theorem mem_ends : n ∈ (lines.foldl Marks.line m).ends ↔ n ∈ m.ends ∨
    ∃ front line back, lines = front ++ line :: back ∧ (bareLine line = constant END_MARKER ∧
      n = m.offset + (front.flatten.length + line.length)) := by
  induction lines generalizing m with
  | nil => simp
  | cons first lines ih =>
    have hfirst : n ∈ (m.line first).ends ↔ n ∈ m.ends ∨
        (bareLine first = constant END_MARKER ∧
          n = m.offset + (([] : List Bytes).flatten.length + first.length)) := by
      unfold Marks.line
      by_cases hmarker : bareLine first = constant END_MARKER
      · simp [hmarker]
      · simp [hmarker]
    rw [List.foldl_cons, ih, hfirst, exists_split_cons, or_assoc]
    simp only [Marks.line, List.flatten_cons, List.flatten_nil, List.length_append, Nat.add_assoc]

/-- The managed block at its place, and what is removed with it. -/
def blockRange (pre : Bytes) : ManagedRange :=
  ⟨pre.length - 1, pre.length, pre.length + block.length⟩

theorem foldl_around (hpre : EndsLine 10 pre) (hplain : NoMarkers pre) (hplain' : NoMarkers post) :
    (linesOf 10 (pre ++ (block ++ post))).foldl Marks.line ⟨[], [], 0⟩ =
      ⟨[pre.length], [pre.length + block.length],
        pre.length + block.length + post.length⟩ := by
  rw [linesOf_append hpre, linesOf_append endsLine_block, List.foldl_append, List.foldl_append,
    foldl_plain hplain, foldl_block, foldl_plain hplain']
  simp only [flatten_linesOf, List.nil_append, Nat.zero_add]

/-- The block is found where it stands as whole lines, without another marker. -/
theorem locate_block (hpre : EndsLine 10 pre) (hplain : NoMarkers pre)
    (hplain' : NoMarkers post) : locateManagedBlock (pre ++ (block ++ post)) =
      .ok (some (blockRange pre)) := by
  have hblock := List.length_pos_iff.mpr block_ne_nil
  have hslice : ((pre ++ (block ++ post)).take (pre.length + block.length)).drop pre.length =
      constant MANAGED_BLOCK := by
    rw [← List.append_assoc, ← List.length_append, List.take_left, List.drop_left]
    rfl
  have hstart : (if 0 < pre.length ∧ (pre ++ (block ++ post))[pre.length - 1]? = some 10
      then pre.length - 1 else pre.length) = pre.length - 1 := by
    obtain rfl | ⟨body, rfl⟩ := hpre
    · simp
    · simp
  simp only [locateManagedBlock, foldl_around hpre hplain hplain', hslice, ne_eq, not_true_eq_false,
    if_false, hstart]
  rw [if_neg (by omega)]
  rfl

theorem locate_none (h : NoMarkers text) : locateManagedBlock text = .ok none := by
  simp only [locateManagedBlock, foldl_plain h]

theorem locate_some (h : locateManagedBlock content = .ok (some range)) : ∃ start stop,
    ((linesOf 10 content).foldl Marks.line ⟨[], [], 0⟩).begins = [start] ∧
      ((linesOf 10 content).foldl Marks.line ⟨[], [], 0⟩).ends = [stop] ∧ start < stop ∧
      (content.take stop).drop start = block := by
  unfold locateManagedBlock at h
  simp only at h
  split at h
  · cases h
  · rename_i start stop hbegins hends
    split_ifs at h with horder hslice hnewline
    · exact ⟨start, stop, hbegins, hends, Nat.lt_of_not_le horder, not_ne_iff.mp hslice⟩
    · exact ⟨start, stop, hbegins, hends, Nat.lt_of_not_le horder, not_ne_iff.mp hslice⟩
  · cases h

/-- What is located is the block between texts without markers. -/
theorem exists_of_locate (h : locateManagedBlock content = .ok (some range)) :
    ∃ pre post, content = pre ++ (block ++ post) ∧ EndsLine 10 pre ∧ NoMarkers pre ∧
      NoMarkers post := by
  obtain ⟨start, stop, hbegins, hends, horder, hslice⟩ := locate_some h
  have hbegin (n : ℕ) := @mem_begins (linesOf 10 content) ⟨[], [], 0⟩ n
  have hend (n : ℕ) := @mem_ends (linesOf 10 content) ⟨[], [], 0⟩ n
  simp only [hbegins, hends, List.mem_singleton, List.not_mem_nil, false_or, Nat.zero_add]
    at hbegin hend
  obtain ⟨front, first, back, hlines, -, hstart⟩ := (hbegin start).mp rfl
  have hflatten := @flatten_linesOf UInt8 _ 10 content
  rw [hlines, List.flatten_append, List.flatten_cons] at hflatten
  have hpre : content.take start = front.flatten := by
    rw [← hflatten, hstart, List.take_left]
  have hcontent : content = front.flatten ++ (block ++ content.drop stop) := by
    have htake := List.take_append_drop start (content.take stop)
    rw [List.take_take, Nat.min_eq_left horder.le, hslice, hpre] at htake
    rw [← List.append_assoc, htake, List.take_append_drop]
  obtain ⟨front', last, back', hlines', -, hstop'⟩ := (hend stop).mp rfl
  have hshort : stop ≤ content.length := by
    have hflatten' := @flatten_linesOf UInt8 _ 10 content
    rw [hlines', List.flatten_append, List.flatten_cons] at hflatten'
    have hlength := congrArg List.length hflatten'
    rw [List.length_append, List.length_append] at hlength
    omega
  have hstop : stop = front.flatten.length + block.length := by
    have hlength := congrArg List.length hslice
    have htotal := congrArg List.length hcontent
    simp only [List.length_drop, List.length_take, List.length_append] at hlength htotal
    have hblock := List.length_pos_iff.mpr block_ne_nil
    omega
  have hends : EndsLine 10 front.flatten := endsLine_of_linesOf hlines
  refine ⟨front.flatten, content.drop stop, hcontent, hends, ?_, ?_⟩
  · intro line hline hmarker
    have hpos := List.length_pos_iff.mpr (ne_nil_of_mem_linesOf hline)
    obtain ⟨front', back', hsplit⟩ := List.append_of_mem hline
    have hwhole : linesOf 10 content =
        front' ++ line :: (back' ++ linesOf 10 (block ++ content.drop stop)) := by
      conv_lhs => rw [hcontent]
      rw [linesOf_append hends, hsplit, List.append_assoc, List.cons_append]
    have hlength : front.flatten.length = front'.flatten.length +
        (line.length + back'.flatten.length) := by
      rw [← @flatten_linesOf UInt8 _ 10 front.flatten, hsplit]
      simp
    rcases hmarker with hmarker | hmarker
    · have hplace := (hbegin _).mpr ⟨_, _, _, hwhole, hmarker, rfl⟩
      omega
    · have hplace := (hend _).mpr ⟨_, _, _, hwhole, hmarker, rfl⟩
      omega
  · intro line hline hmarker
    have hpos := List.length_pos_iff.mpr (ne_nil_of_mem_linesOf hline)
    obtain ⟨front', back', hsplit⟩ := List.append_of_mem hline
    have hbefore := hends.append endsLine_block
    have hwhole : linesOf 10 content =
        (linesOf 10 (front.flatten ++ block) ++ front') ++ line :: back' := by
      conv_lhs => rw [hcontent]
      rw [← List.append_assoc, linesOf_append hbefore, hsplit, List.append_assoc]
    rcases hmarker with hmarker | hmarker
    · have hplace := (hbegin _).mpr ⟨_, _, _, hwhole, hmarker, rfl⟩
      rw [List.flatten_append, flatten_linesOf, List.length_append, List.length_append] at hplace
      omega
    · have hplace := (hend _).mpr ⟨_, _, _, hwhole, hmarker, rfl⟩
      rw [List.flatten_append, flatten_linesOf, List.length_append, List.length_append] at hplace
      omega

theorem locate_iff : locateManagedBlock content = .ok (some range) ↔
    ∃ pre post, content = pre ++ (block ++ post) ∧ EndsLine 10 pre ∧ NoMarkers pre ∧
      NoMarkers post ∧ range = blockRange pre := by
  constructor
  · intro h
    obtain ⟨pre, post, rfl, hpre, hplain, hplain'⟩ := exists_of_locate h
    refine ⟨pre, post, rfl, hpre, hplain, hplain', ?_⟩
    exact Option.some.inj (Except.ok.inj (h.symm.trans (locate_block hpre hplain hplain')))
  · rintro ⟨pre, post, rfl, hpre, hplain, hplain', rfl⟩
    exact locate_block hpre hplain hplain'

end Blocks

section Edits

variable {original front back x y before after : Bytes}

theorem newlines_rotate {body : Bytes} : 10 :: body = body ++ [10] ↔ ∀ byte ∈ body, byte = 10 := by
  induction body with
  | nil => simp
  | cons byte body ih =>
    rw [List.forall_mem_cons, List.cons_append, List.cons.injEq]
    constructor
    · rintro ⟨rfl, h⟩
      exact ⟨rfl, ih.mp h⟩
    · rintro ⟨rfl, h⟩
      exact ⟨rfl, ih.mpr h⟩

/-- What `append_managed_block` puts between the configuration and the block. -/
def separator (original : Bytes) : Bytes :=
  if original = [] then [] else [10]

theorem appendManagedBlock_eq :
    appendManagedBlock original = original ++ separator original ++ block := by
  unfold appendManagedBlock separator
  split_ifs with h
  · rw [h, List.append_nil, List.nil_append, block]
  · rw [List.append_assoc, List.singleton_append, block]

/-- The original with the two texts at their places, each line of it as it was. -/
structure GivesBack (original : Bytes) (n : ℕ) (x y result : Bytes) : Prop where
  bytes : result = original.take n ++ (x ++ (original.drop n ++ y))
  lines : linesOf 10 result = linesOf 10 (original.take n) ++
    (linesOf 10 x ++ (linesOf 10 (original.drop n) ++ linesOf 10 y))

/-- Nothing but empty lines is inserted directly before the block, and before an empty
configuration nothing at all; and a configuration without a final newline has nothing inserted
behind it. -/
structure Kept (original back x y : Bytes) : Prop where
  before : x = [] ∨ back ≠ [] ∨ original ≠ [] ∧ ∀ byte ∈ x, byte = 10
  after : EndsLine 10 original ∨ y = [] ∧ (x = [] ∨ back ≠ [])

theorem givesBack_empty (hx : EndsLine 10 x) :
    GivesBack [] 0 x y (x.dropLast ++ y) ↔ Kept [] [] x y := by
  constructor
  · rintro ⟨hbytes, -⟩
    have hnil : x = [] := by
      have hlength := congrArg List.length hbytes
      simp only [List.take_nil, List.drop_nil, List.nil_append, List.length_append,
        List.length_dropLast] at hlength
      exact List.eq_nil_of_length_eq_zero (by omega)
    exact ⟨.inl hnil, .inl (.inl rfl)⟩
  · rintro ⟨hbefore, -⟩
    obtain rfl : x = [] := by simpa using hbefore
    exact ⟨rfl, rfl⟩

/-- An insertion within the configuration. -/
theorem givesBack_within (hfront : EndsLine 10 front) (hx : EndsLine 10 x) :
    GivesBack (front ++ back) front.length x y (front ++ (x ++ (back ++ y))) ↔
      Kept (front ++ back) (back ++ [10]) x y := by
  have hlines : linesOf 10 (front ++ (x ++ (back ++ y))) =
      linesOf 10 front ++ (linesOf 10 x ++ linesOf 10 (back ++ y)) := by
    rw [linesOf_append hfront, linesOf_append hx]
  have hends : (EndsLine 10 back ∨ y = []) ↔ Kept (front ++ back) (back ++ [10]) x y := by
    rw [← endsLine_append_iff hfront]
    have hne : back ++ [10] ≠ [] := by simp
    constructor
    · exact fun h => ⟨.inr (.inl hne), h.imp id fun hy => ⟨hy, .inr hne⟩⟩
    · exact fun h => h.after.imp id And.left
  rw [← hends, ← linesOf_append_iff]
  constructor
  · rintro ⟨-, h⟩
    rw [List.take_left, List.drop_left, hlines] at h
    exact List.append_cancel_left (List.append_cancel_left h)
  · intro h
    refine ⟨by rw [List.take_left, List.drop_left], ?_⟩
    rw [List.take_left, List.drop_left, hlines, h]

/-- An insertion directly before the block. -/
theorem givesBack_behind (hne : original ≠ []) (hx : EndsLine 10 x) :
    GivesBack original (original.length + 1) x y ((original ++ ([10] ++ x)).dropLast ++ y) ↔
      Kept original [] x y := by
  have htake : original.take (original.length + 1) = original := List.take_of_length_le (by omega)
  have hdrop : original.drop (original.length + 1) = [] := List.drop_eq_nil_of_le (by omega)
  obtain rfl | ⟨body, rfl⟩ := hx
  · have hresult : (original ++ ([10] ++ [])).dropLast ++ y = original ++ y := by simp
    have hkept : Kept original [] [] y ↔ EndsLine 10 original ∨ y = [] :=
      ⟨fun h => h.after.imp id And.left, fun h => ⟨.inl rfl, h.imp id fun hy => ⟨hy, .inl rfl⟩⟩⟩
    rw [hresult, hkept, ← linesOf_append_iff]
    constructor
    · rintro ⟨-, h⟩
      rwa [htake, hdrop] at h
    · intro h
      exact ⟨by rw [htake, hdrop]; rfl, by rw [htake, hdrop]; exact h⟩
  · have hresult : (original ++ ([10] ++ (body ++ [10]))).dropLast ++ y =
        original ++ (10 :: body ++ y) := by
      have hlast : original ++ ([10] ++ (body ++ [10])) = (original ++ 10 :: body) ++ [10] := by simp
      rw [hlast, List.dropLast_concat, List.append_assoc]
    have hbytes : original ++ (10 :: body ++ y) = original ++ (body ++ [10] ++ y) ↔
        ∀ byte ∈ body ++ [10], byte = 10 := by
      rw [List.append_cancel_left_eq, List.append_cancel_right_eq, newlines_rotate]
      simp [or_imp]
    have hlines : linesOf 10 (original ++ (body ++ [10] ++ y)) =
        linesOf 10 original ++ (linesOf 10 (body ++ [10]) ++ linesOf 10 y) ↔
          EndsLine 10 original := by
      rw [← linesOf_append (.inr ⟨body, rfl⟩), linesOf_append_iff]
      exact or_iff_left (by simp)
    have hkept : Kept original [] (body ++ [10]) y ↔
        (∀ byte ∈ body ++ [10], byte = 10) ∧ EndsLine 10 original := by
      have hinserted : body ++ [10] ≠ [] := by simp
      constructor
      · rintro ⟨hbefore, hafter⟩
        refine ⟨?_, ?_⟩
        · obtain hnil | hnil | hplain := hbefore
          · exact absurd hnil hinserted
          · exact absurd rfl hnil
          · exact hplain.2
        · obtain hends | ⟨-, hnil | hnil⟩ := hafter
          · exact hends
          · exact absurd hnil hinserted
          · exact absurd rfl hnil
      · exact fun h => ⟨.inr (.inr ⟨hne, h.1⟩), .inl h.2⟩
    rw [hresult, hkept]
    constructor
    · rintro ⟨hequal, hsame⟩
      rw [htake, hdrop, List.nil_append] at hequal
      rw [htake, hdrop, hequal] at hsame
      exact ⟨hbytes.mp hequal, hlines.mp hsame⟩
    · rintro ⟨hplain, hends⟩
      have hequal := hbytes.mpr hplain
      refine ⟨by rw [htake, hdrop]; exact hequal, ?_⟩
      rw [htake, hdrop, hequal]
      exact hlines.mpr hends

end Edits

section Sessions

variable {original front back x y pre post : Bytes} {files after : Files} {faults : Faults}

theorem noMarkers_separator (h : NoMarkers original) :
    NoMarkers (original ++ separator original) := by
  unfold separator
  split_ifs with hnil
  · rwa [List.append_nil]
  · have hempty : ¬ IsMarker [10] := by
      unfold IsMarker
      decide +kernel
    by_cases hends : EndsLine 10 original
    · intro line hline
      rw [linesOf_append hends, List.mem_append] at hline
      rcases hline with hline | hline
      · exact h line hline
      · have hsingle : linesOf (10 : UInt8) [10] = [[10]] := rfl
        rw [hsingle, List.mem_singleton] at hline
        rwa [hline]
    · obtain ⟨whole, last, rfl, hwhole, hlast⟩ := exists_last_line 10 original
      have hne : last ≠ [] := by
        rintro rfl
        exact hends (by rwa [List.append_nil])
      have hbare : bareLine (last ++ [10]) = bareLine last := by
        have hkeep : last.getLast? ≠ some 10 := fun heq => hlast (List.mem_of_getLast? heq)
        simp [bareLine, stripSuffix, hkeep]
      have hlines : linesOf 10 (last ++ [10]) = [last ++ [10]] := linesOf_append_sep hlast
      have hplain : ¬ IsMarker last := by
        refine h last ?_
        rw [linesOf_append hwhole, linesOf_no_sep hlast, if_neg hne]
        exact List.mem_append_right _ (List.mem_singleton_self _)
      intro line hline
      rw [List.append_assoc, linesOf_append hwhole, hlines, List.mem_append] at hline
      rcases hline with hline | hline
      · refine h line ?_
        rw [linesOf_append hwhole]
        exact List.mem_append_left _ hline
      · rw [List.mem_singleton.mp hline, IsMarker, hbare]
        exact hplain

theorem noMarkers_append (h : EndsLine 10 pre) :
    NoMarkers (pre ++ post) ↔ NoMarkers pre ∧ NoMarkers post := by
  rw [NoMarkers, linesOf_append h]
  simp only [List.mem_append, or_imp, forall_and]
  rfl

theorem attempt_eq_none_iff {fault : Option String} {next : Outcome} :
    attempt fault files next = (after, none) ↔ fault = none ∧ next = (after, none) := by
  cases fault with
  | none => exact (and_iff_right rfl).symm
  | some error => exact iff_of_false nofun nofun

/-- A successful enable has added the block. -/
theorem enable_config (hplain : NoMarkers (files.config.getD []))
    (h : enableFiles faults files = (after, none)) :
    after.config = some (appendManagedBlock (files.config.getD [])) := by
  unfold enableFiles at h
  obtain ⟨-, h⟩ := attempt_eq_none_iff.mp h
  simp only at h
  split at h
  · cases h
  · rw [locate_none hplain] at h
    obtain ⟨-, h⟩ := attempt_eq_none_iff.mp h
    split at h
    · split_ifs at h
      · obtain ⟨-, h⟩ := attempt_eq_none_iff.mp h
        cases h
        rfl
      · cases h
    · obtain ⟨-, h⟩ := attempt_eq_none_iff.mp h
      split at h
      · cases h
      · cases h
        rfl

theorem drain_blockRange :
    drain (pre ++ (block ++ post)) (blockRange pre).removalStart (blockRange pre).stop =
      pre.dropLast ++ post := by
  have htake : (pre ++ (block ++ post)).take (pre.length - 1) = pre.dropLast := by
    rw [List.take_append_of_le_length (by omega), List.dropLast_eq_take]
  have hdrop : (pre ++ (block ++ post)).drop (pre.length + block.length) = post := by
    rw [← List.append_assoc, ← List.length_append, List.drop_left]
  rw [drain, blockRange, htake, hdrop]

/-- A rollback is the end of a failed call. -/
theorem rollbackConfig_ne {before changed : Files} {error : String} :
    rollbackConfig faults before changed error ≠ (after, none) := by
  unfold rollbackConfig
  cases faults.rollback with
  | none => exact nofun
  | some error => exact nofun

/-- A successful disable has removed the block. -/
theorem disable_config (hpre : EndsLine 10 pre) (hplain : NoMarkers pre) (hplain' : NoMarkers post)
    (hconfig : files.config = some (pre ++ (block ++ post)))
    (h : disable faults files = (after, none)) : after.config = some (pre.dropLast ++ post) := by
  unfold disable at h
  obtain ⟨-, h⟩ := attempt_eq_none_iff.mp h
  rw [hconfig] at h
  simp only at h
  split at h
  · cases h
  · rw [locate_block hpre hplain hplain'] at h
    simp only [drain_blockRange] at h
    obtain ⟨-, h⟩ := attempt_eq_none_iff.mp h
    split_ifs at h
    · cases h
      rfl
    · split at h
      · exact absurd h rollbackConfig_ne
      · split at h
        · cases h
          rfl
        · split_ifs at h
          · exact absurd h rollbackConfig_ne
          · split at h
            · exact absurd h rollbackConfig_ne
            · cases h
              rfl

end Sessions

/-- What the locator says of a text: it finds the block just where it stands once, as whole lines
and without another marker, and takes the newline before it along. -/
def LocatesExactly (content : Bytes) : Prop :=
  ∀ range, locateManagedBlock content = .ok (some range) ↔
    ∃ pre post, content = pre ++ (block ++ post) ∧ EndsLine 10 pre ∧ NoMarkers pre ∧
      NoMarkers post ∧ range = blockRange pre

/-- The persistence is turned on, whole lines are inserted before and after the block, and it is
turned off again, each without an error. -/
structure Session where
  files : Files
  enabled : Files
  disabled : Files
  faults : Faults
  faults' : Faults
  front : Bytes
  back : Bytes
  x : Bytes
  y : Bytes
  plain : NoMarkers (files.config.getD [])
  plainBefore : NoMarkers x
  plainAfter : NoMarkers y
  enable : enableFiles faults files = (enabled, none)
  place : enabled.config = some (front ++ (back ++ block))
  lineStart : EndsLine 10 front
  wholeLines : EndsLine 10 x
  disable : disable faults' { enabled with config := some (front ++ (x ++ (back ++ (block ++ y)))) } =
    (disabled, none)

def Session.original (s : Session) : Bytes := s.files.config.getD []

theorem Session.front_back (s : Session) :
    s.front ++ s.back = s.original ++ separator s.original := by
  have hplace := s.place.symm.trans (enable_config s.plain s.enable)
  rw [appendManagedBlock_eq, ← List.append_assoc] at hplace
  exact List.append_cancel_right (Option.some.inj hplace)

theorem Session.endsLine_before (s : Session) : EndsLine 10 (s.front ++ (s.x ++ s.back)) := by
  refine s.lineStart.append (s.wholeLines.append ?_)
  rw [← endsLine_append_iff s.lineStart, s.front_back]
  unfold separator
  split_ifs with hnil
  · exact .inl (by rw [hnil]; rfl)
  · exact .inr ⟨_, rfl⟩

theorem Session.result (s : Session) :
    s.disabled.config = some ((s.front ++ (s.x ++ s.back)).dropLast ++ s.y) := by
  have hseparated := noMarkers_separator s.plain
  rw [← Session.original, ← s.front_back, noMarkers_append s.lineStart] at hseparated
  have hplain : NoMarkers (s.front ++ (s.x ++ s.back)) :=
    (noMarkers_append s.lineStart).mpr
      ⟨hseparated.1, (noMarkers_append s.wholeLines).mpr ⟨s.plainBefore, hseparated.2⟩⟩
  refine disable_config s.endsLine_before hplain s.plainAfter ?_ s.disable
  simp

/-- The user gets the configuration back with the insertions just when these keep away from the
newline that is removed with the block; the locator is exact on every text. -/
theorem session_gives_back_iff (s : Session) :
    ((∀ result, s.disabled.config = some result →
        GivesBack s.original s.front.length s.x s.y result) ∧
      ∀ content, LocatesExactly content) ↔ Kept s.original s.back s.x s.y := by
  have hlocates : ∀ content, LocatesExactly content := fun _ _ => locate_iff
  rw [and_iff_left hlocates]
  simp only [s.result, Option.some.injEq, forall_eq']
  have hsplit := s.front_back
  by_cases hnil : s.original = []
  · rw [hnil, separator, if_pos rfl, List.append_nil, List.append_eq_nil_iff] at hsplit
    rw [hnil, hsplit.1, hsplit.2, List.nil_append, List.append_nil]
    exact givesBack_empty s.wholeLines
  · rw [separator, if_neg hnil] at hsplit
    rcases List.eq_nil_or_concat' s.back with hback | ⟨back, byte, hback⟩
    · rw [hback, List.append_nil] at hsplit
      rw [hback, hsplit, List.append_nil, List.append_assoc, List.length_append]
      exact givesBack_behind hnil s.wholeLines
    · rw [hback, ← List.append_assoc] at hsplit
      obtain ⟨horiginal, hbyte⟩ := List.append_inj' hsplit rfl
      have hresult : (s.front ++ (s.x ++ (back ++ [byte]))).dropLast =
          s.front ++ (s.x ++ back) := by
        simp only [← List.append_assoc, List.dropLast_concat]
      rw [hback, ← horiginal, hresult, hbyte, List.append_assoc, List.append_assoc]
      exact givesBack_within s.lineStart s.wholeLines

/-! ## One session -/

def noFaults : Faults := ⟨none, none, none, none, none, none⟩

theorem enable_noFaults {text : Text} (h : NoMarkers (utf8Bytes text)) :
    enableFiles noFaults ⟨some (utf8Bytes text), none⟩ =
      (⟨some (appendManagedBlock (utf8Bytes text)), some (constant MANAGED_FRAGMENT)⟩, none) := by
  simp [enableFiles, attempt, noFaults, locate_none h]

theorem disable_noFaults {text : Text} {range : ManagedRange}
    (h : locateManagedBlock (utf8Bytes text) = .ok (some range)) :
    disable noFaults ⟨some (utf8Bytes text), some (constant MANAGED_FRAGMENT)⟩ =
      ((disable noFaults ⟨some (utf8Bytes text), some (constant MANAGED_FRAGMENT)⟩).1, none) := by
  refine Prod.ext rfl ?_
  simp only [disable, attempt, noFaults, decodeUtf8_utf8Bytes, h, ne_eq, not_true_eq_false,
    if_false]
  split
  · rfl
  · rfl

def hostsText (before after : String) : Text :=
  before.toList ++ (MANAGED_BLOCK.toList ++ after.toList)

theorem hostsText_bytes (before after : String) :
    utf8Bytes (hostsText before after) = constant before ++ (block ++ constant after) := by
  rw [hostsText, utf8Bytes_append, utf8Bytes_append]
  rfl

/-- A host is added directly before the block and another one behind it. -/
def hosts : Session where
  files := ⟨some (constant "Host a\n"), none⟩
  enabled := ⟨some (appendManagedBlock (constant "Host a\n")), some (constant MANAGED_FRAGMENT)⟩
  disabled := (disable noFaults ⟨some (utf8Bytes (hostsText "Host a\n\nHost b\n" "Host c\n")),
    some (constant MANAGED_FRAGMENT)⟩).1
  faults := noFaults
  faults' := noFaults
  front := constant "Host a\n\n"
  back := []
  x := constant "Host b\n"
  y := constant "Host c\n"
  plain := by
    unfold NoMarkers IsMarker
    decide +kernel
  plainBefore := by
    unfold NoMarkers IsMarker
    decide +kernel
  plainAfter := by
    unfold NoMarkers IsMarker
    decide +kernel
  enable := by
    refine enable_noFaults ?_
    unfold NoMarkers IsMarker
    decide +kernel
  place := by decide +kernel
  lineStart := by decide +kernel
  wholeLines := by decide +kernel
  disable := by
    have hbefore : NoMarkers (constant "Host a\n\nHost b\n") := by
      unfold NoMarkers IsMarker
      decide +kernel
    have hafter : NoMarkers (constant "Host c\n") := by
      unfold NoMarkers IsMarker
      decide +kernel
    have hlocated := locate_block (by decide +kernel) hbefore hafter
    rw [← hostsText_bytes] at hlocated
    have hcontent : constant "Host a\n\n" ++ (constant "Host b\n" ++ ([] ++
        (block ++ constant "Host c\n"))) =
        utf8Bytes (hostsText "Host a\n\nHost b\n" "Host c\n") := by
      rw [hostsText_bytes]
      decide +kernel
    rw [hcontent]
    exact disable_noFaults hlocated

/-- The last line before the block and the first line behind it become one. -/
theorem inserted_lines_are_joined :
    hosts.disabled.config = some (constant "Host a\n\nHost bHost c\n") ∧
      ¬ GivesBack hosts.original hosts.front.length hosts.x hosts.y
        (constant "Host a\n\nHost bHost c\n") := by
  constructor
  · rw [hosts.result]
    decide +kernel
  · intro h
    have hbytes := h.bytes
    revert hbytes
    decide +kernel

end SecurityKeys.Ssh
