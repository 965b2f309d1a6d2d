import Mathlib.Data.List.Basic
import Mathlib.Tactic

/-!
# Passes over a text

A pass reads a text from the left and replaces what it finds, without looking at what it has put
in. What it makes of the text depends on the text and on the places of what it finds alone.
-/

namespace TextPasses

variable {α ι : Type*}

/-- A piece of a text: a character that is kept, or something that was found. -/
inductive Piece (ι α : Type*)
  | plain (a : α)
  | found (i : ι) (old : List α)

section Scanning

/-- The pieces of a text. What stands at a place is found from the character before it and from
the text behind it, and is skipped by its length. -/
def scanFrom (find : Option α → List α → Option (ι × ℕ)) :
    Option α → ℕ → List α → List (Piece ι α)
  | _, _, [] => []
  | _, skip + 1, a :: rest => scanFrom find (some a) skip rest
  | prev, 0, a :: rest =>
    match find prev (a :: rest) with
    | none => .plain a :: scanFrom find (some a) 0 rest
    | some (i, n) => .found i ((a :: rest).take n) :: scanFrom find (some a) (n - 1) rest

def scan (find : Option α → List α → Option (ι × ℕ)) (text : List α) : List (Piece ι α) :=
  scanFrom find none 0 text

def Piece.fill (new : ι → List α → List α) : Piece ι α → List α
  | plain a => [a]
  | found i old => new i old

/-- The text of the pieces, with what was found replaced. -/
def fill (new : ι → List α → List α) (pieces : List (Piece ι α)) : List α :=
  pieces.flatMap (Piece.fill new)

variable {find : Option α → List α → Option (ι × ℕ)} {new new' : ι → List α → List α}
  {pieces : List (Piece ι α)}

@[simp] theorem fill_nil : fill new ([] : List (Piece ι α)) = [] := rfl

@[simp] theorem fill_plain (a : α) : fill new (.plain a :: pieces) = a :: fill new pieces := rfl

@[simp] theorem fill_found (i : ι) (old : List α) :
    fill new (.found i old :: pieces) = new i old ++ fill new pieces := rfl

theorem fill_congr (h : ∀ i old, Piece.found i old ∈ pieces → new i old = new' i old) :
    fill new pieces = fill new' pieces := by
  refine List.flatMap_congr fun piece hpiece => ?_
  cases piece with
  | plain a => rfl
  | found i old => exact h i old hpiece

/-- The pieces are those of the text. -/
theorem fill_old_scanFrom (hfind : ∀ prev text i n, find prev text = some (i, n) → 0 < n)
    (prev : Option α) (skip : ℕ) (text : List α) :
    fill (fun _ old => old) (scanFrom find prev skip text) = text.drop skip := by
  fun_induction scanFrom find prev skip text with
  | case1 => simp
  | case2 prev skip a rest ih => simpa using ih
  | case3 prev a rest hnone ih => simpa using ih
  | case4 prev a rest i n hsome ih =>
    obtain ⟨k, rfl⟩ : ∃ k, n = k + 1 := ⟨n - 1, by have := hfind _ _ _ _ hsome; omega⟩
    rw [Nat.add_sub_cancel] at ih
    simp [ih]

theorem mem_scanFrom {prev : Option α} {skip : ℕ} {text : List α} {i : ι} {old : List α}
    (h : Piece.found i old ∈ scanFrom find prev skip text) :
    ∃ before rest n, find before rest = some (i, n) ∧ old = rest.take n := by
  fun_induction scanFrom find prev skip text with
  | case1 => cases h
  | case2 prev skip a rest ih => exact ih h
  | case3 prev a rest hnone ih =>
    rcases List.mem_cons.mp h with heq | h
    · cases heq
    · exact ih h
  | case4 prev a rest j n hsome ih =>
    rcases List.mem_cons.mp h with heq | h
    · cases heq
      exact ⟨prev, a :: rest, n, hsome, rfl⟩
    · exact ih h

theorem mem_fill_scanFrom {prev : Option α} {skip : ℕ} {text put : List α} {c : α}
    (h : c ∈ fill (fun _ _ => put) (scanFrom find prev skip text)) : c ∈ text ∨ c ∈ put := by
  fun_induction scanFrom find prev skip text with
  | case1 => cases h
  | case2 prev skip a rest ih => exact (ih h).imp_left (List.mem_cons_of_mem a)
  | case3 prev a rest hnone ih =>
    rcases List.mem_cons.mp h with rfl | h
    · exact .inl List.mem_cons_self
    · exact (ih h).imp_left (List.mem_cons_of_mem a)
  | case4 prev a rest i n hsome ih =>
    rcases List.mem_append.mp h with h | h
    · exact .inr h
    · exact (ih h).imp_left (List.mem_cons_of_mem a)

theorem scanFrom_skip (front rest : List α) (prev : Option α) :
    scanFrom find prev front.length (front ++ rest) =
      scanFrom find (front.getLast?.or prev) 0 rest := by
  induction front generalizing prev with
  | nil => rfl
  | cons a front ih =>
    rw [List.length_cons, List.cons_append, scanFrom, ih]
    cases front <;> simp [List.getLast?_cons]

theorem scanFrom_found {prev : Option α} {old rest : List α} {i : ι} (hne : old ≠ [])
    (h : find prev (old ++ rest) = some (i, old.length)) :
    scanFrom find prev 0 (old ++ rest) =
      .found i old :: scanFrom find old.getLast? 0 rest := by
  obtain ⟨a, front, rfl⟩ := List.exists_cons_of_ne_nil hne
  rw [List.cons_append] at h ⊢
  rw [scanFrom, h]
  simp only [List.length_cons, Nat.add_sub_cancel, scanFrom_skip, List.take_succ_cons,
    List.take_left]
  cases front <;> simp [List.getLast?_cons]

end Scanning

section Places

/-- The texts of pieces with a mark at those that are to be replaced. -/
def marked (new : ι → List α → List α) (sel : ι → Bool) (pieces : List (Piece ι α)) :
    List (List α × Bool) :=
  pieces.map fun piece => (piece.fill new, match piece with
    | .plain _ => false
    | .found i _ => sel i)

/-- The places of the marks, counted from `n`. -/
def places : ℕ → List (List α × Bool) → List ℕ
  | _, [] => []
  | n, (text, mark) :: texts =>
    if mark then n :: places (n + text.length) texts else places (n + text.length) texts

def replaced (new : List α) (texts : List (List α × Bool)) : List α :=
  texts.flatMap fun text => if text.2 then new else text.1

/-- What a pass makes of a text when it finds something of length `width` at the places. -/
def splice (width : ℕ) (new : List α) : ℕ → ℕ → List ℕ → List α → List α
  | _, _, _, [] => []
  | n, skip + 1, found, _ :: rest => splice width new (n + 1) skip found rest
  | n, 0, [], a :: rest => a :: splice width new (n + 1) 0 [] rest
  | n, 0, place :: found, a :: rest =>
    if place = n then new ++ splice width new (n + 1) (width - 1) found rest
    else a :: splice width new (n + 1) 0 (place :: found) rest

variable {width n : ℕ} {new : List α} {found : List ℕ} {texts texts' : List (List α × Bool)}

theorem le_of_mem_places : ∀ p ∈ places n texts, n ≤ p := by
  induction texts generalizing n with
  | nil => simp [places]
  | cons text texts ih =>
    intro p hp
    rw [places] at hp
    split at hp
    · rcases List.mem_cons.mp hp with rfl | hp
      · exact le_rfl
      · exact (Nat.le_add_right _ _).trans (ih p hp)
    · exact (Nat.le_add_right _ _).trans (ih p hp)

theorem splice_skip (front rest : List α) :
    splice width new n front.length found (front ++ rest) =
      splice width new (n + front.length) 0 found rest := by
  induction front generalizing n with
  | nil => rfl
  | cons a front ih =>
    rw [List.length_cons, List.cons_append, splice, ih, Nat.add_right_comm, Nat.add_assoc]

theorem splice_keep (front rest : List α) (h : ∀ p ∈ found, n + front.length ≤ p) :
    splice width new n 0 found (front ++ rest) =
      front ++ splice width new (n + front.length) 0 found rest := by
  induction front generalizing n with
  | nil => rfl
  | cons a front ih =>
    have hnext : ∀ p ∈ found, n + 1 + front.length ≤ p := by
      intro p hp
      have := h p hp
      rw [List.length_cons] at this
      omega
    have hlength : n + (a :: front).length = n + 1 + front.length := by
      rw [List.length_cons]
      omega
    rw [hlength, List.cons_append, List.cons_append, ← ih hnext]
    cases found with
    | nil => rw [splice]
    | cons place found =>
      have hplace := h place List.mem_cons_self
      rw [List.length_cons] at hplace
      rw [splice, if_neg (by omega)]

theorem replaced_eq_splice (hwidth : 0 < width)
    (htexts : ∀ text ∈ texts, text.2 = true → text.1.length = width) :
    replaced new texts =
      splice width new n 0 (places n texts) (texts.flatMap Prod.fst) := by
  induction texts generalizing n with
  | nil => rfl
  | cons text texts ih =>
    obtain ⟨old, mark⟩ := text
    have hrest : ∀ text ∈ texts, text.2 = true → text.1.length = width :=
      fun text htext => htexts text (List.mem_cons_of_mem _ htext)
    cases mark with
    | false =>
      rw [places, if_neg Bool.false_ne_true, List.flatMap_cons,
        splice_keep old _ le_of_mem_places, ← ih hrest]
      rfl
    | true =>
      have hold : old.length = width := htexts _ List.mem_cons_self rfl
      obtain ⟨a, front, rfl⟩ := List.exists_cons_of_length_pos (hold ▸ hwidth)
      have hfront : width - 1 = front.length := by
        rw [List.length_cons] at hold
        omega
      rw [places, if_pos rfl, List.flatMap_cons, List.cons_append, splice, if_pos rfl, hfront,
        splice_skip, List.length_cons, Nat.add_comm front.length 1, ← Nat.add_assoc, ← ih hrest]
      rfl

/-- Texts that are the same and have the same places are the same when they are replaced. -/
theorem replaced_eq_of_places (hwidth : 0 < width)
    (htexts : ∀ text ∈ texts, text.2 = true → text.1.length = width)
    (htexts' : ∀ text ∈ texts', text.2 = true → text.1.length = width)
    (heq : texts.flatMap Prod.fst = texts'.flatMap Prod.fst)
    (hplaces : places 0 texts = places 0 texts') :
    replaced new texts = replaced new texts' := by
  rw [replaced_eq_splice hwidth htexts, replaced_eq_splice hwidth htexts', heq, hplaces]

/-- Every replacement changes the length by the same amount. -/
theorem length_replaced (htexts : ∀ text ∈ texts, text.2 = true → text.1.length = width) :
    (replaced new texts).length + width * (places n texts).length =
      (texts.flatMap Prod.fst).length + new.length * (places n texts).length := by
  induction texts generalizing n with
  | nil => rfl
  | cons text texts ih =>
    obtain ⟨old, mark⟩ := text
    have hrest := @ih (n + old.length) fun text htext =>
      htexts text (List.mem_cons_of_mem _ htext)
    cases mark with
    | false =>
      simp only [replaced, places, List.flatMap_cons, List.length_append, Bool.false_eq_true,
        if_false] at hrest ⊢
      omega
    | true =>
      have hold : old.length = width := htexts _ List.mem_cons_self rfl
      simp only [replaced, places, List.flatMap_cons, List.length_append, List.length_cons,
        if_true, Nat.mul_succ] at hrest ⊢
      omega

end Places

section Rules

/-- What a pass with one pattern looks for. -/
structure Rule (α : Type*) where
  width : ℕ
  positive : 0 < width
  hit : Option α → List α → Bool
  fits : ∀ prev text, hit prev text = true → width ≤ text.length

/-- `str.replace` looks for a text that is not empty. -/
def literal [BEq α] [LawfulBEq α] (pattern : List α) (h : 0 < pattern.length) : Rule α where
  width := pattern.length
  positive := h
  hit _ text := pattern.isPrefixOf text
  fits _ _ hit := (List.isPrefixOf_iff_prefix.mp hit).length_le

variable (rule : Rule α)

def Rule.find (prev : Option α) (text : List α) : Option (Unit × ℕ) :=
  if rule.hit prev text then some ((), rule.width) else none

def passFrom (new : List α) (prev : Option α) (skip : ℕ) (text : List α) : List α :=
  fill (fun _ _ => new) (scanFrom rule.find prev skip text)

def pass (new text : List α) : List α := passFrom rule new none 0 text

/-- The places at which a pass replaces. -/
def Rule.places (text : List α) : List ℕ :=
  TextPasses.places 0 (marked (fun _ old => old) (fun _ => true) (scan rule.find text))

variable {rule} {new text rest : List α} {prev : Option α} {a : α} {skip : ℕ}
  {pieces : List (Piece ι α)} {f : ι → List α → List α} {sel : ι → Bool}

theorem Rule.find_eq_some {i : Unit} {n : ℕ} (h : rule.find prev text = some (i, n)) :
    n = rule.width ∧ rule.hit prev text = true := by
  unfold Rule.find at h
  split at h
  · rename_i hit
    cases h
    exact ⟨rfl, hit⟩
  · cases h

theorem replaced_marked :
    replaced new (marked f sel pieces) =
      fill (fun i old => if sel i then new else f i old) pieces := by
  rw [replaced, marked, List.flatMap_map]
  refine List.flatMap_congr fun piece _ => ?_
  cases piece <;> rfl

theorem flatMap_marked : (marked f sel pieces).flatMap Prod.fst = fill f pieces := by
  rw [marked, List.flatMap_map]
  rfl

theorem pass_eq_replaced : pass rule new text =
    replaced new (marked (fun _ old => old) (fun _ => true) (scan rule.find text)) := by
  rw [replaced_marked]
  rfl

theorem fill_old_scan : fill (fun _ old => old) (scan rule.find text) = text := by
  rw [scan, fill_old_scanFrom, List.drop_zero]
  intro prev text i n hfind
  rw [(Rule.find_eq_some hfind).1]
  exact rule.positive

theorem width_of_mem_marked {width : ℕ}
    (h : ∀ i old, Piece.found i old ∈ pieces → sel i = true → (f i old).length = width) :
    ∀ text ∈ marked f sel pieces, text.2 = true → text.1.length = width := by
  intro text htext hmark
  obtain ⟨piece, hpiece, rfl⟩ := List.mem_map.mp htext
  cases piece with
  | plain a => cases hmark
  | found i old => exact h i old hpiece hmark

theorem width_of_mem_scan :
    ∀ entry ∈ marked (fun _ old => old) (fun _ => true) (scan rule.find text),
      entry.2 = true → entry.1.length = rule.width := by
  refine width_of_mem_marked fun i old hmem _ => ?_
  obtain ⟨before, rest, n, hfind, rfl⟩ := mem_scanFrom hmem
  obtain ⟨rfl, hit⟩ := Rule.find_eq_some hfind
  exact List.length_take_of_le (rule.fits before rest hit)

/-- A pass over filled pieces replaces the selected ones if it finds something at their places
and nowhere else. -/
theorem pass_fill (hwidth : ∀ i old, Piece.found i old ∈ pieces → sel i = true →
      (f i old).length = rule.width)
    (hplaces : rule.places (fill f pieces) = places 0 (marked f sel pieces)) :
    pass rule new (fill f pieces) =
      fill (fun i old => if sel i then new else f i old) pieces := by
  rw [pass_eq_replaced, ← replaced_marked]
  refine replaced_eq_of_places rule.positive width_of_mem_scan (width_of_mem_marked hwidth) ?_
    hplaces
  rw [flatMap_marked, flatMap_marked, fill_old_scan]

/-- A pass that makes of filled pieces what replacing the selected ones makes of them finds as
many as are selected. -/
theorem length_places_eq (hwidth : ∀ i old, Piece.found i old ∈ pieces → sel i = true →
      (f i old).length = rule.width) (hnew : new.length ≠ rule.width)
    (h : pass rule new (fill f pieces) =
      fill (fun i old => if sel i then new else f i old) pieces) :
    (rule.places (fill f pieces)).length = (places 0 (marked f sel pieces)).length := by
  rw [pass_eq_replaced, ← replaced_marked] at h
  have hscan := @length_replaced _ _ 0 new _ (@width_of_mem_scan _ rule (fill f pieces))
  have hpieces := @length_replaced _ _ 0 new _ (width_of_mem_marked hwidth)
  rw [flatMap_marked, fill_old_scan, h] at hscan
  rw [flatMap_marked] at hpieces
  rw [Rule.places]
  zify at hnew hscan hpieces ⊢
  refine mul_left_cancel₀ (sub_ne_zero.mpr hnew) ?_
  linarith

@[simp] theorem passFrom_nil : passFrom rule new prev skip [] = [] := by
  cases skip <;> rfl

theorem passFrom_miss (h : rule.hit prev (a :: rest) = false) :
    passFrom rule new prev 0 (a :: rest) = a :: passFrom rule new (some a) 0 rest := by
  have hfind : rule.find prev (a :: rest) = none := if_neg (by simp [h])
  rw [passFrom, scanFrom, hfind]
  rfl

theorem passFrom_hit (h : rule.hit prev (a :: rest) = true) :
    passFrom rule new prev 0 (a :: rest) =
      new ++ passFrom rule new (some a) (rule.width - 1) rest := by
  have hfind : rule.find prev (a :: rest) = some ((), rule.width) := if_pos h
  rw [passFrom, scanFrom, hfind]
  rfl

@[simp] theorem passFrom_skip : passFrom rule new prev (skip + 1) (a :: rest) =
    passFrom rule new (some a) skip rest := rfl

theorem passFrom_append_hit {old : List α} (hlength : old.length = rule.width)
    (h : rule.hit prev (old ++ rest) = true) :
    passFrom rule new prev 0 (old ++ rest) = new ++ passFrom rule new old.getLast? 0 rest := by
  have hne : old ≠ [] := List.ne_nil_of_length_pos (hlength ▸ rule.positive)
  have hfind : rule.find prev (old ++ rest) = some ((), old.length) := by
    rw [hlength]
    exact if_pos h
  rw [passFrom, scanFrom_found hne hfind]
  rfl

/-- Characters with which nothing begins are kept. -/
theorem passFrom_quiet (front : List α)
    (h : ∀ a ∈ front, ∀ prev rest, rule.hit prev (a :: rest) = false) :
    passFrom rule new prev 0 (front ++ rest) =
      front ++ passFrom rule new (front.getLast?.or prev) 0 rest := by
  induction front generalizing prev with
  | nil => rfl
  | cons a front ih =>
    rw [List.cons_append, passFrom_miss (h a List.mem_cons_self prev _),
      ih fun b hb => h b (List.mem_cons_of_mem a hb)]
    cases front <;> simp [List.getLast?_cons]

/-- A literal is found whatever stands before it. -/
theorem passFrom_literal_prev [BEq α] [LawfulBEq α] {pattern : List α}
    (h : 0 < pattern.length) (prev' : Option α) :
    passFrom (literal pattern h) new prev skip text =
      passFrom (literal pattern h) new prev' skip text := by
  cases text with
  | nil => simp
  | cons a rest =>
    cases skip with
    | succ skip => rfl
    | zero => rfl

/-- Passes that look for the same in a text make the same of it. -/
theorem passFrom_congr {rule' : Rule α} (hwidth : rule.width = rule'.width)
    (h : ∀ prev suffix, suffix <:+ text → rule.hit prev suffix = rule'.hit prev suffix) :
    passFrom rule new prev skip text = passFrom rule' new prev skip text := by
  induction text generalizing prev skip with
  | nil => simp
  | cons a rest ih =>
    have hrest (prev : Option α) (skip : ℕ) :
        passFrom rule new prev skip rest = passFrom rule' new prev skip rest :=
      ih fun prev suffix hsuffix => h prev suffix (hsuffix.trans (List.suffix_cons a rest))
    have hhit := h prev (a :: rest) List.suffix_rfl
    cases skip with
    | succ skip => exact hrest (some a) skip
    | zero =>
      cases hit : rule.hit prev (a :: rest) with
      | true => rw [passFrom_hit hit, passFrom_hit (hhit ▸ hit), hwidth, hrest]
      | false => rw [passFrom_miss hit, passFrom_miss (hhit ▸ hit), hrest]

end Rules

end TextPasses
