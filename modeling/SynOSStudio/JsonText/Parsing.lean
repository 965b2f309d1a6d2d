import SynOSStudio.JsonText.Values

/-!
# Reading JSON text

A reader for the values of `Json`: white space between the tokens, every escape of
the format with its surrogate pairs, no control characters inside quotes and no
text after the value. The fuel bounds the nesting of calls; every text has enough
of it in its own length. Reading what the printer wrote gives the value back.
-/

namespace JsonText

def isSpace (c : Char) : Bool :=
  c == ' ' || c == '\n' || c == '\r' || c == '\t'

def skipSpace (cs : List Char) : List Char :=
  cs.dropWhile isSpace

def hexDigitValue (c : Char) : Option ℕ :=
  if c.isDigit then some (c.toNat - 48)
  else if 97 ≤ c.toNat ∧ c.toNat ≤ 102 then some (c.toNat - 87)
  else if 65 ≤ c.toNat ∧ c.toNat ≤ 70 then some (c.toNat - 55)
  else none

def hexValue (a b c d : Char) : Option ℕ := do
  let a ← hexDigitValue a
  let b ← hexDigitValue b
  let c ← hexDigitValue c
  let d ← hexDigitValue d
  some (a * 4096 + b * 256 + c * 16 + d)

def unescape (c : Char) : Option Char :=
  if c = '"' ∨ c = '\\' ∨ c = '/' then some c
  else if c = 'b' then some (Char.ofNat 8)
  else if c = 't' then some (Char.ofNat 9)
  else if c = 'n' then some (Char.ofNat 10)
  else if c = 'f' then some (Char.ofNat 12)
  else if c = 'r' then some (Char.ofNat 13)
  else none

/-- Put a character before the text read after it. -/
def prepend (c : Char) (read : Option (List Char × List Char)) : Option (List Char × List Char) :=
  read.map fun result => (c :: result.1, result.2)

/-- Read up to the closing quote. -/
def parseText : List Char → Option (List Char × List Char)
  | [] => none
  | '"' :: rest => some ([], rest)
  | '\\' :: 'u' :: a :: b :: c :: d :: rest =>
    match hexValue a b c d with
    | none => none
    | some high =>
      if 0xd800 ≤ high ∧ high < 0xdc00 then
        match rest with
        | '\\' :: 'u' :: a :: b :: c :: d :: rest =>
          match hexValue a b c d with
          | none => none
          | some low =>
            if 0xdc00 ≤ low ∧ low < 0xe000 then
              prepend (Char.ofNat (0x10000 + (high - 0xd800) * 0x400 + (low - 0xdc00)))
                (parseText rest)
            else none
        | _ => none
      else if 0xdc00 ≤ high ∧ high < 0xe000 then none
      else prepend (Char.ofNat high) (parseText rest)
  | '\\' :: c :: rest => (unescape c).bind fun c => prepend c (parseText rest)
  | c :: rest => if c.toNat < 32 ∨ c = '\\' then none else prepend c (parseText rest)

/-- Read an unsigned integer; a leading zero stands alone. -/
def parseNumber (cs : List Char) : Option (Json × List Char) :=
  match cs.takeWhile Char.isDigit with
  | [] => none
  | '0' :: _ :: _ => none
  | digits => some (.number (Nat.ofDigitChars 10 digits 0), cs.dropWhile Char.isDigit)

mutual

def parseValue : ℕ → List Char → Option (Json × List Char)
  | 0, _ => none
  | fuel + 1, cs =>
    match skipSpace cs with
    | 'n' :: 'u' :: 'l' :: 'l' :: rest => some (.null, rest)
    | 't' :: 'r' :: 'u' :: 'e' :: rest => some (.bool true, rest)
    | 'f' :: 'a' :: 'l' :: 's' :: 'e' :: rest => some (.bool false, rest)
    | '"' :: rest => do
      let (s, rest) ← parseText rest
      some (.text (String.ofList s), rest)
    | '[' :: rest =>
      match skipSpace rest with
      | ']' :: rest => some (.array [], rest)
      | rest => do
        let (item, rest) ← parseValue fuel rest
        let (items, rest) ← parseItems fuel rest
        some (.array (item :: items), rest)
    | '{' :: rest =>
      match skipSpace rest with
      | '}' :: rest => some (.object [], rest)
      | rest => do
        let (member, rest) ← parseMember fuel rest
        let (members, rest) ← parseMembers fuel rest
        some (.object (member :: members), rest)
    | cs => parseNumber cs

/-- Read the rest of an array after an item. -/
def parseItems : ℕ → List Char → Option (List Json × List Char)
  | 0, _ => none
  | fuel + 1, cs =>
    match skipSpace cs with
    | ']' :: rest => some ([], rest)
    | ',' :: rest => do
      let (item, rest) ← parseValue fuel rest
      let (items, rest) ← parseItems fuel rest
      some (item :: items, rest)
    | _ => none

/-- Read a key, the colon and the value. -/
def parseMember : ℕ → List Char → Option ((String × Json) × List Char)
  | 0, _ => none
  | fuel + 1, cs =>
    match skipSpace cs with
    | '"' :: rest => do
      let (key, rest) ← parseText rest
      match skipSpace rest with
      | ':' :: rest => do
        let (value, rest) ← parseValue fuel rest
        some ((String.ofList key, value), rest)
      | _ => none
    | _ => none

/-- Read the rest of an object after a member. -/
def parseMembers : ℕ → List Char → Option (List (String × Json) × List Char)
  | 0, _ => none
  | fuel + 1, cs =>
    match skipSpace cs with
    | '}' :: rest => some ([], rest)
    | ',' :: rest => do
      let (member, rest) ← parseMember fuel rest
      let (members, rest) ← parseMembers fuel rest
      some (member :: members, rest)
    | _ => none

end

/-- Read a text that holds one value and nothing else. -/
def parse (cs : List Char) : Option Json :=
  match parseValue (2 * cs.length + 2) cs with
  | some (value, rest) => if skipSpace rest = [] then some value else none
  | none => none

section Texts

theorem hexDigitValue_digitChar {n : ℕ} (h : n < 16) :
    hexDigitValue (Nat.digitChar n) = some n := by
  interval_cases n <;> rfl

theorem hexValue_control {n : ℕ} (h : n < 32) :
    hexValue '0' '0' (Nat.digitChar (n / 16)) (Nat.digitChar (n % 16)) = some n := by
  have hhigh := hexDigitValue_digitChar (n := n / 16) (by omega)
  have hlow := hexDigitValue_digitChar (n := n % 16) (by omega)
  have hzero : hexDigitValue '0' = some 0 := rfl
  have hsum : n / 16 * 16 + n % 16 = n := by omega
  simp [hexValue, hzero, hhigh, hlow, hsum]

theorem parseText_plain {c : Char} (hquote : c ≠ '"') (hslash : c ≠ '\\') (hcontrol : 32 ≤ c.toNat)
    (rest : List Char) : parseText (c :: rest) = prepend c (parseText rest) := by
  have hnot : ¬ (c.toNat < 32 ∨ c = '\\') := by
    rintro (hlt | heq)
    · omega
    · exact hslash heq
  rw [parseText.eq_def]
  split <;> simp_all

theorem parseText_unicode {a b c d : Char} {n : ℕ} (hvalue : hexValue a b c d = some n)
    (hsmall : n < 0xd800) (rest : List Char) :
    parseText ('\\' :: 'u' :: a :: b :: c :: d :: rest) =
      prepend (Char.ofNat n) (parseText rest) := by
  have hhigh : ¬ (0xd800 ≤ n ∧ n < 0xdc00) := by omega
  have hlow : ¬ (0xdc00 ≤ n ∧ n < 0xe000) := by omega
  rw [parseText]
  simp only [hvalue, if_neg hhigh, if_neg hlow]

theorem parseText_escape {c c' : Char} (hu : c ≠ 'u') (hvalue : unescape c = some c')
    (rest : List Char) : parseText ('\\' :: c :: rest) = prepend c' (parseText rest) := by
  have hread : parseText ('\\' :: c :: rest) =
      (unescape c).bind fun c => prepend c (parseText rest) := by
    rw [parseText]
    intro _ _ _ _ _ hc _
    exact hu hc
  rw [hread, hvalue]
  rfl

/-- Every character is read back from its escaped form. -/
theorem parseText_escapeChar (c : Char) (rest : List Char) :
    parseText (escapeChar c ++ rest) = prepend c (parseText rest) := by
  have hof : Char.ofNat c.toNat = c := Char.ofNat_toNat c
  unfold escapeChar
  split_ifs with h₁ h₂ h₃ h₄ h₅ h₆ h₇ h₈
  · subst h₁
    exact parseText_escape (by decide) rfl rest
  · subst h₂
    exact parseText_escape (by decide) rfl rest
  · rw [← hof, h₃]
    exact parseText_escape (by decide) rfl rest
  · rw [← hof, h₄]
    exact parseText_escape (by decide) rfl rest
  · rw [← hof, h₅]
    exact parseText_escape (by decide) rfl rest
  · rw [← hof, h₆]
    exact parseText_escape (by decide) rfl rest
  · rw [← hof, h₇]
    exact parseText_escape (by decide) rfl rest
  · have hread := parseText_unicode (hexValue_control h₈) (by omega) rest
    rw [hof] at hread
    exact hread
  · exact parseText_plain h₁ h₂ (by omega) rest

theorem parseText_flatMap (cs rest : List Char) :
    parseText (cs.flatMap escapeChar ++ '"' :: rest) = some (cs, rest) := by
  induction cs with
  | nil => rfl
  | cons c cs ih =>
    rw [List.flatMap_cons, List.append_assoc, parseText_escapeChar, ih]
    rfl

end Texts

section Numbers

/-- The text after a value does not continue a number. -/
def EndsNumber (rest : List Char) : Prop :=
  ∀ c ∈ rest.head?, c.isDigit = false

theorem takeWhile_digits {ds rest : List Char} (hds : ∀ c ∈ ds, c.isDigit = true)
    (hrest : EndsNumber rest) : (ds ++ rest).takeWhile Char.isDigit = ds := by
  induction ds with
  | nil =>
    cases rest with
    | nil => rfl
    | cons c rest => simp [hrest c rfl]
  | cons d ds ih =>
    have hd := hds d List.mem_cons_self
    simp [hd, ih fun c hc => hds c (List.mem_cons_of_mem d hc)]

theorem dropWhile_digits {ds rest : List Char} (hds : ∀ c ∈ ds, c.isDigit = true)
    (hrest : EndsNumber rest) : (ds ++ rest).dropWhile Char.isDigit = rest := by
  induction ds with
  | nil =>
    cases rest with
    | nil => rfl
    | cons c rest => simp [hrest c rfl]
  | cons d ds ih =>
    have hd := hds d List.mem_cons_self
    simp [hd, ih fun c hc => hds c (List.mem_cons_of_mem d hc)]

/-- A printed number of more than one digit has no leading zero. -/
theorem toDigits_ne_zero_cons (n : ℕ) (d : Char) (ds : List Char) :
    Nat.toDigits 10 n ≠ '0' :: d :: ds := by
  induction n using Nat.strong_induction_on generalizing d ds with
  | _ n ih =>
    intro heq
    by_cases hsmall : n < 10
    · rw [Nat.toDigits_of_lt_base hsmall] at heq
      simp at heq
    · rw [Nat.toDigits_of_base_le (by decide) (by omega)] at heq
      cases hhigh : Nat.toDigits 10 (n / 10) with
      | nil => exact Nat.toDigits_ne_nil hhigh
      | cons c cs =>
        rw [hhigh, List.cons_append, List.cons.injEq] at heq
        obtain ⟨rfl, -⟩ := heq
        cases cs with
        | cons c' cs => exact ih (n / 10) (by omega) c' cs hhigh
        | nil =>
          have hzero := Nat.ofDigitChars_toDigits (b := 10) (n := n / 10) (by decide) (by decide)
          rw [hhigh] at hzero
          have hvalue : Nat.ofDigitChars 10 ['0'] 0 = 0 := by decide
          omega

theorem parseNumber_toDigits (n : ℕ) {rest : List Char} (hrest : EndsNumber rest) :
    parseNumber (Nat.toDigits 10 n ++ rest) = some (.number n, rest) := by
  have hdigits : ∀ c ∈ Nat.toDigits 10 n, c.isDigit = true := fun c hc =>
    Nat.isDigit_of_mem_toDigits (by decide) (by decide) hc
  have hvalue : Nat.ofDigitChars 10 (Nat.toDigits 10 n) 0 = n :=
    Nat.ofDigitChars_toDigits (by decide) (by decide)
  unfold parseNumber
  rw [takeWhile_digits hdigits hrest, dropWhile_digits hdigits hrest]
  split
  · rename_i hnil
    exact absurd hnil Nat.toDigits_ne_nil
  · rename_i d ds hzero
    exact absurd hzero (toDigits_ne_zero_cons n d ds)
  · rw [hvalue]

end Numbers

section RoundTrip

/-- White space before a value is skipped. -/
theorem skipSpace_indentation (depth : ℕ) (cs : List Char) :
    skipSpace (indentation depth ++ cs) = skipSpace cs := by
  have hspaces : ∀ n, skipSpace (List.replicate n ' ' ++ cs) = skipSpace cs := by
    intro n
    induction n with
    | zero => rfl
    | succ n ih => exact ih
  exact hspaces (2 * depth)

theorem skipSpace_cons {c : Char} (h : isSpace c = false) (cs : List Char) :
    skipSpace (c :: cs) = c :: cs := by
  simp [skipSpace, h]

theorem parseValue_indentation (fuel depth : ℕ) (cs : List Char) :
    parseValue fuel (indentation depth ++ cs) = parseValue fuel cs := by
  cases fuel with
  | zero => rfl
  | succ fuel => simp only [parseValue, skipSpace_indentation]

theorem parseMember_indentation (fuel depth : ℕ) (cs : List Char) :
    parseMember fuel (indentation depth ++ cs) = parseMember fuel cs := by
  cases fuel with
  | zero => rfl
  | succ fuel => simp only [parseMember, skipSpace_indentation]

theorem digitChar_head {c : Char} (h : c.isDigit = true) :
    isSpace c = false ∧ c ≠ ']' ∧ c ≠ '}' ∧ c ≠ 'n' ∧ c ≠ 't' ∧ c ≠ 'f' ∧ c ≠ '"' ∧ c ≠ '[' ∧
      c ≠ '{' := by
  refine ⟨?_, ?_, ?_, ?_, ?_, ?_, ?_, ?_, ?_⟩
  · by_contra hspace
    have hcases : c = ' ' ∨ c = '\n' ∨ c = '\r' ∨ c = '\t' := by
      simpa only [isSpace, Bool.not_eq_false, Bool.or_eq_true, beq_iff_eq, or_assoc] using hspace
    rcases hcases with rfl | rfl | rfl | rfl <;> revert h <;> decide
  all_goals
    rintro rfl
    revert h
    decide

/-- A printed value starts with a character that is neither white space nor a closing bracket. -/
theorem pretty_head (depth : ℕ) (v : Json) : ∃ c cs, pretty depth v = c :: cs ∧
    isSpace c = false ∧ c ≠ ']' := by
  cases v with
  | null => exact ⟨'n', _, rfl, rfl, by decide⟩
  | bool b =>
    cases b with
    | true => exact ⟨'t', _, rfl, rfl, by decide⟩
    | false => exact ⟨'f', _, rfl, rfl, by decide⟩
  | number n =>
    cases hdigits : Nat.toDigits 10 n with
    | nil => exact absurd hdigits Nat.toDigits_ne_nil
    | cons c cs =>
      have hc : c.isDigit = true := Nat.isDigit_of_mem_toDigits (b := 10) (n := n) (by decide)
        (by decide) (by rw [hdigits]; exact List.mem_cons_self)
      exact ⟨c, cs, by rw [pretty, hdigits], (digitChar_head hc).1, (digitChar_head hc).2.1⟩
  | text s => exact ⟨'"', _, rfl, rfl, by decide⟩
  | array items =>
    cases items with
    | nil => exact ⟨'[', _, rfl, rfl, by decide⟩
    | cons item items => exact ⟨'[', _, rfl, rfl, by decide⟩
  | object members =>
    cases members with
    | nil => exact ⟨'{', _, rfl, rfl, by decide⟩
    | cons member members => exact ⟨'{', _, rfl, rfl, by decide⟩

/-- What follows a printed item or member starts with a comma or after white space. -/
theorem endsNumber_items (depth : ℕ) (items : List Json) (rest : List Char) :
    EndsNumber (prettyItems depth items ++ rest) := by
  intro c hc
  cases items with
  | nil =>
    cases hc
    decide
  | cons item items =>
    cases hc
    decide

theorem endsNumber_members (depth : ℕ) (members : List (String × Json)) (rest : List Char) :
    EndsNumber (prettyMembers depth members ++ rest) := by
  intro c hc
  cases members with
  | nil =>
    cases hc
    decide
  | cons member members =>
    cases hc
    decide

/-- Reading a printed member, from the reading of its value. -/
theorem parseMember_pretty {fuel depth : ℕ} (key : String) {value : Json} {rest : List Char}
    (hvalue : parseValue fuel (pretty depth value ++ rest) = some (value, rest)) :
    parseMember (fuel + 1) (quoted key ++ ':' :: ' ' :: (pretty depth value ++ rest)) =
      some ((key, value), rest) := by
  have hspace : parseValue fuel (' ' :: (pretty depth value ++ rest)) = some (value, rest) := by
    rw [← hvalue]
    cases fuel with
    | zero => rfl
    | succ fuel => rfl
  have hquoted : quoted key ++ ':' :: ' ' :: (pretty depth value ++ rest) =
      '"' :: (key.toList.flatMap escapeChar ++
        '"' :: ':' :: ' ' :: (pretty depth value ++ rest)) := by
    simp [quoted]
  rw [hquoted, parseMember, skipSpace_cons (by decide)]
  simp only [parseText_flatMap, Option.bind_eq_bind, Option.bind_some]
  rw [skipSpace_cons (by decide)]
  simp only [hspace, Option.bind_some, String.ofList_toList]

/-- Reading a value that starts with a digit is reading a number. -/
theorem parseValue_digit {fuel : ℕ} {c : Char} {cs : List Char} (h : c.isDigit = true) :
    parseValue (fuel + 1) (c :: cs) = parseNumber (c :: cs) := by
  obtain ⟨hspace, -, -, hn, ht, hf, hquote, harray, hobject⟩ := digitChar_head h
  rw [parseValue, skipSpace_cons hspace]
  split <;> simp_all

/-- Reading an array that has items, from the readings of the first item and of the rest. -/
theorem parseValue_array {fuel depth : ℕ} {c : Char} {cs after rest : List Char} {item : Json}
    {items : List Json} (hspace : isSpace c = false) (hclosing : c ≠ ']')
    (hitem : parseValue fuel (c :: cs) = some (item, after))
    (hitems : parseItems fuel after = some (items, rest)) :
    parseValue (fuel + 1) ('[' :: (indentation depth ++ c :: cs)) =
      some (.array (item :: items), rest) := by
  rw [parseValue, skipSpace_cons (by decide)]
  simp only [skipSpace_indentation, skipSpace_cons hspace]
  split
  · rename_i heq
    exact absurd (List.cons.inj heq).1 hclosing
  · simp only [hitem, hitems, Option.bind_eq_bind, Option.bind_some]

/-- Reading an object that has members, from the readings of the first member and of the
rest. -/
theorem parseValue_object {fuel depth : ℕ} {cs after rest : List Char} {member : String × Json}
    {members : List (String × Json)} (hmember : parseMember fuel ('"' :: cs) = some (member, after))
    (hmembers : parseMembers fuel after = some (members, rest)) :
    parseValue (fuel + 1) ('{' :: (indentation depth ++ '"' :: cs)) =
      some (.object (member :: members), rest) := by
  rw [parseValue, skipSpace_cons (by decide)]
  simp only [skipSpace_indentation]
  rw [skipSpace_cons (by decide)]
  split
  · rename_i heq
    exact absurd (List.cons.inj heq).1 (by decide)
  · simp only [hmember, hmembers, Option.bind_eq_bind, Option.bind_some]

theorem parseItems_cons {fuel depth : ℕ} {cs after rest : List Char} {item : Json}
    {items : List Json} (hitem : parseValue fuel cs = some (item, after))
    (hitems : parseItems fuel after = some (items, rest)) :
    parseItems (fuel + 1) (',' :: (indentation depth ++ cs)) = some (item :: items, rest) := by
  rw [parseItems, skipSpace_cons (by decide)]
  simp only [parseValue_indentation, hitem, hitems, Option.bind_eq_bind, Option.bind_some]

theorem parseMembers_cons {fuel depth : ℕ} {cs after rest : List Char} {member : String × Json}
    {members : List (String × Json)} (hmember : parseMember fuel cs = some (member, after))
    (hmembers : parseMembers fuel after = some (members, rest)) :
    parseMembers (fuel + 1) (',' :: (indentation depth ++ cs)) =
      some (member :: members, rest) := by
  rw [parseMembers, skipSpace_cons (by decide)]
  simp only [parseMember_indentation, hmember, hmembers, Option.bind_eq_bind, Option.bind_some]

theorem exists_succ_of_lt {m n : ℕ} (h : m < n) : ∃ k, n = k + 1 :=
  ⟨n - 1, by omega⟩

mutual

/-- Reading a printed value gives the value back and leaves the text after it. -/
theorem parseValue_pretty (v : Json) : ∀ (depth fuel : ℕ) (rest : List Char),
    (pretty depth v).length ≤ fuel → EndsNumber rest →
      parseValue fuel (pretty depth v ++ rest) = some (v, rest) := by
  intro depth fuel rest hfuel hrest
  obtain ⟨c₀, cs₀, hhead, hspace₀, -⟩ := pretty_head depth v
  obtain ⟨fuel, rfl⟩ : ∃ k, fuel = k + 1 := by
    rw [hhead, List.length_cons] at hfuel
    exact exists_succ_of_lt hfuel
  cases v with
  | null => rfl
  | bool b => cases b <;> rfl
  | number n =>
    have hdigit : c₀.isDigit = true := by
      refine Nat.isDigit_of_mem_toDigits (b := 10) (n := n) (by decide) (by decide) ?_
      rw [← pretty, hhead]
      exact List.mem_cons_self
    rw [hhead, List.cons_append, parseValue_digit hdigit, ← List.cons_append, ← hhead]
    exact parseNumber_toDigits n hrest
  | text s =>
    have hquoted : pretty depth (.text s) ++ rest =
        '"' :: (s.toList.flatMap escapeChar ++ '"' :: rest) := by
      simp [pretty, quoted]
    rw [hquoted, parseValue, skipSpace_cons (by decide)]
    simp only [parseText_flatMap, Option.bind_eq_bind, Option.bind_some, String.ofList_toList]
  | array items =>
    cases items with
    | nil => rfl
    | cons item items =>
      simp only [pretty, List.length_cons, List.length_append] at hfuel
      have hitem := parseValue_pretty item (depth + 1) fuel (prettyItems depth items ++ rest)
        (by omega) (endsNumber_items depth items rest)
      have hitems := parseItems_pretty items depth fuel rest (by omega)
      obtain ⟨c, cs, hcs, hspace, hclosing⟩ := pretty_head (depth + 1) item
      rw [hcs, List.cons_append] at hitem
      simp only [pretty, hcs, List.cons_append, List.append_assoc]
      exact parseValue_array hspace hclosing hitem hitems
  | object members =>
    cases members with
    | nil => rfl
    | cons member members =>
      obtain ⟨key, value⟩ := member
      simp only [pretty, quoted, List.length_cons, List.length_append] at hfuel
      obtain ⟨fuel, rfl⟩ : ∃ k, fuel = k + 1 := exists_succ_of_lt (m := 0) (by omega)
      have hvalue := parseValue_pretty value (depth + 1) fuel (prettyMembers depth members ++ rest)
        (by omega) (endsNumber_members depth members rest)
      have hmembers := parseMembers_pretty members depth (fuel + 1) rest (by omega)
      have hmember := parseMember_pretty key hvalue
      simp only [pretty, quoted, List.cons_append, List.append_assoc] at hmember ⊢
      exact parseValue_object hmember hmembers

theorem parseItems_pretty (items : List Json) : ∀ (depth fuel : ℕ) (rest : List Char),
    (prettyItems depth items).length ≤ fuel →
      parseItems fuel (prettyItems depth items ++ rest) = some (items, rest) := by
  intro depth fuel rest hfuel
  cases items with
  | nil =>
    simp only [prettyItems, List.length_append] at hfuel
    obtain ⟨fuel, rfl⟩ : ∃ k, fuel = k + 1 := exists_succ_of_lt (m := 0) (by
      have hbracket : "]".toList.length = 1 := rfl
      omega)
    rw [prettyItems, List.append_assoc, parseItems, skipSpace_indentation]
    rfl
  | cons item items =>
    simp only [prettyItems, List.length_cons, List.length_append] at hfuel
    obtain ⟨fuel, rfl⟩ : ∃ k, fuel = k + 1 := exists_succ_of_lt (m := 0) (by omega)
    have hitem := parseValue_pretty item (depth + 1) fuel (prettyItems depth items ++ rest)
      (by omega) (endsNumber_items depth items rest)
    have hitems := parseItems_pretty items depth fuel rest (by omega)
    simp only [prettyItems, List.cons_append, List.append_assoc]
    exact parseItems_cons hitem hitems

theorem parseMembers_pretty (members : List (String × Json)) :
    ∀ (depth fuel : ℕ) (rest : List Char), (prettyMembers depth members).length ≤ fuel →
      parseMembers fuel (prettyMembers depth members ++ rest) = some (members, rest) := by
  intro depth fuel rest hfuel
  cases members with
  | nil =>
    simp only [prettyMembers, List.length_append] at hfuel
    obtain ⟨fuel, rfl⟩ : ∃ k, fuel = k + 1 := exists_succ_of_lt (m := 0) (by
      have hbracket : "\x7d".toList.length = 1 := rfl
      omega)
    rw [prettyMembers, List.append_assoc, parseMembers, skipSpace_indentation]
    rfl
  | cons member members =>
    obtain ⟨key, value⟩ := member
    simp only [prettyMembers, quoted, List.length_cons, List.length_append] at hfuel
    obtain ⟨fuel, rfl⟩ : ∃ k, fuel = k + 1 + 1 := ⟨fuel - 2, by omega⟩
    have hvalue := parseValue_pretty value (depth + 1) fuel (prettyMembers depth members ++ rest)
      (by omega) (endsNumber_members depth members rest)
    have hmembers := parseMembers_pretty members depth (fuel + 1) rest (by omega)
    have hmember := parseMember_pretty key hvalue
    simp only [prettyMembers, quoted, List.cons_append, List.append_assoc] at hmember ⊢
    exact parseMembers_cons hmember hmembers

end

/-- A printed value, with any white space after it, is read back as it was. -/
theorem parse_pretty (v : Json) {after : List Char} (hafter : skipSpace after = []) :
    parse (pretty 0 v ++ after) = some v := by
  have hends : EndsNumber after := by
    intro c hc
    cases after with
    | nil => cases hc
    | cons d after =>
      cases hc
      by_contra hdigit
      have hspace := (digitChar_head (Bool.not_eq_false _ ▸ hdigit)).1
      rw [skipSpace_cons hspace] at hafter
      cases hafter
  have hfuel : (pretty 0 v).length ≤ 2 * (pretty 0 v ++ after).length + 2 := by
    rw [List.length_append]
    omega
  unfold parse
  rw [parseValue_pretty v 0 _ after hfuel hends]
  simp only [hafter, if_true]

end RoundTrip

end JsonText
