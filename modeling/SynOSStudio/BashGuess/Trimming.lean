import SynOSStudio.BashGuess.World

/-!
# Trimmed texts

What trimming does at the ends of a text, and which characters are no blanks.
-/

namespace BashGuess

section Trim

variable {text : Text}

theorem trim_cons_blank (text : Text) : trim (' ' :: text) = trim text := rfl

/-- There are no blanks at the ends. -/
structure PlainEnds (text : Text) : Prop where
  head : ∀ c ∈ text.head?, isWhitespace c = false
  last : ∀ c ∈ text.getLast?, isWhitespace c = false

theorem PlainEnds.trim_eq (h : PlainEnds text) : trim text = text := by
  have hfront : text.dropWhile isWhitespace = text := by
    cases text with
    | nil => rfl
    | cons c text => exact List.dropWhile_cons_of_neg (by simp [h.head c rfl])
  rw [trim, hfront, List.rdropWhile_eq_self_iff]
  intro hne hblank
  have hfalse := h.last _ (List.getLast?_eq_some_getLast hne)
  rw [hblank] at hfalse
  cases hfalse

theorem PlainEnds.intercalate {sep : Text} {texts : List Text}
    (h : ∀ text ∈ texts, text ≠ [] ∧ PlainEnds text) :
    PlainEnds (List.intercalate sep texts) := by
  induction texts with
  | nil => exact ⟨nofun, nofun⟩
  | cons text texts ih =>
    obtain ⟨⟨hne, hends⟩, hrest⟩ := List.forall_mem_cons.mp h
    cases texts with
    | nil => rwa [List.intercalate_singleton]
    | cons next texts =>
      have htail := ih hrest
      have hneRest : List.intercalate sep (next :: texts) ≠ [] := by
        obtain ⟨hneNext, -⟩ := (List.forall_mem_cons.mp hrest).1
        cases texts with
        | nil => rwa [List.intercalate_singleton]
        | cons other texts => simp [List.intercalate_cons_cons, hneNext]
      rw [List.intercalate_cons_cons]
      refine ⟨fun c hc => hends.head c ?_, fun c hc => htail.last c ?_⟩
      · rwa [List.append_assoc, List.head?_append_of_ne_nil _ hne] at hc
      · rwa [List.getLast?_append_of_ne_nil _ hneRest] at hc

theorem trim_concat (text : Text) {c : Char} (h : isWhitespace c = true) :
    trim (text ++ [c]) = trim text := by
  rw [trim, List.dropWhile_append]
  split
  · next hnil =>
    rw [List.isEmpty_iff] at hnil
    rw [trim, hnil, List.dropWhile_cons_of_pos h]
    rfl
  · rw [List.rdropWhile_concat_pos _ _ _ h]
    rfl

theorem trim_ne_nil {c : Char} (hc : c ∈ text) (h : isWhitespace c = false) : trim text ≠ [] := by
  rw [trim, Ne, List.rdropWhile_eq_nil_iff]
  intro hblank
  by_cases hnil : text.dropWhile isWhitespace = []
  · rw [List.dropWhile_eq_nil_iff.mp hnil c hc] at h
    cases h
  · have hhead := List.head_dropWhile_not isWhitespace hnil
    rw [hblank _ (List.head_mem hnil)] at hhead
    cases hhead

theorem trim_word (h : ∀ c ∈ text, isWhitespace c = false) : trim text = text :=
  PlainEnds.trim_eq ⟨fun c hc => h c (List.mem_of_mem_head? hc),
    fun c hc => h c (List.mem_of_mem_getLast? hc)⟩

end Trim

theorem isWhitespace_of_isAlphanum {c : Char} (h : c.isAlphanum = true) :
    isWhitespace c = false := by
  rw [TextLines.isAlphanum_iff, TextLines.isUpper_iff, TextLines.isLower_iff,
    TextLines.isDigit_iff] at h
  simp only [isWhitespace]
  simp
  omega

end BashGuess
