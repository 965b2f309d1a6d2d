import Mathlib.Data.List.DropRight

/-!
# Runs at the end of a list

Where the unbroken run of a value at the end of a list starts, and what a list that is cut to its
last members still tells.
-/

namespace KeyedLists

variable {α β : Type*} [DecidableEq β] {f : α → β} {v : β} {l : List α} {a : α} {n : ℕ}

/-- The first member of the unbroken run of the value at the end. -/
def runStart (f : α → β) (v : β) (l : List α) : Option α :=
  (l.rtakeWhile fun a => f a = v).head?

theorem runStart_concat_of_eq (h : f a = v) :
    runStart f v (l ++ [a]) = (runStart f v l).or (some a) := by
  rw [runStart, runStart, List.rtakeWhile_concat_pos _ _ _ (by simpa using h), List.head?_append]
  rfl

theorem runStart_concat_of_ne (h : f a ≠ v) : runStart f v (l ++ [a]) = none := by
  rw [runStart, List.rtakeWhile_concat_neg _ _ _ (by simpa using h), List.head?_nil]

theorem runStart_eq_none (h : l.getLast?.map f ≠ some v) : runStart f v l = none := by
  induction l using List.reverseRecOn with
  | nil => rfl
  | append_singleton l a =>
    refine runStart_concat_of_ne fun heq => h ?_
    simp [heq]

theorem getLast?_rtake : (l.rtake (n + 1)).getLast? = l.getLast? := by
  induction l using List.reverseRecOn with
  | nil => simp
  | append_singleton l a => rw [List.rtake_concat_succ, List.getLast?_concat, List.getLast?_concat]

/-- A list that is cut to its last members again and again is the end of the whole list. -/
theorem rtake_rtake_concat : (l.rtake n ++ [a]).rtake n = (l ++ [a]).rtake n := by
  cases n with
  | zero => simp
  | succ n =>
    rw [List.rtake_concat_succ, List.rtake_concat_succ]
    congr 1
    simp only [List.rtake_eq_reverse_take_reverse, List.reverse_reverse, List.take_take]
    rw [Nat.min_eq_left (Nat.le_succ n)]

end KeyedLists
