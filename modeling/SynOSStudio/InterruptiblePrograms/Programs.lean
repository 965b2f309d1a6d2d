import Mathlib.Tactic

/-!
# Programs that may be interrupted between two operations

A program is a tree of operations on an outside world. The world answers each
operation through a handler, and a choice `κ` resolves what the environment
decides there: whether the operation fails, which random value it draws.
Execution follows a finite script of choices and stops in the middle of the
program when the script is used up, which models a loss of power or a kill
between two operations.
-/

namespace InterruptiblePrograms

/-- A program over operations `Op`; the type of an answer depends on the operation. -/
inductive Prog (Op : Type) (Ans : Op → Type) (α : Type) where
  | done (a : α)
  | call (op : Op) (next : Ans op → Prog Op Ans α)

namespace Prog

variable {Op : Type} {Ans : Op → Type} {α β κ σ : Type}

protected def bind : Prog Op Ans α → (α → Prog Op Ans β) → Prog Op Ans β
  | .done a, f => f a
  | .call op next, f => .call op fun r => (next r).bind f

instance : Monad (Prog Op Ans) where
  pure := .done
  bind := Prog.bind

/-- Perform one operation and return its answer. -/
def perform (op : Op) : Prog Op Ans (Ans op) :=
  .call op .done

@[simp] theorem pure_eq (a : α) : (pure a : Prog Op Ans α) = .done a := rfl

@[simp] theorem done_bind (a : α) (f : α → Prog Op Ans β) : (Prog.done a >>= f) = f a := rfl

@[simp] theorem call_bind (op : Op) (next : Ans op → Prog Op Ans α) (f : α → Prog Op Ans β) :
    (Prog.call op next >>= f) = .call op fun r => next r >>= f := rfl

section Execution

variable (handle : (op : Op) → κ → σ → Ans op × σ)

/-- Execute along a script; `none` means that the script ended before the program did. -/
def run : Prog Op Ans α → List κ → σ → Option α × σ
  | .done a, _, s => (some a, s)
  | .call _ _, [], s => (none, s)
  | .call op next, k :: ks, s => run (next (handle op k s).1) ks (handle op k s).2

/-- Execute to the end along an infinite supply of choices. -/
def runToEnd : Prog Op Ans α → (ℕ → κ) → σ → α × σ
  | .done a, _, s => (a, s)
  | .call op next, ks, s =>
    runToEnd (next (handle op (ks 0) s).1) (fun n => ks (n + 1)) (handle op (ks 0) s).2

@[simp] theorem run_done (a : α) (ks : List κ) (s : σ) :
    run handle (.done a : Prog Op Ans α) ks s = (some a, s) := by
  cases ks <;> rfl

@[simp] theorem run_call_nil (op : Op) (next : Ans op → Prog Op Ans α) (s : σ) :
    run handle (.call op next) [] s = (none, s) := rfl

@[simp] theorem run_call_cons (op : Op) (next : Ans op → Prog Op Ans α) (k : κ) (ks : List κ)
    (s : σ) : run handle (.call op next) (k :: ks) s =
      run handle (next (handle op k s).1) ks (handle op k s).2 := rfl

end Execution

end Prog

end InterruptiblePrograms
