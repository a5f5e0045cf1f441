/-!
# Programs over questions

A program is a tree: it is done with a result, or it asks a question and goes on with the answer.
Each question has an answer type of its own. What the questions mean is left to whoever runs
the program, so one program can be run against a store, against a store that fails, against one
that other clients write to between two questions, or only to list what it asks.
-/
namespace CacheCoherence

/-- A program that asks questions of `Q`, each answered in `R`, and ends with a result. -/
inductive Program (Q : Type) (R : Q → Type) (α : Type) : Type where
  | done (result : α)
  | ask (question : Q) (next : R question → Program Q R α)

namespace Program
variable {Q : Type} {R : Q → Type} {α β γ σ : Type}

def bind : Program Q R α → (α → Program Q R β) → Program Q R β
  | done a, f => f a
  | ask q next, f => ask q fun r => (next r).bind f

instance : Monad (Program Q R) where
  pure := done
  bind := bind

/-- The program that asks one question and ends with the answer. -/
def question (q : Q) : Program Q R (R q) := ask q done

/-- Runs a program with a state, from which every question is answered and which every answer
may change. -/
def run (answer : (q : Q) → σ → R q × σ) : Program Q R α → σ → α × σ
  | done a, s => (a, s)
  | ask q next, s => run answer (next (answer q s).1) (answer q s).2

@[simp] theorem bind_done (p : Program Q R α) : p.bind done = p := by
  induction p with
  | done a => rfl
  | ask q next ih => simp only [bind, ih]

theorem bind_assoc (p : Program Q R α) (f : α → Program Q R β) (g : β → Program Q R γ) :
    (p.bind f).bind g = p.bind fun a => (f a).bind g := by
  induction p with
  | done a => rfl
  | ask q next ih => simp only [bind, ih]

instance : LawfulMonad (Program Q R) := LawfulMonad.mk' (Program Q R)
  (fun p => bind_done p) (fun _ _ => rfl) (fun p f g => bind_assoc p f g)

theorem run_bind (answer : (q : Q) → σ → R q × σ) (p : Program Q R α) (f : α → Program Q R β)
    (s : σ) : (p.bind f).run answer s = (f (p.run answer s).1).run answer (p.run answer s).2 := by
  induction p generalizing s with
  | done a => rfl
  | ask q next ih => simp only [bind, run, ih]

end Program
end CacheCoherence
