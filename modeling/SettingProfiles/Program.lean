/-
SettingProfiles.Program — what is done, apart from how it is answered.

A program asks questions of its surroundings one at a time and goes on with
each answer until it is done. The questions and the types of their answers
are parameters, so the same program can be run against a store in memory,
against the files of a machine, or one question at a time between the
questions of others.

  §1 Programs — the type and its monad.
  §2 Runs     — answering every question in some monad.
-/
namespace SettingProfiles

/-! ## §1 Programs -/

/-- A result, or a question and what follows each answer to it. -/
inductive Program (Q : Type) (A : Q → Type) (α : Type) : Type where
  | done (result : α)
  | ask (question : Q) (next : A question → Program Q A α)

namespace Program

variable {Q : Type} {A : Q → Type} {α β γ : Type}

/-- Goes on with a second program from the result of the first. -/
def bind : Program Q A α → (α → Program Q A β) → Program Q A β
  | done a, f => f a
  | ask q next, f => ask q fun answer => (next answer).bind f

instance : Monad (Program Q A) where
  pure := done
  bind := bind

/-- Asks one question. -/
def query (q : Q) : Program Q A (A q) := ask q done

@[simp] theorem pure_eq_done (a : α) : (pure a : Program Q A α) = done a := rfl

@[simp] theorem done_bind (a : α) (f : α → Program Q A β) : done a >>= f = f a := rfl

@[simp] theorem ask_bind (q : Q) (next : A q → Program Q A α) (f : α → Program Q A β) :
    ask q next >>= f = ask q (fun answer => next answer >>= f) := rfl

theorem bind_done (p : Program Q A α) : p >>= done = p := by
  induction p with
  | done a => rfl
  | ask q next ih => simp [ih]

theorem bind_bind (p : Program Q A α) (f : α → Program Q A β) (g : β → Program Q A γ) :
    p >>= f >>= g = p >>= fun a => f a >>= g := by
  induction p with
  | done a => rfl
  | ask q next ih => simp [ih]

instance : LawfulMonad (Program Q A) :=
  LawfulMonad.mk' _ bind_done (fun _ _ => rfl) bind_bind

/-! ## §2 Runs -/

/-- Runs a program, each question being answered by an action. -/
def run {m : Type → Type} [Monad m] (answer : (q : Q) → m (A q)) : Program Q A α → m α
  | done a => pure a
  | ask q next => do (next (← answer q)).run answer

end Program

end SettingProfiles
