/-
SettingProfiles.Proofs.Surroundings — programs and those who answer them.

A program does not know how its questions are answered. Here the answers come
from surroundings: a function of everything that has been asked and answered
before. That covers a storage that keeps what it is told, one that loses it,
one that fails at the seventh call, a source of ids that repeats itself:
whatever surroundings do in a run, some such function does the same.

  §1 Exchanges     — a question with its answer, and histories of them.
  §2 Conversations — a program run against surroundings, with the history
                     kept. `converse_bind`: one program after the other.
  §3 `Ensures`     — what holds of the result and the history at the end.
  §4 Later         — the surroundings from some point on.
-/
import SettingProfiles.Program

namespace SettingProfiles

/-! ## §1 Exchanges -/

/-- A question and the answer to it. -/
structure Exchange (Q : Type) (A : Q → Type) where
  question : Q
  answer : A question

/-- How questions are answered, given what was asked and answered before. -/
abbrev Surroundings (Q : Type) (A : Q → Type) : Type :=
  List (Exchange Q A) → (q : Q) → A q

variable {Q : Type} {A : Q → Type} {α β : Type}

/-- Answers a question and keeps the exchange. -/
def Surroundings.reply (s : Surroundings Q A) (q : Q) : StateM (List (Exchange Q A)) (A q) :=
  fun history => (s history q, history ++ [⟨q, s history q⟩])

namespace Program

/-! ## §2 Conversations -/

/-- Runs the program after a history, and returns its result with the longer
history. -/
def converse (s : Surroundings Q A) (p : Program Q A α) (history : List (Exchange Q A)) :
    α × List (Exchange Q A) :=
  p.run s.reply history

@[simp] theorem converse_done (s : Surroundings Q A) (a : α) (history : List (Exchange Q A)) :
    (done a : Program Q A α).converse s history = (a, history) := rfl

theorem converse_ask (s : Surroundings Q A) (q : Q) (next : A q → Program Q A α)
    (history : List (Exchange Q A)) :
    (ask q next).converse s history
      = (next (s history q)).converse s (history ++ [⟨q, s history q⟩]) := rfl

/-- A program that goes on with another converses twice. -/
theorem converse_bind (s : Surroundings Q A) (p : Program Q A α) (f : α → Program Q A β)
    (history : List (Exchange Q A)) :
    (p >>= f).converse s history
      = (f (p.converse s history).1).converse s (p.converse s history).2 := by
  induction p generalizing history with
  | done a => rfl
  | ask q next ih => exact ih (s history q) (history ++ [⟨q, s history q⟩])

/-- A conversation only adds to the history. -/
theorem converse_extends (s : Surroundings Q A) (p : Program Q A α)
    (history : List (Exchange Q A)) :
    ∃ more, (p.converse s history).2 = history ++ more := by
  induction p generalizing history with
  | done a => exact ⟨[], by simp⟩
  | ask q next ih =>
    obtain ⟨more, hmore⟩ := ih (s history q) (history ++ [⟨q, s history q⟩])
    exact ⟨⟨q, s history q⟩ :: more, by rw [converse_ask, hmore]; simp⟩

/-! ## §3 `Ensures` -/

/-- What holds of the result and of the history once the program has ended. -/
def Ensures (s : Surroundings Q A) (p : Program Q A α) (history : List (Exchange Q A))
    (post : α → List (Exchange Q A) → Prop) : Prop :=
  post (p.converse s history).1 (p.converse s history).2

@[simp] theorem ensures_done {s : Surroundings Q A} {a : α} {history : List (Exchange Q A)}
    {post : α → List (Exchange Q A) → Prop} :
    (done a : Program Q A α).Ensures s history post ↔ post a history := Iff.rfl

theorem ensures_query {s : Surroundings Q A} {q : Q} {history : List (Exchange Q A)}
    {post : A q → List (Exchange Q A) → Prop} :
    (query q : Program Q A (A q)).Ensures s history post ↔
      post (s history q) (history ++ [⟨q, s history q⟩]) := Iff.rfl

theorem ensures_bind {s : Surroundings Q A} {p : Program Q A α} {f : α → Program Q A β}
    {history : List (Exchange Q A)} {post : β → List (Exchange Q A) → Prop} :
    (p >>= f).Ensures s history post ↔
      p.Ensures s history fun a h => (f a).Ensures s h post := by
  simp only [Ensures, converse_bind]

theorem Ensures.mono {s : Surroundings Q A} {p : Program Q A α} {history : List (Exchange Q A)}
    {post post' : α → List (Exchange Q A) → Prop} (h : p.Ensures s history post)
    (himp : ∀ a h, post a h → post' a h) : p.Ensures s history post' :=
  himp _ _ h

end Program

/-! ## §4 Later -/

/-- The surroundings after a history, as if nothing had been asked before. -/
def Surroundings.after (s : Surroundings Q A) (history : List (Exchange Q A)) :
    Surroundings Q A := fun later => s (history ++ later)

namespace Program

theorem converse_after (s : Surroundings Q A) (p : Program Q A α)
    (history later : List (Exchange Q A)) :
    p.converse s (history ++ later)
      = ((p.converse (s.after history) later).1,
          history ++ (p.converse (s.after history) later).2) := by
  induction p generalizing later with
  | done a => rfl
  | ask q next ih =>
    rw [converse_ask, converse_ask, List.append_assoc, ih]
    rfl

/-- Everything that was asked before can be laid down with the surroundings. -/
theorem converse_eq_after (s : Surroundings Q A) (p : Program Q A α)
    (history : List (Exchange Q A)) :
    p.converse s history
      = ((p.converse (s.after history) []).1, history ++ (p.converse (s.after history) []).2) := by
  rw [← converse_after, List.append_nil]

/-- A program does not depend on what was asked before it, but through the answers. -/
theorem ensures_after {s : Surroundings Q A} {p : Program Q A α} {history : List (Exchange Q A)}
    {post : α → List (Exchange Q A) → Prop} :
    p.Ensures s history post ↔
      p.Ensures (s.after history) [] fun a later => post a (history ++ later) := by
  unfold Ensures
  rw [converse_eq_after]

end Program

end SettingProfiles
