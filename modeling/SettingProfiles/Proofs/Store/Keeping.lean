/-
SettingProfiles.Proofs.Store.Keeping — procedures that keep something in memory.

A procedure of the store knows what its calls were answered and nothing else. To say
more about it than its calls show, it is put beside one that also keeps something in
memory: the documents it has stored so far, or the document that it works on. What is
kept is there after a failure, too.

  §1 `Keeping`   — the monad, `call`, and the memory.
  §2 `Ensures`   — with a rule for each construction, as for procedures.
  §3 Forgetting  — the procedure that is left without the memory.
-/
import SettingProfiles.Proofs.Store.History

namespace SettingProfiles

/-! ## §1 `Keeping` -/

/-- A procedure that keeps something in memory. -/
abbrev Keeping (σ α : Type) : Type :=
  ExceptT StoreError (StateT σ (Program Effect Effect.Answer)) α

namespace Keeping

variable {σ α β : Type} {s : Surroundings Effect Effect.Answer} {h : History} {kept : σ}

/-- Runs a procedure, which does not touch what is kept. -/
def call (p : Procedure α) : Keeping σ α :=
  ExceptT.mk fun kept => do return (← p.run, kept)

/-- What is kept. -/
def held : Keeping σ σ := ExceptT.mk fun kept => pure (.ok kept, kept)

/-- Changes what is kept. -/
def update (f : σ → σ) : Keeping σ Unit := ExceptT.mk fun kept => pure (.ok (), f kept)

/-! ## §2 `Ensures` -/

/-- What holds at the end: `ok` if it returns, `err` if it fails. -/
def Ensures (s : Surroundings Effect Effect.Answer) (k : Keeping σ α) (kept : σ) (h : History)
    (ok : α → σ → History → Prop) (err : StoreError → σ → History → Prop) : Prop :=
  Program.Ensures s (k.run.run kept) h fun r h' =>
    match r with
    | (.ok a, kept') => ok a kept' h'
    | (.error e, kept') => err e kept' h'

variable {ok : β → σ → History → Prop} {err : StoreError → σ → History → Prop}

theorem ensures_pure {b : β} :
    (pure b : Keeping σ β).Ensures s kept h ok err ↔ ok b kept h := Iff.rfl

theorem ensures_bind {k : Keeping σ α} {f : α → Keeping σ β} :
    (k >>= f).Ensures s kept h ok err ↔
      k.Ensures s kept h (fun a kept' h' => (f a).Ensures s kept' h' ok err) err := by
  unfold Ensures
  rw [ExceptT.run_bind, StateT.run_bind, Program.ensures_bind]
  constructor <;> intro hk <;> refine hk.mono fun r h' hr => ?_
  all_goals
    obtain ⟨r, kept'⟩ := r
    cases r with
    | ok a => exact hr
    | error e => exact hr

theorem Ensures.mono {k : Keeping σ β} {ok' : β → σ → History → Prop}
    {err' : StoreError → σ → History → Prop} (hk : k.Ensures s kept h ok err)
    (hok : ∀ b kept' h', ok b kept' h' → ok' b kept' h')
    (herr : ∀ e kept' h', err e kept' h' → err' e kept' h') :
    k.Ensures s kept h ok' err' := by
  refine Program.Ensures.mono hk fun r h' hr => ?_
  obtain ⟨r, kept'⟩ := r
  cases r with
  | ok b => exact hok b kept' h' hr
  | error e => exact herr e kept' h' hr

/-- A call neither sees nor changes what is kept. -/
theorem ensures_call {p : Procedure β} :
    (call p).Ensures s kept h ok err ↔
      p.Ensures s h (fun b h' => ok b kept h') (fun e h' => err e kept h') := by
  unfold Ensures Procedure.Ensures call
  show Program.Ensures s (p.run >>= fun r => pure (r, kept)) h _ ↔ _
  rw [Program.ensures_bind]
  constructor <;> intro hk <;> refine hk.mono fun r h' hr => ?_
  all_goals
    cases r with
    | ok a => exact hr
    | error e => exact hr

theorem ensures_update {f : σ → σ} {ok : Unit → σ → History → Prop} :
    (update f).Ensures s kept h ok err ↔ ok () (f kept) h := Iff.rfl

/-- An invariant that speaks of the items still to come, as for procedures. -/
theorem ensures_foldlM {f : α → β → Keeping σ α} {I : List β → α → σ → History → Prop}
    {err : StoreError → σ → History → Prop} (bs : List β) {a : α}
    (hstep : ∀ b bs a kept h, I (b :: bs) a kept h → (f a b).Ensures s kept h (I bs) err)
    (hinv : I bs a kept h) : (bs.foldlM f a).Ensures s kept h (I []) err := by
  induction bs generalizing a kept h with
  | nil => exact hinv
  | cons b bs ih =>
    rw [List.foldlM_cons, ensures_bind]
    exact (hstep b bs a kept h hinv).mono (fun a' kept' h' hinv' => ih hinv') fun _ _ _ he => he

/-! ## §3 Forgetting -/

/-- Without its memory the one is the other. -/
def Forgets (k : Keeping σ α) (p : Procedure α) : Prop :=
  ∀ kept, Prod.fst <$> k.run.run kept = p.run

theorem Forgets.pure (a : α) : (pure a : Keeping σ α).Forgets (pure a) := fun _ => rfl

/-- Forgetting goes through the parts. -/
theorem Forgets.bind {k : Keeping σ α} {p : Procedure α} {f : α → Keeping σ β}
    {g : α → Procedure β} (hk : k.Forgets p) (hf : ∀ a, (f a).Forgets (g a)) :
    (k >>= f).Forgets (p >>= g) := by
  intro kept
  rw [ExceptT.run_bind, StateT.run_bind, ExceptT.run_bind, ← hk kept, map_bind, bind_map_left]
  refine bind_congr fun r => ?_
  obtain ⟨r, kept'⟩ := r
  cases r with
  | ok a => exact hf a kept'
  | error e => rfl

theorem Forgets.call (p : Procedure α) : (call p : Keeping σ α).Forgets p := by
  intro kept
  show Prod.fst <$> (p.run >>= fun r => Pure.pure (r, kept)) = p.run
  rw [map_bind]
  exact bind_pure p.run

theorem Forgets.update (f : σ → σ) : (update f).Forgets (Pure.pure ()) := fun _ => rfl

/-- The same of a loop, by induction on what it goes through. -/
theorem Forgets.foldlM {f : α → β → Keeping σ α} {g : α → β → Procedure α} (bs : List β) (a : α)
    (hf : ∀ a b, (f a b).Forgets (g a b)) : (bs.foldlM f a).Forgets (bs.foldlM g a) := by
  induction bs generalizing a with
  | nil => exact .pure a
  | cons b bs ih =>
    rw [List.foldlM_cons, List.foldlM_cons]
    exact .bind (hf a b) fun a' => ih a'

/-- Both ask the same and come to the same. -/
theorem Forgets.converse_eq {k : Keeping σ α} {p : Procedure α} (hk : k.Forgets p)
    (s : Surroundings Effect Effect.Answer) (kept : σ) (h : History) :
    p.run.converse s h
      = (((k.run.run kept).converse s h).1.1, ((k.run.run kept).converse s h).2) := by
  rw [← hk kept, map_eq_pure_bind, Program.converse_bind]
  rfl

end Keeping

end SettingProfiles
