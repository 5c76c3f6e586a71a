/-
SettingProfiles.Proofs.Session.Overrides — what becomes of the overrides of a profile
that is gone.

Overrides belong to profile ids and live in the session, while the profiles live in
the stored document. Two commands see to it that no override waits for an id that is
gone: deleting a profile forgets those of its id, and resetting forgets all. Importing
a document replaces all profiles as well, and leaves the overrides as they are. So an
id that an import takes away keeps its overrides, and a profile that comes back under
it picks them up.

  §1 Overrides — an id without overrides, and what keeps it so.
  §2 Commands  — what a command does to the overrides and to the stored ids.
  §3 Sessions  — `overrides_end_with_profile`.
  §4 Importing — an override that outlives its profile.
-/
import SettingProfiles.Proofs.Store.Ids
import SettingProfiles.Session

namespace SettingProfiles

/-! ## §1 Overrides -/

namespace Overrides

variable {o : Overrides} {profile : String}

/-- The profile id has no overrides: every setting follows the global value. -/
def Lacks (o : Overrides) (profile : String) : Prop :=
  ∀ setting, o.isOverridden profile setting = false

theorem Lacks.isOverridden (h : o.Lacks profile) (setting : String) :
    o.isOverridden profile setting = false :=
  h setting

theorem Lacks.resolve (h : o.Lacks profile) (setting : String) (global : Option Setting) :
    o.resolve profile setting global = global :=
  SettingLayer.resolve_of_not_isOverridden (h setting) global

theorem lacks_clear (o : Overrides) (profile : String) : o.clear.Lacks profile := fun _ => rfl

theorem lacks_forget (o : Overrides) (profile : String) : (o.forget profile).Lacks profile := by
  intro setting
  rw [Overrides.isOverridden, layer_forget, if_pos rfl]
  rfl

theorem Lacks.forget (h : o.Lacks profile) (forgotten : String) :
    (o.forget forgotten).Lacks profile := by
  intro setting
  rw [Overrides.isOverridden, layer_forget]
  split
  · rfl
  · exact h setting

/-- A value recorded for a setting that is not overridden is set aside. -/
theorem Lacks.set (h : o.Lacks profile) (other setting : String) (value : Setting) :
    (o.set other setting value).Lacks profile := by
  intro s
  rw [Overrides.isOverridden, layer_set]
  split
  · rename_i hsame
    obtain ⟨rfl, rfl⟩ := hsame
    rw [SettingLayer.isOverridden_record]
    exact h setting
  · exact h s

/-- Switching an override of another profile. -/
theorem Lacks.toggle {other : String} (h : o.Lacks profile) (hne : other ≠ profile)
    (setting : String) (global : Option Setting) :
    (o.toggle other setting global).Lacks profile := by
  intro s
  rw [Overrides.isOverridden, layer_toggle, if_neg fun hsame => hne hsame.1]
  exact h s

end Overrides

/-! ## §2 Commands -/

namespace Command

/-- The command switches an override of the profile id on or off. -/
def Toggles (c : Command) (profile : String) : Prop :=
  ∃ setting global, c = .toggleOverride profile setting global

variable {initial : Option String} {s : Surroundings Effect Effect.Answer} {h : History}
  {o : Overrides} {profile : String}

/-- An operation that is performed as a command. -/
theorem converse_perform (op : Operation) (view : op.Result → Json)
    (adjust : op.Result → Overrides → Overrides) (o : Overrides)
    (s : Surroundings Effect Effect.Answer) (h : History) :
    ((perform op view adjust).run o).converse s h =
      match (op.program.converse s h).1 with
      | .ok r => ((.ok (view r), adjust r o), (op.program.converse s h).2)
      | .error e => ((.failed e.message, o), (op.program.converse s h).2) := by
  unfold perform
  rw [StateT.run_bind, StateT.run_monadLift, Program.converse_bind, Program.converse_bind]
  cases (op.program.converse s h).1 <;> rfl

/-- An operation that succeeds has adjusted the overrides, and taken no id away but those
that it may. -/
theorem perform_of_success (fair : Fair initial s) (op : Operation) (view : op.Result → Json)
    (adjust : op.Result → Overrides → Overrides)
    (hsuccess : (((perform op view adjust).run o).converse s h).1.1.success = true) :
    ∃ r, (((perform op view adjust).run o).converse s h).1.2 = adjust r o ∧
      ∀ id ≠ "", HasId (h.stored initial) id →
        HasId (History.stored initial (((perform op view adjust).run o).converse s h).2) id ∨
          op.MayEnd r id := by
  have hids := op.ensures_body_keepsIds (fair.after h)
  rw [converse_perform, Operation.converse_program, Program.converse_eq_after s op.body.run]
    at hsuccess ⊢
  unfold Procedure.Ensures Program.Ensures at hids
  generalize op.body.run.converse (s.after h) [] = done at hids hsuccess ⊢
  obtain ⟨r, later⟩ := done
  cases r with
  | error e => cases hsuccess
  | ok r =>
    refine ⟨r, rfl, fun id hne hid => ?_⟩
    show HasId (History.stored initial (h ++ later)) id ∨ op.MayEnd r id
    rw [History.stored_append]
    exact hids id hne hid

/-- An id that an operation has taken away has no overrides, if the operation sees to
those that it may take away. -/
theorem lacks_perform_of_ended (fair : Fair initial s) (op : Operation) (view : op.Result → Json)
    (adjust : op.Result → Overrides → Overrides)
    (hsuccess : (((perform op view adjust).run o).converse s h).1.1.success = true)
    (hne : profile ≠ "") (hbefore : HasId (h.stored initial) profile)
    (hafter : ¬ HasId (History.stored initial (((perform op view adjust).run o).converse s h).2)
      profile)
    (hadjust : ∀ r, op.MayEnd r profile → (adjust r o).Lacks profile) :
    (((perform op view adjust).run o).converse s h).1.2.Lacks profile := by
  obtain ⟨r, hadjusted, hids⟩ := perform_of_success fair op view adjust hsuccess
  rw [hadjusted]
  exact hadjust r ((hids profile hne hbefore).resolve_left hafter)

/-- An id without overrides has none after an operation whose result brings none about. -/
theorem lacks_perform (hlacks : o.Lacks profile) (op : Operation) (view : op.Result → Json)
    (adjust : op.Result → Overrides → Overrides) (hadjust : ∀ r, (adjust r o).Lacks profile) :
    (((perform op view adjust).run o).converse s h).1.2.Lacks profile := by
  rw [converse_perform]
  cases (op.program.converse s h).1 with
  | ok r => exact hadjust r
  | error e => exact hlacks

end Command

/-! ## §3 Sessions -/

/-- What a session has come to: its overrides, and the calls that its store has made. -/
structure Session where
  overrides : Overrides
  calls : History

namespace Session

open Command

variable {initial : Option String} {s : Surroundings Effect Effect.Answer} {x : Session}
  {c : Command} {profile : String}

/-- The stored text. -/
def stored (initial : Option String) (x : Session) : Option String := x.calls.stored initial

/-- The answer to a command. -/
def answer (s : Surroundings Effect Effect.Answer) (x : Session) (c : Command) :
    CommandResult Json :=
  ((c.run.run x.overrides).converse s x.calls).1.1

/-- The session after a command. -/
def step (s : Surroundings Effect Effect.Answer) (x : Session) (c : Command) : Session :=
  ⟨((c.run.run x.overrides).converse s x.calls).1.2, ((c.run.run x.overrides).converse s x.calls).2⟩

/-- The session after commands, one after the other. -/
def run (s : Surroundings Effect Effect.Answer) (x : Session) (cs : List Command) : Session :=
  cs.foldl (step s) x

/-- Only switching an override on gives a profile id one. -/
theorem lacks_step (hlacks : x.overrides.Lacks profile) (hc : ¬ c.Toggles profile) :
    (x.step s c).overrides.Lacks profile := by
  unfold step
  cases c with
  | deleteProfile name => exact lacks_perform hlacks _ _ _ fun p => hlacks.forget p.id
  | reset => exact lacks_perform hlacks _ _ _ fun _ => x.overrides.lacks_clear profile
  | toggleOverride other setting global =>
    refine hlacks.toggle ?_ setting global
    rintro rfl
    exact hc ⟨setting, global, rfl⟩
  | setOverride other setting value => exact hlacks.set other setting value
  | resolve | isOverridden | overriddenSettings => exact hlacks
  | _ => exact lacks_perform hlacks _ _ _ fun _ => hlacks

theorem lacks_run (hlacks : x.overrides.Lacks profile) {cs : List Command}
    (hcs : ∀ c ∈ cs, ¬ c.Toggles profile) : (x.run s cs).overrides.Lacks profile := by
  induction cs generalizing x with
  | nil => exact hlacks
  | cons c cs ih =>
    exact ih (lacks_step hlacks (hcs c (by simp))) fun c hc => hcs c (List.mem_cons_of_mem _ hc)

/-- A command that succeeds leaves no overrides to an id that it took away, unless it
imports a document. -/
theorem lacks_of_ended (fair : Fair initial s) (hc : ∀ doc, c ≠ .importDocument doc)
    (hsuccess : (x.answer s c).success = true) (hprofile : profile ≠ "" ∨ c = .reset)
    (hbefore : HasId (x.stored initial) profile)
    (hafter : ¬ HasId ((x.step s c).stored initial) profile) :
    (x.step s c).overrides.Lacks profile := by
  unfold answer at hsuccess
  unfold step Session.stored at *
  cases c with
  | reset =>
    obtain ⟨r, hadjusted, -⟩ := perform_of_success fair .reset _ _ hsuccess
    exact hadjusted ▸ x.overrides.lacks_clear profile
  | deleteProfile name =>
    refine lacks_perform_of_ended fair _ _ _ hsuccess (hprofile.resolve_right (by simp)) hbefore
      hafter ?_
    rintro p rfl
    exact x.overrides.lacks_forget p.id
  | importDocument doc => exact absurd rfl (hc doc)
  | resolve | setOverride | toggleOverride | isOverridden | overriddenSettings =>
    exact absurd hbefore hafter
  | _ =>
    exact lacks_perform_of_ended fair _ _ _ hsuccess (hprofile.resolve_right (by simp)) hbefore
      hafter fun _ hends => hends.elim

/-- Importing a document leaves the overrides as they are. -/
theorem overrides_importDocument (doc : Document) :
    (x.step s (.importDocument doc)).overrides = x.overrides := by
  show (((performPlain (.importDocument doc)).run x.overrides).converse s x.calls).1.2 = _
  rw [performPlain, converse_perform]
  cases ((Operation.importDocument doc).program.converse s x.calls).1 <;> rfl

/-- **No override outlives its profile, unless a document is imported.** At every point of
every run of commands, whatever goes wrong: let a command succeed that imports no
document, and let a profile id be gone after it that was stored before. (It must not be
the empty id, which repair replaces, unless the command is `reset`.) Then the id has no
overrides, and it has none for as long as none is switched on for it: every setting
follows the global value.

A document that is imported leaves all overrides as they are, those of ids that are gone
among them. -/
theorem overrides_end_with_profile (fair : Fair initial s) (o : Overrides)
    (before : List Command) (c : Command) :
    let x := run s ⟨o, []⟩ before
    ((∀ doc, c ≠ .importDocument doc) → (x.answer s c).success = true →
      ∀ profile, profile ≠ "" ∨ c = .reset → HasId (x.stored initial) profile →
        ¬ HasId ((x.step s c).stored initial) profile →
        ∀ after : List Command, (∀ c' ∈ after, ¬ c'.Toggles profile) → ∀ setting global,
          ((x.step s c).run s after).overrides.isOverridden profile setting = false ∧
          ((x.step s c).run s after).overrides.resolve profile setting global = global) ∧
    ∀ doc, c = .importDocument doc → (x.step s c).overrides = x.overrides := by
  intro x
  constructor
  · intro hc hsuccess profile hprofile hbefore hafter after hquiet setting global
    have hlacks : (x.step s c).overrides.Lacks profile :=
      lacks_of_ended fair hc hsuccess hprofile hbefore hafter
    have hlater := lacks_run (s := s) hlacks hquiet
    exact ⟨hlater.isOverridden setting, hlater.resolve setting global⟩
  · rintro doc rfl
    exact overrides_importDocument doc

/-- The document of a new storage has the id that it was made with, and no other. -/
theorem hasId_new {made id : String} (hne : made ≠ "") :
    HasId (some (Document.new made).encode) id ↔ id = made := by
  have hnew : (Document.new made).SoundWith fun v => v.reread? = some v :=
    Document.soundWith_new hne
  rw [hasId_iff_of_decode? ((Document.decode?_encode _).trans
    (Document.reread?_eq_self_iff.mpr hnew.values))]
  constructor
  · intro hid
    obtain ⟨name, p, hp, rfl⟩ := Document.mem_ids.mp hid
    rw [(Document.get?_new hp).2]
  · rintro rfl
    exact Document.mem_ids.mpr ⟨_, _, SortedMap.get?_insert_self _ _ _, rfl⟩

/-- The theorem for a store that is reset while a setting of its profile is overridden. -/
theorem overrides_end_with_profile_ordinary :
    let s := ordinary none;
    let before : List Command :=
      [.importDocument (.new "x"), .toggleOverride "x" "temperature" none];
    let x := run s ⟨.empty, []⟩ before
    Fair none s ∧ (x.answer s .reset).success = true ∧
      x.overrides.isOverridden "x" "temperature" = true ∧
      HasId (x.stored none) "x" ∧ ¬ HasId ((x.step s .reset).stored none) "x" ∧
      ((x.step s .reset).run s [.snapshot]).overrides.isOverridden "x" "temperature" = false := by
  intro s before x
  have hsuccess : (x.answer s .reset).success = true := by decide +kernel
  have hbefore : HasId (x.stored none) "x" := by
    have hstored : x.stored none = some (Document.new "x").encode := rfl
    rw [hstored, hasId_new (by decide)]
  have hafter : ¬ HasId ((x.step s .reset).stored none) "x" := by
    rintro ⟨text, htext, -⟩
    cases htext
  have hlacks := (overrides_end_with_profile (fair_ordinary none) .empty before .reset).1
    (by simp) hsuccess "x" (.inl (by decide)) hbefore hafter [.snapshot] (by simp [Toggles])
    "temperature" none
  exact ⟨fair_ordinary none, hsuccess, by decide +kernel, hbefore, hafter, hlacks.1⟩

/-! ## §4 Importing -/

/-- An override outlives its profile if a document without the profile is imported: it is
still in force after the import. -/
theorem override_outlives_profile :
    let s := ordinary none;
    let before : List Command := [.importDocument (.new "x"),
      .toggleOverride "x" "temperature" (some (.integer 1))];
    let x := run s ⟨.empty, []⟩ before;
    let c : Command := .importDocument (.new "y")
    (x.answer s c).success = true ∧ HasId (x.stored none) "x" ∧
      ¬ HasId ((x.step s c).stored none) "x" ∧
      (x.step s c).overrides.isOverridden "x" "temperature" = true ∧
      (x.step s c).overrides.resolve "x" "temperature" (some (.integer 2)) = some (.integer 1) := by
  intro s before x c
  have hbefore : x.stored none = some (Document.new "x").encode := rfl
  have hafter : (x.step s c).stored none = some (Document.new "y").encode := rfl
  refine ⟨by decide +kernel, ?_, ?_, by decide +kernel, by decide +kernel⟩
  · rw [hbefore, hasId_new (by decide)]
  · rw [hafter, hasId_new (by decide)]
    decide

end Session

end SettingProfiles
