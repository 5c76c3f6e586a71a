/-
SettingProfiles.Proofs.Store.History — what a history of the store's calls
says.

A history of exchanges says which text is stored at its end, which texts were
handed over to be stored, and what was announced. This module reads all three
off a history, says when surroundings are fair, and gives one rule for each
way to build a `Procedure`, so that the operations of the store are followed
call by call.

  §1 Histories  — the stored text, the texts handed over, the events.
  §2 Looks      — calls that neither store, delete nor announce.
  §3 Fairness   — what is stored is what `get` yields, and ids are fresh.
  §4 Procedures — `Procedure.Ensures`, with a rule for each construction.
-/
import SettingProfiles.Proofs.Surroundings
import SettingProfiles.Store.Operation

namespace SettingProfiles

/-! ## §1 Histories -/

/-- What the store asked and was answered, in order. -/
abbrev History : Type := List (Exchange Effect Effect.Answer)

namespace Effect

/-- A call to the storage. -/
def isStorage : Effect → Bool
  | .get | .set _ | .delete => true
  | _ => false

/-- A call to anything but the storage. -/
def isOutside (q : Effect) : Bool := !q.isStorage

/-- A look at an old setting, or an id that is drawn. -/
def isSource : Effect → Bool
  | .legacy _ | .freshId _ => true
  | _ => false

/-- A call that neither stores, deletes nor announces anything. -/
def isLook : Effect → Bool
  | .get | .legacy _ | .freshId _ => true
  | _ => false

/-- The text that a call hands over to be stored. -/
def text? : Effect → Option String
  | .set text => some text
  | _ => none

/-- The event that a call announces. -/
def event? : Effect → Option StoreEvent
  | .publish event => some event
  | _ => none

end Effect

/-- The stored text after an exchange; a storage call that goes wrong leaves it as
it was. -/
def Exchange.storedAfter (text : Option String) :
    Exchange Effect Effect.Answer → Option String
  | ⟨.set new, .ok ()⟩ => some new
  | ⟨.delete, .ok ()⟩ => none
  | _ => text

namespace History

/-- The stored text at the end. -/
def stored (initial : Option String) (h : History) : Option String :=
  h.foldl Exchange.storedAfter initial

/-- The texts that were handed over to be stored, whether or not the call went
well. -/
def written (h : History) : List String := h.filterMap fun x => x.question.text?

/-- What was announced. -/
def events (h : History) : List StoreEvent := h.filterMap fun x => x.question.event?

/-- The calls to the storage. -/
def storageCalls (h : History) : List Effect := (h.map Exchange.question).filter Effect.isStorage

@[simp] theorem stored_append (initial : Option String) (h k : History) :
    stored initial (h ++ k) = stored (stored initial h) k := by
  simp [stored]

@[simp] theorem written_append (h k : History) : written (h ++ k) = written h ++ written k := by
  simp [written]

@[simp] theorem events_append (h k : History) : events (h ++ k) = events h ++ events k := by
  simp [events]

@[simp] theorem storageCalls_append (h k : History) :
    storageCalls (h ++ k) = storageCalls h ++ storageCalls k := by
  simp [storageCalls]

/-! ## §2 Looks -/

/-- The history goes on with looks only. -/
def OnlyLooks (h h' : History) : Prop :=
  ∃ more : History, h' = h ++ more ∧ ∀ x ∈ more, x.question.isLook = true

namespace OnlyLooks

theorem refl (h : History) : OnlyLooks h h := ⟨[], by simp⟩

theorem trans {h h' h'' : History} (hh : OnlyLooks h h') (hh' : OnlyLooks h' h'') :
    OnlyLooks h h'' := by
  obtain ⟨more, rfl, hmore⟩ := hh
  obtain ⟨more', rfl, hmore'⟩ := hh'
  refine ⟨more ++ more', by simp, ?_⟩
  intro x hx
  rcases List.mem_append.mp hx with hx | hx
  · exact hmore x hx
  · exact hmore' x hx

/-- One more look. -/
theorem snoc {h h' : History} (hh : OnlyLooks h h') {x : Exchange Effect Effect.Answer}
    (hx : x.question.isLook = true) : OnlyLooks h (h' ++ [x]) :=
  hh.trans ⟨[x], rfl, by simpa using hx⟩

/-- A look leaves the stored text as it is. -/
theorem storedAfter_eq {x : Exchange Effect Effect.Answer} (hx : x.question.isLook = true)
    (text : Option String) : x.storedAfter text = text := by
  obtain ⟨q, a⟩ := x
  cases q with
  | set text => simp [Effect.isLook] at hx
  | delete => simp [Effect.isLook] at hx
  | publish event => simp [Effect.isLook] at hx
  | get => rfl
  | legacy key => rfl
  | freshId inUse => rfl

theorem stored_eq {h h' : History} (hh : OnlyLooks h h') (initial : Option String) :
    stored initial h' = stored initial h := by
  obtain ⟨more, rfl, hmore⟩ := hh
  rw [stored_append]
  generalize stored initial h = text
  induction more with
  | nil => rfl
  | cons x more ih =>
    have hx : x.storedAfter text = text := storedAfter_eq (hmore x (by simp)) text
    show stored (x.storedAfter text) more = text
    rw [hx]
    exact ih fun y hy => hmore y (List.mem_cons_of_mem _ hy)

theorem written_eq {h h' : History} (hh : OnlyLooks h h') : written h' = written h := by
  obtain ⟨more, rfl, hmore⟩ := hh
  have : written more = [] := by
    refine List.filterMap_eq_nil_iff.mpr fun x hx => ?_
    have hlook := hmore x hx
    cases hq : x.question <;> simp_all [Effect.text?, Effect.isLook]
  simp [this]

theorem events_eq {h h' : History} (hh : OnlyLooks h h') : events h' = events h := by
  obtain ⟨more, rfl, hmore⟩ := hh
  have : events more = [] := by
    refine List.filterMap_eq_nil_iff.mpr fun x hx => ?_
    have hlook := hmore x hx
    cases hq : x.question <;> simp_all [Effect.event?, Effect.isLook]
  simp [this]

end OnlyLooks

end History

open History (OnlyLooks)

/-! ## §3 Fairness -/

/-- Surroundings of a store whose storage held `initial` at the beginning: what a
`get` yields, unless it goes wrong, is what is stored, and a generated id is the
first one not in use of a supply of ids, none of them empty, that may repeat
itself. Any call to the storage and any look at the old settings may go wrong,
and the old settings may answer anything at any time. -/
structure Fair (initial : Option String) (s : Surroundings Effect Effect.Answer) : Prop where
  get_eq : ∀ (h : History) (text : Option String), s h .get = .ok text → text = h.stored initial
  freshId_eq : ∀ (h : History) (inUse : List String), ∃ supply rest, "" ∉ supply ∧
    Document.freshId? inUse supply = some (s h (.freshId inUse), rest)

/-- An id that is drawn comes from the supply and is not in use. -/
theorem Document.freshId?_eq_some {inUse supply rest : List String} {id : String}
    (h : freshId? inUse supply = some (id, rest)) : id ∈ supply ∧ id ∉ inUse := by
  induction supply with
  | nil => cases h
  | cons first supply ih =>
    unfold freshId? at h
    split at h
    · exact ⟨List.mem_cons_of_mem _ (ih h).1, (ih h).2⟩
    · rename_i hfirst
      cases h
      exact ⟨List.mem_cons_self, hfirst⟩

/-- Surroundings in which a generated id is never empty and never in use. -/
structure DrawsFresh (s : Surroundings Effect Effect.Answer) : Prop where
  ne : ∀ (h : History) (inUse : List String), s h (.freshId inUse) ≠ ""
  not_mem : ∀ (h : History) (inUse : List String), s h (.freshId inUse) ∉ inUse

theorem Fair.drawsFresh {initial : Option String} {s : Surroundings Effect Effect.Answer}
    (fair : Fair initial s) : DrawsFresh s where
  ne h inUse := by
    obtain ⟨supply, rest, hne, hdraw⟩ := fair.freshId_eq h inUse
    intro hempty
    exact hne (hempty ▸ (Document.freshId?_eq_some hdraw).1)
  not_mem h inUse := by
    obtain ⟨supply, rest, -, hdraw⟩ := fair.freshId_eq h inUse
    exact (Document.freshId?_eq_some hdraw).2

/-- Fair surroundings are fair from every point on. -/
theorem Fair.after {initial : Option String} {s : Surroundings Effect Effect.Answer}
    (fair : Fair initial s) (h : History) : Fair (h.stored initial) (s.after h) where
  get_eq later text hget := by
    rw [← History.stored_append]
    exact fair.get_eq (h ++ later) text hget
  freshId_eq later inUse := fair.freshId_eq (h ++ later) inUse

/-! ## §4 Procedures -/

namespace Procedure

variable {α β : Type} {s : Surroundings Effect Effect.Answer} {h : History}

/-- What holds at the end of a procedure: `ok` if it returns, `err` if it fails. -/
def Ensures (s : Surroundings Effect Effect.Answer) (p : Procedure α) (h : History)
    (ok : α → History → Prop) (err : StoreError → History → Prop) : Prop :=
  Program.Ensures s p.run h fun r h' =>
    match r with
    | .ok a => ok a h'
    | .error e => err e h'

variable {ok : β → History → Prop} {err : StoreError → History → Prop}

@[simp] theorem ensures_pure {b : β} : (pure b : Procedure β).Ensures s h ok err ↔ ok b h :=
  Iff.rfl

@[simp] theorem ensures_throw {e : StoreError} :
    (throw e : Procedure β).Ensures s h ok err ↔ err e h := Iff.rfl

theorem ensures_bind {p : Procedure α} {f : α → Procedure β} :
    (p >>= f).Ensures s h ok err ↔
      p.Ensures s h (fun a h' => (f a).Ensures s h' ok err) err := by
  unfold Ensures
  rw [ExceptT.run_bind, Program.ensures_bind]
  constructor <;> intro hp <;> refine hp.mono fun r h' hr => ?_
  all_goals
    cases r with
    | ok a => exact hr
    | error e => exact hr

theorem Ensures.mono {p : Procedure β} {ok' : β → History → Prop}
    {err' : StoreError → History → Prop} (hp : p.Ensures s h ok err)
    (hok : ∀ b h', ok b h' → ok' b h') (herr : ∀ e h', err e h' → err' e h') :
    p.Ensures s h ok' err' := by
  refine Program.Ensures.mono hp fun r h' hr => ?_
  cases r with
  | ok b => exact hok b h' hr
  | error e => exact herr e h' hr

theorem Ensures.and {p : Procedure β} {ok' : β → History → Prop}
    {err' : StoreError → History → Prop} (hp : p.Ensures s h ok err)
    (hp' : p.Ensures s h ok' err') :
    p.Ensures s h (fun b h' => ok b h' ∧ ok' b h') (fun e h' => err e h' ∧ err' e h') := by
  unfold Ensures Program.Ensures at *
  cases hr : (Program.converse s p.run h).1 with
  | ok b => rw [hr] at hp hp'; exact ⟨hp, hp'⟩
  | error e => rw [hr] at hp hp'; exact ⟨hp, hp'⟩

/-- What a procedure comes to, in so many words. -/
theorem ensures_converse (p : Procedure β) :
    p.Ensures s h (fun b h' => p.run.converse s h = (.ok b, h'))
      fun e h' => p.run.converse s h = (.error e, h') := by
  unfold Ensures Program.Ensures
  generalize Program.converse s p.run h = r
  obtain ⟨r, h'⟩ := r
  cases r <;> rfl

/-- A procedure that returned goes on with the next one. -/
theorem converse_bind_ok {p : Procedure α} {f : α → Procedure β} {a : α} {h' : History}
    (hp : p.run.converse s h = (.ok a, h')) :
    (p >>= f).run.converse s h = (f a).run.converse s h' := by
  rw [ExceptT.run_bind, Program.converse_bind, hp]

/-- A procedure that failed is not gone on with. -/
theorem converse_bind_error {p : Procedure α} {f : α → Procedure β} {e : StoreError}
    {h' : History} (hp : p.run.converse s h = (.error e, h')) :
    (p >>= f).run.converse s h = (.error e, h') := by
  rw [ExceptT.run_bind, Program.converse_bind, hp]
  rfl

theorem ensures_iff_of_ok {p : Procedure β} {b : β} {h' : History}
    (hrun : p.run.converse s h = (.ok b, h')) : p.Ensures s h ok err ↔ ok b h' := by
  unfold Ensures Program.Ensures
  rw [hrun]

theorem Ensures.of_ok {p : Procedure β} {b : β} {h' : History} (hp : p.Ensures s h ok err)
    (hrun : p.run.converse s h = (.ok b, h')) : ok b h' := (ensures_iff_of_ok hrun).mp hp

theorem Ensures.ok_or_error {p : Procedure β} (hp : p.Ensures s h ok err) :
    (∃ b h', p.run.converse s h = (.ok b, h') ∧ ok b h') ∨
      ∃ e h', p.run.converse s h = (.error e, h') ∧ err e h' := by
  unfold Ensures Program.Ensures at hp
  generalize p.run.converse s h = r at hp ⊢
  obtain ⟨r, h'⟩ := r
  cases r with
  | ok b => exact .inl ⟨b, h', rfl, hp⟩
  | error e => exact .inr ⟨e, h', rfl, hp⟩

/-- A procedure that cannot fail returns. -/
theorem Ensures.exists_ok {p : Procedure β} (hp : p.Ensures s h ok fun _ _ => False) :
    ∃ b h', p.run.converse s h = (.ok b, h') ∧ ok b h' :=
  hp.ok_or_error.resolve_right fun ⟨_, _, _, hf⟩ => hf

/-- What holds whether the procedure returns or fails. -/
theorem Ensures.always {p : Procedure β} {P : History → Prop}
    (hp : p.Ensures s h (fun _ => P) fun _ => P) : P (p.run.converse s h).2 := by
  unfold Ensures Program.Ensures at hp
  cases hr : (p.run.converse s h).1 <;> rw [hr] at hp <;> exact hp

/-- A storage call returns what it is answered, or fails with the fault. -/
theorem ensures_storage {p : Program Effect Effect.Answer (Except Fault β)} :
    (storage p).Ensures s h ok err ↔
      p.Ensures s h fun r h' =>
        match r with
        | .ok b => ok b h'
        | .error f => err (.ofFault f) h' := by
  unfold Ensures storage
  rw [ExceptT.run_mk, Program.ensures_bind]
  constructor <;> intro hp <;> refine hp.mono fun r h' hr => ?_
  all_goals
    cases r with
    | ok b => exact hr
    | error f => exact hr

theorem ensures_get {ok : Option String → History → Prop} :
    get.Ensures s h ok err ↔
      match s h .get with
      | .ok text => ok text (h ++ [⟨.get, .ok text⟩])
      | .error f => err (.ofFault f) (h ++ [⟨.get, .error f⟩]) := by
  refine ensures_storage.trans (Program.ensures_query.trans ?_)
  cases s h .get <;> rfl

theorem ensures_set {text : String} {ok : Unit → History → Prop} :
    (set text).Ensures s h ok err ↔
      match s h (.set text) with
      | .ok () => ok () (h ++ [⟨.set text, .ok ()⟩])
      | .error f => err (.ofFault f) (h ++ [⟨.set text, .error f⟩]) := by
  refine ensures_storage.trans (Program.ensures_query.trans ?_)
  cases s h (.set text) <;> rfl

theorem ensures_delete {ok : Unit → History → Prop} :
    delete.Ensures s h ok err ↔
      match s h .delete with
      | .ok () => ok () (h ++ [⟨.delete, .ok ()⟩])
      | .error f => err (.ofFault f) (h ++ [⟨.delete, .error f⟩]) := by
  refine ensures_storage.trans (Program.ensures_query.trans ?_)
  cases s h .delete <;> rfl

theorem ensures_legacy {key : String} {ok : Option Setting → History → Prop} :
    (legacy key).Ensures s h ok err ↔
      match s h (.legacy key) with
      | .ok value => ok value (h ++ [⟨.legacy key, .ok value⟩])
      | .error p => err (.aborted p) (h ++ [⟨.legacy key, .error p⟩]) := by
  unfold Ensures legacy
  rw [ExceptT.run_mk, Program.ensures_bind]
  refine Program.ensures_query.trans ?_
  cases s h (.legacy key) <;> rfl

theorem ensures_freshId {inUse : List String} {ok : String → History → Prop} :
    (freshId inUse).Ensures s h ok err ↔
      ok (s h (.freshId inUse)) (h ++ [⟨.freshId inUse, s h (.freshId inUse)⟩]) := Iff.rfl

theorem ensures_publish {event : StoreEvent} {ok : Unit → History → Prop} :
    (publish event).Ensures s h ok err ↔ ok () (h ++ [⟨.publish event, ()⟩]) := Iff.rfl

theorem ensures_ofDocument {r : Except DocumentError β} :
    (ofDocument r).Ensures s h ok err ↔
      match r with
      | .ok b => ok b h
      | .error e => err (.ofDocument e) h := by
  cases r <;> rfl

/-- An invariant that speaks of the items still to come holds at the end of a loop
over a list, if every turn keeps it. -/
theorem ensures_foldlM {f : α → β → Procedure α} {I : List β → α → History → Prop}
    {err : StoreError → History → Prop} (bs : List β) {a : α}
    (hstep : ∀ b bs a h, I (b :: bs) a h → (f a b).Ensures s h (I bs) err)
    (hinv : I bs a h) : (bs.foldlM f a).Ensures s h (I []) err := by
  induction bs generalizing a h with
  | nil => exact hinv
  | cons b bs ih =>
    rw [List.foldlM_cons, ensures_bind]
    exact (hstep b bs a h hinv).mono (fun a' h' hinv' => ih hinv') (fun _ _ he => he)

end Procedure

end SettingProfiles
