/-
SettingProfiles.Proofs.Store.Batches — operations that can be done in any order.

Deletions, savings and bindings of different profiles and modes do act on each other: a
deletion takes away the profile from which another one would have been given its rate
limit, it makes another profile current, perhaps one that was just saved, and it brings
the number of profiles nearer to the one that has to be left. Still each succeeds in any
order, and what is left at the end is what each was to do.

  §1 Batches     — `Independent`: whatever the order is.
  §2 Documents   — a document in which a profile is saved, or from which one is removed.
  §3 Steps       — `Keeps` and `Leaves`: what is stored before and after an operation.
  §4 Runs        — `Merges`, from step to step.
  §5 Any order   — `independent_operations_survive`.
-/
import SettingProfiles.Proofs.Document.OwnText
import SettingProfiles.Proofs.Store.Saving

namespace SettingProfiles

open SettingName

variable {initial : Option String} {h h' : History} {doc doc' : Document} {op op' : Operation}
  {name id : String} {s : Surroundings Effect Effect.Answer}

/-! ## §1 Batches -/

/-- The value is not a float. -/
def Setting.NotFloat (v : Setting) : Prop := ∀ x, v ≠ .float x

/-- The second settings are the first, and perhaps a rate limit that the first lack. -/
def SettingMap.CompletedBy (given full : SettingMap) : Prop :=
  full = given ∨
    given.contains rateLimitSeconds = false ∧ ∃ limit, full = given.insert rateLimitSeconds limit

namespace Operation

theorem saved?_eq_some_iff : op.saved? = some name ↔ ∃ given, op = .save name given := by
  cases op <;> simp [saved?]

theorem deleted?_eq_some_iff : op.deleted? = some name ↔ op = .delete name := by
  cases op <;> simp [deleted?]

/-- A profile that no operation deletes is not deleted by the first. -/
theorem deleted?_ne_of_not_mem {ops : List Operation} (hname : .delete name ∉ op :: ops) :
    op.deleted? ≠ some name := fun hdeleted =>
  hname (deleted?_eq_some_iff.mp hdeleted ▸ List.mem_cons_self)

theorem bound?_eq_some_iff {mode : String} :
    op.bound? mode = some id ↔ op = .bindMode mode id := by
  cases op <;> simp [bound?]

/-- The operation saves or deletes the profile of this name. -/
def Touches (op : Operation) (name : String) : Prop :=
  op.saved? = some name ∨ op.deleted? = some name

/-- The operations touch different profiles, and bind different modes. -/
@[mk_iff] structure Apart (op op' : Operation) : Prop where
  profiles : ∀ name, op.Touches name → ¬ op'.Touches name
  modes : ∀ mode, op.bound? mode = none ∨ op'.bound? mode = none

theorem Apart.symm (hapart : op.Apart op') : op'.Apart op where
  profiles name hop' hop := hapart.profiles name hop hop'
  modes mode := (hapart.modes mode).symm

/-- What a batch can consist of: the deletion of a profile of the document, the saving of
settings without floats, and the binding of a mode. -/
inductive Suits (doc : Document) : Operation → Prop
  | delete {name : String} (hname : doc.contains name = true) : Suits doc (.delete name)
  | save {name : String} {given : SettingMap} (hname : name ≠ "")
      (hgiven : SettingMap.ValuesAre Setting.NotFloat given) : Suits doc (.save name given)
  | bindMode (mode id : String) : Suits doc (.bindMode mode id)

/-- The operations are a batch of which no two are about the same, and which does not
delete all profiles. -/
structure Independent (doc : Document) (ops : List Operation) : Prop where
  suit : ∀ op ∈ ops, op.Suits doc
  apart : ops.Pairwise Apart
  left : ∃ name, doc.contains name = true ∧ .delete name ∉ ops

variable {ops ops' : List Operation}

/-- A batch is one in every order. -/
theorem Independent.perm (hops : Independent doc ops) (hperm : ops'.Perm ops) :
    Independent doc ops' where
  suit op hop := hops.suit op (hperm.mem_iff.mp hop)
  apart := hops.apart.perm hperm.symm fun hapart => hapart.symm
  left := by
    obtain ⟨name, hname, hleft⟩ := hops.left
    exact ⟨name, hname, fun hmem => hleft (hperm.mem_iff.mp hmem)⟩

/-- Nothing in a batch makes a profile current. -/
theorem Suits.not_activates (hop : op.Suits doc) (name : String) : ¬ op.Activates doc' name := by
  cases hop <;> exact id

/-- A profile that is not deleted is still there. -/
theorem Frame.contains (hframe : op.Frame doc doc') (hdeleted : op.deleted? ≠ some name)
    (hname : doc.contains name = true) : doc'.contains name = true := by
  obtain ⟨p, hp⟩ := SortedMap.contains_iff.mp hname
  exact (hframe.hasProfile hdeleted (congrArg (Option.map Profile.id) hp)).contains

/-- What is left of a batch after its first operation is a batch. -/
theorem Independent.tail (hops : Independent doc (op :: ops)) (hframe : op.Frame doc doc') :
    Independent doc' ops where
  suit op' hop' := by
    have hapart : op.Apart op' := (List.pairwise_cons.mp hops.apart).1 op' hop'
    cases hops.suit op' (List.mem_cons_of_mem op hop') with
    | @delete name hname =>
      have huntouched : op.deleted? ≠ some name := fun hdeleted =>
        hapart.profiles name (.inr hdeleted) (.inr rfl)
      exact .delete (hframe.contains huntouched hname)
    | save hname hgiven => exact .save hname hgiven
    | bindMode mode id => exact .bindMode mode id
  apart := (List.pairwise_cons.mp hops.apart).2
  left := by
    obtain ⟨name, hname, hleft⟩ := hops.left
    exact ⟨name, hframe.contains (deleted?_ne_of_not_mem hleft) hname,
      fun hmem => hleft (List.mem_cons_of_mem op hmem)⟩

end Operation

/-! ## §2 Documents -/

namespace Document

/-- Completing settings in a document without floats adds none. -/
theorem Completes.notFloat {given full : SettingMap} {looks : List (String × Option Setting)}
    (hfull : doc.Completes name given looks full) (hdoc : doc.ValuesAre Setting.NotFloat)
    (hgiven : SettingMap.ValuesAre Setting.NotFloat given) :
    SettingMap.ValuesAre Setting.NotFloat full := by
  have hvalue : ∀ {other key value}, doc.setting? other key = some value → value.NotFloat := by
    intro other key value hsetting
    obtain ⟨p, hp, hkey⟩ := Option.bind_eq_some_iff.mp hsetting
    exact hdoc other p hp key value hkey
  unfold Completes at hfull
  split at hfull
  · obtain ⟨rfl, -⟩ := hfull
    exact hgiven
  · obtain ⟨limit, hlimit, rfl⟩ := hfull
    refine hgiven.insert ?_
    cases hlimit with
    | own hown => exact hvalue hown
    | first _ hfirst => exact hvalue hfirst.1
    | old => exact nofun
    | default => exact nofun

theorem Completes.completedBy {given full : SettingMap} {looks : List (String × Option Setting)}
    (hfull : doc.Completes name given looks full) : given.CompletedBy full := by
  unfold Completes at hfull
  split at hfull
  · exact .inl hfull.1
  · rename_i hlacks
    obtain ⟨limit, -, rfl⟩ := hfull
    exact .inr ⟨by simpa using hlacks, limit, rfl⟩

/-- The document with the profile stored in it is the only one that it can be. -/
theorem Saves.eq_insert {full : SettingMap} (hsaves : doc.Saves name id full doc') :
    doc' = { doc with profiles := doc.profiles.insert name ⟨id, full⟩ } := by
  have hprofiles : doc'.profiles = doc.profiles.insert name ⟨id, full⟩ := by
    refine SortedMap.ext_get? fun other => ?_
    rw [SortedMap.get?_insert]
    split
    · rename_i heq
      exact heq ▸ hsaves.profile
    · rename_i hne
      exact hsaves.others other (Ne.symm hne)
  obtain ⟨current, profiles, modeBindings, upgradeFlags⟩ := doc'
  cases hsaves.current
  cases hsaves.modeBindings
  cases hsaves.upgradeFlags
  cases hprofiles
  rfl

theorem Saves.soundWith {good : Setting → Prop} {full : SettingMap}
    (hsaves : doc.Saves name id full doc') (hsound : doc.SoundWith good) (hname : name ≠ "")
    (hfull : SettingMap.ValuesAre good full) : doc'.SoundWith good := by
  rw [hsaves.eq_insert]
  cases hp : doc.profiles.get? name with
  | none =>
    obtain ⟨hne, hfresh⟩ := hsaves.fresh (by simp [contains, SortedMap.contains, hp])
    exact hsound.insert_profile hname hne (.inr hfresh) hfull
  | some p =>
    obtain rfl : id = p.id := hsaves.kept p hp
    have hne : p.id ≠ "" := fun hid => hsound.ids_ne (mem_ids.mpr ⟨name, p, hp, hid⟩)
    exact hsound.insert_profile hname hne (.inl ⟨p, hp, rfl⟩) hfull

theorem Saves.frame {given full : SettingMap} (hsaves : doc.Saves name id full doc') :
    (Operation.save name given).Frame doc doc' := by
  rw [hsaves.eq_insert]
  exact Operation.frame_save given full fun p hp => (hsaves.kept p hp).symm

/-- One of several profiles can be removed. -/
theorem exists_remove {other : String} (hname : doc.contains name = true)
    (hother : doc.contains other = true) (hne : other ≠ name) :
    ∃ p rest, doc.remove name = .ok (p, rest) := by
  obtain ⟨p, hp⟩ := SortedMap.contains_iff.mp hname
  have hsize : doc.profiles.size ≠ 1 := fun hsize =>
    hne (SortedMap.eq_of_size_eq_one hsize hother hname)
  unfold remove
  rw [hp]
  exact ⟨p, _, if_neg hsize⟩

/-- A document without floats is read from its own text. -/
theorem decode?_encode_of_notFloat (hvalues : doc.ValuesAre Setting.NotFloat) :
    decode? doc.encode = some doc :=
  decode?_encode_eq_self fun n p hp key value hvalue =>
    Setting.reread?_of_not_float (hvalues n p hp key value hvalue)

end Document

/-! ## §3 Steps -/

/-- The stored text is that of the document, which lacks nothing and has no float. -/
structure History.Keeps (initial : Option String) (h : History) (doc : Document) : Prop where
  stored : ∃ text, h.stored initial = some text ∧ Document.decode? text = some doc
  sound : doc.SoundWith Setting.NotFloat
  upToDate : doc.UpToDate

open History (Keeps)

/-- A document that was stored last is kept. -/
theorem History.keeps_of_committed (hsound : doc.SoundWith Setting.NotFloat)
    (hupToDate : doc.UpToDate) {before : History} {event : StoreEvent}
    (hlast : h = before ++ [⟨.set doc.encode, .ok ()⟩, ⟨.publish event, ()⟩]) :
    Keeps initial h doc := by
  refine ⟨⟨doc.encode, ?_, Document.decode?_encode_of_notFloat hsound.values⟩, hsound, hupToDate⟩
  rw [hlast, stored_append]
  rfl

namespace Operation

open Procedure

/-- What an operation of a batch leaves behind: it returned, and committed a document
within its frame, without floats. -/
structure Leaves (op : Operation) (doc : Document) (r : op.Result) (h' : History)
    (doc' : Document) : Prop where
  frame : op.Frame doc doc'
  sound : doc'.SoundWith Setting.NotFloat
  /-- What was saved is there, under the id that was returned. -/
  saved : ∀ name given id, (⟨op, .ok r⟩ : Outcome) = ⟨.save name given, .ok id⟩ →
    ∃ full, doc'.profiles.get? name = some ⟨id, full⟩ ∧ given.CompletedBy full
  committed : ∃ before : History,
    h' = before ++ [⟨.set doc'.encode, .ok ()⟩, ⟨.publish (.changed (.of doc')), ()⟩]

/-- Where a document is kept, an operation that begins by reading is about that document. -/
theorem ensures_read_kept {β : Type} {f : Document → Procedure β} {ok : β → History → Prop}
    (fair : Fair initial s) (hkeeps : Keeps initial h doc)
    (hf : ∀ reading, (f doc).Ensures (s.after h) reading ok fun _ h' => ¬ h'.Untroubled) :
    (Procedure.read >>= f).Ensures (s.after h) [] ok fun _ h' => ¬ h'.Untroubled := by
  obtain ⟨text, hstored, hdecode⟩ := hkeeps.stored
  rw [ensures_bind]
  cases hget : s.after h [] .get with
  | error fault => exact ensures_read_troubled hget
  | ok found =>
    obtain rfl : found = some text := ((fair.after h).get_eq [] found hget).trans hstored
    rw [ensures_read_present hget hdecode hkeeps.sound.toSound hkeeps.upToDate]
    exact hf _

/-- One operation of a batch. -/
theorem ensures_body_leaves (fair : Fair initial s) (hkeeps : Keeps initial h doc)
    (hop : op.Suits doc) {other : String} (hother : doc.contains other = true)
    (hleft : op.deleted? ≠ some other) :
    op.body.Ensures (s.after h) [] (fun r h' => ∃ doc', op.Leaves doc r h' doc')
      fun _ h' => ¬ h'.Untroubled := by
  cases hop with
  | @delete name hname =>
    have hne : other ≠ name := fun heq => hleft (congrArg some heq.symm)
    obtain ⟨p, rest, hremove⟩ := Document.exists_remove hname hother hne
    refine ensures_read_kept fair hkeeps fun reading => ?_
    rw [ensures_bind, ensures_ofDocument, hremove]
    dsimp only
    rw [ensures_bind]
    refine (ensures_commit_calls rest).mono ?_ fun _ _ he => he
    rintro - h' rfl
    exact ⟨rest, (frame_remove hkeeps.sound.current hremove).2, hkeeps.sound.remove hremove,
      nofun, reading, rfl⟩
  | @save name given hname hgiven =>
    show (Procedure.save name given).Ensures (s.after h) [] _ _
    unfold Procedure.save
    rw [if_neg hname]
    refine ensures_read_kept fair hkeeps fun reading => ?_
    refine (ensures_save_into (fair.after h).drawsFresh hkeeps.sound.toSound hname given).mono ?_
      fun _ _ he => he
    rintro id h' ⟨h₁, looks, full, doc', -, hfull, hsaves, rfl⟩
    refine ⟨doc', hsaves.frame, hsaves.soundWith hkeeps.sound hname
      (hfull.notFloat hkeeps.sound.values hgiven), ?_, h₁, rfl⟩
    rintro _ _ _ ⟨⟩
    exact ⟨full, hsaves.profile, hfull.completedBy⟩
  | bindMode mode id =>
    refine ensures_read_kept fair hkeeps fun reading => ?_
    refine (ensures_commit_calls (doc.bindMode mode id)).mono ?_ fun _ _ he => he
    rintro - h' rfl
    exact ⟨_, frame_bindMode doc mode id, hkeeps.sound.bindMode mode id, nofun, reading, rfl⟩

/-! ## §4 Runs -/

/-- What a batch makes of a document: each operation has done what it was to do, and
nothing besides. -/
structure Merges (ops : List Operation) (outcomes : List Outcome) (doc final : Document) :
    Prop where
  upgradeFlags : final.upgradeFlags = doc.upgradeFlags
  bound : ∀ mode id, .bindMode mode id ∈ ops → final.modeBindings.get? mode = some id
  unbound : ∀ mode, (∀ id, .bindMode mode id ∉ ops) →
    final.modeBindings.get? mode = doc.modeBindings.get? mode
  deleted : ∀ name, .delete name ∈ ops → final.contains name = false
  /-- A profile that was saved has the id that was returned. -/
  saved : ∀ name given, .save name given ∈ ops → ∃ id full,
    ⟨.save name given, .ok id⟩ ∈ outcomes ∧ final.profiles.get? name = some ⟨id, full⟩ ∧
      given.CompletedBy full
  others : ∀ name, .delete name ∉ ops → (∀ given, .save name given ∉ ops) →
    final.profiles.get? name = doc.profiles.get? name
  current : .delete doc.current ∉ ops → final.current = doc.current

variable {ops ops' : List Operation} {outcomes : List Outcome} {final : Document}

theorem Merges.nil (doc : Document) : Merges [] [] doc doc where
  upgradeFlags := rfl
  bound := by simp
  unbound _ _ := rfl
  deleted := by simp
  saved := by simp
  others _ _ _ := rfl
  current _ := rfl

theorem Merges.perm (hmerges : Merges ops outcomes doc final) (hperm : ops.Perm ops') :
    Merges ops' outcomes doc final where
  upgradeFlags := hmerges.upgradeFlags
  bound mode id hmem := hmerges.bound mode id (hperm.mem_iff.mpr hmem)
  unbound mode hnone := hmerges.unbound mode fun id hmem => hnone id (hperm.mem_iff.mp hmem)
  deleted name hmem := hmerges.deleted name (hperm.mem_iff.mpr hmem)
  saved name given hmem := hmerges.saved name given (hperm.mem_iff.mpr hmem)
  others name hdeleted hsaved := hmerges.others name (fun hmem => hdeleted (hperm.mem_iff.mp hmem))
    fun given hmem => hsaved given (hperm.mem_iff.mp hmem)
  current hcurrent := hmerges.current fun hmem => hcurrent (hperm.mem_iff.mp hmem)

/-- The operations of the rest do not touch what the first has touched. -/
theorem Merges.get?_eq_of_touches (hrest : Merges ops outcomes doc final)
    (hapart : ∀ op' ∈ ops, op.Apart op') (htouches : op.Touches name) :
    final.profiles.get? name = doc.profiles.get? name :=
  hrest.others name (fun hmem => (hapart _ hmem).profiles name htouches (.inr rfl))
    fun _ hmem => (hapart _ hmem).profiles name htouches (.inl rfl)

/-- One operation, and then a batch of others. -/
theorem Merges.cons {r : op.Result} (hfirst : op.Leaves doc r h' doc') (hop : op.Suits doc)
    (hapart : ∀ op' ∈ ops, op.Apart op') (hrest : Merges ops outcomes doc' final) :
    Merges (op :: ops) (⟨op, .ok r⟩ :: outcomes) doc final where
  upgradeFlags := hrest.upgradeFlags.trans hfirst.frame.upgradeFlags
  bound mode id hmem := by
    rcases List.mem_cons.mp hmem with rfl | hmem
    · have hunbound : ∀ id', .bindMode mode id' ∉ ops := fun id' hmem' => by
        simpa [bound?] using (hapart _ hmem').modes mode
      rw [hrest.unbound mode hunbound, hfirst.frame.modeBindings]
      simp [bound?]
    · exact hrest.bound mode id hmem
  unbound mode hnone := by
    have hfirst_none : op.bound? mode = none :=
      Option.eq_none_iff_forall_ne_some.mpr fun id hid =>
        hnone id (bound?_eq_some_iff.mp hid ▸ List.mem_cons_self)
    rw [hrest.unbound mode fun id hmem => hnone id (List.mem_cons_of_mem op hmem),
      hfirst.frame.modeBindings, hfirst_none, Option.none_or]
  deleted name hmem := by
    rcases List.mem_cons.mp hmem with rfl | hmem
    · -- no later operation saves the profile again
      unfold Document.contains SortedMap.contains
      rw [hrest.get?_eq_of_touches hapart (.inr rfl)]
      exact hfirst.frame.deleted name rfl
    · exact hrest.deleted name hmem
  saved name given hmem := by
    rcases List.mem_cons.mp hmem with rfl | hmem
    · obtain ⟨full, hprofile, hfull⟩ := hfirst.saved name given r rfl
      refine ⟨r, full, List.mem_cons_self, ?_, hfull⟩
      rw [hrest.get?_eq_of_touches hapart (.inl rfl), hprofile]
    · obtain ⟨id, full, houtcome, hrest⟩ := hrest.saved name given hmem
      exact ⟨id, full, List.mem_cons_of_mem _ houtcome, hrest⟩
  others name hdeleted hsaved := by
    rw [hrest.others name (fun hmem => hdeleted (List.mem_cons_of_mem op hmem))
      fun given hmem => hsaved given (List.mem_cons_of_mem op hmem)]
    refine hfirst.frame.others name (fun hname => ?_) (deleted?_ne_of_not_mem hdeleted)
    obtain ⟨given, rfl⟩ := saved?_eq_some_iff.mp hname
    exact hsaved given List.mem_cons_self
  current hcurrent := by
    have hkept : doc'.current = doc.current :=
      hfirst.frame.current hop.not_activates (deleted?_ne_of_not_mem hcurrent)
    rw [hrest.current fun hmem => hcurrent (List.mem_cons_of_mem op (hkept ▸ hmem)), hkept]

/-- The profiles at the end are those that were not deleted and those that were saved. -/
theorem Merges.contains_iff (hmerges : Merges ops outcomes doc final) (name : String) :
    final.contains name = true ↔
      doc.contains name = true ∧ .delete name ∉ ops ∨ ∃ given, .save name given ∈ ops := by
  by_cases hsaved : ∃ given, .save name given ∈ ops
  · obtain ⟨given, hgiven⟩ := hsaved
    obtain ⟨id, full, -, hprofile, -⟩ := hmerges.saved name given hgiven
    exact iff_of_true (SortedMap.contains_iff.mpr ⟨_, hprofile⟩) (.inr ⟨given, hgiven⟩)
  · by_cases hdeleted : .delete name ∈ ops
    · simp [hmerges.deleted name hdeleted, hdeleted, hsaved]
    · have hsame : final.contains name = doc.contains name := by
        unfold Document.contains SortedMap.contains
        rw [hmerges.others name hdeleted fun given hgiven => hsaved ⟨given, hgiven⟩]
      simp [hsame, hdeleted, hsaved]

/-- A batch succeeds, one operation after the other. -/
theorem steps_merge (fair : Fair initial s) (hkeeps : Keeps initial h doc)
    (hops : Independent doc ops) (huntroubled : ∀ x ∈ steps s ops h, x.calls.Untroubled) :
    ∃ final, Keeps initial (h ++ (steps s ops h).flatMap Step.calls) final ∧
      (∀ x ∈ steps s ops h, x.outcome.result.isOk = true) ∧
      Merges ops ((steps s ops h).map Step.outcome) doc final := by
  induction ops generalizing h doc with
  | nil => exact ⟨doc, by simpa [steps] using hkeeps, by simp [steps], .nil doc⟩
  | cons op ops ih =>
    obtain ⟨hfirst_untroubled, hrest_untroubled⟩ := List.forall_mem_cons.mp huntroubled
    -- a profile that the whole batch leaves: because of it no deletion is of the last one
    obtain ⟨other, hother, hleft⟩ := hops.left
    have hop : op.Suits doc := hops.suit op List.mem_cons_self
    obtain ⟨r, houtcome, doc', hfirst⟩ | ⟨e, -, htrouble⟩ :=
      step_of_body (ensures_body_leaves fair hkeeps hop hother
        (deleted?_ne_of_not_mem hleft))
    · obtain ⟨before, hcalls⟩ := hfirst.committed
      have hlast : h ++ (op.step s h).calls = h ++ before ++
          [⟨.set doc'.encode, .ok ()⟩, ⟨.publish (.changed (.of doc')), ()⟩] := by
        rw [hcalls, List.append_assoc]
      have hkeeps' : Keeps initial (h ++ (op.step s h).calls) doc' :=
        History.keeps_of_committed hfirst.sound
          (hkeeps.upToDate.of_upgradeFlags hfirst.frame.upgradeFlags) hlast
      obtain ⟨final, hfinal, hoks, hmerges⟩ :=
        ih hkeeps' (hops.tail hfirst.frame) hrest_untroubled
      refine ⟨final, ?_, List.forall_mem_cons.mpr ⟨?_, hoks⟩, ?_⟩
      · rwa [steps, List.flatMap_cons, ← List.append_assoc]
      · rw [houtcome]
        rfl
      · rw [steps, List.map_cons, houtcome]
        exact .cons hfirst hop (List.pairwise_cons.mp hops.apart).1 hmerges
    · exact absurd hfirst_untroubled htrouble

/-! ## §5 Any order -/

/-- **Independent operations all survive, in any order.** Let a valid document be stored
that needs no repair and no upgrade and has no float. Let there be deletions of profiles
of it, though not of all; savings, under non-empty names, of settings without floats; and
bindings of modes; of which no two are about one profile or one mode. Whatever the order
in which they are done, if no call goes wrong, each returns. The document that is stored
at the end has the profiles that were not deleted and those that were saved: each of these
under the id that was returned and with the settings that were given, and at most a rate
limit besides, and every other as it was. The modes are bound as they were to be, and every
other as it was; the flags are the same; no two profiles have one id; and the current
profile is there, and the same as before unless that was deleted. -/
theorem independent_operations_survive {text : String} (fair : Fair (some text) s)
    (hdecode : Document.decode? text = some doc) (hvalid : doc.validate = .ok ())
    (hnormal : doc.isNormal = true) (hupToDate : doc.UpToDate)
    (hvalues : doc.ValuesAre Setting.NotFloat) (hops : Independent doc ops)
    {order : List Operation} (horder : order.Perm ops)
    (huntroubled : ∀ x ∈ steps s order [], x.calls.Untroubled) :
    let run := steps s order []
    (∀ x ∈ run, x.outcome.result.isOk = true) ∧
    ∃ (stored : String) (final : Document),
      History.stored (some text) (run.flatMap Step.calls) = some stored ∧
      Document.decode? stored = some final ∧
      (∀ name, final.contains name = true ↔
        doc.contains name = true ∧ .delete name ∉ ops ∨ ∃ given, .save name given ∈ ops) ∧
      (∀ name given, .save name given ∈ ops → ∃ id full,
        ⟨.save name given, .ok id⟩ ∈ run.map Step.outcome ∧
          final.profiles.get? name = some ⟨id, full⟩ ∧ given.CompletedBy full) ∧
      (∀ name, .delete name ∉ ops → (∀ given, .save name given ∉ ops) →
        final.profiles.get? name = doc.profiles.get? name) ∧
      (∀ mode id, .bindMode mode id ∈ ops → final.modeBindings.get? mode = some id) ∧
      (∀ mode, (∀ id, .bindMode mode id ∉ ops) →
        final.modeBindings.get? mode = doc.modeBindings.get? mode) ∧
      final.upgradeFlags = doc.upgradeFlags ∧
      final.ids.Nodup ∧
      final.contains final.current = true ∧
      (.delete doc.current ∉ ops → final.current = doc.current) := by
  intro run
  have hkeeps : Keeps (some text) [] doc :=
    ⟨⟨text, rfl, hdecode⟩, ⟨Document.sound_of_isNormal hvalid hnormal, hvalues⟩, hupToDate⟩
  obtain ⟨final, hfinal, hoks, hmerges⟩ :=
    steps_merge fair hkeeps (hops.perm horder) huntroubled
  replace hmerges := hmerges.perm horder
  obtain ⟨stored, hstored, hread⟩ := hfinal.stored
  exact ⟨hoks, stored, final, hstored, hread, hmerges.contains_iff, hmerges.saved,
    hmerges.others, hmerges.bound, hmerges.unbound, hmerges.upgradeFlags, hfinal.sound.ids_nodup,
    hfinal.sound.current, hmerges.current⟩

theorem untroubled_steps_ordinary (ops : List Operation) (h : History) :
    ∀ x ∈ steps (ordinary initial) ops h, x.calls.Untroubled := by
  induction ops generalizing h with
  | nil => simp [steps]
  | cons op ops ih => exact List.forall_mem_cons.mpr ⟨untroubled_step_ordinary op h, ih _⟩

/-- The theorem for a document with two profiles, of which the current one is deleted, in
an order other than that of the batch. -/
theorem independent_operations_survive_ordinary :
    let doc : Document := { Document.new "i" with
      profiles := (Document.new "i").profiles.insert "b" ⟨"j", .empty⟩ };
    let ops : List Operation := [.bindMode "m" "x", .save "c" .empty, .delete doc.current];
    let order : List Operation := [.delete doc.current, .save "c" .empty, .bindMode "m" "x"];
    let run := steps (ordinary (some doc.encode)) order [];
    Document.decode? doc.encode = some doc ∧ doc.validate = .ok () ∧ doc.isNormal = true ∧
      doc.UpToDate ∧ doc.ValuesAre Setting.NotFloat ∧ Independent doc ops ∧ order.Perm ops ∧
      (∀ x ∈ run, x.calls.Untroubled) ∧ (∀ x ∈ run, x.outcome.result.isOk = true) ∧
      ∃ (stored : String) (final : Document),
        History.stored (some doc.encode) (run.flatMap Step.calls) = some stored ∧
        Document.decode? stored = some final ∧
        final.contains doc.current = false ∧ final.contains final.current = true ∧
        final.contains "c" = true ∧ final.modeBindings.get? "m" = some "x" := by
  intro doc ops order run
  have hsound : doc.SoundWith Setting.NotFloat :=
    (Document.soundWith_new (by decide)).insert_profile (by decide) (by decide)
      (.inr (by decide +kernel)) (by simp [SettingMap.ValuesAre])
  have hdecode := Document.decode?_encode_of_notFloat hsound.values
  have hupToDate : doc.UpToDate := (Document.upToDate_new "i").of_upgradeFlags rfl
  have hsuit : ∀ op ∈ ops, op.Suits doc := by
    intro op hop
    obtain rfl | rfl | rfl : op = .bindMode "m" "x" ∨ op = .save "c" .empty ∨
      op = .delete doc.current := by simpa [ops] using hop
    · exact .bindMode "m" "x"
    · exact .save (by decide) (by simp [SettingMap.ValuesAre])
    · exact .delete (by decide +kernel)
  have hne : doc.current ≠ "c" := by decide
  have hapart : ops.Pairwise Apart := by
    simp [ops, apart_iff, Touches, saved?, deleted?, bound?, hne]
  have hops : Independent doc ops := ⟨hsuit, hapart, "b", by decide +kernel, by decide +kernel⟩
  have horder : order.Perm ops := (List.reverse_perm order).symm
  have huntroubled : ∀ x ∈ run, x.calls.Untroubled := untroubled_steps_ordinary order []
  obtain ⟨hoks, stored, final, hstored, hread, hnames, -, -, hbound, -, -, -, hcurrent, -⟩ :=
    independent_operations_survive (fair_ordinary _) hdecode hsound.validate_eq_ok
      hsound.isNormal hupToDate hsound.values hops horder huntroubled
  refine ⟨hdecode, hsound.validate_eq_ok, hsound.isNormal, hupToDate, hsound.values, hops, horder,
    huntroubled, hoks, stored, final, hstored, hread, ?_, hcurrent, ?_, ?_⟩
  · rw [← Bool.not_eq_true, hnames doc.current]
    simp [ops, hne]
  · exact (hnames "c").mpr (.inr ⟨.empty, by simp [ops]⟩)
  · exact hbound "m" "x" (by simp [ops])

end Operation

end SettingProfiles
