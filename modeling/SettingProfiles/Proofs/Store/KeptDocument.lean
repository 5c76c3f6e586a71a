/-
SettingProfiles.Proofs.Store.KeptDocument — the store as a document in memory.

The store reads its document from a text at the beginning of every operation and
writes it to a text at the end. Beside it stands a machine that keeps the document in
memory and never looks at a text: its operations are those of documents, the rate
limit that saving looks up, and the upgrades that importing applies. As long as the
values that are stored are read as they were written, the two cannot be told apart by
their results, by their announcements, or by what they ask of the old settings and the
source of ids. It follows that the store remembers nothing between operations but the
text: opening it again at any point changes nothing.

  §1 The machine   — `Operation.keep`, and runs of it.
  §2 A storage that keeps what it is told — `onText`.
  §3 Agreement     — the store beside the machine, from the parts up.
  §4 Operations    — `agree_body`.
  §5 Runs          — `store_is_document_in_memory`.
-/
import SettingProfiles.Proofs.Store.Keeping
import SettingProfiles.Proofs.Store.UpgradedOnce

namespace SettingProfiles

/-! ## §1 The machine -/

namespace Keeping

open Procedure (ofDocument freshId withRateLimit publish)

/-- The document that is kept. If there is none, a new one is, whatever happens next. -/
def read : Keeping (Option Document) Document := do
  match ← held with
  | some doc => return doc
  | none =>
    let doc ← Document.initial fun inUse => call (freshId inUse)
    update fun _ => some doc
    return doc

/-- Keeps a changed document and announces it. -/
def commit (doc : Document) : Keeping (Option Document) Unit := do
  update fun _ => some doc
  call (publish (.changed (.of doc)))

def save (name : String) (settings : SettingMap) : Keeping (Option Document) String := do
  if name = "" then throw (.invalidName name)
  let doc ← read
  let settings ← call (withRateLimit doc name settings)
  let stored ← call (ofDocument (← call (doc.upsert freshId name settings)))
  commit stored.document
  return stored.id

def activate (doc : Document) (name : String) : Keeping (Option Document) Profile := do
  let p ← call (ofDocument (doc.profile name))
  commit (← call (ofDocument (doc.setCurrent name)))
  return p

def loadById (id : String) : Keeping (Option Document) (String × SettingMap) := do
  let doc ← read
  match doc.profileById? id with
  | none => throw (.notFound id)
  | some (name, _) => return (name, (← activate doc name).settings)

def remove (name : String) : Keeping (Option Document) Profile := do
  let (removed, rest) ← call (ofDocument ((← read).remove name))
  commit rest
  return removed

def importDocument (doc : Document) : Keeping (Option Document) Snapshot := do
  call (ofDocument doc.validate)
  let upgraded ← call doc.upgradeDetached
  commit upgraded.document
  return .of upgraded.document

end Keeping

namespace Operation

open Keeping (read commit call)
open Procedure (ofDocument)

/-- What the operation does to a document in memory. -/
def keep : (op : Operation) → Keeping (Option Document) op.Result
  | .prepare | .snapshot => return .of (← read)
  | .list => return (← read).summaries
  | .save name settings => Keeping.save name settings
  | .load name => return (← Keeping.activate (← read) name).settings
  | .loadById id => Keeping.loadById id
  | .profile name => do call (ofDocument ((← read).profile name))
  | .delete name => Keeping.remove name
  | .setCurrent name => do commit (← call (ofDocument ((← read).setCurrent name)))
  | .current => return (← read).current
  | .contains name => return (← read).contains name
  | .bindMode mode id => do commit ((← read).bindMode mode id)
  | .modeBinding mode => return (← read).modeBindings.get? mode
  | .exportDocument => read
  | .importDocument doc => Keeping.importDocument doc
  | .reset => do
    Keeping.update fun _ => none
    call (Procedure.publish .reset)

/-- What the operation comes to on the machine. -/
def keepOutcome (op : Operation) :
    StateT (Option Document) (Program Effect Effect.Answer) Outcome := do
  match ← op.keep.run with
  | .ok r => return ⟨op, .ok r⟩
  | .error e => return ⟨op, .error ⟨op, e⟩⟩

/-- The operations one after the other on the machine. -/
def keepInTurn (ops : List Operation) :
    StateT (Option Document) (Program Effect Effect.Answer) (List Outcome) :=
  ops.mapM keepOutcome

end Operation

/-! ## §2 A storage that keeps what it is told -/

namespace History

/-- The exchanges with anything but the storage. -/
def outside (h : History) : History := h.filter fun x => x.question.isOutside

@[simp] theorem outside_append (h k : History) : outside (h ++ k) = outside h ++ outside k := by
  simp [outside]

/-- One more call. -/
theorem outside_snoc {h : History} {x : Exchange Effect Effect.Answer}
    (hx : x.question.isOutside = true) : outside (h ++ [x]) = outside h ++ [x] := by
  simp [outside, hx]

/-- One more call to the storage. -/
theorem outside_snoc_storage {h : History} {x : Exchange Effect Effect.Answer}
    (hx : x.question.isStorage = true) : outside (h ++ [x]) = outside h := by
  simp [outside, Effect.isOutside, hx]

theorem stored_snoc_set (text : Option String) (h : History) (new : String) :
    stored text (h ++ [⟨.set new, .ok ()⟩]) = some new := by
  rw [stored_append]
  rfl

end History

/-- A storage that holds the text at the beginning, never fails and keeps what it is
told. Everything else is up to `src`, which knows nothing of the storage. -/
def onText (text : Option String) (src : Surroundings Effect Effect.Answer) :
    Surroundings Effect Effect.Answer :=
  fun (h : History) q =>
    match q with
    | .get => .ok (h.stored text)
    | .set _ => .ok ()
    | .delete => .ok ()
    | .legacy key => src h.outside (.legacy key)
    | .freshId inUse => src h.outside (.freshId inUse)
    | .publish event => src h.outside (.publish event)

namespace Operation

/-- Runs of the store that is opened anew for each of the sessions. Each finds the text
that the one before left, and source and old settings go on where they were. -/
def reopened (text : Option String) (src : Surroundings Effect Effect.Answer) :
    List (List Operation) → (List Outcome × Option String) × History
  | [] => (([], text), [])
  | ops :: sessions =>
    let first := (inTurn ops).converse (onText text src) []
    let h : History := first.2
    let later := reopened (h.stored text) (src.after h.outside) sessions
    ((first.1 ++ later.1.1, later.1.2), h.outside ++ later.2)

end Operation

variable {text : Option String} {src : Surroundings Effect Effect.Answer} {α β : Type}
  {h : History} {kept : Option Document} {doc : Document}

theorem onText_of_isOutside {q : Effect} (hq : q.isOutside = true) :
    onText text src h q = src h.outside q := by
  cases q <;> first | rfl | cases hq

theorem fair_onText (text : Option String) (draws : DrawsFresh src) :
    Fair text (onText text src) where
  get_eq h answer hget := by
    cases hget
    rfl
  freshId_eq h inUse := by
    refine ⟨[src h.outside (.freshId inUse)], [], ?_, ?_⟩
    · simpa using (draws.ne h.outside inUse).symm
    · show Document.freshId? inUse [src h.outside (.freshId inUse)] = _
      simp [Document.freshId?, draws.not_mem, onText]

theorem DrawsFresh.after (draws : DrawsFresh src) (h : History) : DrawsFresh (src.after h) where
  ne later inUse := draws.ne (h ++ later) inUse
  not_mem later inUse := draws.not_mem (h ++ later) inUse

/-! ## §3 Agreement -/

/-- What the store and the machine came to is the same: the result, what was asked of
others than the storage, and the document, which the store holds as a text. -/
structure Agree (text : Option String) (stored : β × History)
    (machine : (β × Option Document) × History) : Prop where
  result : stored.1 = machine.1.1
  outside : stored.2.outside = machine.2
  text : stored.2.stored text = machine.1.2.map Document.encode

namespace Keeping

/-- The procedure and the machine come to the same, from this point on. -/
def AgreesAt (text : Option String) (src : Surroundings Effect Effect.Answer) (h : History)
    (kept : Option Document) (k : Keeping (Option Document) α) (p : Procedure α) : Prop :=
  Agree text (p.run.converse (onText text src) h) ((k.run.run kept).converse src h.outside)

/-- The procedure and the machine come to the same, whatever document is kept. -/
def Agrees (text : Option String) (src : Surroundings Effect Effect.Answer)
    (k : Keeping (Option Document) α) (p : Procedure α) : Prop :=
  ∀ (h : History) (kept : Option Document), h.stored text = kept.map Document.encode →
    AgreesAt text src h kept k p

theorem Agrees.pure (a : α) : Agrees text src (pure a) (pure a) :=
  fun _ _ hstored => ⟨rfl, rfl, hstored⟩

theorem Agrees.throw (e : StoreError) :
    Agrees text src (throw e : Keeping (Option Document) α) (throw e) :=
  fun _ _ hstored => ⟨rfl, rfl, hstored⟩

theorem AgreesAt.bind {k : Keeping (Option Document) α} {p : Procedure α}
    {f : α → Keeping (Option Document) β} {g : α → Procedure β}
    (hk : AgreesAt text src h kept k p) (hf : ∀ a, Agrees text src (f a) (g a)) :
    AgreesAt text src h kept (k >>= f) (p >>= g) := by
  unfold AgreesAt at *
  rw [ExceptT.run_bind, ExceptT.run_bind, StateT.run_bind, Program.converse_bind,
    Program.converse_bind]
  generalize p.run.converse (onText text src) h = stored at hk ⊢
  generalize (k.run.run kept).converse src h.outside = machine at hk ⊢
  obtain ⟨r, h'⟩ := stored
  obtain ⟨⟨r', kept'⟩, later⟩ := machine
  obtain ⟨rfl, rfl, hstored⟩ := hk
  cases r with
  | ok a => exact hf a h' kept' hstored
  | error e => exact ⟨rfl, rfl, hstored⟩

theorem Agrees.bind {k : Keeping (Option Document) α} {p : Procedure α}
    {f : α → Keeping (Option Document) β} {g : α → Procedure β} (hk : Agrees text src k p)
    (hf : ∀ a, Agrees text src (f a) (g a)) : Agrees text src (k >>= f) (p >>= g) :=
  fun h kept hstored => (hk h kept hstored).bind hf

/-- What does not call the storage is the same for both. -/
theorem Agrees.call {p : Procedure α} (hp : p.FailStop Effect.isOutside) :
    Agrees text src (call p) p := by
  intro h kept hstored
  unfold Procedure.FailStop at hp
  show Agree text (p.run.converse (onText text src) h)
    ((p.run >>= fun r => Program.done (r, kept)).converse src h.outside)
  generalize p.run = tree at hp ⊢
  induction hp generalizing h with
  | done r => exact ⟨rfl, rfl, hstored⟩
  | @ask q next hq _ _ ih =>
    have hsame : onText text src h q = src h.outside q := onText_of_isOutside hq
    have houtside : History.outside (h ++ [⟨q, src h.outside q⟩])
        = h.outside ++ [⟨q, src h.outside q⟩] := by
      simp [History.outside, hq]
    have hstored' : History.stored text (h ++ [⟨q, src h.outside q⟩])
        = kept.map Document.encode := by
      rw [History.stored_append, hstored]
      cases q <;> first | rfl | cases hq
    rw [Program.ask_bind, Program.converse_ask, Program.converse_ask, hsame,
      ← History.outside_snoc (x := ⟨q, src h.outside q⟩) hq]
    exact ih _ _ hstored'

theorem Agrees.ofDocument (r : Except DocumentError α) :
    Agrees text src (Keeping.call (Procedure.ofDocument r)) (Procedure.ofDocument r) :=
  .call (Procedure.failStop_ofDocument r)

/-- A document that is stored is a document that is kept. -/
theorem Agrees.persist (doc : Document) :
    Agrees text src (update fun _ => some doc) (Procedure.persist doc) := by
  intro h kept _
  exact ⟨rfl, History.outside_snoc_storage rfl, History.stored_snoc_set text h doc.encode⟩

theorem Agrees.delete : Agrees text src (update fun _ => none) Procedure.delete := by
  intro h kept _
  refine ⟨rfl, History.outside_snoc_storage rfl, ?_⟩
  show History.stored text (h ++ [⟨.delete, .ok ()⟩]) = none
  rw [History.stored_append]
  rfl

theorem Agrees.commit (doc : Document) :
    Agrees text src (commit doc) (Procedure.commit doc) :=
  .bind (.persist doc) fun _ => .call (Procedure.failStop_publish _)

/-- What was stored lacks nothing and is read as it was written. -/
def Legible (kept : Option Document) : Prop :=
  ∀ doc ∈ kept, doc.Sound ∧ doc.UpToDate ∧ doc.reread? = some doc

/-- Reading a text that was stored gives the document that is kept. -/
theorem agreesAt_read (draws : DrawsFresh src) (hstored : h.stored text = kept.map Document.encode)
    (hkept : Legible kept) : AgreesAt text src h kept read Procedure.read := by
  -- what the storage does is followed call by call, what the machine does is computed
  have hagree : Procedure.read.Ensures (onText text src) h
      (fun doc h' => Agree text (Except.ok doc, h')
        ((read.run.run kept).converse src h.outside)) fun _ _ => False := by
    cases kept with
    | some doc =>
      obtain ⟨hsound, hupToDate, hreread⟩ := hkept doc rfl
      have hget : onText text src h .get = .ok (some doc.encode) := congrArg Except.ok hstored
      rw [Procedure.ensures_read_present hget ((Document.decode?_encode doc).trans hreread) hsound
        hupToDate]
      refine ⟨rfl, History.outside_snoc_storage rfl, ?_⟩
      rw [History.stored_append]
      exact hstored
    | none =>
      have hget : onText text src h .get = .ok none := congrArg Except.ok hstored
      rw [Procedure.ensures_read_absent (fair_onText text draws).drawsFresh hget,
        Procedure.ensures_bind, Procedure.ensures_freshId, Procedure.ensures_bind,
        Procedure.ensures_persist]
      have hid : onText text src (h ++ [⟨.get, .ok none⟩]) (.freshId [])
          = src h.outside (.freshId []) := by
        rw [onText_of_isOutside rfl, History.outside_snoc_storage rfl]
      rw [hid]
      refine ⟨rfl, ?_, History.stored_snoc_set text _ _⟩
      show History.outside (_ ++ [_] ++ [_] ++ [_]) = h.outside ++ [_]
      rw [History.outside_snoc_storage rfl, History.outside_snoc rfl,
        History.outside_snoc_storage rfl]
  unfold Procedure.Ensures Program.Ensures at hagree
  unfold AgreesAt
  generalize Procedure.read.run.converse (onText text src) h = r at hagree ⊢
  obtain ⟨r, h'⟩ := r
  cases r with
  | ok doc => exact hagree
  | error e => exact hagree.elim

/-! ## §4 Operations -/

theorem AgreesAt.save (hstored : h.stored text = kept.map Document.encode)
    (hread : AgreesAt text src h kept read Procedure.read) (name : String) (settings : SettingMap) :
    AgreesAt text src h kept (save name settings) (Procedure.save name settings) := by
  unfold Keeping.save Procedure.save
  by_cases hname : name = ""
  · rw [if_pos hname, if_pos hname]
    exact Agrees.throw _ h kept hstored
  · rw [if_neg hname, if_neg hname]
    exact hread.bind fun doc =>
      .bind (.call (Procedure.failStop_withRateLimit doc name settings).outside) fun full =>
      .bind (.call (Procedure.failStop_upsert doc name full).outside) fun r =>
      .bind (.ofDocument r) fun _ => .bind (.commit _) fun _ => .pure _

theorem Agrees.activate (doc : Document) (name : String) :
    Agrees text src (activate doc name) (Procedure.activate doc name) :=
  .bind (.ofDocument _) fun p => .bind (.ofDocument _) fun changed =>
    .bind (.commit changed) fun _ => .pure p

end Keeping

namespace Operation

open Keeping

theorem agree_body (draws : DrawsFresh src) (hstored : h.stored text = kept.map Document.encode)
    (hkept : Legible kept) (op : Operation) : AgreesAt text src h kept op.keep op.body := by
  have hread := agreesAt_read draws hstored hkept
  cases op with
  | save name settings => exact hread.save hstored name settings
  | load name => exact hread.bind fun doc => .bind (.activate doc name) fun _ => .pure _
  | loadById id =>
    refine hread.bind fun doc => ?_
    cases doc.profileById? id with
    | none => exact .throw _
    | some found => exact .bind (.activate doc found.1) fun _ => .pure _
  | profile name => exact hread.bind fun doc => .ofDocument _
  | delete name =>
    exact hread.bind fun doc => .bind (.ofDocument _) fun r => .bind (.commit r.2) fun _ => .pure _
  | setCurrent name => exact hread.bind fun doc => .bind (.ofDocument _) fun d => .commit d
  | bindMode mode id => exact hread.bind fun doc => .commit _
  | exportDocument => exact hread
  | importDocument doc =>
    exact Agrees.bind (.ofDocument _) (fun _ =>
      .bind (.call (Procedure.failStop_upgradeDetached doc).outside) fun r =>
      .bind (.commit r.document) fun _ => .pure _) h kept hstored
  | reset =>
    exact Agrees.bind .delete (fun _ => .call (Procedure.failStop_publish _)) h kept hstored
  | prepare | list | current | contains | modeBinding | snapshot =>
    exact hread.bind fun _ => .pure _

theorem agree_outcome (draws : DrawsFresh src) (hstored : h.stored text = kept.map Document.encode)
    (hkept : Legible kept) (op : Operation) :
    Agree text (op.outcome.converse (onText text src) h)
      ((op.keepOutcome.run kept).converse src h.outside) := by
  have hbody := agree_body draws hstored hkept op
  unfold AgreesAt at hbody
  unfold outcome program keepOutcome
  rw [Program.converse_bind, Program.converse_bind, StateT.run_bind, Program.converse_bind]
  generalize op.body.run.converse (onText text src) h = stored at hbody ⊢
  generalize (op.keep.run.run kept).converse src h.outside = machine at hbody ⊢
  obtain ⟨r, h'⟩ := stored
  obtain ⟨⟨r', kept'⟩, later⟩ := machine
  obtain ⟨rfl, rfl, hstored'⟩ := hbody
  cases r <;> exact ⟨rfl, rfl, hstored'⟩

/-! ## §5 Runs -/

/-- The values of the documents that the machine keeps are read as they were written,
after every operation of the run. A value that is no float always is. -/
def KeepsLegible (src : Surroundings Effect Effect.Answer) (kept : Option Document) (g : History)
    (ops : List Operation) : Prop :=
  ∀ ops' : List Operation, ops' <+: ops →
    ∀ doc ∈ (((keepInTurn ops').run kept).converse src g).1.2,
      doc.ValuesAre fun v => v.reread? = some v

theorem legible_of_upToDateText (hupToDate : UpToDateText (kept.map Document.encode))
    (hvalues : ∀ doc ∈ kept, doc.ValuesAre fun v => v.reread? = some v) : Legible kept := by
  rintro doc ⟨⟩
  have hreread : doc.reread? = some doc := Document.reread?_eq_self_iff.mpr (hvalues doc rfl)
  obtain ⟨hsound, hflags⟩ := hupToDate.decoded ((Document.decode?_encode doc).trans hreread)
  exact ⟨hsound, hflags, hreread⟩

theorem converse_keepInTurn_append (ops ops' : List Operation)
    (src : Surroundings Effect Effect.Answer) (kept : Option Document) (g : History) :
    ((keepInTurn (ops ++ ops')).run kept).converse src g =
      let first := ((keepInTurn ops).run kept).converse src g
      let later := ((keepInTurn ops').run first.1.2).converse src first.2
      ((first.1.1 ++ later.1.1, later.1.2), later.2) := by
  unfold keepInTurn
  rw [List.mapM_append, StateT.run_bind, Program.converse_bind]
  simp only [StateT.run_bind, Program.converse_bind]
  rfl

theorem converse_keepInTurn_singleton (op : Operation) (src : Surroundings Effect Effect.Answer)
    (kept : Option Document) (g : History) :
    ((keepInTurn [op]).run kept).converse src g =
      let first := (op.keepOutcome.run kept).converse src g
      (([first.1.1], first.1.2), first.2) := by
  unfold keepInTurn
  rw [List.mapM_cons, StateT.run_bind, Program.converse_bind]
  rfl

/-- What holds for a run holds for what is left of it after its first part. -/
theorem KeepsLegible.drop {g : History} (ops : List Operation) {ops' : List Operation}
    (hlegible : KeepsLegible src kept g (ops ++ ops')) :
    let first := ((keepInTurn ops).run kept).converse src g
    KeepsLegible src first.1.2 first.2 ops' := by
  intro first later hlater doc hdoc
  refine hlegible (ops ++ later) ((List.prefix_append_right_inj ops).mpr hlater) doc ?_
  rwa [converse_keepInTurn_append]

/-- The source from some point on is a source, too. -/
theorem KeepsLegible.after {g : History} {ops : List Operation}
    (hlegible : KeepsLegible src kept g ops) : KeepsLegible (src.after g) kept [] ops := by
  intro ops' hops' doc hdoc
  refine hlegible ops' hops' doc ?_
  rwa [Program.converse_eq_after]

theorem agree_inTurn (draws : DrawsFresh src) {ops : List Operation}
    (hstored : h.stored text = kept.map Document.encode)
    (hupToDate : UpToDateText (h.stored text)) (hlegible : KeepsLegible src kept h.outside ops) :
    Agree text ((inTurn ops).converse (onText text src) h)
      (((keepInTurn ops).run kept).converse src h.outside) := by
  induction ops generalizing h kept with
  | nil => exact ⟨rfl, rfl, hstored⟩
  | cons op ops ih =>
    have hkept : Legible kept :=
      legible_of_upToDateText (hstored ▸ hupToDate) (hlegible [] List.nil_prefix)
    have hfirst := agree_outcome draws hstored hkept op
    have hupToDate' := ensures_outcome_upToDateText (fair_onText text draws) h op
    have hlegible' := hlegible.drop [op]
    rw [converse_keepInTurn_singleton] at hlegible'
    rw [converse_inTurn_cons, ← List.singleton_append, converse_keepInTurn_append,
      converse_keepInTurn_singleton]
    unfold Program.Ensures at hupToDate'
    generalize op.outcome.converse (onText text src) h = stored at hfirst hupToDate' ⊢
    generalize (op.keepOutcome.run kept).converse src h.outside = machine at hfirst hlegible' ⊢
    obtain ⟨o, h'⟩ := stored
    obtain ⟨⟨o', kept'⟩, later⟩ := machine
    obtain ⟨rfl, rfl, hstored'⟩ := hfirst
    obtain ⟨hresult, houtside, htext⟩ := ih hstored' (hupToDate' (.inr hupToDate)) hlegible'
    exact ⟨congrArg (o :: ·) hresult, houtside, htext⟩

/-- Opening the store anew between the sessions changes nothing. -/
theorem reopened_eq (kept : Option Document) (draws : DrawsFresh src)
    {sessions : List (List Operation)}
    (hupToDate : UpToDateText (kept.map Document.encode))
    (hlegible : KeepsLegible src kept [] sessions.flatten) :
    let machine := ((keepInTurn sessions.flatten).run kept).converse src []
    reopened (kept.map Document.encode) src sessions =
      ((machine.1.1, machine.1.2.map Document.encode), machine.2) := by
  induction sessions generalizing kept src with
  | nil => rfl
  | cons ops sessions ih =>
    have hfirst : Agree (kept.map Document.encode)
        ((inTurn ops).converse (onText (kept.map Document.encode) src) [])
        (((keepInTurn ops).run kept).converse src []) :=
      agree_inTurn (h := []) draws rfl hupToDate fun ops' hops' =>
        hlegible ops' (hops'.trans (List.prefix_append ops sessions.flatten))
    have hupToDate' := ensures_inTurn_upToDateText (h := [])
      (fair_onText (kept.map Document.encode) draws) ops hupToDate
    have hlegible' := (hlegible.drop ops).after
    show reopened _ src (ops :: sessions) = _
    rw [List.flatten_cons, converse_keepInTurn_append]
    dsimp only
    rw [Program.converse_eq_after src ((keepInTurn sessions.flatten).run _), reopened]
    -- the text that the session leaves is that of the document that the machine keeps
    unfold Program.Ensures at hupToDate'
    generalize (inTurn ops).converse (onText (kept.map Document.encode) src) [] = stored
      at hfirst hupToDate' ⊢
    generalize ((keepInTurn ops).run kept).converse src [] = machine at hfirst hlegible' ⊢
    obtain ⟨outcomes, h⟩ := stored
    obtain ⟨⟨outcomes', kept'⟩, g⟩ := machine
    obtain ⟨rfl, rfl, hstored⟩ := hfirst
    dsimp only at hstored hlegible' hupToDate' ⊢
    rw [hstored] at hupToDate' ⊢
    rw [ih kept' (draws.after _) hupToDate' hlegible']

/-- **The store is a document in memory.** Let the storage hold nothing at the beginning
and not fail, and take any operations. As long as the values of the documents that are
stored are read as they were written, as all values are but some floats, the store does
what a machine does that keeps its document in memory and never writes it down: every
operation comes to the same, result or failure; the same old settings are looked up, the
same ids are drawn, and the same events are announced, in the same order; and at the end
the stored text is that of the document that the machine keeps.

The same holds if the store is opened anew any number of times on the way. -/
theorem store_is_document_in_memory (draws : DrawsFresh src) {ops : List Operation}
    (hlegible : KeepsLegible src none [] ops) :
    let machine := ((keepInTurn ops).run none).converse src []
    let outcomes := ((inTurn ops).converse (onText none src) []).1
    let h : History := ((inTurn ops).converse (onText none src) []).2
    (outcomes = machine.1.1 ∧ h.outside = machine.2 ∧
      h.stored none = machine.1.2.map Document.encode) ∧
    ∀ sessions : List (List Operation), sessions.flatten = ops →
      reopened none src sessions = ((outcomes, h.stored none), h.outside) := by
  intro machine outcomes h
  have hagree : Agree none (outcomes, h) machine :=
    agree_inTurn (h := []) draws rfl upToDateText_none hlegible
  refine ⟨⟨hagree.result, hagree.outside, hagree.text⟩, ?_⟩
  rintro sessions rfl
  have hreopened : reopened none src sessions
      = ((machine.1.1, machine.1.2.map Document.encode), machine.2) :=
    reopened_eq none draws upToDateText_none hlegible
  rw [hreopened, ← hagree.result, ← hagree.outside, ← hagree.text]

/-- The theorem for a profile with a float that is saved, in a store that is opened anew
before the document is deleted. -/
theorem store_is_document_in_memory_ordinary :
    let settings : SettingMap := SortedMap.empty.insert "temperature" (.float (.ofNat 1));
    let ops : List Operation := [.save "a" settings, .contains "a", .reset, .contains "a"]
    DrawsFresh (ordinary none) ∧ KeepsLegible (ordinary none) none [] ops ∧
      reopened none (ordinary none)
          [[.save "a" settings], [.contains "a", .reset], [.contains "a"]] =
        (((((keepInTurn ops).run none).converse (ordinary none) []).1.1,
          (((keepInTurn ops).run none).converse (ordinary none) []).1.2.map Document.encode),
          (((keepInTurn ops).run none).converse (ordinary none) []).2) := by
  intro settings ops
  have draws : DrawsFresh (ordinary none) := (fair_ordinary none).drawsFresh
  have hlegible : KeepsLegible (ordinary none) none [] ops := by
    have hrereads : ∀ n < 5,
        ((((keepInTurn (ops.take n)).run none).converse (ordinary none) []).1.2).all
          (fun doc => doc.reread? == some doc) = true := by decide +kernel
    intro ops' hops' doc hdoc
    have hall := hrereads ops'.length (Nat.lt_succ_of_le hops'.length_le)
    rw [← List.prefix_iff_eq_take.mp hops', hdoc] at hall
    exact Document.reread?_eq_self_iff.mp (by simpa using hall)
  obtain ⟨⟨hresult, houtside, hstored⟩, hreopened⟩ := store_is_document_in_memory draws hlegible
  refine ⟨draws, hlegible, ?_⟩
  rw [hreopened [[.save "a" settings], [.contains "a", .reset], [.contains "a"]] rfl, hresult,
    houtside, hstored]

end Operation

end SettingProfiles
