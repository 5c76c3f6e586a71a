/-
SettingProfiles.Proofs.Store.Saving — what saving a profile stores.

The settings are stored as they are given, under the id that the profile has or under a
new one, and nothing else in the document changes. The one setting that saving may add is
the rate limit. Where it comes from is an order of four sources, and only the last two of
them look at the old settings.

  §1 First      — the first profile that has a setting.
  §2 The limit  — `LimitFrom`: the four sources, and the looks that each takes.
  §3 `Saves`    — what becomes of the document.
  §4 Saving     — `save_stores_settings`.
-/
import SettingProfiles.Proofs.Store.Inheriting
import SettingProfiles.Proofs.Store.Unreadable

namespace SettingProfiles

open SettingName

variable {initial : Option String} {h h' : History} {doc doc' : Document} {name : String}
  {s : Surroundings Effect Effect.Answer}

/-! ## §1 First -/

namespace Document

/-- The first of the profiles that have a value for the setting is the one of this name,
and has this value. -/
def IsFirstWith (doc : Document) (key name : String) (value : Setting) : Prop :=
  doc.setting? name key = some value ∧ ∀ other < name, doc.setting? other key = none

/-- A value that is found is that of the preferred profile, or else the first. -/
theorem existingValue?_eq_or (doc : Document) (key name : String) :
    doc.existingValue? key (some name)
      = (doc.setting? name key).or
          (doc.profiles.values.findSome? fun p : Profile => p.settings.get? key) := by
  unfold existingValue? setting?
  simp only [Option.bind_eq_bind, Option.bind_some]
  cases (doc.profiles.get? name).bind fun p => p.settings.get? key <;> rfl

theorem existingValue?_eq_some {key : String} {value : Setting}
    (hvalue : doc.existingValue? key (some name) = some value) :
    doc.setting? name key = some value ∨
      doc.setting? name key = none ∧ ∃ first, doc.IsFirstWith key first value := by
  rw [existingValue?_eq_or, Option.or_eq_some_iff] at hvalue
  exact hvalue.imp_right fun hfirst => ⟨hfirst.1, SortedMap.exists_least_of_findSome? hfirst.2⟩

theorem existingValue?_eq_none {key : String}
    (hvalue : doc.existingValue? key (some name) = none) (other : String) :
    doc.setting? other key = none := by
  rw [existingValue?_eq_or, Option.or_eq_none_iff] at hvalue
  refine Option.bind_eq_none_iff.mpr fun p hp => ?_
  exact List.findSome?_eq_none_iff.mp hvalue.2 p (SortedMap.mem_values.mpr ⟨other, hp⟩)

/-! ## §2 The limit -/

/-- Where a profile that is saved without a rate limit gets it from, and the looks at old
settings that are taken for it. -/
inductive LimitFrom (doc : Document) (name : String) :
    List (String × Option Setting) → Setting → Prop
  /-- The limit that the profile has. -/
  | own {limit : Setting} (hown : doc.setting? name rateLimitSeconds = some limit) :
      LimitFrom doc name [] limit
  /-- That of the first profile that has one. -/
  | first {limit : Setting} {other : String} (hown : doc.setting? name rateLimitSeconds = none)
      (hfirst : doc.IsFirstWith rateLimitSeconds other limit) : LimitFrom doc name [] limit
  /-- The usable form of the old one: the seconds that it comes to by the rules. -/
  | old {value : Setting} {seconds : Int64}
      (hnone : ∀ other, doc.setting? other rateLimitSeconds = none)
      (husable : LegacyValues.usableRateLimit? value = some (.integer seconds))
      (hrule : LegacyValues.SecondsFrom (some value) seconds) :
      LimitFrom doc name [(rateLimitSeconds, some value)] (.integer seconds)
  /-- The default, where there is no old one or none that is usable; by the rules it comes
  to five seconds then. -/
  | default {found : Option Setting} (hnone : ∀ other, doc.setting? other rateLimitSeconds = none)
      (hunusable : found.bind LegacyValues.usableRateLimit? = none)
      (hrule : LegacyValues.SecondsFrom found 5) :
      LimitFrom doc name [(rateLimitSeconds, found)] (.integer 5)

/-- What is taken over of the old limit is its usable form or the default. -/
theorem limitFrom_takenOver (hnone : ∀ other, doc.setting? other rateLimitSeconds = none)
    (found : Option Setting) :
    doc.LimitFrom name [(rateLimitSeconds, found)]
      (LegacyValues.takenOver rateLimitSeconds found) := by
  obtain ⟨seconds, htaken, hrule⟩ := (LegacyValues.takenFrom_rateLimit found).rateLimit_inv
  rw [htaken]
  rw [LegacyValues.takenOver, if_pos rfl] at htaken
  cases husable : found.bind LegacyValues.usableRateLimit? with
  | none =>
    rw [husable] at htaken
    cases htaken
    exact .default hnone husable hrule
  | some limit =>
    rw [husable, Option.getD_some] at htaken
    obtain ⟨value, rfl, hvalue⟩ := Option.bind_eq_some_iff.mp husable
    exact .old hnone (hvalue.trans (congrArg some htaken)) hrule

/-- The settings that are stored for a profile are those given, and if there is no rate
limit among them, one is added. -/
def Completes (doc : Document) (name : String) (given : SettingMap)
    (looks : List (String × Option Setting)) (full : SettingMap) : Prop :=
  if given.contains rateLimitSeconds then full = given ∧ looks = []
  else ∃ limit, doc.LimitFrom name looks limit ∧ full = given.insert rateLimitSeconds limit

/-! ## §3 `Saves` -/

/-- The second document is the first, with the settings stored under the name and the
id. -/
structure Saves (doc : Document) (name id : String) (full : SettingMap) (doc' : Document) :
    Prop where
  /-- A profile keeps its id. -/
  kept : ∀ p, doc.profiles.get? name = some p → id = p.id
  /-- A new profile gets an id that no profile has. -/
  fresh : doc.contains name = false → id ≠ "" ∧ id ∉ doc.ids
  profile : doc'.profiles.get? name = some ⟨id, full⟩
  others : ∀ other, other ≠ name → doc'.profiles.get? other = doc.profiles.get? other
  modeBindings : doc'.modeBindings = doc.modeBindings
  upgradeFlags : doc'.upgradeFlags = doc.upgradeFlags
  current : doc'.current = doc.current

theorem saves_insert {id : String} {full : SettingMap}
    (hkept : ∀ p, doc.profiles.get? name = some p → id = p.id)
    (hfresh : doc.contains name = false → id ≠ "" ∧ id ∉ doc.ids) :
    doc.Saves name id full { doc with profiles := doc.profiles.insert name ⟨id, full⟩ } where
  kept := hkept
  fresh := hfresh
  profile := SortedMap.get?_insert_self _ _ _
  others other hne := by rw [SortedMap.get?_insert, if_neg (Ne.symm hne)]
  modeBindings := rfl
  upgradeFlags := rfl
  current := rfl

end Document

/-! ## §4 Saving -/

/-- The history goes on with ids that are drawn and looks at old settings, and these are
the looks. -/
def History.Consults (h h' : History) (looks : List (String × Option Setting)) : Prop :=
  ∃ sources : History, h' = h ++ sources ∧ (∀ x ∈ sources, x.question.isSource = true) ∧
    sources.consulted = looks

open History (Consults)

namespace History.Consults

variable {h'' : History} {looks looks' : List (String × Option Setting)}

theorem refl (h : History) : Consults h h [] := ⟨[], by simp, by simp, rfl⟩

theorem trans (hh : Consults h h' looks) (hh' : Consults h' h'' looks') :
    Consults h h'' (looks ++ looks') := by
  obtain ⟨sources, rfl, hsources, rfl⟩ := hh
  obtain ⟨sources', rfl, hsources', rfl⟩ := hh'
  refine ⟨sources ++ sources', List.append_assoc _ _ _, ?_, consulted_append _ _⟩
  exact List.forall_mem_append.mpr ⟨hsources, hsources'⟩

theorem consulted_eq (hh : Consults h h' looks) : h'.consulted = h.consulted ++ looks := by
  obtain ⟨sources, rfl, -, rfl⟩ := hh
  exact consulted_append _ _

end History.Consults

namespace Procedure

variable {α : Type}

theorem FailStop.consults {p : Procedure α} (hp : p.FailStop Effect.isSource)
    (s : Surroundings Effect Effect.Answer) (h : History) :
    p.Ensures s h (fun _ h' => ∃ looks, Consults h h' looks)
      fun _ h' => ∃ looks, Consults h h' looks := by
  obtain ⟨sources, hmore, hsources⟩ := Program.FailStop.extends_of_kind (s := s) hp h
  have hlooks : ∃ looks, Consults h (p.run.converse s h).2 looks :=
    ⟨_, sources, hmore, hsources, rfl⟩
  unfold Ensures Program.Ensures
  cases (p.run.converse s h).1 <;> exact hlooks

/-- A procedure that can only fail because a call goes wrong. -/
theorem Delivers.ensures_ok {p : Procedure α} {P : α → Prop} {ok : α → History → Prop}
    {err : StoreError → History → Prop} (hp : p.Delivers P) (hok : p.Ensures s h ok err) :
    p.Ensures s h ok fun _ h' => ¬ h'.Untroubled :=
  (hok.and hp.ensures).mono (fun _ _ ha => ha.1) fun _ _ he => he.2

/-- Looking up one old setting. -/
theorem ensures_readLegacy_singleton (key : String) :
    (readLegacy [key]).Ensures s h
      (fun legacy h' => Consults h h' [(key, legacy.get? key)])
      fun _ h' => ¬ h'.Untroubled := by
  refine (delivers_readLegacy [key]).ensures_ok (Ensures.mono
    (((failStop_readLegacy [key]).consults s h).and
      (ensures_readLegacy_consulted (List.nodup_singleton key))) ?_ fun _ _ _ => trivial)
  rintro legacy h' ⟨⟨looks, hlooks⟩, hconsulted⟩
  obtain rfl : looks = [(key, legacy.get? key)] :=
    List.append_cancel_left (hlooks.consulted_eq.symm.trans hconsulted)
  exact hlooks

/-- Old limits are looked up only where no profile has a limit. -/
theorem ensures_withRateLimit_completes (doc : Document) (name : String) (given : SettingMap) :
    (withRateLimit doc name given).Ensures s h
      (fun full h' => ∃ looks, Consults h h' looks ∧ doc.Completes name given looks full)
      fun _ h' => ¬ h'.Untroubled := by
  unfold withRateLimit Document.Completes
  split
  · exact ⟨[], .refl h, rfl, rfl⟩
  · rw [ensures_bind]
    unfold inheritedRateLimit
    cases hvalue : doc.existingValue? rateLimitSeconds (some name) with
    | some limit =>
      refine ⟨[], .refl h, limit, ?_, rfl⟩
      obtain hown | ⟨hown, first, hfirst⟩ := Document.existingValue?_eq_some hvalue
      · exact .own hown
      · exact .first hown hfirst
    | none =>
      show (readLegacy [rateLimitSeconds] >>= fun legacy => pure legacy.rateLimit).Ensures s h _ _
      rw [ensures_bind]
      refine (ensures_readLegacy_singleton rateLimitSeconds).mono ?_ fun _ _ he => he
      intro legacy h' hlooks
      refine ⟨_, hlooks, _, ?_, rfl⟩
      rw [LegacyValues.rateLimit_eq_takenOver]
      exact Document.limitFrom_takenOver (Document.existingValue?_eq_none hvalue) _

/-- A profile is stored under its id, or under one that is drawn. -/
theorem ensures_upsert_saves (draws : DrawsFresh s) (hsound : doc.Sound) (hname : name ≠ "")
    (full : SettingMap) :
    (doc.upsert freshId name full : Procedure _).Ensures s h
      (fun r h' => Consults h h' [] ∧ ∃ stored, r = .ok stored ∧
        doc.Saves name stored.id full stored.document) fun _ _ => False := by
  unfold Document.upsert
  rw [if_neg hname]
  cases hp : doc.profiles.get? name with
  | none =>
    refine ⟨⟨[_], rfl, by simp [Effect.isSource], rfl⟩, _, rfl, ?_⟩
    exact Document.saves_insert (by simp [hp]) fun _ => ⟨draws.ne _ _, draws.not_mem _ _⟩
  | some p =>
    have hne : p.id ≠ "" := fun hid => hsound.ids_ne (Document.mem_ids.mpr ⟨name, p, hp, hid⟩)
    dsimp only [Option.map_some]
    rw [if_neg hne]
    refine ⟨.refl h, _, rfl, Document.saves_insert ?_ ?_⟩
    · rintro q hq
      cases hp.symm.trans hq
      rfl
    · intro habsent
      simp [Document.contains, SortedMap.contains, hp] at habsent

/-- Committing is to store and to announce. -/
theorem ensures_commit_calls (doc : Document) :
    (commit doc).Ensures s h
      (fun _ h' => h' = h ++ [⟨.set doc.encode, .ok ()⟩, ⟨.publish (.changed (.of doc)), ()⟩])
      fun _ h' => ¬ h'.Untroubled := by
  have hcalls : (commit doc).Ensures s h
      (fun _ h' => h' = h ++ [⟨.set doc.encode, .ok ()⟩, ⟨.publish (.changed (.of doc)), ()⟩])
      fun _ _ => True := by
    unfold commit
    rw [ensures_bind, ensures_persist]
    cases s h (.set doc.encode) with
    | ok _ =>
      rw [ensures_publish, List.append_assoc]
      rfl
    | error f => trivial
  exact (delivers_commit doc).ensures_ok hcalls

/-- Where the stored text cannot be had, a call has gone wrong. -/
theorem ensures_read_troubled {ok : Document → History → Prop} {f : Fault}
    (hget : s h .get = .error f) : read.Ensures s h ok fun _ h' => ¬ h'.Untroubled := by
  rw [ensures_read_fault hget]
  intro huntroubled
  cases huntroubled _ (List.mem_append_right _ (List.mem_singleton_self _))

/-- Where a readable text or none is stored, reading can only fail because a call goes
wrong. -/
theorem ensures_read_readable (fair : Fair initial s) (hreadable : Readable initial) :
    read.Ensures s [] (fun doc _ => doc.Sound) fun _ h' => ¬ h'.Untroubled := by
  -- that what is read is sound holds anyway; here the stored text rules the other failures out
  have hfails : read.Ensures s [] (fun _ _ => True) fun _ h' => ¬ h'.Untroubled := by
    cases initial with
    | none => exact (Operation.ensures_read_new fair).mono (fun _ _ _ => trivial) fun _ _ he => he
    | some text =>
      cases hget : s [] .get with
      | error f => exact ensures_read_troubled hget
      | ok found =>
        obtain rfl : found = some text := fair.get_eq [] found hget
        obtain ⟨doc, hdecode, hvalid⟩ := hreadable text rfl
        rw [ensures_read_text hget, hdecode]
        dsimp only
        rw [hvalid]
        exact (delivers_ensureUpgraded hvalid).ensures.mono (fun _ _ _ => trivial) fun _ _ he => he
  exact ((ensures_read fair Setting.lasting_true (.nil _)).and hfails).mono
    (fun _ _ hdoc => hdoc.1.sound.toSound) fun _ _ he => he.2

/-- Saving in a document that was read. -/
theorem ensures_save_into (draws : DrawsFresh s) (hsound : doc.Sound) (hname : name ≠ "")
    (given : SettingMap) :
    Ensures s (do
      let full ← withRateLimit doc name given
      let stored ← ofDocument (← doc.upsert freshId name full)
      commit stored.document
      return stored.id) h
      (fun id h' => ∃ h₁ looks full doc', Consults h h₁ looks ∧
        doc.Completes name given looks full ∧ doc.Saves name id full doc' ∧
        h' = h₁ ++ [⟨.set doc'.encode, .ok ()⟩, ⟨.publish (.changed (.of doc')), ()⟩])
      fun _ h' => ¬ h'.Untroubled := by
  rw [ensures_bind]
  refine (ensures_withRateLimit_completes doc name given).mono ?_ fun _ _ he => he
  rintro full h₁ ⟨looks, hlooks, hfull⟩
  rw [ensures_bind]
  refine (ensures_upsert_saves draws hsound hname full).mono ?_ fun _ _ hf => hf.elim
  rintro r h₂ ⟨hdrawn, stored, rfl, hsaves⟩
  rw [ensures_bind, ensures_ofDocument]
  dsimp only
  rw [ensures_bind]
  refine (ensures_commit_calls stored.document).mono ?_ fun _ _ he => he
  rintro - h₃ rfl
  refine ⟨h₂, looks, full, stored.document, ?_, hfull, hsaves, rfl⟩
  simpa using hlooks.trans hdrawn

end Procedure

namespace Operation

open Procedure

/-- **Saving stores the settings as they are given, and a rate limit.** Let the stored text
be absent or readable, the name not be empty, and no call go wrong. Then saving reads a
document and returns an id: that of the profile of this name, or, if there is none, one
that no profile has. What is stored is the document with that profile under that id and
nothing else changed: neither the other profiles, nor the bindings, nor the flags, nor
which profile is current. The profile has the settings that were given and, only if there
was no rate limit among them, the rate limit that comes first of these: its own; that of
the first profile that has one; the usable form of the old one; the default. The last two
are as the rules of `SecondsFrom` say; in these cases the old limit is looked up, and
nothing else is, and otherwise no old setting is. -/
theorem save_stores_settings (fair : Fair initial s) (hreadable : Readable (h.stored initial))
    (hname : name ≠ "") (given : SettingMap)
    (huntroubled : ((save name given).step s h).calls.Untroubled) :
    let x := (save name given).step s h
    ∃ (doc doc' : Document) (reading sources : History) (id : String) (full : SettingMap),
      Procedure.read.run.converse (s.after h) [] = (.ok doc, reading) ∧
      x.outcome = ⟨save name given, .ok id⟩ ∧
      x.calls = reading ++ sources ++
        [⟨.set doc'.encode, .ok ()⟩, ⟨.publish (.changed (.of doc')), ()⟩] ∧
      (∀ y ∈ sources, y.question.isSource = true) ∧
      doc.Saves name id full doc' ∧
      doc.Completes name given sources.consulted full := by
  intro x
  have hfair : Fair (h.stored initial) (s.after h) := fair.after h
  have hbody : (save name given).body.Ensures (s.after h) []
      (fun id h' => ∃ doc reading, Procedure.read.run.converse (s.after h) [] = (.ok doc, reading) ∧
        ∃ h₁ looks full doc', Consults reading h₁ looks ∧
          doc.Completes name given looks full ∧ doc.Saves name id full doc' ∧
          h' = h₁ ++ [⟨.set doc'.encode, .ok ()⟩, ⟨.publish (.changed (.of doc')), ()⟩])
      fun _ h' => ¬ h'.Untroubled := by
    show (Procedure.save name given).Ensures (s.after h) [] _ _
    unfold Procedure.save
    rw [if_neg hname, ensures_bind]
    refine Ensures.mono ((ensures_read_readable hfair hreadable).and (ensures_converse _)) ?_
      fun _ _ he => he.1
    rintro doc reading ⟨hsound, hread⟩
    exact (ensures_save_into hfair.drawsFresh hsound hname given).mono
      (fun id h' hsaved => ⟨doc, reading, hread, hsaved⟩) fun _ _ he => he
  obtain ⟨id, houtcome, doc, reading, hread, _, _, full, doc', ⟨sources, rfl, hsources, rfl⟩, hfull,
    hsaves, hcalls⟩ | ⟨e, -, htrouble⟩ := step_of_body hbody
  · exact ⟨doc, doc', reading, sources, id, full, hread, houtcome, hcalls, hsources, hsaves, hfull⟩
  · exact absurd huntroubled htrouble

theorem fair_withOld (fair : Fair initial s) (old : LegacyValues) :
    Fair initial (s.withOld old) where
  get_eq := fair.get_eq
  freshId_eq := fair.freshId_eq

/-- The theorem for a new storage, and an old limit. -/
theorem save_stores_settings_withOld :
    let s := (ordinary none).withOld (.insert .empty rateLimitSeconds (.integer 7));
    let x := (save "a" .empty).step s [];
    Fair none s ∧ Readable none ∧ "a" ≠ "" ∧ x.calls.Untroubled ∧
      ∃ (doc' : Document) (id : String), x.outcome = ⟨save "a" .empty, .ok id⟩ ∧
        doc'.profiles.get? "a" = some ⟨id, .insert .empty rateLimitSeconds (.integer 7)⟩ ∧
        x.calls.consulted = [(rateLimitSeconds, some (.integer 7))] := by
  intro s x
  have fair : Fair none s := fair_withOld (fair_ordinary none) _
  have huntroubled : x.calls.Untroubled :=
    Program.untroubled (fun _ q => by cases q <;> rfl) _ (by simp [History.Untroubled])
  obtain ⟨doc, doc', reading, sources, id, full, hread, houtcome, hcalls, -, hsaves, hfull⟩ :=
    save_stores_settings fair readable_none (h := []) (by decide) .empty huntroubled
  have hlooks : x.calls.consulted = [(rateLimitSeconds, some (.integer 7))] := by decide +kernel
  have hreading : reading.consulted = [] := by
    have hrun : reading = (Procedure.read.run.converse s []).2 := congrArg Prod.snd hread.symm
    rw [hrun]
    decide +kernel
  have hsources : sources.consulted = [(rateLimitSeconds, some (.integer 7))] := by
    rw [hcalls, History.consulted_append, History.consulted_append, hreading] at hlooks
    exact (List.append_nil _).symm.trans hlooks
  refine ⟨fair, readable_none, by decide, huntroubled, doc', id, houtcome, ?_, hlooks⟩
  rw [hsaves.profile]
  rw [hsources, Document.Completes, if_neg (by decide)] at hfull
  obtain ⟨limit, hlimit, rfl⟩ := hfull
  cases hlimit with
  | old _ _ hrule =>
    cases hrule with
    | integer _ => rfl
    | other hinteger _ => exact absurd (hinteger 7 rfl) (by decide)
  | default _ hunusable _ => cases hunusable

end Operation

end SettingProfiles
