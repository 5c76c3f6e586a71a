/-
SettingProfiles.Proofs.Store.Frame — what an operation changes, and what it leaves.

An operation that neither imports nor resets reads the stored document and then either
returns something of it or commits another document. `Frame` says how far the two may
differ: in the profile that is saved or deleted, in the mode that is bound, and in the
current name, which only activating a profile or deleting the current one moves. That is
said once, for all operations (`ensures_body_performs`); whatever a run keeps follows
from it.

  §1 Profiles   — names with ids, and the first name of all.
  §2 `Frame`    — which parts an operation is about, and what it does to the others.
  §3 Documents  — the changes themselves keep within the frame.
  §4 Reports    — which ids the result of an operation shows.
  §5 Operations — `Performs`, one case for each operation.
-/
import SettingProfiles.Proofs.Store.Failures
import SettingProfiles.Proofs.Store.Given

namespace SettingProfiles

open History (OnlyLooks StoredIs)

variable {s : Surroundings Effect Effect.Answer} {initial : Option String} {h h' : History}
  {doc doc' : Document} {op : Operation} {name id : String}

/-! ## §1 Profiles -/

namespace Document

/-- The document has a profile of this name with this id. -/
def HasProfile (doc : Document) (name id : String) : Prop :=
  (doc.profiles.get? name).map Profile.id = some id

theorem HasProfile.unique {id' : String} (hid : doc.HasProfile name id)
    (hid' : doc.HasProfile name id') : id = id' := Option.some.inj (hid.symm.trans hid')

theorem HasProfile.contains (hid : doc.HasProfile name id) : doc.contains name = true := by
  obtain ⟨p, hp, -⟩ := Option.map_eq_some_iff.mp hid
  exact SortedMap.contains_iff.mpr ⟨p, hp⟩

/-- The name is that of a profile, and no profile has a name before it. -/
def IsFirst (doc : Document) (name : String) : Prop :=
  doc.contains name = true ∧ ∀ other, doc.contains other = true → name ≤ other

theorem isFirst_of_keys {first : String} {rest : List String}
    (hkeys : doc.profiles.keys = first :: rest) : doc.IsFirst first := by
  have hlt : (first :: rest).Pairwise (· < ·) :=
    hkeys ▸ List.pairwise_map.mpr doc.profiles.increasing
  refine ⟨SortedMap.mem_keys.mp (hkeys ▸ List.mem_cons_self), fun other hother => ?_⟩
  have hmem : other ∈ first :: rest := hkeys ▸ SortedMap.mem_keys.mpr hother
  rcases List.mem_cons.mp hmem with rfl | hrest
  · exact String.le_refl _
  · exact String.not_lt.mp (String.lt_asymm ((List.pairwise_cons.mp hlt).1 other hrest))

/-- A current name that is that of no profile gives way to the first. -/
theorem isFirst_repairCurrent (hdangles : doc.profiles.contains doc.current = false)
    (hprofiles : doc.profiles.isEmpty = false) :
    doc.repairCurrent.IsFirst doc.repairCurrent.current := by
  unfold repairCurrent
  rw [hdangles]
  split
  · rename_i hcontains
    cases hcontains
  · split
    · rename_i first rest hkeys
      exact isFirst_of_keys hkeys
    · rename_i hkeys
      rw [SortedMap.isEmpty, List.isEmpty_eq_false_iff] at hprofiles
      exact absurd (List.map_eq_nil_iff.mp hkeys) hprofiles

/-- What lists of profiles show of a profile. -/
theorem hasProfile_of_mem_summaries {tag : Option String}
    (hmem : (⟨name, id, tag⟩ : ProfileSummary) ∈ doc.summaries) : doc.HasProfile name id := by
  obtain ⟨⟨n, p⟩, hp, heq⟩ := List.mem_map.mp hmem
  cases heq
  exact congrArg (Option.map Profile.id) (SortedMap.mem_toList.mp hp)

theorem hasProfile_of_profile {p : Profile} (hp : doc.profile name = .ok p) :
    doc.HasProfile name p.id := by
  unfold profile at hp
  split at hp <;> cases hp
  rename_i hget
  exact congrArg (Option.map Profile.id) hget

/-- The profile that is found by an id is the only one with that id. -/
theorem Sound.hasProfile_iff_of_profileById? (hsound : doc.Sound) {found : String × Profile}
    (hfound : doc.profileById? id = some found) (n : String) :
    doc.HasProfile n id ↔ n = found.1 := by
  have hmem : doc.profiles.get? found.1 = some found.2 :=
    SortedMap.mem_toList.mp (List.mem_of_find?_eq_some hfound)
  have hid : found.2.id = id := by simpa using List.find?_some hfound
  have hidentified := identifiedBut_nil_iff.mpr ⟨hsound.ids_ne, hsound.ids_nodup⟩
  constructor
  · intro hn
    obtain ⟨p, hp, hpid⟩ := Option.map_eq_some_iff.mp hn
    exact hidentified.name_eq (by simp) (by simp) hp hmem (hpid.trans hid.symm)
  · rintro rfl
    unfold HasProfile
    rw [hmem]
    exact congrArg some hid

end Document

/-- The snapshot shows a profile of this name with this id. -/
def Snapshot.Shows (snap : Snapshot) (name id : String) : Prop :=
  ∃ tag, (⟨name, id, tag⟩ : ProfileSummary) ∈ snap.profiles

theorem Document.hasProfile_of_shows (hshows : (Snapshot.of doc).Shows name id) :
    doc.HasProfile name id := by
  obtain ⟨tag, hmem⟩ := hshows
  exact hasProfile_of_mem_summaries hmem

namespace Operation

/-! ## §2 `Frame` -/

/-- The operation replaces the whole document or deletes it. -/
def replaces : Operation → Bool
  | .importDocument _ | .reset => true
  | _ => false

/-- The operation changes the document, unless it fails. -/
def changes : Operation → Bool
  | .save .. | .load _ | .loadById _ | .delete _ | .setCurrent _ | .bindMode ..
  | .importDocument _ => true
  | _ => false

/-- The name under which the operation saves a profile. -/
def saved? : Operation → Option String
  | .save name _ => some name
  | _ => none

/-- The name of the profile that the operation deletes. -/
def deleted? : Operation → Option String
  | .delete name => some name
  | _ => none

/-- The id to which the operation binds the mode. -/
def bound? (mode : String) : Operation → Option String
  | .bindMode m id => if m = mode then some id else none
  | _ => none

/-- The operation makes the profile of this name current. -/
def Activates (doc : Document) (name : String) : Operation → Prop
  | .load n | .setCurrent n => n = name
  | .loadById id => doc.HasProfile name id
  | _ => False

/-- How the document after an operation may differ from the one before. -/
structure Frame (op : Operation) (doc doc' : Document) : Prop where
  upgradeFlags : doc'.upgradeFlags = doc.upgradeFlags
  modeBindings : ∀ mode,
    doc'.modeBindings.get? mode = (op.bound? mode).or (doc.modeBindings.get? mode)
  /-- Only a profile that is saved or deleted is touched. -/
  others : ∀ name, op.saved? ≠ some name → op.deleted? ≠ some name →
    doc'.profiles.get? name = doc.profiles.get? name
  /-- A profile that is saved again keeps its id. -/
  saved : ∀ name, op.saved? = some name → ∃ id, doc'.HasProfile name id ∧
    (doc.contains name = true → doc.HasProfile name id)
  deleted : ∀ name, op.deleted? = some name → doc'.contains name = false
  activated : ∀ name, op.Activates doc name → doc'.current = name
  /-- The first of the profiles that are left takes the place of a deleted current one. -/
  succeeded : op.deleted? = some doc.current → doc'.IsFirst doc'.current
  current : (∀ name, ¬ op.Activates doc name) → op.deleted? ≠ some doc.current →
    doc'.current = doc.current

/-- A profile that is there before and after keeps its id. -/
theorem Frame.hasProfile_iff (hframe : op.Frame doc doc') (hbefore : doc.contains name = true)
    (hafter : doc'.contains name = true) : doc'.HasProfile name id ↔ doc.HasProfile name id := by
  by_cases hsaved : op.saved? = some name
  · obtain ⟨kept, hkept', hkept⟩ := hframe.saved name hsaved
    constructor
    · intro hid
      exact hid.unique hkept' ▸ hkept hbefore
    · intro hid
      exact hid.unique (hkept hbefore) ▸ hkept'
  · by_cases hdeleted : op.deleted? = some name
    · rw [hframe.deleted name hdeleted] at hafter
      cases hafter
    · unfold Document.HasProfile
      rw [hframe.others name hsaved hdeleted]

/-- Before and after the operation no two ids are those of one profile. -/
theorem Frame.unique {id' : String} (hframe : op.Frame doc doc')
    (hid : doc.HasProfile name id ∨ doc'.HasProfile name id)
    (hid' : doc.HasProfile name id' ∨ doc'.HasProfile name id') : id = id' := by
  rcases hid with hid | hid <;> rcases hid' with hid' | hid'
  · exact hid.unique hid'
  · exact hid.unique ((hframe.hasProfile_iff hid.contains hid'.contains).mp hid')
  · exact ((hframe.hasProfile_iff hid'.contains hid.contains).mp hid).unique hid'
  · exact hid.unique hid'

/-- A profile that is not deleted keeps its id. -/
theorem Frame.hasProfile (hframe : op.Frame doc doc') (hdeleted : op.deleted? ≠ some name)
    (hid : doc.HasProfile name id) : doc'.HasProfile name id := by
  by_cases hsaved : op.saved? = some name
  · obtain ⟨kept, hkept', hkept⟩ := hframe.saved name hsaved
    exact hid.unique (hkept hid.contains) ▸ hkept'
  · unfold Document.HasProfile
    rw [hframe.others name hsaved hdeleted]
    exact hid

/-! ## §3 Documents -/

/-- An operation that changes nothing. -/
theorem frame_of_looks (hlooks : op.changes = false) (hop : op.replaces = false) (doc : Document) :
    op.Frame doc doc := by
  cases op with
  | save | load | loadById | delete | setCurrent | bindMode | importDocument => cases hlooks
  | reset => cases hop
  | _ =>
    exact ⟨rfl, fun _ => rfl, fun _ _ _ => rfl, nofun, nofun, nofun, nofun, fun _ _ => rfl⟩

/-- Making a profile current changes the current name and nothing else. -/
theorem frame_setCurrent (hset : doc.setCurrent name = .ok doc') (hsaved : op.saved? = none)
    (hdeleted : op.deleted? = none) (hbound : ∀ mode, op.bound? mode = none)
    (hname : ∀ n, op.Activates doc n ↔ n = name) : op.Frame doc doc' := by
  unfold Document.setCurrent at hset
  split at hset <;> cases hset
  refine ⟨rfl, fun mode => by rw [hbound]; rfl, fun _ _ _ => rfl, ?_, ?_, ?_, ?_, ?_⟩
  · simp [hsaved]
  · simp [hdeleted]
  · exact fun n hn => ((hname n).mp hn).symm
  · simp [hdeleted]
  · exact fun hnone => absurd ((hname name).mpr rfl) (hnone name)

theorem frame_bindMode (doc : Document) (mode id : String) :
    (Operation.bindMode mode id).Frame doc (doc.bindMode mode id) := by
  refine ⟨rfl, fun m => ?_, fun _ _ _ => rfl, nofun, nofun, nofun, nofun, fun _ _ => rfl⟩
  show (doc.modeBindings.insert mode id).get? m = _
  rw [SortedMap.get?_insert, bound?]
  split <;> rfl

/-- Storing a profile under its id. -/
theorem frame_save (given settings : SettingMap)
    (hid : ∀ p, doc.profiles.get? name = some p → p.id = id) :
    (Operation.save name given).Frame doc
      { doc with profiles := doc.profiles.insert name ⟨id, settings⟩ } := by
  refine ⟨rfl, fun _ => rfl, fun n hsaved _ => ?_, ?_, nofun, nofun, nofun, fun _ _ => rfl⟩
  · have hne : name ≠ n := fun heq => hsaved (congrArg some heq)
    show (doc.profiles.insert name _).get? n = _
    rw [SortedMap.get?_insert, if_neg hne]
  · rintro n ⟨⟩
    refine ⟨id, ?_, fun hcontains => ?_⟩
    · unfold Document.HasProfile
      rw [SortedMap.get?_insert_self]
      rfl
    · obtain ⟨p, hp⟩ := SortedMap.contains_iff.mp hcontains
      unfold Document.HasProfile
      rw [hp]
      exact congrArg some (hid p hp)

/-- Removing a profile of a document whose current name is that of one. -/
theorem frame_remove {p : Profile} (hcurrent : doc.contains doc.current = true)
    (hremove : doc.remove name = .ok (p, doc')) :
    doc.HasProfile name p.id ∧ (Operation.delete name).Frame doc doc' := by
  unfold Document.remove at hremove
  split at hremove
  · cases hremove
  · rename_i q hq
    split at hremove
    · cases hremove
    · rename_i hsize
      cases hremove
      have hcontains : doc.profiles.contains name = true := SortedMap.contains_iff.mpr ⟨_, hq⟩
      refine ⟨congrArg (Option.map Profile.id) hq, by simp, fun mode => by simp [bound?],
        fun n _ hdeleted => ?_, nofun, ?_, nofun, ?_, fun _ hother => ?_⟩
      · have hne : name ≠ n := fun heq => hdeleted (congrArg some heq)
        rw [Document.repairCurrent_profiles]
        show (doc.profiles.erase name).get? n = _
        rw [SortedMap.get?_erase, if_neg hne]
      · rintro n ⟨⟩
        unfold Document.contains
        rw [Document.repairCurrent_profiles]
        show (doc.profiles.erase name).contains name = false
        simp [SortedMap.contains, SortedMap.get?_erase]
      · rintro ⟨⟩
        refine Document.isFirst_repairCurrent ?_ (SortedMap.isEmpty_erase_eq_false hcontains hsize)
        show (doc.profiles.erase doc.current).contains doc.current = false
        simp [SortedMap.contains, SortedMap.get?_erase]
      · have hne : name ≠ doc.current := fun heq => hother (congrArg some heq)
        rw [Document.repairCurrent_eq_self]
        exact SortedMap.contains_erase.mpr ⟨hne, hcurrent⟩

/-! ## §4 Reports -/

/-- The result of the operation shows this id for the profile of this name. -/
def Reports : (op : Operation) → op.Result → (name id : String) → Prop
  | .prepare, snap, name, id | .snapshot, snap, name, id => Snapshot.Shows snap name id
  | .list, summaries, name, id =>
    ∃ tag, (⟨name, id, tag⟩ : ProfileSummary) ∈ (summaries : List ProfileSummary)
  | .save n _, shown, name, id => n = name ∧ shown = id
  | .loadById shown, (n, _), name, id => n = name ∧ shown = id
  | .profile n, p, name, id | .delete n, p, name, id => n = name ∧ Profile.id p = id
  | .exportDocument, doc, name, id => Document.HasProfile doc name id
  | _, _, _, _ => False

/-! ## §5 Operations -/

end Operation

namespace History

/-- The history goes on with looks, and ends with the document being stored and then
announced. -/
def Commits (h h' : History) (doc : Document) : Prop :=
  ∃ looked, OnlyLooks h looked ∧
    h' = looked ++ [⟨.set doc.encode, .ok ()⟩, ⟨.publish (.changed (.of doc)), ()⟩]

theorem Commits.stored_eq (hc : Commits h h' doc) (initial : Option String) :
    h'.stored initial = some doc.encode := by
  obtain ⟨looked, -, rfl⟩ := hc
  rw [stored_append]
  rfl

theorem Commits.written_eq (hc : Commits h h' doc) : h'.written = h.written ++ [doc.encode] := by
  obtain ⟨looked, hlooks, rfl⟩ := hc
  rw [written_append, hlooks.written_eq]
  rfl

theorem Commits.events_eq (hc : Commits h h' doc) :
    h'.events = h.events ++ [.changed (.of doc)] := by
  obtain ⟨looked, hlooks, rfl⟩ := hc
  rw [events_append, hlooks.events_eq]
  rfl

theorem Commits.onlyLooks {looked : History} (hc : Commits looked h' doc)
    (hl : OnlyLooks h looked) : Commits h h' doc := by
  obtain ⟨looked', hl', rfl⟩ := hc
  exact ⟨looked', hl.trans hl', rfl⟩

end History

open History (Commits)

/-- What an operation that returns has done after reading: it returned something of the
document and asked nothing more, or it committed another document within its frame. -/
structure Operation.Performs (op : Operation) (doc : Document) (h : History) (r : op.Result)
    (h' : History) (doc' : Document) : Prop where
  frame : op.Frame doc doc'
  reports : ∀ name id, op.Reports r name id → doc.HasProfile name id ∨ doc'.HasProfile name id
  calls : if op.changes then Commits h h' doc' else doc' = doc ∧ h' = h

/-- What was stored before an operation that returns is stored, as changed, after it. -/
theorem Operation.Performs.storedIs {r : op.Result} (hp : op.Performs doc h r h' doc')
    (hstored : StoredIs initial h doc) : StoredIs initial h' doc' := by
  have hcalls := hp.calls
  split at hcalls
  · exact ⟨_, hcalls.stored_eq initial, .inr rfl⟩
  · obtain ⟨rfl, rfl⟩ := hcalls
    exact hstored

theorem Operation.Performs.events_eq {r : op.Result} (hp : op.Performs doc h r h' doc') :
    h'.events = h.events ++ if op.changes then [.changed (.of doc')] else [] := by
  have hcalls := hp.calls
  split at hcalls
  · rename_i hchanges
    rw [hcalls.events_eq, if_pos hchanges]
  · rename_i hchanges
    rw [hcalls.2, if_neg hchanges, List.append_nil]

namespace Procedure

variable {α : Type}

theorem ensures_commit_commits :
    (commit doc).Ensures s h (fun _ h' => Commits h h' doc) fun _ _ => True := by
  unfold commit
  rw [ensures_bind, ensures_persist]
  cases s h (.set doc.encode) with
  | ok _ =>
    rw [ensures_publish, List.append_assoc]
    exact ⟨h, OnlyLooks.refl h, rfl⟩
  | error f => trivial

theorem storedIs_of_read (fair : Fair initial s) (hread : read.run.converse s [] = (.ok doc, h)) :
    StoredIs initial h doc :=
  ((ensures_read fair Setting.lasting_true (.nil _)).of_ok hread).stored

/-- Reading announces nothing. -/
theorem events_of_read (hread : read.run.converse s [] = (.ok doc, h)) : h.events = [] := by
  have hsilent := failStop_read.events_eq s []
  rwa [hread] at hsilent

/-- An operation that begins by reading, in terms of what it does with the document. -/
theorem ensures_read_bind_performs {f : Document → Procedure α}
    {post : Document → History → α → History → Prop} (fair : Fair initial s)
    (hf : ∀ doc h₁, doc.Sound → (f doc).Ensures s h₁ (post doc h₁) fun _ _ => True) :
    (read >>= f).Ensures s []
      (fun r h' => ∃ doc h₁, read.run.converse s [] = (.ok doc, h₁) ∧ post doc h₁ r h')
      fun _ _ => True := by
  rw [ensures_bind]
  have hread := (ensures_read fair Setting.lasting_true (.nil _)).and
    (ensures_converse (s := s) (h := []) read)
  refine hread.mono ?_ fun _ _ _ => trivial
  rintro doc h₁ ⟨hsettled, hconverse⟩
  exact (hf doc h₁ hsettled.sound.toSound).mono
    (fun r h' hpost => ⟨doc, h₁, hconverse, hpost⟩) fun _ _ he => he

/-- Making a profile current, as the end of an operation that is about that. -/
theorem ensures_setCurrent_frame (op : Operation)
    (hframe : ∀ doc', doc.setCurrent name = .ok doc' → op.Frame doc doc') :
    (ofDocument (doc.setCurrent name) >>= commit).Ensures s h
      (fun _ h' => ∃ doc', op.Frame doc doc' ∧ Commits h h' doc') fun _ _ => True := by
  rw [ensures_bind, ensures_ofDocument]
  cases hdoc : doc.setCurrent name with
  | error e => trivial
  | ok doc' =>
    refine ensures_commit_commits.mono (fun _ h' hc => ?_) fun _ _ he => he
    exact ⟨doc', hframe doc' hdoc, hc⟩

theorem ensures_activate_frame (op : Operation)
    (hframe : ∀ doc', doc.setCurrent name = .ok doc' → op.Frame doc doc') :
    (activate doc name).Ensures s h
      (fun _ h' => ∃ doc', op.Frame doc doc' ∧ Commits h h' doc') fun _ _ => True := by
  unfold activate
  rw [ensures_bind, ensures_ofDocument]
  cases doc.profile name with
  | error e => trivial
  | ok p =>
    dsimp only
    rw [← bind_assoc, ensures_bind]
    exact ensures_setCurrent_frame op hframe

theorem ensures_upsert_frame (hsound : doc.Sound) (given full : SettingMap) :
    (doc.upsert freshId name full : Procedure _).Ensures s h
      (fun r h' => OnlyLooks h h' ∧ ∀ stored, r = .ok stored →
        (Operation.save name given).Frame doc stored.document ∧
          stored.document.HasProfile name stored.id)
      fun _ _ => True := by
  have hstored : ∀ id, (Document.mk doc.current (doc.profiles.insert name ⟨id, full⟩)
      doc.modeBindings doc.upgradeFlags).HasProfile name id := by
    intro id
    unfold Document.HasProfile
    rw [SortedMap.get?_insert_self]
    rfl
  unfold Document.upsert
  split
  · exact ⟨OnlyLooks.refl h, nofun⟩
  · cases hp : doc.profiles.get? name with
    | none =>
      refine ⟨(OnlyLooks.refl h).snoc rfl, ?_⟩
      rintro stored ⟨⟩
      exact ⟨Operation.frame_save given full (by simp [hp]), hstored _⟩
    | some p =>
      have hne : p.id ≠ "" := fun hid => hsound.ids_ne (Document.mem_ids.mpr ⟨name, p, hp, hid⟩)
      dsimp only [Option.map_some]
      rw [if_neg hne]
      refine ⟨OnlyLooks.refl h, ?_⟩
      rintro stored ⟨⟩
      exact ⟨Operation.frame_save given full (by simp [hp]), hstored _⟩

theorem ensures_save_performs (fair : Fair initial s) (name : String) (given : SettingMap) :
    (Procedure.save name given).Ensures s []
      (fun r h' => ∃ doc h₁, read.run.converse s [] = (.ok doc, h₁) ∧
        ∃ doc', (Operation.save name given).Performs doc h₁ r h' doc')
      fun _ _ => True := by
  unfold Procedure.save
  split
  · trivial
  · refine ensures_read_bind_performs fair fun doc h₁ hsound => ?_
    rw [ensures_bind]
    refine ((failStop_withRateLimit doc name given).look.onlyLooks s h₁).mono ?_
      fun _ _ _ => trivial
    intro full h₂ hlooks
    rw [ensures_bind]
    refine (ensures_upsert_frame hsound given full).mono ?_ fun _ _ he => he
    rintro r h₃ ⟨hlooks', hframe⟩
    rw [ensures_bind, ensures_ofDocument]
    cases r with
    | error e => trivial
    | ok stored =>
      dsimp only
      rw [ensures_bind]
      refine ensures_commit_commits.mono (fun _ h' hc => ?_) fun _ _ he => he
      obtain ⟨hsaved, hid⟩ := hframe stored rfl
      refine ⟨stored.document, hsaved, ?_, hc.onlyLooks (hlooks.trans hlooks')⟩
      rintro n shown ⟨rfl, rfl⟩
      exact .inr hid

end Procedure

namespace Operation

open Procedure

/-- **What an operation does**, unless it imports or resets: it reads, and if it returns
then it has performed. -/
theorem ensures_body_performs (fair : Fair initial s) (op : Operation) (hop : op.replaces = false) :
    op.body.Ensures s []
      (fun r h' => ∃ doc h₁, read.run.converse s [] = (.ok doc, h₁) ∧
        ∃ doc', op.Performs doc h₁ r h' doc')
      fun _ _ => True := by
  -- what an operation returns that does not change the document
  have look : ∀ {doc : Document} {h₁ : History} {r : op.Result}, op.changes = false →
      (∀ name id, op.Reports r name id → doc.HasProfile name id) →
      ∃ doc', op.Performs doc h₁ r h₁ doc' := fun {doc h₁ r} hlooks hreports =>
    ⟨doc, frame_of_looks hlooks hop doc, fun name id hid => .inl (hreports name id hid), by
      rw [if_neg (by simp [hlooks])]
      exact ⟨rfl, rfl⟩⟩
  cases op with
  | importDocument | reset => cases hop
  | prepare | snapshot =>
    exact ensures_read_bind_performs fair fun doc h₁ _ =>
      look rfl fun _ _ => Document.hasProfile_of_shows
  | list =>
    exact ensures_read_bind_performs fair fun doc h₁ _ =>
      look rfl fun _ _ ⟨_, hmem⟩ => Document.hasProfile_of_mem_summaries hmem
  | current | contains | modeBinding =>
    exact ensures_read_bind_performs fair fun doc h₁ _ => look rfl nofun
  | exportDocument =>
    have hlook : (read >>= pure).Ensures s []
        (fun r h' => ∃ doc h₁, read.run.converse s [] = (.ok doc, h₁) ∧
          ∃ doc', exportDocument.Performs doc h₁ r h' doc') fun _ _ => True :=
      ensures_read_bind_performs fair fun doc h₁ _ => look rfl fun _ _ hid => hid
    rwa [bind_pure] at hlook
  | profile name =>
    refine ensures_read_bind_performs fair fun doc h₁ _ => ?_
    rw [ensures_ofDocument]
    cases hp : doc.profile name with
    | error e => trivial
    | ok p =>
      refine look rfl ?_
      rintro n id ⟨rfl, rfl⟩
      exact Document.hasProfile_of_profile hp
  | save name settings => exact ensures_save_performs fair name settings
  | delete name =>
    refine ensures_read_bind_performs fair fun doc h₁ hsound => ?_
    rw [ensures_bind, ensures_ofDocument]
    cases hdoc : doc.remove name with
    | error e => trivial
    | ok r =>
      obtain ⟨p, rest⟩ := r
      obtain ⟨hid, hframe⟩ := frame_remove hsound.current hdoc
      dsimp only
      rw [ensures_bind]
      refine ensures_commit_commits.mono (fun _ h' hc => ?_) fun _ _ he => he
      refine ⟨rest, hframe, ?_, hc⟩
      rintro n id ⟨rfl, rfl⟩
      exact .inl hid
  | setCurrent name =>
    refine ensures_read_bind_performs fair fun doc h₁ _ => ?_
    refine (ensures_setCurrent_frame (.setCurrent name) fun doc' hdoc =>
      frame_setCurrent hdoc rfl rfl (fun _ => rfl) fun n => eq_comm).mono ?_ fun _ _ he => he
    rintro - h' ⟨doc', hframe, hc⟩
    exact ⟨doc', hframe, nofun, hc⟩
  | load name =>
    refine ensures_read_bind_performs fair fun doc h₁ _ => ?_
    rw [ensures_bind]
    refine (ensures_activate_frame (.load name) fun doc' hdoc =>
      frame_setCurrent hdoc rfl rfl (fun _ => rfl) fun n => eq_comm).mono ?_ fun _ _ he => he
    rintro p h' ⟨doc', hframe, hc⟩
    exact ⟨doc', hframe, nofun, hc⟩
  | loadById id =>
    refine ensures_read_bind_performs fair fun doc h₁ hsound => ?_
    cases hfound : doc.profileById? id with
    | none => trivial
    | some found =>
      have hname := hsound.hasProfile_iff_of_profileById? hfound
      dsimp only
      rw [ensures_bind]
      refine (ensures_activate_frame (.loadById id) fun doc' hdoc =>
        frame_setCurrent hdoc rfl rfl (fun _ => rfl) hname).mono ?_ fun _ _ he => he
      rintro p h' ⟨doc', hframe, hc⟩
      refine ⟨doc', hframe, ?_, hc⟩
      rintro n shown ⟨rfl, rfl⟩
      exact .inl ((hname _).mpr rfl)
  | bindMode mode id =>
    refine ensures_read_bind_performs fair fun doc h₁ _ => ?_
    exact ensures_commit_commits.mono
      (fun _ h' hc => ⟨_, frame_bindMode doc mode id, nofun, hc⟩) fun _ _ he => he

end Operation

end SettingProfiles
