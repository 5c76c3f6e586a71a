/-
SettingProfiles.Proofs.Store.Loading — loading a profile by its name or by its id.

The two ways look the profile up differently: one asks for the name, the other takes the
first profile that has the id. In a document that was read they find the same profile,
since repair has left no id empty and none twice; and from there on they do the same. An
id that no profile has is refused before anything is stored.

  §1 Look-ups — by id, in a sound document.
  §2 Loading  — `load_by_id_agrees_with_load`.
-/
import SettingProfiles.Proofs.Store.Detached
import SettingProfiles.Proofs.Store.Saving

namespace SettingProfiles

variable {initial : Option String} {h reading : History} {doc : Document} {name id : String}
  {s : Surroundings Effect Effect.Answer}

/-! ## §1 Look-ups -/

namespace Document

theorem profile_eq_ok_iff {p : Profile} :
    doc.profile name = .ok p ↔ doc.profiles.get? name = some p := by
  unfold profile
  cases doc.profiles.get? name <;> simp

/-- A profile is found by the id that it has. -/
theorem Sound.profileById?_eq_some (hsound : doc.Sound) {p : Profile}
    (hp : doc.profile name = .ok p) : doc.profileById? p.id = some (name, p) := by
  have hhas : doc.HasProfile name p.id := hasProfile_of_profile hp
  rw [profile_eq_ok_iff] at hp
  cases hfound : doc.profileById? p.id with
  | none =>
    have hnone := List.find?_eq_none.mp hfound (name, p) (SortedMap.mem_toList.mpr hp)
    simp at hnone
  | some found =>
    have hname : name = found.1 := (hsound.hasProfile_iff_of_profileById? hfound name).mp hhas
    have hget : doc.profiles.get? found.1 = some found.2 :=
      SortedMap.mem_toList.mp (List.mem_of_find?_eq_some hfound)
    rw [← hname, hp] at hget
    rw [hname, Option.some.inj hget]

/-- An id that no profile has leads to none. -/
theorem profileById?_eq_none (hid : id ∉ doc.ids) : doc.profileById? id = none := by
  refine List.find?_eq_none.mpr fun e he => ?_
  have hne : e.2.id ≠ id := by
    rintro rfl
    exact hid (mem_ids.mpr ⟨e.1, e.2, SortedMap.mem_toList.mp he, rfl⟩)
  simpa using hne

end Document

/-! ## §2 Loading -/

namespace Procedure

/-- Once the document is read, the rest is to load the profile that has the id. -/
theorem converse_loadById (hread : read.run.converse s h = (.ok doc, reading))
    (hsound : doc.Sound) {p : Profile} (hp : doc.profile name = .ok p) :
    (loadById p.id).run.converse s h
      = (activate doc name >>= fun p => pure (name, p.settings)).run.converse s reading := by
  unfold loadById
  rw [converse_bind_ok hread, hsound.profileById?_eq_some hp]

theorem converse_loadById_of_notMem (hread : read.run.converse s h = (.ok doc, reading))
    (hid : id ∉ doc.ids) : (loadById id).run.converse s h = (.error (.notFound id), reading) := by
  unfold loadById
  rw [converse_bind_ok hread, Document.profileById?_eq_none hid]
  rfl

/-- A profile that is there is returned, and what is stored and announced is the document
in which it is current. -/
theorem ensures_activate_calls {p : Profile} (hp : doc.profile name = .ok p) :
    (activate doc name).Ensures s h
      (fun q h' => q = p ∧ h' = h ++ [⟨.set { doc with current := name }.encode, .ok ()⟩,
        ⟨.publish (.changed (.of { doc with current := name })), ()⟩])
      fun _ h' => ¬ h'.Untroubled := by
  have hcontains : doc.profiles.contains name = true :=
    SortedMap.contains_iff.mpr ⟨p, Document.profile_eq_ok_iff.mp hp⟩
  unfold activate
  rw [ensures_bind, ensures_ofDocument, hp]
  dsimp only
  rw [ensures_bind, ensures_ofDocument, Document.setCurrent, if_pos hcontains]
  dsimp only
  rw [ensures_bind]
  exact (ensures_commit_calls _).mono (fun _ _ hcalls => ⟨rfl, hcalls⟩) fun _ _ he => he

/-- Unless a call goes wrong, the profile is returned. -/
theorem eq_ok_of_activate {p : Profile} {r : Except StoreError Profile} {h' : History}
    (hp : doc.profile name = .ok p) (hactivate : (activate doc name).run.converse s h = (r, h'))
    (huntroubled : h'.Untroubled) :
    r = .ok p ∧ h' = h ++ [⟨.set { doc with current := name }.encode, .ok ()⟩,
      ⟨.publish (.changed (.of { doc with current := name })), ()⟩] := by
  rcases (ensures_activate_calls hp).ok_or_error with
    ⟨q, k, hrun, rfl, hcalls⟩ | ⟨e, k, hrun, htrouble⟩
  · rw [hactivate] at hrun
    cases hrun
    exact ⟨rfl, hcalls⟩
  · rw [hactivate] at hrun
    cases hrun
    exact absurd huntroubled htrouble

end Procedure

namespace Operation

open Procedure (read activate)

/-- **Loading a profile by its id is loading it by its name.** Let the stored text be absent
or readable. Unless a call goes wrong, both begin by reading a document. Each id in it is
that of one profile, and if it is loaded

* by its id and by its name, then the same calls are made with the same answers, so the same
  text is stored and the same event announced, and the results are the same, but that the
  name is told where the id was given. If no call goes wrong, the settings of the profile are
  returned after the document has been stored with the profile as the current one;
* by an id that no profile has, the empty one for example, then the id is not found, and
  after reading nothing is stored and nothing announced. -/
theorem load_by_id_agrees_with_load (fair : Fair initial s)
    (hreadable : Readable (h.stored initial)) :
    (History.Untroubled (read.run.converse (s.after h) []).2 →
      ∃ doc, (read.run.converse (s.after h) []).1 = .ok doc) ∧
    ∀ doc reading, read.run.converse (s.after h) [] = (.ok doc, reading) →
      "" ∉ doc.ids ∧
      (∀ name id, doc.HasProfile name id →
        let byName := (load name).step s h
        let byId := (loadById id).step s h
        byId.calls = byName.calls ∧
        ∃ r : Except StoreError SettingMap,
          byName.outcome = ⟨load name, r.mapError (⟨load name, ·⟩)⟩ ∧
          byId.outcome = ⟨loadById id, (r.map (name, ·)).mapError (⟨loadById id, ·⟩)⟩ ∧
          (byName.calls.Untroubled → ∃ p, doc.profile name = .ok p ∧ r = .ok p.settings ∧
            byName.calls = reading ++ [⟨.set { doc with current := name }.encode, .ok ()⟩,
              ⟨.publish (.changed (.of { doc with current := name })), ()⟩])) ∧
      ∀ id ∉ doc.ids,
        let byId := (loadById id).step s h
        byId.outcome = ⟨loadById id, .error ⟨loadById id, .notFound id⟩⟩ ∧
        byId.calls = reading ∧ byId.calls.events = [] := by
  have hfair : Fair (h.stored initial) (s.after h) := fair.after h
  constructor
  · intro huntroubled
    rcases (Procedure.ensures_read_readable hfair hreadable).ok_or_error with
      ⟨doc, reading, hread, -⟩ | ⟨e, reading, hread, htrouble⟩
    · exact ⟨doc, congrArg Prod.fst hread⟩
    · rw [hread] at huntroubled
      exact absurd huntroubled htrouble
  · intro doc reading hread
    have hsound : doc.Sound :=
      ((Procedure.ensures_read hfair Setting.lasting_true (.nil _)).of_ok hread).sound.toSound
    refine ⟨hsound.ids_ne, ?_, ?_⟩
    · intro name id hhas byName byId
      obtain ⟨p, hget, rfl⟩ := Option.map_eq_some_iff.mp hhas
      have hp : doc.profile name = .ok p := Document.profile_eq_ok_iff.mpr hget
      -- from here on it is the same procedure
      generalize hactivate : (activate doc name).run.converse (s.after h) reading = activated
      obtain ⟨r, calls⟩ := activated
      have hbyName : byName = ⟨⟨load name, _⟩, calls⟩ := step_of_converse
        ((Procedure.converse_bind_ok hread).trans
          (Procedure.converse_map Profile.settings hactivate))
      have hbyId : byId = ⟨⟨loadById p.id, _⟩, calls⟩ := step_of_converse
        ((Procedure.converse_loadById hread hsound hp).trans
          (Procedure.converse_map (fun q => (name, q.settings)) hactivate))
      rw [hbyName, hbyId]
      refine ⟨rfl, r.map Profile.settings, rfl, ?_, ?_⟩
      · cases r <;> rfl
      · intro huntroubled
        obtain ⟨rfl, hcalls⟩ := Procedure.eq_ok_of_activate hp hactivate huntroubled
        exact ⟨p, hp, rfl, hcalls⟩
    · intro id hid byId
      have hbyId : byId = ⟨⟨loadById id, _⟩, reading⟩ :=
        step_of_converse (Procedure.converse_loadById_of_notMem hread hid)
      rw [hbyId]
      exact ⟨rfl, rfl, Procedure.events_of_read hread⟩

/-- The theorem for a stored document of two profiles with one id: the second is given
another, by which it is loaded. -/
theorem load_by_id_agrees_with_load_ordinary :
    let doc : Document := { Document.new "x" with
      profiles := .ofList [("a", ⟨"x", .empty⟩), ("b", ⟨"x", .empty⟩)] }
    ∃ text, Document.decode? text = some doc ∧
      Fair (some text) (ordinary (some text)) ∧ Readable (some text) ∧
      ((loadById "xxi").step (ordinary (some text)) []).calls
        = ((load "b").step (ordinary (some text)) []).calls ∧
      ((loadById "xxi").step (ordinary (some text)) []).outcome
        = ⟨loadById "xxi", .ok ("b", .empty)⟩ ∧
      ((loadById "").step (ordinary (some text)) []).outcome
        = ⟨loadById "", .error ⟨loadById "", .notFound ""⟩⟩ := by
  intro doc
  obtain ⟨text, hdecode⟩ : ∃ text, Document.decode? text = some doc := by
    refine ⟨doc.encode, ?_⟩
    rw [Document.decode?_encode]
    decide +kernel
  have fair : Fair (some text) (ordinary (some text)) := fair_ordinary _
  have hreadable : Readable (some text) := by
    rintro _ ⟨⟩
    exact ⟨doc, hdecode, by decide⟩
  have hsecond : Procedure.read.Ensures ((ordinary (some text)).after []) []
      (fun d _ => d.profiles.get? "b" = some ⟨"xxi", .empty⟩) fun _ _ => False := by
    have hget : (ordinary (some text)).after [] [] .get = .ok (some text) := rfl
    rw [Procedure.ensures_read_text hget, hdecode]
    rfl
  obtain ⟨d, reading, hread, hget⟩ := hsecond.exists_ok
  obtain ⟨-, hall⟩ := load_by_id_agrees_with_load (h := []) fair hreadable
  obtain ⟨hempty, hsame, hnone⟩ := hall d reading hread
  obtain ⟨hcalls, r, -, houtcome, hloaded⟩ :=
    hsame "b" "xxi" (congrArg (Option.map Profile.id) hget)
  obtain ⟨p, hp, rfl, -⟩ := hloaded (untroubled_step_ordinary _ [])
  rw [Document.profile_eq_ok_iff, hget] at hp
  cases hp
  exact ⟨text, hdecode, fair, hreadable, hcalls, houtcome, (hnone "" hempty).1⟩

end Operation

end SettingProfiles
