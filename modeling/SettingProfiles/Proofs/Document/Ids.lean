/-
SettingProfiles.Proofs.Document.Ids — what becomes of the ids of a document.

A profile keeps its id through everything that is done to a document, except that
repair replaces empty ids and those that a profile before has. So a non-empty id is
lost only with its profile, when that is removed.

  §1 `KeepsIds`   — and documents that differ elsewhere.
  §2 Repair       — one of the profiles with an id keeps it.
  §3 Operations
-/
import SettingProfiles.Proofs.Document.RoundTrip
import SettingProfiles.Proofs.Upgrade.Filling

namespace SettingProfiles

namespace Document

variable {doc doc' doc'' : Document}

/-! ## §1 `KeepsIds` -/

/-- Every id of the first document is one of the second, unless it is empty. -/
def KeepsIds (doc doc' : Document) : Prop := ∀ id ∈ doc.ids, id ≠ "" → id ∈ doc'.ids

theorem KeepsIds.refl (doc : Document) : doc.KeepsIds doc := fun _ hid _ => hid

theorem KeepsIds.trans (h : doc.KeepsIds doc') (h' : doc'.KeepsIds doc'') :
    doc.KeepsIds doc'' := fun id hid hne => h' id (h id hid hne) hne

/-- Documents with the same ids by name have the same ids. -/
theorem mem_ids_of_get?_id
    (hids : ∀ name, (doc'.profiles.get? name).map Profile.id
      = (doc.profiles.get? name).map Profile.id) {id : String} : id ∈ doc'.ids ↔ id ∈ doc.ids := by
  have hmem : ∀ d : Document, id ∈ d.ids ↔
      ∃ name, (d.profiles.get? name).map Profile.id = some id := by
    intro d
    simp [mem_ids, Option.map_eq_some_iff]
  rw [hmem, hmem]
  simp only [hids]

theorem mem_ids_of_reread? (h : doc.reread? = some doc') {id : String} :
    id ∈ doc'.ids ↔ id ∈ doc.ids := mem_ids_of_get?_id (get?_id_of_reread? h)

/-- An upgrade changes no id. -/
theorem keepsIds_upgraded (fills : List (String × Setting)) (upgrade : String) :
    doc.KeepsIds ((Upgrade.fillAll doc fills).2.markApplied upgrade) := by
  intro id hid _
  have hids : id ∈ (Upgrade.fillAll doc fills).2.ids :=
    (mem_ids_of_get?_id (Upgrade.get?_fillAll_id doc fills)).mpr hid
  exact hids

/-! ## §2 Repair -/

/-- The first of the profiles with a non-empty id needs no other. -/
theorem exists_identified {id : String} (hid : id ∈ doc.ids) (hne : id ≠ "") :
    ∃ name p, name ∉ doc.unidentified ∧ doc.profiles.get? name = some p ∧ p.id = id := by
  have hsome : (doc.profiles.values.findSome? (Option.guard fun p => p.id = id)).isSome := by
    obtain ⟨p, hp, hpid⟩ := List.mem_map.mp hid
    rw [List.findSome?_isSome_iff]
    exact ⟨p, hp, by simp [hpid]⟩
  obtain ⟨p, hfirst⟩ := Option.isSome_iff_exists.mp hsome
  obtain ⟨name, hname, hleast⟩ := SortedMap.exists_least_of_findSome? hfirst
  obtain ⟨hp, hpid⟩ : doc.profiles.get? name = some p ∧ p.id = id := by
    simpa [Option.bind_eq_some_iff] using hname
  refine ⟨name, p, fun hlisted => ?_, hp, hpid⟩
  rcases (mem_unidentified_iff hp).mp hlisted with hempty | ⟨other, hlt, hother⟩
  · exact hne (hpid.symm.trans hempty)
  · obtain ⟨q, hq, hqid⟩ := Option.map_eq_some_iff.mp hother
    simpa [hq, hqid, hpid] using hleast other hlt

/-- New ids for profiles without one of their own take none away. -/
theorem keepsIds_of_get?_eq
    (h : ∀ name, name ∉ doc.unidentified → doc'.profiles.get? name = doc.profiles.get? name) :
    doc.KeepsIds doc' := by
  intro id hid hne
  obtain ⟨name, p, hname, hp, hpid⟩ := exists_identified hid hne
  exact mem_ids.mpr ⟨name, p, (h name hname).trans hp, hpid⟩

/-! ## §3 Operations -/

theorem keepsIds_setCurrent {name : String} (h : doc.setCurrent name = .ok doc') :
    doc.KeepsIds doc' := by
  unfold setCurrent at h
  split at h <;> cases h
  exact KeepsIds.refl doc

theorem keepsIds_bindMode (mode id : String) : doc.KeepsIds (doc.bindMode mode id) :=
  fun _ hid _ => hid

/-- A profile that is stored again keeps its id, and others are not touched. -/
theorem keepsIds_insert_profile {name id : String} {settings : SettingMap}
    (hid : ∀ p, doc.profiles.get? name = some p → p.id = id) :
    doc.KeepsIds { doc with profiles := doc.profiles.insert name ⟨id, settings⟩ } := by
  intro id' hid' _
  obtain ⟨n, p, hp, rfl⟩ := mem_ids.mp hid'
  by_cases hn : name = n
  · subst hn
    exact mem_ids.mpr ⟨name, ⟨id, settings⟩, SortedMap.get?_insert_self _ _ _, (hid p hp).symm⟩
  · refine mem_ids.mpr ⟨n, p, ?_, rfl⟩
    rw [SortedMap.get?_insert, if_neg hn]
    exact hp

/-- Removing a profile takes away its id and no other. -/
theorem mem_ids_of_remove {name : String} {p : Profile} (h : doc.remove name = .ok (p, doc'))
    {id : String} (hid : id ∈ doc.ids) : id ∈ doc'.ids ∨ p.id = id := by
  unfold remove at h
  split at h
  · cases h
  · rename_i q hq
    split at h <;> cases h
    obtain ⟨n, r, hr, rfl⟩ := mem_ids.mp hid
    by_cases hn : name = n
    · subst hn
      rw [hq] at hr
      cases hr
      exact .inr rfl
    · refine .inl (mem_ids.mpr ⟨n, r, ?_, rfl⟩)
      rw [repairCurrent_profiles]
      show (doc.profiles.erase name).get? n = some r
      rw [SortedMap.get?_erase, if_neg hn]
      exact hr

end Document

end SettingProfiles
