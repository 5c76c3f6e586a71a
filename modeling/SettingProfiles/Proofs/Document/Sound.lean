/-
SettingProfiles.Proofs.Document.Sound — the rules of a stored document.

`Document.Sound` is what is true of every document that is stored: there is a
profile, none has the empty name, the current name is that of a profile, and
the ids are non-empty and all different. Each operation on a document keeps
it; repair brings it about for any document that passes `validate`.

  §1 The rules   — `Sound`, and `validate` as its first half.
  §2 Ids         — `IdentifiedBut`: all profiles have ids of their own except
                   those of some names. `unidentified` lists such names
                   (`mem_unidentified_iff`), and `withId` takes one off the list.
  §3 The current name
  §4 Operations  — what keeps `Sound`.
  §5 Refusals and flags
-/
import SettingProfiles.Document.Basic
import SettingProfiles.Proofs.SortedMap

namespace SettingProfiles

namespace Document

variable {doc : Document}

/-! ## §1 The rules -/

/-- The rules that a stored document follows. -/
structure Sound (doc : Document) : Prop where
  profiles : doc.profiles.isEmpty = false
  names : doc.profiles.contains "" = false
  current : doc.profiles.contains doc.current = true
  ids_ne : "" ∉ doc.ids
  ids_nodup : doc.ids.Nodup

/-- Validation looks at the profiles and their names, not at the ids or the current name. -/
theorem validate_eq_ok_iff :
    doc.validate = .ok () ↔ doc.profiles.isEmpty = false ∧ doc.profiles.contains "" = false := by
  unfold validate
  cases doc.profiles.isEmpty <;> cases doc.profiles.contains "" <;> simp

theorem Sound.validate_eq_ok (h : doc.Sound) : doc.validate = .ok () :=
  validate_eq_ok_iff.mpr ⟨h.profiles, h.names⟩

/-! ## §2 Ids -/

/-- The ids in use are those of the profiles. -/
theorem mem_ids {id : String} :
    id ∈ doc.ids ↔ ∃ name p, doc.profiles.get? name = some p ∧ p.id = id := by
  simp only [ids, List.mem_map, SortedMap.mem_values]
  constructor
  · rintro ⟨p, ⟨name, hp⟩, hid⟩
    exact ⟨name, p, hp, hid⟩
  · rintro ⟨name, p, hp, hid⟩
    exact ⟨p, ⟨name, hp⟩, hid⟩

/-- The profiles have ids of their own, those of the given names apart. -/
structure IdentifiedBut (doc : Document) (names : List String) : Prop where
  id_ne : ∀ {name p}, name ∉ names → doc.profiles.get? name = some p → p.id ≠ ""
  name_eq : ∀ {name name' p p'}, name ∉ names → name' ∉ names →
    doc.profiles.get? name = some p → doc.profiles.get? name' = some p' →
    p.id = p'.id → name = name'

/-- If no profile is left out, all ids are non-empty and different. -/
theorem identifiedBut_nil_iff :
    doc.IdentifiedBut [] ↔ "" ∉ doc.ids ∧ doc.ids.Nodup := by
  have hids : doc.ids = doc.profiles.toList.map fun e => e.2.id := by
    simp [ids, SortedMap.values]
  have hnodup : doc.ids.Nodup ↔ ∀ e ∈ doc.profiles.toList, ∀ e' ∈ doc.profiles.toList,
      e.2.id = e'.2.id → e = e' := by
    rw [hids]
    exact List.nodup_map_iff_inj_on doc.profiles.nodup_toList
  constructor
  · intro h
    refine ⟨fun hmem => ?_, hnodup.mpr ?_⟩
    · obtain ⟨name, p, hp, hid⟩ := mem_ids.mp hmem
      exact h.id_ne (by simp) hp hid
    · rintro ⟨name, p⟩ hp ⟨name', p'⟩ hp' hid
      have hget := SortedMap.mem_toList.mp hp
      have hget' := SortedMap.mem_toList.mp hp'
      have hname : name = name' := h.name_eq (by simp) (by simp) hget hget' hid
      subst hname
      rw [hget] at hget'
      cases hget'
      rfl
  · rintro ⟨hne, hnd⟩
    refine ⟨fun {name p} _ hp hid => ?_, fun {name name' p p'} _ _ hp hp' hid => ?_⟩
    · exact hne (mem_ids.mpr ⟨name, p, hp, hid⟩)
    · have heq := hnodup.mp hnd (name, p) (SortedMap.mem_toList.mpr hp) (name', p')
        (SortedMap.mem_toList.mpr hp') hid
      exact congrArg Prod.fst heq

/-- The names that are listed: `seen` are the ids of the profiles before these. -/
theorem mem_unidentified_go_iff {seen : List String} {entries : List (String × Profile)}
    (hinc : Bindings.Increasing entries) {name : String} :
    name ∈ unidentified.go seen entries ↔
      ∃ p, (name, p) ∈ entries ∧
        (p.id = "" ∨ p.id ∈ seen ∨ ∃ e ∈ entries, e.1 < name ∧ e.2.id = p.id) := by
  induction entries generalizing seen with
  | nil => simp [unidentified.go]
  | cons head rest ih =>
    obtain ⟨k, q⟩ := head
    obtain ⟨hk, hrest⟩ := List.pairwise_cons.mp hinc
    have hirrefl : ∀ p, (k, p) ∉ rest := fun p hp => String.lt_irrefl k (hk _ hp)
    have hbefore : ∀ e ∈ rest, ¬ e.1 < k := fun e he => String.lt_asymm (hk e he)
    rw [unidentified.go]
    by_cases hname : name = k
    · subst hname
      have hnot : ∀ seen, name ∉ unidentified.go seen rest := by simp [ih hrest, hirrefl]
      have hnone : ¬ ∃ e ∈ (name, q) :: rest, e.1 < name ∧ e.2.id = q.id := by
        rintro ⟨e, he, hlt, -⟩
        rcases List.mem_cons.mp he with rfl | he
        · exact String.lt_irrefl _ hlt
        · exact hbefore e he hlt
      have hq : ∀ p, (name, p) ∈ (name, q) :: rest ↔ p = q := by simp [hirrefl]
      simp only [hq, exists_eq_left, hnone, or_false]
      split
      · rename_i hbad
        simp [hbad]
      · rename_i hgood
        simp [hnot, hgood]
    · have hlt : ∀ p, (name, p) ∈ rest → k < name := fun p hp => hk _ hp
      split
      · -- what has the id of a listed profile is empty or seen before itself
        simp only [List.mem_cons, hname, false_or, ih hrest, Prod.mk.injEq, false_and]
        refine exists_congr fun p => and_congr_right fun hp => ?_
        grind
      · -- the id is seen from here on
        simp only [List.mem_cons, hname, false_or, ih hrest, Prod.mk.injEq, false_and]
        refine exists_congr fun p => and_congr_right fun hp => ?_
        grind

/-- The names that are listed are names of profiles. -/
theorem exists_of_mem_unidentified {name : String} (hname : name ∈ doc.unidentified) :
    ∃ p, doc.profiles.get? name = some p := by
  obtain ⟨p, hp, -⟩ := (mem_unidentified_go_iff doc.profiles.increasing).mp hname
  exact ⟨p, SortedMap.mem_toList.mp hp⟩

/-- A profile is listed if its id is empty or that of a profile before it. -/
theorem mem_unidentified_iff {name : String} {p : Profile}
    (hp : doc.profiles.get? name = some p) :
    name ∈ doc.unidentified ↔
      p.id = "" ∨ ∃ other < name, (doc.profiles.get? other).map Profile.id = some p.id := by
  have hbefore : (∃ e ∈ doc.profiles.toList, e.1 < name ∧ e.2.id = p.id) ↔
      ∃ other < name, (doc.profiles.get? other).map Profile.id = some p.id := by
    simp only [Prod.exists, SortedMap.mem_toList, Option.map_eq_some_iff]
    exact exists_congr fun other => by tauto
  rw [unidentified, mem_unidentified_go_iff doc.profiles.increasing, ← hbefore]
  simp [SortedMap.mem_toList, hp]

/-- Once the listed profiles are left out, all others have ids of their own. -/
theorem identifiedBut_unidentified (doc : Document) : doc.IdentifiedBut doc.unidentified where
  id_ne hname hp hid := hname ((mem_unidentified_iff hp).mpr (.inl hid))
  name_eq {name name' p p'} hname hname' hp hp' hid := by
    -- the later of two profiles with one id is listed
    by_contra hne
    by_cases hlt : name < name'
    · refine hname' ((mem_unidentified_iff hp').mpr (.inr ⟨name, hlt, ?_⟩))
      rw [hp, Option.map_some, hid]
    · have hgt : name' < name := Bindings.lt_of_not_lt_of_ne hlt hne
      refine hname ((mem_unidentified_iff hp).mpr (.inr ⟨name', hgt, ?_⟩))
      rw [hp', Option.map_some, hid]

/-- No profile is listed exactly if all ids are non-empty and different. -/
theorem unidentified_eq_nil_iff :
    doc.unidentified = [] ↔ "" ∉ doc.ids ∧ doc.ids.Nodup := by
  rw [← identifiedBut_nil_iff]
  constructor
  · intro h
    exact h ▸ identifiedBut_unidentified doc
  · intro hidentified
    refine List.eq_nil_iff_forall_not_mem.mpr fun name hname => ?_
    obtain ⟨p, hp⟩ := exists_of_mem_unidentified hname
    rcases (mem_unidentified_iff hp).mp hname with hid | ⟨other, hlt, hother⟩
    · exact hidentified.id_ne List.not_mem_nil hp hid
    · obtain ⟨q, hq, hid⟩ := Option.map_eq_some_iff.mp hother
      have heq : other = name :=
        hidentified.name_eq List.not_mem_nil List.not_mem_nil hq hp hid
      exact String.lt_irrefl name (heq ▸ hlt)

/-- Names are listed in the order of the profiles, each at most once. -/
theorem unidentified_go_sublist (seen : List String) (entries : List (String × Profile)) :
    (unidentified.go seen entries).Sublist (entries.map Prod.fst) := by
  induction entries generalizing seen with
  | nil => exact .slnil
  | cons head rest ih =>
    obtain ⟨name, p⟩ := head
    rw [unidentified.go, List.map_cons]
    split
    · exact (ih seen).cons_cons name
    · exact (ih (p.id :: seen)).cons name

theorem nodup_unidentified (doc : Document) : doc.unidentified.Nodup :=
  doc.profiles.nodup_keys.sublist (unidentified_go_sublist [] doc.profiles.toList)

/-! `withId` changes one id and nothing else. -/

@[simp] theorem withId_current (doc : Document) (name id : String) :
    (doc.withId name id).current = doc.current := by
  unfold withId; split <;> rfl

@[simp] theorem withId_modeBindings (doc : Document) (name id : String) :
    (doc.withId name id).modeBindings = doc.modeBindings := by
  unfold withId; split <;> rfl

@[simp] theorem withId_upgradeFlags (doc : Document) (name id : String) :
    (doc.withId name id).upgradeFlags = doc.upgradeFlags := by
  unfold withId; split <;> rfl

/-- The profile of that name gets the id, and all others stay as they are. -/
theorem get?_withId (doc : Document) (name id k : String) :
    (doc.withId name id).profiles.get? k
      = (doc.profiles.get? k).map fun p => if name = k then { p with id := id } else p := by
  unfold withId
  split
  · rename_i p hp
    rw [SortedMap.get?_insert]
    split
    · rename_i hk
      subst hk
      simp [hp]
    · simp
  · rename_i hp
    by_cases hk : name = k
    · subst hk
      simp [hp]
    · simp [hk]

@[simp] theorem contains_withId (doc : Document) (name id k : String) :
    (doc.withId name id).profiles.contains k = doc.profiles.contains k := by
  simp [SortedMap.contains, get?_withId]

/-- An id that is not in use identifies one profile more. -/
theorem IdentifiedBut.withId {name id : String} {names : List String}
    (h : doc.IdentifiedBut (name :: names)) (hne : id ≠ "") (hfresh : id ∉ doc.ids) :
    (doc.withId name id).IdentifiedBut names := by
  have hcases : ∀ {n q}, (doc.withId name id).profiles.get? n = some q →
      ∃ p, doc.profiles.get? n = some p ∧ q = if name = n then { p with id := id } else p := by
    intro n q hq
    rw [get?_withId] at hq
    obtain ⟨p, hp, rfl⟩ := Option.map_eq_some_iff.mp hq
    exact ⟨p, hp, rfl⟩
  have hother : ∀ {n}, n ∉ names → name ≠ n → n ∉ name :: names := by
    intro n hn hne
    simpa [hn] using fun h => hne h.symm
  constructor
  · intro n q hn hq
    obtain ⟨p, hp, rfl⟩ := hcases hq
    split
    · exact hne
    · rename_i hname
      exact h.id_ne (hother hn hname) hp
  · intro n n' q q' hn hn' hq hq' hid
    obtain ⟨p, hp, rfl⟩ := hcases hq
    obtain ⟨p', hp', rfl⟩ := hcases hq'
    by_cases hname : name = n <;> by_cases hname' : name = n'
    · exact hname.symm.trans hname'
    · rw [if_pos hname, if_neg hname'] at hid
      exact absurd (mem_ids.mpr ⟨n', p', hp', hid.symm⟩) hfresh
    · rw [if_neg hname, if_pos hname'] at hid
      exact absurd (mem_ids.mpr ⟨n, p, hp, hid⟩) hfresh
    · rw [if_neg hname, if_neg hname'] at hid
      exact h.name_eq (hother hn hname) (hother hn' hname') hp hp' hid

/-! ## §3 The current name -/

@[simp] theorem repairCurrent_profiles (doc : Document) :
    doc.repairCurrent.profiles = doc.profiles := by
  unfold repairCurrent
  split
  · rfl
  · split <;> rfl

@[simp] theorem repairCurrent_modeBindings (doc : Document) :
    doc.repairCurrent.modeBindings = doc.modeBindings := by
  unfold repairCurrent
  split
  · rfl
  · split <;> rfl

@[simp] theorem repairCurrent_upgradeFlags (doc : Document) :
    doc.repairCurrent.upgradeFlags = doc.upgradeFlags := by
  unfold repairCurrent
  split
  · rfl
  · split <;> rfl

/-- Repair makes the current name that of a profile, if there is one. -/
theorem contains_current_repairCurrent (h : doc.profiles.isEmpty = false) :
    doc.profiles.contains doc.repairCurrent.current = true := by
  unfold repairCurrent
  split
  · assumption
  · split
    · rename_i first rest hkeys
      exact SortedMap.mem_keys.mp (hkeys ▸ List.mem_cons_self)
    · rename_i hkeys
      obtain ⟨key, hkey⟩ := SortedMap.isEmpty_eq_false_iff.mp h
      have hmem := SortedMap.mem_keys.mpr hkey
      rw [hkeys] at hmem
      cases hmem

/-- A current name that is that of a profile is left alone. -/
theorem repairCurrent_eq_self (h : doc.profiles.contains doc.current = true) :
    doc.repairCurrent = doc := if_pos h

/-! ## §4 Operations -/

/-- What the rules say depends on the names and ids of the profiles and on the
current name only. -/
theorem Sound.of_get?_id {doc' : Document} (h : doc.Sound)
    (hids : ∀ name, (doc'.profiles.get? name).map Profile.id
      = (doc.profiles.get? name).map Profile.id)
    (hcurrent : doc'.current = doc.current) : doc'.Sound := by
  have hcontains : ∀ name, doc'.profiles.contains name = doc.profiles.contains name := by
    intro name
    have := congrArg Option.isSome (hids name)
    simpa [SortedMap.contains] using this
  have hback : ∀ {name p'}, doc'.profiles.get? name = some p' →
      ∃ p, doc.profiles.get? name = some p ∧ p.id = p'.id := by
    intro name p' hp'
    have := hids name
    rw [hp', Option.map_some] at this
    exact Option.map_eq_some_iff.mp this.symm
  have hidentified := identifiedBut_nil_iff.mpr ⟨h.ids_ne, h.ids_nodup⟩
  have hidentified' : doc'.IdentifiedBut [] := by
    refine ⟨fun {name p'} _ hp' hid => ?_, fun {name name' p' q'} _ _ hp' hq' hid => ?_⟩
    · obtain ⟨p, hp, heq⟩ := hback hp'
      exact hidentified.id_ne (by simp) hp (heq.trans hid)
    · obtain ⟨p, hp, heq⟩ := hback hp'
      obtain ⟨q, hq, heq'⟩ := hback hq'
      exact hidentified.name_eq (by simp) (by simp) hp hq (heq.trans (hid.trans heq'.symm))
  obtain ⟨key, hkey⟩ := SortedMap.isEmpty_eq_false_iff.mp h.profiles
  obtain ⟨hne, hnodup⟩ := identifiedBut_nil_iff.mp hidentified'
  exact {
    profiles := SortedMap.isEmpty_eq_false_iff.mpr ⟨key, (hcontains key).trans hkey⟩
    names := (hcontains "").trans h.names
    current := by rw [hcurrent, hcontains]; exact h.current
    ids_ne := hne
    ids_nodup := hnodup }

/-- Storing a profile under a name keeps the rules, if it keeps its id or gets one
that is not in use. -/
theorem Sound.insert_profile (h : doc.Sound) {name id : String} {settings : SettingMap}
    (hname : name ≠ "") (hne : id ≠ "")
    (hid : (∃ p, doc.profiles.get? name = some p ∧ p.id = id) ∨ id ∉ doc.ids) :
    Sound { doc with profiles := doc.profiles.insert name ⟨id, settings⟩ } := by
  have hidentified := identifiedBut_nil_iff.mpr ⟨h.ids_ne, h.ids_nodup⟩
  -- no other profile has the id
  have hother : ∀ {n p}, doc.profiles.get? n = some p → p.id = id → name = n := by
    intro n p hp heq
    rcases hid with ⟨q, hq, hqid⟩ | hfresh
    · exact hidentified.name_eq (by simp) (by simp) hq hp (hqid.trans heq.symm)
    · exact absurd (mem_ids.mpr ⟨n, p, hp, heq⟩) hfresh
  have hidentified' :
      IdentifiedBut { doc with profiles := doc.profiles.insert name ⟨id, settings⟩ } [] := by
    refine ⟨fun {n q} _ hq => ?_, fun {n n' q q'} _ _ hq hq' heq => ?_⟩
    · simp only [SortedMap.get?_insert] at hq
      split at hq
      · cases hq
        exact hne
      · exact hidentified.id_ne (by simp) hq
    · simp only [SortedMap.get?_insert] at hq hq'
      split at hq <;> split at hq'
      · rename_i hn hn'
        exact hn.symm.trans hn'
      · rename_i hn _
        cases hq
        exact hn.symm.trans (hother hq' heq.symm)
      · rename_i hn'
        cases hq'
        exact (hother hq heq).symm.trans hn'
      · exact hidentified.name_eq (by simp) (by simp) hq hq' heq
  obtain ⟨hids_ne, hids_nodup⟩ := identifiedBut_nil_iff.mp hidentified'
  exact {
    profiles := SortedMap.isEmpty_eq_false_iff.mpr ⟨name, SortedMap.contains_insert.mpr (.inl rfl)⟩
    names := by
      rw [Bool.eq_false_iff, Ne, SortedMap.contains_insert, h.names]
      simp [hname]
    current := SortedMap.contains_insert.mpr (.inr h.current)
    ids_ne := hids_ne
    ids_nodup := hids_nodup }

/-- Only the name of a profile can become the current one. -/
theorem Sound.setCurrent {doc' : Document} {name : String} (h : doc.Sound)
    (heq : doc.setCurrent name = .ok doc') : doc'.Sound := by
  unfold Document.setCurrent at heq
  split at heq
  · rename_i hname
    cases heq
    exact { h with current := hname }
  · cases heq

theorem Sound.bindMode (h : doc.Sound) (mode id : String) : (doc.bindMode mode id).Sound :=
  { h with }

theorem Sound.markApplied (h : doc.Sound) (upgrade : String) : (doc.markApplied upgrade).Sound :=
  { h with }

/-- The last profile is not removed, and if the current one is, another takes its place. -/
theorem Sound.remove {name : String} {p : Profile} {doc' : Document} (h : doc.Sound)
    (heq : doc.remove name = .ok (p, doc')) : doc'.Sound := by
  unfold Document.remove at heq
  split at heq
  · cases heq
  · rename_i q hq
    split at heq
    · cases heq
    · rename_i hsize
      cases heq
      have hprofiles : (doc.profiles.erase name).isEmpty = false :=
        SortedMap.isEmpty_erase_eq_false (SortedMap.contains_iff.mpr ⟨p, hq⟩) hsize
      have hsub : ∀ {n r}, (doc.profiles.erase name).get? n = some r →
          doc.profiles.get? n = some r := by
        intro n r hr
        rw [SortedMap.get?_erase] at hr
        split at hr
        · cases hr
        · exact hr
      have hidentified := identifiedBut_nil_iff.mpr ⟨h.ids_ne, h.ids_nodup⟩
      have hidentified' : IdentifiedBut
          (repairCurrent { doc with profiles := doc.profiles.erase name }) [] := by
        refine ⟨fun {n r} hn hr => ?_, fun {n n' r r'} hn hn' hr hr' heq => ?_⟩
        · rw [repairCurrent_profiles] at hr
          exact hidentified.id_ne hn (hsub hr)
        · rw [repairCurrent_profiles] at hr hr'
          exact hidentified.name_eq hn hn' (hsub hr) (hsub hr') heq
      obtain ⟨hids_ne, hids_nodup⟩ := identifiedBut_nil_iff.mp hidentified'
      exact {
        profiles := by rw [repairCurrent_profiles]; exact hprofiles
        names := by
          rw [repairCurrent_profiles, Bool.eq_false_iff, Ne, SortedMap.contains_erase, h.names]
          simp
        current := by
          rw [repairCurrent_profiles]
          exact contains_current_repairCurrent hprofiles
        ids_ne := hids_ne
        ids_nodup := hids_nodup }

/-! ## §5 Refusals and flags -/

/-- The only reason to refuse a profile is that there is none of this name. -/
theorem profile_eq_error {name : String} {e : DocumentError}
    (h : doc.profile name = .error e) : e = .notFound name := by
  unfold profile at h
  split at h <;> cases h
  rfl

theorem setCurrent_eq_error {name : String} {e : DocumentError}
    (h : doc.setCurrent name = .error e) : e = .notFound name := by
  unfold setCurrent at h
  split at h <;> cases h
  rfl

/-- A profile is not removed if there is none of this name, or no other. -/
theorem remove_eq_error {name : String} {e : DocumentError}
    (h : doc.remove name = .error e) : e = .notFound name ∨ e = .lastProfile := by
  unfold remove at h
  split at h
  · cases h
    exact Or.inl rfl
  · split at h <;> cases h
    exact Or.inr rfl

theorem upgradeFlags_of_setCurrent {name : String} {doc' : Document}
    (h : doc.setCurrent name = .ok doc') : doc'.upgradeFlags = doc.upgradeFlags := by
  unfold setCurrent at h
  split at h <;> cases h
  rfl

theorem upgradeFlags_of_remove {name : String} {r : Profile × Document}
    (h : doc.remove name = .ok r) : r.2.upgradeFlags = doc.upgradeFlags := by
  unfold remove at h
  split at h
  · cases h
  · split at h <;> cases h
    simp

end Document

end SettingProfiles
