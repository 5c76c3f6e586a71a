/-
SettingProfiles.Proofs.Document.Repairing — what repair changes, and what it leaves.

Which profiles need an id is settled before the first id is drawn, and then the ids
are replaced one after the other, each by one that is not in use at that moment. What
is in use changes on the way; but no id is lost that a profile has rightfully, so the
ids that are drawn are simply those of the supply that the document did not have at
first, each once (`freshIds`). From there on nothing is said about drawing any more.

  §1 Supplies   — `freshIds`, the ids that can be drawn.
  §2 `withIds`  — several ids replaced, and what is drawn for that.
  §3 `NewIds`   — ids as they are drawn, and the document that gets them.
  §4 `Repaired` — `repair_changes_what_is_broken`.
-/
import Mathlib.Data.Finset.Card
import SettingProfiles.Proofs.Store.Detached
import SettingProfiles.Proofs.Upgrade.Stages

namespace SettingProfiles

namespace Document

variable {doc doc' : Document} {name id : String} {inUse supply rest ids : List String}

/-! ## §1 Supplies -/

/-- The ids that are drawn from a supply one after the other, until there are none left:
those that are not in use, each once. -/
def freshIds (inUse : List String) : List String → List String
  | [] => []
  | id :: supply =>
    if id ∈ inUse then freshIds inUse supply else id :: freshIds (id :: inUse) supply

theorem mem_freshIds : id ∈ freshIds inUse supply ↔ id ∈ supply ∧ id ∉ inUse := by
  induction supply generalizing inUse with
  | nil => simp [freshIds]
  | cons first supply ih =>
    rw [freshIds]
    by_cases hid : id = first
    · split <;> simp_all
    · split <;> simp [ih, hid]

theorem nodup_freshIds (inUse supply : List String) : (freshIds inUse supply).Nodup := by
  induction supply generalizing inUse with
  | nil => simp [freshIds]
  | cons first supply ih =>
    rw [freshIds]
    split
    · exact ih inUse
    · simp [ih, mem_freshIds]

/-- There are as many as the supply has ids that are not in use. -/
theorem length_freshIds (inUse supply : List String) :
    (freshIds inUse supply).length = (supply.toFinset \ inUse.toFinset).card := by
  rw [← List.toFinset_card_of_nodup (nodup_freshIds inUse supply)]
  congr 1
  ext id
  simp [mem_freshIds]

/-- Of what is in use only those ids count that the supply has. -/
theorem freshIds_congr {inUse' : List String} (h : ∀ id ∈ supply, id ∈ inUse ↔ id ∈ inUse') :
    freshIds inUse supply = freshIds inUse' supply := by
  induction supply generalizing inUse inUse' with
  | nil => rfl
  | cons first supply ih =>
    have hfirst : first ∈ inUse ↔ first ∈ inUse' := h first List.mem_cons_self
    have hsupply : ∀ id ∈ supply, id ∈ inUse ↔ id ∈ inUse' :=
      fun id hid => h id (List.mem_cons_of_mem _ hid)
    have hdrawn : freshIds (first :: inUse) supply = freshIds (first :: inUse') supply := by
      refine ih fun id hid => ?_
      simp [hsupply id hid]
    simp only [freshIds, hfirst, ih hsupply, hdrawn]

theorem freshIds_eq_nil (h : freshId? inUse supply = none) : freshIds inUse supply = [] := by
  induction supply with
  | nil => rfl
  | cons first supply ih =>
    rw [freshId?] at h
    rw [freshIds]
    split at h
    · rename_i hfirst
      rw [if_pos hfirst, ih h]
    · cases h

/-- The first id is drawn, and the others from what is left then. -/
theorem freshIds_eq_cons (h : freshId? inUse supply = some (id, rest)) :
    freshIds inUse supply = id :: freshIds (id :: inUse) rest := by
  induction supply with
  | nil => cases h
  | cons first supply ih =>
    rw [freshId?] at h
    rw [freshIds]
    split at h
    · rename_i hfirst
      rw [if_pos hfirst, ih h]
    · rename_i hfirst
      cases h
      rw [if_neg hfirst]

theorem suffix_of_freshId? (h : freshId? inUse supply = some (id, rest)) : rest <:+ supply := by
  induction supply with
  | nil => cases h
  | cons first supply ih =>
    rw [freshId?] at h
    split at h
    · exact (ih h).trans (List.suffix_cons _ _)
    · cases h
      exact List.suffix_cons _ _

theorem run_drawId (inUse supply : List String) :
    (drawId inUse).run supply = freshId? inUse supply := rfl

/-! ## §2 `withIds` -/

/-- Gives each of the profiles the id beside its name, one after the other. -/
def withIds (doc : Document) (entries : List (String × String)) : Document :=
  entries.foldl (fun d e => d.withId e.1 e.2) doc

variable {entries : List (String × String)}

@[simp] theorem withIds_nil (doc : Document) : doc.withIds [] = doc := rfl

@[simp] theorem withIds_cons (doc : Document) (e : String × String)
    (entries : List (String × String)) :
    doc.withIds (e :: entries) = (doc.withId e.1 e.2).withIds entries := rfl

theorem withIds_snoc (doc : Document) (entries : List (String × String)) (name id : String) :
    doc.withIds (entries ++ [(name, id)]) = (doc.withIds entries).withId name id := by
  simp [withIds]

@[simp] theorem withIds_current (doc : Document) (entries : List (String × String)) :
    (doc.withIds entries).current = doc.current := by
  induction entries generalizing doc with
  | nil => rfl
  | cons e entries ih => simp [ih]

theorem sameContent_withIds (doc : Document) (entries : List (String × String)) :
    doc.SameContent (doc.withIds entries) := by
  induction entries using List.reverseRecOn with
  | nil => exact .refl doc
  | append_singleton entries e ih =>
    rw [withIds_snoc]
    exact ih.withId e.1 e.2

/-- A profile that is not among them keeps its id. -/
theorem get?_withIds_of_notMem (hname : name ∉ entries.map Prod.fst) :
    (doc.withIds entries).profiles.get? name = doc.profiles.get? name := by
  induction entries generalizing doc with
  | nil => rfl
  | cons e entries ih =>
    obtain ⟨hne, hrest⟩ : name ≠ e.1 ∧ name ∉ entries.map Prod.fst := by simpa using hname
    rw [withIds_cons, ih hrest, get?_withId]
    simp [Ne.symm hne]

theorem get?_withIds_of_mem (hnodup : (entries.map Prod.fst).Nodup) (hmem : (name, id) ∈ entries) :
    (doc.withIds entries).profiles.get? name
      = (doc.profiles.get? name).map fun p => { p with id := id } := by
  induction entries generalizing doc with
  | nil => cases hmem
  | cons e entries ih =>
    obtain ⟨hfirst, hrest⟩ := List.nodup_cons.mp hnodup
    rw [withIds_cons]
    rcases List.mem_cons.mp hmem with rfl | hmem
    · rw [get?_withIds_of_notMem hfirst, get?_withId]
      simp
    · have hne : e.1 ≠ name := by
        rintro rfl
        exact hfirst (List.mem_map.mpr ⟨_, hmem, rfl⟩)
      rw [ih hrest hmem, get?_withId]
      simp [hne]

/-- If only profiles get an id that need one, no other id is lost but the empty one. -/
theorem mem_ids_withIds (hnames : (entries.map Prod.fst).Sublist doc.unidentified) (hne : id ≠ "") :
    id ∈ (doc.withIds entries).ids ↔ id ∈ entries.map Prod.snd ∨ id ∈ doc.ids := by
  have hnodup : (entries.map Prod.fst).Nodup := doc.nodup_unidentified.sublist hnames
  constructor
  · intro hid
    obtain ⟨name, p, hp, rfl⟩ := mem_ids.mp hid
    by_cases hname : name ∈ entries.map Prod.fst
    · obtain ⟨⟨_, new⟩, hmem, rfl⟩ := List.mem_map.mp hname
      rw [get?_withIds_of_mem hnodup hmem] at hp
      obtain ⟨q, -, rfl⟩ := Option.map_eq_some_iff.mp hp
      exact .inl (List.mem_map_of_mem hmem)
    · rw [get?_withIds_of_notMem hname] at hp
      exact .inr (mem_ids.mpr ⟨name, p, hp, rfl⟩)
  · rintro (hid | hid)
    · obtain ⟨⟨name, id⟩, hmem, rfl⟩ := List.mem_map.mp hid
      obtain ⟨p, hp⟩ := exists_of_mem_unidentified (hnames.mem (List.mem_map_of_mem hmem))
      refine mem_ids.mpr ⟨name, { p with id := id }, ?_, rfl⟩
      rw [get?_withIds_of_mem hnodup hmem, hp, Option.map_some]
    · obtain ⟨name, p, hname, hp, hpid⟩ := exists_identified hid hne
      refine mem_ids.mpr ⟨name, p, ?_, hpid⟩
      rw [get?_withIds_of_notMem fun hmem => hname (hnames.mem hmem), hp]

/-- Once a profile has its id, what is in use is that id and what was in use before. -/
theorem freshIds_ids_snoc
    (hnames : ((entries ++ [(name, id)]).map Prod.fst).Sublist doc.unidentified)
    (hsupply : "" ∉ supply) :
    freshIds (doc.withIds (entries ++ [(name, id)])).ids supply
      = freshIds (id :: (doc.withIds entries).ids) supply := by
  have hbefore : (entries.map Prod.fst).Sublist doc.unidentified := by
    rw [List.map_append] at hnames
    exact (List.sublist_append_left _ _).trans hnames
  refine freshIds_congr fun other hother => ?_
  have hne : other ≠ "" := ne_of_mem_of_not_mem hother hsupply
  rw [List.mem_cons, mem_ids_withIds hnames hne, mem_ids_withIds hbefore hne, List.map_append,
    List.mem_append, List.map_singleton, List.mem_singleton]
  tauto

/-- How the profiles still to come get their ids after some have theirs: those that the
supply has left and the document has not. -/
theorem foldlM_drawId {todo : List String}
    (hnames : entries.map Prod.fst ++ todo = doc.unidentified) (hsupply : "" ∉ supply) :
    ((todo.foldlM (fun d name => do return d.withId name (← drawId d.ids)) (doc.withIds entries) :
        StateT (List String) Option Document).run supply).map Prod.fst
      = let ids := freshIds (doc.withIds entries).ids supply
        if todo.length ≤ ids.length then some (doc.withIds (entries ++ todo.zip ids))
        else none := by
  induction todo generalizing entries supply with
  | nil => simp
  | cons name todo ih =>
    rw [List.foldlM_cons]
    cases hdraw : freshId? (doc.withIds entries).ids supply with
    | none =>
      simp [run_drawId, hdraw, freshIds_eq_nil hdraw]
    | some drawn =>
      obtain ⟨id, rest⟩ := drawn
      have hrest : "" ∉ rest := fun hmem => hsupply ((suffix_of_freshId? hdraw).mem hmem)
      have hnames' : (entries ++ [(name, id)]).map Prod.fst ++ todo = doc.unidentified := by
        simp [← hnames]
      have hids := freshIds_ids_snoc (hnames' ▸ List.sublist_append_left _ todo) hrest
      have hlater := ih hnames' hrest
      rw [hids, withIds_snoc] at hlater
      simpa [run_drawId, hdraw, freshIds_eq_cons hdraw] using hlater

/-- Repair is given what the supply has and the document has not, or else runs out of it. -/
theorem normalise_drawId (doc : Document) (hsupply : "" ∉ supply) :
    ((doc.normalise drawId).run supply).map Prod.fst
      = if doc.unidentified.length ≤ (freshIds doc.ids supply).length
        then some (doc.repairedWith (freshIds doc.ids supply)) else none := by
  have hnames : ([] : List (String × String)).map Prod.fst ++ doc.unidentified
      = doc.unidentified := List.nil_append _
  have hrun := foldlM_drawId hnames hsupply
  have hmap : ((doc.normalise drawId).run supply).map Prod.fst
      = (((doc.assignIds drawId).run supply).map Prod.fst).map repairCurrent := by
    unfold normalise
    cases hassign : (doc.assignIds drawId).run supply <;> simp [hassign]
  rw [withIds_nil] at hrun
  rw [hmap, assignIds, hrun]
  simp only
  split <;> rfl

/-! ## §3 `NewIds` -/

/-- As many ids as the document needs, none of them empty or one of its own, and all
different. -/
structure NewIds (doc : Document) (ids : List String) : Prop where
  length_eq : ids.length = doc.unidentified.length
  ne : "" ∉ ids
  not_mem : ∀ id ∈ ids, id ∉ doc.ids
  nodup : ids.Nodup

theorem newIds_freshIds (hsupply : "" ∉ supply)
    (hlength : doc.unidentified.length ≤ (freshIds doc.ids supply).length) :
    doc.NewIds ((freshIds doc.ids supply).take doc.unidentified.length) where
  length_eq := List.length_take_of_le hlength
  ne hmem := hsupply (mem_freshIds.mp (List.mem_of_mem_take hmem)).1
  not_mem _ hid := (mem_freshIds.mp (List.mem_of_mem_take hid)).2
  nodup := (nodup_freshIds _ _).sublist (List.take_sublist _ _)

theorem repairedWith_eq (doc : Document) (ids : List String) :
    doc.repairedWith ids = (doc.withIds (doc.unidentified.zip ids)).repairCurrent := rfl

theorem sameContent_repairedWith (doc : Document) (ids : List String) :
    doc.SameContent (doc.repairedWith ids) := (doc.sameContent_withIds _).repairCurrent

/-- What is left over of the ids makes no difference. -/
theorem repairedWith_take (hlength : doc.unidentified.length ≤ ids.length) :
    doc.repairedWith (ids.take doc.unidentified.length) = doc.repairedWith ids := by
  have hzip : doc.unidentified.zip ids
      = doc.unidentified.zip (ids.take doc.unidentified.length) := by
    rw [List.zip_eq_zip_take_min, Nat.min_eq_left hlength, List.take_length]
  rw [repairedWith, ← hzip, repairedWith]

/-- What repair comes to: the ids that are drawn, and the document that gets them. -/
theorem exists_newIds_of_normalise (hsupply : "" ∉ supply)
    (hnormalise : (doc.normalise drawId).run supply = some (doc', rest)) :
    ∃ ids, doc.NewIds ids ∧ (∀ id ∈ ids, id ∈ supply) ∧ doc' = doc.repairedWith ids := by
  have hrun := normalise_drawId doc hsupply
  rw [hnormalise] at hrun
  split at hrun
  · rename_i hlength
    refine ⟨_, newIds_freshIds hsupply hlength, ?_, ?_⟩
    · intro id hid
      exact (mem_freshIds.mp (List.mem_of_mem_take hid)).1
    · rw [repairedWith_take hlength]
      exact Option.some.inj hrun
  · cases hrun

namespace NewIds

variable {p : Profile}

theorem map_fst_zip (h : doc.NewIds ids) :
    (doc.unidentified.zip ids).map Prod.fst = doc.unidentified :=
  List.map_fst_zip h.length_eq.ge

theorem map_snd_zip (h : doc.NewIds ids) : (doc.unidentified.zip ids).map Prod.snd = ids :=
  List.map_snd_zip h.length_eq.le

theorem get?_of_notMem (h : doc.NewIds ids) (hname : name ∉ doc.unidentified) :
    (doc.repairedWith ids).profiles.get? name = doc.profiles.get? name := by
  rw [repairedWith_eq, repairCurrent_profiles, get?_withIds_of_notMem]
  rwa [h.map_fst_zip]

/-- A profile that needs an id gets the one beside its name. -/
theorem get?_of_mem (h : doc.NewIds ids) (hmem : (name, id) ∈ doc.unidentified.zip ids) :
    (doc.repairedWith ids).profiles.get? name
      = (doc.profiles.get? name).map fun p => { p with id := id } := by
  rw [repairedWith_eq, repairCurrent_profiles, get?_withIds_of_mem _ hmem]
  rw [h.map_fst_zip]
  exact doc.nodup_unidentified

theorem exists_mem_zip (h : doc.NewIds ids) (hname : name ∈ doc.unidentified) :
    ∃ id ∈ ids, (name, id) ∈ doc.unidentified.zip ids := by
  rw [← h.map_fst_zip] at hname
  obtain ⟨⟨_, id⟩, hmem, rfl⟩ := List.mem_map.mp hname
  exact ⟨id, (List.of_mem_zip hmem).2, hmem⟩

/-- No two profiles get the same id. -/
theorem name_eq_of_mem_zip (h : doc.NewIds ids) {name' : String}
    (hmem : (name, id) ∈ doc.unidentified.zip ids)
    (hmem' : (name', id) ∈ doc.unidentified.zip ids) : name = name' := by
  have hnodup : ((doc.unidentified.zip ids).map Prod.snd).Nodup := by
    rw [h.map_snd_zip]
    exact h.nodup
  exact congrArg Prod.fst (List.inj_on_of_nodup_map hnodup hmem hmem' rfl)

/-- A profile keeps its id exactly if it needs no other. -/
theorem hasProfile_iff (h : doc.NewIds ids) (hp : doc.profiles.get? name = some p) :
    (doc.repairedWith ids).HasProfile name p.id ↔ name ∉ doc.unidentified := by
  constructor
  · intro hkept hname
    obtain ⟨id, hid, hmem⟩ := h.exists_mem_zip hname
    rw [HasProfile, h.get?_of_mem hmem, hp] at hkept
    have heq : id = p.id := Option.some.inj hkept
    exact h.not_mem id hid (heq ▸ mem_ids.mpr ⟨name, p, hp, rfl⟩)
  · intro hname
    rw [HasProfile, h.get?_of_notMem hname, hp, Option.map_some]

theorem exists_hasProfile (h : doc.NewIds ids) (hname : name ∈ doc.unidentified) :
    ∃ id ∈ ids, (doc.repairedWith ids).HasProfile name id := by
  obtain ⟨p, hp⟩ := exists_of_mem_unidentified hname
  obtain ⟨id, hid, hmem⟩ := h.exists_mem_zip hname
  exact ⟨id, hid, by rw [HasProfile, h.get?_of_mem hmem, hp]; rfl⟩

/-- A profile of the repaired document is as it was, or has the id beside its name. -/
theorem of_get? (h : doc.NewIds ids) (hp : (doc.repairedWith ids).profiles.get? name = some p) :
    (name ∉ doc.unidentified ∧ doc.profiles.get? name = some p) ∨
      (name, p.id) ∈ doc.unidentified.zip ids := by
  by_cases hname : name ∈ doc.unidentified
  · obtain ⟨id, -, hmem⟩ := h.exists_mem_zip hname
    rw [h.get?_of_mem hmem] at hp
    obtain ⟨q, -, rfl⟩ := Option.map_eq_some_iff.mp hp
    exact .inr hmem
  · rw [h.get?_of_notMem hname] at hp
    exact .inl ⟨hname, hp⟩

/-- No profile is left without an id of its own. -/
theorem identifiedBut_nil (h : doc.NewIds ids) : (doc.repairedWith ids).IdentifiedBut [] := by
  have hidentified := doc.identifiedBut_unidentified
  -- an id that is drawn is not one of those that are kept
  have hdifferent : ∀ {n n' : String} {q q' : Profile}, doc.profiles.get? n = some q →
      (n', q'.id) ∈ doc.unidentified.zip ids → q.id ≠ q'.id := by
    intro n n' q q' hq hmem heq
    exact h.not_mem _ (List.of_mem_zip hmem).2 (mem_ids.mpr ⟨n, q, hq, heq⟩)
  constructor
  · intro name p _ hp
    rcases h.of_get? hp with ⟨hname, hkept⟩ | hdrawn
    · exact hidentified.id_ne hname hkept
    · exact ne_of_mem_of_not_mem (List.of_mem_zip hdrawn).2 h.ne
  · intro name name' p p' _ _ hp hp' hid
    rcases h.of_get? hp with ⟨hname, hkept⟩ | hdrawn <;>
      rcases h.of_get? hp' with ⟨hname', hkept'⟩ | hdrawn'
    · exact hidentified.name_eq hname hname' hkept hkept' hid
    · exact absurd hid (hdifferent hkept hdrawn')
    · exact absurd hid.symm (hdifferent hkept' hdrawn)
    · exact h.name_eq_of_mem_zip hdrawn (hid ▸ hdrawn')

end NewIds

/-! ## §4 `Repaired` -/

/-- The second document is the first with everything repaired that is broken, and nothing
else. New ids come from the supply. -/
structure Repaired (supply : List String) (doc doc' : Document) : Prop where
  content : doc.SameContent doc'
  /-- An id that is not empty stays with the first of the profiles that have it. -/
  kept : ∀ name p, doc.profiles.get? name = some p →
    (doc'.HasProfile name p.id ↔ p.id ≠ "" ∧ ∀ other < name, ¬ doc.HasProfile other p.id)
  /-- All others get an id that no profile had. -/
  replaced : ∀ name p, doc.profiles.get? name = some p → ¬ doc'.HasProfile name p.id →
    ∃ id ∈ supply, id ∉ doc.ids ∧ doc'.HasProfile name id
  ids_ne : "" ∉ doc'.ids
  ids_nodup : doc'.ids.Nodup
  current : doc.contains doc.current = true → doc'.current = doc.current
  moved : doc.contains doc.current = false → doc'.IsFirst doc'.current

theorem NewIds.repaired (h : doc.NewIds ids) (hsupply : ∀ id ∈ ids, id ∈ supply)
    (hprofiles : doc.profiles.isEmpty = false) : doc.Repaired supply (doc.repairedWith ids) := by
  have hwith := doc.sameContent_withIds (doc.unidentified.zip ids)
  obtain ⟨hne, hnodup⟩ := identifiedBut_nil_iff.mp h.identifiedBut_nil
  refine {
    content := doc.sameContent_repairedWith ids
    kept := ?_
    replaced := ?_
    ids_ne := hne
    ids_nodup := hnodup
    current := ?_
    moved := ?_ }
  · intro name p hp
    rw [h.hasProfile_iff hp, mem_unidentified_iff hp]
    simp only [not_or, not_exists, not_and]
    rfl
  · intro name p hp hlost
    rw [h.hasProfile_iff hp, not_not] at hlost
    obtain ⟨id, hid, hhas⟩ := h.exists_hasProfile hlost
    exact ⟨id, hsupply id hid, h.not_mem id hid, hhas⟩
  · intro hcurrent
    rw [repairedWith_eq, repairCurrent_eq_self] <;> rw [withIds_current]
    rw [hwith.contains_eq]
    exact hcurrent
  · intro hdangles
    rw [repairedWith_eq]
    refine isFirst_repairCurrent ?_ ?_
    · rw [hwith.contains_eq, withIds_current]
      exact hdangles
    · rw [hwith.isEmpty_eq]
      exact hprofiles

/-- Nothing is left to repair. -/
theorem Repaired.isNormal (h : doc.Repaired supply doc')
    (hprofiles : doc.profiles.isEmpty = false) : doc'.isNormal = true := by
  have hprofiles' : doc'.profiles.isEmpty = false := h.content.isEmpty_eq.trans hprofiles
  refine (isNormal_iff hprofiles').mpr ⟨⟨h.ids_ne, h.ids_nodup⟩, ?_⟩
  cases hcurrent : doc.contains doc.current with
  | true =>
    rw [h.current hcurrent, h.content.contains_eq]
    exact hcurrent
  | false => exact (h.moved hcurrent).1

/-- The profiles whose ids have changed are those that needed one. -/
theorem NewIds.length_unidentified (h : doc.NewIds ids) :
    doc.unidentified.length = (doc.profiles.keys.filter fun name =>
      ((doc.repairedWith ids).profiles.get? name).map Profile.id
        ≠ (doc.profiles.get? name).map Profile.id).length := by
  refine List.Perm.length_eq ?_
  refine (List.perm_ext_iff_of_nodup doc.nodup_unidentified
    (doc.profiles.nodup_keys.filter _)).mpr fun name => ?_
  rw [List.mem_filter, SortedMap.mem_keys, SortedMap.contains_iff, decide_eq_true_iff]
  constructor
  · intro hname
    obtain ⟨p, hp⟩ := exists_of_mem_unidentified hname
    have hlost := mt (h.hasProfile_iff hp).mp (not_not.mpr hname)
    refine ⟨⟨p, hp⟩, fun heq => hlost ?_⟩
    rw [HasProfile, heq, hp, Option.map_some]
  · rintro ⟨⟨p, hp⟩, hchanged⟩
    by_contra hname
    exact hchanged (by rw [h.get?_of_notMem hname])

/-- **Repair changes what is broken and nothing else.** It succeeds if the supply, in which
ids may repeat themselves and be in use already, has as many new ones as there are profiles
that need one. Then the document is `Repaired`; the profiles that were listed beforehand are
as many as those whose ids have changed; the document needed repair exactly if it has
changed; and repairing it once more changes nothing and draws no id. -/
theorem repair_changes_what_is_broken (hprofiles : doc.profiles.isEmpty = false)
    (hsupply : "" ∉ supply) :
    (((doc.normalise drawId).run supply).isSome = true ↔
      doc.unidentified.length ≤ (supply.toFinset \ doc.ids.toFinset).card) ∧
    ∀ doc' rest, (doc.normalise drawId).run supply = some (doc', rest) →
      doc.Repaired supply doc' ∧
      doc.unidentified.length = (doc.profiles.keys.filter fun name =>
        (doc'.profiles.get? name).map Profile.id
          ≠ (doc.profiles.get? name).map Profile.id).length ∧
      (doc.isNormal = false ↔ doc' ≠ doc) ∧
      doc'.isNormal = true ∧
      ∀ more, (doc'.normalise drawId).run more = some (doc', more) := by
  constructor
  · have hrun := congrArg Option.isSome (normalise_drawId doc hsupply)
    rw [Option.isSome_map] at hrun
    rw [hrun, ← length_freshIds]
    split <;> simp [*]
  · intro doc' rest hnormalise
    obtain ⟨ids, hnew, hmem, rfl⟩ := exists_newIds_of_normalise hsupply hnormalise
    have hrepaired := hnew.repaired hmem hprofiles
    have hnormal : (doc.repairedWith ids).isNormal = true := hrepaired.isNormal hprofiles
    refine ⟨hrepaired, hnew.length_unidentified, ?_, hnormal, ?_⟩
    · rw [← Bool.not_eq_true, not_iff_not]
      constructor
      · intro hdoc
        exact repairedWith_of_isNormal hdoc ids
      · intro heq
        exact heq ▸ hnormal
    · intro more
      rw [normalise_eq_pure hnormal]
      rfl

/-- The theorem for four profiles: the second has the id of the first, the third has none,
and the supply begins with ids in use and repeats itself. -/
theorem repair_changes_what_is_broken_of_four :
    let doc : Document :=
      ⟨"z", .ofList [("a", ⟨"x", .empty⟩), ("b", ⟨"x", .empty⟩), ("c", ⟨"", .empty⟩),
        ("d", ⟨"y", .empty⟩)], .empty, .empty⟩
    doc.profiles.isEmpty = false ∧ "" ∉ ["x", "y", "n", "n", "m", "k"] ∧
      ∃ doc', (doc.normalise drawId).run ["x", "y", "n", "n", "m", "k"] = some (doc', ["k"]) ∧
        doc'.ids = ["x", "n", "m", "y"] ∧ doc'.current = "a" ∧
        doc.Repaired ["x", "y", "n", "n", "m", "k"] doc' ∧
        (doc'.normalise drawId).run ["p"] = some (doc', ["p"]) := by
  intro doc
  have hprofiles : doc.profiles.isEmpty = false := by decide
  have hsupply : "" ∉ ["x", "y", "n", "n", "m", "k"] := by decide
  obtain ⟨-, hall⟩ := repair_changes_what_is_broken hprofiles hsupply
  obtain ⟨hrepaired, -, -, -, hagain⟩ := hall _ ["k"] rfl
  exact ⟨hprofiles, hsupply, _, rfl, by decide, by decide, hrepaired, hagain ["p"]⟩

end Document

end SettingProfiles
