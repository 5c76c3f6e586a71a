/-
SettingProfiles.Proofs.Store.Inheriting — what a document inherits from the old settings.

Bringing a document up to date adds settings and does nothing else to it that could be
seen in the settings. Every pending upgrade has settings that it sees to; a profile
without a value for one of them is given the old value in its usable form, or the
default, by the rules of `Proofs.Upgrade.OldValues`. Each of these settings is looked up
once in the old place, and no other is.

  §1 Settings   — `setting?`, and what filling in does to it.
  §2 Old values — `handedDown`: what upgrades fill in, given what was found.
  §3 Looks      — `consulted`: which old settings were looked up, and what was found.
  §4 Upgrades   — `Inherits`, kept by repair and by each upgrade.
  §5 Upgrading  — `upgrading_adds_what_is_lacking`.
-/
import SettingProfiles.Proofs.Store.Importing
import SettingProfiles.Proofs.Upgrade.OldValues
import SettingProfiles.Proofs.Upgrade.Stages

namespace SettingProfiles

open SettingName

variable {doc doc' : Document} {h : History} {s : Surroundings Effect Effect.Answer}

/-! ## §1 Settings -/

namespace Document

/-- The value that the profile of this name has for the setting. -/
def setting? (doc : Document) (name key : String) : Option Setting :=
  (doc.profiles.get? name).bind fun p => p.settings.get? key

theorem setting?_of_contains_eq_false {name : String} (hname : doc.contains name = false)
    (key : String) : doc.setting? name key = none := by
  have habsent : doc.profiles.get? name = none := by
    simpa [contains, SortedMap.contains] using hname
  simp [setting?, habsent]

@[simp] theorem contains_fillMissing (doc : Document) (key : String) (value : Setting)
    (name : String) : (doc.fillMissing key value).contains name = doc.contains name := by
  simp [contains, SortedMap.contains, get?_fillMissing]

/-- A value that is filled in is where none was, and all others are as they were. -/
theorem setting?_fillMissing {name : String} (hname : doc.contains name = true)
    (filled : String) (value : Setting) (key : String) :
    (doc.fillMissing filled value).setting? name key
      = (doc.setting? name key).or (if filled = key then some value else none) := by
  obtain ⟨p, hp⟩ := SortedMap.contains_iff.mp hname
  unfold setting?
  rw [get?_fillMissing, hp, Option.map_some, Option.bind_some, Option.bind_some]
  by_cases hhas : p.settings.contains filled = true
  · obtain ⟨v, hv⟩ := SortedMap.contains_iff.mp hhas
    rw [if_pos hhas]
    split
    · rename_i hkey
      rw [← hkey, hv, Option.or_some, Option.getD_some]
    · rw [Option.or_none]
  · have hlacks : p.settings.get? filled = none := by
      simpa [SortedMap.contains] using hhas
    rw [if_neg hhas]
    show (p.settings.insert filled value).get? key = _
    rw [SortedMap.get?_insert]
    split
    · rename_i hkey
      rw [← hkey, hlacks, Option.none_or]
    · rw [Option.or_none]

end Document

namespace Upgrade

theorem contains_fillAll (doc : Document) (fills : List (String × Setting)) (name : String) :
    (fillAll doc fills).2.contains name = doc.contains name :=
  fillAll_keeps (P := fun d => d.contains name = doc.contains name)
    (fun d key value hd => (d.contains_fillMissing key value name).trans hd) rfl fills

theorem modeBindings_fillAll (doc : Document) (fills : List (String × Setting)) :
    (fillAll doc fills).2.modeBindings = doc.modeBindings :=
  fillAll_keeps (P := fun d => d.modeBindings = doc.modeBindings) (fun _ _ _ hd => hd) rfl fills

/-- Of several values for a setting the first is filled in, if there was none before. -/
theorem setting?_fillAll {name : String} (hname : doc.contains name = true)
    (fills : List (String × Setting)) (key : String) :
    (fillAll doc fills).2.setting? name key
      = (doc.setting? name key).or (fills.lookup key) := by
  induction fills generalizing doc with
  | nil => exact Option.or_none.symm
  | cons fill rest ih =>
    obtain ⟨filled, value⟩ := fill
    have hname' : (doc.fillMissing filled value).contains name = true := by simpa using hname
    show (fillAll (doc.fillMissing filled value) rest).2.setting? name key = _
    rw [ih hname', Document.setting?_fillMissing hname, Option.or_assoc, List.lookup_cons]
    by_cases hkey : filled = key
    · simp [hkey]
    · simp [hkey, beq_eq_false_iff_ne.mpr (Ne.symm hkey)]

end Upgrade

/-! ## §2 Old values -/

namespace LegacyValues

/-- The values that are taken over, given what was found for some settings. -/
def handedDown (found : List (String × Option Setting)) : List (String × Setting) :=
  found.map fun e => (e.1, takenOver e.1 e.2)

theorem lookup_handedDown (found : List (String × Option Setting)) (key : String) :
    (handedDown found).lookup key = (found.lookup key).map (takenOver key) := by
  induction found with
  | nil => rfl
  | cons e found ih =>
    rw [handedDown, List.map_cons, List.lookup_cons, List.lookup_cons, ← handedDown, ih]
    by_cases hkey : key = e.1
    · simp [hkey]
    · simp [beq_eq_false_iff_ne.mpr hkey]

end LegacyValues

open LegacyValues (TakenFrom takenOver handedDown)

namespace Upgrade

/-- What an upgrade fills in is taken over from what the old place holds for each of its
settings. -/
theorem fills_eq_handedDown (u : Upgrade) (legacy : LegacyValues) :
    u.fills legacy = handedDown (u.legacyKeys.map fun key => (key, legacy.get? key)) := by
  cases u <;> rfl

theorem nodup_legacyKeys (u : Upgrade) : u.legacyKeys.Nodup := by cases u <;> decide

/-- No two upgrades see to the same setting. -/
theorem eq_of_mem_legacyKeys {u v : Upgrade} {key : String} (hu : key ∈ u.legacyKeys)
    (hv : key ∈ v.legacyKeys) : u = v := by
  have hshared : ∀ key ∈ u.legacyKeys, key ∈ v.legacyKeys → u = v := by
    cases u <;> cases v <;> decide
  exact hshared key hu hv

end Upgrade

/-! ## §3 Looks -/

/-- The old settings that were looked up, in order, and what was found. -/
def History.consulted (h : History) : List (String × Option Setting) :=
  h.filterMap fun x =>
    match x with
    | ⟨.legacy key, .ok found⟩ => some (key, found)
    | _ => none

@[simp] theorem History.consulted_append (h k : History) :
    consulted (h ++ k) = consulted h ++ consulted k := by
  simp [consulted]

namespace Procedure

/-- Looking settings up finds for each of them what there is. -/
theorem ensures_readLegacy_consulted {keys : List String} (hkeys : keys.Nodup) :
    (readLegacy keys).Ensures s h
      (fun legacy h' =>
        h'.consulted = h.consulted ++ keys.map fun key => (key, legacy.get? key))
      fun _ _ => True := by
  unfold readLegacy
  refine Ensures.mono (ensures_foldlM
    (I := fun rest legacy h' => ∃ done, keys = done ++ rest ∧
      h'.consulted = h.consulted ++ done.map (fun key => (key, legacy.get? key)) ∧
      ∀ key ∉ done, legacy.get? key = none)
    keys ?_ ⟨[], rfl, by simp, fun _ _ => rfl⟩)
    (fun legacy h' ⟨done, hdone, hconsulted, _⟩ => by
      rw [hdone, List.append_nil, hconsulted]) fun _ _ he => he
  rintro next rest legacy h' ⟨done, rfl, hconsulted, hnone⟩
  -- the setting has not been looked up before
  have hnew : next ∉ done := fun hmem =>
    (List.nodup_append.mp hkeys).2.2 next hmem next List.mem_cons_self rfl
  rw [ensures_bind, ensures_legacy]
  cases hlook : s h' (.legacy next) with
  | error p => trivial
  | ok answer =>
    have hdone : ∀ legacy' : LegacyValues, legacy'.get? next = answer →
        (∀ key, key ≠ next → legacy'.get? key = legacy.get? key) →
        ∃ done', done ++ next :: rest = done' ++ rest ∧
          History.consulted (h' ++ [⟨.legacy next, .ok answer⟩])
            = h.consulted ++ done'.map (fun key => (key, legacy'.get? key)) ∧
          ∀ key ∉ done', legacy'.get? key = none := by
      intro legacy' hnext hothers
      have hearlier : done.map (fun key => (key, legacy'.get? key))
          = done.map fun key => (key, legacy.get? key) :=
        List.map_congr_left fun key hkey => by rw [hothers key fun heq => hnew (heq ▸ hkey)]
      refine ⟨done ++ [next], by simp, ?_, fun key hkey => ?_⟩
      · rw [History.consulted_append, hconsulted, List.map_append, hearlier, List.append_assoc,
          List.map_singleton, hnext]
        rfl
      · rw [List.mem_append, not_or, List.mem_singleton] at hkey
        rw [hothers key hkey.2, hnone key hkey.1]
    cases answer with
    | none => exact hdone legacy (hnone next hnew) fun _ _ => rfl
    | some value =>
      refine hdone (legacy.insert next value) (SortedMap.get?_insert_self _ _ _) fun key hkey => ?_
      rw [SortedMap.get?_insert, if_neg (Ne.symm hkey)]

end Procedure

/-! ## §4 Upgrades -/

namespace Document

/-- The second document has inherited the settings that were looked up: it has what the
first has, and where a profile has no value, the one that is taken over. -/
structure Inherits (found : List (String × Option Setting)) (doc doc' : Document) : Prop where
  contains : ∀ name, doc'.contains name = doc.contains name
  modeBindings : doc'.modeBindings = doc.modeBindings
  settings : ∀ name, doc.contains name = true → ∀ key, doc'.setting? name key
    = (doc.setting? name key).or ((found.lookup key).map (takenOver key))

variable {found more : List (String × Option Setting)} {u : Upgrade}

/-- Repair hands nothing down. -/
theorem SameContent.inherits (hsame : doc.SameContent doc') : doc.Inherits [] doc' where
  contains := hsame.contains_eq
  modeBindings := hsame.modeBindings
  settings name _ key := by
    have hsettings := congrArg (Option.bind · fun settings => settings.get? key)
      (hsame.settings name)
    simpa [setting?, Option.bind_map, Function.comp_def] using hsettings

/-- An upgrade hands down what was found for its settings. -/
theorem Inherits.upgraded (hd : doc.Inherits found doc') (upgrade : String) :
    doc.Inherits (found ++ more)
      ((Upgrade.fillAll doc' (handedDown more)).2.markApplied upgrade) where
  contains name := (Upgrade.contains_fillAll doc' _ name).trans (hd.contains name)
  modeBindings := (Upgrade.modeBindings_fillAll doc' _).trans hd.modeBindings
  settings name hname key := by
    have hname' : doc'.contains name = true := (hd.contains name).trans hname
    show (Upgrade.fillAll doc' _).2.setting? name key = _
    rw [Upgrade.setting?_fillAll hname', hd.settings name hname,
      LegacyValues.lookup_handedDown, Option.or_assoc, List.lookup_append, Option.map_or]

/-- The flags of the second document are those of the first, but that these upgrades are
recorded. -/
def Records (us : List Upgrade) (doc doc' : Document) : Prop :=
  ∀ flag, doc'.upgradeFlags.get? flag
    = if flag ∈ us.map Upgrade.name then some true else doc.upgradeFlags.get? flag

theorem Records.upgraded {us : List Upgrade} (hd : doc.Records us doc')
    (fills : List (String × Setting)) (u : Upgrade) :
    doc.Records (us ++ [u]) ((Upgrade.fillAll doc' fills).2.markApplied u.name) := by
  intro flag
  show ((Upgrade.fillAll doc' fills).2.upgradeFlags.insert u.name true).get? flag = _
  rw [SortedMap.get?_insert, Upgrade.fillAll_upgradeFlags, hd flag]
  by_cases hflag : u.name = flag
  · simp [hflag]
  · simp [hflag, Ne.symm hflag]

/-- Once all pending upgrades are recorded, all upgrades are. -/
theorem Records.all_of_pending (hd : doc.Records doc.pending doc') :
    doc.Records Upgrade.all doc' := by
  intro flag
  rw [hd flag]
  by_cases hpending : flag ∈ doc.pending.map Upgrade.name
  · obtain ⟨u, hu, rfl⟩ := List.mem_map.mp hpending
    rw [if_pos hpending, if_pos (List.mem_map_of_mem u.mem_all)]
  · rw [if_neg hpending]
    split
    · rename_i hall
      obtain ⟨u, -, rfl⟩ := List.mem_map.mp hall
      have happlied : doc.isApplied u.name = true := by
        rw [← Bool.not_eq_false, ← mem_pending]
        exact fun hu => hpending (List.mem_map_of_mem hu)
      simpa [isApplied, Option.getD_eq_iff] using happlied
    · rfl

end Document

namespace Procedure

/-- Repair changes ids and the current name at most, whichever ids are drawn. -/
theorem ensures_normalise_sameContent (doc : Document) :
    (doc.normalise freshId).Ensures s h
      (fun d h' => doc.SameContent d ∧ h'.consulted = h.consulted) fun _ _ => False := by
  unfold Document.normalise Document.assignIds
  rw [ensures_bind]
  refine Ensures.mono (ensures_foldlM
    (I := fun _ d h' => doc.SameContent d ∧ h'.consulted = h.consulted) _ ?_
    ⟨.refl doc, rfl⟩) (fun d h' hd => ⟨hd.1.repairCurrent, hd.2⟩) fun _ _ hf => hf
  rintro name names d h' ⟨hsame, hconsulted⟩
  rw [ensures_bind, ensures_freshId, ensures_pure]
  refine ⟨hsame.withId _ _, ?_⟩
  rw [History.consulted_append, hconsulted]
  exact List.append_nil _

/-- An upgrade looks its settings up, hands down what it finds and is recorded. -/
theorem ensures_applyUpgrade_consulted (doc : Document) (u : Upgrade) :
    (doc.applyUpgrade u).Ensures s h
      (fun d h' => ∃ found, found.map Prod.fst = u.legacyKeys ∧
        h'.consulted = h.consulted ++ found ∧
        d = (Upgrade.fillAll doc (handedDown found)).2.markApplied u.name)
      fun _ _ => True := by
  unfold Document.applyUpgrade
  rw [ensures_bind]
  refine (ensures_readLegacy_consulted u.nodup_legacyKeys).mono ?_ fun _ _ he => he
  intro legacy h' hconsulted
  unfold Upgrade.apply
  rw [u.fills_eq_handedDown]
  cases doc.validate with
  | error e => trivial
  | ok _ => exact ⟨_, by simp [Function.comp_def], hconsulted, rfl⟩

/-- What bringing a document up to date does to it: the settings of the pending upgrades
are looked up, and what is found is handed down. -/
theorem ensures_ensureUpgraded_inherits (doc : Document) :
    doc.ensureUpgraded.Ensures s h
      (fun r h' => ∃ found, h'.consulted = h.consulted ++ found ∧
        found.map Prod.fst = doc.pending.flatMap Upgrade.legacyKeys ∧
        doc.Inherits found r.document ∧ doc.Records Upgrade.all r.document)
      fun _ _ => True := by
  refine (ensures_ensureUpgraded_of
    (I := fun us d h' => ∃ done found, doc.pending = done ++ us ∧
      h'.consulted = h.consulted ++ found ∧
      found.map Prod.fst = done.flatMap Upgrade.legacyKeys ∧
      doc.Inherits found d ∧ doc.Records done d) ?_ ?_ ?_).mono ?_ fun _ _ he => he
  · refine (ensures_normalise_sameContent doc).mono ?_ fun _ _ hf => hf.elim
    rintro repaired h' ⟨hsame, hconsulted⟩
    have hpending : doc.pending = repaired.pending := by
      simp [Document.pending, Document.isApplied, hsame.upgradeFlags]
    exact ⟨[], [], hpending, by simpa using hconsulted, rfl, hsame.inherits,
      fun flag => by simp [hsame.upgradeFlags]⟩
  · rintro us d h' stored ⟨done, found, hpending, hconsulted, hrest⟩
    refine ⟨done, found, hpending, ?_, hrest⟩
    rw [History.consulted_append, hconsulted]
    exact List.append_nil _
  · rintro u us d h' ⟨done, found, hpending, hconsulted, hkeys, hinherits, hrecords⟩
    refine (ensures_applyUpgrade_consulted d u).mono ?_ fun _ _ he => he
    rintro next k ⟨more, hmore, hconsulted', rfl⟩
    refine ⟨done ++ [u], found ++ more, by simpa using hpending, ?_, ?_, hinherits.upgraded _,
      hrecords.upgraded _ u⟩
    · rw [hconsulted', hconsulted, List.append_assoc]
    · rw [List.map_append, hkeys, hmore, List.flatMap_append, List.flatMap_singleton]
  · rintro r h' ⟨done, found, hpending, hconsulted, hkeys, hinherits, hrecords⟩
    obtain rfl : doc.pending = done := by simpa using hpending
    exact ⟨found, hconsulted, hkeys, hinherits, hrecords.all_of_pending⟩

/-- Unless a call goes wrong, a valid document can be brought up to date. -/
theorem delivers_ensureUpgraded (hvalid : doc.validate = .ok ()) :
    doc.ensureUpgraded.Delivers fun _ => True := by
  refine (delivers_normalise hvalid).bind fun repaired hrepaired => ?_
  have hupgrades : (repaired.pending.foldlM (fun d u => do
      let next ← d.applyUpgrade u
      persist next
      return next) repaired : Procedure Document).Delivers fun d => d.validate = .ok () :=
    .foldlM _ hrepaired fun d u hd => (delivers_applyUpgrade hd u).bind fun next hnext =>
      (delivers_persist next).bind fun _ _ => .pure hnext
  cases doc.isNormal with
  | true =>
    simp only [if_true]
    exact hupgrades.bind fun _ _ => .pure trivial
  | false =>
    simp only [if_false, Bool.false_eq_true]
    exact (delivers_persist repaired).bind fun _ _ => hupgrades.bind fun _ _ => .pure trivial

end Procedure

/-! ## §5 Upgrading -/

/-- The surroundings, with these values as the old settings. -/
def Surroundings.withOld (s : Surroundings Effect Effect.Answer) (old : LegacyValues) :
    Surroundings Effect Effect.Answer :=
  fun (h : History) q =>
    match q with
    | .legacy key => .ok (old.get? key)
    | .get => s h .get
    | .set text => s h (.set text)
    | .delete => s h .delete
    | .freshId inUse => s h (.freshId inUse)
    | .publish e => s h (.publish e)

namespace Document

/-- What a profile of the document inherits if it has no value for the setting, given what
the old place holds: nothing, unless the setting is one of a pending upgrade. -/
def inherited? (old : String → Option Setting) (doc : Document) (key : String) :
    Option Setting :=
  if key ∈ doc.pending.flatMap Upgrade.legacyKeys then some (takenOver key (old key)) else none

theorem nodup_pending_legacyKeys (doc : Document) :
    (doc.pending.flatMap Upgrade.legacyKeys).Nodup := by
  refine List.nodup_flatMap.mpr ⟨fun u _ => u.nodup_legacyKeys, doc.nodup_pending.imp ?_⟩
  intro u v hne key hu hv
  exact hne (Upgrade.eq_of_mem_legacyKeys hu hv)

theorem inherited?_eq_none_of_isApplied {u : Upgrade} (hu : doc.isApplied u.name = true)
    {key : String} (hkey : key ∈ u.legacyKeys) (old : String → Option Setting) :
    doc.inherited? old key = none := by
  refine if_neg fun hmem => ?_
  obtain ⟨v, hv, hkey'⟩ := List.mem_flatMap.mp hmem
  obtain rfl : u = v := Upgrade.eq_of_mem_legacyKeys hkey hkey'
  rw [mem_pending, hu] at hv
  cases hv

/-- What is inherited are the values that are taken by the rules for the settings of pending
upgrades. -/
theorem inherited?_eq_some_iff {old : String → Option Setting} {key : String} {value : Setting} :
    doc.inherited? old key = some value ↔
      key ∈ doc.pending.flatMap Upgrade.legacyKeys ∧ TakenFrom key (old key) value := by
  by_cases hkey : key ∈ doc.pending.flatMap Upgrade.legacyKeys
  · obtain ⟨u, -, hu⟩ := List.mem_flatMap.mp hkey
    have htaken := LegacyValues.takenFrom_takenOver hu (old key)
    rw [inherited?, if_pos hkey, Option.some_inj]
    exact ⟨fun heq => ⟨hkey, heq ▸ htaken⟩, fun hrule => htaken.unique hrule.2⟩
  · rw [inherited?, if_neg hkey]
    exact ⟨nofun, fun hrule => absurd hrule.1 hkey⟩

/-- Where every setting was looked up once, the old place may as well have been a function
of the setting. -/
theorem exists_old_of_nodup {found : List (String × Option Setting)}
    (hnodup : (found.map Prod.fst).Nodup) :
    ∃ old : String → Option Setting,
      found = (found.map Prod.fst).map fun key => (key, old key) := by
  refine ⟨fun key => (found.lookup key).join, ?_⟩
  induction found with
  | nil => rfl
  | cons e rest ih =>
    obtain ⟨first, value⟩ := e
    obtain ⟨hfirst, hrest⟩ := List.nodup_cons.mp hnodup
    have hlater : ∀ key ∈ rest.map Prod.fst,
        ((first, value) :: rest).lookup key = rest.lookup key := by
      intro key hkey
      have hne : key ≠ first := fun heq => hfirst (heq ▸ hkey)
      rw [List.lookup_cons, beq_eq_false_iff_ne.mpr hne]
    rw [List.map_cons, List.map_cons, List.map_congr_left fun key hkey =>
      congrArg (fun found => (key, found.join)) (hlater key hkey), ← ih hrest]
    show _ = (first, (List.lookup first ((first, value) :: rest)).join) :: rest
    rw [List.lookup_cons_self, Option.join_some]

theorem lookup_map_old (old : String → Option Setting) (keys : List String) (key : String) :
    (keys.map fun key => (key, old key)).lookup key
      = if key ∈ keys then some (old key) else none := by
  split
  · rename_i hkey
    exact List.lookup_graph old hkey
  · rename_i hkey
    rw [List.lookup_eq_none_iff]
    intro e he
    obtain ⟨k, hk, rfl⟩ := List.mem_map.mp he
    exact bne_iff_ne.mpr fun heq => hkey (heq ▸ hk)

/-- What a document inherits, in terms of what the old place holds. -/
theorem Inherits.setting?_eq {old : String → Option Setting}
    (hd : doc.Inherits ((doc.pending.flatMap Upgrade.legacyKeys).map fun key => (key, old key))
      doc')
    {name : String} (hname : doc.contains name = true) (key : String) :
    doc'.setting? name key = (doc.setting? name key).or (doc.inherited? old key) := by
  rw [hd.settings name hname key, lookup_map_old, inherited?]
  split <;> rfl

/-- **Bringing a document up to date adds the settings that it lacks and changes no other.**
Let the document be valid and no call go wrong. Then it is brought up to date, and what
comes out has the same profile names and mode bindings; its flags are the same, but that
every upgrade is recorded. The settings of the pending upgrades are looked up in the old
place, each once and in order, and no others. A profile has the settings that it had, and
besides, for each of those settings that it lacked, what was found in its usable form, or
the default: the one value that the rules of `TakenFrom` allow. So no value that was there
is lost or replaced, and no setting is added that an upgrade sees to which was recorded
before. -/
theorem upgrading_adds_what_is_lacking (hvalid : doc.validate = .ok ())
    (huntroubled : History.Untroubled (doc.ensureUpgraded.run.converse s []).2) :
    let run := doc.ensureUpgraded.run.converse s []
    ∃ (r : Upgraded) (old : String → Option Setting), run.1 = .ok r ∧
      (∀ name, r.document.contains name = doc.contains name) ∧
      r.document.modeBindings = doc.modeBindings ∧
      (∀ flag, r.document.upgradeFlags.get? flag
        = if flag ∈ Upgrade.all.map Upgrade.name then some true
          else doc.upgradeFlags.get? flag) ∧
      History.consulted run.2
        = (doc.pending.flatMap Upgrade.legacyKeys).map (fun key => (key, old key)) ∧
      (∀ name, doc.contains name = true → ∀ key, r.document.setting? name key
        = (doc.setting? name key).or (doc.inherited? old key)) ∧
      (∀ key value, doc.inherited? old key = some value ↔
        key ∈ doc.pending.flatMap Upgrade.legacyKeys ∧ TakenFrom key (old key) value) ∧
      (∀ name key value, doc.setting? name key = some value →
        r.document.setting? name key = some value) ∧
      ∀ u : Upgrade, doc.isApplied u.name = true → ∀ key ∈ u.legacyKeys, ∀ name,
        r.document.setting? name key = doc.setting? name key := by
  intro run
  have hends := (Procedure.ensures_ensureUpgraded_inherits (s := s) (h := []) doc).and
    (Procedure.delivers_ensureUpgraded hvalid).ensures
  obtain ⟨r, h', hrun, ⟨found, hconsulted, hkeys, hinherits, hrecords⟩, -⟩ |
    ⟨e, h', hrun, -, htrouble⟩ := hends.ok_or_error
  · obtain ⟨old, hold⟩ := exists_old_of_nodup (hkeys ▸ doc.nodup_pending_legacyKeys)
    rw [hkeys] at hold
    -- also for names that no profile has, so that the last two parts are cases of it
    have hsettings : ∀ name key, r.document.setting? name key
        = (doc.setting? name key).or
          (if doc.contains name = true then doc.inherited? old key else none) := by
      intro name key
      split
      · rename_i hname
        exact (hold ▸ hinherits).setting?_eq hname key
      · rename_i hname
        rw [Bool.not_eq_true] at hname
        rw [setting?_of_contains_eq_false hname,
          setting?_of_contains_eq_false ((hinherits.contains name).trans hname)]
        rfl
    refine ⟨r, old, congrArg Prod.fst hrun, hinherits.contains, hinherits.modeBindings, hrecords,
      ?_, ?_, fun _ _ => inherited?_eq_some_iff, ?_, ?_⟩
    · have hlooks : History.consulted run.2 = History.consulted h' :=
        congrArg (fun x => History.consulted x.2) hrun
      rw [hlooks, hconsulted, hold]
      rfl
    · intro name hname key
      rw [hsettings, if_pos hname]
    · intro name key value hvalue
      rw [hsettings, hvalue, Option.some_or]
    · intro u hu key hkey name
      rw [hsettings, inherited?_eq_none_of_isApplied hu hkey, ite_self, Option.or_none]
  · rw [hrun] at huntroubled
    exact absurd huntroubled htrouble

/-- The theorem for a document in which only the upgrade of the diff settings is recorded:
the old rate limit is taken over, and whether diffs were enabled is not looked up. -/
theorem upgrading_adds_what_is_lacking_withOld :
    let doc : Document := { Document.new "i" with
      upgradeFlags := .insert .empty Upgrade.diffSettings.name true };
    let old : LegacyValues :=
      .insert (.insert .empty rateLimitSeconds (.integer 7)) diffEnabled (.bool false);
    let run := doc.ensureUpgraded.run.converse ((ordinary none).withOld old) [];
    doc.validate = .ok () ∧ History.Untroubled run.2 ∧
      ∃ r, run.1 = .ok r ∧
        History.consulted run.2 = [(rateLimitSeconds, some (.integer 7))] ∧
        r.document.setting? doc.current rateLimitSeconds = some (.integer 7) ∧
        r.document.setting? doc.current diffEnabled = none := by
  intro doc old run
  have hvalid : doc.validate = .ok () := by decide +kernel
  have huntroubled : History.Untroubled run.2 :=
    Program.untroubled (fun _ q => by cases q <;> rfl) _ (by simp [History.Untroubled])
  obtain ⟨r, found, hrun, -, -, -, hconsulted, hsettings, hinherited, -, hkept⟩ :=
    upgrading_adds_what_is_lacking hvalid huntroubled
  have hpending : doc.pending = [.rateLimit] := by decide
  have hlook : History.consulted run.2 = [(rateLimitSeconds, some (.integer 7))] := by
    decide +kernel
  have hfound : found rateLimitSeconds = some (.integer 7) := by
    rw [hconsulted, hpending] at hlook
    exact congrArg Prod.snd (List.cons.inj hlook).1
  have hcurrent : doc.contains doc.current = true := by decide +kernel
  have hlacks : ∀ key ∈ [rateLimitSeconds, diffEnabled],
      doc.setting? doc.current key = none := by decide +kernel
  refine ⟨hvalid, huntroubled, r, hrun, hlook, ?_, ?_⟩
  · rw [hsettings _ hcurrent, hlacks _ (by simp), Option.none_or, hinherited, hpending, hfound]
    exact ⟨by decide, .rateLimit (.integer (by decide))⟩
  · exact (hkept .diffSettings (by decide) _ (by decide) _).trans (hlacks _ (by simp))

end Document

end SettingProfiles
