/-
SettingProfiles.Proofs.Store.Detached — storing on the way, or not.

A document is brought up to date in two ways: one stores it after every change, the
other stores nothing. As long as the storage does not fail they come to the same. What
the first stores is the repaired document, if there was anything to repair, and then
the document after each upgrade.

  §1 Repair        — changes every document that needs it.
  §2 Upgrades      — `upgradedInTurn`: the documents that they lead to.
  §3 `StoresAlong` — a procedure beside one that stores on the way.
  §4 Both ways     — `upgrading_agrees_with_detached`.
-/
import SettingProfiles.Proofs.Document.Ids
import SettingProfiles.Proofs.Store.Importing
import SettingProfiles.Proofs.Store.KeptDocument

namespace SettingProfiles

variable {text : Option String} {src : Surroundings Effect Effect.Answer} {h h' : History}
  {doc : Document} {α β : Type}

/-! ## §1 Repair -/

namespace Document

/-- The profiles that need an id of their own have another one in `d`, those of the
given names apart, which are as they were. -/
structure ReidentifiedBut (doc d : Document) (names : List String) : Prop where
  nodup : names.Nodup
  same : ∀ name ∈ names, d.profiles.get? name = doc.profiles.get? name
  changed : ∀ name ∈ doc.unidentified, name ∉ names →
    d.profiles.get? name ≠ doc.profiles.get? name

theorem reidentifiedBut_unidentified (doc : Document) :
    doc.ReidentifiedBut doc doc.unidentified :=
  ⟨doc.nodup_unidentified, fun _ _ => rfl, fun _ hname hnot => absurd hname hnot⟩

/-- The id of the next profile is in use, so an id that is not is another one. -/
theorem ReidentifiedBut.withId {d : Document} {first id : String} {names : List String}
    (hd : doc.ReidentifiedBut d (first :: names)) (hid : id ∉ d.ids) :
    doc.ReidentifiedBut (d.withId first id) names := by
  obtain ⟨hfirst, hnames⟩ := List.nodup_cons.mp hd.nodup
  refine ⟨hnames, fun name hname => ?_, fun name hname hnot => ?_⟩
  · have hne : first ≠ name := fun heq => hfirst (heq ▸ hname)
    rw [get?_withId, ← hd.same name (List.mem_cons_of_mem _ hname)]
    simp [hne]
  · rw [get?_withId]
    by_cases heq : first = name
    · subst heq
      obtain ⟨p, hp⟩ := exists_of_mem_unidentified hname
      have hsame : d.profiles.get? first = some p := (hd.same first List.mem_cons_self).trans hp
      rw [hsame, hp, Option.map_some, if_pos rfl]
      intro hreplaced
      have hold : id = p.id := congrArg Profile.id (Option.some.inj hreplaced)
      exact hid (hold ▸ mem_ids.mpr ⟨first, p, hsame, rfl⟩)
    · have hnot' : name ∉ first :: names := by simp [Ne.symm heq, hnot]
      simpa [heq] using hd.changed name hname hnot'

end Document

namespace Procedure

/-- Every profile without an id of its own gets another one. -/
theorem ensures_assignIds_reidentified (hdraws : ∀ h inUse, src h (.freshId inUse) ∉ inUse)
    (doc : Document) :
    (doc.assignIds freshId).Ensures src h (fun d _ => doc.ReidentifiedBut d [])
      fun _ _ => False := by
  unfold Document.assignIds
  refine ensures_foldlM (I := fun names d _ => doc.ReidentifiedBut d names) _ ?_
    doc.reidentifiedBut_unidentified
  intro name names d h' hd
  rw [ensures_bind, ensures_freshId, ensures_pure]
  exact hd.withId (hdraws h' d.ids)

/-- Repair changes the documents that need it and no others. -/
theorem ensures_normalise_changed (hdraws : ∀ h inUse, src h (.freshId inUse) ∉ inUse)
    (doc : Document) :
    (doc.normalise freshId).Ensures src h (fun d _ => doc.isNormal = true ↔ d = doc)
      fun _ _ => False := by
  by_cases hnormal : doc.isNormal = true
  · rw [Document.normalise_eq_pure hnormal, ensures_pure]
    exact ⟨fun _ => rfl, fun _ => hnormal⟩
  · unfold Document.normalise
    rw [ensures_bind]
    cases hnames : doc.unidentified with
    | nil =>
      have hdangles : doc.currentDangles = true := by
        simpa [Document.isNormal, hnames] using hnormal
      obtain ⟨hdangling, hprofiles⟩ : doc.profiles.contains doc.current = false ∧
          doc.profiles.isEmpty = false := by simpa [Document.currentDangles] using hdangles
      simp only [Document.assignIds, hnames, List.foldlM_nil, ensures_pure]
      refine iff_of_false hnormal fun hsame => ?_
      have hcurrent := Document.contains_current_repairCurrent hprofiles
      rw [hsame, hdangling] at hcurrent
      cases hcurrent
    | cons first names =>
      refine (ensures_assignIds_reidentified hdraws doc).mono (fun d _ hd => ?_) fun _ _ hf => hf
      refine iff_of_false hnormal fun hsame => ?_
      refine hd.changed first (by simp [hnames]) List.not_mem_nil ?_
      rw [← hsame, Document.repairCurrent_profiles]

end Procedure

/-! ## §2 Upgrades -/

namespace Document

/-- The documents that the upgrades lead to, one after the other, up to the first
upgrade that fails. -/
def upgradedInTurn (src : Surroundings Effect Effect.Answer) :
    List Upgrade → Document → History → List Document
  | [], _, _ => []
  | u :: us, doc, h =>
    match (doc.applyUpgrade u).run.converse src h with
    | (.ok next, h') => next :: upgradedInTurn src us next h'
    | (.error _, _) => []

end Document

namespace Procedure

/-- An upgrade fails with what the document lacks, or because a call goes wrong. -/
theorem ensures_applyUpgrade_error (doc : Document) (u : Upgrade) :
    (doc.applyUpgrade u).Ensures src h (fun _ _ => True)
      fun e h' => h'.Untroubled → ∃ d, e = .upgrade u d := by
  unfold Document.applyUpgrade
  rw [ensures_bind]
  refine (delivers_readLegacy u.legacyKeys).ensures.mono ?_
    fun e h' htrouble huntroubled => absurd huntroubled htrouble
  intro legacy h' _
  cases u.apply legacy doc with
  | ok _ => trivial
  | error d => exact fun _ => ⟨d, rfl⟩

/-- Upgrades lead to the last of the documents, or to the first upgrade that fails. -/
theorem ensures_upgrades (us : List Upgrade) (doc : Document) (h : History) :
    (us.foldlM Document.applyUpgrade doc).Ensures src h
      (fun d _ => (doc.upgradedInTurn src us h).length = us.length ∧
        d = (doc.upgradedInTurn src us h).getLastD doc)
      fun e h' => h'.Untroubled →
        ∃ u d, e = .upgrade u d ∧ us[(doc.upgradedInTurn src us h).length]? = some u := by
  induction us generalizing doc h with
  | nil => exact ⟨rfl, rfl⟩
  | cons u us ih =>
    rw [List.foldlM_cons, ensures_bind]
    refine ((ensures_converse _).and (ensures_applyUpgrade_error doc u)).mono ?_ ?_
    · rintro next h' ⟨hrun, -⟩
      have hturn : doc.upgradedInTurn src (u :: us) h = next :: next.upgradedInTurn src us h' := by
        rw [Document.upgradedInTurn, hrun]
      rw [hturn]
      refine (ih next h').mono ?_ ?_
      · rintro d _ ⟨hlength, rfl⟩
        exact ⟨congrArg (· + 1) hlength, by rw [List.getLastD_cons]⟩
      · rintro e h'' herror huntroubled
        exact herror huntroubled
    · rintro e h' ⟨hrun, herror⟩ huntroubled
      have hturn : doc.upgradedInTurn src (u :: us) h = [] := by
        rw [Document.upgradedInTurn, hrun]
      obtain ⟨d, rfl⟩ := herror huntroubled
      rw [hturn]
      exact ⟨u, d, rfl, rfl⟩

end Procedure

/-! ## §3 `StoresAlong` -/

/-- What a procedure came to that stored the documents on the way, beside what one came
to that stored nothing. -/
structure StoresAlong (h : History) (docs : List Document)
    (along plain : Except StoreError α × History) : Prop where
  result : along.1 = plain.1
  outside : along.2.outside = plain.2
  storageCalls : along.2.storageCalls = h.storageCalls ++ docs.map fun d => .set d.encode

theorem StoresAlong.of_ok {docs : List Document} {along : Except StoreError α × History} {a : α}
    (hs : StoresAlong h docs along (.ok a, h')) :
    ∃ k : History, along = (.ok a, k) ∧ k.outside = h' ∧
      k.storageCalls = h.storageCalls ++ docs.map fun d => .set d.encode :=
  ⟨along.2, Prod.ext hs.result rfl, hs.outside, hs.storageCalls⟩

namespace Procedure

theorem converse_map {s : Surroundings Effect Effect.Answer} {p : Procedure α}
    {r : Except StoreError α} (f : α → β) (hp : p.run.converse s h = (r, h')) :
    (p >>= fun a => pure (f a)).run.converse s h = (r.map f, h') := by
  cases r with
  | ok a => exact converse_bind_ok hp
  | error e => exact converse_bind_error hp

theorem converse_persist (doc : Document) (h : History) :
    (persist doc).run.converse (onText text src) h
      = (.ok (), h ++ [⟨.set doc.encode, .ok ()⟩]) := rfl

/-- What does not call the storage comes to the same with it and without. -/
theorem storesAlong_of_outside {p : Procedure α} (hp : p.FailStop Effect.isOutside)
    (text : Option String) (src : Surroundings Effect Effect.Answer) (h : History) :
    StoresAlong h [] (p.run.converse (onText text src) h) (p.run.converse src h.outside) := by
  unfold FailStop at hp
  generalize p.run = tree at hp ⊢
  induction hp generalizing h with
  | done r => exact ⟨rfl, rfl, by simp⟩
  | @ask q next hq _ _ ih =>
    have hstorage : q.isStorage = false := by simpa [Effect.isOutside] using hq
    rw [Program.converse_ask, Program.converse_ask, onText_of_isOutside hq,
      ← History.outside_snoc (x := ⟨q, src h.outside q⟩) hq]
    obtain ⟨hresult, houtside, hcalls⟩ := ih (src h.outside q) (h ++ [⟨q, src h.outside q⟩])
    refine ⟨hresult, houtside, hcalls.trans ?_⟩
    simp [History.storageCalls, hstorage]

/-- Upgrades that are stored one after the other come to what they come to otherwise. -/
theorem storesAlong_upgrades (text : Option String) (src : Surroundings Effect Effect.Answer)
    (us : List Upgrade) (doc : Document) (h : History) :
    StoresAlong h (doc.upgradedInTurn src us h.outside)
      ((us.foldlM (fun d u => do
        let next ← d.applyUpgrade u
        persist next
        return next) doc : Procedure Document).run.converse (onText text src) h)
      ((us.foldlM Document.applyUpgrade doc : Procedure Document).run.converse src h.outside) := by
  induction us generalizing doc h with
  | nil => exact ⟨rfl, rfl, by simp [Document.upgradedInTurn]⟩
  | cons u us ih =>
    have happly := storesAlong_of_outside (failStop_applyUpgrade doc u).outside text src h
    rw [List.foldlM_cons, List.foldlM_cons, bind_assoc, Document.upgradedInTurn]
    generalize hplain : (doc.applyUpgrade u).run.converse src h.outside = plain at happly ⊢
    generalize hstored : (doc.applyUpgrade u).run.converse (onText text src) h = along at happly
    obtain ⟨r, h'⟩ := along
    obtain ⟨_, g⟩ := plain
    obtain ⟨rfl, rfl, hcalls⟩ := happly
    cases r with
    | error e =>
      rw [converse_bind_error hplain, converse_bind_error hstored]
      exact ⟨rfl, rfl, hcalls⟩
    | ok next =>
      rw [converse_bind_ok hplain, converse_bind_ok hstored, bind_assoc,
        converse_bind_ok (converse_persist next h'), pure_bind]
      obtain ⟨hresult, houtside, hcalls'⟩ := ih next (h' ++ [⟨.set next.encode, .ok ()⟩])
      rw [History.outside_snoc_storage rfl] at hresult houtside hcalls'
      refine ⟨hresult, houtside, hcalls'.trans ?_⟩
      rw [History.storageCalls_append, hcalls, List.map_nil, List.append_nil, List.append_assoc]
      rfl

end Procedure

/-! ## §4 Both ways -/

namespace History

/-- The history after repair: the repaired document is stored if there was anything to
repair. -/
def withRepaired (h : History) (doc repaired : Document) : History :=
  if doc.isNormal then h else h ++ [⟨.set repaired.encode, .ok ()⟩]

theorem outside_withRepaired (h : History) (doc repaired : Document) :
    (h.withRepaired doc repaired).outside = h.outside := by
  unfold withRepaired
  split
  · rfl
  · exact outside_snoc_storage rfl

theorem storageCalls_withRepaired {repaired : Document}
    (hchanged : doc.isNormal = true ↔ repaired = doc) (h : History) :
    (h.withRepaired doc repaired).storageCalls = h.storageCalls
      ++ (if repaired = doc then [] else [repaired]).map fun d => .set d.encode := by
  unfold withRepaired
  by_cases hsame : repaired = doc
  · rw [if_pos (hchanged.mpr hsame), if_pos hsame, List.map_nil, List.append_nil]
  · rw [if_neg (mt hchanged.mp hsame), if_neg hsame, storageCalls_append]
    rfl

end History

namespace Document

theorem converse_ensureUpgraded {repaired : Document} {r : Except StoreError Document}
    {k : History}
    (hrepair : (doc.normalise Procedure.freshId : Procedure Document).run.converse
      (onText text src) h = (.ok repaired, h'))
    (hupgrades : (repaired.pending.foldlM (fun d u => do
        let next ← d.applyUpgrade u
        Procedure.persist next
        return next) repaired : Procedure Document).run.converse (onText text src)
          (h'.withRepaired doc repaired) = (r, k)) :
    doc.ensureUpgraded.run.converse (onText text src) h =
      (r.map fun final => ⟨final, repaired.pending,
        (if doc.isNormal then 0 else 1) + repaired.pending.length⟩, k) := by
  unfold ensureUpgraded
  unfold History.withRepaired at hupgrades
  rw [Procedure.converse_bind_ok hrepair]
  cases hnormal : doc.isNormal with
  | true =>
    rw [hnormal] at hupgrades
    exact Procedure.converse_map _ hupgrades
  | false =>
    rw [hnormal] at hupgrades
    simp only [Bool.false_eq_true, if_false] at hupgrades ⊢
    rw [Procedure.converse_bind_ok (Procedure.converse_persist repaired h')]
    exact Procedure.converse_map _ hupgrades

theorem converse_upgradeDetached {s : Surroundings Effect Effect.Answer} {repaired : Document}
    {r : Except StoreError Document} {k : History}
    (hrepair : (doc.normalise Procedure.freshId : Procedure Document).run.converse s h
      = (.ok repaired, h'))
    (hupgrades : (repaired.pending.foldlM applyUpgrade repaired : Procedure Document).run.converse
      s h' = (r, k)) :
    doc.upgradeDetached.run.converse s h
      = (r.map fun final => ⟨final, repaired.pending, 0⟩, k) := by
  unfold upgradeDetached
  rw [Procedure.converse_bind_ok hrepair]
  exact Procedure.converse_map _ hupgrades

/-- What upgrading without the storage comes to, in terms of the documents after each
upgrade. -/
theorem ensures_upgradeDetached_turns {repaired : Document}
    (hrepair : (doc.normalise Procedure.freshId : Procedure Document).run.converse src h
      = (.ok repaired, h')) :
    let turns := repaired.upgradedInTurn src repaired.pending h'
    doc.upgradeDetached.Ensures src h
      (fun r _ => r.applied = repaired.pending ∧ r.applied.length = turns.length ∧
        r.document = turns.getLastD repaired)
      fun e h'' => History.Untroubled h'' →
        ∃ u d, e = .upgrade u d ∧ repaired.pending[turns.length]? = some u := by
  intro turns
  unfold upgradeDetached
  rw [Procedure.ensures_bind]
  refine (Procedure.ensures_iff_of_ok hrepair).mpr ?_
  rw [Procedure.ensures_bind]
  refine (Procedure.ensures_upgrades repaired.pending repaired h').mono ?_ fun _ _ he => he
  rintro final h'' ⟨hlength, hlast⟩
  exact ⟨rfl, hlength.symm, hlast⟩

/-- What is stored on the way is the repaired document, if it is another one, and then
the document after each upgrade. -/
theorem storesAlong_ensureUpgraded {repaired : Document}
    (hchanged : doc.isNormal = true ↔ repaired = doc)
    (hrepair : (doc.normalise Procedure.freshId : Procedure Document).run.converse src h.outside
      = (.ok repaired, h')) :
    let detached := doc.upgradeDetached.run.converse src h.outside
    StoresAlong h
      ((if repaired = doc then [] else [repaired]) ++
        repaired.upgradedInTurn src repaired.pending h')
      (doc.ensureUpgraded.run.converse (onText text src) h)
      (detached.1.map fun r =>
        ⟨r.document, r.applied, (if repaired = doc then 0 else 1) + r.applied.length⟩,
        detached.2) := by
  have hdrawn := Procedure.storesAlong_of_outside (Procedure.failStop_normalise doc).outside
    text src h
  rw [hrepair] at hdrawn
  obtain ⟨k, hrepair', rfl, hcalls⟩ := hdrawn.of_ok
  have hupgrades := Procedure.storesAlong_upgrades text src repaired.pending repaired
    (k.withRepaired doc repaired)
  rw [History.outside_withRepaired] at hupgrades
  generalize hstored : Program.converse (onText text src) _ _ = along at hupgrades
  generalize hplain : Program.converse src _ k.outside = plain at hupgrades
  obtain ⟨r, final⟩ := along
  obtain ⟨_, _⟩ := plain
  obtain ⟨rfl, rfl, hcalls'⟩ := hupgrades
  rw [converse_ensureUpgraded hrepair' hstored, converse_upgradeDetached hrepair hplain]
  refine ⟨?_, rfl, ?_⟩
  · simp only [hchanged]
    cases r <;> rfl
  · rw [hcalls', History.storageCalls_withRepaired hchanged, hcalls, List.map_nil,
      List.append_nil, List.map_append, List.append_assoc]

/-- **Storing on the way changes nothing but what is stored.** A document is brought up
to date in two ways: it is stored after every change, in a storage that does not fail,
or it is not stored at all. Whatever the document is, whatever the old settings are and
whichever ids are drawn, both ways ask the same of the old settings and of the source of
ids, in the same order. Either both return, and then the same document and the same
upgrades; or both fail with the same error, and if no look at an old setting went wrong,
it is that of the upgrade whose turn it was.

What is stored, in this order, is the repaired document, if repair changed anything, and
then the document after each upgrade that was applied. The number of writes that is
returned counts these documents, and the document that is returned is the last of them,
or the one given if there is none. -/
theorem upgrading_agrees_with_detached
    (hdraws : ∀ (h : History) (inUse : List String), src h (.freshId inUse) ∉ inUse)
    (text : Option String) (doc : Document) :
    let along := doc.ensureUpgraded.run.converse (onText text src) []
    let detached := doc.upgradeDetached.run.converse src []
    ∃ (repaired : Document) (drawn : History),
      (doc.normalise Procedure.freshId : Procedure Document).run.converse src []
        = (.ok repaired, drawn) ∧
      let turns := repaired.upgradedInTurn src repaired.pending drawn
      let written := (if repaired = doc then [] else [repaired]) ++ turns
      History.outside along.2 = detached.2 ∧
      History.storageCalls along.2 = written.map (fun d => .set d.encode) ∧
      ((∃ r r', along.1 = .ok r ∧ detached.1 = .ok r' ∧
          r.document = r'.document ∧ r.applied = r'.applied ∧
          r.applied = repaired.pending ∧ r.applied.length = turns.length ∧
          r.writes = (if repaired = doc then 0 else 1) + r.applied.length ∧
          r.document = written.getLastD doc) ∨
        ∃ e, along.1 = .error e ∧ detached.1 = .error e ∧
          (History.Untroubled detached.2 →
            ∃ u d, e = .upgrade u d ∧ repaired.pending[turns.length]? = some u)) := by
  intro along detached
  obtain ⟨repaired, drawn, hrepair, hchanged⟩ :=
    (Procedure.ensures_normalise_changed (h := []) hdraws doc).exists_ok
  refine ⟨repaired, drawn, hrepair, ?_⟩
  intro turns written
  have halong : StoresAlong [] written along (detached.1.map fun r =>
      ⟨r.document, r.applied, (if repaired = doc then 0 else 1) + r.applied.length⟩, detached.2) :=
    storesAlong_ensureUpgraded (h := []) hchanged hrepair
  refine ⟨halong.outside, halong.storageCalls, ?_⟩
  have hresult := halong.result
  obtain ⟨r, k, hrun, happlied, hlength, hlast⟩ | ⟨e, k, hrun, herror⟩ :=
    (ensures_upgradeDetached_turns hrepair).ok_or_error
  · have hdetached : detached = (.ok r, k) := hrun
    rw [hdetached] at hresult ⊢
    refine .inl ⟨_, r, hresult, rfl, rfl, rfl, happlied, hlength, rfl, hlast.trans ?_⟩
    show turns.getLastD repaired
      = ((if repaired = doc then [] else [repaired]) ++ turns).getLastD doc
    by_cases hsame : repaired = doc
    · rw [if_pos hsame, List.nil_append, hsame]
    · rw [if_neg hsame, List.singleton_append, List.getLastD_cons]
  · have hdetached : detached = (.error e, k) := hrun
    rw [hdetached] at hresult ⊢
    exact .inr ⟨e, hresult, rfl, herror⟩

/-- The theorem for a document with a profile that has no id, which records no upgrade. -/
theorem upgrading_agrees_with_detached_ordinary :
    let doc : Document := { Document.new "" with upgradeFlags := .empty };
    let along := doc.ensureUpgraded.run.converse (onText none (ordinary none)) [];
    let detached := doc.upgradeDetached.run.converse (ordinary none) [];
    (∀ (h : History) (inUse : List String), ordinary none h (.freshId inUse) ∉ inUse) ∧
      History.outside along.2 = detached.2 ∧
      ∃ r r', along.1 = .ok r ∧ detached.1 = .ok r' ∧ r.document = r'.document ∧
        r'.applied = Upgrade.all ∧ r.writes = 3 := by
  intro doc along detached
  have hdraws : ∀ (h : History) (inUse : List String), ordinary none h (.freshId inUse) ∉ inUse :=
    fun _ inUse => longerId_not_mem inUse
  obtain ⟨repaired, drawn, -, houtside, -, hends⟩ :=
    upgrading_agrees_with_detached hdraws none doc
  have hcomesTo : along.1.toOption.map (fun r => (r.applied, r.writes))
      = some (Upgrade.all, 3) := by decide +kernel
  refine ⟨hdraws, houtside, ?_⟩
  obtain ⟨r, r', hr, hr', hdocument, happlied, -⟩ | ⟨e, he, -⟩ := hends
  · rw [hr] at hcomesTo
    obtain ⟨hall, hwrites⟩ := Prod.ext_iff.mp (Option.some.inj hcomesTo)
    exact ⟨r, r', hr, hr', hdocument, happlied.symm.trans hall, hwrites⟩
  · rw [he] at hcomesTo
    cases hcomesTo

end Document

end SettingProfiles
