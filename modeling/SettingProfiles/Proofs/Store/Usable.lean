/-
SettingProfiles.Proofs.Store.Usable — what is taken over from the old settings is
usable.

Old settings are looked up in two places only, when an upgrade is applied and when a
profile is saved without a rate limit. Whatever the old place holds, both take values
over by the same rules, those of `Proofs.Upgrade.OldValues`.

  §1 Looks     — upgrades and saving, in terms of what was looked up.
  §2 The whole — `inherited_values_are_usable`.
-/
import SettingProfiles.Proofs.Store.Saving

namespace SettingProfiles

open SettingName

open LegacyValues (TakenFrom handedDown takenFrom_takenOver)

/-! ## §1 Looks -/

variable {looks : List (String × Option Setting)} {doc doc' : Document} {h : History}
  {s : Surroundings Effect Effect.Answer}

namespace Document

/-- Whatever setting the second document has and the first has not, it is taken from what was
found when that setting was looked up. -/
def Gains (looks : List (String × Option Setting)) (doc doc' : Document) : Prop :=
  ∀ name key value, doc'.setting? name key = some value → doc.setting? name key = some value ∨
    doc.setting? name key = none ∧ ∃ found, (key, found) ∈ looks ∧ TakenFrom key found value

theorem Inherits.gains (hd : doc.Inherits looks doc')
    (hkeys : ∀ key ∈ looks.map Prod.fst, ∃ u : Upgrade, key ∈ u.legacyKeys) :
    doc.Gains looks doc' := by
  intro name key value hvalue
  cases hname : doc.contains name with
  | false =>
    rw [setting?_of_contains_eq_false ((hd.contains name).trans hname)] at hvalue
    cases hvalue
  | true =>
    rw [hd.settings name hname, Option.or_eq_some_iff] at hvalue
    refine hvalue.imp_right fun ⟨hlacks, htaken⟩ => ⟨hlacks, ?_⟩
    obtain ⟨found, hfound, rfl⟩ := Option.map_eq_some_iff.mp htaken
    have hmem : (key, found) ∈ looks := by
      obtain ⟨before, after, hlooks, -⟩ := List.lookup_eq_some_iff.mp hfound
      simp [hlooks]
    obtain ⟨u, hu⟩ := hkeys key (List.mem_map_of_mem hmem)
    exact ⟨found, hmem, takenFrom_takenOver hu found⟩

theorem gains_of_pending (hd : doc.Inherits looks doc')
    (hkeys : looks.map Prod.fst = doc.pending.flatMap Upgrade.legacyKeys) :
    doc.Gains looks doc' := by
  refine hd.gains fun key hkey => ?_
  rw [hkeys] at hkey
  obtain ⟨u, -, hu⟩ := List.mem_flatMap.mp hkey
  exact ⟨u, hu⟩

end Document

namespace Upgrade

/-- An upgrade that is applied adds what it takes from the old values. -/
theorem gains_apply {u : Upgrade} {legacy : LegacyValues} {changed : Bool}
    (happly : u.apply legacy doc = .ok (changed, doc')) :
    doc.Gains (u.legacyKeys.map fun key => (key, legacy.get? key)) doc' := by
  obtain rfl : doc' = (fillAll doc (u.fills legacy)).2 := by
    cases hvalid : doc.validate with
    | ok _ =>
      rw [apply_eq_ok u legacy hvalid] at happly
      cases happly
      rfl
    | error e =>
      rw [apply, hvalid] at happly
      cases happly
  have hd : doc.Inherits (u.legacyKeys.map fun key => (key, legacy.get? key))
      ((fillAll doc (u.fills legacy)).2.markApplied u.name) := by
    rw [fills_eq_handedDown]
    exact (Document.SameContent.refl doc).inherits.upgraded u.name
  -- that the upgrade is recorded is not seen in the settings
  refine Document.Inherits.gains ⟨hd.contains, hd.modeBindings, hd.settings⟩ fun key hkey => ⟨u, ?_⟩
  simpa using hkey

end Upgrade

namespace Procedure

/-- Without storing, a document inherits the same. -/
theorem ensures_upgradeDetached_inherits (doc : Document) :
    doc.upgradeDetached.Ensures s h
      (fun r h' => ∃ looks, h'.consulted = h.consulted ++ looks ∧
        looks.map Prod.fst = doc.pending.flatMap Upgrade.legacyKeys ∧ doc.Inherits looks r.document)
      fun _ _ => True := by
  unfold Document.upgradeDetached
  rw [ensures_bind]
  refine (ensures_normalise_sameContent doc).mono ?_ fun _ _ hf => hf.elim
  rintro repaired h₁ ⟨hsame, hrepaired⟩
  rw [ensures_bind]
  refine (ensures_foldlM
    (I := fun us d h' => ∃ done looks, repaired.pending = done ++ us ∧
      h'.consulted = h.consulted ++ looks ∧
      looks.map Prod.fst = done.flatMap Upgrade.legacyKeys ∧ doc.Inherits looks d) _ ?_
    ⟨[], [], rfl, by simpa using hrepaired, rfl, hsame.inherits⟩).mono ?_ fun _ _ he => he
  · rintro u us d h' ⟨done, looks, hpending, hconsulted, hkeys, hinherits⟩
    refine (ensures_applyUpgrade_consulted d u).mono ?_ fun _ _ he => he
    rintro next k ⟨more, hmore, hconsulted', rfl⟩
    refine ⟨done ++ [u], looks ++ more, by simpa using hpending, ?_, ?_, hinherits.upgraded _⟩
    · rw [hconsulted', hconsulted, List.append_assoc]
    · rw [List.map_append, hkeys, hmore, List.flatMap_append, List.flatMap_singleton]
  · rintro final h' ⟨done, looks, hpending, hconsulted, hkeys, hinherits⟩
    have hdone : done = doc.pending := by
      simpa [Document.pending, Document.isApplied, hsame.upgradeFlags] using hpending.symm
    exact ⟨looks, hconsulted, hdone ▸ hkeys, hinherits⟩

/-- A limit for which an old setting was looked up follows the rules. -/
theorem ensures_withRateLimit_takenFrom (doc : Document) (name : String) (given : SettingMap) :
    (withRateLimit doc name given).Ensures s h
      (fun full h' => ∃ looks, h'.consulted = h.consulted ++ looks ∧
        (looks = [] ∨ ∃ found limit, looks = [(rateLimitSeconds, found)] ∧
          TakenFrom rateLimitSeconds found limit ∧ full = given.insert rateLimitSeconds limit))
      fun _ _ => True := by
  refine (ensures_withRateLimit_completes doc name given).mono ?_ fun _ _ _ => trivial
  rintro full h' ⟨looks, hlooks, hfull⟩
  refine ⟨looks, hlooks.consulted_eq, ?_⟩
  unfold Document.Completes at hfull
  split at hfull
  · exact .inl hfull.2
  · obtain ⟨limit, hlimit, rfl⟩ := hfull
    cases hlimit with
    | own _ => exact .inl rfl
    | first _ _ => exact .inl rfl
    | old _ _ hrule => exact .inr ⟨_, _, rfl, .rateLimit hrule, rfl⟩
    | default _ _ hrule => exact .inr ⟨_, _, rfl, .rateLimit hrule, rfl⟩

end Procedure

/-! ## §2 The whole -/

/-- **What is taken over from the old settings is usable.** Old settings may be anything. If an
upgrade is applied, or a document is brought up to date, with storing or without, every
setting that a profile gains is taken by the rules from what was found for that setting.
When a profile is saved, either no old setting is looked up, or it is the rate limit, and
the limit that is stored is taken from it by the same rules. By these rules a rate limit is
a whole number from 0 to the largest of 64 bits, a switch is a truth value, and a threshold
is a float from 0 to 1; and of one old value only one value can be taken, so upgrading and
saving take the same. -/
theorem Document.inherited_values_are_usable (s : Surroundings Effect Effect.Answer) (h : History)
    (doc : Document) :
    (∀ (u : Upgrade) (legacy : LegacyValues) changed doc',
      u.apply legacy doc = .ok (changed, doc') →
        doc.Gains (u.legacyKeys.map fun key => (key, legacy.get? key)) doc') ∧
    doc.ensureUpgraded.Ensures s h
      (fun r h' => ∃ looks, h'.consulted = h.consulted ++ looks ∧ doc.Gains looks r.document)
      (fun _ _ => True) ∧
    doc.upgradeDetached.Ensures s h
      (fun r h' => ∃ looks, h'.consulted = h.consulted ++ looks ∧ doc.Gains looks r.document)
      (fun _ _ => True) ∧
    (∀ name given, (Procedure.withRateLimit doc name given).Ensures s h
      (fun full h' => ∃ looks, h'.consulted = h.consulted ++ looks ∧
        (looks = [] ∨ ∃ found limit, looks = [(rateLimitSeconds, found)] ∧
          TakenFrom rateLimitSeconds found limit ∧ full = given.insert rateLimitSeconds limit))
      fun _ _ => True) ∧
    (∀ found value, TakenFrom rateLimitSeconds found value →
      ∃ i, value = .integer i ∧ 0 ≤ i.toInt ∧ i.toInt ≤ Int64.maxValue.toInt) ∧
    (∀ found value, TakenFrom SettingName.diffEnabled found value → ∃ b, value = .bool b) ∧
    (∀ found value, TakenFrom fuzzyMatchThreshold found value →
      ∃ x q, value = .float x ∧ x.toRat? = some q ∧ 0 ≤ q ∧ q ≤ 1) ∧
    ∀ key found value value', TakenFrom key found value → TakenFrom key found value' →
      value = value' := by
  refine ⟨fun u legacy changed doc' => Upgrade.gains_apply,
    (Procedure.ensures_ensureUpgraded_inherits doc).mono ?_ fun _ _ he => he,
    (Procedure.ensures_upgradeDetached_inherits doc).mono ?_ fun _ _ he => he,
    Procedure.ensures_withRateLimit_takenFrom doc, fun found value htaken => ?_,
    fun found value htaken => ?_, fun found value htaken => ?_, fun _ _ _ _ => TakenFrom.unique⟩
  · rintro r h' ⟨looks, hconsulted, hkeys, hinherits, -⟩
    exact ⟨looks, hconsulted, Document.gains_of_pending hinherits hkeys⟩
  · rintro r h' ⟨looks, hconsulted, hkeys, hinherits⟩
    exact ⟨looks, hconsulted, Document.gains_of_pending hinherits hkeys⟩
  · obtain ⟨i, rfl, hi⟩ := htaken.rateLimit_inv
    exact ⟨i, rfl, hi.bounds⟩
  · obtain ⟨b, rfl, -⟩ := htaken.diffEnabled_inv
    exact ⟨b, rfl⟩
  · obtain ⟨x, rfl, hx⟩ := htaken.fuzzyThreshold_inv
    obtain ⟨q, hvalue, hq⟩ := hx.bounds
    exact ⟨x, q, rfl, hvalue, hq⟩

end SettingProfiles
