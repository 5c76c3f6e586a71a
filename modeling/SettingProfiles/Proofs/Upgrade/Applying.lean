/-
SettingProfiles.Proofs.Upgrade.Applying — an upgrade applied once more, and two of
them in either order.

An upgrade may be applied again although it was applied before, if its flag was never
stored; and the old settings may be others by then. That does no harm, because an
upgrade fills in only what is lacking, and afterwards nothing is lacking that it sees
to. Two upgrades see to different settings, so neither meets what the other has done.
All of this is read off from what filling in does to the settings; whether anything was
filled in is read off from the number of values that were lacking.

  §1 Equality — documents with the same settings.
  §2 Filling  — what is counted, what is left, and what comes first.
  §3 Applying — `upgrades_are_idempotent_and_independent`.
-/
import SettingProfiles.Proofs.Store.Inheriting

namespace SettingProfiles

variable {doc d d' : Document} {key : String} {value : Setting}

/-! ## §1 Equality -/

namespace Document

/-- Documents that differ in nothing that can be looked up are equal. -/
theorem ext_setting? (hcurrent : d.current = d'.current)
    (hmodes : d.modeBindings = d'.modeBindings) (hflags : d.upgradeFlags = d'.upgradeFlags)
    (hids : ∀ name, (d.profiles.get? name).map Profile.id = (d'.profiles.get? name).map Profile.id)
    (hsettings : ∀ name key, d.setting? name key = d'.setting? name key) : d = d' := by
  have hprofiles : d.profiles = d'.profiles := by
    refine SortedMap.ext_get? fun name => ?_
    have hid := hids name
    have hvalues := hsettings name
    unfold setting? at hvalues
    generalize d.profiles.get? name = p at *
    generalize d'.profiles.get? name = q at *
    cases p with
    | none => cases q <;> simp_all
    | some p =>
      cases q with
      | none => cases hid
      | some q =>
        have hsame : p.settings = q.settings := SortedMap.ext_get? hvalues
        cases p
        cases q
        simp_all
  cases d
  cases d'
  simp_all

/-! ## §2 Filling -/

theorem lacking_eq_zero_iff :
    doc.lacking key = 0 ↔ ∀ name, doc.contains name = true → doc.setting? name key ≠ none := by
  unfold lacking
  rw [List.length_eq_zero_iff, List.filter_eq_nil_iff]
  constructor
  · intro hall name hname
    obtain ⟨p, hp⟩ := SortedMap.contains_iff.mp hname
    have hhas := hall p (SortedMap.mem_values.mpr ⟨name, hp⟩)
    simpa [setting?, hp, SortedMap.contains] using hhas
  · intro hall p hp
    obtain ⟨name, hp⟩ := SortedMap.mem_values.mp hp
    have hhas := hall name (SortedMap.contains_iff.mpr ⟨p, hp⟩)
    simpa [setting?, hp, SortedMap.contains] using hhas

/-- Where no profile lacks the setting, there is nothing to fill in. -/
theorem fillMissing_eq_self (hlacking : doc.lacking key = 0) (value : Setting) :
    doc.fillMissing key value = doc := by
  refine ext_setting? rfl rfl rfl (get?_fillMissing_id doc key value) fun name k => ?_
  by_cases hname : doc.contains name = true
  · rw [setting?_fillMissing hname]
    obtain ⟨v, hv⟩ := Option.ne_none_iff_exists'.mp (lacking_eq_zero_iff.mp hlacking name hname)
    by_cases hkey : key = k
    · simp [← hkey, hv]
    · simp [hkey]
  · rw [Bool.not_eq_true] at hname
    rw [setting?_of_contains_eq_false hname, setting?_of_contains_eq_false (by simp [hname])]

end Document

namespace Upgrade

variable {fills more : List (String × Setting)}

theorem current_fillAll (doc : Document) (fills : List (String × Setting)) :
    (fillAll doc fills).2.current = doc.current :=
  fillAll_keeps (P := fun d => d.current = doc.current) (fun _ _ _ hd => hd) rfl fills

/-- What is counted is what changes the document. -/
theorem fillAll_eq_zero_iff (doc : Document) (fills : List (String × Setting)) :
    (fillAll doc fills).1 = 0 ↔ (fillAll doc fills).2 = doc := by
  induction fills generalizing doc with
  | nil => simp [fillAll]
  | cons fill rest ih =>
    obtain ⟨key, value⟩ := fill
    by_cases hlacking : doc.lacking key = 0
    · simp [fillAll, hlacking, Document.fillMissing_eq_self hlacking, ih]
    · refine iff_of_false (by simp [fillAll, hlacking]) fun hsame => hlacking ?_
      -- a profile that lacked the setting has it in the end
      refine Document.lacking_eq_zero_iff.mpr fun name hname => ?_
      have hsettings := setting?_fillAll hname ((key, value) :: rest) key
      rw [hsame, List.lookup_cons_self] at hsettings
      rw [hsettings]
      cases doc.setting? name key <;> simp

/-- Afterwards nothing is lacking that was filled in. -/
theorem lacking_fillAll (doc : Document) {fill : String × Setting} (hfill : fill ∈ fills) :
    (fillAll doc fills).2.lacking fill.1 = 0 := by
  refine Document.lacking_eq_zero_iff.mpr fun name hname => ?_
  rw [contains_fillAll] at hname
  have hlookup : fills.lookup fill.1 ≠ none := by
    rw [← Option.isSome_iff_ne_none, List.lookup_isSome_iff]
    exact ⟨fill, hfill, by simp⟩
  rw [setting?_fillAll hname]
  simp [hlookup]

/-- If nothing is lacking, nothing is counted and nothing changes. -/
theorem fillAll_eq_self (hlacking : ∀ fill ∈ fills, doc.lacking fill.1 = 0) :
    fillAll doc fills = (0, doc) := by
  induction fills with
  | nil => rfl
  | cons fill rest ih =>
    obtain ⟨hfirst, hrest⟩ := List.forall_mem_cons.mp hlacking
    simp [fillAll, hfirst, Document.fillMissing_eq_self hfirst, ih hrest]

theorem lookup_eq_none (hkey : key ∉ fills.map Prod.fst) : fills.lookup key = none := by
  rw [List.lookup_eq_none_iff]
  intro fill hfill
  exact bne_iff_ne.mpr fun heq => hkey (heq ▸ List.mem_map_of_mem hfill)

/-- Different settings may be filled in in either order. -/
theorem fillAll_comm (doc : Document)
    (hdisjoint : ∀ key ∈ fills.map Prod.fst, key ∉ more.map Prod.fst) :
    (fillAll (fillAll doc fills).2 more).2 = (fillAll (fillAll doc more).2 fills).2 := by
  refine Document.ext_setting? ?_ ?_ ?_ (fun name => ?_) fun name key => ?_
  · simp only [current_fillAll]
  · simp only [modeBindings_fillAll]
  · simp only [fillAll_upgradeFlags]
  · simp only [get?_fillAll_id]
  · cases hname : doc.contains name with
    | false =>
      rw [Document.setting?_of_contains_eq_false (by simp only [contains_fillAll, hname]),
        Document.setting?_of_contains_eq_false (by simp only [contains_fillAll, hname])]
    | true =>
      have hfilled : ∀ fills, (fillAll doc fills).2.contains name = true := by
        simp only [contains_fillAll, hname, implies_true]
      rw [setting?_fillAll (hfilled fills), setting?_fillAll (hfilled more),
        setting?_fillAll hname, setting?_fillAll hname, Option.or_assoc, Option.or_assoc]
      by_cases hkey : key ∈ fills.map Prod.fst
      · simp [lookup_eq_none (hdisjoint key hkey)]
      · simp [lookup_eq_none hkey]

/-! ## §3 Applying -/

/-- The settings that are filled in are those that the upgrade sees to. -/
theorem map_fst_fills (u : Upgrade) (legacy : LegacyValues) :
    (u.fills legacy).map Prod.fst = u.legacyKeys := by
  cases u <;> rfl

/-- Whether applying the upgrade changed anything, and the document afterwards. A document
that is refused stays as it is. -/
def tryApply (u : Upgrade) (legacy : LegacyValues) (doc : Document) :
    Except DocumentError Bool × Document :=
  match u.apply legacy doc with
  | .ok (changed, filled) => (.ok changed, filled)
  | .error e => (.error e, doc)

variable {u v : Upgrade} {legacy later : LegacyValues}

theorem tryApply_of_valid (hvalid : doc.validate = .ok ()) (u : Upgrade) (legacy : LegacyValues) :
    u.tryApply legacy doc
      = (.ok (decide (0 < (fillAll doc (u.fills legacy)).1)),
        (fillAll doc (u.fills legacy)).2) := by
  simp [tryApply, apply_eq_ok u legacy hvalid]

theorem tryApply_of_invalid {e : DocumentError} (hinvalid : doc.validate = .error e) (u : Upgrade)
    (legacy : LegacyValues) : u.tryApply legacy doc = (.error e, doc) := by
  unfold tryApply apply
  rw [hinvalid]
  rfl

theorem validate_tryApply (u : Upgrade) (legacy : LegacyValues) (doc : Document) :
    (u.tryApply legacy doc).2.validate = doc.validate := by
  cases hvalid : doc.validate with
  | ok _ =>
    rw [tryApply_of_valid hvalid]
    exact (validate_fillAll doc _).trans hvalid
  | error e =>
    rw [tryApply_of_invalid hvalid]
    exact hvalid

/-- What is changed is counted. -/
theorem tryApply_eq_ok {changed : Bool} (h : (u.tryApply legacy doc).1 = .ok changed) :
    changed = true ↔ (u.tryApply legacy doc).2 ≠ doc := by
  cases hvalid : doc.validate with
  | error e => simp [tryApply_of_invalid hvalid] at h
  | ok _ =>
    rw [tryApply_of_valid hvalid] at h ⊢
    cases h
    simp [Nat.pos_iff_ne_zero, fillAll_eq_zero_iff]

theorem tryApply_again (hvalid : doc.validate = .ok ()) (u : Upgrade)
    (legacy later : LegacyValues) :
    u.tryApply later (u.tryApply legacy doc).2 = (.ok false, (u.tryApply legacy doc).2) := by
  have hagain : (u.tryApply legacy doc).2.validate = .ok () :=
    (validate_tryApply u legacy doc).trans hvalid
  have hlacking : ∀ fill ∈ u.fills later, (u.tryApply legacy doc).2.lacking fill.1 = 0 := by
    intro fill hfill
    have hkey : fill.1 ∈ (u.fills legacy).map Prod.fst := by
      rw [map_fst_fills, ← map_fst_fills u later]
      exact List.mem_map_of_mem hfill
    obtain ⟨first, hfirst, heq⟩ := List.mem_map.mp hkey
    rw [tryApply_of_valid hvalid, ← heq]
    exact lacking_fillAll doc hfirst
  rw [tryApply_of_valid hagain, fillAll_eq_self hlacking]
  simp

/-- An upgrade leaves the settings that it does not see to. -/
theorem setting?_tryApply (hkey : key ∉ u.legacyKeys) (legacy : LegacyValues) (doc : Document)
    (name : String) : (u.tryApply legacy doc).2.setting? name key = doc.setting? name key := by
  cases hvalid : doc.validate with
  | error e => rw [tryApply_of_invalid hvalid]
  | ok _ =>
    rw [tryApply_of_valid hvalid]
    cases hname : doc.contains name with
    | true => simp [setting?_fillAll hname, lookup_eq_none (map_fst_fills u legacy ▸ hkey)]
    | false =>
      rw [Document.setting?_of_contains_eq_false hname,
        Document.setting?_of_contains_eq_false (by simp only [contains_fillAll, hname])]

theorem tryApply_comm (hne : v ≠ u) (legacy later : LegacyValues) (doc : Document) :
    (v.tryApply later (u.tryApply legacy doc).2).2
      = (u.tryApply legacy (v.tryApply later doc).2).2 := by
  cases hvalid : doc.validate with
  | error e => simp only [tryApply_of_invalid hvalid]
  | ok _ =>
    have hafter : ∀ w values, (tryApply w values doc).2.validate = .ok () := fun w values =>
      (validate_tryApply w values doc).trans hvalid
    rw [tryApply_of_valid (hafter u legacy), tryApply_of_valid (hafter v later),
      tryApply_of_valid hvalid, tryApply_of_valid hvalid]
    refine fillAll_comm doc fun key hu hv => hne ?_
    rw [map_fst_fills] at hu hv
    exact eq_of_mem_legacyKeys hv hu

/-- **An upgrade may be applied again, and before or after the other.** Applying an upgrade
to a document fails exactly if the document is not valid, and then leaves it as it is.
Otherwise it tells whether the document is another one afterwards. Applying it once more,
whatever the old settings are by then, tells that nothing was changed and changes nothing.
Any other upgrade may come first or second, and the document is the same in the end; and
the settings that the other one sees to are not touched. -/
theorem upgrades_are_idempotent_and_independent (u : Upgrade) (legacy : LegacyValues)
    (doc : Document) :
    let done := u.tryApply legacy doc
    (∀ e, done.1 = .error e ↔ doc.validate = .error e) ∧
    (∀ e, done.1 = .error e → done.2 = doc) ∧
    (∀ changed, done.1 = .ok changed → (changed = true ↔ done.2 ≠ doc)) ∧
    (doc.validate = .ok () → ∀ later, u.tryApply later done.2 = (.ok false, done.2)) ∧
    ∀ v, v ≠ u →
      (∀ key ∈ v.legacyKeys, ∀ name, done.2.setting? name key = doc.setting? name key) ∧
      ∀ later, (v.tryApply later done.2).2 = (u.tryApply legacy (v.tryApply later doc).2).2 := by
  intro done
  refine ⟨fun e => ?_, fun e he => ?_, fun changed => tryApply_eq_ok,
    fun hvalid later => tryApply_again hvalid u legacy later, fun v hne => ⟨?_, ?_⟩⟩
  · cases hvalid : doc.validate <;>
      simp [done, tryApply_of_valid, tryApply_of_invalid, hvalid]
  · cases hvalid : doc.validate with
    | ok _ => simp [done, tryApply_of_valid hvalid] at he
    | error _ => simp [done, tryApply_of_invalid hvalid]
  · intro key hkey name
    exact setting?_tryApply (fun hkey' => hne (eq_of_mem_legacyKeys hkey hkey')) legacy doc name
  · exact fun later => tryApply_comm hne legacy later doc

end Upgrade

end SettingProfiles
