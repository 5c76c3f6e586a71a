/-
SettingProfiles.Proofs.Document.Finite — documents all of whose floats are finite.

They are the documents whose own texts can be read, and nothing else is ever
read: the reader refuses what has no room, and of the values that upgrades fill
in the only float is one from 0 to 1.

  §1 Settings  — `Setting.IsFinite`, of values that are read.
  §2 Documents — `decode?_encode_isSome_iff`, and documents that are read.
  §3 Upgrades  — values from the old settings.
-/
import SettingProfiles.Proofs.Document.RoundTrip
import SettingProfiles.Proofs.Setting.Floats

namespace SettingProfiles

/-! ## §1 Settings -/

namespace Setting

/-- A value that is not a float, or a finite one. -/
def IsFinite : Setting → Prop
  | .float x => x.isFinite = true
  | _ => True

theorem reread?_isSome_iff {v : Setting} : v.reread?.isSome = true ↔ v.IsFinite := by
  cases v with
  | float x => simpa [reread?, IsFinite] using Binary64.reread?_isSome_iff
  | bool b => simp [reread?, IsFinite]
  | integer i => simp [reread?, IsFinite]
  | text s => simp [reread?, IsFinite]
  | textSet items => simp [reread?, IsFinite]

theorem isFinite_of_ofNumeral? {n : Numeral} {v : Setting} (h : ofNumeral? n = some v) :
    v.IsFinite := by
  unfold ofNumeral? at h
  dsimp only at h
  split at h
  · cases h
    trivial
  · obtain ⟨x, hx, rfl⟩ := Option.map_eq_some_iff.mp h
    exact isFinite_floatOfNumeral? hx

theorem isFinite_of_ofJson? {j : Json} {v : Setting} (h : ofJson? j = some v) : v.IsFinite := by
  cases j with
  | null => cases h
  | object members => cases h
  | bool b =>
    cases h
    trivial
  | number n => exact isFinite_of_ofNumeral? h
  | string s =>
    obtain ⟨text, -, rfl⟩ := Option.map_eq_some_iff.mp h
    trivial
  | array items =>
    obtain ⟨texts, -, rfl⟩ := Option.map_eq_some_iff.mp h
    trivial

end Setting

/-! ## §2 Documents -/

theorem SettingMap.isFinite_of_ofJson? {j : Json} {settings : SettingMap}
    (h : SettingMap.ofJson? j = some settings) : SettingMap.ValuesAre Setting.IsFinite settings :=
  Json.forall_of_map? (fun _ _ => Setting.isFinite_of_ofJson?) h

theorem Profile.isFinite_of_ofJson? {j : Json} {p : Profile} (h : Profile.ofJson? j = some p) :
    SettingMap.ValuesAre Setting.IsFinite p.settings := by
  unfold Profile.ofJson? at h
  obtain ⟨fields, -, h⟩ := Option.bind_eq_some_iff.mp h
  split at h
  · rename_i written hvalues
    obtain ⟨id, -, h⟩ := Option.bind_eq_some_iff.mp h
    obtain ⟨settings, hsettings, h⟩ := Option.bind_eq_some_iff.mp h
    cases h
    cases written with
    | none =>
      cases hsettings
      intro key value hvalue
      simp at hvalue
    | some j => exact SettingMap.isFinite_of_ofJson? hsettings
  · cases h

namespace Document

variable {doc : Document}

/-- Every float of a document that is read is finite. -/
theorem isFinite_of_decode? {text : String} (h : decode? text = some doc) :
    doc.ValuesAre Setting.IsFinite := by
  obtain ⟨j, -, h⟩ := Option.bind_eq_some_iff.mp h
  unfold ofJson? at h
  obtain ⟨fields, -, h⟩ := Option.bind_eq_some_iff.mp h
  split at h
  · rename_i current profiles bindings flags hvalues
    obtain ⟨_, -, h⟩ := Option.bind_eq_some_iff.mp h
    obtain ⟨_, hprofiles, h⟩ := Option.bind_eq_some_iff.mp h
    obtain ⟨_, -, h⟩ := Option.bind_eq_some_iff.mp h
    obtain ⟨_, -, h⟩ := Option.bind_eq_some_iff.mp h
    cases h
    cases profiles with
    | none => cases hprofiles
    | some j => exact Json.forall_of_map? (fun _ _ => Profile.isFinite_of_ofJson?) hprofiles
  · cases h

/-- **A document's own text can be read exactly if its floats are finite.** -/
theorem decode?_encode_isSome_iff :
    (decode? doc.encode).isSome = true ↔ doc.ValuesAre Setting.IsFinite := by
  rw [decode?_encode, reread?_isSome_iff]
  simp only [ValuesAre, SettingMap.ValuesAre, Setting.reread?_isSome_iff]

end Document

/-! ## §3 Upgrades -/

namespace LegacyValues

/-- A usable value or the default. -/
theorem valueOr_of {P : Setting → Prop} {usable? : Setting → Option Setting} {default : Setting}
    (hdefault : P default) (husable : ∀ v w, usable? v = some w → P w) (legacy : LegacyValues)
    (key : String) : P (legacy.valueOr key default usable?) := by
  unfold valueOr
  cases h : (SortedMap.get? legacy key).bind usable? with
  | none => exact hdefault
  | some w =>
    obtain ⟨v, -, hw⟩ := Option.bind_eq_some_iff.mp h
    exact husable v w hw

/-- A usable limit is a whole number. -/
theorem exists_integer_of_usableRateLimit? {v w : Setting} (h : usableRateLimit? v = some w) :
    ∃ i, w = .integer i := by
  cases v with
  | integer i =>
    simp only [usableRateLimit?] at h
    split at h <;> cases h
    exact ⟨i, rfl⟩
  | float x =>
    simp only [usableRateLimit?] at h
    split at h
    · obtain ⟨i, -, rfl⟩ := Option.map_eq_some_iff.mp h
      exact ⟨_, rfl⟩
    · cases h
  | bool b => cases h
  | text s => cases h
  | textSet items => cases h

theorem isFinite_usableRateLimit? {v w : Setting} (h : usableRateLimit? v = some w) :
    w.IsFinite := by
  obtain ⟨i, rfl⟩ := exists_integer_of_usableRateLimit? h
  trivial

theorem isFinite_usableDiffEnabled? {v w : Setting} (h : usableDiffEnabled? v = some w) :
    w.IsFinite := by
  cases v <;> cases h
  trivial

/-- A number between two finite ones is finite. -/
theorem isFinite_of_le {x y z : Binary64} (hx : x.isFinite = true) (hz : z.isFinite = true)
    (hxy : x.le y = true) (hyz : y.le z = true) : y.isFinite = true := by
  cases y with
  | finite negative mantissa exponent hc => rfl
  | nan => cases x <;> cases hxy
  | infinite negative =>
    cases x with
    | nan => cases hx
    | infinite _ => cases hx
    | finite _ _ _ _ =>
      cases z with
      | nan => cases hz
      | infinite _ => cases hz
      | finite _ _ _ _ =>
        cases negative with
        | true => cases hxy
        | false => cases hyz

theorem isFinite_ofNat_of_le {n : Nat} (h : n ≤ 1) : (Binary64.ofNat n).isFinite = true :=
  (Binary64.ofNat_mono (h.trans (by decide)) Setting.isFinite_ofNat_bound).1

theorem isFinite_usableFuzzyThreshold? {v w : Setting} (h : usableFuzzyThreshold? v = some w) :
    w.IsFinite := by
  cases v with
  | float x =>
    simp only [usableFuzzyThreshold?] at h
    split at h
    · rename_i hbounds
      rw [Bool.and_eq_true] at hbounds
      cases h
      exact isFinite_of_le rfl (isFinite_ofNat_of_le le_rfl) hbounds.1 hbounds.2
    · cases h
  | integer i =>
    simp only [usableFuzzyThreshold?] at h
    split at h
    · rename_i hbounds
      cases h
      have hone : i.toInt.natAbs ≤ 1 := by
        rw [Bool.and_eq_true, decide_eq_true_eq, decide_eq_true_eq, Int64.le_iff_toInt_le,
          Int64.le_iff_toInt_le] at hbounds
        have hzero : (0 : Int64).toInt = 0 := rfl
        have hone : (1 : Int64).toInt = 1 := rfl
        omega
      exact (Binary64.isFinite_ofQuotient _ Nat.one_pos).mpr
        ((Binary64.isFinite_ofQuotient false Nat.one_pos).mp (isFinite_ofNat_of_le hone))
    · cases h
  | bool b => cases h
  | text s => cases h
  | textSet items => cases h

end LegacyValues

/-- Every float that an upgrade fills in is finite. -/
theorem Upgrade.isFinite_fills (legacy : LegacyValues) (u : Upgrade) :
    ∀ fill ∈ u.fills legacy, fill.2.IsFinite := by
  have hthreshold : LegacyValues.defaultFuzzyThreshold.IsFinite :=
    LegacyValues.isFinite_ofNat_of_le le_rfl
  intro fill hfill
  cases u with
  | rateLimit =>
    cases List.mem_singleton.mp hfill
    exact LegacyValues.valueOr_of trivial (fun _ _ => LegacyValues.isFinite_usableRateLimit?) _ _
  | diffSettings =>
    rcases List.mem_cons.mp hfill with rfl | hfill
    · exact LegacyValues.valueOr_of trivial
        (fun _ _ => LegacyValues.isFinite_usableDiffEnabled?) _ _
    · cases List.mem_singleton.mp hfill
      exact LegacyValues.valueOr_of hthreshold
        (fun _ _ => LegacyValues.isFinite_usableFuzzyThreshold?) _ _

end SettingProfiles
