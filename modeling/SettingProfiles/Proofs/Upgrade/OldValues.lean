/-
SettingProfiles.Proofs.Upgrade.OldValues — what an old value comes to.

The old place may hold anything: values of every kind, numbers of any size, numbers that
are none. What is taken over from there is one of three settings, and each has its
rules, which are stated here of numbers and not of how they are computed: seconds that
are not negative, a switch, a threshold from 0 to 1. A rule leaves no choice, and the
functions that take values over follow the rules.

  §1 Rules     — `TakenFrom`: what an old value comes to.
  §2 Choice    — the values that the rules allow, and that there is one of them.
  §3 Following — `takenOver`: what the functions take over, and that it is by the rules.
-/
import SettingProfiles.Proofs.Binary64.Value
import SettingProfiles.Upgrade.Basic

namespace SettingProfiles

open SettingName

/-! ## §1 Rules -/

namespace LegacyValues

/-- The seconds that an old rate limit comes to, given what was found. -/
inductive SecondsFrom : Option Setting → Int64 → Prop
  /-- A whole number that is not negative stays as it is. -/
  | integer {i : Int64} (hi : 0 ≤ i.toInt) : SecondsFrom (some (.integer i)) i
  /-- A float that is not negative is rounded, a half away from zero, and is at most the
  largest whole number of 64 bits. -/
  | float {x : Binary64} {q : ℚ} {i : Int64} (hx : x.toRat? = some q) (hq : 0 ≤ q)
      (hi : i.toInt = min ⌊q + 1 / 2⌋ Int64.maxValue.toInt) : SecondsFrom (some (.float x)) i
  /-- In every other case it is five seconds. -/
  | other {found : Option Setting} (hinteger : ∀ i, found = some (.integer i) → i.toInt < 0)
      (hfloat : ∀ x q, found = some (.float x) → x.toRat? = some q → q < 0) : SecondsFrom found 5

/-- The switch that an old one comes to: itself, or on if it is no switch. -/
inductive SwitchFrom : Option Setting → Bool → Prop
  | bool (b : Bool) : SwitchFrom (some (.bool b)) b
  | other {found : Option Setting} (hbool : ∀ b, found ≠ some (.bool b)) : SwitchFrom found true

/-- The threshold that an old one comes to, given what was found. -/
inductive ThresholdFrom : Option Setting → Binary64 → Prop
  /-- A float from 0 to 1 stays as it is. -/
  | float {x : Binary64} {q : ℚ} (hx : x.toRat? = some q) (hq : 0 ≤ q ∧ q ≤ 1) :
      ThresholdFrom (some (.float x)) x
  /-- A whole number from 0 to 1 becomes the float that is equal to it. -/
  | integer {i : Int64} (hi : 0 ≤ i.toInt ∧ i.toInt ≤ 1)
      (hx : (Binary64.ofInt i.toInt).toRat? = some (i.toInt : ℚ)) :
      ThresholdFrom (some (.integer i)) (.ofInt i.toInt)
  /-- In every other case it is one. -/
  | other {found : Option Setting}
      (hinteger : ∀ i, found = some (.integer i) → ¬ (0 ≤ i.toInt ∧ i.toInt ≤ 1))
      (hfloat : ∀ x q, found = some (.float x) → x.toRat? = some q → ¬ (0 ≤ q ∧ q ≤ 1)) :
      ThresholdFrom found (.ofNat 1)

/-- The value that is taken over for a setting, given what was found. -/
inductive TakenFrom : String → Option Setting → Setting → Prop
  | rateLimit {found : Option Setting} {i : Int64} (h : SecondsFrom found i) :
      TakenFrom rateLimitSeconds found (.integer i)
  | diffEnabled {found : Option Setting} {b : Bool} (h : SwitchFrom found b) :
      TakenFrom SettingName.diffEnabled found (.bool b)
  | fuzzyThreshold {found : Option Setting} {x : Binary64} (h : ThresholdFrom found x) :
      TakenFrom fuzzyMatchThreshold found (.float x)

/-! ## §2 Choice -/

variable {found : Option Setting} {key : String}

/-- Seconds are never negative, and a whole number of 64 bits is never too large. -/
theorem SecondsFrom.bounds {i : Int64} (h : SecondsFrom found i) :
    0 ≤ i.toInt ∧ i.toInt ≤ Int64.maxValue.toInt := by
  refine ⟨?_, Int64.toInt_le i⟩
  cases h with
  | integer hi => exact hi
  | float _ hq hi =>
    rw [hi]
    exact le_min (Binary64.floor_half_nonneg hq) (by decide)
  | other _ _ => decide

/-- A threshold is a number from 0 to 1. -/
theorem ThresholdFrom.bounds {x : Binary64} (h : ThresholdFrom found x) :
    ∃ q, x.toRat? = some q ∧ 0 ≤ q ∧ q ≤ 1 := by
  cases h with
  | float hx hq => exact ⟨_, hx, hq⟩
  | integer hi hx => exact ⟨_, hx, by exact_mod_cast hi⟩
  | other _ _ => exact ⟨1, Binary64.toRat?_ofNat_one, by norm_num⟩

/-- The rules leave no choice. -/
theorem SecondsFrom.unique {i j : Int64} (hi : SecondsFrom found i) (hj : SecondsFrom found j) :
    i = j := by
  cases hi with
  | integer hi =>
    cases hj with
    | integer _ => rfl
    | other hinteger _ => exact absurd (hinteger _ rfl) (Int.not_lt.mpr hi)
  | float hx hq hi =>
    cases hj with
    | float hx' _ hj =>
      cases hx.symm.trans hx'
      exact Int64.toInt_inj.mp (hi.trans hj.symm)
    | other _ hfloat => exact absurd (hfloat _ _ rfl hx) (not_lt.mpr hq)
  | other hinteger hfloat =>
    cases hj with
    | integer hj => exact absurd (hinteger _ rfl) (Int.not_lt.mpr hj)
    | float hx hq _ => exact absurd (hfloat _ _ rfl hx) (not_lt.mpr hq)
    | other _ _ => rfl

theorem SwitchFrom.unique {b c : Bool} (hb : SwitchFrom found b) (hc : SwitchFrom found c) :
    b = c := by
  cases hb with
  | bool _ =>
    cases hc with
    | bool _ => rfl
    | other hbool => exact absurd rfl (hbool _)
  | other hbool =>
    cases hc with
    | bool _ => exact absurd rfl (hbool _)
    | other _ => rfl

theorem ThresholdFrom.unique {x y : Binary64} (hx : ThresholdFrom found x)
    (hy : ThresholdFrom found y) : x = y := by
  cases hx with
  | float hx hq =>
    cases hy with
    | float _ _ => rfl
    | other _ hfloat => exact absurd hq (hfloat _ _ rfl hx)
  | integer hi _ =>
    cases hy with
    | integer _ _ => rfl
    | other hinteger _ => exact absurd hi (hinteger _ rfl)
  | other hinteger hfloat =>
    cases hy with
    | float hx hq => exact absurd hq (hfloat _ _ rfl hx)
    | integer hi _ => exact absurd hi (hinteger _ rfl)
    | other _ _ => rfl

theorem TakenFrom.rateLimit_inv {value : Setting} (h : TakenFrom rateLimitSeconds found value) :
    ∃ i, value = .integer i ∧ SecondsFrom found i := by
  generalize hkey : rateLimitSeconds = key at h
  cases h with
  | rateLimit h => exact ⟨_, rfl, h⟩
  | diffEnabled _ => exact absurd hkey (by decide)
  | fuzzyThreshold _ => exact absurd hkey (by decide)

theorem TakenFrom.diffEnabled_inv {value : Setting}
    (h : TakenFrom SettingName.diffEnabled found value) :
    ∃ b, value = .bool b ∧ SwitchFrom found b := by
  generalize hkey : SettingName.diffEnabled = key at h
  cases h with
  | rateLimit _ => exact absurd hkey (by decide)
  | diffEnabled h => exact ⟨_, rfl, h⟩
  | fuzzyThreshold _ => exact absurd hkey (by decide)

theorem TakenFrom.fuzzyThreshold_inv {value : Setting}
    (h : TakenFrom fuzzyMatchThreshold found value) :
    ∃ x, value = .float x ∧ ThresholdFrom found x := by
  generalize hkey : fuzzyMatchThreshold = key at h
  cases h with
  | rateLimit _ => exact absurd hkey (by decide)
  | diffEnabled _ => exact absurd hkey (by decide)
  | fuzzyThreshold h => exact ⟨_, rfl, h⟩

/-- Of one old value only one value can be taken for a setting. -/
theorem TakenFrom.unique {value value' : Setting} (h : TakenFrom key found value)
    (h' : TakenFrom key found value') : value = value' := by
  cases h with
  | rateLimit h =>
    obtain ⟨j, rfl, hj⟩ := h'.rateLimit_inv
    rw [h.unique hj]
  | diffEnabled h =>
    obtain ⟨c, rfl, hc⟩ := h'.diffEnabled_inv
    rw [h.unique hc]
  | fuzzyThreshold h =>
    obtain ⟨y, rfl, hy⟩ := h'.fuzzyThreshold_inv
    rw [h.unique hy]

/-! ## §3 Following -/

/-- The value that stands for a setting where a profile has none, given what was found in
the old place: its usable form, or the default if it has none. -/
def takenOver (key : String) (found : Option Setting) : Setting :=
  if key = SettingName.rateLimitSeconds then (found.bind usableRateLimit?).getD (.integer 5)
  else if key = SettingName.diffEnabled then (found.bind usableDiffEnabled?).getD (.bool true)
  else (found.bind usableFuzzyThreshold?).getD (.float (.ofNat 1))

theorem rateLimit_eq_takenOver (legacy : LegacyValues) :
    legacy.rateLimit = takenOver rateLimitSeconds (legacy.get? rateLimitSeconds) := rfl

/-- A number that is not negative has room in 64 bits once it is cut off at the top. -/
theorem toInt_clampToInt64 {n : Int} (hn : 0 ≤ n) :
    (clampToInt64 n).toInt = min n Int64.maxValue.toInt := by
  have hmin : Int64.minValue.toInt = -2 ^ 63 := by decide
  have hmax : Int64.maxValue.toInt = 2 ^ 63 - 1 := by decide
  unfold clampToInt64
  rw [if_neg (by omega)]
  split
  · rename_i hlarge
    rw [min_eq_right hlarge.le]
  · rename_i hroom
    rw [min_eq_left (Int.not_lt.mp hroom), Int64.toInt_ofInt_of_le (by omega) (by omega)]

/-- A float that zero is at most equal to is not negative, or it is infinite. -/
theorem usableRateLimit?_float (x : Binary64) :
    (∃ q i, x.toRat? = some q ∧ 0 ≤ q ∧ i.toInt = min ⌊q + 1 / 2⌋ Int64.maxValue.toInt ∧
      usableRateLimit? (.float x) = some (.integer i)) ∨
    (∀ q, x.toRat? = some q → q < 0) ∧ usableRateLimit? (.float x) = none := by
  rw [usableRateLimit?]
  cases hx : x.toRat? with
  | none =>
    -- neither NaN nor an infinity is rounded
    have hround : x.round? = none := by
      rw [Binary64.round?, Option.map_eq_none_iff]
      exact Option.map_eq_none_iff.mp hx
    refine .inr ⟨fun _ hq => (by cases hq), ?_⟩
    rw [hround, Option.map_none, ite_self]
  | some q =>
    have hle := Binary64.le_iff Binary64.toRat?_zero hx
    by_cases hq : 0 ≤ q
    · refine .inl ⟨q, clampToInt64 ⌊q + 1 / 2⌋, rfl, hq,
        toInt_clampToInt64 (Binary64.floor_half_nonneg hq), ?_⟩
      rw [if_pos (hle.mpr hq), Binary64.round?_of_nonneg hx hq, Option.map_some]
    · refine .inr ⟨fun r hr => ?_, if_neg (mt hle.mp hq)⟩
      cases hr
      exact not_le.mp hq

/-- What is taken over as a rate limit are seconds by the rules. -/
theorem takenFrom_rateLimit (found : Option Setting) :
    TakenFrom rateLimitSeconds found (takenOver rateLimitSeconds found) := by
  unfold takenOver
  rw [if_pos rfl]
  cases found with
  | none => exact .rateLimit (.other (fun _ hi => by cases hi) fun _ _ hx => by cases hx)
  | some value =>
    rw [Option.bind_some]
    cases value with
    | integer i =>
      have hle : 0 ≤ i ↔ 0 ≤ i.toInt := Int64.le_iff_toInt_le
      by_cases hi : 0 ≤ i.toInt
      · rw [usableRateLimit?, if_pos (hle.mpr hi)]
        exact .rateLimit (.integer hi)
      · rw [usableRateLimit?, if_neg (mt hle.mp hi)]
        refine .rateLimit (.other (fun j hj => ?_) fun _ _ hx => by cases hx)
        cases hj
        exact Int.not_le.mp hi
    | float x =>
      obtain ⟨q, i, hx, hq, hi, husable⟩ | ⟨hnegative, hunusable⟩ := usableRateLimit?_float x
      · rw [husable]
        exact .rateLimit (.float hx hq hi)
      · rw [hunusable]
        refine .rateLimit (.other (fun _ hi => by cases hi) fun y q hy hq => ?_)
        cases hy
        exact hnegative q hq
    | bool | text | textSet =>
      exact .rateLimit (.other (fun _ hi => by cases hi) fun _ _ hx => by cases hx)

/-- What is taken over for diffs is a switch by the rules. -/
theorem takenFrom_diffEnabled (found : Option Setting) :
    TakenFrom SettingName.diffEnabled found (takenOver SettingName.diffEnabled found) := by
  unfold takenOver
  rw [if_neg (by decide), if_pos rfl]
  cases found with
  | none => exact .diffEnabled (.other fun _ hb => by cases hb)
  | some value =>
    cases value with
    | bool b => exact .diffEnabled (.bool b)
    | integer | float | text | textSet => exact .diffEnabled (.other fun _ hb => by cases hb)

/-- What is taken over as a threshold is one by the rules. -/
theorem takenFrom_fuzzyThreshold (found : Option Setting) :
    TakenFrom fuzzyMatchThreshold found (takenOver fuzzyMatchThreshold found) := by
  unfold takenOver
  rw [if_neg (by decide), if_neg (by decide)]
  cases found with
  | none => exact .fuzzyThreshold (.other (fun _ hi => by cases hi) fun _ _ hx => by cases hx)
  | some value =>
    rw [Option.bind_some]
    cases value with
    | integer i =>
      have hrange : (0 ≤ i && i ≤ 1 : Bool) = true ↔ 0 ≤ i.toInt ∧ i.toInt ≤ 1 := by
        simp [Int64.le_iff_toInt_le]
      by_cases hi : 0 ≤ i.toInt ∧ i.toInt ≤ 1
      · rw [usableFuzzyThreshold?, if_pos (hrange.mpr hi)]
        exact .fuzzyThreshold (.integer hi (Binary64.toRat?_ofInt hi))
      · rw [usableFuzzyThreshold?, if_neg (mt hrange.mp hi)]
        refine .fuzzyThreshold (.other (fun j hj => ?_) fun _ _ hx => by cases hx)
        cases hj
        exact hi
    | float x =>
      rw [usableFuzzyThreshold?]
      split
      · rename_i hbetween
        obtain ⟨q, hx, hq⟩ := Binary64.between_zero_one_iff.mp hbetween
        exact .fuzzyThreshold (.float hx hq)
      · rename_i houtside
        refine .fuzzyThreshold (.other (fun _ hi => by cases hi) fun y q hy hq hrange => ?_)
        cases hy
        exact houtside (Binary64.between_zero_one_iff.mpr ⟨q, hq, hrange⟩)
    | bool | text | textSet =>
      exact .fuzzyThreshold (.other (fun _ hi => by cases hi) fun _ _ hx => by cases hx)

/-- What is taken over for a setting of an upgrade follows the rules. -/
theorem takenFrom_takenOver {u : Upgrade} (hkey : key ∈ u.legacyKeys) (found : Option Setting) :
    TakenFrom key found (takenOver key found) := by
  cases u with
  | rateLimit =>
    obtain rfl := List.mem_singleton.mp hkey
    exact takenFrom_rateLimit found
  | diffSettings =>
    obtain rfl | hkey := List.mem_cons.mp hkey
    · exact takenFrom_diffEnabled found
    · obtain rfl := List.mem_singleton.mp hkey
      exact takenFrom_fuzzyThreshold found

end LegacyValues

end SettingProfiles
