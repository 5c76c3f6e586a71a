/-
SettingProfiles.Proofs.Setting.Floats — which floats can be read back.

Reading a numeral multiplies or divides two rounded numbers and rounds once more,
so what is read may be a neighbour of what was written, and a product could
overflow where the numeral itself does not. For the numerals of documents it does
not: the largest finite float is read as itself, the others leave enough room for
three roundings, which is checked once for each power of ten. A float that is not
finite has no numeral. So a float can be read back exactly if it is finite, and
what is read is finite.

  §1 Significands — how much of a numeral is read, and that it is no more.
  §2 Finiteness   — whatever is read is finite.
  §3 Room         — numerals below a bound are read.
  §4 Documents    — `reread?_isSome_iff`.
-/
import SettingProfiles.Proofs.Binary64.Rounding
import SettingProfiles.Proofs.Decimal.Value
import SettingProfiles.Proofs.Document.RoundTrip

namespace SettingProfiles

/-! ## §1 Significands -/

namespace Setting.Significand

theorem ofWhole_value_lt (ds : List Digit) {value : Nat} (h : value < significandBound) :
    (ofWhole ds value).value < significandBound := by
  induction ds generalizing value with
  | nil => exact h
  | cons d rest ih =>
    simp only [ofWhole]
    split
    · rename_i hnext
      exact ih hnext
    · exact h

theorem withFraction_value_lt (ds : List Digit) {s : Significand}
    (h : s.value < significandBound) : (s.withFraction ds).value < significandBound := by
  induction ds generalizing s with
  | nil => exact h
  | cons d rest ih =>
    simp only [withFraction]
    split
    · rename_i hnext
      exact ih hnext
    · exact h

/-- The digits of a number of 64 bits are all read. -/
theorem ofWhole_of_lt {ds : List Digit} {value : Nat}
    (h : value * tenTo ds.length + Digits.value ds < significandBound) :
    ofWhole ds value = ⟨value * tenTo ds.length + Digits.value ds, 0⟩ := by
  induction ds generalizing value with
  | nil => simp [ofWhole, tenTo]
  | cons d rest ih =>
    have hsplit : value * tenTo (d :: rest).length + Digits.value (d :: rest)
        = (10 * value + d.val) * tenTo rest.length + Digits.value rest := by
      rw [Digits.value_cons, List.length_cons]
      simp only [tenTo, Nat.pow_eq, Nat.pow_succ]
      ring
    rw [hsplit] at h ⊢
    have hnext : 10 * value + d.val < significandBound := by
      refine Nat.lt_of_le_of_lt ?_ h
      exact (Nat.le_mul_of_pos_right _ (tenTo_pos _)).trans (Nat.le_add_right _ _)
    simp only [ofWhole]
    rw [if_pos hnext, ih h]

/-- The number that a significand stands for. -/
def toRat (s : Significand) : ℚ := s.value * 10 ^ s.power

/-- The digits behind the point add no more than they stand for. -/
theorem toRat_withFraction_le (ds : List Digit) (s : Significand) :
    (s.withFraction ds).toRat
      ≤ s.toRat + Digits.value ds * 10 ^ (s.power - (ds.length : Int)) := by
  induction ds generalizing s with
  | nil => simp [withFraction]
  | cons d rest ih =>
    simp only [withFraction]
    split
    · refine (ih _).trans (le_of_eq ?_)
      unfold toRat
      rw [Digits.value_cons]
      have hprev : (10 : ℚ) ^ s.power = 10 ^ (s.power - 1) * 10 := by
        rw [← zpow_add_one₀ (by norm_num)]
        congr 1
        omega
      have hlast : (10 : ℚ) ^ (s.power - 1)
          = 10 ^ (s.power - 1 - (rest.length : Int)) * 10 ^ (rest.length : Int) := by
        rw [← zpow_add₀ (by norm_num)]
        congr 1
        omega
      have hsame : s.power - ((d :: rest).length : Int) = s.power - 1 - (rest.length : Int) := by
        rw [List.length_cons]
        omega
      push_cast
      rw [cast_tenTo, hsame, hprev, hlast]
      ring
    · have : (0 : ℚ) ≤ Digits.value (d :: rest) * 10 ^ (s.power - ((d :: rest).length : Int)) := by
        positivity
      linarith

end Setting.Significand

/-! ## §2 Finiteness -/

namespace Setting

open Binary64 (overflow roundedUnits one)

/-- Numbers up to this one are read, whatever digits they are written with: the
largest that rounds to a float below the largest float. -/
def room : Nat := twoTo 1024 - 3 * twoTo 970

/-- The numbers at the ends of the ranges, computed once: the first significand of
more than 64 bits, the largest power of ten, one, and the room beside them. -/
theorem ends :
    ((Binary64.ofNat significandBound).isFinite = true ∧
      (Binary64.ofNat significandBound).magnitude = significandBound * one) ∧
    (powerOfTen 308).isFinite = true ∧ (Binary64.ofNat 1).magnitude = one ∧
    room < tenTo 309 ∧ significandBound * tenTo 288 ≤ room := by
  decide +kernel

/-- Numbers of 64 bits are finite. -/
theorem isFinite_ofNat_bound : (Binary64.ofNat significandBound).isFinite = true := ends.1.1

theorem roundedUnits_bound : roundedUnits significandBound 1 = significandBound * one :=
  (Binary64.magnitude_ofQuotient Nat.one_pos isFinite_ofNat_bound).symm.trans ends.1.2

theorem roundedUnits_bound_lt : roundedUnits significandBound 1 < overflow :=
  (Binary64.isFinite_ofQuotient false Nat.one_pos).mp isFinite_ofNat_bound

theorem ofNat_significand {n : Nat} (h : n < significandBound) :
    (Binary64.ofNat n).isFinite = true ∧
      (Binary64.ofNat n).magnitude ≤ significandBound * one := by
  obtain ⟨hfinite, hle⟩ := Binary64.ofNat_mono (Nat.le_of_lt h) isFinite_ofNat_bound
  exact ⟨hfinite, hle.trans_eq ends.1.2⟩

/-- The powers of ten up to the largest are finite, and at least one. -/
theorem powerOfTen_of_le {e : Nat} (h : e ≤ 308) :
    (powerOfTen e).isFinite = true ∧ one ≤ (powerOfTen e).magnitude := by
  obtain ⟨-, hmax, hone, -⟩ := ends
  obtain ⟨hfinite, -⟩ := Binary64.ofNat_mono (tenTo_le h) hmax
  exact ⟨hfinite, hone ▸ (Binary64.ofNat_mono (tenTo_pos e) hfinite).2⟩

/-- What a significand stands for is finite, if there is anything. -/
theorem isFinite_scaled? {s : Significand} (hs : s.value < significandBound) {y : Binary64}
    (h : s.scaled? = some y) : y.isFinite = true := by
  obtain ⟨hx, hxn⟩ := ofNat_significand hs
  have hn := roundedUnits_bound_lt
  unfold Significand.scaled? at h
  dsimp only at h
  split at h
  · split at h
    · exact (Option.filter_eq_some_iff.mp h).2
    · split at h
      · cases h
        exact hx
      · cases h
  · split at h
    · rename_i hplaces
      cases h
      obtain ⟨hp, hone⟩ := powerOfTen_of_le hplaces
      exact (Binary64.isFinite_div_of_le hx hxn hn hp hone).1
    · split at h
      · rename_i hplaces
        cases h
        obtain ⟨hp, hone⟩ := powerOfTen_of_le (Nat.le_refl 308)
        obtain ⟨hp', hone'⟩ := powerOfTen_of_le (e := (-s.power).toNat - 308) (by omega)
        obtain ⟨hfirst, hfirstn⟩ := Binary64.isFinite_div_of_le hx hxn hn hp hone
        rw [roundedUnits_bound] at hfirstn
        exact (Binary64.isFinite_div_of_le hfirst hfirstn hn hp' hone').1
      · cases h
        rfl

/-- The significand that is read of a numeral. -/
def significand (n : Numeral) : Significand :=
  (Significand.ofWhole (Digits.ofNat n.whole) 0).withFraction n.fraction

theorem significand_lt (n : Numeral) : (significand n).value < significandBound :=
  Significand.withFraction_value_lt _ (Significand.ofWhole_value_lt _ (by decide))

/-- **Every float that is read is finite.** -/
theorem isFinite_floatOfNumeral? {n : Numeral} {y : Binary64} (h : floatOfNumeral? n = some y) :
    y.isFinite = true := by
  unfold floatOfNumeral? at h
  dsimp only at h
  obtain ⟨x, hx, rfl⟩ := Option.map_eq_some_iff.mp h
  have hfinite : x.isFinite = true := by
    split at hx
    · refine isFinite_scaled? ?_ hx
      exact significand_lt n
    · split at hx
      · cases hx
        rfl
      · cases hx
  split
  · rwa [Binary64.isFinite_neg]
  · exact hfinite

/-! ## §3 Room -/

/-- The largest product for each of the last powers of ten. -/
theorem isFinite_mul_last : ∀ k < 21,
    ((Binary64.ofNat (min (room / tenTo (288 + k)) significandBound)).mul
      (powerOfTen (288 + k))).isFinite = true := by
  decide +kernel

/-- A product that has room is finite. -/
theorem isFinite_mul_room {n e : Nat} (hn : n < significandBound) (he : e ≤ 308)
    (h : n * tenTo e ≤ room) : ((Binary64.ofNat n).mul (powerOfTen e)).isFinite = true := by
  have hlast : ∀ e, 288 ≤ e → e ≤ 308 → n * tenTo e ≤ room →
      ((Binary64.ofNat n).mul (powerOfTen e)).isFinite = true := by
    intro e hlow he h
    obtain ⟨hx, -⟩ := ofNat_significand hn
    obtain ⟨hp, -⟩ := powerOfTen_of_le he
    have hle : n ≤ min (room / tenTo e) significandBound :=
      le_min ((Nat.le_div_iff_mul_le (tenTo_pos _)).mpr h) hn.le
    obtain ⟨hx', -⟩ := Binary64.ofNat_mono (min_le_right (room / tenTo e) _) isFinite_ofNat_bound
    have hmax := isFinite_mul_last (e - 288) (by omega)
    rw [Nat.add_sub_cancel' hlow] at hmax
    exact Binary64.isFinite_mul_of_le hx hp hx' hp (Binary64.ofNat_mono hle hx').2 le_rfl hmax
  rcases Nat.le_total 288 e with hlow | hsmall
  · exact hlast e hlow he h
  · -- below the last powers any product of 64 bits has room
    obtain ⟨hx, -⟩ := ofNat_significand hn
    obtain ⟨hp, -⟩ := powerOfTen_of_le he
    obtain ⟨hp', -⟩ := powerOfTen_of_le (e := 288) (by decide)
    have hroom : n * tenTo 288 ≤ room := (Nat.mul_le_mul_right _ hn.le).trans ends.2.2.2.2
    exact Binary64.isFinite_mul_of_le hx hp hx hp' le_rfl
      (Binary64.ofNat_mono (tenTo_le hsmall) hp').2 (hlast 288 le_rfl (by decide) hroom)

theorem room_lt : room < tenTo 309 := ends.2.2.2.1

theorem exists_scaled? {s : Significand} (hs : s.value < significandBound)
    (hle : s.toRat ≤ room) : ∃ y, s.scaled? = some y := by
  unfold Significand.scaled?
  dsimp only
  split
  · rename_i hpower
    have hroom : s.value * tenTo s.power.toNat ≤ room := by
      unfold Significand.toRat at hle
      rw [← Int.toNat_of_nonneg hpower, ← cast_tenTo] at hle
      exact_mod_cast hle
    split
    · exact ⟨_, Option.filter_eq_some_iff.mpr ⟨rfl, isFinite_mul_room hs (by omega) hroom⟩⟩
    · rename_i hlarge
      split
      · exact ⟨_, rfl⟩
      · rename_i hvalue
        have hten : tenTo 309 ≤ tenTo s.power.toNat := tenTo_le (by omega)
        have hone : tenTo s.power.toNat ≤ s.value * tenTo s.power.toNat :=
          Nat.le_mul_of_pos_left _ (Nat.pos_of_ne_zero hvalue)
        exact absurd room_lt (Nat.not_lt.mpr ((hten.trans hone).trans hroom))
  · split
    · exact ⟨_, rfl⟩
    · split <;> exact ⟨_, rfl⟩

/-- What is read of a numeral with no more than 64 bits before the point is no more
than it writes. -/
theorem toRat_significand_le {n : Numeral} (h : n.whole < significandBound) :
    (significand n).toRat * 10 ^ n.exponent.getD 0 ≤ (Decimal.ofNumeral n).toRat := by
  have hwhole : Significand.ofWhole (Digits.ofNat n.whole) 0 = ⟨n.whole, 0⟩ := by
    have hvalue : 0 * tenTo (Digits.ofNat n.whole).length + Digits.value (Digits.ofNat n.whole)
        = n.whole := by
      rw [Nat.zero_mul, Nat.zero_add, Digits.value_ofNat]
    rw [Significand.ofWhole_of_lt (hvalue.trans_lt h), hvalue]
  have hle := Significand.toRat_withFraction_le n.fraction ⟨n.whole, 0⟩
  unfold significand
  rw [hwhole]
  refine (mul_le_mul_of_nonneg_right hle (by positivity)).trans (le_of_eq ?_)
  unfold Significand.toRat Decimal.toRat Decimal.ofNumeral
  dsimp only
  push_cast
  rw [cast_tenTo, zpow_sub₀ (by norm_num), zpow_sub₀ (by norm_num)]
  field_simp

/-- **A numeral with room is read**, unless its power of ten is out of bounds. -/
theorem exists_floatOfNumeral? {n : Numeral} (hwhole : n.whole < significandBound)
    (hexponent : n.exponent.getD 0 ≤ powerBound ∨ (Decimal.ofNumeral n).toRat = 0)
    (hle : (Decimal.ofNumeral n).toRat ≤ room) : ∃ y, floatOfNumeral? n = some y := by
  have hread := toRat_significand_le hwhole
  unfold floatOfNumeral?
  dsimp only
  have hsome : ∃ x, (if (n.exponent.getD 0).natAbs ≤ powerBound
      then Significand.scaled? { significand n with
        power := (significand n).power + n.exponent.getD 0 }
      else if n.exponent.getD 0 < 0 ∨ (significand n).value = 0 then some (.zero false)
      else none) = some x := by
    split
    · refine exists_scaled? (significand_lt n) (le_trans (le_of_eq ?_) (hread.trans hle))
      unfold Significand.toRat
      rw [zpow_add₀ (by norm_num)]
      ring
    · rename_i hlarge
      rw [if_pos]
      · exact ⟨_, rfl⟩
      · rcases hexponent with hsmall | hzero
        · exact Or.inl (by omega)
        · right
          rw [hzero] at hread
          have hpos : (0 : ℚ) < 10 ^ (significand n).power * 10 ^ n.exponent.getD 0 := by positivity
          unfold Significand.toRat at hread
          rw [mul_assoc] at hread
          have hvalue : ((significand n).value : ℚ) ≤ 0 := nonpos_of_mul_nonpos_left hread hpos
          exact Nat.le_zero.mp (by exact_mod_cast hvalue)
  obtain ⟨x, hx⟩ := hsome
  exact ⟨_, Option.map_eq_some_iff.mpr ⟨x, hx, rfl⟩⟩

/-! ## §4 Documents -/

/-- In a document at most sixteen digits stand before the point. -/
theorem whole_lt_of_document (d : Decimal) :
    (if FloatStyle.document.positional (d.magnitude - 1)
      then FloatStyle.positionalNumeral FloatStyle.document.pointOnWhole d
      else FloatStyle.scientificNumeral d).whole < significandBound := by
  split
  · rename_i hpositional
    have hmagnitude : d.magnitude ≤ 16 := by
      simp only [FloatStyle.document, Bool.and_eq_true, decide_eq_true_eq] at hpositional
      omega
    have hwhole := Decimal.whole_le_toRat
      (FloatStyle.positionalNumeral FloatStyle.document.pointOnWhole d)
    rw [FloatStyle.exponent_positionalNumeral, Option.getD_none, zpow_zero, mul_one,
      FloatStyle.toRat_positionalNumeral] at hwhole
    have hpower : (10 : ℚ) ^ d.magnitude ≤ 10 ^ (16 : Int) :=
      zpow_le_zpow_right₀ (by norm_num) hmagnitude
    have hlt := (hwhole.trans_lt d.toRat_lt).trans_le hpower
    have hcast : (10 : ℚ) ^ (16 : Int) = ((10 ^ 16 : Nat) : ℚ) := by norm_num
    rw [hcast] at hlt
    exact (Nat.cast_lt.mp hlt).trans (by decide)
  · refine (Digits.value_lt _).trans_le ((tenTo_le (b := 1) ?_).trans (by decide))
    rw [List.length_take]
    exact min_le_left _ _

/-- Where there is room, the power of ten is in bounds. -/
theorem exponent_le_of_document {d : Decimal} (hle : d.toRat ≤ room) :
    (if FloatStyle.document.positional (d.magnitude - 1)
      then FloatStyle.positionalNumeral FloatStyle.document.pointOnWhole d
      else FloatStyle.scientificNumeral d).exponent.getD 0 ≤ powerBound ∨ d.toRat = 0 := by
  by_cases hdigits : d.digits = 0
  · right
    simp [Decimal.toRat, hdigits]
  · left
    split
    · rw [FloatStyle.exponent_positionalNumeral]
      decide
    · have hroom : (room : ℚ) < 10 ^ (309 : Int) := by
        refine (Nat.cast_lt.mpr room_lt).trans_eq ?_
        exact cast_tenTo 309
      have hlt := ((Decimal.le_toRat hdigits).trans hle).trans_lt hroom
      have hmagnitude : d.magnitude - 1 < 309 := (zpow_lt_zpow_iff_right₀ (by norm_num)).mp hlt
      have hbound : (309 : Int) ≤ powerBound := by decide
      simp only [FloatStyle.scientificNumeral, Option.getD_some]
      omega

end Setting

namespace Binary64

open Setting (room)

variable {x : Binary64} {mantissa exponent : Nat}

theorem room_quarters :
    room * RoundingInterval.quartersOfOne = (twoTo 55 - 6) * twoTo 2045 := by
  have hfour : 4 = twoTo 2 := by decide
  have hsix : twoTo 55 - 6 = (twoTo 54 - 3) * twoTo 1 := by decide
  have hroom : room = (twoTo 54 - 3) * twoTo 970 := by
    unfold room
    rw [Nat.sub_mul, ← twoTo_add]
  have hpowers : twoTo 970 * (twoTo 2 * twoTo 1074) = twoTo 1 * twoTo 2045 := by
    rw [← twoTo_add, ← twoTo_add, ← twoTo_add]
  unfold RoundingInterval.quartersOfOne one
  rw [hroom, hfour, hsix, Nat.mul_assoc, Nat.mul_assoc, hpowers]

/-- All floats but the largest have room. -/
theorem high_le (h : Canonical mantissa exponent)
    (hmax : ¬(mantissa = twoTo 53 - 1 ∧ exponent = 2045)) :
    (RoundingInterval.of mantissa exponent).high ≤ room * RoundingInterval.quartersOfOne := by
  obtain ⟨hmantissa, hexponent, -⟩ := h
  have htwo : twoTo 1 = 2 := by decide
  have hthree : 3 ≤ twoTo 53 := by decide
  have hfour : twoTo 55 = 4 * twoTo 53 := by decide
  have hhigh : (RoundingInterval.of mantissa exponent).high
      = (4 * mantissa + 2) * twoTo exponent := by
    simp only [RoundingInterval.of]
    ring
  rw [hhigh, room_quarters]
  rcases Nat.lt_or_eq_of_le hexponent with hlt | heq
  · have hdouble : twoTo 2045 = twoTo 1 * twoTo 2044 := twoTo_add 1 2044
    calc (4 * mantissa + 2) * twoTo exponent
        ≤ (4 * mantissa + 2) * twoTo 2044 := Nat.mul_le_mul_left _ (twoTo_le (by omega))
      _ ≤ ((twoTo 55 - 6) * twoTo 1) * twoTo 2044 := by
          rw [htwo]
          exact Nat.mul_le_mul_right _ (by omega)
      _ = (twoTo 55 - 6) * twoTo 2045 := by rw [hdouble, Nat.mul_assoc]
  · subst heq
    exact Nat.mul_le_mul_right _ (by omega)

/-- The largest float is read. -/
theorem reread?_max : ∀ negative : Bool,
    (Binary64.finite negative (twoTo 53 - 1) 2045 (by decide)).reread?.isSome = true := by
  decide +kernel

/-- **A float can be read back exactly if it is finite.** -/
theorem reread?_isSome_iff : x.reread?.isSome = true ↔ x.isFinite = true := by
  cases x with
  | nan => simp [reread?, FloatStyle.numeral?, isFinite]
  | infinite negative => simp [reread?, FloatStyle.numeral?, isFinite]
  | finite negative mantissa exponent hc =>
    refine iff_of_true ?_ rfl
    by_cases hmax : mantissa = twoTo 53 - 1 ∧ exponent = 2045
    · obtain ⟨rfl, rfl⟩ := hmax
      exact reread?_max negative
    · have hquarters : (0 : ℚ) < RoundingInterval.quartersOfOne := by
        exact Nat.cast_pos.mpr (Nat.mul_pos (by decide) (twoTo_pos 1074))
      have hroom : (Decimal.shortest .even negative mantissa exponent).toRat ≤ room := by
        refine le_of_mul_le_mul_right ?_ hquarters
        refine (Decimal.toRat_shortest_le .even negative mantissa exponent).trans ?_
        exact_mod_cast high_le hc hmax
      refine Option.isSome_iff_exists.mpr (Setting.exists_floatOfNumeral?
        (Setting.whole_lt_of_document _) ?_ ?_)
      · rw [FloatStyle.toRat_numeral]
        exact Setting.exponent_le_of_document hroom
      · rw [FloatStyle.toRat_numeral]
        exact hroom

end Binary64

end SettingProfiles
