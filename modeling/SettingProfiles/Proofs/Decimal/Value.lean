/-
SettingProfiles.Proofs.Decimal.Value — the rational numbers that decimals write.

A numeral in either style writes the number that it was made from, and the
shortest decimal of a float lies in the interval of the numbers that round to
the float.

  §1 Values    — `Decimal.toRat`.
  §2 Styles    — numerals with and without a power of ten.
  §3 Intervals — the shortest decimal is not above the interval.
-/
import Mathlib.Algebra.Order.Field.Power
import Mathlib.Algebra.Order.Ring.Rat
import Mathlib.Tactic.FieldSimp
import Mathlib.Tactic.Linarith
import Mathlib.Tactic.Positivity
import Mathlib.Tactic.Ring
import SettingProfiles.Decimal.Style
import SettingProfiles.Proofs.Decimal.Digits

namespace SettingProfiles

/-! ## §1 Values -/

theorem cast_tenTo (e : Nat) : ((tenTo e : Nat) : ℚ) = 10 ^ (e : Int) := by
  simp [tenTo]

namespace Decimal

/-- The magnitude of the number that a decimal writes. -/
def toRat (d : Decimal) : ℚ := d.digits * 10 ^ d.exponent

/-- The magnitude in terms of the digits. -/
theorem magnitude_eq (d : Decimal) :
    d.magnitude = (Digits.ofNat d.digits).length + d.exponent := by
  simp [magnitude, Digits.ofNat]

/-- A decimal with digits is at least its leading power of ten. -/
theorem le_toRat {d : Decimal} (h : d.digits ≠ 0) : (10 : ℚ) ^ (d.magnitude - 1) ≤ d.toRat := by
  have hpos := Digits.length_ofNat_pos d.digits
  have hdigits : (10 : ℚ) ^ (((Digits.ofNat d.digits).length - 1 : Nat) : Int) ≤ d.digits := by
    rw [← cast_tenTo]
    exact_mod_cast Digits.tenTo_length_le h
  have hsplit : d.magnitude - 1
      = (((Digits.ofNat d.digits).length - 1 : Nat) : Int) + d.exponent := by
    rw [magnitude_eq]
    omega
  rw [hsplit, zpow_add₀ (by norm_num)]
  exact mul_le_mul_of_nonneg_right hdigits (by positivity)

/-- A decimal is below the power of ten above its magnitude. -/
theorem toRat_lt (d : Decimal) : d.toRat < 10 ^ d.magnitude := by
  have hdigits : (d.digits : ℚ) < 10 ^ ((Digits.ofNat d.digits).length : Int) := by
    rw [← cast_tenTo]
    have hlt := Digits.value_lt (Digits.ofNat d.digits)
    rw [Digits.value_ofNat] at hlt
    exact_mod_cast hlt
  rw [magnitude_eq, zpow_add₀ (by norm_num)]
  exact mul_lt_mul_of_pos_right hdigits (by positivity)

/-- The digits before the point write no more than the whole numeral. -/
theorem whole_le_toRat (n : Numeral) :
    (n.whole : ℚ) * 10 ^ n.exponent.getD 0 ≤ (ofNumeral n).toRat := by
  have hsplit : (10 : ℚ) ^ n.exponent.getD 0
      = 10 ^ (n.fraction.length : Int) * 10 ^ (n.exponent.getD 0 - n.fraction.length) := by
    rw [← zpow_add₀ (by norm_num)]
    congr 1
    omega
  unfold toRat ofNumeral
  dsimp only
  push_cast
  rw [cast_tenTo, hsplit, ← mul_assoc]
  refine mul_le_mul_of_nonneg_right ?_ (by positivity)
  exact le_add_of_nonneg_right (Nat.cast_nonneg _)

end Decimal

/-! ## §2 Styles -/

namespace FloatStyle

theorem toRat_positionalNumeral (point : Bool) (d : Decimal) :
    (Decimal.ofNumeral (positionalNumeral point d)).toRat = d.toRat := by
  unfold positionalNumeral
  split
  · rename_i hexponent
    have hpower : (10 : ℚ) ^ d.exponent = ((tenTo d.exponent.toNat : Nat) : ℚ) := by
      rw [cast_tenTo, Int.toNat_of_nonneg hexponent]
    cases point with
    | false => simp [Decimal.ofNumeral, Decimal.toRat, hpower, tenTo]
    | true =>
      have hvalue : Digits.value [Digit.zero] = 0 := Digits.value_zeros 1
      simp only [Decimal.ofNumeral, Decimal.toRat, if_true, hvalue, hpower, List.length_singleton,
        Option.getD_none]
      push_cast
      simp [tenTo]
  · rename_i hexponent
    have hlength : (Digits.padded (-d.exponent).toNat
        (d.digits % tenTo (-d.exponent).toNat)).length = (-d.exponent).toNat :=
      Digits.length_padded (by omega) (Nat.mod_lt _ (tenTo_pos _))
    have hsame : Decimal.ofNumeral
        { negative := d.negative
          whole := d.digits / tenTo (-d.exponent).toNat
          fraction := Digits.padded (-d.exponent).toNat (d.digits % tenTo (-d.exponent).toNat)
          exponent := none } = d := by
      obtain ⟨negative, digits, exponent⟩ := d
      simp only [Decimal.ofNumeral, hlength, Digits.value_padded, Decimal.mk.injEq, true_and,
        Option.getD_none]
      refine ⟨Nat.div_add_mod' _ _, ?_⟩
      dsimp only at hexponent
      omega
    rw [hsame]

@[simp] theorem exponent_positionalNumeral (point : Bool) (d : Decimal) :
    (positionalNumeral point d).exponent = none := by
  unfold positionalNumeral
  split <;> rfl

/-- A number written with a power of ten is the decimal that was given. -/
theorem ofNumeral_scientificNumeral (d : Decimal) :
    Decimal.ofNumeral (scientificNumeral d) = d := by
  obtain ⟨negative, digits, exponent⟩ := d
  have hpos := Digits.length_ofNat_pos digits
  have hvalue : Digits.value ((Digits.ofNat digits).take 1)
      * tenTo ((Digits.ofNat digits).drop 1).length + Digits.value ((Digits.ofNat digits).drop 1)
      = digits := by
    rw [← Digits.value_append, List.take_append_drop, Digits.value_ofNat]
  simp only [Decimal.ofNumeral, scientificNumeral, Decimal.mk.injEq, true_and, Option.getD_some,
    Decimal.magnitude_eq]
  refine ⟨hvalue, ?_⟩
  rw [List.length_drop]
  omega

/-- A numeral writes the decimal that it was made from. -/
theorem toRat_numeral (style : FloatStyle) (d : Decimal) :
    (Decimal.ofNumeral (if style.positional (d.magnitude - 1)
      then positionalNumeral style.pointOnWhole d else scientificNumeral d)).toRat = d.toRat := by
  split
  · exact toRat_positionalNumeral _ d
  · rw [ofNumeral_scientificNumeral]

end FloatStyle

/-! ## §3 Intervals -/

namespace RoundingInterval

/-- Ten to a power, in quarters of a unit, as a fraction. -/
def gridStep (power : Int) : Nat × Nat :=
  (if 0 ≤ power then tenTo power.toNat * quartersOfOne else quartersOfOne,
    if 0 ≤ power then 1 else tenTo (-power).toNat)

/-- A grid point that is found lies in the interval. -/
theorem contains_of_gridPoint? {i : RoundingInterval} {tie : Tie} {power : Int} {digits : Nat}
    (h : i.gridPoint? tie power = some digits) :
    i.contains (digits * (gridStep power).1) (gridStep power).2 = true := by
  unfold gridPoint? at h
  unfold gridStep
  dsimp only at h ⊢
  generalize (if 0 ≤ power then tenTo power.toNat * quartersOfOne else quartersOfOne) = num at h ⊢
  generalize (if 0 ≤ power then 1 else tenTo (-power).toNat) = den at h ⊢
  split at h
  · cases h
  · cases h
    assumption
  · cases h
    assumption
  · rename_i hbelow habove
    split at h
    · cases h
      exact hbelow
    · split at h
      · cases h
        exact habove
      · split at h
        · cases h
          exact habove
        · cases h
          split
          · exact hbelow
          · exact habove

theorem le_high_of_contains {i : RoundingInterval} {num den : Nat}
    (h : i.contains num den = true) : num ≤ i.high * den := by
  unfold contains at h
  split at h
  · rw [Bool.and_eq_true, decide_eq_true_eq, decide_eq_true_eq] at h
    exact h.2
  · rw [Bool.and_eq_true, decide_eq_true_eq, decide_eq_true_eq] at h
    exact Nat.le_of_lt h.2

/-- A decimal of the grid that lies in the interval is not above it. -/
theorem toRat_le_of_gridPoint? {i : RoundingInterval} {tie : Tie} {power : Int} {digits : Nat}
    (h : i.gridPoint? tie power = some digits) (negative : Bool) :
    (Decimal.mk negative digits power).toRat * quartersOfOne ≤ i.high := by
  have hle := le_high_of_contains (contains_of_gridPoint? h)
  unfold gridStep at hle
  unfold Decimal.toRat
  dsimp only at hle ⊢
  by_cases hpower : 0 ≤ power
  · rw [if_pos hpower, if_pos hpower, Nat.mul_one] at hle
    have hcast : (digits : ℚ) * (((tenTo power.toNat : Nat) : ℚ) * quartersOfOne) ≤ i.high := by
      exact_mod_cast hle
    rw [cast_tenTo, Int.toNat_of_nonneg hpower] at hcast
    linarith
  · rw [if_neg hpower, if_neg hpower] at hle
    have hcast : (digits : ℚ) * quartersOfOne ≤ i.high * ((tenTo (-power).toNat : Nat) : ℚ) := by
      exact_mod_cast hle
    rw [cast_tenTo, Int.toNat_of_nonneg (by omega), zpow_neg] at hcast
    have hpos : (0 : ℚ) < 10 ^ power := by positivity
    calc (digits : ℚ) * 10 ^ power * quartersOfOne
        = digits * quartersOfOne * 10 ^ power := by ring
      _ ≤ i.high * (10 ^ power)⁻¹ * 10 ^ power := mul_le_mul_of_nonneg_right hcast hpos.le
      _ = i.high := by field_simp

end RoundingInterval

namespace Decimal

/-- Leaving zeros at the end out makes no number larger. -/
theorem toRat_trimZeros_le (d : Decimal) : d.trimZeros.toRat ≤ d.toRat := by
  unfold trimZeros
  dsimp only
  split
  · exact le_refl _
  · generalize ((Digits.ofNat d.digits).reverse.takeWhile (· = Digit.zero)).length = zeros
    have hle : (((d.digits / tenTo zeros : Nat) : ℚ)) * 10 ^ (zeros : Int) ≤ d.digits := by
      rw [← cast_tenTo]
      exact_mod_cast Nat.div_mul_le_self d.digits (tenTo zeros)
    unfold toRat
    dsimp only
    rw [zpow_add₀ (by norm_num)]
    calc ((d.digits / tenTo zeros : Nat) : ℚ) * (10 ^ d.exponent * 10 ^ (zeros : Int))
        = ((d.digits / tenTo zeros : Nat) : ℚ) * 10 ^ (zeros : Int) * 10 ^ d.exponent := by ring
      _ ≤ d.digits * 10 ^ d.exponent := mul_le_mul_of_nonneg_right hle (by positivity)

/-- **The shortest decimal of a float is not above the numbers that round to it.** -/
theorem toRat_shortest_le (tie : Tie) (negative : Bool) (mantissa exponent : Nat) :
    (shortest tie negative mantissa exponent).toRat * RoundingInterval.quartersOfOne
      ≤ (RoundingInterval.of mantissa exponent).high := by
  have hzero : (Decimal.mk negative 0 0).toRat * RoundingInterval.quartersOfOne
      ≤ (RoundingInterval.of mantissa exponent).high := by
    unfold toRat
    rw [Nat.cast_zero, zero_mul, zero_mul]
    exact Nat.cast_nonneg _
  unfold shortest
  split
  · exact hzero
  · dsimp only
    refine (mul_le_mul_of_nonneg_right (toRat_trimZeros_le _) (Nat.cast_nonneg _)).trans ?_
    cases hfound : (List.range 17).findSome? fun (more : Nat) =>
        ((RoundingInterval.of mantissa exponent).gridPoint? tie
          ((RoundingInterval.of mantissa exponent).leadingPower - more)).map fun digits =>
        (⟨negative, digits, (RoundingInterval.of mantissa exponent).leadingPower - more⟩ : Decimal)
      with
    | none => exact hzero
    | some d =>
      obtain ⟨more, -, hd⟩ := List.exists_of_findSome?_eq_some hfound
      obtain ⟨digits, hdigits, rfl⟩ := Option.map_eq_some_iff.mp hd
      exact RoundingInterval.toRat_le_of_gridPoint? hdigits negative

end Decimal

end SettingProfiles
